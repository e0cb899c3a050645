/-
  WorkflowEditor.Scope.Typing
  ───────────────────────────
  **THE TYPE BEHIND A REFERENCE.**

  A reference leads to a field, whose type may be that of a further
  reference, and so on.  The chain ends at a field of known type, at a
  field that does not exist, or at a reference that is on the chain
  already; the last two have no type that could be determined.

  No reference comes twice, and each but the first is named by some field
  of the graph, so the number of such fields bounds the chain.

  No Mathlib.
-/
import WorkflowEditor.Scope.Outputs

namespace WorkflowEditor

/-- The namespace of the system's variables. -/
def systemSpace : String := "sys"

/-- The namespace of the conversation's variables. -/
def conversationSpace : String := "conv"

namespace Graph

variable {α : Type}

/-- The type of the conversation variable with a name. -/
def conversationType (g : Graph α) (name : String) : VariableType :=
  match g.vars.find? fun v => v.name == name with
  | some v => .ofTag v.dataType
  | none => .any

/-- The type behind a reference at the end of a chain. -/
def typeAlong (g : Graph α) : Nat → List String → String → VariableType
  | 0, _, _ => .any
  | fuel + 1, chain, reference =>
      match splitReference? reference with
      | none => .any
      | some (space, name) =>
          if space = systemSpace then .string
          else if space = conversationSpace then g.conversationType name
          else if chain.contains reference then .any
          else
            match (g.node? space).bind fun node => node.field? name with
            | none => .any
            | some field =>
                match field.source with
                | .known type => type
                | .sameAs next => g.typeAlong fuel (reference :: chain) next
                | .elementOf next => (g.typeAlong fuel (reference :: chain) next).element

/-- More links than a chain of references can have. -/
def chainBound (g : Graph α) : Nat := (g.nodes.flatMap Node.fields).length + 2

/-- The type behind a reference. -/
def typeOf (g : Graph α) (reference : String) : VariableType :=
  g.typeAlong g.chainBound [] reference

/-- The type of a field. -/
def fieldType (g : Graph α) (field : OutputField) : VariableType :=
  match field.source with
  | .known type => type
  | .sameAs reference => g.typeOf reference
  | .elementOf reference => (g.typeOf reference).element

end Graph

end WorkflowEditor
