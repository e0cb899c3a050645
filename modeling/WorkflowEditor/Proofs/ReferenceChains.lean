/-
  WorkflowEditor.Proofs.ReferenceChains
  ─────────────────────────────────────
  **THE TYPE BEHIND A REFERENCE IS READ OFF WHAT IT NAMES.**

  A reference leads to a type, or to another reference, and so on.  The
  search for the type is bounded, and it keeps the references on its way to
  notice that it goes in a circle.  Neither shows in what it finds:

    • `reference_cases`, `Graph.link` — what a reference may be, and what it
      says of its type,
    • `Graph.Trail` — the references on the way to another one,
      of which there are fewer than the bound (`Trail.length_lt`),
    • `Graph.typeAlong_of_not_ends` — a chain that does not end has no type,
    • `Graph.Ends.typeAlong_eq` — one that ends has the same type on every
      way,
    • `Graph.typeOf_eq_read` — so a reference has the type that it says,
      also in a circle.
-/
import WorkflowEditor.Scope.Typing
import WorkflowEditor.Proofs.WellFormed
import Mathlib.Data.List.Nodup
import Mathlib.Data.List.Perm.Subperm
import Mathlib.Logic.Relation

namespace WorkflowEditor

/-! ## §1. What a reference says of its type. -/

namespace TypeSource

/-- The reference that a type depends on. -/
def next? : TypeSource → Option String
  | .known _ => none
  | .sameAs reference | .elementOf reference => some reference

/-- The type, given the types behind references. -/
def read (types : String → VariableType) : TypeSource → VariableType
  | .known type => type
  | .sameAs reference => types reference
  | .elementOf reference => (types reference).element

/-- A type depends on one other reference at most. -/
theorem read_congr {source : TypeSource} {types types' : String → VariableType}
    (h : ∀ next, source.next? = some next → types next = types' next) :
    source.read types = source.read types' := by
  cases source with
  | known type => rfl
  | sameAs reference => exact h reference rfl
  | elementOf reference => exact congrArg VariableType.element (h reference rfl)

/-- A type that depends on `any` is `any`. -/
theorem read_any {source : TypeSource} {types : String → VariableType}
    (hnext : source.next?.isSome) (h : ∀ next, source.next? = some next → types next = .any) :
    source.read types = .any := by
  cases source with
  | known type => cases hnext
  | sameAs reference => exact h reference rfl
  | elementOf reference => exact congrArg VariableType.element (h reference rfl)

end TypeSource

/-- A reference names a field of a node. -/
structure PointsAt (reference id name : String) : Prop where
  split : splitReference? reference = some (id, name)
  not_system : id ≠ systemSpace
  not_conversation : id ≠ conversationSpace

/-- **What a reference may be**: none at all, one to a variable of the system
or of the conversation, or one to a field of a node. -/
theorem reference_cases (reference : String) :
    splitReference? reference = none
      ∨ (∃ name, splitReference? reference = some (systemSpace, name))
      ∨ (∃ name, splitReference? reference = some (conversationSpace, name))
      ∨ ∃ id name, PointsAt reference id name := by
  cases hsplit : splitReference? reference with
  | none => exact .inl rfl
  | some parts =>
      obtain ⟨space, name⟩ := parts
      by_cases hsystem : space = systemSpace
      · exact .inr (.inl ⟨name, by rw [hsystem]⟩)
      by_cases hconversation : space = conversationSpace
      · exact .inr (.inr (.inl ⟨name, by rw [hconversation]⟩))
      exact .inr (.inr (.inr ⟨space, name, hsplit, hsystem, hconversation⟩))

namespace Graph

variable {α : Type} {g : Graph α} {chain : List String} {reference next : String} {fuel : Nat}

/-- The type of a field is read off its source. -/
theorem fieldType_eq_read (g : Graph α) (field : OutputField) :
    g.fieldType field = field.source.read g.typeOf := by
  unfold fieldType
  cases field.source <;> rfl

/-- What a reference says of its type. -/
def link (g : Graph α) (reference : String) : TypeSource :=
  match splitReference? reference with
  | none => .known .any
  | some (space, name) =>
      if space = systemSpace then .known .string
      else if space = conversationSpace then .known (g.conversationType name)
      else
        (((g.node? space).bind fun node => node.field? name).map OutputField.source).getD
          (.known .any)

section Link

variable {space name : String}

theorem link_of_none (h : splitReference? reference = none) : g.link reference = .known .any := by
  unfold link
  rw [h]

theorem link_of_system (h : splitReference? reference = some (systemSpace, name)) :
    g.link reference = .known .string := by
  unfold link
  rw [h]
  exact if_pos rfl

theorem link_of_conversation (h : splitReference? reference = some (conversationSpace, name)) :
    g.link reference = .known (g.conversationType name) := by
  unfold link
  rw [h]
  exact (if_neg (by decide)).trans (if_pos rfl)

/-- A reference to a field says what the field says of its type, and nothing if
there is no such field. -/
theorem link_of_node (h : PointsAt reference space name) :
    g.link reference = (((g.node? space).bind fun node => node.field? name).map
      OutputField.source).getD (.known .any) := by
  unfold link
  rw [h.split]
  exact (if_neg h.not_system).trans (if_neg h.not_conversation)

end Link

/-- A reference names another one, on which its type depends. -/
def Names (g : Graph α) (reference next : String) : Prop :=
  (g.link reference).next? = some next

/-- The references that fields name. -/
def named (g : Graph α) : List String :=
  (g.nodes.flatMap Node.fields).filterMap fun field => field.source.next?

theorem mem_named_of_field {node : Node α} (hnode : node ∈ g.nodes) {field : OutputField}
    (hfield : field ∈ node.fields) (hnext : field.source.next? = some next) : next ∈ g.named :=
  List.mem_filterMap.2 ⟨field, List.mem_flatMap.2 ⟨node, hnode, hfield⟩, hnext⟩

/-- What a reference depends on is named by a field of the graph. -/
theorem mem_named (h : g.Names reference next) : next ∈ g.named := by
  unfold Names link at h
  split at h
  · cases h
  split at h
  · cases h
  split at h
  · cases h
  rename_i space name _ _ _
  cases hfield : (g.node? space).bind fun node => node.field? name with
  | none =>
      rw [hfield] at h
      cases h
  | some field =>
      rw [hfield] at h
      obtain ⟨node, hnode, hfound⟩ := Option.bind_eq_some_iff.1 hfield
      exact mem_named_of_field (mem_of_node? hnode).1 (List.mem_of_find?_eq_some hfound) h

section Step

variable {space name : String}

theorem typeAlong_of_none (h : splitReference? reference = none) (fuel : Nat)
    (chain : List String) : g.typeAlong (fuel + 1) chain reference = .any := by
  rw [typeAlong, h]

theorem typeAlong_of_system (h : splitReference? reference = some (systemSpace, name))
    (fuel : Nat) (chain : List String) :
    g.typeAlong (fuel + 1) chain reference = .string := by
  rw [typeAlong, h]
  exact if_pos rfl

theorem typeAlong_of_conversation
    (h : splitReference? reference = some (conversationSpace, name)) (fuel : Nat)
    (chain : List String) :
    g.typeAlong (fuel + 1) chain reference = g.conversationType name := by
  rw [typeAlong, h]
  exact (if_neg (by decide)).trans (if_pos rfl)

/-- Only a reference to a field is looked for on the chain. -/
theorem typeAlong_of_node (h : PointsAt reference space name) (fuel : Nat) (chain : List String) :
    g.typeAlong (fuel + 1) chain reference
      = if reference ∈ chain then .any
        else (g.link reference).read (g.typeAlong fuel (reference :: chain)) := by
  rw [typeAlong, h.split]
  dsimp only
  rw [if_neg h.not_system, if_neg h.not_conversation, link_of_node h]
  by_cases hmem : reference ∈ chain
  · rw [if_pos (List.contains_iff_mem.2 hmem), if_pos hmem]
  · rw [if_neg fun hseen => hmem (List.contains_iff_mem.1 hseen), if_neg hmem]
    cases (g.node? space).bind fun node => node.field? name with
    | none => rfl
    | some field =>
        dsimp only [Option.map_some, Option.getD_some]
        cases field.source <;> rfl

end Step

/-- **One step of the search.**  Only references that name others can be met
again. -/
theorem typeAlong_succ (hchain : ∀ other ∈ chain, ∃ next, g.Names other next)
    (fuel : Nat) (reference : String) :
    g.typeAlong (fuel + 1) chain reference
      = if reference ∈ chain then .any
        else (g.link reference).read (g.typeAlong fuel (reference :: chain)) := by
  -- A reference of known type is on no chain.
  have hknown {type : VariableType} (hlink : g.link reference = .known type) :
      type = if reference ∈ chain then .any
        else (g.link reference).read (g.typeAlong fuel (reference :: chain)) := by
    have hnew : reference ∉ chain := by
      intro hmem
      obtain ⟨next, hnext⟩ := hchain reference hmem
      unfold Names at hnext
      rw [hlink] at hnext
      cases hnext
    rw [if_neg hnew, hlink]
    rfl
  rcases reference_cases reference with hsplit | ⟨name, hsplit⟩ | ⟨name, hsplit⟩
    | ⟨id, name, hpoints⟩
  · rw [typeAlong_of_none hsplit]
    exact hknown (link_of_none hsplit)
  · rw [typeAlong_of_system hsplit]
    exact hknown (link_of_system hsplit)
  · rw [typeAlong_of_conversation hsplit]
    exact hknown (link_of_conversation hsplit)
  · exact typeAlong_of_node hpoints fuel chain

/-! ## §2. The way to a reference. -/

/-- The references on the way to another one, the nearest first. -/
inductive Trail (g : Graph α) : List String → String → Prop
  | start (reference : String) : Trail g [] reference
  | step {chain : List String} {reference next : String} :
      Trail g chain reference → reference ∉ chain → g.Names reference next →
      Trail g (reference :: chain) next

namespace Trail

theorem names (h : g.Trail chain reference) : ∀ other ∈ chain, ∃ next, g.Names other next := by
  induction h with
  | start => exact fun _ hmem => nomatch hmem
  | step _ _ hnext ih => exact List.forall_mem_cons.2 ⟨⟨_, hnext⟩, ih⟩

/-- Everything on the way leads on. -/
theorem leads (h : g.Trail chain reference) :
    ∀ other ∈ chain, Relation.TransGen g.Names other reference := by
  induction h with
  | start => exact fun _ hmem => nomatch hmem
  | step _ _ hnext ih =>
      exact List.forall_mem_cons.2 ⟨.single hnext, fun other hmem => (ih other hmem).tail hnext⟩

/-- No reference is on the way twice. -/
theorem nodup (h : g.Trail chain reference) : chain.Nodup := by
  induction h with
  | start => exact List.nodup_nil
  | step _ hnew _ ih => exact List.nodup_cons.2 ⟨hnew, ih⟩

/-- Fields name everything but what the way begins with. -/
theorem dropLast_subset (h : g.Trail chain reference) :
    (reference :: chain).dropLast ⊆ g.named := by
  induction h with
  | start => exact List.nil_subset _
  | step _ _ hnext ih => exact List.cons_subset.2 ⟨mem_named hnext, ih⟩

/-- **The bound leaves room for every way.** -/
theorem length_lt (h : g.Trail chain reference) : chain.length < g.chainBound := by
  -- All but the first reference of a way are named by fields, and none comes twice.
  have hsubset : chain.dropLast ⊆ g.named := by
    cases h with
    | start => exact List.nil_subset _
    | step htrail _ _ => exact htrail.dropLast_subset
  have hnodup : chain.dropLast.Nodup := h.nodup.sublist chain.dropLast_sublist
  have hnamed : chain.dropLast.length ≤ g.named.length :=
    (hnodup.subperm hsubset).length_le
  have hfields : g.named.length ≤ (g.nodes.flatMap Node.fields).length :=
    List.length_filterMap_le _ _
  rw [List.length_dropLast] at hnamed
  unfold chainBound
  omega

end Trail

/-- A reference that is met for the first time is read off its link. -/
theorem typeAlong_eq_read (h : g.Trail chain reference) (hnew : reference ∉ chain)
    (hfuel : fuel + chain.length = g.chainBound) :
    g.typeAlong fuel chain reference
      = (g.link reference).read (g.typeAlong (fuel - 1) (reference :: chain)) := by
  have hlength := h.length_lt
  obtain ⟨fuel, rfl⟩ : ∃ less, fuel = less + 1 := ⟨fuel - 1, by omega⟩
  rw [typeAlong_succ h.names, if_neg hnew]
  rfl

/-! ## §3. Chains that end, and chains that do not. -/

/-- The chain of references ends. -/
def Ends (g : Graph α) (reference : String) : Prop :=
  Acc (fun next reference => g.Names reference next) reference

theorem ends_of_next (h : ∀ next, g.Names reference next → g.Ends next) : g.Ends reference :=
  Acc.intro reference h

/-- A chain that ends does not come back. -/
theorem Ends.not_returns (h : g.Ends reference) :
    ¬ Relation.TransGen g.Names reference reference := by
  induction h with
  | intro reference _ ih =>
      intro hcircle
      obtain ⟨next, hnext, hback⟩ := Relation.TransGen.head'_iff.1 hcircle
      exact ih next hnext (.tail' hback hnext)

/-- **A chain that does not end has no type.** -/
theorem typeAlong_of_not_ends (h : ¬ g.Ends reference)
    (hchain : ∀ other ∈ chain, ∃ next, g.Names other next) (fuel : Nat) :
    g.typeAlong fuel chain reference = .any := by
  induction fuel generalizing chain reference with
  | zero => rfl
  | succ fuel ih =>
      rw [typeAlong_succ hchain]
      split
      · rfl
      -- A reference names one other at most, and the search goes on without an end from there.
      obtain ⟨next, hnext, hendless⟩ : ∃ next, g.Names reference next ∧ ¬ g.Ends next := by
        by_contra hall
        push Not at hall
        exact h (ends_of_next hall)
      refine TypeSource.read_any (Option.isSome_of_eq_some hnext) fun other hother => ?_
      obtain rfl : next = other := Option.some.inj (hnext.symm.trans hother)
      exact ih hendless (List.forall_mem_cons.2 ⟨⟨next, hnext⟩, hchain⟩)

/-- A reference whose chain does not end is of any type. -/
theorem typeOf_of_not_ends (h : ¬ g.Ends reference) : g.typeOf reference = .any :=
  typeAlong_of_not_ends h (fun _ hmem => absurd hmem List.not_mem_nil) _

/-- **A chain that ends has the same type on every way.** -/
theorem Ends.typeAlong_eq (h : g.Ends reference) (htrail : g.Trail chain reference)
    (hfuel : fuel + chain.length = g.chainBound) :
    g.typeAlong fuel chain reference = g.typeOf reference := by
  -- By induction on the chain: what comes next has one type on every way to it.
  induction h generalizing chain fuel with
  | intro reference hends ih =>
      have hread {chain : List String} {fuel : Nat} (htrail : g.Trail chain reference)
          (hfuel : fuel + chain.length = g.chainBound) :
          g.typeAlong fuel chain reference = (g.link reference).read g.typeOf := by
        have hnew : reference ∉ chain := fun hmem =>
          Ends.not_returns (Acc.intro reference hends) (htrail.leads reference hmem)
        have hlength := htrail.length_lt
        rw [typeAlong_eq_read htrail hnew hfuel]
        refine TypeSource.read_congr fun next hnext => ?_
        exact ih next hnext (htrail.step hnew hnext) (by rw [List.length_cons]; omega)
      exact (hread htrail hfuel).trans (hread (.start reference) (Nat.add_zero _)).symm

/-- **A reference has the type that it says**, whether its chain ends or goes
in a circle. -/
theorem typeOf_eq_read (g : Graph α) (reference : String) :
    g.typeOf reference = (g.link reference).read g.typeOf := by
  have hstart : g.Trail [] reference := .start reference
  have hnew : reference ∉ [] := List.not_mem_nil
  refine (typeAlong_eq_read hstart hnew (Nat.add_zero _)).trans ?_
  refine TypeSource.read_congr fun next hnext => ?_
  have htrail : g.Trail [reference] next := hstart.step hnew hnext
  by_cases hends : g.Ends next
  · exact hends.typeAlong_eq htrail rfl
  · rw [typeAlong_of_not_ends hends htrail.names, typeOf_of_not_ends hends]

end Graph

end WorkflowEditor
