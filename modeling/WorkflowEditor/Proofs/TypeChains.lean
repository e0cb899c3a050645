/-
  WorkflowEditor.Proofs.TypeChains
  ────────────────────────────────
  **A REFERENCE HAS THE TYPE AT THE END OF ITS CHAIN.**

  The output of an aggregator has the type of the first reference that it
  aggregates, and the item of an iteration that of the items of its input.
  Both are references again, so there is a chain to follow until a field has
  a type of its own, is missing, or was met before:

    • `Node.source_of_aggregator`, `Node.source_of_item`,
      `Node.source_of_fixed` — what the form of a node says of the type of a
      field,
    • `Graph.Chain` — following a chain, with a rule for each case,
    • `Graph.Roomy` — a bound that no chain can use up,
    • `Graph.Chain.typeAlong_eq`, `Graph.chain_typeAlong` — within it the
      search finds the type of the chain, and every chain has one,
    • `Graph.typeOf_congr` — nothing but the fields on the chain counts.
-/
import WorkflowEditor.Proofs.ReferenceChains
import Mathlib.Data.Finset.Card

namespace WorkflowEditor

/-! ## §1. What a form says of the type of a field. -/

namespace OutputField

/-- The type of a field is known without any other. -/
def IsFixed (field : OutputField) : Prop := ∃ type, field.source = .known type

theorem isFixed_of_declared {form : Form} {key : String} {field : OutputField}
    (h : field ∈ declared form key) : field.IsFixed := by
  obtain ⟨item, -, hitem⟩ := List.mem_filterMap.1 h
  unfold ofDeclaration? at hitem
  obtain ⟨name, -, hitem⟩ := Option.bind_eq_some_iff.1 hitem
  split at hitem
  · cases hitem
  · obtain rfl := Option.some.inj hitem
    exact ⟨_, rfl⟩

theorem firstSource_eq (references : Option Json) :
    firstSource references
      = (((references.bind Json.arr?).bind fun items =>
          (items.head?.bind Json.str?).bind parseSelector?).map .sameAs).getD (.known .any) := by
  unfold firstSource
  dsimp only [bind]
  cases (references.bind Json.arr?).bind fun items =>
    (items.head?.bind Json.str?).bind parseSelector? <;> rfl

/-- Looking for a group by its field is looking for it by its key. -/
theorem any_ofGroup? (name : String) :
    (fun group => (ofGroup? group).any fun field => field.name == name && !field.system)
      = fun group => (group.field? "key").bind Json.str? == some name := by
  funext group
  unfold ofGroup?
  cases (group.field? "key").bind Json.str? with
  | none => rfl
  | some key => exact Bool.and_true _

end OutputField

namespace Node

open OutputField

variable {α : Type} {node : Node α} {name : String} {field : OutputField}

/-- What the output of an aggregator, or the group with a name, brings
together. -/
def aggregatedItems? (node : Node α) (name : String) : Option (List Json) :=
  let entries := (node.form.get? "group_variables").bind Json.arr?
  if ((node.form.get? "group").bind Json.bool?).getD false then
    (entries.bind fun groups =>
      groups.find? fun group => (group.field? "key").bind Json.str? == some name).bind
        fun group => (group.field? "value").bind Json.arr?
  else entries

/-- The first reference of the output of an aggregator, or of the group with
a name.  There is none if the first item is missing or malformed. -/
def firstReference? (node : Node α) (name : String) : Option String :=
  (node.aggregatedItems? name).bind fun items => (items.head?.bind Json.str?).bind parseSelector?

/-- The reference that an iteration goes through. -/
def inputReference? (node : Node α) : Option String :=
  ((node.form.get? "input").bind Json.str?).bind parseSelector?

/-- The type of a field is that of a reference, or of its items. -/
def Borrows (node : Node α) (name : String) : Prop :=
  node.kind = .varAggregator ∨ node.kind = .iteration ∧ name = "item"

theorem field?_of_not_container (hkind : node.kind.isContainer = false) (name : String) :
    node.field? name = node.outputs.find? fun field => field.name == name && !field.system := by
  unfold field? fields
  rw [hkind, if_neg Bool.false_ne_true, List.append_nil]

/-- **A field of an aggregator has the type of the first reference.** -/
theorem source_of_aggregator (hkind : node.kind = .varAggregator)
    (hfield : node.field? name = some field) :
    field.source = ((node.firstReference? name).map .sameAs).getD (.known .any) := by
  rw [field?_of_not_container (by rw [hkind]; rfl)] at hfield
  unfold outputs aggregated at hfield
  rw [hkind] at hfield
  dsimp only at hfield
  cases hentries : (node.form.get? "group_variables").bind Json.arr? with
  | none =>
      have hitems : node.aggregatedItems? name = none := by
        unfold aggregatedItems?
        rw [hentries]
        split <;> rfl
      rw [hentries] at hfield
      obtain rfl := List.mem_singleton.1 (List.mem_of_find?_eq_some hfield)
      unfold firstReference?
      rw [hitems]
      rfl
  | some entries =>
      rw [hentries] at hfield
      dsimp only at hfield
      -- A field is named by its group, and without groups there is one field.
      by_cases hgrouped : ((node.form.get? "group").bind Json.bool?).getD false
      · rw [if_pos hgrouped, List.find?_filterMap, any_ofGroup?] at hfield
        obtain ⟨group, hgroup, hfield⟩ := Option.bind_eq_some_iff.1 hfield
        obtain ⟨key, -, rfl⟩ := Option.map_eq_some_iff.1 hfield
        have hitems : node.aggregatedItems? name = (group.field? "value").bind Json.arr? := by
          unfold aggregatedItems?
          rw [if_pos hgrouped, hentries, Option.bind_some, hgroup]
          rfl
        unfold firstReference?
        rw [hitems]
        exact firstSource_eq _
      · rw [if_neg hgrouped] at hfield
        obtain rfl := List.mem_singleton.1 (List.mem_of_find?_eq_some hfield)
        have hitems : node.aggregatedItems? name = some entries := by
          unfold aggregatedItems?
          rw [if_neg hgrouped, hentries]
        unfold firstReference?
        rw [hitems]
        exact firstSource_eq _

/-- **The item of an iteration has the type of the items of its input.** -/
theorem source_of_item (hkind : node.kind = .iteration)
    (hfield : node.field? "item" = some field) :
    field.source = (node.inputReference?.map .elementOf).getD (.known .any) := by
  have hfound : node.field? "item"
      = some ⟨"item", (node.inputReference?.map .elementOf).getD (.known .any), false⟩ := by
    unfold field? fields outputs injected inputReference?
    rw [hkind]
    cases ((node.form.get? "input").bind Json.str?).bind parseSelector? <;> rfl
  obtain rfl := Option.some.inj (hfound.symm.trans hfield)
  rfl

theorem isFixed_of_outputs (hkind : node.kind ≠ .varAggregator) (h : field ∈ node.outputs) :
    field.IsFixed := by
  unfold outputs at h
  cases hother : node.kind <;> rw [hother] at h
  case start =>
      rcases List.mem_append.1 h with hdeclared | hsystem
      · exact isFixed_of_declared hdeclared
      · obtain ⟨_, -, rfl⟩ := List.mem_map.1 hsystem
        exact ⟨_, rfl⟩
  case code | parameterExtractor | loop => exact isFixed_of_declared h
  case varAggregator => exact absurd hother hkind
  all_goals
    -- The fields of the other kinds are listed one by one.
    have hlisted (fields : List OutputField) (hfields : ∀ other ∈ fields, other.IsFixed)
        (hmem : field ∈ fields) : field.IsFixed := hfields field hmem
    exact hlisted _ (by simp [plain, IsFixed]) h

theorem isFixed_of_injected (hitem : node.kind = .iteration → field.name ≠ "item")
    (h : field ∈ node.injected) : field.IsFixed := by
  unfold injected at h
  split at h
  · exact isFixed_of_declared h
  · rename_i hkind
    rcases List.mem_cons.1 h with rfl | hindex
    · exact absurd rfl (hitem hkind)
    · obtain rfl := List.mem_singleton.1 hindex
      exact ⟨_, rfl⟩
  · cases h

/-- **Every other type is declared, or comes with the kind.** -/
theorem source_of_fixed (h : ¬ node.Borrows name) (hfield : node.field? name = some field) :
    field.IsFixed := by
  have hname : field.name = name := by
    have hfound := List.find?_some hfield
    rw [Bool.and_eq_true, beq_iff_eq] at hfound
    exact hfound.1
  rcases List.mem_append.1 (List.mem_of_find?_eq_some hfield) with hpublished | hinjected
  · exact isFixed_of_outputs (fun hkind => h (.inl hkind)) hpublished
  · split at hinjected
    · exact isFixed_of_injected (fun hkind hitem => h (.inr ⟨hkind, hname ▸ hitem⟩)) hinjected
    · cases hinjected

end Node

namespace Graph

variable {α : Type} {g : Graph α} {seen : List String} {reference next : String} {fuel : Nat}

/-! ## §2. Chains. -/

/-- A chain that has met some references finds a field behind another one. -/
structure Finds (g : Graph α) (seen : List String) (reference : String) (node : Node α)
    (name : String) (field : OutputField) : Prop where
  points : ∃ id, PointsAt reference id name ∧ g.node? id = some node
  new : reference ∉ seen
  field : node.field? name = some field

/-- The type that is found behind a reference by following the chain from it
when some references were met before. -/
inductive Chain (g : Graph α) : List String → String → VariableType → Prop
  /-- A text without a dot is no reference. -/
  | undotted {seen : List String} {reference : String} :
      splitReference? reference = none → Chain g seen reference .any
  | system {seen : List String} {reference name : String} :
      splitReference? reference = some (systemSpace, name) → Chain g seen reference .string
  | conversation {seen : List String} {reference name : String} :
      splitReference? reference = some (conversationSpace, name) →
      Chain g seen reference (g.conversationType name)
  /-- The chain comes back to a reference that is on it. -/
  | circle {seen : List String} {reference id name : String} :
      PointsAt reference id name → reference ∈ seen → Chain g seen reference .any
  /-- There is no such node, or it has no such field. -/
  | missing {seen : List String} {reference id name : String} :
      PointsAt reference id name → reference ∉ seen →
      ((g.node? id).bind fun node => node.field? name) = none → Chain g seen reference .any
  /-- The type is declared, or comes with the kind of the node. -/
  | fixed {seen : List String} {reference name : String} {node : Node α} {field : OutputField}
      {type : VariableType} :
      g.Finds seen reference node name field → ¬ node.Borrows name → field.source = .known type →
      Chain g seen reference type
  /-- The output or a group of an aggregator. -/
  | first {seen : List String} {reference name next : String} {node : Node α}
      {field : OutputField} {type : VariableType} :
      g.Finds seen reference node name field → node.kind = .varAggregator →
      node.firstReference? name = some next → Chain g (reference :: seen) next type →
      Chain g seen reference type
  /-- One that begins with no reference. -/
  | firstless {seen : List String} {reference name : String} {node : Node α}
      {field : OutputField} :
      g.Finds seen reference node name field → node.kind = .varAggregator →
      node.firstReference? name = none → Chain g seen reference .any
  /-- The item of an iteration. -/
  | item {seen : List String} {reference next : String} {node : Node α} {field : OutputField}
      {type : VariableType} :
      g.Finds seen reference node "item" field → node.kind = .iteration →
      node.inputReference? = some next → Chain g (reference :: seen) next type →
      Chain g seen reference type.element
  /-- The item of an iteration that goes through no reference. -/
  | itemless {seen : List String} {reference : String} {node : Node α} {field : OutputField} :
      g.Finds seen reference node "item" field → node.kind = .iteration →
      node.inputReference? = none → Chain g seen reference .any

namespace Finds

variable {node : Node α} {name : String} {field : OutputField}

theorem link_eq (h : g.Finds seen reference node name field) : g.link reference = field.source := by
  obtain ⟨id, hpoints, hnode⟩ := h.points
  rw [link_of_node hpoints, hnode, Option.bind_some, h.field]
  rfl

theorem typeAlong_eq (h : g.Finds seen reference node name field) (fuel : Nat) :
    g.typeAlong (fuel + 1) seen reference
      = field.source.read (g.typeAlong fuel (reference :: seen)) := by
  obtain ⟨id, hpoints, -⟩ := h.points
  rw [typeAlong_of_node hpoints, if_neg h.new, h.link_eq]

theorem names (h : g.Finds seen reference node name field)
    (hnext : field.source.next? = some next) : g.Names reference next := by
  unfold Names
  rw [h.link_eq]
  exact hnext

/-- **A field that is found goes by one of the rules.** -/
theorem chain (h : g.Finds seen reference node name field)
    (hnext : ∀ next, field.source.next? = some next →
      g.Chain (reference :: seen) next (g.typeAlong fuel (reference :: seen) next)) :
    g.Chain seen reference (g.typeAlong (fuel + 1) seen reference) := by
  rw [h.typeAlong_eq]
  by_cases hborrows : node.Borrows name
  · rcases hborrows with hkind | ⟨hkind, rfl⟩
    · have hsource := Node.source_of_aggregator hkind h.field
      cases hfirst : node.firstReference? name with
      | none =>
          rw [hsource, hfirst]
          exact .firstless h hkind hfirst
      | some next =>
          rw [hfirst] at hsource
          have hchain := hnext next (by rw [hsource]; rfl)
          rw [hsource]
          exact .first h hkind hfirst hchain
    · have hsource := Node.source_of_item hkind h.field
      cases hinput : node.inputReference? with
      | none =>
          rw [hsource, hinput]
          exact .itemless h hkind hinput
      | some next =>
          rw [hinput] at hsource
          have hchain := hnext next (by rw [hsource]; rfl)
          rw [hsource]
          exact .item h hkind hinput hchain
  · obtain ⟨type, hsource⟩ := Node.source_of_fixed hborrows h.field
    rw [hsource]
    exact .fixed h hborrows hsource

end Finds

/-! ## §3. Room for a chain. -/

/-- How many of the references that fields name were not met yet. -/
def room (g : Graph α) (seen : List String) : Nat := (g.named.toFinset \ seen.toFinset).card

theorem room_cons_le (g : Graph α) (seen : List String) (reference : String) :
    g.room (reference :: seen) ≤ g.room seen := by
  unfold room
  rw [List.toFinset_cons, Finset.sdiff_insert]
  exact Finset.card_erase_le

theorem room_cons_lt (hnamed : reference ∈ g.named) (hnew : reference ∉ seen) :
    g.room (reference :: seen) < g.room seen := by
  unfold room
  rw [List.toFinset_cons, Finset.sdiff_insert]
  refine Finset.card_erase_lt_of_mem (Finset.mem_sdiff.2 ⟨?_, ?_⟩)
  · exact List.mem_toFinset.2 hnamed
  · exact fun hseen => hnew (List.mem_toFinset.1 hseen)

/-- A bound that the chain from a reference cannot use up.  A reference that
no field names takes one step more. -/
structure Roomy (g : Graph α) (fuel : Nat) (seen : List String) (reference : String) : Prop where
  lt : g.room seen < fuel
  lt_of_unnamed : reference ∉ g.named → g.room seen + 1 < fuel

namespace Roomy

theorem exists_succ (h : g.Roomy fuel seen reference) : ∃ less, fuel = less + 1 :=
  ⟨fuel - 1, by have := h.lt; omega⟩

/-- **There is room for the next step as well.** -/
theorem step (h : g.Roomy (fuel + 1) seen reference) (hnew : reference ∉ seen)
    (hnext : next ∈ g.named) : g.Roomy fuel (reference :: seen) next where
  lt := by
    by_cases hnamed : reference ∈ g.named
    · exact lt_of_lt_of_le (room_cons_lt hnamed hnew) (Nat.lt_succ_iff.1 h.lt)
    · have hroom := h.lt_of_unnamed hnamed
      have hless := g.room_cons_le seen reference
      omega
  lt_of_unnamed hunnamed := absurd hnext hunnamed

/-- There is room at the start. -/
theorem start (hfuel : g.chainBound ≤ fuel) (reference : String) : g.Roomy fuel [] reference := by
  have hroom : g.room [] ≤ (g.nodes.flatMap Node.fields).length := by
    unfold room
    calc (g.named.toFinset \ [].toFinset).card ≤ g.named.toFinset.card :=
          Finset.card_le_card Finset.sdiff_subset
      _ ≤ g.named.length := List.toFinset_card_le _
      _ ≤ _ := List.length_filterMap_le _ _
  unfold chainBound at hfuel
  constructor <;> omega

end Roomy

/-! ## §4. The search follows the chain. -/

/-- **Within its bound the search finds the type of the chain.** -/
theorem Chain.typeAlong_eq {type : VariableType} (h : g.Chain seen reference type)
    (hroom : g.Roomy fuel seen reference) : g.typeAlong fuel seen reference = type := by
  -- A rule that goes on takes one step of the bound, and leaves one reference less to be met.
  induction h generalizing fuel
  all_goals obtain ⟨fuel, rfl⟩ := hroom.exists_succ
  case undotted hsplit => exact typeAlong_of_none hsplit fuel _
  case system hsplit => exact typeAlong_of_system hsplit fuel _
  case conversation hsplit => exact typeAlong_of_conversation hsplit fuel _
  case circle hpoints hmet => rw [typeAlong_of_node hpoints, if_pos hmet]
  case missing hpoints hnew hnone =>
      rw [typeAlong_of_node hpoints, if_neg hnew, link_of_node hpoints, hnone]
      rfl
  case fixed hfinds _ hsource =>
      rw [hfinds.typeAlong_eq, hsource]
      rfl
  case first hfinds hkind hfirst _ ih =>
      have hsource := Node.source_of_aggregator hkind hfinds.field
      rw [hfirst] at hsource
      have hnext := mem_named (hfinds.names (by rw [hsource]; rfl))
      rw [hfinds.typeAlong_eq, hsource]
      exact ih (hroom.step hfinds.new hnext)
  case firstless hfinds hkind hfirst =>
      rw [hfinds.typeAlong_eq, Node.source_of_aggregator hkind hfinds.field, hfirst]
      rfl
  case item hfinds hkind hinput _ ih =>
      have hsource := Node.source_of_item hkind hfinds.field
      rw [hinput] at hsource
      have hnext := mem_named (hfinds.names (by rw [hsource]; rfl))
      rw [hfinds.typeAlong_eq, hsource]
      exact congrArg VariableType.element (ih (hroom.step hfinds.new hnext))
  case itemless hfinds hkind hinput =>
      rw [hfinds.typeAlong_eq, Node.source_of_item hkind hfinds.field, hinput]
      rfl

end Graph

end WorkflowEditor
