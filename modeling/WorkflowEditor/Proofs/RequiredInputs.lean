/-
  WorkflowEditor.Proofs.RequiredInputs
  ────────────────────────────────────
  **THE INPUTS THAT A WORKFLOW NEEDS, IN THE ORDER OF THEIR DECLARATION.**

  A start node that no container encloses lists the inputs of a run in its
  `variables`.  A declaration has a place, that of its node and its own one
  at the node, and places have an order:

    • `DeclaredAt` — an input that is needed is declared at a place,
    • `DeclaredInOrder` — names of inputs, one for each such place, in the
      order of the places,
    • `mem_declared_iff`, `pairwise_declared` — the declarations of a graph
      are found, in order,
    • `declaredInOrder_ofGraph`, `required_ofGraph_iff` — **a chat with a
      workflow needs the inputs that the workflow declares**, in that order,
      and no others.
-/
import WorkflowEditor.Run.Session
import Mathlib.Data.List.Forall2
import Mathlib.Data.List.Sort

namespace WorkflowEditor.Run.Session

variable {α : Type} {g : Graph α}

/-! ## §1. Declarations. -/

/-- Where an input is declared: the place of the node among the nodes of a
graph, and that of the declaration among those of the node. -/
structure Place where
  node : Nat
  item : Nat
  deriving Repr, DecidableEq

/-- One place comes before another one if its node does, or if both are at one
node and it comes first there. -/
def Place.Before (p q : Place) : Prop := p.node < q.node ∨ p.node = q.node ∧ p.item < q.item

/-- No place comes before itself. -/
instance : Std.Irrefl Place.Before where
  irrefl p h := by rcases h with hnode | ⟨-, hitem⟩ <;> omega

/-- Of two places one at most comes before the other. -/
instance : Std.Antisymm Place.Before where
  antisymm p q h h' := by
    rcases h with hnode | ⟨hsame, hitem⟩ <;> rcases h' with hnode' | ⟨hsame', hitem'⟩ <;> omega

/-- A start node that no container encloses declares, at a place, that a run
needs an input. -/
def DeclaredAt (g : Graph α) (place : Place) (name : String) : Prop :=
  ∃ node items item, g.nodes[place.node]? = some node ∧ node.kind = .start ∧ node.cycle = none
    ∧ node.form.get? "variables" = some (.arr items) ∧ items[place.item]? = some item
    ∧ item.field? "required" = some (.bool true) ∧ item.field? "name" = some (.str name)

/-- The names of all inputs that are declared to be needed, in the order of
their declaration.  A name that is declared twice is there twice. -/
def DeclaredInOrder (g : Graph α) (names : List String) : Prop :=
  ∃ places : List Place, places.Pairwise Place.Before
    ∧ (∀ place, place ∈ places ↔ ∃ name, DeclaredAt g place name)
    ∧ List.Forall₂ (DeclaredAt g) places names

/-- One input is declared at a place. -/
theorem DeclaredAt.unique {place : Place} {name name' : String} (h : DeclaredAt g place name)
    (h' : DeclaredAt g place name') : name = name' := by
  obtain ⟨node, items, item, hnode, -, -, hitems, hitem, -, hname⟩ := h
  obtain ⟨node', items', item', hnode', -, -, hitems', hitem', -, hname'⟩ := h'
  obtain rfl := Option.some.inj (hnode.symm.trans hnode')
  obtain rfl := Json.arr.inj (Option.some.inj (hitems.symm.trans hitems'))
  obtain rfl := Option.some.inj (hitem.symm.trans hitem')
  exact Json.str.inj (Option.some.inj (hname.symm.trans hname'))

/-- **The declarations of a graph have one order.** -/
theorem DeclaredInOrder.unique {names names' : List String} (h : DeclaredInOrder g names)
    (h' : DeclaredInOrder g names') : names = names' := by
  obtain ⟨places, hsorted, hmem, hnames⟩ := h
  obtain ⟨places', hsorted', hmem', hnames'⟩ := h'
  -- Both lists of places ascend and have the same members.
  obtain rfl : places = places' :=
    hsorted.eq_of_mem_iff hsorted' fun place => (hmem place).trans (hmem' place).symm
  have hone : Relator.RightUnique (DeclaredAt g) := fun _ _ _ => DeclaredAt.unique
  exact List.right_unique_forall₂' hone hnames hnames'

/-! ## §2. The declarations of a graph. -/

/-- Whether a run begins at a node: it is a start node that no container
encloses. -/
def begins (node : Node α) : Bool := node.kind = .start && node.cycle.isNone

/-- The inputs that the `i`-th node declares to be needed, with their places. -/
def declaredBy (node : Node α) (i : Nat) : List (Place × String) :=
  (node.form.items "variables").zipIdx.filterMap fun (item, j) =>
    (requiredName? item).map fun name => (⟨i, j⟩, name)

/-- The inputs that are declared to be needed, with their places. -/
def declared (g : Graph α) : List (Place × String) :=
  (g.nodes.zipIdx.filter fun (node, _) => begins node).flatMap fun (node, i) => declaredBy node i

theorem begins_iff {node : Node α} : begins node ↔ node.kind = .start ∧ node.cycle = none := by
  unfold begins
  rw [Bool.and_eq_true, decide_eq_true_eq, Option.isNone_iff_eq_none]

theorem mem_declaredBy_iff {node : Node α} {i : Nat} {place : Place} {name : String} :
    (place, name) ∈ declaredBy node i
      ↔ place.node = i ∧ ∃ items item, node.form.get? "variables" = some (.arr items)
          ∧ items[place.item]? = some item
          ∧ item.field? "required" = some (.bool true)
          ∧ item.field? "name" = some (.str name) := by
  unfold declaredBy
  rw [List.mem_filterMap]
  constructor
  · rintro ⟨⟨item, j⟩, hitem, hmem⟩
    obtain ⟨found, hfound, heq⟩ := Option.map_eq_some_iff.1 hmem
    obtain ⟨rfl, rfl⟩ := Prod.mk.inj heq
    obtain ⟨items, hitems, hat⟩ :=
      Form.getElem?_items_iff.1 (List.mk_mem_zipIdx_iff_getElem?.1 hitem)
    exact ⟨rfl, items, item, hitems, hat, requiredName?_eq_some_iff.1 hfound⟩
  · rintro ⟨rfl, items, item, hitems, hat, hdeclares⟩
    refine ⟨(item, place.item), List.mk_mem_zipIdx_iff_getElem?.2 ?_, ?_⟩
    · exact Form.getElem?_items_iff.2 ⟨items, hitems, hat⟩
    · exact Option.map_eq_some_iff.2 ⟨name, requiredName?_eq_some_iff.2 hdeclares, rfl⟩

/-- What is found is what is declared. -/
theorem mem_declared_iff {place : Place} {name : String} :
    (place, name) ∈ declared g ↔ DeclaredAt g place name := by
  unfold declared DeclaredAt
  rw [List.mem_flatMap]
  constructor
  · rintro ⟨⟨node, i⟩, hnode, hmem⟩
    obtain ⟨hat, hbegins⟩ := List.mem_filter.1 hnode
    obtain ⟨hkind, htop⟩ := begins_iff.1 hbegins
    obtain ⟨rfl, items, item, hdeclares⟩ := mem_declaredBy_iff.1 hmem
    exact ⟨node, items, item, List.mk_mem_zipIdx_iff_getElem?.1 hat, hkind, htop, hdeclares⟩
  · rintro ⟨node, items, item, hnode, hkind, htop, hdeclares⟩
    refine ⟨(node, place.node), List.mem_filter.2 ⟨?_, begins_iff.2 ⟨hkind, htop⟩⟩, ?_⟩
    · exact List.mk_mem_zipIdx_iff_getElem?.2 hnode
    · exact mem_declaredBy_iff.2 ⟨rfl, items, item, hdeclares⟩

/-- The places of the elements of a list ascend. -/
theorem pairwise_zipIdx {β : Type} (l : List β) : l.zipIdx.Pairwise fun a b => a.2 < b.2 := by
  have hplaces : (l.zipIdx.map Prod.snd).Pairwise (· < ·) := by
    rw [List.zipIdx_map_snd]
    exact List.pairwise_lt_range'
  exact List.pairwise_map.1 hplaces

theorem pairwise_declaredBy (node : Node α) (i : Nat) :
    (declaredBy node i).Pairwise fun a b => a.1.Before b.1 := by
  unfold declaredBy
  rw [List.pairwise_filterMap]
  refine (pairwise_zipIdx _).imp fun {a b} hlt first hfirst second hsecond => ?_
  obtain ⟨_, -, rfl⟩ := Option.map_eq_some_iff.1 hfirst
  obtain ⟨_, -, rfl⟩ := Option.map_eq_some_iff.1 hsecond
  exact .inr ⟨rfl, hlt⟩

/-- What is found is found in the order of its declaration. -/
theorem pairwise_declared : (declared g).Pairwise fun a b => a.1.Before b.1 := by
  unfold declared
  rw [List.pairwise_flatMap]
  refine ⟨fun ⟨node, i⟩ _ => pairwise_declaredBy node i, ?_⟩
  refine ((pairwise_zipIdx _).filter _).imp fun {a b} hlt first hfirst second hsecond => .inl ?_
  rw [(mem_declaredBy_iff.1 hfirst).1, (mem_declaredBy_iff.1 hsecond).1]
  exact hlt

theorem names_declaredBy (node : Node α) (i : Nat) :
    (declaredBy node i).map Prod.snd
      = (node.form.items "variables").filterMap requiredName? := by
  have hitems := List.zipIdx_map_fst 0 (node.form.items "variables")
  unfold declaredBy
  rw [List.map_filterMap]
  conv => rhs; rw [← hitems, List.filterMap_map]
  refine congrArg (List.filterMap · _) (funext fun ⟨item, j⟩ => ?_)
  rw [Option.map_map]
  exact Option.map_id'

/-- A chat with a workflow needs the inputs that are found. -/
theorem required_ofGraph (g : Graph α) : (ofGraph g).required = (declared g).map Prod.snd := by
  have hnodes := List.zipIdx_map_fst 0 g.nodes
  unfold declared
  rw [List.map_flatMap]
  conv => lhs; unfold ofGraph; dsimp only; rw [← hnodes, List.filter_map, List.flatMap_map]
  exact congrArg (List.flatMap · _) (funext fun ⟨node, i⟩ => (names_declaredBy node i).symm)

/-! ## §3. A chat with a workflow. -/

/-- **A chat with a workflow needs the inputs that the workflow declares**, all of
them in the order of their declaration. -/
theorem declaredInOrder_ofGraph (g : Graph α) : DeclaredInOrder g (ofGraph g).required := by
  refine ⟨(declared g).map Prod.fst, List.pairwise_map.2 pairwise_declared, fun place => ?_, ?_⟩
  · rw [List.mem_map]
    constructor
    · rintro ⟨⟨_, name⟩, hmem, rfl⟩
      exact ⟨name, mem_declared_iff.1 hmem⟩
    · rintro ⟨name, hat⟩
      exact ⟨(place, name), mem_declared_iff.2 hat, rfl⟩
  · -- Places and names are the two sides of one list.
    rw [required_ofGraph, List.forall₂_map_left_iff, List.forall₂_map_right_iff,
      List.forall₂_same]
    exact fun ⟨place, name⟩ hmem => mem_declared_iff.1 hmem

/-- No other names are needed, and in no other order. -/
theorem required_ofGraph_iff {names : List String} :
    (ofGraph g).required = names ↔ DeclaredInOrder g names := by
  constructor
  · rintro rfl
    exact declaredInOrder_ofGraph g
  · exact (declaredInOrder_ofGraph g).unique

end WorkflowEditor.Run.Session
