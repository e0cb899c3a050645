/-
  WorkflowEditor.Proofs.NodeIds
  ─────────────────────────────
  **THE IDS THAT THE EDITOR GIVES.**

  A node that is added gets an id made of its kind and a number, and no
  change gives it another id or another kind.  So in a graph that was begun
  empty every id is of this form:

    • `nodeId_undotted`, `nodeId_ne` — what an id made for a known kind is
      not,
    • `Graph.Applied.keptOrMade` — a change keeps ids and kinds, but for the
      nodes that it adds,
    • `generated_run` — the ids of a graph that changes have made.
-/
import WorkflowEditor.Proofs.Applied

namespace WorkflowEditor

/-! ## §1. Ids made of a kind and a number. -/

/-- Numbers are written in digits, so they bring neither a dot nor a bar. -/
theorem isDigit_of_mem_toString {n : Nat} {c : Char} (h : c ∈ (toString n).toList) :
    c.isDigit := by
  have hdigits : c ∈ Nat.toDigits 10 n := by simpa using h
  exact Nat.isDigit_of_mem_toDigits (by decide) (by decide) hdigits

namespace Graph

/-- An id is the tag of its kind with bars for dashes, a bar and a number. -/
theorem toList_nodeId (kind : Kind) (number : Nat) :
    (nodeId kind number).toList
      = (kind.tag.toList.map fun c => if c = '-' then '_' else c) ++ '_' :: (toString number).toList
      := by
  unfold nodeId
  rw [String.toList_append, String.toList_append, String.toList_ofList, List.append_assoc]
  rfl

/-- An id of a known kind has no dot. -/
theorem nodeId_undotted {kind : Kind} (h : kind ∈ Kind.known) (number : Nat) :
    '.' ∉ (nodeId kind number).toList := by
  have htags : ∀ kind ∈ Kind.known,
      '.' ∉ kind.tag.toList.map fun c => if c = '-' then '_' else c := by decide
  rw [toList_nodeId, List.mem_append, List.mem_cons]
  rintro (htag | hbar | hdigit)
  · exact htags kind h htag
  · exact absurd hbar (by decide)
  · exact absurd (isDigit_of_mem_toString hdigit) (by decide)

/-- A name without a bar is no id. -/
theorem nodeId_ne {kind : Kind} {number : Nat} {name : String} (h : '_' ∉ name.toList) :
    nodeId kind number ≠ name := by
  rintro rfl
  refine h ?_
  rw [toList_nodeId]
  exact List.mem_append_right _ List.mem_cons_self

/-- The id of a new node has some number, whichever were taken. -/
theorem exists_freshNodeId {α : Type} (g : Graph α) (kind : Kind) :
    ∃ number, g.freshNodeId kind = nodeId kind number := by
  unfold freshNodeId
  dsimp only
  cases hfound : ((List.range (g.nodes.length + 1)).map fun i => nodeId kind (i + 1)).find?
      fun id => (g.node? id).isNone with
  | none => exact ⟨0, rfl⟩
  | some id =>
      obtain ⟨i, -, rfl⟩ := List.mem_map.1 (List.mem_of_find?_eq_some hfound)
      exact ⟨i + 1, rfl⟩

end Graph

/-! ## §2. What a change does to ids and kinds. -/

/-- The id and the kind of a node. -/
def Node.idAndKind {α : Type} (node : Node α) : String × Kind := (node.id, node.kind)

/-- The ids and the kinds of the nodes, in order. -/
def Graph.roll {α : Type} (g : Graph α) : List (String × Kind) := g.nodes.map Node.idAndKind

theorem Graph.roll_of_outline {α : Type} {g g' : Graph α} (h : g.outline = g'.outline) :
    g.roll = g'.roll := by
  have hmap (nodes : List (Node α)) :
      nodes.map Node.idAndKind = (nodes.map Node.outline).map Node.idAndKind := by
    rw [List.map_map]
    rfl
  unfold roll
  rw [hmap, hmap, (Prod.mk.inj h).1]

/-- Positions and sizes are not on the roll. -/
theorem Graph.roll_of_unplaced {α : Type} {g g' : Graph α} (h : g.unplaced = g'.unplaced) :
    g.roll = g'.roll :=
  roll_of_outline (outline_eq_of_unplaced h)

namespace Draft

variable {α : Type}

theorem roll_reviseNode (d : Draft α) (id : String) {f : Node α → Node α}
    (hf : ∀ node, (f node).idAndKind = node.idAndKind) :
    (d.reviseNode id f).graph.roll = d.graph.roll :=
  d.map_reviseNode id hf

/-- A node that is added goes last on the roll, with its kind. -/
theorem roll_spawn [Coordinate α] (d : Draft α) (kind : Kind) (position : Position α)
    (cycle : Option String) :
    (d.spawn kind position cycle).1.graph.roll
      = d.graph.roll ++ [(d.graph.freshNodeId kind, kind)] := by
  unfold Graph.roll
  rw [spawn_nodes, List.map_append]
  rfl

theorem roll_fitEnclosing [Coordinate α] (d : Draft α) (cycle : Option String) :
    (d.fitEnclosing cycle).graph.roll = d.graph.roll :=
  Graph.roll_of_unplaced (d.unplaced_fitEnclosing cycle)

end Draft

variable {α : Type} [Coordinate α]

namespace Graph

/-- A node is there with its kind, or it is new and has an id made of its
kind. -/
def KeptOrMade (g : Graph α) (made : Kind → Prop) (entry : String × Kind) : Prop :=
  entry ∈ g.roll ∨ made entry.2 ∧ ∃ number, entry.1 = nodeId entry.2 number

/-- One more node of a kind that may be added. -/
theorem keptOrMade_spawn {g : Graph α} {made : Kind → Prop} {d : Draft α}
    (h : ∀ entry ∈ d.graph.roll, g.KeptOrMade made entry) {kind : Kind} (hkind : made kind)
    (position : Position α) (cycle : Option String) :
    ∀ entry ∈ (d.spawn kind position cycle).1.graph.roll, g.KeptOrMade made entry := by
  intro entry hentry
  rw [Draft.roll_spawn, List.mem_append, List.mem_singleton] at hentry
  rcases hentry with hold | rfl
  · exact h entry hold
  · exact .inr ⟨hkind, d.graph.exists_freshNodeId kind⟩

/-- **A change keeps ids and kinds**, but for the node that it adds, and the
start of a new container. -/
theorem Applied.keptOrMade {g : Graph α} {made : Kind → Prop} {d : Draft α}
    (h : g.Applied made d) :
    ∀ entry ∈ d.graph.roll, g.KeptOrMade (fun kind => made kind ∨ kind = .cycleStart) entry := by
  have hbefore : ∀ entry ∈ g.draft.graph.roll,
      g.KeptOrMade (fun kind => made kind ∨ kind = .cycleStart) entry := fun _ hentry => .inl hentry
  -- Ways that add no node keep the roll, or a part of it.
  have hkept (hroll : d.graph.roll ⊆ g.roll) : ∀ entry ∈ d.graph.roll,
      g.KeptOrMade (fun kind => made kind ∨ kind = .cycleStart) entry :=
    fun entry hentry => .inl (hroll hentry)
  have hsame (hroll : d.graph.roll = g.roll) := hkept (hroll ▸ List.Subset.refl _)
  cases h with
  | added hmade =>
      rw [Draft.roll_fitEnclosing]
      exact keptOrMade_spawn hbefore (.inl hmade) _ _
  | opened hmade =>
      refine keptOrMade_spawn ?_ (.inr rfl) _ _
      exact keptOrMade_spawn hbefore (.inl hmade) _ _
  | removed =>
      refine hkept ?_
      rw [Draft.roll_fitEnclosing]
      unfold roll
      rw [without_nodes]
      exact List.map_subset _ List.filter_sublist.subset
  | connected | cut | redeclared => exact hsame rfl
  | moved =>
      refine hsame (roll_of_unplaced ?_)
      rw [Draft.unplaced_fitEnclosing, Draft.unplaced_foldl fun d child => d.unplaced_place _ _,
        Draft.unplaced_place]
      rfl
  | resized =>
      refine hsame ?_
      rw [Draft.roll_fitEnclosing]
      exact g.draft.roll_reviseNode _ fun _ => rfl
  | renamed | filled => exact hsame (g.draft.roll_reviseNode _ fun _ => rfl)
  | resynced =>
      refine hsame ((Draft.map_resyncPorts _ _ fun _ _ => rfl).trans ?_)
      exact g.draft.roll_reviseNode _ fun _ => rfl
  | branched | pruned =>
      refine hsame ((Draft.map_refreshPorts _ _ _ fun _ _ => rfl).trans ?_)
      exact g.draft.roll_reviseNode _ fun _ => rfl

/-! ## §3. Graphs that were begun empty. -/

/-- Every id is made of the kind of its node, and every kind is known. -/
def Generated (g : Graph α) : Prop :=
  ∀ node ∈ g.nodes, node.kind ∈ Kind.known ∧ ∃ number, node.id = nodeId node.kind number

/-- **A change that adds known kinds only** keeps every id made of a known kind
and a number. -/
theorem Generated.edit {g : Graph α} (h : g.Generated) {change : Edit α}
    (hknown : ∀ kind, change.Adds kind → kind ∈ Kind.known) {d : Draft α}
    (hok : g.edit change = .ok d) : d.graph.Generated := by
  intro node hnode
  have hentry : node.idAndKind ∈ d.graph.roll := List.mem_map_of_mem hnode
  rcases (applied_edit hok).keptOrMade _ hentry with hold | ⟨hkind, hid⟩
  · obtain ⟨old, hmem, heq⟩ := List.mem_map.1 hold
    obtain ⟨hid, hkind⟩ := Prod.mk.inj heq
    rw [← hid, ← hkind]
    exact h old hmem
  · refine ⟨?_, hid⟩
    rcases hkind with hadds | hstart
    · exact hknown _ hadds
    · show node.idAndKind.2 ∈ Kind.known
      rw [hstart]
      decide

/-- **Changes that add known kinds to an empty graph make ids of kinds and
numbers.** -/
theorem generated_run (settings : Settings α) {changes : List (Edit α)}
    (hknown : ∀ change ∈ changes, ∀ kind, change.Adds kind → kind ∈ Kind.known) :
    ((Graph.empty settings).run changes).Generated := by
  have hrun {g : Graph α} (h : g.Generated) : (g.run changes).Generated := by
    -- By induction on the changes: each keeps `Generated`, or is refused.
    unfold run
    induction changes generalizing g with
    | nil => exact h
    | cons change changes ih =>
        obtain ⟨hchange, hchanges⟩ := List.forall_mem_cons.1 hknown
        refine ih hchanges (g := g.after change) ?_
        unfold after
        split
        · rename_i d hok
          exact h.edit hchange hok
        · exact h
  exact hrun fun _ hnode => nomatch hnode

end Graph

end WorkflowEditor
