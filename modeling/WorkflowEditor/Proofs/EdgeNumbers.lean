/-
  WorkflowEditor.Proofs.EdgeNumbers
  ─────────────────────────────────
  **THE NUMBERS OF THE EDGES.**

  The ids of edges that are made are numbered, and no number is given twice.
  New edges go behind the others, and so do the edges of a node whose ports are
  made anew: they are taken away and put back.  No change shifts an edge in
  another way.

    • `Edge.Earlier` — the order of the numbers,
    • `Edge.Alike` — an edge as it is put back is the same but for its port,
    • `Draft.lineup` — what of a draft bears on the order of the edges,
    • `Shifted`, `shifted_after` — all that a change does to the order,
    • `mem_of_mem_run` — no number is given twice,
    • `madeBefore_of_earlier`, `MadeBefore.earlier` — an edge has a smaller
      number than another exactly if it was made before.
-/
import WorkflowEditor.Proofs.EdgeIds
import WorkflowEditor.Proofs.Revision

namespace WorkflowEditor

/-! ## §1. Numbers. -/

namespace Edge

variable {edge edge' other other' : Edge}

/-- An edge has a smaller number in its id than another. -/
def Earlier (edge other : Edge) : Prop :=
  ∃ m n, m < n ∧ edge.id = Graph.edgeId m ∧ other.id = Graph.edgeId n

/-- An id has one number, so the order of two edges can be read off any. -/
theorem Earlier.lt {m n : Nat} (h : edge.Earlier other) (hedge : edge.id = Graph.edgeId m)
    (hother : other.id = Graph.edgeId n) : m < n := by
  obtain ⟨m', n', hlt, hedge', hother'⟩ := h
  have hm : m = m' := Graph.edgeId_injective (hedge.symm.trans hedge')
  have hn : n = n' := Graph.edgeId_injective (hother.symm.trans hother')
  omega

/-- Of two edges one at most is the earlier one. -/
theorem Earlier.asymm (h : edge.Earlier other) : ¬ other.Earlier edge := by
  intro h'
  obtain ⟨m, n, hlt, hedge, hother⟩ := h
  have hlt' := h'.lt hother hedge
  omega

/-- An edge is what another is but for the port that it leaves by. -/
structure Alike (edge edge' : Edge) : Prop where
  id : edge.id = edge'.id
  source : edge.source = edge'.source
  target : edge.target = edge'.target

/-- The order is that of the ids, and does not depend on ports. -/
theorem Earlier.alike (h : edge'.Earlier other') (hedge : edge.Alike edge')
    (hother : other.Alike other') : edge.Earlier other := by
  obtain ⟨m, n, hlt, hm, hn⟩ := h
  exact ⟨m, n, hlt, hedge.id.trans hm, hother.id.trans hn⟩

theorem Alike.symm (h : edge.Alike edge') : edge'.Alike edge :=
  ⟨h.id.symm, h.source.symm, h.target.symm⟩

/-- Edges that are alike have their ends at the same nodes. -/
theorem Alike.touches (h : edge.Alike edge') (id : String) : edge.touches id = edge'.touches id :=
  touches_congr h.source h.target id

/-- An edge that is put back is what it was but for its port. -/
theorem alike_of_reattached? {id : String} {old new : List String} {remap : PortRemap}
    (h : edge.reattached? id old new remap = some edge') : edge'.Alike edge := by
  obtain ⟨hsource, htarget, -⟩ := ends_of_reattached? h
  exact ⟨id_of_reattached? h, hsource, htarget⟩

end Edge

namespace Graph

section Numbers

variable {α : Type}

/-- The number of a new edge is above all that were given, also above those of
edges that are gone. -/
theorem edgeCounter_lt_nextEdgeNumber (g : Graph α) : g.edgeCounter < g.nextEdgeNumber := by
  unfold nextEdgeNumber
  dsimp only
  cases hfound : ((List.range (g.edges.length + 1)).map fun i =>
      g.edgeCounter + 1 + i).find? fun number => (g.edge? (edgeId number)).isNone with
  | none =>
      show g.edgeCounter < g.edgeCounter + 1
      omega
  | some number =>
      obtain ⟨i, -, rfl⟩ := List.mem_map.1 (List.mem_of_find?_eq_some hfound)
      show g.edgeCounter < g.edgeCounter + 1 + i
      omega

/-- The ids of the edges are numbers that were given. -/
def Numbered (g : Graph α) : Prop :=
  ∀ edge ∈ g.edges, ∃ n ≤ g.edgeCounter, edge.id = edgeId n

theorem numbered_of_nil {g : Graph α} (h : g.edges = []) : g.Numbered := by
  intro edge hedge
  rw [h] at hedge
  cases hedge

/-- An edge that is there has a number that was given. -/
theorem Numbered.le {g : Graph α} (h : g.Numbered) {n : Nat}
    (hmem : edgeId n ∈ g.edges.map Edge.id) : n ≤ g.edgeCounter := by
  obtain ⟨edge, hedge, hid⟩ := List.mem_map.1 hmem
  obtain ⟨n', hle, hid'⟩ := h edge hedge
  rwa [edgeId_injective (hid.symm.trans hid')]

end Numbers

end Graph

/-! ## §2. What a change announces. -/

/-- The node of which an event says that its ports were made anew. -/
def Event.remade? {α : Type} : Event α → Option String
  | .portsChanged id => some id
  | _ => none

namespace Draft

section Announced

variable {α : Type}

/-- The nodes whose ports were made anew. -/
def remade (d : Draft α) : List String := d.events.filterMap Event.remade?

/-- All that bears on the order of the edges. -/
def lineup (d : Draft α) : List String × Nat × List Edge :=
  (d.remade, d.graph.edgeCounter, d.graph.edges)

/-- Only an event that tells of ports bears on the order. -/
theorem lineup_emit (d : Draft α) {event : Event α} (h : event.remade? = none) :
    (d.emit event).lineup = d.lineup := by
  have hremade : (d.emit event).remade = d.remade := by
    show (d.events ++ [event]).filterMap Event.remade? = _
    rw [List.filterMap_append, List.filterMap_cons_none h, List.filterMap_nil, List.append_nil]
    rfl
  show ((d.emit event).remade, _) = _
  rw [hremade]
  rfl

theorem lineup_edgesRemoved (d : Draft α) (edges : List Edge) :
    (d.emitAll (edges.map fun edge => .edgeRemoved edge.id)).lineup = d.lineup := by
  unfold emitAll
  rw [List.foldl_map]
  exact view_foldl lineup (fun d _ => d.lineup_emit rfl) d edges

/-- Dropping a node takes no edges along: they were cut before. -/
theorem lineup_discard (d : Draft α) (id : String) : (d.discard id).lineup = d.lineup := by
  unfold discard
  split
  · exact (d.dropNode id).lineup_emit rfl
  · rfl

theorem lineup_place (d : Draft α) (id : String) (position : Position α) :
    (d.place id position).lineup = d.lineup := by
  unfold place
  exact lineup_emit _ rfl

theorem lineup_fitEnclosing [Coordinate α] (d : Draft α) (cycle : Option String) :
    (d.fitEnclosing cycle).lineup = d.lineup := by
  unfold fitEnclosing
  split
  · unfold fitContainer
    split
    · rfl
    · dsimp only
      split
      · rfl
      · exact lineup_emit _ rfl
  · rfl

/-- Edges that are put back go behind the others one by one. -/
theorem lineup_putBack (d : Draft α) (edges : List Edge) :
    (d.putBack edges).lineup = (d.remade, d.graph.edgeCounter, d.graph.edges ++ edges) := by
  induction edges generalizing d with
  | nil =>
      rw [List.append_nil]
      rfl
  | cons edge edges ih =>
      have hfirst : ((d.addEdge edge).emit (.edgeAdded edge.id)).lineup
          = (d.addEdge edge).lineup := lineup_emit _ rfl
      obtain ⟨hremade, hrest⟩ := Prod.mk.inj hfirst
      obtain ⟨hcounter, hedges⟩ := Prod.mk.inj hrest
      refine (ih _).trans ?_
      rw [hremade, hcounter, hedges]
      show (d.remade, d.graph.edgeCounter, d.graph.edges ++ [edge] ++ edges) = _
      rw [List.append_assoc, List.singleton_append]

/-- The ports are announced between the edges that go and those that come
back. -/
theorem lineup_refreshPorts (d : Draft α) {id : String} (remap : PortRemap) {node : Node α}
    (h : d.graph.node? id = some node) :
    (d.refreshPorts id remap).lineup
      = (d.remade ++ [id], d.graph.edgeCounter, Edge.rewired id
          (Edge.reattached? id (node.portIds .right) (layoutIds node.kind node.form) remap)
          d.graph.edges) := by
  let touching (edge : Edge) : Bool := edge.touches id
  let taken := (d.dropEdges touching).emitAll
    ((d.graph.edges.filter touching).map fun edge => .edgeRemoved edge.id)
  have htaken : taken.lineup
      = (d.remade, d.graph.edgeCounter, d.graph.edges.filter fun edge => !edge.touches id) :=
    lineup_edgesRemoved _ _
  obtain ⟨hremade, hrest⟩ := Prod.mk.inj htaken
  obtain ⟨hcounter, hedges⟩ := Prod.mk.inj hrest
  -- Of the events only the one behind the last removal tells of ports.
  unfold refreshPorts
  rw [h]
  refine (lineup_putBack _ _).trans ?_
  show ((taken.events ++ [Event.portsChanged id]).filterMap Event.remade?,
    taken.graph.edgeCounter, taken.graph.edges ++ _) = _
  rw [hcounter, hedges, List.filterMap_append]
  show (taken.remade ++ [id], _) = _
  rw [hremade]
  rfl

end Announced

end Draft

/-! ## §3. What a change does to the order. -/

namespace Graph

section Changes

variable {α : Type}

/-- All that a change can do to the order of the edges: whose ports it makes
anew, which number it gives last, and the edges. -/
inductive Shifted (g : Graph α) : List String × Nat × List Edge → Prop
  /-- Some edges are cut, or none. -/
  | thinned {edges : List Edge} : edges.Sublist g.edges → Shifted g ([], g.edgeCounter, edges)
  /-- An edge with a number that was not given goes behind the others. -/
  | made {edge : Edge} {number : Nat} : g.edgeCounter < number → edge.id = edgeId number →
      Shifted g ([], number, g.edges ++ [edge])
  /-- The edges of a node go behind the others, as far as they are put back. -/
  | rewired {id : String} {move : Edge → Option Edge} :
      (∀ edge edge', move edge = some edge' → edge'.Alike edge) →
      Shifted g ([id], g.edgeCounter, Edge.rewired id move g.edges)

/-- An edge is one that was there, or it has a number that was not given. -/
theorem Shifted.origin {g : Graph α} {line : List String × Nat × List Edge} (h : Shifted g line)
    {edge : Edge} (hedge : edge ∈ line.2.2) :
    (∃ old ∈ g.edges, edge.Alike old) ∨ g.edgeCounter < line.2.1 ∧ edge.id = edgeId line.2.1 := by
  cases h with
  | thinned hsub => exact .inl ⟨edge, hsub.subset hedge, rfl, rfl, rfl⟩
  | made hlt hid =>
      rcases List.mem_append.1 hedge with hold | hnew
      · exact .inl ⟨edge, hold, rfl, rfl, rfl⟩
      · exact .inr ⟨hlt, List.mem_singleton.1 hnew ▸ hid⟩
  | rewired hmove =>
      rcases List.mem_append.1 hedge with hkept | hput
      · exact .inl ⟨edge, List.mem_of_mem_filter hkept, rfl, rfl, rfl⟩
      · obtain ⟨old, hold, hsome⟩ := List.mem_filterMap.1 hput
        exact .inl ⟨old, List.mem_of_mem_filter hold, hmove _ _ hsome⟩

/-- Numbers are counted upwards, and never back. -/
theorem Shifted.counter_le {g : Graph α} {line : List String × Nat × List Edge}
    (h : Shifted g line) : g.edgeCounter ≤ line.2.1 := by
  cases h with
  | thinned => exact Nat.le_refl _
  | made hlt => exact Nat.le_of_lt hlt
  | rewired => exact Nat.le_refl _

/-- What leaves ports, numbers and edges alone shifts nothing. -/
theorem shifted_of_lineup_draft {g : Graph α} {d : Draft α} (h : d.lineup = g.draft.lineup) :
    Shifted g d.lineup := h ▸ .thinned (List.Sublist.refl g.edges)

/-- The edges of a node whose ports are made anew go behind the others. -/
theorem shifted_refreshPorts {g : Graph α} {d : Draft α} (h : d.lineup = g.draft.lineup)
    (id : String) (remap : PortRemap) : Shifted g (d.refreshPorts id remap).lineup := by
  cases hnode : d.graph.node? id with
  | none =>
      unfold Draft.refreshPorts
      rw [hnode]
      exact shifted_of_lineup_draft h
  | some node =>
      obtain ⟨hremade, hrest⟩ := Prod.mk.inj h
      obtain ⟨hcounter, hedges⟩ := Prod.mk.inj hrest
      rw [d.lineup_refreshPorts remap hnode, hremade, hcounter, hedges]
      exact .rewired fun _ _ => Edge.alike_of_reattached?

theorem shifted_resyncPorts {g : Graph α} {d : Draft α} (h : d.lineup = g.draft.lineup)
    (id : String) : Shifted g (d.resyncPorts id).lineup := by
  unfold Draft.resyncPorts
  split
  · exact shifted_of_lineup_draft h
  · exact shifted_refreshPorts h _ _

variable [Coordinate α]

/-- **A change keeps the order**, puts a new edge behind the others or the edges
of one node. -/
theorem Applied.shifted {g : Graph α} {made : Kind → Prop} {d : Draft α}
    (h : g.Applied made d) : Shifted g d.lineup := by
  have hwritten (id : String) (f : Node α → Node α) {event : Event α}
      (hevent : event.remade? = none) :
      ((g.draft.reviseNode id f).emit event).lineup = g.draft.lineup :=
    (g.draft.reviseNode id f).lineup_emit hevent
  cases h with
  | added =>
      refine shifted_of_lineup_draft ((Draft.lineup_fitEnclosing _ _).trans ?_)
      exact Draft.lineup_emit _ rfl
  | opened =>
      refine shifted_of_lineup_draft ((Draft.lineup_emit _ rfl).trans ?_)
      exact Draft.lineup_emit _ rfl
  | removed =>
      -- Once the edges are cut, dropping the nodes takes no edge along.
      rw [Draft.lineup_fitEnclosing, without, Draft.view_foldl Draft.lineup Draft.lineup_discard,
        Draft.lineup_edgesRemoved]
      exact .thinned List.filter_sublist
  | connected =>
      rw [Draft.lineup_emit _ rfl]
      exact .made g.edgeCounter_lt_nextEdgeNumber rfl
  | cut =>
      rw [Draft.lineup_emit _ rfl]
      exact .thinned List.filter_sublist
  | moved =>
      refine shifted_of_lineup_draft ((Draft.lineup_fitEnclosing _ _).trans ?_)
      refine (Draft.view_foldl Draft.lineup (fun d _ => d.lineup_place _ _) _ _).trans ?_
      exact g.draft.lineup_place _ _
  | resized =>
      exact shifted_of_lineup_draft ((Draft.lineup_fitEnclosing _ _).trans (hwritten _ _ rfl))
  | renamed => exact shifted_of_lineup_draft (hwritten _ _ rfl)
  | filled => exact shifted_of_lineup_draft (hwritten _ _ rfl)
  | resynced => exact shifted_resyncPorts (hwritten _ _ rfl) _
  | branched => exact shifted_refreshPorts (hwritten _ _ rfl) _ _
  | pruned => exact shifted_refreshPorts (hwritten _ _ rfl) _ _
  | redeclared => exact shifted_of_lineup_draft (Draft.lineup_emit _ rfl)

/-- The nodes whose ports a change makes anew; a refused one makes none. -/
def remade (g : Graph α) (change : Edit α) : List String :=
  match g.edit change with
  | .ok d => d.remade
  | .error _ => []

/-- A change that is refused shifts nothing, so that each change does one of
the three. -/
theorem shifted_after (g : Graph α) (change : Edit α) :
    Shifted g (g.remade change, (g.after change).edgeCounter, (g.after change).edges) := by
  unfold remade after
  cases hedit : g.edit change with
  | ok d => exact (applied_edit hedit).shifted
  | error => exact .thinned (List.Sublist.refl g.edges)

/-- A new edge has the number that was given last. -/
theorem Numbered.after {g : Graph α} (h : g.Numbered) (change : Edit α) :
    (g.after change).Numbered := by
  intro edge hedge
  rcases (g.shifted_after change).origin hedge with ⟨old, hold, halike⟩ | ⟨-, hid⟩
  · obtain ⟨n, hle, hid⟩ := h old hold
    exact ⟨n, Nat.le_trans hle (g.shifted_after change).counter_le, halike.id.trans hid⟩
  · exact ⟨_, Nat.le_refl _, hid⟩

theorem Numbered.run {g : Graph α} (h : g.Numbered) (changes : List (Edit α)) :
    (g.run changes).Numbered := by
  unfold Graph.run
  induction changes generalizing g with
  | nil => exact h
  | cons change changes ih => exact ih (h.after change)

/-- **A number that was given is not given again.** -/
theorem mem_of_mem_run {g : Graph α} {changes : List (Edit α)} {n : Nat}
    (h : edgeId n ∈ (g.run changes).edges.map Edge.id) (hle : n ≤ g.edgeCounter) :
    edgeId n ∈ g.edges.map Edge.id := by
  induction changes generalizing g with
  | nil => exact h
  | cons change changes ih =>
      have hshifted := g.shifted_after change
      obtain ⟨edge, hedge, hid⟩ := List.mem_map.1 (ih h (Nat.le_trans hle hshifted.counter_le))
      -- A number that this change gives is above all that were given before.
      rcases hshifted.origin hedge with ⟨old, hold, halike⟩ | ⟨hlt, hid'⟩
      · exact List.mem_map.2 ⟨old, hold, halike.id.symm.trans hid⟩
      · have heq : n = _ := edgeId_injective (hid.symm.trans hid')
        omega

end Changes

/-! ## §4. Which edge was made before. -/

section Making

variable {α : Type} [Coordinate α] {start : Graph α} {changes : List (Edit α)} {edge other : Edge}

/-- At some moment of a run an edge was there and another was not yet. -/
def MadeBefore (start : Graph α) (changes : List (Edit α)) (edge other : Edge) : Prop :=
  ∃ before, before <+: changes ∧ edge.id ∈ (start.run before).edges.map Edge.id
    ∧ other.id ∉ (start.run before).edges.map Edge.id

theorem run_concat (start : Graph α) (changes : List (Edit α)) (change : Edit α) :
    start.run (changes ++ [change]) = (start.run changes).after change :=
  start.run_append changes [change]

/-- **A smaller number was given before**: when the edge that has it was made,
the other one was not there yet. -/
theorem madeBefore_of_earlier (hstart : start.edges = [])
    (hedge : edge ∈ (start.run changes).edges) (hother : other ∈ (start.run changes).edges)
    (h : edge.Earlier other) : MadeBefore start changes edge other := by
  -- We go back to the change that made the later one of the two.
  induction changes using List.reverseRecOn generalizing edge other with
  | nil =>
      have hnone : edge ∈ start.edges := hedge
      rw [hstart] at hnone
      cases hnone
  | append_singleton changes change ih =>
      have hnumbered := (numbered_of_nil hstart).run changes
      have hshifted := (start.run changes).shifted_after change
      rw [run_concat] at hedge hother
      obtain ⟨m, n, hlt, hm, hn⟩ := h
      rcases hshifted.origin hedge with ⟨old, hold, halike⟩ | ⟨hnew, hm'⟩
      · rcases hshifted.origin hother with ⟨old', hold', halike'⟩ | ⟨hnew, hn'⟩
        · obtain ⟨before, hbefore, hthere, hnot⟩ :=
            ih hold hold' ⟨m, n, hlt, halike.id ▸ hm, halike'.id ▸ hn⟩
          exact ⟨before, hbefore.trans (List.prefix_append _ _), halike.id ▸ hthere,
            halike'.id ▸ hnot⟩
        · refine ⟨changes, List.prefix_append _ _, List.mem_map.2 ⟨old, hold, halike.id.symm⟩, ?_⟩
          intro hthere
          rw [hn'] at hthere
          have hle := hnumbered.le hthere
          omega
      · -- A new edge has the greatest number of all.
        have hm'' : m = ((start.run changes).after change).edgeCounter :=
          edgeId_injective (hm.symm.trans hm')
        have hthere := List.mem_map_of_mem (f := Edge.id) hother
        rw [hn] at hthere
        have hle := (hnumbered.after change).le hthere
        omega

/-- **What was made before has the smaller number.** -/
theorem MadeBefore.earlier (hstart : start.edges = [])
    (hother : other ∈ (start.run changes).edges) (h : MadeBefore start changes edge other) :
    edge.Earlier other := by
  obtain ⟨before, ⟨rest, rfl⟩, hthere, hnot⟩ := h
  have hnumbered := (numbered_of_nil hstart).run before
  obtain ⟨old, hold, hid⟩ := List.mem_map.1 hthere
  obtain ⟨m, hle, hm⟩ := hnumbered old hold
  obtain ⟨n, -, hn⟩ := (numbered_of_nil hstart).run (before ++ rest) other hother
  refine ⟨m, n, ?_, hid.symm.trans hm, hn⟩
  -- Its number was not given by then, or it would have been there.
  have hlater : edgeId n ∈ ((start.run before).run rest).edges.map Edge.id := by
    rw [← run_append, ← hn]
    exact List.mem_map_of_mem hother
  by_contra hge
  exact hnot (hn ▸ mem_of_mem_run hlater (by omega))

end Making

end Graph

end WorkflowEditor
