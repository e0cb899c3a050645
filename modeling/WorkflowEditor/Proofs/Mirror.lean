/-
  WorkflowEditor.Proofs.Mirror
  ────────────────────────────
  **THE EVENTS TELL ALL ABOUT THE CANVAS.**

  A mirror knows a graph by its events alone: it enters what is added,
  strikes out what is removed, and keeps the last place that it was told of
  each node.  Whatever is done to a graph, a mirror that shows it before
  shows it afterwards:

    • `Mirror.Fits`, `Mirror.Shows` — nothing is entered twice or struck out
      twice, and what is left is what the graph has,
    • `Mirror.Shows.moved`, `Mirror.Shows.added` — what one event does,
    • `Mirrored.refreshPorts` — edges that are put back are entered anew,
    • `Mirrored.applied` — a change in all its steps.
-/
import WorkflowEditor.Proofs.EdgeIds
import Mathlib.Logic.Function.Basic

namespace WorkflowEditor

variable {α : Type}

/-! ## §1. Mirrors. -/

/-- What can be known of a graph from its events: its nodes and edges, and
where each node was put and how large it was made when that was last
told. -/
structure Mirror (α : Type) where
  nodes : List String
  edges : List String
  position? : String → Option (Position α)
  size? : String → Option (Size α)

namespace Mirror

/-- The mirror of a graph without nodes. -/
def blank : Mirror α := ⟨[], [], fun _ => none, fun _ => none⟩

/-- A mirror after an event.  Of a node that is added no place is known, even
if there was one with its id before. -/
def note (m : Mirror α) : Event α → Mirror α
  | .nodeAdded id =>
      { m with
        nodes := m.nodes ++ [id]
        position? := Function.update m.position? id none
        size? := Function.update m.size? id none }
  | .nodeRemoved id => { m with nodes := m.nodes.filter fun other => other != id }
  | .nodeMoved id position =>
      { m with position? := Function.update m.position? id (some position) }
  | .nodeResized id size => { m with size? := Function.update m.size? id (some size) }
  | .edgeAdded id => { m with edges := m.edges ++ [id] }
  | .edgeRemoved id => { m with edges := m.edges.filter fun other => other != id }
  | .portsChanged _ | .dataChanged _ | .variablesChanged => m

/-- A mirror after events in turn. -/
def replay (m : Mirror α) (events : List (Event α)) : Mirror α := events.foldl note m

/-- What an event adds is new to the mirror, and what it removes is not. -/
def Admits (m : Mirror α) : Event α → Prop
  | .nodeAdded id => id ∉ m.nodes
  | .nodeRemoved id => id ∈ m.nodes
  | .edgeAdded id => id ∉ m.edges
  | .edgeRemoved id => id ∈ m.edges
  | .nodeMoved .. | .nodeResized .. | .portsChanged _ | .dataChanged _ | .variablesChanged => True

/-- Each event in turn adds what is new and removes what is not. -/
def Fits (m : Mirror α) : List (Event α) → Prop
  | [] => True
  | event :: events => m.Admits event ∧ (m.note event).Fits events

/-- What was told last of each node is what it has. -/
def Current {β : Type} (told? : String → Option β) (view : Node α → β) (nodes : List (Node α)) :
    Prop :=
  ∀ node ∈ nodes, ∀ told, told? node.id = some told → view node = told

/-- A mirror has the nodes and edges of a graph, and knows no other place of
a node than it has. -/
structure Shows (m : Mirror α) (g : Graph α) : Prop where
  nodes : m.nodes = g.nodes.map Node.id
  edges : m.edges = g.edges.map Edge.id
  positions : Current m.position? Node.position g.nodes
  sizes : Current m.size? Node.size g.nodes

theorem replay_append (m : Mirror α) (events more : List (Event α)) :
    m.replay (events ++ more) = (m.replay events).replay more := List.foldl_append

theorem fits_append {m : Mirror α} {events more : List (Event α)} :
    m.Fits (events ++ more) ↔ m.Fits events ∧ (m.replay events).Fits more := by
  induction events generalizing m with
  | nil => exact (and_iff_right trivial).symm
  | cons event events ih => exact (and_congr_right fun _ => ih).trans and_assoc.symm

theorem shows_blank {g : Graph α} (hnodes : g.nodes = []) (hedges : g.edges = []) :
    (blank : Mirror α).Shows g where
  nodes := by rw [hnodes]; rfl
  edges := by rw [hedges]; rfl
  positions := fun _ _ _ h => nomatch h
  sizes := fun _ _ _ h => nomatch h

/-! ## §2. What was told last. -/

namespace Current

variable {β : Type} {told? : String → Option β} {view : Node α → β} {nodes nodes' : List (Node α)}

theorem congr (h : Current told? view nodes)
    (hsame : nodes'.map (fun node => (node.id, view node))
      = nodes.map fun node => (node.id, view node)) : Current told? view nodes' := by
  intro node hnode told htold
  have hmem : (node.id, view node) ∈ nodes.map fun node => (node.id, view node) :=
    hsame ▸ List.mem_map_of_mem hnode
  obtain ⟨before, hbefore, heq⟩ := List.mem_map.1 hmem
  obtain ⟨hid, hview⟩ := Prod.mk.inj heq
  exact hview ▸ h before hbefore told (hid ▸ htold)

theorem subset (h : Current told? view nodes) (hsub : nodes' ⊆ nodes) :
    Current told? view nodes' := fun node hnode => h node (hsub hnode)

/-- What is told of a node that is changed is what it has by then. -/
theorem revised (h : Current told? view nodes) (id : String) {f : Node α → Node α} {b : β}
    (hid : ∀ node, (f node).id = node.id) (hview : ∀ node, view (f node) = b) :
    Current (Function.update told? id (some b)) view
      (nodes.map fun node => if node.id = id then f node else node) := by
  intro node hnode told htold
  obtain ⟨before, hbefore, rfl⟩ := List.mem_map.1 hnode
  by_cases hsame : before.id = id
  · rw [if_pos hsame] at htold ⊢
    rw [hid, hsame, Function.update_self] at htold
    exact (hview before).trans (Option.some.inj htold)
  · rw [if_neg hsame] at htold ⊢
    rw [Function.update_of_ne hsame] at htold
    exact h before hbefore told htold

/-- Of a node that is added nothing was told. -/
theorem added (h : Current told? view nodes) {node : Node α}
    (hfresh : node.id ∉ nodes.map Node.id) :
    Current (Function.update told? node.id none) view (nodes ++ [node]) := by
  intro other hother told htold
  rcases List.mem_append.1 hother with hold | hnew
  · have hne : other.id ≠ node.id := fun heq => hfresh (heq ▸ List.mem_map_of_mem hold)
    rw [Function.update_of_ne hne] at htold
    exact h other hold told htold
  · rw [List.mem_singleton.1 hnew, Function.update_self] at htold
    cases htold

end Current

/-! ## §3. One event. -/

namespace Shows

variable {m : Mirror α} {g g' : Graph α}

/-- Ports, forms and names are not in a mirror, nor are the ends of edges. -/
theorem congr (h : m.Shows g)
    (hnodes : g'.nodes.map (fun node => (node.id, node.position, node.size))
      = g.nodes.map fun node => (node.id, node.position, node.size))
    (hedges : g'.edges.map Edge.id = g.edges.map Edge.id) : m.Shows g' := by
  have hview {β : Type} (view : String × Position α × Size α → β) :
      g'.nodes.map (fun node => view (node.id, node.position, node.size))
        = g.nodes.map fun node => view (node.id, node.position, node.size) := by
    have hmap := congrArg (List.map view) hnodes
    rwa [List.map_map, List.map_map] at hmap
  constructor
  case nodes => exact h.nodes.trans (hview Prod.fst).symm
  case edges => exact h.edges.trans hedges.symm
  case positions => exact h.positions.congr (hview fun placed => (placed.1, placed.2.1))
  case sizes => exact h.sizes.congr (hview fun placed => (placed.1, placed.2.2))

/-- **A node that is moved is shown where it is now.** -/
theorem moved (h : m.Shows g) (id : String) (position : Position α)
    (hnodes : g'.nodes
      = g.nodes.map fun node => if node.id = id then { node with position := position } else node)
    (hedges : g'.edges = g.edges) : (m.note (.nodeMoved id position)).Shows g' := by
  constructor
  case nodes =>
      rw [hnodes]
      refine h.nodes.trans (Graph.map_map_ite ?_ g.nodes).symm
      exact fun _ _ => rfl
  case edges => exact hedges ▸ h.edges
  case positions =>
      rw [hnodes]
      exact h.positions.revised id (fun _ => rfl) fun _ => rfl
  case sizes =>
      refine h.sizes.congr ?_
      rw [hnodes]
      refine Graph.map_map_ite ?_ g.nodes
      exact fun _ _ => rfl

/-- **A node that is resized is shown as large as it is now.** -/
theorem resized (h : m.Shows g) (id : String) (size : Size α)
    (hnodes : g'.nodes
      = g.nodes.map fun node => if node.id = id then { node with size := size } else node)
    (hedges : g'.edges = g.edges) : (m.note (.nodeResized id size)).Shows g' := by
  constructor
  case nodes =>
      rw [hnodes]
      refine h.nodes.trans (Graph.map_map_ite ?_ g.nodes).symm
      exact fun _ _ => rfl
  case edges => exact hedges ▸ h.edges
  case positions =>
      refine h.positions.congr ?_
      rw [hnodes]
      refine Graph.map_map_ite ?_ g.nodes
      exact fun _ _ => rfl
  case sizes =>
      rw [hnodes]
      exact h.sizes.revised id (fun _ => rfl) fun _ => rfl

/-- **A node under a new id is entered**, without a place. -/
theorem added (h : m.Shows g) (node : Node α) (hfresh : node.id ∉ g.nodes.map Node.id)
    (hnodes : g'.nodes = g.nodes ++ [node]) (hedges : g'.edges = g.edges) :
    (m.note (.nodeAdded node.id)).Shows g' := by
  constructor
  case nodes =>
      rw [hnodes, List.map_append, ← h.nodes]
      rfl
  case edges => exact hedges ▸ h.edges
  case positions => exact hnodes ▸ h.positions.added hfresh
  case sizes => exact hnodes ▸ h.sizes.added hfresh

/-- A node that is removed is struck out. -/
theorem removed (h : m.Shows g) (id : String)
    (hnodes : g'.nodes = g.nodes.filter fun node => node.id != id) (hedges : g'.edges = g.edges) :
    (m.note (.nodeRemoved id)).Shows g' := by
  have hsub : g'.nodes ⊆ g.nodes := hnodes ▸ List.filter_subset_self _
  constructor
  case nodes =>
      show m.nodes.filter _ = _
      rw [hnodes, h.nodes, List.filter_map]
      rfl
  case edges => exact hedges ▸ h.edges
  case positions => exact h.positions.subset hsub
  case sizes => exact h.sizes.subset hsub

/-- An edge that is made is entered. -/
theorem connected (h : m.Shows g) (edge : Edge) (hnodes : g'.nodes = g.nodes)
    (hedges : g'.edges = g.edges ++ [edge]) : (m.note (.edgeAdded edge.id)).Shows g' where
  nodes := hnodes ▸ h.nodes
  edges := by
    rw [hedges, List.map_append, ← h.edges]
    rfl
  positions := hnodes ▸ h.positions
  sizes := hnodes ▸ h.sizes

end Shows

/-- Edges that are removed in turn are struck out. -/
theorem replay_edgesRemoved (m : Mirror α) (ids : List String) :
    m.replay (ids.map .edgeRemoved)
      = { m with edges := m.edges.filter fun id => !ids.contains id } := by
  induction ids generalizing m with
  | nil =>
      have hall : (m.edges.filter fun id => !([] : List String).contains id) = m.edges :=
        List.filter_eq_self.2 fun _ _ => rfl
      rw [hall]
      rfl
  | cons id ids ih =>
      refine (ih _).trans ?_
      show { m with edges := (m.edges.filter _).filter _ } = _
      rw [List.filter_filter]
      congr 1
      refine List.filter_congr fun other _ => ?_
      rw [List.contains_cons, Bool.not_or, Bool.and_comm]
      rfl

theorem fits_edgesRemoved {m : Mirror α} {ids : List String} (hnodup : ids.Nodup)
    (hthere : ∀ id ∈ ids, id ∈ m.edges) : m.Fits (ids.map .edgeRemoved) := by
  induction ids generalizing m with
  | nil => trivial
  | cons id ids ih =>
      obtain ⟨hnew, hnodup⟩ := List.nodup_cons.1 hnodup
      refine ⟨hthere id List.mem_cons_self, ih hnodup fun other hother => ?_⟩
      have hne : other ≠ id := fun heq => hnew (heq ▸ hother)
      exact List.mem_filter.2 ⟨hthere other (List.mem_cons_of_mem _ hother), by simpa using hne⟩

end Mirror

/-! ## §4. The steps of a change. -/

open Mirror

/-- The events of a draft fit a mirror, and bring it to what the graph is by
then. -/
structure Mirrored (m : Mirror α) (d : Draft α) : Prop where
  fits : m.Fits d.events
  shows : (m.replay d.events).Shows d.graph

namespace Mirrored

variable {m : Mirror α} {d : Draft α}

/-- One more event. -/
theorem tells (h : Mirrored m d) {d' : Draft α} {event : Event α}
    (hevents : d'.events = d.events ++ [event]) (hadmits : (m.replay d.events).Admits event)
    (hshows : ((m.replay d.events).note event).Shows d'.graph) : Mirrored m d' where
  fits := hevents ▸ fits_append.2 ⟨h.fits, hadmits, trivial⟩
  shows := by
    rw [hevents, replay_append]
    exact hshows

/-- Steps one after the other. -/
theorem foldl {β : Type} {step : Draft α → β → Draft α}
    (hstep : ∀ {d} b, Mirrored m d → Mirrored m (step d b)) (h : Mirrored m d) (bs : List β) :
    Mirrored m (bs.foldl step d) := by
  induction bs generalizing d with
  | nil => exact h
  | cons b bs ih => exact ih (hstep b h)

/-- A step that no mirror sees, and an event that it takes no note of. -/
theorem unseen (h : Mirrored m d) {d' : Draft α} {event : Event α}
    (hevents : d'.events = d.events ++ [event]) (hadmits : ∀ m : Mirror α, m.Admits event)
    (hnote : ∀ m : Mirror α, m.note event = m)
    (hnodes : d'.graph.nodes.map (fun node => (node.id, node.position, node.size))
      = d.graph.nodes.map fun node => (node.id, node.position, node.size))
    (hedges : d'.graph.edges = d.graph.edges) : Mirrored m d' := by
  refine h.tells hevents (hadmits _) ?_
  rw [hnote]
  exact h.shows.congr hnodes (congrArg (List.map Edge.id) hedges)

theorem place (h : Mirrored m d) (id : String) (position : Position α) :
    Mirrored m (d.place id position) :=
  h.tells rfl trivial (h.shows.moved id position rfl rfl)

theorem resize (h : Mirrored m d) (id : String) (size : Size α) :
    Mirrored m ((d.reviseNode id fun node => { node with size := size }).emit
      (.nodeResized id size)) :=
  h.tells rfl trivial (h.shows.resized id size rfl rfl)

theorem discard (h : Mirrored m d) (id : String) : Mirrored m (d.discard id) := by
  unfold Draft.discard
  split
  · rename_i hthere
    refine h.tells rfl ?_ (h.shows.removed id rfl rfl)
    show id ∈ (m.replay d.events).nodes
    rw [h.shows.nodes]
    by_contra hnone
    rw [Graph.node?_eq_none_iff.2 hnone] at hthere
    cases hthere
  · exact h

theorem events_emitAll (d : Draft α) (events : List (Event α)) :
    (d.emitAll events).events = d.events ++ events := by
  induction events generalizing d with
  | nil => exact (List.append_nil _).symm
  | cons event events ih =>
      exact (ih (d.emit event)).trans (List.append_assoc d.events [event] events)

/-- **Edges that are cut are struck out one by one**, as no two of them have
one id. -/
theorem dropEdges (h : Mirrored m d) (hnodup : (d.graph.edges.map Edge.id).Nodup)
    (test : Edge → Bool) :
    Mirrored m ((d.dropEdges test).emitAll
      ((d.graph.edges.filter test).map fun edge => .edgeRemoved edge.id)) := by
  let gone := (d.graph.edges.filter test).map Edge.id
  have hevents : ((d.dropEdges test).emitAll
      ((d.graph.edges.filter test).map fun edge => .edgeRemoved edge.id)).events
        = d.events ++ gone.map .edgeRemoved := by
    rw [events_emitAll, List.map_map]
    rfl
  -- By its id an edge is known to be among those that are cut.
  have hgone : ∀ edge ∈ d.graph.edges, edge.id ∈ gone ↔ test edge := by
    intro edge hedge
    constructor
    · intro hid
      obtain ⟨other, hother, heq⟩ := List.mem_map.1 hid
      obtain ⟨hmem, htest⟩ := List.mem_filter.1 hother
      exact List.inj_on_of_nodup_map hnodup hmem hedge heq ▸ htest
    · exact fun htest => List.mem_map_of_mem (List.mem_filter.2 ⟨hedge, htest⟩)
  constructor
  case fits =>
      rw [hevents]
      refine fits_append.2 ⟨h.fits, fits_edgesRemoved ?_ fun id hid => ?_⟩
      · exact hnodup.sublist (List.filter_sublist.map _)
      · rw [h.shows.edges]
        exact List.Sublist.subset (List.filter_sublist.map _) hid
  case shows =>
      rw [hevents, replay_append, replay_edgesRemoved]
      constructor
      case nodes => exact h.shows.nodes.trans (by rw [Draft.emitAll_nodes]; rfl)
      case edges =>
          show List.filter _ (m.replay d.events).edges = _
          rw [h.shows.edges, Draft.emitAll_edges, List.filter_map]
          refine congrArg (List.map Edge.id) (List.filter_congr fun edge hedge => ?_)
          have hsame : gone.contains edge.id = test edge := by
            rw [Bool.eq_iff_iff, List.contains_iff_mem]
            exact hgone edge hedge
          exact congrArg not hsame
      case positions => exact (Draft.emitAll_nodes _ _).symm ▸ h.shows.positions
      case sizes => exact (Draft.emitAll_nodes _ _).symm ▸ h.shows.sizes

/-- **Edges that are put back are entered anew.** -/
theorem putBack (h : Mirrored m d) {edges : List Edge}
    (hnodup : ((d.putBack edges).graph.edges.map Edge.id).Nodup) :
    Mirrored m (d.putBack edges) := by
  rw [Draft.putBack_edges] at hnodup
  induction edges generalizing d with
  | nil => exact h
  | cons edge edges ih =>
      have hrest : (((d.graph.edges ++ [edge]) ++ edges).map Edge.id).Nodup := by
        rwa [List.append_assoc]
      refine ih (d := (d.addEdge edge).emit (.edgeAdded edge.id)) ?_ hrest
      refine h.tells rfl ?_ (h.shows.connected edge rfl rfl)
      show edge.id ∉ (m.replay d.events).edges
      rw [h.shows.edges]
      rw [List.map_append] at hnodup
      exact fun htaken =>
        (List.nodup_append.1 hnodup).2.2 _ htaken _ (List.mem_map_of_mem List.mem_cons_self) rfl

/-- **Edges that are put back under other ports are struck out and entered
anew**, so each has its id once. -/
theorem refreshPorts (h : Mirrored m d) (hnodup : (d.graph.edges.map Edge.id).Nodup) (id : String)
    (remap : PortRemap) : Mirrored m (d.refreshPorts id remap) := by
  have hafter := (Graph.edgesBecome_refreshPorts (g := d.graph) rfl id remap).nodup_ids hnodup
  unfold Draft.refreshPorts at hafter ⊢
  split
  · exact h
  · rename_i node hnode
    rw [hnode] at hafter
    refine Mirrored.putBack ?_ hafter
    refine (h.dropEdges hnodup _).unseen rfl (fun _ => trivial) (fun _ => rfl) ?_ rfl
    exact Draft.map_reviseNode _ id fun _ => rfl

theorem resyncPorts (h : Mirrored m d) (hnodup : (d.graph.edges.map Edge.id).Nodup)
    (id : String) : Mirrored m (d.resyncPorts id) := by
  unfold Draft.resyncPorts
  split
  · exact h
  · exact h.refreshPorts hnodup id _

variable [Coordinate α]

theorem spawn (h : Mirrored m d) (kind : Kind) (position : Position α) (cycle : Option String) :
    Mirrored m (d.spawn kind position cycle).1 := by
  have hfresh := d.graph.freshNodeId_not_mem kind
  have hshows := h.shows.added (d.spawned kind position cycle) hfresh
    (d.spawn_nodes kind position cycle) rfl
  refine h.tells rfl ?_ hshows
  show d.graph.freshNodeId kind ∉ (m.replay d.events).nodes
  rw [h.shows.nodes]
  exact hfresh

theorem fitContainer (h : Mirrored m d) (id : String) : Mirrored m (d.fitContainer id) := by
  unfold Draft.fitContainer
  split
  · exact h
  · dsimp only
    split
    · exact h
    · exact h.resize id _

theorem fitEnclosing (h : Mirrored m d) (cycle : Option String) :
    Mirrored m (d.fitEnclosing cycle) := by
  cases cycle with
  | none => exact h
  | some id => exact h.fitContainer id

/-- **A change in all its steps**: whatever it does, its events fit a mirror
of the graph, and bring it to what the graph is by then. -/
theorem applied {g : Graph α} (h : m.Shows g) (hedges : (g.edges.map Edge.id).Nodup)
    {made : Kind → Prop} (happlied : g.Applied made d) : Mirrored m d := by
  have hdraft : Mirrored m g.draft := ⟨trivial, h⟩
  -- A field of a node that is written has no place in a mirror.
  have hwritten (id : String) {f : Node α → Node α}
      (hf : ∀ node, ((f node).id, (f node).position, (f node).size)
        = (node.id, node.position, node.size)) :
      Mirrored m ((g.draft.reviseNode id f).emit (.dataChanged id)) := by
    refine hdraft.unseen rfl (fun _ => trivial) (fun _ => rfl) ?_ rfl
    exact Draft.map_reviseNode g.draft id hf
  cases happlied with
  | added => exact (hdraft.spawn _ _ _).fitEnclosing _
  | opened => exact (hdraft.spawn _ _ _).spawn _ _ _
  | removed => exact ((hdraft.dropEdges hedges _).foldl (fun id h => h.discard id) _).fitEnclosing _
  | @connected source target _ _ ports =>
      let edge : Edge := ⟨Graph.edgeId g.nextEdgeNumber, source, ports.1, target, ports.2, []⟩
      refine hdraft.tells rfl ?_ (h.connected edge rfl rfl)
      show edge.id ∉ m.edges
      rw [h.edges]
      exact g.nextEdgeNumber_not_mem
  | @cut id edge hlast =>
      obtain ⟨hmem, hid⟩ := List.mem_filter.1 (List.mem_of_getLast? hlast)
      refine hdraft.tells rfl ?_ ?_
      · show id ∈ m.edges
        rw [h.edges]
        exact beq_iff_eq.1 hid ▸ List.mem_map_of_mem hmem
      · refine ⟨h.nodes, ?_, h.positions, h.sizes⟩
        show m.edges.filter _ = _
        rw [h.edges, List.filter_map]
        rfl
  | moved =>
      refine Mirrored.fitEnclosing ?_ _
      exact (hdraft.place _ _).foldl (fun child h => h.place child.id _) _
  | resized => exact (hdraft.resize _ _).fitEnclosing _
  | renamed => exact hwritten _ fun _ => rfl
  | filled => exact hwritten _ fun _ => rfl
  | resynced =>
      refine Mirrored.resyncPorts (hwritten _ ?_) hedges _
      exact fun _ => rfl
  | branched =>
      refine Mirrored.refreshPorts (hwritten _ ?_) hedges _ _
      exact fun _ => rfl
  | pruned =>
      refine Mirrored.refreshPorts (hwritten _ ?_) hedges _ _
      exact fun _ => rfl
  | redeclared => exact hdraft.unseen rfl (fun _ => trivial) (fun _ => rfl) rfl rfl

end Mirrored

end WorkflowEditor
