/-
  WorkflowEditor.Proofs.Applied
  ─────────────────────────────
  **WHAT A CHANGE THAT WAS APPLIED CAME DOWN TO.**

  There are more changes than ways in which a graph becomes another one: a
  dragged payload adds a node, and an error branch is a field that is set.
  `Applied` lists these ways, each with the rules that were kept and with
  its steps in order.  What no change does is proved by going through them.

    • `applied_edit` — a change that was applied is one of them,
    • `untouched_run` — none of them touches what concerns the graph as a
      whole.
-/
import WorkflowEditor.Proofs.Editing

namespace WorkflowEditor

/-- A change asks for a node of a kind. -/
inductive Edit.Adds {α : Type} : Edit α → Kind → Prop
  | addNode (kind : Kind) (position : Position α) : Adds (.addNode kind position) kind
  | dropPayload {text : String} {kind : Kind} (position : Position α) :
      Graph.payload.decoder.ofText text = .ok kind → Adds (.dropPayload text position) kind

namespace Graph

variable {α : Type} [Coordinate α]

/-- A graph with its edges at some nodes cut and the nodes dropped. -/
def without {α : Type} (g : Graph α) (ids : List String) : Draft α :=
  let hit (edge : Edge) : Bool := ids.contains edge.source || ids.contains edge.target
  ids.foldl Draft.discard
    ((g.draft.dropEdges hit).emitAll ((g.edges.filter hit).map fun edge => .edgeRemoved edge.id))

/-- The other nodes stay as they are, in their order. -/
theorem without_nodes {α : Type} (g : Graph α) (ids : List String) :
    (g.without ids).graph.nodes = g.nodes.filter fun node => !ids.contains node.id := by
  unfold without
  rw [Draft.foldl_discard_nodes, Draft.emitAll_nodes]
  rfl

/-- An edge is gone if one of its ends is, and only then. -/
theorem without_edges {α : Type} (g : Graph α) (ids : List String) :
    (g.without ids).graph.edges
      = g.edges.filter fun edge => !(ids.contains edge.source || ids.contains edge.target) := by
  unfold without
  rw [Draft.foldl_discard_edges, Draft.emitAll_edges]
  rfl

/-- All ways in which a change that is applied makes another graph.  The nodes
that it adds, but for the starts of containers, are of the kinds `made`. -/
inductive Applied (g : Graph α) (made : Kind → Prop) : Draft α → Prop
  | added {kind : Kind} {position : Position α} {cycle : Option String} :
      made kind → ¬ kind.isReserved → ¬ kind.isContainer →
      cycle = (g.containerAt? position).map Node.id →
      Applied g made ((g.draft.spawn kind position cycle).1.fitEnclosing cycle)
  | opened {kind : Kind} {position corner : Position α} :
      made kind → ¬ kind.isReserved → kind.isContainer → g.containerAt? position = none →
      corner = ⟨position.x + g.settings.containerPadding,
        position.y + g.settings.containerHeader + g.settings.containerPadding⟩ →
      Applied g made ((g.draft.spawn kind position none).1.spawn .cycleStart corner
        (some (g.freshNodeId kind))).1
  | removed {node : Node α} :
      g.require node.id = .ok node →
      ¬ (node.kind = .cycleStart ∧ (g.containerOf? node).isSome) →
      Applied g made ((g.without (g.doomed node)).fitEnclosing node.cycle)
  | connected {source target : String} {wanted wanted' : Option String} {ports : String × String} :
      g.joint source wanted target wanted' = .ok ports →
      Applied g made (((g.draft.revise fun g => { g with edgeCounter := g.nextEdgeNumber }).addEdge
        ⟨edgeId g.nextEdgeNumber, source, ports.1, target, ports.2, []⟩).emit
          (.edgeAdded (edgeId g.nextEdgeNumber)))
  | cut {id : String} {edge : Edge} :
      (g.edges.filter fun edge => edge.id == id).getLast? = some edge →
      Applied g made ((g.draft.dropEdges fun edge => edge.id == id).emit (.edgeRemoved id))
  | moved {node : Node α} {position landed : Position α} {followers : List (Node α)} :
      g.require node.id = .ok node → landed = g.landing node position →
      followers = (if node.kind.isContainer
        then (g.draft.place node.id landed).graph.children node.id else []) →
      Applied g made ((followers.foldl (fun d child => d.place child.id (child.position.offset
        (landed.x - node.position.x) (landed.y - node.position.y)))
          (g.draft.place node.id landed)).fitEnclosing node.cycle)
  | resized {node : Node α} {wanted size : Size α} :
      g.require node.id = .ok node →
      size = (if node.kind.isContainer then wanted.cover (g.sizeToFit node) else wanted) →
      Applied g made (((g.draft.reviseNode node.id fun node => { node with size := size }).emit
        (.nodeResized node.id size)).fitEnclosing node.cycle)
  | renamed {node : Node α} {name : String} :
      g.require node.id = .ok node →
      Applied g made ((g.draft.reviseNode node.id fun node => { node with name := name }).emit
        (.dataChanged node.id))
  | filled {node : Node α} {key : String} {value : Json} :
      g.require node.id = .ok node → ¬ (node.kind.isBranching ∧ key ∈ branchKeys) →
      Applied g made ((g.draft.reviseNode node.id fun other =>
        { other with form := node.kind.completeForm (node.form.set key value) }).emit
          (.dataChanged node.id))
  | resynced {node : Node α} {key : String} {value : Json} :
      g.require node.id = .ok node → node.kind.isBranching → key ∈ branchKeys →
      Applied g made (((g.draft.reviseNode node.id fun other =>
        { other with form := node.kind.completeForm (node.form.set key value) }).emit
          (.dataChanged node.id)).resyncPorts node.id)
  | branched {node : Node α} {key : String} {blank : Json} {index : Nat} :
      g.require node.id = .ok node → branchField node = .ok (key, blank) →
      index ≤ (node.form.items key).length →
      Applied g made (g.setBranches node.id key ((node.form.items key).insertIdx index blank)
        (.inserted index))
  | pruned {node : Node α} {key : String} {blank : Json} {index : Nat} :
      g.require node.id = .ok node → branchField node = .ok (key, blank) →
      index < (node.form.items key).length → 1 < (node.form.items key).length →
      Applied g made (g.setBranches node.id key ((node.form.items key).eraseIdx index)
        (.removed index))
  | redeclared {vars : List ConversationVariable} :
      Applied g made ((g.draft.revise fun g => { g with vars := vars }).emit .variablesChanged)

/-- A node is added in the container where it falls, if there is one, and a
container only where there is none. -/
theorem applied_addNode {g : Graph α} {made : Kind → Prop} {kind : Kind} (hmade : made kind)
    {position : Position α} {result : Draft α × String}
    (hok : g.addNode kind position = .ok result) : g.Applied made result.1 := by
  unfold addNode at hok
  split at hok
  · cases hok
  rename_i hreserved
  split at hok
  · cases hok
  · rename_i hcontainer hfree
    obtain rfl := Except.ok.inj hok
    exact .opened hmade hreserved hcontainer hfree rfl
  · rename_i hcontainer
    obtain rfl := Except.ok.inj hok
    exact .added hmade hreserved (Bool.eq_false_iff.1 hcontainer) rfl

/-- A value is written into the form in either case.  Only a branch field of a
branching node changes its ports. -/
theorem applied_updateConfig {g : Graph α} {made : Kind → Prop} {id key : String} {value : Json}
    {d : Draft α} (hok : g.updateConfig id key value = .ok d) : g.Applied made d := by
  unfold updateConfig at hok
  obtain ⟨node, hrequire, hok⟩ := bind_eq_ok.1 hok
  obtain rfl := Except.ok.inj hok
  obtain ⟨-, rfl⟩ := mem_of_require hrequire
  by_cases hbranch : node.kind.isBranching ∧ key ∈ branchKeys
  · rw [if_pos hbranch]
    exact .resynced hrequire hbranch.1 hbranch.2
  · rw [if_neg hbranch]
    exact .filled hrequire hbranch

/-- **A change that was applied** came down to one of these ways. -/
theorem applied_edit {g : Graph α} {change : Edit α} {d : Draft α} (hok : g.edit change = .ok d) :
    g.Applied change.Adds d := by
  cases change with
  | addNode kind position =>
      obtain ⟨_, hresult, rfl⟩ := map_eq_ok.1 hok
      exact applied_addNode (.addNode kind position) hresult
  -- A payload adds the node whose kind it names.
  | dropPayload text position =>
      obtain ⟨_, hresult, rfl⟩ := map_eq_ok.1 hok
      obtain ⟨_, hkind, hresult⟩ := bind_eq_ok.1 hresult
      exact applied_addNode (.dropPayload position (mapError_eq_ok.1 hkind)) hresult
  | removeNode id =>
      obtain ⟨_, hresult, rfl⟩ := map_eq_ok.1 hok
      obtain ⟨node, hrequire, hresult⟩ := bind_eq_ok.1 hresult
      obtain ⟨hfree, hresult⟩ := guard_eq_ok.1 hresult
      obtain rfl := Except.ok.inj hresult
      obtain ⟨-, rfl⟩ := mem_of_require hrequire
      exact .removed hrequire hfree
  | connect source sourcePort target targetPort =>
      obtain ⟨_, hresult, rfl⟩ := map_eq_ok.1 hok
      obtain ⟨_, hjoint, hresult⟩ := bind_eq_ok.1 hresult
      obtain rfl := Except.ok.inj hresult
      exact .connected hjoint
  | disconnect id =>
      obtain ⟨_, hresult, rfl⟩ := map_eq_ok.1 hok
      unfold disconnect at hresult
      dsimp only at hresult
      split at hresult
      · rename_i hlast
        obtain rfl := Except.ok.inj hresult
        exact .cut hlast
      · cases hresult
  | moveNode id position =>
      obtain ⟨_, hresult, rfl⟩ := map_eq_ok.1 hok
      obtain ⟨node, hrequire, hresult⟩ := bind_eq_ok.1 hresult
      obtain rfl := Except.ok.inj hresult
      obtain ⟨-, rfl⟩ := mem_of_require hrequire
      exact .moved hrequire rfl rfl
  | resizeNode id size =>
      obtain ⟨_, hresult, rfl⟩ := map_eq_ok.1 hok
      obtain ⟨node, hrequire, hresult⟩ := bind_eq_ok.1 hresult
      obtain rfl := Except.ok.inj hresult
      obtain ⟨-, rfl⟩ := mem_of_require hrequire
      exact .resized hrequire rfl
  | renameNode id name =>
      obtain ⟨node, hrequire, hresult⟩ := bind_eq_ok.1 hok
      obtain rfl := Except.ok.inj hresult
      obtain ⟨-, rfl⟩ := mem_of_require hrequire
      exact .renamed hrequire
  | updateConfig id key value => exact applied_updateConfig hok
  | insertBranch id index =>
      obtain ⟨node, hrequire, hresult⟩ := bind_eq_ok.1 hok
      obtain ⟨_, hfield, hresult⟩ := bind_eq_ok.1 hresult
      obtain ⟨hindex, hresult⟩ := guard_eq_ok.1 hresult
      obtain rfl := Except.ok.inj hresult
      obtain ⟨-, rfl⟩ := mem_of_require hrequire
      exact .branched hrequire hfield (Nat.not_lt.1 hindex)
  | removeBranch id index =>
      obtain ⟨node, hrequire, hresult⟩ := bind_eq_ok.1 hok
      obtain ⟨_, hfield, hresult⟩ := bind_eq_ok.1 hresult
      obtain ⟨hindex, hresult⟩ := guard_eq_ok.1 hresult
      obtain ⟨hmore, hresult⟩ := guard_eq_ok.1 hresult
      obtain rfl := Except.ok.inj hresult
      obtain ⟨-, rfl⟩ := mem_of_require hrequire
      exact .pruned hrequire hfield (Nat.not_le.1 hindex) (Nat.not_le.1 hmore)
  -- An error branch is a field that is set, once the kind is checked.
  | setErrorBranch id enabled =>
      obtain ⟨_, -, hresult⟩ := bind_eq_ok.1 hok
      obtain ⟨-, hresult⟩ := guard_eq_ok.1 hresult
      exact applied_updateConfig hresult
  | setVariables vars =>
      obtain rfl := Except.ok.inj hok
      exact .redeclared

end Graph

/-! ## What no change touches. -/

/-- A graph without all that a change may touch: its document properties,
settings and listeners. -/
def Graph.untouched {α : Type} (g : Graph α) : Graph α :=
  { g with nodes := [], edges := [], vars := [], revision := 0, edgeCounter := 0 }

/-- The settings are among what no change may touch. -/
theorem Graph.settings_of_untouched {α : Type} {g g' : Graph α} (h : g.untouched = g'.untouched) :
    g.settings = g'.settings := by
  show g.untouched.settings = g'.untouched.settings
  rw [h]

namespace Draft

variable {α : Type}

theorem untouched_foldl {β : Type} {step : Draft α → β → Draft α}
    (hstep : ∀ d b, (step d b).graph.untouched = d.graph.untouched) (d : Draft α) (bs : List β) :
    (bs.foldl step d).graph.untouched = d.graph.untouched :=
  view_foldl (fun d => d.graph.untouched) hstep d bs

theorem untouched_emitAll (d : Draft α) (events : List (Event α)) :
    (d.emitAll events).graph.untouched = d.graph.untouched := by
  refine untouched_foldl ?_ d events
  exact fun _ _ => rfl

theorem untouched_putBack (d : Draft α) (edges : List Edge) :
    (d.putBack edges).graph.untouched = d.graph.untouched := by
  refine untouched_foldl ?_ d edges
  exact fun _ _ => rfl

theorem untouched_discard (d : Draft α) (id : String) :
    (d.discard id).graph.untouched = d.graph.untouched := by
  unfold discard
  split <;> rfl

/-- Ports that are made anew concern one node and its edges only. -/
theorem untouched_refreshPorts (d : Draft α) (id : String) (remap : PortRemap) :
    (d.refreshPorts id remap).graph.untouched = d.graph.untouched := by
  unfold refreshPorts
  split
  · rfl
  · exact (untouched_putBack _ _).trans (untouched_emitAll _ _)

theorem untouched_resyncPorts (d : Draft α) (id : String) :
    (d.resyncPorts id).graph.untouched = d.graph.untouched := by
  unfold resyncPorts
  split
  · rfl
  · exact d.untouched_refreshPorts id _

/-- Fitting a container writes a size, if it writes anything. -/
theorem untouched_fitEnclosing [Coordinate α] (d : Draft α) (cycle : Option String) :
    (d.fitEnclosing cycle).graph.untouched = d.graph.untouched := by
  unfold fitEnclosing
  split
  · unfold fitContainer
    split
    · rfl
    · dsimp only
      split <;> rfl
  · rfl

end Draft

namespace Graph

variable {α : Type} [Coordinate α]

/-- **Each way of making another graph** writes nodes, edges or variables, the
revision and the counter of the edges, and nothing else. -/
theorem Applied.untouched {g : Graph α} {made : Kind → Prop} {d : Draft α}
    (h : g.Applied made d) :
    d.graph.untouched = g.untouched := by
  cases h with
  | added => exact Draft.untouched_fitEnclosing _ _
  | opened => rfl
  | removed =>
      rw [Draft.untouched_fitEnclosing, without, Draft.untouched_foldl Draft.untouched_discard,
        Draft.untouched_emitAll]
      rfl
  | connected => rfl
  | cut => rfl
  | moved =>
      refine (Draft.untouched_fitEnclosing _ _).trans ((Draft.untouched_foldl ?_ _ _).trans rfl)
      exact fun _ _ => rfl
  | resized => exact Draft.untouched_fitEnclosing _ _
  | renamed => rfl
  | filled => rfl
  | resynced => exact Draft.untouched_resyncPorts _ _
  | branched => exact Draft.untouched_refreshPorts _ _ _
  | pruned => exact Draft.untouched_refreshPorts _ _ _
  | redeclared => rfl

/-- A change that is refused touches nothing at all. -/
theorem untouched_after (g : Graph α) (change : Edit α) :
    (g.after change).untouched = g.untouched := by
  unfold after
  split
  · rename_i d hok
    exact (applied_edit hok).untouched
  · rfl

/-- **No changes touch the settings or the listeners**, whether they are
refused or not. -/
theorem untouched_run (g : Graph α) (changes : List (Edit α)) :
    (g.run changes).untouched = g.untouched := by
  unfold run
  induction changes generalizing g with
  | nil => rfl
  | cons change changes ih => exact (ih (g.after change)).trans (g.untouched_after change)

end Graph

end WorkflowEditor
