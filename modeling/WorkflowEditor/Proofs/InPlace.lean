/-
  WorkflowEditor.Proofs.InPlace
  ─────────────────────────────
  **CHANGES THAT ARE MADE IN PLACE.**

  `Graph.edit` works out a draft and drops it when the change is refused.
  An editor has one graph and works on that: checks and writes follow one
  another, and what was written stays written when a later check fails.
  Here each change is such a program, with its checks and writes one by one
  in the order in which they are made; some of the checks come after writes.

    • `InPlace` — a program that may fail half-way,
    • `settle` — how it ends when it leaves nothing half done,
    • `run_ask_bind`, `run_guard_bind` — a check before any write does no
      harm,
    • `run_disconnect`, `run_refreshPorts` — of the checks after a write, one
      fails only if nothing was written, and the others never do,
    • `run_perform` — each change in place ends as `Graph.edit` says.
-/
import WorkflowEditor.Proofs.Editing

namespace WorkflowEditor

/-- A program that works on a graph in place and may fail half-way. -/
abbrev InPlace (α β : Type) : Type := EStateM GraphError (Draft α) β

namespace InPlace

variable {α β γ ρ : Type}

/-! ## §1. Checks and writes. -/

/-- Asks the graph as it is now. -/
def ask (question : Graph α → Except GraphError β) : InPlace α β := do
  match question (← get).graph with
  | .ok answer => return answer
  | .error cause => throw cause

/-- Looks at the graph as it is now. -/
def look (question : Graph α → β) : InPlace α β := return question (← get).graph

/-- Writes. -/
def write (step : Draft α → Draft α) : InPlace α Unit := modify step

/-- Takes the edges that pass a test out of the graph and answers them. -/
def takeEdges (test : Edge → Bool) : InPlace α (List Edge) := do
  let taken ← look fun g => g.edges.filter test
  write (·.dropEdges test)
  return taken

/-! ## §2. How programs end. -/

/-- How a program ends that leaves nothing half done: with the draft and the
answer that were worked out, or with an error and the draft that there was. -/
def settle (d : Draft α) (read : ρ → Draft α × β) :
    Except GraphError ρ → EStateM.Result GraphError (Draft α) β
  | .ok result => .ok (read result).2 (read result).1
  | .error cause => .error cause d

/-- A question that is answered with an error ends the program, and nothing is
written. -/
theorem run_ask (question : Graph α → Except GraphError β) (d : Draft α) :
    (ask question).run d = settle d (d, ·) (question d.graph) := by
  unfold ask
  rw [EStateM.run_bind, EStateM.run_get]
  dsimp only
  cases question d.graph <;> rfl

theorem run_look_bind (d : Draft α) (question : Graph α → β) (rest : β → InPlace α γ) :
    (look question >>= rest).run d = (rest (question d.graph)).run d := rfl

theorem run_takeEdges (test : Edge → Bool) (d : Draft α) :
    (takeEdges test).run d = .ok (d.graph.edges.filter test) (d.dropEdges test) := rfl

/-- **A check before any write** that fails leaves the graph as it was. -/
theorem run_ask_bind {d : Draft α} {question : Graph α → Except GraphError β}
    {rest : β → InPlace α γ} {read : ρ → Draft α × γ} {rest' : β → Except GraphError ρ}
    (h : ∀ answer, question d.graph = .ok answer →
      (rest answer).run d = settle d read (rest' answer)) :
    (ask question >>= rest).run d = settle d read (question d.graph >>= rest') := by
  rw [EStateM.run_bind, run_ask]
  cases hanswer : question d.graph with
  | ok answer => exact h answer hanswer
  | error cause => rfl

/-- A rule that is checked before any write. -/
theorem run_guard_bind {broken : Prop} {_ : Decidable broken} {cause : GraphError} {d : Draft α}
    {rest : Unit → InPlace α γ} {read : ρ → Draft α × γ} {rest' : Unit → Except GraphError ρ}
    (h : ¬ broken → (rest ()).run d = settle d read (rest' ())) :
    (if broken then throw cause >>= rest else rest ()).run d
      = settle d read (if broken then throw cause >>= rest' else rest' ()) := by
  by_cases hbroken : broken
  · rw [if_pos hbroken, if_pos hbroken]
    rfl
  · rw [if_neg hbroken, if_neg hbroken]
    exact h hbroken

/-- A program whose answer nobody asks for. -/
theorem run_unanswered {d : Draft α} {program : InPlace α β}
    {result : Except GraphError (Draft α × β)} (h : program.run d = settle d id result) :
    (do let _ ← program : InPlace α Unit).run d = settle d (·, ()) (Prod.fst <$> result) := by
  rw [EStateM.run_bind, h]
  cases result <;> rfl

/-! ## §3. Changes of nodes. -/

section Nodes

variable [Coordinate α]

/-- Adds a node and answers its id. -/
def spawn (kind : Kind) (position : Position α) (cycle : Option String) : InPlace α String := do
  let (d, id) := (← get).spawn kind position cycle
  set d
  return id

/-- Adds a node of a kind.  A container is given its start when it is there,
and a child's container is fitted when the child is there. -/
def addNode (kind : Kind) (position : Position α) : InPlace α String := do
  if kind.isReserved then throw (.reservedKind kind)
  match ← look (·.containerAt? position) with
  | some container =>
      if kind.isContainer then throw (.nestedContainer kind container.id)
      let id ← spawn kind position (some container.id)
      write (·.fitContainer container.id)
      return id
  | none =>
      let id ← spawn kind position none
      if kind.isContainer then
        let settings ← look Graph.settings
        let pad := settings.containerPadding
        let corner := ⟨position.x + pad, position.y + settings.containerHeader + pad⟩
        let _ ← spawn .cycleStart corner (some id)
      return id

/-- Both rules, on kinds and on nesting, are checked before the first write. -/
theorem run_addNode (g : Graph α) (kind : Kind) (position : Position α) :
    (addNode kind position).run g.draft = settle g.draft id (g.addNode kind position) := by
  unfold addNode Graph.addNode
  by_cases hreserved : kind.isReserved
  · rw [if_pos hreserved, if_pos hreserved]
    rfl
  rw [if_neg hreserved, if_neg hreserved]
  show EStateM.run (match g.containerAt? position with | some _ => _ | none => _) g.draft = _
  cases kind.isContainer <;> cases g.containerAt? position <;> rfl

/-- Adds the node that a dragged payload names. -/
def dropPayload (text : String) (position : Position α) : InPlace α String := do
  let kind ← ask fun _ => (Graph.payload.decoder.ofText text).mapError .invalidPayload
  addNode kind position

theorem run_dropPayload (g : Graph α) (text : String) (position : Position α) :
    (dropPayload text position).run g.draft
      = settle g.draft id (g.dropPayload text position) := by
  unfold dropPayload Graph.dropPayload
  refine run_ask_bind fun kind _ => ?_
  exact run_addNode g kind position

/-- Removes a node: its edges go first, then its children, then the node. -/
def removeNode (nodeId : String) : InPlace α (List String) := do
  let node ← ask (·.require nodeId)
  let container ← look (·.containerOf? node)
  if node.kind = .cycleStart ∧ container.isSome then throw (.protectedNode nodeId)
  let children ← look (·.children nodeId)
  let doomed := (if node.kind.isContainer then children.map Node.id else []) ++ [nodeId]
  let edges ← takeEdges fun edge => doomed.contains edge.source || doomed.contains edge.target
  write (·.emitAll (edges.map fun edge => .edgeRemoved edge.id))
  write fun d => doomed.foldl Draft.discard d
  write (·.fitEnclosing node.cycle)
  return doomed

/-- Whether a node is protected is checked before its edges are taken. -/
theorem run_removeNode (g : Graph α) (nodeId : String) :
    (removeNode nodeId).run g.draft = settle g.draft id (g.removeNode nodeId) := by
  unfold removeNode Graph.removeNode
  refine run_ask_bind fun node _ => ?_
  rw [run_look_bind]
  refine run_guard_bind fun _ => ?_
  rfl

/-- Moves a node: its children are looked up when it has landed. -/
def moveNode (nodeId : String) (position : Position α) : InPlace α (Position α) := do
  let node ← ask (·.require nodeId)
  let landed ← look (·.landing node position)
  write (·.place nodeId landed)
  let children ← look (·.children nodeId)
  let dx := landed.x - node.position.x
  let dy := landed.y - node.position.y
  write fun d => (if node.kind.isContainer then children else []).foldl
    (fun d child => d.place child.id (child.position.offset dx dy)) d
  write (·.fitEnclosing node.cycle)
  return landed

/-- The children are those of the graph in which the node has landed. -/
theorem run_moveNode (g : Graph α) (nodeId : String) (position : Position α) :
    (moveNode nodeId position).run g.draft = settle g.draft id (g.moveNode nodeId position) := by
  unfold moveNode Graph.moveNode
  refine run_ask_bind fun node _ => ?_
  rfl

/-- Resizes a node: the size that a container needs is asked for first. -/
def resizeNode (nodeId : String) (size : Size α) : InPlace α (Size α) := do
  let node ← ask (·.require nodeId)
  let size ←
    if node.kind.isContainer then do
      let needed ← ask (·.fittedSize nodeId)
      pure (size.cover needed)
    else pure size
  write (·.reviseNode nodeId fun node => { node with size := size })
  write (·.emit (.nodeResized nodeId size))
  write (·.fitEnclosing node.cycle)
  return size

/-- A node that is there can be measured, so nothing fails behind the first
check. -/
theorem run_resizeNode (g : Graph α) (nodeId : String) (size : Size α) :
    (resizeNode nodeId size).run g.draft = settle g.draft id (g.resizeNode nodeId size) := by
  unfold resizeNode Graph.resizeNode
  refine run_ask_bind fun node hnode => ?_
  by_cases hcontainer : node.kind.isContainer
  · rw [if_pos hcontainer, if_pos hcontainer]
    -- The node is there, so the size that it needs is known.
    have hfitted : g.draft.graph.fittedSize nodeId = .ok (g.sizeToFit node) := by
      unfold Graph.fittedSize
      rw [hnode]
      rfl
    rw [EStateM.run_bind, run_ask, hfitted]
    rfl
  · rw [if_neg hcontainer, if_neg hcontainer]
    rfl

end Nodes

/-- Renames a node. -/
def renameNode (nodeId name : String) : InPlace α Unit := do
  let _ ← ask (·.require nodeId)
  write (·.reviseNode nodeId fun node => { node with name := name })
  write (·.emit (.dataChanged nodeId))

theorem run_renameNode (g : Graph α) (nodeId name : String) :
    (renameNode nodeId name).run g.draft
      = settle g.draft (·, ()) (g.renameNode nodeId name) := by
  unfold renameNode Graph.renameNode
  refine run_ask_bind fun node _ => ?_
  rfl

/-- Replaces the variables of the conversation. -/
def setVariables (vars : List ConversationVariable) : InPlace α Unit := do
  write (·.revise fun g => { g with vars := vars })
  write (·.emit .variablesChanged)

/-! ## §4. Changes of edges. -/

/-- Makes an edge: the counter has gone up before the edge is there. -/
def connect (source : String) (sourcePort : Option String) (target : String)
    (targetPort : Option String) : InPlace α String := do
  let (sourcePort, targetPort) ← ask (·.joint source sourcePort target targetPort)
  let number ← look Graph.nextEdgeNumber
  write (·.revise fun g => { g with edgeCounter := number })
  let edgeId := Graph.edgeId number
  write (·.addEdge ⟨edgeId, source, sourcePort, target, targetPort, []⟩)
  write (·.emit (.edgeAdded edgeId))
  return edgeId

/-- All rules for an edge are checked before the counter goes up. -/
theorem run_connect (g : Graph α) (source : String) (sourcePort : Option String)
    (target : String) (targetPort : Option String) :
    (connect source sourcePort target targetPort).run g.draft
      = settle g.draft id (g.connect source sourcePort target targetPort) := by
  unfold connect Graph.connect
  refine run_ask_bind fun ports _ => ?_
  rfl

/-- Cuts an edge: whether it was there is known when it has been taken. -/
def disconnect (edgeId : String) : InPlace α Edge := do
  let taken ← takeEdges fun edge => edge.id == edgeId
  match taken.getLast? with
  | some edge =>
      write (·.emit (.edgeRemoved edge.id))
      return edge
  | none => throw (.edgeNotFound edgeId)

/-- Taking edges apart of which none is taken leaves them as they were. -/
theorem dropEdges_of_none_taken {d : Draft α} {test : Edge → Bool}
    (h : (d.graph.edges.filter test).getLast? = none) : d.dropEdges test = d := by
  have hnone := List.filter_eq_nil_iff.1 (List.getLast?_eq_none_iff.1 h)
  have hkept : (d.graph.edges.filter fun edge => !test edge) = d.graph.edges :=
    List.filter_eq_self.2 fun edge hedge => by simp [hnone edge hedge]
  unfold Draft.dropEdges Draft.revise
  dsimp only
  rw [hkept]

/-- **An edge that is not there** has been looked for by taking the edges
apart, but they are put together as they were. -/
theorem run_disconnect (g : Graph α) (edgeId : String) :
    (disconnect edgeId).run g.draft = settle g.draft id (g.disconnect edgeId) := by
  unfold disconnect Graph.disconnect
  rw [EStateM.run_bind, run_takeEdges]
  dsimp only
  have hedges : g.edges = g.draft.graph.edges := rfl
  cases htaken : (g.draft.graph.edges.filter fun edge => edge.id == edgeId).getLast? with
  | some edge =>
      obtain rfl : edge.id = edgeId :=
        eq_of_beq (List.mem_filter.1 (List.mem_of_getLast? htaken)).2
      rw [hedges, htaken]
      rfl
  | none =>
      rw [hedges, htaken, dropEdges_of_none_taken htaken]
      rfl

/-! ## §5. Changes of forms and branches. -/

/-- Makes the right ports of a node anew: its edges are taken away, the
ports replaced and the edges put back. -/
def refreshPorts (nodeId : String) (remap : PortRemap) : InPlace α Unit := do
  let node ← ask (·.require nodeId)
  let right := (BranchLayout.of node.kind node.form).ports
  let detached ← takeEdges fun edge => edge.touches nodeId
  write (·.emitAll (detached.map fun edge => .edgeRemoved edge.id))
  write (·.reviseNode nodeId fun other => { other with ports := node.portsOn .left ++ right })
  write (·.emit (.portsChanged nodeId))
  write (·.putBack (detached.filterMap
    (Edge.reattached? nodeId (node.portIds .right) (right.map Port.id) remap)))

/-- **Making ports anew does not fail** where the node is. -/
theorem run_refreshPorts {d : Draft α} {nodeId : String} {node : Node α}
    (hnode : d.graph.node? nodeId = some node) (remap : PortRemap) :
    (refreshPorts nodeId remap).run d = .ok () (d.refreshPorts nodeId remap) := by
  unfold refreshPorts Draft.refreshPorts
  rw [EStateM.run_bind, run_ask, Graph.require_of_node? hnode, hnode]
  rfl

/-- Makes the right ports of a node anew when nobody knows where its
branches have changed. -/
def resyncPorts (nodeId : String) : InPlace α Unit := do
  let node ← ask (·.require nodeId)
  let layout := BranchLayout.of node.kind node.form
  refreshPorts nodeId
    (.resized (node.portIds .right).length layout.ports.length layout.trailingElse)

theorem run_resyncPorts {d : Draft α} {nodeId : String} {node : Node α}
    (hnode : d.graph.node? nodeId = some node) :
    (resyncPorts nodeId).run d = .ok () (d.resyncPorts nodeId) := by
  unfold resyncPorts Draft.resyncPorts
  rw [EStateM.run_bind, run_ask, Graph.require_of_node? hnode, hnode]
  exact run_refreshPorts hnode _

/-- Sets a field of a node's form: the form is written before the ports are
made anew. -/
def updateConfig (nodeId key : String) (value : Json) : InPlace α Unit := do
  let node ← ask (·.require nodeId)
  let form := node.kind.completeForm (node.form.set key value)
  write (·.reviseNode nodeId fun node => { node with form := form })
  write (·.emit (.dataChanged nodeId))
  if node.kind.isBranching ∧ key ∈ Graph.branchKeys then resyncPorts nodeId

/-- When the form is written the node is still there, so its ports can be made
anew. -/
theorem run_updateConfig (g : Graph α) (nodeId key : String) (value : Json) :
    (updateConfig nodeId key value).run g.draft
      = settle g.draft (·, ()) (g.updateConfig nodeId key value) := by
  unfold updateConfig Graph.updateConfig
  refine run_ask_bind fun node hnode => ?_
  dsimp only
  by_cases hbranch : node.kind.isBranching ∧ key ∈ Graph.branchKeys
  · rw [if_pos hbranch, if_pos hbranch]
    -- The form has been written, and the node is still there.
    have hwritten := Draft.node?_reviseNode (Graph.node?_of_require hnode) (fun other =>
      { other with form := node.kind.completeForm (node.form.set key value) }) (fun _ => rfl)
    exact run_resyncPorts (hwritten _)
  · rw [if_neg hbranch, if_neg hbranch]
    rfl

/-- Sets the list of branches of a node: the list is written before the
ports are made anew. -/
def setBranches (nodeId key : String) (items : List Json) (remap : PortRemap) :
    InPlace α Unit := do
  write (·.reviseNode nodeId fun node => { node with form := node.form.set key (.arr items) })
  write (·.emit (.dataChanged nodeId))
  refreshPorts nodeId remap

theorem run_setBranches {g : Graph α} {nodeId : String} {node : Node α}
    (hnode : g.draft.graph.require nodeId = .ok node) (key : String) (items : List Json)
    (remap : PortRemap) :
    (setBranches nodeId key items remap).run g.draft
      = .ok () (g.setBranches nodeId key items remap) := by
  have hwritten := Draft.node?_reviseNode (Graph.node?_of_require hnode)
    (fun other => { other with form := other.form.set key (.arr items) }) (fun _ => rfl)
  exact run_refreshPorts (hwritten _) remap

/-- Inserts a branch before a position, or behind the last one. -/
def insertBranch (nodeId : String) (index : Nat) : InPlace α Unit := do
  let node ← ask (·.require nodeId)
  let (key, blank) ← ask fun _ => Graph.branchField node
  let items := node.form.items key
  if items.length < index then throw (.branchOutOfRange nodeId index items.length)
  setBranches nodeId key (items.insertIdx index blank) (.inserted index)

theorem run_insertBranch (g : Graph α) (nodeId : String) (index : Nat) :
    (insertBranch nodeId index).run g.draft
      = settle g.draft (·, ()) (g.insertBranch nodeId index) := by
  unfold insertBranch Graph.insertBranch
  refine run_ask_bind fun node hnode => ?_
  refine run_ask_bind fun field _ => ?_
  refine run_guard_bind fun _ => ?_
  exact run_setBranches hnode _ _ _

/-- Removes the branch at a position with its edges. -/
def removeBranch (nodeId : String) (index : Nat) : InPlace α Unit := do
  let node ← ask (·.require nodeId)
  let (key, _) ← ask fun _ => Graph.branchField node
  let items := node.form.items key
  if items.length ≤ index then throw (.branchOutOfRange nodeId index items.length)
  if items.length ≤ 1 then throw (.lastBranch nodeId)
  setBranches nodeId key (items.eraseIdx index) (.removed index)

/-- The position is checked first, and then that another branch is left. -/
theorem run_removeBranch (g : Graph α) (nodeId : String) (index : Nat) :
    (removeBranch nodeId index).run g.draft
      = settle g.draft (·, ()) (g.removeBranch nodeId index) := by
  unfold removeBranch Graph.removeBranch
  refine run_ask_bind fun node hnode => ?_
  refine run_ask_bind fun field _ => ?_
  refine run_guard_bind fun _ => ?_
  refine run_guard_bind fun _ => ?_
  exact run_setBranches hnode _ _ _

/-- Switches a request between one exit and an exit of its own for
errors. -/
def setErrorBranch (nodeId : String) (enabled : Bool) : InPlace α Unit := do
  let node ← ask (·.require nodeId)
  if node.kind ≠ .httpRequest then throw (.notBranching nodeId node.kind)
  let handle := ((node.form.get? "error_handle").bind Json.obj?).getD []
  let method := Json.str (if enabled then "branch" else "none")
  updateConfig nodeId "error_handle" (.obj (Fields.insert handle "method" method))

theorem run_setErrorBranch (g : Graph α) (nodeId : String) (enabled : Bool) :
    (setErrorBranch nodeId enabled).run g.draft
      = settle g.draft (·, ()) (g.setErrorBranch nodeId enabled) := by
  unfold setErrorBranch Graph.setErrorBranch
  refine run_ask_bind fun node _ => ?_
  refine run_guard_bind fun _ => ?_
  exact run_updateConfig g _ _ _

end InPlace

/-! ## §6. All changes. -/

/-- The program of a change, without what it answers. -/
def Edit.perform {α : Type} [Coordinate α] : Edit α → InPlace α Unit
  | .addNode kind position => do let _ ← InPlace.addNode kind position
  | .dropPayload text position => do let _ ← InPlace.dropPayload text position
  | .removeNode id => do let _ ← InPlace.removeNode id
  | .connect source sourcePort target targetPort => do
      let _ ← InPlace.connect source sourcePort target targetPort
  | .disconnect id => do let _ ← InPlace.disconnect id
  | .moveNode id position => do let _ ← InPlace.moveNode id position
  | .resizeNode id size => do let _ ← InPlace.resizeNode id size
  | .renameNode id name => InPlace.renameNode id name
  | .updateConfig id key value => InPlace.updateConfig id key value
  | .insertBranch id index => InPlace.insertBranch id index
  | .removeBranch id index => InPlace.removeBranch id index
  | .setErrorBranch id enabled => InPlace.setErrorBranch id enabled
  | .setVariables vars => InPlace.setVariables vars

namespace InPlace

/-- **Each change in place ends as it is worked out**, and a refused one
leaves nothing half done. -/
theorem run_perform {α : Type} [Coordinate α] (g : Graph α) (change : Edit α) :
    change.perform.run g.draft = settle g.draft (·, ()) (g.edit change) := by
  cases change with
  | addNode kind position => exact run_unanswered (run_addNode g kind position)
  | dropPayload text position => exact run_unanswered (run_dropPayload g text position)
  | removeNode id => exact run_unanswered (run_removeNode g id)
  | connect source sourcePort target targetPort =>
      exact run_unanswered (run_connect g source sourcePort target targetPort)
  | disconnect id => exact run_unanswered (run_disconnect g id)
  | moveNode id position => exact run_unanswered (run_moveNode g id position)
  | resizeNode id size => exact run_unanswered (run_resizeNode g id size)
  | renameNode id name => exact run_renameNode g id name
  | updateConfig id key value => exact run_updateConfig g id key value
  | insertBranch id index => exact run_insertBranch g id index
  | removeBranch id index => exact run_removeBranch g id index
  | setErrorBranch id enabled => exact run_setErrorBranch g id enabled
  | setVariables vars => rfl

end InPlace

end WorkflowEditor
