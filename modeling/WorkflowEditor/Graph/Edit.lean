/-
  WorkflowEditor.Graph.Edit
  ─────────────────────────
  **THE CHANGES A GRAPH CAN TAKE.**

  Every change is a function from a graph to a draft, beside what it
  answers, or an error.  An error is found before anything is changed, so
  a refused change leaves the graph as it was.

  `Edit` lists the changes as data, `Graph.edit` applies one, and
  `Graph.run` applies them in turn, passing over those that are refused.

  No Mathlib.
-/
import WorkflowEditor.Document.Format
import WorkflowEditor.Graph.Branch
import WorkflowEditor.Graph.Connection
import WorkflowEditor.Node.Codec
import WorkflowEditor.Node.Template

namespace WorkflowEditor

variable {α : Type} [Coordinate α]

/-! ## §1. Adding nodes. -/

/-- The library's node of a kind as a node of the canvas. -/
def Template.instantiate {α : Type} (template : Template α) (id : String)
    (position : Position α) (cycle : Option String) : Node α where
  id := id
  kind := template.kind
  name := template.name
  position := position
  size := template.size
  form := template.kind.decodeConfig template.config
  cycle := cycle
  ports := template.ports
  extra := []

namespace Graph

/-- The id of the node of a kind with a number. -/
def nodeId (kind : Kind) (number : Nat) : String :=
  String.ofList (kind.tag.toList.map fun c => if c = '-' then '_' else c)
    ++ "_" ++ toString number

/-- The first id of a kind that is free.  One of as many numbers as there
are nodes, and one more, is. -/
def freshNodeId (g : Graph α) (kind : Kind) : String :=
  let ids := (List.range (g.nodes.length + 1)).map fun i => nodeId kind (i + 1)
  (ids.find? fun id => (g.node? id).isNone).getD (nodeId kind 0)

end Graph

/-- Adds a node of a kind and answers its id. -/
def Draft.spawn (d : Draft α) (kind : Kind) (position : Position α)
    (cycle : Option String) : Draft α × String :=
  let g := d.graph
  let id := g.freshNodeId kind
  let node := (Template.of g.settings kind).instantiate id position cycle
  let node := { node with position := g.landing node position }
  ((d.addNode node).emit (.nodeAdded id), id)

namespace Graph

/-- Adds a node of a kind and answers its id.  A node put into a container
becomes its child; a new container gets a start of its own. -/
def addNode (g : Graph α) (kind : Kind) (position : Position α) :
    Except GraphError (Draft α × String) :=
  if kind.isReserved then .error (.reservedKind kind)
  else
    match kind.isContainer, g.containerAt? position with
    | true, some container => .error (.nestedContainer kind container.id)
    | true, none =>
        let (d, id) := g.draft.spawn kind position none
        let pad := g.settings.containerPadding
        let corner := ⟨position.x + pad, position.y + g.settings.containerHeader + pad⟩
        .ok ((d.spawn .cycleStart corner (some id)).1, id)
    | false, container =>
        let cycle := container.map Node.id
        let (d, id) := g.draft.spawn kind position cycle
        .ok (d.fitEnclosing cycle, id)

/-- The field of what is dragged from the node library. -/
def payload : Record Kind := .required "type" Kind.decoder

/-- Adds the node that a dragged payload names and answers its id. -/
def dropPayload (g : Graph α) (text : String) (position : Position α) :
    Except GraphError (Draft α × String) := do
  let kind ← (payload.decoder.ofText text).mapError .invalidPayload
  g.addNode kind position

end Graph

/-! ## §2. Removing nodes. -/

/-- Drops a node, if it is there, and announces that. -/
def Draft.discard {α : Type} (d : Draft α) (id : String) : Draft α :=
  if (d.graph.node? id).isSome then (d.dropNode id).emit (.nodeRemoved id) else d

namespace Graph

/-- Removes a node with its edges and answers the ids of all nodes removed.
A container takes its children along; its start goes with it only. -/
def removeNode (g : Graph α) (id : String) :
    Except GraphError (Draft α × List String) := do
  let node ← g.require id
  if node.kind = .cycleStart ∧ (g.containerOf? node).isSome then
    throw (.protectedNode id)
  let inner := if node.kind.isContainer then (g.children id).map Node.id else []
  -- Children go before their container, and all edges before the nodes.
  let doomed := inner ++ [id]
  let hit (edge : Edge) : Bool := doomed.contains edge.source || doomed.contains edge.target
  let d := g.draft.dropEdges hit
  let d := d.emitAll ((g.edges.filter hit).map fun edge => .edgeRemoved edge.id)
  return ((doomed.foldl Draft.discard d).fitEnclosing node.cycle, doomed)

end Graph

/-! ## §3. Placing nodes. -/

/-- Puts a node at a position and announces that. -/
def Draft.place {α : Type} (d : Draft α) (id : String) (position : Position α) : Draft α :=
  (d.reviseNode id fun node => { node with position := position }).emit
    (.nodeMoved id position)

namespace Graph

/-- Moves a node and answers where it landed.  A container takes its
children along; a child stays in its container, which is then fitted. -/
def moveNode (g : Graph α) (id : String) (position : Position α) :
    Except GraphError (Draft α × Position α) := do
  let node ← g.require id
  let landed := g.landing node position
  let d := g.draft.place id landed
  let dx := landed.x - node.position.x
  let dy := landed.y - node.position.y
  -- Children keep their place in the container, so they go as far as it went.
  let followers := if node.kind.isContainer then d.graph.children id else []
  let d := followers.foldl
    (fun d child => d.place child.id (child.position.offset dx dy)) d
  return (d.fitEnclosing node.cycle, landed)

/-- Resizes a node and answers the size it took.  A container never gets
too small for its children. -/
def resizeNode (g : Graph α) (id : String) (size : Size α) :
    Except GraphError (Draft α × Size α) := do
  let node ← g.require id
  let size := if node.kind.isContainer then size.cover (g.sizeToFit node) else size
  let d := (g.draft.reviseNode id fun node => { node with size := size }).emit
    (.nodeResized id size)
  return (d.fitEnclosing node.cycle, size)

/-! ## §4. Data of nodes. -/

/-- Renames a node. -/
def renameNode {α : Type} (g : Graph α) (id name : String) :
    Except GraphError (Draft α) := do
  let _ ← g.require id
  return (g.draft.reviseNode id fun node => { node with name := name }).emit (.dataChanged id)

/-- The fields on which the right ports of a node may depend. -/
def branchKeys : List String := ["cases", "categories", "error_handle"]

/-- Sets a field of a node's form.  A field on which ports may depend
makes them anew. -/
def updateConfig {α : Type} (g : Graph α) (id key : String) (value : Json) :
    Except GraphError (Draft α) := do
  let node ← g.require id
  let form := node.kind.completeForm (node.form.set key value)
  let d := (g.draft.reviseNode id fun node => { node with form := form }).emit
    (.dataChanged id)
  return if node.kind.isBranching ∧ key ∈ branchKeys then d.resyncPorts id else d

/-- Replaces the variables of the conversation. -/
def setVariables {α : Type} (g : Graph α) (vars : List ConversationVariable) :
    Draft α :=
  (g.draft.revise fun g => { g with vars := vars }).emit .variablesChanged

/-! ## §5. Branches. -/

/-- The field that lists the branches of a node, and a new branch. -/
def branchField {α : Type} (node : Node α) : Except GraphError (String × Json) :=
  match node.kind with
  | .ifElse => .ok ("cases", Kind.emptyCondition)
  | .questionClassifier => .ok ("categories", Kind.emptyCategory)
  | kind => .error (.notBranching node.id kind)

/-- Sets the list of branches of a node and makes its ports anew. -/
def setBranches {α : Type} (g : Graph α) (id key : String) (items : List Json)
    (remap : PortRemap) : Draft α :=
  let d := g.draft.reviseNode id fun node =>
    { node with form := node.form.set key (.arr items) }
  (d.emit (.dataChanged id)).refreshPorts id remap

/-- Inserts a branch before a position, or behind the last one. -/
def insertBranch {α : Type} (g : Graph α) (id : String) (index : Nat) :
    Except GraphError (Draft α) := do
  let node ← g.require id
  let (key, blank) ← branchField node
  let items := node.form.items key
  if items.length < index then throw (.branchOutOfRange id index items.length)
  return g.setBranches id key (items.insertIdx index blank) (.inserted index)

/-- Removes the branch at a position with its edges. -/
def removeBranch {α : Type} (g : Graph α) (id : String) (index : Nat) :
    Except GraphError (Draft α) := do
  let node ← g.require id
  let (key, _) ← branchField node
  let items := node.form.items key
  if items.length ≤ index then throw (.branchOutOfRange id index items.length)
  if items.length ≤ 1 then throw (.lastBranch id)
  return g.setBranches id key (items.eraseIdx index) (.removed index)

/-- Switches a request between one exit and an exit of its own for
errors. -/
def setErrorBranch {α : Type} (g : Graph α) (id : String) (enabled : Bool) :
    Except GraphError (Draft α) := do
  let node ← g.require id
  if node.kind ≠ .httpRequest then throw (.notBranching id node.kind)
  -- Only the method is set; the rest of the handler is kept.
  let handle := ((node.form.get? "error_handle").bind Json.obj?).getD []
  let method := Json.str (if enabled then "branch" else "none")
  g.updateConfig id "error_handle" (.obj (Fields.insert handle "method" method))

end Graph

/-! ## §6. Changes as data. -/

/-- A change that can be asked of a graph. -/
inductive Edit (α : Type) where
  | addNode (kind : Kind) (position : Position α)
  | dropPayload (text : String) (position : Position α)
  | removeNode (id : String)
  | connect (source : String) (sourcePort : Option String)
      (target : String) (targetPort : Option String)
  | disconnect (id : String)
  | moveNode (id : String) (position : Position α)
  | resizeNode (id : String) (size : Size α)
  | renameNode (id name : String)
  | updateConfig (id key : String) (value : Json)
  | insertBranch (id : String) (index : Nat)
  | removeBranch (id : String) (index : Nat)
  | setErrorBranch (id : String) (enabled : Bool)
  | setVariables (vars : List ConversationVariable)

namespace Graph

/-- Applies a change. -/
def edit (g : Graph α) : Edit α → Except GraphError (Draft α)
  | .addNode kind position => Prod.fst <$> g.addNode kind position
  | .dropPayload text position => Prod.fst <$> g.dropPayload text position
  | .removeNode id => Prod.fst <$> g.removeNode id
  | .connect source sourcePort target targetPort =>
      Prod.fst <$> g.connect source sourcePort target targetPort
  | .disconnect id => Prod.fst <$> g.disconnect id
  | .moveNode id position => Prod.fst <$> g.moveNode id position
  | .resizeNode id size => Prod.fst <$> g.resizeNode id size
  | .renameNode id name => g.renameNode id name
  | .updateConfig id key value => g.updateConfig id key value
  | .insertBranch id index => g.insertBranch id index
  | .removeBranch id index => g.removeBranch id index
  | .setErrorBranch id enabled => g.setErrorBranch id enabled
  | .setVariables vars => .ok (g.setVariables vars)

/-- The graph after a change; a refused one leaves it as it was. -/
def after (g : Graph α) (change : Edit α) : Graph α :=
  match g.edit change with
  | .ok d => d.graph
  | .error _ => g

/-- The graph after changes in turn. -/
def run (g : Graph α) (changes : List (Edit α)) : Graph α := changes.foldl after g

end Graph

end WorkflowEditor
