/-
  WorkflowEditor.Document.Validation
  ──────────────────────────────────
  **WHAT KEEPS A DOCUMENT FROM BEING RUN.**

  The nodes of a document fall into regions: the workflow itself and the
  body of each container.  A region is checked on its own:

      1. it has exactly one start, and the workflow has an end;
      2. every node can be reached from that start;
      3. no edges close a cycle.

  A later check is made only where the earlier ones found nothing.  Edges
  marked as error routes and edges at a loop may close a cycle, as a retry
  does.  Before the regions come repeated ids, containers that are none,
  and edges that lead nowhere or out of a region.

  If an id is repeated, the last node with it decides what it stands for.

  No Mathlib.
-/
import WorkflowEditor.Document.Basic
import WorkflowEditor.Digraph

namespace WorkflowEditor

/-! ## §1. Regions and issues. -/

/-- The workflow itself, or the body of a container. -/
inductive Region where
  | workflow
  | container (id : String)
  deriving Repr, DecidableEq

/-- A region as it is named in a report. -/
def Region.text : Region → String
  | .workflow => "The workflow"
  | .container id => "Container '" ++ id ++ "'"

/-- The kind of node at which a region is entered. -/
def Region.startKind : Region → Kind
  | .workflow => .start
  | .container _ => .cycleStart

/-- Something that keeps a document from being run. -/
inductive Issue where
  | missingStart (region : Region)
  | multipleStarts (region : Region) (count : Nat)
  | missingEnd
  | duplicateNode (id : String)
  | danglingEdge (source target : String)
  | invalidCycle (id parent : String)
  | crossingEdge (source target : String)
  | unreachable (region : Region) (nodes : List String)
  | cycle (path : List String)
  deriving Repr, DecidableEq

/-- An issue as a sentence. -/
def Issue.text : Issue → String
  | .missingStart region => region.text ++ " has no start node"
  | .multipleStarts region count =>
      region.text ++ " has " ++ toString count ++ " start nodes, expected exactly one"
  | .missingEnd => "The workflow needs at least one end node"
  | .duplicateNode id => "Node id '" ++ id ++ "' is used more than once"
  | .danglingEdge source target =>
      "Edge '" ++ source ++ "' -> '" ++ target ++ "' references a missing node"
  | .invalidCycle id parent =>
      "Node '" ++ id ++ "' names '" ++ parent
        ++ "' as its container, which is not a loop or iteration"
  | .crossingEdge source target =>
      "Edge '" ++ source ++ "' -> '" ++ target ++ "' crosses a container boundary"
  | .unreachable region nodes =>
      "Nodes unreachable from the start of " ++ region.text ++ ": " ++ ", ".intercalate nodes
  | .cycle path => "Edges form a cycle: " ++ " -> ".intercalate path

namespace Document

variable {α : Type}

/-! ## §2. What an id stands for. -/

/-- The last node with an id. -/
def lastNode? (d : Document α) (id : String) : Option (StoredNode α) :=
  d.nodes.reverse.find? fun node => node.id == id

/-- The kind of the node with an id. -/
def kindOf? (d : Document α) (id : String) : Option Kind := (d.lastNode? id).map StoredNode.kind

/-- Whether an id is that of a container. -/
def namesContainer (d : Document α) (id : String) : Bool :=
  ((d.kindOf? id).map Kind.isContainer).getD false

/-- The region a node is in; a container that is none counts as absent. -/
def regionOf (d : Document α) (node : StoredNode α) : Region :=
  match node.cycle with
  | some parent => if d.namesContainer parent then .container parent else .workflow
  | none => .workflow

/-- The region of the node with an id. -/
def regionOf? (d : Document α) (id : String) : Option Region :=
  (d.lastNode? id).map d.regionOf

/-! ## §3. Checks of the document as a whole. -/

/-- The names of a list that occur before. -/
def repeats : List String → List String → List String
  | _, [] => []
  | seen, name :: rest =>
      if seen.contains name then name :: repeats seen rest
      else repeats (name :: seen) rest

/-- Ids that are used again. -/
def duplicateIssues (d : Document α) : List Issue :=
  (repeats [] (d.nodes.map StoredNode.id)).map .duplicateNode

/-- Containers that are none. -/
def cycleIssues (d : Document α) : List Issue :=
  d.nodes.filterMap fun node =>
    match node.cycle with
    | some parent =>
        if d.namesContainer parent then none else some (.invalidCycle node.id parent)
    | none => none

/-- Edges that lead nowhere or out of a region. -/
def edgeIssues (d : Document α) : List Issue :=
  d.edges.filterMap fun edge =>
    match d.regionOf? edge.source, d.regionOf? edge.target with
    | some a, some b => if a = b then none else some (.crossingEdge edge.source edge.target)
    | _, _ => some (.danglingEdge edge.source edge.target)

/-! ## §4. Checks of a region. -/

/-- The regions of a document, the workflow first. -/
def regions (d : Document α) : List Region :=
  .workflow :: (d.nodes.filter fun node => node.kind.isContainer).map fun node =>
    .container node.id

/-- The ids of the nodes in a region. -/
def members (d : Document α) (region : Region) : List String :=
  (d.nodes.map StoredNode.id).filter fun id => d.regionOf? id = some region

/-- The edges between members of a region. -/
def innerEdges (d : Document α) (region : Region) : List StoredEdge :=
  let members := d.members region
  d.edges.filter fun edge => members.contains edge.source && members.contains edge.target

/-- Edges by their ends. -/
def ends (edges : List StoredEdge) : Digraph := edges.map fun edge => (edge.source, edge.target)

/-- Whether an edge is marked as an error route. -/
def isErrorRoute (edge : StoredEdge) : Bool :=
  (edge.extra.lookup "type").bind Json.str? == some "error"

/-- Whether an edge may not take part in a cycle. -/
def isStrict (d : Document α) (edge : StoredEdge) : Bool :=
  !isErrorRoute edge
    && d.kindOf? edge.source != some .loop && d.kindOf? edge.target != some .loop

/-- The members at which a region is entered. -/
def starts (d : Document α) (region : Region) : List String :=
  (d.members region).filter fun id => d.kindOf? id == some region.startKind

/-- Starts and ends that are missing or too many. -/
def boundaryIssues (d : Document α) (region : Region) : List Issue :=
  let starts :=
    match d.starts region with
    | [] => [.missingStart region]
    | [_] => []
    | many => [.multipleStarts region many.length]
  let ends :=
    if region = .workflow
        && !(d.members region).any fun id => d.kindOf? id == some .finish then
      [.missingEnd]
    else []
  starts ++ ends

/-- The members that cannot be reached from a start; placeholders do not
count. -/
def unreachableFrom (d : Document α) (region : Region) (start : String) : List String :=
  let reached := Digraph.explore (ends (d.innerEdges region)) start
  (d.members region).filter fun id =>
    !reached.contains id && !((d.kindOf? id).map Kind.isPlaceholder).getD false

/-- The issues of a region. -/
def regionIssues (d : Document α) (region : Region) : List Issue :=
  -- Without boundary issues there is exactly one start.
  match d.boundaryIssues region, d.starts region with
  | [], start :: _ =>
      match d.unreachableFrom region start with
      | [] =>
          let strict := (d.innerEdges region).filter d.isStrict
          match Digraph.findCycle (ends strict) (d.members region) with
          | some path => [.cycle path]
          | none => []
      | nodes => [.unreachable region nodes]
  | issues, _ => issues

/-- Everything that keeps a document from being run. -/
def validate (d : Document α) : List Issue :=
  d.duplicateIssues ++ d.cycleIssues ++ d.edgeIssues ++ d.regions.flatMap d.regionIssues

/-- Whether nothing keeps a document from being run. -/
def isValid (d : Document α) : Bool := d.validate.isEmpty

end Document

end WorkflowEditor
