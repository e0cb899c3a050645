/-
  WorkflowEditor.Digraph
  ──────────────────────
  **TWO SEARCHES IN A DIRECTED GRAPH.**

  A graph is its list of edges between names; parallel edges and loops are
  allowed.  `Leads` says what it is to get from one name to another.

      explore   — breadth first: everything that can be reached, the
                  nearest first
      findCycle — depth first: a closed path, if there is one

  Both are bounded by the number of edges: the first meets a new name only
  by an edge of its own, the second takes each edge once.

  No Mathlib.
-/

namespace WorkflowEditor

/-- A directed graph, by its edges. -/
abbrev Digraph := List (String × String)

namespace Digraph

/-- Getting from `a` to `b` along one edge or more. -/
inductive Leads (edges : Digraph) : String → String → Prop where
  | edge {a b : String} : (a, b) ∈ edges → Leads edges a b
  | cons {a b c : String} : (a, b) ∈ edges → Leads edges b c → Leads edges a c

/-- The far ends of the edges that leave a name, in order. -/
def successors (edges : Digraph) (name : String) : List String :=
  (edges.filter fun edge => edge.1 == name).map Prod.snd

/-- The graph with every edge turned around. -/
def reversed (edges : Digraph) : Digraph := edges.map fun edge => (edge.2, edge.1)

/-! ## §1. Breadth first. -/

/-- The names of a list that were not seen yet, each once, in order. -/
def unseen (seen : List String) : List String → List String
  | [] => []
  | name :: rest =>
      if seen.contains name then unseen seen rest
      else name :: unseen (name :: seen) rest

/-- Works off a queue of names whose successors are still to be seen. -/
def exploreQueue (edges : Digraph) : Nat → List String → List String → List String
  | 0, _, seen => seen
  | _, [], seen => seen
  | fuel + 1, name :: queue, seen =>
      let new := unseen seen (successors edges name)
      exploreQueue edges fuel (queue ++ new) (seen ++ new)

/-- A name and everything that can be reached from it, the nearest first. -/
def explore (edges : Digraph) (start : String) : List String :=
  exploreQueue edges (edges.length + 1) [start] [start]

/-- Everything from which a name can be reached, the nearest first; never
the name itself. -/
def ancestors (edges : Digraph) (name : String) : List String :=
  (explore edges.reversed name).tail

/-! ## §2. Depth first. -/

/-- Follows a trail, its last name first, each name with the successors
still to be tried.  Answers a closed path, or the names from which all has
been tried. -/
def followTrail (edges : Digraph) :
    Nat → List (String × List String) → List String → Except (List String) (List String)
  | 0, _, done => .ok done
  | _, [], done => .ok done
  | fuel + 1, (name, []) :: trail, done => followTrail edges fuel trail (name :: done)
  | fuel + 1, (name, next :: more) :: trail, done =>
      let trail := (name, more) :: trail
      let path := (trail.map Prod.fst).reverse
      if path.contains next then
        .error (path.dropWhile (fun other => other != next) ++ [next])
      else if done.contains next then followTrail edges fuel trail done
      else followTrail edges fuel ((next, successors edges next) :: trail) done

/-- Starts a trail at each root that was not tried yet. -/
def findCycleFrom (edges : Digraph) : List String → List String → Option (List String)
  | [], _ => none
  | root :: roots, done =>
      if done.contains root then findCycleFrom edges roots done
      else
        match followTrail edges (2 * edges.length + 2) [(root, successors edges root)] done with
        | .error path => some path
        | .ok done => findCycleFrom edges roots done

/-- A closed path among the names that can be reached from `roots`, with
its first name again at its end. -/
def findCycle (edges : Digraph) (roots : List String) : Option (List String) :=
  findCycleFrom edges roots []

end Digraph

end WorkflowEditor
