/-
  WorkflowEditor.Proofs.ClosedPaths
  ─────────────────────────────────
  **THE CLOSED PATH THAT IS REPORTED IS THERE.**

  Where a trail comes back to one of its names, the part of it from that name
  on is a closed path:

    • `ClosedPath` — what a report is to be,
    • `Followed.closedPath`, `Searched.closedPath` — where the trail closes,
      and for the search as a whole,
    • `findCycle_exact` — the search ends, finds nothing exactly where no
      edges close a path, and reports no path that is not there.
-/
import WorkflowEditor.Proofs.DepthFirst
import Mathlib.Data.List.Chain
import Mathlib.Data.List.Nodup

namespace WorkflowEditor.Digraph

variable {edges : Digraph}

/-! ## §1. The path that is reported. -/

/-- A path along edges that ends where it begins and meets no name twice on the
way. -/
structure ClosedPath (edges : Digraph) (path : List String) : Prop where
  long : 2 ≤ path.length
  closed : path.head? = path.getLast?
  distinct : path.dropLast.Nodup
  along : path.IsChain fun a b => (a, b) ∈ edges

theorem linked_iff {names : List String} :
    Linked edges names ↔ names.IsChain fun next name => (name, next) ∈ edges := by
  induction names with
  | nil => simp [Linked]
  | cons next names ih =>
      cases names with
      | nil => simp [Linked]
      | cons name rest => rw [Linked, ih, List.isChain_cons_cons]

/-- **Where a trail comes back to one of its names there is a closed path.** -/
theorem Followed.closedPath {name next : String} {more done : List String}
    {trail : List (String × List String)} (h : Followed edges ((name, next :: more) :: trail) done)
    (hpath : next ∈ name :: trail.map Prod.fst) :
    ClosedPath edges (closing next (name :: trail.map Prod.fst)) := by
  -- The trail is told from its last name on; what came after `next` stands before it.
  obtain ⟨later, earlier, hsplit⟩ := List.append_of_mem hpath
  have hnodup : (later ++ next :: earlier).Nodup := hsplit ▸ h.nodup
  obtain ⟨hlater, hcons, hapart⟩ := List.nodup_append.1 hnodup
  have hnot : next ∉ later := fun hmem => hapart next hmem next List.mem_cons_self rfl
  have hclosing : closing next (name :: trail.map Prod.fst)
      = next :: later.reverse ++ [next] := by
    have hskip : ∀ other ∈ earlier.reverse, (other != next) = true := by
      intro other hother
      have hne : other ≠ next := fun heq =>
        (List.nodup_cons.1 hcons).1 (heq ▸ List.mem_reverse.1 hother)
      simpa using hne
    unfold closing
    rw [hsplit, List.reverse_append, List.reverse_cons, List.append_assoc,
      List.dropWhile_append_of_pos hskip]
    simp
  have hlinked : Linked edges (next :: (later ++ [next])) := by
    have hall : Linked edges (next :: (later ++ next :: earlier)) := by
      rw [← hsplit]
      exact ⟨h.edge, h.linked⟩
    have hcut : next :: (later ++ next :: earlier) = (next :: (later ++ [next])) ++ earlier := by
      simp
    rw [linked_iff] at hall ⊢
    rw [hcut] at hall
    exact hall.left_of_append
  rw [hclosing]
  constructor
  case long => simp
  case closed =>
      rw [List.getLast?_concat]
      rfl
  case distinct =>
      rw [List.dropLast_concat]
      exact List.nodup_cons.2 ⟨mt List.mem_reverse.1 hnot, List.nodup_reverse.2 hlater⟩
  case along =>
      have hturned : next :: later.reverse ++ [next] = (next :: (later ++ [next])).reverse := by
        simp
      rw [hturned]
      exact List.isChain_reverse.2 (linked_iff.1 hlinked)

/-- **Every path that is reported is there.** -/
theorem Searched.closedPath {roots done : List String} {trail : List (String × List String)}
    {answer : Option (List String)} (h : Searched edges roots trail done answer)
    (hfollowed : Followed edges trail done) : ∀ path ∈ answer, ClosedPath edges path := by
  induction h with
  | ended => exact fun _ hpath => (nomatch hpath)
  | known _ _ ih => exact ih hfollowed
  | begun hroot _ ih => exact ih (.single hroot hfollowed.settled)
  | left _ ih => exact ih hfollowed.pop
  | closed hpath =>
      rintro _ ⟨⟩
      exact hfollowed.closedPath hpath
  | passed _ hdone _ ih => exact ih (hfollowed.skip hdone)
  | entered hpath hdone _ ih => exact ih (hfollowed.push hpath hdone)

/-! ## §2. Reports are exact. -/

/-- **Reports of closed paths are real and complete.**  For all edges between
members, however many there are between two of them, and whatever the order of
the members: the search ends by itself; it finds nothing exactly if no edges
lead from a name back to it; and what it reports is a path along the edges that
ends where it begins and meets no name twice on the way. -/
theorem findCycle_exact {members : List String}
    (h : ∀ edge ∈ edges, edge.1 ∈ members ∧ edge.2 ∈ members) :
    (∀ answer, Searched edges members [] [] answer ↔ answer = findCycle edges members)
    ∧ (findCycle edges members = none ↔ ∀ name, ¬ Leads edges name name)
    ∧ ∀ path, findCycle edges members = some path → ClosedPath edges path := by
  have hends := searched_findCycle edges members
  refine ⟨fun answer => ⟨fun hanswer => hanswer.unique hends, ?_⟩,
    findCycle_eq_none_iff fun edge hedge => (h edge hedge).1,
    fun path hpath => hends.closedPath (followed_nil edges) path hpath⟩
  rintro rfl
  exact hends

/-- Two edges that are parallel, a path that closes behind its beginning, and a
loop that is not met any more. -/
theorem findCycle_exact_closed :
    let edges : Digraph := [("a", "b"), ("a", "b"), ("b", "c"), ("c", "b"), ("d", "d")]
    let members := ["a", "b", "c", "d"]
    (∀ edge ∈ edges, edge.1 ∈ members ∧ edge.2 ∈ members)
      ∧ findCycle edges members = some ["b", "c", "b"]
      ∧ Searched edges members [] [] (some ["b", "c", "b"])
      ∧ ClosedPath edges ["b", "c", "b"] := by
  intro edges members
  have hmembers : ∀ edge ∈ edges, edge.1 ∈ members ∧ edge.2 ∈ members := by decide
  have hfound : findCycle edges members = some ["b", "c", "b"] := by decide +kernel
  obtain ⟨hends, -, hpath⟩ := findCycle_exact hmembers
  exact ⟨hmembers, hfound, (hends _).2 hfound.symm, hpath _ hfound⟩

end WorkflowEditor.Digraph
