/-
  WorkflowEditor.Proofs.NearestFirst
  ──────────────────────────────────
  **BREADTH FIRST MEETS THE NEAREST FIRST.**

  The names that a search has found stand in the order of their distance from
  where it began, and those that wait in the queue are at most one edge
  further away than any other that waits:

    • `WorkedOff`, `workedOff_exploreQueue` — the search without a bound on its
      turns ends, and the bound does not cut it short,
    • `Walk`, `Distance` — paths with as many edges as told, and the shortest,
    • `Layered.beyond` — what was not found yet is further away than the name
      that is worked off,
    • `Layered.next` — so a turn keeps the order,
    • `ancestors_nearest_first` — what stands before a node comes nearest
      first, each name once.
-/
import WorkflowEditor.Proofs.BreadthFirst
import WorkflowEditor.Scope.Resolve
import Mathlib.Data.List.Pairwise
import Mathlib.Data.Nat.Find

namespace WorkflowEditor

namespace Digraph

variable {edges : Digraph} {start : String}

/-! ## §1. The search without a bound. -/

/-- How a queue is worked off, in as many turns as it takes: what was seen
before, and what was found in the end. -/
inductive WorkedOff (edges : Digraph) : List String → List String → List String → Prop
  /-- Nothing waits. -/
  | ended {seen : List String} : WorkedOff edges [] seen seen
  /-- The targets of the first name that were not seen go behind all that wait. -/
  | next {name : String} {queue seen found : List String} :
      WorkedOff edges (queue ++ unseen seen (successors edges name))
        (seen ++ unseen seen (successors edges name)) found →
      WorkedOff edges (name :: queue) seen found

theorem WorkedOff.unique {queue seen found found' : List String}
    (h : WorkedOff edges queue seen found) (h' : WorkedOff edges queue seen found') :
    found = found' := by
  induction h with
  | ended =>
      cases h'
      rfl
  | next _ ih =>
      cases h' with
      | next h' => exact ih h'

/-- **A turn for each edge and one more are enough**: the search ends by itself. -/
theorem workedOff_exploreQueue {turns : Nat} {done queue : List String}
    (h : Explored edges start done queue) (hturns : edges.length + 1 ≤ done.length + turns) :
    WorkedOff edges queue (done ++ queue) (exploreQueue edges turns queue (done ++ queue)) := by
  induction turns generalizing done queue with
  | zero =>
      have hle := h.length_le
      rw [List.length_append] at hle
      obtain rfl : queue = [] := List.length_eq_zero_iff.1 (by omega)
      exact .ended
  | succ turns ih =>
      cases queue with
      | nil => exact .ended
      | cons name queue =>
          have hnext := ih h.next (by rw [List.length_append, List.length_singleton]; omega)
          rw [List.append_assoc, List.singleton_append, ← List.cons_append,
            ← List.append_assoc] at hnext
          exact .next hnext

theorem workedOff_explore (edges : Digraph) (start : String) :
    WorkedOff edges [start] [start] (explore edges start) :=
  workedOff_exploreQueue (Explored.initial edges start) (by simp)

/-! ## §2. Distances. -/

/-- Getting from one name to another along as many edges as told. -/
inductive Walk (edges : Digraph) : Nat → String → String → Prop
  | stay {a : String} : Walk edges 0 a a
  | step {a b c : String} {n : Nat} :
      (a, b) ∈ edges → Walk edges n b c → Walk edges (n + 1) a c

/-- The number of edges of a shortest path from one name to another. -/
structure Distance (edges : Digraph) (a b : String) (n : Nat) : Prop where
  walk : Walk edges n a b
  least : ∀ m, Walk edges m a b → n ≤ m

theorem Walk.concat {n : Nat} {a b c : String} (h : Walk edges n a b) (hedge : (b, c) ∈ edges) :
    Walk edges (n + 1) a c := by
  induction h with
  | stay => exact .step hedge .stay
  | step hfirst _ ih => exact .step hfirst (ih hedge)

/-- A path that is not empty has a last edge. -/
theorem Walk.exists_last {n : Nat} {a c : String} (h : Walk edges (n + 1) a c) :
    ∃ b, Walk edges n a b ∧ (b, c) ∈ edges := by
  induction n generalizing a with
  | zero =>
      cases h with
      | step hedge hrest =>
          cases hrest
          exact ⟨a, .stay, hedge⟩
  | succ n ih =>
      cases h with
      | step hedge hrest =>
          obtain ⟨b, hwalk, hlast⟩ := ih hrest
          exact ⟨b, .step hedge hwalk, hlast⟩

theorem Walk.turned {other : Digraph} (hturn : ∀ a b, (a, b) ∈ edges → (b, a) ∈ other) {n : Nat}
    {a b : String} (h : Walk edges n a b) : Walk other n b a := by
  induction h with
  | stay => exact .stay
  | step hedge _ ih => exact ih.concat (hturn _ _ hedge)

theorem walk_reversed_iff {n : Nat} {a b : String} :
    Walk (reversed edges) n a b ↔ Walk edges n b a :=
  ⟨Walk.turned fun _ _ => mem_reversed.1, Walk.turned fun _ _ => mem_reversed.2⟩

theorem Leads.exists_walk {a b : String} (h : Leads edges a b) : ∃ n, Walk edges n a b := by
  induction h with
  | edge hedge => exact ⟨1, .step hedge .stay⟩
  | cons hedge _ ih =>
      obtain ⟨n, hwalk⟩ := ih
      exact ⟨n + 1, .step hedge hwalk⟩

theorem Walk.exists_distance {n : Nat} {a b : String} (h : Walk edges n a b) :
    ∃ d, Distance edges a b d := by
  classical
  have hsome : ∃ m, Walk edges m a b := ⟨n, h⟩
  exact ⟨Nat.find hsome, Nat.find_spec hsome, fun _ hwalk => Nat.find_min' hsome hwalk⟩

/-- Whatever path leads to one name, there is one to the other that is no
longer. -/
def Nearer (edges : Digraph) (start a b : String) : Prop :=
  ∀ n, Walk edges n start b → ∃ m ≤ n, Walk edges m start a

/-! ## §3. One turn keeps the order. -/

/-- A search that has found the nearest first. -/
structure Layered (edges : Digraph) (start : String) (done queue : List String) : Prop where
  explored : Explored edges start done queue
  sorted : (done ++ queue).Pairwise (Nearer edges start)
  /-- Nothing that was found is further away than one edge behind a name that
  waits. -/
  close : ∀ waiting ∈ queue, ∀ name ∈ done ++ queue, ∀ n, Walk edges n start waiting →
    ∃ m ≤ n + 1, Walk edges m start name

namespace Layered

variable {name : String} {done queue : List String}

theorem initial (edges : Digraph) (start : String) : Layered edges start [] [start] where
  explored := .initial edges start
  sorted := List.pairwise_singleton _ start
  close := by
    intro waiting _ name hname n _
    obtain rfl := List.mem_singleton.1 hname
    exact ⟨0, Nat.zero_le _, .stay⟩

theorem nearer_of_mem (h : Layered edges start done (name :: queue)) {waiting : String}
    (hwaiting : waiting ∈ name :: queue) : Nearer edges start name waiting := by
  rcases List.mem_cons.1 hwaiting with rfl | hwaiting
  · exact fun n hwalk => ⟨n, Nat.le_refl n, hwalk⟩
  · exact (List.pairwise_cons.1 (List.pairwise_append.1 h.sorted).2.1).1 waiting hwaiting

/-- The name that is worked off can be reached, so it has a distance. -/
theorem exists_distance (h : Layered edges start done (name :: queue)) :
    ∃ d, Distance edges start name d := by
  rcases h.explored.reached name (by simp) with rfl | hleads
  · exact Walk.stay.exists_distance
  · obtain ⟨n, hwalk⟩ := hleads.exists_walk
    exact hwalk.exists_distance

/-- What is no further away than the name that is worked off was found: the way
to it leads through names that were worked off before. -/
theorem mem_of_le (h : Layered edges start done (name :: queue)) {d : Nat}
    (hd : Distance edges start name d) {n : Nat} (hle : n ≤ d) {other : String}
    (hwalk : Walk edges n start other) : other ∈ done ++ name :: queue := by
  induction n generalizing other with
  | zero =>
      cases hwalk
      exact List.mem_of_head? h.explored.first
  | succ n ih =>
      obtain ⟨before, hbefore, hedge⟩ := hwalk.exists_last
      rcases List.mem_append.1 (ih (Nat.le_of_succ_le hle) hbefore) with hdone | hwaiting
      · exact h.explored.closed before hdone other hedge
      · -- What waits is no nearer than the name, but this would be.
        obtain ⟨m, hm, hwalk'⟩ := h.nearer_of_mem hwaiting n hbefore
        have hleast := hd.least m hwalk'
        omega

/-- **What was not found yet is further away** than the name that is worked
off. -/
theorem beyond (h : Layered edges start done (name :: queue)) {d : Nat}
    (hd : Distance edges start name d) {other : String} (hother : other ∉ done ++ name :: queue)
    {n : Nat} (hwalk : Walk edges n start other) : d < n :=
  Nat.lt_of_not_le fun hle => hother (h.mem_of_le hd hle hwalk)

/-- **Working off a name keeps the order**: what is new goes behind all that was
found, and is one edge further away than the name. -/
theorem next (h : Layered edges start done (name :: queue)) :
    Layered edges start (done ++ [name])
      (queue ++ unseen (done ++ name :: queue) (successors edges name)) := by
  obtain ⟨d, hd⟩ := h.exists_distance
  let new := unseen (done ++ name :: queue) (successors edges name)
  have hfound : (done ++ [name]) ++ (queue ++ new) = (done ++ name :: queue) ++ new := by simp
  have hnew : ∀ other ∈ new, other ∉ done ++ name :: queue := fun other hother =>
    (mem_unseen.1 hother).2
  -- What is found is at most one step farther than the node in front, and what is not yet found is
  -- at least that far.
  have hclose : ∀ other ∈ (done ++ name :: queue) ++ new,
      ∃ m ≤ d + 1, Walk edges m start other := by
    intro other hother
    rcases List.mem_append.1 hother with hold | hother
    · exact h.close name List.mem_cons_self other hold d hd.walk
    · exact ⟨d + 1, Nat.le_refl _, hd.walk.concat (mem_successors.1 (mem_unseen.1 hother).1)⟩
  have hnearer : ∀ other ∈ (done ++ name :: queue) ++ new, ∀ last ∈ new,
      Nearer edges start other last := by
    intro other hother last hlast n hwalk
    obtain ⟨m, hm, hwalk'⟩ := hclose other hother
    exact ⟨m, Nat.le_trans hm (h.beyond hd (hnew last hlast) hwalk), hwalk'⟩
  constructor
  case explored => exact h.explored.next
  case sorted =>
      rw [hfound]
      refine List.pairwise_append.2 ⟨h.sorted, ?_, fun other hother last hlast =>
        hnearer other (List.mem_append_left _ hother) last hlast⟩
      exact List.pairwise_of_forall_mem_list fun other hother last hlast =>
        hnearer other (List.mem_append_right _ hother) last hlast
  case close =>
      intro waiting hwaiting other hother n hwalk
      rw [hfound] at hother
      have hle : d ≤ n := by
        rcases List.mem_append.1 hwaiting with hold | hlast
        · obtain ⟨m, hm, hwalk'⟩ := h.nearer_of_mem (List.mem_cons_of_mem _ hold) n hwalk
          exact Nat.le_trans (hd.least m hwalk') hm
        · exact Nat.le_of_lt (h.beyond hd (hnew waiting hlast) hwalk)
      obtain ⟨m, hm, hwalk'⟩ := hclose other hother
      exact ⟨m, by omega, hwalk'⟩

/-- **The whole search keeps the order.** -/
theorem workedOff (h : Layered edges start done queue) {found : List String}
    (hfound : WorkedOff edges queue (done ++ queue) found) : Layered edges start found [] := by
  generalize hseen : done ++ queue = seen at hfound
  induction hfound generalizing done with
  | ended =>
      subst hseen
      rwa [List.append_nil]
  | next _ ih =>
      subst hseen
      exact ih h.next (by simp)

end Layered

/-! ## §4. What stands before a name. -/

/-- **What stands before a name comes nearest first.** -/
theorem pairwise_ancestors (edges : Digraph) (name : String) :
    (ancestors edges name).Pairwise fun a b =>
      ∃ j k, Distance edges a name j ∧ Distance edges b name k ∧ j ≤ k := by
  have hlayered := (Layered.initial _ name).workedOff (workedOff_explore edges.reversed name)
  have hsorted := hlayered.sorted
  rw [List.append_nil, explore_reversed_eq] at hsorted
  refine (List.pairwise_cons.1 hsorted).2.imp_of_mem ?_
  intro a b ha hb hnearer
  have hdistance {other : String} (hother : other ∈ ancestors edges name) :
      ∃ d, Distance edges other name d := by
    obtain ⟨n, hwalk⟩ := (mem_ancestors_iff.1 hother).2.exists_walk
    exact hwalk.exists_distance
  obtain ⟨j, hj⟩ := hdistance ha
  obtain ⟨k, hk⟩ := hdistance hb
  obtain ⟨m, hm, hwalk⟩ := hnearer k (walk_reversed_iff.2 hk.walk)
  exact ⟨j, k, hj, hk, Nat.le_trans (hj.least m (walk_reversed_iff.1 hwalk)) hm⟩

end Digraph

namespace Graph

variable {α : Type}

/-- **What stands before a node comes nearest first.**  Walked backwards from
the node, whatever edges there are, the search ends by itself, with the node
and then its ancestors.  These are all other names from which the node can be
reached, each once and never the node itself; and of two of them the one with
the shorter way to the node comes first. -/
theorem ancestors_nearest_first (g : Graph α) (id : String) :
    (∀ found, Digraph.WorkedOff g.links.reversed [id] [id] found ↔ found = id :: g.ancestors id)
    ∧ id ∉ g.ancestors id ∧ (g.ancestors id).Nodup
    ∧ (∀ name, name ∈ g.ancestors id ↔ name ≠ id ∧ Digraph.Leads g.links name id)
    ∧ (g.ancestors id).Pairwise fun a b =>
      ∃ j k, Digraph.Distance g.links a id j ∧ Digraph.Distance g.links b id k ∧ j ≤ k := by
  have hends : Digraph.WorkedOff g.links.reversed [id] [id] (id :: g.ancestors id) := by
    have hexplore := Digraph.workedOff_explore g.links.reversed id
    rwa [Digraph.explore_reversed_eq] at hexplore
  obtain ⟨hself, hnodup⟩ := Digraph.nodup_ancestors g.links id
  refine ⟨fun found => ⟨fun h => h.unique hends, ?_⟩, hself, hnodup,
    fun name => Digraph.mem_ancestors_iff, Digraph.pairwise_ancestors g.links id⟩
  rintro rfl
  exact hends

end Graph

end WorkflowEditor
