/-
  WorkflowEditor.Proofs.BreadthFirst
  ──────────────────────────────────
  **BREADTH FIRST FINDS ALL THAT CAN BE REACHED, AND NOTHING ELSE.**

  The search works off a queue of names whose successors are still to be
  seen.  What it has found is what was worked off and, behind that, the
  queue; both grow at the end only:

    • `Leads.trans`, `leads_reversed_iff` — paths can be joined and turned
      around,
    • `Explored.next` — what working off one name keeps,
    • `Explored.length_le` — each name but the first takes an edge of its
      own, so the search has turns enough,
    • `explored_explore` — so at the end nothing is left in the queue,
    • `mem_ancestors_iff`, `nodup_ancestors` — walked backwards, the search
      finds each name from which the first can be reached once.
-/
import WorkflowEditor.Digraph
import Mathlib.Data.List.Nodup
import Mathlib.Data.List.Perm.Basic

namespace WorkflowEditor.Digraph

variable {edges : Digraph}

/-! ## §1. Paths. -/

theorem Leads.trans {a b c : String} (h : Leads edges a b) (h' : Leads edges b c) :
    Leads edges a c := by
  induction h with
  | edge hedge => exact .cons hedge h'
  | cons hedge _ ih => exact .cons hedge (ih h')

theorem mem_reversed {a b : String} : (a, b) ∈ reversed edges ↔ (b, a) ∈ edges := by
  unfold reversed
  rw [List.mem_map]
  constructor
  · rintro ⟨edge, hedge, heq⟩
    obtain ⟨rfl, rfl⟩ := Prod.mk.inj heq
    exact hedge
  · exact fun h => ⟨(b, a), h, rfl⟩

/-- Ways are turned round with their edges. -/
theorem Leads.turned {other : Digraph} (hturn : ∀ a b, (a, b) ∈ edges → (b, a) ∈ other)
    {a b : String} (h : Leads edges a b) : Leads other b a := by
  induction h with
  | edge hedge => exact .edge (hturn _ _ hedge)
  | cons hedge _ ih => exact ih.trans (.edge (hturn _ _ hedge))

/-- **A path can be walked backwards.** -/
theorem leads_reversed_iff {a b : String} : Leads (reversed edges) a b ↔ Leads edges b a :=
  ⟨Leads.turned fun _ _ => mem_reversed.1, Leads.turned fun _ _ => mem_reversed.2⟩

theorem Leads.mem_targets {a b : String} (h : Leads edges a b) : b ∈ edges.map Prod.snd := by
  induction h with
  | edge hedge => exact List.mem_map_of_mem hedge
  | cons _ _ ih => exact ih

/-! ## §2. One turn of the search. -/

theorem mem_successors {name next : String} :
    next ∈ successors edges name ↔ (name, next) ∈ edges := by
  unfold successors
  simp only [List.mem_map, List.mem_filter, beq_iff_eq]
  constructor
  · rintro ⟨⟨_, _⟩, ⟨hedge, rfl⟩, rfl⟩
    exact hedge
  · exact fun h => ⟨(name, next), ⟨h, rfl⟩, rfl⟩

/-- Only names that were not seen are put on the queue. -/
theorem mem_unseen {name : String} {seen names : List String} :
    name ∈ unseen seen names ↔ name ∈ names ∧ name ∉ seen := by
  induction names generalizing seen with
  | nil => simp [unseen]
  | cons other names ih =>
      unfold unseen
      by_cases hseen : seen.contains other
      · rw [if_pos hseen, ih]
        have hother : other ∈ seen := List.contains_iff_mem.1 hseen
        grind
      · rw [if_neg hseen, List.mem_cons, ih]
        have hother : other ∉ seen := fun h => hseen (List.contains_iff_mem.2 h)
        grind

theorem nodup_unseen (seen names : List String) : (unseen seen names).Nodup := by
  induction names generalizing seen with
  | nil => exact List.nodup_nil
  | cons other names ih =>
      unfold unseen
      split
      · exact ih seen
      · refine List.nodup_cons.2 ⟨fun hmem => ?_, ih (other :: seen)⟩
        exact (mem_unseen.1 hmem).2 List.mem_cons_self

/-- How far a search has come: the names that were worked off and those in
the queue. -/
structure Explored (edges : Digraph) (start : String) (done queue : List String) : Prop where
  first : (done ++ queue).head? = some start
  nodup : (done ++ queue).Nodup
  reached : ∀ name ∈ done ++ queue, name = start ∨ Leads edges start name
  closed : ∀ name ∈ done, ∀ next, (name, next) ∈ edges → next ∈ done ++ queue

namespace Explored

variable {start name : String} {done queue : List String}

theorem initial (edges : Digraph) (start : String) : Explored edges start [] [start] where
  first := rfl
  nodup := List.nodup_singleton start
  reached := fun _ hname => .inl (List.mem_singleton.1 hname)
  closed := fun _ hname => nomatch hname

/-- **Working off a name**: its successors that are new go to the end of the
queue. -/
theorem next (h : Explored edges start done (name :: queue)) :
    Explored edges start (done ++ [name])
      (queue ++ unseen (done ++ name :: queue) (successors edges name)) := by
  -- All that was found before is found still, the new names behind it.
  have hfound : (done ++ [name]) ++ (queue ++ unseen (done ++ name :: queue)
      (successors edges name))
      = (done ++ name :: queue) ++ unseen (done ++ name :: queue) (successors edges name) := by
    simp
  constructor
  case first =>
      rw [hfound, List.head?_append, h.first]
      rfl
  case nodup =>
      rw [hfound]
      refine h.nodup.append (nodup_unseen _ _) ?_
      exact fun _ hold hnew => (mem_unseen.1 hnew).2 hold
  case reached =>
      intro other hother
      rw [hfound, List.mem_append] at hother
      rcases hother with hold | hnew
      · exact h.reached other hold
      · have hedge : (name, other) ∈ edges := mem_successors.1 (mem_unseen.1 hnew).1
        rcases h.reached name (by simp) with rfl | hleads
        · exact .inr (.edge hedge)
        · exact .inr (hleads.trans (.edge hedge))
  case closed =>
      intro other hother after hedge
      rw [hfound, List.mem_append]
      rcases List.mem_append.1 hother with hold | hlast
      · exact .inl (h.closed other hold after hedge)
      · obtain rfl := List.mem_singleton.1 hlast
        by_cases hseen : after ∈ done ++ other :: queue
        · exact .inl hseen
        · exact .inr (mem_unseen.2 ⟨mem_successors.2 hedge, hseen⟩)

/-- Each name but the first is the far end of an edge. -/
theorem length_le (h : Explored edges start done queue) :
    (done ++ queue).length ≤ edges.length + 1 := by
  have hsubset : done ++ queue ⊆ start :: edges.map Prod.snd := by
    intro other hother
    rcases h.reached other hother with rfl | hleads
    · exact List.mem_cons_self
    · exact List.mem_cons_of_mem _ hleads.mem_targets
  have hle := (List.subperm_of_subset h.nodup hsubset).length_le
  rwa [List.length_cons, List.length_map] at hle

/-- **The search works the queue off** if it has a turn for each edge, and
one more. -/
theorem exploreQueue {turns : Nat} (h : Explored edges start done queue)
    (hturns : edges.length + 1 ≤ done.length + turns) :
    Explored edges start (Digraph.exploreQueue edges turns queue (done ++ queue)) [] := by
  induction turns generalizing done queue with
  | zero =>
      -- As many names as can be found were worked off, so none is waiting.
      have hle := h.length_le
      rw [List.length_append] at hle
      obtain rfl : queue = [] := List.length_eq_zero_iff.1 (by omega)
      unfold Digraph.exploreQueue
      rwa [List.append_nil]
  | succ turns ih =>
      cases queue with
      | nil =>
          unfold Digraph.exploreQueue
          rwa [List.append_nil]
      | cons name queue =>
          have hnext := ih h.next (by rw [List.length_append, List.length_singleton]; omega)
          rw [List.append_assoc, List.singleton_append, ← List.cons_append,
            ← List.append_assoc] at hnext
          exact hnext

end Explored

/-! ## §3. The whole search. -/

variable {start name : String}

/-- The search ends with an empty queue. -/
theorem explored_explore (edges : Digraph) (start : String) :
    Explored edges start (explore edges start) [] :=
  (Explored.initial edges start).exploreQueue (by simp)

/-- **What is found is what can be reached**, and the start. -/
theorem mem_explore_iff : name ∈ explore edges start ↔ name = start ∨ Leads edges start name := by
  have h := explored_explore edges start
  have hclosed : ∀ a ∈ explore edges start, ∀ b, (a, b) ∈ edges → b ∈ explore edges start := by
    simpa using h.closed
  have hstart : start ∈ explore edges start := by
    simpa using List.mem_of_head? h.first
  constructor
  · intro hname
    exact h.reached name (List.mem_append_left _ hname)
  · rintro (rfl | hleads)
    · exact hstart
    · -- What was found is closed under edges, so no path leads out of it.
      have hstays {a b : String} (hpath : Leads edges a b) (ha : a ∈ explore edges start) :
          b ∈ explore edges start := by
        induction hpath with
        | edge hedge => exact hclosed _ ha _ hedge
        | cons hedge _ ih => exact ih (hclosed _ ha _ hedge)
      exact hstays hleads hstart

theorem explore_reversed_eq (edges : Digraph) (name : String) :
    explore edges.reversed name = name :: ancestors edges name := by
  have hfirst := (explored_explore edges.reversed name).first
  rw [List.append_nil] at hfirst
  unfold ancestors
  exact (List.cons_head?_tail hfirst).symm

/-- **No name is found twice.** -/
theorem nodup_ancestors (edges : Digraph) (name : String) :
    name ∉ ancestors edges name ∧ (ancestors edges name).Nodup := by
  have hnodup := (explored_explore edges.reversed name).nodup
  rw [List.append_nil, explore_reversed_eq] at hnodup
  exact List.nodup_cons.1 hnodup

/-- **What stands before a name** is any other from which it can be
reached. -/
theorem mem_ancestors_iff {other : String} :
    other ∈ ancestors edges name ↔ other ≠ name ∧ Leads edges other name := by
  have hmem : other ∈ name :: ancestors edges name
      ↔ other = name ∨ Leads edges other name := by
    rw [← explore_reversed_eq, mem_explore_iff, leads_reversed_iff]
  have hself := (nodup_ancestors edges name).1
  rw [List.mem_cons] at hmem
  constructor
  · intro hother
    have hne : other ≠ name := fun heq => hself (heq ▸ hother)
    exact ⟨hne, (hmem.1 (.inr hother)).resolve_left hne⟩
  · rintro ⟨hne, hleads⟩
    exact (hmem.2 (.inr hleads)).resolve_left hne

end WorkflowEditor.Digraph
