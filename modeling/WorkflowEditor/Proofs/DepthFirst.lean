/-
  WorkflowEditor.Proofs.DepthFirst
  ────────────────────────────────
  **DEPTH FIRST FINDS A CLOSED PATH WHEN THERE IS ONE.**

  The search follows a trail.  A name leaves the trail when all its
  successors have been tried, and is done from then on:

    • `Followed` — what holds of the trail and of the names that are done,
    • `Followed.push`, `Followed.skip`, `Followed.pop` — what each turn
      keeps, and `Followed.leads_self` where the trail closes,
    • `pending` — what is left to do, which each turn makes less,
    • `Searched` — the search without a bound on its turns, and how it ends,
    • `searched_findCycle` — so the bound does not cut it short,
    • `Settled` — the names that are done lead to one another only, and
      none leads to itself,
    • `findCycle_eq_none_iff` — the search finds nothing exactly where no
      name leads to itself.
-/
import WorkflowEditor.Proofs.BreadthFirst

namespace WorkflowEditor.Digraph

variable {edges : Digraph}

/-! ## §1. The trail and the names that are done. -/

/-- Every successor of a name on a trail is still to be tried, or done, or
on the trail behind it. -/
def Tried (edges : Digraph) : List (String × List String) → List String → Prop
  | [], _ => True
  | (name, more) :: trail, done =>
      (∀ next, (name, next) ∈ edges → next ∈ more ∨ next ∈ done)
        ∧ Tried edges trail (name :: done)

/-- The names of a list are joined by edges, from the last to the first. -/
def Linked (edges : Digraph) : List String → Prop
  | [] => True
  | [_] => True
  | next :: name :: rest => (name, next) ∈ edges ∧ Linked edges (name :: rest)

/-- The names that are done lead to one another only, and none to itself. -/
structure Settled (edges : Digraph) (done : List String) : Prop where
  closed : ∀ name ∈ done, ∀ next, (name, next) ∈ edges → next ∈ done
  acyclic : ∀ name ∈ done, ¬ Leads edges name name

/-- How far a search has come. -/
structure Followed (edges : Digraph) (trail : List (String × List String))
    (done : List String) : Prop where
  linked : Linked edges (trail.map Prod.fst)
  fresh : ∀ name ∈ trail.map Prod.fst, name ∉ done
  nodup : (trail.map Prod.fst).Nodup
  along : ∀ entry ∈ trail, ∀ next ∈ entry.2, (entry.1, next) ∈ edges
  tried : Tried edges trail done
  settled : Settled edges done

theorem Tried.mono {trail : List (String × List String)} {done more : List String}
    (h : Tried edges trail done) (hsub : done ⊆ more) : Tried edges trail more := by
  induction trail generalizing done more with
  | nil => trivial
  | cons entry trail ih =>
      obtain ⟨hfirst, hrest⟩ := h
      exact ⟨fun next hedge => (hfirst next hedge).imp_right fun hnext => hsub hnext,
        ih hrest (List.cons_subset_cons _ hsub)⟩

/-- The names of a trail lead to the one that was reached last. -/
theorem Linked.leads {last other : String} {names : List String}
    (h : Linked edges (last :: names)) (hother : other ∈ names) : Leads edges other last := by
  induction names generalizing last with
  | nil => cases hother
  | cons name names ih =>
      obtain ⟨hedge, hrest⟩ := h
      rcases List.mem_cons.1 hother with rfl | hother
      · exact .edge hedge
      · exact (ih hrest hother).trans (.edge hedge)

theorem Settled.leads {done : List String} (h : Settled edges done) {a b : String}
    (hleads : Leads edges a b) (ha : a ∈ done) : b ∈ done := by
  induction hleads with
  | edge hedge => exact h.closed _ ha _ hedge
  | cons hedge _ ih => exact ih (h.closed _ ha _ hedge)

/-- A name all of whose successors are done is done itself. -/
theorem Settled.cons {done : List String} (h : Settled edges done) {name : String}
    (hfresh : name ∉ done) (hnext : ∀ next, (name, next) ∈ edges → next ∈ done) :
    Settled edges (name :: done) := by
  constructor
  case closed =>
      intro other hother next hedge
      rcases List.mem_cons.1 hother with rfl | hother
      · exact List.mem_cons_of_mem _ (hnext next hedge)
      · exact List.mem_cons_of_mem _ (h.closed other hother next hedge)
  case acyclic =>
      intro other hother hleads
      rcases List.mem_cons.1 hother with rfl | hother
      · -- The path goes on among the names that are done, so it never comes back.
        cases hleads with
        | edge hedge => exact hfresh (hnext _ hedge)
        | cons hedge hrest => exact hfresh (h.leads hrest (hnext _ hedge))
      · exact h.acyclic other hother hleads

/-! ## §2. One turn of the search. -/

namespace Followed

variable {name next : String} {more done : List String} {trail : List (String × List String)}

theorem single {root : String} (hfresh : root ∉ done) (h : Settled edges done) :
    Followed edges [(root, successors edges root)] done where
  linked := trivial
  fresh := by simpa using hfresh
  nodup := List.nodup_singleton root
  along := by simpa using fun next => mem_successors.1
  tried := ⟨fun _ hedge => .inl (mem_successors.2 hedge), trivial⟩
  settled := h

theorem edge (h : Followed edges ((name, next :: more) :: trail) done) : (name, next) ∈ edges :=
  h.along _ List.mem_cons_self next List.mem_cons_self

/-- **A name with nothing left to try is done.** -/
theorem pop (h : Followed edges ((name, []) :: trail) done) :
    Followed edges trail (name :: done) := by
  obtain ⟨hname, hnodup⟩ := List.nodup_cons.1 h.nodup
  have hfresh : name ∉ done := h.fresh name List.mem_cons_self
  constructor
  case linked =>
      have hlinked := h.linked
      cases trail with
      | nil => trivial
      | cons entry trail => exact hlinked.2
  case fresh =>
      intro other hother hdone
      rcases List.mem_cons.1 hdone with rfl | hdone
      · exact hname hother
      · exact h.fresh other (List.mem_cons_of_mem _ hother) hdone
  case nodup => exact hnodup
  case along => exact fun entry hentry => h.along entry (List.mem_cons_of_mem _ hentry)
  case tried => exact h.tried.2
  case settled =>
      refine h.settled.cons hfresh fun next hedge => ?_
      exact (h.tried.1 next hedge).resolve_left List.not_mem_nil

/-- **A successor that is done is passed over.** -/
theorem skip (h : Followed edges ((name, next :: more) :: trail) done) (hdone : next ∈ done) :
    Followed edges ((name, more) :: trail) done where
  linked := h.linked
  fresh := h.fresh
  nodup := h.nodup
  along := by
    intro entry hentry other hother
    rcases List.mem_cons.1 hentry with rfl | hentry
    · exact h.along _ List.mem_cons_self other (List.mem_cons_of_mem _ hother)
    · exact h.along entry (List.mem_cons_of_mem _ hentry) other hother
  tried := by
    refine ⟨fun other hedge => ?_, h.tried.2⟩
    rcases h.tried.1 other hedge with hmore | hother
    · rcases List.mem_cons.1 hmore with rfl | hmore
      · exact .inr hdone
      · exact .inl hmore
    · exact .inr hother
  settled := h.settled

/-- **A new successor goes on the trail.** -/
theorem push (h : Followed edges ((name, next :: more) :: trail) done)
    (hpath : next ∉ name :: trail.map Prod.fst) (hdone : next ∉ done) :
    Followed edges ((next, successors edges next) :: (name, more) :: trail) done where
  linked := ⟨h.edge, h.linked⟩
  fresh := by
    intro other hother
    rcases List.mem_cons.1 hother with rfl | hother
    · exact hdone
    · exact h.fresh other hother
  nodup := List.nodup_cons.2 ⟨hpath, h.nodup⟩
  along := by
    intro entry hentry other hother
    rcases List.mem_cons.1 hentry with rfl | hentry
    · exact mem_successors.1 hother
    rcases List.mem_cons.1 hentry with rfl | hentry
    · exact h.along _ List.mem_cons_self other (List.mem_cons_of_mem _ hother)
    · exact h.along entry (List.mem_cons_of_mem _ hentry) other hother
  tried := by
    refine ⟨fun _ hedge => .inl (mem_successors.2 hedge), fun other hedge => ?_, ?_⟩
    · rcases h.tried.1 other hedge with hmore | hother
      · rcases List.mem_cons.1 hmore with rfl | hmore
        · exact .inr List.mem_cons_self
        · exact .inl hmore
      · exact .inr (List.mem_cons_of_mem _ hother)
    · exact h.tried.2.mono (List.cons_subset_cons _ (List.subset_cons_self _ _))
  settled := h.settled

/-- **A successor that is on the trail leads to itself.** -/
theorem leads_self (h : Followed edges ((name, next :: more) :: trail) done)
    (hpath : next ∈ name :: trail.map Prod.fst) : Leads edges next next := by
  rcases List.mem_cons.1 hpath with rfl | hpath
  · exact .edge h.edge
  · exact (h.linked.leads hpath).trans (.edge h.edge)

end Followed

/-! ## §3. What is left to do. -/

/-- The edges whose end on one side was not seen yet. -/
def unmet (edges : Digraph) (side : String × String → String) (seen : List String) : Nat :=
  edges.countP fun edge => side edge ∉ seen

/-- Successors to try, and names to leave. -/
def untried : List (String × List String) → Nat
  | [] => 0
  | (_, more) :: trail => more.length + 1 + untried trail

/-- What is left to do: successors to try and names to leave on the trail,
and an edge on either side of a name that is still to be met. -/
def pending (edges : Digraph) (trail : List (String × List String)) (done : List String) : Nat :=
  untried trail
    + unmet edges Prod.fst (trail.map Prod.fst ++ done)
    + unmet edges Prod.snd (trail.map Prod.fst ++ done)

theorem unmet_congr {side : String × String → String} {seen seen' : List String}
    (h : ∀ name, name ∈ seen ↔ name ∈ seen') : unmet edges side seen = unmet edges side seen' :=
  List.countP_congr fun edge _ => by simp [h]

/-- Meeting a new name takes the edges at it away. -/
theorem unmet_eq_add (edges : Digraph) (side : String × String → String) {name : String}
    {seen : List String} (hnew : name ∉ seen) :
    unmet edges side seen
      = edges.countP (fun edge => side edge = name) + unmet edges side (name :: seen) := by
  unfold unmet
  induction edges with
  | nil => rfl
  | cons edge edges ih =>
      rw [List.countP_cons, List.countP_cons, List.countP_cons, ih]
      by_cases hname : side edge = name
      · simp [hname, hnew]
        omega
      · by_cases hseen : side edge ∈ seen <;> simp [hname, hseen]
        omega

theorem length_successors (edges : Digraph) (name : String) :
    (successors edges name).length = edges.countP fun edge => edge.1 = name := by
  unfold successors
  rw [List.length_map, List.countP_eq_length_filter]
  rfl

theorem pending_pop (edges : Digraph) (name : String) (trail : List (String × List String))
    (done : List String) :
    pending edges trail (name :: done) + 1 = pending edges ((name, []) :: trail) done := by
  have hseen (side : String × String → String) :
      unmet edges side (trail.map Prod.fst ++ name :: done)
        = unmet edges side (((name, []) :: trail).map Prod.fst ++ done) :=
    unmet_congr fun other => by simp [or_left_comm]
  unfold pending
  rw [hseen, hseen]
  simp only [untried, List.map_cons, List.length_nil]
  omega

theorem pending_skip (edges : Digraph) (name next : String) (more : List String)
    (trail : List (String × List String)) (done : List String) :
    pending edges ((name, more) :: trail) done + 1
      = pending edges ((name, next :: more) :: trail) done := by
  unfold pending
  simp only [untried, List.map_cons, List.length_cons]
  omega

/-- **A new name takes edges of its own**, one of them that which led to
it. -/
theorem pending_push {name next : String} {trail : List (String × List String)}
    {done : List String} (more : List String) (hedge : (name, next) ∈ edges)
    (hpath : next ∉ name :: trail.map Prod.fst) (hdone : next ∉ done) :
    pending edges ((next, successors edges next) :: (name, more) :: trail) done + 1
      ≤ pending edges ((name, next :: more) :: trail) done := by
  have hnew : next ∉ ((name, more) :: trail).map Prod.fst ++ done :=
    fun h => (List.mem_append.1 h).elim hpath hdone
  have hout := unmet_eq_add edges Prod.fst hnew
  have hin := unmet_eq_add edges Prod.snd hnew
  have hled : 0 < edges.countP fun edge => edge.2 = next :=
    List.countP_pos_iff.2 ⟨(name, next), hedge, by simp⟩
  have hlength := length_successors edges next
  unfold pending
  simp only [untried, List.map_cons, List.length_cons, List.cons_append] at hout hin ⊢
  omega

/-- A trail of one name is followed in two turns for each edge, and one
more. -/
theorem pending_single (edges : Digraph) {root : String} {done : List String}
    (hfresh : root ∉ done) :
    pending edges [(root, successors edges root)] done ≤ 2 * edges.length + 1 := by
  have hout := unmet_eq_add edges Prod.fst hfresh
  have hall : unmet edges Prod.fst done ≤ edges.length := List.countP_le_length
  have hall' : unmet edges Prod.snd (root :: done) ≤ edges.length := List.countP_le_length
  have hlength := length_successors edges root
  unfold pending
  simp only [untried, List.map_cons, List.map_nil, List.cons_append, List.nil_append]
  omega

/-! ## §4. The search without a bound. -/

/-- The names of a trail from one of them on, and that one again. -/
def closing (next : String) (names : List String) : List String :=
  names.reverse.dropWhile (fun other => other != next) ++ [next]

/-- How a search ends, in as many turns as it takes: the roots that are left, the
trail, the names that are done, and the answer. -/
inductive Searched (edges : Digraph) :
    List String → List (String × List String) → List String → Option (List String) → Prop
  /-- No root is left. -/
  | ended {done : List String} : Searched edges [] [] done none
  /-- A root that is done is passed over. -/
  | known {root : String} {roots done : List String} {answer : Option (List String)} :
      root ∈ done → Searched edges roots [] done answer →
      Searched edges (root :: roots) [] done answer
  /-- From any other root a trail begins. -/
  | begun {root : String} {roots done : List String} {answer : Option (List String)} :
      root ∉ done → Searched edges roots [(root, successors edges root)] done answer →
      Searched edges (root :: roots) [] done answer
  /-- A name without a target that is still to be tried is done. -/
  | left {name : String} {roots done : List String} {trail : List (String × List String)}
      {answer : Option (List String)} :
      Searched edges roots trail (name :: done) answer →
      Searched edges roots ((name, []) :: trail) done answer
  /-- A target on the trail closes a path. -/
  | closed {name next : String} {more roots done : List String}
      {trail : List (String × List String)} :
      next ∈ name :: trail.map Prod.fst →
      Searched edges roots ((name, next :: more) :: trail) done
        (some (closing next (name :: trail.map Prod.fst)))
  /-- A target that is done is passed over. -/
  | passed {name next : String} {more roots done : List String}
      {trail : List (String × List String)} {answer : Option (List String)} :
      next ∉ name :: trail.map Prod.fst → next ∈ done →
      Searched edges roots ((name, more) :: trail) done answer →
      Searched edges roots ((name, next :: more) :: trail) done answer
  /-- Any other target is entered. -/
  | entered {name next : String} {more roots done : List String}
      {trail : List (String × List String)} {answer : Option (List String)} :
      next ∉ name :: trail.map Prod.fst → next ∉ done →
      Searched edges roots ((next, successors edges next) :: (name, more) :: trail) done answer →
      Searched edges roots ((name, next :: more) :: trail) done answer

theorem Searched.unique {roots done : List String} {trail : List (String × List String)}
    {answer answer' : Option (List String)} (h : Searched edges roots trail done answer)
    (h' : Searched edges roots trail done answer') : answer = answer' := by
  induction h with
  | ended =>
      cases h'
      rfl
  | known hroot _ ih =>
      cases h' with
      | known _ h' => exact ih h'
      | begun hroot' _ => exact absurd hroot hroot'
  | begun hroot _ ih =>
      cases h' with
      | known hroot' _ => exact absurd hroot' hroot
      | begun _ h' => exact ih h'
  | left _ ih =>
      cases h' with
      | left h' => exact ih h'
  | closed hpath =>
      cases h' with
      | closed => rfl
      | passed hpath' _ _ | entered hpath' _ _ => exact absurd hpath hpath'
  | passed hpath hdone _ ih =>
      cases h' with
      | closed hpath' => exact absurd hpath' hpath
      | passed _ _ h' => exact ih h'
      | entered _ hdone' _ => exact absurd hdone hdone'
  | entered hpath hdone _ ih =>
      cases h' with
      | closed hpath' => exact absurd hpath' hpath
      | passed _ hdone' _ => exact absurd hdone' hdone
      | entered _ _ h' => exact ih h'

/-- **A trail is followed to its end** if there are turns for all that is left
to do: to a path where it closes, or else on to the roots that are left, with
all that was met done. -/
theorem Followed.searched {turns : Nat} {trail : List (String × List String)}
    {done : List String} (h : Followed edges trail done)
    (hturns : pending edges trail done ≤ turns) (roots : List String) :
    match followTrail edges turns trail done with
    | .error path => Searched edges roots trail done (some path)
    | .ok found => Settled edges found
        ∧ ∀ answer, Searched edges roots [] found answer →
          Searched edges roots trail done answer := by
  induction turns generalizing trail done with
  | zero =>
      -- Each name of a trail is still to be left, so there is none.
      obtain rfl : trail = [] := by
        cases trail with
        | nil => rfl
        | cons entry trail =>
            unfold pending untried at hturns
            omega
      exact ⟨h.settled, fun _ hrest => hrest⟩
  | succ turns ih =>
      match trail with
      | [] => exact ⟨h.settled, fun _ hrest => hrest⟩
      | (name, []) :: trail =>
          have hless := pending_pop edges name trail done
          have hrest := ih h.pop (by omega)
          unfold Digraph.followTrail
          split at hrest
          · exact .left hrest
          · exact ⟨hrest.1, fun answer hanswer => .left (hrest.2 answer hanswer)⟩
      | (name, next :: more) :: trail =>
          unfold Digraph.followTrail
          simp only [List.map_cons]
          by_cases hpath : next ∈ name :: trail.map Prod.fst
          · rw [if_pos (List.contains_iff_mem.2 (List.mem_reverse.2 hpath))]
            exact .closed hpath
          rw [if_neg (mt List.contains_iff_mem.1 (mt List.mem_reverse.1 hpath))]
          by_cases hdone : next ∈ done
          · have hless := pending_skip edges name next more trail done
            have hrest := ih (h.skip hdone) (by omega)
            rw [if_pos (List.contains_iff_mem.2 hdone)]
            split at hrest
            · exact .passed hpath hdone hrest
            · exact ⟨hrest.1, fun answer hanswer =>
                .passed hpath hdone (hrest.2 answer hanswer)⟩
          · have hless := pending_push more h.edge hpath hdone
            have hrest := ih (h.push hpath hdone) (by omega)
            rw [if_neg (mt List.contains_iff_mem.1 hdone)]
            split at hrest
            · exact .entered hpath hdone hrest
            · exact ⟨hrest.1, fun answer hanswer =>
                .entered hpath hdone (hrest.2 answer hanswer)⟩

theorem searched_findCycleFrom (roots : List String) {done : List String}
    (h : Settled edges done) : Searched edges roots [] done (findCycleFrom edges roots done) := by
  induction roots generalizing done with
  | nil => exact .ended
  | cons root roots ih =>
      unfold findCycleFrom
      by_cases hroot : root ∈ done
      · rw [if_pos (List.contains_iff_mem.2 hroot)]
        exact .known hroot (ih h)
      · have hturns := Nat.le_succ_of_le (pending_single edges hroot)
        have hfollowed := (Followed.single hroot h).searched hturns roots
        rw [if_neg (mt List.contains_iff_mem.1 hroot)]
        cases hfound : followTrail edges (2 * edges.length + 2) [(root, successors edges root)]
          done with
        | error path =>
            rw [hfound] at hfollowed
            exact .begun hroot hfollowed
        | ok found =>
            rw [hfound] at hfollowed
            exact .begun hroot (hfollowed.2 _ (ih hfollowed.1))

theorem settled_nil (edges : Digraph) : Settled edges [] :=
  ⟨fun _ h => (nomatch h), fun _ h => (nomatch h)⟩

theorem followed_nil (edges : Digraph) : Followed edges [] [] where
  linked := trivial
  fresh := fun _ h => nomatch h
  nodup := List.nodup_nil
  along := fun _ h => nomatch h
  tried := trivial
  settled := settled_nil edges

/-- **The search ends by itself**, with the answer that is found within the
bound. -/
theorem searched_findCycle (edges : Digraph) (roots : List String) :
    Searched edges roots [] [] (findCycle edges roots) :=
  searched_findCycleFrom roots (settled_nil edges)

/-! ## §5. What is found. -/

section Outcome

variable {roots done : List String} {trail : List (String × List String)}
  {answer : Option (List String)}

/-- A search that finds something has met a name that leads to itself. -/
theorem Searched.exists_leads_self (h : Searched edges roots trail done answer)
    (hfollowed : Followed edges trail done) (hsome : answer ≠ none) :
    ∃ name, Leads edges name name := by
  induction h with
  | ended => exact absurd rfl hsome
  | known _ _ ih => exact ih hfollowed hsome
  | begun hroot _ ih => exact ih (.single hroot hfollowed.settled) hsome
  | left _ ih => exact ih hfollowed.pop hsome
  | closed hpath => exact ⟨_, hfollowed.leads_self hpath⟩
  | passed _ hdone _ ih => exact ih (hfollowed.skip hdone) hsome
  | entered hpath hdone _ ih => exact ih (hfollowed.push hpath hdone) hsome

/-- A search that finds nothing leaves all names done that it was to try. -/
theorem Searched.exists_settled (h : Searched edges roots trail done answer)
    (hfollowed : Followed edges trail done) (hnone : answer = none) :
    ∃ found, Settled edges found ∧ done ⊆ found ∧ trail.map Prod.fst ⊆ found ∧ roots ⊆ found := by
  induction h with
  | @ended done =>
      exact ⟨done, hfollowed.settled, List.Subset.refl _, List.nil_subset _, List.nil_subset _⟩
  | known hroot _ ih =>
      obtain ⟨found, hsettled, hdone, htrail, hroots⟩ := ih hfollowed hnone
      exact ⟨found, hsettled, hdone, htrail, List.cons_subset.2 ⟨hdone hroot, hroots⟩⟩
  | begun hroot _ ih =>
      obtain ⟨found, hsettled, hdone, htrail, hroots⟩ :=
        ih (.single hroot hfollowed.settled) hnone
      exact ⟨found, hsettled, hdone, List.nil_subset _,
        List.cons_subset.2 ⟨htrail List.mem_cons_self, hroots⟩⟩
  | left _ ih =>
      obtain ⟨found, hsettled, hdone, htrail, hroots⟩ := ih hfollowed.pop hnone
      obtain ⟨hname, hdone⟩ := List.cons_subset.1 hdone
      exact ⟨found, hsettled, hdone, List.cons_subset.2 ⟨hname, htrail⟩, hroots⟩
  | closed => cases hnone
  | passed _ hdone _ ih => exact ih (hfollowed.skip hdone) hnone
  | entered hpath hdone _ ih =>
      obtain ⟨found, hsettled, hdone, htrail, hroots⟩ := ih (hfollowed.push hpath hdone) hnone
      exact ⟨found, hsettled, hdone, (List.cons_subset.1 htrail).2, hroots⟩

end Outcome

/-- **Nothing is found exactly where no name leads to itself**, as long as
every edge leaves a root. -/
theorem findCycle_eq_none_iff {roots : List String} (hroots : ∀ edge ∈ edges, edge.1 ∈ roots) :
    findCycle edges roots = none ↔ ∀ name, ¬ Leads edges name name := by
  have hends := searched_findCycle edges roots
  constructor
  · intro hnone name hname
    obtain ⟨found, hsettled, -, -, hfound⟩ := hends.exists_settled (followed_nil edges) hnone
    have hroot : name ∈ roots := by
      cases hname with
      | edge hedge | cons hedge _ => exact hroots _ hedge
    exact hsettled.acyclic name (hfound hroot) hname
  · intro hacyclic
    by_contra hsome
    obtain ⟨name, hname⟩ := hends.exists_leads_self (followed_nil edges) hsome
    exact hacyclic name hname

end WorkflowEditor.Digraph
