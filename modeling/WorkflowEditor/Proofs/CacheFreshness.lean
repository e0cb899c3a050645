/-
  WorkflowEditor.Proofs.CacheFreshness
  ────────────────────────────────────
  **WHEN A REMEMBERED SCOPE IS THE RIGHT ONE.**

  A cache knows a graph by its revision.  As long as graphs of one revision
  have the same scopes it answers as if nothing was remembered; but a
  revision says nothing of the document, and graphs that were loaded anew
  start with low revisions again.

    • `Fresh` — what is remembered is what the graph has,
    • `get_of_fresh` — a call keeps that and is answered rightly,
    • `get_of_revision_eq` — of two graphs with one revision, the second is
      answered with what the first one has,
    • `get_stale_reloaded` — and a graph that is saved and loaded again after
      a change may be such a second one,
    • `answers_eq_truths` — calls in turn are answered rightly as long as the
      graphs agree.
-/
import Mathlib.Data.List.Chain
import WorkflowEditor.Graph.Edit
import WorkflowEditor.Graph.Load
import WorkflowEditor.Graph.Save
import WorkflowEditor.Proofs.Outcome
import WorkflowEditor.Scope.Cache

namespace WorkflowEditor

namespace ScopeCache

variable {α : Type}

/-! ## §1. Calls. -/

/-- What is asked of a cache, for any graph. -/
inductive Call (α : Type) where
  | get (g : Graph α) (id : String)
  | invalidate

/-- What a cache answers to calls in turn. -/
def answers (cache : ScopeCache) : List (Call α) → List (Except GraphError (List Variable))
  | [] => []
  | .get g id :: calls => (cache.get g id).2 :: (cache.get g id).1.answers calls
  | .invalidate :: calls => cache.invalidate.answers calls

/-- What the graph that was handed over has to say to a call. -/
def Call.truth? : Call α → Option (Except GraphError (List Variable))
  | .get g id => some (g.resolve id)
  | .invalidate => none

/-- What the graphs that were handed over have to say to calls in turn. -/
def truths (calls : List (Call α)) : List (Except GraphError (List Variable)) :=
  calls.filterMap Call.truth?

/-- Whether two graphs that a cache takes for one have the same scopes. -/
def Call.Agree : Call α → Call α → Prop
  | .get g _, .get g' _ => g.revision = g'.revision → g.resolve = g'.resolve
  | _, _ => True

/-! ## §2. A call to a fresh cache. -/

/-- If the cache has met the revision of a graph, what it remembers is what
the graph has. -/
def Fresh (cache : ScopeCache) (g : Graph α) : Prop :=
  cache.revision = some g.revision →
    ∀ id found, cache.entries.lookup id = some found → g.resolve id = .ok found

theorem fresh_of_revision_eq_none {cache : ScopeCache} (h : cache.revision = none) (g : Graph α) :
    cache.Fresh g := fun hmet => nomatch h.symm.trans hmet

@[simp] theorem meet_revision (cache : ScopeCache) (revision : Nat) :
    (cache.meet revision).revision = some revision := by
  unfold meet
  split
  · assumption
  · rfl

/-- Meeting the revision of a graph, a fresh cache keeps what is right and
any other one forgets. -/
theorem Fresh.lookup_meet {cache : ScopeCache} {g : Graph α} (h : cache.Fresh g) {id : String}
    {found : List Variable} (hfound : (cache.meet g.revision).entries.lookup id = some found) :
    g.resolve id = .ok found := by
  unfold meet at hfound
  split at hfound
  · rename_i hmet
    exact h hmet id found hfound
  · cases hfound

/-- After a call the cache has met the revision of the graph. -/
theorem get_revision (cache : ScopeCache) (g : Graph α) (id : String) :
    (cache.get g id).1.revision = some g.revision := by
  unfold get
  dsimp only
  split
  · exact meet_revision _ _
  · split <;> exact meet_revision _ _

/-- **A fresh cache answers what the graph has**, and is fresh afterwards. -/
theorem get_of_fresh {cache : ScopeCache} {g : Graph α} (h : cache.Fresh g) (id : String) :
    (cache.get g id).2 = g.resolve id ∧ (cache.get g id).1.Fresh g := by
  have hmeet : (cache.meet g.revision).Fresh g := fun _ _ _ hfound => h.lookup_meet hfound
  unfold get
  dsimp only
  cases hlookup : (cache.meet g.revision).entries.lookup id with
  | some found => exact ⟨(h.lookup_meet hlookup).symm, hmeet⟩
  | none =>
      cases hresolve : g.resolve id with
      | error cause => exact ⟨rfl, hmeet⟩
      | ok vs =>
          refine ⟨rfl, fun _ other found hfound => ?_⟩
          -- What is found was there before, or is what was worked out now.
          rw [List.lookup_append, Option.or_eq_some_iff] at hfound
          rcases hfound with hold | ⟨-, hnew⟩
          · exact h.lookup_meet hold
          · rw [List.lookup_cons] at hnew
            split at hnew
            · rename_i heq
              rw [eq_of_beq heq, hresolve, ← Option.some.inj hnew]
            · cases hnew

/-! ## §3. Graphs that share a revision. -/

/-- A graph whose revision the cache has met is answered with what is
remembered, whatever it has itself. -/
theorem get_of_lookup {cache : ScopeCache} {g : Graph α} {id : String} {found : List Variable}
    (hmet : cache.revision = some g.revision) (hfound : cache.entries.lookup id = some found) :
    cache.get g id = (cache, .ok found) := by
  have hmeet : cache.meet g.revision = cache := if_pos hmet
  unfold get
  rw [hmeet]
  dsimp only
  rw [hfound]

theorem lookup_get_of_eq_ok {cache : ScopeCache} {g : Graph α} {id : String} {vs : List Variable}
    (hok : (cache.get g id).2 = .ok vs) : (cache.get g id).1.entries.lookup id = some vs := by
  unfold get at hok ⊢
  dsimp only at hok ⊢
  cases hlookup : (cache.meet g.revision).entries.lookup id with
  | some found =>
      rw [hlookup] at hok
      obtain rfl := Except.ok.inj hok
      exact hlookup
  | none =>
      rw [hlookup] at hok
      cases hresolve : g.resolve id with
      | error cause =>
          rw [hresolve] at hok
          cases hok
      | ok found =>
          rw [hresolve] at hok
          obtain rfl := Except.ok.inj hok
          simp [List.lookup_append, hlookup]

/-- **Of two graphs with one revision the second is answered with what the
first one has.** -/
theorem get_of_revision_eq {cache : ScopeCache} {g g' : Graph α}
    (hrevision : g.revision = g'.revision) {id : String} {vs : List Variable}
    (hok : (cache.get g id).2 = .ok vs) : ((cache.get g id).1.get g' id).2 = .ok vs := by
  have hmet : (cache.get g id).1.revision = some g'.revision :=
    hrevision ▸ cache.get_revision g id
  rw [get_of_lookup hmet (lookup_get_of_eq_ok hok)]

/-- A node that answers what the one before it publishes. -/
def linked : Document Rat where
  info := .blank
  nodes := [⟨"a", .llm, none, none, [], none, []⟩, ⟨"b", .answer, none, none, [], none, []⟩]
  edges := [⟨"a", "b", none, []⟩]
  vars := []

/-- Without its edge, saved and loaded again, the graph has the revision that
it had when it was loaded first. -/
theorem linked_reloaded :
    ∃ g g' v, linked.toGraph .standard = .ok g
      ∧ (g.after (.disconnect "a-right-b")).toDocument.toGraph .standard = .ok g'
      ∧ g.revision = g'.revision
      ∧ g.resolve "b" = .ok [v] ∧ g'.resolve "b" = .ok [] := by
  have hrun : ((linked.toGraph .standard).toOption.bind fun g =>
      ((g.after (.disconnect "a-right-b")).toDocument.toGraph .standard).toOption.map fun g' =>
        (g.revision == g'.revision, (g.resolve "b").toOption, (g'.resolve "b").toOption))
      = some (true, some [.named "a" "output" .string ⟨"a", "LLM", some .llm⟩], some []) := by
    decide +kernel
  obtain ⟨g, hg, hrun⟩ := Option.bind_eq_some_iff.1 hrun
  obtain ⟨g', hg', hrun⟩ := Option.map_eq_some_iff.1 hrun
  obtain ⟨hrevision, hscopes⟩ := Prod.mk.inj hrun
  obtain ⟨hscope, hscope'⟩ := Prod.mk.inj hscopes
  exact ⟨g, g', _, toOption_eq_some_iff.1 hg, toOption_eq_some_iff.1 hg', eq_of_beq hrevision,
    toOption_eq_some_iff.1 hscope, toOption_eq_some_iff.1 hscope'⟩

/-- **A graph that is changed, saved and loaded again** may have the revision
that it had before the change, and a cache then answers as if there was none:
the edge is cut, but the node behind it is still offered what came by it. -/
theorem get_stale_reloaded :
    ∃ g g' v, linked.toGraph .standard = .ok g
      ∧ (g.after (.disconnect "a-right-b")).toDocument.toGraph .standard = .ok g'
      ∧ empty.answers [.get g "b", .get g' "b"] = [.ok [v], .ok [v]]
      ∧ truths [.get g "b", .get g' "b"] = [.ok [v], .ok []] := by
  obtain ⟨g, g', v, hg, hg', hrevision, hscope, hscope'⟩ := linked_reloaded
  have hfirst : (empty.get g "b").2 = .ok [v] :=
    (get_of_fresh (fresh_of_revision_eq_none rfl g) "b").1.trans hscope
  have hsecond : ((empty.get g "b").1.get g' "b").2 = .ok [v] :=
    get_of_revision_eq hrevision hfirst
  refine ⟨g, g', v, hg, hg', ?_, ?_⟩
  · simp only [answers, hfirst, hsecond]
  · simp only [truths, Call.truth?, List.filterMap_cons, List.filterMap_nil, hscope, hscope']

/-! ## §4. Calls in turn. -/

/-- A cache that is fresh for the next call. -/
def FreshFor (cache : ScopeCache) : List (Call α) → Prop
  | .get g _ :: _ => cache.Fresh g
  | _ => True

theorem freshFor_of_revision_eq_none {cache : ScopeCache} (h : cache.revision = none)
    (calls : List (Call α)) : cache.FreshFor calls := by
  unfold FreshFor
  split
  · exact fresh_of_revision_eq_none h _
  · trivial

/-- A cache that was just asked is fresh for a call that agrees. -/
theorem freshFor_get {cache : ScopeCache} {g : Graph α} (h : cache.Fresh g) {id : String}
    {calls : List (Call α)} (hcalls : (Call.get g id :: calls).IsChain Call.Agree) :
    (cache.get g id).1.FreshFor calls := by
  match calls, hcalls with
  | [], _ => trivial
  | .invalidate :: _, _ => trivial
  | .get g' _ :: _, hcalls =>
      intro hmet other found hfound
      have hrevision : g.revision = g'.revision :=
        Option.some.inj ((cache.get_revision g id).symm.trans hmet)
      rw [← (List.isChain_cons_cons.1 hcalls).1 hrevision]
      exact (get_of_fresh h id).2 (cache.get_revision g id) other found hfound

theorem FreshFor.answers {cache : ScopeCache} {calls : List (Call α)} (h : cache.FreshFor calls)
    (hcalls : calls.IsChain Call.Agree) : cache.answers calls = truths calls := by
  induction calls generalizing cache with
  | nil => rfl
  | cons call calls ih =>
      cases call with
      | get g id =>
          have hrest := ih (freshFor_get h hcalls) hcalls.tail
          exact congrArg₂ List.cons (get_of_fresh h id).1 hrest
      | invalidate => exact ih (freshFor_of_revision_eq_none rfl calls) hcalls.tail

/-- **Nothing stale is answered** as long as a call that follows another one
hands over a graph of another revision or with the same scopes. -/
theorem answers_eq_truths {calls : List (Call α)} (h : calls.IsChain Call.Agree) :
    empty.answers calls = truths calls :=
  (freshFor_of_revision_eq_none rfl calls).answers h

/-- With the cache told to forget in between, both are answered rightly. -/
theorem answers_eq_truths_invalidated :
    ∃ g g' v, linked.toGraph .standard = .ok g
      ∧ (g.after (.disconnect "a-right-b")).toDocument.toGraph .standard = .ok g'
      ∧ [Call.get g "b", .invalidate, .get g' "b"].IsChain Call.Agree
      ∧ empty.answers [.get g "b", .invalidate, .get g' "b"] = [.ok [v], .ok []] := by
  obtain ⟨g, g', v, hg, hg', -, hscope, hscope'⟩ := linked_reloaded
  have hagree : [Call.get g "b", .invalidate, .get g' "b"].IsChain Call.Agree := by
    simp [Call.Agree]
  refine ⟨g, g', v, hg, hg', hagree, (answers_eq_truths hagree).trans ?_⟩
  simp only [truths, Call.truth?, List.filterMap_cons, List.filterMap_nil, hscope, hscope']

end ScopeCache

end WorkflowEditor
