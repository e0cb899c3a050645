/-
  WorkflowEditor.Proofs.Revision
  ──────────────────────────────
  **THE REVISION STAMPS WHAT IS DONE TO A GRAPH.**

  A change that is applied raises the revision by the number of its events,
  of which there is at least one; a change that is refused leaves the graph
  as it was, also when it is made in place.  So along the changes of one
  graph a revision stands for one state, which is what a cache of scopes
  counts on.

    • `Draft.Follows` — what each step keeps: events are only added, and the
      revision counts them,
    • `Applied.announced` — every change that is applied is announced,
    • `run_eq_of_revision_eq` — two moments of a run with one revision are
      one state,
    • `agree_calls` — so the graphs that a cache meets along the way agree,
    • `revision_faithful` — all of it for changes that are made in place.
-/
import WorkflowEditor.Proofs.Applied
import WorkflowEditor.Proofs.CacheFreshness
import WorkflowEditor.Proofs.InPlace

namespace WorkflowEditor

namespace Draft

/-! ## §1. Steps. -/

section Steps

variable {α β : Type}

/-- A draft that comes of another one: events were only added, and the
revision still counts them. -/
structure Follows (d d' : Draft α) : Prop where
  events : d.events <+: d'.events
  stamped : ∀ g, Stamped g d → Stamped g d'

theorem Follows.refl (d : Draft α) : d.Follows d := ⟨List.prefix_rfl, fun _ h => h⟩

/-- Steps may be taken one after another. -/
theorem Follows.trans {d d' d'' : Draft α} (h : d.Follows d') (h' : d'.Follows d'') :
    d.Follows d'' :=
  ⟨h.events.trans h'.events, fun g hg => h'.stamped g (h.stamped g hg)⟩

/-- Steps one after the other. -/
theorem Follows.foldl {step : Draft α → β → Draft α} (hstep : ∀ d b, Follows d (step d b))
    (d : Draft α) (bs : List β) : d.Follows (bs.foldl step d) := by
  induction bs generalizing d with
  | nil => exact .refl d
  | cons b bs ih => exact (hstep d b).trans (ih (step d b))

/-- An event is counted as it is told. -/
theorem follows_emit (d : Draft α) (event : Event α) : d.Follows (d.emit event) :=
  ⟨List.prefix_append _ _, fun _ h => h.emit event⟩

theorem follows_emitAll (d : Draft α) (events : List (Event α)) : d.Follows (d.emitAll events) :=
  Follows.foldl follows_emit d events

/-- Writing anything but the revision. -/
theorem follows_revise (d : Draft α) {f : Graph α → Graph α}
    (hf : ∀ g, (f g).revision = g.revision) : d.Follows (d.revise f) :=
  ⟨List.prefix_rfl, fun _ h => (hf d.graph).trans h⟩

/-- What is written without an event does not change the revision. -/
theorem follows_reviseNode (d : Draft α) (id : String) (f : Node α → Node α) :
    d.Follows (d.reviseNode id f) := d.follows_revise fun _ => rfl

theorem follows_addNode (d : Draft α) (node : Node α) : d.Follows (d.addNode node) :=
  d.follows_revise fun _ => rfl

theorem follows_dropNode (d : Draft α) (id : String) : d.Follows (d.dropNode id) :=
  d.follows_revise fun _ => rfl

theorem follows_addEdge (d : Draft α) (edge : Edge) : d.Follows (d.addEdge edge) :=
  d.follows_revise fun _ => rfl

theorem follows_dropEdges (d : Draft α) (test : Edge → Bool) : d.Follows (d.dropEdges test) :=
  d.follows_revise fun _ => rfl

theorem follows_discard (d : Draft α) (id : String) : d.Follows (d.discard id) := by
  unfold discard
  split
  · exact (d.follows_dropNode id).trans (follows_emit _ _)
  · exact .refl d

theorem follows_place (d : Draft α) (id : String) (position : Position α) :
    d.Follows (d.place id position) :=
  (d.follows_reviseNode id _).trans (follows_emit _ _)

theorem follows_putBack (d : Draft α) (edges : List Edge) : d.Follows (d.putBack edges) :=
  Follows.foldl (fun d edge => (d.follows_addEdge edge).trans (follows_emit _ _)) d edges

/-- The edges are taken away, the ports replaced and the edges put back. -/
theorem follows_refreshPorts (d : Draft α) (id : String) (remap : PortRemap) :
    d.Follows (d.refreshPorts id remap) := by
  unfold refreshPorts
  split
  · exact .refl d
  · refine Follows.trans ?_ (follows_putBack _ _)
    refine Follows.trans ?_ (follows_emit _ _)
    refine Follows.trans ?_ (follows_reviseNode _ _ _)
    exact (d.follows_dropEdges _).trans (follows_emitAll _ _)

theorem follows_resyncPorts (d : Draft α) (id : String) : d.Follows (d.resyncPorts id) := by
  unfold resyncPorts
  split
  · exact .refl d
  · exact d.follows_refreshPorts _ _

variable [Coordinate α]

/-- A node that is added is announced. -/
theorem follows_spawn (d : Draft α) (kind : Kind) (position : Position α)
    (cycle : Option String) : d.Follows (d.spawn kind position cycle).1 :=
  (d.follows_addNode (d.spawned kind position cycle)).trans (follows_emit _ _)

/-- Fitting tells of a new size, and says nothing if the size stays. -/
theorem follows_fitContainer (d : Draft α) (id : String) : d.Follows (d.fitContainer id) := by
  unfold fitContainer
  split
  · exact .refl d
  · dsimp only
    split
    · exact .refl d
    · exact (d.follows_reviseNode _ _).trans (follows_emit _ _)

theorem follows_fitEnclosing (d : Draft α) (cycle : Option String) :
    d.Follows (d.fitEnclosing cycle) := by
  unfold fitEnclosing
  split
  · exact d.follows_fitContainer _
  · exact .refl d

end Steps

/-! ## §2. Announced changes. -/

section Announcing

variable {α : Type}

/-- The revision has grown since `g` by the number of events, of which there
are some. -/
structure Announced (g : Graph α) (d : Draft α) : Prop where
  stamped : Stamped g d
  spoken : d.events ≠ []

/-- A change that has told one event has been announced. -/
theorem announced_emit {g : Graph α} {d : Draft α} (h : g.draft.Follows d) (event : Event α) :
    Announced g (d.emit event) where
  stamped := (h.stamped g (stamped_draft g)).emit event
  spoken := List.append_ne_nil_of_right_ne_nil _ (List.cons_ne_nil event [])

theorem Announced.follows {g : Graph α} {d d' : Draft α} (h : Announced g d)
    (hd : d.Follows d') : Announced g d' where
  stamped := hd.stamped g h.stamped
  spoken := fun hnone => h.spoken (List.prefix_nil.1 (hnone ▸ hd.events))

/-- Each event makes the revision greater, and there is one at least. -/
theorem Announced.revision_lt {g : Graph α} {d : Draft α} (h : Announced g d) :
    g.revision < d.graph.revision := by
  have hsome : 0 < d.events.length := List.length_pos_iff.2 h.spoken
  have hstamped : d.graph.revision = g.revision + d.events.length := h.stamped
  omega

/-- Of the nodes that are to go one is there, and that it goes is
announced. -/
theorem announced_foldl_discard {g : Graph α} {d : Draft α} (h : g.draft.Follows d) {id : String}
    (hthere : (d.graph.node? id).isSome) {ids : List String} (hid : id ∈ ids) :
    Announced g (ids.foldl discard d) := by
  induction ids with
  | nil => cases hid
  | cons other ids ih =>
      by_cases hother : (d.graph.node? other).isSome
      · have hdiscard : d.discard other = (d.dropNode other).emit (.nodeRemoved other) :=
          if_pos hother
        have hfirst : Announced g (d.discard other) :=
          hdiscard ▸ announced_emit (h.trans (d.follows_dropNode other)) _
        exact hfirst.follows (Follows.foldl follows_discard _ ids)
      · -- Nothing is dropped that is not there.
        have hdiscard : d.discard other = d := if_neg hother
        rw [List.foldl_cons, hdiscard]
        rcases List.mem_cons.1 hid with rfl | hrest
        · exact absurd hthere hother
        · exact ih hrest

end Announcing

end Draft

/-! ## §3. Every change is announced. -/

namespace Graph

section Announcing

variable {α : Type}

open Draft

theorem announced_setBranches (g : Graph α) (id key : String) (items : List Json)
    (remap : PortRemap) : Announced g (g.setBranches id key items remap) :=
  (announced_emit (follows_reviseNode _ _ _) _).follows (follows_refreshPorts _ _ _)

/-- There may be no edges to cut, but the node is there until it is
dropped. -/
theorem announced_without {g : Graph α} {node : Node α} (hnode : g.require node.id = .ok node) :
    Announced g (g.without (g.doomed node)) := by
  have hthere : (g.node? node.id).isSome := node?_of_require hnode ▸ rfl
  have hcut (cut : Edge → Bool) (events : List (Event α)) :
      g.draft.Follows ((g.draft.dropEdges cut).emitAll events) :=
    (follows_dropEdges _ _).trans (follows_emitAll _ _)
  have hdoomed : node.id ∈ g.doomed node :=
    List.mem_append_right _ (List.mem_singleton_self node.id)
  refine announced_foldl_discard (hcut _ _) ?_ hdoomed
  unfold node?
  rwa [emitAll_nodes]

variable [Coordinate α]

/-- **Every change that is applied is announced**, and the revision counts
the announcements. -/
theorem Applied.announced {g : Graph α} {made : Kind → Prop} {d : Draft α}
    (h : g.Applied made d) : Announced g d := by
  have hspawn (kind : Kind) (position : Position α) (cycle : Option String) :
      Announced g (g.draft.spawn kind position cycle).1 :=
    announced_emit (g.draft.follows_addNode (g.draft.spawned kind position cycle)) _
  have hwritten (id : String) (f : Node α → Node α) (event : Event α) :
      Announced g ((g.draft.reviseNode id f).emit event) :=
    announced_emit (follows_reviseNode _ _ _) event
  cases h with
  | added => exact (hspawn _ _ _).follows (follows_fitEnclosing _ _)
  | opened => exact (hspawn _ _ _).follows (follows_spawn _ _ _ _)
  | removed hnode => exact (announced_without hnode).follows (follows_fitEnclosing _ _)
  | connected =>
      have hcounted := g.draft.follows_revise
        (f := fun g => { g with edgeCounter := g.nextEdgeNumber }) fun _ => rfl
      exact announced_emit (hcounted.trans (follows_addEdge _ _)) _
  | cut => exact announced_emit (follows_dropEdges _ _) _
  | moved =>
      refine Announced.follows ?_ (follows_fitEnclosing _ _)
      refine Announced.follows ?_ (Follows.foldl (fun d _ => d.follows_place _ _) _ _)
      exact hwritten _ _ _
  | resized => exact (hwritten _ _ _).follows (follows_fitEnclosing _ _)
  | renamed => exact hwritten _ _ _
  | filled => exact hwritten _ _ _
  | resynced => exact (hwritten _ _ _).follows (follows_resyncPorts _ _)
  | branched => exact announced_setBranches g _ _ _ _
  | pruned => exact announced_setBranches g _ _ _ _
  | @redeclared vars =>
      have hset := g.draft.follows_revise (f := fun g => { g with vars := vars }) fun _ => rfl
      exact announced_emit hset _

end Announcing

/-! ## §4. A revision stands for one state. -/

section Runs

variable {α : Type} [Coordinate α]

/-- A change that leaves the revision as it was leaves the graph as it
was. -/
theorem after_eq_or_revision_lt (g : Graph α) (change : Edit α) :
    g.after change = g ∨ g.revision < (g.after change).revision := by
  unfold after
  split
  · rename_i d hok
    exact .inr (applied_edit hok).announced.revision_lt
  · exact .inl rfl

/-- Changes in turn, too. -/
theorem run_eq_or_revision_lt (g : Graph α) (changes : List (Edit α)) :
    g.run changes = g ∨ g.revision < (g.run changes).revision := by
  induction changes generalizing g with
  | nil => exact .inl rfl
  | cons change changes ih =>
      have hfirst := g.after_eq_or_revision_lt change
      have hrest := ih (g.after change)
      show (g.after change).run changes = g ∨ g.revision < ((g.after change).run changes).revision
      rcases hfirst with hsame | hmore
      · rwa [hsame] at hrest ⊢
      · refine .inr ?_
        rcases hrest with hsame' | hmore'
        · rwa [hsame']
        · exact hmore.trans hmore'

theorem run_append (g : Graph α) (changes more : List (Edit α)) :
    g.run (changes ++ more) = (g.run changes).run more := List.foldl_append

/-- **Two moments of a run with one revision are one state.** -/
theorem run_eq_of_revision_eq {g : Graph α} {changes : List (Edit α)} {i j : Nat}
    (h : (g.run (changes.take i)).revision = (g.run (changes.take j)).revision) :
    g.run (changes.take i) = g.run (changes.take j) := by
  wlog hle : i ≤ j generalizing i j with hswap
  · exact (hswap h.symm (Nat.le_of_not_le hle)).symm
  -- The later moment is reached from the earlier one.
  have hsplit : changes.take j = changes.take i ++ (changes.take j).drop i := by
    have hparts := List.take_append_drop i (changes.take j)
    rw [List.take_take, Nat.min_eq_left hle] at hparts
    exact hparts.symm
  rw [hsplit, run_append] at h ⊢
  rcases (g.run (changes.take i)).run_eq_or_revision_lt ((changes.take j).drop i) with hsame | hmore
  · exact hsame.symm
  · exact absurd h (Nat.ne_of_lt hmore)

end Runs

/-! ## §5. A cache beside one graph. -/

section Caching

variable {α : Type} [Coordinate α]

/-- What is done with one graph and a cache beside it. -/
inductive Use (α : Type) where
  | edit (change : Edit α)
  | get (id : String)
  | invalidate

/-- The calls of the cache: each is handed the graph as it is by then. -/
def calls (g : Graph α) : List (Use α) → List (ScopeCache.Call α)
  | [] => []
  | .edit change :: uses => (g.after change).calls uses
  | .get id :: uses => .get g id :: g.calls uses
  | .invalidate :: uses => .invalidate :: g.calls uses

/-- Every graph that the cache is handed is the one graph after some
changes. -/
theorem run_of_mem_calls {g g' : Graph α} {id : String} {uses : List (Use α)}
    (h : .get g' id ∈ g.calls uses) : ∃ changes, g' = g.run changes := by
  induction uses generalizing g with
  | nil => cases h
  | cons use uses ih =>
      cases use with
      | edit change =>
          obtain ⟨changes, rfl⟩ := ih h
          exact ⟨change :: changes, rfl⟩
      | get other =>
          rcases List.mem_cons.1 h with hfirst | hrest
          · cases hfirst
            exact ⟨[], rfl⟩
          · exact ih hrest
      | invalidate =>
          rcases List.mem_cons.1 h with hfirst | hrest
          · cases hfirst
          · exact ih hrest

/-- **The graphs that the cache is handed agree.** -/
theorem agree_calls (g : Graph α) (uses : List (Use α)) :
    (g.calls uses).Pairwise ScopeCache.Call.Agree := by
  induction uses generalizing g with
  | nil => exact .nil
  | cons use uses ih =>
      cases use with
      | edit change => exact ih (g.after change)
      | get id =>
          refine .cons (fun call hcall => ?_) (ih g)
          cases call with
          | get g' _ =>
              obtain ⟨changes, rfl⟩ := run_of_mem_calls hcall
              intro hrevision
              rcases g.run_eq_or_revision_lt changes with hsame | hmore
              · rw [hsame]
              · exact absurd hrevision (Nat.ne_of_lt hmore)
          | invalidate => trivial
      | invalidate => exact .cons (fun _ _ => trivial) (ih g)

/-- **The revision stamps what is done to a graph.**  Made in place, a change
that is refused leaves the graph as it was and is not announced, and one that
is applied raises the revision by the number of its events, of which there
are some.  So two moments of a run with one revision are one state, and a
cache beside the graph answers what the graph has to say. -/
theorem revision_faithful (g : Graph α) :
    (∀ change : Edit α, match change.perform.run g.draft with
      | .ok _ d => g.edit change = .ok d ∧ g.revision < d.graph.revision
          ∧ d.graph.revision = g.revision + d.events.length
      | .error cause d => g.edit change = .error cause ∧ d.graph = g ∧ d.events = [])
    ∧ (∀ (changes : List (Edit α)) (i j : Nat),
        (g.run (changes.take i)).revision = (g.run (changes.take j)).revision →
          g.run (changes.take i) = g.run (changes.take j))
    ∧ ∀ uses : List (Use α),
        ScopeCache.empty.answers (g.calls uses) = ScopeCache.truths (g.calls uses) := by
  refine ⟨fun change => ?_, fun changes i j h => run_eq_of_revision_eq h, fun uses => ?_⟩
  · rw [InPlace.run_perform]
    cases hedit : g.edit change with
    | ok d =>
        have hannounced := (applied_edit hedit).announced
        exact ⟨rfl, hannounced.revision_lt, hannounced.stamped⟩
    | error cause => exact ⟨rfl, rfl, rfl⟩
  · have hnone : ScopeCache.empty.revision = none := rfl
    have hfresh := ScopeCache.freshFor_of_revision_eq_none hnone (g.calls uses)
    exact hfresh.answers (g.agree_calls uses).isChain

/-- An edge is cut, and cutting it once more is refused: the revision stays, and
so does the graph.  A cache that was asked before the cut has forgotten it. -/
theorem revision_faithful_cut :
    let cut : Edit Rat := .disconnect "a-right-b"
    ∃ g v, ScopeCache.linked.toGraph .standard = .ok g
      ∧ (g.run ([cut, cut].take 1)).revision = (g.run ([cut, cut].take 2)).revision
      ∧ g.run ([cut, cut].take 1) = g.run ([cut, cut].take 2)
      ∧ ScopeCache.empty.answers (g.calls [.get "b", .edit cut, .edit cut, .get "b"])
        = [.ok [v], .ok []] := by
  intro cut
  have hrun : (ScopeCache.linked.toGraph .standard).toOption.map (fun g =>
      ((g.run [cut]).revision == (g.run [cut, cut]).revision, (g.resolve "b").toOption,
        ((g.run [cut, cut]).resolve "b").toOption))
      = some (true, some [.named "a" "output" .string ⟨"a", "LLM", some .llm⟩], some []) := by
    decide +kernel
  obtain ⟨g, hg, hrun⟩ := Option.map_eq_some_iff.1 hrun
  obtain ⟨hrevision, hscopes⟩ := Prod.mk.inj hrun
  obtain ⟨hscope, hscope'⟩ := Prod.mk.inj hscopes
  have hresolve := toOption_eq_some_iff.1 hscope
  have hresolve' := toOption_eq_some_iff.1 hscope'
  have hsame : (g.run ([cut, cut].take 1)).revision = (g.run ([cut, cut].take 2)).revision :=
    eq_of_beq hrevision
  have hfaithful := revision_faithful g
  have hanswers := hfaithful.2.2 [.get "b", .edit cut, .edit cut, .get "b"]
  have htruths : ScopeCache.truths (g.calls [.get "b", .edit cut, .edit cut, .get "b"])
      = [g.resolve "b", (g.run [cut, cut]).resolve "b"] := rfl
  rw [htruths, hresolve, hresolve'] at hanswers
  exact ⟨g, _, toOption_eq_some_iff.1 hg, hsame, hfaithful.2.1 _ 1 2 hsame, hanswers⟩

end Caching

end Graph

end WorkflowEditor
