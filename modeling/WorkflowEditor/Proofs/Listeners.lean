/-
  WorkflowEditor.Proofs.Listeners
  ───────────────────────────────
  **LISTENERS HEAR WHAT IS ANNOUNCED WHILE THEY LISTEN.**

  Beside changes there are listeners that come and go.  A listener hears
  every event from its coming to its going, and no number is given to two
  listeners; so what two of them hear comes in one order.

    • `audience_after` — no change adds or drops a listener,
    • `heard_deliveries` — each listener is told each event once,
    • `heard_of_listening`, `heard_of_absent` — who listens hears all, and
      who does not hears nothing,
    • `heard_between` — so a listener hears what was announced in between,
    • `mirrored_emissions` — from all events a mirror knows the graph,
    • `heard_describes` — and so does who has listened from the start.
-/
import WorkflowEditor.Proofs.Mirror

namespace WorkflowEditor

/-! ## §1. No change adds or drops a listener. -/

/-- Who listens, and the number of who comes next. -/
def Graph.audience {α : Type} (g : Graph α) : List Nat × Nat := (g.listeners, g.nextListener)

theorem Graph.audience_after {α : Type} [Coordinate α] (g : Graph α) (change : Edit α) :
    (g.after change).audience = g.audience := by
  show (g.after change).untouched.audience = g.untouched.audience
  rw [g.untouched_after change]

/-! ## §2. Changes, and listeners that come and go. -/

/-- What is done with a graph that is listened to. -/
inductive Action (α : Type) where
  | edit (change : Edit α)
  | subscribe
  | unsubscribe (listener : Nat)

namespace Graph

variable {α : Type} [Coordinate α]

/-- The graph after an action. -/
def act (g : Graph α) : Action α → Graph α
  | .edit change => g.after change
  | .subscribe => g.subscribe.1
  | .unsubscribe listener => (g.unsubscribe listener).1

/-- The graph after actions in turn. -/
def perform (g : Graph α) (acts : List (Action α)) : Graph α := acts.foldl act g

/-- What an action announces. -/
def announced (g : Graph α) : Action α → List (Event α)
  | .edit change =>
      match g.edit change with
      | .ok d => d.events
      | .error _ => []
  | .subscribe | .unsubscribe _ => []

/-- All that actions in turn announce. -/
def emissions (g : Graph α) : List (Action α) → List (Event α)
  | [] => []
  | action :: acts => g.announced action ++ (g.act action).emissions acts

/-- Who is told what by actions in turn. -/
def log (g : Graph α) : List (Action α) → List (Nat × Event α)
  | [] => []
  | action :: acts => g.deliveries (g.announced action) ++ (g.act action).log acts

theorem perform_append (g : Graph α) (acts more : List (Action α)) :
    g.perform (acts ++ more) = (g.perform acts).perform more := List.foldl_append

theorem emissions_append (g : Graph α) (acts more : List (Action α)) :
    g.emissions (acts ++ more) = g.emissions acts ++ (g.perform acts).emissions more := by
  induction acts generalizing g with
  | nil => rfl
  | cons action acts ih =>
      show g.announced action ++ (g.act action).emissions (acts ++ more) = _
      rw [ih]
      exact (List.append_assoc _ _ _).symm

theorem log_append (g : Graph α) (acts more : List (Action α)) :
    g.log (acts ++ more) = g.log acts ++ (g.perform acts).log more := by
  induction acts generalizing g with
  | nil => rfl
  | cons action acts ih =>
      show g.deliveries (g.announced action) ++ (g.act action).log (acts ++ more) = _
      rw [ih]
      exact (List.append_assoc _ _ _).symm

end Graph

/-! ## §3. What a listener hears. -/

section Hearing

variable {α : Type}

/-- What one listener is told. -/
def heard (listener : Nat) (log : List (Nat × Event α)) : List (Event α) :=
  log.filterMap fun told => if told.1 = listener then some told.2 else none

theorem heard_append (listener : Nat) (log more : List (Nat × Event α)) :
    heard listener (log ++ more) = heard listener log ++ heard listener more :=
  List.filterMap_append

/-- One event goes to each listener once. -/
theorem heard_event {listeners : List Nat} (h : listeners.Nodup) (listener : Nat)
    (event : Event α) :
    heard listener (listeners.map fun other => (other, event))
      = if listener ∈ listeners then [event] else [] := by
  induction listeners with
  | nil => rfl
  | cons other listeners ih =>
      obtain ⟨hnew, h⟩ := List.nodup_cons.1 h
      have hrest := ih h
      unfold heard at hrest ⊢
      rw [List.map_cons, List.filterMap_cons, hrest]
      by_cases hsame : other = listener
      · subst hsame
        simp [hnew]
      · simp [hsame, Ne.symm hsame]

/-- **Who listens is told every event, and who does not is told none.** -/
theorem heard_deliveries {g : Graph α} (h : g.listeners.Nodup) (listener : Nat)
    (events : List (Event α)) :
    heard listener (g.deliveries events) = if listener ∈ g.listeners then events else [] := by
  induction events with
  | nil => exact (ite_self _).symm
  | cons event events ih =>
      unfold Graph.deliveries at ih ⊢
      rw [List.flatMap_cons, heard_append, ih, heard_event h]
      split <;> rfl

/-- Listeners have numbers of their own, and the next one is free. -/
structure Graph.Attended (g : Graph α) : Prop where
  nodup : g.listeners.Nodup
  below : ∀ listener ∈ g.listeners, listener < g.nextListener

variable [Coordinate α] {g : Graph α}

theorem listeners_after (g : Graph α) (change : Edit α) :
    (g.after change).listeners = g.listeners := congrArg Prod.fst (g.audience_after change)

theorem nextListener_after (g : Graph α) (change : Edit α) :
    (g.after change).nextListener = g.nextListener := congrArg Prod.snd (g.audience_after change)

/-- An action keeps numbers distinct. -/
theorem Graph.Attended.act (h : g.Attended) (action : Action α) : (g.act action).Attended := by
  cases action with
  | edit change =>
      constructor
      case nodup => exact (listeners_after g change).symm ▸ h.nodup
      case below =>
          show ∀ listener ∈ (g.after change).listeners, listener < (g.after change).nextListener
          rw [listeners_after, nextListener_after]
          exact h.below
  | subscribe =>
      constructor
      case nodup =>
          refine h.nodup.append (List.nodup_singleton _) fun other hother hnew => ?_
          rw [List.mem_singleton.1 hnew] at hother
          exact Nat.lt_irrefl _ (h.below _ hother)
      case below =>
          intro other hother
          rcases List.mem_append.1 hother with hold | hnew
          · exact Nat.lt_succ_of_lt (h.below other hold)
          · exact List.mem_singleton.1 hnew ▸ Nat.lt_succ_self _
  | unsubscribe listener =>
      exact ⟨h.nodup.filter _, fun other hother => h.below other (List.mem_filter.1 hother).1⟩

theorem Graph.Attended.perform (h : g.Attended) (acts : List (Action α)) :
    (g.perform acts).Attended := by
  induction acts generalizing g with
  | nil => exact h
  | cons action acts ih => exact ih (h.act action)

/-- Numbers only grow. -/
theorem nextListener_act_le (g : Graph α) (action : Action α) :
    g.nextListener ≤ (g.act action).nextListener := by
  cases action with
  | edit change => exact Nat.le_of_eq (nextListener_after g change).symm
  | subscribe => exact Nat.le_succ _
  | unsubscribe listener => exact Nat.le_refl _

theorem nextListener_perform_le (g : Graph α) (acts : List (Action α)) :
    g.nextListener ≤ (g.perform acts).nextListener := by
  induction acts generalizing g with
  | nil => exact Nat.le_refl _
  | cons action acts ih => exact Nat.le_trans (nextListener_act_le g action) (ih _)

/-- A listener stays until it goes. -/
theorem mem_listeners_act {listener : Nat} (h : listener ∈ g.listeners) {action : Action α}
    (hstay : action ≠ .unsubscribe listener) : listener ∈ (g.act action).listeners := by
  cases action with
  | edit change => exact (listeners_after g change).symm ▸ h
  | subscribe => exact List.mem_append_left _ h
  | unsubscribe other =>
      refine List.mem_filter.2 ⟨h, bne_iff_ne.2 ?_⟩
      exact fun hsame => hstay (hsame ▸ rfl)

/-- **Who listens hears all.** -/
theorem heard_of_listening (h : g.Attended) {listener : Nat} (hlistens : listener ∈ g.listeners)
    {acts : List (Action α)} (hstay : .unsubscribe listener ∉ acts) :
    heard listener (g.log acts) = g.emissions acts := by
  induction acts generalizing g with
  | nil => rfl
  | cons action acts ih =>
      rw [List.mem_cons, not_or] at hstay
      have hrest := ih (h.act action) (mem_listeners_act hlistens (Ne.symm hstay.1)) hstay.2
      unfold Graph.log Graph.emissions
      rw [heard_append, heard_deliveries h.nodup, if_pos hlistens, hrest]

/-- **Who does not listen hears nothing**, be it that its number was given
before or that it is still to be given. -/
theorem heard_of_absent (h : g.Attended) {listener : Nat} (habsent : listener ∉ g.listeners)
    {acts : List (Action α)}
    (hnever : listener < g.nextListener ∨ (g.perform acts).nextListener ≤ listener) :
    heard listener (g.log acts) = [] := by
  induction acts generalizing g with
  | nil => rfl
  | cons action acts ih =>
      have hnever' : listener < (g.act action).nextListener
          ∨ ((g.act action).perform acts).nextListener ≤ listener :=
        hnever.imp_left fun hgiven => Nat.lt_of_lt_of_le hgiven (nextListener_act_le g action)
      have habsent' : listener ∉ (g.act action).listeners := by
        cases action with
        | edit change => exact (listeners_after g change).symm ▸ habsent
        | subscribe =>
            -- The number that is given now is not the one of the listener.
            refine fun hmem => (List.mem_append.1 hmem).elim habsent fun hnew => ?_
            obtain rfl := List.mem_singleton.1 hnew
            rcases hnever with hgiven | hlater
            · exact Nat.lt_irrefl _ hgiven
            · have hnext := nextListener_perform_le (g.act .subscribe) acts
              exact Nat.not_succ_le_self _ (Nat.le_trans hnext hlater)
        | unsubscribe other => exact fun hmem => habsent (List.mem_filter.1 hmem).1
      unfold Graph.log
      have hrest := ih (h.act action) habsent' hnever'
      rw [heard_append, heard_deliveries h.nodup, if_neg habsent, hrest]
      rfl

/-- **A listener hears what is announced from its coming to its going.** -/
theorem heard_between (h : g.Attended) {before during rest : List (Action α)} {listener : Nat}
    (hcomes : (g.perform before).subscribe.2 = listener) (hstay : .unsubscribe listener ∉ during)
    (hgoes : rest = [] ∨ ∃ later, rest = .unsubscribe listener :: later) :
    heard listener (g.log (before ++ .subscribe :: during ++ rest))
      = (g.perform (before ++ [.subscribe])).emissions during := by
  let here := g.perform (before ++ [.subscribe])
  have hhere : here = (g.perform before).act .subscribe := g.perform_append before [.subscribe]
  have hparts : g.log (before ++ .subscribe :: during ++ rest)
      = g.log before ++ here.log during ++ (here.perform during).log rest := by
    have hlist : before ++ .subscribe :: during ++ rest
        = before ++ [.subscribe] ++ during ++ rest := by simp
    rw [hlist, Graph.log_append, Graph.log_append, Graph.log_append, ← Graph.perform_append]
    have hquiet : (g.perform before).log [.subscribe] = [] := rfl
    rw [hquiet, List.append_nil]
  have hbefore : heard listener (g.log before) = [] := by
    have hfree : g.nextListener ≤ listener := hcomes ▸ nextListener_perform_le g before
    refine heard_of_absent h (fun hmem => ?_) (.inr (Nat.le_of_eq hcomes))
    exact Nat.lt_irrefl _ (Nat.lt_of_lt_of_le (h.below listener hmem) hfree)
  have hhereAttended : here.Attended := h.perform _
  have hlistens : listener ∈ here.listeners := by
    rw [hhere, ← hcomes]
    exact List.mem_append_right _ List.mem_cons_self
  have hrest : heard listener ((here.perform during).log rest) = [] := by
    rcases hgoes with rfl | ⟨later, rfl⟩
    · rfl
    -- Once it has gone its number is not given again.
    let gone := (here.perform during).act (.unsubscribe listener)
    show heard listener (gone.log later) = []
    have hgiven : listener < gone.nextListener :=
      Nat.lt_of_lt_of_le (hhereAttended.below listener hlistens)
        (nextListener_perform_le here during)
    refine heard_of_absent ((hhereAttended.perform during).act _) (fun hmem => ?_) (.inl hgiven)
    have hkept : listener != listener := (List.mem_filter.1 hmem).2
    exact absurd rfl (bne_iff_ne.1 hkept)
  rw [hparts, heard_append, heard_append, hbefore, hrest,
    heard_of_listening hhereAttended hlistens hstay, List.append_nil, List.nil_append]

end Hearing

/-! ## §4. What a listener knows. -/

section Knowing

variable {α : Type} [Coordinate α]

/-- **From all events a mirror knows the graph.** -/
theorem mirrored_emissions {m : Mirror α} {g : Graph α} (h : m.Shows g)
    (hedges : (g.edges.map Edge.id).Nodup) (acts : List (Action α)) :
    m.Fits (g.emissions acts) ∧ (m.replay (g.emissions acts)).Shows (g.perform acts) := by
  induction acts generalizing m g with
  | nil => exact ⟨trivial, h⟩
  | cons action acts ih =>
      have hfirst : m.Fits (g.announced action)
          ∧ (m.replay (g.announced action)).Shows (g.act action)
          ∧ ((g.act action).edges.map Edge.id).Nodup := by
        cases action with
        | edit change =>
            unfold Graph.announced Graph.act Graph.after
            dsimp only
            cases hok : g.edit change with
            | ok d =>
                have happlied := Graph.applied_edit hok
                have hmirrored := Mirrored.applied h hedges happlied
                exact ⟨hmirrored.fits, hmirrored.shows, happlied.edges.nodup_ids hedges⟩
            | error => exact ⟨trivial, h, hedges⟩
        | subscribe => exact ⟨trivial, ⟨h.nodes, h.edges, h.positions, h.sizes⟩, hedges⟩
        | unsubscribe => exact ⟨trivial, ⟨h.nodes, h.edges, h.positions, h.sizes⟩, hedges⟩
      obtain ⟨hfits, hshows, hedges'⟩ := hfirst
      obtain ⟨hfits', hshows'⟩ := ih hshows hedges'
      unfold Graph.emissions
      rw [Mirror.fits_append, Mirror.replay_append]
      exact ⟨⟨hfits, hfits'⟩, hshows'⟩

/-- **The events describe the graph.**  Whatever is done to a graph without
nodes, refused changes and other listeners included: who listens from the
start can tell from what it hears alone which nodes and edges there are, and
of each node the place and the size that were told since it was added; never
is added what is there, or removed what is not.  And any other listener hears
what is announced from its coming to its going, which is a part of the
same. -/
theorem heard_describes (settings : Settings α) {acts : List (Action α)}
    (hstay : .unsubscribe 0 ∉ acts) :
    let start := Graph.empty settings
    let all := .subscribe :: acts
    let told := heard 0 (start.log all)
    (Mirror.blank.Fits told ∧ (Mirror.blank.replay told).Shows (start.perform all))
    ∧ ∀ before during rest, all = before ++ .subscribe :: during ++ rest →
      let listener := (start.perform before).subscribe.2
      .unsubscribe listener ∉ during →
      (rest = [] ∨ ∃ later, rest = .unsubscribe listener :: later) →
        heard listener (start.log all)
          = (start.perform (before ++ [.subscribe])).emissions during
        ∧ heard listener (start.log all) <:+: told := by
  intro start all told
  have hstart : start.Attended := ⟨List.nodup_nil, fun _ hnone => nomatch hnone⟩
  let attended := start.perform [.subscribe]
  have htold : told = attended.emissions acts := by
    have hall : all = [] ++ .subscribe :: acts ++ [] := (List.append_nil _).symm
    show heard 0 (start.log all) = _
    rw [hall]
    exact heard_between hstart rfl hstay (.inl rfl)
  have hwhole : told = start.emissions all := htold
  constructor
  · rw [hwhole]
    exact mirrored_emissions (g := start) (Mirror.shows_blank rfl rfl) List.nodup_nil all
  · intro before during rest hall listener hlistens hgoes
    have hheard : heard listener (start.log all)
        = (start.perform (before ++ [.subscribe])).emissions during := by
      rw [hall]
      exact heard_between hstart rfl hlistens hgoes
    refine ⟨hheard, ?_⟩
    -- All announcements are those before, those in between and those after.
    have hlist : all = (before ++ [.subscribe]) ++ during ++ rest := by
      rw [hall]
      simp
    rw [hheard, hwhole, hlist, Graph.emissions_append, Graph.emissions_append]
    exact List.infix_append _ _ _

/-- A listener from the start, and another one that hears how a container is
opened and moved, but not what comes after it has gone; a container in a
container is refused. -/
theorem heard_describes_opened :
    let start : Graph Rat := .empty .standard
    let acts : List (Action Rat) :=
      [.edit (.addNode .llm ⟨900, 0⟩), .subscribe, .edit (.addNode .loop ⟨0, 0⟩),
        .edit (.addNode .iteration ⟨60, 100⟩), .edit (.moveNode "loop_1" ⟨50, 0⟩), .unsubscribe 1,
        .edit (.removeNode "loop_1")]
    let told := heard 0 (start.log (.subscribe :: acts))
    .unsubscribe 0 ∉ acts
      ∧ Mirror.blank.Fits told
      ∧ (Mirror.blank.replay told).Shows (start.perform (.subscribe :: acts))
      ∧ (Mirror.blank.replay told).nodes = ["llm_1"]
      ∧ heard 1 (start.log (.subscribe :: acts)) <:+: told
      ∧ (heard 1 (start.log (.subscribe :: acts))).length = 4 ∧ told.length = 7 := by
  intro start acts told
  have hstay : .unsubscribe 0 ∉ acts := by simp [acts]
  obtain ⟨⟨hfits, hshows⟩, hothers⟩ := heard_describes .standard hstay
  have hother := hothers [.subscribe, .edit (.addNode .llm ⟨900, 0⟩)]
    [.edit (.addNode .loop ⟨0, 0⟩), .edit (.addNode .iteration ⟨60, 100⟩),
      .edit (.moveNode "loop_1" ⟨50, 0⟩)] _ rfl (by simp) (.inr ⟨_, rfl⟩)
  exact ⟨hstay, hfits, hshows, by decide +kernel, hother.2, by decide +kernel, by decide +kernel⟩

end Knowing

end WorkflowEditor
