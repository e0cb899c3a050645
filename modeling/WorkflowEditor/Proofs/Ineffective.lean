/-
  WorkflowEditor.Proofs.Ineffective
  ─────────────────────────────────
  **REPORTS WITHOUT AN EFFECT.**

  A trace answers for each report whether it had any effect.  It has none once
  the run is over, and an event has none if its name is not known or if it is
  the end or the error of a node without an entry.  Such a report leaves the
  trace as it was, unless it is the first that a trace of no run is told: the
  run counts as streaming from then on.

    • `Trace.apply_snd_eq_false_iff` — which events have no effect,
    • `Trace.receive_of_ineffective` — they leave a run that has begun as it
      was,
    • `Trace.status_receive_ne_idle` — with the first report a run has begun,
    • `Trace.after_effective` — what had no effect may be left out of a run,
    • `Trace.ineffective_unchanged` — so much holds of every trace,
    • `Trace.apply_idle_ghost` — an event without an effect that changes the
      trace.
-/
import WorkflowEditor.Proofs.Interleaving

namespace WorkflowEditor.Run

/-! ## §1. Events that find nothing. -/

/-- An event has nothing to write to. -/
def Event.Misses (t : Trace) : Event → Prop
  | .nodeEnd nodeId .. | .nodeError nodeId .. => t.node? nodeId = none
  | .ignored _ => True
  | .workflowStart .. | .message .. | .nodeStart .. | .workflowEnd .. | .failure _ => False

namespace Trace

variable {t : Trace}

theorem take_of_misses {event : Event} (h : event.Misses t) : t.take event = (t, false) := by
  cases event with
  | nodeEnd | nodeError =>
      refine if_neg ?_
      rw [Option.not_isSome_iff_eq_none]
      exact h
  | ignored => rfl
  | workflowStart | message | nodeStart | workflowEnd | failure => cases h

/-- An event has an effect unless it has nothing to write to. -/
theorem take_snd_of_not_misses {event : Event} (h : ¬ event.Misses t) :
    (t.take event).2 = true := by
  cases event with
  | nodeEnd nodeId | nodeError nodeId =>
      have hknown : (t.node? nodeId).isSome := by
        rw [Option.isSome_iff_ne_none]
        exact h
      unfold take
      dsimp only
      rw [if_pos hknown]
  | ignored => exact absurd trivial h
  | workflowStart | message | nodeStart | workflowEnd | failure => rfl

/-- Whether there is something to write to does not depend on the status. -/
theorem misses_status (event : Event) (status : Status) :
    event.Misses { t with status := status } ↔ event.Misses t := by
  cases event <;> exact Iff.rfl

/-- **Which events have no effect.** -/
theorem apply_snd_eq_false_iff {event : Event} :
    (t.apply event).2 = false ↔ t.status.isOver ∨ event.Misses t := by
  unfold apply
  by_cases hover : t.status.isOver
  · rw [if_pos hover]
    exact iff_of_true rfl (.inl hover)
  rw [if_neg hover, ← misses_status event .streaming]
  by_cases hmisses : event.Misses { t with status := .streaming }
  · rw [take_of_misses hmisses]
    exact iff_of_true rfl (.inr hmisses)
  · rw [take_snd_of_not_misses hmisses]
    exact iff_of_false (Bool.noConfusion) (not_or_intro hover hmisses)

/-- A trace that an event has no effect on counts as streaming from then on, if
the run is not over. -/
theorem apply_of_misses {event : Event} (hopen : ¬ t.status.isOver) (h : event.Misses t) :
    (t.apply event).1 = { t with status := .streaming } := by
  unfold apply
  rw [if_neg hopen, take_of_misses ((misses_status event .streaming).2 h)]

/-! ## §2. Runs that have begun. -/

/-- **A report without an effect leaves a run that has begun as it was.** -/
theorem receive_of_ineffective (hbegun : t.status ≠ .idle) {report : Report}
    (h : (t.receive report).2 = false) : (t.receive report).1 = t := by
  by_cases hover : t.status.isOver
  · rw [receive_of_isOver hover]
  cases report with
  | failure raw =>
      -- A failure has an effect on every run that is not over.
      have hfail : (t.receive (.failure raw)).2 = true := by
        show (t.fail raw).2 = true
        unfold fail
        rw [if_neg hover]
      rw [hfail] at h
      cases h
  | event event =>
      have hmisses : event.Misses t := (apply_snd_eq_false_iff.1 h).resolve_left hover
      refine (apply_of_misses hover hmisses).trans ?_
      -- Counting as streaming changes nothing, for the run is streaming already.
      have hstreaming : t.status = .streaming := by
        cases hstatus : t.status with
        | idle => exact absurd hstatus hbegun
        | streaming => rfl
        | completed | failed => exact absurd (congrArg Status.isOver hstatus) hover
      rw [← hstreaming]

/-- **With its first report a run has begun**, and it stays so. -/
theorem status_receive_ne_idle (t : Trace) {report : Report} (hgenuine : report.Genuine) :
    (t.receive report).1.status ≠ .idle := by
  by_cases hover : t.status.isOver
  · rw [receive_of_isOver hover]
    intro hidle
    rw [hidle] at hover
    cases hover
  cases report with
  | failure raw =>
      show (t.fail raw).1.status ≠ .idle
      unfold fail
      rw [if_neg hover]
      exact nofun
  | event event =>
      show (t.apply event).1.status ≠ .idle
      unfold apply
      rw [if_neg hover]
      by_cases hgoing : event.ends
      · cases event with
        | workflowEnd status error elapsed =>
            have hends : status.isOver := (hgenuine _ rfl).isOver
            show status ≠ .idle
            rintro rfl
            cases hends
        | failure => exact nofun
        | workflowStart | message | nodeStart | nodeEnd | nodeError | ignored => cases hgoing
      · rw [(open_take _ hgoing).1]
        exact nofun

theorem status_after_ne_idle {start : Trace} (hstart : start = .idle ∨ start = .streaming)
    {reports : List Report} (hgenuine : ∀ report ∈ reports, report.Genuine)
    (h : start = .streaming ∨ reports ≠ []) : (start.after reports).status ≠ .idle := by
  induction reports using List.reverseRecOn with
  | nil =>
      obtain rfl := h.resolve_right fun hsome => hsome rfl
      exact nofun
  | append_singleton reports report ih =>
      rw [after_concat]
      exact status_receive_ne_idle _ (hgenuine report (by simp))

/-! ## §3. Leaving out what has no effect. -/

/-- **What has no effect may be left out of a run that has begun.** -/
theorem after_effective (hbegun : t.status ≠ .idle) {reports : List Report}
    (hgenuine : ∀ report ∈ reports, report.Genuine) :
    t.after (t.effective reports) = t.after reports := by
  induction reports generalizing t with
  | nil => rfl
  | cons report reports ih =>
      have hnext : (t.receive report).1.after ((t.receive report).1.effective reports)
          = (t.receive report).1.after reports :=
        ih (t.status_receive_ne_idle (hgenuine report List.mem_cons_self))
          fun other hother => hgenuine other (List.mem_cons_of_mem _ hother)
      have heffective : t.effective (report :: reports)
          = if (t.receive report).2 then report :: (t.receive report).1.effective reports
            else (t.receive report).1.effective reports := rfl
      rw [heffective]
      split
      · exact hnext
      · rename_i hnot
        show t.after _ = (t.receive report).1.after reports
        rw [receive_of_ineffective hbegun (Bool.eq_false_iff.2 hnot)] at hnext ⊢
        exact hnext

/-- The first report makes of a trace of no run what it makes of a run that was
asked for. -/
theorem after_idle {reports : List Report} (h : reports ≠ []) :
    idle.after reports = streaming.after reports := by
  cases reports with
  | nil => exact absurd rfl h
  | cons report reports =>
      -- Both runs are open, and all else that a report reads is the same in them.
      have hfirst : (idle.receive report).1 = (streaming.receive report).1 := by
        cases report <;> rfl
      show (idle.receive report).1.after reports = (streaming.receive report).1.after reports
      rw [hfirst]

/-- **A report without an effect.**  An event has none exactly if the run is over
or there is nothing that it could write to.  Then the trace is what it was, with
one exception: a trace of no run that was told nothing yet counts as streaming.
So once a run was told anything, its trace is that of a run that was only told
what had an effect. -/
theorem ineffective_unchanged {start : Trace} (hstart : start = .idle ∨ start = .streaming)
    {reports : List Report} (hgenuine : ∀ report ∈ reports, report.Genuine) (event : Event) :
    let t := start.after reports
    ((t.apply event).2 = false ↔ t.status.isOver ∨ event.Misses t)
      ∧ ((t.apply event).2 = false →
        (start = .streaming ∨ reports ≠ [] → (t.apply event).1 = t)
        ∧ (start = .idle → reports = [] → (t.apply event).1 = .streaming))
      ∧ (reports ≠ [] → t = streaming.after (streaming.effective reports)) := by
  intro t
  refine ⟨apply_snd_eq_false_iff, fun h => ⟨fun hbegun => ?_, ?_⟩, fun hsome => ?_⟩
  · have hstatus : t.status ≠ .idle := status_after_ne_idle hstart hgenuine hbegun
    have hnone : (t.receive (.event event)).2 = false := h
    exact receive_of_ineffective hstatus hnone
  · rintro rfl rfl
    have hopen : ¬ (idle.after []).status.isOver := Bool.false_ne_true
    exact apply_of_misses hopen ((apply_snd_eq_false_iff.1 h).resolve_left hopen)
  · have hbegun : streaming.status ≠ .idle := nofun
    rw [after_effective hbegun hgenuine]
    rcases hstart with rfl | rfl
    · exact after_idle hsome
    · rfl

/-- A trace of no run is told of a name that is not known, and then that a node
has ended that was not started. -/
theorem ineffective_unchanged_begun :
    let ping := Report.event (.ignored "ping")
    let ghost := Event.nodeEnd "ghost" .null .null none none
    let t := Trace.idle.after [ping]
    (∀ report ∈ [ping], report.Genuine) ∧ (t.apply ghost).2 = false ∧ (t.apply ghost).1 = t
      ∧ t = .streaming := by
  intro ping ghost t
  have hgenuine : ∀ report ∈ [ping], report.Genuine := by
    intro report hreport event hevent
    obtain rfl := List.mem_singleton.1 hreport
    obtain rfl : Event.ignored "ping" = event := Report.event.inj hevent
    exact ⟨"ping", "", by cbv⟩
  obtain ⟨hiff, hsame, hleft⟩ := ineffective_unchanged (.inl rfl) hgenuine ghost
  have hnone : (t.apply ghost).2 = false := hiff.2 (.inr rfl)
  exact ⟨hgenuine, hnone, (hsame hnone).1 (.inr (List.cons_ne_nil _ _)),
    hleft (List.cons_ne_nil _ _)⟩

/-- **An event without an effect changes a trace**: it is the first that a trace
of no run is told. -/
theorem apply_idle_ghost :
    let ghost := Event.nodeEnd "ghost" .null .null none none
    ghost.Decoded ∧ (Trace.idle.apply ghost).2 = false
      ∧ (Trace.idle.apply ghost).1.status = .streaming ∧ (Trace.idle.apply ghost).1 ≠ .idle := by
  intro ghost
  have hdecoded : ghost.Decoded := ⟨"node_end", "\x7b\"node_id\": \"ghost\"\x7d", by cbv⟩
  have hstatus : (Trace.idle.apply ghost).1.status = .streaming := rfl
  refine ⟨hdecoded, rfl, hstatus, fun hsame => ?_⟩
  rw [hsame] at hstatus
  cases hstatus

end Trace

end WorkflowEditor.Run
