/-
  WorkflowEditor.Proofs.ChatText
  ──────────────────────────────
  **THE TEXT OF A CHAT ENTRY AND THAT OF ITS RUN.**

  What is displayed of a run has one place for what went wrong outside it
  and for the entries of its nodes, and another one for its error.  Put into
  text again, the first place tells all that the run shows there, and the
  second one is left out:

    • `Trace.text_eq` — the text of a run part by part,
    • `Item.text_ofTrace` — of an entry all of it is there but the time that
      the run took and its error,
    • `Trace.error_after` — a run has an error if the report that ended it
      told of one,
    • `Item.text_complete_iff` — so this is when nothing but the time is
      left out,
    • `Item.text_without_error` — an entry that does not tell why its run
      failed.
-/
import WorkflowEditor.Proofs.Interleaving
import WorkflowEditor.Run.Format

namespace WorkflowEditor.Run

/-! ## §1. The text of a run. -/

namespace Trace

variable {t : Trace}

/-- The line on the run and the tree below it. -/
def headText (t : Trace) : String :=
  "Run " ++ t.status.name ++ ((t.elapsed.map fun x => " in " ++ seconds x).getD "") ++ "\n"
    ++ (match t.failure with
      | some raw => "└── error: " ++ valueText raw ++ "\n"
      | none => treeLines t.nodes)

/-- The line on the error of a run. -/
def errorText (t : Trace) : String :=
  (t.error.map fun error => "Error: " ++ valueText error ++ "\n").getD ""

/-- The line on the answer of a run. -/
def answerText (t : Trace) : String :=
  (t.content.map fun content => "Answer: " ++ content ++ "\n").getD ""

theorem text_eq (t : Trace) : t.text = t.headText ++ t.errorText ++ t.answerText := rfl

theorem errorText_eq_empty_iff : t.errorText = "" ↔ t.error = none := by
  unfold errorText
  cases t.error with
  | none => simp
  | some error =>
      refine iff_of_false (fun hempty => ?_) nofun
      have hlength := congrArg String.length hempty
      simp [String.length_append] at hlength

/-- **The error of a run is seen in its text.** -/
theorem text_quiet_iff : ({ t with error := none } : Trace).text = t.text ↔ t.error = none := by
  have hquiet : ({ t with error := none } : Trace).text = t.headText ++ "" ++ t.answerText := rfl
  rw [hquiet, text_eq, ← errorText_eq_empty_iff, String.append_left_inj, String.append_right_inj,
    eq_comm]

end Trace

/-! ## §2. The text of an entry. -/

/-- **An entry shows all of its run but the time that it took and its error.**
Where the run shows what went wrong instead of its nodes, so does the entry. -/
theorem Item.text_ofTrace (t : Trace) :
    (ofTrace t).text = ({ t with elapsed := none, error := none } : Trace).text := by
  obtain ⟨status, content, nodes, error, failure, executionId, conversationId, elapsed⟩ := t
  cases failure with
  | none => rfl
  | some raw => rfl

/-! ## §3. The error of a run. -/

namespace Report

/-- Whether a report ends a run that is not over. -/
def ends : Report → Bool
  | .event told => told.ends
  | .failure _ => true

/-- The error that a run ends with, as a report tells of it. -/
def runError? : Report → Option Json
  | .event (.workflowEnd _ error _) => error
  | _ => none

end Report

namespace Trace

variable {t : Trace}

/-- A report that ends a run without an error brings the error it tells of. -/
theorem receive_of_ends (hopen : ¬ t.status.isOver) (hquiet : t.error = none) {report : Report}
    (hgenuine : report.Genuine) (hends : report.ends) :
    (t.receive report).1.status.isOver ∧ (t.receive report).1.error = report.runError? := by
  have hfail (raw : Json) : (t.receive (.failure raw)).1
      = { t with status := .failed, content := none, failure := some raw } :=
    congrArg Prod.fst (if_neg hopen)
  cases report with
  | failure raw =>
      rw [hfail]
      exact ⟨rfl, hquiet⟩
  | event event =>
      have happly : t.receive (.event event) = ({ t with status := .streaming }).take event :=
        if_neg hopen
      rw [happly]
      cases event with
      | workflowEnd status error elapsed =>
          exact ⟨(hgenuine (.workflowEnd status error elapsed) rfl).isOver, rfl⟩
      | failure payload => exact ⟨rfl, hquiet⟩
      | workflowStart | message | nodeStart | nodeEnd | nodeError | ignored => cases hends

/-- A report that does not end a run leaves it without an error. -/
theorem receive_of_not_ends (hopen : ¬ t.status.isOver) {report : Report}
    (hends : ¬ report.ends) :
    ¬ (t.receive report).1.status.isOver ∧ (t.receive report).1.error = t.error := by
  cases report with
  | failure raw => exact absurd rfl hends
  | event event =>
      have happly : t.receive (.event event) = ({ t with status := .streaming }).take event :=
        if_neg hopen
      obtain ⟨hstatus, -, -, herror, -⟩ := ({ t with status := .streaming } : Trace).open_take hends
      rw [happly, hstatus]
      exact ⟨Bool.false_ne_true, herror⟩

/-- **A run has the error that the report which ended it tells of.** -/
theorem error_after (hopen : ¬ t.status.isOver) (hquiet : t.error = none)
    {reports : List Report} (hgenuine : ∀ report ∈ reports, report.Genuine) :
    (t.after reports).error = (reports.find? Report.ends).bind Report.runError? := by
  induction reports generalizing t with
  | nil => exact hquiet
  | cons report reports ih =>
      have hfirst : report.Genuine := hgenuine report List.mem_cons_self
      show ((t.receive report).1.after reports).error = _
      by_cases hends : report.ends
      · obtain ⟨hover, herror⟩ := receive_of_ends hopen hquiet hfirst hends
        rw [after_of_isOver hover, herror, List.find?_cons_of_pos hends]
        rfl
      · obtain ⟨hopen', herror⟩ := receive_of_not_ends hopen hends
        rw [List.find?_cons_of_neg hends]
        exact ih hopen' (herror.trans hquiet) fun other hother =>
          hgenuine other (List.mem_cons_of_mem _ hother)

end Trace

/-! ## §4. When nothing but the time is left out. -/

/-- **What the text of an entry leaves out.**  It is the text of the run without the
time that this took and without its error, so nothing but the time is left out
exactly if the run has no error.  The error is what the first report that ended
the run told of. -/
theorem Item.text_complete_iff {start : Trace} (hstart : start = .idle ∨ start = .streaming)
    {reports : List Report} (hgenuine : ∀ report ∈ reports, report.Genuine) :
    let t := start.after reports
    (ofTrace t).text = ({ t with elapsed := none, error := none } : Trace).text
      ∧ ((ofTrace t).text = ({ t with elapsed := none } : Trace).text ↔ t.error = none)
      ∧ t.error = (reports.find? Report.ends).bind Report.runError? := by
  intro t
  have hnew : ¬ start.status.isOver ∧ start.error = none := by
    rcases hstart with rfl | rfl <;> exact ⟨Bool.false_ne_true, rfl⟩
  refine ⟨text_ofTrace t, ?_, Trace.error_after hnew.1 hnew.2 hgenuine⟩
  rw [text_ofTrace]
  exact Trace.text_quiet_iff (t := { t with elapsed := none })

/-- A run that answers and fails from outside, whose text is that of its entry. -/
theorem Item.text_complete_iff_failed :
    let reports : List Report := [.event (.message "hi" none), .failure (.str "gone")]
    let t := Trace.streaming.after reports
    (∀ report ∈ reports, report.Genuine)
      ∧ (ofTrace t).text = ({ t with elapsed := none } : Trace).text
      ∧ t.text = "Run failed\n└── error: gone\n" := by
  intro reports t
  have hmessage : (Event.message "hi" none).Decoded :=
    ⟨"message", "\x7b\"chunk\": \"hi\"\x7d", by cbv⟩
  have hgenuine : ∀ report ∈ reports, report.Genuine := by
    simp only [reports, List.forall_mem_cons]
    refine ⟨?message, ?failure, by simp⟩
    case message =>
      rintro _ ⟨⟩
      exact hmessage
    case failure => rintro _ ⟨⟩
  obtain ⟨-, hcomplete, herror⟩ := text_complete_iff (.inr rfl) hgenuine
  exact ⟨hgenuine, hcomplete.2 herror, by cbv⟩

/-- **An entry that does not tell why its run failed**: the run ends with an
error, which is in its own text. -/
theorem Item.text_without_error :
    let report := Report.event (.workflowEnd .failed (some (.str "boom")) none)
    let t := Trace.streaming.after [report]
    report.Genuine ∧ t.elapsed = none
      ∧ t.text = "Run failed\nError: boom\n" ∧ (ofTrace t).text = "Run failed\n" := by
  intro report t
  refine ⟨?_, rfl, by cbv, by cbv⟩
  intro event hevent
  obtain rfl := Report.event.inj hevent
  exact ⟨"workflow_end", "\x7b\"status\": \"failed\", \"error\": \"boom\"\x7d", by cbv⟩

end WorkflowEditor.Run
