/-
  WorkflowEditor.Proofs.RunTraces
  ───────────────────────────────
  **WHAT THE TRACE OF A RUN ADDS UP TO.**

  A trace is told events, as they are read from a stream, and failures from
  outside, in any order and number.  What it shows is said of the reports
  themselves:

    • `Event.Decoded.isOver` — an event that ends a run says how it ended,
    • `Trace.receive_of_isOver` — a run that is over takes in nothing,
    • `Trace.Told` — the entries are the nodes that were started, in order of
      their first start; the text is all chunks one behind the other; what
      went wrong is shown once the run has failed, and nothing beside it,
    • `Trace.Told.receive`, `Trace.told_after` — one report, and all,
    • `Trace.after_lawful` — so much holds of every trace.

  The two files on computability state the equations of `List.lookup` and
  `Option.isNone`, by which `cbv` reads an event off its text.
-/
import WorkflowEditor.Proofs.KeyOrder
import WorkflowEditor.Run.Trace
import Mathlib.Computability.Primrec.List
import Mathlib.Computability.TuringMachine.StackTuringMachine
import Mathlib.Data.List.Induction

namespace WorkflowEditor.Run

/-! ## §1. Events as they are read. -/

/-- An event that was read from the name and the payload of a frame. -/
def Event.Decoded (event : Event) : Prop := ∃ name data, Event.parse name data = .ok event

/-- **An event that ends a run says how it ended.** -/
theorem Event.Decoded.isOver {status : Status} {error : Option Json} {elapsed : Option Float}
    (h : (Event.workflowEnd status error elapsed).Decoded) : status.isOver := by
  -- What a text holds was built of its fields.
  have hbuilt {record : Record Event} {data : String} {event : Event}
      (h : record.decoder.ofText data = .ok event) :
      ∃ room find, record.build room find = .ok event :=
    have ⟨_, hread⟩ := Decoder.exists_of_ofText h
    Record.build_of_decoder hread
  obtain ⟨name, data, h⟩ := h
  unfold Event.parse at h
  split at h
  case h_6 =>
      obtain ⟨room, find, h⟩ := hbuilt h
      unfold workflowEndRecord at h
      simp only [Record.build_seq_eq_ok, Record.build_map_eq_ok] at h
      obtain ⟨_, ⟨_, ⟨named, -, rfl⟩, error, -, rfl⟩, elapsed, -, h⟩ := h
      obtain ⟨rfl, -, -⟩ := Event.workflowEnd.inj h
      by_cases hfailed : named = some "failed"
      · rw [if_pos hfailed]
        rfl
      · rw [if_neg hfailed]
        rfl
  case h_7 => cases h
  case h_8 => cases h
  -- All other payloads make events of other kinds.
  all_goals
    obtain ⟨room, find, h⟩ := hbuilt h
    simp [workflowStartRecord, messageRecord, nodeStartRecord, nodeEndRecord, nodeErrorRecord,
      Record.build_seq_eq_ok, Record.build_map_eq_ok] at h

/-! ## §2. Reports. -/

/-- What a trace is told: an event, or that something went wrong outside the
run. -/
inductive Report where
  | event (event : Event)
  | failure (raw : Json)

namespace Report

/-- The node that a report says was started. -/
def started? : Report → Option String
  | .event (.nodeStart nodeId ..) => some nodeId
  | _ => none

/-- The text that a report brings. -/
def chunk? : Report → Option String
  | .event (.message chunk _) => some chunk
  | _ => none

/-- A report whose event, if it is one, was read from a stream. -/
def Genuine (report : Report) : Prop := ∀ event, report = .event event → event.Decoded

end Report

namespace Trace

/-- Takes in a report; answers whether it had any effect. -/
def receive (t : Trace) : Report → Trace × Bool
  | .event event => t.apply event
  | .failure raw => t.fail raw

/-- The trace after reports in turn. -/
def after (t : Trace) (reports : List Report) : Trace :=
  reports.foldl (fun t report => (t.receive report).1) t

/-- The reports that had an effect, in order. -/
def effective (t : Trace) : List Report → List Report
  | [] => []
  | report :: rest =>
      let (next, applied) := t.receive report
      if applied then report :: next.effective rest else next.effective rest

theorem after_append (t : Trace) (reports more : List Report) :
    t.after (reports ++ more) = (t.after reports).after more := List.foldl_append

theorem after_concat (t : Trace) (reports : List Report) (report : Report) :
    t.after (reports ++ [report]) = ((t.after reports).receive report).1 :=
  t.after_append reports [report]

theorem effective_concat (t : Trace) (reports : List Report) (report : Report) :
    t.effective (reports ++ [report])
      = t.effective reports ++ if ((t.after reports).receive report).2 then [report] else [] := by
  induction reports generalizing t with
  | nil => rfl
  | cons first reports ih =>
      have hrest := ih (t.receive first).1
      rw [List.cons_append]
      unfold effective
      dsimp only
      split
      · rw [hrest]
        rfl
      · exact hrest

/-! ## §3. A run that is over. -/

/-- **A run that is over takes in nothing.** -/
theorem receive_of_isOver {t : Trace} (h : t.status.isOver) (report : Report) :
    t.receive report = (t, false) := by
  cases report with
  | event event => exact if_pos h
  | failure raw => exact if_pos h

theorem after_of_isOver {t : Trace} (h : t.status.isOver) (reports : List Report) :
    t.after reports = t := by
  induction reports with
  | nil => rfl
  | cons report reports ih =>
      show ((t.receive report).1).after reports = t
      rw [receive_of_isOver h report]
      exact ih

/-! ## §4. What reports add up to. -/

/-- All chunks one behind the other; no text without a chunk. -/
def joined : List String → Option String
  | [] => none
  | chunks => some (String.join chunks)

theorem joined_concat (chunks : List String) (chunk : String) :
    joined (chunks ++ [chunk]) = some ((joined chunks).getD "" ++ chunk) := by
  cases chunks with
  | nil => simp [joined, String.join]
  | cons first chunks => simp [joined, String.join, List.foldl_append]

/-- What a trace shows after reports, of which some had an effect. -/
structure Told (t : Trace) (reports effective : List Report) : Prop where
  nodup : (t.nodes.map NodeTrace.nodeId).Nodup
  entries : t.nodes.map NodeTrace.nodeId = (effective.filterMap Report.started?).eraseDups
  text : ¬ t.status.isOver → t.content = joined (reports.filterMap Report.chunk?)
  quiet : ¬ t.status.isOver → t.failure = none ∧ t.error = none ∧ t.elapsed = none
  failed : t.failure ≠ none → t.status = .failed ∧ t.content = none ∧ t.error = none

theorem told_idle : Told .idle [] [] := by
  constructor <;> simp [idle, joined]

theorem told_streaming : Told .streaming [] [] := by
  constructor <;> simp [streaming, idle, joined]

/-- Two traces that show the same beside the entries of their nodes. -/
structure Alike (t t' : Trace) : Prop where
  content : t'.content = t.content
  failure : t'.failure = t.failure
  error : t'.error = t.error
  elapsed : t'.elapsed = t.elapsed

/-- A report without text leaves what a run that goes on shows beside its
entries. -/
theorem Told.goesOn {t t' : Trace} {reports effective effective' : List Report}
    (h : Told t reports effective) (hopen : ¬ t.status.isOver) (hsame : t.Alike t')
    {report : Report} (hchunk : report.chunk? = none)
    (hnodup : (t'.nodes.map NodeTrace.nodeId).Nodup)
    (hentries : t'.nodes.map NodeTrace.nodeId
      = (effective'.filterMap Report.started?).eraseDups) :
    Told t' (reports ++ [report]) effective' := by
  obtain ⟨hfailure, herror, helapsed⟩ := h.quiet hopen
  constructor
  case nodup => exact hnodup
  case entries => exact hentries
  case text =>
      intro _
      rw [hsame.content, h.text hopen]
      simp [hchunk]
  case quiet =>
      exact fun _ => ⟨hsame.failure.trans hfailure, hsame.error.trans herror,
        hsame.elapsed.trans helapsed⟩
  case failed => exact fun hfailed => absurd (hsame.failure.trans hfailure) hfailed

/-- A report that starts no node leaves the entries with it. -/
theorem Told.goesOn_unstarted {t t' : Trace} {reports effective : List Report}
    (h : Told t reports effective) (hopen : ¬ t.status.isOver) (hsame : t.Alike t')
    (hids : t'.nodes.map NodeTrace.nodeId = t.nodes.map NodeTrace.nodeId) {report : Report}
    (hchunk : report.chunk? = none) (hstarted : report.started? = none) {applied : Bool} :
    Told t' (reports ++ [report]) (effective ++ if applied then [report] else []) := by
  refine h.goesOn hopen hsame hchunk (hids ▸ h.nodup) ?_
  rw [hids, h.entries]
  cases applied <;> simp [hstarted]

theorem map_nodeId_reviseNode (t : Trace) (id : String) {f : NodeTrace → NodeTrace}
    (hf : ∀ entry, (f entry).nodeId = entry.nodeId) :
    (t.reviseNode id f).nodes.map NodeTrace.nodeId = t.nodes.map NodeTrace.nodeId := by
  unfold reviseNode
  rw [List.map_map]
  refine List.map_congr_left fun entry _ => ?_
  show (if entry.nodeId = id then f entry else entry).nodeId = entry.nodeId
  split
  · exact hf entry
  · rfl

theorem node?_isSome_iff {t : Trace} {id : String} :
    (t.node? id).isSome ↔ id ∈ t.nodes.map NodeTrace.nodeId := by
  unfold node?
  rw [List.find?_isSome]
  simp

/-- A name that comes once more is left out, and another one goes last. -/
theorem eraseDups_concat (names : List String) (name : String) :
    (names ++ [name]).eraseDups
      = if name ∈ names then names.eraseDups else names.eraseDups ++ [name] := by
  rw [List.eraseDups_append]
  by_cases hname : name ∈ names <;> simp [List.removeAll, List.eraseDups_cons, hname]

/-- **A node that is started has an entry of its own**, the last one unless it
was started before. -/
theorem Told.started {t : Trace} {reports effective : List Report} (h : Told t reports effective)
    (hopen : ¬ t.status.isOver) (nodeId : String) (conversationId executionId : Option String)
    (timestamp : Option Int) :
    let event := Event.nodeStart nodeId conversationId executionId timestamp
    Told (({ t with status := .streaming }).take event).1 (reports ++ [.event event])
      (effective ++ [.event event]) := by
  intro event
  let live : Trace := { t with status := .streaming }
  have hknown : (live.node? nodeId).isSome ↔ nodeId ∈ t.nodes.map NodeTrace.nodeId :=
    node?_isSome_iff
  have hids : (live.take event).1.nodes.map NodeTrace.nodeId
      = if nodeId ∈ t.nodes.map NodeTrace.nodeId then t.nodes.map NodeTrace.nodeId
        else t.nodes.map NodeTrace.nodeId ++ [nodeId] := by
    unfold take
    dsimp only [event]
    by_cases hmem : nodeId ∈ t.nodes.map NodeTrace.nodeId
    · rw [if_pos hmem, if_pos (hknown.2 hmem)]
      exact live.map_nodeId_reviseNode nodeId fun _ => rfl
    · rw [if_neg hmem, if_neg (mt hknown.1 hmem)]
      exact List.map_append
  have hsame : t.Alike (live.take event).1 := by
    unfold take
    dsimp only [event]
    split <;> exact ⟨rfl, rfl, rfl, rfl⟩
  refine h.goesOn hopen hsame rfl ?_ ?_
  · rw [hids]
    split
    · exact h.nodup
    · rename_i hnew
      exact h.nodup.append (List.nodup_singleton _) (by simpa using hnew)
  · rw [hids, List.filterMap_append]
    show _ = (_ ++ [nodeId]).eraseDups
    rw [eraseDups_concat, ← h.entries]
    simp only [← List.mem_eraseDups (l := effective.filterMap Report.started?), ← h.entries]

/-- **A chunk goes behind the text.** -/
theorem Told.messaged {t : Trace} {reports effective : List Report} (h : Told t reports effective)
    (hopen : ¬ t.status.isOver) (chunk : String) (conversationId : Option String) :
    let event := Event.message chunk conversationId
    Told (({ t with status := .streaming }).take event).1 (reports ++ [.event event])
      (effective ++ [.event event]) := by
  intro event
  obtain ⟨hfailure, herror, helapsed⟩ := h.quiet hopen
  constructor
  case nodup => exact h.nodup
  case entries =>
      rw [List.filterMap_append]
      exact h.entries.trans (congrArg List.eraseDups (List.append_nil _).symm)
  case text =>
      intro _
      show some (t.content.getD "" ++ chunk) = joined _
      rw [h.text hopen, List.filterMap_append]
      exact (joined_concat _ chunk).symm
  case quiet => exact fun _ => ⟨hfailure, herror, helapsed⟩
  case failed => exact fun hfailed => absurd hfailure hfailed

/-- **A failure is shown instead of all that went before**, but for the
entries. -/
theorem Told.fails {t t' : Trace} {reports effective : List Report} (h : Told t reports effective)
    (hopen : ¬ t.status.isOver) {report : Report} (hstarted : report.started? = none)
    {raw : Json}
    (ht' : t' = { t with status := .failed, content := none, failure := some raw }) :
    Told t' (reports ++ [report]) (effective ++ [report]) := by
  subst ht'
  have hover : ({ t with status := .failed, content := none, failure := some raw } :
      Trace).status.isOver := rfl
  constructor
  case nodup => exact h.nodup
  case entries => simpa [hstarted] using h.entries
  case text => exact fun hgoing => absurd hover hgoing
  case quiet => exact fun hgoing => absurd hover hgoing
  case failed => exact fun _ => ⟨rfl, rfl, (h.quiet hopen).2.1⟩

/-- What a run that ends by itself leaves. -/
theorem Told.ends {t : Trace} {reports effective : List Report} (h : Told t reports effective)
    (hopen : ¬ t.status.isOver) {status : Status} (hover : status.isOver) (error : Option Json)
    (elapsed : Option Float) :
    let event := Event.workflowEnd status error elapsed
    Told (({ t with status := .streaming }).take event).1 (reports ++ [.event event])
      (effective ++ [.event event]) := by
  intro event
  constructor
  case nodup => exact h.nodup
  case entries =>
      rw [List.filterMap_append]
      exact h.entries.trans (congrArg List.eraseDups (List.append_nil _).symm)
  case text => exact fun hgoing => absurd hover hgoing
  case quiet => exact fun hgoing => absurd hover hgoing
  case failed => exact fun hfailed => absurd (h.quiet hopen).1 hfailed

/-- The entry of a node is revised if there is one; its node stays the same. -/
theorem Told.revised {t : Trace} {reports effective : List Report} (h : Told t reports effective)
    (hopen : ¬ t.status.isOver) (id : String) {f : NodeTrace → NodeTrace}
    (hf : ∀ entry, (f entry).nodeId = entry.nodeId) {report : Report}
    (hchunk : report.chunk? = none) (hstarted : report.started? = none) :
    let live : Trace := { t with status := .streaming }
    let result := if (live.node? id).isSome then (live.reviseNode id f, true) else (live, false)
    Told result.1 (reports ++ [report]) (effective ++ if result.2 then [report] else []) := by
  intro live result
  have hquiet {t' : Trace} {applied : Bool} (hsame : t.Alike t')
      (hids : t'.nodes.map NodeTrace.nodeId = t.nodes.map NodeTrace.nodeId) :
      Told t' (reports ++ [report]) (effective ++ if applied then [report] else []) :=
    h.goesOn_unstarted hopen hsame hids hchunk hstarted
  by_cases hthere : (live.node? id).isSome
  · have hresult : result = (live.reviseNode id f, true) := if_pos hthere
    rw [hresult]
    exact hquiet ⟨rfl, rfl, rfl, rfl⟩ (live.map_nodeId_reviseNode id hf)
  · have hresult : result = (live, false) := if_neg hthere
    rw [hresult]
    exact hquiet ⟨rfl, rfl, rfl, rfl⟩ rfl

/-- **One more report.** -/
theorem Told.receive {t : Trace} {reports effective : List Report} (h : Told t reports effective)
    {report : Report} (hgenuine : report.Genuine) :
    Told (t.receive report).1 (reports ++ [report])
      (effective ++ if (t.receive report).2 then [report] else []) := by
  by_cases hover : t.status.isOver
  · rw [receive_of_isOver hover]
    constructor
    case nodup => exact h.nodup
    case entries => exact h.entries.trans (by simp)
    case text => exact fun hopen => absurd hover hopen
    case quiet => exact fun hopen => absurd hover hopen
    case failed => exact h.failed
  cases report with
  | failure raw =>
      have hfail : t.receive (.failure raw)
          = ({ t with status := .failed, content := none, failure := some raw }, true) :=
        if_neg hover
      rw [hfail]
      exact h.fails hover rfl rfl
  | event event =>
      have htake : t.receive (.event event) = ({ t with status := .streaming }).take event :=
        if_neg hover
      rw [htake]
      -- Events that start no node and bring no text.
      have hquiet {t' : Trace} {applied : Bool} (hsame : t.Alike t')
          (hids : t'.nodes.map NodeTrace.nodeId = t.nodes.map NodeTrace.nodeId)
          (hchunk : (Report.event event).chunk? = none)
          (hstarted : (Report.event event).started? = none) :
          Told t' (reports ++ [.event event]) (effective ++ if applied then [.event event] else []) :=
        h.goesOn_unstarted hover hsame hids hchunk hstarted
      cases event with
      | workflowStart => exact hquiet ⟨rfl, rfl, rfl, rfl⟩ rfl rfl rfl
      | message chunk conversationId => exact h.messaged hover chunk conversationId
      | nodeStart nodeId conversationId executionId timestamp =>
          exact h.started hover nodeId conversationId executionId timestamp
      | nodeEnd nodeId =>
          refine h.revised hover nodeId ?_ rfl rfl
          exact fun _ => rfl
      | nodeError nodeId =>
          refine h.revised hover nodeId ?_ rfl rfl
          exact fun _ => rfl
      | workflowEnd status error elapsed =>
          exact h.ends hover (hgenuine _ rfl).isOver error elapsed
      | failure payload => exact h.fails hover rfl rfl
      | ignored name => exact hquiet ⟨rfl, rfl, rfl, rfl⟩ rfl rfl rfl

/-- **All reports in turn.** -/
theorem told_after {start : Trace} (h : Told start [] []) {reports : List Report}
    (hgenuine : ∀ report ∈ reports, report.Genuine) :
    Told (start.after reports) reports (start.effective reports) := by
  -- The last report comes last, so the induction is from the end of the list.
  induction reports using List.reverseRecOn with
  | nil => exact h
  | append_singleton reports report ih =>
      have hbefore := ih fun other hother => hgenuine other (List.mem_append_left _ hother)
      rw [after_concat, effective_concat]
      exact hbefore.receive (hgenuine report (by simp))

/-! ## §5. The state machine. -/

/-- A run that an event has ended stays as the event says, without a failure
and without an empty text. -/
theorem after_workflowEnd {start : Trace} (h : Told start [] []) {before rest : List Report}
    {status : Status} {error : Option Json} {elapsed : Option Float}
    (hgenuine : ∀ report ∈ before ++ .event (.workflowEnd status error elapsed) :: rest,
      report.Genuine)
    (hopen : ¬ (start.after before).status.isOver) :
    let t := start.after (before ++ .event (.workflowEnd status error elapsed) :: rest)
    t.status = status ∧ t.content ≠ some "" ∧ t.failure = none := by
  intro t
  let ended : Trace :=
    { start.after before with
      status := status
      error := error
      elapsed := elapsed
      content := (start.after before).content.filter fun text => text != "" }
  have hbefore := told_after h fun report hreport =>
    hgenuine report (List.mem_append_left _ hreport)
  have hdecoded : (Event.workflowEnd status error elapsed).Decoded :=
    hgenuine _ (List.mem_append_right _ List.mem_cons_self) _ rfl
  have hreceive : ((start.after before).receive (.event (.workflowEnd status error elapsed))).1
      = ended := by
    have htake : (start.after before).receive (.event (.workflowEnd status error elapsed))
        = ({ start.after before with status := .streaming }).take _ := if_neg hopen
    rw [htake]
    rfl
  have ht : t = ended := by
    show start.after _ = _
    rw [after_append]
    show (((start.after before).receive _).1).after rest = _
    rw [hreceive]
    exact after_of_isOver hdecoded.isOver rest
  rw [ht]
  refine ⟨rfl, fun hempty => ?_, (hbefore.quiet hopen).1⟩
  have hkept : (fun text => text != "") "" = true := (Option.filter_eq_some_iff.1 hempty).2
  cases hkept

/-- **The state machine of a run**, whatever a new trace is told, in any
order and number.  Its entries are the nodes that were started, each once and
in the order of their first start.  While the run is streaming the text is all
chunks one behind the other, and nothing has gone wrong.  A failure is shown
by a failed run only, without text and without the error of the workflow.  A
run that an event has ended shows no failure and no empty text.  And once the
run is over nothing has any effect. -/
theorem after_lawful {start : Trace} (hstart : start = .idle ∨ start = .streaming)
    {reports : List Report} (hgenuine : ∀ report ∈ reports, report.Genuine) :
    let t := start.after reports
    (t.nodes.map NodeTrace.nodeId).Nodup
    ∧ t.nodes.map NodeTrace.nodeId
      = ((start.effective reports).filterMap Report.started?).eraseDups
    ∧ (t.status = .streaming → t.content = joined (reports.filterMap Report.chunk?)
      ∧ t.failure = none ∧ t.error = none ∧ t.elapsed = none)
    ∧ (t.failure ≠ none → t.status = .failed ∧ t.content = none ∧ t.error = none)
    ∧ (∀ before rest status error elapsed,
        reports = before ++ .event (.workflowEnd status error elapsed) :: rest →
        ¬ (start.after before).status.isOver →
          t.status = status ∧ t.content ≠ some "" ∧ t.failure = none)
    ∧ (t.status.isOver → (∀ report, t.receive report = (t, false))
      ∧ ∀ more, start.after (reports ++ more) = t) := by
  intro t
  have hnew : Told start [] [] := by
    rcases hstart with rfl | rfl
    · exact told_idle
    · exact told_streaming
  have htold := told_after hnew hgenuine
  refine ⟨htold.nodup, htold.entries, fun hstreaming => ?_, htold.failed, ?_, fun hover => ?_⟩
  · have hopen : ¬ t.status.isOver := by
      rw [hstreaming]
      exact Bool.false_ne_true
    exact ⟨htold.text hopen, htold.quiet hopen⟩
  · rintro before rest status error elapsed rfl hopen
    exact after_workflowEnd hnew hgenuine hopen
  · refine ⟨receive_of_isOver hover, fun more => ?_⟩
    rw [after_append]
    exact after_of_isOver hover more

/-- A run that starts a node twice, writes an empty text, ends and is then
told of a failure. -/
theorem after_lawful_restarted :
    let restart := Report.event (.nodeStart "b" none none none)
    let reports : List Report :=
      [restart, .event (.nodeStart "a" none none none), restart, .event (.message "" none),
        .event (.workflowEnd .completed none none), .failure .null]
    let t := Trace.idle.after reports
    (∀ report ∈ reports, report.Genuine)
    ∧ t.nodes.map NodeTrace.nodeId = ["b", "a"]
    ∧ (t.status = .completed ∧ t.content ≠ some "" ∧ t.failure = none)
    ∧ (∀ report, t.receive report = (t, false)) := by
  intro restart reports t
  have hstart (nodeId data : String)
      (h : Event.parse "node_start" data = .ok (.nodeStart nodeId none none none)) :
      (Report.event (.nodeStart nodeId none none none)).Genuine := by
    rintro _ ⟨⟩
    exact ⟨_, _, h⟩
  have hgenuine : ∀ report ∈ reports, report.Genuine := by
    simp only [reports, List.forall_mem_cons]
    refine ⟨?restart, ?start, ?restart, ?message, ?ended, ?failure, by simp⟩
    case restart => exact hstart "b" "\x7b\"node_id\": \"b\"\x7d" (by cbv)
    case start => exact hstart "a" "\x7b\"node_id\": \"a\"\x7d" (by cbv)
    case message =>
        rintro _ ⟨⟩
        exact ⟨"message", "\x7b\x7d", by cbv⟩
    case ended =>
        rintro _ ⟨⟩
        exact ⟨"workflow_end", "\x7b\x7d", by cbv⟩
    case failure => rintro _ ⟨⟩
  obtain ⟨-, hentries, -, -, hended, hover⟩ := after_lawful (.inl rfl) hgenuine
  have hend := hended (reports.take 4) [.failure .null] .completed none none rfl (by decide)
  exact ⟨hgenuine, hentries, hend, (hover rfl).1⟩

end Trace

end WorkflowEditor.Run
