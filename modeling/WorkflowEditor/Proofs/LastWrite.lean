/-
  WorkflowEditor.Proofs.LastWrite
  ───────────────────────────────
  **AN ENTRY SHOWS THE LAST THAT WAS TOLD OF ITS NODE.**

  A node that is started again begins anew, and an end or an error takes the
  place of the one before.  Only an error stays when an end comes behind it:

    • `Trace.node?_after` — an entry is what the events that had an effect
      make of it,
    • `Event.foldl_revise_started` — whatever a node had, its start makes the
      entry of a node that was just started,
    • `Event.foldl_revise_since` — of the ends and errors since then the last
      decides, but for the error,
    • `Trace.entry_shows_last` — so an entry is that of a fresh run with this
      start and the last end or error alone, unless an end hides an error.
-/
import WorkflowEditor.Proofs.Interleaving

namespace WorkflowEditor.Run

/-! ## §1. The events that had an effect. -/

namespace Event

/-- The error that an event brings to the entry of its node. -/
def error? : Event → Option Json
  | .nodeError _ _ error _ => some error
  | _ => none

/-- Whether an event starts the node with an id. -/
def Starts (id : String) (event : Event) : Prop := (Report.event event).started? = some id

/-- Whether an event says that the node with an id has ended, well or not. -/
def Closes (id : String) (event : Event) : Prop := event.isAbout id ∧ ¬ event.Starts id

/-- An event about a node does not end the run. -/
theorem not_ends_of_isAbout {id : String} {event : Event} (h : event.isAbout id) :
    ¬ event.ends := by
  cases event with
  | workflowEnd | failure => cases h
  | nodeStart | nodeEnd | nodeError | workflowStart | message | ignored => exact nofun

end Event

namespace Trace

/-- An event without an effect would not have changed the entry of its node
either. -/
theorem revise_of_ineffective {t : Trace} {event : Event} {id : String}
    (habout : event.node? = some id) (h : (t.take event).2 = false) :
    event.revise (t.node? id) = t.node? id := by
  cases event with
  | nodeStart => cases h
  | nodeEnd nodeId | nodeError nodeId =>
      obtain rfl : nodeId = id := Option.some.inj habout
      unfold take at h
      dsimp only at h
      split at h
      · cases h
      · rename_i hunknown
        rw [Option.not_isSome_iff_eq_none.1 hunknown]
        rfl
  | workflowStart | message | workflowEnd | failure | ignored => rfl

/-- **An entry is what the events that had an effect make of it.** -/
theorem node?_after {t : Trace} {events applied : List Event}
    (h : t.effective (events.map .event) = applied.map .event) (id : String) :
    (t.after (events.map .event)).node? id
      = (applied.filter (Event.isAbout id)).foldl (fun entry event => event.revise entry)
        (t.node? id) := by
  induction events generalizing t applied with
  | nil =>
      obtain rfl : applied = [] := List.map_eq_nil_iff.1 h.symm
      rfl
  | cons event events ih =>
      by_cases hover : t.status.isOver
      · -- A run that is over takes in neither this event nor any later one.
        have hstill : t.receive (.event event) = (t, false) := receive_of_isOver hover _
        have hrest : t.effective (events.map .event) = applied.map .event := by
          rw [List.map_cons, effective, hstill] at h
          exact h
        show ((t.receive (.event event)).1.after (events.map .event)).node? id = _
        rw [hstill]
        exact ih hrest
      have htake : t.receive (.event event) = ({ t with status := .streaming }).take event :=
        if_neg hover
      have hnode : (t.receive (.event event)).1.node? id
          = if event.node? = some id then event.revise (t.node? id) else t.node? id := by
        rw [htake]
        exact node?_take _ event id
      show ((t.receive (.event event)).1.after (events.map .event)).node? id = _
      rw [List.map_cons, effective] at h
      dsimp only at h
      -- An event is among those applied, or it has left the entry as it was.
      split at h
      · obtain ⟨first, applied, rfl, hfirst, hrest⟩ := List.map_eq_cons_iff.1 h.symm
        obtain rfl : first = event := Report.event.inj hfirst
        rw [ih hrest.symm, hnode]
        by_cases habout : first.node? = some id <;> simp [Event.isAbout, habout]
      · rename_i hnot
        rw [htake, Bool.not_eq_true] at hnot
        rw [ih h, hnode]
        split
        · rename_i habout
          have hsame : event.revise (t.node? id) = t.node? id :=
            revise_of_ineffective (t := { t with status := .streaming }) habout hnot
          rw [hsame]
        · rfl

end Trace

/-! ## §2. What events make of an entry. -/

namespace Event

/-- Starting the node with an id again makes it one that was just started. -/
def Plain (id : String) (entry : Option NodeTrace) : Prop :=
  ∀ known ∈ entry, known.restarted = .started id

theorem Plain.revise {id : String} {entry : Option NodeTrace} (h : Plain id entry) {event : Event}
    (habout : event.isAbout id) : Plain id (event.revise entry) := by
  intro known hknown
  cases event with
  | nodeStart nodeId =>
      obtain rfl : nodeId = id := by simpa [isAbout, node?] using habout
      obtain rfl := Option.some.inj hknown
      cases entry with
      | none => rfl
      | some old => exact h old rfl
  | nodeEnd | nodeError =>
      obtain ⟨old, hold, rfl⟩ := Option.map_eq_some_iff.1 hknown
      exact h old hold
  | workflowStart | message | workflowEnd | failure | ignored => exact h known hknown

theorem Plain.foldl_revise {id : String} {events : List Event}
    (habout : ∀ event ∈ events, event.isAbout id) {entry : Option NodeTrace} (h : Plain id entry) :
    Plain id (events.foldl (fun entry event => event.revise entry) entry) := by
  induction events generalizing entry with
  | nil => exact h
  | cons event events ih =>
      exact ih (fun other hother => habout other (List.mem_cons_of_mem _ hother))
        (h.revise (habout event List.mem_cons_self))

/-- **Whatever a node had, its start makes the entry of a node that was just
started.** -/
theorem foldl_revise_started {id : String} {events : List Event}
    (habout : ∀ event ∈ events, event.isAbout id) (conversationId executionId : Option String)
    (timestamp : Option Int) :
    (nodeStart id conversationId executionId timestamp).revise
        (events.foldl (fun entry event => event.revise entry) none)
      = some (.started id) := by
  have hplain : Plain id (events.foldl (fun entry event => event.revise entry) none) :=
    Plain.foldl_revise habout nofun
  cases hknown : events.foldl (fun entry event => event.revise entry) none with
  | none => rfl
  | some known => exact congrArg some (hplain known hknown)

/-- What the end or the error of a node leaves of its entry: no more than a
new start does, and the error if it brings none. -/
theorem Closes.revise {id : String} {event : Event} (h : event.Closes id) (entry : NodeTrace) :
    event.revise (some entry) = (event.revise (some entry.restarted)).map fun revised =>
      { revised with error := event.error? <|> entry.error } := by
  cases event with
  | nodeEnd | nodeError => rfl
  | nodeStart nodeId =>
      have habout : nodeId = id := by simpa [isAbout, node?] using h.1
      exact absurd (congrArg some habout) h.2
  | workflowStart | message | workflowEnd | failure | ignored => cases h.1

theorem getLast?_errors_concat (told : List Event) (event : Event) :
    ((told ++ [event]).filterMap error?).getLast?
      = (event.error? <|> (told.filterMap error?).getLast?) := by
  cases herror : event.error? <;> simp [herror]

/-- A node that was started and has ended since has the error of the last
error. -/
theorem exists_foldl_revise {id : String} {told : List Event}
    (htold : ∀ event ∈ told, event.Closes id) :
    ∃ entry, told.foldl (fun entry event => event.revise entry) (some (.started id)) = some entry
      ∧ entry.restarted = .started id ∧ entry.error = (told.filterMap error?).getLast? := by
  induction told using List.reverseRecOn with
  | nil => exact ⟨.started id, rfl, rfl, rfl⟩
  | append_singleton told event ih =>
      obtain ⟨entry, hentry, hplain, herror⟩ :=
        ih fun other hother => htold other (List.mem_append_left _ hother)
      have hcloses : event.Closes id :=
        htold event (List.mem_append_right _ (List.mem_singleton_self _))
      obtain ⟨revised, hrevised⟩ : ∃ revised, event.revise (some entry) = some revised := by
        cases event <;> exact ⟨_, rfl⟩
      have hknown : Plain id (some entry) := by
        rintro _ ⟨⟩
        exact hplain
      refine ⟨revised, ?_, hknown.revise hcloses.1 revised hrevised, ?_⟩
      · rw [List.foldl_append, hentry]
        exact hrevised
      · rw [hcloses.revise entry] at hrevised
        obtain ⟨_, -, rfl⟩ := Option.map_eq_some_iff.1 hrevised
        rw [getLast?_errors_concat, herror]

/-- **Of the ends and errors of a node the last decides**, but for the error,
which is that of the last error. -/
theorem foldl_revise_since {id : String} {told : List Event}
    (htold : ∀ event ∈ told, event.Closes id) :
    told.foldl (fun entry event => event.revise entry) (some (.started id))
      = (told.getLast?.toList.foldl (fun entry event => event.revise entry)
        (some (.started id))).map fun entry =>
          { entry with error := (told.filterMap error?).getLast? } := by
  rcases List.eq_nil_or_concat' told with rfl | ⟨before, event, rfl⟩
  · rfl
  obtain ⟨entry, hentry, hplain, herror⟩ :=
    exists_foldl_revise fun other hother => htold other (List.mem_append_left _ hother)
  have hcloses : event.Closes id :=
    htold event (List.mem_append_right _ (List.mem_singleton_self _))
  rw [List.foldl_append, hentry, List.getLast?_concat, getLast?_errors_concat, ← herror]
  show event.revise (some entry) = _
  rw [hcloses.revise entry, hplain]
  rfl

/-- The error of the last error is that of the last end or error exactly if
no end hides it. -/
theorem getLast?_errors_eq_iff (told : List Event) :
    (told.filterMap error?).getLast? = told.getLast?.bind error?
      ↔ (∀ event ∈ told, event.error? = none)
        ∨ ∃ event ∈ told.getLast?, event.error? ≠ none := by
  rcases List.eq_nil_or_concat' told with rfl | ⟨before, event, rfl⟩
  · simp
  rw [getLast?_errors_concat, List.getLast?_concat]
  cases herror : event.error? <;> simp [herror, or_imp, forall_and]

end Event

namespace Trace

/-! ## §3. Entries of a run. -/

/-- **An entry shows the last that was told of its node.**  Of what had an
effect on a run, take the last start of a node and the ends and errors of the
node since then.  Its entry is that of a fresh run that was told this start
and the last of these alone, but for the error, which is that of the last
error since the start.  So the two are the same exactly if none of these is an
error, or the last of them is. -/
theorem entry_shows_last {events before since : List Event} {id : String}
    {conversationId executionId : Option String} {timestamp : Option Int}
    (happlied : Trace.streaming.effective (events.map .event)
      = (before ++ .nodeStart id conversationId executionId timestamp :: since).map .event)
    (hlast : ∀ event ∈ since, ¬ event.Starts id) :
    let start := Event.nodeStart id conversationId executionId timestamp
    let told := since.filter (Event.isAbout id)
    let t := Trace.streaming.after (events.map .event)
    let fresh := Trace.streaming.after ((start :: told.getLast?.toList).map .event)
    (∃ entry, fresh.node? id = some entry
        ∧ t.node? id = some { entry with error := (told.filterMap Event.error?).getLast? })
      ∧ (t.node? id = fresh.node? id
        ↔ (∀ event ∈ told, event.error? = none)
          ∨ ∃ event ∈ told.getLast?, event.error? ≠ none) := by
  intro start told t fresh
  have htold : ∀ event ∈ told, event.Closes id := by
    intro event hevent
    obtain ⟨hmem, habout⟩ := List.mem_filter.1 hevent
    exact ⟨habout, hlast event hmem⟩
  have hlater : ∀ event ∈ told.getLast?.toList, event.Closes id := fun event hevent =>
    htold event (List.mem_of_getLast? (Option.mem_toList.1 hevent))
  -- What came before the last start does not show behind it.
  have hentry : t.node? id
      = told.foldl (fun entry event => event.revise entry) (some (.started id)) := by
    have habout : start.isAbout id := beq_self_eq_true _
    rw [node?_after happlied id, List.filter_append, List.filter_cons_of_pos habout,
      List.foldl_append]
    show told.foldl _ (start.revise ((before.filter _).foldl _ none)) = _
    rw [Event.foldl_revise_started fun event hevent => (List.mem_filter.1 hevent).2]
  -- No event of a node ends a run, so the fresh run takes in all of them.
  have hfresh : fresh.node? id = told.getLast?.toList.foldl
      (fun entry event => event.revise entry) (some (.started id)) := by
    have habout : ∀ event ∈ start :: told.getLast?.toList, event.isAbout id := by
      rintro event (_ | ⟨_, hevent⟩)
      · exact beq_self_eq_true _
      · exact (hlater event hevent).1
    have hgrown := grown_after (t := Trace.streaming) rfl fun event hevent =>
      Event.not_ends_of_isAbout (habout event hevent)
    rw [hgrown.entry id, List.filter_eq_self.2 habout]
    rfl
  obtain ⟨entry, hshown, -, herror⟩ := Event.exists_foldl_revise hlater
  rw [hentry, hfresh, Event.foldl_revise_since htold, hshown, Option.map_some]
  refine ⟨⟨entry, rfl, rfl⟩, ?_⟩
  have hlasterror : (told.getLast?.toList.filterMap Event.error?).getLast?
      = told.getLast?.bind Event.error? := by
    cases told.getLast? with
    | none => rfl
    | some event => cases hevent : event.error? <;> simp [hevent]
  rw [← Event.getLast?_errors_eq_iff, ← hlasterror, ← herror]
  constructor
  · intro hsame
    exact congrArg NodeTrace.error (Option.some.inj hsame)
  · intro hsame
    rw [hsame]

/-- A node that has failed, is started again and ends well; what comes when
the run is over is not told of any node. -/
theorem entry_shows_last_restarted :
    let start (id : String) := Event.nodeStart id none none none
    let broken := Event.nodeError "a" .null (.str "timeout") none
    let done := Event.nodeEnd "a" .null (.str "yes") none none
    let ended := Event.workflowEnd .completed none none
    let events := [start "a", broken, start "b", start "a", done, ended, broken]
    let t := Trace.streaming.after (events.map .event)
    let fresh := Trace.streaming.after ([start "a", done].map .event)
    Trace.streaming.effective (events.map .event)
        = ([start "a", broken, start "b"] ++ start "a" :: [done, ended]).map .event
      ∧ (∀ event ∈ [done, ended], ¬ event.Starts "a")
      ∧ t.node? "a" = fresh.node? "a" ∧ (t.node? "a").map NodeTrace.error = some none
      ∧ (t.node? "a").map NodeTrace.status = some .completed := by
  intro start broken done ended events t fresh
  have happlied : Trace.streaming.effective (events.map .event)
      = ([start "a", broken, start "b"] ++ start "a" :: [done, ended]).map .event := rfl
  have hlast : ∀ event ∈ [done, ended], ¬ event.Starts "a" := by
    simp [done, ended, Event.Starts, Report.started?]
  have hsame : t.node? "a" = fresh.node? "a" :=
    (entry_shows_last happlied hlast).2.2 (.inl (by simp [done, ended, Event.error?]))
  exact ⟨happlied, hlast, hsame, rfl, rfl⟩

/-- A node that has failed and then ends well keeps its error, as no fresh
run that was told the end alone does. -/
theorem entry_keeps_error :
    let start := Event.nodeStart "a" none none none
    let broken := Event.nodeError "a" .null (.str "timeout") none
    let done := Event.nodeEnd "a" .null (.str "yes") none none
    let events := [start, broken, done]
    let t := Trace.streaming.after (events.map .event)
    let fresh := Trace.streaming.after ([start, done].map .event)
    Trace.streaming.effective (events.map .event) = events.map .event
      ∧ [broken, done].getLast? = some done
      ∧ (t.node? "a").map NodeTrace.error = some (some (.str "timeout"))
      ∧ (fresh.node? "a").map NodeTrace.error = some none
      ∧ t.node? "a" ≠ fresh.node? "a" := by
  intro start broken done events t fresh
  have hkept : (t.node? "a").map NodeTrace.error = some (some (.str "timeout")) := rfl
  have hclear : (fresh.node? "a").map NodeTrace.error = some none := rfl
  refine ⟨rfl, rfl, hkept, hclear, fun hsame => ?_⟩
  rw [hsame, hclear] at hkept
  cases hkept

end Trace

end WorkflowEditor.Run
