/-
  WorkflowEditor.Proofs.ChatTurns
  ───────────────────────────────
  **A CHAT IS A HISTORY OF TURNS.**

  A session is sent messages, is told events and errors, follows and replays
  runs, and is reset, in any order and number.  A message adds a turn, and
  everything else speaks to the current run or forgets it all:

    • `send_eq_error_iff` — a message is refused for inputs that were not given,
      and for nothing else,
    • `Steps.entries` — what tells the current run something changes the last
      answer only,
    • `takesTurns_run` — so user and assistant take turns,
    • `kept_after` — and only a reset changes what stands before the last
      answer.
-/
import WorkflowEditor.Proofs.RunEndings
import Mathlib.Algebra.Ring.Parity
import Mathlib.Data.List.TakeWhile

namespace WorkflowEditor.Run

/-- Whether an entry is a message of the user. -/
def Entry.isUser : Entry → Bool
  | .user _ => true
  | .assistant _ => false

/-- A request names its conversation, if it has one. -/
theorem Request.field?_toJson (r : Request) :
    r.toJson.field? "conversation_id" = r.conversationId.map .str := by
  unfold toJson
  cases r.conversationId <;> rfl

namespace Session

/-! ## §1. Calls. -/

/-- What can be asked of a session. -/
inductive Call where
  | send (message : String) (inputs : Fields)
  | apply (event : Event)
  | fail (raw : Json)
  | replay (capture : String)
  | consume (aborted : Bool) (signals : List Signal)
  | reset

/-- A session that was just opened, for a graph or without one. -/
inductive New : Session → Prop
  | empty : New .empty
  | ofGraph {α : Type} (g : Graph α) : New (.ofGraph g)

/-- The session after a call.  A message that is refused leaves it as it
is. -/
def after (s : Session) : Call → Session
  | .send message inputs =>
      match s.send message inputs with
      | .ok (s, _) => s
      | .error _ => s
  | .apply event => (s.apply event).1
  | .fail raw => (s.fail raw).1
  | .replay capture => (s.replay capture).1
  | .consume aborted signals => (s.consume aborted signals).1.session
  | .reset => s.reset

/-- The session after calls in turn. -/
def run (s : Session) (calls : List Call) : Session := calls.foldl after s

/-- Whether a call tells the current run something. -/
def Call.tells : Call → Bool
  | .send .. | .reset => false
  | .apply _ | .fail _ | .replay _ | .consume .. => true

variable {s s' : Session}

theorem New.reachable (h : s.New) : s.Reachable := by
  cases h with
  | empty => exact .empty
  | ofGraph g => exact .ofGraph g

theorem Reachable.after (h : s.Reachable) (call : Call) : (s.after call).Reachable := by
  cases call with
  | send message inputs =>
      unfold Session.after
      dsimp only
      split
      · rename_i hsend
        exact h.send hsend
      · exact h
  | apply event => exact h.apply event
  | fail raw => exact h.fail raw
  | replay capture => exact h.replay capture
  | consume aborted signals => exact h.consume aborted signals
  | reset => exact h.reset

/-- A call that tells the current run something is events and errors, one
after the other. -/
theorem steps_after (s : Session) {call : Call} (h : call.tells) : Steps s (s.after call) := by
  cases call with
  | send | reset => cases h
  | apply event => exact .single (.apply s event)
  | fail raw => exact .single (.fail s raw)
  | replay capture => exact s.steps_applyFrames _
  | consume aborted signals => exact s.steps_consume aborted signals

/-! ## §2. Sending. -/

/-- Whether an input was not given: it is missing, `null` or a text of
blanks. -/
def Unset (inputs : Fields) (name : String) : Prop :=
  inputs.lookup name = none ∨ inputs.lookup name = some .null
    ∨ ∃ text, inputs.lookup name = some (.str text) ∧ ∀ c ∈ text.toList, isBlank c

theorem trimBlanks_eq_nil_iff (cs : List Char) : trimBlanks cs = [] ↔ ∀ c ∈ cs, isBlank c := by
  unfold trimBlanks
  rw [List.reverse_eq_nil_iff, List.dropWhile_eq_nil_iff]
  constructor
  · intro h c hc
    -- What is dropped in front is blank, and all that is left is dropped behind.
    rw [← List.takeWhile_append_dropWhile (p := isBlank) (l := cs)] at hc
    rcases List.mem_append.1 hc with hfront | hrest
    · exact List.mem_takeWhile_imp hfront
    · exact h c (List.mem_reverse.2 hrest)
  · intro h c hc
    exact h c ((List.dropWhile_sublist _).mem (List.mem_reverse.1 hc))

theorem isUnset_iff (inputs : Fields) (name : String) :
    isUnset (inputs.lookup name) ↔ Unset inputs name := by
  unfold Unset
  cases inputs.lookup name with
  | none => simp [isUnset]
  | some value => cases value <;> simp [isUnset, trimBlanks_eq_nil_iff]

instance (inputs : Fields) : DecidablePred (Unset inputs) :=
  fun name => decidable_of_iff _ (isUnset_iff inputs name)

/-- The inputs that a run needs and that were not given, in the order of
their declaration. -/
def missing (s : Session) (inputs : Fields) : List String := s.required.filter (Unset inputs)

theorem missing_eq_nil_iff {inputs : Fields} :
    s.missing inputs = [] ↔ ∀ name ∈ s.required, ¬ Unset inputs name := by
  unfold missing
  rw [List.filter_eq_nil_iff]
  simp only [decide_eq_true_eq]

theorem filter_isUnset (s : Session) (inputs : Fields) :
    (s.required.filter fun name => isUnset (inputs.lookup name)) = s.missing inputs :=
  List.filter_congr fun name _ => by
    rw [Bool.eq_iff_iff, isUnset_iff, decide_eq_true_iff]

/-- A message that is refused. -/
theorem send_of_missing {inputs : Fields} (h : s.missing inputs ≠ []) (message : String) :
    s.send message inputs = .error ⟨s.missing inputs⟩ := by
  unfold send
  rw [filter_isUnset]
  split
  · rename_i hnil
    exact absurd hnil h
  · rfl

/-- A message that is sent. -/
theorem send_of_given {inputs : Fields} (h : s.missing inputs = []) (message : String) :
    s.send message inputs
      = .ok ({ s with entries := s.entries ++ [.user message, .assistant .streaming] },
          ⟨s.entries.length + 1, message, inputs, s.conversationId⟩) := by
  unfold send
  rw [filter_isUnset, h]
  dsimp only
  rw [List.length_append]
  rfl

/-- **A message is refused for inputs that were not given**, and for nothing
else; all of them are named. -/
theorem send_eq_error_iff {message : String} {inputs : Fields} {error : MissingInputs} :
    s.send message inputs = .error error
      ↔ (∃ name ∈ s.required, Unset inputs name) ∧ error.names = s.missing inputs := by
  have hsome : s.missing inputs ≠ [] ↔ ∃ name ∈ s.required, Unset inputs name := by
    rw [Ne, missing_eq_nil_iff]
    simp only [not_forall, not_not, exists_prop]
  rw [← hsome]
  constructor
  · intro h
    by_cases hnil : s.missing inputs = []
    · rw [send_of_given hnil] at h
      cases h
    · rw [send_of_missing hnil] at h
      obtain rfl := Except.error.inj h
      exact ⟨hnil, rfl⟩
  · rintro ⟨hnames, herror⟩
    rw [send_of_missing hnames, ← herror]

/-! ## §3. Turns. -/

/-- Entries in which user and assistant take turns. -/
inductive TakesTurns : List Entry → Prop
  | nil : TakesTurns []
  | concat {entries : List Entry} (text : String) (trace : Trace) :
      TakesTurns entries → TakesTurns (entries ++ [.user text, .assistant trace])

theorem TakesTurns.even_length {entries : List Entry} (h : TakesTurns entries) :
    Even entries.length := by
  induction h with
  | nil => exact Even.zero
  | concat text trace _ ih =>
      rw [List.length_append]
      exact ih.add even_two

/-- The parity of its place says who wrote an entry. -/
theorem TakesTurns.isUser_iff {entries : List Entry} (h : TakesTurns entries) {i : Nat}
    {entry : Entry} (hentry : entries[i]? = some entry) : entry.isUser ↔ Even i := by
  induction h with
  | nil => cases hentry
  | @concat entries text trace h ih =>
      by_cases hi : i < entries.length
      · exact ih (by rwa [List.getElem?_append_left hi] at hentry)
      · -- The places of the last turn come after an even number of others.
        obtain ⟨k, rfl⟩ := Nat.exists_eq_add_of_le (not_lt.1 hi)
        rw [List.getElem?_append_right (Nat.le_add_right _ _), Nat.add_sub_cancel_left] at hentry
        rw [Nat.even_add, iff_true_left h.even_length]
        match k, hentry with
        | 0, hentry =>
            obtain rfl := Option.some.inj hentry
            exact iff_of_true rfl Even.zero
        | 1, hentry =>
            obtain rfl := Option.some.inj hentry
            exact iff_of_false Bool.false_ne_true Nat.not_even_one

/-- Without a run there is nothing to tell. -/
theorem Steps.of_current?_none (h : Steps s s') (hnone : s.current? = none) : s' = s := by
  induction h with
  | refl => rfl
  | tail _ hstep ih =>
      subst ih
      cases hstep with
      | apply event =>
          unfold Session.apply
          rw [hnone]
      | fail raw =>
          unfold Session.fail
          rw [hnone]

/-- **What tells the current run something changes the last answer only.** -/
theorem Steps.entries (h : Steps s s') (hs : TakesTurns s.entries) :
    s' = s ∨ ∃ earlier text trace next, TakesTurns earlier
      ∧ s.entries = earlier ++ [.user text, .assistant trace]
      ∧ s'.entries = earlier ++ [.user text, .assistant next] := by
  generalize hentries : s.entries = entries at hs
  cases hs with
  | nil =>
      have hnone : s.current? = none := by
        rw [current?_eq, hentries]
        rfl
      exact .inl (h.of_current?_none hnone)
  | @concat earlier text trace hearlier =>
      -- The message of the last turn belongs to what stands before its answer.
      have hshows : s.Shows (earlier ++ [.user text]) trace [] := by
        show s.entries = _
        rw [hentries, List.append_assoc]
        rfl
      obtain ⟨next, hnext⟩ := h.shows hshows
      have hentries' : s'.entries = earlier ++ [.user text, .assistant next] := by
        rw [hnext, List.append_assoc]
        rfl
      exact .inr ⟨earlier, text, trace, next, hearlier, rfl, hentries'⟩

theorem Steps.takesTurns (h : Steps s s') (hs : TakesTurns s.entries) : TakesTurns s'.entries := by
  obtain rfl | ⟨earlier, text, _, next, hearlier, -, hentries⟩ := h.entries hs
  · exact hs
  · rw [hentries]
    exact hearlier.concat text next

/-- What tells the current run something leaves the history as long as it
is, and all of it but the last entry unchanged. -/
theorem Steps.kept (h : Steps s s') (hs : TakesTurns s.entries) :
    s'.entries.length = s.entries.length
      ∧ ∀ i, i + 1 < s.entries.length → s'.entries[i]? = s.entries[i]? := by
  obtain rfl | ⟨earlier, text, trace, next, -, hentries, hentries'⟩ := h.entries hs
  · exact ⟨rfl, fun _ _ => rfl⟩
  · rw [hentries, hentries']
    refine ⟨by simp, fun i hi => ?_⟩
    -- The answers stand behind the same entries.
    have hsplit (trace : Trace) : earlier ++ [Entry.user text, .assistant trace]
        = (earlier ++ [.user text]) ++ [.assistant trace] := by simp
    have hbefore : i < (earlier ++ [Entry.user text]).length := by simpa using hi
    rw [hsplit, hsplit, List.getElem?_append_left hbefore, List.getElem?_append_left hbefore]

/-- A message that is not refused adds a turn. -/
theorem after_send (s : Session) (message : String) (inputs : Fields) :
    s.after (.send message inputs)
      = if s.missing inputs = [] then
          { s with entries := s.entries ++ [.user message, .assistant .streaming] }
        else s := by
  unfold after
  dsimp only
  by_cases hnil : s.missing inputs = []
  · rw [if_pos hnil, send_of_given hnil]
  · rw [if_neg hnil, send_of_missing hnil]

theorem takesTurns_after (hs : TakesTurns s.entries) (call : Call) :
    TakesTurns (s.after call).entries := by
  cases call with
  | send message inputs =>
      rw [after_send]
      split
      · exact hs.concat message .streaming
      · exact hs
  | reset => exact .nil
  | apply | fail | replay | consume => exact (s.steps_after rfl).takesTurns hs

/-- **User and assistant take turns.** -/
theorem takesTurns_run (hs : TakesTurns s.entries) (calls : List Call) :
    TakesTurns (s.run calls).entries := by
  induction calls generalizing s with
  | nil => exact hs
  | cons call calls ih => exact ih (takesTurns_after hs call)

/-- **Only a reset changes an entry before the last one.** -/
theorem kept_after (hs : TakesTurns s.entries) {call : Call} (hcall : call ≠ .reset) {i : Nat}
    (hi : i + 1 < s.entries.length) : (s.after call).entries[i]? = s.entries[i]? := by
  cases call with
  | send message inputs =>
      rw [after_send]
      split
      · exact List.getElem?_append_left (by omega)
      · rfl
  | reset => exact absurd rfl hcall
  | apply | fail | replay | consume => exact ((s.steps_after rfl).kept hs).2 i hi

end Session

end WorkflowEditor.Run
