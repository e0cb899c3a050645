/-
  WorkflowEditor.Proofs.ChatHistory
  ─────────────────────────────────
  **A CHAT HAS THE CONVERSATION THAT IT HEARD OF LAST.**

  Events name the conversation that a run belongs to.  A session keeps a copy
  of its own, which the next message is sent with, and each run has one:

    • `named_apply` — an event that finds a run going on names the conversation
      to both,
    • `Steps.conversationId_congr` — so the entries say what the session knows,
    • `conversationId_consume` — and following a run hears the events that its
      stream brings,
    • `conversationId_run` — the conversation is the one that was named last
      since the last reset,
    • `history_kept` — this, the inputs that are asked for and the turns of the
      chat, of every session.
-/
import WorkflowEditor.Proofs.ChatTurns
import WorkflowEditor.Proofs.RequiredInputs

namespace WorkflowEditor.Run

/-! ## §1. What a run has told of its conversation. -/

/-- The conversation that an event names. -/
def Event.conversation? : Event → Option String
  | .workflowStart _ conversationId => conversationId
  | .message _ conversationId => conversationId
  | .nodeStart _ conversationId .. => conversationId
  | _ => none

/-- The conversation that was named last. -/
def lastNamed (events : List Event) : Option String :=
  (events.filterMap Event.conversation?).getLast?

theorem lastNamed_append (events more : List Event) :
    lastNamed (events ++ more) = (lastNamed more <|> lastNamed events) := by
  unfold lastNamed
  rw [List.filterMap_append, List.getLast?_append, Option.orElse_eq_orElse, Option.orElse_eq_or]

theorem lastNamed_cons (event : Event) (events : List Event) :
    lastNamed (event :: events) = (lastNamed events <|> event.conversation?) := by
  have hone : lastNamed [event] = event.conversation? := by
    unfold lastNamed
    cases hid : event.conversation? <;> simp [hid]
  rw [← hone]
  exact lastNamed_append [event] events

namespace Trace

theorem conversationId_take (t : Trace) (event : Event) :
    (t.take event).1.conversationId = (event.conversation? <|> t.conversationId) := by
  cases event with
  | workflowStart | message => rfl
  | nodeStart nodeId conversationId executionId timestamp =>
      unfold take
      dsimp only
      split <;> rfl
  | nodeEnd | nodeError =>
      unfold take
      dsimp only
      split <;> rfl
  | workflowEnd | ignored => rfl
  | failure payload => exact t.conversationId_fail payload

end Trace

namespace Session

variable {s s' : Session}

/-- Labels say nothing of the conversation. -/
theorem conversationId_advance (s : Session) (t : Trace) (event : Event) :
    (s.advance t event).1.conversationId = (t.apply event).1.conversationId := by
  unfold advance
  split
  · rename_i happly
    rw [happly]
    unfold label
    split <;> rfl
  · rfl

/-- Whether there is a run that is not over. -/
def goesOn (s : Session) : Bool := s.current?.any fun trace => !trace.status.isOver

theorem goesOn_iff :
    s.goesOn ↔ ∃ trace, s.current? = some trace ∧ ¬ trace.status.isOver := by
  unfold goesOn
  rw [Option.any_eq_true]
  simp only [Bool.not_eq_true', Bool.not_eq_true]

/-- Without a run that goes on an event changes nothing. -/
theorem apply_of_not_goesOn (ha : s.Agrees) (h : ¬ s.goesOn) (event : Event) :
    (s.apply event).1 = s := by
  have hsteps : Steps s (s.apply event).1 := .single (.apply s event)
  cases hcurrent : s.current? with
  | none => exact hsteps.of_current?_none hcurrent
  | some trace =>
      have hover : trace.status.isOver := by
        by_contra hgoing
        exact h (goesOn_iff.2 ⟨trace, hcurrent, hgoing⟩)
      exact apply_of_isOver ha (s.isOver_iff.2 ⟨trace, hcurrent, hover⟩) event

/-- The conversation that the current run has named. -/
def named (s : Session) : Option String := s.current?.bind Trace.conversationId

/-- What the current run has named, it has named to the session too. -/
theorem Agrees.named_orElse (ha : s.Agrees) :
    (s.named <|> s.conversationId) = s.conversationId := by
  unfold named
  cases hcurrent : s.current? with
  | none => rfl
  | some trace =>
      show (trace.conversationId <|> s.conversationId) = s.conversationId
      cases hid : trace.conversationId with
      | none => rfl
      | some id => exact (ha trace id hcurrent hid).symm

/-- **An event that finds a run going on names the conversation** of the run
and of the session, if it names any. -/
theorem named_apply (ha : s.Agrees) (h : s.goesOn) (event : Event) :
    (s.apply event).1.named = (event.conversation? <|> s.named)
      ∧ (s.apply event).1.conversationId = (event.conversation? <|> s.conversationId) := by
  obtain ⟨trace, hcurrent, hgoing⟩ := goesOn_iff.1 h
  have htold : (s.advance trace event).1.conversationId
      = (event.conversation? <|> trace.conversationId) := by
    rw [conversationId_advance]
    unfold Trace.apply
    rw [if_neg hgoing]
    exact Trace.conversationId_take _ event
  have hbefore : s.named = trace.conversationId := by
    unfold named
    rw [hcurrent]
    rfl
  have hsession : (s.apply event).1.conversationId
      = ((s.advance trace event).1.conversationId <|> s.conversationId) := by
    unfold Session.apply
    rw [hcurrent]
  have hrun : (s.apply event).1.named = (s.advance trace event).1.conversationId := by
    unfold named Session.apply
    rw [hcurrent]
    exact congrArg (Option.bind · _) (current?_replaced hcurrent _)
  refine ⟨by rw [hrun, htold, hbefore], ?_⟩
  rw [hsession, htold, ← hbefore]
  cases event.conversation? with
  | some id => rfl
  | none => exact ha.named_orElse

/-! ## §2. Events in turn. -/

/-- Takes events into the current run. -/
def applyEvents (s : Session) (events : List Event) : Session :=
  events.foldl (fun s event => (s.apply event).1) s

/-- Of events that come in turn, those that find a run that is not over. -/
def heard (s : Session) : List Event → List Event
  | [] => []
  | event :: rest =>
      if s.goesOn then event :: (s.apply event).1.heard rest else (s.apply event).1.heard rest

theorem heard_cons_of_goesOn (h : s.goesOn) (event : Event) (rest : List Event) :
    s.heard (event :: rest) = event :: (s.apply event).1.heard rest := if_pos h

theorem heard_cons_of_not_goesOn (ha : s.Agrees) (h : ¬ s.goesOn) (event : Event)
    (rest : List Event) : s.heard (event :: rest) = s.heard rest := by
  have hskip : s.heard (event :: rest) = (s.apply event).1.heard rest := if_neg h
  rw [hskip, apply_of_not_goesOn ha h]

/-- **The conversation of a session after events** is the one that was named
last of those that were heard, or the one before them. -/
theorem conversationId_applyEvents (ha : s.Agrees) (events : List Event) :
    (s.applyEvents events).conversationId = (lastNamed (s.heard events) <|> s.conversationId) := by
  induction events generalizing s with
  | nil => rfl
  | cons event rest ih =>
      show ((s.apply event).1.applyEvents rest).conversationId = _
      by_cases hgoing : s.goesOn
      · have hrest := ih ((Step.apply s event).agrees ha)
        rw [hrest, heard_cons_of_goesOn hgoing, (named_apply ha hgoing event).2, lastNamed_cons]
        cases lastNamed ((s.apply event).1.heard rest) <;> rfl
      · rw [apply_of_not_goesOn ha hgoing, heard_cons_of_not_goesOn ha hgoing, ih ha]

/-- The event of a frame, if its payload can be read. -/
def event? (frame : Sse.Frame) : Option Event := (Event.ofFrame frame).toOption

theorem applyFrames_eq (s : Session) (frames : List Sse.Frame) :
    s.applyFrames frames = s.applyEvents (frames.filterMap event?) := by
  induction frames generalizing s with
  | nil => rfl
  | cons frame frames ih =>
      show (s.applyFrame frame).applyFrames frames = _
      rw [ih]
      unfold applyFrame event?
      rw [List.filterMap_cons]
      cases Event.ofFrame frame with
      | ok event => rfl
      | error e => rfl

/-! ## §3. Runs that are followed. -/

/-- A run that fails from outside has named what it had named before. -/
theorem named_fail (s : Session) (raw : Json) :
    (s.fail raw).1.named = s.named ∧ (s.fail raw).1.conversationId = s.conversationId := by
  unfold named Session.fail
  cases hcurrent : s.current? with
  | none => exact ⟨by rw [hcurrent], rfl⟩
  | some trace =>
      dsimp only
      rw [current?_replaced hcurrent]
      exact ⟨trace.conversationId_fail raw, rfl⟩

/-- Events and errors name one conversation, to the run and to the session
alike, or none. -/
theorem Steps.exists_named (h : Steps s s') (ha : s.Agrees) :
    ∃ id, s'.named = (id <|> s.named) ∧ s'.conversationId = (id <|> s.conversationId) := by
  induction h with
  | refl => exact ⟨none, rfl, rfl⟩
  | @tail s₁ s₂ hsteps hstep ih =>
      obtain ⟨id, hnamed, hid⟩ := ih
      cases hstep with
      | apply event =>
          have hagrees : s₁.Agrees := Steps.agrees hsteps ha
          by_cases hgoing : s₁.goesOn
          · obtain ⟨hnamed', hid'⟩ := named_apply hagrees hgoing event
            -- What the event names goes before what was named so far.
            refine ⟨event.conversation? <|> id, ?_, ?_⟩
            · rw [hnamed', hnamed]
              cases event.conversation? <;> rfl
            · rw [hid', hid]
              cases event.conversation? <;> rfl
          · rw [apply_of_not_goesOn hagrees hgoing]
            exact ⟨id, hnamed, hid⟩
      | fail raw =>
          obtain ⟨hnamed', hid'⟩ := s₁.named_fail raw
          exact ⟨id, hnamed'.trans hnamed, hid'.trans hid⟩

/-- Events and errors that leave the same entries leave the same
conversation. -/
theorem Steps.conversationId_congr {s₁ s₂ : Session} (h₁ : Steps s s₁) (h₂ : Steps s s₂)
    (ha : s.Agrees) (hentries : s₁.entries = s₂.entries) :
    s₁.conversationId = s₂.conversationId := by
  -- A run that names nothing leaves the session with what it knew before.
  have hnamed {s' : Session} (h : Steps s s') :
      s'.conversationId = (s'.named <|> s.conversationId) := by
    obtain ⟨id, hnamed, hid⟩ := h.exists_named ha
    rw [hnamed, hid]
    cases id with
    | some id => rfl
    | none => exact ha.named_orElse.symm
  have hsame : s₁.named = s₂.named := by
    unfold named current?
    rw [hentries]
  rw [hnamed h₁, hnamed h₂, hsame]

/-- The events that a call brings, in order. -/
def Call.events : Call → List Event
  | .apply event => [event]
  | .replay capture => (Sse.Decoder.frames capture).filterMap event?
  | .consume aborted signals =>
      let (pieces, ending) := Signal.brings aborted signals
      (ending.frames .start pieces).filterMap event?
  | .send .. | .fail _ | .reset => []

theorem conversationId_closed (s : Session) (ending : Ending) :
    (s.closed ending).conversationId = s.conversationId := by
  unfold closed
  split
  · rfl
  · split
    · exact (s.named_fail _).2
    · rfl

theorem steps_closed (s : Session) (ending : Ending) : Steps s (s.closed ending) := by
  unfold closed
  split
  · exact .refl
  · split
    · exact .single (.fail s _)
    · exact .refl

/-- **Following a run hears the events that its stream brings.** -/
theorem conversationId_consume (ha : s.Agrees) (aborted : Bool) (signals : List Signal) :
    (s.consume aborted signals).1.session.conversationId
      = (s.applyEvents (Call.consume aborted signals).events).conversationId := by
  have hentries := s.entries_consume aborted signals
  unfold Call.events
  dsimp only
  generalize (Signal.brings aborted signals).1 = pieces at hentries ⊢
  generalize (Signal.brings aborted signals).2 = ending at hentries ⊢
  -- The reader may have stopped early, but the entries are the same as if it had not.
  have hread : Steps s ((s.applyFrames (ending.frames .start pieces)).closed ending) :=
    (s.steps_applyFrames _).trans (steps_closed _ ending)
  rw [(s.steps_consume aborted signals).conversationId_congr hread ha hentries,
    conversationId_closed, applyFrames_eq]

/-- **A call that is no reset** leaves the conversation that was named last
of the events that were heard, or the one before them. -/
theorem conversationId_after (ha : s.Agrees) {call : Call} (hcall : call ≠ .reset) :
    (s.after call).conversationId
      = (lastNamed (s.heard call.events) <|> s.conversationId) := by
  cases call with
  | send message inputs =>
      rw [after_send]
      split <;> rfl
  | reset => exact absurd rfl hcall
  | fail raw => exact (s.named_fail raw).2
  | apply event => exact conversationId_applyEvents ha [event]
  | replay capture =>
      rw [← conversationId_applyEvents ha]
      exact congrArg Session.conversationId (s.applyFrames_eq _)
  | consume aborted signals =>
      rw [← conversationId_applyEvents ha]
      exact conversationId_consume ha aborted signals

/-- The events that were heard since the last reset, with those from before
the calls in front. -/
def heardSince (s : Session) (earlier : List Event) : List Call → List Event
  | [] => earlier
  | .reset :: calls => s.reset.heardSince [] calls
  | call :: calls => (s.after call).heardSince (earlier ++ s.heard call.events) calls

theorem heardSince_cons (s : Session) (earlier : List Event) {call : Call}
    (hcall : call ≠ .reset) (calls : List Call) :
    s.heardSince earlier (call :: calls)
      = (s.after call).heardSince (earlier ++ s.heard call.events) calls := by
  cases call with
  | reset => exact absurd rfl hcall
  | send | apply | fail | replay | consume => rfl

/-- **The conversation of a session** is the one that was named last since the
last reset, by an event that found a run that was not over. -/
theorem conversationId_run (hs : s.Reachable) {earlier : List Event}
    (hearlier : s.conversationId = lastNamed earlier) (calls : List Call) :
    (s.run calls).conversationId = lastNamed (s.heardSince earlier calls) := by
  induction calls generalizing s earlier with
  | nil => exact hearlier
  | cons call calls ih =>
      show ((s.after call).run calls).conversationId = _
      by_cases hcall : call = .reset
      · subst hcall
        exact ih hs.reset rfl
      · rw [heardSince_cons s earlier hcall]
        refine ih (hs.after call) ?_
        rw [conversationId_after hs.agrees hcall, lastNamed_append, hearlier]

/-! ## §4. The history of a chat. -/

theorem Steps.required (h : Steps s s') : s'.required = s.required := by
  induction h with
  | refl => rfl
  | tail _ hstep ih =>
      rw [← ih]
      cases hstep with
      | apply event =>
          unfold Session.apply
          split <;> rfl
      | fail raw =>
          unfold Session.fail
          split <;> rfl

/-- What a run needs is learnt once. -/
theorem required_run (s : Session) (calls : List Call) : (s.run calls).required = s.required := by
  induction calls generalizing s with
  | nil => rfl
  | cons call calls ih =>
      refine (ih (s.after call)).trans ?_
      cases call with
      | send message inputs =>
          rw [after_send]
          split <;> rfl
      | reset => rfl
      | apply | fail | replay | consume => exact (s.steps_after rfl).required

/-- **The history of a chat.**  Whatever is asked of a session that was just
opened, in any order,

* a run needs the inputs that the workflow declares, in the order of their
  declaration, and none without a workflow;
* user and assistant take turns, and the assistant has the last word;
* a message is refused exactly if an input that a run needs is missing,
  `null` or blank.  All such inputs are named, in the order of their
  declaration, and nothing changes;
* any other message adds itself and a streaming answer, and the request holds
  the place of that answer and the conversation of the session;
* only a reset changes an entry before the last one, and only a message adds
  any;
* the conversation is the one that was named last since the last reset, by an
  event that found a run that was not over. -/
theorem history_kept {s₀ : Session} (hnew : s₀.New) (calls : List Call) :
    let s := s₀.run calls
    (s₀ = .empty → s₀.required = [])
      ∧ (∀ (α : Type) (g : Graph α), s₀ = .ofGraph g → DeclaredInOrder g s₀.required)
      ∧ (Even s.entries.length
        ∧ ∀ (i : Nat) entry, s.entries[i]? = some entry → (entry.isUser ↔ Even i))
      ∧ (∀ message inputs,
        ((∃ error, s.send message inputs = .error error)
            ↔ ∃ name ∈ s₀.required, Unset inputs name)
          ∧ (∀ error, s.send message inputs = .error error →
            error.names = s₀.required.filter (Unset inputs)
              ∧ s.after (.send message inputs) = s)
          ∧ ((∀ name ∈ s₀.required, ¬ Unset inputs name) → ∃ request,
            s.send message inputs = .ok (s.after (.send message inputs), request)
              ∧ (s.after (.send message inputs)).entries
                = s.entries ++ [.user message, .assistant .streaming]
              ∧ request.run = s.entries.length + 1
              ∧ request.message = message ∧ request.inputs = inputs
              ∧ request.conversationId = s.conversationId
              ∧ request.toJson.field? "conversation_id" = s.conversationId.map .str))
      ∧ (∀ call, call ≠ .reset → ∀ i, i + 1 < s.entries.length →
        (s.after call).entries[i]? = s.entries[i]?)
      ∧ (∀ call, call.tells → (s.after call).entries.length = s.entries.length)
      ∧ s.conversationId = lastNamed (s₀.heardSince [] calls) := by
  intro s
  have hempty : s₀.entries = [] ∧ s₀.conversationId = lastNamed [] := by
    cases hnew <;> exact ⟨rfl, rfl⟩
  have hturns : TakesTurns s.entries := by
    refine takesTurns_run ?_ calls
    rw [hempty.1]
    exact .nil
  have hrequired : s.required = s₀.required := s₀.required_run calls
  refine ⟨congrArg Session.required, fun _ g hg => hg ▸ declaredInOrder_ofGraph g,
    ⟨hturns.even_length, fun i entry hentry => hturns.isUser_iff hentry⟩,
    fun message inputs => ⟨?_, fun error herror => ?_, fun hgiven => ?_⟩,
    fun call hcall i hi => kept_after hturns hcall hi,
    fun call hcall => ((s.steps_after hcall).kept hturns).1,
    conversationId_run hnew.reachable hempty.2 calls⟩
  · rw [← hrequired]
    constructor
    · rintro ⟨error, herror⟩
      exact (send_eq_error_iff.1 herror).1
    · intro hunset
      exact ⟨⟨s.missing inputs⟩, send_eq_error_iff.2 ⟨hunset, rfl⟩⟩
  · have hnames := (send_eq_error_iff.1 herror).2
    unfold missing at hnames
    rw [hrequired] at hnames
    refine ⟨hnames, ?_⟩
    unfold Session.after
    dsimp only
    rw [herror]
  · have hnil : s.missing inputs = [] := missing_eq_nil_iff.2 (hrequired ▸ hgiven)
    rw [after_send, if_pos hnil]
    exact ⟨_, send_of_given hnil message, rfl, rfl, rfl, rfl, rfl, Request.field?_toJson _⟩

/-- A chat that is reset while a run goes on, a message that is refused, and
an event that comes when its run was aborted. -/
theorem history_kept_late :
    let question : Json := .obj [("name", .str "question"), ("required", .bool true)]
    let start : Node Rat :=
      ⟨"start", .start, "Start", ⟨0, 0⟩, ⟨240, 80⟩, ⟨[("variables", .arr [question])]⟩, none,
        [], []⟩
    let workflow : Graph Rat := { Graph.empty .standard with nodes := [start] }
    let s₀ : Session := .ofGraph workflow
    let inputs : Fields := [("question", .str "why")]
    let calls : List Call :=
      [.send "one" inputs, .apply (.message "" (some "old")), .reset,
        .send "two" [("question", .str " ")], .send "three" inputs,
        .apply (.workflowStart none (some "new")), .consume true [],
        .apply (.message "" (some "late"))]
    let s := s₀.run calls
    s₀.New ∧ DeclaredInOrder workflow ["question"]
      ∧ s.entries.length = 2 ∧ s.conversationId = some "new"
      ∧ s.send "four" [("question", .null)] = .error ⟨["question"]⟩
      ∧ ∃ s' request, s.send "four" inputs = .ok (s', request) ∧ request.run = 3
        ∧ request.conversationId = some "new" := by
  intro question start workflow s₀ inputs calls s
  have hnew : s₀.New := .ofGraph _
  obtain ⟨-, hdeclared, -, hsend, -, -, hid⟩ := history_kept hnew calls
  have hlength : s.entries.length = 2 := by decide +kernel
  have hheard : s.conversationId = some "new" := hid.trans (by decide +kernel)
  have hrequired : s₀.required = ["question"] := by decide +kernel
  have hneeded : DeclaredInOrder workflow ["question"] := hrequired ▸ hdeclared Rat workflow rfl
  rw [hrequired] at hsend
  have hunset : ∃ name ∈ ["question"], Unset [("question", .null)] name := by decide +kernel
  have hset : ∀ name ∈ ["question"], ¬ Unset inputs name := by decide +kernel
  obtain ⟨hrefused, hnames, -⟩ := hsend "four" [("question", .null)]
  obtain ⟨⟨names⟩, herror⟩ := hrefused.2 hunset
  obtain rfl : names = ["question"] := (hnames _ herror).1
  obtain ⟨request, hok, -, hplace, -, -, hconversation, -⟩ := (hsend "four" inputs).2.2 hset
  exact ⟨hnew, hneeded, hlength, hheard, herror, _, request, hok, by rw [hplace, hlength],
    hconversation.trans hheard⟩

end Session

end WorkflowEditor.Run
