/-
  WorkflowEditor.Proofs.Interleaving
  ──────────────────────────────────
  **EVENTS OF DIFFERENT NODES DO NOT MIND EACH OTHER.**

  Nodes run side by side, so their events come in any order.  A trace keeps
  an entry for each node, and an event about one node reads and writes the
  entry of that node only:

    • `Trace.node?_take` — what an event does to the entry of any node,
    • `Trace.grown_after` — so an entry is what the events about its node make
      of it, and the text what the chunks make of it,
    • `Trace.Agrees.after` — traces that agree still do after the same
      reports,
    • `Trace.after_interleaved` — so the order between nodes shows in the
      order of the entries only.
-/
import WorkflowEditor.Proofs.RunTraces

namespace WorkflowEditor.Run

/-! ## §1. What an event is about. -/

namespace Event

/-- The node that an event is about. -/
def node? : Event → Option String
  | .nodeStart nodeId .. | .nodeEnd nodeId .. | .nodeError nodeId .. => some nodeId
  | _ => none

/-- Whether an event is about the node with an id. -/
def isAbout (id : String) (event : Event) : Bool := event.node? == some id

/-- Whether an event ends the run. -/
def ends : Event → Bool
  | .workflowEnd .. | .failure _ => true
  | _ => false

/-- The text that an event brings. -/
def chunk? (event : Event) : Option String := (Report.event event).chunk?

/-- What an event makes of the entry of the node that it is about. -/
def revise (event : Event) (entry : Option NodeTrace) : Option NodeTrace :=
  match event with
  | .nodeStart nodeId .. =>
      some (match entry with
        | some entry => entry.restarted
        | none => .started nodeId)
  | .nodeEnd _ input output elapsed status =>
      entry.map fun entry =>
        { entry with
          status := status.getD .completed
          input := input
          output := output
          elapsed := elapsed }
  | .nodeError _ input error elapsed =>
      entry.map fun entry =>
        { entry with
          status := .failed
          input := input
          output := .null
          error := some error
          elapsed := elapsed }
  | _ => entry

end Event

namespace Trace

/-! ## §2. One event. -/

/-- Revising the entry of one node leaves those of all others. -/
theorem node?_reviseNode (t : Trace) (nodeId id : String) {f : NodeTrace → NodeTrace}
    (hf : ∀ entry, (f entry).nodeId = entry.nodeId) :
    (t.reviseNode nodeId f).node? id
      = if nodeId = id then (t.node? id).map f else t.node? id := by
  have hsame : ((fun entry : NodeTrace => entry.nodeId == id) ∘ fun entry =>
      if entry.nodeId = nodeId then f entry else entry) = fun entry => entry.nodeId == id := by
    funext entry
    show ((if entry.nodeId = nodeId then f entry else entry).nodeId == id) = _
    split
    · rw [hf]
    · rfl
  unfold reviseNode node?
  rw [List.find?_map, hsame]
  cases hfound : t.nodes.find? fun entry => entry.nodeId == id with
  | none => simp
  | some entry =>
      have hid : entry.nodeId = id := by simpa using List.find?_some hfound
      rw [Option.map_some, hid]
      by_cases hnode : nodeId = id
      · rw [if_pos hnode.symm, if_pos hnode]
        rfl
      · rw [if_neg (Ne.symm hnode), if_neg hnode]

/-- Adding an entry behind the others leaves them. -/
theorem node?_started (t : Trace) {nodeId : String} (hnew : t.node? nodeId = none) (id : String) :
    ({ t with nodes := t.nodes ++ [.started nodeId] } : Trace).node? id
      = if nodeId = id then some (.started nodeId) else t.node? id := by
  unfold node? at hnew ⊢
  rw [List.find?_append]
  by_cases hnode : nodeId = id
  · subst hnode
    rw [hnew, if_pos rfl]
    simp [NodeTrace.started]
  · rw [if_neg hnode]
    simp [NodeTrace.started, hnode]

/-- An event about a node without an entry leaves that without one. -/
theorem node?_ifKnown (t : Trace) (nodeId id : String) {f : NodeTrace → NodeTrace}
    (hf : ∀ entry, (f entry).nodeId = entry.nodeId) :
    ((if (t.node? nodeId).isSome then (t.reviseNode nodeId f, true) else (t, false)).1.node? id)
      = if nodeId = id then (t.node? id).map f else t.node? id := by
  by_cases hknown : (t.node? nodeId).isSome
  · rw [if_pos hknown]
    exact t.node?_reviseNode nodeId id hf
  · rw [if_neg hknown]
    split
    · rename_i hnode
      subst hnode
      rw [Option.not_isSome_iff_eq_none.1 hknown]
      rfl
    · rfl

/-- **An event revises the entry of the node that it is about**, and no
other. -/
theorem node?_take (t : Trace) (event : Event) (id : String) :
    (t.take event).1.node? id
      = if event.node? = some id then event.revise (t.node? id) else t.node? id := by
  cases event with
  | nodeStart nodeId conversationId executionId timestamp =>
      -- The ids of the run and of the conversation are no part of an entry.
      show (if (t.node? nodeId).isSome then t.reviseNode nodeId NodeTrace.restarted
          else { t with nodes := t.nodes ++ [.started nodeId] } : Trace).node? id
        = if some nodeId = some id then _ else _
      simp only [Option.some_inj]
      cases hknown : t.node? nodeId with
      | some entry =>
          have hrestarted : ∀ entry, (NodeTrace.restarted entry).nodeId = entry.nodeId :=
            fun _ => rfl
          rw [Option.isSome_some, if_pos rfl, t.node?_reviseNode nodeId id hrestarted]
          by_cases hnode : nodeId = id
          · subst hnode
            rw [if_pos rfl, if_pos rfl, hknown]
            rfl
          · rw [if_neg hnode, if_neg hnode]
      | none =>
          rw [if_neg (by simp), t.node?_started hknown]
          by_cases hnode : nodeId = id
          · subst hnode
            rw [if_pos rfl, if_pos rfl, hknown]
            rfl
          · rw [if_neg hnode, if_neg hnode]
  | nodeEnd nodeId | nodeError nodeId =>
      show _ = if some nodeId = some id then _ else _
      simp only [Option.some_inj]
      exact t.node?_ifKnown nodeId id fun _ => rfl
  | failure payload =>
      show (t.fail payload).1.node? id = t.node? id
      unfold fail
      split <;> rfl
  | workflowStart | message | workflowEnd | ignored => rfl

/-- An event adds one entry at most, and that for a node without one. -/
theorem ids_take (t : Trace) (event : Event) :
    (t.take event).1.nodes.map NodeTrace.nodeId = t.nodes.map NodeTrace.nodeId
    ∨ ∃ nodeId ∉ t.nodes.map NodeTrace.nodeId, (t.take event).1.nodes.map NodeTrace.nodeId
      = t.nodes.map NodeTrace.nodeId ++ [nodeId] := by
  cases event with
  | nodeStart nodeId =>
      unfold take
      dsimp only
      split
      · exact .inl (t.map_nodeId_reviseNode nodeId fun _ => rfl)
      · rename_i hnew
        exact .inr ⟨nodeId, mt node?_isSome_iff.2 hnew, List.map_append⟩
  | nodeEnd nodeId | nodeError nodeId =>
      unfold take
      dsimp only
      split
      · exact .inl (t.map_nodeId_reviseNode nodeId fun _ => rfl)
      · exact .inl rfl
  | failure payload =>
      show (t.fail payload).1.nodes.map _ = _ ∨ _
      unfold fail
      split <;> exact .inl rfl
  | workflowStart | message | workflowEnd | ignored => exact .inl rfl

/-- An event that does not end the run leaves it going on, with the text
longer by the chunk that it brings. -/
theorem open_take (t : Trace) {event : Event} (hgoing : ¬ event.ends) :
    (t.take event).1.status = t.status
    ∧ (t.take event).1.content
      = event.chunk?.toList.foldl (fun text chunk => some (text.getD "" ++ chunk)) t.content
    ∧ (t.take event).1.failure = t.failure ∧ (t.take event).1.error = t.error
    ∧ (t.take event).1.elapsed = t.elapsed := by
  cases event with
  | nodeStart | nodeEnd | nodeError =>
      unfold take
      dsimp only
      split <;> exact ⟨rfl, rfl, rfl, rfl, rfl⟩
  | workflowEnd | failure => exact absurd rfl hgoing
  | workflowStart | message | ignored => exact ⟨rfl, rfl, rfl, rfl, rfl⟩

theorem apply_of_streaming {t : Trace} (h : t.status = .streaming) (event : Event) :
    t.apply event = t.take event := by
  have hopen : ¬ t.status.isOver := by
    rw [h]
    exact Bool.false_ne_true
  have hsame : { t with status := .streaming } = t := by
    rw [← h]
  unfold apply
  rw [if_neg hopen, hsame]

/-- No node has two entries. -/
theorem nodup_ids_receive {t : Trace} (h : (t.nodes.map NodeTrace.nodeId).Nodup)
    (report : Report) : ((t.receive report).1.nodes.map NodeTrace.nodeId).Nodup := by
  by_cases hover : t.status.isOver
  · rw [receive_of_isOver hover]
    exact h
  cases report with
  | failure raw =>
      have hfail : (t.receive (.failure raw)).1.nodes = t.nodes := by
        show (t.fail raw).1.nodes = t.nodes
        unfold fail
        split <;> rfl
      rw [hfail]
      exact h
  | event event =>
      -- The status is no part of an entry, so what an idle run takes in is like any other.
      have happly : t.receive (.event event) = ({ t with status := .streaming }).take event :=
        if_neg hover
      rw [happly]
      rcases ids_take { t with status := .streaming } event with hsame | ⟨nodeId, hnew, hids⟩
      · rw [hsame]
        exact h
      · rw [hids]
        exact h.append (List.nodup_singleton _) (by simpa using hnew)

theorem nodup_ids_after {t : Trace} (h : (t.nodes.map NodeTrace.nodeId).Nodup)
    (reports : List Report) : ((t.after reports).nodes.map NodeTrace.nodeId).Nodup := by
  induction reports generalizing t with
  | nil => exact h
  | cons report reports ih => exact ih (nodup_ids_receive h report)

/-! ## §3. Events that do not end the run. -/

/-- What a streaming run shows after events of which none ends it: each entry
is what the events about its node make of it, and the text is longer by the
chunks. -/
structure Grown (t t' : Trace) (events : List Event) : Prop where
  status : t'.status = .streaming
  content : t'.content
    = (events.filterMap Event.chunk?).foldl (fun text chunk => some (text.getD "" ++ chunk))
      t.content
  failure : t'.failure = t.failure
  error : t'.error = t.error
  elapsed : t'.elapsed = t.elapsed
  entry : ∀ id, t'.node? id
    = (events.filter (Event.isAbout id)).foldl (fun entry event => event.revise entry)
      (t.node? id)

theorem grown_take {t : Trace} (h : t.status = .streaming) {event : Event}
    (hgoing : ¬ event.ends) : t.Grown (t.take event).1 [event] := by
  obtain ⟨hstatus, hcontent, hfailure, herror, helapsed⟩ := t.open_take hgoing
  refine ⟨hstatus.trans h, ?_, hfailure, herror, helapsed, fun id => ?_⟩
  · rw [hcontent]
    cases hchunk : event.chunk? <;> simp [hchunk]
  · rw [node?_take]
    by_cases habout : event.node? = some id <;> simp [Event.isAbout, habout]

theorem Grown.trans {t t' t'' : Trace} {events more : List Event} (h : t.Grown t' events)
    (h' : t'.Grown t'' more) : t.Grown t'' (events ++ more) where
  status := h'.status
  content := by rw [h'.content, h.content, List.filterMap_append, List.foldl_append]
  failure := h'.failure.trans h.failure
  error := h'.error.trans h.error
  elapsed := h'.elapsed.trans h.elapsed
  entry id := by rw [h'.entry, h.entry, List.filter_append, List.foldl_append]

/-- **An entry is what the events about its node make of it**, and the text
is what the chunks make of it. -/
theorem grown_after {t : Trace} (h : t.status = .streaming) {events : List Event}
    (hgoing : ∀ event ∈ events, ¬ event.ends) :
    t.Grown (t.after (events.map .event)) events := by
  induction events generalizing t with
  | nil => exact ⟨h, rfl, rfl, rfl, rfl, fun _ => rfl⟩
  | cons event events ih =>
      have hfirst : t.Grown (t.take event).1 [event] :=
        grown_take h (hgoing event List.mem_cons_self)
      have hrest := ih hfirst.status fun other hother =>
        hgoing other (List.mem_cons_of_mem _ hother)
      show t.Grown (((t.apply event).1).after (events.map .event)) ([event] ++ events)
      rw [apply_of_streaming h]
      exact hfirst.trans hrest

/-! ## §4. Two traces side by side. -/

/-- Two traces that show the same, but for the order of their entries. -/
structure Agrees (t t' : Trace) : Prop where
  status : t.status = t'.status
  content : t.content = t'.content
  failure : t.failure = t'.failure
  error : t.error = t'.error
  elapsed : t.elapsed = t'.elapsed
  entry : ∀ id, t.node? id = t'.node? id

/-- What goes on agreeing: the same event is taken in by both. -/
theorem Agrees.take {t t' : Trace} (h : t.Agrees t') (event : Event) :
    (t.take event).1.Agrees (t'.take event).1 := by
  have hentry : ∀ id, (t.take event).1.node? id = (t'.take event).1.node? id := by
    intro id
    rw [node?_take, node?_take, h.entry id]
  -- Of the events that end the run, one trims the text and the other one drops it.
  by_cases hgoing : event.ends
  · cases event with
    | workflowEnd status error elapsed =>
        have hcontent : t.content.filter (· != "") = t'.content.filter (· != "") := by
          rw [h.content]
        exact ⟨rfl, hcontent, h.failure, rfl, rfl, hentry⟩
    | failure payload =>
        show (t.fail payload).1.Agrees (t'.fail payload).1
        unfold fail
        rw [h.status]
        split
        · exact h
        · exact ⟨rfl, rfl, rfl, h.error, h.elapsed, h.entry⟩
    | workflowStart | message | nodeStart | nodeEnd | nodeError | ignored => cases hgoing
  · obtain ⟨hstatus, hcontent, hfailure, herror, helapsed⟩ := t.open_take hgoing
    obtain ⟨hstatus', hcontent', hfailure', herror', helapsed'⟩ := t'.open_take hgoing
    refine ⟨?_, ?_, ?_, ?_, ?_, hentry⟩
    · rw [hstatus, hstatus', h.status]
    · rw [hcontent, hcontent', h.content]
    · rw [hfailure, hfailure', h.failure]
    · rw [herror, herror', h.error]
    · rw [helapsed, helapsed', h.elapsed]

theorem Agrees.receive {t t' : Trace} (h : t.Agrees t') (report : Report) :
    (t.receive report).1.Agrees (t'.receive report).1 := by
  by_cases hover : t.status.isOver
  · rw [receive_of_isOver hover, receive_of_isOver (h.status ▸ hover)]
    exact h
  have hover' : ¬ t'.status.isOver := h.status ▸ hover
  cases report with
  | event event =>
      have hlive : ({ t with status := .streaming } : Trace).Agrees
          { t' with status := .streaming } :=
        ⟨rfl, h.content, h.failure, h.error, h.elapsed, h.entry⟩
      show (t.apply event).1.Agrees (t'.apply event).1
      unfold apply
      rw [if_neg hover, if_neg hover']
      exact hlive.take event
  | failure raw =>
      show (t.fail raw).1.Agrees (t'.fail raw).1
      unfold fail
      rw [if_neg hover, if_neg hover']
      exact ⟨rfl, rfl, rfl, h.error, h.elapsed, h.entry⟩

/-- **Traces that agree still do after the same reports.** -/
theorem Agrees.after {t t' : Trace} (h : t.Agrees t') (reports : List Report) :
    (t.after reports).Agrees (t'.after reports) := by
  induction reports generalizing t t' with
  | nil => exact h
  | cons report reports ih => exact ih (h.receive report)

/-- Two traces that grew out of one by events that differ in the order
between nodes only. -/
theorem Grown.agrees {start t t' : Trace} {events events' : List Event}
    (h : start.Grown t events) (h' : start.Grown t' events')
    (hnodes : ∀ id, events.filter (Event.isAbout id) = events'.filter (Event.isAbout id))
    (hchunks : events.filterMap Event.chunk? = events'.filterMap Event.chunk?) :
    t.Agrees t' where
  status := h.status.trans h'.status.symm
  content := by rw [h.content, h'.content, hchunks]
  failure := h.failure.trans h'.failure.symm
  error := h.error.trans h'.error.symm
  elapsed := h.elapsed.trans h'.elapsed.symm
  entry id := by rw [h.entry, h'.entry, hnodes]

/-- Without a second entry for a node, looking a node up finds every
entry. -/
theorem mem_nodes_iff {t : Trace} (h : (t.nodes.map NodeTrace.nodeId).Nodup)
    {entry : NodeTrace} : entry ∈ t.nodes ↔ t.node? entry.nodeId = some entry := by
  unfold node?
  constructor
  · intro hentry
    cases hfound : t.nodes.find? fun other => other.nodeId == entry.nodeId with
    | none => exact absurd (List.find?_eq_none.1 hfound entry hentry) (by simp)
    | some other =>
        have hsame : other.nodeId = entry.nodeId := by simpa using List.find?_some hfound
        rw [List.inj_on_of_nodup_map h (List.mem_of_find?_eq_some hfound) hentry hsame]
  · exact List.mem_of_find?_eq_some

/-- Traces that agree have the same entries, in some order. -/
theorem Agrees.perm {t t' : Trace} (h : t.Agrees t') (hids : (t.nodes.map NodeTrace.nodeId).Nodup)
    (hids' : (t'.nodes.map NodeTrace.nodeId).Nodup) : t.nodes.Perm t'.nodes := by
  refine (List.perm_ext_iff_of_nodup (List.Nodup.of_map _ hids) (List.Nodup.of_map _ hids')).2 ?_
  intro entry
  rw [mem_nodes_iff hids, mem_nodes_iff hids', h.entry]

/-- **The order between nodes does not matter.**  Two sequences of events that
do not end the run, with the same events about each node and the same chunks
in order, leave the same run: where it stands, its text, what went wrong and
the entry of each node are the same, also after whatever both are told next;
only the entries may stand in another order. -/
theorem after_interleaved {events events' : List Event}
    (hgoing : ∀ event ∈ events, ¬ event.ends) (hgoing' : ∀ event ∈ events', ¬ event.ends)
    (hnodes : ∀ id, events.filter (Event.isAbout id) = events'.filter (Event.isAbout id))
    (hchunks : events.filterMap Event.chunk? = events'.filterMap Event.chunk?)
    (rest : List Report) :
    let t := Trace.streaming.after (events.map .event ++ rest)
    let t' := Trace.streaming.after (events'.map .event ++ rest)
    t.status = t'.status ∧ t.content = t'.content ∧ t.failure = t'.failure
      ∧ t.error = t'.error ∧ t.elapsed = t'.elapsed
      ∧ (∀ id, t.node? id = t'.node? id) ∧ t.nodes.Perm t'.nodes := by
  intro t t'
  have hgrown : Trace.streaming.Grown (Trace.streaming.after (events.map .event)) events :=
    grown_after rfl hgoing
  have hgrown' : Trace.streaming.Grown (Trace.streaming.after (events'.map .event)) events' :=
    grown_after rfl hgoing'
  have hagrees : t.Agrees t' := by
    show (Trace.streaming.after _).Agrees (Trace.streaming.after _)
    -- The two agree when the events are over, and so they do after the same reports.
    rw [after_append, after_append]
    exact (hgrown.agrees hgrown' hnodes hchunks).after rest
  have hids (reports : List Report) :
      ((Trace.streaming.after reports).nodes.map NodeTrace.nodeId).Nodup :=
    nodup_ids_after (t := Trace.streaming) List.nodup_nil reports
  exact ⟨hagrees.status, hagrees.content, hagrees.failure, hagrees.error, hagrees.elapsed,
    hagrees.entry, hagrees.perm (hids _) (hids _)⟩

/-- Two nodes side by side, of which one fails and is started again, and a
run that then ends. -/
theorem after_interleaved_restarted :
    let start (id : String) := Event.nodeStart id none none none
    let broken := Event.nodeError "a" .null (.str "timeout") none
    let done := Event.nodeEnd "b" .null (.str "yes") none none
    let said (chunk : String) := Event.message chunk none
    let events := [start "a", said "Hel", start "b", broken, done, said "lo", start "a"]
    let events' := [start "b", done, start "a", broken, start "a", said "Hel", said "lo"]
    let rest := [Report.event (.workflowEnd .completed none none)]
    let t := Trace.streaming.after (events.map .event ++ rest)
    let t' := Trace.streaming.after (events'.map .event ++ rest)
    (∀ event ∈ events, ¬ event.ends) ∧ (∀ event ∈ events', ¬ event.ends)
      ∧ (∀ id, events.filter (Event.isAbout id) = events'.filter (Event.isAbout id))
      ∧ events.filterMap Event.chunk? = events'.filterMap Event.chunk?
      ∧ t.content = t'.content ∧ t.node? "a" = t'.node? "a" ∧ t.nodes.Perm t'.nodes
      ∧ t.content = some "Hello" ∧ t.nodes.map NodeTrace.nodeId = ["a", "b"]
      ∧ t'.nodes.map NodeTrace.nodeId = ["b", "a"] := by
  intro start broken done said events events' rest t t'
  have hgoing : ∀ event ∈ events, ¬ event.ends := by
    simp [events, start, broken, done, said, Event.ends]
  have hgoing' : ∀ event ∈ events', ¬ event.ends := by
    simp [events', start, broken, done, said, Event.ends]
  have hnodes : ∀ id, events.filter (Event.isAbout id) = events'.filter (Event.isAbout id) := by
    intro id
    by_cases ha : "a" = id
    · subst ha
      rfl
    · by_cases hb : "b" = id <;>
        simp [events, events', start, broken, done, said, Event.isAbout, Event.node?, ha, hb]
  have hchunks : events.filterMap Event.chunk? = events'.filterMap Event.chunk? := rfl
  obtain ⟨-, hcontent, -, -, -, hentry, hperm⟩ :=
    after_interleaved hgoing hgoing' hnodes hchunks rest
  exact ⟨hgoing, hgoing', hnodes, hchunks, hcontent, hentry "a", hperm, rfl, rfl, rfl⟩

end Trace

end WorkflowEditor.Run
