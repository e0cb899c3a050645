/-
  WorkflowEditor.Proofs.CompletedForms
  ────────────────────────────────────
  **A FORM THAT WAS COMPLETED CAN BE STORED AND READ.**

  The form of a language model may have any values in the place of its
  memory and of its messages, of any type.  Completing gives an enabled
  memory what storing and reading move about, and touches nothing else:

    • `Codec.completeMemory_of_enabled` — what completing sets,
    • `Codec.Completes` — and that it sets no more than was missing,
    • `Codec.completes_completeMemory` — for every form,
    • `Codec.completeMemory_completeMemory` — nothing is missing then,
    • `Codec.decode_encode_completeMemory` — and storing can be undone,
    • `Kind.completed_form_restored` — together.
-/
import WorkflowEditor.Proofs.EditedForms

namespace WorkflowEditor

namespace Codec

variable {form held : Fields}

/-! ## §1. What completing sets. -/

/-- A form whose messages are a list. -/
def withMessages (form : Fields) : Fields :=
  match (form.lookup "messages").bind Json.arr? with
  | some _ => form
  | none => form.insert "messages" (.arr [])

/-- A memory that has a message. -/
def prompted (held : Fields) : Fields :=
  if held.has "messages" then held else held ++ [("messages", memoryPrompt)]

theorem withMessages_of_arr {items : List Json}
    (h : form.lookup "messages" = some (.arr items)) : withMessages form = form := by
  unfold withMessages
  rw [Json.bind_arr?_eq_some.2 h]

theorem withMessages_of_other (h : ∀ items, form.lookup "messages" ≠ some (.arr items)) :
    withMessages form = form.insert "messages" (.arr []) := by
  have hnone : (form.lookup "messages").bind Json.arr? = none :=
    Option.eq_none_iff_forall_ne_some.2 fun items hitems =>
      h items (Json.bind_arr?_eq_some.1 hitems)
  unfold withMessages
  rw [hnone]

/-- There is a list of messages, whatever there was before. -/
theorem exists_lookup_withMessages (form : Fields) :
    ∃ items, (withMessages form).lookup "messages" = some (.arr items) := by
  by_cases h : ∃ items, form.lookup "messages" = some (.arr items)
  · obtain ⟨items, hitems⟩ := h
    exact ⟨items, by rw [withMessages_of_arr hitems, hitems]⟩
  · exact ⟨[], by rw [withMessages_of_other (not_exists.1 h), Fields.lookup_insert_self]⟩

theorem lookup_withMessages_ne {key : String} (h : key ≠ "messages") :
    (withMessages form).lookup key = form.lookup key := by
  unfold withMessages
  split
  · rfl
  · exact Fields.lookup_insert_ne _ _ h

theorem prompted_of_mem (h : "messages" ∈ held.keys) : prompted held = held :=
  if_pos (Fields.has_iff.2 h)

theorem prompted_of_not_mem (h : "messages" ∉ held.keys) :
    prompted held = held ++ [("messages", memoryPrompt)] :=
  if_neg (mt Fields.has_iff.1 h)

theorem messages_mem_prompted (held : Fields) : "messages" ∈ (prompted held).keys := by
  by_cases h : "messages" ∈ held.keys
  · rwa [prompted_of_mem h]
  · rw [prompted_of_not_mem h]
    simp [Fields.keys]

theorem nodup_prompted (h : held.keys.Nodup) : (prompted held).keys.Nodup := by
  by_cases hmem : "messages" ∈ held.keys
  · rwa [prompted_of_mem hmem]
  · rw [prompted_of_not_mem hmem]
    exact Fields.nodup_concat.2 ⟨h, hmem⟩

/-- A memory that is not enabled is left alone. -/
theorem completeMemory_of_disabled (h : ¬ memoryEnabled form) : completeMemory form = form :=
  if_neg h

/-- A memory is given its message, where it lacks one. -/
theorem insert_prompted (hmemory : form.lookup "memory" = some (.obj held)) :
    (if Fields.has held "messages" then form
      else form.insert "memory" (.obj (Fields.insert held "messages" memoryPrompt)))
      = form.insert "memory" (.obj (prompted held)) := by
  by_cases hhas : "messages" ∈ held.keys
  · rw [prompted_of_mem hhas, Fields.insert_eq_self hmemory]
    exact if_pos (Fields.has_iff.2 hhas)
  · rw [prompted_of_not_mem hhas,
      ← Fields.insert_of_lookup_none (Fields.lookup_eq_none_iff.2 hhas)]
    exact if_neg (mt Fields.has_iff.1 hhas)

/-- **Completing an enabled memory** sets the messages and the memory, where
something is missing there. -/
theorem completeMemory_of_enabled (hmemory : form.lookup "memory" = some (.obj held))
    (henable : held.lookup "enable" = some (.bool true)) :
    completeMemory form = (withMessages form).insert "memory" (.obj (prompted held)) := by
  unfold completeMemory withMessages
  rw [if_pos (memoryEnabled_iff.2 ⟨held, hmemory, henable⟩)]
  cases (form.lookup "messages").bind Json.arr? with
  | some items =>
      dsimp only
      rw [Json.bind_obj?_eq_some.2 hmemory]
      exact insert_prompted hmemory
  | none =>
      have hkept : (form.insert "messages" (.arr [])).lookup "memory" = some (.obj held) :=
        (Fields.lookup_insert_ne _ _ (by decide)).trans hmemory
      dsimp only
      rw [Json.bind_obj?_eq_some.2 hkept]
      exact insert_prompted hkept

/-! ## §2. Nothing else is touched. -/

/-- One form is another one with what its memory lacks, if that is enabled: a list
of messages and a message of its own. -/
structure Completes (form completed : Fields) : Prop where
  disabled : ¬ memoryEnabled form → completed = form
  keys : completed.keys = form.keys ++
    if memoryEnabled form ∧ "messages" ∉ form.keys then ["messages"] else []
  others : ∀ key, key ≠ "messages" → key ≠ "memory" → completed.lookup key = form.lookup key
  listed : ∀ items, form.lookup "messages" = some (.arr items) →
    completed.lookup "messages" = some (.arr items)
  unlisted : memoryEnabled form → (∀ items, form.lookup "messages" ≠ some (.arr items)) →
    completed.lookup "messages" = some (.arr [])
  memory : memoryEnabled form → ∀ held : Fields, form.lookup "memory" = some (.obj held) →
    ("messages" ∈ held.keys → completed.lookup "memory" = some (.obj held))
    ∧ ("messages" ∉ held.keys →
      completed.lookup "memory" = some (.obj (held ++ [("messages", memoryPrompt)])))

/-- A list of messages that was missing goes last. -/
theorem keys_withMessages (form : Fields) :
    (withMessages form).keys
      = form.keys ++ if "messages" ∉ form.keys then ["messages"] else [] := by
  by_cases hmem : "messages" ∈ form.keys
  · have hthere : form.lookup "messages" ≠ none :=
      fun hnone => Fields.lookup_eq_none_iff.1 hnone hmem
    rw [if_neg (not_not.2 hmem), List.append_nil]
    unfold withMessages
    split
    · rfl
    · exact Fields.keys_insert_of_lookup hthere _
  · have hnone : form.lookup "messages" = none := Fields.lookup_eq_none_iff.2 hmem
    have hother : ∀ items, form.lookup "messages" ≠ some (.arr items) := by
      rw [hnone]
      exact fun _ => nofun
    rw [if_pos hmem, withMessages_of_other hother, Fields.insert_of_lookup_none hnone]
    exact List.map_append

/-- **Completing touches nothing but what is missing.** -/
theorem completes_completeMemory (form : Fields) : Completes form (completeMemory form) := by
  by_cases henabled : memoryEnabled form
  case neg =>
    rw [completeMemory_of_disabled henabled]
    constructor
    case disabled => exact fun _ => rfl
    case others => exact fun _ _ _ => rfl
    case listed => exact fun _ h => h
    case keys => rw [if_neg fun h => henabled h.1, List.append_nil]
    case unlisted | memory => exact fun h => absurd h henabled
  case pos =>
    obtain ⟨held, hmemory, henable⟩ := memoryEnabled_iff.1 henabled
    have hother : "messages" ≠ "memory" := by decide
    rw [completeMemory_of_enabled hmemory henable]
    constructor
    case disabled => exact fun h => absurd henabled h
    case keys =>
      have hthere : (withMessages form).lookup "memory" ≠ none := by
        rw [lookup_withMessages_ne hother.symm, hmemory]
        exact nofun
      rw [Fields.keys_insert_of_lookup hthere, keys_withMessages]
      simp only [henabled, true_and]
    case others =>
      intro key hmessages hmemory
      rw [Fields.lookup_insert_ne _ _ hmemory, lookup_withMessages_ne hmessages]
    case listed =>
      intro items hitems
      rw [Fields.lookup_insert_ne _ _ hother, withMessages_of_arr hitems, hitems]
    case unlisted =>
      intro _ hnone
      rw [Fields.lookup_insert_ne _ _ hother, withMessages_of_other hnone,
        Fields.lookup_insert_self]
    case memory =>
      intro _ found hfound
      obtain rfl : held = found := Json.obj.inj (Option.some.inj (hmemory.symm.trans hfound))
      rw [Fields.lookup_insert_self]
      exact ⟨fun h => by rw [prompted_of_mem h], fun h => by rw [prompted_of_not_mem h]⟩

/-! ## §3. Nothing is missing then. -/

/-- **A form that was completed fits**, whatever it was before. -/
theorem memoryFits_completed (hmemory : form.lookup "memory" = some (.obj held))
    (henable : held.lookup "enable" = some (.bool true)) (hkeys : held.keys.Nodup) :
    MemoryFits (completeMemory form) := by
  have hother : "messages" ≠ "memory" := by decide
  rw [completeMemory_of_enabled hmemory henable]
  refine ⟨?_, ⟨_, Fields.lookup_insert_self _ _ _, _, rfl, nodup_prompted hkeys⟩,
    fun found hfound _ => ?_⟩
  · obtain ⟨items, hitems⟩ := exists_lookup_withMessages form
    exact ⟨_, (Fields.lookup_insert_ne _ _ hother).trans hitems, items, rfl⟩
  · rw [Fields.lookup_insert_self] at hfound
    obtain rfl := Json.obj.inj (Option.some.inj hfound)
    exact Option.ne_none_iff_exists'.1 fun hnone =>
      Fields.lookup_eq_none_iff.1 hnone (messages_mem_prompted held)

/-- **A form that was completed is complete.** -/
theorem completeMemory_completeMemory (form : Fields) :
    completeMemory (completeMemory form) = completeMemory form := by
  by_cases henabled : memoryEnabled form
  · obtain ⟨held, hmemory, henable⟩ := memoryEnabled_iff.1 henabled
    obtain ⟨items, hitems⟩ := exists_lookup_withMessages form
    rw [completeMemory_of_enabled hmemory henable,
      completeMemory_eq ((Fields.lookup_insert_ne _ _ (by decide)).trans hitems)
        (Fields.lookup_insert_self _ _ _)]
    exact if_neg fun h => h.2 (Fields.has_iff.2 (messages_mem_prompted held))
  · rw [completeMemory_of_disabled henabled, completeMemory_of_disabled henabled]

/-- **What was completed is put behind the messages and taken back.** -/
theorem decode_encode_completeMemory (hkeyed : form.Keyed) :
    (decodeMemory (encodeMemory (completeMemory form))).Same (completeMemory form) := by
  by_cases henabled : memoryEnabled form
  · obtain ⟨held, hmemory, henable⟩ := memoryEnabled_iff.1 henabled
    have hheld : Fields.Keyed held := hkeyed.lookup hmemory
    exact decode_encodeMemory (memoryFits_completed hmemory henable hheld.nodup)
  · rw [completeMemory_of_disabled henabled, encodeMemory_of_disabled henabled]
    unfold decodeMemory
    rw [if_neg henabled]
    exact Fields.same_refl form

theorem nodup_completeMemory (hkeys : form.keys.Nodup) : (completeMemory form).keys.Nodup := by
  rw [(completes_completeMemory form).keys]
  split
  · rename_i hmissing
    exact hkeys.append (List.nodup_singleton _) (by simpa using hmissing.2)
  · rwa [List.append_nil]

end Codec

/-! ## §4. The form of a language model. -/

/-- **A form that was completed can be stored and read**, whatever values stand in
the place of its memory and of its messages: it comes back up to the order of
keys.  Completing it again changes nothing, and completing it did not change
anything but a list of messages that was missing and a message that an enabled
memory lacked. -/
theorem Kind.completed_form_restored {form : Form} (hkeyed : form.fields.Keyed) :
    let completed := Kind.llm.completeForm form
    (Kind.llm.decodeConfig (Kind.llm.encodeForm completed)).Same completed
      ∧ Kind.llm.completeForm completed = completed
      ∧ Codec.Completes form.fields completed.fields := by
  intro completed
  have hnodup : completed.fields.keys.Nodup := Codec.nodup_completeMemory hkeyed.nodup
  refine ⟨.obj ?_ hnodup (Codec.decode_encode_completeMemory hkeyed), ?_,
    Codec.completes_completeMemory form.fields⟩
  · exact nodup_decodeConfig .llm (nodup_encodeForm .llm hnodup)
  · exact congrArg Form.mk (Codec.completeMemory_completeMemory form.fields)

/-- An enabled memory without a message, in a form whose messages are a text: the
text gives way to a list, and the memory is given its first message. -/
theorem Kind.completed_form_restored_mistyped :
    let held : Fields := [("enable", .bool true), ("window_size", .int 20)]
    let form : Form := ⟨[("messages", .str "none yet"), ("memory", .obj held)]⟩
    let completed := Kind.llm.completeForm form
    form.fields.Keyed
      ∧ (Kind.llm.decodeConfig (Kind.llm.encodeForm completed)).Same completed
      ∧ completed.get? "messages" = some (.arr [])
      ∧ completed.get? "memory" = some (.obj (held ++ [("messages", Codec.memoryPrompt)]))
      ∧ Kind.llm.completeForm completed = completed := by
  intro held form completed
  have hheld : Fields.Keyed held := by
    refine .obj (by decide) ?_
    simp only [held, List.forall_mem_cons, List.not_mem_nil, false_imp_iff, implies_true, and_true]
    exact ⟨.bool _, .num _⟩
  have hkeyed : form.fields.Keyed := by
    refine .obj (by decide) ?_
    simp only [form, List.forall_mem_cons, List.not_mem_nil, false_imp_iff, implies_true, and_true]
    exact ⟨.str _, hheld⟩
  obtain ⟨hsame, hagain, hcompletes⟩ := Kind.completed_form_restored hkeyed
  have henabled : Codec.memoryEnabled form.fields := by decide
  refine ⟨hkeyed, hsame, hcompletes.unlisted henabled fun _ => nofun, ?_, hagain⟩
  exact (hcompletes.memory henabled held rfl).2 (by decide)

end WorkflowEditor
