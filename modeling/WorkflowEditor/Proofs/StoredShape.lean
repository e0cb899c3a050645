/-
  WorkflowEditor.Proofs.StoredShape
  ─────────────────────────────────
  **A CONFIGURATION THAT IS READ AND STORED TAKES A SHAPE THAT LASTS.**

  What a codec stores has a shape of its own, whatever it was given to read,
  and a configuration of that shape is stored as it was read:

    • `Codec.Stored` — the shape of each codec,
    • `Codec.encode_decode` — a configuration of that shape comes back,
    • `Codec.stored_encode_decode` — any configuration comes back in it,
    • `Kind.restored_restored` — so reading and storing twice is the same as
      doing it once, for every kind.
-/
import WorkflowEditor.Proofs.KeyOrder
import WorkflowEditor.Proofs.TextInBase64

namespace WorkflowEditor

namespace Codec

variable {config : Fields}

/-! ## §1. The last message of a memory. -/

/-- A memory is enabled if it is an object and says so. -/
theorem memoryEnabled_iff :
    memoryEnabled config ↔ ∃ held : Fields, config.lookup "memory" = some (.obj held)
      ∧ held.lookup "enable" = some (.bool true) := by
  have htrue (found : Option Bool) : found.getD false = true ↔ found = some true := by
    cases found <;> simp
  unfold memoryEnabled
  rw [htrue, Json.bind_bool?_eq_some, Json.bind_field?_eq_some]

section Memory

variable {held : Fields} {messages : List Json} {last : Json}

/-- Reading an enabled memory takes the last message. -/
theorem decodeMemory_eq (hmemory : config.lookup "memory" = some (.obj held))
    (henable : List.lookup "enable" held = some (.bool true))
    (hmessages : config.lookup "messages" = some (.arr (messages ++ [last]))) :
    decodeMemory config = (config.insert "messages" (.arr messages)).insert "memory"
      (.obj (Fields.insert held "messages" last)) := by
  unfold decodeMemory
  rw [if_pos (memoryEnabled_iff.2 ⟨held, hmemory, henable⟩), hmemory, hmessages]
  simp only [Option.bind_some, Json.arr?, Json.obj?, List.getLast?_concat, List.dropLast_concat]

/-- Reading does nothing else. -/
theorem decodeMemory_cases (config : Fields) :
    decodeMemory config = config
      ∨ ∃ held messages last, config.lookup "memory" = some (.obj held)
        ∧ List.lookup "enable" held = some (.bool true)
        ∧ config.lookup "messages" = some (.arr (messages ++ [last])) := by
  by_cases henabled : memoryEnabled config
  · obtain ⟨held, hmemory, henable⟩ := memoryEnabled_iff.1 henabled
    unfold decodeMemory
    rw [if_pos henabled]
    split
    · rename_i messages _ hmessages _
      split
      · rename_i last hlast
        obtain ⟨init, rfl⟩ := List.getLast?_eq_some_iff.1 hlast
        exact Or.inr ⟨held, init, last, hmemory, henable, Json.bind_arr?_eq_some.1 hmessages⟩
      · exact Or.inl rfl
    · exact Or.inl rfl
  · exact Or.inl (if_neg henabled)

/-- The messages that a memory's message goes behind. -/
def messagesOf (config : Fields) : List Json :=
  ((config.lookup "messages").bind Json.arr?).getD []

/-- Storing an enabled memory puts its message behind the others. -/
theorem encodeMemory_eq (hmemory : config.lookup "memory" = some (.obj held))
    (henable : List.lookup "enable" held = some (.bool true))
    (hlast : List.lookup "messages" held = some last) :
    encodeMemory config
      = (config.insert "memory" (.obj (Fields.eraseSwap held "messages"))).insert "messages"
        (.arr (messagesOf config ++ [last])) := by
  have hother : "messages" ≠ "memory" := by decide
  unfold encodeMemory messagesOf
  rw [if_pos (memoryEnabled_iff.2 ⟨held, hmemory, henable⟩), hmemory]
  simp only [Option.bind_some, Json.obj?, hlast, Fields.lookup_insert_ne _ _ hother]

/-- An enabled memory without a message is stored as it is. -/
theorem encodeMemory_of_none (hmemory : config.lookup "memory" = some (.obj held))
    (hlast : List.lookup "messages" held = none) : encodeMemory config = config := by
  unfold encodeMemory
  split
  · rw [hmemory]
    simp only [Option.bind_some, Json.obj?, hlast]
  · rfl

theorem encodeMemory_of_disabled (h : ¬ memoryEnabled config) : encodeMemory config = config :=
  if_neg h

end Memory

/-- An enabled memory is stored without a message. -/
def MemoryStored (config : Fields) : Prop :=
  ∀ held, config.lookup "memory" = some (.obj held) →
    List.lookup "enable" held = some (.bool true) → List.lookup "messages" held = none

/-- **The message that an enabled memory takes when it is read** goes back when
it is stored. -/
theorem encode_decodeMemory (h : MemoryStored config) :
    encodeMemory (decodeMemory config) = config := by
  have hother : "messages" ≠ "memory" := by decide
  rcases decodeMemory_cases config with
    hkept | ⟨held, messages, last, hmemory, henable, hmessages⟩
  · -- Nothing was taken, and there is no message to put back.
    rw [hkept]
    by_cases henabled : memoryEnabled config
    · obtain ⟨held, hmemory, henable⟩ := memoryEnabled_iff.1 henabled
      exact encodeMemory_of_none hmemory (h held hmemory henable)
    · exact encodeMemory_of_disabled henabled
  · -- The message that is taken goes last into the memory, and is taken from there.
    have hnone := h held hmemory henable
    let taken := Fields.insert held "messages" last
    let read := (config.insert "messages" (.arr messages)).insert "memory" (.obj taken)
    have hmemory' : read.lookup "memory" = some (.obj taken) := Fields.lookup_insert_self _ _ _
    have henable' : List.lookup "enable" taken = some (.bool true) :=
      (Fields.lookup_insert_ne _ _ (by decide)).trans henable
    have hlast : List.lookup "messages" taken = some last := Fields.lookup_insert_self _ _ _
    have hmessages' : messagesOf read = messages := by
      unfold messagesOf
      rw [Fields.lookup_insert_ne _ _ hother, Fields.lookup_insert_self]
      rfl
    have hswap : Fields.eraseSwap taken "messages" = held := by
      show Fields.eraseSwap (Fields.insert held "messages" last) "messages" = held
      rw [Fields.insert_of_lookup_none hnone, Fields.eraseSwap_append]
    rw [decodeMemory_eq hmemory henable hmessages, encodeMemory_eq hmemory' henable' hlast,
      hmessages', hswap, Fields.insert_insert, Fields.insert_comm hother.symm,
      Fields.insert_insert, Fields.insert_eq_self hmessages, Fields.insert_eq_self hmemory]
    rw [Fields.lookup_insert_ne _ _ hother.symm, hmemory]
    exact nofun

/-- Storing leaves no message in an enabled memory. -/
theorem memoryStored_encode (h : ∀ held : Fields, config.lookup "memory" = some (.obj held) →
    held.keys.Nodup) : MemoryStored (encodeMemory config) := by
  intro held hmemory henable
  by_cases henabled : memoryEnabled config
  · obtain ⟨before, hmemory', henable'⟩ := memoryEnabled_iff.1 henabled
    cases hlast : List.lookup "messages" before with
    | none =>
        rw [encodeMemory_of_none hmemory' hlast, hmemory'] at hmemory
        obtain rfl : before = held := Json.obj.inj (Option.some.inj hmemory)
        exact hlast
    | some last =>
        rw [encodeMemory_eq hmemory' henable' hlast, Fields.lookup_insert_ne _ _ (by decide),
          Fields.lookup_insert_self] at hmemory
        obtain rfl := Json.obj.inj (Option.some.inj hmemory)
        exact Fields.lookup_eraseSwap_self (h before hmemory') "messages"
  · rw [encodeMemory_of_disabled henabled] at hmemory
    exact absurd (memoryEnabled_iff.2 ⟨held, hmemory, henable⟩) henabled

/-! ## §2. The settings of a retrieval. -/

/-- The query of a retrieval. -/
def queryOf (config : Fields) : Fields := config.filter fun entry => entry.1 == "query"

/-- The settings of a retrieval. -/
def settingsOf (config : Fields) : Fields :=
  config.filter fun entry => entry.1 != "query" && entry.1 != knowledgeKey

/-- The query stands first, and nothing is gathered. -/
def KnowledgeStored (config : Fields) : Prop := queryOf config ++ settingsOf config = config

/-- Entries that are dropped one by one leave the others, in another order
perhaps. -/
theorem foldl_eraseSwap_perm (hkeys : config.keys.Nodup) (dropped : Fields) :
    (dropped.foldl (fun left entry => Fields.eraseSwap left entry.1) config).Perm
      (config.filter fun entry => entry.1 ∉ dropped.keys) := by
  induction dropped generalizing config with
  | nil => simp [Fields.keys]
  | cons entry dropped ih =>
      refine (ih (Fields.nodup_eraseSwap hkeys entry.1)).trans ?_
      refine ((Fields.eraseSwap_perm hkeys entry.1).filter _).trans (List.Perm.of_eq ?_)
      unfold Fields.erase Fields.keys
      rw [List.filter_filter]
      refine List.filter_congr fun other _ => ?_
      rw [Bool.eq_iff_iff]
      simp only [Bool.and_eq_true, decide_eq_true_eq, bne_iff_ne, List.map_cons, List.mem_cons,
        not_or]
      exact and_comm

/-- All entries but the query and what was gathered are settings. -/
theorem mem_keys_settingsOf {entry : String × Json} (h : entry ∈ config) :
    entry.1 ∈ (settingsOf config).keys ↔ entry.1 ≠ "query" ∧ entry.1 ≠ knowledgeKey := by
  unfold settingsOf Fields.keys
  constructor
  · intro hmem
    obtain ⟨other, hother, heq⟩ := List.mem_map.1 hmem
    rw [← heq]
    simpa using (List.mem_filter.1 hother).2
  · exact fun hne => List.mem_map_of_mem (List.mem_filter.2 ⟨h, by simpa using hne⟩)

/-- There is one query at most. -/
theorem eq_queryOf_of_perm (hkeys : config.keys.Nodup) {left : Fields}
    (h : left.Perm (queryOf config)) : left = queryOf config := by
  have hnodup : (queryOf config).keys.Nodup := hkeys.sublist (List.filter_sublist.map Prod.fst)
  have hquery : ∀ entry ∈ queryOf config, entry.1 = "query" := fun entry hentry =>
    beq_iff_eq.1 (List.mem_filter.1 hentry).2
  match hlist : queryOf config with
  | [] => exact List.perm_nil.1 (hlist ▸ h)
  | [entry] => exact List.perm_singleton.1 (hlist ▸ h)
  | first :: second :: rest =>
      -- Both would be entries of the query.
      rw [hlist] at hnodup hquery
      have hsame : first.1 = second.1 :=
        (hquery first (by simp)).trans (hquery second (by simp)).symm
      exact absurd (hsame ▸ List.mem_cons_self) (List.nodup_cons.1 hnodup).1

theorem nodup_query_settings (hkeys : config.keys.Nodup) :
    Fields.keys (queryOf config ++ settingsOf config) |>.Nodup := by
  unfold Fields.keys
  rw [List.map_append]
  refine List.Nodup.append ?_ ?_ ?_
  · exact hkeys.sublist (List.filter_sublist.map Prod.fst)
  · exact hkeys.sublist (List.filter_sublist.map Prod.fst)
  · intro key hquery hsetting
    obtain ⟨entry, hentry, rfl⟩ := List.mem_map.1 hquery
    obtain ⟨hmem, hkey⟩ := List.mem_filter.1 hentry
    exact ((mem_keys_settingsOf hmem).1 hsetting).1 (beq_iff_eq.1 hkey)

/-- **Reading and storing a retrieval puts the query first** and keeps the
settings in order. -/
theorem encode_decodeKnowledge (hkeys : config.keys.Nodup) :
    encodeKnowledge (decodeKnowledge config) = queryOf config ++ settingsOf config := by
  let settings := settingsOf config
  let left := settings.foldl (fun left entry => Fields.eraseSwap left entry.1) config
  have hread : decodeKnowledge config = Fields.insert left knowledgeKey (.obj settings) := rfl
  have hleft : left.Perm (config.filter fun entry => entry.1 ∉ settings.keys) :=
    foldl_eraseSwap_perm hkeys settings
  have hnodup : left.keys.Nodup :=
    Fields.nodup_keys_of_perm hleft.symm (hkeys.sublist (List.filter_sublist.map Prod.fst))
  -- What is neither gathered nor a setting is the query.
  have hquery : (Fields.erase (config.filter fun entry => entry.1 ∉ settings.keys) knowledgeKey)
      = queryOf config := by
    unfold Fields.erase queryOf
    rw [List.filter_filter]
    refine List.filter_congr fun entry hentry => ?_
    rw [Bool.eq_iff_iff, Bool.and_eq_true, decide_eq_true_eq, bne_iff_ne, beq_iff_eq,
      mem_keys_settingsOf hentry]
    constructor
    · rintro ⟨hne, hnot⟩
      by_contra hquery
      exact hnot ⟨hquery, hne⟩
    · rintro heq
      exact ⟨by rw [heq]; decide, fun hnot => hnot.1 heq⟩
  have hswap : Fields.eraseSwap (Fields.insert left knowledgeKey (.obj settings)) knowledgeKey
      = queryOf config := by
    refine eq_queryOf_of_perm hkeys ?_
    refine (Fields.eraseSwap_perm (Fields.nodup_insert hnodup _ _) _).trans ?_
    rw [Fields.erase_insert, ← hquery]
    exact hleft.filter _
  unfold encodeKnowledge
  rw [hread, hswap, Fields.lookup_insert_self]
  exact Fields.insertAll_eq_append (nodup_query_settings hkeys)

/-- What two filters leave that exclude each other is taken apart by them. -/
theorem filter_append_filter {p q : String × Json → Bool} (hexclude : ∀ entry, p entry → ¬ q entry)
    (entries : Fields) :
    (entries.filter p ++ entries.filter q).filter p = entries.filter p
      ∧ (entries.filter p ++ entries.filter q).filter q = entries.filter q := by
  have hnone : (entries.filter q).filter p = [] := by
    refine List.filter_eq_nil_iff.2 fun entry hentry hp => ?_
    exact hexclude entry hp (List.mem_filter.1 hentry).2
  have hnone' : (entries.filter p).filter q = [] := by
    refine List.filter_eq_nil_iff.2 fun entry hentry => ?_
    exact hexclude entry (List.mem_filter.1 hentry).2
  have htwice (r : String × Json → Bool) : (entries.filter r).filter r = entries.filter r :=
    List.filter_eq_self.2 fun entry hentry => (List.mem_filter.1 hentry).2
  constructor
  · rw [List.filter_append, hnone, List.append_nil, htwice]
  · rw [List.filter_append, hnone', List.nil_append, htwice]

/-- A retrieval that was stored has its query first. -/
theorem knowledgeStored_encode (hkeys : config.keys.Nodup) :
    KnowledgeStored (encodeKnowledge (decodeKnowledge config)) := by
  have hexclude (entry : String × Json) (hquery : entry.1 == "query") :
      ¬ (entry.1 != "query" && entry.1 != knowledgeKey) := by
    simp [beq_iff_eq.1 hquery]
  obtain ⟨hqueries, hsettings⟩ := filter_append_filter hexclude config
  rw [encode_decodeKnowledge hkeys]
  exact congrArg₂ (· ++ ·) hqueries hsettings

/-! ## §3. Rows. -/

section Rows

variable {nameKey key : String}

/-- What is stored under a key is no array, and if it is an object its keys
are distinct. -/
def RowsStored (key : String) (config : Fields) : Prop :=
  (∀ items, config.lookup key ≠ some (.arr items))
    ∧ ∀ entries : Fields, config.lookup key = some (.obj entries) → entries.keys.Nodup

theorem RowsStored.congr {config' : Fields} (h : RowsStored key config)
    (hlookup : config.lookup key = config'.lookup key) : RowsStored key config' := by
  unfold RowsStored at *
  rw [← hlookup]
  exact h

/-- An object is read as a row for each entry. -/
theorem decodeRows_of_obj {entries : Fields} (h : config.lookup key = some (.obj entries)) :
    decodeRows nameKey key config = config.insert key (.arr (toRows nameKey entries)) := by
  unfold decodeRows
  rw [h]
  rfl

theorem decodeRows_of_other (h : ∀ entries, config.lookup key ≠ some (.obj entries)) :
    decodeRows nameKey key config = config := by
  unfold decodeRows
  split
  · rename_i entries hentries
    exact absurd (Json.bind_obj?_eq_some.1 hentries) (h entries)
  · rfl

/-- Rows are stored as the entries of an object. -/
theorem encodeRows_of_arr {items : List Json} (h : config.lookup key = some (.arr items)) :
    encodeRows nameKey key config = config.insert key (.obj (ofRows nameKey items)) := by
  unfold encodeRows
  rw [h]
  rfl

theorem encodeRows_of_other (h : ∀ items, config.lookup key ≠ some (.arr items)) :
    encodeRows nameKey key config = config := by
  unfold encodeRows
  split
  · rename_i items hitems
    exact absurd (Json.bind_arr?_eq_some.1 hitems) (h items)
  · rfl

/-- Rows that name the entries of an object stand for them. -/
theorem ofRows_toRows (hname : nameKey ≠ "value") {entries : Fields}
    (hkeys : entries.keys.Nodup) : ofRows nameKey (toRows nameKey entries) = entries := by
  have hrow (entry : String × Json) :
      pairOfRow? nameKey (.obj [(nameKey, .str entry.1), ("value", entry.2)]) = some entry := by
    have hvalue : List.lookup "value" [(nameKey, Json.str entry.1), ("value", entry.2)]
        = some entry.2 := by
      rw [Fields.lookup_cons_ne _ _ hname, Fields.lookup_cons_self]
    simp only [pairOfRow?, Json.field?, Fields.lookup_cons_self, hvalue, Option.bind_some,
      Json.str?, Option.map_some, Option.getD_some]
  unfold ofRows toRows
  rw [List.filterMap_map]
  have hall : entries.filterMap (pairOfRow? nameKey ∘ fun entry =>
      .obj [(nameKey, .str entry.1), ("value", entry.2)]) = entries := by
    refine (List.filterMap_congr fun entry _ => hrow entry).trans ?_
    exact List.filterMap_some
  rw [hall, Fields.insertAll_nil hkeys]

/-- **Rows that were read off an object make the object again.** -/
theorem encode_decodeRows (hname : nameKey ≠ "value") (h : RowsStored key config) :
    encodeRows nameKey key (decodeRows nameKey key config) = config := by
  by_cases hobj : ∃ entries, config.lookup key = some (.obj entries)
  · obtain ⟨entries, hentries⟩ := hobj
    rw [decodeRows_of_obj hentries, encodeRows_of_arr (Fields.lookup_insert_self _ _ _),
      ofRows_toRows hname (h.2 entries hentries), Fields.insert_insert,
      Fields.insert_eq_self hentries]
  · rw [decodeRows_of_other (not_exists.1 hobj), encodeRows_of_other h.1]

/-- No object is left under a key that was read. -/
theorem lookup_decodeRows_ne_obj (nameKey key : String) (config entries : Fields) :
    (decodeRows nameKey key config).lookup key ≠ some (.obj entries) := by
  by_cases hobj : ∃ entries, config.lookup key = some (.obj entries)
  · obtain ⟨found, hfound⟩ := hobj
    rw [decodeRows_of_obj hfound, Fields.lookup_insert_self]
    exact fun h => nomatch Option.some.inj h
  · rw [decodeRows_of_other (not_exists.1 hobj)]
    exact not_exists.1 hobj entries

/-- Rows are stored as an object with distinct keys. -/
theorem rowsStored_encode (nameKey : String)
    (h : ∀ entries, config.lookup key ≠ some (.obj entries)) :
    RowsStored key (encodeRows nameKey key config) := by
  by_cases harr : ∃ items, config.lookup key = some (.arr items)
  · obtain ⟨items, hitems⟩ := harr
    unfold RowsStored
    rw [encodeRows_of_arr hitems, Fields.lookup_insert_self]
    refine ⟨(fun _ h => nomatch Option.some.inj h), fun entries hentries => ?_⟩
    obtain rfl := Json.obj.inj (Option.some.inj hentries)
    exact Fields.nodup_insertAll Fields.keyed_nil.nodup _
  · rw [encodeRows_of_other (not_exists.1 harr)]
    exact ⟨not_exists.1 harr, fun entries hentries => absurd hentries (h entries)⟩

end Rows

/-- Rows are read under one key, and other keys do not show it. -/
theorem lookup_decodeRows_ne (nameKey : String) {key other : String} (h : other ≠ key)
    (config : Fields) : (decodeRows nameKey key config).lookup other = config.lookup other := by
  unfold decodeRows
  split
  · exact Fields.lookup_insert_ne _ _ h
  · rfl

theorem lookup_encodeRows_ne (nameKey : String) {key other : String} (h : other ≠ key)
    (config : Fields) : (encodeRows nameKey key config).lookup other = config.lookup other := by
  unfold encodeRows
  split
  · exact Fields.lookup_insert_ne _ _ h
  · rfl

theorem groupMode_congr {config config' : Fields}
    (h : config.lookup "group" = config'.lookup "group") :
    groupMode config = groupMode config' := by
  unfold groupMode
  rw [h]

/-- Reading the groups does not touch the switch that says whether there are
any. -/
theorem groupMode_decodeRows :
    groupMode (decodeRows "key" "group_variables" config) ↔ groupMode config := by
  rw [groupMode_congr (lookup_decodeRows_ne _ (by decide) _)]

theorem decode_groups_of_mode (h : groupMode config) :
    groups.decode config = decodeRows "key" "group_variables" config := if_pos h

theorem decode_groups_of_flat (h : ¬ groupMode config) : groups.decode config = config := if_neg h

theorem encode_groups_of_mode (h : groupMode config) :
    groups.encode config = encodeRows "key" "group_variables" config := if_pos h

theorem encode_groups_of_flat (h : ¬ groupMode config) : groups.encode config = config := if_neg h

/-! ## §4. Texts in base64. -/

/-- A text under a key stands for a text. -/
def TextStored (key : String) (config : Fields) : Prop :=
  ∀ stored, config.lookup key = some (.str stored) → ∃ text, stored = encodedText text

theorem encodeBase64_of_str {key text : String} (h : config.lookup key = some (.str text)) :
    encodeBase64 key config = config.insert key (.str (encodedText text)) := by
  unfold encodeBase64
  rw [h]
  rfl

theorem encodeBase64_of_other {key : String} (h : ∀ text, config.lookup key ≠ some (.str text)) :
    encodeBase64 key config = config := by
  unfold encodeBase64
  split
  · rename_i text htext
    exact absurd (Json.bind_str?_eq_some.1 htext) (h text)
  · rfl

theorem decodeBase64_of_encoded {key text : String}
    (h : config.lookup key = some (.str (encodedText text))) :
    decodeBase64 key config = config.insert key (.str text) := by
  unfold decodeBase64
  simp only [h, Option.bind_some, Json.str?, decodedText?_encodedText]

theorem decodeBase64_of_other {key : String} (h : ∀ text, config.lookup key ≠ some (.str text)) :
    decodeBase64 key config = config := by
  unfold decodeBase64
  split
  · rename_i text htext
    obtain ⟨stored, hstored, -⟩ := Option.bind_eq_some_iff.1 htext
    exact absurd (Json.bind_str?_eq_some.1 hstored) (h stored)
  · rfl

/-- **Text that was decoded is encoded to the same text again**, and text that
could not be decoded was left as it was. -/
theorem encode_decodeBase64 {key : String} (h : TextStored key config) :
    encodeBase64 key (decodeBase64 key config) = config := by
  by_cases hstr : ∃ stored, config.lookup key = some (.str stored)
  · obtain ⟨stored, hstored⟩ := hstr
    obtain ⟨text, rfl⟩ := h stored hstored
    rw [decodeBase64_of_encoded hstored, encodeBase64_of_str (Fields.lookup_insert_self _ _ _),
      Fields.insert_insert, Fields.insert_eq_self hstored]
  · rw [decodeBase64_of_other (not_exists.1 hstr), encodeBase64_of_other (not_exists.1 hstr)]

theorem textStored_encode (key : String) (config : Fields) :
    TextStored key (encodeBase64 key config) := by
  intro stored hstored
  by_cases hstr : ∃ text, config.lookup key = some (.str text)
  · obtain ⟨text, htext⟩ := hstr
    rw [encodeBase64_of_str htext, Fields.lookup_insert_self] at hstored
    exact ⟨text, (Json.str.inj (Option.some.inj hstored)).symm⟩
  · rw [encodeBase64_of_other (not_exists.1 hstr)] at hstored
    exact absurd ⟨stored, hstored⟩ hstr

/-! ## §5. One codec. -/

theorem nodup_decodeRows (nameKey key : String) (h : config.keys.Nodup) :
    (decodeRows nameKey key config).keys.Nodup := by
  unfold decodeRows
  split
  · exact Fields.nodup_insert h _ _
  · exact h

theorem nodup_encodeRows (nameKey key : String) (h : config.keys.Nodup) :
    (encodeRows nameKey key config).keys.Nodup := by
  unfold encodeRows
  split
  · exact Fields.nodup_insert h _ _
  · exact h

/-- Reading keeps keys distinct. -/
theorem nodup_decode (codec : Codec) (h : config.keys.Nodup) :
    (codec.decode config).keys.Nodup := by
  cases codec with
  | memory =>
      show (decodeMemory config).keys.Nodup
      rcases decodeMemory_cases config with
        hkept | ⟨held, messages, last, hmemory, henable, hmessages⟩
      · rwa [hkept]
      · rw [decodeMemory_eq hmemory henable hmessages]
        exact Fields.nodup_insert (Fields.nodup_insert h _ _) _ _
  | knowledge =>
      have hleft := foldl_eraseSwap_perm h (settingsOf config)
      refine Fields.nodup_insert (Fields.nodup_keys_of_perm hleft.symm ?_) _ _
      exact h.sublist (List.filter_sublist.map Prod.fst)
  | groups =>
      by_cases hmode : groupMode config
      · rw [decode_groups_of_mode hmode]
        exact nodup_decodeRows _ _ h
      · rwa [decode_groups_of_flat hmode]
  | rows key => exact nodup_decodeRows _ _ h
  | base64 key =>
      show (decodeBase64 key config).keys.Nodup
      unfold decodeBase64
      split
      · exact Fields.nodup_insert h _ _
      · exact h

/-- Storing keeps keys distinct. -/
theorem nodup_encode (codec : Codec) (h : config.keys.Nodup) :
    (codec.encode config).keys.Nodup := by
  cases codec with
  | memory =>
      show (encodeMemory config).keys.Nodup
      unfold encodeMemory
      split
      · split
        · split
          · exact Fields.nodup_insert (Fields.nodup_insert h _ _) _ _
          · exact h
        · exact h
      · exact h
  | knowledge =>
      show (encodeKnowledge config).keys.Nodup
      unfold encodeKnowledge
      dsimp only
      split
      · exact Fields.nodup_insertAll (Fields.nodup_eraseSwap h _) _
      · exact Fields.nodup_eraseSwap h _
  | groups =>
      by_cases hmode : groupMode config
      · rw [encode_groups_of_mode hmode]
        exact nodup_encodeRows _ _ h
      · rwa [encode_groups_of_flat hmode]
  | rows key => exact nodup_encodeRows _ _ h
  | base64 key =>
      show (encodeBase64 key config).keys.Nodup
      unfold encodeBase64
      split
      · exact Fields.nodup_insert h _ _
      · exact h

/-- The shape that a codec stores in. -/
def Stored : Codec → Fields → Prop
  | .memory, config => MemoryStored config
  | .knowledge, config => config.keys.Nodup ∧ KnowledgeStored config
  | .groups, config => groupMode config → RowsStored "group_variables" config
  | .rows key, config => RowsStored key config
  | .base64 key, config => TextStored key config

/-- **A configuration in the shape of its codec comes back.** -/
theorem encode_decode {codec : Codec} (h : codec.Stored config) :
    codec.encode (codec.decode config) = config := by
  cases codec with
  | memory => exact encode_decodeMemory h
  | knowledge =>
      obtain ⟨hkeys, hstored⟩ := h
      exact (encode_decodeKnowledge hkeys).trans hstored
  | groups =>
      by_cases hmode : groupMode config
      · rw [decode_groups_of_mode hmode, encode_groups_of_mode (groupMode_decodeRows.2 hmode)]
        exact encode_decodeRows (by decide) (h hmode)
      · rw [decode_groups_of_flat hmode, encode_groups_of_flat hmode]
  | rows key => exact encode_decodeRows (by decide) h
  | base64 key => exact encode_decodeBase64 h

/-- **Any configuration comes back in that shape.** -/
theorem stored_encode_decode (codec : Codec) (h : config.Keyed) :
    codec.Stored (codec.encode (codec.decode config)) := by
  cases codec with
  | memory =>
      refine memoryStored_encode fun held hheld => ?_
      have hheld : (decodeMemory config).lookup "memory" = some (.obj held) := hheld
      rcases decodeMemory_cases config with
        hkept | ⟨before, messages, last, hmemory, henable, hmessages⟩
      · rw [hkept] at hheld
        exact Fields.Keyed.nodup (h.lookup hheld)
      · rw [decodeMemory_eq hmemory henable hmessages, Fields.lookup_insert_self] at hheld
        obtain rfl := Json.obj.inj (Option.some.inj hheld)
        exact Fields.nodup_insert (Fields.Keyed.nodup (h.lookup hmemory)) _ _
  | knowledge =>
      refine ⟨?_, knowledgeStored_encode h.nodup⟩
      show (Fields.keys (encodeKnowledge (decodeKnowledge config))).Nodup
      rw [encode_decodeKnowledge h.nodup]
      exact nodup_query_settings h.nodup
  | groups =>
      by_cases hmode : groupMode config
      · rw [decode_groups_of_mode hmode, encode_groups_of_mode (groupMode_decodeRows.2 hmode)]
        exact fun _ => rowsStored_encode "key" (lookup_decodeRows_ne_obj _ _ config)
      · rw [decode_groups_of_flat hmode, encode_groups_of_flat hmode]
        exact fun h => absurd h hmode
  | rows key => exact rowsStored_encode "name" (lookup_decodeRows_ne_obj "name" key config)
  | base64 key => exact textStored_encode key _

end Codec

/-! ## §6. All codecs of a kind. -/

namespace Kind

open Codec

/-- A configuration as it is stored again once it was read. -/
def restored (kind : Kind) (config : Fields) : Fields :=
  kind.encodeForm (kind.decodeConfig config)

theorem nodup_decodeConfig (kind : Kind) {config : Fields} (h : config.keys.Nodup) :
    (kind.decodeConfig config).fields.keys.Nodup := by
  unfold decodeConfig
  generalize kind.codecs = codecs
  induction codecs generalizing config with
  | nil => exact h
  | cons codec codecs ih => exact ih (nodup_decode codec h)

theorem nodup_encodeForm (kind : Kind) {form : Form} (h : form.fields.keys.Nodup) :
    (kind.encodeForm form).keys.Nodup := by
  unfold encodeForm
  generalize kind.codecs.reverse = codecs
  generalize form.fields = fields at h
  induction codecs generalizing fields with
  | nil => exact h
  | cons codec codecs ih => exact ih _ (nodup_encode codec h)

/-- Headers and parameters do not touch each other, so what has the shape of
both comes back. -/
theorem restored_httpRequest {config : Fields} (hheaders : RowsStored "headers" config)
    (hparams : RowsStored "params" config) : httpRequest.restored config = config := by
  have hparams' : RowsStored "params" (decodeRows "name" "headers" config) :=
    hparams.congr (lookup_decodeRows_ne "name" (by decide) config).symm
  show encodeRows "name" "headers"
    (encodeRows "name" "params" (decodeRows "name" "params" (decodeRows "name" "headers" config)))
      = config
  rw [encode_decodeRows (by decide) hparams', encode_decodeRows (by decide) hheaders]

/-- A request that was stored has both its headers and its parameters in the
stored shape, so the second time changes nothing. -/
theorem restored_restored_httpRequest (config : Fields) :
    httpRequest.restored (httpRequest.restored config) = httpRequest.restored config := by
  -- What is done under one key does not show under the other one, so each codec can be
  -- told by itself: what is stored has the shape of both.
  let read := decodeRows "name" "headers" config
  let half := encodeRows "name" "params" (decodeRows "name" "params" read)
  let stored := encodeRows "name" "headers" half
  have hparams : RowsStored "params" stored := by
    have hhalf : RowsStored "params" half :=
      rowsStored_encode "name" (lookup_decodeRows_ne_obj "name" "params" read)
    exact hhalf.congr (lookup_encodeRows_ne "name" (by decide) half).symm
  have hheaders : RowsStored "headers" stored := by
    refine rowsStored_encode "name" fun entries => ?_
    rw [lookup_encodeRows_ne "name" (by decide), lookup_decodeRows_ne "name" (by decide)]
    exact lookup_decodeRows_ne_obj "name" "headers" config entries
  exact restored_httpRequest hheaders hparams

/-- **Reading and storing twice is the same as doing it once.** -/
theorem restored_restored (kind : Kind) {config : Fields} (h : config.Keyed) :
    kind.restored (kind.restored config) = kind.restored config := by
  cases kind with
  | llm => exact encode_decode (stored_encode_decode .memory h)
  | knowledgeRetrieval => exact encode_decode (stored_encode_decode .knowledge h)
  | varAggregator => exact encode_decode (stored_encode_decode .groups h)
  | code => exact encode_decode (stored_encode_decode (.base64 "code") h)
  | httpRequest => exact restored_restored_httpRequest config
  | _ => rfl

end Kind

end WorkflowEditor
