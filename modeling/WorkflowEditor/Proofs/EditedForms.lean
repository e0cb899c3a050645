/-
  WorkflowEditor.Proofs.EditedForms
  ─────────────────────────────────
  **WHAT IS EDITED IS STILL THERE AFTER SAVING AND LOADING.**

  A form is edited field by field, and the shape of one field may depend on
  another one.  After each edit the form is completed, so that storing it can
  be undone:

    • `Kind.Accepts` — which values a field takes,
    • `Kind.Fits` — what holds of a form that took none but these,
    • `Kind.fits_defaultConfig`, `Kind.Fits.set` — from the first form on,
    • `Kind.Fits.decode_encode` — such a form is read back as it was stored,
    • `Graph.edited_form_restored` — so are the forms that edits make.

  An aggregator has no such step: `Graph.edited_form_lost` is a flat list
  that is stored as groups after the mode was switched.
-/
import WorkflowEditor.Proofs.StoredShape
import WorkflowEditor.Proofs.Editing

namespace WorkflowEditor

namespace Codec

variable {form : Fields}

/-! ## §1. The last message of a memory. -/

/-- A value is a list. -/
def IsList (value : Json) : Prop := ∃ items, value = .arr items

/-- A value is an object, with one entry a key. -/
def IsObject (value : Json) : Prop := ∃ entries : Fields, value = .obj entries ∧ entries.keys.Nodup

/-- The messages are a list, and an enabled memory has a message. -/
structure MemoryFits (form : Fields) : Prop where
  messages : form.At "messages" IsList
  memory : form.At "memory" IsObject
  last : ∀ held : Fields, form.lookup "memory" = some (.obj held) →
    held.lookup "enable" = some (.bool true) → ∃ last, held.lookup "messages" = some last

/-- **The message of a memory is put behind the others and taken back.** -/
theorem decode_encodeMemory (h : MemoryFits form) :
    (decodeMemory (encodeMemory form)).Same form := by
  by_cases henabled : memoryEnabled form
  · obtain ⟨_, hitems, items, rfl⟩ := h.messages
    obtain ⟨_, hmemory, held, rfl, hkeys⟩ := h.memory
    have henable : held.lookup "enable" = some (.bool true) := by
      obtain ⟨found, hfound, henable⟩ := memoryEnabled_iff.1 henabled
      rwa [Json.obj.inj (Option.some.inj (hmemory.symm.trans hfound))]
    obtain ⟨last, hlast⟩ := h.last held hmemory henable
    have hother : "messages" ≠ "memory" := by decide
    let left := Fields.eraseSwap held "messages"
    let stored := (form.insert "memory" (.obj left)).insert "messages" (.arr (items ++ [last]))
    have hstored : encodeMemory form = stored := by
      rw [encodeMemory_eq hmemory henable hlast]
      unfold messagesOf
      rw [hitems]
      rfl
    have hmemory' : stored.lookup "memory" = some (.obj left) :=
      (Fields.lookup_insert_ne _ _ hother.symm).trans (Fields.lookup_insert_self _ _ _)
    have henable' : left.lookup "enable" = some (.bool true) :=
      (Fields.lookup_eraseSwap_ne hkeys (by decide)).trans henable
    have hmessages : stored.lookup "messages" = some (.arr (items ++ [last])) :=
      Fields.lookup_insert_self _ _ _
    -- The message goes back into the memory, now behind the other entries of that.
    have hread : decodeMemory stored
        = form.insert "memory" (.obj (Fields.insert left "messages" last)) := by
      rw [decodeMemory_eq hmemory' henable' hmessages, Fields.insert_insert,
        Fields.insert_comm hother.symm (hmemory ▸ nofun), Fields.insert_eq_self hitems,
        Fields.insert_insert]
    have hback : Fields.Same (Fields.insert left "messages" last) held :=
      Fields.same_insert_of_erased hkeys (Fields.eraseSwap_perm hkeys _) hlast
    have hnodup : (Fields.insert left "messages" last).keys.Nodup :=
      Fields.nodup_insert (Fields.nodup_eraseSwap hkeys _) _ _
    rw [hstored, hread]
    exact Fields.same_insert (fun _ _ => Fields.Same.of_eq rfl) hmemory (.obj hnodup hkeys hback)
  · have hkept : decodeMemory form = form := if_neg henabled
    rw [encodeMemory_of_disabled henabled, hkept]
    exact Fields.same_refl form

/-- Completing a form gives an enabled memory the message that it lacks. -/
theorem completeMemory_eq {items : List Json} {held : Fields}
    (hitems : form.lookup "messages" = some (.arr items))
    (hmemory : form.lookup "memory" = some (.obj held)) :
    completeMemory form
      = if memoryEnabled form ∧ ¬ Fields.has held "messages" then
          form.insert "memory" (.obj (Fields.insert held "messages" memoryPrompt))
        else form := by
  unfold completeMemory
  by_cases henabled : memoryEnabled form
  · simp only [henabled, hitems, hmemory, Option.bind_some, Json.arr?, Json.obj?, if_true, true_and]
    by_cases hhas : Fields.has held "messages" <;> simp [hhas]
  · simp [henabled]

/-- **Completing a form makes it fit.** -/
theorem memoryFits_complete (hkeys : form.keys.Nodup) (hmessages : form.At "messages" IsList)
    (hmemory : form.At "memory" IsObject) :
    (completeMemory form).keys.Nodup ∧ MemoryFits (completeMemory form) := by
  obtain ⟨_, hitems, items, rfl⟩ := hmessages
  obtain ⟨_, hheld, held, rfl, hnodup⟩ := hmemory
  rw [completeMemory_eq hitems hheld]
  split
  · refine ⟨Fields.nodup_insert hkeys _ _, ?_, ?_, fun other hother _ => ?_⟩
    · exact Fields.At.insert ⟨_, hitems, items, rfl⟩ nofun
    · exact ⟨_, Fields.lookup_insert_self _ _ _, _, rfl, Fields.nodup_insert hnodup _ _⟩
    · rw [Fields.lookup_insert_self] at hother
      rw [← Json.obj.inj (Option.some.inj hother)]
      exact ⟨_, Fields.lookup_insert_self _ _ _⟩
  · -- Nothing was lacking, so an enabled memory has a message.
    rename_i hcomplete
    refine ⟨hkeys, ⟨_, hitems, items, rfl⟩, ⟨_, hheld, held, rfl, hnodup⟩,
      fun other hother henable => ?_⟩
    obtain rfl : held = other := Json.obj.inj (Option.some.inj (hheld.symm.trans hother))
    refine Option.ne_none_iff_exists'.1 fun hnone => hcomplete ⟨?_, fun hhas => ?_⟩
    · exact memoryEnabled_iff.2 ⟨held, hheld, henable⟩
    · exact Fields.lookup_eq_none_iff.1 hnone (Fields.has_iff.1 hhas)

/-! ## §2. Rows. -/

/-- A row that names a value. -/
def RowOf (nameKey : String) (row : Json) (entry : String × Json) : Prop :=
  row = .obj [(nameKey, .str entry.1), ("value", entry.2)]
    ∨ row = .obj [("value", entry.2), (nameKey, .str entry.1)]

/-- A list of rows, no two of which have one name. -/
def IsRows (nameKey : String) (value : Json) : Prop :=
  ∃ (rows : List Json) (entries : Fields), value = .arr rows ∧ entries.keys.Nodup
    ∧ List.Forall₂ (RowOf nameKey) rows entries

section Rows

variable {nameKey : String} (hname : nameKey ≠ "value")

include hname

theorem RowOf.pair {row : Json} {entry : String × Json} (h : RowOf nameKey row entry) :
    pairOfRow? nameKey row = some entry := by
  have hother (value : Json) (rest : Fields) :
      List.lookup "value" ((nameKey, value) :: rest) = rest.lookup "value" :=
    Fields.lookup_cons_ne _ _ hname
  have hother' (value : Json) (rest : Fields) :
      List.lookup nameKey (("value", value) :: rest) = rest.lookup nameKey :=
    Fields.lookup_cons_ne _ _ hname.symm
  unfold pairOfRow?
  rcases h with rfl | rfl <;>
    simp only [Json.field?, hother, hother', Fields.lookup_cons_self, Option.bind_some, Json.str?,
      Option.map_some, Option.getD_some]

theorem RowOf.same {row : Json} {entry : String × Json} (h : RowOf nameKey row entry) :
    Json.Same (.obj [(nameKey, .str entry.1), ("value", entry.2)]) row := by
  rcases h with rfl | rfl
  · exact .refl _
  · have hperm : List.Perm [(nameKey, .str entry.1), ("value", entry.2)]
        [("value", entry.2), (nameKey, Json.str entry.1)] := List.Perm.swap _ _ _
    have hkeys : Fields.keys [(nameKey, Json.str entry.1), ("value", entry.2)] |>.Nodup := by
      simpa [Fields.keys] using hname
    exact .obj hkeys (Fields.nodup_keys_of_perm hperm hkeys) (Fields.same_of_perm hperm hkeys)

theorem ofRows_of_rows {rows : List Json} {entries : Fields} (hkeys : entries.keys.Nodup)
    (h : List.Forall₂ (RowOf nameKey) rows entries) : ofRows nameKey rows = entries := by
  have hpairs : rows.filterMap (pairOfRow? nameKey) = entries := by
    clear hkeys
    induction h with
    | nil => rfl
    | cons hrow _ ih => rw [List.filterMap_cons_some (hrow.pair hname), ih]
  unfold ofRows
  rw [hpairs, Fields.insertAll_nil hkeys]

/-- **Rows are stored as an object and read back in order.** -/
theorem decode_encodeRows {key : String} {value : Json}
    (hvalue : form.lookup key = some value) (h : IsRows nameKey value) :
    ∃ value', decodeRows nameKey key (encodeRows nameKey key form) = form.insert key value'
      ∧ value'.Same value := by
  obtain ⟨rows, entries, rfl, hkeys, hrows⟩ := h
  refine ⟨.arr (toRows nameKey entries), ?_, .arr ?_⟩
  · rw [encodeRows_of_arr hvalue, ofRows_of_rows hname hkeys hrows,
      decodeRows_of_obj (Fields.lookup_insert_self _ _ _), Fields.insert_insert]
  · unfold toRows
    clear hvalue hkeys
    induction hrows with
    | nil => exact .nil
    | cons hrow _ ih => exact .cons (hrow.same hname) ih

end Rows

/-! ## §3. Texts in base64. -/

/-- **A text is encoded and decoded again**; anything else is left alone. -/
theorem decode_encodeBase64 (key : String) (form : Fields) :
    decodeBase64 key (encodeBase64 key form) = form := by
  by_cases hstr : ∃ text, form.lookup key = some (.str text)
  · obtain ⟨text, htext⟩ := hstr
    rw [encodeBase64_of_str htext, decodeBase64_of_encoded (Fields.lookup_insert_self _ _ _),
      Fields.insert_insert, Fields.insert_eq_self htext]
  · rw [encodeBase64_of_other (not_exists.1 hstr), decodeBase64_of_other (not_exists.1 hstr)]

/-! ## §4. The settings of a retrieval. -/

/-- A value is an object that can be spread out: no entry of it has the name
of a field. -/
def IsSettings (value : Json) : Prop :=
  ∃ settings : Fields, value = .obj settings ∧ settings.keys.Nodup ∧ "query" ∉ settings.keys
    ∧ knowledgeKey ∉ settings.keys

/-- There is a query at most, and settings that are gathered. -/
structure KnowledgeFits (form : Fields) : Prop where
  keys : ∀ key ∈ form.keys, key = "query" ∨ key = knowledgeKey
  settings : form.At knowledgeKey IsSettings

section Spread

variable {left settings : Fields} (hleft : ∀ entry ∈ left, entry.1 = "query")
  (hquery : "query" ∉ settings.keys)

include hleft hquery

theorem nodup_spread (hkeys : left.keys.Nodup) (hkeys' : settings.keys.Nodup) :
    (left ++ settings).keys.Nodup := by
  unfold Fields.keys
  rw [List.map_append]
  refine List.Nodup.append hkeys hkeys' fun key hmem hmem' => ?_
  obtain ⟨entry, hentry, rfl⟩ := List.mem_map.1 hmem
  exact hquery (hleft entry hentry ▸ hmem')

/-- What is gathered of a query and settings are the settings. -/
theorem settingsOf_spread (hgathered : knowledgeKey ∉ settings.keys) :
    settingsOf (left ++ settings) = settings := by
  have hnone : settingsOf left = [] :=
    List.filter_eq_nil_iff.2 fun entry hentry => by simp [hleft entry hentry]
  have hall : settingsOf settings = settings := by
    refine List.filter_eq_self.2 fun entry hentry => ?_
    have hmem : entry.1 ∈ settings.keys := List.mem_map_of_mem hentry
    have hne : entry.1 ≠ "query" := fun heq => hquery (heq ▸ hmem)
    have hne' : entry.1 ≠ knowledgeKey := fun heq => hgathered (heq ▸ hmem)
    simp [hne, hne']
  unfold settingsOf at *
  rw [List.filter_append, hnone, hall, List.nil_append]

/-- What is left of a query and settings is the query. -/
theorem filter_not_mem_spread :
    ((left ++ settings).filter fun entry => entry.1 ∉ settings.keys) = left := by
  have hall : (left.filter fun entry => entry.1 ∉ settings.keys) = left := by
    refine List.filter_eq_self.2 fun entry hentry => ?_
    simpa [hleft entry hentry] using hquery
  have hnone : (settings.filter fun entry => entry.1 ∉ settings.keys) = [] := by
    refine List.filter_eq_nil_iff.2 fun entry hentry => ?_
    have hmem : entry.1 ∈ settings.keys := List.mem_map_of_mem hentry
    simpa using hmem
  rw [List.filter_append, hall, hnone, List.append_nil]

end Spread

/-- **Settings are spread out and gathered again.** -/
theorem decode_encodeKnowledge (hkeys : form.keys.Nodup) (h : KnowledgeFits form) :
    (decodeKnowledge (encodeKnowledge form)).Same form := by
  obtain ⟨_, hsettings, settings, rfl, hnodup, hquery, hgathered⟩ := h.settings
  let left := Fields.eraseSwap form knowledgeKey
  have herased : left.Perm (form.erase knowledgeKey) := Fields.eraseSwap_perm hkeys _
  have hleft : ∀ entry ∈ left, entry.1 = "query" := by
    intro entry hentry
    obtain ⟨hmem, hne⟩ := List.mem_filter.1 (herased.mem_iff.1 hentry)
    exact (h.keys entry.1 (List.mem_map_of_mem hmem)).resolve_right (by simpa using hne)
  have hall : (left ++ settings).keys.Nodup :=
    nodup_spread hleft hquery (Fields.nodup_eraseSwap hkeys _) hnodup
  have hstored : encodeKnowledge form = left ++ settings := by
    unfold encodeKnowledge
    rw [hsettings]
    exact Fields.insertAll_eq_append hall
  have hread : decodeKnowledge (left ++ settings)
      = Fields.insert ((settingsOf (left ++ settings)).foldl
          (fun left entry => Fields.eraseSwap left entry.1) (left ++ settings)) knowledgeKey
        (.obj (settingsOf (left ++ settings))) := rfl
  have hrest := foldl_eraseSwap_perm hall settings
  rw [filter_not_mem_spread hleft hquery] at hrest
  rw [hstored, hread, settingsOf_spread hleft hquery hgathered]
  exact Fields.same_insert_of_erased hkeys (hrest.trans herased) hsettings

/-! ## §5. Two codecs, and one that depends on a mode. -/

theorem encodeRows_insert {nameKey key other : String} (h : key ≠ other) (value : Json) :
    encodeRows nameKey key (form.insert other value)
      = (encodeRows nameKey key form).insert other value := by
  have hlookup := Fields.lookup_insert_ne form value h
  by_cases harr : ∃ items, form.lookup key = some (.arr items)
  · obtain ⟨items, hitems⟩ := harr
    rw [encodeRows_of_arr hitems, encodeRows_of_arr (hlookup.trans hitems)]
    exact (Fields.insert_comm h (hitems ▸ nofun)).symm
  · have hother : ∀ items, (form.insert other value).lookup key ≠ some (.arr items) :=
      fun items hitems => harr ⟨items, hlookup.symm.trans hitems⟩
    rw [encodeRows_of_other (not_exists.1 harr), encodeRows_of_other hother]

/-- **Headers and parameters are read back**, neither touched by the other. -/
theorem decode_encodeRequest (hheaders : form.At "headers" (IsRows "name"))
    (hparams : form.At "params" (IsRows "name")) :
    (decodeRows "name" "params" (decodeRows "name" "headers"
      (encodeRows "name" "headers" (encodeRows "name" "params" form)))).Same form := by
  obtain ⟨headers, hheaders, hrows⟩ := hheaders
  obtain ⟨params, hparams, hrows'⟩ := hparams
  -- Headers are stored last and read first; the parameters are stored all that time.
  let half := encodeRows "name" "params" form
  have hhalf : half.lookup "headers" = some headers :=
    (lookup_encodeRows_ne "name" (by decide) _).trans hheaders
  obtain ⟨headers', hread, hsame⟩ := decode_encodeRows (by decide) hhalf hrows
  let whole := form.insert "headers" headers'
  have hwhole : whole.lookup "params" = some params :=
    (Fields.lookup_insert_ne _ _ (by decide)).trans hparams
  obtain ⟨params', hread', hsame'⟩ := decode_encodeRows (by decide) hwhole hrows'
  rw [hread, ← encodeRows_insert (by decide), hread']
  refine Fields.same_insert (fun other _ => ?_) hparams hsame'
  exact Fields.same_insert (fun _ _ => Fields.Same.of_eq rfl) hheaders hsame other

/-- **What an aggregator groups is read back** if it stands in rows, and what
it does not group is left alone. -/
theorem decode_encodeGroups
    (h : groupMode form → form.At "group_variables" (IsRows "key")) :
    (groups.decode (groups.encode form)).Same form := by
  by_cases hmode : groupMode form
  · obtain ⟨value, hvalue, hrows⟩ := h hmode
    obtain ⟨value', hread, hsame⟩ := decode_encodeRows (by decide) hvalue hrows
    have hmode' : groupMode (encodeRows "key" "group_variables" form) := by
      rw [groupMode_congr (lookup_encodeRows_ne _ (by decide) _)]
      exact hmode
    rw [encode_groups_of_mode hmode, decode_groups_of_mode hmode', hread]
    exact Fields.same_insert (fun _ _ => Fields.Same.of_eq rfl) hvalue hsame
  · rw [encode_groups_of_flat hmode, decode_groups_of_flat hmode]
    exact Fields.same_refl _

end Codec

/-! ## §6. Forms that are edited. -/

/-- Two forms are equal but for the order of keys. -/
def Form.Same (form form' : Form) : Prop := Json.Same (.obj form.fields) (.obj form'.fields)

namespace Kind

open Codec

/-- Which values the fields of a form take.  Of an aggregator this depends on
its mode; fields that are not named take any value, but for those of a
retrieval. -/
def Accepts : Kind → Form → String → Json → Prop
  | .llm, _, key, value =>
      (key = "messages" → IsList value) ∧ (key = "memory" → IsObject value)
  | .varAggregator, form, key, value =>
      (key = "group" → ∃ b, value = .bool b)
        ∧ (key = "group_variables" →
          if groupMode form.fields then IsRows "key" value
          else ∃ texts : List String, value = .arr (texts.map .str))
  | .httpRequest, _, key, value =>
      (key = "headers" → IsRows "name" value) ∧ (key = "params" → IsRows "name" value)
  | .code, _, key, value => key = "code" → ∃ text, value = .str text
  | .knowledgeRetrieval, _, key, value =>
      key = "query" ∨ (key = knowledgeKey ∧ IsSettings value)
  | _, _, _, _ => True

/-- What the fields of a form are if they took none but these values. -/
def Shaped : Kind → Fields → Prop
  | .llm, form => MemoryFits form
  | .httpRequest, form => form.At "headers" (IsRows "name") ∧ form.At "params" (IsRows "name")
  | .knowledgeRetrieval, form => KnowledgeFits form
  | _, _ => True

/-- A form of distinct fields, which took none but values that they take. -/
structure Fits (kind : Kind) (form : Form) : Prop where
  keys : form.fields.keys.Nodup
  shaped : kind.Shaped form.fields

/-- What an aggregator groups stands in rows. -/
def Grouped (form : Form) : Prop :=
  groupMode form.fields → form.fields.At "group_variables" (IsRows "key")

/-- **The form of a new node fits.** -/
theorem fits_defaultConfig (kind : Kind) : kind.Fits (kind.decodeConfig kind.defaultConfig) := by
  cases kind with
  | llm =>
      refine ⟨by decide +kernel, ⟨_, rfl, _, rfl⟩, ⟨_, rfl, _, rfl, by decide +kernel⟩, ?_⟩
      intro held hheld henable
      obtain rfl := Json.obj.inj (Option.some.inj hheld)
      cases henable
  | httpRequest =>
      have hrows : IsRows "name" (.arr []) := ⟨[], [], rfl, List.nodup_nil, .nil⟩
      exact ⟨by decide +kernel, ⟨_, rfl, hrows⟩, _, rfl, hrows⟩
  | knowledgeRetrieval =>
      refine ⟨by decide +kernel, by decide +kernel, _, rfl, _, rfl, ?_⟩
      decide +kernel
  | other tag => exact ⟨List.nodup_nil, trivial⟩
  | _ => exact ⟨by decide +kernel, trivial⟩

/-- **A form that takes a value still fits**, once it was completed. -/
theorem Fits.set {kind : Kind} {form : Form} (h : kind.Fits form) {key : String} {value : Json}
    (haccepts : kind.Accepts form key value) :
    kind.Fits (kind.completeForm (form.set key value)) := by
  have hkeys : (form.fields.insert key value).keys.Nodup := Fields.nodup_insert h.keys key value
  cases kind with
  | llm =>
      obtain ⟨hmessages, hmemory⟩ := haccepts
      obtain ⟨hkeys', hfits⟩ := memoryFits_complete hkeys (h.shaped.messages.insert hmessages)
        (h.shaped.memory.insert hmemory)
      exact ⟨hkeys', hfits⟩
  | httpRequest =>
      obtain ⟨hheaders, hparams⟩ := haccepts
      exact ⟨hkeys, h.shaped.1.insert hheaders, h.shaped.2.insert hparams⟩
  | knowledgeRetrieval =>
      refine ⟨hkeys, fun other hother => ?_, h.shaped.settings.insert ?_⟩
      · obtain ⟨entry, hentry, rfl⟩ := List.mem_map.1 hother
        rcases Fields.mem_insert hentry with rfl | hentry
        · exact haccepts.imp_right And.left
        · exact h.shaped.keys _ (List.mem_map_of_mem hentry)
      · rintro rfl
        exact (haccepts.resolve_left (by decide)).2
  | _ => exact ⟨hkeys, trivial⟩

theorem Fits.same_fields {kind : Kind} {form : Form} (h : kind.Fits form)
    (hgrouped : kind = .varAggregator → Grouped form) :
    (kind.decodeConfig (kind.encodeForm form)).fields.Same form.fields := by
  cases kind with
  | llm => exact decode_encodeMemory h.shaped
  | knowledgeRetrieval => exact decode_encodeKnowledge h.keys h.shaped
  | code =>
      show (decodeBase64 "code" (encodeBase64 "code" form.fields)).Same form.fields
      rw [decode_encodeBase64]
      exact Fields.same_refl _
  | httpRequest => exact decode_encodeRequest h.shaped.1 h.shaped.2
  | varAggregator => exact decode_encodeGroups (hgrouped rfl)
  | _ => exact Fields.same_refl _

/-- **A form that fits is read back as it was stored**, if an aggregator has
rows where it groups. -/
theorem Fits.decode_encode {kind : Kind} {form : Form} (h : kind.Fits form)
    (hgrouped : kind = .varAggregator → Grouped form) :
    (kind.decodeConfig (kind.encodeForm form)).Same form :=
  .obj (kind.nodup_decodeConfig (kind.nodup_encodeForm h.keys)) h.keys (h.same_fields hgrouped)

end Kind

/-! ## §7. Graphs that are edited. -/

namespace Graph

variable {α : Type}

/-- The kind and the form of the node with an id. -/
def formOf? (g : Graph α) (id : String) : Option (Kind × Form) :=
  (g.node? id).map fun node => (node.kind, node.form)

/-- Placing nodes keeps forms. -/
theorem formOf?_of_unplaced {g g' : Graph α} (h : g.unplaced = g'.unplaced) (id : String) :
    g.formOf? id = g'.formOf? id := by
  have hview (g : Graph α) : g.formOf? id
      = ((g.nodes.map Node.unplaced).find? fun node => node.id == id).map fun node =>
          (node.kind, node.form) := by
    rw [List.find?_map, Option.map_map]
    rfl
  rw [hview, hview, (Prod.mk.inj h).1]

/-- A change of nodes that keeps their ids. -/
theorem formOf?_of_map {g g' : Graph α} {f : Node α → Node α} (hnodes : g'.nodes = g.nodes.map f)
    (hid : ∀ node, (f node).id = node.id) (id : String) :
    g'.formOf? id = (g.node? id).map fun node => ((f node).kind, (f node).form) := by
  have hsame : ((fun node : Node α => node.id == id) ∘ f) = fun node => node.id == id := by
    funext node
    show ((f node).id == id) = (node.id == id)
    rw [hid]
  unfold formOf? node?
  rw [hnodes, List.find?_map, hsame, Option.map_map]
  rfl

end Graph

/-- Making ports anew keeps forms. -/
theorem Draft.formOf?_resyncPorts (d : Draft α) (id : String) :
    (d.resyncPorts id).graph.formOf? id = d.graph.formOf? id := by
  unfold resyncPorts
  split
  · rfl
  · rename_i node hnode
    refine (Graph.formOf?_of_map (d.refreshPorts_nodes _ hnode) ?_ id).trans ?_
    · intro other
      split <;> rfl
    · unfold Graph.formOf?
      rw [hnode, Option.map_some, Option.map_some]
      split <;> rfl

namespace Graph

/-- **Setting a field is not refused**, and the form is completed. -/
theorem formOf?_updateConfig {g : Graph α} {id : String} {kind : Kind} {form : Form}
    (h : g.formOf? id = some (kind, form)) (key : String) (value : Json) :
    ∃ d, g.updateConfig id key value = .ok d
      ∧ d.graph.formOf? id = some (kind, kind.completeForm (form.set key value)) := by
  obtain ⟨node, hnode, heq⟩ := Option.map_eq_some_iff.1 h
  obtain ⟨rfl, rfl⟩ := Prod.mk.inj heq
  let completed := node.kind.completeForm (node.form.set key value)
  let next := (g.draft.reviseNode id fun node => { node with form := completed }).emit
    (.dataChanged id)
  have hnext : next.graph.formOf? id = some (node.kind, completed) := by
    have hid (other : Node α) :
        (if other.id = id then { other with form := completed } else other).id = other.id := by
      split <;> rfl
    rw [formOf?_of_map (g := g) rfl hid, hnode, Option.map_some, if_pos (mem_of_node? hnode).2]
  refine ⟨if node.kind.isBranching ∧ key ∈ branchKeys then next.resyncPorts id else next, ?_, ?_⟩
  · unfold updateConfig require
    rw [hnode]
    rfl
  · split
    · rw [Draft.formOf?_resyncPorts, hnext]
    · exact hnext

end Graph

variable [Coordinate α]

namespace Draft

theorem formOf?_spawn (d : Draft α) (kind : Kind) (position : Position α)
    (cycle : Option String) :
    (d.spawn kind position cycle).1.graph.formOf? (d.graph.freshNodeId kind)
      = some (kind, kind.decodeConfig kind.defaultConfig) := by
  have hfree := Graph.node?_eq_none_iff.2 (d.graph.freshNodeId_not_mem kind)
  have hspawned : (d.spawned kind position cycle).id = d.graph.freshNodeId kind := rfl
  unfold Graph.formOf? Graph.node? at *
  rw [spawn_nodes, List.find?_append, hfree, Option.none_or, List.find?_singleton, hspawned,
    beq_self_eq_true]
  rfl

theorem formOf?_spawn_of_some {d : Draft α} {id : String} {found : Kind × Form}
    (h : d.graph.formOf? id = some found) (kind : Kind) (position : Position α)
    (cycle : Option String) :
    (d.spawn kind position cycle).1.graph.formOf? id = some found := by
  obtain ⟨node, hnode, heq⟩ := Option.map_eq_some_iff.1 h
  unfold Graph.formOf? Graph.node? at *
  rw [spawn_nodes, List.find?_append, hnode, Option.some_or, Option.map_some, heq]

end Draft

namespace Graph

/-- A new node has the form of the library. -/
theorem formOf?_addNode {g : Graph α} {kind : Kind} {position : Position α} {d : Draft α}
    {id : String} (hok : g.addNode kind position = .ok (d, id)) :
    d.graph.formOf? id = some (kind, kind.decodeConfig kind.defaultConfig) := by
  unfold addNode at hok
  split at hok
  · cases hok
  split at hok
  · cases hok
  · -- A new container is there before its start.
    obtain ⟨rfl, rfl⟩ := Prod.mk.inj (Except.ok.inj hok)
    exact Draft.formOf?_spawn_of_some (g.draft.formOf?_spawn kind position none) _ _ _
  · obtain ⟨rfl, rfl⟩ := Prod.mk.inj (Except.ok.inj hok)
    rw [formOf?_of_unplaced (Draft.unplaced_fitEnclosing _ _)]
    exact g.draft.formOf?_spawn kind position _

theorem formOf?_after {g : Graph α} {id : String} {kind : Kind} {form : Form}
    (h : g.formOf? id = some (kind, form)) (key : String) (value : Json) :
    (g.after (.updateConfig id key value)).formOf? id
      = some (kind, kind.completeForm (form.set key value)) := by
  obtain ⟨d, hok, hform⟩ := formOf?_updateConfig h key value
  have hafter : g.after (.updateConfig id key value) = d.graph := by
    have hedit : g.edit (.updateConfig id key value) = .ok d := hok
    unfold after
    rw [hedit]
  rw [hafter, hform]

/-- The fields of a node are set one after the other, each to a value that it
takes at that time. -/
def Accepts (id : String) : Graph α → List (String × Json) → Prop
  | _, [] => True
  | g, (key, value) :: rest =>
      (∃ kind form, g.formOf? id = some (kind, form) ∧ kind.Accepts form key value)
        ∧ Accepts id (g.after (.updateConfig id key value)) rest

/-- The graph after fields of a node have been set. -/
def filled (g : Graph α) (id : String) (values : List (String × Json)) : Graph α :=
  g.run (values.map fun entry => .updateConfig id entry.1 entry.2)

/-- **A form that takes values one after the other fits all the time.** -/
theorem fits_filled {g : Graph α} {id : String} {kind : Kind} {form : Form}
    (hform : g.formOf? id = some (kind, form)) (hfits : kind.Fits form)
    {values : List (String × Json)} (hvalues : g.Accepts id values) :
    ∃ form', (g.filled id values).formOf? id = some (kind, form') ∧ kind.Fits form' := by
  induction values generalizing g form with
  | nil => exact ⟨form, hform, hfits⟩
  | cons entry values ih =>
      obtain ⟨⟨kind', form', hform', haccepts⟩, hrest⟩ := hvalues
      obtain ⟨rfl, rfl⟩ := Prod.mk.inj (Option.some.inj (hform.symm.trans hform'))
      exact ih (formOf?_after hform entry.1 entry.2) (hfits.set haccepts) hrest

/-- **What was typed into a new node comes back after it was stored**: its
form is read as it was, but for the order of keys.  Of an aggregator that
groups, what it groups has to stand in rows. -/
theorem edited_form_restored {g : Graph α} {kind : Kind} {position : Position α} {d : Draft α}
    {id : String} (hadded : g.addNode kind position = .ok (d, id))
    {values : List (String × Json)} (hvalues : d.graph.Accepts id values) :
    ∃ form, (d.graph.filled id values).formOf? id = some (kind, form)
      ∧ ((kind = .varAggregator → Kind.Grouped form) →
        (kind.decodeConfig (kind.encodeForm form)).Same form) := by
  obtain ⟨form, hform, hfits⟩ :=
    fits_filled (formOf?_addNode hadded) (Kind.fits_defaultConfig kind) hvalues
  exact ⟨form, hform, fun hgrouped => hfits.decode_encode hgrouped⟩

/-- An aggregator that is told to group its variables, and then which: the row
comes back with its name first. -/
theorem edited_form_restored_groups :
    let rows : Json := .arr [.obj [("value", .arr [.str "start.n"]), ("key", .str "first")]]
    let values : List (String × Json) := [("group", .bool true), ("group_variables", rows)]
    ∃ d id, (Graph.empty (.standard : Settings Rat)).addNode .varAggregator ⟨0, 0⟩ = .ok (d, id)
      ∧ d.graph.Accepts id values
      ∧ ∃ form, (d.graph.filled id values).formOf? id = some (.varAggregator, form)
        ∧ form.get? "group_variables" = some rows
        ∧ (Kind.varAggregator.decodeConfig (Kind.varAggregator.encodeForm form)).Same form := by
  intro rows values
  obtain ⟨d, id, hadded⟩ : ∃ d id,
      (Graph.empty (.standard : Settings Rat)).addNode .varAggregator ⟨0, 0⟩ = .ok (d, id) :=
    ⟨_, _, rfl⟩
  have hrows : Codec.IsRows "key" rows :=
    ⟨_, [("first", .arr [.str "start.n"])], rfl, by decide, .cons (Or.inr rfl) .nil⟩
  have hfirst := formOf?_addNode hadded
  have hsecond := formOf?_after hfirst "group" (.bool true)
  have hlast := formOf?_after hsecond "group_variables" rows
  have hvalues : d.graph.Accepts id values := by
    refine ⟨⟨_, _, hfirst, fun _ => ⟨true, rfl⟩, nofun⟩,
      ⟨_, _, hsecond, nofun, fun _ => ?_⟩, trivial⟩
    exact hrows
  obtain ⟨form, hform, hrestored⟩ := edited_form_restored hadded hvalues
  obtain ⟨-, rfl⟩ := Prod.mk.inj (Option.some.inj (hlast.symm.trans hform))
  exact ⟨d, id, hadded, hvalues, _, hform, rfl, hrestored fun _ _ => ⟨rows, rfl, hrows⟩⟩

/-- **A flat list is lost** if an aggregator is told to group its variables
after they were listed: it is stored as groups, and has none. -/
theorem edited_form_lost :
    let values : List (String × Json) :=
      [("group_variables", .arr [.str "start.n"]), ("group", .bool true)]
    ∃ d id, (Graph.empty (.standard : Settings Rat)).addNode .varAggregator ⟨0, 0⟩ = .ok (d, id)
      ∧ d.graph.Accepts id values
      ∧ ∃ form, (d.graph.filled id values).formOf? id = some (.varAggregator, form)
        ∧ ¬ (Kind.varAggregator.decodeConfig (Kind.varAggregator.encodeForm form)).Same form := by
  intro values
  obtain ⟨d, id, hadded⟩ : ∃ d id,
      (Graph.empty (.standard : Settings Rat)).addNode .varAggregator ⟨0, 0⟩ = .ok (d, id) :=
    ⟨_, _, rfl⟩
  have hfirst := formOf?_addNode hadded
  have hsecond := formOf?_after hfirst "group_variables" (.arr [.str "start.n"])
  have hlast := formOf?_after hsecond "group" (.bool true)
  have hvalues : d.graph.Accepts id values := by
    refine ⟨⟨_, _, hfirst, nofun, fun _ => ?_⟩, ⟨_, _, hsecond, fun _ => ⟨true, rfl⟩, nofun⟩,
      trivial⟩
    exact ⟨["start.n"], rfl⟩
  refine ⟨d, id, hadded, hvalues, _, hlast, fun hsame => ?_⟩
  have hlists : Option.Rel Json.Same (some (.arr [])) (some (.arr [.str "start.n"])) :=
    Fields.same_of_obj hsame "group_variables"
  cases hlists with
  | some hlists => exact absurd hlists.length (by decide)

end Graph

end WorkflowEditor
