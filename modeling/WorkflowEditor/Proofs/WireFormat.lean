/-
  WorkflowEditor.Proofs.WireFormat
  ────────────────────────────────
  **WHAT THE ENGINE SENDS COMES BACK AS IT WAS SENT.**

  Reading a configuration moves and reshapes some of its fields, and storing
  it does so the other way round.  For each kind one thing at most has to be
  known of a configuration for the two to cancel, whatever fields it has,
  lacks or has of a wrong type:

    • `Kind.OnWire` — the shape in which the engine sends a configuration,
    • `Codec.restored_knowledge_perm` — the settings of a retrieval are
      spread out again, at other places,
    • `Codec.textStored_of_decodes` — a text that stands for a text has the
      only spelling of it,
    • `Kind.encodeForm_decodeConfig` — so what was sent comes back, up to the
      order of keys.
-/
import WorkflowEditor.Proofs.StoredShape

namespace WorkflowEditor

/-! ## §1. The shape on the wire. -/

/-- The shape in which the engine sends the configuration of a node.  Nothing
else is asked of it: fields may be missing, empty or of any type. -/
def Kind.OnWire : Kind → Fields → Prop
  -- The last message of an enabled memory stands with the others.
  | .llm, config => ∀ held : Fields, config.lookup "memory" = some (.obj held) →
      held.lookup "enable" = some (.bool true) → held.lookup "messages" = none
  -- Settings are not gathered.
  | .knowledgeRetrieval, config => config.lookup "knowledge_retrieval" = none
  -- Groups are no rows.
  | .varAggregator, config => config.lookup "group" = some (.bool true) →
      ∀ items, config.lookup "group_variables" ≠ some (.arr items)
  -- Neither are headers and parameters.
  | .httpRequest, config =>
      (∀ items, config.lookup "headers" ≠ some (.arr items))
        ∧ ∀ items, config.lookup "params" ≠ some (.arr items)
  -- A source text is the base64 of the UTF-8 octets of a text.
  | .code, config => ∀ stored, config.lookup "code" = some (.str stored) →
      ∃ text : String, Base64.decode? stored.toList = some text.toUTF8.toList
  | _, _ => True

/-! ## §2. One codec. -/

namespace Codec

variable {config : Fields}

theorem groupMode_iff : groupMode config ↔ config.lookup "group" = some (.bool true) := by
  have htrue (found : Option Bool) : found.getD false = true ↔ found = some true := by
    cases found <;> simp
  unfold groupMode
  rw [htrue, Json.bind_bool?_eq_some]

/-- Settings that are not gathered are spread out again behind the query. -/
theorem restored_knowledge_perm (hkeys : config.keys.Nodup)
    (hflat : config.lookup knowledgeKey = none) :
    (encodeKnowledge (decodeKnowledge config)).Perm config := by
  have hsettings : settingsOf config = config.filter fun entry => !(entry.1 == "query") := by
    refine List.filter_congr fun entry hentry => ?_
    have hne : entry.1 ≠ knowledgeKey := fun heq =>
      Fields.lookup_eq_none_iff.1 hflat (heq ▸ List.mem_map_of_mem hentry)
    simp [bne, hne]
  rw [encode_decodeKnowledge hkeys, hsettings]
  exact List.filter_append_perm _ config

/-- What is no array has the shape in which rows are stored. -/
theorem rowsStored_of_keyed (hkeyed : config.Keyed) {key : String}
    (h : ∀ items, config.lookup key ≠ some (.arr items)) : RowsStored key config :=
  ⟨h, fun _ hentries => Fields.Keyed.nodup (hkeyed.lookup hentries)⟩

/-- A text that stands for a text has the only spelling of it. -/
theorem textStored_of_decodes {key : String}
    (h : ∀ stored, config.lookup key = some (.str stored) →
      ∃ text : String, Base64.decode? stored.toList = some text.toUTF8.toList) :
    TextStored key config := by
  intro stored hstored
  obtain ⟨text, htext⟩ := h stored hstored
  refine ⟨text, ?_⟩
  unfold encodedText
  rw [Base64.encode_of_decode? htext, String.ofList_toList]

end Codec

/-! ## §3. All codecs of a kind. -/

namespace Kind

open Codec

/-- What was sent comes back entry by entry, except that the settings of a
retrieval may move. -/
theorem restored_perm {kind : Kind} {config : Fields} (hkeyed : config.Keyed)
    (hwire : kind.OnWire config) : (kind.restored config).Perm config := by
  cases kind with
  | llm => exact .of_eq (encode_decodeMemory hwire)
  | knowledgeRetrieval => exact restored_knowledge_perm hkeyed.nodup hwire
  | varAggregator =>
      have hstored : groups.Stored config := fun hmode =>
        rowsStored_of_keyed hkeyed (hwire (groupMode_iff.1 hmode))
      exact .of_eq (encode_decode hstored)
  | httpRequest =>
      exact .of_eq (restored_httpRequest (rowsStored_of_keyed hkeyed hwire.1)
        (rowsStored_of_keyed hkeyed hwire.2))
  | code => exact .of_eq (encode_decodeBase64 (textStored_of_decodes hwire))
  | _ => exact .refl config

/-- **What the engine sends comes back as it was sent**, up to the order of
keys, for every kind of node: storing the form of a configuration is the
inverse of reading it. -/
theorem encodeForm_decodeConfig {kind : Kind} {config : Fields} (hkeyed : config.Keyed)
    (hwire : kind.OnWire config) :
    Json.Same (.obj (kind.encodeForm (kind.decodeConfig config))) (.obj config) := by
  have hperm : (kind.restored config).Perm config := restored_perm hkeyed hwire
  have hnodup : (kind.restored config).keys.Nodup :=
    Fields.nodup_keys_of_perm hperm.symm hkeyed.nodup
  exact .obj hnodup hkeyed.nodup (Fields.same_of_perm hperm hnodup)

/-- A retrieval without a query field in front: its settings were gathered,
and stand behind the query when they come back. -/
theorem encodeForm_decodeConfig_retrieval :
    let config : Fields :=
      [("reranker_top_k", .int 4), ("query", .str ""), ("knowledge_bases", .arr [.obj []])]
    let form := Kind.knowledgeRetrieval.decodeConfig config
    config.Keyed ∧ Kind.knowledgeRetrieval.OnWire config
      ∧ form.fields.keys = ["query", "knowledge_retrieval"]
      ∧ (Kind.knowledgeRetrieval.encodeForm form).keys
        = ["query", "reranker_top_k", "knowledge_bases"]
      ∧ Json.Same (.obj (Kind.knowledgeRetrieval.encodeForm form)) (.obj config) := by
  intro config form
  have hkeyed : config.Keyed := by
    refine .obj (by decide) ?_
    simp only [config, List.forall_mem_cons, List.not_mem_nil, false_imp_iff, implies_true,
      and_true]
    exact ⟨.num _, .str _, .arr fun item hitem => List.mem_singleton.1 hitem ▸ Fields.keyed_nil⟩
  have hwire : Kind.knowledgeRetrieval.OnWire config := by
    show config.lookup "knowledge_retrieval" = none
    rfl
  exact ⟨hkeyed, hwire, by decide +kernel, by decide +kernel,
    encodeForm_decodeConfig hkeyed hwire⟩

end Kind

end WorkflowEditor
