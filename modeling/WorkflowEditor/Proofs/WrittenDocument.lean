/-
  WorkflowEditor.Proofs.WrittenDocument
  ─────────────────────────────────────
  **A DOCUMENT LOSES NOTHING WHEN IT IS WRITTEN.**

  Each structure of a document is written as entries that spell it, whatever
  it was read from: a field that was left out, was `null` or had its default
  is left out or written with its value, and means the same.

    • `Position.writes`, `ExecutionConfig.writes`, `Trigger.writes`,
      `ConversationVariable.writes`, `StoredNode.writesRest`,
      `StoredEdge.writesRest`, `Document.writes` — one for each structure,
    • `StoredNode.rereads` and its like — so each is read again,
    • `Record.Keeps` — what a node or an edge keeps of the value that it is
      read from,
    • `Document.rereads_keeping` — **the document as a whole**.
-/
import WorkflowEditor.Proofs.ClaimedEntries

namespace WorkflowEditor

open Record Decoder

/-! ## §1. What concerns the document as a whole.

The entries of a structure are put together field by field, in the order of their
declaration; each step is named for the last field that it takes in. -/

/-- A position is written with both coordinates, since neither has a
default. -/
theorem Position.writes : Position.record.Writes Position.toJson := by
  intro room find p h
  simp only [Position.record, build_seq_eq_ok, build_map_eq_ok] at h
  obtain ⟨_, ⟨x, hx, rfl⟩, y, hy, rfl⟩ := h
  have toX := (spells_required rereads_float hx).map Position.mk
  exact ⟨_, toX.seq (spells_required rereads_float hy) (by decide), rfl⟩

theorem Position.rereads : Position.record.decoder.Rereads Position.toJson :=
  rereads_decoder (by decide) Position.writes

/-- A position is never written as `null`, so a node that has one keeps it. -/
theorem Position.solid : Position.record.decoder.Solid Position.toJson :=
  solid_of_ne_null fun _ => nofun

/-- All bounds for running are written, also those that were left out and have
their defaults. -/
theorem ExecutionConfig.writes : ExecutionConfig.record.Writes ExecutionConfig.toJson := by
  intro room find c h
  simp only [ExecutionConfig.record, build_seq_eq_ok, build_map_eq_ok] at h
  obtain ⟨_, ⟨_, ⟨_, ⟨iterations, hiterations, rfl⟩, timeout, htimeout, rfl⟩,
    cache, hcache, rfl⟩, limit, hlimit, rfl⟩ := h
  have toIterations := (spells_defaulted rereads_nat32 rfl hiterations).map ExecutionConfig.mk
  have toTimeout := toIterations.seq (spells_defaulted rereads_nat32 rfl htimeout) (by decide)
  have toCache := toTimeout.seq (spells_defaulted rereads_bool rfl hcache) (by decide)
  exact ⟨_, toCache.seq (spells_defaulted rereads_nat32 rfl hlimit) (by decide), rfl⟩

theorem ExecutionConfig.rereads :
    ExecutionConfig.record.decoder.Rereads ExecutionConfig.toJson :=
  rereads_decoder (by decide) ExecutionConfig.writes

/-- A trigger that was read without a configuration is written with an empty
one. -/
theorem Trigger.writes : Trigger.record.Writes Trigger.toJson := by
  intro room find t h
  simp only [Trigger.record, build_seq_eq_ok, build_map_eq_ok] at h
  obtain ⟨_, ⟨kind, hkind, rfl⟩, config, hconfig, rfl⟩ := h
  have toKind := (spells_required rereads_text hkind).map Trigger.mk
  exact ⟨_, toKind.seq (spells_defaulted rereads_fields rfl hconfig) (by decide), rfl⟩

theorem Trigger.rereads : Trigger.record.decoder.Rereads Trigger.toJson :=
  rereads_decoder (by decide) Trigger.writes

/-- A variable is written with a default and a description only if it has them.
A default of `null` is none. -/
theorem ConversationVariable.writes :
    ConversationVariable.record.Writes ConversationVariable.toJson := by
  intro room find v h
  simp only [ConversationVariable.record, build_seq_eq_ok, build_map_eq_ok] at h
  obtain ⟨_, ⟨_, ⟨_, ⟨_, ⟨name, hname, rfl⟩, dataType, hdataType, rfl⟩,
    required, hrequired, rfl⟩, default, hdefault, rfl⟩, description, hdescription, rfl⟩ := h
  have toName := (spells_required rereads_text hname).map ConversationVariable.mk
  have toType := toName.seq (spells_defaulted rereads_text rfl hdataType) (by decide)
  have toRequired := toType.seq (spells_defaulted rereads_bool rfl hrequired) (by decide)
  have toDefault := toRequired.seq (spells_optional rereads_json solid_json hdefault) (by decide)
  exact ⟨_, toDefault.seq (spells_optional rereads_text solid_text hdescription) (by decide), rfl⟩

theorem ConversationVariable.rereads :
    ConversationVariable.record.decoder.Rereads ConversationVariable.toJson :=
  rereads_decoder (by decide) ConversationVariable.writes

/-! ## §2. Nodes, edges and the document. -/

/-- What a node does not know stands behind all of its own fields, also those
that may be missing. -/
theorem StoredNode.writesRest :
    StoredNode.record.WritesRest StoredNode.toJson StoredNode.extra := by
  intro room find make h
  simp only [StoredNode.record, build_seq_eq_ok, build_map_eq_ok] at h
  obtain ⟨_, ⟨_, ⟨_, ⟨_, ⟨_, ⟨id, hid, rfl⟩, kind, hkind, rfl⟩, name, hname, rfl⟩,
    position, hposition, rfl⟩, config, hconfig, rfl⟩, cycle, hcycle, rfl⟩ := h
  have toId := (spells_required rereads_text hid).map (StoredNode.mk (α := Float))
  have toKind := toId.seq (spells_required rereads_kind hkind) (by decide)
  have toName := toKind.seq (spells_optional rereads_text solid_text hname) (by decide)
  have toPosition := toName.seq
    (spells_optional Position.rereads Position.solid hposition) (by decide)
  have toConfig := toPosition.seq (spells_defaulted rereads_fields rfl hconfig) (by decide)
  exact ⟨_, toConfig.seq (spells_optional rereads_text solid_text hcycle) (by decide),
    fun _ => ⟨rfl, rfl⟩⟩

/-- A node is read again with its unknown fields, and with a kind that is not
known. -/
theorem StoredNode.rereads : StoredNode.record.decoderWithRest.Rereads StoredNode.toJson :=
  rereads_decoderWithRest (by decide) StoredNode.writesRest

/-- An edge may lack its label.  What it does not know, such as the type of an
error route, stands behind it. -/
theorem StoredEdge.writesRest :
    StoredEdge.record.WritesRest StoredEdge.toJson StoredEdge.extra := by
  intro room find make h
  simp only [StoredEdge.record, build_seq_eq_ok, build_map_eq_ok] at h
  obtain ⟨_, ⟨_, ⟨source, hsource, rfl⟩, target, htarget, rfl⟩, label, hlabel, rfl⟩ := h
  have toSource := (spells_required rereads_text hsource).map StoredEdge.mk
  have toTarget := toSource.seq (spells_required rereads_text htarget) (by decide)
  exact ⟨_, toTarget.seq (spells_optional rereads_text solid_text hlabel) (by decide),
    fun _ => ⟨rfl, rfl⟩⟩

theorem StoredEdge.rereads : StoredEdge.record.decoderWithRest.Rereads StoredEdge.toJson :=
  rereads_decoderWithRest (by decide) StoredEdge.writesRest

/-- The fields of a document are written in the order of their declaration.
Ids and times may be missing; lists are written also where they are empty. -/
theorem Document.writes : Document.record.Writes Document.toJson := by
  intro room find d h
  simp only [Document.record, build_seq_eq_ok, build_map_eq_ok] at h
  obtain ⟨_, ⟨_, ⟨_, ⟨_, ⟨_, ⟨_, ⟨_, ⟨_, ⟨_, ⟨id, hid, rfl⟩, appId, happId, rfl⟩,
    nodes, hnodes, rfl⟩, edges, hedges, rfl⟩, vars, hvars, rfl⟩, execution, hexecution, rfl⟩,
    triggers, htriggers, rfl⟩, active, hactive, rfl⟩, created, hcreated, rfl⟩,
    updated, hupdated, rfl⟩ := h
  have toId := (spells_optional rereads_text solid_text hid).map Document.record.make
  have toAppId := toId.seq (spells_optional rereads_text solid_text happId) (by decide)
  have toNodes := toAppId.seq
    (spells_defaulted (rereads_list StoredNode.rereads) rfl hnodes) (by decide)
  have toEdges := toNodes.seq
    (spells_defaulted (rereads_list StoredEdge.rereads) rfl hedges) (by decide)
  have toVars := toEdges.seq
    (spells_defaulted (rereads_list ConversationVariable.rereads) rfl hvars) (by decide)
  have toExecution := toVars.seq
    (spells_defaulted ExecutionConfig.rereads rfl hexecution) (by decide)
  have toTriggers := toExecution.seq
    (spells_defaulted (rereads_list Trigger.rereads) rfl htriggers) (by decide)
  have toActive := toTriggers.seq (spells_defaulted rereads_bool rfl hactive) (by decide)
  have toCreated := toActive.seq (spells_optional rereads_int64 solid_int64 hcreated) (by decide)
  have toUpdated := toCreated.seq
    (spells_optional rereads_int64 solid_int64 hupdated) (by decide)
  refine ⟨_, toUpdated, congrArg Json.obj ?_⟩
  -- The fields that are always there are written as one list, between the others.
  simp only [List.append_assoc, List.cons_append, List.nil_append]
  rfl

/-- A document is read again, with its bounds, triggers and times, whatever it
was read from. -/
theorem Document.rereads : Document.record.decoder.Rereads Document.toJson :=
  rereads_decoder (by decide) Document.writes

/-! ## §3. The document as a whole. -/

/-- Each of a list of nodes or edges keeps what it does by itself. -/
theorem forall₂_keeps {β : Type} {record : Record (Fields → β)} {write : β → Json}
    {extra : β → Fields} (hnames : record.names.Nodup) (h : record.WritesRest write extra)
    {items : List Json} {found : List β} (hitems : ∀ item ∈ items, item.Keyed)
    (hfound : List.Forall₂ (fun item b => record.decoderWithRest.ofJson item = .ok b) items found) :
    List.Forall₂ (record.Keeps write extra) items found :=
  ((List.forall₂_and_left items found).2 ⟨hitems, hfound⟩).imp fun _ _ ⟨hitem, hread⟩ =>
    keeps_of_ofJson hnames h hitem hread

/-- **A document is read again as it is written**, and its nodes and edges keep
the fields they do not know. -/
theorem Document.rereads_keeping {value : Json} {doc : Document Float} (hvalue : value.Keyed)
    (h : Document.record.decoder.ofJson value = .ok doc) :
    Document.record.decoder.ofJson doc.toJson = .ok doc
      ∧ List.Forall₂ (StoredNode.record.Keeps StoredNode.toJson StoredNode.extra)
          (value.listed Document.record.names "nodes") doc.nodes
      ∧ List.Forall₂ (StoredEdge.record.Keeps StoredEdge.toJson StoredEdge.extra)
          (value.listed Document.record.names "edges") doc.edges := by
  refine ⟨Document.rereads h, ?_⟩
  obtain ⟨find, hbuild, hfind⟩ := build_of_ofJson h
  simp only [Document.record, build_seq_eq_ok, build_map_eq_ok] at hbuild
  obtain ⟨_, ⟨_, ⟨_, ⟨_, ⟨_, ⟨_, ⟨_, ⟨_, ⟨_, ⟨id, -, rfl⟩, appId, -, rfl⟩, nodes, hnodes, rfl⟩,
    edges, hedges, rfl⟩, vars, -, rfl⟩, execution, -, rfl⟩, triggers, -, rfl⟩, active, -, rfl⟩,
    created, -, rfl⟩, updated, -, rfl⟩ := hbuild
  constructor
  · exact forall₂_keeps (by decide) StoredNode.writesRest hvalue.listed
      (forall₂_of_list (hfind "nodes" (by decide)) hnodes)
  · exact forall₂_keeps (by decide) StoredEdge.writesRest hvalue.listed
      (forall₂_of_list (hfind "edges" (by decide)) hedges)

/-- A document in which fields are left out, are `null` and are not known. -/
theorem Document.rereads_keeping_sparse :
    let node : Json :=
      .obj [("cache", .bool true), ("id", .str "n1"), ("type", .str "llm"),
        ("position", .null), ("description", .str "ask")]
    let edge : Json :=
      .obj [("source", .str "n1"), ("style", .str "dashed"), ("target", .str "n2"),
        ("label", .null)]
    let value : Json :=
      .obj [("id", .null), ("nodes", .arr [node]), ("edges", .arr [edge]),
        ("variables", .arr [.obj [("name", .str "topic"), ("default", .null)]]),
        ("triggers", .arr [.obj [("type", .str "cron")]]),
        ("execution_config", .obj [("timeout", .int 30)])]
    let doc : Document Float :=
      ⟨{ DocumentInfo.blank with
          execution := ⟨100, 30, true, 5⟩, triggers := [⟨"cron", []⟩] },
        [⟨"n1", .llm, none, none, [], none,
          [("cache", .bool true), ("description", .str "ask")]⟩],
        [⟨"n1", "n2", none, [("style", .str "dashed")]⟩],
        [⟨"topic", "string", false, none, none⟩]⟩
    value.Keyed ∧ Document.record.decoder.ofJson value = .ok doc
      ∧ Document.record.decoder.ofJson doc.toJson = .ok doc
      ∧ List.Forall₂ (StoredNode.record.Keeps StoredNode.toJson StoredNode.extra) [node] doc.nodes
      ∧ List.Forall₂ (StoredEdge.record.Keeps StoredEdge.toJson StoredEdge.extra) [edge]
          doc.edges := by
  intro node edge value doc
  have hjson : Decoder.json .unlimited (.ofJson value) = .ok value := rfl
  have hvalue : value.Keyed := keyed_of_json hjson
  have hread : Document.record.decoder.ofJson value = .ok doc := rfl
  exact ⟨hvalue, hread, Document.rereads_keeping hvalue hread⟩

end WorkflowEditor
