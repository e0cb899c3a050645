/-
  WorkflowEditor.Proofs.PickedTypes
  ─────────────────────────────────
  **A VARIABLE IS OFFERED WITH THE TYPE BEHIND ITS VALUE.**

  The variables that a node is offered get their types from the fields that
  publish them, and of equal values the first one counts.  The type behind a
  reference is found the other way round: the reference is split, its node
  is looked up, and then its field.  Both ways meet:

    • `splitReference?_append` — the value of a variable splits into its node
      and its field, whatever the field is called,
    • `field?_of_outputs`, `field?_of_injected` — the first field that has a
      value is the one that is found,
    • `FirstTyped` — so the first of equal values has the type behind it, in
      every stretch of what is offered,
    • `typeOf_offered` — together.
-/
import WorkflowEditor.Proofs.NodeIds
import WorkflowEditor.Proofs.OfferedVariables
import WorkflowEditor.Proofs.ReferenceChains

namespace WorkflowEditor

/-! ## §1. Splitting the value of a variable. -/

/-- The first dot is the one behind the namespace. -/
theorem Selector.splitDot?_append {space : List Char} (h : '.' ∉ space) (name : List Char) :
    splitDot? (space ++ '.' :: name) = some (space, name) := by
  have hspace : ∀ c ∈ space, (c != '.') = true := by
    intro c hc
    rw [bne_iff_ne]
    rintro rfl
    exact h hc
  unfold splitDot?
  rw [List.dropWhile_append_of_pos hspace, List.takeWhile_append_of_pos hspace]
  simp

/-- A reference comes apart at its first dot. -/
theorem splitReference?_append {space : String} (h : '.' ∉ space.toList) (name : String) :
    splitReference? (space ++ "." ++ name) = some (space, name) := by
  have hlist : (space ++ "." ++ name).toList = space.toList ++ '.' :: name.toList := by
    rw [String.toList_append, String.toList_append, List.append_assoc]
    rfl
  unfold splitReference?
  rw [hlist, Selector.splitDot?_append h, Option.map_some, String.ofList_toList,
    String.ofList_toList]

/-- Values are told apart by their namespaces and their names. -/
theorem append_dot_inj {space space' name name' : String} (h : '.' ∉ space.toList)
    (h' : '.' ∉ space'.toList) :
    space ++ "." ++ name = space' ++ "." ++ name' ↔ space = space' ∧ name = name' := by
  constructor
  · intro heq
    have hsplit := congrArg splitReference? heq
    rw [splitReference?_append h, splitReference?_append h'] at hsplit
    exact Prod.mk.inj (Option.some.inj hsplit)
  · rintro ⟨rfl, rfl⟩
    rfl

theorem systemSpace_undotted : '.' ∉ systemSpace.toList := by decide

theorem conversationSpace_undotted : '.' ∉ conversationSpace.toList := by decide

/-- An id that is no other namespace, and that a reference splits off. -/
structure IsPlain (id : String) : Prop where
  undotted : '.' ∉ id.toList
  not_system : id ≠ systemSpace
  not_conversation : id ≠ conversationSpace

/-- Ids made of kinds and numbers are neither names of spaces nor have a
dot. -/
theorem Graph.Generated.isPlain {α : Type} {g : Graph α} (h : g.Generated) {node : Node α}
    (hnode : node ∈ g.nodes) : IsPlain node.id := by
  obtain ⟨hknown, number, hid⟩ := h node hnode
  rw [hid]
  exact ⟨nodeId_undotted hknown number, nodeId_ne (by decide), nodeId_ne (by decide)⟩

/-! ## §2. The first field with a name. -/

namespace OutputField

/-- No node declares a variable of the system. -/
theorem not_system_of_declared {form : Form} {key : String} {field : OutputField}
    (h : field ∈ declared form key) : field.system = false := by
  obtain ⟨item, -, hitem⟩ := List.mem_filterMap.1 h
  unfold ofDeclaration? at hitem
  obtain ⟨name, -, hitem⟩ := Option.bind_eq_some_iff.1 hitem
  split at hitem
  · cases hitem
  · obtain rfl := Option.some.inj hitem
    rfl

theorem not_system_of_aggregated {form : Form} {field : OutputField}
    (h : field ∈ aggregated form) : field.system = false := by
  unfold aggregated at h
  dsimp only at h
  split at h
  · obtain rfl := List.mem_singleton.1 h
    rfl
  · split at h
    · obtain ⟨group, -, hgroup⟩ := List.mem_filterMap.1 h
      obtain ⟨name, -, rfl⟩ := Option.map_eq_some_iff.1 hgroup
      rfl
    · obtain rfl := List.mem_singleton.1 h
      rfl

/-- Whether a reference to a node may name a field so. -/
def answersTo (name : String) (field : OutputField) : Bool := field.name == name && !field.system

end OutputField

namespace Node

open OutputField

variable {α : Type} {node : Node α} {field : OutputField} {name : String}

/-- A node publishes under its own id, but for the variables of the
system. -/
theorem mem_outputs_cases (h : field ∈ node.outputs) :
    field.system = false ∨ field ∈ systemFields := by
  unfold outputs at h
  cases hkind : node.kind <;> rw [hkind] at h
  case start => exact (List.mem_append.1 h).imp_left not_system_of_declared
  case code | parameterExtractor | loop => exact .inl (not_system_of_declared h)
  case varAggregator => exact .inl (not_system_of_aggregated h)
  all_goals
    -- The fields of the other kinds are listed one by one.
    have hlisted (fields : List OutputField) (hfields : ∀ other ∈ fields, other.system = false)
        (hmem : field ∈ fields) : field.system = false := hfields field hmem
    exact .inl (hlisted _ (by simp [plain]) h)

/-- A variable of the system is a text. -/
theorem source_of_system (h : field ∈ node.outputs) (hsystem : field.system) :
    field.source = .known .string := by
  rcases mem_outputs_cases h with hplain | hmem
  · rw [hplain] at hsystem
    cases hsystem
  · unfold systemFields at hmem
    obtain ⟨name, -, rfl⟩ := List.mem_map.1 hmem
    rfl

theorem not_system_of_injected (h : field ∈ node.injected) : field.system = false := by
  unfold injected at h
  split at h
  · exact not_system_of_declared h
  · obtain rfl | hmem := List.mem_cons.1 h
    · rfl
    · obtain rfl := List.mem_singleton.1 hmem
      rfl
  · cases h

/-- **Of what a node publishes, the first field with a name is found.** -/
theorem field?_of_outputs (h : node.outputs.find? (answersTo name) = some field) :
    node.field? name = some field := by
  show node.fields.find? (answersTo name) = some field
  unfold fields
  rw [List.find?_append, h]
  rfl

/-- **Of what a container injects, the first field with a name is found.**  A
loop publishes what it injects, and an iteration publishes nothing by these
names. -/
theorem field?_of_injected (h : node.injected.find? (answersTo name) = some field) :
    node.field? name = some field := by
  have hfields (hcontainer : node.kind.isContainer)
      (hnone : node.outputs.find? (answersTo name) = none) : node.field? name = some field := by
    show node.fields.find? (answersTo name) = some field
    unfold fields
    rw [if_pos hcontainer, List.find?_append, hnone]
    exact h
  -- Only the two kinds of containers inject anything.
  cases hkind : node.kind
  case loop =>
      have hsame : node.injected = node.outputs := by
        unfold injected outputs
        rw [hkind]
      exact field?_of_outputs (hsame ▸ h)
  case iteration =>
      have hname : name = "item" ∨ name = "index" := by
        have hmem := List.mem_of_find?_eq_some h
        have hanswers := List.find?_some h
        unfold injected at hmem
        rw [hkind] at hmem
        unfold answersTo at hanswers
        rw [Bool.and_eq_true, beq_iff_eq] at hanswers
        rw [← hanswers.1]
        simp only [List.mem_cons, List.not_mem_nil, or_false] at hmem
        exact hmem.imp (congrArg OutputField.name) (congrArg OutputField.name)
      refine hfields (hkind ▸ rfl) (List.find?_eq_none.2 fun other hother => ?_)
      unfold outputs at hother
      rw [hkind] at hother
      obtain rfl := List.mem_singleton.1 hother
      rcases hname with rfl | rfl <;> exact Bool.false_ne_true
  all_goals
    unfold injected at h
    rw [hkind] at h
    cases h

end Node

/-! ## §3. The first of equal values. -/

/-- What is offered is the first variable with its value. -/
theorem find?_of_mem_distinctValues {v : Variable} {seen : List String} {vs : List Variable}
    (h : v ∈ distinctValues seen vs) :
    vs.find? (fun other => other.value == v.value) = some v := by
  induction vs generalizing seen with
  | nil => cases h
  | cons w vs ih =>
      have hvalue : v.value ∉ seen :=
        (mem_values_distinctValues.1 (List.mem_map_of_mem h)).2
      by_cases hseen : w.value ∈ seen
      · rw [distinctValues_of_seen hseen] at h
        have hne : w.value ≠ v.value := fun heq => hvalue (heq ▸ hseen)
        rw [List.find?_cons_of_neg (by simpa using hne)]
        exact ih h
      · rw [distinctValues_of_new hseen] at h
        rcases List.mem_cons.1 h with rfl | hrest
        · exact List.find?_cons_of_pos (beq_self_eq_true _)
        · -- A later variable has not the value of this one.
          have hne : w.value ≠ v.value := fun heq =>
            (mem_values_distinctValues.1 (List.mem_map_of_mem hrest)).2
              (heq ▸ List.mem_cons_self)
          rw [List.find?_cons_of_neg (by simpa using hne)]
          exact ih hrest

namespace Graph

open OutputField

variable {α : Type} {g : Graph α}

/-- Of the variables with a value, the first one has the type behind it. -/
def FirstTyped (g : Graph α) (vs : List Variable) : Prop :=
  ∀ value v, vs.find? (fun other => other.value == value) = some v → g.typeOf value = v.dataType

/-- The first variable with a value is made of the first thing that makes
one. -/
theorem exists_of_find?_map {β : Type} {bs : List β} {f : β → Variable} {value : String}
    {v : Variable} (h : (bs.map f).find? (fun other => other.value == value) = some v) :
    ∃ b, f b = v ∧ (f b).value = value
      ∧ bs.find? (fun other => (f other).value == (f b).value) = some b := by
  rw [List.find?_map] at h
  obtain ⟨b, hb, rfl⟩ := Option.map_eq_some_iff.1 h
  obtain rfl := beq_iff_eq.1 (List.find?_some (p := fun other => (f other).value == value) hb)
  exact ⟨b, rfl, rfl, hb⟩

theorem firstTyped_nil : g.FirstTyped [] := nofun

/-- The first variable with a value is in one of the two lists, and the first
one there. -/
theorem FirstTyped.append {vs ws : List Variable} (h : g.FirstTyped vs) (h' : g.FirstTyped ws) :
    g.FirstTyped (vs ++ ws) := by
  intro value v hfound
  rw [List.find?_append, Option.or_eq_some_iff] at hfound
  rcases hfound with hfirst | ⟨-, hlater⟩
  · exact h value v hfirst
  · exact h' value v hlater

theorem firstTyped_flatMap {β : Type} {bs : List β} {f : β → List Variable}
    (h : ∀ b ∈ bs, g.FirstTyped (f b)) : g.FirstTyped (bs.flatMap f) := by
  induction bs with
  | nil => exact firstTyped_nil
  | cons b bs ih =>
      obtain ⟨hfirst, hrest⟩ := List.forall_mem_cons.1 h
      exact hfirst.append (ih hrest)

/-- **The fields of a node are offered with the types that are found for
them**, if the first field with a name is the one that is found. -/
theorem firstTyped_variablesOf {node : Node α} (hnode : g.node? node.id = some node)
    (hplain : IsPlain node.id) {fields : List OutputField}
    (hsystem : ∀ field ∈ fields, field.system → field.source = .known .string)
    (hfirst : ∀ name field, fields.find? (answersTo name) = some field →
      node.field? name = some field) :
    g.FirstTyped (g.variablesOf node fields) := by
  intro value v hfound
  obtain ⟨field, rfl, rfl, hfield⟩ := exists_of_find?_map hfound
  show g.typeOf ((if field.system then systemSpace else node.id) ++ "." ++ field.name)
    = g.fieldType field
  rw [fieldType_eq_read, typeOf_eq_read]
  cases hspace : field.system with
  | true =>
      rw [if_pos rfl, link_of_system (splitReference?_append systemSpace_undotted _),
        hsystem field (List.mem_of_find?_eq_some hfield) hspace]
  | false =>
      -- The fields with this value are those that answer to the name.
      have hsame : (fun other : OutputField =>
          (if other.system then systemSpace else node.id) ++ "." ++ other.name
            == node.id ++ "." ++ field.name) = answersTo field.name := by
        funext other
        unfold answersTo
        cases other.system with
        | true => simp [append_dot_inj systemSpace_undotted hplain.undotted,
            hplain.not_system.symm]
        | false => simp [append_dot_inj hplain.undotted hplain.undotted]
      have hanswers : fields.find? (answersTo field.name) = some field := by
        rw [← hsame]
        unfold Variable.named at hfield
        rwa [hspace] at hfield
      have hfound := hfirst field.name field hanswers
      rw [if_neg Bool.false_ne_true,
        link_of_node ⟨splitReference?_append hplain.undotted _, hplain.not_system,
          hplain.not_conversation⟩, hnode, Option.bind_some, hfound]
      rfl

theorem firstTyped_conversationVariables (g : Graph α) : g.FirstTyped g.conversationVariables := by
  intro value v hfound
  obtain ⟨declared, rfl, rfl, hdeclared⟩ := exists_of_find?_map hfound
  have hsame : (fun other : ConversationVariable => conversationSpace ++ "." ++ other.name
      == conversationSpace ++ "." ++ declared.name) = fun other => other.name == declared.name := by
    funext other
    simp [append_dot_inj conversationSpace_undotted conversationSpace_undotted]
  have hfirst : g.vars.find? (fun other => other.name == declared.name) = some declared := by
    rw [← hsame]
    exact hdeclared
  show g.typeOf (conversationSpace ++ "." ++ declared.name) = .ofTag declared.dataType
  rw [typeOf_eq_read, link_of_conversation (splitReference?_append conversationSpace_undotted _)]
  show g.conversationType declared.name = .ofTag declared.dataType
  unfold conversationType
  rw [hfirst]

/-! ## §4. What a node is offered. -/

/-- **Each stretch of what a node is offered is typed right.** -/
theorem firstTyped_upstream (hplain : ∀ node ∈ g.nodes, IsPlain node.id)
    (id : String) : g.FirstTyped (g.upstream id) := by
  refine firstTyped_flatMap fun other _ => ?_
  unfold outputsOf
  split
  · rename_i node hnode
    obtain ⟨hmem, rfl⟩ := mem_of_node? hnode
    exact firstTyped_variablesOf hnode (hplain node hmem)
      (fun _ hfield => Node.source_of_system hfield) fun _ _ => Node.field?_of_outputs
  · exact firstTyped_nil

/-- It is enough to look at the one container of a node. -/
theorem firstTyped_ofContainer {node : Node α} {f : Node α → List Variable}
    (h : ∀ container ∈ g.nodes, g.node? container.id = some container →
      g.FirstTyped (f container)) : g.FirstTyped (g.ofContainer node f) := by
  unfold ofContainer
  split
  · rename_i container hcontainer
    unfold containerOf? at hcontainer
    obtain ⟨id, -, hfound⟩ := Option.bind_eq_some_iff.1 hcontainer
    obtain ⟨hmem, rfl⟩ := mem_of_node? hfound
    exact h container hmem hfound
  · exact firstTyped_nil

theorem firstTyped_injections (hplain : ∀ node ∈ g.nodes, IsPlain node.id) (node : Node α) :
    g.FirstTyped (g.injections node) := by
  refine firstTyped_ofContainer fun container hmem hfound => ?_
  refine firstTyped_variablesOf hfound (hplain container hmem) (fun field hfield hsystem => ?_)
    fun _ _ => Node.field?_of_injected
  rw [Node.not_system_of_injected hfield] at hsystem
  cases hsystem

/-- **Where ids are plain, a variable is offered with the type behind its
value.** -/
theorem typeOf_of_mem_resolve (hplain : ∀ node ∈ g.nodes, IsPlain node.id) {node : Node α}
    (hnode : g.node? node.id = some node) :
    ∃ vs, g.resolve node.id = .ok vs ∧ ∀ v ∈ vs, g.typeOf v.value = v.dataType := by
  refine ⟨_, resolve_eq hnode, fun v hv => ?_⟩
  have houter : g.FirstTyped (g.outerUpstream node) :=
    firstTyped_ofContainer fun container _ _ => firstTyped_upstream hplain container.id
  exact (((firstTyped_injections hplain node).append (firstTyped_upstream hplain node.id)).append
    houter).append (firstTyped_conversationVariables g) _ v (find?_of_mem_distinctValues hv)

/-- **The picker and the lookup agree on types.**  Let a graph be made of an
empty one by changes that add nodes of known kinds, with any forms and any
variables of the conversation.  Then what a node is offered has the type that
is found behind its value, whether references end or go in a circle. -/
theorem typeOf_offered [Coordinate α] (settings : Settings α) {changes : List (Edit α)}
    (hknown : ∀ change ∈ changes, ∀ kind, change.Adds kind → kind ∈ Kind.known) :
    let g := (Graph.empty settings).run changes
    ∀ node ∈ g.nodes,
      ∃ vs, g.resolve node.id = .ok vs ∧ ∀ v ∈ vs, g.typeOf v.value = v.dataType := by
  intro g node hnode
  have hwell : g.WellFormed := (Initial.empty settings).wellFormed.run changes
  have hgenerated : g.Generated := generated_run settings hknown
  exact typeOf_of_mem_resolve (fun _ => hgenerated.isPlain) (hwell.node?_of_mem hnode)

/-- Two aggregators that take over each other's type, and two variables of
the conversation with one name. -/
theorem typeOf_offered_circle :
    let changes : List (Edit Rat) :=
      [.addNode .varAggregator ⟨0, 0⟩, .addNode .varAggregator ⟨400, 0⟩, .addNode .llm ⟨800, 0⟩,
        .updateConfig "var_aggregator_1" "group_variables" (.arr [.str "var_aggregator_2.output"]),
        .updateConfig "var_aggregator_2" "group_variables" (.arr [.str "var_aggregator_1.output"]),
        .connect "var_aggregator_1" none "llm_1" none,
        .setVariables [⟨"topic", "number", false, none, none⟩,
          ⟨"topic", "string", false, none, none⟩]]
    let g := (Graph.empty .standard).run changes
    (∀ change ∈ changes, ∀ kind, change.Adds kind → kind ∈ Kind.known)
      ∧ ∃ vs, g.resolve "llm_1" = .ok vs ∧ (∀ v ∈ vs, g.typeOf v.value = v.dataType)
        ∧ vs.map (fun v => (v.value, v.dataType))
          = [("var_aggregator_1.output", .any), ("conv.topic", .number)] := by
  intro changes g
  have hknown : ∀ change ∈ changes, ∀ kind, change.Adds kind → kind ∈ Kind.known := by
    intro change hchange kind hadds
    cases hadds with
    | addNode kind position =>
        simp only [changes, List.mem_cons, Edit.addNode.injEq, reduceCtorEq, List.not_mem_nil,
          or_false] at hchange
        rcases hchange with ⟨rfl, -⟩ | ⟨rfl, -⟩ | ⟨rfl, -⟩ <;> decide
    | dropPayload position hkind => simp [changes] at hchange
  have hvalues : ((g.resolve "llm_1").toOption.map fun vs => vs.map fun v =>
      (v.value, v.dataType))
        = some [("var_aggregator_1.output", .any), ("conv.topic", .number)] := by
    decide +kernel
  obtain ⟨vs, hvs, hvalues⟩ := Option.map_eq_some_iff.1 hvalues
  have hresolve : g.resolve "llm_1" = .ok vs := toOption_eq_some_iff.1 hvs
  obtain ⟨node, hrequire, -⟩ := bind_eq_ok.1 hresolve
  obtain ⟨hmem, hid⟩ := mem_of_require hrequire
  obtain ⟨vs', hresolve', htypes⟩ := typeOf_offered .standard hknown node hmem
  obtain rfl : vs = vs' := Except.ok.inj (hresolve.symm.trans (hid ▸ hresolve'))
  exact ⟨hknown, vs, hresolve, htypes, hvalues⟩

end Graph

end WorkflowEditor
