/-
  WorkflowEditor.Proofs.OfferedVariables
  ──────────────────────────────────────
  **A NODE IS OFFERED WHAT STANDS BEFORE IT, AND NOTHING ELSE.**

  A node may refer to what its container injects, to what the nodes before
  it and before its container publish, and to the variables of the
  conversation.  `Offers` says so without a search: a node stands before
  another if there is a path between them.

    • `mem_values_distinctValues`, `distinctValues_append` — of equal values
      the first one is kept, so a list falls into stretches,
    • `resolve_eq` — what is offered, in the order of its sources,
    • `mem_values_upstream`, `mem_values_injections` — what each source
      holds,
    • `resolve_offers` — together: all of it, once, in order, and nothing
      else.
-/
import WorkflowEditor.Scope.Resolve
import WorkflowEditor.Proofs.BreadthFirst
import WorkflowEditor.Proofs.Loading

namespace WorkflowEditor

/-! ## §1. Of equal values the first. -/

section DistinctValues

variable {seen : List String} {v : Variable}

/-- A value that was offered is not offered again. -/
theorem distinctValues_of_seen (h : v.value ∈ seen) (vs : List Variable) :
    distinctValues seen (v :: vs) = distinctValues seen vs :=
  if_pos (List.contains_iff_mem.2 h)

theorem distinctValues_of_new (h : v.value ∉ seen) (vs : List Variable) :
    distinctValues seen (v :: vs) = v :: distinctValues (v.value :: seen) vs :=
  if_neg fun hseen => h (List.contains_iff_mem.1 hseen)

/-- It does not matter in which order values were seen. -/
theorem distinctValues_congr {seen' : List String} (h : ∀ value, value ∈ seen ↔ value ∈ seen')
    (vs : List Variable) : distinctValues seen vs = distinctValues seen' vs := by
  induction vs generalizing seen seen' with
  | nil => rfl
  | cons v vs ih =>
      by_cases hseen : v.value ∈ seen
      · rw [distinctValues_of_seen hseen, distinctValues_of_seen ((h _).1 hseen), ih h]
      · have hcons : ∀ value, value ∈ v.value :: seen ↔ value ∈ v.value :: seen' := by
          intro value
          rw [List.mem_cons, List.mem_cons, h value]
        rw [distinctValues_of_new hseen, distinctValues_of_new fun h' => hseen ((h _).2 h'),
          ih hcons]

/-- What is offered keeps its order. -/
theorem distinctValues_sublist (seen : List String) (vs : List Variable) :
    (distinctValues seen vs).Sublist vs := by
  induction vs generalizing seen with
  | nil => exact List.Sublist.slnil
  | cons v vs ih =>
      by_cases hseen : v.value ∈ seen
      · rw [distinctValues_of_seen hseen]
        exact (ih seen).cons v
      · rw [distinctValues_of_new hseen]
        exact (ih _).cons_cons v

/-- **No value is lost** but those that were seen before. -/
theorem mem_values_distinctValues {vs : List Variable} {value : String} :
    value ∈ (distinctValues seen vs).map Variable.value
      ↔ value ∈ vs.map Variable.value ∧ value ∉ seen := by
  induction vs generalizing seen with
  | nil => simp [distinctValues]
  | cons v vs ih =>
      rw [List.map_cons, List.mem_cons]
      by_cases hseen : v.value ∈ seen
      · rw [distinctValues_of_seen hseen, ih]
        grind
      · rw [distinctValues_of_new hseen, List.map_cons, List.mem_cons, ih, List.mem_cons]
        grind

/-- No value is offered twice. -/
theorem nodup_values_distinctValues (seen : List String) (vs : List Variable) :
    ((distinctValues seen vs).map Variable.value).Nodup := by
  induction vs generalizing seen with
  | nil => exact List.nodup_nil
  | cons v vs ih =>
      by_cases hseen : v.value ∈ seen
      · rw [distinctValues_of_seen hseen]
        exact ih seen
      · rw [distinctValues_of_new hseen]
        refine List.nodup_cons.2 ⟨fun hmem => ?_, ih _⟩
        exact (mem_values_distinctValues.1 hmem).2 List.mem_cons_self

/-- **A list falls into stretches**: what comes later keeps the values that
did not come before. -/
theorem distinctValues_append (seen : List String) (vs ws : List Variable) :
    distinctValues seen (vs ++ ws)
      = distinctValues seen vs ++ distinctValues (seen ++ vs.map Variable.value) ws := by
  induction vs generalizing seen with
  | nil =>
      rw [List.map_nil, List.append_nil]
      rfl
  | cons v vs ih =>
      rw [List.cons_append, List.map_cons]
      by_cases hseen : v.value ∈ seen
      · rw [distinctValues_of_seen hseen, distinctValues_of_seen hseen, ih]
        refine congrArg _ (distinctValues_congr (fun value => ?_) ws)
        grind
      · rw [distinctValues_of_new hseen, distinctValues_of_new hseen, ih, List.cons_append]
        refine congrArg (v :: distinctValues (v.value :: seen) vs ++ ·)
          (distinctValues_congr (fun value => ?_) ws)
        grind

end DistinctValues

namespace Graph

variable {α : Type}

/-! ## §2. What a node may refer to. -/

/-- A node stands before another if that can be reached from it, along one
edge or more. -/
def Before (g : Graph α) (m n : String) : Prop := m ≠ n ∧ g.links.Leads m n

/-- A value that some node before a place publishes. -/
def PublishedBefore (g : Graph α) (n value : String) : Prop :=
  ∃ m, g.Before m n ∧ value ∈ (g.outputsOf m).map Variable.value

/-- A value that the container of a node injects. -/
def InjectedInto (g : Graph α) (node : Node α) (value : String) : Prop :=
  ∃ container ∈ g.nodes, node.cycle = some container.id
    ∧ value ∈ (g.variablesOf container container.injected).map Variable.value

/-- A value that some node before the container of a node publishes. -/
def PublishedOutside (g : Graph α) (node : Node α) (value : String) : Prop :=
  ∃ container ∈ g.nodes, node.cycle = some container.id ∧ g.PublishedBefore container.id value

/-- A value of the conversation. -/
def OfConversation (g : Graph α) (value : String) : Prop :=
  ∃ v ∈ g.vars, value = "conv." ++ v.name

/-- Where the variables that a node is offered may come from. -/
inductive SourceFor (g : Graph α) (node : Node α) : Origin → Prop
  | container {container : Node α} : container ∈ g.nodes → node.cycle = some container.id →
      SourceFor g node ⟨container.id, container.name, some container.kind⟩
  | before {m : Node α} : m ∈ g.nodes → g.Before m.id node.id →
      SourceFor g node ⟨m.id, m.name, some m.kind⟩
  | outside {container m : Node α} : container ∈ g.nodes → node.cycle = some container.id →
      m ∈ g.nodes → g.Before m.id container.id → SourceFor g node ⟨m.id, m.name, some m.kind⟩
  | conversation : SourceFor g node ⟨"conv", "Conversation", none⟩

/-- Variables that fall into four stretches: what is injected, what else is
published before the node, what else is published before its container,
and what else the conversation holds. -/
structure InStretches (g : Graph α) (node : Node α)
    (injected own outer conversation : List Variable) : Prop where
  injected_iff : ∀ value, value ∈ injected.map Variable.value ↔ g.InjectedInto node value
  own_iff : ∀ value, value ∈ own.map Variable.value
    ↔ g.PublishedBefore node.id value ∧ ¬ g.InjectedInto node value
  outer_iff : ∀ value, value ∈ outer.map Variable.value
    ↔ g.PublishedOutside node value
      ∧ ¬ (g.InjectedInto node value ∨ g.PublishedBefore node.id value)
  conversation_iff : ∀ value, value ∈ conversation.map Variable.value
    ↔ g.OfConversation value ∧ ¬ (g.InjectedInto node value ∨ g.PublishedBefore node.id value
      ∨ g.PublishedOutside node value)
  declared : (conversation.map Variable.value).Sublist (g.vars.map fun v => "conv." ++ v.name)

/-- What a node has to be offered: all that it may refer to and nothing
else, no value twice, in order. -/
structure Offers (g : Graph α) (node : Node α) (vs : List Variable) : Prop where
  value_iff : ∀ value, value ∈ vs.map Variable.value
    ↔ g.InjectedInto node value ∨ g.PublishedBefore node.id value
      ∨ g.PublishedOutside node value ∨ g.OfConversation value
  nodup : (vs.map Variable.value).Nodup
  stretches : ∃ injected own outer conversation,
    vs = injected ++ own ++ outer ++ conversation
      ∧ g.InStretches node injected own outer conversation
  sources : ∀ v ∈ vs, g.SourceFor node v.origin

/-! ## §3. The sources in order. -/

/-- What is published before a place, the nearest first. -/
def upstream (g : Graph α) (n : String) : List Variable := (g.ancestors n).flatMap g.outputsOf

/-- What comes of the container of a node, if there is one. -/
def ofContainer (g : Graph α) (node : Node α) (f : Node α → List Variable) : List Variable :=
  match g.containerOf? node with
  | some container => f container
  | none => []

/-- What the container of a node injects. -/
def injections (g : Graph α) (node : Node α) : List Variable :=
  g.ofContainer node fun container => g.variablesOf container container.injected

/-- What is published before the container of a node. -/
def outerUpstream (g : Graph α) (node : Node α) : List Variable :=
  g.ofContainer node fun container => g.upstream container.id

/-- **What is offered**, in the order of its sources. -/
theorem resolve_eq {g : Graph α} {id : String} {node : Node α} (h : g.node? id = some node) :
    g.resolve id = .ok (distinctValues []
      (g.injections node ++ g.upstream id ++ g.outerUpstream node
        ++ g.conversationVariables)) := by
  unfold resolve require injections outerUpstream ofContainer upstream
  rw [h]
  cases hcontainer : g.containerOf? node with
  | none => simp [bind, Except.bind, pure, Except.pure, hcontainer]
  | some container => simp [bind, Except.bind, pure, Except.pure, hcontainer]

/-- What is offered from upstream is published by a node from which a way leads
here. -/
theorem mem_values_upstream {g : Graph α} {n value : String} :
    value ∈ (g.upstream n).map Variable.value ↔ g.PublishedBefore n value := by
  unfold upstream PublishedBefore Before ancestors
  rw [List.map_flatMap, List.mem_flatMap]
  exact exists_congr fun m => and_congr_left fun _ => Digraph.mem_ancestors_iff

/-- There is one container at most, since ids are distinct. -/
theorem mem_ofContainer {g : Graph α} (hnodup : (g.nodes.map Node.id).Nodup) {node : Node α}
    {f : Node α → List Variable} {v : Variable} :
    v ∈ g.ofContainer node f
      ↔ ∃ container ∈ g.nodes, node.cycle = some container.id ∧ v ∈ f container := by
  unfold ofContainer
  constructor
  · intro hv
    split at hv
    · rename_i container hcontainer
      obtain ⟨hmem, hcycle⟩ := (containerOf?_eq_some_iff hnodup).1 hcontainer
      exact ⟨container, hmem, hcycle, hv⟩
    · cases hv
  · rintro ⟨container, hmem, hcycle, hv⟩
    rw [(containerOf?_eq_some_iff hnodup).2 ⟨hmem, hcycle⟩]
    exact hv

/-- The same for values. -/
theorem mem_values_ofContainer {g : Graph α} (hnodup : (g.nodes.map Node.id).Nodup)
    {node : Node α} {f : Node α → List Variable} {value : String} :
    value ∈ (g.ofContainer node f).map Variable.value ↔ ∃ container ∈ g.nodes,
      node.cycle = some container.id ∧ value ∈ (f container).map Variable.value := by
  rw [List.mem_map]
  constructor
  · rintro ⟨v, hv, rfl⟩
    obtain ⟨container, hmem, hcycle, hv⟩ := (mem_ofContainer hnodup).1 hv
    exact ⟨container, hmem, hcycle, List.mem_map_of_mem hv⟩
  · rintro ⟨container, hmem, hcycle, hvalue⟩
    obtain ⟨v, hv, rfl⟩ := List.mem_map.1 hvalue
    exact ⟨v, (mem_ofContainer hnodup).2 ⟨container, hmem, hcycle, hv⟩, rfl⟩

theorem mem_values_injections {g : Graph α} (hnodup : (g.nodes.map Node.id).Nodup)
    {node : Node α} {value : String} :
    value ∈ (g.injections node).map Variable.value ↔ g.InjectedInto node value :=
  mem_values_ofContainer hnodup

theorem mem_values_outerUpstream {g : Graph α} (hnodup : (g.nodes.map Node.id).Nodup)
    {node : Node α} {value : String} :
    value ∈ (g.outerUpstream node).map Variable.value ↔ g.PublishedOutside node value := by
  unfold outerUpstream PublishedOutside
  rw [mem_values_ofContainer hnodup]
  simp only [mem_values_upstream]

theorem values_conversationVariables (g : Graph α) :
    g.conversationVariables.map Variable.value = g.vars.map fun v => "conv." ++ v.name := by
  unfold conversationVariables
  rw [List.map_map]
  rfl

theorem mem_values_conversationVariables {g : Graph α} {value : String} :
    value ∈ g.conversationVariables.map Variable.value ↔ g.OfConversation value := by
  rw [values_conversationVariables, List.mem_map]
  unfold OfConversation
  simp only [eq_comm]

/-! ## §4. Where the variables come from. -/

theorem origin_of_mem_variablesOf {g : Graph α} {node : Node α} {fields : List OutputField}
    {v : Variable} (hv : v ∈ g.variablesOf node fields) :
    v.origin = ⟨node.id, node.name, some node.kind⟩ := by
  unfold variablesOf at hv
  obtain ⟨field, -, rfl⟩ := List.mem_map.1 hv
  rfl

/-- A variable from upstream names the node that publishes it. -/
theorem origin_of_mem_upstream {g : Graph α} {n : String} {v : Variable} (hv : v ∈ g.upstream n) :
    ∃ m ∈ g.nodes, g.Before m.id n ∧ v.origin = ⟨m.id, m.name, some m.kind⟩ := by
  obtain ⟨id, hid, hv⟩ := List.mem_flatMap.1 hv
  unfold outputsOf at hv
  split at hv
  · rename_i m hm
    obtain ⟨hmem, rfl⟩ := mem_of_node? hm
    exact ⟨m, hmem, Digraph.mem_ancestors_iff.1 hid, origin_of_mem_variablesOf hv⟩
  · cases hv

/-- Whatever is offered has one of the four sources. -/
theorem sourceFor_of_mem {g : Graph α} (hnodup : (g.nodes.map Node.id).Nodup) {node : Node α}
    {v : Variable} (hv : v ∈ g.injections node ++ g.upstream node.id ++ g.outerUpstream node
      ++ g.conversationVariables) : g.SourceFor node v.origin := by
  rw [List.mem_append, List.mem_append, List.mem_append] at hv
  rcases hv with ((hinjected | hown) | houter) | hconversation
  · obtain ⟨container, hmem, hcycle, hinjected⟩ := (mem_ofContainer hnodup).1 hinjected
    rw [origin_of_mem_variablesOf hinjected]
    exact .container hmem hcycle
  · obtain ⟨m, hmem, hbefore, horigin⟩ := origin_of_mem_upstream hown
    rw [horigin]
    exact .before hmem hbefore
  · obtain ⟨container, hcmem, hcycle, houter⟩ := (mem_ofContainer hnodup).1 houter
    obtain ⟨m, hmem, hbefore, horigin⟩ := origin_of_mem_upstream houter
    rw [horigin]
    exact .outside hcmem hcycle hmem hbefore
  · unfold conversationVariables at hconversation
    obtain ⟨declared, -, rfl⟩ := List.mem_map.1 hconversation
    exact .conversation

/-! ## §5. All that a node may refer to. -/

/-- The four sources, each without the values of those before it. -/
theorem inStretches_distinctValues {g : Graph α} (hnodup : (g.nodes.map Node.id).Nodup)
    (node : Node α) :
    g.InStretches node
      (distinctValues [] (g.injections node))
      (distinctValues ([] ++ (g.injections node).map Variable.value) (g.upstream node.id))
      (distinctValues ([] ++ (g.injections node ++ g.upstream node.id).map Variable.value)
        (g.outerUpstream node))
      (distinctValues ([] ++ (g.injections node ++ g.upstream node.id
        ++ g.outerUpstream node).map Variable.value) g.conversationVariables) := by
  constructor
  case injected_iff =>
      intro value
      rw [mem_values_distinctValues, mem_values_injections hnodup]
      simp
  case own_iff =>
      intro value
      rw [mem_values_distinctValues, mem_values_upstream, List.nil_append,
        mem_values_injections hnodup]
  case outer_iff =>
      intro value
      rw [mem_values_distinctValues, mem_values_outerUpstream hnodup, List.nil_append,
        List.map_append, List.mem_append, mem_values_injections hnodup, mem_values_upstream]
  case conversation_iff =>
      intro value
      rw [mem_values_distinctValues, mem_values_conversationVariables, List.nil_append,
        List.map_append, List.map_append, List.mem_append, List.mem_append,
        mem_values_injections hnodup, mem_values_upstream, mem_values_outerUpstream hnodup,
        or_assoc]
  case declared =>
      rw [← values_conversationVariables]
      exact (distinctValues_sublist _ _).map _

variable [Coordinate α]

/-- **Every node is offered all that it may refer to, once and in order, and
nothing else**, also where edges run in circles. -/
theorem resolve_offers {g : Graph α} (h : g.Reachable) {node : Node α} (hnode : node ∈ g.nodes) :
    ∃ vs, g.resolve node.id = .ok vs ∧ g.Offers node vs := by
  have hnodup := h.wellFormed.nodup_ids
  refine ⟨_, resolve_eq (h.wellFormed.node?_of_mem hnode), ?_⟩
  constructor
  case value_iff =>
      intro value
      rw [mem_values_distinctValues, List.map_append, List.map_append, List.map_append,
        List.mem_append, List.mem_append, List.mem_append, mem_values_injections hnodup,
        mem_values_upstream, mem_values_outerUpstream hnodup, mem_values_conversationVariables]
      simp [or_assoc]
  case nodup => exact nodup_values_distinctValues _ _
  case stretches =>
      refine ⟨_, _, _, _, ?_, inStretches_distinctValues hnodup node⟩
      rw [distinctValues_append, distinctValues_append, distinctValues_append]
  case sources =>
      intro v hv
      exact sourceFor_of_mem hnodup ((distinctValues_sublist _ _).subset hv)

/-- A loop whose two nodes stand before each other, behind the start: each
is offered the other one. -/
theorem resolve_offers_circle :
    let doc : Document Rat :=
      { info := .blank
        nodes :=
          [⟨"start", .start, none, none, [], none, []⟩,
            ⟨"loop", .loop, none, none,
              [("cycle_vars", .arr [.obj [("name", .str "round")]])], none, []⟩,
            ⟨"ask", .llm, none, none, [], some "loop", []⟩,
            ⟨"search", .tool, none, none, [], some "loop", []⟩,
            ⟨"last", .llm, none, none, [], none, []⟩]
        edges :=
          [⟨"start", "loop", none, []⟩, ⟨"ask", "search", none, []⟩,
            ⟨"search", "ask", none, []⟩, ⟨"loop", "last", none, []⟩]
        vars := [⟨"topic", "string", false, none, none⟩] }
    ∃ g ask vs, doc.toGraph .standard = .ok g ∧ ask ∈ g.nodes ∧ ask.id = "ask"
      ∧ g.resolve ask.id = .ok vs ∧ g.Offers ask vs
      ∧ vs.map Variable.value = ["loop.round", "search.data", "search.error_code",
          "search.execution_time", "sys.message", "sys.conversation_id", "sys.execution_id",
          "sys.workspace_id", "sys.user_id", "conv.topic"] := by
  intro doc
  have hvalues : ((doc.toGraph .standard).toOption.bind fun g => (g.resolve "ask").toOption.map
      fun vs => vs.map Variable.value) = some ["loop.round", "search.data", "search.error_code",
        "search.execution_time", "sys.message", "sys.conversation_id", "sys.execution_id",
        "sys.workspace_id", "sys.user_id", "conv.topic"] := by decide +kernel
  obtain ⟨g, hg, hvalues⟩ := Option.bind_eq_some_iff.1 hvalues
  obtain ⟨vs, hvs, hvalues⟩ := Option.map_eq_some_iff.1 hvalues
  have hok : doc.toGraph .standard = .ok g := toOption_eq_some_iff.1 hg
  have hresolve : g.resolve "ask" = .ok vs := toOption_eq_some_iff.1 hvs
  obtain ⟨ask, hrequire, -⟩ := bind_eq_ok.1 hresolve
  obtain ⟨hmem, hid⟩ := mem_of_require hrequire
  obtain ⟨vs', hresolve', hoffers⟩ := resolve_offers ⟨g, [], .loaded hok, rfl⟩ hmem
  obtain rfl : vs = vs' := Except.ok.inj (hresolve.symm.trans (hid ▸ hresolve'))
  exact ⟨g, ask, vs, hok, hmem, hid, hresolve', hoffers, hvalues⟩

end Graph

end WorkflowEditor
