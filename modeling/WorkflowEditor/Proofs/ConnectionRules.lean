/-
  WorkflowEditor.Proofs.ConnectionRules
  ─────────────────────────────────────
  **AN EDGE CAN BE MADE EXACTLY IF THE RULES HOLD WITH IT.**

  The rules for edges are told of a whole graph, the checks of an edge one by
  one.  They come to the same, and an edge that is made is all that is new:

    • `Graph.EdgeRules` — the rules for the edges of a graph,
    • `Graph.edgeRules_withEdge_iff` — what one edge more asks,
    • `Graph.joint_eq_ok_iff` — and what is checked of it,
    • `Graph.joint_right_out`, `Graph.joint_left_out` — a port that is left out
      is the first one,
    • `Graph.exists_connect_iff`, `Graph.connect_eq_ok` — what is checked
      decides, and the edge is all that is new,
    • `Graph.connect_iff_edgeRules` — all of it together,
    • `Graph.connect_portless_finish` — what is told of a node without ports.
-/
import WorkflowEditor.Proofs.EdgeIds

namespace WorkflowEditor

variable {α : Type}

/-! ## §1. The rules. -/

/-- The nodes and ports that an edge joins. -/
def Edge.ends (edge : Edge) : String × String × String × String :=
  (edge.source, edge.sourcePort, edge.target, edge.targetPort)

namespace Graph

/-- The rules for edges: each joins two nodes as it may, and no two join the
same ports. -/
structure EdgeRules (g : Graph α) : Prop where
  joins : ∀ edge ∈ g.edges, ∃ source ∈ g.nodes, ∃ target ∈ g.nodes, edge.Joins source target
  distinct : (g.edges.map Edge.ends).Nodup

/-- A graph with one edge more. -/
def withEdge (g : Graph α) (edge : Edge) : Graph α := { g with edges := g.edges ++ [edge] }

variable {g : Graph α} {edge : Edge}

/-- **Every graph that the editor makes keeps the rules.** -/
theorem WellFormed.edgeRules (h : g.WellFormed) : g.EdgeRules := by
  refine ⟨h.edges, List.Nodup.of_map (fun ends => (ends.1, ends.2.1, ends.2.2.1)) ?_⟩
  rw [List.map_map]
  exact h.nodup_routes

/-- **One edge more keeps the rules** exactly if it joins two nodes and is not
there. -/
theorem edgeRules_withEdge_iff (h : g.EdgeRules) : (g.withEdge edge).EdgeRules
    ↔ (∃ source ∈ g.nodes, ∃ target ∈ g.nodes, edge.Joins source target)
      ∧ edge.ends ∉ g.edges.map Edge.ends := by
  have hends : (g.withEdge edge).edges.map Edge.ends = g.edges.map Edge.ends ++ [edge.ends] :=
    List.map_append
  constructor
  · rintro ⟨hjoins, hdistinct⟩
    -- The rules for the edges before say nothing of the new one, but that it is another.
    rw [hends] at hdistinct
    refine ⟨hjoins edge (List.mem_append_right _ (List.mem_singleton_self _)), fun htaken => ?_⟩
    exact (List.nodup_append.1 hdistinct).2.2 _ htaken _ (List.mem_singleton_self _) rfl
  · rintro ⟨hjoins, hfree⟩
    constructor
    · intro other hother
      rcases List.mem_append.1 hother with hold | hnew
      · exact h.joins other hold
      · rwa [List.mem_singleton.1 hnew]
    · rw [hends]
      exact h.distinct.append (List.nodup_singleton _) (by simpa using hfree)

/-! ## §2. The checks. -/

theorem hasEdge_iff : g.hasEdge edge.source edge.sourcePort edge.target edge.targetPort
    ↔ edge.ends ∈ g.edges.map Edge.ends := by
  unfold hasEdge
  rw [List.any_eq_true, List.mem_map]
  refine exists_congr fun other => and_congr_right fun _ => ?_
  unfold Edge.ends
  simp only [Bool.and_eq_true, beq_iff_eq, Prod.mk.injEq, and_assoc]

/-- A port that is named is taken if it is there. -/
theorem pickPort_some {node : Node α} {side : Side} {port picked : String} :
    node.pickPort side (some port) = .ok picked ↔ picked = port ∧ port ∈ node.portIds side := by
  unfold Node.pickPort
  dsimp only
  split
  · rename_i found hfound
    have htest := List.find?_some hfound
    have hsame : found = port := beq_iff_eq.1 htest
    rw [Except.ok.injEq, hsame, eq_comm]
    exact (and_iff_left (hsame ▸ List.mem_of_find?_eq_some hfound)).symm
  · rename_i hnone
    refine iff_of_false nofun ?_
    rintro ⟨-, hmem⟩
    exact absurd (beq_self_eq_true port) (List.find?_eq_none.1 hnone port hmem)

/-- The first port is taken if none is named. -/
theorem pickPort_none {node : Node α} {side : Side} {first : String} {rest : List String}
    (h : node.portIds side = first :: rest) :
    node.pickPort side none = node.pickPort side (some first) := by
  have hnamed : node.pickPort side (some first) = .ok first :=
    pickPort_some.2 ⟨rfl, h ▸ List.mem_cons_self⟩
  rw [hnamed]
  unfold Node.pickPort
  rw [h]
  rfl

/-- **What is checked of an edge** is what one edge more asks. -/
theorem joint_eq_ok_iff (hids : (g.nodes.map Node.id).Nodup) {ports : String × String} :
    g.joint edge.source (some edge.sourcePort) edge.target (some edge.targetPort) = .ok ports
      ↔ ports = (edge.sourcePort, edge.targetPort)
        ∧ (∃ source ∈ g.nodes, ∃ target ∈ g.nodes, edge.Joins source target)
        ∧ edge.ends ∉ g.edges.map Edge.ends := by
  unfold joint
  constructor
  · intro h
    -- Each check that was passed says one of the rules.
    obtain ⟨source, hsource, h⟩ := bind_eq_ok.1 h
    obtain ⟨target, htarget, h⟩ := bind_eq_ok.1 h
    obtain ⟨_, hends, h⟩ := bind_eq_ok.1 (mapError_eq_ok.1 h)
    obtain ⟨exit, hexit, h⟩ := bind_eq_ok.1 h
    obtain ⟨entry, hentry, h⟩ := bind_eq_ok.1 h
    obtain ⟨rfl, hleaves⟩ := pickPort_some.1 hexit
    obtain ⟨rfl, henters⟩ := pickPort_some.1 hentry
    obtain ⟨hfree, h⟩ := guard_eq_ok.1 h
    obtain ⟨hid, haccepts, hemits, hcycle⟩ := checkEnds_eq_ok.1 hends
    obtain ⟨hmem, hsourceId⟩ := mem_of_require hsource
    obtain ⟨hmem', htargetId⟩ := mem_of_require htarget
    refine ⟨(Except.ok.inj h).symm, ⟨source, hmem, target, hmem', ?_⟩,
      fun htaken => hfree (hasEdge_iff.2 htaken)⟩
    exact
      { source_id := hsourceId
        target_id := htargetId
        distinct := hid
        same_cycle := hcycle
        accepts := haccepts
        emits := hemits
        leaves := hleaves
        enters := henters }
  · rintro ⟨rfl, ⟨source, hsource, target, htarget, hjoins⟩, hfree⟩
    -- Ids are distinct, so the nodes that are looked up are those that the rules are about.
    refine bind_eq_ok.2 ⟨source, require_of_node?
      ((node?_eq_some_iff hids).2 ⟨hsource, hjoins.source_id⟩), ?_⟩
    refine bind_eq_ok.2 ⟨target, require_of_node?
      ((node?_eq_some_iff hids).2 ⟨htarget, hjoins.target_id⟩), mapError_eq_ok.2 ?_⟩
    refine bind_eq_ok.2 ⟨(), checkEnds_eq_ok.2
      ⟨hjoins.distinct, hjoins.accepts, hjoins.emits, hjoins.same_cycle⟩, ?_⟩
    refine bind_eq_ok.2 ⟨_, pickPort_some.2 ⟨rfl, hjoins.leaves⟩, ?_⟩
    refine bind_eq_ok.2 ⟨_, pickPort_some.2 ⟨rfl, hjoins.enters⟩, ?_⟩
    exact guard_eq_ok.2 ⟨fun htaken => hfree (hasEdge_iff.1 htaken), rfl⟩

/-! ## §3. Making an edge. -/

section Checks

variable {sourceId targetId : String} {source target : Node α} {wanted wanted' : Option String}

/-- A port on the right that is left out is the first one. -/
theorem joint_right_out (hsource : g.require sourceId = .ok source) {first : String}
    {rest : List String} (h : source.portIds .right = first :: rest) :
    g.joint sourceId none targetId wanted' = g.joint sourceId (some first) targetId wanted' := by
  unfold joint
  rw [hsource]
  cases g.require targetId with
  | error cause => rfl
  | ok target => simp only [bind, Except.bind, pickPort_none h]

/-- A port on the left that is left out is the first one. -/
theorem joint_left_out (htarget : g.require targetId = .ok target) {first : String}
    {rest : List String} (h : target.portIds .left = first :: rest) :
    g.joint sourceId wanted targetId none = g.joint sourceId wanted targetId (some first) := by
  unfold joint
  rw [htarget]
  cases g.require sourceId with
  | error cause => rfl
  | ok source => simp only [bind, Except.bind, pickPort_none h]

/-- A node that is not there is told whatever the ports are, the source first. -/
theorem joint_of_unknown_source (h : sourceId ∉ g.nodes.map Node.id) :
    g.joint sourceId wanted targetId wanted' = .error (.nodeNotFound sourceId) := by
  unfold joint
  rw [require_of_not_mem h]
  rfl

theorem joint_of_unknown_target (hsource : g.require sourceId = .ok source)
    (h : targetId ∉ g.nodes.map Node.id) :
    g.joint sourceId wanted targetId wanted' = .error (.nodeNotFound targetId) := by
  unfold joint
  rw [hsource, require_of_not_mem h]
  rfl

/-- The rules for the ends stand in the way whatever the ports are. -/
theorem joint_of_checkEnds (hsource : g.require sourceId = .ok source)
    (htarget : g.require targetId = .ok target) {cause : ConnectionError}
    (h : checkEnds source target = .error cause) :
    g.joint sourceId wanted targetId wanted' = .error (.invalidConnection cause) := by
  unfold joint
  rw [hsource, htarget]
  simp only [bind, Except.bind, h]
  rfl

/-- A node without ports on the right is not left by one that is left out. -/
theorem joint_of_portless (hsource : g.require sourceId = .ok source)
    (htarget : g.require targetId = .ok target) (hends : checkEnds source target = .ok ())
    (h : source.portIds .right = []) :
    g.joint sourceId none targetId wanted'
      = .error (.invalidConnection (.unknownPort sourceId Side.right.name .right)) := by
  obtain ⟨-, rfl⟩ := mem_of_require hsource
  have hnone : source.pickPort .right none
      = .error (.unknownPort source.id Side.right.name .right) := by
    unfold Node.pickPort
    rw [h]
    rfl
  unfold joint
  rw [hsource, htarget]
  simp only [bind, Except.bind, hends, hnone]
  rfl

end Checks

/-- **What is checked decides**, and an edge that is made is all that is new. -/
theorem connect_eq (g : Graph α) (source target : String) (wanted wanted' : Option String) :
    g.connect source wanted target wanted'
      = (fun ports =>
          let id := edgeId g.nextEdgeNumber
          let edge : Edge := ⟨id, source, ports.1, target, ports.2, []⟩
          (⟨{ g.withEdge edge with
              edgeCounter := g.nextEdgeNumber, revision := g.revision + 1 },
            [.edgeAdded id]⟩, id)) <$> g.joint source wanted target wanted' := by
  unfold connect
  cases g.joint source wanted target wanted' <;> rfl

theorem canConnect_eq (g : Graph α) (source target : String) (wanted wanted' : Option String) :
    g.canConnect source wanted target wanted'
      = (fun _ => ()) <$> g.connect source wanted target wanted' := by
  unfold canConnect
  rw [connect_eq]
  cases g.joint source wanted target wanted' <;> rfl

/-- **An edge can be made exactly if the rules hold with it.** -/
theorem exists_connect_iff (hwell : g.WellFormed) (edge : Edge) :
    (∃ result, g.connect edge.source (some edge.sourcePort) edge.target (some edge.targetPort)
      = .ok result) ↔ (g.withEdge edge).EdgeRules := by
  rw [connect_eq, edgeRules_withEdge_iff hwell.edgeRules]
  constructor
  · rintro ⟨result, hok⟩
    obtain ⟨ports, hports, -⟩ := map_eq_ok.1 hok
    exact ((joint_eq_ok_iff hwell.nodup_ids).1 hports).2
  · intro hrules
    exact ⟨_, map_eq_ok.2 ⟨_, (joint_eq_ok_iff hwell.nodup_ids).2 ⟨rfl, hrules⟩, rfl⟩⟩

/-- **An edge that is made is all that is new**, and its id is. -/
theorem connect_eq_ok (hwell : g.WellFormed) {d : Draft α} {id : String}
    (hok : g.connect edge.source (some edge.sourcePort) edge.target (some edge.targetPort)
      = .ok (d, id)) :
    id ∉ g.edges.map Edge.id
      ∧ d.graph = { g.withEdge { edge with id := id, extra := [] } with
          edgeCounter := g.nextEdgeNumber, revision := g.revision + 1 } := by
  rw [connect_eq] at hok
  obtain ⟨ports, hports, heq⟩ := map_eq_ok.1 hok
  obtain ⟨rfl, -⟩ := (joint_eq_ok_iff hwell.nodup_ids).1 hports
  obtain ⟨rfl, rfl⟩ := Prod.mk.inj heq
  exact ⟨g.nextEdgeNumber_not_mem, rfl⟩

/-- **The checks of an edge are the rules for edges.**  An edge with four given
ends can be made exactly if the rules hold with it, and then it is added with a
free id and nothing else changes; whether it can be made may be asked before,
with the same answer.  A port that is left out is the first one on its side.  If
there is none, a node that is unknown or a rule for the ends that is broken is
told first, and otherwise that there is no such port. -/
theorem connect_iff_edgeRules [Coordinate α] {g : Graph α} (h : g.Reachable) :
    g.EdgeRules
      ∧ (∀ edge : Edge, (∃ result, g.connect edge.source (some edge.sourcePort) edge.target
          (some edge.targetPort) = .ok result) ↔ (g.withEdge edge).EdgeRules)
      ∧ (∀ (edge : Edge) d id, g.connect edge.source (some edge.sourcePort) edge.target
          (some edge.targetPort) = .ok (d, id) →
        id ∉ g.edges.map Edge.id
          ∧ d.graph = { g.withEdge { edge with id := id, extra := [] } with
              edgeCounter := g.nextEdgeNumber, revision := g.revision + 1 })
      ∧ (∀ source wanted target wanted', g.canConnect source wanted target wanted'
        = (fun _ => ()) <$> g.connect source wanted target wanted')
      ∧ (∀ node ∈ g.nodes, ∀ first rest,
        (node.portIds .right = first :: rest → ∀ target wanted',
          g.connect node.id none target wanted' = g.connect node.id (some first) target wanted')
        ∧ (node.portIds .left = first :: rest → ∀ source wanted,
          g.connect source wanted node.id none = g.connect source wanted node.id (some first)))
      ∧ (∀ source target, source ∉ g.nodes.map Node.id → ∀ wanted wanted',
        g.connect source wanted target wanted' = .error (.nodeNotFound source))
      ∧ (∀ source ∈ g.nodes, ∀ target, target ∉ g.nodes.map Node.id → ∀ wanted wanted',
        g.connect source.id wanted target wanted' = .error (.nodeNotFound target))
      ∧ ∀ source ∈ g.nodes, ∀ target ∈ g.nodes,
        (∀ cause, checkEnds source target = .error cause → ∀ wanted wanted',
          g.connect source.id wanted target.id wanted' = .error (.invalidConnection cause))
        ∧ (checkEnds source target = .ok () → target.portIds .left ≠ []
          ∧ (source.portIds .right = [] → ∀ wanted',
            g.connect source.id none target.id wanted'
              = .error (.invalidConnection
                (.unknownPort source.id Side.right.name .right)))) := by
  have hwell := h.wellFormed
  have hfound {node : Node α} (hnode : node ∈ g.nodes) : g.require node.id = .ok node :=
    require_of_node? (hwell.node?_of_mem hnode)
  -- The first four parts have lemmas of their own, and the others are about ports that are left
  -- out.
  refine ⟨hwell.edgeRules, exists_connect_iff hwell, fun _ _ _ => connect_eq_ok hwell,
    fun source wanted target wanted' => g.canConnect_eq source target wanted wanted',
    fun node hnode first rest => ⟨fun hports target wanted' => ?_, fun hports source wanted => ?_⟩,
    fun source target hunknown wanted wanted' => ?_,
    fun source hsource target hunknown wanted wanted' => ?_,
    fun source hsource target htarget => ⟨fun cause hcause wanted wanted' => ?_, fun hends =>
      ⟨?_, fun hportless wanted' => ?_⟩⟩⟩
  · rw [connect_eq, connect_eq, joint_right_out (hfound hnode) hports]
  · rw [connect_eq, connect_eq, joint_left_out (hfound hnode) hports]
  · rw [connect_eq, joint_of_unknown_source hunknown]
    rfl
  · rw [connect_eq, joint_of_unknown_target (hfound hsource) hunknown]
    rfl
  · rw [connect_eq, joint_of_checkEnds (hfound hsource) (hfound htarget) hcause]
    rfl
  · -- A node that accepts edges has its one port on the left.
    obtain ⟨-, haccepts, -⟩ := checkEnds_eq_ok.1 hends
    unfold Node.portIds
    rw [Node.portsOn_left (hwell.ports target htarget), entryPorts, if_pos haccepts]
    exact List.cons_ne_nil _ _
  · rw [connect_eq, joint_of_portless (hfound hsource) (hfound htarget) hends hportless]
    rfl

/-- A start and a model: the rules hold with an edge between their ports, and do
not hold with one that ends at the right port of the model. -/
theorem connect_iff_edgeRules_start :
    let g : Graph Rat := (empty .standard).run [.addNode .start ⟨0, 0⟩, .addNode .llm ⟨400, 0⟩]
    let edge : Edge := ⟨"edge", "start_1", "right", "llm_1", "left", []⟩
    (g.withEdge edge).EdgeRules ∧ ¬ (g.withEdge { edge with targetPort := "right" }).EdgeRules := by
  intro g edge
  have hreachable : g.Reachable := ⟨_, _, .empty .standard, rfl⟩
  obtain ⟨-, hiff, -⟩ := connect_iff_edgeRules hreachable
  rw [← hiff, ← hiff]
  constructor
  · have hmade : (g.connect "start_1" (some "right") "llm_1" (some "left")).toOption.isSome := by
      decide +kernel
    obtain ⟨result, hresult⟩ := Option.isSome_iff_exists.1 hmade
    exact ⟨result, toOption_eq_some_iff.1 hresult⟩
  · rintro ⟨result, hok⟩
    have hrefused : (g.connect "start_1" (some "right") "llm_1" (some "right")).toOption.isNone := by
      decide +kernel
    rw [toOption_eq_some_iff.2 hok] at hrefused
    cases hrefused

/-- **A node without ports on the right** may be refused as a source for another
reason than that: an end emits no edges, and that is told first. -/
theorem connect_portless_finish :
    let g : Graph Rat := (empty .standard).run [.addNode .finish ⟨0, 0⟩, .addNode .llm ⟨400, 0⟩]
    g.Reachable ∧ (∃ node ∈ g.nodes, node.id = "end_1" ∧ node.portIds .right = [])
      ∧ g.connect "end_1" none "llm_1" none = .error (.invalidConnection (.sourceIsEnd "end_1"))
      ∧ ∀ id port side, g.connect "end_1" none "llm_1" none
        ≠ .error (.invalidConnection (.unknownPort id port side)) := by
  intro g
  have hrefused : g.connect "end_1" none "llm_1" none
      = .error (.invalidConnection (.sourceIsEnd "end_1")) := by
    have hcause : (match g.connect "end_1" none "llm_1" none with
        | .ok _ => none
        | .error cause => some cause) = some (.invalidConnection (.sourceIsEnd "end_1")) := by
      decide +kernel
    split at hcause
    · cases hcause
    · rename_i cause hconnect
      rw [hconnect, Option.some.inj hcause]
  refine ⟨⟨_, _, .empty .standard, rfl⟩, by decide +kernel, hrefused, fun id port side h => ?_⟩
  rw [hrefused] at h
  cases h

end Graph

end WorkflowEditor
