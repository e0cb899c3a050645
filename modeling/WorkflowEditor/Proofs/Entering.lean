/-
  WorkflowEditor.Proofs.Entering
  ──────────────────────────────
  **HOW A RUN GETS INTO THE CONTAINERS OF A VALID DOCUMENT.**

  A document is checked scope by scope, and a container is looked up one
  level at a time.  Put together, the checks say that a run gets
  everywhere, as long as no container encloses itself:

    • `endsAtTop_of_open` — the containers around a node come to an end,
      as there are but finitely many,
    • `EndsAtTop.entered` — from the top inwards each scope is entered and
      passed through,
    • `Entered.endsAtTop`, `EndsAtTop.not_encloses_self` — what a container
      that encloses itself holds cannot be entered,
    • `entered_of_isValid` — the two ways put together.

  That no container encloses itself is not checked: `isValid_self_enclosed`
  is a valid document with one that does.
-/
import WorkflowEditor.Proofs.Validity
import Mathlib.Data.Finset.Card

namespace WorkflowEditor

variable {α : Type}

/-- A container is no placeholder. -/
theorem Kind.isPlaceholder_of_isContainer {kind : Kind} (h : kind.isContainer) :
    kind.isPlaceholder = false := by
  cases kind with
  | loop | iteration => rfl
  | _ => cases h

namespace Document

/-! ## §1. Containers around a node, and the ways in. -/

/-- A node with one id names the other id as its container. -/
def Holds (d : Document α) (outer inner : String) : Prop :=
  ∃ node ∈ d.nodes, node.id = inner ∧ node.cycle = some outer

/-- One id encloses another one, directly or through others. -/
def Encloses (d : Document α) : String → String → Prop := Relation.TransGen d.Holds

/-- Going from a node to its container, and on, comes to a node that is in
none. -/
inductive EndsAtTop (d : Document α) : StoredNode α → Prop
  | top {node : StoredNode α} : node.cycle = none → EndsAtTop d node
  | inside {node container : StoredNode α} : container ∈ d.nodes →
      node.cycle = some container.id → EndsAtTop d container → EndsAtTop d node

/-- A run that begins at the start of the workflow gets to an id: along edges
inside a scope, and from a container to the start of its body. -/
inductive Entered (d : Document α) : String → Prop
  | start {node : StoredNode α} : node ∈ d.nodes → node.cycle = none → node.kind = .start →
      Entered d node.id
  | step {scope : Option String} {a b : String} : Entered d a → d.Step scope a b → Entered d b
  | body {container node : StoredNode α} : container ∈ d.nodes → container.kind.isContainer →
      Entered d container.id → node ∈ d.nodes → node.cycle = some container.id →
      node.kind = .cycleStart → Entered d node.id

variable {d : Document α}

/-! ## §2. The way out. -/

/-- **The containers around a node come to an end** if none of them encloses
itself. -/
theorem endsAtTop_of_open (h : d.Runnable) {node : StoredNode α} (hnode : node ∈ d.nodes)
    (hopen : ∀ container, d.Encloses container node.id → ¬ d.Encloses container container) :
    d.EndsAtTop node := by
  classical
  -- Each container has fewer around it than the node: itself is no longer among them.
  let around (id : String) : Finset String :=
    (d.nodes.map StoredNode.id).toFinset.filter fun other => d.Encloses other id
  induction hcount : (around node.id).card using Nat.strong_induction_on generalizing node with
  | _ count ih =>
      cases hcycle : node.cycle with
      | none => exact .top hcycle
      | some parent =>
          obtain ⟨container, hcontainer, rfl, -⟩ := h.enclosed node hnode parent hcycle
          have hholds : d.Encloses container.id node.id := .single ⟨node, hnode, rfl, hcycle⟩
          have hless : around container.id ⊂ around node.id := by
            refine (Finset.ssubset_iff_of_subset ?_).2 ⟨container.id, ?_, ?_⟩
            · exact Finset.monotone_filter_right _ fun _ _ hother => hother.trans hholds
            · exact Finset.mem_filter.2
                ⟨List.mem_toFinset.2 (List.mem_map_of_mem hcontainer), hholds⟩
            · exact fun hself => hopen _ hholds (Finset.mem_filter.1 hself).2
          have hcard : (around container.id).card < count := hcount ▸ Finset.card_lt_card hless
          refine .inside hcontainer hcycle (ih _ hcard hcontainer ?_ rfl)
          exact fun other hother => hopen other (hother.trans hholds)

/-- What ends at the top does not enclose itself. -/
theorem EndsAtTop.not_encloses_self (hids : (d.nodes.map StoredNode.id).Nodup)
    {node : StoredNode α} (h : d.EndsAtTop node) (hnode : node ∈ d.nodes) :
    ¬ d.Encloses node.id node.id := by
  -- The container that a node is in is the last one on the way back to it.
  have hlast {node : StoredNode α} (hnode : node ∈ d.nodes)
      (hself : d.Encloses node.id node.id) :
      ∃ outer, node.cycle = some outer ∧ Relation.ReflTransGen d.Holds node.id outer := by
    obtain ⟨outer, hway, ⟨other, hother, hid, hcycle⟩⟩ := Relation.TransGen.tail'_iff.1 hself
    obtain rfl := eq_of_id hids hother hnode hid
    exact ⟨outer, hcycle, hway⟩
  induction h with
  | top hcycle =>
      intro hself
      obtain ⟨outer, houter, -⟩ := hlast hnode hself
      rw [hcycle] at houter
      cases houter
  | @inside node container hcontainer hcycle _ ih =>
      intro hself
      obtain ⟨outer, houter, hway⟩ := hlast hnode hself
      obtain rfl : outer = container.id := Option.some.inj (houter.symm.trans hcycle)
      have hholds : d.Holds container.id node.id := ⟨node, hnode, rfl, hcycle⟩
      exact ih hcontainer (Relation.TransGen.head' hholds hway)

/-! ## §3. The way in. -/

theorem Entered.steps {scope : Option String} {a b : String} (h : d.Entered a)
    (hsteps : Relation.ReflTransGen (d.Step scope) a b) : d.Entered b := by
  induction hsteps with
  | refl => exact h
  | tail _ hstep ih => exact ih.step hstep

/-- A scope whose entrance is entered is entered throughout. -/
theorem Passable.entered {scope : Option String} (h : d.Passable scope)
    (hentrance : ∀ start ∈ d.nodes, start.cycle = scope → start.kind = entranceKind scope →
      d.Entered start.id)
    {node : StoredNode α} (hnode : node ∈ d.nodes) (hscope : node.cycle = scope)
    (hplain : node.kind.isPlaceholder = false) : d.Entered node.id := by
  obtain ⟨start, ⟨hstart, hcycle, hkind⟩, -⟩ := h.entrance
  have hsteps := h.reached start hstart hcycle hkind node hnode hscope hplain
  exact (hentrance start hstart hcycle hkind).steps hsteps

/-- **From the top inwards every scope is entered.** -/
theorem EndsAtTop.entered (h : d.Runnable) {node : StoredNode α} (htop : d.EndsAtTop node)
    (hnode : node ∈ d.nodes) (hplain : node.kind.isPlaceholder = false) :
    d.Entered node.id := by
  induction htop with
  | top hcycle =>
      exact h.workflow.entered (fun _ hstart htop hkind => .start hstart htop hkind) hnode hcycle
        hplain
  | @inside node container hcontainer hcycle _ ih =>
      -- What a node is in is a container, so the run has got there before.
      obtain ⟨other, hother, hid, hkind⟩ := h.enclosed node hnode _ hcycle
      obtain rfl := eq_of_id h.distinct hother hcontainer hid
      have hentered : d.Entered other.id :=
        ih hcontainer (Kind.isPlaceholder_of_isContainer hkind)
      refine (h.bodies other hcontainer hkind).entered ?_ hnode hcycle hplain
      exact fun start hstart hinside hstartKind =>
        .body hcontainer hkind hentered hstart hinside hstartKind

/-- **What is entered is not closed in.** -/
theorem Entered.endsAtTop (hids : (d.nodes.map StoredNode.id).Nodup) {id : String}
    (h : d.Entered id) : ∀ node ∈ d.nodes, node.id = id → d.EndsAtTop node := by
  -- Within a scope all nodes have the same container.
  have hsame {node other : StoredNode α} (hcycle : node.cycle = other.cycle)
      (htop : d.EndsAtTop node) : d.EndsAtTop other := by
    cases htop with
    | top hnone => exact .top (hcycle ▸ hnone)
    | inside hcontainer hinside htop => exact .inside hcontainer (hcycle ▸ hinside) htop
  induction h with
  | start hnode hcycle _ =>
      intro other hother hid
      rw [eq_of_id hids hother hnode hid]
      exact .top hcycle
  | step _ hstep ih =>
      obtain ⟨edge, -, hsource, htarget, hinside⟩ := hstep
      obtain ⟨source, hmem, hid, hscope⟩ := hinside.source
      obtain ⟨target, hmem', hid', hscope'⟩ := hinside.target
      intro other hother heq
      rw [eq_of_id hids hother hmem' (heq.trans (htarget.symm.trans hid'.symm))]
      exact hsame (hscope.trans hscope'.symm) (ih source hmem (hid.trans hsource))
  | body hcontainer _ _ hnode hcycle _ ih =>
      intro other hother hid
      rw [eq_of_id hids hother hnode hid]
      exact .inside hcontainer hcycle (ih _ hcontainer rfl)

/-! ## §4. Valid documents. -/

/-- **A run gets to every node of a valid document** that is no placeholder
and is not in a container that encloses itself: the containers around it
come to an end, and from the start of the workflow each of them is entered
in turn. -/
theorem entered_of_isValid (h : d.isValid) {node : StoredNode α} (hnode : node ∈ d.nodes)
    (hopen : ∀ container, d.Encloses container node.id → ¬ d.Encloses container container) :
    d.EndsAtTop node ∧ (node.kind.isPlaceholder = false → d.Entered node.id) := by
  have hrunnable := Runnable.of_isValid h
  have htop := endsAtTop_of_open hrunnable hnode hopen
  exact ⟨htop, htop.entered hrunnable hnode⟩

/-- An iteration in a loop: a run gets to the node in the iteration. -/
theorem entered_of_isValid_nested :
    let deep : StoredNode Rat := ⟨"deep", .llm, none, none, [], some "inner", []⟩
    let doc : Document Rat :=
      { info := .blank
        nodes :=
          [⟨"start", .start, none, none, [], none, []⟩,
            ⟨"outer", .loop, none, none, [], none, []⟩,
            ⟨"end", .finish, none, none, [], none, []⟩,
            ⟨"first", .cycleStart, none, none, [], some "outer", []⟩,
            ⟨"inner", .iteration, none, none, [], some "outer", []⟩,
            ⟨"second", .cycleStart, none, none, [], some "inner", []⟩, deep]
        edges :=
          [⟨"start", "outer", none, []⟩, ⟨"outer", "end", none, []⟩,
            ⟨"first", "inner", none, []⟩, ⟨"second", "deep", none, []⟩]
        vars := [] }
    doc.isValid ∧ deep ∈ doc.nodes
      ∧ (∀ container, doc.Encloses container "deep" → ¬ doc.Encloses container container)
      ∧ doc.EndsAtTop deep ∧ doc.Entered "deep" := by
  intro deep doc
  have hvalid : doc.isValid := by decide +kernel
  have hdeep : deep ∈ doc.nodes := by simp [doc]
  -- Whatever encloses another one comes before it.
  let rank (id : String) : Nat := ["outer", "inner"].idxOf id
  have hless (outer inner : String) (h : doc.Holds outer inner) : rank outer < rank inner := by
    obtain ⟨node, hnode, rfl, hcycle⟩ := h
    simp only [doc, List.mem_cons, List.not_mem_nil, or_false] at hnode
    rcases hnode with rfl | rfl | rfl | rfl | rfl | rfl | rfl <;> cases hcycle
    all_goals
      simp only [rank, deep]
      decide
  have hbefore (a b : String) (h : doc.Encloses a b) : rank a < rank b := by
    induction h with
    | single h => exact hless _ _ h
    | tail _ h ih => exact ih.trans (hless _ _ h)
  have hopen (container : String) : ¬ doc.Encloses container container :=
    fun h => Nat.lt_irrefl _ (hbefore container container h)
  obtain ⟨htop, hentered⟩ := entered_of_isValid hvalid hdeep fun container _ => hopen container
  exact ⟨hvalid, hdeep, fun container _ => hopen container, htop, hentered rfl⟩

/-- **A container that encloses itself is not refused**: the loop below is in
its own body, so no way out of it ends at the top, and no run gets in. -/
theorem isValid_self_enclosed :
    let ring : StoredNode Rat := ⟨"ring", .loop, none, none, [], some "ring", []⟩
    let doc : Document Rat :=
      { info := .blank
        nodes :=
          [⟨"start", .start, none, none, [], none, []⟩,
            ⟨"end", .finish, none, none, [], none, []⟩, ring,
            ⟨"first", .cycleStart, none, none, [], some "ring", []⟩]
        edges := [⟨"start", "end", none, []⟩, ⟨"first", "ring", none, []⟩]
        vars := [] }
    doc.isValid ∧ ring ∈ doc.nodes ∧ ring.kind.isPlaceholder = false
      ∧ doc.Encloses "ring" "ring" ∧ ¬ doc.EndsAtTop ring ∧ ¬ doc.Entered "ring" := by
  intro ring doc
  have hvalid : doc.isValid := by decide +kernel
  have hring : ring ∈ doc.nodes := by simp [doc]
  have hids : (doc.nodes.map StoredNode.id).Nodup := by decide +kernel
  have hself : doc.Encloses "ring" "ring" := .single ⟨ring, hring, rfl, rfl⟩
  have hclosed : ¬ doc.EndsAtTop ring := fun htop => htop.not_encloses_self hids hring hself
  exact ⟨hvalid, hring, rfl, hself, hclosed,
    fun hentered => hclosed (hentered.endsAtTop hids ring hring rfl)⟩

end Document

end WorkflowEditor
