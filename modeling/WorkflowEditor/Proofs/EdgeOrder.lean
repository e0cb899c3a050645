/-
  WorkflowEditor.Proofs.EdgeOrder
  ───────────────────────────────
  **THE ORDER IN WHICH EDGES COME.**

  The edges of a node come in the order in which they were made as long as they
  are put back together.  If one of them is put back alone, for the ports at its
  other end, it is overtaken by those that were made after it.

    • `Lifts` — the edges that a change takes away and puts back,
    • `Overtaken` — an edge was put back behind another,
    • `InFront` — which of two edges comes first: `InFront.concat` if they are
      put back together, `inFront_of_lifted` if one of them is put back alone,
      `inFront_of_made` if one is new,
    • `pairwise_inFront` — after a run the edges come in this order,
    • `inCreationOrder_iff` — when the edges of a node come in the order in
      which they were made,
    • `insertBranch_reorders` — a run after which they do not.
-/
import WorkflowEditor.Proofs.EdgeNumbers

namespace WorkflowEditor

namespace Graph

/-! ## §1. Overtaking. -/

section Overtaking

variable {α : Type} [Coordinate α]

/-- A change takes an edge away and puts it back: it makes the ports of one of
its nodes anew. -/
def Lifts (g : Graph α) (change : Edit α) (edge : Edge) : Prop :=
  ∃ id ∈ g.remade change, edge.touches id

/-- An edge is behind another that was there: of the changes that put only one
of the two back, the last one put it back. -/
inductive Overtaken (start : Graph α) (edge other : Edge) : List (Edit α) → Prop
  /-- It was put back alone just now. -/
  | now {changes : List (Edit α)} {change : Edit α} :
      other.id ∈ (start.run changes).edges.map Edge.id →
      (start.run changes).Lifts change edge → ¬ (start.run changes).Lifts change other →
      Overtaken start edge other (changes ++ [change])
  /-- It was overtaken before, and since then the other was not put back alone. -/
  | still {changes : List (Edit α)} {change : Edit α} :
      Overtaken start edge other changes →
      ((start.run changes).Lifts change other → (start.run changes).Lifts change edge) →
      Overtaken start edge other (changes ++ [change])

variable {start : Graph α} {changes : List (Edit α)} {change : Edit α}
  {edge edge' other other' : Edge}

theorem not_lifts (h : start.remade change = []) : ¬ start.Lifts change edge := by
  rintro ⟨id, hid, -⟩
  rw [h] at hid
  cases hid

theorem lifts_iff {id : String} (h : start.remade change = [id]) :
    start.Lifts change edge ↔ edge.touches id := by
  unfold Lifts
  rw [h]
  simp

theorem lifts_alike (h : edge.Alike edge') :
    start.Lifts change edge ↔ start.Lifts change edge' := by
  unfold Lifts
  simp only [h.touches]

theorem Overtaken.alike (h : Overtaken start edge' other' changes) (hedge : edge.Alike edge')
    (hother : other.Alike other') : Overtaken start edge other changes := by
  induction h with
  | now hthere hlifts hnot =>
      refine .now (hother.id ▸ hthere) ((lifts_alike hedge).2 hlifts) ?_
      rwa [lifts_alike hother]
  | still _ hback ih =>
      refine .still ih ?_
      rwa [lifts_alike hother, lifts_alike hedge]

theorem overtaken_concat_iff :
    Overtaken start edge other (changes ++ [change]) ↔
      (other.id ∈ (start.run changes).edges.map Edge.id
        ∧ (start.run changes).Lifts change edge ∧ ¬ (start.run changes).Lifts change other)
      ∨ (Overtaken start edge other changes
        ∧ ((start.run changes).Lifts change other → (start.run changes).Lifts change edge)) := by
  constructor
  · intro h
    generalize hall : changes ++ [change] = all at h
    cases h with
    | now hthere hlifts hnot =>
        obtain ⟨rfl, hlast⟩ := List.append_inj' hall rfl
        obtain rfl := List.singleton_inj.1 hlast
        exact .inl ⟨hthere, hlifts, hnot⟩
    | still hbefore hback =>
        obtain ⟨rfl, hlast⟩ := List.append_inj' hall rfl
        obtain rfl := List.singleton_inj.1 hlast
        exact .inr ⟨hbefore, hback⟩
  · rintro (⟨hthere, hlifts, hnot⟩ | ⟨hbefore, hback⟩)
    · exact .now hthere hlifts hnot
    · exact .still hbefore hback

/-- Only an edge that was there is overtaken. -/
theorem Overtaken.le {n : Nat} (hstart : start.edges = [])
    (h : Overtaken start edge other changes) (hid : other.id = edgeId n) :
    n ≤ (start.run changes).edgeCounter := by
  induction h with
  | @now changes change hthere =>
      rw [run_concat]
      exact Nat.le_trans (((numbered_of_nil hstart).run changes).le (hid ▸ hthere))
        ((start.run changes).shifted_after change).counter_le
  | @still changes change _ _ ih =>
      rw [run_concat]
      exact Nat.le_trans ih ((start.run changes).shifted_after change).counter_le

end Overtaking

/-! ## §2. Which edge comes first. -/

section Order

variable {α : Type} [Coordinate α]

/-- An edge comes before another: it was made before and was not overtaken, or
it was made after it and the other was. -/
inductive InFront (start : Graph α) (changes : List (Edit α)) (edge other : Edge) : Prop
  | kept : edge.Earlier other → ¬ Overtaken start edge other changes →
      InFront start changes edge other
  | passed : other.Earlier edge → Overtaken start other edge changes →
      InFront start changes edge other

variable {start : Graph α} {changes : List (Edit α)} {change : Edit α}
  {edge edge' other other' : Edge}

theorem InFront.apart (h : InFront start changes edge other) :
    edge.Earlier other ∨ other.Earlier edge := by
  cases h with
  | kept h => exact .inl h
  | passed h => exact .inr h

theorem InFront.alike (h : InFront start changes edge' other') (hedge : edge.Alike edge')
    (hother : other.Alike other') : InFront start changes edge other := by
  cases h with
  | kept hearlier hnot =>
      exact .kept (hearlier.alike hedge hother) fun h => hnot (h.alike hedge.symm hother.symm)
  | passed hearlier hpassed =>
      exact .passed (hearlier.alike hother hedge) (hpassed.alike hother hedge)

/-- **Edges that are put back together** or not at all keep their order. -/
theorem InFront.concat (h : InFront start changes edge other)
    (hboth : (start.run changes).Lifts change edge ↔ (start.run changes).Lifts change other) :
    InFront start (changes ++ [change]) edge other := by
  cases h with
  | kept hearlier hnot =>
      refine .kept hearlier fun h => ?_
      rcases overtaken_concat_iff.1 h with ⟨-, hlifts, hfree⟩ | ⟨hbefore, -⟩
      · exact hfree (hboth.1 hlifts)
      · exact hnot hbefore
  | passed hearlier hpassed => exact .passed hearlier (.still hpassed hboth.1)

/-- **An edge that is put back alone** goes behind the other. -/
theorem inFront_of_lifted (hapart : edge.Earlier other ∨ other.Earlier edge)
    (hthere : edge.id ∈ (start.run changes).edges.map Edge.id)
    (hfree : ¬ (start.run changes).Lifts change edge)
    (hlifts : (start.run changes).Lifts change other) :
    InFront start (changes ++ [change]) edge other := by
  rcases hapart with hearlier | hlater
  · refine .kept hearlier fun h => ?_
    rcases overtaken_concat_iff.1 h with ⟨-, hlifts', -⟩ | ⟨-, hback⟩
    · exact hfree hlifts'
    · exact hfree (hback hlifts)
  · exact .passed hlater (.now hthere hlifts hfree)

/-- **A new edge** goes behind all others. -/
theorem inFront_of_made {number : Nat} (hstart : start.edges = [])
    (hedge : edge ∈ (start.run changes).edges)
    (hid : other.id = edgeId number) (hnew : (start.run changes).edgeCounter < number) :
    InFront start (changes ++ [change]) edge other := by
  have hnumbered := (numbered_of_nil hstart).run changes
  obtain ⟨m, hle, hm⟩ := hnumbered edge hedge
  refine .kept ⟨m, number, Nat.lt_of_le_of_lt hle hnew, hm, hid⟩ fun h => ?_
  -- It is overtaken by no edge, since it was not there before.
  rcases overtaken_concat_iff.1 h with ⟨hthere, -, -⟩ | ⟨hbefore, -⟩
  · have hle' := hnumbered.le (hid ▸ hthere)
    omega
  · have hle' := hbefore.le hstart hid
    omega

/-- **Edges that are put back keep their order** among each other, and so do
those that are not; those that are put back come last. -/
theorem pairwise_rewired {id : String} {move : Edge → Option Edge}
    (hremade : (start.run changes).remade change = [id])
    (hmove : ∀ edge edge', move edge = some edge' → edge'.Alike edge)
    (h : (start.run changes).edges.Pairwise (InFront start changes)) :
    (Edge.rewired id move (start.run changes).edges).Pairwise
      (InFront start (changes ++ [change])) := by
  -- Two edges that both touch the node, or both do not, are put back together or not at all.
  have hsame (test : Edge → Bool) (htest : ∀ edge other : Edge, test edge → test other →
      (edge.touches id ↔ other.touches id)) :
      ((start.run changes).edges.filter test).Pairwise (InFront start (changes ++ [change])) := by
    refine (h.filter test).imp_of_mem fun hedge hother hfront => hfront.concat ?_
    rw [lifts_iff hremade, lifts_iff hremade]
    exact htest _ _ (List.of_mem_filter hedge) (List.of_mem_filter hother)
  have hapart : (start.run changes).edges.Pairwise fun edge other =>
      edge.Earlier other ∨ other.Earlier edge := h.imp InFront.apart
  have hsymm : Std.Symm fun edge other : Edge => edge.Earlier other ∨ other.Earlier edge :=
    ⟨fun _ _ => Or.symm⟩
  refine List.pairwise_append.2 ⟨hsame _ ?_, (hsame _ ?_).filterMap _ ?_, ?_⟩
  · intro edge other hedge hother
    simp_all
  · intro edge other hedge hother
    simp_all
  · intro edge other hfront edge' hedge other' hother
    exact hfront.alike (hmove _ _ hedge) (hmove _ _ hother)
  · -- One that is kept stands before one that is put back, whichever was made first.
    intro edge hedge other' hother'
    obtain ⟨hedge, hfree⟩ := List.mem_filter.1 hedge
    obtain ⟨other, hother, hsome⟩ := List.mem_filterMap.1 hother'
    obtain ⟨hother, htouches⟩ := List.mem_filter.1 hother
    have hfree' : ¬ edge.touches id := by simpa using hfree
    have hne : edge ≠ other := by
      rintro rfl
      exact hfree' htouches
    refine InFront.alike ?_ ⟨rfl, rfl, rfl⟩ (hmove _ _ hsome)
    refine inFront_of_lifted (hapart.forall hedge hother hne) (List.mem_map_of_mem hedge) ?_ ?_
    · rwa [lifts_iff hremade]
    · rwa [lifts_iff hremade]

/-- **After each change of a run the edges come in this order.** -/
theorem pairwise_inFront (hstart : start.edges = []) (changes : List (Edit α)) :
    (start.run changes).edges.Pairwise (InFront start changes) := by
  induction changes using List.reverseRecOn with
  | nil =>
      show start.edges.Pairwise _
      rw [hstart]
      exact .nil
  | append_singleton changes change ih =>
      have hunmoved (hremade : (start.run changes).remade change = []) :
          (start.run changes).edges.Pairwise (InFront start (changes ++ [change])) := by
        refine ih.imp fun h => h.concat ?_
        exact iff_of_false (not_lifts hremade) (not_lifts hremade)
      have hshifted := (start.run changes).shifted_after change
      rw [run_concat]
      -- Only these three of what the change leaves bear on the order.
      generalize hremade : (start.run changes).remade change = remade at hshifted
      generalize ((start.run changes).after change).edgeCounter = counter at hshifted
      generalize ((start.run changes).after change).edges = edges at hshifted ⊢
      cases hshifted with
      | thinned hsub => exact (hunmoved hremade).sublist hsub
      | made hlt hid =>
          refine List.pairwise_append.2 ⟨hunmoved hremade, List.pairwise_singleton _ _, ?_⟩
          intro edge hedge other hother
          obtain rfl := List.mem_singleton.1 hother
          exact inFront_of_made hstart hedge hid hlt
      | rewired hmove => exact pairwise_rewired hremade hmove ih

/-- Some of the edges come in the order in which they were made exactly if none
of them was overtaken by another. -/
theorem pairwise_earlier_iff {edges : List Edge} (h : edges.Pairwise (InFront start changes)) :
    edges.Pairwise Edge.Earlier ↔ ∀ edge ∈ edges, ∀ other ∈ edges,
      edge.Earlier other → ¬ Overtaken start edge other changes := by
  constructor
  · intro hearlier edge hedge other hother hbefore
    have hpairs : edges.Pairwise fun edge other =>
        (edge.Earlier other → ¬ Overtaken start edge other changes)
          ∧ (other.Earlier edge → ¬ Overtaken start other edge changes) := by
      refine hearlier.imp₂ (fun edge other hbefore hfront => ?_) h
      refine ⟨fun _ => ?_, fun hlater => absurd hlater hbefore.asymm⟩
      cases hfront with
      | kept _ hnot => exact hnot
      | passed hlater => exact absurd hlater hbefore.asymm
    have hsymm : Std.Symm fun edge other : Edge =>
        (edge.Earlier other → ¬ Overtaken start edge other changes)
          ∧ (other.Earlier edge → ¬ Overtaken start other edge changes) := ⟨fun _ _ => And.symm⟩
    have hne : edge ≠ other := by
      rintro rfl
      exact hbefore.asymm hbefore
    exact (hpairs.forall hedge hother hne).1 hbefore
  · intro hnone
    refine h.imp_of_mem fun hedge hother hfront => ?_
    cases hfront with
    | kept hearlier => exact hearlier
    | passed hlater hpassed => exact absurd hpassed (hnone _ hother _ hedge hlater)

end Order

/-! ## §3. Creation order. -/

section Creation

variable {α : Type} [Coordinate α]

/-- **When the edges of a node come in the order in which they were made.**  In a
graph that was built by hand, an edge with a smaller number was made before.  Of
two edges it comes first, unless it was overtaken: of the changes that put only
one of the two back behind the others, the last one put it back.  So the edges
that leave or enter a node come in the order in which they were made exactly if
none of them was overtaken by another. -/
theorem inCreationOrder_iff (settings : Settings α) (changes : List (Edit α)) :
    let start : Graph α := .empty settings
    let g := start.run changes
    (∀ edge ∈ g.edges, ∀ other ∈ g.edges,
        edge.Earlier other ↔ MadeBefore start changes edge other)
      ∧ g.edges.Pairwise (InFront start changes)
      ∧ ∀ id,
        ((g.outgoing id).Pairwise Edge.Earlier ↔
          ∀ edge ∈ g.outgoing id, ∀ other ∈ g.outgoing id,
            edge.Earlier other → ¬ Overtaken start edge other changes)
        ∧ ((g.incoming id).Pairwise Edge.Earlier ↔
          ∀ edge ∈ g.incoming id, ∀ other ∈ g.incoming id,
            edge.Earlier other → ¬ Overtaken start edge other changes) := by
  intro start g
  have hstart : start.edges = [] := rfl
  have horder : g.edges.Pairwise (InFront start changes) := pairwise_inFront hstart changes
  refine ⟨fun edge hedge other hother => ?_, horder, fun id => ⟨?_, ?_⟩⟩
  · exact ⟨madeBefore_of_earlier hstart hedge hother, MadeBefore.earlier hstart hother⟩
  · exact pairwise_earlier_iff (horder.filter _)
  · exact pairwise_earlier_iff (horder.filter _)

/-- **An edge is overtaken.**  Of two edges that leave a model, the first one
leads to a choice and is put back when the choice gets a branch. -/
theorem insertBranch_reorders :
    let start : Graph Rat := .empty .standard
    let g := start.run [.addNode .llm ⟨0, 0⟩, .addNode .ifElse ⟨400, 0⟩, .addNode .answer ⟨800, 0⟩,
      .connect "llm_1" none "if_else_1" none, .connect "llm_1" none "answer_1" none,
      .insertBranch "if_else_1" 0]
    (g.outgoing "llm_1").map Edge.id = ["edge_2", "edge_1"]
      ∧ ¬ (g.outgoing "llm_1").Pairwise Edge.Earlier := by
  intro start g
  have hids : (g.outgoing "llm_1").map Edge.id = ["edge_2", "edge_1"] := by decide +kernel
  refine ⟨hids, fun hearlier => ?_⟩
  have hnumbers : ((g.outgoing "llm_1").map Edge.id).Pairwise fun id id' =>
      ∃ m n, m < n ∧ id = edgeId m ∧ id' = edgeId n := List.pairwise_map.2 hearlier
  rw [hids] at hnumbers
  obtain ⟨m, n, hlt, hm, hn⟩ := List.rel_of_pairwise_cons hnumbers (List.mem_singleton_self _)
  have htwo : 2 = m := edgeId_injective ((by decide : edgeId 2 = "edge_2").trans hm)
  have hone : 1 = n := edgeId_injective ((by decide : edgeId 1 = "edge_1").trans hn)
  omega

end Creation

end Graph

end WorkflowEditor
