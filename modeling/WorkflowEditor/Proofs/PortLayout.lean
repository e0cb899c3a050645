/-
  WorkflowEditor.Proofs.PortLayout
  ────────────────────────────────
  **THE PORTS THAT A CONFIGURATION GIVES.**

  The ports of a node follow from its kind and from few fields of its form:

    • `BranchLayout.of_congr` — only the branch fields matter, and they do
      so only where a kind branches,
    • `portsOf_storedForm` — storing a form and reading it back leaves
      them alone,
    • `portsOf_defaultConfig` — the library gives a new node the ports of
      its form,
    • `nodup_layoutIds` — no two right ports of a node have one id,
    • `edgeLabel?_injective` — and none are saved under one branch.
-/
import WorkflowEditor.Graph.Edit
import Mathlib.Data.List.Nodup

namespace WorkflowEditor

/-! ## §1. Numbered names. -/

theorem toString_injective {m n : Nat} (h : toString m = toString n) : m = n := by
  -- Reading the digits gives the number back.
  have hdigits := congrArg (fun s : String => Nat.ofDigitChars 10 s.toList 0) h
  simpa using hdigits

/-- The ports of two branches have two ids. -/
theorem Port.caseId_injective {i j : Nat} (h : Port.caseId i = Port.caseId j) : i = j := by
  have hlist := congrArg String.toList h
  unfold Port.caseId at hlist
  rw [String.toList_append, String.toList_append] at hlist
  have hnumber : toString (i + 1) = toString (j + 1) :=
    String.toList_inj.1 (List.append_cancel_left hlist)
  exact Nat.succ.inj (toString_injective hnumber)

/-! ## §2. Fields. -/

namespace Fields

theorem lookup_insert_ne (fields : Fields) {key other : String} (value : Json)
    (h : other ≠ key) : (fields.insert key value).lookup other = fields.lookup other := by
  have hbeq : (other == key) = false := by simpa using h
  induction fields with
  | nil =>
      unfold insert
      rw [List.lookup_cons, hbeq]
  | cons entry rest ih =>
      unfold insert
      split
      · rename_i hkey
        rw [List.lookup_cons, List.lookup_cons, hkey, hbeq]
      · rw [List.lookup_cons, List.lookup_cons, ih]

end Fields

namespace Form

theorem get?_set_ne (form : Form) {key other : String} (value : Json) (h : other ≠ key) :
    (form.set key value).get? other = form.get? other :=
  Fields.lookup_insert_ne form.fields value h

end Form

/-! ## §3. The fields on which a layout depends. -/

/-- Two forms have the same branches. -/
def Form.SameBranches (form form' : Form) : Prop :=
  ∀ key ∈ Graph.branchKeys, form.get? key = form'.get? key

theorem Form.sameBranches_set (form : Form) {key : String} (value : Json)
    (h : key ∉ Graph.branchKeys) : (form.set key value).SameBranches form :=
  fun _ hother => form.get?_set_ne value fun heq => h (heq ▸ hother)

namespace BranchLayout

/-- Where a kind does not branch the form does not matter. -/
theorem of_eq_of_not_isBranching {kind : Kind} (h : kind.isBranching = false)
    (form form' : Form) : of kind form = of kind form' := by
  cases kind with
  | ifElse | questionClassifier | httpRequest => cases h
  | _ => rfl

/-- **Only the branch fields matter.** -/
theorem of_congr (kind : Kind) {form form' : Form} (h : form.SameBranches form') :
    of kind form = of kind form' := by
  have hitems (key : String) (hkey : key ∈ Graph.branchKeys) :
      form.items key = form'.items key := by
    unfold Form.items
    rw [h key hkey]
  have htext (key entry : String) (hkey : key ∈ Graph.branchKeys) :
      form.nestedText? key entry = form'.nestedText? key entry := by
    unfold Form.nestedText?
    rw [h key hkey]
  cases hbranching : kind.isBranching with
  | false => exact of_eq_of_not_isBranching hbranching form form'
  | true =>
      -- Each kind that branches looks at one field.
      cases kind with
      | ifElse =>
          unfold of
          rw [hitems "cases" (by decide)]
      | questionClassifier =>
          unfold of
          rw [hitems "categories" (by decide)]
      | httpRequest =>
          unfold of
          rw [htext "error_handle" "method" (by decide)]
      | _ => cases hbranching

end BranchLayout

/-- Ports depend on the lists of branches of a form, and on nothing else in
it. -/
theorem portsOf_congr (kind : Kind) {form form' : Form} (h : form.SameBranches form') :
    portsOf kind form = portsOf kind form' := by
  unfold portsOf
  rw [BranchLayout.of_congr kind h]

theorem portsOf_eq_of_not_isBranching {kind : Kind} (h : kind.isBranching = false)
    (form form' : Form) : portsOf kind form = portsOf kind form' := by
  unfold portsOf
  rw [BranchLayout.of_eq_of_not_isBranching h form form']

/-! ## §4. Completing, storing and reading a form. -/

/-- A kind that branches has nothing to complete. -/
theorem Kind.completeForm_of_isBranching {kind : Kind} (h : kind.isBranching)
    (form : Form) : kind.completeForm form = form := by
  cases kind with
  | ifElse | questionClassifier | httpRequest => rfl
  | _ => cases h

/-- A codec that turns an object into rows and back. -/
theorem Codec.lookup_rows {key other : String} (h : other ≠ key) (config : Fields) :
    ((Codec.rows key).decode config).lookup other = config.lookup other
      ∧ ((Codec.rows key).encode config).lookup other = config.lookup other := by
  constructor
  · show (decodeRows "name" key config).lookup other = _
    unfold decodeRows
    split
    · exact Fields.lookup_insert_ne _ _ h
    · rfl
  · show (encodeRows "name" key config).lookup other = _
    unfold encodeRows
    split
    · exact Fields.lookup_insert_ne _ _ h
    · rfl

/-- Reading a configuration leaves the branch fields alone. -/
theorem Kind.sameBranches_decodeConfig {kind : Kind} (h : kind.isBranching)
    (config : Fields) : (kind.decodeConfig config).SameBranches ⟨config⟩ := by
  intro key hkey
  cases kind with
  | ifElse => rfl
  | questionClassifier => rfl
  | httpRequest =>
      have hheaders : key ≠ "headers" := by rintro rfl; exact absurd hkey (by decide)
      have hparams : key ≠ "params" := by rintro rfl; exact absurd hkey (by decide)
      show ((Codec.rows "params").decode ((Codec.rows "headers").decode config)).lookup key
        = config.lookup key
      rw [(Codec.lookup_rows hparams _).1, (Codec.lookup_rows hheaders _).1]
  | _ => cases h

/-- Storing a form leaves the branch fields alone. -/
theorem Kind.sameBranches_encodeForm {kind : Kind} (h : kind.isBranching) (form : Form) :
    (Form.mk (kind.encodeForm form)).SameBranches form := by
  intro key hkey
  cases kind with
  | ifElse => rfl
  | questionClassifier => rfl
  | httpRequest =>
      have hheaders : key ≠ "headers" := by rintro rfl; exact absurd hkey (by decide)
      have hparams : key ≠ "params" := by rintro rfl; exact absurd hkey (by decide)
      show ((Codec.rows "headers").encode ((Codec.rows "params").encode form.fields)).lookup key
        = form.fields.lookup key
      rw [(Codec.lookup_rows hheaders _).2, (Codec.lookup_rows hparams _).2]
  | _ => cases h

/-- **A form that is stored and read back gives the same ports.** -/
theorem portsOf_storedForm (kind : Kind) (form : Form) :
    portsOf kind (kind.decodeConfig (kind.encodeForm form)) = portsOf kind form := by
  cases hbranching : kind.isBranching with
  | false => exact portsOf_eq_of_not_isBranching hbranching _ _
  | true =>
      rw [portsOf_congr kind (Kind.sameBranches_decodeConfig hbranching _),
        portsOf_congr kind (Kind.sameBranches_encodeForm hbranching form)]

/-- A new node of the library has the ports of its form. -/
theorem portsOf_defaultConfig (kind : Kind) :
    portsOf kind ⟨kind.defaultConfig⟩ = portsOf kind (kind.decodeConfig kind.defaultConfig) := by
  cases hbranching : kind.isBranching with
  | false => exact portsOf_eq_of_not_isBranching hbranching _ _
  | true => exact (portsOf_congr kind (Kind.sameBranches_decodeConfig hbranching _)).symm

/-! ## §5. The ids of the ports on a side. -/

/-- The ids of the ports on the right side of a node of a kind. -/
def layoutIds (kind : Kind) (form : Form) : List String :=
  (BranchLayout.of kind form).ports.map Port.id

theorem BranchLayout.cases_ids (count : Nat) :
    (cases count).map Port.id = (List.range count).map Port.caseId := by
  unfold cases
  rw [List.map_map]
  rfl

theorem BranchLayout.categories_ids (items : List Json) :
    (categories items).map Port.id = (List.range items.length).map Port.caseId := by
  unfold categories
  apply List.ext_getElem
  · simp
  · intro i _ _
    simp [Port.branch]

/-- An if-else has a port for each case, for one at least, and one more for the
rest. -/
theorem layoutIds_ifElse (form : Form) :
    layoutIds .ifElse form
      = (List.range (max (form.items "cases").length 1 + 1)).map Port.caseId := by
  show List.map Port.id (BranchLayout.cases _ ++ [_]) = _
  rw [List.map_append, BranchLayout.cases_ids, List.range_succ, List.map_append]
  rfl

theorem layoutIds_questionClassifier (form : Form) :
    layoutIds .questionClassifier form
      = (List.range (form.items "categories").length).map Port.caseId :=
  BranchLayout.categories_ids _

/-- A request has one exit, or one for each outcome. -/
theorem BranchLayout.of_httpRequest (form : Form) :
    (of .httpRequest form).ports
        = [.branch Port.successId Port.successId, .branch Port.errorId Port.errorId]
      ∨ (of .httpRequest form).ports = [.exit] := by
  by_cases hmethod : form.nestedText? "error_handle" "method" = some "branch"
  · exact Or.inl (congrArg ports (if_pos hmethod))
  · exact Or.inr (congrArg ports (if_neg hmethod))

/-- A request has an exit for errors, or one exit for all. -/
theorem layoutIds_httpRequest (form : Form) :
    layoutIds .httpRequest form = [Port.successId, Port.errorId]
      ∨ layoutIds .httpRequest form = [Port.exit.id] := by
  unfold layoutIds
  rcases BranchLayout.of_httpRequest form with h | h
  · exact Or.inl (by rw [h]; rfl)
  · exact Or.inr (by rw [h]; rfl)

/-- Where a kind does not branch there is one right port at most. -/
theorem layoutIds_of_not_isBranching {kind : Kind} (h : kind.isBranching = false)
    (form : Form) : layoutIds kind form = [] ∨ layoutIds kind form = [Port.exit.id] := by
  cases kind with
  | ifElse | questionClassifier | httpRequest => cases h
  | finish | leave | addNode => exact Or.inl rfl
  | _ => exact Or.inr rfl

theorem nodup_caseIds (count : Nat) : ((List.range count).map Port.caseId).Nodup :=
  List.nodup_range.map fun _ _ => Port.caseId_injective

/-- **No two right ports of a node have one id.** -/
theorem nodup_layoutIds (kind : Kind) (form : Form) : (layoutIds kind form).Nodup := by
  cases hbranching : kind.isBranching with
  | false =>
      rcases layoutIds_of_not_isBranching hbranching form with h | h <;> rw [h] <;> simp
  | true =>
      cases kind with
      | ifElse =>
          rw [layoutIds_ifElse]
          exact nodup_caseIds _
      | questionClassifier =>
          rw [layoutIds_questionClassifier]
          exact nodup_caseIds _
      | httpRequest => rcases layoutIds_httpRequest form with h | h <;> rw [h] <;> decide
      | _ => cases hbranching

/-- A port is saved under its own id, or else it is the only right port. -/
theorem edgeLabel?_cases {kind : Kind} {form : Form} {port : String}
    (hport : port ∈ layoutIds kind form) :
    edgeLabel? kind port = some port
      ∨ (edgeLabel? kind port = none ∧ layoutIds kind form = [port]) := by
  cases hbranching : kind.isBranching with
  | false =>
      rcases layoutIds_of_not_isBranching hbranching form with hids | hids
      · rw [hids] at hport
        cases hport
      · rw [hids] at hport ⊢
        obtain rfl := List.mem_singleton.1 hport
        have hlabel : edgeLabel? kind Port.exit.id = none := by
          cases kind with
          | ifElse | questionClassifier | httpRequest => cases hbranching
          | _ => rfl
        exact Or.inr ⟨hlabel, rfl⟩
  | true =>
      cases kind with
      | ifElse => exact Or.inl rfl
      | questionClassifier => exact Or.inl rfl
      | httpRequest =>
          rcases layoutIds_httpRequest form with hids | hids
          · rw [hids] at hport
            simp only [List.mem_cons, List.not_mem_nil, or_false] at hport
            exact Or.inl (if_pos hport)
          · rw [hids] at hport ⊢
            obtain rfl := List.mem_singleton.1 hport
            exact Or.inr ⟨by decide, rfl⟩
      | _ => cases hbranching

/-- **No two right ports of a node are saved under one branch.** -/
theorem edgeLabel?_injective {kind : Kind} {form : Form} {port port' : String}
    (hport : port ∈ layoutIds kind form) (hport' : port' ∈ layoutIds kind form)
    (h : edgeLabel? kind port = edgeLabel? kind port') : port = port' := by
  -- Where a port is not saved under its own id there is no other one.
  rcases edgeLabel?_cases hport with hlabel | ⟨hlabel, hids⟩
  · rcases edgeLabel?_cases hport' with hlabel' | ⟨hlabel', hids'⟩
    · rw [hlabel, hlabel'] at h
      exact Option.some.inj h
    · rw [hids'] at hport
      exact List.mem_singleton.1 hport
  · rw [hids] at hport'
    exact (List.mem_singleton.1 hport').symm

/-! ## §6. The ports of a node by their sides. -/

theorem BranchLayout.side_eq_right (kind : Kind) (form : Form) :
    ∀ port ∈ (of kind form).ports, port.side = .right := by
  have hcases (count : Nat) : ∀ port ∈ cases count, port.side = .right := by
    intro port hport
    obtain ⟨i, -, rfl⟩ := List.mem_map.1 hport
    rfl
  have hcategories (items : List Json) : ∀ port ∈ categories items, port.side = .right := by
    intro port hport
    obtain ⟨i, -, rfl⟩ := List.mem_mapIdx.1 hport
    rfl
  have hexit : ∀ port ∈ [Port.exit], port.side = .right := by decide
  cases kind with
  | ifElse =>
      intro port hport
      rcases List.mem_append.1 hport with hport | hport
      · exact hcases _ port hport
      · rw [List.mem_singleton.1 hport]
        rfl
  | questionClassifier => exact hcategories _
  | httpRequest =>
      rcases of_httpRequest form with h | h <;> rw [h]
      · decide
      · exact hexit
  | finish | leave | addNode => exact fun _ hport => nomatch hport
  | _ => exact hexit

theorem side_entryPorts (kind : Kind) : ∀ port ∈ entryPorts kind, port.side = .left := by
  unfold entryPorts
  split <;> decide

variable {α : Type} {node : Node α}

/-- The right ports are those of the branches. -/
theorem Node.portsOn_right (h : node.ports = portsOf node.kind node.form) :
    node.portsOn .right = (BranchLayout.of node.kind node.form).ports := by
  unfold portsOn portsOf at *
  -- The entry is filtered out, and all exits stay.
  rw [h, List.filter_append, List.filter_eq_nil_iff.2, List.filter_eq_self.2]
  · rfl
  · intro port hport
    simp [BranchLayout.side_eq_right _ _ port hport]
  · intro port hport
    simp [side_entryPorts _ port hport]

theorem Node.portsOn_left (h : node.ports = portsOf node.kind node.form) :
    node.portsOn .left = entryPorts node.kind := by
  unfold portsOn portsOf at *
  rw [h, List.filter_append, List.filter_eq_self.2, List.filter_eq_nil_iff.2]
  · exact List.append_nil _
  · intro port hport
    simp [BranchLayout.side_eq_right _ _ port hport]
  · intro port hport
    simp [side_entryPorts _ port hport]

/-- The right ports of a node that has the ports of its form. -/
theorem Node.portIds_right (h : node.ports = portsOf node.kind node.form) :
    node.portIds .right = layoutIds node.kind node.form := by
  unfold portIds layoutIds
  rw [portsOn_right h]

/-- There is one left port at most. -/
theorem Node.eq_entry_of_mem (h : node.ports = portsOf node.kind node.form) {port : String}
    (hport : port ∈ node.portIds .left) : port = Port.entry.id := by
  unfold portIds at hport
  rw [portsOn_left h] at hport
  unfold entryPorts at hport
  split at hport
  · exact List.mem_singleton.1 hport
  · cases hport

end WorkflowEditor
