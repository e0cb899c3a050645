/-
  WorkflowEditor.Proofs.Entries
  ─────────────────────────────
  **THE ENTRIES OF AN OBJECT.**

  An object has one entry a key.  What the operations on entries do can then
  be told by looking keys up:

    • `Json.bind_arr?_eq_some` and its like — what it means that a key has a
      value of some form,
    • `Fields.lookup_insert_self`, `Fields.At.insert`, `Fields.insert_comm` —
      setting an entry,
    • `Fields.insertAll_eq_append` — setting entries that are new,
    • `Fields.eraseSwap_perm`, `Fields.lookup_eraseSwap_ne` — dropping one,
    • `Fields.lookup_eq_of_perm` — the order of entries does not matter.
-/
import WorkflowEditor.Proofs.PortLayout

namespace WorkflowEditor

namespace Json

variable {found : Option Json}

theorem bind_bool?_eq_some {b : Bool} : found.bind bool? = some b ↔ found = some (.bool b) := by
  cases found with
  | none => simp
  | some value => cases value <;> simp [bool?]

theorem bind_str?_eq_some {text : String} :
    found.bind str? = some text ↔ found = some (.str text) := by
  cases found with
  | none => simp
  | some value => cases value <;> simp [str?]

theorem bind_arr?_eq_some {items : List Json} :
    found.bind arr? = some items ↔ found = some (.arr items) := by
  cases found with
  | none => simp
  | some value => cases value <;> simp [arr?]

theorem bind_obj?_eq_some {entries : Fields} :
    found.bind obj? = some entries ↔ found = some (.obj entries) := by
  cases found with
  | none => simp
  | some value => cases value <;> simp [obj?]

/-- A value has a field if it is an object that has it. -/
theorem bind_field?_eq_some {key : String} {value : Json} :
    found.bind (field? key) = some value
      ↔ ∃ entries : Fields, found = some (.obj entries) ∧ entries.lookup key = some value := by
  cases found with
  | none => simp
  | some value => cases value <;> simp [field?]

end Json

namespace Fields

variable {fields fields' : Fields} {key other : String} {value value' : Json}

/-! ## §1. Looking keys up. -/

theorem lookup_cons_self (key : String) (value : Json) (rest : Fields) :
    List.lookup key ((key, value) :: rest) = some value := by
  rw [List.lookup_cons, beq_self_eq_true]

theorem lookup_cons_ne (entry : String × Json) (rest : Fields) (h : entry.1 ≠ key) :
    List.lookup key (entry :: rest) = rest.lookup key := by
  have hbeq : (key == entry.1) = false := by simpa using h.symm
  rw [List.lookup_cons, hbeq]

/-- A key has no value exactly if no entry has the key. -/
theorem lookup_eq_none_iff : fields.lookup key = none ↔ key ∉ fields.keys := by
  unfold keys
  induction fields with
  | nil => simp
  | cons entry rest ih =>
      by_cases h : entry.1 = key
      · subst h
        simp
      · rw [lookup_cons_ne entry rest h, ih, List.map_cons, List.mem_cons, not_or]
        exact ⟨fun hrest => ⟨fun heq => h heq.symm, hrest⟩, And.right⟩

theorem has_iff : fields.has key ↔ key ∈ fields.keys := by
  unfold has keys
  rw [List.any_eq_true, List.mem_map]
  exact exists_congr fun entry => and_congr_right fun _ => beq_iff_eq

/-- What is found is one of the entries. -/
theorem mem_of_lookup (h : fields.lookup key = some value) : (key, value) ∈ fields := by
  induction fields with
  | nil => cases h
  | cons entry rest ih =>
      by_cases hkey : entry.1 = key
      · subst hkey
        rw [lookup_cons_self] at h
        exact Option.some.inj h ▸ List.mem_cons_self
      · rw [lookup_cons_ne entry rest hkey] at h
        exact List.mem_cons_of_mem _ (ih h)

/-- **Where keys are distinct every entry is found.** -/
theorem lookup_eq_some_iff (hkeys : fields.keys.Nodup) :
    fields.lookup key = some value ↔ (key, value) ∈ fields := by
  refine ⟨mem_of_lookup, fun hmem => ?_⟩
  induction fields with
  | nil => cases hmem
  | cons entry rest ih =>
      obtain ⟨hfirst, hrest⟩ := List.nodup_cons.1 hkeys
      rcases List.mem_cons.1 hmem with rfl | hmem
      · exact lookup_cons_self key value rest
      · have hne : entry.1 ≠ key := fun heq => hfirst (heq ▸ List.mem_map_of_mem hmem)
        rw [lookup_cons_ne entry rest hne]
        exact ih hrest hmem

theorem nodup_keys_of_perm (h : fields.Perm fields') (hkeys : fields.keys.Nodup) :
    fields'.keys.Nodup :=
  (h.map Prod.fst).nodup_iff.1 hkeys

/-- Keys are still distinct behind a last entry if its key is new. -/
theorem nodup_concat {init : Fields} {last : String × Json} :
    (keys (init ++ [last])).Nodup ↔ (keys init).Nodup ∧ last.1 ∉ keys init := by
  unfold keys
  rw [List.map_append, List.map_singleton, ← List.concat_eq_append, List.nodup_concat, and_comm]

/-- The order of entries does not matter. -/
theorem lookup_eq_of_perm (h : fields.Perm fields') (hkeys : fields.keys.Nodup) :
    fields.lookup key = fields'.lookup key := by
  refine Option.ext fun value => ?_
  rw [lookup_eq_some_iff hkeys, lookup_eq_some_iff (nodup_keys_of_perm h hkeys)]
  exact h.mem_iff

/-! ## §2. Setting an entry. -/

/-- A value that was set is found. -/
theorem lookup_insert_self (fields : Fields) (key : String) (value : Json) :
    (fields.insert key value).lookup key = some value := by
  induction fields with
  | nil => exact lookup_cons_self key value []
  | cons entry rest ih =>
      unfold insert
      split
      · exact lookup_cons_self key value rest
      · rename_i hkey
        rw [lookup_cons_ne entry _ hkey, ih]

/-- There is a value under a key, and something holds of it. -/
def At (fields : Fields) (key : String) (P : Json → Prop) : Prop :=
  ∃ value, fields.lookup key = some value ∧ P value

/-- What holds of the value under a key still does when an entry is set, if it
holds of what is set under that key. -/
theorem At.insert {P : Json → Prop} (hold : fields.At other P) (hnew : key = other → P value) :
    At (fields.insert key value) other P := by
  by_cases hkey : other = key
  · subst hkey
    exact ⟨value, lookup_insert_self _ _ _, hnew rfl⟩
  · unfold At
    rw [lookup_insert_ne fields value hkey]
    exact hold

/-- Setting what is set already. -/
theorem insert_eq_self (h : fields.lookup key = some value) : fields.insert key value = fields := by
  induction fields with
  | nil => cases h
  | cons entry rest ih =>
      unfold insert
      split
      · rename_i hkey
        subst hkey
        rw [lookup_cons_self] at h
        rw [← Option.some.inj h]
      · rename_i hkey
        rw [lookup_cons_ne entry rest hkey] at h
        rw [ih h]

/-- Of two values set under one key the second one counts. -/
theorem insert_insert (fields : Fields) (key : String) (value value' : Json) :
    (fields.insert key value).insert key value' = fields.insert key value' := by
  induction fields with
  | nil => exact if_pos rfl
  | cons entry rest ih =>
      rw [insert]
      split
      · rename_i hkey
        rw [insert, insert, if_pos rfl, if_pos hkey]
      · rename_i hkey
        rw [insert, insert, if_neg hkey, if_neg hkey, ih]

/-- A key that is there keeps its place, so it does not matter when it is
set. -/
theorem insert_comm (hne : key ≠ other) (hthere : fields.lookup key ≠ none) :
    (fields.insert key value).insert other value'
      = (fields.insert other value').insert key value := by
  induction fields with
  | nil => exact absurd rfl hthere
  | cons entry rest ih =>
      by_cases hkey : entry.1 = key
      · have hother : entry.1 ≠ other := hkey ▸ hne
        simp only [insert, if_pos hkey, if_neg hother, if_neg hne]
      · rw [lookup_cons_ne entry rest hkey] at hthere
        by_cases hother : entry.1 = other
        · simp only [insert, if_neg hkey, if_pos hother, if_neg hne.symm]
        · simp only [insert, if_neg hkey, if_neg hother, ih hthere]

/-- A key that is new goes last. -/
theorem insert_of_lookup_none (h : fields.lookup key = none) (value : Json) :
    fields.insert key value = fields ++ [(key, value)] := by
  induction fields with
  | nil => rfl
  | cons entry rest ih =>
      have hkey : entry.1 ≠ key := by
        intro heq
        rw [List.lookup_cons, heq, beq_self_eq_true] at h
        cases h
      rw [lookup_cons_ne entry rest hkey] at h
      rw [insert, if_neg hkey, ih h, List.cons_append]

/-- A key that is there keeps its place and gets another value. -/
theorem keys_insert_of_lookup (h : fields.lookup key ≠ none) (value : Json) :
    (fields.insert key value).keys = fields.keys := by
  induction fields with
  | nil => exact absurd rfl h
  | cons entry rest ih =>
      unfold insert
      split
      · rename_i hkey
        exact congrArg (· :: keys rest) hkey.symm
      · rename_i hkey
        rw [lookup_cons_ne entry rest hkey] at h
        exact congrArg (entry.1 :: ·) (ih h)

/-- Setting an entry makes no key come twice. -/
theorem nodup_insert (h : fields.keys.Nodup) (key : String) (value : Json) :
    (fields.insert key value).keys.Nodup := by
  cases hlookup : fields.lookup key with
  | some found =>
      rw [keys_insert_of_lookup (by simp [hlookup])]
      exact h
  | none =>
      rw [insert_of_lookup_none hlookup]
      exact nodup_concat.2 ⟨h, lookup_eq_none_iff.1 hlookup⟩

/-! ## §3. Setting many entries. -/

theorem nodup_insertAll (h : fields.keys.Nodup) (new : Fields) :
    (fields.insertAll new).keys.Nodup := by
  unfold insertAll
  induction new generalizing fields with
  | nil => exact h
  | cons entry new ih => exact ih (nodup_insert h entry.1 entry.2)

/-- **Entries that are new go behind the others, in order.** -/
theorem insertAll_eq_append {new : Fields} (h : (fields ++ new).keys.Nodup) :
    fields.insertAll new = fields ++ new := by
  unfold insertAll
  induction new generalizing fields with
  | nil => exact (List.append_nil fields).symm
  | cons entry new ih =>
      have hnew : fields.lookup entry.1 = none := by
        unfold keys at h
        rw [List.map_append] at h
        refine lookup_eq_none_iff.2 fun hmem => ?_
        exact (List.nodup_append.1 h).2.2 _ hmem _ List.mem_cons_self rfl
      rw [List.foldl_cons, insert_of_lookup_none hnew, ih, List.append_assoc]
      · rfl
      · rw [List.append_assoc]
        exact h

/-- Setting the entries of an object one by one makes the object again. -/
theorem insertAll_nil (h : fields.keys.Nodup) : insertAll [] fields = fields :=
  insertAll_eq_append h

/-! ## §4. Dropping an entry. -/

theorem lookup_erase_self (fields : Fields) (key : String) :
    (fields.erase key).lookup key = none := by
  refine lookup_eq_none_iff.2 fun hmem => ?_
  obtain ⟨entry, hentry, hkey⟩ := List.mem_map.1 hmem
  exact absurd hkey (by simpa using (List.mem_filter.1 hentry).2)

/-- Dropping an entry leaves what is found under other keys. -/
theorem lookup_erase_ne (fields : Fields) (h : other ≠ key) :
    (fields.erase key).lookup other = fields.lookup other := by
  unfold erase
  induction fields with
  | nil => rfl
  | cons entry rest ih =>
      by_cases hkey : entry.1 = key
      · rw [List.filter_cons_of_neg (by simpa using hkey), ih,
          lookup_cons_ne entry rest (hkey ▸ h.symm)]
      · rw [List.filter_cons_of_pos (by simpa using hkey), List.lookup_cons, List.lookup_cons, ih]

theorem nodup_erase (h : fields.keys.Nodup) (key : String) : (fields.erase key).keys.Nodup :=
  h.sublist (List.filter_sublist.map Prod.fst)

/-- Dropping a key that is not there changes nothing. -/
theorem erase_of_not_mem (h : key ∉ fields.keys) : fields.erase key = fields := by
  refine List.filter_eq_self.2 fun entry hentry => ?_
  have hne : entry.1 ≠ key := fun heq => h (heq ▸ List.mem_map_of_mem hentry)
  simpa using hne

/-- An entry that is dropped might as well not have been set. -/
theorem erase_insert (fields : Fields) (key : String) (value : Json) :
    (fields.insert key value).erase key = fields.erase key := by
  unfold erase
  induction fields with
  | nil => exact List.filter_cons_of_neg (by simp)
  | cons entry rest ih =>
      by_cases hkey : entry.1 = key
      · rw [insert, if_pos hkey, List.filter_cons_of_neg (by simp),
          List.filter_cons_of_neg (by simpa using hkey)]
      · rw [insert, if_neg hkey, List.filter_cons_of_pos (by simpa using hkey),
          List.filter_cons_of_pos (by simpa using hkey), ih]

/-- Putting one entry in the place of another one. -/
theorem map_replace_perm (hkeys : fields.keys.Nodup) (hmem : key ∈ fields.keys)
    (last : String × Json) :
    (fields.map fun entry => if entry.1 = key then last else entry).Perm
      (fields.erase key ++ [last]) := by
  induction fields with
  | nil => cases hmem
  | cons entry rest ih =>
      obtain ⟨hfirst, hrest⟩ := List.nodup_cons.1 hkeys
      by_cases hkey : entry.1 = key
      · have hnone : key ∉ keys rest := hkey ▸ hfirst
        have hsame : (rest.map fun entry => if entry.1 = key then last else entry) = rest := by
          refine (List.map_congr_left fun other hother => if_neg ?_).trans (List.map_id _)
          exact fun heq => hnone (heq ▸ List.mem_map_of_mem hother)
        have herase : erase (entry :: rest) key = rest :=
          (List.filter_cons_of_neg (by simpa using hkey)).trans (erase_of_not_mem hnone)
        rw [List.map_cons, if_pos hkey, hsame, herase]
        exact (List.perm_append_singleton last rest).symm
      · have hmem : key ∈ keys rest := by
          rcases List.mem_cons.1 hmem with heq | hmem
          · exact absurd heq.symm hkey
          · exact hmem
        have herase : erase (entry :: rest) key = entry :: erase rest key :=
          List.filter_cons_of_pos (by simpa using hkey)
        rw [List.map_cons, if_neg hkey, herase, List.cons_append]
        exact (ih hrest hmem).cons entry

theorem erase_concat (init : Fields) (last : String × Json) (key : String) :
    erase (init ++ [last]) key = erase init key ++ if last.1 = key then [] else [last] := by
  unfold erase
  rw [List.filter_append]
  by_cases hkey : last.1 = key <;> simp [hkey]

/-- **Moving the last entry into the freed place changes the order only.** -/
theorem eraseSwap_perm (hkeys : fields.keys.Nodup) (key : String) :
    (fields.eraseSwap key).Perm (fields.erase key) := by
  unfold eraseSwap
  split
  · rename_i hlast
    rw [List.getLast?_eq_none_iff.1 hlast]
    exact List.Perm.refl _
  · rename_i last hlast
    obtain ⟨init, rfl⟩ := List.getLast?_eq_some_iff.1 hlast
    obtain ⟨hinit, hnew⟩ := nodup_concat.1 hkeys
    rw [List.dropLast_concat, erase_concat]
    split
    · rename_i hkey
      rw [List.append_nil, erase_of_not_mem (hkey ▸ hnew)]
    · rename_i hkey
      have hhas : has (init ++ [last]) key ↔ key ∈ keys init := by
        rw [has_iff]
        unfold keys
        rw [List.map_append, List.mem_append, List.map_singleton, List.mem_singleton]
        exact or_iff_left (Ne.symm hkey)
      split
      · rename_i hfound
        exact map_replace_perm hinit (hhas.1 hfound) last
      · rename_i hfound
        rw [erase_of_not_mem (hhas.not.1 hfound)]

theorem lookup_eraseSwap_self (h : fields.keys.Nodup) (key : String) :
    (fields.eraseSwap key).lookup key = none := by
  rw [lookup_eq_of_perm (eraseSwap_perm h key)
    (nodup_keys_of_perm (eraseSwap_perm h key).symm (nodup_erase h key)), lookup_erase_self]

/-- What is found under other keys is the same, though the last entry has
moved. -/
theorem lookup_eraseSwap_ne (h : fields.keys.Nodup) (hne : other ≠ key) :
    (fields.eraseSwap key).lookup other = fields.lookup other := by
  rw [lookup_eq_of_perm (eraseSwap_perm h key)
    (nodup_keys_of_perm (eraseSwap_perm h key).symm (nodup_erase h key)), lookup_erase_ne _ hne]

theorem nodup_eraseSwap (h : fields.keys.Nodup) (key : String) :
    (fields.eraseSwap key).keys.Nodup :=
  nodup_keys_of_perm (eraseSwap_perm h key).symm (nodup_erase h key)

/-- Dropping the entry that was set last. -/
theorem eraseSwap_append (fields : Fields) (key : String) (value : Json) :
    eraseSwap (fields ++ [(key, value)]) key = fields := by
  unfold eraseSwap
  rw [List.getLast?_append_of_ne_nil]
  · exact (if_pos rfl).trans List.dropLast_concat
  · exact List.cons_ne_nil _ _

end Fields

end WorkflowEditor
