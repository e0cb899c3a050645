/-
  WorkflowEditor.Proofs.KeyOrder
  ──────────────────────────────
  **VALUES WHOSE KEYS ARE DISTINCT, UP TO THE ORDER OF KEYS.**

  A JSON object maps keys to values.  As a list of entries it is one if no
  key has two entries, and two lists are the same object if every key has
  the same value in both:

    • `Json.Keyed` — no object in a value has two entries under one key,
    • `Decoder.keyed_of_json`, `Document.keyed_of_ofText` — what is read is
      such a value, and so are the configurations of a document,
    • `Json.Same`, `Fields.Same` — equality up to the order of keys,
    • `Fields.same_of_perm`, `Fields.same_insert`,
      `Fields.same_insert_of_erased` — moving entries, and setting one.
-/
import WorkflowEditor.Proofs.Entries
import WorkflowEditor.Proofs.Outcome

namespace WorkflowEditor

/-! ## §1. Distinct keys. -/

/-- No object in a value has two entries under one key. -/
inductive Json.Keyed : Json → Prop
  | null : Keyed .null
  | bool (b : Bool) : Keyed (.bool b)
  | num (n : Num) : Keyed (.num n)
  | str (s : String) : Keyed (.str s)
  | arr {items : List Json} : (∀ item ∈ items, Keyed item) → Keyed (.arr items)
  | obj {entries : Fields} : entries.keys.Nodup → (∀ entry ∈ entries, Keyed entry.2) →
      Keyed (.obj entries)

/-- No key has two entries, and none has in a value of an entry. -/
def Fields.Keyed (fields : Fields) : Prop := (Json.obj fields).Keyed

namespace Fields

variable {fields : Fields}

theorem Keyed.nodup (h : fields.Keyed) : fields.keys.Nodup := by
  cases h with
  | obj hkeys _ => exact hkeys

theorem Keyed.value (h : fields.Keyed) {entry : String × Json} (hentry : entry ∈ fields) :
    entry.2.Keyed := by
  cases h with
  | obj _ hvalues => exact hvalues entry hentry

theorem Keyed.lookup (h : fields.Keyed) {key : String} {value : Json}
    (hvalue : fields.lookup key = some value) : value.Keyed :=
  h.value (mem_of_lookup hvalue)

theorem keyed_nil : Keyed [] := .obj List.nodup_nil fun _ hnone => nomatch hnone

/-- An entry is the one that was set, or it was there before. -/
theorem mem_insert {key : String} {value : Json} {entry : String × Json}
    (h : entry ∈ fields.insert key value) : entry = (key, value) ∨ entry ∈ fields := by
  induction fields with
  | nil => exact Or.inl (List.mem_singleton.1 h)
  | cons first rest ih =>
      unfold insert at h
      split at h
      · exact (List.mem_cons.1 h).imp_right (List.mem_cons_of_mem _)
      · rcases List.mem_cons.1 h with rfl | h
        · exact Or.inr List.mem_cons_self
        · exact (ih h).imp_right (List.mem_cons_of_mem _)

/-- Setting an entry keeps keys distinct, all the way down. -/
theorem Keyed.insert (h : fields.Keyed) (key : String) {value : Json} (hvalue : value.Keyed) :
    Keyed (fields.insert key value) := by
  refine .obj (nodup_insert h.nodup key value) fun entry hentry => ?_
  rcases mem_insert hentry with rfl | hentry
  · exact hvalue
  · exact h.value hentry

end Fields

/-! ## §2. Reading. -/

mutual

/-- **A value that is read has distinct keys**: of a repeated key the last
value counts. -/
theorem Decoder.keyed_of_json : ∀ {room : Room} {r : Reading} {value : Json},
    Decoder.json room r = .ok value → value.Keyed
  | _, .null, _, h => by
      obtain rfl := Except.ok.inj h
      exact .null
  | _, .bool b, _, h => by
      obtain rfl := Except.ok.inj h
      exact .bool b
  | _, .num (some n), _, h => by
      obtain rfl := Except.ok.inj h
      exact .num n
  | _, .str (some s), _, h => by
      obtain rfl := Except.ok.inj h
      exact .str s
  | room, .arr items true, _, h => by
      unfold Decoder.json at h
      split at h
      · obtain ⟨found, hfound, rfl⟩ := map_eq_ok.1 h
        exact .arr (Decoder.keyed_of_items hfound)
      · cases h
  | room, .obj entries true, _, h => by
      unfold Decoder.json at h
      split at h
      · obtain ⟨found, hfound, rfl⟩ := map_eq_ok.1 h
        exact Decoder.keyed_of_entries Fields.keyed_nil hfound
      · cases h
  | _, .num none, _, h => nomatch h
  | _, .str none, _, h => nomatch h
  | _, .arr _ false, _, h => nomatch h
  | _, .obj _ false, _, h => nomatch h
  | _, .broken, _, h => nomatch h

theorem Decoder.keyed_of_items : ∀ {room : Room} {items : List Reading} {found : List Json},
    json.ofItems room items = .ok found → ∀ item ∈ found, item.Keyed
  | _, [], _, h => by
      obtain rfl := Except.ok.inj h
      exact fun _ hnone => nomatch hnone
  | room, item :: rest, _, h => by
      obtain ⟨first, hfirst, h⟩ := bind_eq_ok.1 h
      obtain ⟨others, hothers, h⟩ := bind_eq_ok.1 h
      obtain rfl := Except.ok.inj h
      intro other hother
      rcases List.mem_cons.1 hother with rfl | hother
      · exact Decoder.keyed_of_json hfirst
      · exact Decoder.keyed_of_items hothers other hother

/-- Entries are set one by one, so of two with one key one is left. -/
theorem Decoder.keyed_of_entries : ∀ {room : Room} {found : Fields}
    {entries : List (Option String × Reading)} {result : Fields},
    found.Keyed → json.ofEntries room found entries = .ok result → result.Keyed
  | _, _, [], _, hkeyed, h => by
      obtain rfl := Except.ok.inj h
      exact hkeyed
  | room, found, (some key, value) :: rest, _, hkeyed, h => by
      obtain ⟨read, hread, h⟩ := bind_eq_ok.1 h
      exact Decoder.keyed_of_entries (hkeyed.insert key (Decoder.keyed_of_json hread)) h
  | _, _, (none, _) :: _, _, _, h => nomatch h

end

namespace Record

variable {β γ : Type} {room : Room} {find : String → Option Reading}

/-- A structure is built if all of its fields are. -/
theorem build_seq_eq_ok {f : Record (β → γ)} {x : Record β} {c : γ} :
    (f <*> x).build room find = .ok c
      ↔ ∃ g, f.build room find = .ok g ∧ ∃ b, x.build room find = .ok b ∧ g b = c := by
  show (f.build room find >>= fun g => x.build room find >>= fun b => .ok (g b)) = .ok c ↔ _
  rw [bind_eq_ok]
  refine exists_congr fun g => and_congr_right fun _ => ?_
  rw [bind_eq_ok]
  exact exists_congr fun b => and_congr_right fun _ => ⟨Except.ok.inj, congrArg Except.ok⟩

theorem build_map_eq_ok {f : β → γ} {x : Record β} {c : γ} :
    (f <$> x).build room find = .ok c ↔ ∃ b, x.build room find = .ok b ∧ f b = c := by
  have hmap : f <$> x = pure f <*> x := rfl
  rw [hmap, build_seq_eq_ok]
  constructor
  · rintro ⟨g, hg, b, hb, rfl⟩
    obtain rfl : f = g := Except.ok.inj hg
    exact ⟨b, hb, rfl⟩
  · rintro ⟨b, hb, rfl⟩
    exact ⟨f, rfl, b, hb, rfl⟩

/-- A field that is there was decoded, and another one has its default. -/
theorem build_defaulted_eq_ok {name : String} {d : Decoder β} {default b : β}
    (h : (defaulted name d default).build room find = .ok b) :
    (∃ r, d room r = .ok b) ∨ b = default := by
  unfold defaulted at h
  dsimp only at h
  split at h
  · exact Or.inl ⟨_, h⟩
  · exact Or.inr (Except.ok.inj h).symm

/-- A structure was built of what was found. -/
theorem build_of_decoder {record : Record β} {r : Reading} {b : β}
    (h : record.decoder room r = .ok b) : ∃ room find, record.build room find = .ok b := by
  unfold decoder at h
  split at h
  · obtain ⟨found, -, h⟩ := bind_eq_ok.1 h
    dsimp only at h
    split at h
    · exact ⟨_, _, h⟩
    · cases h
  · obtain ⟨_, -, h⟩ := bind_eq_ok.1 h
    split at h
    · exact ⟨_, _, mapError_eq_ok.1 h⟩
    · cases h
  · cases h

/-- A structure that keeps unknown entries is built of its fields and of the
rest. -/
theorem build_of_decoderWithRest {record : Record (Fields → β)} {r : Reading} {b : β}
    (h : record.decoderWithRest room r = .ok b) :
    ∃ room find make rest, record.build room find = .ok make ∧ make rest = b := by
  unfold decoderWithRest at h
  split at h
  · obtain ⟨found, -, h⟩ := bind_eq_ok.1 h
    dsimp only at h
    split at h
    · obtain ⟨make, hmake, h⟩ := bind_eq_ok.1 h
      exact ⟨_, _, make, _, hmake, Except.ok.inj h⟩
    · cases h
  · cases h

end Record

theorem Decoder.keyed_of_fields {room : Room} {r : Reading} {found : Fields}
    (h : Decoder.fields room r = .ok found) : found.Keyed := by
  unfold Decoder.fields at h
  split at h
  · obtain ⟨value, hvalue, h⟩ := bind_eq_ok.1 h
    split at h
    · obtain rfl := Except.ok.inj h
      exact Decoder.keyed_of_json hvalue
    · cases h
  · cases h

/-- Each item of a list is read from one. -/
theorem Decoder.exists_of_list {β : Type} {d : Decoder β} {room : Room} {r : Reading}
    {found : List β} (h : d.list room r = .ok found) {b : β} (hb : b ∈ found) :
    ∃ room r, d room r = .ok b := by
  have hitems (room : Room) (items : List Reading) {found : List β}
      (h : items.mapM (d room) = .ok found) (hb : b ∈ found) : ∃ r, d room r = .ok b := by
    induction items generalizing found with
    | nil =>
        obtain rfl := Except.ok.inj h
        cases hb
    | cons item items ih =>
        rw [List.mapM_cons] at h
        obtain ⟨first, hfirst, h⟩ := bind_eq_ok.1 h
        obtain ⟨others, hothers, h⟩ := bind_eq_ok.1 h
        obtain rfl := Except.ok.inj h
        rcases List.mem_cons.1 hb with rfl | hb
        · exact ⟨item, hfirst⟩
        · exact ih hothers hb
  unfold Decoder.list at h
  split at h
  · obtain ⟨read, hread, h⟩ := bind_eq_ok.1 h
    split at h
    · obtain rfl := Except.ok.inj h
      exact ⟨_, hitems _ _ hread hb⟩
    · cases h
  · cases h

/-- The configuration of a node that was read has distinct keys. -/
theorem StoredNode.keyed_of_record {room : Room} {r : Reading} {node : StoredNode Float}
    (h : StoredNode.record.decoderWithRest room r = .ok node) : node.config.Keyed := by
  obtain ⟨room, find, make, rest, hmake, rfl⟩ := Record.build_of_decoderWithRest h
  unfold StoredNode.record at hmake
  simp only [Record.build_seq_eq_ok, Record.build_map_eq_ok] at hmake
  obtain ⟨_, ⟨_, ⟨_, ⟨_, ⟨_, ⟨id, -, rfl⟩, kind, -, rfl⟩, name, -, rfl⟩, position, -, rfl⟩,
    config, hconfig, rfl⟩, cycle, -, rfl⟩ := hmake
  rcases Record.build_defaulted_eq_ok hconfig with ⟨r, hread⟩ | rfl
  · exact Decoder.keyed_of_fields hread
  · exact Fields.keyed_nil

/-- What is read off a text is read off what the text says. -/
theorem Decoder.exists_of_ofText {β : Type} {d : Decoder β} {text : String} {b : β}
    (h : d.ofText text = .ok b) : ∃ r, d .ofText r = .ok b := by
  unfold Decoder.ofText at h
  generalize Reading.ofText text = whole at h
  obtain ⟨found, hfound, h⟩ := bind_eq_ok.1 h
  split at h
  · exact ⟨whole.1, Except.ok.inj h ▸ hfound⟩
  · cases h

/-- **The configurations of a document that is read have distinct keys.** -/
theorem Document.keyed_of_ofText {text : String} {doc : Document Float}
    (h : Document.ofText text = .ok doc) : ∀ node ∈ doc.nodes, node.config.Keyed := by
  obtain ⟨r, hread⟩ := Decoder.exists_of_ofText h
  obtain ⟨room, find, hbuild⟩ := Record.build_of_decoder hread
  unfold Document.record at hbuild
  simp only [Record.build_seq_eq_ok, Record.build_map_eq_ok] at hbuild
  obtain ⟨_, ⟨_, ⟨_, ⟨_, ⟨_, ⟨_, ⟨_, ⟨_, ⟨_, ⟨id, -, rfl⟩, appId, -, rfl⟩, nodes, hnodes, rfl⟩,
    edges, -, rfl⟩, vars, -, rfl⟩, execution, -, rfl⟩, triggers, -, rfl⟩, active, -, rfl⟩,
    created, -, rfl⟩, updated, -, rfl⟩ := hbuild
  intro node hnode
  rcases Record.build_defaulted_eq_ok hnodes with ⟨r, hread⟩ | rfl
  · obtain ⟨_, _, hstored⟩ := Decoder.exists_of_list hread hnode
    exact StoredNode.keyed_of_record hstored
  · cases hnode

/-! ## §3. The order of keys. -/

/-- Two values are equal but for the order of keys. -/
inductive Json.Same : Json → Json → Prop
  | refl (value : Json) : Same value value
  | arr {items items' : List Json} : List.Forall₂ Same items items' →
      Same (.arr items) (.arr items')
  | obj {entries entries' : Fields} : entries.keys.Nodup → entries'.keys.Nodup →
      (∀ key, Option.Rel Same (entries.lookup key) (entries'.lookup key)) →
      Same (.obj entries) (.obj entries')

/-- Only the order of keys may differ, and that of items may not. -/
theorem Json.Same.length {items items' : List Json} (h : Same (.arr items) (.arr items')) :
    items.length = items'.length := by
  cases h with
  | refl => rfl
  | arr h => exact h.length_eq

namespace Fields

/-- Two objects have the same keys, and values that are equal but for the
order of keys. -/
def Same (fields fields' : Fields) : Prop :=
  ∀ key, Option.Rel Json.Same (fields.lookup key) (fields'.lookup key)

variable {fields fields' : Fields}

theorem Same.of_eq {key : String} (h : fields.lookup key = fields'.lookup key) :
    Option.Rel Json.Same (fields.lookup key) (fields'.lookup key) := by
  rw [h]
  cases fields'.lookup key with
  | none => exact .none
  | some value => exact .some (.refl value)

theorem same_of_obj (h : Json.Same (.obj fields) (.obj fields')) : fields.Same fields' := by
  cases h with
  | refl => exact fun _ => Same.of_eq rfl
  | obj _ _ h => exact h

theorem same_refl (fields : Fields) : fields.Same fields := fun _ => Same.of_eq rfl

/-- The order of entries does not matter. -/
theorem same_of_perm (h : fields.Perm fields') (hkeys : fields.keys.Nodup) :
    fields.Same fields' :=
  fun _ => Same.of_eq (lookup_eq_of_perm h hkeys)

/-- Setting an entry to a value that is equal but for the order of keys, where
the others are. -/
theorem same_insert {key : String} {value value' : Json}
    (h : ∀ other, other ≠ key →
      Option.Rel Json.Same (fields.lookup other) (fields'.lookup other))
    (hvalue : fields'.lookup key = some value') (hsame : value.Same value') :
    Same (fields.insert key value) fields' := by
  intro other
  by_cases hkey : other = key
  · subst hkey
    rw [lookup_insert_self, hvalue]
    exact .some hsame
  · rw [lookup_insert_ne fields value hkey]
    exact h other hkey

/-- Taking an entry out and setting it again moves entries only. -/
theorem same_insert_of_erased {left : Fields} {key : String} {value : Json}
    (hkeys : fields.keys.Nodup) (hleft : left.Perm (fields.erase key))
    (hvalue : fields.lookup key = some value) : Same (left.insert key value) fields := by
  refine same_insert (fun other hne => Same.of_eq ?_) hvalue (.refl value)
  have hnodup : left.keys.Nodup := nodup_keys_of_perm hleft.symm (nodup_erase hkeys key)
  rw [lookup_eq_of_perm hleft hnodup, lookup_erase_ne fields hne]

end Fields

end WorkflowEditor
