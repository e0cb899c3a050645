/-
  WorkflowEditor.Proofs.Rereading
  ───────────────────────────────
  **WHAT IS READ CAN BE WRITTEN AND READ AGAIN.**

  A value may be written in more than one way: a field may be left out, be
  `null` or have its default, and a structure may be an array.  Once it is
  read there is one way to write it, from which it is read again:

    • `Decoder.json_ofJson` — a value with distinct keys is read as it is,
    • `Decoder.Rereads` — what a decoder reads it reads again as it is
      written: `rereads_list` and its like,
    • `Record.Spells` — the entries that a record reads as a structure, field
      by field: `Spells.seq`.
-/
import WorkflowEditor.Document.Format
import WorkflowEditor.Proofs.KeyOrder
import Mathlib.Data.List.Forall2

namespace WorkflowEditor

/-! ## §1. Any value. -/

/-- Where keys are distinct the next entry goes last. -/
theorem Fields.insert_eq_concat {found rest : Fields} {entry : String × Json}
    (hkeys : (found ++ entry :: rest).keys.Nodup) :
    found.insert entry.1 entry.2 = found ++ [entry] := by
  refine insert_of_lookup_none (lookup_eq_none_iff.2 fun hmem => ?_) entry.2
  unfold keys at hkeys
  rw [List.map_append] at hkeys
  exact (List.nodup_append.1 hkeys).2.2 _ hmem _ List.mem_cons_self rfl

mutual

/-- **A value with distinct keys is read as it is.** -/
theorem Decoder.json_ofJson : ∀ {value : Json}, value.Keyed →
    Decoder.json .unlimited (.ofJson value) = .ok value
  | .null, _ => rfl
  | .bool _, _ => rfl
  | .num _, _ => rfl
  | .str _, _ => rfl
  | .arr items, .arr hitems => by
      unfold Reading.ofJson Decoder.json
      exact map_eq_ok.2 ⟨items, Decoder.items_ofJson hitems, rfl⟩
  | .obj entries, .obj hkeys hvalues => by
      unfold Reading.ofJson Decoder.json
      exact map_eq_ok.2 ⟨entries, Decoder.entries_ofJson [] hkeys hvalues, rfl⟩

/-- The items of an array are read as they are, one by one. -/
theorem Decoder.items_ofJson : ∀ {items : List Json}, (∀ item ∈ items, item.Keyed) →
    json.ofItems .unlimited (Reading.ofJson.ofItems items) = .ok items
  | [], _ => rfl
  | item :: rest, hitems => by
      have hitem := Decoder.json_ofJson (hitems item List.mem_cons_self)
      have hrest := Decoder.items_ofJson fun other hother =>
        hitems other (List.mem_cons_of_mem _ hother)
      unfold Reading.ofJson.ofItems json.ofItems
      exact bind_eq_ok.2 ⟨item, hitem, bind_eq_ok.2 ⟨rest, hrest, rfl⟩⟩

/-- Entries go behind those that were found, as no key comes twice. -/
theorem Decoder.entries_ofJson : ∀ (found : Fields) {entries : Fields},
    (found ++ entries).keys.Nodup → (∀ entry ∈ entries, entry.2.Keyed) →
    json.ofEntries .unlimited found (Reading.ofJson.ofEntries entries) = .ok (found ++ entries)
  | found, [], _, _ => congrArg Except.ok (List.append_nil found).symm
  | found, (key, value) :: rest, hkeys, hvalues => by
      have hvalue := Decoder.json_ofJson (hvalues (key, value) List.mem_cons_self)
      have hnew := Fields.insert_eq_concat hkeys
      have hkeys' : (found ++ [(key, value)] ++ rest).keys.Nodup := by simpa using hkeys
      have hrest := Decoder.entries_ofJson (found ++ [(key, value)]) hkeys' fun other hother =>
        hvalues other (List.mem_cons_of_mem _ hother)
      unfold Reading.ofJson.ofEntries json.ofEntries
      refine bind_eq_ok.2 ⟨value, hvalue, ?_⟩
      rw [hnew, hrest, List.append_assoc]
      rfl

end

/-- An object with distinct keys is read as it is where nothing else will
do. -/
theorem Decoder.fields_ofJson {fields : Fields} (hkeyed : fields.Keyed) :
    Decoder.fields .unlimited (.ofJson (.obj fields)) = .ok fields := by
  have hread : json .unlimited (.ofJson (.obj fields)) = .ok (.obj fields) := json_ofJson hkeyed
  exact bind_eq_ok.2 ⟨_, hread, rfl⟩

theorem Reading.ofEntries_append (entries more : Fields) :
    ofJson.ofEntries (entries ++ more) = ofJson.ofEntries entries ++ ofJson.ofEntries more := by
  induction entries with
  | nil => rfl
  | cons entry rest ih => exact congrArg ((some entry.1, ofJson entry.2) :: ·) ih

/-- Nothing but `null` is read as `null`. -/
theorem Reading.ofJson_ne_null {value : Json} (h : value ≠ .null) : ofJson value ≠ .null := by
  cases value with
  | null => exact absurd rfl h
  | bool | num | str | arr | obj => exact nofun

/-! ## §2. Decoders. -/

namespace Decoder

variable {β : Type} {d : Decoder β} {write : β → Json}

/-- What a decoder reads it reads again as it is written. -/
def Rereads (d : Decoder β) (write : β → Json) : Prop :=
  ∀ ⦃room : Room⦄ ⦃r : Reading⦄ ⦃b : β⦄, d room r = .ok b →
    d .unlimited (.ofJson (write b)) = .ok b

/-- A decoder finds a value that is not written as `null` only where there is no
`null`. -/
def Solid (d : Decoder β) (write : β → Json) : Prop :=
  ∀ ⦃room : Room⦄ ⦃r : Reading⦄ ⦃b : β⦄, r ≠ .null → d room r = .ok b → write b ≠ .null

theorem rereads_text : text.Rereads .str := fun _ _ _ _ => rfl

theorem rereads_bool : bool.Rereads .bool := fun _ _ _ _ => rfl

theorem rereads_float : float.Rereads .float := fun _ _ _ _ => rfl

/-- An integer is read exactly if it is written without a fraction and within
the bounds. -/
theorem intWithin_eq_ok {least greatest : Int} {room : Room} {r : Reading} {n : Int} :
    intWithin least greatest room r = .ok n
      ↔ r = .num (some (.int n)) ∧ least ≤ n ∧ n ≤ greatest := by
  constructor
  · intro h
    unfold intWithin at h
    split at h
    · split at h
      · rename_i hwithin
        obtain rfl := Except.ok.inj h
        exact ⟨rfl, hwithin⟩
      · cases h
    · cases h
  · rintro ⟨rfl, hwithin⟩
    exact if_pos hwithin

theorem rereads_intWithin (least greatest : Int) : (intWithin least greatest).Rereads .int :=
  fun _ _ _ h => intWithin_eq_ok.2 ⟨rfl, (intWithin_eq_ok.1 h).2⟩

theorem rereads_int64 : int64.Rereads .int := rereads_intWithin _ _

/-- A count that is read is not negative, so it is written as the integer it
was. -/
theorem rereads_nat32 : nat32.Rereads fun n => .int n := by
  intro room r n h
  obtain ⟨i, hi, rfl⟩ := map_eq_ok.1 h
  have hnonneg : 0 ≤ i := (intWithin_eq_ok.1 hi).2.1
  have hwritten : Json.int i.toNat = .int i := congrArg Json.int (Int.toNat_of_nonneg hnonneg)
  refine map_eq_ok.2 ⟨i, ?_, rfl⟩
  dsimp only
  rw [hwritten]
  exact rereads_intWithin _ _ hi

/-- What is read has distinct keys: of a key that comes twice the last value
counts. -/
theorem rereads_json : json.Rereads id := fun _ _ _ h => json_ofJson (keyed_of_json h)

theorem rereads_fields : fields.Rereads .obj := fun _ _ _ h => fields_ofJson (keyed_of_fields h)

/-- A kind that is not known keeps its tag, and so is read again too. -/
theorem rereads_kind : Kind.decoder.Rereads fun kind => .str kind.tag := by
  intro room r kind h
  obtain ⟨tag, -, rfl⟩ := map_eq_ok.1 h
  exact map_eq_ok.2 ⟨_, rfl, congrArg Kind.ofTag (Kind.tag_ofTag tag)⟩

/-- Items are read one by one, each in its place. -/
theorem mapM_ofItems_eq_ok {room : Room} {items : List Json} {found : List β} :
    (Reading.ofJson.ofItems items).mapM (d room) = .ok found
      ↔ List.Forall₂ (fun item b => d room (.ofJson item) = .ok b) items found := by
  induction items generalizing found with
  | nil =>
      rw [List.forall₂_nil_left_iff, Reading.ofJson.ofItems, List.mapM_nil]
      exact ⟨fun h => (Except.ok.inj h).symm, fun h => congrArg Except.ok h.symm⟩
  | cons item items ih =>
      rw [Reading.ofJson.ofItems, List.mapM_cons, bind_eq_ok, List.forall₂_cons_left_iff]
      refine exists_congr fun b => ?_
      rw [bind_eq_ok]
      constructor
      · rintro ⟨hb, others, hothers, h⟩
        exact ⟨others, hb, ih.1 hothers, (Except.ok.inj h).symm⟩
      · rintro ⟨others, hb, hothers, rfl⟩
        exact ⟨hb, others, ih.2 hothers, rfl⟩

/-- **Each item of a list is read again.** -/
theorem rereads_list (h : d.Rereads write) :
    d.list.Rereads fun found => .arr (found.map write) := by
  intro room r found hfound
  have hitems : List.Forall₂ (fun item b => d .unlimited (.ofJson item) = .ok b)
      (found.map write) found := by
    rw [List.forall₂_map_left_iff, List.forall₂_same]
    intro b hb
    obtain ⟨_, _, hread⟩ := exists_of_list hfound hb
    exact h hread
  exact bind_eq_ok.2 ⟨found, mapM_ofItems_eq_ok.2 hitems, rfl⟩

/-- A field that may be missing is read as any other one if it is there. -/
theorem optional_of_ne_null {room : Room} {r : Reading} (h : r ≠ .null) :
    d.optional room r = some <$> d room r := by
  cases r with
  | null => exact absurd rfl h
  | bool | num | str | arr | obj | broken => rfl

theorem solid_of_ne_null (h : ∀ b, write b ≠ .null) : d.Solid write := fun _ _ _ _ _ => h _

theorem solid_text : text.Solid .str := solid_of_ne_null fun _ => nofun

theorem solid_int64 : int64.Solid .int := solid_of_ne_null fun _ => nofun

/-- Any value may be `null`, but none is that was read from something else. -/
theorem solid_json : json.Solid id := by
  intro room r value hr h hnull
  obtain rfl : value = .null := hnull
  cases r with
  | null => exact hr rfl
  | bool | broken => cases h
  | num value | str value => cases value <;> cases h
  | arr items closed | obj items closed =>
      cases closed with
      | false => cases h
      | true =>
          unfold json at h
          split at h
          · obtain ⟨_, -, hnone⟩ := map_eq_ok.1 h
            cases hnone
          · cases h

end Decoder

/-! ## §3. The fields of a record. -/

namespace Record

variable {β γ : Type} {room : Room} {find : String → Option Reading}

/-- The names of the fields, in the order of their declaration. -/
def names (record : Record β) : List String := record.checks.map Prod.fst

theorem names_seq (f : Record (β → γ)) (x : Record β) : (f <*> x).names = f.names ++ x.names :=
  List.map_append

/-- Under a name nothing is found exactly if no entry has it. -/
theorem lookup_eq_none_iff_not_mem {δ : Type} {entries : List (String × δ)} {name : String} :
    entries.lookup name = none ↔ name ∉ entries.map Prod.fst := by
  rw [List.lookup_eq_none_iff]
  constructor
  · intro h hmem
    obtain ⟨entry, hentry, rfl⟩ := List.mem_map.1 hmem
    exact bne_iff_ne.1 (h entry hentry) rfl
  · intro h entry hentry
    rw [bne_iff_ne]
    rintro rfl
    exact h (List.mem_map_of_mem hentry)

/-- Entries that are read as a structure: they name fields in the order of their
declaration, each has a value that its field accepts, and the structure is built
of what they hold. -/
structure Spells (record : Record β) (written : Fields) (b : β) : Prop where
  keys : written.keys.Sublist record.names
  checked : ∀ entry ∈ written, ∃ check, record.checks.lookup entry.1 = some check
    ∧ check .unlimited (.ofJson entry.2) = .ok ()
  built : ∀ find : String → Option Reading,
    (∀ name ∈ record.names, find name = (written.lookup name).map .ofJson) →
    record.build .unlimited find = .ok b

/-- What a decoder reads it accepts when it only checks. -/
theorem check_eq_ok {d : Decoder β} {r : Reading} {b : β} (h : d room r = .ok b) :
    d.check room r = .ok () := map_eq_ok.2 ⟨b, h, rfl⟩

section Field

variable {name : String} {d : Decoder β} {write : β → Json}

/-- A field that has a value. -/
theorem spells_given {field : Record β} {value : Json} {b : β}
    (hchecks : field.checks = [(name, d.check)])
    (hbuild : ∀ (room : Room) (find : String → Option Reading) (r : Reading),
      find name = some r → field.build room find = d room r)
    (h : d .unlimited (.ofJson value) = .ok b) : field.Spells [(name, value)] b where
  keys := by
    unfold names
    rw [hchecks]
    exact .refl _
  checked entry hentry := by
    obtain rfl := List.mem_singleton.1 hentry
    rw [hchecks]
    exact ⟨d.check, List.lookup_cons_self, check_eq_ok h⟩
  built find hfind := by
    have hname : name ∈ field.names := by
      unfold names
      rw [hchecks]
      exact List.mem_cons_self
    refine (hbuild .unlimited find (.ofJson value) ?_).trans h
    rw [hfind name hname, Fields.lookup_cons_self]
    rfl

theorem spells_required_of {value : Json} {b : β} (h : d .unlimited (.ofJson value) = .ok b) :
    (required name d).Spells [(name, value)] b := by
  refine spells_given rfl (fun room find r hr => ?_) h
  unfold required
  dsimp only
  rw [hr]

theorem spells_defaulted_of {value : Json} {b default : β}
    (h : d .unlimited (.ofJson value) = .ok b) :
    (defaulted name d default).Spells [(name, value)] b := by
  refine spells_given rfl (fun room find r hr => ?_) h
  unfold defaulted
  dsimp only
  rw [hr]

/-- A field that has to be there was found, so it is written with what was
read. -/
theorem spells_required (hd : d.Rereads write) {b : β}
    (h : (required name d).build room find = .ok b) :
    (required name d).Spells [(name, write b)] b := by
  unfold required at h
  dsimp only at h
  split at h
  · exact spells_required_of (hd h)
  · cases h

/-- A field with a default is written also if it was left out, so the default
has to be read again too. -/
theorem spells_defaulted (hd : d.Rereads write) {default b : β}
    (hdefault : d .unlimited (.ofJson (write default)) = .ok default)
    (h : (defaulted name d default).build room find = .ok b) :
    (defaulted name d default).Spells [(name, write b)] b := by
  rcases build_defaulted_eq_ok h with ⟨r, hread⟩ | rfl
  · exact spells_defaulted_of (hd hread)
  · exact spells_defaulted_of hdefault

/-- A field that was absent or `null` is left out. -/
theorem spells_absent : (optional name d).Spells (fieldIf name write none) none where
  keys := List.nil_sublist _
  checked _ hnone := nomatch hnone
  built find hfind := by
    have hnone : find name = none := hfind name List.mem_cons_self
    unfold optional defaulted
    dsimp only
    rw [hnone]

/-- **A field that may be missing** is written if it has a value, and left out
if it was missing or `null`. -/
theorem spells_optional (hd : d.Rereads write) (hsolid : d.Solid write) {o : Option β}
    (h : (optional name d).build room find = .ok o) :
    (optional name d).Spells (fieldIf name write o) o := by
  cases o with
  | none => exact spells_absent
  | some b =>
      -- What was found was not `null`, so it is not written so either.
      obtain ⟨r, hr, hread⟩ : ∃ r, r ≠ .null ∧ d room r = .ok b := by
        rcases build_defaulted_eq_ok h with ⟨r, hread⟩ | hnone
        · by_cases hr : r = .null
          · subst hr
            cases hread
          · rw [Decoder.optional_of_ne_null hr] at hread
            obtain ⟨found, hfound, hsome⟩ := map_eq_ok.1 hread
            exact ⟨r, hr, Option.some.inj hsome ▸ hfound⟩
        · cases hnone
      have hwritten : d.optional .unlimited (.ofJson (write b)) = .ok (some b) := by
        rw [Decoder.optional_of_ne_null (Reading.ofJson_ne_null (hsolid hr hread))]
        exact map_eq_ok.2 ⟨b, hd hread, rfl⟩
      exact spells_defaulted_of hwritten

end Field

namespace Spells

/-- A structure with one field. -/
protected theorem map {x : Record β} {written : Fields} {b : β} (h : x.Spells written b)
    (f : β → γ) : (f <$> x).Spells written (f b) where
  keys := h.keys
  checked := h.checked
  built find hfind := build_map_eq_ok.2 ⟨b, h.built find hfind, rfl⟩

/-- **A structure with one field more** is spelled by its entries behind those of
the others. -/
theorem seq {f : Record (β → γ)} {x : Record β} {written more : Fields} {g : β → γ} {b : β}
    (hf : f.Spells written g) (hx : x.Spells more b) (hnew : ∀ name ∈ x.names, name ∉ f.names) :
    (f <*> x).Spells (written ++ more) (g b) where
  keys := by
    have hkeys : (written ++ more).keys = written.keys ++ more.keys := List.map_append
    rw [hkeys, names_seq]
    exact hf.keys.append hx.keys
  checked entry hentry := by
    have hchecks : (f <*> x).checks = f.checks ++ x.checks := rfl
    rw [hchecks, List.lookup_append]
    rcases List.mem_append.1 hentry with hold | hentry
    · obtain ⟨check, hcheck, hok⟩ := hf.checked entry hold
      exact ⟨check, by rw [hcheck]; rfl, hok⟩
    · obtain ⟨check, hcheck, hok⟩ := hx.checked entry hentry
      have hname : entry.1 ∉ f.names :=
        hnew entry.1 (hx.keys.subset (List.mem_map_of_mem hentry))
      exact ⟨check, by rw [lookup_eq_none_iff_not_mem.2 hname]; exact hcheck, hok⟩
  built find hfind := by
    rw [names_seq] at hfind
    refine build_seq_eq_ok.2 ⟨g, hf.built find fun name hname => ?_, b,
      hx.built find fun name hname => ?_, rfl⟩
    · have hother : more.lookup name = none :=
        lookup_eq_none_iff_not_mem.2 fun hmem => hnew name (hx.keys.subset hmem) hname
      rw [hfind name (List.mem_append_left _ hname), List.lookup_append, hother, Option.or_none]
    · have hother : written.lookup name = none :=
        lookup_eq_none_iff_not_mem.2 fun hmem => hnew name hname (hf.keys.subset hmem)
      rw [hfind name (List.mem_append_right _ hname), List.lookup_append, hother, Option.none_or]

end Spells

end Record

end WorkflowEditor
