/-
  WorkflowEditor.Proofs.ClaimedEntries
  ────────────────────────────────────
  **WHAT A STRUCTURE CLAIMS OF A VALUE, AND WHAT IT KEEPS.**

  The decoder of a structure walks the entries of an object.  A field claims
  those under its name, and what no field claims is skipped or kept:

    • `Record.claim_cons_eq_ok` — one entry, and from it what is found
      (`lookup_claim`) and what is kept (`rest_claim`, `unclaimed_claim`),
    • `Record.rereads_decoder`, `Record.rereads_decoderWithRest` — **a
      structure is read again as it is written**,
    • `Json.given`, `Json.unknown` — what a value has for a field, and its
      entries under other names,
    • `Record.build_of_ofJson`, `Record.build_of_ofJson_rest` — a structure
      is built of the former, and keeps the latter.
-/
import WorkflowEditor.Proofs.Rereading

namespace WorkflowEditor

namespace Record

variable {β : Type} {room : Room}

/-! ## §1. One entry after the other. -/

section Claim

variable {checks : List (String × Decoder Unit)} {unclaimed : Unclaimed}
  {met found : List (String × Reading)} {rest left : Fields}

/-- **One entry**: a field claims it and has not been met before, or none claims
it. -/
theorem claim_cons_eq_ok {key : String} {r : Reading} {more : List (Option String × Reading)}
    {result : List (String × Reading) × Fields} :
    claim checks unclaimed room met rest ((some key, r) :: more) = .ok result
      ↔ (∃ check, checks.lookup key = some check ∧ met.lookup key = none
            ∧ check room r = .ok ()
            ∧ claim checks unclaimed room (met ++ [(key, r)]) rest more = .ok result)
        ∨ (checks.lookup key = none ∧ ∃ value, unclaimed room r = .ok value
            ∧ claim checks unclaimed room met (value.elim rest (Fields.insert rest key)) more
              = .ok result) := by
  rw [claim]
  cases hcheck : checks.lookup key with
  | none =>
      simp only [reduceCtorEq, false_and, exists_false, false_or, true_and]
      rw [bind_eq_ok]
      refine exists_congr fun value => and_congr_right fun _ => ?_
      cases value <;> rfl
  | some check =>
      cases hmet : met.lookup key with
      | some r => simp
      | none =>
          simp only [Option.some.injEq, Option.isSome_none, Bool.false_eq_true, if_false,
            exists_eq_left', reduceCtorEq, false_and, or_false, true_and]
          rw [bind_eq_ok]
          exact ⟨fun ⟨_, hok, h⟩ => ⟨hok, h⟩, fun ⟨hok, h⟩ => ⟨(), hok, h⟩⟩

/-- Entries of which each is claimed, and no other has its name. -/
theorem claim_claimed {written : Fields} {more : List (Option String × Reading)}
    {result : List (String × Reading) × Fields}
    (hkeys : (met.map Prod.fst ++ written.keys).Nodup)
    (hchecked : ∀ entry ∈ written, ∃ check, checks.lookup entry.1 = some check
      ∧ check room (.ofJson entry.2) = .ok ())
    (hmore : claim checks unclaimed room
      (met ++ written.map fun entry => (entry.1, .ofJson entry.2)) rest more = .ok result) :
    claim checks unclaimed room met rest (Reading.ofJson.ofEntries written ++ more)
      = .ok result := by
  induction written generalizing met with
  | nil =>
      rw [List.map_nil, List.append_nil] at hmore
      exact hmore
  | cons entry written ih =>
      obtain ⟨check, hcheck, hok⟩ := hchecked entry List.mem_cons_self
      have hnew : met.lookup entry.1 = none := lookup_eq_none_iff_not_mem.2 fun hmem =>
        (List.nodup_append.1 hkeys).2.2 _ hmem _ List.mem_cons_self rfl
      refine claim_cons_eq_ok.2 (Or.inl ⟨check, hcheck, hnew, hok, ih ?_ ?_ ?_⟩)
      · simpa [Fields.keys] using hkeys
      · exact fun other hother => hchecked other (List.mem_cons_of_mem _ hother)
      · simpa using hmore

/-- Entries of which none is claimed are kept as they are. -/
theorem claim_kept (rest : Fields) {extra : Fields} (hkeys : (rest ++ extra).keys.Nodup)
    (hvalues : ∀ entry ∈ extra, entry.2.Keyed)
    (hunknown : ∀ entry ∈ extra, checks.lookup entry.1 = none) :
    claim checks kept .unlimited met rest (Reading.ofJson.ofEntries extra)
      = .ok (met, rest ++ extra) := by
  induction extra generalizing rest with
  | nil => rw [List.append_nil, Reading.ofJson.ofEntries, claim]
  | cons entry extra ih =>
      have hvalue : kept .unlimited (.ofJson entry.2) = .ok (some entry.2) :=
        map_eq_ok.2 ⟨_, Decoder.json_ofJson (hvalues entry List.mem_cons_self), rfl⟩
      have hothers := ih (rest ++ [entry]) (by simpa using hkeys)
        (fun other hother => hvalues other (List.mem_cons_of_mem _ hother))
        fun other hother => hunknown other (List.mem_cons_of_mem _ hother)
      rw [List.append_assoc, List.singleton_append, ← Fields.insert_eq_concat hkeys] at hothers
      exact claim_cons_eq_ok.2 (Or.inr ⟨hunknown entry List.mem_cons_self, _, hvalue, hothers⟩)

/-- A field is given what stands first under its name. -/
theorem lookup_claim {entries : Fields}
    (h : claim checks unclaimed room met rest (Reading.ofJson.ofEntries entries)
      = .ok (found, left))
    {name : String} (hname : name ∈ checks.map Prod.fst) :
    found.lookup name = (met.lookup name).or ((entries.lookup name).map .ofJson) := by
  induction entries generalizing met rest with
  | nil =>
      obtain ⟨rfl, rfl⟩ := Prod.mk.inj (Except.ok.inj h)
      exact Option.or_none.symm
  | cons entry entries ih =>
      rcases claim_cons_eq_ok.1 h with ⟨check, -, hnew, -, h⟩ | ⟨hnone, value, -, h⟩
      -- A name that was met before is refused, so what is met stands first.
      · rw [ih h, List.lookup_append, Option.or_assoc]
        by_cases hkey : entry.1 = name
        · subst hkey
          rw [hnew, List.lookup_cons_self, Fields.lookup_cons_self]
          rfl
        · have hother : List.lookup name [(entry.1, Reading.ofJson entry.2)] = none :=
            lookup_eq_none_iff_not_mem.2 fun hmem => hkey (List.mem_singleton.1 hmem).symm
          rw [Fields.lookup_cons_ne entry entries hkey, hother, Option.none_or]
      · have hkey : entry.1 ≠ name := by
          rintro rfl
          exact lookup_eq_none_iff_not_mem.1 hnone hname
        rw [ih h, Fields.lookup_cons_ne entry entries hkey]

/-- What is kept are the entries that no field claims. -/
theorem rest_claim (rest : Fields) {entries : Fields} (hkeys : (rest ++ entries).keys.Nodup)
    (hvalues : ∀ entry ∈ entries, entry.2.Keyed)
    (h : claim checks kept .unlimited met rest (Reading.ofJson.ofEntries entries)
      = .ok (found, left)) :
    left = rest ++ entries.filter fun entry => entry.1 ∉ checks.map Prod.fst := by
  induction entries generalizing met rest with
  | nil =>
      obtain ⟨rfl, rfl⟩ := Prod.mk.inj (Except.ok.inj h)
      exact (List.append_nil rest).symm
  | cons entry entries ih =>
      have hothers : ∀ other ∈ entries, other.2.Keyed := fun other hother =>
        hvalues other (List.mem_cons_of_mem _ hother)
      rcases claim_cons_eq_ok.1 h with ⟨check, hcheck, -, -, h⟩ | ⟨hnone, value, hvalue, h⟩
      · have hclaimed : entry.1 ∈ checks.map Prod.fst := by
          by_contra hmem
          cases (lookup_eq_none_iff_not_mem.2 hmem).symm.trans hcheck
        rw [List.filter_cons_of_neg (by simpa using hclaimed)]
        refine ih rest (hkeys.sublist ?_) hothers h
        exact ((List.sublist_cons_self entry entries).append_left rest).map Prod.fst
      · have hunclaimed := lookup_eq_none_iff_not_mem.1 hnone
        obtain ⟨read, hread, rfl⟩ := map_eq_ok.1 hvalue
        obtain rfl : entry.2 = read := Except.ok.inj
          ((Decoder.json_ofJson (hvalues entry List.mem_cons_self)).symm.trans hread)
        rw [List.filter_cons_of_pos (by simpa using hunclaimed)]
        rw [Option.elim_some, Fields.insert_eq_concat hkeys] at h
        rw [ih _ (by simpa using hkeys) hothers h, List.append_assoc, List.singleton_append]

/-- What is kept has distinct keys, none of them the name of a field. -/
theorem unclaimed_claim {entries : List (Option String × Reading)} (hrest : rest.Keyed)
    (hnames : ∀ key ∈ rest.keys, key ∉ checks.map Prod.fst)
    (h : claim checks kept room met rest entries = .ok (found, left)) :
    left.Keyed ∧ ∀ key ∈ left.keys, key ∉ checks.map Prod.fst := by
  induction entries generalizing met rest with
  | nil =>
      obtain ⟨rfl, rfl⟩ := Prod.mk.inj (Except.ok.inj h)
      exact ⟨hrest, hnames⟩
  | cons entry entries ih =>
      match entry with
      | (none, _) => cases h
      | (some key, r) =>
          rcases claim_cons_eq_ok.1 h with ⟨_, -, -, -, h⟩ | ⟨hnone, value, hvalue, h⟩
          · exact ih hrest hnames h
          · obtain ⟨read, hread, rfl⟩ := map_eq_ok.1 hvalue
            refine ih (hrest.insert key (Decoder.keyed_of_json hread)) (fun other hother => ?_) h
            obtain ⟨kept, hkept, rfl⟩ := List.mem_map.1 hother
            rcases Fields.mem_insert hkept with rfl | hkept
            · exact lookup_eq_none_iff_not_mem.1 hnone
            · exact hnames _ (List.mem_map_of_mem hkept)

end Claim

/-! ## §2. Structures. -/

/-- Structures are written as entries that spell them. -/
def Writes (record : Record β) (write : β → Json) : Prop :=
  ∀ ⦃room find b⦄, record.build room find = .ok b →
    ∃ written, record.Spells written b ∧ write b = .obj written

/-- **A structure that is written as entries that spell it is read again.** -/
theorem rereads_decoder {record : Record β} {write : β → Json} (hnames : record.names.Nodup)
    (h : record.Writes write) : record.decoder.Rereads write := by
  intro room r b hread
  obtain ⟨_, _, hbuild⟩ := build_of_decoder hread
  obtain ⟨written, hspells, hwrite⟩ := h hbuild
  have hclaim : claim record.checks skipped .unlimited [] []
      (Reading.ofJson.ofEntries written ++ []) = .ok _ :=
    claim_claimed (hspells.keys.nodup hnames) hspells.checked rfl
  rw [List.append_nil] at hclaim
  rw [hwrite]
  exact bind_eq_ok.2 ⟨_, hclaim, hspells.built _ fun name hname => lookup_claim hclaim hname⟩

/-- What a structure keeps of other entries is written behind those that spell
it. -/
def WritesRest (record : Record (Fields → β)) (write : β → Json) (extra : β → Fields) : Prop :=
  ∀ ⦃room find make⦄, record.build room find = .ok make → ∃ written, record.Spells written make
    ∧ ∀ rest, write (make rest) = .obj (written ++ rest) ∧ extra (make rest) = rest

/-- **So is one that keeps other entries.** -/
theorem rereads_decoderWithRest {record : Record (Fields → β)} {write : β → Json}
    {extra : β → Fields} (hnames : record.names.Nodup) (h : record.WritesRest write extra) :
    record.decoderWithRest.Rereads write := by
  intro room r b hread
  unfold decoderWithRest at hread
  split at hread
  · obtain ⟨⟨met, rest⟩, hkept, hread⟩ := bind_eq_ok.1 hread
    dsimp only at hread
    split at hread
    · obtain ⟨make, hmake, hread⟩ := bind_eq_ok.1 hread
      obtain rfl := Except.ok.inj hread
      obtain ⟨written, hspells, hwrite⟩ := h hmake
      obtain ⟨hrest, hunclaimed⟩ := unclaimed_claim Fields.keyed_nil
        (fun _ hnone => nomatch hnone) hkept
      -- The fields are claimed first; what was kept follows them and is kept again.
      have hclaim : claim record.checks kept .unlimited [] []
          (Reading.ofJson.ofEntries written ++ Reading.ofJson.ofEntries rest) = .ok (_, rest) :=
        claim_claimed (hspells.keys.nodup hnames) hspells.checked <|
          claim_kept [] hrest.nodup (fun _ => hrest.value) fun entry hentry =>
            lookup_eq_none_iff_not_mem.2 (hunclaimed _ (List.mem_map_of_mem hentry))
      rw [← Reading.ofEntries_append] at hclaim
      rw [(hwrite rest).1]
      refine bind_eq_ok.2 ⟨_, hclaim, bind_eq_ok.2
        ⟨make, hspells.built _ fun name hname => ?_, rfl⟩⟩
      have hother : rest.lookup name = none :=
        Fields.lookup_eq_none_iff.2 fun hmem => hunclaimed name hmem hname
      rw [lookup_claim hclaim hname, List.lookup_append, hother, Option.or_none]
      rfl
    · cases hread
  · cases hread

end Record

/-! ## §3. What is found, and what is kept. -/

/-- The value that stands for a field: under its name, or in its place. -/
def Json.given (names : List String) (name : String) : Json → Option Json
  | .obj entries => entries.lookup name
  | .arr items => (names.zip items).lookup name
  | _ => none

/-- The entries under other names. -/
def Json.unknown (names : List String) : Json → Fields
  | .obj entries => entries.filter fun entry => entry.1 ∉ names
  | _ => []

theorem Json.Keyed.given {value found : Json} {names : List String} {name : String}
    (h : value.Keyed) (hfound : value.given names name = some found) : found.Keyed := by
  cases h with
  | null | bool | num | str => cases hfound
  | arr hitems => exact hitems _ (List.of_mem_zip (Fields.mem_of_lookup hfound)).2
  | obj hkeys hvalues => exact hvalues _ (Fields.mem_of_lookup hfound)

theorem Reading.lookup_zip_ofItems (names : List String) (items : List Json) (name : String) :
    (names.zip (ofJson.ofItems items)).lookup name
      = ((names.zip items).lookup name).map ofJson := by
  induction names generalizing items with
  | nil => rfl
  | cons first names ih =>
      cases items with
      | nil => rfl
      | cons item items =>
          rw [ofJson.ofItems, List.zip_cons_cons, List.zip_cons_cons, List.lookup_cons,
            List.lookup_cons]
          split
          · rfl
          · exact ih items

namespace Record

variable {β : Type} {value : Json} {b : β}

/-- **A record finds what stands for its fields.** -/
theorem build_of_ofJson {record : Record β} (h : record.decoder.ofJson value = .ok b) :
    ∃ find, record.build .unlimited find = .ok b
      ∧ ∀ name ∈ record.names, find name = (value.given record.names name).map .ofJson := by
  cases value with
  | null | bool | num | str => cases h
  | arr items =>
      obtain ⟨_, -, h⟩ := bind_eq_ok.1 h
      exact ⟨_, mapError_eq_ok.1 h, fun name _ => Reading.lookup_zip_ofItems _ _ _⟩
  | obj entries =>
      obtain ⟨⟨met, rest⟩, hclaim, h⟩ := bind_eq_ok.1 h
      exact ⟨_, h, fun name hname => lookup_claim hclaim hname⟩

/-- **A record that keeps other entries keeps those under other names**, in their
order. -/
theorem build_of_ofJson_rest {record : Record (Fields → β)} (hvalue : value.Keyed)
    (h : record.decoderWithRest.ofJson value = .ok b) :
    ∃ find make, record.build .unlimited find = .ok make
      ∧ make (value.unknown record.names) = b := by
  cases hvalue with
  | null | bool | num | str | arr => cases h
  | obj hkeys hvalues =>
      obtain ⟨⟨met, rest⟩, hclaim, h⟩ := bind_eq_ok.1 h
      obtain ⟨make, hmake, h⟩ := bind_eq_ok.1 h
      obtain rfl := rest_claim [] hkeys hvalues hclaim
      exact ⟨_, make, hmake, Except.ok.inj h⟩

/-- What a structure that keeps other entries keeps of the value it is read
from. -/
structure Keeps (record : Record (Fields → β)) (write : β → Json) (extra : β → Fields)
    (value : Json) (b : β) : Prop where
  read : record.decoderWithRest.ofJson value = .ok b
  /-- It is read again as it is written. -/
  reread : record.decoderWithRest.ofJson (write b) = .ok b
  /-- The entries under other names, in their order. -/
  kept : extra b = value.unknown record.names
  /-- They are all that is written under other names. -/
  written : (write b).unknown record.names = extra b
  /-- No field is among them. -/
  foreign : ∀ name ∈ record.names, name ∉ (extra b).keys

theorem keeps_of_ofJson {record : Record (Fields → β)} {write : β → Json} {extra : β → Fields}
    (hnames : record.names.Nodup) (h : record.WritesRest write extra) (hvalue : value.Keyed)
    (hread : record.decoderWithRest.ofJson value = .ok b) : record.Keeps write extra value b := by
  obtain ⟨find, make, hmake, hb⟩ := build_of_ofJson_rest hvalue hread
  obtain ⟨written, hspells, hwrite⟩ := h hmake
  obtain ⟨hjson, hextra⟩ := hwrite (value.unknown record.names)
  rw [hb] at hjson hextra
  have hforeign : ∀ entry ∈ value.unknown record.names, entry.1 ∉ record.names := by
    cases value with
    | obj entries => exact fun entry hentry => of_decide_eq_true (List.mem_filter.1 hentry).2
    | null | bool | num | str | arr => exact fun _ hnone => nomatch hnone
  refine ⟨hread, rereads_decoderWithRest hnames h hread, hextra, ?_, ?_⟩
  · rw [hjson, hextra, Json.unknown, List.filter_append, List.filter_eq_nil_iff.2,
      List.filter_eq_self.2, List.nil_append]
    · exact fun entry hentry => decide_eq_true (hforeign entry hentry)
    · intro entry hentry
      rw [decide_eq_true_eq, not_not]
      exact hspells.keys.subset (List.mem_map_of_mem hentry)
  · rw [hextra]
    intro name hname hmem
    obtain ⟨entry, hentry, rfl⟩ := List.mem_map.1 hmem
    exact hforeign entry hentry hname

end Record

/-- The items that stand for a field; none where it is left out. -/
def Json.listed (names : List String) (name : String) (value : Json) : List Json :=
  ((value.given names name).bind arr?).getD []

theorem Json.Keyed.listed {value : Json} {names : List String} {name : String} (h : value.Keyed) :
    ∀ item ∈ value.listed names name, item.Keyed := by
  unfold Json.listed
  cases hfound : value.given names name with
  | none => exact fun _ hnone => nomatch hnone
  | some found =>
      cases h.given hfound with
      | arr hitems => exact hitems
      | null | bool | num | str | obj => exact fun _ hnone => nomatch hnone

/-- **Each item of a list is read from the one in its place.** -/
theorem Record.forall₂_of_list {β : Type} {d : Decoder β} {names : List String} {name : String}
    {value : Json} {find : String → Option Reading} {found : List β}
    (hfind : find name = (value.given names name).map .ofJson)
    (h : (defaulted name d.list []).build .unlimited find = .ok found) :
    List.Forall₂ (fun item b => d.ofJson item = .ok b) (value.listed names name) found := by
  unfold defaulted at h
  dsimp only at h
  rw [hfind] at h
  unfold Json.listed
  cases hvalue : value.given names name with
  | none =>
      rw [hvalue] at h
      obtain rfl := Except.ok.inj h
      exact .nil
  | some list =>
      rw [hvalue] at h
      cases list with
      | null | bool | num | str | obj => cases h
      | arr items =>
          obtain ⟨read, hread, hclosed⟩ := bind_eq_ok.1 h
          obtain rfl := Except.ok.inj hclosed
          exact Decoder.mapM_ofItems_eq_ok.1 hread

end WorkflowEditor
