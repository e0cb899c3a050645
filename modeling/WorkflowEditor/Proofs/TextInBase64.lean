/-
  WorkflowEditor.Proofs.TextInBase64
  ──────────────────────────────────
  **A TEXT THAT IS STORED IN BASE64 READS BACK.**

  Three octets make four digits, which name the six bits that each of them
  stands for; what fills the last group names none:

    • `value?_digit`, `digit_of_value?` — a digit has the value that it was
      made of, and no other digit has it,
    • `decode?_encode` — octets that are encoded are decoded again,
    • `encode_of_decode?` — what is decoded was encoded so: each sequence of
      octets has one spelling,
    • `Codec.decodedText?_encodedText` — a text reads back.
-/
import WorkflowEditor.Node.Codec
import Mathlib.Logic.Basic

namespace WorkflowEditor

namespace Base64

/-! ## §1. Digits. -/

theorem value?_digit {n : Nat} (h : n < 64) : value? (digit n) = some n := by
  have hall : ∀ n < 64, value? (digit n) = some n := by decide +kernel
  exact hall n h

theorem digit_ne_fill {n : Nat} (h : n < 64) : digit n ≠ '=' := by
  have hall : ∀ n < 64, digit n ≠ '=' := by decide +kernel
  exact hall n h

theorem length_alphabet : alphabet.length = 64 := by decide +kernel

/-- A value names the digit that it was read off. -/
theorem digit_of_value? {c : Char} {n : Nat} (h : value? c = some n) : n < 64 ∧ digit n = c := by
  obtain ⟨hlt, hget, -⟩ := List.idxOf?_eq_some_iff.1 h
  refine ⟨length_alphabet ▸ hlt, ?_⟩
  unfold digit
  rw [List.getD_eq_getElem?_getD, List.getElem?_eq_getElem hlt, hget]
  rfl

/-- An octet holds every number below 256.  The bound is told as a number, since
`omega` does not look into `UInt8.size`. -/
theorem toNat_ofNat {n : Nat} (h : n < 256) : (UInt8.ofNat n).toNat = n :=
  UInt8.toNat_ofNat_of_lt' h

/-! ## §2. Groups. -/

/-- **Octets that are encoded are decoded again.** -/
theorem decode?_encode (bytes : List UInt8) : decode? (encode bytes) = some bytes := by
  induction bytes using encode.induct with
  | case1 => rfl
  | case2 a =>
      have ha : a.toNat < 256 := a.toNat_lt
      show decodeFilled (digit (a.toNat * 16 / 64)) (digit (a.toNat * 16 % 64)) '=' = some [a]
      unfold decodeFilled
      rw [value?_digit (by omega), value?_digit (by omega)]
      dsimp only [bind, Option.bind]
      rw [if_pos rfl, if_pos (by omega)]
      exact congrArg (fun a => some [a]) ((UInt8.ofNat_eq_iff_mod_eq_toNat _ a).2 (by omega))
  | case3 a b =>
      have ha : a.toNat < 256 := a.toNat_lt
      have hb : b.toNat < 256 := b.toNat_lt
      let n := (a.toNat * 256 + b.toNat) * 4
      show decodeFilled (digit (n / 4096)) (digit (n / 64 % 64)) (digit (n % 64)) = some [a, b]
      unfold decodeFilled
      rw [value?_digit (by omega), value?_digit (by omega), value?_digit (by omega)]
      dsimp only [bind, Option.bind]
      rw [if_neg (digit_ne_fill (by omega)), if_pos (by omega)]
      exact congrArg₂ (fun a b => some [a, b]) ((UInt8.ofNat_eq_iff_mod_eq_toNat _ a).2 (by omega))
        ((UInt8.ofNat_eq_iff_mod_eq_toNat _ b).2 (by omega))
  | case4 a b c rest ih =>
      have ha : a.toNat < 256 := a.toNat_lt
      have hb : b.toNat < 256 := b.toNat_lt
      have hc : c.toNat < 256 := c.toNat_lt
      let n := (a.toNat * 256 + b.toNat) * 256 + c.toNat
      show decode? (digit (n / 262144) :: digit (n / 4096 % 64) :: digit (n / 64 % 64)
        :: digit (n % 64) :: encode rest) = some (a :: b :: c :: rest)
      have hsum : n / 262144 * 262144 + n / 4096 % 64 * 4096 + n / 64 % 64 * 64 + n % 64 = n := by
        omega
      have ha' : UInt8.ofNat (n / 65536) = a :=
        (UInt8.ofNat_eq_iff_mod_eq_toNat _ a).2 (by omega)
      have hb' : UInt8.ofNat (n / 256 % 256) = b :=
        (UInt8.ofNat_eq_iff_mod_eq_toNat _ b).2 (by omega)
      have hc' : UInt8.ofNat (n % 256) = c :=
        (UInt8.ofNat_eq_iff_mod_eq_toNat _ c).2 (by omega)
      rw [decode?, value?_digit (by omega), value?_digit (by omega), value?_digit (by omega),
        value?_digit (by omega), ih]
      · dsimp only [bind, Option.bind]
        rw [hsum, ha', hb', hc']
        rfl
      · -- The last digit fills nothing, so the group is not taken for the last one.
        exact fun h _ => digit_ne_fill (by omega) h

/-- A last group that is decoded is what its octets are encoded to. -/
theorem encode_of_decodeFilled {a b c : Char} {bytes : List UInt8}
    (h : decodeFilled a b c = some bytes) : encode bytes = [a, b, c, '='] := by
  unfold decodeFilled at h
  obtain ⟨x, hx, hbehind⟩ := Option.bind_eq_some_iff.1 h
  obtain ⟨y, hy, hoctets⟩ := Option.bind_eq_some_iff.1 hbehind
  obtain ⟨hx64, rfl⟩ := digit_of_value? hx
  obtain ⟨hy64, rfl⟩ := digit_of_value? hy
  split at hoctets
  · rename_i hfill
    subst hfill
    split at hoctets
    · rename_i hclean
      obtain rfl := Option.some.inj hoctets
      have hoctet : (UInt8.ofNat (x * 4 + y / 16)).toNat = x * 4 + y / 16 := toNat_ofNat (by omega)
      have hhigh : (x * 4 + y / 16) * 16 / 64 = x := by omega
      have hlow : (x * 4 + y / 16) * 16 % 64 = y := by omega
      simp only [encode, hoctet, hhigh, hlow]
    · cases hoctets
  · obtain ⟨z, hz, hpair⟩ := Option.bind_eq_some_iff.1 hoctets
    obtain ⟨hz64, rfl⟩ := digit_of_value? hz
    split at hpair
    · rename_i hclean
      obtain rfl := Option.some.inj hpair
      let n := x * 1024 + y * 16 + z / 4
      have hfirst : (UInt8.ofNat (n / 256)).toNat = n / 256 := toNat_ofNat (by omega)
      have hsecond : (UInt8.ofNat (n % 256)).toNat = n % 256 := toNat_ofNat (by omega)
      have hsum : (n / 256 * 256 + n % 256) * 4 = n * 4 := by omega
      have hhigh : n * 4 / 4096 = x := by omega
      have hmiddle : n * 4 / 64 % 64 = y := by omega
      have hlow : n * 4 % 64 = z := by omega
      show encode [UInt8.ofNat (n / 256), UInt8.ofNat (n % 256)] = _
      simp only [encode, hfirst, hsecond, hsum, hhigh, hmiddle, hlow]
    · cases hpair

/-- **What is decoded is what its octets are encoded to**: no text but the
one that encoding writes is read. -/
theorem encode_of_decode? {cs : List Char} {bytes : List UInt8} (h : decode? cs = some bytes) :
    encode bytes = cs := by
  induction cs using decode?.induct generalizing bytes with
  | case1 =>
      obtain rfl := Option.some.inj h
      rfl
  | case2 a b c => exact encode_of_decodeFilled h
  | case3 a b c d rest hlast ih =>
      rw [decode?] at h
      · simp only [Option.bind_eq_bind, Option.bind_eq_some_iff] at h
        obtain ⟨x, hx, y, hy, z, hz, w, hw, more, hmore, hgroup⟩ := h
        obtain rfl := Option.some.inj hgroup
        obtain ⟨hx64, rfl⟩ := digit_of_value? hx
        obtain ⟨hy64, rfl⟩ := digit_of_value? hy
        obtain ⟨hz64, rfl⟩ := digit_of_value? hz
        obtain ⟨hw64, rfl⟩ := digit_of_value? hw
        -- The octets together are the number that the digits make, and so are cut up the same way.
        let n := x * 262144 + y * 4096 + z * 64 + w
        have hfirst : (UInt8.ofNat (n / 65536)).toNat = n / 65536 := toNat_ofNat (by omega)
        have hsecond : (UInt8.ofNat (n / 256 % 256)).toNat = n / 256 % 256 := toNat_ofNat (by omega)
        have hthird : (UInt8.ofNat (n % 256)).toNat = n % 256 := toNat_ofNat (by omega)
        have hsum : (n / 65536 * 256 + n / 256 % 256) * 256 + n % 256 = n := by omega
        have hx' : n / 262144 = x := by omega
        have hy' : n / 4096 % 64 = y := by omega
        have hz' : n / 64 % 64 = z := by omega
        have hw' : n % 64 = w := by omega
        show encode (UInt8.ofNat (n / 65536) :: UInt8.ofNat (n / 256 % 256)
          :: UInt8.ofNat (n % 256) :: more) = _
        rw [encode, hfirst, hsecond, hthird, hsum, hx', hy', hz', hw', ih hmore]
      · exact hlast
  | case4 cs hnil hlast hgroup =>
      rw [decode?] at h
      · cases h
      · exact hnil
      · exact hlast
      · exact hgroup

end Base64

/-! ## §3. Texts. -/

theorem toList_loop (bytes : ByteArray) (i : Nat) (read : List UInt8) :
    ByteArray.toList.loop bytes i read = read.reverse ++ bytes.data.toList.drop i := by
  fun_induction ByteArray.toList.loop bytes i read with
  | case1 i read h ih =>
      have hi : i < bytes.data.toList.length := h
      have hget : bytes.get! i = bytes.data.toList[i] := getElem!_pos bytes.data i h
      rw [ih, List.drop_eq_getElem_cons hi, List.reverse_cons, List.append_assoc, hget]
      rfl
  | case2 i read h =>
      have hi : bytes.data.toList.length ≤ i := Nat.le_of_not_lt h
      rw [List.drop_eq_nil_of_le hi, List.append_nil]

theorem strict?_toUTF8 (text : String) : Utf8.strict? text.toUTF8.toList = some text := by
  have hbytes : (⟨text.toUTF8.toList.toArray⟩ : ByteArray) = text.toUTF8 := by
    unfold ByteArray.toList
    rw [toList_loop]
    rfl
  unfold Utf8.strict?
  rw [hbytes]
  exact dif_pos text.isValidUTF8

/-- The text that stands for a text. -/
def Codec.encodedText (text : String) : String :=
  String.ofList (Base64.encode text.toUTF8.toList)

/-- **A text that is stored in base64 reads back.** -/
theorem Codec.decodedText?_encodedText (text : String) :
    decodedText? (encodedText text) = some text := by
  unfold decodedText? encodedText
  rw [String.toList_ofList, Base64.decode?_encode, Option.bind_some, strict?_toUTF8]

end WorkflowEditor
