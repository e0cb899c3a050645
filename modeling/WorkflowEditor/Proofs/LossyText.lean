/-
  WorkflowEditor.Proofs.LossyText
  ───────────────────────────────
  **WHAT FAULTY UTF-8 READS AS.**

  The decoder of `WorkflowEditor.Text.Utf8` goes by tables of octets.  Here
  it is held to the encoding of characters alone: `Reads bytes cs` says
  that the octets are encodings of characters and, between them, pieces
  that are invalid and as long as they can be, each of which stands as one
  U+FFFD.

    • `decode_append` — what was held back is taken up by the next piece,
      so it does not matter where octets are cut,
    • `reads_lossy` — the decoder reads octets in this way,
    • `Reads.eq_lossy` — and there is no other way to read them.
-/
import WorkflowEditor.Text.Utf8
import Mathlib.Data.List.Infix

namespace WorkflowEditor.Utf8

/-! ## §1. Reading, by the encoding of characters. -/

/-- Octets with which the encoding of some character begins. -/
def Begins (bytes : List UInt8) : Prop :=
  ∃ c, bytes <+: String.utf8EncodeChar c

/-- A piece, with `rest` behind it, that is invalid and as long as it can
be: no character stands there, the piece is the beginning of one or else a
single octet, and with more octets it would begin none. -/
structure InvalidPiece (piece rest : List UInt8) : Prop where
  no_char : ∀ c, ¬ String.utf8EncodeChar c <+: piece ++ rest
  nonempty : piece ≠ []
  beginning : Begins piece ∨ piece.length = 1
  longest : ∀ longer, longer <+: piece ++ rest → Begins longer →
    longer.length ≤ piece.length

/-- The characters that octets stand for, each invalid piece being one
U+FFFD. -/
inductive Reads : List UInt8 → List Char → Prop
  | nil : Reads [] []
  | char {rest : List UInt8} {cs : List Char} (c : Char) :
      Reads rest cs → Reads (String.utf8EncodeChar c ++ rest) (c :: cs)
  | invalid {piece rest : List UInt8} {cs : List Char} :
      InvalidPiece piece rest → Reads rest cs →
        Reads (piece ++ rest) (replacement :: cs)

/-! ## §2. More octets change nothing but what is cut. -/

/-- What octets begin with when more octets follow. -/
def Front.extend (more : List UInt8) : Front → Front
  | .char c rest => .char c (rest ++ more)
  | .invalid rest => .invalid (rest ++ more)
  | .cut => .cut

/-- More bytes change nothing once it is clear what stands in front. -/
theorem Head.front_append {head : Head} {bytes : List UInt8} (more : List UInt8)
    (h : head.front bytes ≠ .cut) :
    head.front (bytes ++ more) = (head.front bytes).extend more := by
  -- The head takes up an octet at each step, so it has to be free.
  induction bytes generalizing head with
  | nil => exact absurd rfl h
  | cons b bytes ih =>
      rw [Head.front] at h
      rw [List.cons_append, Head.front, Head.front]
      split
      · split
        · rfl
        · rename_i hb hm
          rw [if_pos hb, if_neg hm] at h
          exact ih h
      · rfl

theorem front_cons (b : UInt8) (bytes : List UInt8) :
    front (b :: bytes)
      = if b.toNat ≤ 0x7F then .char (Char.ofNat b.toNat) bytes
        else
          match head? b.toNat with
          | some head => head.front bytes
          | none => .invalid bytes := rfl

/-- So a character that is there can be read before the rest has come. -/
theorem front_append {bytes : List UInt8} (more : List UInt8) (h : front bytes ≠ .cut) :
    front (bytes ++ more) = (front bytes).extend more := by
  cases bytes with
  | nil => exact absurd rfl h
  | cons b bytes =>
      rw [front_cons] at h
      rw [List.cons_append, front_cons, front_cons]
      split
      · rfl
      · rename_i hb
        rw [if_neg hb] at h
        cases hd : head? b.toNat with
        | none => rfl
        | some head =>
            rw [hd] at h
            exact Head.front_append more h

theorem Front.read?_eq_none {f : Front} : f.read? = none ↔ f = .cut := by
  cases f <;> simp [Front.read?]

theorem Front.read?_extend {f : Front} {c : Char} {rest : List UInt8}
    (more : List UInt8) (h : f.read? = some (c, rest)) :
    (f.extend more).read? = some (c, rest ++ more) := by
  cases f <;> simp_all [Front.read?, Front.extend]

/-! ## §3. Decoding piece by piece. -/

/-- A character that is cut off is held back. -/
theorem decode_of_cut {bytes : List UInt8} (h : front bytes = .cut) :
    decode bytes = ([], bytes) := by
  rw [decode]
  split
  · rename_i heq
    rw [h] at heq
    cases heq
  · rfl

theorem decode_of_read {bytes rest : List UInt8} {c : Char}
    (h : (front bytes).read? = some (c, rest)) :
    decode bytes = (c :: (decode rest).1, (decode rest).2) := by
  rw [decode]
  split
  · rename_i heq
    rw [h] at heq
    cases heq
    rfl
  · rename_i heq
    rw [h] at heq
    cases heq

/-- **What is held back is taken up by the next piece.** -/
theorem decode_append (xs ys : List UInt8) :
    decode (xs ++ ys)
      = ((decode xs).1 ++ (decode ((decode xs).2 ++ ys)).1,
          (decode ((decode xs).2 ++ ys)).2) := by
  induction xs using decode.induct with
  | case1 xs c rest h ih =>
      -- What is not cut is read in the same way whatever follows.
      have hcut : front xs ≠ .cut := by
        intro hc
        rw [hc] at h
        cases h
      have happ : (front (xs ++ ys)).read? = some (c, rest ++ ys) := by
        rw [front_append ys hcut]
        exact Front.read?_extend ys h
      rw [decode_of_read happ, decode_of_read h, ih]
      rfl
  | case2 xs h =>
      -- Nothing is read yet: the next piece begins with all that is there.
      rw [decode_of_cut (Front.read?_eq_none.1 h)]
      rfl

/-- What is held back is the head of a character, or nothing. -/
theorem front_held (bytes : List UInt8) : front (decode bytes).2 = .cut := by
  induction bytes using decode.induct with
  | case1 bytes c rest h ih =>
      rw [decode_of_read h]
      exact ih
  | case2 bytes h =>
      have hcut := Front.read?_eq_none.1 h
      rw [decode_of_cut hcut]
      exact hcut

/-! ## §4. The encoding of a character is read as that character. -/

/-- The last octet of a character. -/
theorem Head.front_last {bits least greatest n : Nat} {b : UInt8} {rest : List UInt8}
    (hb : least ≤ b.toNat ∧ b.toNat ≤ greatest) (hn : n = bits * 64 + (b.toNat - 0x80)) :
    Head.front ⟨bits, 1, least, greatest⟩ (b :: rest) = .char (Char.ofNat n) rest := by
  rw [hn, Head.front, if_pos hb]
  rfl

/-- A byte in the middle adds its six bits. -/
theorem Head.front_more {bits missing least greatest n : Nat} {b : UInt8} {rest : List UInt8}
    (hb : least ≤ b.toNat ∧ b.toNat ≤ greatest) (hn : n = bits * 64 + (b.toNat - 0x80)) :
    Head.front ⟨bits, missing + 2, least, greatest⟩ (b :: rest)
      = Head.front ⟨n, missing + 1, 0x80, 0xBF⟩ rest := by
  rw [hn, Head.front, if_pos hb]
  rfl

theorem front_of_head {b : UInt8} {rest : List UInt8} {head : Head} (hb : 0x7F < b.toNat)
    (h : head? b.toNat = some head) : front (b :: rest) = head.front rest := by
  rw [front_cons, if_neg (Nat.not_le.2 hb), h]

/-- The octet that carries six bits behind the first one. -/
theorem toNat_tail (n : Nat) : (UInt8.ofNat (n % 0x40 + 0x80)).toNat = n % 64 + 0x80 :=
  UInt8.toNat_ofNat_of_lt' (show n % 0x40 + 0x80 < 256 by omega)

theorem head?_two {n : Nat} (h : 0x7F < n) (h' : n ≤ 0x7FF) :
    head? (n / 64 % 0x20 + 0xC0) = some ⟨n / 64, 1, 0x80, 0xBF⟩ := by
  rw [show n / 64 % 0x20 = n / 64 by omega]
  unfold head?
  rw [if_pos (by omega), Nat.add_sub_cancel]

/-- The bounds for the byte behind a head of three exclude short numbers and
surrogates. -/
theorem head?_three {n : Nat} (h : 0x7FF < n) (h' : n ≤ 0xFFFF)
    (hv : n < 0xD800 ∨ 0xDFFF < n) :
    ∃ least greatest, head? (n / 4096 % 0x10 + 0xE0) = some ⟨n / 4096, 2, least, greatest⟩
      ∧ least ≤ n / 64 % 64 + 0x80 ∧ n / 64 % 64 + 0x80 ≤ greatest := by
  rw [show n / 4096 % 0x10 = n / 4096 by omega]
  unfold head?
  rw [if_neg (by omega)]
  -- Behind `E0` stands no octet that two would do for, behind `ED` no surrogate.
  split
  · exact ⟨_, _, by rw [show n / 4096 = 0 by omega], by omega, by omega⟩
  split
  · exact ⟨_, _, by rw [show n / 4096 = 0xD by omega], by omega, by omega⟩
  rw [if_pos (by omega), Nat.add_sub_cancel]
  exact ⟨_, _, rfl, by omega, by omega⟩

/-- The bounds for the byte behind a head of four exclude short numbers and
those that are too great. -/
theorem head?_four {n : Nat} (h : 0xFFFF < n) (h' : n < 0x110000) :
    ∃ least greatest, head? (n / 262144 % 0x08 + 0xF0) = some ⟨n / 262144, 3, least, greatest⟩
      ∧ least ≤ n / 4096 % 64 + 0x80 ∧ n / 4096 % 64 + 0x80 ≤ greatest := by
  rw [show n / 262144 % 0x08 = n / 262144 by omega]
  unfold head?
  rw [if_neg (by omega), if_neg (by omega), if_neg (by omega), if_neg (by omega)]
  -- Behind `F0` stands no octet that three would do for, behind `F4` none past the last character.
  split
  · exact ⟨_, _, by rw [show n / 262144 = 0 by omega], by omega, by omega⟩
  split
  · rw [Nat.add_sub_cancel]
    exact ⟨_, _, rfl, by omega, by omega⟩
  rw [if_pos (by omega)]
  exact ⟨_, _, by rw [show n / 262144 = 4 by omega], by omega, by omega⟩

/-- **An encoded character is read as that character.** -/
theorem front_encode (c : Char) (more : List UInt8) :
    front (String.utf8EncodeChar c ++ more) = .char c more := by
  obtain ⟨n, hn⟩ : ∃ n, n = c.toNat := ⟨_, rfl⟩
  have hv : n < 0xD800 ∨ (0xDFFF < n ∧ n < 0x110000) := hn ▸ c.valid
  rw [← Char.ofNat_toNat c, ← hn]
  have hval : (Char.ofNat n).val.toNat = n := by
    rw [hn, Char.ofNat_toNat]
    rfl
  unfold String.utf8EncodeChar
  rw [hval]
  dsimp only
  -- The cases are those of the encoding: one octet, two, three and four.
  split
  · have h0 : (UInt8.ofNat n).toNat = n := UInt8.toNat_ofNat_of_lt' (show n < 256 by omega)
    show front (UInt8.ofNat n :: more) = _
    rw [front_cons, h0, if_pos ‹_›]
  split
  · have h0 := UInt8.toNat_ofNat_of_lt' (show n / 64 % 0x20 + 0xC0 < 256 by omega)
    have hd := head?_two (show 0x7F < n by omega) ‹_›
    rw [← h0] at hd
    exact (front_of_head (by omega) hd).trans
      (Head.front_last (by rw [toNat_tail]; omega) (by rw [toNat_tail]; omega))
  split
  · have h0 := UInt8.toNat_ofNat_of_lt' (show n / 4096 % 0x10 + 0xE0 < 256 by omega)
    obtain ⟨_, _, hd, hb⟩ := head?_three (show 0x7FF < n by omega) ‹_› (by omega)
    rw [← h0] at hd
    exact (front_of_head (by omega) hd).trans
      ((Head.front_more (by rw [toNat_tail]; exact hb) rfl).trans
        (Head.front_last (by rw [toNat_tail]; omega) (by rw [toNat_tail, toNat_tail]; omega)))
  · have h0 := UInt8.toNat_ofNat_of_lt' (show n / 262144 % 0x08 + 0xF0 < 256 by omega)
    obtain ⟨_, _, hd, hb⟩ := head?_four (show 0xFFFF < n by omega) (by omega)
    rw [← h0] at hd
    exact (front_of_head (by omega) hd).trans
      ((Head.front_more (by rw [toNat_tail]; exact hb) rfl).trans
        ((Head.front_more (by rw [toNat_tail]; omega) rfl).trans
          (Head.front_last (by rw [toNat_tail]; omega)
            (by rw [toNat_tail, toNat_tail, toNat_tail]; omega))))

/-! ## §5. What is read as a character is its encoding. -/

/-- The heads, by how many octets are missing. -/
theorem head?_cases {b : Nat} {head : Head} (h : head? b = some head) :
    (head = ⟨b - 0xC0, 1, 0x80, 0xBF⟩ ∧ 0xC2 ≤ b ∧ b ≤ 0xDF)
      ∨ (∃ least greatest, head = ⟨b - 0xE0, 2, least, greatest⟩ ∧ 0xE0 ≤ b ∧ b ≤ 0xEF
          ∧ 0x80 ≤ least ∧ least ≤ greatest ∧ greatest ≤ 0xBF
          ∧ (b = 0xE0 → 0xA0 ≤ least) ∧ (b = 0xED → greatest ≤ 0x9F))
      ∨ (∃ least greatest, head = ⟨b - 0xF0, 3, least, greatest⟩ ∧ 0xF0 ≤ b ∧ b ≤ 0xF4
          ∧ 0x80 ≤ least ∧ least ≤ greatest ∧ greatest ≤ 0xBF
          ∧ (b = 0xF0 → 0x90 ≤ least) ∧ (b = 0xF4 → greatest ≤ 0x8F)) := by
  unfold head? at h
  split at h
  · exact .inl ⟨(Option.some.inj h).symm, by omega⟩
  split at h
  · exact .inr (.inl ⟨_, _, by rw [show b - 0xE0 = 0 by omega]; exact (Option.some.inj h).symm,
      by omega⟩)
  split at h
  · exact .inr (.inl ⟨_, _, by rw [show b - 0xE0 = 0xD by omega]; exact (Option.some.inj h).symm,
      by omega⟩)
  split at h
  · exact .inr (.inl ⟨_, _, (Option.some.inj h).symm, by omega⟩)
  split at h
  · exact .inr (.inr ⟨_, _, by rw [show b - 0xF0 = 0 by omega]; exact (Option.some.inj h).symm,
      by omega⟩)
  split at h
  · exact .inr (.inr ⟨_, _, (Option.some.inj h).symm, by omega⟩)
  split at h
  · exact .inr (.inr ⟨_, _, by rw [show b - 0xF0 = 4 by omega]; exact (Option.some.inj h).symm,
      by omega⟩)
  · cases h

/-- A character that lacks one byte is read with a byte within the bounds. -/
theorem Head.char_last {bits least greatest : Nat} {bytes rest : List UInt8} {c : Char}
    (h : Head.front ⟨bits, 1, least, greatest⟩ bytes = .char c rest) :
    ∃ b, bytes = b :: rest ∧ least ≤ b.toNat ∧ b.toNat ≤ greatest
      ∧ c = Char.ofNat (bits * 64 + (b.toNat - 0x80)) := by
  cases bytes with
  | nil => cases h
  | cons b bytes =>
      rw [Head.front] at h
      split at h
      · rename_i hb
        rw [if_pos (Nat.le_refl 1)] at h
        injection h with hc hr
        exact ⟨b, by rw [hr], hb.1, hb.2, hc.symm⟩
      · cases h

theorem Head.char_more {bits missing least greatest : Nat} {bytes rest : List UInt8}
    {c : Char} (h : Head.front ⟨bits, missing + 2, least, greatest⟩ bytes = .char c rest) :
    ∃ b more, bytes = b :: more ∧ least ≤ b.toNat ∧ b.toNat ≤ greatest
      ∧ Head.front ⟨bits * 64 + (b.toNat - 0x80), missing + 1, 0x80, 0xBF⟩ more
        = .char c rest := by
  cases bytes with
  | nil => cases h
  | cons b bytes =>
      rw [Head.front] at h
      split at h
      · rename_i hb
        rw [if_neg (by simp)] at h
        exact ⟨b, bytes, rfl, hb.1, hb.2, h⟩
      · cases h

theorem val_ofNat {n : Nat} (h : n < 0xD800 ∨ (0xDFFF < n ∧ n < 0x110000)) :
    (Char.ofNat n).val.toNat = n := by
  have hn : n.isValidChar := h
  rw [Char.ofNat, dif_pos hn]
  rfl

theorem encode_one {n : Nat} {a : UInt8} (h : n ≤ 0x7F) (ha : a.toNat = n) :
    String.utf8EncodeChar (Char.ofNat n) = [a] := by
  unfold String.utf8EncodeChar
  rw [val_ofNat (by omega)]
  dsimp only
  rw [if_pos h, ← ha, UInt8.ofNat_toNat]

/-- The two bytes of a character hold five and six of its bits. -/
theorem encode_two {n : Nat} {a b : UInt8} (h : 0x7F < n) (h' : n ≤ 0x7FF)
    (ha : a.toNat = n / 64 + 0xC0) (hb : b.toNat = n % 64 + 0x80) :
    String.utf8EncodeChar (Char.ofNat n) = [a, b] := by
  unfold String.utf8EncodeChar
  rw [val_ofNat (by omega)]
  dsimp only
  rw [if_neg (by omega), if_pos h', ← hb, UInt8.ofNat_toNat,
    (UInt8.ofNat_eq_iff_mod_eq_toNat _ a).2 (by omega)]

theorem encode_three {n : Nat} {a b c : UInt8} (h : 0x7FF < n) (h' : n ≤ 0xFFFF)
    (hv : n < 0xD800 ∨ 0xDFFF < n) (ha : a.toNat = n / 4096 + 0xE0)
    (hb : b.toNat = n / 64 % 64 + 0x80) (hc : c.toNat = n % 64 + 0x80) :
    String.utf8EncodeChar (Char.ofNat n) = [a, b, c] := by
  unfold String.utf8EncodeChar
  rw [val_ofNat (by omega)]
  dsimp only
  rw [if_neg (by omega), if_neg (by omega), if_pos h', ← hb, ← hc, UInt8.ofNat_toNat,
    UInt8.ofNat_toNat, (UInt8.ofNat_eq_iff_mod_eq_toNat _ a).2 (by omega)]

theorem encode_four {n : Nat} {a b c d : UInt8} (h : 0xFFFF < n) (h' : n < 0x110000)
    (ha : a.toNat = n / 262144 + 0xF0) (hb : b.toNat = n / 4096 % 64 + 0x80)
    (hc : c.toNat = n / 64 % 64 + 0x80) (hd : d.toNat = n % 64 + 0x80) :
    String.utf8EncodeChar (Char.ofNat n) = [a, b, c, d] := by
  unfold String.utf8EncodeChar
  rw [val_ofNat (by omega)]
  dsimp only
  rw [if_neg (by omega), if_neg (by omega), if_neg (by omega), ← hb, ← hc, ← hd,
    UInt8.ofNat_toNat, UInt8.ofNat_toNat, UInt8.ofNat_toNat,
    (UInt8.ofNat_eq_iff_mod_eq_toNat _ a).2 (by omega)]

/-- **What is read as a character is its encoding.** -/
theorem eq_encode_of_front {bytes rest : List UInt8} {c : Char}
    (h : front bytes = .char c rest) : bytes = String.utf8EncodeChar c ++ rest := by
  cases bytes with
  | nil => cases h
  | cons a bytes =>
      rw [front_cons] at h
      split at h
      · injection h with hc hr
        rw [← hc, ← hr, encode_one ‹_› rfl]
        rfl
      split at h
      · rename_i head hd
        -- Each octet within its bounds fixes six bits, and the bounds the length of the encoding.
        rcases head?_cases hd with
          ⟨hhead, ha⟩ | ⟨least, greatest, hhead, ha⟩ | ⟨least, greatest, hhead, ha⟩
        · rw [hhead] at h
          obtain ⟨b, rfl, hb, hb', hn⟩ := Head.char_last h
          rw [hn, encode_two (a := a) (b := b) (by omega) (by omega) (by omega) (by omega)]
          rfl
        · rw [hhead] at h
          obtain ⟨b, more, rfl, hb, hb', h⟩ := Head.char_more h
          obtain ⟨c, rfl, hc, hc', hn⟩ := Head.char_last h
          rw [hn, encode_three (a := a) (b := b) (c := c) (by omega) (by omega) (by omega)
            (by omega) (by omega) (by omega)]
          rfl
        · rw [hhead] at h
          obtain ⟨b, more, rfl, hb, hb', h⟩ := Head.char_more h
          obtain ⟨c, more, rfl, hc, hc', h⟩ := Head.char_more h
          obtain ⟨d, rfl, hd, hd', hn⟩ := Head.char_last h
          rw [hn, encode_four (a := a) (b := b) (c := c) (d := d) (by omega) (by omega)
            (by omega) (by omega) (by omega) (by omega)]
          rfl
      · cases h

/-! ## §6. Cut characters and invalid pieces. -/

/-- Some octets complete any head. -/
theorem Head.completes {bits missing least greatest : Nat} (h : least ≤ greatest)
    (h' : greatest ≤ 0xBF) :
    ∃ more c, Head.front ⟨bits, missing + 1, least, greatest⟩ more = .char c [] := by
  have hl : (UInt8.ofNat least).toNat = least :=
    UInt8.toNat_ofNat_of_lt' (show least < 256 by omega)
  -- The least octet that may follow will do; behind it any octet of a tail may.
  induction missing generalizing bits least greatest with
  | zero => exact ⟨[UInt8.ofNat least], _, Head.front_last (by omega) rfl⟩
  | succ missing ih =>
      obtain ⟨more, c, hmore⟩ :
          ∃ more c, Head.front ⟨bits * 64 + (least - 0x80), missing + 1, 0x80, 0xBF⟩ more
            = .char c [] :=
        ih (by omega) (Nat.le_refl 0xBF) rfl
      refine ⟨UInt8.ofNat least :: more, c, ?_⟩
      rw [Head.front_more (by omega) (by rw [hl])]
      exact hmore

theorem Head.completes_of_cut {bits missing least greatest : Nat} {bytes : List UInt8}
    (h : least ≤ greatest) (h' : greatest ≤ 0xBF)
    (hcut : Head.front ⟨bits, missing + 1, least, greatest⟩ bytes = .cut) :
    ∃ more c, Head.front ⟨bits, missing + 1, least, greatest⟩ (bytes ++ more)
      = .char c [] := by
  induction bytes generalizing bits missing least greatest with
  | nil => exact Head.completes h h'
  | cons b bytes ih =>
      by_cases hb : least ≤ b.toNat ∧ b.toNat ≤ greatest
      · cases missing with
        | zero =>
            rw [Head.front_last hb rfl] at hcut
            cases hcut
        | succ missing =>
            rw [Head.front_more hb rfl] at hcut
            obtain ⟨more, c, hmore⟩ := ih (by omega) (by omega) hcut
            exact ⟨more, c, (Head.front_more hb rfl).trans hmore⟩
      · rw [Head.front, if_neg hb] at hcut
        cases hcut

/-- What is cut begins a character. -/
theorem begins_of_cut {bytes : List UInt8} (h : front bytes = .cut) : Begins bytes := by
  cases bytes with
  | nil => exact ⟨'a', List.nil_prefix⟩
  | cons b bytes =>
      rw [front_cons] at h
      split at h
      · cases h
      split at h
      · rename_i hb _ head hd
        have hmore : ∃ more c, head.front (bytes ++ more) = .char c [] := by
          rcases head?_cases hd with ⟨hhead, -⟩ | ⟨_, _, hhead, hl⟩ | ⟨_, _, hhead, hl⟩
          · rw [hhead] at h ⊢
            exact Head.completes_of_cut (by omega) (by omega) h
          · rw [hhead] at h ⊢
            exact Head.completes_of_cut (by omega) (by omega) h
          · rw [hhead] at h ⊢
            exact Head.completes_of_cut (by omega) (by omega) h
        obtain ⟨more, c, hmore⟩ := hmore
        -- The octets that complete it are those that its encoding goes on with.
        refine ⟨c, more, ?_⟩
        have hfront := (front_of_head (Nat.lt_of_not_le hb) hd).trans hmore
        rw [← List.append_nil (String.utf8EncodeChar c), ← eq_encode_of_front hfront]
        rfl
      · cases h

/-- What is invalid begins no character. -/
theorem not_begins_of_invalid {bytes rest : List UInt8} (h : front bytes = .invalid rest) :
    ¬ Begins bytes := by
  rintro ⟨c, more, hc⟩
  -- With the rest of the encoding behind it, it would be invalid and a character.
  have hcut : front bytes ≠ .cut := by rw [h]; simp
  have happ := front_append more hcut
  rw [hc, h, ← List.append_nil (String.utf8EncodeChar c), front_encode] at happ
  cases happ

/-- An invalid piece ends where no head reads on. -/
theorem Head.invalid_split {head : Head} {bytes rest : List UInt8}
    (h : head.front bytes = .invalid rest) :
    ∃ piece, bytes = piece ++ rest ∧ head.front piece = .cut
      ∧ ∀ longer more, bytes = longer ++ more → head.front longer = .cut →
        longer.length ≤ piece.length := by
  induction bytes generalizing head with
  | nil => cases h
  | cons b bytes ih =>
      -- An octet within the bounds belongs to the piece; the first other one ends it.
      by_cases hb : head.least ≤ b.toNat ∧ b.toNat ≤ head.greatest
      · rw [Head.front, if_pos hb] at h
        split at h
        · cases h
        rename_i hm
        obtain ⟨piece, hsplit, hcut, hlongest⟩ := ih h
        refine ⟨b :: piece, by rw [hsplit]; rfl, ?_, ?_⟩
        · rw [Head.front, if_pos hb, if_neg hm]
          exact hcut
        · intro longer more heq hl
          cases longer with
          | nil => exact Nat.zero_le _
          | cons b' longer =>
              obtain ⟨rfl, htail⟩ := List.cons.inj heq
              rw [Head.front, if_pos hb, if_neg hm] at hl
              exact Nat.succ_le_succ (hlongest longer more htail hl)
      · rw [Head.front, if_neg hb] at h
        injection h with hr
        refine ⟨[], hr, rfl, ?_⟩
        intro longer more heq hl
        cases longer with
        | nil => exact Nat.zero_le _
        | cons b' longer =>
            obtain ⟨rfl, -⟩ := List.cons.inj heq
            rw [Head.front, if_neg hb] at hl
            cases hl

/-- **What is replaced at once** is the longest piece that a character could
begin with, or one byte. -/
theorem invalid_split {bytes rest : List UInt8} (h : front bytes = .invalid rest) :
    ∃ piece, bytes = piece ++ rest ∧ piece ≠ [] ∧ (front piece = .cut ∨ piece.length = 1)
      ∧ ∀ longer more, bytes = longer ++ more → front longer = .cut →
        longer.length ≤ piece.length := by
  cases bytes with
  | nil => cases h
  | cons b bytes =>
      rw [front_cons] at h
      split at h
      · cases h
      rename_i hb
      split at h
      · -- The byte begins a character, and the bytes behind it stop fitting.
        rename_i head hd
        obtain ⟨piece, hsplit, hcut, hlongest⟩ := Head.invalid_split h
        have hfront (more : List UInt8) : front (b :: more) = head.front more :=
          front_of_head (Nat.lt_of_not_le hb) hd
        refine ⟨b :: piece, by rw [hsplit]; rfl, by simp, .inl ((hfront piece).trans hcut), ?_⟩
        intro longer more heq hl
        cases longer with
        | nil => exact Nat.zero_le _
        | cons b' longer =>
            obtain ⟨rfl, htail⟩ := List.cons.inj heq
            rw [hfront] at hl
            exact Nat.succ_le_succ (hlongest longer more htail hl)
      · -- The byte begins no character, and is an invalid piece by itself.
        rename_i hd
        injection h with hr
        refine ⟨[b], by rw [hr]; rfl, by simp, .inr rfl, ?_⟩
        intro longer more heq hl
        cases longer with
        | nil => exact Nat.zero_le _
        | cons b' longer =>
            obtain ⟨rfl, -⟩ := List.cons.inj heq
            rw [front_cons, if_neg hb, hd] at hl
            cases hl

/-- What the decoder passes over as invalid is an invalid piece. -/
theorem invalidPiece_of_front {bytes rest : List UInt8} (h : front bytes = .invalid rest) :
    ∃ piece, bytes = piece ++ rest ∧ InvalidPiece piece rest := by
  obtain ⟨piece, rfl, hne, hcut, hlongest⟩ := invalid_split h
  refine ⟨piece, rfl, ⟨?_, hne, hcut.imp_left begins_of_cut, ?_⟩⟩
  · rintro c ⟨more, hc⟩
    rw [← hc, front_encode] at h
    cases h
  · rintro longer ⟨more, hl⟩ hbegins
    -- What begins a character is cut, or the decoder would have found the character.
    cases hf : front longer with
    | cut => exact hlongest longer more hl.symm hf
    | invalid rest' => exact absurd hbegins (not_begins_of_invalid hf)
    | char c rest' =>
        rw [← hl, front_append more (by rw [hf]; simp), hf] at h
        cases h

/-! ## §7. The decoder reads what stands there. -/

/-- What is read in front, or replaced, goes before what is read of the
rest. -/
theorem lossy_of_read {bytes rest : List UInt8} {c : Char}
    (h : (front bytes).read? = some (c, rest)) : lossy bytes = c :: lossy rest := by
  unfold lossy
  rw [decode_of_read h]
  dsimp only
  split <;> rfl

/-- A character that is cut off for good is replaced. -/
theorem lossy_of_cut {bytes : List UInt8} (h : front bytes = .cut) :
    lossy bytes = if bytes.isEmpty then [] else [replacement] := by
  unfold lossy
  rw [decode_of_cut h]
  rfl

theorem lossy_nil : lossy [] = [] := lossy_of_cut rfl

/-- **The decoder reads octets as the encoding of characters says.** -/
theorem reads_lossy (bytes : List UInt8) : Reads bytes (lossy bytes) := by
  induction bytes using decode.induct with
  | case1 bytes c rest h ih =>
      rw [lossy_of_read h]
      cases hf : front bytes with
      | cut =>
          rw [hf] at h
          cases h
      | char c' rest' =>
          rw [hf] at h
          cases h
          rw [eq_encode_of_front hf]
          exact .char c ih
      | invalid rest' =>
          rw [hf] at h
          cases h
          obtain ⟨piece, rfl, hpiece⟩ := invalidPiece_of_front hf
          exact .invalid hpiece ih
  | case2 bytes h =>
      have hcut := Front.read?_eq_none.1 h
      rw [lossy_of_cut hcut]
      cases bytes with
      | nil => exact .nil
      | cons b bytes =>
          -- Nothing follows, so what is cut is one piece and as long as it can be.
          rw [← List.append_nil (b :: bytes)]
          refine .invalid ⟨?_, by simp, .inl (begins_of_cut hcut), ?_⟩ .nil
          · rintro c ⟨more, hc⟩
            rw [List.append_nil] at hc
            rw [← hc, front_encode] at hcut
            cases hcut
          · intro longer hl _
            rw [List.append_nil] at hl
            exact hl.length_le

/-- Two invalid pieces at one place are the same. -/
theorem InvalidPiece.eq {piece piece' rest rest' : List UInt8}
    (heq : piece ++ rest = piece' ++ rest') (h : InvalidPiece piece rest)
    (h' : InvalidPiece piece' rest') : piece = piece' ∧ rest = rest' := by
  have hpos : 0 < piece.length := List.length_pos_iff.2 h.nonempty
  have hpos' : 0 < piece'.length := List.length_pos_iff.2 h'.nonempty
  have hle : piece.length ≤ piece'.length := by
    rcases h.beginning with hb | h1
    · exact h'.longest piece ⟨rest, heq⟩ hb
    · omega
  have hle' : piece'.length ≤ piece.length := by
    rcases h'.beginning with hb | h1
    · exact h.longest piece' ⟨rest', heq.symm⟩ hb
    · omega
  exact List.append_inj heq (Nat.le_antisymm hle hle')

/-- **Octets read in one way only.** -/
theorem Reads.eq_lossy {bytes : List UInt8} {cs : List Char} (h : Reads bytes cs) :
    cs = lossy bytes := by
  induction h with
  | nil => exact lossy_nil.symm
  | @char rest cs c _ ih =>
      have hread : (front (String.utf8EncodeChar c ++ rest)).read? = some (c, rest) := by
        rw [front_encode]
        rfl
      rw [lossy_of_read hread, ih]
  | @invalid piece rest cs hpiece _ ih =>
      cases hf : front (piece ++ rest) with
      | char c rest' => exact absurd ⟨rest', (eq_encode_of_front hf).symm⟩ (hpiece.no_char c)
      | invalid rest' =>
          obtain ⟨piece', heq, hpiece'⟩ := invalidPiece_of_front hf
          obtain ⟨-, rfl⟩ := InvalidPiece.eq heq hpiece hpiece'
          rw [lossy_of_read (by rw [hf]; rfl), ih]
      | cut =>
          -- All of it begins a character, so the piece is all of it.
          have hle := hpiece.longest _ List.prefix_rfl (begins_of_cut hf)
          rw [List.length_append] at hle
          have hrest : rest = [] := List.eq_nil_of_length_eq_zero (by omega)
          subst hrest
          rw [ih, lossy_nil, lossy_of_cut hf, List.append_nil,
            if_neg (by simpa using hpiece.nonempty)]

end WorkflowEditor.Utf8
