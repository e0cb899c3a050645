/-
  WorkflowEditor.Text.Utf8
  ────────────────────────
  **READING UTF-8 THAT MAY BE FAULTY OR CUT.**

  Octets begin with one of three things:

      char     — a character
      invalid  — a piece that is no character, as long as it could still
                 become one, but at least one octet
      cut      — a character whose last octets are missing

  Each invalid piece reads as one U+FFFD.  What is cut at the end of a
  piece of a stream is held back, since the next piece may complete it; at
  the end of the stream it is invalid too.

  No Mathlib.
-/

namespace WorkflowEditor.Utf8

/-- The character that stands for a piece that is none. -/
def replacement : Char := '\uFFFD'

/-! ## §1. What octets begin with. -/

/-- The head of a character: its bits so far, how many octets are missing,
and the bounds of the next one. -/
structure Head where
  bits : Nat
  missing : Nat
  least : Nat
  greatest : Nat
  deriving Repr, DecidableEq

/-- What octets begin with, and what follows it.  Nothing at all is cut
too. -/
inductive Front where
  | char (c : Char) (rest : List UInt8)
  | invalid (rest : List UInt8)
  | cut
  deriving Repr, DecidableEq

/-- The head that an octet above `0x7F` makes. -/
def head? (b : Nat) : Option Head :=
  -- `E0` and `F0` begin no character that fewer octets would do for, `ED` no surrogate,
  -- and `F4` nothing above the last character.
  if 0xC2 ≤ b ∧ b ≤ 0xDF then some ⟨b - 0xC0, 1, 0x80, 0xBF⟩
  else if b = 0xE0 then some ⟨0, 2, 0xA0, 0xBF⟩
  else if b = 0xED then some ⟨0xD, 2, 0x80, 0x9F⟩
  else if 0xE1 ≤ b ∧ b ≤ 0xEF then some ⟨b - 0xE0, 2, 0x80, 0xBF⟩
  else if b = 0xF0 then some ⟨0, 3, 0x90, 0xBF⟩
  else if 0xF1 ≤ b ∧ b ≤ 0xF3 then some ⟨b - 0xF0, 3, 0x80, 0xBF⟩
  else if b = 0xF4 then some ⟨4, 3, 0x80, 0x8F⟩
  else none

/-- A head with one more octet. -/
def Head.push (head : Head) (b : Nat) : Head :=
  ⟨head.bits * 64 + (b - 0x80), head.missing - 1, 0x80, 0xBF⟩

/-- Reads on behind a head.  An octet out of its bounds is left for the
next piece. -/
def Head.front (head : Head) : List UInt8 → Front
  | [] => .cut
  | b :: rest =>
      if head.least ≤ b.toNat ∧ b.toNat ≤ head.greatest then
        if head.missing ≤ 1 then .char (Char.ofNat (head.push b.toNat).bits) rest
        else (head.push b.toNat).front rest
      else .invalid (b :: rest)

/-- What octets begin with. -/
def front : List UInt8 → Front
  | [] => .cut
  | b :: rest =>
      if b.toNat ≤ 0x7F then .char (Char.ofNat b.toNat) rest
      else
        match head? b.toNat with
        | some head => head.front rest
        | none => .invalid rest

/-! ## §2. Pieces of a stream. -/

/-- The character that is read first, and what is left to read; none if it
is cut. -/
def Front.read? : Front → Option (Char × List UInt8)
  | .char c rest => some (c, rest)
  | .invalid rest => some (replacement, rest)
  | .cut => none

/-- Behind a head no more is left to read than there was. -/
theorem Head.length_of_read? {head : Head} {bytes rest : List UInt8} {c : Char}
    (h : (head.front bytes).read? = some (c, rest)) : rest.length ≤ bytes.length := by
  induction bytes generalizing head with
  | nil => cases h
  | cons b bytes ih =>
      rw [Head.front] at h
      split at h
      · split at h
        · simp only [Front.read?, Option.some.injEq, Prod.mk.injEq] at h
          obtain ⟨_, rfl⟩ := h
          exact Nat.le_succ _
        · exact Nat.le_succ_of_le (ih h)
      · cases h
        exact Nat.le_refl _

/-- Whatever is read takes one byte at least, so that decoding ends. -/
theorem length_of_read? {bytes rest : List UInt8} {c : Char}
    (h : (front bytes).read? = some (c, rest)) : rest.length < bytes.length := by
  unfold front at h
  split at h
  · cases h
  split at h
  · simp only [Front.read?, Option.some.injEq, Prod.mk.injEq] at h
    obtain ⟨_, rfl⟩ := h
    exact Nat.lt_succ_self _
  · split at h
    · exact Nat.lt_succ_of_le (Head.length_of_read? h)
    · cases h
      exact Nat.lt_succ_self _

/-- The characters that octets read as, and the octets held back because
they are the head of a character. -/
def decode (bytes : List UInt8) : List Char × List UInt8 :=
  match _ : (front bytes).read? with
  | some (c, rest) => (c :: (decode rest).1, (decode rest).2)
  | none => ([], bytes)
termination_by bytes.length
decreasing_by all_goals exact length_of_read? ‹_›

/-- The characters of a whole byte sequence. -/
def lossy (bytes : List UInt8) : List Char :=
  let (cs, held) := decode bytes
  if held.isEmpty then cs else cs ++ [replacement]

/-- The text of a byte sequence that is well-formed throughout. -/
def strict? (bytes : List UInt8) : Option String :=
  String.fromUTF8? ⟨bytes.toArray⟩

end WorkflowEditor.Utf8
