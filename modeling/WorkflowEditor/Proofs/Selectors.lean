/-
  WorkflowEditor.Proofs.Selectors
  ───────────────────────────────
  **WHICH SELECTORS STAND FOR A REFERENCE.**

  A selector is a reference among blanks, or one in double braces among
  blanks.  One pair of braces is taken off, if both of them are there, and
  what is left is taken as it stands:

    • `IsReference` — a namespace and a field, without blanks,
    • `StandsFor` — the selectors of a reference,
    • `exists_padding`, `trimBlanks_padded` — trimming takes off the blanks
      at the ends and nothing else,
    • `unbraced?_eq_some_iff`, `exists_inBraces_iff` — what stands in braces,
    • `normal?_eq_some_iff` — a selector is brought to the reference that it
      stands for,
    • `parseSelector?_exact` — together, with what becomes of a reference,
    • `parseSelector?_braces_left` — braces that are left where there are
      more of them.
-/
import WorkflowEditor.Proofs.PickedTypes
import Mathlib.Data.List.TakeWhile

namespace WorkflowEditor

namespace Selector

variable {cs r inner before after left right : List Char}

/-! ## §1. References and their selectors. -/

/-- All characters are blank. -/
def Blanks (cs : List Char) : Prop := ∀ c ∈ cs, isBlank c

instance : DecidablePred Blanks := fun cs => List.decidableBAll _ cs

/-- A namespace and a field with the first dot between them, and no blank. -/
structure IsReference (r : List Char) : Prop where
  unspaced : ∀ c ∈ r, ¬ isBlank c
  parts : ∃ space field, '.' ∉ space ∧ space ≠ [] ∧ field ≠ [] ∧ r = space ++ '.' :: field

/-- The braces in front of a reference. -/
def opening : List Char := ['\x7b', '\x7b']

/-- The braces behind a reference. -/
def closing : List Char := ['\x7d', '\x7d']

/-- A text between double braces. -/
def inBraces (inner : List Char) : List Char := opening ++ inner ++ closing

/-- A text begins and ends with double braces. -/
def Braced (cs : List Char) : Prop := opening <+: cs ∧ closing <:+ cs

instance : DecidablePred Braced :=
  fun cs => inferInstanceAs (Decidable (opening <+: cs ∧ closing <:+ cs))

/-- The selectors that stand for a reference.  A reference that is in braces
itself is no selector of its own. -/
inductive StandsFor : List Char → List Char → Prop
  | bare {before r after : List Char} : Blanks before → Blanks after → ¬ Braced r →
      StandsFor (before ++ r ++ after) r
  | braced {before left r right after : List Char} : Blanks before → Blanks left →
      Blanks right → Blanks after →
      StandsFor (before ++ inBraces (left ++ r ++ right) ++ after) r

/-! ## §2. Blanks. -/

theorem exists_blanks_dropWhile (cs : List Char) :
    ∃ front, Blanks front ∧ cs = front ++ cs.dropWhile isBlank :=
  ⟨cs.takeWhile isBlank, fun _ hc => List.mem_takeWhile_imp hc,
    List.takeWhile_append_dropWhile.symm⟩

/-- **Only blanks are trimmed**, at the two ends. -/
theorem exists_padding (cs : List Char) :
    ∃ before after, Blanks before ∧ Blanks after ∧ cs = before ++ trimBlanks cs ++ after := by
  obtain ⟨before, hbefore, hfront⟩ := exists_blanks_dropWhile cs
  obtain ⟨behind, hbehind, hback⟩ := exists_blanks_dropWhile (cs.dropWhile isBlank).reverse
  refine ⟨before, behind.reverse, hbefore, fun c hc => hbehind c (List.mem_reverse.1 hc), ?_⟩
  have hrest : cs.dropWhile isBlank = trimBlanks cs ++ behind.reverse := by
    rw [← List.reverse_reverse (cs.dropWhile isBlank), hback, List.reverse_append]
    rfl
  rw [List.append_assoc, ← hrest]
  exact hfront

theorem dropWhile_blanks (hbefore : Blanks before) (hhead : ∀ c ∈ r.head?, ¬ isBlank c) :
    (before ++ r).dropWhile isBlank = r := by
  rw [List.dropWhile_append_of_pos hbefore]
  cases r with
  | nil => rfl
  | cons c rest => exact List.dropWhile_cons_of_neg (hhead c rfl)

/-- **All blanks at the ends are trimmed.** -/
theorem trimBlanks_padded (hbefore : Blanks before) (hafter : Blanks after)
    (hne : r ≠ []) (hhead : ∀ c ∈ r.head?, ¬ isBlank c) (hlast : ∀ c ∈ r.getLast?, ¬ isBlank c) :
    trimBlanks (before ++ r ++ after) = r := by
  have hhead' : ∀ c ∈ (r ++ after).head?, ¬ isBlank c := by
    rw [List.head?_append_of_ne_nil r hne]
    exact hhead
  have hlast' : ∀ c ∈ r.reverse.head?, ¬ isBlank c := by
    rw [List.head?_reverse]
    exact hlast
  have hafter' : Blanks after.reverse := fun c hc => hafter c (List.mem_reverse.1 hc)
  unfold trimBlanks
  rw [List.append_assoc, dropWhile_blanks hbefore hhead', List.reverse_append,
    dropWhile_blanks hafter' hlast', List.reverse_reverse]

namespace IsReference

theorem ne_nil (h : IsReference r) : r ≠ [] := by
  obtain ⟨space, field, -, -, -, rfl⟩ := h.parts
  simp

/-- The blanks around a reference are trimmed. -/
theorem trimBlanks_padded (h : IsReference r) (hbefore : Blanks before) (hafter : Blanks after) :
    trimBlanks (before ++ r ++ after) = r :=
  Selector.trimBlanks_padded hbefore hafter h.ne_nil
    (fun c hc => h.unspaced c (List.mem_of_mem_head? hc))
    (fun c hc => h.unspaced c (List.mem_of_mem_getLast? hc))

end IsReference

/-! ## §3. Braces. -/

theorem trimBlanks_inBraces (hbefore : Blanks before) (hafter : Blanks after) :
    trimBlanks (before ++ inBraces inner ++ after) = inBraces inner := by
  refine trimBlanks_padded hbefore hafter (List.cons_ne_nil _ _) ?_ ?_
  · rintro c ⟨⟩
    decide
  · have hlast : (inBraces inner).getLast? = some '\x7d' := by
      simp [inBraces, closing]
    rw [hlast]
    rintro c ⟨⟩
    decide

theorem unbraced?_eq_some_iff : unbraced? cs = some inner ↔ cs = inBraces inner := by
  constructor
  · intro h
    unfold unbraced? at h
    split at h
    · rename_i rest
      split at h
      · rename_i reversed hrest
        obtain rfl := Option.some.inj h
        rw [← List.reverse_reverse rest, hrest]
        simp [inBraces, opening, closing]
      · cases h
    · cases h
  · rintro rfl
    simp [inBraces, opening, closing, unbraced?]

/-- A text stands in braces if it begins and ends with them: the two pairs
cannot share a character. -/
theorem exists_inBraces_iff : (∃ inner, cs = inBraces inner) ↔ Braced cs := by
  constructor
  · rintro ⟨inner, rfl⟩
    exact ⟨⟨inner ++ closing, (List.append_assoc _ _ _).symm⟩, List.suffix_append _ _⟩
  · rintro ⟨⟨rest, rfl⟩, hclosing⟩
    have hrest : closing <:+ rest := by
      simpa [closing, opening, List.suffix_cons_iff] using hclosing
    obtain ⟨inner, rfl⟩ := hrest
    exact ⟨inner, (List.append_assoc _ _ _).symm⟩

theorem unbraced?_eq_none_iff : unbraced? cs = none ↔ ¬ Braced cs := by
  rw [← exists_inBraces_iff, Option.eq_none_iff_forall_ne_some, not_exists]
  exact forall_congr' fun inner => not_congr unbraced?_eq_some_iff

/-! ## §4. Selectors. -/

theorem splitDot?_eq_some_iff {space field : List Char} :
    splitDot? cs = some (space, field) ↔ '.' ∉ space ∧ cs = space ++ '.' :: field := by
  constructor
  · intro h
    unfold splitDot? at h
    split at h
    · rename_i c rest hdrop
      obtain ⟨rfl, rfl⟩ := Prod.mk.inj (Option.some.inj h)
      obtain rfl : c = '.' := by
        have hstop := List.head?_dropWhile_not (fun c => c != '.') cs
        rw [hdrop] at hstop
        simpa using hstop
      refine ⟨fun hmem => ?_, ?_⟩
      · simpa using List.mem_takeWhile_imp hmem
      · rw [← hdrop, List.takeWhile_append_dropWhile]
    · cases h
  · rintro ⟨hspace, rfl⟩
    exact splitDot?_append hspace field

/-- The text that is left of a selector when the blanks and the braces around it
are taken off. -/
def unwrapped (cs : List Char) : List Char :=
  ((unbraced? (trimBlanks cs)).map trimBlanks).getD (trimBlanks cs)

/-- A selector is brought to what is left of it, if that is a reference. -/
theorem normal?_eq_some_iff_unwrapped :
    normal? cs = some r ↔ IsReference r ∧ unwrapped cs = r := by
  unfold normal?
  dsimp only
  rw [← unwrapped]
  constructor
  · intro h
    split at h
    · rename_i space field hsplit
      split at h
      · cases h
      · rename_i hchecked
        obtain rfl := Option.some.inj h
        obtain ⟨hspace, hparts⟩ := splitDot?_eq_some_iff.1 hsplit
        simp only [Bool.or_eq_true, not_or, List.isEmpty_iff, List.any_eq_true, not_exists,
          not_and] at hchecked
        exact ⟨⟨hchecked.2, space, field, hspace, hchecked.1.1, hchecked.1.2, hparts⟩, rfl⟩
    · cases h
  · rintro ⟨⟨hunspaced, space, field, hspace, hspace', hfield, hparts⟩, rfl⟩
    rw [splitDot?_eq_some_iff.2 ⟨hspace, hparts⟩]
    refine if_neg ?_
    simp only [Bool.or_eq_true, not_or, List.isEmpty_iff, List.any_eq_true, not_exists, not_and]
    exact ⟨⟨hspace', hfield⟩, hunspaced⟩

theorem unwrapped_of_standsFor (hr : IsReference r) (h : StandsFor cs r) : unwrapped cs = r := by
  unfold unwrapped
  cases h with
  | bare hbefore hafter hbraces =>
      rw [hr.trimBlanks_padded hbefore hafter, unbraced?_eq_none_iff.2 hbraces]
      rfl
  | braced hbefore hleft hright hafter =>
      rw [trimBlanks_inBraces hbefore hafter, unbraced?_eq_some_iff.2 rfl]
      exact hr.trimBlanks_padded hleft hright

theorem standsFor_unwrapped (cs : List Char) : StandsFor cs (unwrapped cs) := by
  obtain ⟨before, after, hbefore, hafter, hcs⟩ := exists_padding cs
  unfold unwrapped
  cases hinner : unbraced? (trimBlanks cs) with
  | none =>
      have hbare := StandsFor.bare hbefore hafter (unbraced?_eq_none_iff.1 hinner)
      rwa [← hcs] at hbare
  | some inner =>
      obtain ⟨left, right, hleft, hright, hpadded⟩ := exists_padding inner
      have hbraced := StandsFor.braced (r := trimBlanks inner) hbefore hleft hright hafter
      rwa [← hpadded, ← unbraced?_eq_some_iff.1 hinner, ← hcs] at hbraced

/-- **A selector is brought to the reference that it stands for.** -/
theorem normal?_eq_some_iff : normal? cs = some r ↔ IsReference r ∧ StandsFor cs r := by
  rw [normal?_eq_some_iff_unwrapped]
  refine and_congr_right fun hr => ⟨?_, unwrapped_of_standsFor hr⟩
  rintro rfl
  exact standsFor_unwrapped cs

/-- A reference is brought to itself, unless it is in braces. -/
theorem normal?_self_iff (hr : IsReference r) : normal? r = some r ↔ ¬ Braced r := by
  rw [normal?_eq_some_iff_unwrapped, and_iff_right hr]
  have htrim : trimBlanks r = r := by
    have hpadded : trimBlanks ([] ++ r ++ []) = r := hr.trimBlanks_padded nofun nofun
    rwa [List.nil_append, List.append_nil] at hpadded
  unfold unwrapped
  rw [htrim]
  constructor
  · intro h hbraced
    obtain ⟨inner, hinner⟩ := exists_inBraces_iff.2 hbraced
    rw [unbraced?_eq_some_iff.2 hinner] at h
    -- What stands between the braces is shorter than all of it.
    have hshort : (trimBlanks inner).length ≤ inner.length := by
      obtain ⟨before, after, -, -, hpadded⟩ := exists_padding inner
      conv => rhs; rw [hpadded]
      simp only [List.length_append]
      omega
    have hlong : r.length = inner.length + 4 := by
      rw [hinner]
      simp [inBraces, opening, closing]
    have hsame : trimBlanks inner = r := h
    rw [hsame] at hshort
    omega
  · intro hbare
    rw [unbraced?_eq_none_iff.2 hbare]
    rfl

end Selector

/-! ## §5. Texts. -/

open Selector

theorem parseSelector?_eq_some_iff {text r : String} :
    parseSelector? text = some r ↔ IsReference r.toList ∧ StandsFor text.toList r.toList := by
  unfold parseSelector?
  rw [Option.map_eq_some_iff, ← normal?_eq_some_iff]
  constructor
  · rintro ⟨cs, hcs, rfl⟩
    rwa [String.toList_ofList]
  · exact fun h => ⟨_, h, String.ofList_toList⟩

/-- **The reference that a selector stands for.**  A text is brought to a reference
exactly if it is that reference among blanks, or in double braces among blanks;
a reference that is in braces itself can only be written in more of them.  So a
reference is brought to itself, unless it begins and ends with braces, and every
selector of it to the reference. -/
theorem parseSelector?_exact (text r : String) :
    (parseSelector? text = some r ↔ IsReference r.toList ∧ StandsFor text.toList r.toList)
    ∧ (IsReference r.toList →
      (parseSelector? r = some r ↔ ¬ Braced r.toList)
      ∧ ∀ before after : String, Blanks before.toList → Blanks after.toList →
        (¬ Braced r.toList → parseSelector? (before ++ r ++ after) = some r)
        ∧ ∀ left right : String, Blanks left.toList → Blanks right.toList →
          parseSelector? (before ++ "\x7b\x7b" ++ left ++ r ++ right ++ "\x7d\x7d" ++ after)
            = some r) := by
  refine ⟨parseSelector?_eq_some_iff, fun hr => ⟨?_, fun before after hbefore hafter =>
    ⟨fun hbare => ?_, fun left right hleft hright => ?_⟩⟩⟩
  · rw [parseSelector?_eq_some_iff, ← normal?_eq_some_iff, normal?_self_iff hr]
  · refine parseSelector?_eq_some_iff.2 ⟨hr, ?_⟩
    rw [String.toList_append, String.toList_append]
    exact .bare hbefore hafter hbare
  · refine parseSelector?_eq_some_iff.2 ⟨hr, ?_⟩
    have hbraced := StandsFor.braced (r := r.toList) hbefore hleft hright hafter
    have htext : (before ++ "\x7b\x7b" ++ left ++ r ++ right ++ "\x7d\x7d" ++ after).toList
        = before.toList ++ inBraces (left.toList ++ r.toList ++ right.toList) ++ after.toList := by
      simp only [String.toList_append, inBraces, List.append_assoc]
      rfl
    rwa [htext]

/-- A reference in braces, with a tab and a no-break space around it. -/
theorem parseSelector?_exact_padded :
    let r := "llm_1.output"
    IsReference r.toList ∧ ¬ Braced r.toList ∧ parseSelector? r = some r
      ∧ parseSelector? ("\t" ++ r ++ "\u00a0") = some r
      ∧ parseSelector? ("\t" ++ "\x7b\x7b" ++ " " ++ r ++ "" ++ "\x7d\x7d" ++ "\u00a0")
        = some r := by
  intro r
  have hspaced : r.toList.all (fun c => ! isBlank c) = true := by decide
  have hr : IsReference r.toList :=
    ⟨by simpa using hspaced, "llm_1".toList, "output".toList, by decide, by decide, by decide,
      by decide⟩
  have hbare : ¬ Braced r.toList := by decide
  obtain ⟨hself, hpadded⟩ := (parseSelector?_exact "" r).2 hr
  obtain ⟨hplain, hbraced⟩ := hpadded "\t" "\u00a0" (by decide) (by decide)
  exact ⟨hr, hbare, hself.2 hbare, hplain hbare, hbraced " " "" (by decide) (by decide)⟩

/-- **Braces are left where there are more of them**: one pair is taken off, and
none of a text that has them at one end only. -/
theorem parseSelector?_braces_left :
    parseSelector? "\x7b\x7b\x7b\x7ba.b\x7d\x7d\x7d\x7d" = some "\x7b\x7ba.b\x7d\x7d"
      ∧ parseSelector? "\x7b\x7ba.b\x7d\x7d" = some "a.b"
      ∧ parseSelector? "\x7b\x7ba.b" = some "\x7b\x7ba.b" := by
  refine ⟨?_, ?_, ?_⟩ <;> decide

end WorkflowEditor
