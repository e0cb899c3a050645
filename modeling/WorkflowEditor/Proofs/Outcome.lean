/-
  WorkflowEditor.Proofs.Outcome
  ─────────────────────────────
  **WHAT A COMPUTATION THAT SUCCEEDED WENT THROUGH.**

  A change that may be refused is a sequence of steps in `Except`.  When it
  succeeded every step did:

    • `bind_eq_ok`, `map_eq_ok`, `mapError_eq_ok` — by the shape of the
      sequence,
    • `guard_eq_ok` — a rule that is checked on the way is kept,
    • `toOption_eq_some_iff` — what is there when the cause is dropped.

  No Mathlib.
-/

namespace WorkflowEditor

variable {ε ε' β γ : Type}

/-- Two steps succeed together if the first one does and the second one does
with its result. -/
theorem bind_eq_ok {x : Except ε β} {f : β → Except ε γ} {c : γ} :
    (x >>= f) = .ok c ↔ ∃ b, x = .ok b ∧ f b = .ok c := by
  cases x <;> simp [bind, Except.bind]

theorem map_eq_ok {x : Except ε β} {f : β → γ} {c : γ} :
    (f <$> x) = .ok c ↔ ∃ b, x = .ok b ∧ f b = c := by
  cases x <;> simp [Functor.map, Except.map]

/-- Telling of an error in other words makes no success of it. -/
theorem mapError_eq_ok {x : Except ε β} {f : ε → ε'} {b : β} :
    x.mapError f = .ok b ↔ x = .ok b := by
  cases x with
  | ok a =>
      constructor
      · intro h
        rw [Except.ok.inj h]
      · intro h
        rw [Except.ok.inj h]
        rfl
  | error cause =>
      constructor
      · intro h
        cases h
      · intro h
        cases h

/-- A rule that is checked on the way, the rest of the sequence behind
it. -/
theorem guard_eq_ok {broken : Prop} [Decidable broken] {cause : ε} {rest : Unit → Except ε γ}
    {c : γ} :
    (if broken then throw cause >>= rest else rest ()) = .ok c ↔ ¬ broken ∧ rest () = .ok c := by
  by_cases h : broken
  · simp [h, throw, throwThe, MonadExceptOf.throw, bind, Except.bind]
  · simp [h]

theorem toOption_eq_some_iff {x : Except ε β} {b : β} : x.toOption = some b ↔ x = .ok b := by
  cases x <;> simp [Except.toOption]

end WorkflowEditor
