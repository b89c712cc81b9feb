import Mathlib.Tactic.Common

/-!
# Recursion over positions

A step for every position from the last one down to the first, which ends at the
first step that fails.
-/

namespace CppPlay.Lib

variable {σ : Type*} {n : ℕ}

/-- The steps at the positions below `pos`. -/
def descend (step : Fin n → σ → Bool × σ) : (pos : ℕ) → pos ≤ n → σ → Bool × σ
  | 0, _, s => (true, s)
  | pos + 1, hpos, s =>
      if (step ⟨pos, hpos⟩ s).1 then
        descend step pos (Nat.le_of_succ_le hpos) (step ⟨pos, hpos⟩ s).2
      else (false, (step ⟨pos, hpos⟩ s).2)

/-- `Inv pos` is what holds before the steps below `pos`; a step that fails is the last one. -/
theorem descend_invariant {step : Fin n → σ → Bool × σ} (Inv : ℕ → σ → Prop)
    (hkeeps : ∀ (i : Fin n) s, Inv (i + 1) s → (step i s).1 = true → Inv i (step i s).2)
    {pos : ℕ} (hpos : pos ≤ n) {s : σ} (hstart : Inv pos s) :
    ((descend step pos hpos s).1 = true ∧ Inv 0 (descend step pos hpos s).2) ∨
      ((descend step pos hpos s).1 = false ∧ ∃ (i : Fin n) (s' : σ), Inv (i + 1) s' ∧
        (step i s').1 = false ∧ (descend step pos hpos s).2 = (step i s').2) := by
  induction pos generalizing s with
  | zero => exact .inl ⟨rfl, hstart⟩
  | succ pos ih =>
      rw [descend]
      by_cases hstep : (step ⟨pos, hpos⟩ s).1 = true
      · rw [if_pos hstep]
        exact ih _ (hkeeps ⟨pos, hpos⟩ s hstart hstep)
      · rw [if_neg hstep]
        exact .inr ⟨rfl, ⟨pos, hpos⟩, s, hstart, Bool.eq_false_iff.mpr hstep, rfl⟩

end CppPlay.Lib
