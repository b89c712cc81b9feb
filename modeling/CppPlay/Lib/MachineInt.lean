import Mathlib.Data.Int.ModEq
import Mathlib.Algebra.BigOperators.Group.List.Basic
import Mathlib.Tactic

/-!
# Integers of a fixed width

The value that a conversion to a type leaves, and sums in a type: unsigned ones
wrap around, signed ones have no value when they leave the range.
-/

namespace CppPlay.Lib

structure IntType where
  bits : ℕ
  signed : Bool

namespace IntType

def wrap (T : IntType) (v : ℤ) : ℤ :=
  if T.signed then v.bmod (2 ^ T.bits) else v % 2 ^ T.bits

def add (T : IntType) (x y : ℤ) : Option ℤ :=
  if T.signed ∧ T.wrap (x + y) ≠ x + y then none else some (T.wrap (x + y))

def sumFrom (T : IntType) (x : ℤ) (ys : List ℤ) : Option ℤ := ys.foldlM T.add x

variable {T : IntType}

/-! ## Conversions -/

theorem wrap_modEq (v : ℤ) : T.wrap v ≡ v [ZMOD 2 ^ T.bits] := by
  rw [wrap]
  split_ifs with hsigned
  · have hmod := Int.bmod_emod (x := v) (m := 2 ^ T.bits)
    push_cast at hmod
    exact hmod
  · exact Int.mod_modEq v _

theorem wrap_eq_wrap_iff {v v' : ℤ} : T.wrap v = T.wrap v' ↔ v ≡ v' [ZMOD 2 ^ T.bits] := by
  constructor
  · intro hsame
    exact (wrap_modEq v).symm.trans (hsame ▸ wrap_modEq v')
  · intro hmod
    rw [wrap, wrap]
    split_ifs with hsigned
    · have hsame : v % ((2 ^ T.bits : ℕ) : ℤ) = v' % ((2 ^ T.bits : ℕ) : ℤ) := by
        push_cast
        exact hmod
      rw [← Int.emod_bmod v, hsame, Int.emod_bmod]
    · exact hmod

theorem wrap_bounds (v : ℤ) : -2 ^ T.bits ≤ 2 * T.wrap v ∧ T.wrap v < 2 ^ T.bits := by
  have hpos : (0 : ℤ) < 2 ^ T.bits := by positivity
  rw [wrap]
  split_ifs with hsigned
  · have hlow := Int.le_bmod (x := v) (m := 2 ^ T.bits) (by positivity)
    have hhigh := Int.bmod_lt (x := v) (m := 2 ^ T.bits) (by positivity)
    push_cast at hlow hhigh
    omega
  · have hnonneg := Int.emod_nonneg v hpos.ne'
    exact ⟨by linarith, Int.emod_lt_of_pos v hpos⟩

theorem wrap_of_signed (hsigned : T.signed = true) {v : ℤ} (hlow : -2 ^ T.bits ≤ 2 * v)
    (hhigh : 2 * v < 2 ^ T.bits) : T.wrap v = v := by
  rw [wrap, if_pos hsigned]
  exact Int.bmod_eq_of_le_mul_two (by push_cast; linarith) (by push_cast; linarith)

theorem wrap_of_nonneg {v : ℤ} (hnonneg : 0 ≤ v) (hhigh : 2 * v < 2 ^ T.bits) :
    T.wrap v = v := by
  cases hsigned : T.signed with
  | true =>
      exact wrap_of_signed hsigned (by linarith [pow_pos (two_pos (α := ℤ)) T.bits]) hhigh
  | false =>
      rw [wrap, if_neg (by simp [hsigned])]
      exact Int.emod_eq_of_lt hnonneg (by linarith)

/-! ## Sums -/

theorem sumFrom_cons (x y : ℤ) (ys : List ℤ) :
    T.sumFrom x (y :: ys) = (T.add x y).bind fun r => T.sumFrom r ys := rfl

theorem modEq_of_sumFrom {x r : ℤ} {ys : List ℤ} (hsum : T.sumFrom x ys = some r) :
    r ≡ x + ys.sum [ZMOD 2 ^ T.bits] := by
  induction ys generalizing x with
  | nil =>
      rw [sumFrom, List.foldlM_nil, Option.pure_def, Option.some.injEq] at hsum
      rw [hsum, List.sum_nil, add_zero]
  | cons y ys ih =>
      rw [sumFrom_cons, Option.bind_eq_some_iff] at hsum
      rcases hsum with ⟨first, hfirst, hrest⟩
      rw [add, Option.ite_none_left_eq_some, Option.some.injEq] at hfirst
      have hstep : first ≡ x + y [ZMOD 2 ^ T.bits] := hfirst.2 ▸ wrap_modEq (x + y)
      rw [List.sum_cons, ← add_assoc]
      exact (ih hrest).trans (hstep.add_right _)

theorem sumFrom_of_unsigned (hunsigned : T.signed = false) (x : ℤ) (ys : List ℤ) :
    ∃ r, T.sumFrom x ys = some r := by
  induction ys generalizing x with
  | nil => exact ⟨x, rfl⟩
  | cons y ys ih =>
      rcases ih (T.wrap (x + y)) with ⟨r, hr⟩
      refine ⟨r, ?_⟩
      rw [sumFrom_cons, add, if_neg (by simp [hunsigned]), Option.bind_some, hr]

/-- Adding what is not negative leaves the range only when the whole sum does. -/
theorem sumFrom_of_nonneg (hsigned : T.signed = true) {x : ℤ} {ys : List ℤ}
    (hlow : -2 ^ T.bits ≤ 2 * x) (hys : ∀ y ∈ ys, 0 ≤ y)
    (hhigh : 2 * (x + ys.sum) < 2 ^ T.bits) : T.sumFrom x ys = some (x + ys.sum) := by
  induction ys generalizing x with
  | nil => rw [sumFrom, List.foldlM_nil, List.sum_nil, add_zero, Option.pure_def]
  | cons y ys ih =>
      rw [List.forall_mem_cons] at hys
      rw [List.sum_cons, ← add_assoc] at hhigh ⊢
      have hrest : 0 ≤ ys.sum := List.sum_nonneg hys.2
      have hfits : T.wrap (x + y) = x + y :=
        wrap_of_signed hsigned (by linarith [hys.1]) (by linarith)
      rw [sumFrom_cons, add, if_neg (by simp [hfits]), hfits, Option.bind_some]
      exact ih (by linarith [hys.1]) hys.2 hhigh

end IntType

end CppPlay.Lib
