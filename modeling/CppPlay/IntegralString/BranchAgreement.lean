import CppPlay.IntegralString.IntegralValueTMS

/-!
# Constant evaluation against run time

Both templates choose their branch with `std::is_constant_evaluated`, so a label
of a `switch` and the value it is compared with are built by different code.
-/

namespace CppPlay.IntegralString

namespace IntegralValueTBit

variable (c : IntegralValueTBit)

def SetsEveryBit (s : List CppChar) : Prop :=
  ∀ i < c.T.bits, ∃ p ch v, s[p]? = some ch ∧ c.translationMap.translate ch = some v ∧
    p * c.OneElementBits ≤ i ∧
    (v.signExtend c.T.bits).getLsbD (i - p * c.OneElementBits) = true

variable {c}

variable (c) in
/-- Bit `i` is set by a character of `s`, the first of which is put at place `p`. -/
def SetsBit (p : ℕ) (s : List CppChar) (i : ℕ) : Prop :=
  ∃ q ch v, s[q]? = some ch ∧ c.translationMap.translate ch = some v ∧
    (p + q) * c.OneElementBits ≤ i ∧
    (v.signExtend c.T.bits).getLsbD (i - (p + q) * c.OneElementBits) = true

theorem setsBit_cons {p i : ℕ} {ch v : CppChar} {rest : List CppChar}
    (hch : c.translationMap.translate ch = some v) :
    c.SetsBit p (ch :: rest) i ↔
      (p * c.OneElementBits ≤ i ∧
        (v.signExtend c.T.bits).getLsbD (i - p * c.OneElementBits) = true) ∨
      c.SetsBit (p + 1) rest i := by
  constructor
  · rintro ⟨q, ch', v', hget, htranslate, hplace, hbit⟩
    cases q with
    | zero =>
        left
        rw [List.getElem?_cons_zero, Option.some.injEq] at hget
        rw [← hget, hch, Option.some.injEq] at htranslate
        rw [htranslate]
        exact ⟨hplace, hbit⟩
    | succ q =>
        right
        rw [Nat.add_comm q 1, ← Nat.add_assoc] at hplace hbit
        exact ⟨q, ch', v', by simpa using hget, htranslate, hplace, hbit⟩
  · rintro (⟨hplace, hbit⟩ | ⟨q, ch', v', hget, htranslate, hplace, hbit⟩)
    · exact ⟨0, ch, v, rfl, hch, hplace, hbit⟩
    · rw [Nat.add_assoc, Nat.add_comm 1] at hplace hbit
      exact ⟨q + 1, ch', v', hget, htranslate, hplace, hbit⟩

theorem setsEveryBit_iff {s : List CppChar} :
    c.SetsEveryBit s ↔ ∀ i < c.T.bits, c.SetsBit 0 s i := by
  simp only [SetsEveryBit, SetsBit, Nat.zero_add]

theorem getLsbD_constantLoop (value : c.T.Value) (p : ℕ) (s : List CppChar)
    {x : c.T.Value} (hconstant : c.constantLoop value p s = .ok x)
    (hroom : p + s.length ≤ c.MaxElementNum) {i : ℕ} (hi : i < c.T.bits) :
    x.getLsbD i = true ↔ value.getLsbD i = true ∨ c.SetsBit p s i := by
  induction s generalizing value p with
  | nil =>
      rw [constantLoop, Except.ok.injEq] at hconstant
      simp [hconstant, SetsBit]
  | cons ch rest ih =>
      rw [List.length_cons] at hroom
      cases hch : c.translationMap.translate ch with
      | none => simp [constantLoop, hch] at hconstant
      | some v =>
          by_cases hrange : c.Base ≤ c.rangeIndex v
          · simp [constantLoop, hch, hrange] at hconstant
          · simp only [constantLoop, hch, hrange, if_false,
              placed_eq v (show p < c.MaxElementNum by omega)] at hconstant
            rw [ih _ _ hconstant (by omega), setsBit_cons hch, BitVec.getLsbD_or,
              Bool.or_eq_true, BitVec.getLsbD_shiftLeft, or_assoc]
            simp [hi]

theorem isValid_iff_of_constantInit {s : List CppChar} {x : c.T.Value}
    (hconstant : c.constantInit s = .ok x) :
    c.isValid x = true ↔ ¬ c.SetsEveryBit s := by
  have hlength := length_le_of_constantLoop 0 0 s (Nat.zero_le _) hconstant
  have hbit : ∀ i < c.T.bits, (x.getLsbD i = true ↔ c.SetsBit 0 s i) := by
    intro i hi
    rw [getLsbD_constantLoop 0 0 s hconstant hlength hi]
    simp
  have hones : x = c.InvalidValue ↔ ∀ i < c.T.bits, x.getLsbD i = true := by
    constructor
    · intro hinvalid i hi
      rw [hinvalid, InvalidValue, UnsignedType.max, BitVec.getLsbD_allOnes]
      exact decide_eq_true hi
    · intro hall
      apply BitVec.eq_of_getLsbD_eq
      intro i hi
      rw [hall i hi, InvalidValue, UnsignedType.max, BitVec.getLsbD_allOnes, decide_eq_true hi]
  rw [isValid, decide_eq_true_iff, Ne, hones, not_iff_not, setsEveryBit_iff]
  exact forall₂_congr hbit

end IntegralValueTBit

/-- For a string that constant evaluation accepts, when the run-time branch builds
the same value and calls it valid. -/
theorem runtime_agrees_iff (tms : IntegralValueTMS) (tbit : IntegralValueTBit)
    (s : List CppChar) :
    (∀ x, tms.constantInit s = .ok x → x ≠ tms.invalidValue →
      (tms.runtimeInit s = .ok x ↔
        (tms.isShortInputOk = true ∨ s.length = tms.Size) ∧
          ∀ ch ∈ s, (tms.rangeBegin : ℤ) ≤ ch.toInt)) ∧
    ∀ x, tbit.constantInit s = .ok x →
      (tbit.runtimeInit s = .ok x ∧ tbit.isValid x = true ↔ ¬ tbit.SetsEveryBit s) := by
  constructor
  · intro x hconstant hx
    exact IntegralValueTMS.runtimeInit_eq_iff hconstant hx
  · intro x hconstant
    rw [IntegralValueTBit.isValid_iff_of_constantInit hconstant]
    exact and_iff_right (IntegralValueTBit.runtimeInit_of_constantInit hconstant)

def IntegralValueTMS.fullDigits : IntegralValueTMS where
  T := .uint32
  rangeBegin := 48
  rangeEnd := 58
  begin_lt_end := by norm_num
  end_lt := by norm_num
  isShortInputOk := false
  throwOnInvalid := true

/-- The constant `"12"` is 12, the same string at run time throws. -/
theorem runtime_disagrees_shortInput :
    IntegralValueTMS.fullDigits.constantInit [0x31, 0x32] = .ok 12 ∧
      12 ≠ IntegralValueTMS.fullDigits.invalidValue ∧
      IntegralValueTMS.fullDigits.runtimeInit [0x31, 0x32] ≠ .ok 12 := by
  decide

end CppPlay.IntegralString
