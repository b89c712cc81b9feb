import Mathlib.Tactic

/-!
# Compile-time tables of the integral strings

The tables `ConstevalIntPows` and `ConstevalIntSums`, the bit width search
`bitNumber`, and the translation maps between characters and codes.  A `char`
is eight bits with a sign, as on the target platforms; a `size_t` has 64 bits.
-/

namespace CppPlay.IntegralString

abbrev CppChar := BitVec 8

def sizeBits : ℕ := 64

/-- An unsigned integer type `T`; the number of its bits is a `size_t`. -/
structure UnsignedType where
  size : ℕ
  size_pos : 0 < size
  bits_lt : size * 8 < 2 ^ sizeBits

namespace UnsignedType

def bits (T : UnsignedType) : ℕ := T.size * 8

abbrev Value (T : UnsignedType) := BitVec T.bits

def max (T : UnsignedType) : T.Value := BitVec.allOnes T.bits

def uint32 : UnsignedType := ⟨4, by norm_num, by norm_num [sizeBits]⟩

def uint128 : UnsignedType := ⟨16, by norm_num, by norm_num [sizeBits]⟩

end UnsignedType

/-- The value of a `char` that is converted to `size_t`. -/
def toSize (ch : CppChar) : ℕ := (ch.signExtend sizeBits).toNat

/-! ## ASCII characters -/

theorem msb_of_toSize_lt {ch : CppChar} (hch : toSize ch < 128) : ch.msb = false := by
  have hall : ∀ ch : CppChar, toSize ch < 128 → ch.msb = false := by decide
  exact hall ch hch

theorem toNat_signExtend {ch : CppChar} (hch : toSize ch < 128) {w : ℕ} (hw : 8 ≤ w) :
    (ch.signExtend w).toNat = ch.toNat := by
  rw [BitVec.signExtend_eq_setWidth_of_msb_false (msb_of_toSize_lt hch),
    BitVec.toNat_setWidth, Nat.mod_eq_of_lt]
  exact lt_of_lt_of_le ch.isLt (Nat.pow_le_pow_right (by norm_num) hw)

theorem toSize_eq {ch : CppChar} (hch : toSize ch < 128) : toSize ch = ch.toNat :=
  toNat_signExtend hch (by norm_num [sizeBits])

theorem toSize_ofNat {n : ℕ} (hn : n < 128) : toSize (BitVec.ofNat 8 n) = n := by
  have hall : ∀ n < 128, toSize (BitVec.ofNat 8 n) = n := by decide
  exact hall n hn

/-! ## Powers and multiples -/

section Tables

/-- The loops of both tables: `next prev` is the entry behind `prev`, or nothing
when it does not fit. -/
def tableFrom (next : ℕ → Option ℕ) : ℕ → ℕ → Option (List ℕ)
  | prev, 0 => some [prev]
  | prev, n + 1 => do
      let value ← next prev
      let values ← tableFrom next value n
      return prev :: values

def nextPow (max Base prev : ℕ) : Option ℕ :=
  if max / Base < prev then none else some (prev * Base)

def nextSum (max Base prev : ℕ) : Option ℕ :=
  if max - Base < prev then none else some (prev + Base)

def constevalIntPows (w Base Size : ℕ) : List ℕ :=
  (tableFrom (nextPow (2 ^ w - 1) Base) 1 (Size - 1)).getD (List.replicate Size 0)

/-- `ConstevalIntSums<Base, Max>::_values` for a `Base` of `w` bits.  The list
initialiser of `_invalidValues` sets only the first entry. -/
def constevalIntSums (w Base Max : ℕ) : List ℕ :=
  (tableFrom (nextSum (2 ^ w - 1) Base) 0 (Max / Base - 1)).getD
    ((2 ^ w - 1) :: List.replicate (Max / Base - 1) 0)

/-- A step that never lowers an entry fills the table with its iterates, unless the last of
them does not fit. -/
theorem tableFrom_eq {next : ℕ → Option ℕ} {f : ℕ → ℕ} {max : ℕ}
    (hnext : ∀ value, next value = if f value ≤ max then some (f value) else none)
    (hgrows : ∀ value, value ≤ f value) (n prev : ℕ) (hprev : prev ≤ max) :
    tableFrom next prev n =
      if f^[n] prev ≤ max then some ((List.range (n + 1)).map fun i => f^[i] prev)
      else none := by
  induction n generalizing prev with
  | zero => simp [tableFrom, hprev]
  | succ n ih =>
      rw [tableFrom, hnext, Function.iterate_succ_apply]
      by_cases hvalue : f prev ≤ max
      · simp only [if_pos hvalue, ih _ hvalue, Option.bind_eq_bind, Option.bind_some,
          Option.pure_def]
        split_ifs with hlast
        · rw [Option.bind_some, List.range_succ_eq_map (n := n + 1), List.map_cons,
            List.map_map]
          rfl
        · rfl
      · have hlast : ¬ f^[n] (f prev) ≤ max := by
          have hup : f prev ≤ f^[n] (f prev) := Function.id_le_iterate_of_id_le hgrows n (f prev)
          omega
        rw [if_neg hvalue, if_neg hlast]
        rfl

theorem nextPow_eq {max Base : ℕ} (hBase : 0 < Base) (prev : ℕ) :
    nextPow max Base prev = if prev * Base ≤ max then some (prev * Base) else none := by
  rw [nextPow]
  by_cases hfits : prev * Base ≤ max
  · rw [if_pos hfits, if_neg (not_lt.mpr ((Nat.le_div_iff_mul_le hBase).mpr hfits))]
  · rw [if_neg hfits, if_pos ((Nat.div_lt_iff_lt_mul hBase).mpr (not_le.mp hfits))]

theorem nextSum_eq {max Base : ℕ} (hBase : Base ≤ max) (prev : ℕ) :
    nextSum max Base prev = if prev + Base ≤ max then some (prev + Base) else none := by
  rw [nextSum]
  split_ifs <;> first | rfl | omega

theorem mul_iterate (Base prev i : ℕ) : (· * Base)^[i] prev = prev * Base ^ i :=
  mul_right_iterate_apply Base prev

theorem add_iterate (Base prev i : ℕ) : (· + Base)^[i] prev = prev + i * Base := by
  induction i generalizing prev with
  | zero => simp
  | succ i ih => rw [Function.iterate_succ_apply, ih, Nat.succ_mul]; omega

theorem tableFrom_nextPow {max Base : ℕ} (hBase : 0 < Base) (n prev : ℕ) (hprev : prev ≤ max) :
    tableFrom (nextPow max Base) prev n =
      if prev * Base ^ n ≤ max then some ((List.range (n + 1)).map fun i => prev * Base ^ i)
      else none := by
  simpa only [mul_iterate] using
    tableFrom_eq (nextPow_eq hBase) (fun value => Nat.le_mul_of_pos_right value hBase) n prev hprev

theorem tableFrom_nextSum {max Base : ℕ} (hBase : Base ≤ max) (n prev : ℕ)
    (hprev : prev ≤ max) :
    tableFrom (nextSum max Base) prev n =
      if prev + n * Base ≤ max then some ((List.range (n + 1)).map fun i => prev + i * Base)
      else none := by
  simpa only [add_iterate] using
    tableFrom_eq (nextSum_eq hBase) (fun value => Nat.le_add_right value Base) n prev hprev

theorem constevalIntPows_eq {w Base Size : ℕ} (hBase : 0 < Base) (hSize : 0 < Size)
    (hfits : Base ^ (Size - 1) < 2 ^ w) (hw : 0 < w) :
    constevalIntPows w Base Size = (List.range Size).map (Base ^ ·) := by
  have hone : 1 < 2 ^ w := Nat.one_lt_two_pow hw.ne'
  rw [constevalIntPows, tableFrom_nextPow hBase _ _ (by omega),
    if_pos (by rw [one_mul]; omega), Option.getD_some, Nat.sub_add_cancel hSize]
  simp only [one_mul]

theorem constevalIntPows_of_cut {w Base Size : ℕ} (hBase : 0 < Base)
    (hcut : 2 ^ w ≤ Base ^ (Size - 1)) (hw : 0 < w) :
    constevalIntPows w Base Size = List.replicate Size 0 := by
  have hone : 1 < 2 ^ w := Nat.one_lt_two_pow hw.ne'
  rw [constevalIntPows, tableFrom_nextPow hBase _ _ (by omega),
    if_neg (by rw [one_mul]; omega), Option.getD_none]

theorem constevalIntSums_of_fits {w Base Max : ℕ} (hBase : 0 < Base) (hMax : Base ≤ Max)
    (hlt : Base < 2 ^ w) (hfits : (Max / Base - 1) * Base < 2 ^ w) :
    constevalIntSums w Base Max = (List.range (Max / Base)).map (· * Base) := by
  have hsize : 0 < Max / Base := Nat.div_pos hMax hBase
  rw [constevalIntSums, tableFrom_nextSum (by omega) _ _ (Nat.zero_le _),
    if_pos (by omega), Option.getD_some, Nat.sub_add_cancel hsize]
  simp only [zero_add]

theorem constevalIntSums_of_cut {w Base Max : ℕ} (hlt : Base < 2 ^ w)
    (hcut : 2 ^ w ≤ (Max / Base - 1) * Base) :
    constevalIntSums w Base Max = (2 ^ w - 1) :: List.replicate (Max / Base - 1) 0 := by
  rw [constevalIntSums, tableFrom_nextSum (by omega) _ _ (Nat.zero_le _),
    if_neg (by omega), Option.getD_none]

theorem constevalIntSums_eq {w Base Max : ℕ} (hBase : 0 < Base) (hMax : Base ≤ Max)
    (hfits : Max < 2 ^ w) :
    constevalIntSums w Base Max = (List.range (Max / Base)).map (· * Base) := by
  have hprod : Max / Base * Base ≤ Max := Nat.div_mul_le_self Max Base
  have hlast : (Max / Base - 1) * Base ≤ Max / Base * Base :=
    Nat.mul_le_mul_right _ (Nat.sub_le _ _)
  exact constevalIntSums_of_fits hBase hMax (by omega)
    (lt_of_le_of_lt (hlast.trans hprod) hfits)

end Tables

/-! ## Bit width -/

/-- The search of `bitNumber` from bit `i - 1` downwards.  The loop variable has
no sign, so behind bit 0 the next index is out of the range of the bitset. -/
def highestBit (bs : ℕ) : ℕ → Option ℕ
  | 0 => none
  | i + 1 => if bs.testBit i then some (i + 1) else highestBit bs i

/-- `bitNumber<T, Diff>`; the bitset keeps the bits of `T` only. -/
def bitNumber (T : UnsignedType) (Diff : ℕ) : Option ℕ :=
  highestBit (Diff % 2 ^ T.bits) T.bits

theorem highestBit_eq_some_iff {bs : ℕ} (i n : ℕ) (hlt : bs < 2 ^ i) :
    highestBit bs i = some n ↔ 0 < n ∧ 2 ^ (n - 1) ≤ bs ∧ bs < 2 ^ n := by
  induction i with
  | zero =>
      have hzero : bs = 0 := by simpa using hlt
      subst hzero
      simp [highestBit]
  | succ i ih =>
      rw [highestBit]
      cases hbit : bs.testBit i with
      | true =>
          have hge : 2 ^ i ≤ bs := Nat.ge_two_pow_of_testBit hbit
          simp only [if_true, Option.some.injEq]
          constructor
          · intro hn
            subst hn
            exact ⟨Nat.succ_pos i, by simpa using hge, hlt⟩
          · intro hbounds
            have hup : i < n := (Nat.pow_lt_pow_iff_right (by norm_num)).mp
              (lt_of_le_of_lt hge hbounds.2.2)
            have hdown : n - 1 < i + 1 := (Nat.pow_lt_pow_iff_right (by norm_num)).mp
              (lt_of_le_of_lt hbounds.2.1 hlt)
            omega
      | false =>
          have hsmall : bs < 2 ^ i := by
            by_contra hge
            have hset : bs.testBit i = true :=
              Nat.testBit_of_two_pow_le_and_two_pow_add_one_gt (by omega) hlt
            rw [hbit] at hset
            exact Bool.false_ne_true hset
          rw [if_neg (by simp)]
          exact ih hsmall

theorem bitNumber_eq_some_iff {T : UnsignedType} {Diff n : ℕ} (hDiff : Diff < 2 ^ T.bits) :
    bitNumber T Diff = some n ↔ 0 < n ∧ 2 ^ (n - 1) ≤ Diff ∧ Diff < 2 ^ n := by
  rw [bitNumber, Nat.mod_eq_of_lt hDiff]
  exact highestBit_eq_some_iff T.bits n hDiff

/-! ## Translation maps -/

/-- The two directions of a map; nothing stands for an index behind an array. -/
structure TranslationMap where
  translate : CppChar → Option CppChar
  reverseTranslate : CppChar → Option CppChar

def noTranslationMap : TranslationMap where
  translate ch := some ch
  reverseTranslate ch := some ch

end CppPlay.IntegralString
