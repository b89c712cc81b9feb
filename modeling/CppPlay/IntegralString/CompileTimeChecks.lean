import CppPlay.IntegralString.ConstexprMath
import Mathlib.Data.Nat.Size

/-!
# What the compile-time helpers report

Both tables compare themselves with the table that stands for an overflow, and
`isValid` returns the outcome of that comparison unnegated.  The bit width search
has no answer for the difference zero.
-/

namespace CppPlay.IntegralString

variable {w Base Size Max : ℕ}

/-- The table holds its entries and is reported as valid when the last of them fits, and it is
reported as invalid otherwise. -/
structure ReportsFit (bound size : ℕ) (entry : ℕ → ℕ) (values : List ℕ) (isValid : Bool) :
    Prop where
  fits : entry (size - 1) < bound →
    (∀ i < size, values[i]? = some (entry i)) ∧ isValid = true
  cut : bound ≤ entry (size - 1) → isValid = false

theorem not_reportsFit {bound size : ℕ} {entry : ℕ → ℕ} {values : List ℕ} {isValid : Bool}
    (hvalid : isValid = true ↔ bound ≤ entry (size - 1)) :
    ¬ ReportsFit bound size entry values isValid := by
  intro hreports
  by_cases hcut : bound ≤ entry (size - 1)
  · rw [hreports.cut hcut] at hvalid
    exact Bool.false_ne_true (hvalid.mpr hcut)
  · exact hcut (hvalid.mp (hreports.fits (not_le.mp hcut)).2)

/-! ## Powers -/

namespace ConstevalIntPows

def ivalidValues (Size : ℕ) : List ℕ := List.replicate Size 0

def isValid (w Base Size : ℕ) : Bool := constevalIntPows w Base Size == ivalidValues Size

def Correct (w Base Size : ℕ) : Prop :=
  ReportsFit (2 ^ w) Size (fun i => Base ^ i) (constevalIntPows w Base Size)
    (isValid w Base Size)

theorem isValid_iff (hBase : 0 < Base) (hSize : 0 < Size) (hw : 0 < w) :
    isValid w Base Size = true ↔ 2 ^ w ≤ Base ^ (Size - 1) := by
  rw [isValid, beq_iff_eq]
  constructor
  · intro hequal
    by_contra hfits
    rw [constevalIntPows_eq hBase hSize (not_le.mp hfits) hw] at hequal
    -- the first power is 1, in the table for an overflow it is 0
    have hfirst := congrArg (fun values => values[0]?) hequal
    simp [ivalidValues, hSize] at hfirst
  · intro hcut
    exact constevalIntPows_of_cut hBase hcut hw

theorem getElem?_of_fits (hBase : 0 < Base) (hw : 0 < w) (hfits : Base ^ (Size - 1) < 2 ^ w)
    {i : ℕ} (hi : i < Size) : (constevalIntPows w Base Size)[i]? = some (Base ^ i) := by
  rw [constevalIntPows_eq hBase (by omega) hfits hw, List.getElem?_map,
    List.getElem?_range hi, Option.map_some]

end ConstevalIntPows

/-! ## Multiples -/

namespace ConstevalIntSums

def invalidValues (w Base Max : ℕ) : List ℕ :=
  (2 ^ w - 1) :: List.replicate (Max / Base - 1) 0

def isValid (w Base Max : ℕ) : Bool := constevalIntSums w Base Max == invalidValues w Base Max

def Correct (w Base Max : ℕ) : Prop :=
  ReportsFit (2 ^ w) (Max / Base) (fun i => i * Base) (constevalIntSums w Base Max)
    (isValid w Base Max)

theorem isValid_iff (hBase : 0 < Base) (hlt : Base < 2 ^ w) (hMax : Base ≤ Max) :
    isValid w Base Max = true ↔ 2 ^ w ≤ (Max / Base - 1) * Base := by
  rw [isValid, beq_iff_eq]
  constructor
  · intro hequal
    by_contra hfits
    rw [constevalIntSums_of_fits hBase hMax hlt (not_le.mp hfits)] at hequal
    have hsize : 0 < Max / Base := Nat.div_pos hMax hBase
    have hfirst := congrArg (fun values => values[0]?) hequal
    simp only [List.getElem?_map, List.getElem?_range hsize, Option.map_some, zero_mul,
      invalidValues, List.getElem?_cons_zero, Option.some.injEq] at hfirst
    omega
  · intro hcut
    exact constevalIntSums_of_cut hlt hcut

theorem getElem?_of_fits (hBase : 0 < Base) (hlt : Base < 2 ^ w) (hMax : Base ≤ Max)
    (hfits : (Max / Base - 1) * Base < 2 ^ w) {i : ℕ} (hi : i < Max / Base) :
    (constevalIntSums w Base Max)[i]? = some (i * Base) := by
  rw [constevalIntSums_of_fits hBase hMax hlt hfits, List.getElem?_map,
    List.getElem?_range hi, Option.map_some]

end ConstevalIntSums

/-- The entries are right wherever they fit, but neither struct ever reports what it found. -/
theorem tables_never_report (w Base Size Max : ℕ) (hBase : 0 < Base) (hlt : Base < 2 ^ w)
    (hSize : 1 ≤ Size) (hMax : Base ≤ Max) :
    ¬ ConstevalIntPows.Correct w Base Size ∧ ¬ ConstevalIntSums.Correct w Base Max := by
  have hw : 0 < w := by
    by_contra hzero
    rw [Nat.eq_zero_of_not_pos hzero, pow_zero] at hlt
    omega
  exact ⟨not_reportsFit (ConstevalIntPows.isValid_iff hBase hSize hw),
    not_reportsFit (ConstevalIntSums.isValid_iff hBase hlt hMax)⟩

theorem tables_never_report_bytes :
    ¬ ConstevalIntPows.Correct 8 6 3 ∧ ¬ ConstevalIntSums.Correct 8 6 32 :=
  tables_never_report 8 6 3 32 (by norm_num) (by norm_num) (by norm_num) (by norm_num)

theorem not_all_tables_report :
    ¬ ∀ w Base Size Max : ℕ, 0 < Base → Base < 2 ^ w → 1 ≤ Size → Base ≤ Max →
      ConstevalIntPows.Correct w Base Size ∧ ConstevalIntSums.Correct w Base Max := by
  intro hclaim
  obtain ⟨hpows, _⟩ := hclaim 8 6 3 32 (by norm_num) (by norm_num) (by norm_num) (by norm_num)
  have hreported : ConstevalIntPows.isValid 8 6 3 = true := (hpows.fits (by norm_num)).2
  have hcomputed : ConstevalIntPows.isValid 8 6 3 = false := by decide
  rw [hcomputed] at hreported
  exact Bool.false_ne_true hreported

/-! ## Bit width -/

section BitWidth

variable {T : UnsignedType} {Diff : ℕ}

def FindsBitLength (T : UnsignedType) (Diff : ℕ) : Prop :=
  ∃ n, bitNumber T Diff = some n ∧ (Diff = 0 → n = 0) ∧
    (Diff ≠ 0 → 2 ^ (n - 1) ≤ Diff ∧ Diff < 2 ^ n)

def OffsetsFit (T : UnsignedType) (rangeBegin rangeEnd : ℕ) : Prop :=
  ∃ OneElementBits, bitNumber T (rangeEnd - rangeBegin - 1) = some OneElementBits ∧
    ∀ offset ≤ rangeEnd - rangeBegin - 1, offset < 2 ^ OneElementBits

theorem highestBit_zero (i : ℕ) : highestBit 0 i = none := by
  induction i with
  | zero => rfl
  | succ i ih => rw [highestBit, Nat.zero_testBit, if_neg Bool.false_ne_true, ih]

theorem bitNumber_zero (T : UnsignedType) : bitNumber T 0 = none := by
  rw [bitNumber, Nat.zero_mod, highestBit_zero]

theorem bitNumber_eq_size (hDiff : Diff < 2 ^ T.bits) (hne : Diff ≠ 0) :
    bitNumber T Diff = some (Nat.size Diff) := by
  have hpos : 0 < Nat.size Diff := Nat.size_pos.mpr (Nat.pos_of_ne_zero hne)
  rw [bitNumber_eq_some_iff hDiff]
  exact ⟨hpos, Nat.lt_size.mp (by omega), Nat.lt_size_self Diff⟩

theorem findsBitLength_iff (hDiff : Diff < 2 ^ T.bits) : FindsBitLength T Diff ↔ Diff ≠ 0 := by
  constructor
  · rintro ⟨n, hfound, -⟩ hzero
    rw [hzero, bitNumber_zero] at hfound
    cases hfound
  · intro hne
    have hfound := bitNumber_eq_size hDiff hne
    have hbounds := (bitNumber_eq_some_iff hDiff).mp hfound
    exact ⟨_, hfound, fun hzero => absurd hzero hne, fun _ => hbounds.2⟩

/-- A bitset of the width of `T` loses what does not fit, and the search never reports more
bits than it has. -/
theorem bitNumber_le_bits {n : ℕ} (hfound : bitNumber T Diff = some n) : n ≤ T.bits := by
  have hlt : Diff % 2 ^ T.bits < 2 ^ T.bits := Nat.mod_lt _ (by positivity)
  rw [bitNumber, highestBit_eq_some_iff T.bits n hlt] at hfound
  have hpow := (Nat.pow_lt_pow_iff_right (by norm_num)).mp (lt_of_le_of_lt hfound.2.1 hlt)
  omega

theorem offsetsFit_iff {rangeBegin rangeEnd : ℕ} (hwindow : rangeBegin < rangeEnd) :
    OffsetsFit T rangeBegin rangeEnd ↔
      rangeBegin + 1 < rangeEnd ∧ rangeEnd - rangeBegin - 1 < 2 ^ T.bits := by
  constructor
  · rintro ⟨n, hfound, hoffsets⟩
    constructor
    · by_contra hsingle
      have hzero : rangeEnd - rangeBegin - 1 = 0 := by omega
      rw [hzero, bitNumber_zero] at hfound
      cases hfound
    · exact lt_of_lt_of_le (hoffsets _ le_rfl)
        (Nat.pow_le_pow_right (by norm_num) (bitNumber_le_bits hfound))
  · rintro ⟨htwo, hfits⟩
    have hne : rangeEnd - rangeBegin - 1 ≠ 0 := by omega
    exact ⟨_, bitNumber_eq_size hfits hne,
      fun offset hoffset => lt_of_le_of_lt hoffset (Nat.lt_size_self _)⟩

/-- The search is right for every difference except zero, which is that of the one-character
window. -/
theorem bit_width_found_iff (T : UnsignedType) (Diff : ℕ) (hDiff : Diff < 2 ^ T.bits) :
    (FindsBitLength T Diff ∧
        ∀ rangeBegin rangeEnd, rangeBegin < rangeEnd → rangeEnd - rangeBegin - 1 = Diff →
          OffsetsFit T rangeBegin rangeEnd) ↔ Diff ≠ 0 := by
  rw [findsBitLength_iff hDiff]
  constructor
  · intro hboth
    exact hboth.1
  · intro hne
    refine ⟨hne, ?_⟩
    intro rangeBegin rangeEnd hwindow hdiff
    exact (offsetsFit_iff hwindow).mpr ⟨by omega, by omega⟩

theorem bit_width_found_digits :
    (FindsBitLength .uint32 61 ∧
        ∀ rangeBegin rangeEnd, rangeBegin < rangeEnd → rangeEnd - rangeBegin - 1 = 61 →
          OffsetsFit .uint32 rangeBegin rangeEnd) ↔ 61 ≠ 0 :=
  bit_width_found_iff .uint32 61 (by decide)

theorem not_all_bit_widths_found :
    ¬ ∀ (T : UnsignedType) (Diff : ℕ), Diff < 2 ^ T.bits → FindsBitLength T Diff := by
  intro hclaim
  obtain ⟨n, hfound, -⟩ := hclaim .uint32 0 (by decide)
  rw [bitNumber_zero] at hfound
  cases hfound

end BitWidth

end CppPlay.IntegralString
