import CppPlay.Lib.MachineInt
import Mathlib.Data.Nat.Digits.Lemmas

/-!
# `ShortString`

Strings of at most `sizeof(T)` characters as labels of a `switch`.  Where the
value is a constant the characters are shifted and added, at run time the bytes
are taken as an integer of a little-endian machine.
-/

namespace CppPlay

open CppPlay.Lib

/-- A `char` has a sign, as on the target platforms. -/
abbrev Char8 := BitVec 8

/-- An integer type of a size that `operator T` has a branch for. -/
structure StringType where
  size : ℕ
  signed : Bool
  size_mem : size ∈ [1, 2, 4, 8, 16]

namespace StringType

def uint32 : StringType := ⟨4, false, by decide⟩

def int (T : StringType) : IntType := ⟨8 * T.size, T.signed⟩

/-- The type of `T(ch) << n`: what is shorter than an `int` becomes one. -/
def promoted (T : StringType) : IntType := if T.size < 4 then ⟨32, true⟩ else T.int

end StringType

@[ext]
structure ShortString (T : StringType) where
  value : List Char8
  length_value : value.length = T.size

namespace ShortString

variable {T : StringType}

/-! ## Constructors -/

def ofChars (value : List Char8) (hfits : value.length ≤ T.size) : ShortString T :=
  ⟨value ++ List.replicate (T.size - value.length) 0, by simp; omega⟩

/-- A longer string ends the program. -/
def ofStringView (value : List Char8) : Option (ShortString T) :=
  if hfits : value.length ≤ T.size then some (ofChars value hfits) else none

/-- The characters before the first NUL, as many as there is room for; the check for
longer strings is never true. -/
def ofCString (value : List Char8) : ShortString T :=
  ofChars ((value.take T.size).takeWhile (· ≠ 0))
    ((List.takeWhile_prefix _).length_le.trans (List.length_take_le _ _))

theorem takeWhile_append_of_noNul {value : List Char8} (hnul : 0 ∉ value) (rest : List Char8) :
    (value ++ rest).takeWhile (· ≠ 0) = value ++ rest.takeWhile (· ≠ 0) := by
  apply List.takeWhile_append_of_pos
  intro ch hch
  exact decide_eq_true fun hzero => hnul (hzero ▸ hch)

theorem takeWhile_ofChars {value : List Char8} (hnul : 0 ∉ value)
    (hfits : value.length ≤ T.size) :
    (ofChars value hfits : ShortString T).value.takeWhile (· ≠ 0) = value := by
  rw [ofChars, takeWhile_append_of_noNul hnul]
  cases T.size - value.length <;> simp [List.replicate_succ]

theorem ofStringView_inj {value value' : List Char8} {s : ShortString T} (hnul : 0 ∉ value)
    (hnul' : 0 ∉ value') (hs : ofStringView value = some s) (hs' : ofStringView value' = some s) :
    value = value' := by
  rw [ofStringView, Option.dite_none_right_eq_some] at hs hs'
  rcases hs with ⟨hfits, hs⟩
  rcases hs' with ⟨hfits', hs'⟩
  rw [← takeWhile_ofChars hnul hfits, ← takeWhile_ofChars hnul' hfits', Option.some.inj hs,
    Option.some.inj hs']

/-- Of a longer C string the characters that have no room are left out. -/
theorem ofCString_append {value : List Char8} (hfull : T.size ≤ value.length)
    (more : List Char8) : (ofCString (value ++ more) : ShortString T) = ofCString value := by
  simp only [ofCString, List.take_append_of_le_length hfull]

/-! ## `operator T` -/

def shifted (T : StringType) (ch : Char8) (p : ℕ) : ℤ :=
  T.promoted.wrap (T.int.wrap ch.toInt * 2 ^ (8 * p))

def summands (s : ShortString T) : List ℤ :=
  (s.value.zipIdx.map fun entry => shifted T entry.1 entry.2).reverse

/-- Nothing when a sum of signed integers overflows, which is no constant. -/
def constantValue (s : ShortString T) : Option ℤ :=
  if T.size = 1 then some (T.int.wrap (s.value.headD 0).toInt)
  else
    match s.summands with
    | [] => none
    | top :: below => (T.promoted.sumFrom top below).map T.int.wrap

def littleEndian (vs : List Char8) : ℕ := Nat.ofDigits 256 (vs.map BitVec.toNat)

def runtimeValue (s : ShortString T) : ℤ :=
  T.int.wrap (littleEndian s.value : ℕ)

/-- `case` with the label in a `switch` over the string. -/
def Matches (label s : ShortString T) : Prop := label.constantValue = some s.runtimeValue

/-! ## Bytes and their signs -/

def signBit (ch : Char8) : ℕ := if ch.msb then 1 else 0

def signBits (vs : List Char8) : ℕ := Nat.ofDigits 256 (vs.map signBit)

theorem toInt_eq (ch : Char8) : ch.toInt = ch.toNat - 256 * signBit ch := by
  rw [BitVec.toInt_eq_msb_cond, signBit]
  split_ifs <;> simp

theorem signBit_eq_zero_iff {ch : Char8} : signBit ch = 0 ↔ ch.msb = false := by
  cases hmsb : ch.msb <;> simp [signBit, hmsb]

theorem digits_lt (vs : List Char8) : ∀ d ∈ vs.map BitVec.toNat, d < 256 := by
  intro d hd
  rcases List.mem_map.mp hd with ⟨ch, _, rfl⟩
  exact ch.isLt

/-- The bits that the signs add to the sum, without the one of the last character. -/
theorem signBits_dvd_iff (vs : List Char8) (top : Char8) :
    256 ^ (vs.length + 1) ∣ 256 * signBits (vs ++ [top]) ↔
      ∀ ch ∈ vs, ch.msb = false := by
  have hlt : Nat.ofDigits 256 (vs.map signBit) < 256 ^ vs.length := by
    rw [← List.length_map (f := signBit)]
    apply Nat.ofDigits_lt_base_pow_length (by norm_num)
    intro d hd
    rcases List.mem_map.mp hd with ⟨ch, _, rfl⟩
    rw [signBit]
    split_ifs <;> norm_num
  rw [pow_succ', Nat.mul_dvd_mul_iff_left (by norm_num), signBits, List.map_append, Nat.ofDigits_append,
    List.length_map, Nat.dvd_add_left (Dvd.intro _ rfl)]
  constructor
  · intro hdvd ch hch
    have hzero := Nat.digits_zero_of_eq_zero (by norm_num) (Nat.eq_zero_of_dvd_of_lt hdvd hlt)
    exact signBit_eq_zero_iff.mp (hzero _ (List.mem_map_of_mem hch))
  · intro hnone
    have hzero : vs.map signBit = List.replicate vs.length 0 := by
      rw [List.eq_replicate_iff]
      refine ⟨List.length_map _, fun d hd => ?_⟩
      rcases List.mem_map.mp hd with ⟨ch, hch, rfl⟩
      exact signBit_eq_zero_iff.mpr (hnone ch hch)
    rw [hzero]
    simp

/-! ## The sum of the characters -/

theorem bits_le_promoted (T : StringType) : T.int.bits ≤ T.promoted.bits := by
  rw [StringType.promoted]
  split_ifs with hsmall
  · simp only [StringType.int]
    omega
  · exact le_rfl

theorem size_pos (T : StringType) : 0 < T.size := by
  have hmem := T.size_mem
  simp only [List.mem_cons, List.not_mem_nil, or_false] at hmem
  omega

theorem two_pow_eight_mul (n : ℕ) : (2 : ℤ) ^ (8 * n) = 256 ^ n := by
  rw [pow_mul]
  norm_num

theorem shifted_modEq (ch : Char8) (p : ℕ) :
    shifted T ch p ≡ ch.toInt * 256 ^ p [ZMOD 2 ^ T.int.bits] := by
  have hcut : shifted T ch p ≡ T.int.wrap ch.toInt * 2 ^ (8 * p) [ZMOD 2 ^ T.int.bits] :=
    (IntType.wrap_modEq _).of_dvd (pow_dvd_pow 2 (bits_le_promoted T))
  rw [two_pow_eight_mul] at hcut
  exact hcut.trans ((IntType.wrap_modEq ch.toInt).mul_right _)

def exactSum (vs : List Char8) : ℤ :=
  (littleEndian vs : ℤ) - 256 * (signBits vs : ℕ)

theorem exactSum_cons (ch : Char8) (vs : List Char8) :
    exactSum (ch :: vs) = ch.toInt + 256 * exactSum vs := by
  simp only [exactSum, littleEndian, signBits, List.map_cons, Nat.ofDigits_cons, toInt_eq]
  push_cast
  ring

theorem sum_shifted_modEq (vs : List Char8) (p : ℕ) :
    ((vs.zipIdx p).map fun entry => shifted T entry.1 entry.2).sum ≡
      256 ^ p * exactSum vs [ZMOD 2 ^ T.int.bits] := by
  induction vs generalizing p with
  | nil => simp [exactSum, littleEndian, signBits]
  | cons ch vs ih =>
      rw [List.zipIdx_cons, List.map_cons, List.sum_cons, exactSum_cons]
      have hsplit : (256 : ℤ) ^ p * (ch.toInt + 256 * exactSum vs) =
          ch.toInt * 256 ^ p + 256 ^ (p + 1) * exactSum vs := by ring
      rw [hsplit]
      exact (shifted_modEq ch p).add (ih (p + 1))

theorem eq_wrap_of_constantValue {s : ShortString T} {x : ℤ}
    (hconstant : s.constantValue = some x) : x = T.int.wrap (exactSum s.value) := by
  rw [constantValue] at hconstant
  split_ifs at hconstant with hone
  · obtain ⟨ch, hch⟩ := List.length_eq_one_iff.mp (s.length_value.trans hone)
    rw [hch, List.headD_cons, Option.some.injEq] at hconstant
    rw [hch, ← hconstant, exactSum_cons]
    simp [exactSum, littleEndian, signBits]
  · have hsum := sum_shifted_modEq (T := T) s.value 0
    rw [← List.sum_reverse, ← summands, pow_zero, one_mul] at hsum
    cases hsummands : s.summands with
    | nil => simp [hsummands] at hconstant
    | cons top below =>
        simp only [hsummands, Option.map_eq_some_iff] at hconstant
        rcases hconstant with ⟨r, hr, hx⟩
        rw [hsummands, List.sum_cons] at hsum
        have hmod := (IntType.modEq_of_sumFrom hr).of_dvd
          (pow_dvd_pow 2 (bits_le_promoted T))
        rw [← hx, IntType.wrap_eq_wrap_iff]
        exact hmod.trans hsum

/-! ## Characters without a sign -/

theorem toInt_of_msb {ch : Char8} (hmsb : ch.msb = false) : ch.toInt = ch.toNat :=
  BitVec.toInt_eq_toNat_of_msb hmsb

theorem toNat_lt_of_msb {ch : Char8} (hmsb : ch.msb = false) : 2 * ch.toNat < 256 := by
  have hlt := BitVec.msb_eq_false_iff_two_mul_lt.mp hmsb
  simpa using hlt

theorem pow_size_le (T : StringType) : (256 : ℤ) ^ T.size ≤ 2 ^ T.promoted.bits := by
  rw [← two_pow_eight_mul]
  exact pow_le_pow_right₀ (by norm_num) (bits_le_promoted T)

theorem shifted_of_msb {ch : Char8} {p : ℕ} (hmsb : ch.msb = false) (hp : p < T.size) :
    shifted T ch p = ch.toNat * 256 ^ p := by
  have hlt : (2 * ch.toNat : ℤ) < 256 := by exact_mod_cast toNat_lt_of_msb hmsb
  have hfirst : (256 : ℤ) ^ 1 ≤ 256 ^ T.size := pow_le_pow_right₀ (by norm_num) (size_pos T)
  have hinner : T.int.wrap ch.toInt = ch.toNat := by
    rw [toInt_of_msb hmsb]
    apply IntType.wrap_of_nonneg (Int.natCast_nonneg _)
    rw [StringType.int, two_pow_eight_mul]
    linarith
  rw [shifted, hinner, two_pow_eight_mul]
  apply IntType.wrap_of_nonneg (by positivity)
  calc 2 * ((ch.toNat : ℤ) * 256 ^ p) = 2 * ch.toNat * 256 ^ p := by ring
    _ < 256 * 256 ^ p := by gcongr
    _ = 256 ^ (p + 1) := by ring
    _ ≤ 256 ^ T.size := pow_le_pow_right₀ (by norm_num) hp
    _ ≤ 2 ^ T.promoted.bits := pow_size_le T

theorem sum_shifted_of_msb {vs : List Char8} (hvs : ∀ ch ∈ vs, ch.msb = false) (p : ℕ)
    (hlength : p + vs.length ≤ T.size) :
    (∀ y ∈ (vs.zipIdx p).map fun entry => shifted T entry.1 entry.2, 0 ≤ y) ∧
      ((vs.zipIdx p).map fun entry => shifted T entry.1 entry.2).sum =
        256 ^ p * (littleEndian vs : ℤ) := by
  induction vs generalizing p with
  | nil => simp [littleEndian]
  | cons ch vs ih =>
      rw [List.forall_mem_cons] at hvs
      rw [List.length_cons] at hlength
      obtain ⟨hnonneg, hsum⟩ := ih hvs.2 (p + 1) (by omega)
      have hfirst : shifted T ch p = ch.toNat * 256 ^ p := shifted_of_msb hvs.1 (by omega)
      rw [List.zipIdx_cons, List.map_cons, List.sum_cons, hsum, hfirst, List.forall_mem_cons]
      refine ⟨⟨by positivity, hnonneg⟩, ?_⟩
      rw [littleEndian, littleEndian, List.map_cons, Nat.ofDigits_cons]
      push_cast
      ring

theorem top_bounds (hsigned : T.promoted.signed = true) (htwo : 2 ≤ T.size) (top : Char8) :
    -2 ^ T.promoted.bits ≤ 2 * shifted T top (T.size - 1) ∧
      2 * (shifted T top (T.size - 1) + 256 ^ (T.size - 1)) ≤ 2 ^ T.promoted.bits := by
  have hlow : -128 ≤ top.toInt := BitVec.le_toInt top
  have hhigh : top.toInt < 128 := BitVec.toInt_lt
  by_cases hsmall : T.size < 4
  · have hsize : T.size = 2 := by
      have hmem := T.size_mem
      simp only [List.mem_cons, List.not_mem_nil, or_false] at hmem
      omega
    have hpromoted : T.promoted = ⟨32, true⟩ := if_pos hsmall
    have hint := IntType.wrap_bounds (T := T.int) top.toInt
    rw [StringType.int, hsize] at hint
    norm_num at hint
    have hvalue : shifted T top (T.size - 1) = T.int.wrap top.toInt * 256 := by
      rw [shifted, hpromoted, StringType.int, hsize]
      apply IntType.wrap_of_signed rfl
      · norm_num
        linarith [hint.1]
      · norm_num
        linarith [hint.2]
    rw [hvalue, hpromoted, StringType.int, hsize]
    norm_num
    constructor <;> linarith [hint.1, hint.2]
  · have hpromoted : T.promoted = T.int := if_neg hsmall
    have hpow : (2 : ℤ) ^ T.int.bits = 256 * 256 ^ (T.size - 1) := by
      rw [StringType.int, two_pow_eight_mul, ← pow_succ', Nat.sub_add_cancel (by omega)]
    have hpos : (0 : ℤ) < 256 ^ (T.size - 1) := by positivity
    rw [hpromoted] at hsigned ⊢
    have hinner : T.int.wrap top.toInt = top.toInt := by
      apply IntType.wrap_of_signed hsigned <;> rw [hpow] <;> nlinarith
    have hvalue : shifted T top (T.size - 1) = top.toInt * 256 ^ (T.size - 1) := by
      rw [shifted, hpromoted, hinner, two_pow_eight_mul]
      apply IntType.wrap_of_signed hsigned <;> rw [hpow] <;> nlinarith
    rw [hvalue, hpow]
    constructor <;> nlinarith

theorem value_ne_nil (s : ShortString T) : s.value ≠ [] := by
  rw [← List.length_pos_iff, s.length_value]
  exact size_pos T

theorem exists_constantValue {s : ShortString T}
    (hsigns : ∀ ch ∈ s.value.dropLast, ch.msb = false) : ∃ x, s.constantValue = some x := by
  rw [constantValue]
  split_ifs with hone
  · exact ⟨_, rfl⟩
  · have hlength : s.value.dropLast.length = T.size - 1 := by
      rw [List.length_dropLast, s.length_value]
    have hpos := size_pos T
    have hsummands : s.summands = shifted T (s.value.getLast s.value_ne_nil) (T.size - 1) ::
        (s.value.dropLast.zipIdx.map fun entry => shifted T entry.1 entry.2).reverse := by
      have hvalue := List.dropLast_append_getLast s.value_ne_nil
      rw [summands]
      nth_rewrite 1 [← hvalue]
      rw [List.zipIdx_append, List.map_append, List.reverse_append, hlength, Nat.zero_add]
      rfl
    have hsum : ∃ r, T.promoted.sumFrom (shifted T (s.value.getLast s.value_ne_nil) (T.size - 1))
        (s.value.dropLast.zipIdx.map fun entry => shifted T entry.1 entry.2).reverse =
          some r := by
      cases hsigned : T.promoted.signed with
      | false => exact IntType.sumFrom_of_unsigned hsigned _ _
      | true =>
          obtain ⟨hnonneg, hbelow⟩ := sum_shifted_of_msb (T := T) hsigns 0 (by omega)
          obtain ⟨hlow, hhigh⟩ := top_bounds hsigned (by omega)
            (s.value.getLast s.value_ne_nil)
          have hlt : littleEndian s.value.dropLast < 256 ^ (T.size - 1) := by
            have hdigits := Nat.ofDigits_lt_base_pow_length (by norm_num)
              (digits_lt s.value.dropLast)
            rwa [List.length_map, hlength] at hdigits
          have hltInt : (littleEndian s.value.dropLast : ℤ) < 256 ^ (T.size - 1) := by
            exact_mod_cast hlt
          refine ⟨_, IntType.sumFrom_of_nonneg hsigned hlow ?_ ?_⟩
          · intro y hy
            exact hnonneg y (List.mem_reverse.mp hy)
          · rw [List.sum_reverse, hbelow]
            linarith
    rcases hsum with ⟨r, hr⟩
    exact ⟨T.int.wrap r, by simp [hsummands, hr]⟩

/-! ## Both branches -/

theorem modEq_iff_msb (s : ShortString T) :
    exactSum s.value ≡ littleEndian s.value [ZMOD 2 ^ T.int.bits] ↔
      ∀ ch ∈ s.value.dropLast, ch.msb = false := by
  have hlength : s.value.dropLast.length + 1 = T.size := by
    rw [List.length_dropLast, s.length_value, Nat.sub_add_cancel (size_pos T)]
  rw [← signBits_dvd_iff s.value.dropLast (s.value.getLast s.value_ne_nil),
    List.dropLast_append_getLast, hlength, Int.modEq_iff_dvd, exactSum, sub_sub_cancel,
    StringType.int, two_pow_eight_mul]
  exact_mod_cast Iff.rfl

theorem constantValue_eq_runtimeValue_iff (s : ShortString T) :
    s.constantValue = some s.runtimeValue ↔ ∀ ch ∈ s.value.dropLast, ch.msb = false := by
  constructor
  · intro hsame
    have hwrap := eq_wrap_of_constantValue hsame
    rw [runtimeValue, IntType.wrap_eq_wrap_iff] at hwrap
    exact (modEq_iff_msb s).mp hwrap.symm
  · intro hsigns
    rcases exists_constantValue hsigns with ⟨x, hx⟩
    rw [hx, eq_wrap_of_constantValue hx, Option.some.injEq, runtimeValue,
      IntType.wrap_eq_wrap_iff]
    exact (modEq_iff_msb s).mpr hsigns

theorem runtimeValue_injective {s s' : ShortString T}
    (hsame : s.runtimeValue = s'.runtimeValue) : s = s' := by
  rw [runtimeValue, runtimeValue, IntType.wrap_eq_wrap_iff, StringType.int,
    two_pow_eight_mul] at hsame
  have hlt : ∀ s : ShortString T, littleEndian s.value < 256 ^ T.size := by
    intro s
    have hdigits := Nat.ofDigits_lt_base_pow_length (by norm_num) (digits_lt s.value)
    rwa [List.length_map, s.length_value] at hdigits
  have hnat : littleEndian s.value = littleEndian s'.value := by
    have hmod : littleEndian s.value ≡ littleEndian s'.value [MOD 256 ^ T.size] := by
      rw [← Int.natCast_modEq_iff]
      exact_mod_cast hsame
    exact hmod.eq_of_lt_of_lt (hlt s) (hlt s')
  have hbytes : s.value.map BitVec.toNat = s'.value.map BitVec.toNat :=
    Nat.ofDigits_inj_of_len_eq (by norm_num) (by simp [s.length_value, s'.length_value])
      (digits_lt _) (digits_lt _) hnat
  exact ShortString.ext
    (List.map_injective_iff.mpr (fun _ _ => BitVec.eq_of_toNat_eq) hbytes)

/-- The constant and the value at run time are the same, and the label matches what
it should, exactly when no character but the last one has the high bit. -/
theorem label_agrees_iff (s : ShortString T) :
    (s.constantValue = some s.runtimeValue ∧ ∀ val : ShortString T, s.Matches val ↔ val = s) ↔
      ∀ ch ∈ s.value.dropLast, ch.msb = false := by
  rw [← constantValue_eq_runtimeValue_iff]
  constructor
  · exact fun hboth => hboth.1
  · intro hsame
    refine ⟨hsame, fun val => ?_⟩
    rw [Matches, hsame, Option.some.injEq]
    constructor
    · exact fun hval => (runtimeValue_injective hval).symm
    · rintro rfl
      rfl

/-- `"\xe9"` at run time is no case of its own label. -/
theorem label_disagrees_highBit :
    ¬ ∀ (T : StringType) (s : ShortString T), s.constantValue = some s.runtimeValue ∧
      ∀ val : ShortString T, s.Matches val ↔ val = s := by
  intro hall
  have hsame := (hall .uint32 (ofChars [0xe9] (by decide))).1
  exact absurd hsame (by decide)

end ShortString

end CppPlay
