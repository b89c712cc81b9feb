import CppPlay.IntegralString.IntegralValueTMS
import CppPlay.Lib.WrappedSums

/-!
# The order of `IntegralValueTMS`

The digits of a string are added up with the powers of the base, which are cut to
`size_t` and to `T`.  The values compare like the strings exactly when the cut
powers still leave each place room for all that is below it.
-/

namespace CppPlay.IntegralString

open CppPlay.Lib

namespace IntegralValueTMS

variable (c : IntegralValueTMS)

def InAlphabet (s : List CppChar) : Prop :=
  s.length ≤ c.Size ∧ ∀ ch ∈ s, c.outOfBase (c.offset ch) = false

/-- A value that one of the two branches of `init` gives a string that it accepts. -/
def Encodes (s : List CppChar) (x : c.T.Value) : Prop :=
  c.constantInit s = .ok x ∨ c.isValid s = true ∧ c.runtimeInit s = .ok x

def PreservesOrder : Prop :=
  ∀ s t, c.InAlphabet s → c.InAlphabet t → s.length = t.length →
    ∀ x y, c.Encodes s x → c.Encodes t y →
      (x < y ↔ s.map BitVec.toInt < t.map BitVec.toInt)

def digitCount : ℕ := min c.rangeEnd 128 - c.rangeBegin

def digit (ch : CppChar) : ℕ := (c.offset ch).toNat

/-- The table of powers with the width of the products and of `T`. -/
def weights : WrappedSums where
  weight p := c.Pows.getD p 0 % 2 ^ min sizeBits c.T.bits
  productMod := 2 ^ min sizeBits c.T.bits
  sumMod := 2 ^ c.T.bits
  productMod_le := Nat.pow_le_pow_right (by norm_num) (min_le_right _ _)
  weight_lt _ := Nat.mod_lt _ (by positivity)

/-- Every power is above what the lower places can hold, and no product and no sum
is cut. -/
def WeightsFit : Prop := c.weights.Fits (c.digitCount - 1) c.Size

def encoded (s : List CppChar) : c.T.Value := c.runtimeLoop 0 0 (s.reverse.map c.offset)

variable {c}

/-! ## Both branches give the sum of the digits -/

theorem outOfBase_eq_false_iff {v : ℤ} :
    c.outOfBase v = false ↔ 0 ≤ v ∧ v < c.Base := by
  rw [outOfBase, decide_eq_false_iff_not, not_or, not_lt, not_le]

theorem constantLoop_of_inside (value : c.T.Value) (p : ℕ) {vs : List ℤ}
    (hvs : ∀ v ∈ vs, c.outOfBase v = false) :
    c.constantLoop value p vs = c.runtimeLoop value p vs := by
  induction vs generalizing value p with
  | nil => rfl
  | cons v rest ih =>
      rw [List.forall_mem_cons] at hvs
      rw [constantLoop, runtimeLoop, hvs.1, if_neg Bool.false_ne_true]
      exact ih _ _ hvs.2

theorem constantInit_of_inAlphabet {s : List CppChar} (hs : c.InAlphabet s) :
    c.constantInit s = .ok (c.encoded s) := by
  have hsame : s.reverse.map c.narrowed = s.reverse.map c.offset := by
    apply List.map_congr_left
    intro ch hch
    exact narrowed_eq (begin_le_of_outOfBase (hs.2 ch (List.mem_reverse.mp hch)))
  rw [constantInit, if_neg (not_lt.mpr hs.1), hsame, constantLoop_of_inside, encoded]
  intro v hv
  rcases List.mem_map.mp hv with ⟨ch, hch, rfl⟩
  exact hs.2 ch (List.mem_reverse.mp hch)

theorem runtimeInit_of_isValid {s : List CppChar} {x : c.T.Value} (hvalid : c.isValid s = true)
    (hruntime : c.runtimeInit s = .ok x) : x = c.encoded s := by
  rw [runtimeInit, if_pos hvalid] at hruntime
  split_ifs at hruntime with hthrow
  exact (Except.ok.inj hruntime).symm

theorem Encodes.eq_encoded {s : List CppChar} {x : c.T.Value} (hx : c.Encodes s x)
    (hs : c.InAlphabet s) : x = c.encoded s := by
  rcases hx with hconstant | ⟨hvalid, hruntime⟩
  · rw [constantInit_of_inAlphabet hs] at hconstant
    exact (Except.ok.inj hconstant).symm
  · exact runtimeInit_of_isValid hvalid hruntime

theorem runtimeLoop_append (value : c.T.Value) (p : ℕ) (vs : List ℤ) (v : ℤ) :
    c.runtimeLoop value p (vs ++ [v]) =
      c.accumulate (c.runtimeLoop value p vs) v (p + vs.length) := by
  induction vs generalizing value p with
  | nil => rfl
  | cons first vs ih =>
      rw [List.cons_append, runtimeLoop, ih, runtimeLoop, List.length_cons, Nat.add_assoc,
        Nat.add_comm 1]

theorem encoded_cons (ch : CppChar) (s : List CppChar) :
    c.encoded (ch :: s) = c.accumulate (c.encoded s) (c.offset ch) s.length := by
  rw [encoded, List.reverse_cons, List.map_append, List.map_singleton, runtimeLoop_append,
    List.length_map, List.length_reverse, Nat.zero_add]
  rfl

theorem mod_two_pow_mod (a m n : ℕ) : a % 2 ^ m % 2 ^ n = a % 2 ^ min m n := by
  rcases le_total m n with hle | hle
  · rw [min_eq_left hle]
    exact Nat.mod_eq_of_lt ((Nat.mod_lt _ (by positivity)).trans_le
      (Nat.pow_le_pow_right (by norm_num) hle))
  · rw [min_eq_right hle]
    exact Nat.mod_mod_of_dvd _ (pow_dvd_pow 2 hle)

theorem toNat_accumulate (value : c.T.Value) {v : ℤ} (hv : 0 ≤ v) (p : ℕ) :
    (c.accumulate value v p).toNat =
      (value.toNat + c.weights.term v.toNat p) % c.weights.sumMod := by
  have hterm : c.weights.term v.toNat p =
      v.toNat * c.Pows.getD p 0 % 2 ^ sizeBits % 2 ^ c.T.bits := by
    rw [WrappedSums.term, mod_two_pow_mod]
    exact Nat.mul_mod_mod _ _ _
  have hfirst : (BitVec.ofInt sizeBits v).toNat = v.toNat % 2 ^ sizeBits := by
    rw [← Int.toNat_of_nonneg hv, BitVec.ofInt_natCast, BitVec.toNat_ofNat, Int.toNat_natCast]
  rw [accumulate, BitVec.toNat_add, BitVec.toNat_setWidth, BitVec.toNat_mul, hfirst,
    BitVec.toNat_ofNat, ← Nat.mul_mod, hterm]
  rfl

theorem toNat_encoded {s : List CppChar} (hs : ∀ ch ∈ s, c.outOfBase (c.offset ch) = false) :
    (c.encoded s).toNat = c.weights.pack (s.map c.digit) := by
  induction s with
  | nil => rfl
  | cons ch s ih =>
      rw [List.forall_mem_cons] at hs
      rw [encoded_cons, toNat_accumulate _ (outOfBase_eq_false_iff.mp hs.1).1, ih hs.2,
        List.map_cons, WrappedSums.pack, List.length_map, digit]

/-! ## Characters and digits -/

theorem offset_eq_digit {ch : CppChar} (hch : c.outOfBase (c.offset ch) = false) :
    ch.toInt = c.rangeBegin + c.digit ch := by
  have hnonneg := (outOfBase_eq_false_iff.mp hch).1
  rw [digit, Int.toNat_of_nonneg hnonneg, offset]
  ring

theorem digit_lt {ch : CppChar} (hch : c.outOfBase (c.offset ch) = false) :
    c.digit ch < c.digitCount := by
  have hlt : ch.toInt < 128 := BitVec.toInt_lt
  have hsum := offset_eq_digit hch
  have hbase := (outOfBase_eq_false_iff.mp hch).2
  rw [offset, Base] at hbase
  have hwindow := c.begin_lt_end
  rw [digitCount]
  omega

theorem digits_le {s : List CppChar} (hs : ∀ ch ∈ s, c.outOfBase (c.offset ch) = false) :
    ∀ d ∈ s.map c.digit, d ≤ c.digitCount - 1 := by
  intro d hd
  rcases List.mem_map.mp hd with ⟨ch, hch, rfl⟩
  have hlt := digit_lt (hs ch hch)
  omega

theorem map_toInt_lt_iff {s t : List CppChar}
    (hs : ∀ ch ∈ s, c.outOfBase (c.offset ch) = false)
    (ht : ∀ ch ∈ t, c.outOfBase (c.offset ch) = false) :
    s.map BitVec.toInt < t.map BitVec.toInt ↔ s.map c.digit < t.map c.digit := by
  induction s generalizing t with
  | nil => cases t <;> simp
  | cons ch s ih =>
      cases t with
      | nil => simp
      | cons ch' t =>
          rw [List.forall_mem_cons] at hs ht
          simp only [List.map_cons, List.cons_lt_cons_iff, ih hs.2 ht.2,
            offset_eq_digit hs.1, offset_eq_digit ht.1, add_lt_add_iff_left, add_right_inj,
            Nat.cast_lt, Nat.cast_inj]

variable (c) in
def charOf (d : ℕ) : CppChar := BitVec.ofNat 8 (c.rangeBegin + d)

theorem toInt_charOf {d : ℕ} (hd : d < c.digitCount) :
    (c.charOf d).toInt = c.rangeBegin + d := by
  rw [digitCount] at hd
  rw [charOf, BitVec.toInt_ofNat', Int.bmod_eq_of_le_mul_two (by omega) (by omega)]
  push_cast
  rfl

theorem inside_charOf {d : ℕ} (hd : d < c.digitCount) :
    c.outOfBase (c.offset (c.charOf d)) = false := by
  rw [outOfBase_eq_false_iff, offset, toInt_charOf hd, Base]
  rw [digitCount] at hd
  omega

theorem digit_charOf {d : ℕ} (hd : d < c.digitCount) : c.digit (c.charOf d) = d := by
  rw [digit, offset, toInt_charOf hd]
  omega

theorem inAlphabet_charsOf {ds : List ℕ} (hds : ∀ d ∈ ds, d < c.digitCount)
    (hlength : ds.length ≤ c.Size) :
    c.InAlphabet (ds.map c.charOf) ∧ (ds.map c.charOf).map c.digit = ds := by
  refine ⟨⟨by rwa [List.length_map], fun ch hch => ?_⟩, ?_⟩
  · rcases List.mem_map.mp hch with ⟨d, hd, rfl⟩
    exact inside_charOf (hds d hd)
  · rw [List.map_map]
    exact (List.map_congr_left fun d hd => digit_charOf (hds d hd)).trans (List.map_id ds)

/-! ## The table of powers -/

theorem base_pos : 0 < c.Base := Nat.sub_pos_of_lt c.begin_lt_end

theorem pows_getD (hfits : c.Base ^ (c.Size - 1) < 2 ^ sizeBits) {p : ℕ} (hp : p < c.Size) :
    c.Pows.getD p 0 = c.Base ^ p := by
  rw [Pows, constevalIntPows_eq base_pos (by omega) hfits (by norm_num [sizeBits])]
  simp [hp]

theorem pows_getD_of_cut (hcut : 2 ^ sizeBits ≤ c.Base ^ (c.Size - 1)) (p : ℕ) :
    c.Pows.getD p 0 = 0 := by
  rw [Pows, constevalIntPows_of_cut base_pos hcut (by norm_num [sizeBits]),
    List.getD_eq_getElem?_getD, List.getElem?_replicate]
  split_ifs <;> rfl

theorem mul_below_lt {B top : ℕ} {w : WrappedSums} {n : ℕ} (hB : top < B)
    (hpow : ∀ p < n, w.weight p = B ^ p) : top * w.below n < B ^ n := by
  induction n with
  | zero => simp [WrappedSums.below]
  | succ n ih =>
      have hless := ih fun p hp => hpow p (by omega)
      rw [WrappedSums.below_succ, hpow n (Nat.lt_succ_self n), Nat.mul_add, pow_succ']
      have hmul : (top + 1) * B ^ n ≤ B * B ^ n := Nat.mul_le_mul_right _ hB
      rw [Nat.succ_mul] at hmul
      omega

/-- A base whose powers up to the size of `T` fit into `size_t` and into `T`. -/
theorem weightsFit_of_pow_le (hpow : c.Base ^ c.Size ≤ 2 ^ min sizeBits c.T.bits) :
    c.WeightsFit := by
  have hbase : c.digitCount - 1 < c.Base := by
    have hwindow := c.begin_lt_end
    rw [Base, digitCount]
    omega
  have hlast : c.Base ^ (c.Size - 1) < 2 ^ min sizeBits c.T.bits := by
    have hsize : c.Size = c.Size - 1 + 1 := (Nat.sub_add_cancel c.T.size_pos).symm
    rcases Nat.eq_or_lt_of_le (Nat.one_le_iff_ne_zero.mpr base_pos.ne') with hone | hmore
    · rw [← hone, one_pow]
      apply Nat.one_lt_two_pow
      have hbits : 0 < c.T.bits := Nat.mul_pos c.T.size_pos (by norm_num)
      simp only [sizeBits]
      omega
    · rw [hsize] at hpow
      exact (Nat.pow_lt_pow_right hmore (Nat.lt_succ_self _)).trans_le hpow
  have hweight : ∀ p < c.Size, c.weights.weight p = c.Base ^ p := by
    intro p hp
    have hle : c.Base ^ p ≤ c.Base ^ (c.Size - 1) := Nat.pow_le_pow_right base_pos (by omega)
    simp only [weights]
    rw [pows_getD (hlast.trans_le (Nat.pow_le_pow_right (by norm_num) (min_le_left _ _))) hp]
    exact Nat.mod_eq_of_lt (hle.trans_lt hlast)
  intro p hp
  have hnext : c.Base ^ (p + 1) ≤ 2 ^ min sizeBits c.T.bits :=
    (Nat.pow_le_pow_right base_pos hp).trans hpow
  refine ⟨?_, ?_, ?_⟩
  · rw [hweight p hp]
    exact mul_below_lt hbase fun q hq => hweight q (hq.trans hp)
  · rw [hweight p hp]
    calc (c.digitCount - 1) * c.Base ^ p
        < c.Base * c.Base ^ p := Nat.mul_lt_mul_of_pos_right hbase (pow_pos base_pos p)
      _ = c.Base ^ (p + 1) := (pow_succ' _ _).symm
      _ ≤ c.weights.productMod := hnext
  · calc (c.digitCount - 1) * c.weights.below (p + 1)
        < c.Base ^ (p + 1) := mul_below_lt hbase fun q hq => hweight q (by omega)
      _ ≤ c.weights.sumMod := hnext.trans c.weights.productMod_le

/-! ## The order -/

theorem eq_of_digitCount_le {s t : List CppChar} (hone : c.digitCount ≤ 1)
    (hs : c.InAlphabet s) (ht : c.InAlphabet t) (hlength : s.length = t.length) : s = t := by
  have hall : ∀ s : List CppChar, c.InAlphabet s →
      s = List.replicate s.length (c.charOf 0) := by
    intro s hs
    rw [List.eq_replicate_iff]
    refine ⟨rfl, fun ch hch => ?_⟩
    have hlt := digit_lt (hs.2 ch hch)
    apply BitVec.eq_of_toInt_eq
    rw [offset_eq_digit (hs.2 ch hch), toInt_charOf (by omega)]
    omega
  rw [hall s hs, hall t ht, hlength]

/-- The values compare like the strings exactly when there are no two characters to
tell apart or the cut powers leave room for the digits. -/
theorem preservesOrder_iff (c : IntegralValueTMS) :
    c.PreservesOrder ↔ c.digitCount ≤ 1 ∨ c.WeightsFit := by
  constructor
  · intro horder
    by_cases hone : c.digitCount ≤ 1
    · exact Or.inl hone
    · right
      apply WrappedSums.fits_of_keepsOrder (by omega)
      intro ds es hds hes hlength hlength' hlt
      have hchars : ∀ ds : List ℕ, (∀ d ∈ ds, d ≤ c.digitCount - 1) → ds.length = c.Size →
          c.InAlphabet (ds.map c.charOf) ∧ (ds.map c.charOf).map c.digit = ds := by
        intro ds hds hlength
        apply inAlphabet_charsOf _ hlength.le
        intro d hd
        have hle := hds d hd
        omega
      obtain ⟨hs, hsDigits⟩ := hchars ds hds hlength
      obtain ⟨ht, htDigits⟩ := hchars es hes hlength'
      have hcompare := horder _ _ hs ht (by simp [hlength, hlength']) _ _
        (Or.inl (constantInit_of_inAlphabet hs)) (Or.inl (constantInit_of_inAlphabet ht))
      rw [map_toInt_lt_iff hs.2 ht.2, hsDigits, htDigits, BitVec.lt_def, toNat_encoded hs.2,
        toNat_encoded ht.2, hsDigits, htDigits] at hcompare
      exact hcompare.mpr hlt
  · intro hcase s t hs ht hlength x y hx hy
    rw [hx.eq_encoded hs, hy.eq_encoded ht]
    rcases hcase with hone | hfit
    · rw [eq_of_digitCount_le hone hs ht hlength]
      exact iff_of_false (BitVec.lt_irrefl _) (List.lt_irrefl _)
    · rw [map_toInt_lt_iff hs.2 ht.2, BitVec.lt_def, toNat_encoded hs.2, toNat_encoded ht.2]
      apply WrappedSums.pack_lt_iff hfit (digits_le hs.2) (digits_le ht.2)
      · simpa using hlength
      · simpa using hs.1

def wideLetters : IntegralValueTMS where
  T := .uint128
  rangeBegin := 97
  rangeEnd := 123
  begin_lt_end := by norm_num
  end_lt := by norm_num
  isShortInputOk := true
  throwOnInvalid := true

/-- The powers of 26 do not fit into a `size_t`: `"a"` and `"b"` are both 0. -/
theorem not_preservesOrder_wideLetters : ¬ ∀ c : IntegralValueTMS, c.PreservesOrder := by
  intro horder
  have hinside : ∀ ch : CppChar, ch = 0x61 ∨ ch = 0x62 → wideLetters.InAlphabet [ch] := by
    rintro ch (rfl | rfl) <;> exact ⟨by decide, by decide⟩
  have hcompare := horder wideLetters [0x61] [0x62] (hinside _ (Or.inl rfl))
    (hinside _ (Or.inr rfl)) rfl 0 0 (Or.inl (by decide)) (Or.inl (by decide))
  exact absurd (hcompare.mpr (by decide)) (by decide)

end IntegralValueTMS

end CppPlay.IntegralString
