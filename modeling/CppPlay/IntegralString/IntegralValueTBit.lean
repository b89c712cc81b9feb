import CppPlay.IntegralString.ConstexprMath
import CppPlay.Lib.PackedDigits

/-!
# `IntegralValueTBit`

A string packed into one unsigned integer, a fixed number of bits for each
character.  `init` has two branches, one for constant evaluation and one for run
time; both are modelled as they are written.
-/

namespace CppPlay.IntegralString

open CppPlay.Lib

inductive ErrorPolicy where
  | MaxInvalid
  | Exception
deriving DecidableEq

/-- What ends a constructor without a value: an exception, or an index behind an
array, which constant evaluation refuses to compile. -/
inductive InitError where
  | runtimeError (what : String)
  | outOfRange
deriving DecidableEq

/-- An instantiation that compiles: the assertion on the window holds and the
search for the bit width ends with a result. -/
structure IntegralValueTBit where
  T : UnsignedType
  rangeBegin : ℕ
  rangeEnd : ℕ
  begin_lt_end : rangeBegin < rangeEnd
  end_lt : rangeEnd < 2 ^ sizeBits
  translationMap : TranslationMap
  errorPolicy : ErrorPolicy
  OneElementBits : ℕ
  bitNumber_eq : bitNumber T (rangeEnd - rangeBegin - 1) = some OneElementBits

namespace IntegralValueTBit

variable (c : IntegralValueTBit)

def Base : ℕ := c.rangeEnd - c.rangeBegin

def MaxBits : ℕ := c.T.bits

def MaxElementNum : ℕ := c.MaxBits / c.OneElementBits

def Shifts : List ℕ := constevalIntSums sizeBits c.OneElementBits c.MaxBits

abbrev InvalidValue : c.T.Value := c.T.max

def isValid (value : c.T.Value) : Bool := value ≠ c.InvalidValue

def placed (v : CppChar) (p : ℕ) : Option c.T.Value :=
  c.Shifts[p]?.map fun shift => v.signExtend c.T.bits <<< shift

/-! ## The branch of `init` for run time -/

def reject (what : String) : Except InitError c.T.Value :=
  match c.errorPolicy with
  | .MaxInvalid => .ok c.InvalidValue
  | .Exception => .error (.runtimeError what)

def runtimeLoop (value : c.T.Value) (p : ℕ) : List CppChar → Except InitError c.T.Value
  | [] => .ok value
  | ch :: rest =>
      match c.translationMap.translate ch with
      | none => .error .outOfRange
      | some v =>
          if toSize v < c.rangeBegin ∨ c.rangeEnd ≤ toSize v then
            c.reject "Input is out of range"
          else
            match c.placed v p with
            | none => .error .outOfRange
            | some bits => runtimeLoop (value ||| bits) (p + 1) rest

def runtimeInit (value : List CppChar) : Except InitError c.T.Value :=
  if c.MaxElementNum < value.length then c.reject "Input is too long "
  else c.runtimeLoop 0 0 value

/-! ## The branch of `init` for constant evaluation -/

/-- `Range[v - begin]`: the difference is a `size_t`, so it wraps around. -/
def rangeIndex (v : CppChar) : ℕ :=
  (toSize v + 2 ^ sizeBits - c.rangeBegin) % 2 ^ sizeBits

def constantLoop (value : c.T.Value) (p : ℕ) : List CppChar → Except InitError c.T.Value
  | [] => .ok value
  | ch :: rest =>
      match c.translationMap.translate ch with
      | none => .error .outOfRange
      | some v =>
          if c.Base ≤ c.rangeIndex v then .error .outOfRange
          else
            match c.placed v p with
            | none => .error .outOfRange
            | some bits => constantLoop (value ||| bits) (p + 1) rest

def constantInit (value : List CppChar) : Except InitError c.T.Value :=
  c.constantLoop 0 0 value

/-! ## Back to a string -/

def setBit (mask : CppChar) (pos : ℕ) : CppChar := mask ||| ((1 : CppChar) <<< pos)

def OneElemenMask : CppChar := (List.range c.OneElementBits).foldl setBit 0

def toArray (value : c.T.Value) : Option (List CppChar) :=
  c.Shifts.mapM fun shift =>
    c.translationMap.reverseTranslate ((value >>> shift).setWidth 8 &&& c.OneElemenMask)

def toString (value : c.T.Value) : Option (List CppChar) :=
  (c.toArray value).map (List.takeWhile (· ≠ 0))

/-! ## What compiles -/

variable {c}

theorem oneElementBits_pos : 0 < c.OneElementBits := by
  have hfound := c.bitNumber_eq
  rw [bitNumber, highestBit_eq_some_iff _ _ (Nat.mod_lt _ (by positivity))] at hfound
  exact hfound.1

theorem oneElementBits_le : c.OneElementBits ≤ c.T.bits := by
  have hfound := c.bitNumber_eq
  have hlt : (c.rangeEnd - c.rangeBegin - 1) % 2 ^ c.T.bits < 2 ^ c.T.bits :=
    Nat.mod_lt _ (by positivity)
  rw [bitNumber, highestBit_eq_some_iff _ _ hlt] at hfound
  have hpow : 2 ^ (c.OneElementBits - 1) < 2 ^ c.T.bits := lt_of_le_of_lt hfound.2.1 hlt
  have hless := (Nat.pow_lt_pow_iff_right (by norm_num)).mp hpow
  omega

theorem shifts_eq :
    c.Shifts = (List.range c.MaxElementNum).map (· * c.OneElementBits) :=
  constevalIntSums_eq oneElementBits_pos oneElementBits_le c.T.bits_lt

theorem maxElementNum_pos : 0 < c.MaxElementNum :=
  Nat.div_pos oneElementBits_le oneElementBits_pos

theorem maxElementNum_mul_le : c.MaxElementNum * c.OneElementBits ≤ c.T.bits :=
  Nat.div_mul_le_self _ _

theorem placed_eq (v : CppChar) {p : ℕ} (hp : p < c.MaxElementNum) :
    c.placed v p = some (v.signExtend c.T.bits <<< (p * c.OneElementBits)) := by
  simp [placed, shifts_eq, hp]

theorem placed_eq_none (v : CppChar) {p : ℕ} (hp : c.MaxElementNum ≤ p) :
    c.placed v p = none := by
  simp [placed, shifts_eq, hp]

theorem toSize_lt (v : CppChar) : toSize v < 2 ^ sizeBits :=
  BitVec.isLt _

/-- The two range checks are one: the index wraps around exactly when the code
is below the window. -/
theorem base_le_rangeIndex_iff (v : CppChar) :
    c.Base ≤ c.rangeIndex v ↔ toSize v < c.rangeBegin ∨ c.rangeEnd ≤ toSize v := by
  have hv := toSize_lt v
  have hwindow := c.begin_lt_end
  have hend := c.end_lt
  rw [Base, rangeIndex]
  by_cases hlow : toSize v < c.rangeBegin
  · rw [Nat.mod_eq_of_lt (by omega)]
    omega
  · have hsub : toSize v + 2 ^ sizeBits - c.rangeBegin =
        toSize v - c.rangeBegin + 2 ^ sizeBits := by omega
    rw [hsub, Nat.add_mod_right, Nat.mod_eq_of_lt (by omega)]
    omega

/-! ## The two branches agree -/

theorem runtimeLoop_of_constantLoop (value : c.T.Value) (p : ℕ) (s : List CppChar)
    {x : c.T.Value} (hconstant : c.constantLoop value p s = .ok x) :
    c.runtimeLoop value p s = .ok x := by
  induction s generalizing value p with
  | nil => simpa [runtimeLoop, constantLoop] using hconstant
  | cons ch rest ih =>
      cases hch : c.translationMap.translate ch with
      | none => simp [constantLoop, hch] at hconstant
      | some v =>
          by_cases hrange : c.Base ≤ c.rangeIndex v
          · simp [constantLoop, hch, hrange] at hconstant
          · cases hplaced : c.placed v p with
            | none => simp [constantLoop, hch, hrange, hplaced] at hconstant
            | some bits =>
                simp only [constantLoop, hch, hrange, hplaced, if_false] at hconstant
                rw [base_le_rangeIndex_iff] at hrange
                simp only [runtimeLoop, hch, hrange, hplaced, if_false]
                exact ih _ _ hconstant

theorem length_le_of_constantLoop (value : c.T.Value) (p : ℕ) (s : List CppChar)
    {x : c.T.Value} (hp : p ≤ c.MaxElementNum)
    (hconstant : c.constantLoop value p s = .ok x) :
    p + s.length ≤ c.MaxElementNum := by
  induction s generalizing value p with
  | nil => simpa using hp
  | cons ch rest ih =>
      cases hch : c.translationMap.translate ch with
      | none => simp [constantLoop, hch] at hconstant
      | some v =>
          by_cases hrange : c.Base ≤ c.rangeIndex v
          · simp [constantLoop, hch, hrange] at hconstant
          · by_cases hroom : p < c.MaxElementNum
            · simp only [constantLoop, hch, hrange, placed_eq v hroom, if_false] at hconstant
              have hrest := ih _ (p + 1) hroom hconstant
              simp only [List.length_cons]
              omega
            · simp [constantLoop, hch, hrange, placed_eq_none v (not_lt.mp hroom)] at hconstant

/-- What constant evaluation accepts, the run-time branch packs to the same value. -/
theorem runtimeInit_of_constantInit {s : List CppChar} {x : c.T.Value}
    (hconstant : c.constantInit s = .ok x) : c.runtimeInit s = .ok x := by
  have hlength := length_le_of_constantLoop 0 0 s (Nat.zero_le _) hconstant
  rw [runtimeInit, if_neg (by omega)]
  exact runtimeLoop_of_constantLoop 0 0 s hconstant

theorem constantLoop_eq_runtimeLoop (value : c.T.Value) (p : ℕ) (s : List CppChar)
    (hwindow : ∀ ch ∈ s, ∀ v, c.translationMap.translate ch = some v →
      c.rangeBegin ≤ toSize v ∧ toSize v < c.rangeEnd) :
    c.constantLoop value p s = c.runtimeLoop value p s := by
  induction s generalizing value p with
  | nil => rfl
  | cons ch rest ih =>
      simp only [List.forall_mem_cons] at hwindow
      cases hch : c.translationMap.translate ch with
      | none => simp [constantLoop, runtimeLoop, hch]
      | some v =>
          have hinside : ¬ (toSize v < c.rangeBegin ∨ c.rangeEnd ≤ toSize v) := by
            have hv := hwindow.1 v hch
            omega
          have hindex : ¬ c.Base ≤ c.rangeIndex v := by rwa [base_le_rangeIndex_iff]
          cases hplaced : c.placed v p with
          | none => simp [constantLoop, runtimeLoop, hch, hinside, hindex, hplaced]
          | some bits =>
              simp only [constantLoop, runtimeLoop, hch, hinside, hindex, hplaced, if_false]
              exact ih _ _ hwindow.2

/-! ## Rejection -/

theorem runtimeLoop_reject (value : c.T.Value) (p : ℕ) (s : List CppChar)
    (code : CppChar → CppChar) (hroom : p + s.length ≤ c.MaxElementNum)
    (htranslate : ∀ ch ∈ s, c.translationMap.translate ch = some (code ch))
    (houtside : ∃ ch ∈ s, toSize (code ch) < c.rangeBegin ∨ c.rangeEnd ≤ toSize (code ch)) :
    c.runtimeLoop value p s = c.reject "Input is out of range" := by
  induction s generalizing value p with
  | nil => simp at houtside
  | cons ch rest ih =>
      simp only [List.length_cons, List.forall_mem_cons] at hroom htranslate
      by_cases hch : toSize (code ch) < c.rangeBegin ∨ c.rangeEnd ≤ toSize (code ch)
      · simp only [runtimeLoop, htranslate.1, hch, if_true]
      · have hplaced := placed_eq (c := c) (code ch) (p := p) (by omega)
        simp only [runtimeLoop, htranslate.1, hch, hplaced, if_false]
        apply ih
        · omega
        · exact htranslate.2
        · simpa [hch] using houtside

/-! ## Packing -/

/-- Or-ing in a code that fits its digit appends the digit. -/
theorem toNat_or_shiftLeft {ds : List ℕ} {value : c.T.Value} {v : CppChar}
    (hvalue : value.toNat = Nat.ofDigits (2 ^ c.OneElementBits) ds)
    (hds : ∀ d ∈ ds, d < 2 ^ c.OneElementBits) (hroom : ds.length < c.MaxElementNum)
    (hv : (v.signExtend c.T.bits).toNat < 2 ^ c.OneElementBits) :
    (value ||| v.signExtend c.T.bits <<< (ds.length * c.OneElementBits)).toNat =
      Nat.ofDigits (2 ^ c.OneElementBits) (ds ++ [(v.signExtend c.T.bits).toNat]) := by
  have hle : (ds.length + 1) * c.OneElementBits ≤ c.T.bits :=
    le_trans (Nat.mul_le_mul_right _ hroom) maxElementNum_mul_le
  have hfits : (v.signExtend c.T.bits).toNat <<< (ds.length * c.OneElementBits) <
      2 ^ c.T.bits := by
    rw [Nat.shiftLeft_eq]
    calc (v.signExtend c.T.bits).toNat * 2 ^ (ds.length * c.OneElementBits)
        < 2 ^ c.OneElementBits * 2 ^ (ds.length * c.OneElementBits) :=
          Nat.mul_lt_mul_of_pos_right hv (by positivity)
      _ = 2 ^ ((ds.length + 1) * c.OneElementBits) := by rw [← pow_add]; ring_nf
      _ ≤ 2 ^ c.T.bits := Nat.pow_le_pow_right (by norm_num) hle
  rw [BitVec.toNat_or, BitVec.toNat_shiftLeft, Nat.mod_eq_of_lt hfits, hvalue]
  exact PackedDigits.or_shiftLeft hds _

theorem runtimeLoop_pack (ds : List ℕ) (s : List CppChar) (value : c.T.Value)
    (code : CppChar → CppChar)
    (hvalue : value.toNat = Nat.ofDigits (2 ^ c.OneElementBits) ds)
    (hds : ∀ d ∈ ds, d < 2 ^ c.OneElementBits)
    (hroom : ds.length + s.length ≤ c.MaxElementNum)
    (htranslate : ∀ ch ∈ s, c.translationMap.translate ch = some (code ch))
    (hwindow : ∀ ch ∈ s, c.rangeBegin ≤ toSize (code ch) ∧ toSize (code ch) < c.rangeEnd)
    (hcode : ∀ ch ∈ s, ((code ch).signExtend c.T.bits).toNat < 2 ^ c.OneElementBits) :
    ∃ x, c.runtimeLoop value ds.length s = .ok x ∧
      x.toNat = Nat.ofDigits (2 ^ c.OneElementBits)
        (ds ++ s.map fun ch => ((code ch).signExtend c.T.bits).toNat) := by
  induction s generalizing ds value with
  | nil => exact ⟨value, rfl, by simpa using hvalue⟩
  | cons ch rest ih =>
      simp only [List.length_cons, List.forall_mem_cons] at hroom htranslate hwindow hcode
      have hinside : ¬ (toSize (code ch) < c.rangeBegin ∨ c.rangeEnd ≤ toSize (code ch)) := by
        omega
      have hplace : ds.length < c.MaxElementNum := by omega
      simp only [runtimeLoop, htranslate.1, hinside, placed_eq (code ch) hplace, if_false]
      have hrest := ih (ds ++ [((code ch).signExtend c.T.bits).toNat]) _
        (toNat_or_shiftLeft hvalue hds hplace hcode.1)
        (by
          intro d hd
          rcases List.mem_append.mp hd with hd | hd
          · exact hds d hd
          · rw [List.mem_singleton.mp hd]
            exact hcode.1)
        (by simp only [List.length_append, List.length_singleton]; omega)
        htranslate.2 hwindow.2 hcode.2
      simpa using hrest

theorem runtimeInit_pack (s : List CppChar) (code : CppChar → CppChar)
    (hlength : s.length ≤ c.MaxElementNum)
    (htranslate : ∀ ch ∈ s, c.translationMap.translate ch = some (code ch))
    (hwindow : ∀ ch ∈ s, c.rangeBegin ≤ toSize (code ch) ∧ toSize (code ch) < c.rangeEnd)
    (hcode : ∀ ch ∈ s, ((code ch).signExtend c.T.bits).toNat < 2 ^ c.OneElementBits) :
    ∃ x, c.runtimeInit s = .ok x ∧
      x.toNat = Nat.ofDigits (2 ^ c.OneElementBits)
        (s.map fun ch => ((code ch).signExtend c.T.bits).toNat) := by
  rw [runtimeInit, if_neg (by omega)]
  exact runtimeLoop_pack [] s 0 code (by simp) (by simp) (by simpa using hlength)
    htranslate hwindow hcode

/-! ## Unpacking -/

theorem toNat_oneElemenMask (hbits : c.OneElementBits ≤ 8) :
    c.OneElemenMask.toNat = 2 ^ c.OneElementBits - 1 := by
  rw [OneElemenMask]
  interval_cases c.OneElementBits <;> decide

theorem unpacked_eq {value : c.T.Value} {ds : List ℕ}
    (hvalue : value.toNat = Nat.ofDigits (2 ^ c.OneElementBits) ds)
    (hds : ∀ d ∈ ds, d < 2 ^ c.OneElementBits) (hbits : c.OneElementBits ≤ 8) (i : ℕ) :
    (value >>> (i * c.OneElementBits)).setWidth 8 &&& c.OneElemenMask =
      BitVec.ofNat 8 (ds[i]?.getD 0) := by
  apply BitVec.eq_of_toNat_eq
  have hdigit := PackedDigits.shiftRight_mod hds i
  have hpow : 2 ^ c.OneElementBits ∣ 2 ^ 8 := pow_dvd_pow 2 hbits
  have hsmall : ds[i]?.getD 0 < 2 ^ c.OneElementBits := by
    rw [← hdigit]
    exact Nat.mod_lt _ (by positivity)
  have hbyte : 2 ^ c.OneElementBits ≤ 2 ^ 8 := Nat.pow_le_pow_right (by norm_num) hbits
  rw [BitVec.toNat_and, toNat_oneElemenMask hbits, Nat.and_two_pow_sub_one_eq_mod,
    BitVec.toNat_setWidth, BitVec.toNat_ushiftRight, hvalue, Nat.mod_mod_of_dvd _ hpow,
    hdigit, BitVec.toNat_ofNat, Nat.mod_eq_of_lt (by omega)]

theorem toArray_eq {value : c.T.Value} {ds : List ℕ} (decode : ℕ → CppChar)
    (hvalue : value.toNat = Nat.ofDigits (2 ^ c.OneElementBits) ds)
    (hds : ∀ d ∈ ds, d < 2 ^ c.OneElementBits) (hbits : c.OneElementBits ≤ 8)
    (hdecode : ∀ d, d = 0 ∨ d ∈ ds →
      c.translationMap.reverseTranslate (BitVec.ofNat 8 d) = some (decode d)) :
    c.toArray value =
      some ((List.range c.MaxElementNum).map fun i => decode (ds[i]?.getD 0)) := by
  have hentry : ∀ i, c.translationMap.reverseTranslate
      ((value >>> (i * c.OneElementBits)).setWidth 8 &&& c.OneElemenMask) =
        pure (decode (ds[i]?.getD 0)) := by
    intro i
    rw [unpacked_eq hvalue hds hbits i]
    apply hdecode
    cases hget : ds[i]? with
    | none => exact Or.inl rfl
    | some d => exact Or.inr (List.mem_of_getElem? hget)
  rw [toArray, shifts_eq, List.mapM_map]
  simp only [Function.comp_def, hentry]
  exact List.mapM_pure

theorem toString_eq {value : c.T.Value} {ds : List ℕ} (decode : ℕ → CppChar)
    (hvalue : value.toNat = Nat.ofDigits (2 ^ c.OneElementBits) ds)
    (hds : ∀ d ∈ ds, d < 2 ^ c.OneElementBits) (hbits : c.OneElementBits ≤ 8)
    (hlength : ds.length ≤ c.MaxElementNum)
    (hdecode : ∀ d, d = 0 ∨ d ∈ ds →
      c.translationMap.reverseTranslate (BitVec.ofNat 8 d) = some (decode d))
    (hzero : decode 0 = 0) (hnonzero : ∀ d ∈ ds, decode d ≠ 0) :
    c.toString value = some (ds.map decode) := by
  have hpadded : (List.range c.MaxElementNum).map (fun i => decode (ds[i]?.getD 0)) =
      ds.map decode ++ List.replicate (c.MaxElementNum - ds.length) 0 := by
    apply List.ext_getElem
    · simp only [List.length_map, List.length_range, List.length_append,
        List.length_replicate]
      omega
    · intro i hi _
      rw [List.getElem_map, List.getElem_range]
      by_cases hlt : i < ds.length
      · simp [List.getElem_append_left, hlt]
      · rw [List.getElem_append_right (by simpa using hlt)]
        simp [hlt, hzero]
  rw [toString, toArray_eq decode hvalue hds hbits hdecode, hpadded]
  have hcut : (ds.map decode ++ List.replicate (c.MaxElementNum - ds.length) 0).takeWhile
      (· ≠ 0) = ds.map decode := by
    rw [List.takeWhile_append_of_pos (by simpa using hnonzero)]
    cases c.MaxElementNum - ds.length with
    | zero => simp
    | succ n => simp [List.replicate_succ]
  rw [Option.map_some, hcut]

end IntegralValueTBit

end CppPlay.IntegralString
