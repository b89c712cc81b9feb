import CppPlay.Diff.ShortString
import Mathlib.Data.List.GetD

/-!
# The constructors of `ShortString`

From a C string and from a `std::string_view`.  The loop of the first tests for longer
strings, but only at positions below `Size`.
-/

namespace CppPlay.ShortString

open CppPlay.Lib

variable {T : StringType}

/-! ## The loop over a C string -/

def setAt (s : ShortString T) (i : ℕ) (ch : Char8) : ShortString T :=
  ⟨s.value.set i ch, by rw [List.length_set, s.length_value]⟩

/-- `value[i]` up to the terminating NUL. -/
def charAt (value : List Char8) (i : ℕ) : Char8 := value.getD i 0

/-- The passes from `i` on, as many as `remaining`; nothing is the exit. -/
def copyCString (value : List Char8) (s : ShortString T) (i : ℕ) :
    (remaining : ℕ) → Option (ShortString T)
  | 0 => some s
  | remaining + 1 =>
      if T.size = i then none
      else if charAt value i = 0 then some s
      else copyCString value (s.setAt i (charAt value i)) (i + 1) remaining

def fromCString (value : List Char8) : Option (ShortString T) :=
  copyCString value (ofChars [] (Nat.zero_le _)) 0 T.size

/-- An object of the string, by either constructor. -/
def MadeOf (value : List Char8) (s : ShortString T) : Prop :=
  fromCString value = some s ∨ ofStringView value = some s

structure ConstructorsAgree (T : StringType) (strings : Set (List Char8)) : Prop where
  same_bytes : ∀ value ∈ strings, value.length ≤ T.size → ∃ s : ShortString T,
    fromCString value = some s ∧ ofStringView value = some s ∧
      s.value = value ++ List.replicate (T.size - value.length) 0
  refused : ∀ value ∈ strings, T.size < value.length →
    (fromCString value : Option (ShortString T)) = none ∧
      (ofStringView value : Option (ShortString T)) = none
  different : ∀ value ∈ strings, ∀ value' ∈ strings, value ≠ value' →
    ∀ s s' : ShortString T, MadeOf value s → MadeOf value' s' →
      s.runtimeValue ≠ s'.runtimeValue ∧
        (∀ x, s.constantValue = some x → s'.constantValue ≠ some x) ∧
        (s.constantValue = some s.runtimeValue → ¬ s.Matches s')
  no_prefix : ∀ value ∈ strings, ∀ value' ∈ strings, T.size < value'.length →
    value <+: value' → ∀ s s' : ShortString T, MadeOf value s → MadeOf value' s' →
      ¬ s.Matches s'

theorem charAt_of_lt {value : List Char8} {i : ℕ} (hi : i < value.length) :
    charAt value i = value.get ⟨i, hi⟩ := by
  rw [charAt, List.getD_eq_getElem _ _ hi, List.get_eq_getElem]

theorem charAt_ne_zero {value : List Char8} (hnul : 0 ∉ value) {i : ℕ}
    (hi : i < value.length) : charAt value i ≠ 0 := by
  intro hzero
  rw [charAt_of_lt hi] at hzero
  exact hnul (hzero ▸ List.get_mem value ⟨i, hi⟩)

theorem charAt_of_le {value : List Char8} {i : ℕ} (hi : value.length ≤ i) :
    charAt value i = 0 :=
  List.getD_eq_default _ _ hi

def taken (value : List Char8) (i : ℕ) (hi : i ≤ T.size) : ShortString T :=
  ofChars (value.take i) ((List.length_take_le _ _).trans hi)

theorem setAt_taken {value : List Char8} {i : ℕ} (hi : i < value.length) (hroom : i < T.size) :
    (taken value i hroom.le : ShortString T).setAt i (charAt value i) =
      taken value (i + 1) hroom := by
  apply ShortString.ext
  have hlength : (value.take i).length = i := List.length_take_of_le hi.le
  have hlength' : (value.take (i + 1)).length = i + 1 := List.length_take_of_le hi
  have hrest : T.size - i = T.size - (i + 1) + 1 := by omega
  simp only [setAt, taken, ofChars, hlength, hlength', hrest, List.replicate_succ]
  rw [List.set_append_right _ _ hlength.le, hlength, Nat.sub_self, List.set_cons_zero,
    List.take_succ_eq_append_getElem hi, charAt_of_lt hi, List.append_assoc]
  rfl

/-- The test for longer strings is made only where there is room. -/
theorem copyCString_eq {value : List Char8} (hnul : 0 ∉ value) {i remaining : ℕ}
    (hi : i ≤ value.length) (hremaining : i + remaining = T.size) (hroom : i ≤ T.size) :
    copyCString value (taken value i hroom : ShortString T) i remaining =
      some (taken value T.size le_rfl) := by
  induction remaining generalizing i with
  | zero =>
      have hend : i = T.size := by omega
      subst hend
      rfl
  | succ remaining ih =>
      have hlt : i < T.size := by omega
      rw [copyCString, if_neg hlt.ne']
      rcases hi.lt_or_eq with hmore | hend
      · rw [if_neg (charAt_ne_zero hnul hmore), setAt_taken hmore hlt]
        exact ih hmore (by omega) hlt
      · subst hend
        rw [if_pos (charAt_of_le le_rfl)]
        simp only [taken, List.take_length, List.take_of_length_le hroom]

/-- The exit of the loop over a C string is never taken. -/
theorem fromCString_eq {value : List Char8} (hnul : 0 ∉ value) :
    (fromCString value : Option (ShortString T)) = some (ofCString value) := by
  have hloop := copyCString_eq (T := T) hnul (Nat.zero_le _) (Nat.zero_add T.size)
    (Nat.zero_le _)
  have hall : (value.take T.size).takeWhile (· ≠ 0) = value.take T.size := by
    have hnul' : 0 ∉ value.take T.size := fun hzero => hnul (List.mem_of_mem_take hzero)
    simpa using takeWhile_append_of_noNul hnul' []
  simp only [taken, List.take_zero] at hloop
  rw [fromCString, hloop]
  simp only [ofCString, hall]

theorem ofStringView_of_le {value : List Char8} (hnul : 0 ∉ value)
    (hfits : value.length ≤ T.size) :
    (ofStringView value : Option (ShortString T)) = some (ofCString value) := by
  have hall : (value.take T.size).takeWhile (· ≠ 0) = value := by
    rw [List.take_of_length_le hfits]
    simpa using takeWhile_append_of_noNul hnul []
  rw [ofStringView, dif_pos hfits, Option.some.injEq]
  apply ShortString.ext
  simp only [ofCString, hall]

theorem MadeOf.ofStringView_eq {value : List Char8} {s : ShortString T} (hnul : 0 ∉ value)
    (hfits : value.length ≤ T.size) (hmade : MadeOf value s) : ofStringView value = some s := by
  rcases hmade with hcString | hstringView
  · rw [ofStringView_of_le hnul hfits, ← fromCString_eq hnul, hcString]
  · exact hstringView

/-! ## Signed digits -/

/-- As many signed characters as there are places are known from their sum. -/
theorem exactSum_inj {vs vs' : List Char8} (hlength : vs.length = vs'.length)
    (hmod : exactSum vs ≡ exactSum vs' [ZMOD 256 ^ vs.length]) : vs = vs' := by
  induction vs generalizing vs' with
  | nil => exact (List.length_eq_zero_iff.mp hlength.symm).symm
  | cons ch vs ih =>
      cases vs' with
      | nil => simp at hlength
      | cons ch' vs' =>
          rw [exactSum_cons, exactSum_cons, List.length_cons, pow_succ'] at hmod
          have hlow : ch.toInt ≡ ch'.toInt [ZMOD 256] := by
            have hmod256 := hmod.of_dvd (Dvd.intro _ rfl)
            simpa [Int.ModEq] using hmod256
          have hch : ch = ch' := by
            have hrange : -128 ≤ ch.toInt ∧ ch.toInt < 128 := ⟨BitVec.le_toInt ch, BitVec.toInt_lt⟩
            have hrange' : -128 ≤ ch'.toInt ∧ ch'.toInt < 128 :=
              ⟨BitVec.le_toInt ch', BitVec.toInt_lt⟩
            apply BitVec.eq_of_toInt_eq
            rw [Int.ModEq] at hlow
            omega
          subst hch
          have hhigh : 256 * exactSum vs ≡ 256 * exactSum vs' [ZMOD 256 * 256 ^ vs.length] :=
            Int.ModEq.add_left_cancel' _ hmod
          rw [ih (Nat.succ.inj hlength) (Int.ModEq.mul_left_cancel' (by norm_num) hhigh)]

theorem constantValue_injective {s s' : ShortString T} {x : ℤ}
    (hs : s.constantValue = some x) (hs' : s'.constantValue = some x) : s = s' := by
  have hwrap : T.int.wrap (exactSum s.value) = T.int.wrap (exactSum s'.value) := by
    rw [← eq_wrap_of_constantValue hs, ← eq_wrap_of_constantValue hs']
  rw [IntType.wrap_eq_wrap_iff, StringType.int, two_pow_eight_mul, ← s.length_value] at hwrap
  exact ShortString.ext (exactSum_inj (s.length_value.trans s'.length_value.symm) hwrap)

/-! ## When the constructors agree -/

theorem MadeOf.ne {value value' : List Char8} {s s' : ShortString T} (hnul : 0 ∉ value)
    (hnul' : 0 ∉ value') (hfits : value.length ≤ T.size) (hfits' : value'.length ≤ T.size)
    (hne : value ≠ value') (hs : MadeOf value s) (hs' : MadeOf value' s') : s ≠ s' := by
  rintro rfl
  exact hne (ofStringView_inj hnul hnul' (hs.ofStringView_eq hnul hfits)
    (hs'.ofStringView_eq hnul' hfits'))

/-- The constructors agree on the strings, and tell them apart, exactly when each has
at most as many characters as `T` has bytes. -/
theorem constructorsAgree_iff {strings : Set (List Char8)} (hnul : ∀ value ∈ strings, 0 ∉ value) :
    ConstructorsAgree T strings ↔ ∀ value ∈ strings, value.length ≤ T.size := by
  constructor
  · intro hagree value hvalue
    by_contra hlong
    have hnone := (hagree.refused value hvalue (not_le.mp hlong)).1
    rw [fromCString_eq (hnul value hvalue)] at hnone
    exact Option.some_ne_none _ hnone
  · intro hfits
    refine ⟨?_, ?_, ?_, ?_⟩
    · intro value hvalue hlength
      refine ⟨ofChars value hlength, ?_, dif_pos hlength, rfl⟩
      rw [fromCString_eq (hnul value hvalue), ← ofStringView_of_le (hnul value hvalue) hlength]
      exact dif_pos hlength
    · intro value hvalue hlong
      exact absurd hlong (hfits value hvalue).not_gt
    · intro value hvalue value' hvalue' hne s s' hs hs'
      have hdiffer : s ≠ s' := hs.ne (hnul value hvalue) (hnul value' hvalue')
        (hfits value hvalue) (hfits value' hvalue') hne hs'
      refine ⟨fun hsame => hdiffer (runtimeValue_injective hsame),
        fun x hx hx' => hdiffer (constantValue_injective hx hx'), fun hlabel hmatches => ?_⟩
      rw [Matches, hlabel, Option.some.injEq] at hmatches
      exact hdiffer (runtimeValue_injective hmatches)
    · intro value hvalue value' hvalue' hlong
      exact absurd hlong (hfits value' hvalue').not_gt

/-- Four different strings that fit, each the beginning of the next. -/
theorem constructorsAgree_beginnings : ConstructorsAgree .uint32
    {[], [0x61], [0x61, 0x62], [0x61, 0x62, 0x63, 0x64]} :=
  (constructorsAgree_iff (by simp)).mpr (by simp [StringType.uint32])

/-- `"abcde"` is taken for its own prefix `"abcd"`. -/
theorem constructors_disagree_abcde :
    ¬ ∀ (T : StringType) (strings : Set (List Char8)), (∀ value ∈ strings, 0 ∉ value) →
      ConstructorsAgree T strings := by
  intro hall
  have hagree := hall .uint32 {[0x61, 0x62, 0x63, 0x64], [0x61, 0x62, 0x63, 0x64, 0x65]}
    (by simp)
  have hlabel : ¬ (ofCString [0x61, 0x62, 0x63, 0x64] : ShortString .uint32).constantValue =
      some (ofCString [0x61, 0x62, 0x63, 0x64, 0x65]).runtimeValue :=
    hagree.no_prefix [0x61, 0x62, 0x63, 0x64] (by simp)
      [0x61, 0x62, 0x63, 0x64, 0x65] (by simp) (by decide) (by decide) _ _
      (.inl (fromCString_eq (by decide))) (.inl (fromCString_eq (by decide)))
  exact hlabel (by decide)

end CppPlay.ShortString
