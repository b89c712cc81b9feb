import CppPlay.IntegralString.IntegralValueTBit

/-!
# Which windows encode without loss

`IntegralValueTBit` without a translation sizes its digits for the distance to
`begin` but packs the characters themselves.  The encoding is one-to-one exactly
when the characters fit all the same and no full string packs to the value that
is reserved for invalid input.
-/

namespace CppPlay.IntegralString

open CppPlay.Lib

structure AsciiWindow where
  rangeBegin : ℕ
  rangeEnd : ℕ
  two_le : rangeBegin + 2 ≤ rangeEnd
  end_le : rangeEnd ≤ 128

namespace AsciiWindow

variable (window : AsciiWindow) (T : UnsignedType) (policy : ErrorPolicy)

theorem bits_ge (T : UnsignedType) : 8 ≤ T.bits := by
  have hsize := T.size_pos
  rw [UnsignedType.bits]
  omega

theorem diff_lt : window.rangeEnd - window.rangeBegin - 1 < 2 ^ T.bits := by
  have hend := window.end_le
  have hbyte : 2 ^ 8 ≤ 2 ^ T.bits := Nat.pow_le_pow_right (by norm_num) (bits_ge T)
  omega

theorem bitNumber_isSome :
    ∃ n, bitNumber T (window.rangeEnd - window.rangeBegin - 1) = some n := by
  have hwindow := window.two_le
  have hdiff : window.rangeEnd - window.rangeBegin - 1 ≠ 0 := by omega
  refine ⟨Nat.log2 (window.rangeEnd - window.rangeBegin - 1) + 1, ?_⟩
  rw [bitNumber_eq_some_iff (window.diff_lt T)]
  exact ⟨Nat.succ_pos _, Nat.log2_self_le hdiff, Nat.lt_log2_self⟩

def encoding : IntegralValueTBit where
  T := T
  rangeBegin := window.rangeBegin
  rangeEnd := window.rangeEnd
  begin_lt_end := by have := window.two_le; omega
  end_lt := by have := window.end_le; norm_num [sizeBits]; omega
  translationMap := noTranslationMap
  errorPolicy := policy
  OneElementBits := (bitNumber T (window.rangeEnd - window.rangeBegin - 1)).getD 0
  bitNumber_eq := by
    cases window.bitNumber_isSome T with
    | intro n hn => rw [hn, Option.getD_some]

end AsciiWindow

namespace IntegralValueTBit

/-- The strings that the run-time constructor accepts, without NUL. -/
structure Accepts (c : IntegralValueTBit) (s : List CppChar) : Prop where
  nulFree : 0 ∉ s
  short : s.length ≤ c.MaxElementNum
  inWindow : ∀ ch ∈ s, c.rangeBegin ≤ toSize ch ∧ toSize ch < c.rangeEnd

def InjectiveEncoding (c : IntegralValueTBit) : Prop :=
  ∀ s₁ s₂, c.Accepts s₁ → c.Accepts s₂ → s₁ ≠ s₂ →
    ∃ x₁ x₂, c.runtimeInit s₁ = .ok x₁ ∧ c.runtimeInit s₂ = .ok x₂ ∧
      x₁ ≠ x₂ ∧ x₁ ≠ c.InvalidValue ∧ x₂ ≠ c.InvalidValue ∧
      c.toString x₁ = some s₁ ∧ c.toString x₂ = some s₂

theorem accepts_nil (c : IntegralValueTBit) : c.Accepts [] :=
  ⟨by simp, by simp, by simp⟩

end IntegralValueTBit

namespace AsciiWindow

open IntegralValueTBit

variable (window : AsciiWindow) (T : UnsignedType) (policy : ErrorPolicy)

theorem oneElementBits_le_seven : (window.encoding T policy).OneElementBits ≤ 7 := by
  have hfound : bitNumber T (window.rangeEnd - window.rangeBegin - 1) =
      some (window.encoding T policy).OneElementBits :=
    (window.encoding T policy).bitNumber_eq
  have hend := window.end_le
  rw [bitNumber_eq_some_iff (window.diff_lt T)] at hfound
  have hdiff : window.rangeEnd - window.rangeBegin - 1 < 2 ^ 7 := by omega
  have hpow := lt_of_le_of_lt hfound.2.1 hdiff
  have hless := (Nat.pow_lt_pow_iff_right (by norm_num)).mp hpow
  omega

variable {window T policy}

theorem ascii_of_accepts {s : List CppChar} (hs : (window.encoding T policy).Accepts s)
    {ch : CppChar} (hch : ch ∈ s) : toSize ch < 128 :=
  lt_of_lt_of_le (hs.inWindow ch hch).2 window.end_le

theorem runtimeInit_of_fits {s : List CppChar} (hs : (window.encoding T policy).Accepts s)
    (hfits : ∀ ch ∈ s, ch.toNat < 2 ^ (window.encoding T policy).OneElementBits) :
    ∃ x, (window.encoding T policy).runtimeInit s = .ok x ∧
      x.toNat = Nat.ofDigits (2 ^ (window.encoding T policy).OneElementBits) (s.map BitVec.toNat) := by
  have hextend : ∀ ch ∈ s,
      ((id ch).signExtend (window.encoding T policy).T.bits).toNat = ch.toNat := fun ch hch =>
    toNat_signExtend (ascii_of_accepts hs hch) (bits_ge T)
  have hpacked := runtimeInit_pack (c := window.encoding T policy) s id hs.short
    (fun ch _ => rfl) hs.inWindow
    (fun ch hch => by
      rw [hextend ch hch]
      exact hfits ch hch)
  rw [List.map_congr_left hextend] at hpacked
  exact hpacked

theorem toString_of_fits {s : List CppChar} (hs : (window.encoding T policy).Accepts s)
    (hfits : ∀ ch ∈ s, ch.toNat < 2 ^ (window.encoding T policy).OneElementBits)
    {x : (window.encoding T policy).T.Value}
    (hx : x.toNat = Nat.ofDigits (2 ^ (window.encoding T policy).OneElementBits) (s.map BitVec.toNat)) :
    (window.encoding T policy).toString x = some s := by
  have hdigits : ∀ d ∈ s.map BitVec.toNat, d < 2 ^ (window.encoding T policy).OneElementBits := by
    simpa using hfits
  have hbits := window.oneElementBits_le_seven T policy
  have hdecoded := toString_eq (c := window.encoding T policy) (BitVec.ofNat 8) hx hdigits
    (by omega) (by simpa using hs.short) (fun d _ => rfl) rfl
    (by
      intro d hd
      rcases List.mem_map.mp hd with ⟨ch, hch, rfl⟩
      rw [BitVec.ofNat_toNat, BitVec.setWidth_eq]
      exact fun hzero => hs.nulFree (hzero ▸ hch))
  rw [hdecoded, List.map_map]
  simp [Function.comp_def]

/-- The packed value of a string is the invalid one only for a string that fills
the word with the last character of the window. -/
theorem eq_invalidValue_iff {s : List CppChar}
    (hs : (window.encoding T policy).Accepts s)
    (hfits : ∀ ch ∈ s, ch.toNat < 2 ^ (window.encoding T policy).OneElementBits)
    {x : (window.encoding T policy).T.Value}
    (hx : x.toNat = Nat.ofDigits (2 ^ (window.encoding T policy).OneElementBits) (s.map BitVec.toNat)) :
    x = (window.encoding T policy).InvalidValue ↔
      s.length * (window.encoding T policy).OneElementBits = T.bits ∧
        ∀ ch ∈ s, ch.toNat = 2 ^ (window.encoding T policy).OneElementBits - 1 := by
  have hroom : (s.map BitVec.toNat).length * (window.encoding T policy).OneElementBits ≤ T.bits := by
    rw [List.length_map]
    exact le_trans (Nat.mul_le_mul_right _ hs.short) maxElementNum_mul_le
  have hall := PackedDigits.ofDigits_eq_allOnes_iff (oneElementBits_pos)
    (by simpa using hfits) hroom
  rw [List.length_map, List.forall_mem_map] at hall
  rw [← hall, ← hx, ← BitVec.toNat_inj, InvalidValue, UnsignedType.max, BitVec.toNat_allOnes]
  rfl

/-! ## The windows that encode -/

theorem toNat_lt_rangeEnd {s : List CppChar} (hs : (window.encoding T policy).Accepts s)
    {ch : CppChar} (hch : ch ∈ s) : ch.toNat < window.rangeEnd := by
  rw [← toSize_eq (ascii_of_accepts hs hch)]
  exact (hs.inWindow ch hch).2

theorem ne_invalidValue_of_spare {s : List CppChar}
    (hs : (window.encoding T policy).Accepts s)
    (hend : window.rangeEnd ≤ 2 ^ (window.encoding T policy).OneElementBits)
    (hspare : ¬ ((window.encoding T policy).OneElementBits ∣ T.bits ∧
      window.rangeEnd = 2 ^ (window.encoding T policy).OneElementBits))
    {x : (window.encoding T policy).T.Value}
    (hx : x.toNat = Nat.ofDigits (2 ^ (window.encoding T policy).OneElementBits) (s.map BitVec.toNat)) :
    x ≠ (window.encoding T policy).InvalidValue := by
  intro hinvalid
  have hfits : ∀ ch ∈ s, ch.toNat < 2 ^ (window.encoding T policy).OneElementBits := fun ch hch =>
    lt_of_lt_of_le (toNat_lt_rangeEnd hs hch) hend
  obtain ⟨hfull, hlast⟩ := (eq_invalidValue_iff hs hfits hx).mp hinvalid
  have hdvd : (window.encoding T policy).OneElementBits ∣ T.bits := Dvd.intro_left _ hfull
  have hpos := oneElementBits_pos (c := window.encoding T policy)
  cases s with
  | nil =>
      have hbits := bits_ge T
      simp only [List.length_nil, zero_mul] at hfull
      omega
  | cons ch rest =>
      have hones := hlast ch List.mem_cons_self
      have hlt := toNat_lt_rangeEnd hs (List.mem_cons_self (a := ch) (l := rest))
      exact hspare ⟨hdvd, by omega⟩

theorem injectiveEncoding_of_fits
    (hend : window.rangeEnd ≤ 2 ^ (window.encoding T policy).OneElementBits)
    (hspare : ¬ ((window.encoding T policy).OneElementBits ∣ T.bits ∧
      window.rangeEnd = 2 ^ (window.encoding T policy).OneElementBits)) :
    (window.encoding T policy).InjectiveEncoding := by
  have hvalid : ∀ {s : List CppChar}, (window.encoding T policy).Accepts s →
      ∃ x, (window.encoding T policy).runtimeInit s = .ok x ∧
        x ≠ (window.encoding T policy).InvalidValue ∧
        (window.encoding T policy).toString x = some s := by
    intro s hs
    have hfits : ∀ ch ∈ s, ch.toNat < 2 ^ (window.encoding T policy).OneElementBits := fun ch hch =>
      lt_of_lt_of_le (toNat_lt_rangeEnd hs hch) hend
    rcases runtimeInit_of_fits hs hfits with ⟨x, hinit, hx⟩
    exact ⟨x, hinit, ne_invalidValue_of_spare hs hend hspare hx, toString_of_fits hs hfits hx⟩
  intro s₁ s₂ hs₁ hs₂ hne
  rcases hvalid hs₁ with ⟨x₁, hinit₁, hvalid₁, hstring₁⟩
  rcases hvalid hs₂ with ⟨x₂, hinit₂, hvalid₂, hstring₂⟩
  refine ⟨x₁, x₂, hinit₁, hinit₂, ?_, hvalid₁, hvalid₂, hstring₁, hstring₂⟩
  intro hsame
  rw [hsame, hstring₂] at hstring₁
  exact hne (Option.some.inj hstring₁).symm

def lastChar (window : AsciiWindow) : CppChar := BitVec.ofNat 8 (window.rangeEnd - 1)

theorem toSize_lastChar : toSize window.lastChar = window.rangeEnd - 1 := by
  have hwindow := window.two_le
  have hend := window.end_le
  exact toSize_ofNat (by omega)

theorem toNat_lastChar : window.lastChar.toNat = window.rangeEnd - 1 := by
  have hend := window.end_le
  have hwindow := window.two_le
  rw [← toSize_lastChar, toSize_eq]
  rw [toSize_lastChar]
  omega

variable (window T policy) in
theorem accepts_replicate_lastChar {n : ℕ}
    (hn : n ≤ (window.encoding T policy).MaxElementNum) :
    (window.encoding T policy).Accepts (List.replicate n window.lastChar) := by
  have hwindow := window.two_le
  have hlast : toSize window.lastChar = window.rangeEnd - 1 := toSize_lastChar
  constructor
  · intro hzero
    have hnul := List.eq_of_mem_replicate hzero
    rw [← hnul] at hlast
    have hsize : toSize 0 = 0 := by decide
    omega
  · simpa using hn
  · intro ch hch
    rw [List.eq_of_mem_replicate hch, hlast]
    change window.rangeBegin ≤ _ ∧ _ < window.rangeEnd
    omega

theorem toNat_lt_of_toString {c : IntegralValueTBit} {x : c.T.Value} {ch : CppChar}
    (hmap : c.translationMap = noTranslationMap) (hbits : c.OneElementBits ≤ 8)
    (hstring : c.toString x = some [ch]) : ch.toNat < 2 ^ c.OneElementBits := by
  cases harray : c.toArray x with
  | none => simp [IntegralValueTBit.toString, harray] at hstring
  | some array =>
      have hmem : ch ∈ array := by
        simp only [IntegralValueTBit.toString, harray, Option.map_some,
          Option.some.injEq] at hstring
        apply (List.takeWhile_sublist (· ≠ 0)).subset
        rw [hstring]
        exact List.mem_singleton_self ch
      rw [toArray, hmap] at harray
      change (c.Shifts.mapM fun shift =>
        (pure ((x >>> shift).setWidth 8 &&& c.OneElemenMask) : Option CppChar)) = _ at harray
      rw [List.mapM_pure] at harray
      rw [← Option.some.inj harray] at hmem
      rcases List.mem_map.mp hmem with ⟨shift, _, rfl⟩
      rw [BitVec.toNat_and, toNat_oneElemenMask hbits, Nat.and_two_pow_sub_one_eq_mod]
      exact Nat.mod_lt _ (by positivity)

theorem fits_of_injectiveEncoding
    (hinjective : (window.encoding T policy).InjectiveEncoding) :
    window.rangeEnd ≤ 2 ^ (window.encoding T policy).OneElementBits := by
  have hroom := maxElementNum_pos (c := window.encoding T policy)
  have haccepts := accepts_replicate_lastChar window T policy (n := 1) hroom
  rcases hinjective _ _ haccepts (accepts_nil _) (by simp) with
    ⟨x, _, _, _, _, _, _, hstring, _⟩
  have hbits := window.oneElementBits_le_seven T policy
  have hlt := toNat_lt_of_toString rfl (by omega) hstring
  rw [toNat_lastChar] at hlt
  omega

theorem spare_of_injectiveEncoding
    (hinjective : (window.encoding T policy).InjectiveEncoding) :
    ¬ ((window.encoding T policy).OneElementBits ∣ T.bits ∧
      window.rangeEnd = 2 ^ (window.encoding T policy).OneElementBits) := by
  intro hfull
  have hroom := maxElementNum_pos (c := window.encoding T policy)
  have haccepts := accepts_replicate_lastChar window T policy le_rfl
  have hne : List.replicate (window.encoding T policy).MaxElementNum window.lastChar ≠ [] := by
    rw [Ne, List.replicate_eq_nil_iff]
    omega
  rcases hinjective _ _ haccepts (accepts_nil _) hne with
    ⟨x, _, hinit, _, _, hvalid, _, _, _⟩
  have hone : 1 ≤ 2 ^ (window.encoding T policy).OneElementBits := Nat.one_le_two_pow
  have hlast : ∀ ch ∈ List.replicate (window.encoding T policy).MaxElementNum window.lastChar,
      ch.toNat = 2 ^ (window.encoding T policy).OneElementBits - 1 := by
    intro ch hch
    rw [List.eq_of_mem_replicate hch, toNat_lastChar, hfull.2]
  have hfits : ∀ ch ∈ List.replicate (window.encoding T policy).MaxElementNum window.lastChar,
      ch.toNat < 2 ^ (window.encoding T policy).OneElementBits := by
    intro ch hch
    rw [hlast ch hch]
    omega
  rcases runtimeInit_of_fits haccepts hfits with ⟨y, hy, hvalue⟩
  have hsame : y = x := by
    rw [hinit] at hy
    exact (Except.ok.inj hy).symm
  apply hvalid
  rw [← hsame, eq_invalidValue_iff haccepts hfits hvalue]
  refine ⟨?_, hlast⟩
  rw [List.length_replicate]
  exact Nat.div_mul_cancel hfull.1

/-- A window encodes without loss exactly when its characters fit into the digits
without subtracting `begin` and the all-ones value is out of reach. -/
theorem injectiveEncoding_iff (window : AsciiWindow) (T : UnsignedType)
    (policy : ErrorPolicy) :
    (window.encoding T policy).InjectiveEncoding ↔
      window.rangeEnd ≤ 2 ^ (window.encoding T policy).OneElementBits ∧
        ¬ ((window.encoding T policy).OneElementBits ∣ T.bits ∧
          window.rangeEnd = 2 ^ (window.encoding T policy).OneElementBits) := by
  constructor
  · intro hinjective
    exact ⟨fits_of_injectiveEncoding hinjective, spare_of_injectiveEncoding hinjective⟩
  · intro hwindow
    exact injectiveEncoding_of_fits hwindow.1 hwindow.2

def digits : AsciiWindow := ⟨48, 58, by norm_num, by norm_num⟩

theorem not_injectiveEncoding_digits :
    ¬ (digits.encoding .uint32 .MaxInvalid).InjectiveEncoding := by
  intro hinjective
  rcases hinjective [0x31] [] ⟨by decide, by decide, by decide⟩
    ⟨by decide, by decide, by decide⟩ (by decide) with ⟨x, _, hx, _, _, _, _, hstring, _⟩
  have hvalue : (digits.encoding .uint32 .MaxInvalid).runtimeInit [0x31] = .ok 0x31 := by rfl
  rw [hvalue] at hx
  rw [← Except.ok.inj hx] at hstring
  exact absurd hstring (by decide)

end AsciiWindow

end CppPlay.IntegralString
