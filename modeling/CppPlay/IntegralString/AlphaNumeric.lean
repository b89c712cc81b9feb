import CppPlay.IntegralString.IntegralValueTBit

/-!
# `AlphaNumericIntegralValue`

Strings of up to 21 letters, digits and hyphens in 128 bits.  The map numbers the
charset from 1, so that the code 0 is free to end a short string.
-/

namespace CppPlay.IntegralString

open CppPlay.Lib

structure AlphaNumericMap where
  map : List ℕ
  reverseMap : List ℕ

namespace AlphaNumericMap

def Size : ℕ := 128

def InvalidValue : ℕ := 128

def AlphaNumericCharset : List CppChar :=
  "0123456789ABCDEFGHIJKLMNOPQRSTUVWXYZ-abcdefghijklmnopqrstuvwxyz".toList.map
    fun ch => BitVec.ofNat 8 ch.toNat

def charsetIndex (p : ℕ) : Option ℕ :=
  if '0'.toNat ≤ p ∧ p ≤ '9'.toNat then some (p - '0'.toNat + 1)
  else if 'A'.toNat ≤ p ∧ p ≤ 'Z'.toNat then some (p - 'A'.toNat + 11)
  else if p = '-'.toNat then some 37
  else if 'a'.toNat ≤ p ∧ p ≤ 'z'.toNat then some (p - 'a'.toNat + 38)
  else none

def fill (m : AlphaNumericMap) (p : ℕ) : AlphaNumericMap :=
  match charsetIndex p with
  | some index => ⟨m.map.set p index, m.reverseMap.set index p⟩
  | none => { m with map := m.map.set p InvalidValue }

def make : AlphaNumericMap :=
  (List.range Size).foldl fill
    ⟨List.replicate Size 0, List.replicate (AlphaNumericCharset.length + 1) 0⟩

def translate (m : AlphaNumericMap) (ch : CppChar) : Option CppChar :=
  m.map[toSize ch]?.map (BitVec.ofNat 8)

def reverseTranslate (m : AlphaNumericMap) (ch : CppChar) : Option CppChar :=
  if 0 ≤ ch.toInt ∧ toSize ch ≤ AlphaNumericCharset.length then
    m.reverseMap[toSize ch]?.map (BitVec.ofNat 8)
  else some (BitVec.ofNat 8 InvalidValue)

def translationMap : TranslationMap where
  translate := make.translate
  reverseTranslate := make.reverseTranslate

/-! ## The filled tables -/

theorem make_eq :
    make = ⟨(List.range Size).map fun p => (charsetIndex p).getD InvalidValue,
      0 :: AlphaNumericCharset.map BitVec.toNat⟩ := by
  have hmap : make.map = (List.range Size).map fun p =>
      (charsetIndex p).getD InvalidValue := by decide +kernel
  have hreverse : make.reverseMap = 0 :: AlphaNumericCharset.map BitVec.toNat := by
    decide +kernel
  rw [← hmap, ← hreverse]

/-- The code of a character: its index, or the invalid value as a `char`. -/
def code (ch : CppChar) : CppChar :=
  BitVec.ofNat 8 ((charsetIndex ch.toNat).getD InvalidValue)

theorem translate_of_ascii {ch : CppChar} (hch : ch.toNat < 128) :
    translationMap.translate ch = some (code ch) := by
  have hsize : toSize ch = ch.toNat := by simpa using toSize_ofNat hch
  simp [translationMap, translate, make_eq, hsize, Size, hch, code]

structure HasCode (ch : CppChar) : Prop where
  ascii : ch.toNat < 128
  nonzero : ch ≠ 0
  code_lt : toSize (code ch) < 64
  decodes : translationMap.reverseTranslate (code ch) = some ch

theorem charset_toNat : AlphaNumericCharset.map BitVec.toNat =
    List.range' 48 10 ++ List.range' 65 26 ++ [45] ++ List.range' 97 26 := by
  decide +kernel

theorem map_charsetIndex : (AlphaNumericCharset.map BitVec.toNat).map charsetIndex =
    (List.range 63).map fun i => some (i + 1) := by
  rw [charset_toNat]
  decide

theorem length_charset : AlphaNumericCharset.length = 63 := by
  have hlength := congrArg List.length charset_toNat
  simpa using hlength

theorem mem_charset_iff {ch : CppChar} : ch ∈ AlphaNumericCharset ↔
    (48 ≤ ch.toNat ∧ ch.toNat < 58) ∨ (65 ≤ ch.toNat ∧ ch.toNat < 91) ∨ ch.toNat = 45 ∨
      (97 ≤ ch.toNat ∧ ch.toNat < 123) := by
  have hinjective : Function.Injective (BitVec.toNat (w := 8)) :=
    fun _ _ hsame => BitVec.eq_of_toNat_eq hsame
  rw [← List.mem_map_of_injective hinjective, charset_toNat]
  simp only [List.mem_append, List.mem_range'_1, List.mem_singleton]
  omega

theorem exists_code_of_mem {ch : CppChar} (hch : ch ∈ AlphaNumericCharset) :
    ∃ i < 63, AlphaNumericCharset[i]? = some ch ∧ code ch = BitVec.ofNat 8 (i + 1) := by
  obtain ⟨i, hget⟩ := List.mem_iff_getElem?.mp hch
  have hi : i < 63 := by
    rw [← length_charset]
    exact (List.getElem?_eq_some_iff.mp hget).1
  have hindex := congrArg (fun indices => indices[i]?) map_charsetIndex
  simp only [List.getElem?_map, hget, Option.map_some, List.getElem?_range hi,
    Option.some.injEq] at hindex
  exact ⟨i, hi, hget, by rw [code, hindex, Option.getD_some]⟩

theorem hasCode_of_mem {ch : CppChar} (hch : ch ∈ AlphaNumericCharset) : HasCode ch := by
  have hbounds := mem_charset_iff.mp hch
  obtain ⟨i, hi, hget, hcode⟩ := exists_code_of_mem hch
  have hsize : toSize (code ch) = i + 1 := by rw [hcode, toSize_ofNat (by omega)]
  constructor
  · omega
  · intro hzero
    rw [hzero] at hbounds
    exact absurd hbounds (by decide)
  · omega
  · have hpositive : 0 ≤ (code ch).toInt := by
      rw [hcode, BitVec.toInt_eq_toNat_of_lt (by rw [BitVec.toNat_ofNat]; omega)]
      exact Int.natCast_nonneg _
    rw [translationMap, make_eq]
    simp only [reverseTranslate]
    rw [if_pos ⟨hpositive, by rw [hsize, length_charset]; omega⟩, hsize,
      List.getElem?_cons_succ, List.getElem?_map, hget]
    simp

theorem reverseTranslate_zero : translationMap.reverseTranslate 0 = some 0 := by
  rw [translationMap, make_eq]
  simp only [reverseTranslate]
  rw [if_pos ⟨by decide, Nat.zero_le _⟩]
  rfl

theorem code_of_not_mem {ch : CppChar} (hch : ch ∉ AlphaNumericCharset) :
    64 ≤ toSize (code ch) := by
  have hnone : charsetIndex ch.toNat = none := by
    rw [mem_charset_iff] at hch
    simp only [charsetIndex, Char.reduceToNat]
    rw [if_neg (by omega), if_neg (by omega), if_neg (by omega), if_neg (by omega)]
  rw [code, hnone]
  decide

end AlphaNumericMap

open AlphaNumericMap IntegralValueTBit

/-- `IntegralValueTBit<uint128_t, 0, 64, AlphaNumericMap>`. -/
def AlphaNumericIntegralValue : IntegralValueTBit where
  T := .uint128
  rangeBegin := 0
  rangeEnd := 64
  begin_lt_end := by norm_num
  end_lt := by norm_num [sizeBits]
  translationMap := translationMap
  errorPolicy := .MaxInvalid
  OneElementBits := 6
  bitNumber_eq := by decide

namespace AlphaNumericIntegralValue

theorem maxElementNum_eq : AlphaNumericIntegralValue.MaxElementNum = 21 := by
  decide

section Charset

variable {s : List CppChar} (hs : ∀ ch ∈ s, ch ∈ AlphaNumericCharset)

include hs

theorem codes_lt : ∀ d ∈ s.map fun ch => (code ch).toNat, d < 2 ^ 6 := by
  intro d hd
  rcases List.mem_map.mp hd with ⟨ch, hch, rfl⟩
  have hlt := (hasCode_of_mem (hs ch hch)).code_lt
  rw [toSize_eq (by omega)] at hlt
  exact hlt

theorem runtimeInit_of_charset (hlength : s.length ≤ 21) :
    ∃ x, AlphaNumericIntegralValue.runtimeInit s = .ok x ∧
      x.toNat = Nat.ofDigits (2 ^ 6) (s.map fun ch => (code ch).toNat) := by
  have hextend : ∀ ch ∈ s,
      ((code ch).signExtend AlphaNumericIntegralValue.T.bits).toNat = (code ch).toNat := by
    intro ch hch
    have hlt := (hasCode_of_mem (hs ch hch)).code_lt
    exact toNat_signExtend (by omega) (by decide)
  have hpacked := runtimeInit_pack (c := AlphaNumericIntegralValue) s code
    (by rwa [maxElementNum_eq])
    (fun ch hch => translate_of_ascii (hasCode_of_mem (hs ch hch)).ascii)
    (fun ch hch => ⟨Nat.zero_le _, (hasCode_of_mem (hs ch hch)).code_lt⟩)
    (fun ch hch => by
      rw [hextend ch hch]
      exact codes_lt hs _ (List.mem_map_of_mem hch))
  rw [List.map_congr_left hextend] at hpacked
  exact hpacked

theorem toString_of_charset (hlength : s.length ≤ 21)
    {x : AlphaNumericIntegralValue.T.Value}
    (hx : x.toNat = Nat.ofDigits (2 ^ 6) (s.map fun ch => (code ch).toNat)) :
    AlphaNumericIntegralValue.toString x = some s := by
  have hcharacter : ∀ ch ∈ s,
      (translationMap.reverseTranslate (BitVec.ofNat 8 (code ch).toNat)).getD 0 = ch := by
    intro ch hch
    rw [BitVec.ofNat_toNat, BitVec.setWidth_eq, (hasCode_of_mem (hs ch hch)).decodes,
      Option.getD_some]
  have hdecoded := toString_eq (c := AlphaNumericIntegralValue)
    (fun d => (translationMap.reverseTranslate (BitVec.ofNat 8 d)).getD 0) hx (codes_lt hs)
    (by decide) (by rwa [List.length_map, maxElementNum_eq])
    (by
      intro d hd
      rcases hd with hzero | hmem
      · rw [hzero]
        change translationMap.reverseTranslate 0 =
          some ((translationMap.reverseTranslate 0).getD 0)
        rw [reverseTranslate_zero, Option.getD_some]
      · rcases List.mem_map.mp hmem with ⟨ch, hch, rfl⟩
        rw [hcharacter ch hch, BitVec.ofNat_toNat, BitVec.setWidth_eq]
        exact (hasCode_of_mem (hs ch hch)).decodes)
    (by
      change (translationMap.reverseTranslate 0).getD 0 = 0
      rw [reverseTranslate_zero, Option.getD_some])
    (by
      intro d hd
      rcases List.mem_map.mp hd with ⟨ch, hch, rfl⟩
      rw [hcharacter ch hch]
      exact (hasCode_of_mem (hs ch hch)).nonzero)
  rw [hdecoded, List.map_map, Option.some.injEq]
  exact (List.map_congr_left hcharacter).trans (List.map_id s)

/-- 21 codes of 6 bits leave two bits of the word at zero. -/
theorem isValid_of_charset (hlength : s.length ≤ 21)
    {x : AlphaNumericIntegralValue.T.Value}
    (hx : x.toNat = Nat.ofDigits (2 ^ 6) (s.map fun ch => (code ch).toNat)) :
    AlphaNumericIntegralValue.isValid x = true := by
  have hlt := PackedDigits.ofDigits_lt (codes_lt hs)
  have hbound : 2 ^ ((s.map fun ch => (code ch).toNat).length * 6) ≤ 2 ^ 126 := by
    apply Nat.pow_le_pow_right (by norm_num)
    rw [List.length_map]
    omega
  rw [IntegralValueTBit.isValid, decide_eq_true_iff]
  intro hinvalid
  rw [hinvalid] at hx
  have hones : AlphaNumericIntegralValue.InvalidValue.toNat = 2 ^ 128 - 1 :=
    BitVec.toNat_allOnes
  omega

theorem constantInit_of_charset (hlength : s.length ≤ 21) :
    AlphaNumericIntegralValue.constantInit s = AlphaNumericIntegralValue.runtimeInit s := by
  rw [runtimeInit, maxElementNum_eq, if_neg (by omega)]
  apply constantLoop_eq_runtimeLoop
  intro ch hch v hv
  have hcode := hasCode_of_mem (hs ch hch)
  have htranslate : AlphaNumericIntegralValue.translationMap.translate ch = some (code ch) :=
    translate_of_ascii hcode.ascii
  rw [htranslate] at hv
  rw [← Option.some.inj hv]
  exact ⟨Nat.zero_le _, hcode.code_lt⟩

end Charset

theorem runtimeInit_reject {s : List CppChar} (hascii : ∀ ch ∈ s, ch.toNat < 128)
    (hbad : 21 < s.length ∨ ∃ ch ∈ s, ch ∉ AlphaNumericCharset) :
    AlphaNumericIntegralValue.runtimeInit s =
      .ok AlphaNumericIntegralValue.InvalidValue := by
  by_cases hlong : 21 < s.length
  · rw [runtimeInit, maxElementNum_eq, if_pos hlong]
    rfl
  · rw [runtimeInit, maxElementNum_eq, if_neg hlong]
    have houtside : ∃ ch ∈ s, toSize (code ch) < AlphaNumericIntegralValue.rangeBegin ∨
        AlphaNumericIntegralValue.rangeEnd ≤ toSize (code ch) := by
      rcases hbad with hlength | ⟨ch, hch, hnot⟩
      · exact absurd hlength hlong
      · exact ⟨ch, hch, Or.inr (code_of_not_mem hnot)⟩
    rw [runtimeLoop_reject 0 0 s code (by rw [maxElementNum_eq]; omega)
      (fun ch hch => translate_of_ascii (hascii ch hch)) houtside]
    rfl

/-- Every string over the charset that fits comes back from its value, whichever
branch built it, and different ones get different values; at run time any other
ASCII string is the invalid value. -/
theorem alphaNumeric_roundTrip :
    (∀ s, s.length ≤ 21 → (∀ ch ∈ s, ch ∈ AlphaNumericCharset) →
      ∃ x, AlphaNumericIntegralValue.runtimeInit s = .ok x ∧
        AlphaNumericIntegralValue.constantInit s = .ok x ∧
        AlphaNumericIntegralValue.isValid x = true ∧
        AlphaNumericIntegralValue.toString x = some s ∧
        ∀ s', AlphaNumericIntegralValue.runtimeInit s' = .ok x → s'.length ≤ 21 →
          (∀ ch ∈ s', ch ∈ AlphaNumericCharset) → s' = s) ∧
    ∀ s, (∀ ch ∈ s, ch.toNat < 128) →
      21 < s.length ∨ (∃ ch ∈ s, ch ∉ AlphaNumericCharset) →
        AlphaNumericIntegralValue.runtimeInit s =
          .ok AlphaNumericIntegralValue.InvalidValue := by
  refine ⟨?_, fun s hascii hbad => runtimeInit_reject hascii hbad⟩
  intro s hlength hs
  rcases runtimeInit_of_charset hs hlength with ⟨x, hx, hvalue⟩
  refine ⟨x, hx, by rw [constantInit_of_charset hs hlength, hx],
    isValid_of_charset hs hlength hvalue, toString_of_charset hs hlength hvalue, ?_⟩
  intro s' hx' hlength' hs'
  rcases runtimeInit_of_charset hs' hlength' with ⟨y, hy, hvalue'⟩
  rw [hx'] at hy
  rw [← Except.ok.inj hy] at hvalue'
  have hsame := toString_of_charset hs' hlength' hvalue'
  rw [toString_of_charset hs hlength hvalue] at hsame
  exact (Option.some.inj hsame).symm

end AlphaNumericIntegralValue

end CppPlay.IntegralString
