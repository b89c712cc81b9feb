import CppPlay.IntegralString.AlphaNumeric

/-!
# `AlphaNumericIntegralValue` on arbitrary bytes

A byte from 0x80 on is a negative `char`, and as an index it is far behind the
table.  The loop looks at the characters one after another and stops at the first
one outside the charset, so that what stands behind it is never looked at.
-/

namespace CppPlay.IntegralString

namespace AlphaNumericIntegralValue

open AlphaNumericMap IntegralValueTBit

/-- No index is behind a table, and a byte outside the charset gives the invalid
value. -/
structure HandlesBytes (s : List CppChar) : Prop where
  inTables : AlphaNumericIntegralValue.runtimeInit s ≠ .error .outOfRange
  rejects : (∃ ch ∈ s, ch ∉ AlphaNumericCharset) →
    AlphaNumericIntegralValue.runtimeInit s = .ok AlphaNumericIntegralValue.InvalidValue

/-- The first byte outside the charset, if the string is short enough to be looked
at, is an ASCII character. -/
def FirstForeignIsAscii (s : List CppChar) : Prop :=
  s.length ≤ 21 → ∀ before ch after, s = before ++ ch :: after →
    (∀ earlier ∈ before, earlier ∈ AlphaNumericCharset) → ch.toNat < 128

/-! ## The run-time constructor -/

theorem translate_of_high {ch : CppChar} (hch : 128 ≤ ch.toNat) :
    translationMap.translate ch = none := by
  have hsize : ∀ ch : CppChar, 128 ≤ ch.toNat → 128 ≤ toSize ch := by decide
  simp [AlphaNumericMap.translationMap, AlphaNumericMap.translate, make_eq, AlphaNumericMap.Size,
    hsize ch hch]

theorem runtimeLoop_append (value : AlphaNumericIntegralValue.T.Value) (p : ℕ)
    {before : List CppChar} (rest : List CppChar) (hroom : p + before.length ≤ 21)
    (hbefore : ∀ ch ∈ before, ch ∈ AlphaNumericCharset) :
    ∃ packed, AlphaNumericIntegralValue.runtimeLoop value p (before ++ rest) =
      AlphaNumericIntegralValue.runtimeLoop packed (p + before.length) rest := by
  induction before generalizing value p with
  | nil => exact ⟨value, rfl⟩
  | cons ch before ih =>
      rw [List.forall_mem_cons] at hbefore
      rw [List.length_cons] at hroom
      have hcode := hasCode_of_mem hbefore.1
      have htranslate : AlphaNumericIntegralValue.translationMap.translate ch =
          some (code ch) := translate_of_ascii hcode.ascii
      have hinside : ¬ (toSize (code ch) < AlphaNumericIntegralValue.rangeBegin ∨
          AlphaNumericIntegralValue.rangeEnd ≤ toSize (code ch)) :=
        not_or.mpr ⟨Nat.not_lt_zero _, not_le.mpr hcode.code_lt⟩
      have hplaced := placed_eq (c := AlphaNumericIntegralValue) (code ch) (p := p)
        (by rw [maxElementNum_eq]; omega)
      obtain ⟨packed, hrest⟩ := ih (value ||| _) (p + 1) (by omega) hbefore.2
      refine ⟨packed, ?_⟩
      rw [List.cons_append, runtimeLoop, htranslate]
      simp only [hinside, hplaced, if_false]
      rw [hrest, List.length_cons, Nat.add_assoc, Nat.add_comm 1]

/-- What the loop does at the first character outside the charset. -/
theorem runtimeInit_of_foreign {before after : List CppChar} {ch : CppChar}
    (hlength : (before ++ ch :: after).length ≤ 21)
    (hbefore : ∀ earlier ∈ before, earlier ∈ AlphaNumericCharset)
    (hch : ch ∉ AlphaNumericCharset) :
    AlphaNumericIntegralValue.runtimeInit (before ++ ch :: after) =
      if ch.toNat < 128 then .ok AlphaNumericIntegralValue.InvalidValue
      else .error .outOfRange := by
  rw [runtimeInit, maxElementNum_eq, if_neg (not_lt.mpr hlength)]
  obtain ⟨packed, hloop⟩ := runtimeLoop_append 0 0 (ch :: after)
    (by rw [List.length_append] at hlength; omega) hbefore
  rw [hloop, runtimeLoop]
  split_ifs with hascii
  · have htranslate : AlphaNumericIntegralValue.translationMap.translate ch =
        some (code ch) := translate_of_ascii hascii
    have houtside : toSize (code ch) < AlphaNumericIntegralValue.rangeBegin ∨
        AlphaNumericIntegralValue.rangeEnd ≤ toSize (code ch) :=
      Or.inr (code_of_not_mem hch)
    simp only [htranslate, houtside, if_true]
    rfl
  · have htranslate : AlphaNumericIntegralValue.translationMap.translate ch = none :=
      translate_of_high (not_lt.mp hascii)
    simp only [htranslate]

theorem exists_first_foreign {s : List CppChar} (hforeign : ∃ ch ∈ s, ch ∉ AlphaNumericCharset) :
    ∃ before ch after, s = before ++ ch :: after ∧
      (∀ earlier ∈ before, earlier ∈ AlphaNumericCharset) ∧ ch ∉ AlphaNumericCharset := by
  induction s with
  | nil => simp at hforeign
  | cons ch s ih =>
      by_cases hch : ch ∈ AlphaNumericCharset
      · rw [List.exists_mem_cons_iff] at hforeign
        obtain ⟨before, bad, after, hs, hbefore, hbad⟩ :=
          ih (hforeign.resolve_left (not_not_intro hch))
        exact ⟨ch :: before, bad, after, by rw [hs, List.cons_append],
          List.forall_mem_cons.mpr ⟨hch, hbefore⟩, hbad⟩
      · exact ⟨[], ch, s, rfl, by simp, hch⟩

theorem ne_outOfRange_of_ok {s : List CppChar} {x : AlphaNumericIntegralValue.T.Value}
    (hok : AlphaNumericIntegralValue.runtimeInit s = .ok x) :
    AlphaNumericIntegralValue.runtimeInit s ≠ .error .outOfRange := by
  rw [hok]
  simp

theorem handlesBytes_iff (s : List CppChar) : HandlesBytes s ↔ FirstForeignIsAscii s := by
  constructor
  · intro hhandles hlength before ch after hs hbefore
    by_contra hhigh
    have hch : ch ∉ AlphaNumericCharset := fun hmem => hhigh (hasCode_of_mem hmem).ascii
    apply hhandles.inTables
    rw [hs] at hlength ⊢
    rw [runtimeInit_of_foreign hlength hbefore hch, if_neg hhigh]
  · intro hfirst
    by_cases hlength : s.length ≤ 21
    · by_cases hforeign : ∃ ch ∈ s, ch ∉ AlphaNumericCharset
      · obtain ⟨before, ch, after, hs, hbefore, hch⟩ := exists_first_foreign hforeign
        have hascii := hfirst hlength before ch after hs hbefore
        have hresult : AlphaNumericIntegralValue.runtimeInit s =
            .ok AlphaNumericIntegralValue.InvalidValue := by
          rw [hs] at hlength ⊢
          rw [runtimeInit_of_foreign hlength hbefore hch, if_pos hascii]
        exact ⟨ne_outOfRange_of_ok hresult, fun _ => hresult⟩
      · push Not at hforeign
        obtain ⟨x, hx, -⟩ := runtimeInit_of_charset hforeign hlength
        refine ⟨ne_outOfRange_of_ok hx, ?_⟩
        rintro ⟨ch, hch, hnot⟩
        exact absurd (hforeign ch hch) hnot
    · have hresult : AlphaNumericIntegralValue.runtimeInit s =
          .ok AlphaNumericIntegralValue.InvalidValue := by
        rw [runtimeInit, maxElementNum_eq, if_pos (not_le.mp hlength)]
        rfl
      exact ⟨ne_outOfRange_of_ok hresult, fun _ => hresult⟩

/-! ## Back to characters -/

theorem exists_reverseTranslate (ch : CppChar) :
    ∃ decoded, translationMap.reverseTranslate ch = some decoded := by
  simp only [AlphaNumericMap.translationMap, AlphaNumericMap.reverseTranslate, make_eq]
  split_ifs with hinside
  · have hlt : toSize ch < (0 :: AlphaNumericCharset.map BitVec.toNat).length := by
      rw [List.length_cons, List.length_map]
      omega
    exact ⟨_, by rw [List.getElem?_eq_getElem hlt, Option.map_some]⟩
  · exact ⟨_, rfl⟩

theorem exists_toArray (value : AlphaNumericIntegralValue.T.Value) :
    ∃ chars, AlphaNumericIntegralValue.toArray value = some chars := by
  rw [toArray]
  induction AlphaNumericIntegralValue.Shifts with
  | nil => exact ⟨[], rfl⟩
  | cons shift shifts ih =>
      obtain ⟨decoded, hdecoded⟩ := exists_reverseTranslate
        ((value >>> shift).setWidth 8 &&& AlphaNumericIntegralValue.OneElemenMask)
      obtain ⟨chars, hchars⟩ := ih
      refine ⟨decoded :: chars, ?_⟩
      rw [List.mapM_cons, hchars]
      have hsame : AlphaNumericIntegralValue.translationMap.reverseTranslate _ = some decoded :=
        hdecoded
      rw [hsame]
      rfl

/-- The constructor stays inside its table and refuses foreign bytes exactly for the
strings whose first foreign byte is an ASCII character; `toArray` stays inside its
table for every value. -/
theorem arbitraryBytes_iff (s : List CppChar) (value : AlphaNumericIntegralValue.T.Value) :
    (HandlesBytes s ↔ FirstForeignIsAscii s) ∧
      AlphaNumericIntegralValue.toArray value ≠ none := by
  refine ⟨handlesBytes_iff s, fun hnone => ?_⟩
  obtain ⟨chars, hchars⟩ := exists_toArray value
  rw [hnone] at hchars
  exact nomatch hchars

/-- The byte 0x80 is an index behind the table. -/
theorem not_handlesBytes_high : ¬ ∀ s, HandlesBytes s := by
  intro hall
  have hforeign : (0x80 : CppChar) ∉ AlphaNumericCharset := by decide
  have herror : AlphaNumericIntegralValue.runtimeInit ([] ++ [0x80]) = _ :=
    runtimeInit_of_foreign (by decide) (by simp) hforeign
  exact (hall [0x80]).inTables (herror.trans (by decide))

end AlphaNumericIntegralValue

end CppPlay.IntegralString
