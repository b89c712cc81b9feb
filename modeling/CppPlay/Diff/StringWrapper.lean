import CppPlay.Lib.ObjectBytes
import CppPlay.Diff.ShortString

/-!
# `StringWrapper`

A short string in the bytes of an unsigned integer, for both byte orders.  The last
byte stays the terminating NUL, and zero stands for no string.
-/

namespace CppPlay

open CppPlay.Lib ShortString

/-- Of an unsigned integral type only its size matters. -/
structure UnsignedType where
  size : ℕ
  size_pos : 0 < size

@[ext]
structure StringWrapper (T : UnsignedType) where
  m_value : ℕ
  m_value_lt : m_value < 256 ^ T.size

namespace StringWrapper

variable {T : UnsignedType}

def MaxSize (T : UnsignedType) : ℕ := T.size - 1

def Invalid (T : UnsignedType) : StringWrapper T := ⟨0, by positivity⟩

def memcpy (order : Endian) (s : StringWrapper T) (bytes : List Char8)
    (hfits : bytes.length ≤ T.size) : StringWrapper T :=
  ⟨order.value (bytes ++ (order.bytes T.size s.m_value).drop bytes.length), by
    have hlength : (bytes ++ (order.bytes T.size s.m_value).drop bytes.length).length = T.size := by
      rw [List.length_append, List.length_drop, Endian.length_bytes, Nat.add_sub_cancel' hfits]
    have hlt := Endian.value_lt order (bytes ++ (order.bytes T.size s.m_value).drop bytes.length)
    rwa [hlength] at hlt⟩

/-- `value` is the memory from the pointer on. -/
def ofPointer (order : Endian) (value : List Char8) (len : ℕ) : StringWrapper T :=
  if hlen : len ≤ MaxSize T then
    memcpy order (Invalid T) (value.take len)
      ((List.length_take_le _ _).trans (hlen.trans (Nat.sub_le _ _)))
  else Invalid T

def strlen (value : List Char8) : ℕ := (value.takeWhile (· ≠ 0)).length

def ofCString (order : Endian) (c_str : List Char8) : StringWrapper T :=
  ofPointer order c_str (strlen c_str)

def ofString (order : Endian) (str : List Char8) : StringWrapper T :=
  ofPointer order (str ++ [0]) str.length

def IsValid (s : StringWrapper T) : Prop := s.m_value ≠ (Invalid T).m_value

/-- The bytes before the first NUL; nothing when they go on behind the object. -/
def toString (order : Endian) (s : StringWrapper T) : Option (List Char8) :=
  let bytes := order.bytes T.size s.m_value
  if 0 ∈ bytes then some (bytes.takeWhile (· ≠ 0)) else none

/-! ## Values -/

@[simp] theorem m_value_Invalid : (Invalid T).m_value = 0 := rfl

theorem bytes_zero (order : Endian) (size : ℕ) :
    order.bytes size 0 = List.replicate size 0 := by
  have hvalue : order.value (List.replicate size 0) = 0 := Endian.value_zeros
  rw [← hvalue, Endian.bytes_value order List.length_replicate]

theorem m_value_ofString (order : Endian) {str : List Char8} (hfits : str.length ≤ MaxSize T) :
    (ofString order str : StringWrapper T).m_value =
      order.value (str ++ List.replicate (T.size - str.length) 0) := by
  rw [ofString, ofPointer, dif_pos hfits]
  simp only [memcpy, m_value_Invalid, bytes_zero, List.take_left, List.drop_replicate]

theorem ofPointer_of_lt (order : Endian) (value : List Char8) {len : ℕ} (hlong : MaxSize T < len) :
    (ofPointer order value len : StringWrapper T) = Invalid T :=
  dif_neg hlong.not_ge

theorem length_padded {str : List Char8} (hfits : str.length ≤ MaxSize T) :
    (str ++ List.replicate (T.size - str.length) 0).length = T.size := by
  have hle : str.length ≤ T.size := hfits.trans (Nat.sub_le _ _)
  rw [List.length_append, List.length_replicate, Nat.add_sub_cancel' hle]

theorem toString_ofString (order : Endian) {str : List Char8} (hnul : 0 ∉ str)
    (hfits : str.length ≤ MaxSize T) :
    (ofString order str : StringWrapper T).toString order = some str := by
  have hroom : ∃ k, T.size - str.length = k + 1 := by
    have hpos := T.size_pos
    rw [MaxSize] at hfits
    exact ⟨T.size - str.length - 1, by omega⟩
  rcases hroom with ⟨k, hk⟩
  rw [toString, m_value_ofString order hfits, Endian.bytes_value order (length_padded hfits), hk,
    List.replicate_succ, if_pos (by simp), takeWhile_append_of_noNul hnul]
  simp

theorem isValid_ofString (order : Endian) {str : List Char8} (hnul : 0 ∉ str) (hne : str ≠ [])
    (hfits : str.length ≤ MaxSize T) : (ofString order str : StringWrapper T).IsValid := by
  rw [IsValid, m_value_Invalid, m_value_ofString order hfits, Ne, Endian.value_eq_zero_iff]
  intro hzeros
  rcases List.exists_mem_of_ne_nil str hne with ⟨ch, hch⟩
  have hmem : ch ∈ str ++ List.replicate (T.size - str.length) 0 := List.mem_append_left _ hch
  rw [hzeros] at hmem
  exact hnul (List.eq_of_mem_replicate hmem ▸ hch)

theorem not_isValid_ofString (order : Endian) {str : List Char8}
    (hbad : str = [] ∨ MaxSize T < str.length) : ¬ (ofString order str : StringWrapper T).IsValid := by
  rcases hbad with rfl | hlong
  · rw [IsValid, not_not, m_value_ofString order (Nat.zero_le _)]
    exact Endian.value_zeros
  · rw [ofString, ofPointer_of_lt order _ hlong, IsValid, not_not]

theorem m_value_ofString_inj (order : Endian) {str str' : List Char8} (hnul : 0 ∉ str)
    (hnul' : 0 ∉ str') (hfits : str.length ≤ MaxSize T) (hfits' : str'.length ≤ MaxSize T)
    (hvalue : (ofString order str : StringWrapper T).m_value =
      (ofString order str' : StringWrapper T).m_value) : str = str' := by
  have hstring := toString_ofString (T := T) order hnul hfits
  rw [StringWrapper.ext hvalue, toString_ofString order hnul' hfits'] at hstring
  exact (Option.some.inj hstring).symm

/-! ## The three constructors -/

theorem ofPointer_append (order : Endian) (str rest : List Char8) :
    (ofPointer order (str ++ rest) str.length : StringWrapper T) = ofString order str := by
  rw [ofString, ofPointer, ofPointer]
  simp only [List.take_left]

theorem strlen_append {str : List Char8} (hnul : 0 ∉ str) (rest : List Char8) :
    strlen (str ++ 0 :: rest) = str.length := by
  rw [strlen, takeWhile_append_of_noNul hnul]
  simp

theorem ofCString_append (order : Endian) {str : List Char8} (hnul : 0 ∉ str)
    (rest : List Char8) :
    (ofCString order (str ++ 0 :: rest) : StringWrapper T) = ofString order str := by
  rw [ofCString, strlen_append hnul, ofPointer_append]

/-! ## Round trip -/

structure RoundTrips (order : Endian) (T : UnsignedType) : Prop where
  accepted : ∀ str : List Char8, 0 ∉ str → str ≠ [] → str.length ≤ T.size - 1 →
    (ofString order str : StringWrapper T).IsValid ∧
      (ofString order str : StringWrapper T).toString order = some str
  same_value : ∀ str str' : List Char8, 0 ∉ str → 0 ∉ str' → str ≠ [] → str' ≠ [] →
    str.length ≤ T.size - 1 → str'.length ≤ T.size - 1 →
      ((ofString order str : StringWrapper T).m_value =
        (ofString order str' : StringWrapper T).m_value ↔ str = str')
  refused : ∀ str : List Char8, str = [] ∨ T.size - 1 < str.length →
    ¬ (ofString order str : StringWrapper T).IsValid
  pointer : ∀ str rest : List Char8,
    (ofPointer order (str ++ rest) str.length : StringWrapper T) = ofString order str
  cString : ∀ str rest : List Char8, 0 ∉ str →
    (ofCString order (str ++ 0 :: rest) : StringWrapper T) = ofString order str

theorem roundTrips (order : Endian) (T : UnsignedType) : RoundTrips order T := by
  refine ⟨?_, ?_, ?_, ofPointer_append order, ?_⟩
  · intro str hnul hne hfits
    exact ⟨isValid_ofString order hnul hne hfits, toString_ofString order hnul hfits⟩
  · intro str str' hnul hnul' _ _ hfits hfits'
    refine ⟨m_value_ofString_inj order hnul hnul' hfits hfits', ?_⟩
    rintro rfl
    rfl
  · intro str hbad
    exact not_isValid_ofString order hbad
  · intro str rest hnul
    exact ofCString_append order hnul rest

end StringWrapper

end CppPlay
