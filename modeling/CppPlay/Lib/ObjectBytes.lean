import Mathlib.Data.Nat.Digits.Lemmas

/-!
# The bytes of an unsigned integer

An object of `size` bytes in memory, on a machine of either byte order, is the
number of its digits to the base `256`.
-/

namespace CppPlay.Lib

inductive Endian where
  | little
  | big

namespace Endian

/-- From the order of the addresses to the least significant byte first, and back. -/
def arrange : Endian → List (BitVec 8) → List (BitVec 8)
  | little, bytes => bytes
  | big, bytes => bytes.reverse

def value (order : Endian) (bytes : List (BitVec 8)) : ℕ :=
  Nat.ofDigits 256 ((order.arrange bytes).map BitVec.toNat)

def bytes (order : Endian) (size n : ℕ) : List (BitVec 8) :=
  order.arrange ((List.range size).map fun i => BitVec.ofNat 8 (n / 256 ^ i))

variable {order : Endian} {bs bs' : List (BitVec 8)} {size : ℕ}

@[simp] theorem length_arrange : (order.arrange bs).length = bs.length := by
  cases order <;> simp [arrange]

@[simp] theorem arrange_arrange : order.arrange (order.arrange bs) = bs := by
  cases order <;> simp [arrange]

@[simp] theorem length_bytes (n : ℕ) : (order.bytes size n).length = size := by
  simp [bytes]

theorem toNat_lt_base (bs : List (BitVec 8)) : ∀ d ∈ bs.map BitVec.toNat, d < 256 := by
  intro d hd
  rcases List.mem_map.mp hd with ⟨b, _, rfl⟩
  exact b.isLt

theorem value_lt (order : Endian) (bs : List (BitVec 8)) : order.value bs < 256 ^ bs.length := by
  have hlt := Nat.ofDigits_lt_base_pow_length (by norm_num) (toNat_lt_base (order.arrange bs))
  rwa [List.length_map, length_arrange] at hlt

theorem ofDigits_div_pow_mod (bs : List (BitVec 8)) {i : ℕ} (hi : i < bs.length) :
    BitVec.ofNat 8 (Nat.ofDigits 256 (bs.map BitVec.toNat) / 256 ^ i) = bs[i] := by
  induction bs generalizing i with
  | nil => simp at hi
  | cons b bs ih =>
      rw [List.map_cons, Nat.ofDigits_cons]
      cases i with
      | zero =>
          apply BitVec.eq_of_toNat_eq
          have hb : b.toNat < 256 := b.isLt
          simp only [pow_zero, Nat.div_one, BitVec.toNat_ofNat, List.getElem_cons_zero]
          omega
      | succ i =>
          have hb : b.toNat / 256 = 0 := Nat.div_eq_of_lt b.isLt
          rw [pow_succ', ← Nat.div_div_eq_div_mul, Nat.add_mul_div_left _ _ (by norm_num), hb,
            Nat.zero_add, List.getElem_cons_succ]
          exact ih (Nat.lt_of_succ_lt_succ hi)

theorem bytes_value (order : Endian) (hlength : bs.length = size) :
    order.bytes size (order.value bs) = bs := by
  have hdigits : (List.range size).map (fun i =>
      BitVec.ofNat 8 (Nat.ofDigits 256 ((order.arrange bs).map BitVec.toNat) / 256 ^ i)) =
        order.arrange bs := by
    apply List.ext_getElem
    · simp [hlength]
    · intro i _ hi
      rw [List.getElem_map, List.getElem_range]
      exact ofDigits_div_pow_mod _ hi
  rw [bytes, value, hdigits, arrange_arrange]

theorem value_injective (hlength : bs.length = bs'.length)
    (hvalue : order.value bs = order.value bs') : bs = bs' := by
  rw [← bytes_value order hlength, hvalue, bytes_value order rfl]

theorem value_zeros : order.value (List.replicate size 0) = 0 := by
  cases order <;> simp [value, arrange, Nat.ofDigits_replicate_zero]

theorem value_eq_zero_iff : order.value bs = 0 ↔ bs = List.replicate bs.length 0 := by
  constructor
  · intro hzero
    have hvalue : order.value bs = order.value (List.replicate bs.length 0) :=
      hzero.trans value_zeros.symm
    exact value_injective (by simp) hvalue
  · intro hzeros
    rw [hzeros]
    exact value_zeros

end Endian

end CppPlay.Lib
