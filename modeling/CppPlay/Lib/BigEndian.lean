import Mathlib.Tactic

/-!
# Big-endian bytes

The `width` lowest bytes of a number, most significant first, and the number
read back from them.
-/

namespace CppPlay.Lib.BigEndian

def store : ℕ → ℕ → List UInt8
  | 0, _ => []
  | width + 1, n => store width (n / 256) ++ [UInt8.ofNat n]

def load (bytes : List UInt8) : ℕ :=
  bytes.foldl (fun acc byte => acc * 256 + byte.toNat) 0

@[simp] theorem length_store (width n : ℕ) : (store width n).length = width := by
  induction width generalizing n with
  | zero => rfl
  | succ width ih => simp [store, ih]

@[simp] theorem load_append_singleton (bytes : List UInt8) (byte : UInt8) :
    load (bytes ++ [byte]) = load bytes * 256 + byte.toNat := by
  simp [load]

theorem load_store (width n : ℕ) : load (store width n) = n % 256 ^ width := by
  induction width generalizing n with
  | zero => simp [store, load, Nat.mod_one]
  | succ width ih =>
      rw [store, load_append_singleton, ih, UInt8.toNat_ofNat']
      rw [pow_succ' 256 width, Nat.mod_mul]
      omega

theorem load_store_of_lt {width n : ℕ} (hn : n < 256 ^ width) :
    load (store width n) = n := by
  rw [load_store, Nat.mod_eq_of_lt hn]

end CppPlay.Lib.BigEndian
