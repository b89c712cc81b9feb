import Mathlib.Data.Nat.Digits.Lemmas
import Mathlib.Tactic

/-!
# Fixed-width digits packed into one word

A list of `k`-bit digits, least significant first, is the number
`Nat.ofDigits (2 ^ k)`.  A loop that shifts each digit to its place and ors it
in computes that number, and a shift with a mask takes a digit out again.
-/

namespace CppPlay.Lib.PackedDigits

variable {k : ℕ} {ds : List ℕ}

theorem ofDigits_lt (hds : ∀ d ∈ ds, d < 2 ^ k) :
    Nat.ofDigits (2 ^ k) ds < 2 ^ (ds.length * k) := by
  induction ds with
  | nil => simp
  | cons d ds ih =>
      have hd : d < 2 ^ k := hds d (by simp)
      have hrest : Nat.ofDigits (2 ^ k) ds + 1 ≤ 2 ^ (ds.length * k) :=
        ih (fun e he => hds e (by simp [he]))
      rw [Nat.ofDigits_cons, List.length_cons, Nat.succ_mul, pow_add]
      calc d + 2 ^ k * Nat.ofDigits (2 ^ k) ds
          < 2 ^ k + 2 ^ k * Nat.ofDigits (2 ^ k) ds := by omega
        _ = (Nat.ofDigits (2 ^ k) ds + 1) * 2 ^ k := by ring
        _ ≤ 2 ^ (ds.length * k) * 2 ^ k := Nat.mul_le_mul_right _ hrest

/-! ## One digit in, one digit out -/

theorem or_shiftLeft (hds : ∀ d ∈ ds, d < 2 ^ k) (d : ℕ) :
    Nat.ofDigits (2 ^ k) ds ||| d <<< (ds.length * k) =
      Nat.ofDigits (2 ^ k) (ds ++ [d]) := by
  rw [Nat.or_comm, ← Nat.shiftLeft_add_eq_or_of_lt (ofDigits_lt hds)]
  rw [Nat.ofDigits_append, Nat.ofDigits_singleton, Nat.shiftLeft_eq,
    ← pow_mul, mul_comm k]
  ring

theorem shiftRight_mod (hds : ∀ d ∈ ds, d < 2 ^ k) (i : ℕ) :
    (Nat.ofDigits (2 ^ k) ds >>> (i * k)) % 2 ^ k = ds[i]?.getD 0 := by
  induction ds generalizing i with
  | nil => simp
  | cons d ds ih =>
      have hd : d < 2 ^ k := hds d (by simp)
      have hpos : 0 < 2 ^ k := by positivity
      rw [Nat.ofDigits_cons]
      cases i with
      | zero => simp [Nat.mod_eq_of_lt hd]
      | succ i =>
          have hshift : (d + 2 ^ k * Nat.ofDigits (2 ^ k) ds) >>> ((i + 1) * k) =
              Nat.ofDigits (2 ^ k) ds >>> (i * k) := by
            rw [Nat.succ_mul, add_comm (i * k), Nat.shiftRight_add]
            rw [Nat.shiftRight_eq_div_pow _ k, Nat.add_mul_div_left _ _ hpos,
              Nat.div_eq_of_lt hd, zero_add]
          rw [hshift, ih (fun e he => hds e (by simp [he]))]
          simp

/-! ## The all-ones word -/

theorem ofDigits_fullDigits (k n : ℕ) :
    Nat.ofDigits (2 ^ k) (List.replicate n (2 ^ k - 1)) = 2 ^ (n * k) - 1 := by
  induction n with
  | zero => simp
  | succ n ih =>
      have hdigit : 2 ^ k - 1 + 2 ^ k * (2 ^ (n * k) - 1) + 1 =
          2 ^ k * (2 ^ (n * k) - 1 + 1) := by
        rw [mul_add, mul_one]
        have hk : 0 < 2 ^ k := by positivity
        omega
      have hn : 2 ^ (n * k) - 1 + 1 = 2 ^ (n * k) :=
        Nat.sub_add_cancel Nat.one_le_two_pow
      rw [List.replicate_succ, Nat.ofDigits_cons, ih, Nat.succ_mul, add_comm (n * k),
        pow_add]
      rw [hn] at hdigit
      omega

/-- Only a list that fills the word with the largest digit packs to all ones. -/
theorem ofDigits_eq_allOnes_iff (hk : 0 < k) (hds : ∀ d ∈ ds, d < 2 ^ k)
    {w : ℕ} (hlength : ds.length * k ≤ w) :
    Nat.ofDigits (2 ^ k) ds = 2 ^ w - 1 ↔
      ds.length * k = w ∧ ∀ d ∈ ds, d = 2 ^ k - 1 := by
  constructor
  · intro hall
    have hlt := ofDigits_lt hds
    have hfull : ds.length * k = w := by
      by_contra hne
      have hpow : 2 ^ (ds.length * k) < 2 ^ w :=
        Nat.pow_lt_pow_right (by norm_num) (by omega)
      omega
    refine ⟨hfull, ?_⟩
    have hsame : ds = List.replicate ds.length (2 ^ k - 1) := by
      apply Nat.ofDigits_inj_of_len_eq (Nat.one_lt_two_pow hk.ne') (by simp) hds
      · intro d hd
        rw [List.eq_of_mem_replicate hd]
        have hpos : 0 < 2 ^ k := by positivity
        omega
      · rw [ofDigits_fullDigits, hall, hfull]
    intro d hd
    rw [hsame] at hd
    exact List.eq_of_mem_replicate hd
  · intro hboth
    have hsame : ds = List.replicate ds.length (2 ^ k - 1) :=
      List.eq_replicate_of_mem hboth.2
    rw [hsame, ofDigits_fullDigits, hboth.1]

end CppPlay.Lib.PackedDigits
