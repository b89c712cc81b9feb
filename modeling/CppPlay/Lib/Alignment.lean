import Mathlib.Algebra.Order.Floor.Div
import Mathlib.Tactic

/-!
# Sequential layouts

A list of objects is laid out one after the other, each at the next multiple of
its alignment.  Where every alignment divides the next one, or the other way
round, padding is lost only at the end, and no order does better.
-/

namespace CppPlay.Lib

/-- The least multiple of `a` that is not below `n`. -/
def roundUp (n a : ℕ) : ℕ := a * (n ⌈/⌉ a)

variable {n m a b : ℕ}

theorem dvd_roundUp : a ∣ roundUp n a := Dvd.intro _ rfl

theorem roundUp_le_iff (ha : 0 < a) (hdvd : a ∣ m) : roundUp n a ≤ m ↔ n ≤ m := by
  obtain ⟨k, rfl⟩ := hdvd
  rw [roundUp, Nat.mul_le_mul_left_iff ha, ceilDiv_le_iff_le_mul ha]

theorem le_roundUp (ha : 0 < a) : n ≤ roundUp n a :=
  (roundUp_le_iff ha dvd_roundUp).mp le_rfl

theorem roundUp_mono (ha : 0 < a) (hle : n ≤ m) : roundUp n a ≤ roundUp m a :=
  (roundUp_le_iff ha dvd_roundUp).mpr (hle.trans (le_roundUp ha))

theorem roundUp_of_dvd (ha : 0 < a) (hdvd : a ∣ n) : roundUp n a = n :=
  le_antisymm ((roundUp_le_iff ha hdvd).mpr le_rfl) (le_roundUp ha)

theorem roundUp_add_of_dvd (ha : 0 < a) (hdvd : a ∣ m) :
    roundUp n a + m = roundUp (n + m) a := by
  apply le_antisymm
  · have hback : n ≤ roundUp (n + m) a - m := by
      have hup : n + m ≤ roundUp (n + m) a := le_roundUp ha
      omega
    have hsub : a ∣ roundUp (n + m) a - m := Nat.dvd_sub dvd_roundUp hdvd
    have hround : roundUp n a ≤ roundUp (n + m) a - m := (roundUp_le_iff ha hsub).mpr hback
    have hm : m ≤ roundUp (n + m) a := (Nat.le_add_left m n).trans (le_roundUp ha)
    omega
  · rw [roundUp_le_iff ha (dvd_add dvd_roundUp hdvd)]
    exact Nat.add_le_add_right (le_roundUp ha) m

theorem roundUp_roundUp (ha : 0 < a) (hb : 0 < b) (hdvd : a ∣ b) :
    roundUp (roundUp n a) b = roundUp n b := by
  apply le_antisymm
  · rw [roundUp_le_iff hb dvd_roundUp, roundUp_le_iff ha (hdvd.trans dvd_roundUp)]
    exact le_roundUp hb
  · exact roundUp_mono hb (le_roundUp ha)

section Sequence

variable {τ : Type*} (size align : τ → ℕ)

/-- Where the last object ends when the first may start at `offset`. -/
def layoutEnd (offset : ℕ) : List τ → ℕ
  | [] => offset
  | x :: xs => layoutEnd (roundUp offset (align x) + size x) xs

def totalSize (xs : List τ) : ℕ := (xs.map size).sum

def maxAlign (xs : List τ) : ℕ := (xs.map align).foldr max 1

/-- The whole is padded to the largest alignment, so that it can be repeated. -/
def layoutSize (xs : List τ) : ℕ := roundUp (layoutEnd size align 0 xs) (maxAlign align xs)

variable {size align} {xs ys : List τ}

theorem maxAlign_pos : 0 < maxAlign align xs := by
  rw [maxAlign]
  induction xs with
  | nil => exact Nat.one_pos
  | cons x xs ih => exact lt_max_of_lt_right ih

theorem le_maxAlign {x : τ} (hx : x ∈ xs) : align x ≤ maxAlign align xs := by
  rw [maxAlign]
  exact List.le_max_of_le' 1 (List.mem_map_of_mem hx) le_rfl

theorem exists_eq_maxAlign (halign : ∀ x ∈ xs, 0 < align x) (hne : xs ≠ []) :
    ∃ x ∈ xs, align x = maxAlign align xs := by
  rw [maxAlign]
  induction xs with
  | nil => exact absurd rfl hne
  | cons x xs ih =>
      rw [List.forall_mem_cons] at halign
      rw [List.map_cons, List.foldr_cons]
      by_cases hrest : xs = []
      · subst hrest
        exact ⟨x, List.mem_cons_self, (max_eq_left halign.1).symm⟩
      · obtain ⟨y, hy, hmax⟩ := ih halign.2 hrest
        rcases le_total ((xs.map align).foldr max 1) (align x) with hle | hle
        · exact ⟨x, List.mem_cons_self, (max_eq_left hle).symm⟩
        · exact ⟨y, List.mem_cons_of_mem x hy, hmax.trans (max_eq_right hle).symm⟩

theorem maxAlign_perm (hperm : xs.Perm ys) : maxAlign align xs = maxAlign align ys := by
  rw [maxAlign, maxAlign]
  exact (hperm.map align).foldr_eq 1

theorem totalSize_perm (hperm : xs.Perm ys) : totalSize size xs = totalSize size ys :=
  (hperm.map size).sum_eq

theorem totalSize_cons (x : τ) (xs : List τ) :
    totalSize size (x :: xs) = size x + totalSize size xs := by
  rw [totalSize, totalSize, List.map_cons, List.sum_cons]

theorem dvd_totalSize (hsize : ∀ x ∈ xs, a ∣ size x) : a ∣ totalSize size xs := by
  apply List.dvd_sum
  intro n hn
  obtain ⟨x, hx, rfl⟩ := List.mem_map.mp hn
  exact hsize x hx

theorem add_totalSize_le_layoutEnd (halign : ∀ x ∈ xs, 0 < align x) (offset : ℕ) :
    offset + totalSize size xs ≤ layoutEnd size align offset xs := by
  induction xs generalizing offset with
  | nil => exact le_rfl
  | cons x xs ih =>
      have hx : 0 < align x := halign x List.mem_cons_self
      have hrest : ∀ y ∈ xs, 0 < align y := fun y hy => halign y (List.mem_cons_of_mem x hy)
      have hlater := ih hrest (roundUp offset (align x) + size x)
      have hup : offset ≤ roundUp offset (align x) := le_roundUp hx
      rw [layoutEnd, totalSize_cons]
      omega

theorem roundUp_totalSize_le_layoutSize (halign : ∀ x ∈ xs, 0 < align x) :
    roundUp (totalSize size xs) (maxAlign align xs) ≤ layoutSize size align xs := by
  apply roundUp_mono maxAlign_pos
  have hend : 0 + totalSize size xs ≤ layoutEnd size align 0 xs :=
    add_totalSize_le_layoutEnd halign 0
  rwa [Nat.zero_add] at hend

/-- With growing alignments the padding between objects is made up for at the end. -/
theorem roundUp_layoutEnd_of_ascending (halign : ∀ x ∈ xs, 0 < align x)
    (hsize : ∀ x ∈ xs, align x ∣ size x) (ha : 0 < a) (htop : ∀ x ∈ xs, align x ∣ a)
    (hasc : xs.Pairwise fun x y => align x ∣ align y) (offset : ℕ) :
    roundUp (layoutEnd size align offset xs) a = roundUp (offset + totalSize size xs) a := by
  induction xs generalizing offset with
  | nil => rfl
  | cons x xs ih =>
      rw [List.forall_mem_cons] at halign hsize htop
      rw [List.pairwise_cons] at hasc
      have hlater : align x ∣ totalSize size xs :=
        dvd_totalSize fun y hy => (hasc.1 y hy).trans (hsize.2 y hy)
      have hrest : align x ∣ size x + totalSize size xs := dvd_add hsize.1 hlater
      calc roundUp (layoutEnd size align offset (x :: xs)) a
          = roundUp (roundUp offset (align x) + size x + totalSize size xs) a := by
            rw [layoutEnd, ih halign.2 hsize.2 htop.2 hasc.2]
        _ = roundUp (roundUp (offset + totalSize size (x :: xs)) (align x)) a := by
            rw [add_assoc, roundUp_add_of_dvd halign.1 hrest, totalSize_cons]
        _ = roundUp (offset + totalSize size (x :: xs)) a :=
            roundUp_roundUp halign.1 ha htop.1

/-- With falling alignments nothing is padded before the end. -/
theorem layoutEnd_of_descending (halign : ∀ x ∈ xs, 0 < align x)
    (hsize : ∀ x ∈ xs, align x ∣ size x)
    (hdesc : xs.Pairwise fun x y => align y ∣ align x) {offset : ℕ}
    (hoffset : ∀ x ∈ xs, align x ∣ offset) :
    layoutEnd size align offset xs = offset + totalSize size xs := by
  induction xs generalizing offset with
  | nil => rfl
  | cons x xs ih =>
      rw [List.forall_mem_cons] at halign hsize hoffset
      rw [List.pairwise_cons] at hdesc
      have hnext : ∀ y ∈ xs, align y ∣ offset + size x := fun y hy =>
        dvd_add (hoffset.2 y hy) ((hdesc.1 y hy).trans hsize.1)
      rw [layoutEnd, roundUp_of_dvd halign.1 hoffset.1,
        ih halign.2 hsize.2 hdesc.2 hnext, totalSize_cons, add_assoc]

theorem layoutSize_of_ascending (halign : ∀ x ∈ xs, 0 < align x)
    (hsize : ∀ x ∈ xs, align x ∣ size x) (htop : ∀ x ∈ xs, align x ∣ maxAlign align xs)
    (hasc : xs.Pairwise fun x y => align x ∣ align y) :
    layoutSize size align xs = roundUp (totalSize size xs) (maxAlign align xs) := by
  rw [layoutSize, roundUp_layoutEnd_of_ascending halign hsize maxAlign_pos htop hasc,
    Nat.zero_add]

theorem layoutSize_of_descending (halign : ∀ x ∈ xs, 0 < align x)
    (hsize : ∀ x ∈ xs, align x ∣ size x)
    (hdesc : xs.Pairwise fun x y => align y ∣ align x) :
    layoutSize size align xs = roundUp (totalSize size xs) (maxAlign align xs) := by
  rw [layoutSize, layoutEnd_of_descending halign hsize hdesc fun x _ => dvd_zero _,
    Nat.zero_add]

/-- A layout without avoidable padding is the shortest one of its objects. -/
theorem layoutSize_le_of_perm (halign : ∀ x ∈ ys, 0 < align x) (hperm : xs.Perm ys)
    (htight : layoutSize size align xs = roundUp (totalSize size xs) (maxAlign align xs)) :
    layoutSize size align xs ≤ layoutSize size align ys := by
  rw [htight, totalSize_perm hperm, maxAlign_perm hperm]
  exact roundUp_totalSize_le_layoutSize halign

end Sequence

end CppPlay.Lib
