import Mathlib.Data.List.Dedup
import Mathlib.Data.List.Induction
import Mathlib.Order.Nat

/-!
# First and last occurrences

The elements of a list at the positions before which, or behind which, the same
element does not occur.
-/

namespace CppPlay.Lib

variable {α : Type*} [DecidableEq α]

def firstOccurrences (xs : List α) : List α :=
  (xs.zipIdx.filter fun entry => entry.1 ∉ xs.take entry.2).map Prod.fst

def lastOccurrences (xs : List α) : List α :=
  (xs.zipIdx.filter fun entry => entry.1 ∉ xs.drop (entry.2 + 1)).map Prod.fst

theorem firstOccurrences_append_singleton (xs : List α) (a : α) :
    firstOccurrences (xs ++ [a]) = firstOccurrences xs ++ if a ∈ xs then [] else [a] := by
  have hbefore : ∀ entry ∈ xs.zipIdx, decide (entry.1 ∉ (xs ++ [a]).take entry.2) =
      decide (entry.1 ∉ xs.take entry.2) := by
    intro entry hentry
    have hlt : entry.2 < xs.length := by simpa using (List.mem_zipIdx hentry).2.1
    rw [List.take_append_of_le_length hlt.le]
  rw [firstOccurrences, firstOccurrences, List.zipIdx_append, List.filter_append, List.map_append,
    List.filter_congr hbefore]
  by_cases hmem : a ∈ xs <;> simp [hmem]

theorem lastOccurrences_cons (a : α) (xs : List α) :
    lastOccurrences (a :: xs) =
      if a ∈ xs then lastOccurrences xs else a :: lastOccurrences xs := by
  have hshift : ((xs.zipIdx 1).filter fun entry =>
      entry.1 ∉ (a :: xs).drop (entry.2 + 1)).map Prod.fst = lastOccurrences xs := by
    rw [lastOccurrences, List.zipIdx_succ, List.filter_map, List.map_map]
    rfl
  rw [lastOccurrences, List.zipIdx_cons, List.filter_cons]
  by_cases hmem : a ∈ xs
  · simpa [hmem] using hshift
  · simpa [hmem] using hshift

theorem lastOccurrences_eq_dedup (xs : List α) : lastOccurrences xs = xs.dedup := by
  induction xs with
  | nil => rfl
  | cons a xs ih => rw [lastOccurrences_cons, List.dedup_cons, ih]

theorem firstOccurrences_eq_dedup (xs : List α) :
    firstOccurrences xs = xs.reverse.dedup.reverse := by
  induction xs using List.reverseRecOn with
  | nil => rfl
  | append_singleton xs a ih =>
      rw [firstOccurrences_append_singleton, List.reverse_append, List.reverse_singleton,
        List.singleton_append, List.dedup_cons, ih]
      by_cases hmem : a ∈ xs <;> simp [hmem]

theorem firstOccurrences_sublist (xs : List α) : (firstOccurrences xs).Sublist xs := by
  have hsublist := (List.dedup_sublist xs.reverse).reverse
  rwa [List.reverse_reverse, ← firstOccurrences_eq_dedup] at hsublist

@[simp] theorem mem_firstOccurrences {xs : List α} {a : α} : a ∈ firstOccurrences xs ↔ a ∈ xs := by
  simp [firstOccurrences_eq_dedup]

theorem nodup_firstOccurrences (xs : List α) : (firstOccurrences xs).Nodup := by
  rw [firstOccurrences_eq_dedup, List.nodup_reverse]
  exact List.nodup_dedup _

theorem firstOccurrences_eq_self_iff {xs : List α} : firstOccurrences xs = xs ↔ xs.Nodup := by
  rw [firstOccurrences_eq_dedup, List.reverse_eq_iff, List.dedup_eq_self, List.nodup_reverse]

end CppPlay.Lib
