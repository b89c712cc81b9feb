import Mathlib.Tactic

/-!
# Vectors that move when they grow

A vector has a capacity, and an element pushed beyond it moves the whole vector.
Iterators remember the place they were taken from, so one that was taken before the
move is told from one that was not.
-/

namespace CppPlay.Lib

structure GrowingVector (α : Type*) where
  elems : List α
  capacity : ℕ
  fits : elems.length ≤ capacity
  /-- How often the elements have been moved. -/
  moves : ℕ

structure VectorIterator where
  index : ℕ
  moves : ℕ

namespace GrowingVector

variable {α : Type*}

def reserved (capacity : ℕ) : GrowingVector α := ⟨[], capacity, Nat.zero_le _, 0⟩

def begin (v : GrowingVector α) : VectorIterator := ⟨0, v.moves⟩

def Valid (v : GrowingVector α) (it : VectorIterator) : Prop := it.moves = v.moves

instance (v : GrowingVector α) (it : VectorIterator) : Decidable (v.Valid it) :=
  inferInstanceAs (Decidable (_ = _))

/-- `grow` is the library's choice of the next capacity. -/
def pushBack (grow : ℕ → ℕ) (v : GrowingVector α) (x : α) : GrowingVector α :=
  if h : v.elems.length < v.capacity then
    { v with
      elems := v.elems ++ [x]
      fits := by rw [List.length_append, List.length_singleton]; exact h }
  else
    { elems := v.elems ++ [x]
      capacity := max (grow v.capacity) (v.elems.length + 1)
      fits := by rw [List.length_append, List.length_singleton]; exact le_max_right _ _
      moves := v.moves + 1 }

def set (v : GrowingVector α) (index : ℕ) (x : α) : GrowingVector α :=
  { v with
    elems := v.elems.set index x
    fits := by rw [List.length_set]; exact v.fits }

@[simp] theorem elems_set (v : GrowingVector α) (index : ℕ) (x : α) :
    (v.set index x).elems = v.elems.set index x := rfl

@[simp] theorem capacity_set (v : GrowingVector α) (index : ℕ) (x : α) :
    (v.set index x).capacity = v.capacity := rfl

@[simp] theorem moves_set (v : GrowingVector α) (index : ℕ) (x : α) :
    (v.set index x).moves = v.moves := rfl

variable {grow : ℕ → ℕ}

@[simp] theorem elems_pushBack (v : GrowingVector α) (x : α) :
    (v.pushBack grow x).elems = v.elems ++ [x] := by
  unfold pushBack
  split_ifs <;> rfl

theorem pushBack_of_lt {v : GrowingVector α} (hroom : v.elems.length < v.capacity) (x : α) :
    (v.pushBack grow x).capacity = v.capacity ∧ (v.pushBack grow x).moves = v.moves := by
  unfold pushBack
  rw [dif_pos hroom]
  exact ⟨rfl, rfl⟩

theorem not_valid_pushBack {v : GrowingVector α} {it : VectorIterator} (hvalid : v.Valid it)
    (hfull : v.capacity ≤ v.elems.length) (x : α) : ¬ (v.pushBack grow x).Valid it := by
  unfold pushBack Valid at *
  rw [dif_neg (not_lt.mpr hfull)]
  simp only
  omega

end GrowingVector

end CppPlay.Lib
