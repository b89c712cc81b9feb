import Mathlib.Data.List.Basic

/-!
# A buffer of fixed capacity

The operations of a circular buffer are known by what its documentation says they do to the
elements in it.  A list with its capacity is such a buffer.
-/

namespace CppPlay.Lib

structure CircularBuffer (τ : Type) where
  Buffer : Type
  make : ℕ → Buffer
  capacity : Buffer → ℕ
  /-- from the front to the back -/
  elements : Buffer → List τ
  size : Buffer → ℕ
  full : Buffer → Bool
  empty : Buffer → Bool
  front : Buffer → Option τ
  push_back : Buffer → τ → Buffer
  pop_front : Buffer → Buffer
  length_le : ∀ buffer, (elements buffer).length ≤ capacity buffer
  capacity_make : ∀ n, capacity (make n) = n
  elements_make : ∀ n, elements (make n) = []
  size_eq : ∀ buffer, size buffer = (elements buffer).length
  full_iff : ∀ buffer, full buffer = true ↔ (elements buffer).length = capacity buffer
  empty_iff : ∀ buffer, empty buffer = true ↔ elements buffer = []
  front_eq : ∀ buffer, front buffer = (elements buffer).head?
  capacity_push_back : ∀ buffer item, capacity (push_back buffer item) = capacity buffer
  /-- a full buffer overwrites its first element, and one without capacity takes nothing -/
  elements_push_back : ∀ buffer item, elements (push_back buffer item) =
    (elements buffer ++ [item]).drop ((elements buffer).length + 1 - capacity buffer)
  capacity_pop_front : ∀ buffer, capacity (pop_front buffer) = capacity buffer
  elements_pop_front : ∀ buffer, elements buffer ≠ [] →
    elements (pop_front buffer) = (elements buffer).tail

namespace CircularBuffer

variable {τ : Type} {cb : CircularBuffer τ} {buffer : cb.Buffer}

theorem full_eq_false_iff :
    cb.full buffer = false ↔ (cb.elements buffer).length < cb.capacity buffer := by
  have hle := cb.length_le buffer
  rw [← Bool.not_eq_true, cb.full_iff]
  omega

theorem empty_eq_false_iff : cb.empty buffer = false ↔ 0 < (cb.elements buffer).length := by
  rw [← Bool.not_eq_true, cb.empty_iff, List.length_pos_iff]

theorem elements_push_back_of_lt (hroom : (cb.elements buffer).length < cb.capacity buffer)
    (item : τ) : cb.elements (cb.push_back buffer item) = cb.elements buffer ++ [item] := by
  rw [cb.elements_push_back, Nat.sub_eq_zero_of_le hroom, List.drop_zero]

end CircularBuffer

structure ListBuffer (τ : Type) where
  capacity : ℕ
  elements : List τ
  length_le : elements.length ≤ capacity

namespace ListBuffer

variable {τ : Type}

def push_back (buffer : ListBuffer τ) (item : τ) : ListBuffer τ where
  capacity := buffer.capacity
  elements := (buffer.elements ++ [item]).drop (buffer.elements.length + 1 - buffer.capacity)
  length_le := by
    rw [List.length_drop, List.length_append, List.length_singleton]
    omega

def pop_front (buffer : ListBuffer τ) : ListBuffer τ where
  capacity := buffer.capacity
  elements := buffer.elements.tail
  length_le := by
    rw [List.length_tail]
    exact Nat.le_trans (Nat.sub_le _ _) buffer.length_le

def circularBuffer (τ : Type) : CircularBuffer τ where
  Buffer := ListBuffer τ
  make n := ⟨n, [], Nat.zero_le n⟩
  capacity := capacity
  elements := elements
  size buffer := buffer.elements.length
  full buffer := buffer.elements.length = buffer.capacity
  empty buffer := buffer.elements.isEmpty
  front buffer := buffer.elements.head?
  push_back := push_back
  pop_front := pop_front
  length_le := length_le
  capacity_make _ := rfl
  elements_make _ := rfl
  size_eq _ := rfl
  full_iff _ := decide_eq_true_iff
  empty_iff _ := List.isEmpty_iff
  front_eq _ := rfl
  capacity_push_back _ _ := rfl
  elements_push_back _ _ := rfl
  capacity_pop_front _ := rfl
  elements_pop_front _ _ := rfl

end ListBuffer

end CppPlay.Lib
