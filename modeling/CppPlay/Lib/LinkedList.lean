import Mathlib.Data.List.Basic

/-!
# Linked lists

The nodes that the links lead through from a head, over any type of addresses.
-/

namespace CppPlay.Lib

variable {α : Type*} {next next' : α → Option α} {head : Option α} {nodes : List α}

/-- From the head the links lead through these nodes to an end. -/
def Linked (next : α → Option α) : Option α → List α → Prop
  | head, [] => head = none
  | head, node :: nodes => head = some node ∧ Linked next (next node) nodes

theorem Linked.congr (hlinked : Linked next head nodes)
    (hsame : ∀ node ∈ nodes, next' node = next node) : Linked next' head nodes := by
  induction nodes generalizing head with
  | nil => exact hlinked
  | cons node nodes ih =>
      refine ⟨hlinked.1, ?_⟩
      rw [hsame node List.mem_cons_self]
      exact ih hlinked.2 fun other hother => hsame other (List.mem_cons_of_mem _ hother)

theorem Linked.cons (hlinked : Linked next head nodes) {node : α} (hnext : next node = head) :
    Linked next (some node) (node :: nodes) := ⟨rfl, hnext ▸ hlinked⟩

theorem Linked.unique {nodes' : List α} (hlinked : Linked next head nodes)
    (hlinked' : Linked next head nodes') : nodes = nodes' := by
  induction nodes generalizing head nodes' with
  | nil =>
      cases nodes' with
      | nil => rfl
      | cons node' nodes' =>
          have hnone : head = none := hlinked
          rw [hnone] at hlinked'
          exact absurd hlinked'.1 (by simp)
  | cons node nodes ih =>
      cases nodes' with
      | nil =>
          have hnone : head = none := hlinked'
          rw [hnone] at hlinked
          exact absurd hlinked.1 (by simp)
      | cons node' nodes' =>
          have hsame : node = node' := Option.some.inj (hlinked.1.symm.trans hlinked'.1)
          rw [← hsame] at hlinked' ⊢
          rw [ih hlinked.2 hlinked'.2]

end CppPlay.Lib
