import Mathlib.Algebra.BigOperators.Group.Finset.Piecewise
import Mathlib.Data.Fintype.Basic
import Mathlib.Data.List.Infix
import Mathlib.Logic.Relation
import Mathlib.Tactic.Abel

/-!
# Threads and histories

A step of one thread changes its own entry of a family of local states and
appends to histories; these are the facts that such a step leaves about the
other threads and about what was recorded before.
-/

namespace CppPlay.Lib

variable {ι α : Type*}

section Local

variable [DecidableEq ι]

theorem update_apply_eq_iff {f : ι → α} {t u : ι} {a b : α} :
    Function.update f t a u = b ↔ u = t ∧ a = b ∨ u ≠ t ∧ f u = b := by
  by_cases hsame : u = t
  · rw [hsame, Function.update_self]
    simp
  · rw [Function.update_of_ne hsame]
    simp [hsame]

theorem update_apply_eq_iff_of_iff {f : ι → α} {t : ι} {a b : α} (hkept : a = b ↔ f t = b)
    (u : ι) : Function.update f t a u = b ↔ f u = b := by
  by_cases hsame : u = t
  · rw [hsame, Function.update_self, hkept]
  · rw [Function.update_of_ne hsame]

/-- What holds of every thread's local state is kept when one thread moves to a
state of which it holds. -/
theorem forall_update {f : ι → α} {t : ι} {a : α} {P : ι → α → Prop}
    (ha : P t a) (hf : ∀ u, u ≠ t → P u (f u)) : ∀ u, P u (Function.update f t a u) := by
  intro u
  by_cases hsame : u = t
  · rw [hsame, Function.update_self]
    exact ha
  · rw [Function.update_of_ne hsame]
    exact hf u hsame

/-- A move of one thread changes a sum over all of them by its own part. -/
theorem sum_update [Fintype ι] {M : Type*} [AddCommMonoid M] (weight : α → M) (f : ι → α) (t : ι)
    (a : α) :
    (∑ u, weight (Function.update f t a u)) + weight (f t) = (∑ u, weight (f u)) + weight a := by
  have hsum : ∀ g : ι → α,
      (∑ u ∈ Finset.univ.erase t, weight (g u)) + weight (g t) = ∑ u, weight (g u) :=
    fun g => Finset.sum_erase_add _ _ (Finset.mem_univ t)
  have hothers : (∑ u ∈ Finset.univ.erase t, weight (Function.update f t a u)) =
      ∑ u ∈ Finset.univ.erase t, weight (f u) := by
    apply Finset.sum_congr rfl
    intro u hu
    rw [Function.update_of_ne (Finset.ne_of_mem_erase hu)]
  rw [← hsum (Function.update f t a), ← hsum f, hothers, Function.update_self]
  exact add_right_comm _ _ _

/-- A balance that counts all threads is kept by a move that keeps the balance of its thread. -/
theorem eq_add_sum_update [Fintype ι] {M : Type*} [AddCancelCommMonoid M] (weight : α → M)
    {f : ι → α} {t : ι} {a : α} {total total' rest rest' : M}
    (hbefore : total = rest + ∑ u, weight (f u))
    (hmove : total' + rest + weight (f t) = total + rest' + weight a) :
    total' = rest' + ∑ u, weight (Function.update f t a u) := by
  apply add_right_cancel (b := rest + weight (f t))
  calc
    total' + (rest + weight (f t)) = total + rest' + weight a := by rw [← add_assoc, hmove]
    _ = rest' + ((∑ u, weight (f u)) + weight a) + rest := by
      rw [hbefore]
      abel
    _ = rest' + (∑ u, weight (Function.update f t a u)) + (rest + weight (f t)) := by
      rw [← sum_update]
      abel

end Local

section History

theorem getElem?_append_of_eq_some {history later : List α} {i : ℕ} {a : α}
    (hget : history[i]? = some a) : (history ++ later)[i]? = some a := by
  rw [List.getElem?_append_left (List.getElem?_eq_some_iff.mp hget).1, hget]

theorem append_singleton_prefix {first history : List α} {a : α} (hbegins : first <+: history)
    (hget : history[first.length]? = some a) : first ++ [a] <+: history := by
  obtain ⟨hlt, hlast⟩ := List.getElem?_eq_some_iff.mp hget
  have hconcat := List.concat_get_prefix hbegins hlt
  rwa [List.get_eq_getElem, hlast] at hconcat

/-- The entries at all positions in order are the history. -/
theorem filterMap_range_getElem? (history : List α) :
    (List.range history.length).filterMap (fun i => history[i]?) = history := by
  induction history using List.reverseRecOn with
  | nil => rfl
  | append_singleton history a ih =>
      have hearlier : (List.range history.length).filterMap (fun i => (history ++ [a])[i]?) =
          history := by
        calc
          _ = (List.range history.length).filterMap (fun i => history[i]?) := by
            apply List.filterMap_congr
            intro i hi
            exact List.getElem?_append_left (List.mem_range.mp hi)
          _ = history := ih
      rw [List.length_append, List.length_singleton, List.range_succ, List.filterMap_append,
        hearlier]
      simp

end History

section Waiting

/-- A relation has no cycle if some rank falls along each edge that another edge
follows. -/
theorem transGen_irrefl_of_rank {ρ : Type*} [Preorder ρ] {r : ι → ι → Prop} (rank : ι → ρ)
    (hfalls : ∀ t u v, r t u → r u v → rank u < rank t) (t : ι) : ¬ Relation.TransGen r t t := by
  have hbelow : ∀ u, Relation.TransGen r t u → ∀ v, r u v → rank u < rank t := by
    intro u hpath
    induction hpath with
    | single hedge => exact fun v hnext => hfalls _ _ v hedge hnext
    | tail _ hedge ih => exact fun v hnext => (hfalls _ _ v hedge hnext).trans (ih _ hedge)
  intro hcycle
  obtain ⟨v, hfirst, _⟩ := Relation.TransGen.head'_iff.mp hcycle
  exact lt_irrefl _ (hbelow t hcycle v hfirst)

end Waiting

end CppPlay.Lib
