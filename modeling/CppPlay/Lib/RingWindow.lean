import Mathlib.Data.List.Nodup
import Mathlib.Data.List.Range
import Mathlib.Data.Multiset.Range
import Mathlib.Data.Int.ModEq
import Mathlib.Tactic.Common

/-!
# A ring as a window of a history

A ring buffer keeps the values at the positions `first`, `first + 1`, ... of an ever
growing history in the slots of these positions modulo its capacity.  The window is
shorter than a lap, so that its positions have different slots.
-/

namespace CppPlay.Lib

variable {τ : Type*} {capacity : ℕ}

theorem mod_eq_mod_iff_of_lt_lap {i j : ℕ} (hle : i ≤ j) (hlap : j < i + capacity) :
    j % capacity = i % capacity ↔ j = i := by
  constructor
  · intro hmod
    have hdvd : capacity ∣ j - i := (Nat.modEq_iff_dvd' hle).mp hmod.symm
    have hzero : j - i = 0 := Nat.eq_zero_of_dvd_of_lt hdvd (by omega)
    omega
  · intro heq
    rw [heq]

theorem eq_of_mod_eq_mod {i j : ℕ} (hmod : i % capacity = j % capacity)
    (hi : i < j + capacity) (hj : j < i + capacity) : i = j := by
  rcases Nat.le_total i j with hle | hle
  · exact ((mod_eq_mod_iff_of_lt_lap hle hj).mp hmod.symm).symm
  · exact (mod_eq_mod_iff_of_lt_lap hle hi).mp hmod

def Window (capacity : ℕ) (buffer : ℕ → τ) (history : List τ) (first : ℕ) : Prop :=
  ∀ k, first ≤ k → k < history.length → history[k]? = some (buffer (k % capacity))

namespace Window

variable {buffer : ℕ → τ} {history : List τ} {first : ℕ}

theorem write (hwindow : Window capacity buffer history first)
    (hroom : history.length < first + capacity) (a : τ) :
    Window capacity (Function.update buffer (history.length % capacity) a) history first := by
  intro k hfirst hlast
  have hne : k % capacity ≠ history.length % capacity := by
    intro hmod
    have heq := (mod_eq_mod_iff_of_lt_lap hlast.le (by omega)).mp hmod.symm
    omega
  rw [Function.update_of_ne hne]
  exact hwindow k hfirst hlast

theorem publish (hwindow : Window capacity buffer history first) {a : τ}
    (hslot : buffer (history.length % capacity) = a) :
    Window capacity buffer (history ++ [a]) first := by
  intro k hfirst hlast
  rw [List.length_append, List.length_singleton] at hlast
  rcases Nat.lt_or_ge k history.length with hold | hnew
  · rw [List.getElem?_append_left hold]
    exact hwindow k hfirst hold
  · have hk : k = history.length := by omega
    rw [hk, List.getElem?_concat_length, hslot]

theorem leave (hwindow : Window capacity buffer history first)
    (hlap : history.length < first + capacity) (a : τ) :
    Window capacity (Function.update buffer (first % capacity) a) history (first + 1) := by
  intro k hfirst hlast
  have hne : k % capacity ≠ first % capacity := by
    intro hmod
    have heq := (mod_eq_mod_iff_of_lt_lap (by omega) (by omega)).mp hmod
    omega
  rw [Function.update_of_ne hne]
  exact hwindow k (by omega) hlast

/-- What the history has from `first` on lies in the slots, each in one of its own. -/
theorem drop_le (hwindow : Window capacity buffer history first)
    (hlap : history.length ≤ first + capacity) (hcapacity : 0 < capacity) :
    (history.drop first : Multiset τ) ≤ (Multiset.range capacity).map buffer := by
  let positions := List.range' first (history.length - first)
  have hdrop : history.drop first = (positions.map (· % capacity)).map buffer := by
    apply List.ext_getElem?
    intro i
    rw [List.getElem?_drop, List.map_map, List.getElem?_map]
    rcases Nat.lt_or_ge (first + i) history.length with hlt | hge
    · rw [hwindow (first + i) (by omega) hlt, List.getElem?_range' (by omega)]
      simp
    · rw [List.getElem?_eq_none hge, List.getElem?_eq_none (by simp [positions]; omega)]
      rfl
  have hnodup : (positions.map (· % capacity)).Nodup := by
    apply List.Nodup.map_on _ List.nodup_range'
    intro i hi j hj hmod
    rw [List.mem_range'_1] at hi hj
    rcases Nat.le_total i j with hle | hle
    · exact ((mod_eq_mod_iff_of_lt_lap hle (by omega)).mp hmod.symm).symm
    · exact (mod_eq_mod_iff_of_lt_lap hle (by omega)).mp hmod
  rw [hdrop, ← Multiset.map_coe]
  apply Multiset.map_le_map
  rw [Multiset.le_iff_subset (Multiset.coe_nodup.mpr hnodup)]
  intro slot hslot
  obtain ⟨k, _, rfl⟩ := List.mem_map.mp (Multiset.mem_coe.mp hslot)
  exact Multiset.mem_range.mpr (Nat.mod_lt k hcapacity)

end Window

end CppPlay.Lib
