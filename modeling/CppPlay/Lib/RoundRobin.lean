import Mathlib.Data.Int.CardIntervalMod
import Mathlib.Tactic

/-!
# Slots in turn

Something goes round a ring of slots.  Handed out in turn, the slots get equally many, give or
take one.  One who stays at a slot for a bounded number of services and then goes on to the
next does not keep any slot waiting for more than the others' share.
-/

namespace CppPlay.Lib

namespace RoundRobin

variable {size stay extra i j q left n : ℕ} {since : ℕ → ℕ}

/-! ## Handing out -/

/-- The slots of the first `n` turns. -/
def turns (size n : ℕ) : List ℕ := (List.range n).map (· % size)

theorem turns_succ (size n : ℕ) : turns size (n + 1) = turns size n ++ [n % size] := by
  rw [turns, List.range_succ, List.map_append, List.map_singleton, turns]

theorem count_turns (hi : i < size) (n : ℕ) :
    (turns size n).count i = n.count (· ≡ i [MOD size]) := by
  induction n with
  | zero => rfl
  | succ n ih =>
      rw [turns_succ, List.count_append, ih, Nat.count_succ, List.count_singleton]
      have hmod : n ≡ i [MOD size] ↔ n % size = i := by
        change n % size = i % size ↔ _
        rw [Nat.mod_eq_of_lt hi]
      simp only [hmod, beq_iff_eq]

/-- No slot gets two more than another. -/
theorem count_turns_le (hi : i < size) (hj : j < size) (n : ℕ) :
    (turns size n).count i ≤ (turns size n).count j + 1 := by
  have hpos : 0 < size := by omega
  rw [count_turns hi, count_turns hj, Nat.count_modEq_card n hpos, Nat.count_modEq_card n hpos]
  split_ifs
  all_goals omega

/-! ## Going round -/

/-- The slots of the next `n` turns, from the turn `first` on. -/
def turnsFrom (size first n : ℕ) : List ℕ := (List.range n).map fun j => (first + j) % size

theorem turnsFrom_succ (size first n : ℕ) :
    turnsFrom size first (n + 1) = turnsFrom size first n ++ [(first + n) % size] := by
  rw [turnsFrom, List.range_succ, List.map_append, List.map_singleton, turnsFrom]

/-- Once round is every slot once. -/
theorem turnsFrom_perm (hpos : 0 < size) (first : ℕ) :
    (turnsFrom size first size).Perm (List.range size) := by
  have hnodup : (turnsFrom size first size).Nodup := by
    refine List.Nodup.map_on (fun j hj k hk hsame => ?_) List.nodup_range
    have hmod : j % size = k % size := Nat.ModEq.add_left_cancel' first hsame
    rwa [Nat.mod_eq_of_lt (List.mem_range.mp hj), Nat.mod_eq_of_lt (List.mem_range.mp hk)] at hmod
  have hsub : turnsFrom size first size ⊆ List.range size := by
    intro slot hslot
    obtain ⟨j, -, hj⟩ := List.mem_map.mp hslot
    rw [← hj]
    exact List.mem_range.mpr (Nat.mod_lt _ hpos)
  refine (List.subperm_of_subset hnodup hsub).perm_of_length_le ?_
  rw [turnsFrom, List.length_map]

/-- How many slots on from slot `i` slot `q` is. -/
def ahead (size i q : ℕ) : ℕ := if i ≤ q then q - i else q + size - i

theorem succ_mod (hi : i < size) : (i + 1) % size = if i + 1 = size then 0 else i + 1 := by
  split_ifs with hlast
  · rw [hlast, Nat.mod_self]
  · exact Nat.mod_eq_of_lt (by omega)

theorem ahead_lt (hi : i < size) (hq : q < size) : ahead size i q < size := by
  unfold ahead
  split_ifs
  all_goals omega

theorem ahead_pos (hi : i < size) (hne : q ≠ i) : 0 < ahead size i q := by
  unfold ahead
  split_ifs
  all_goals omega

theorem ahead_succ_self (hi : i < size) : ahead size ((i + 1) % size) i = size - 1 := by
  rw [succ_mod hi]
  unfold ahead
  split_ifs
  all_goals omega

theorem ahead_succ (hi : i < size) (hq : q < size) (hne : q ≠ i) :
    ahead size ((i + 1) % size) q = ahead size i q - 1 := by
  rw [succ_mod hi]
  unfold ahead
  split_ifs
  all_goals omega

/-! ## Staying a while

`since q` counts the services since slot `q` was last looked at, and `left` is how many more
there may be at the present slot.  One who leaves a slot early may stay up to `extra` longer at
the next. -/

structure Fair (size stay extra i left : ℕ) (since : ℕ → ℕ) : Prop where
  here : since i ≤ (size - 1) * stay + extra
  others : ∀ q < size, q ≠ i →
    since q + left + (ahead size i q - 1) * stay ≤ (size - 1) * stay + extra

def served (since : ℕ → ℕ) (i : ℕ) : ℕ → ℕ := fun q => if q = i then 0 else since q + 1

def looked (since : ℕ → ℕ) (i : ℕ) : ℕ → ℕ := fun q => if q = i then 0 else since q

namespace Fair

theorem start (hi : i < size) (hleft : left ≤ stay) :
    Fair size stay extra i left fun _ => 0 := by
  refine ⟨Nat.zero_le _, fun q hq hne => ?_⟩
  have hpos := ahead_pos hi hne
  have hlt := ahead_lt hi hq
  calc
    0 + left + (ahead size i q - 1) * stay ≤ 1 * stay + (ahead size i q - 1) * stay := by omega
    _ = (1 + (ahead size i q - 1)) * stay := (Nat.add_mul _ _ _).symm
    _ ≤ (size - 1) * stay := Nat.mul_le_mul_right stay (by omega)
    _ ≤ (size - 1) * stay + extra := Nat.le_add_right _ _

theorem mono (hfair : Fair size stay extra i left since) (hleft : n ≤ left) :
    Fair size stay extra i n since :=
  ⟨hfair.here, fun q hq hne => le_trans (by omega) (hfair.others q hq hne)⟩

theorem serve (hfair : Fair size stay extra i (left + 1) since) :
    Fair size stay extra i left (served since i) := by
  refine ⟨by simp [served], fun q hq hne => ?_⟩
  rw [served, if_neg hne]
  exact le_trans (by omega) (hfair.others q hq hne)

theorem look (hfair : Fair size stay extra i left since) :
    Fair size stay extra i left (looked since i) := by
  refine ⟨by simp [looked], fun q hq hne => ?_⟩
  rw [looked, if_neg hne]
  exact hfair.others q hq hne

/-- On to the next slot, from one that was looked at last, with what is left of its services. -/
theorem move (hi : i < size) (hfair : Fair size stay extra i left since)
    (hlooked : since i = 0) (hleft : left ≤ extra) :
    Fair size stay extra ((i + 1) % size) (stay + left) since := by
  have hpos : 0 < size := by omega
  have hnext : (i + 1) % size < size := Nat.mod_lt _ hpos
  constructor
  · by_cases hsame : (i + 1) % size = i
    · rw [hsame, hlooked]
      exact Nat.zero_le _
    · exact le_trans (by omega) (hfair.others _ hnext hsame)
  · intro q hq hne
    by_cases hself : q = i
    · have hahead := ahead_pos hnext hne
      rw [hself, ahead_succ_self hi] at hahead
      rw [hself, hlooked, ahead_succ_self hi]
      calc
        0 + (stay + left) + (size - 1 - 1) * stay =
            1 * stay + (size - 1 - 1) * stay + left := by omega
        _ = (1 + (size - 1 - 1)) * stay + left := by rw [Nat.add_mul]
        _ ≤ (size - 1) * stay + extra :=
            Nat.add_le_add (Nat.mul_le_mul_right stay (by omega)) hleft
    · have hbefore := hfair.others q hq hself
      have hahead := ahead_pos hnext hne
      rw [ahead_succ hi hq hself] at hahead ⊢
      calc
        since q + (stay + left) + (ahead size i q - 1 - 1) * stay =
            since q + left + (1 * stay + (ahead size i q - 1 - 1) * stay) := by omega
        _ = since q + left + (1 + (ahead size i q - 1 - 1)) * stay := by rw [Nat.add_mul]
        _ = since q + left + (ahead size i q - 1) * stay := by rw [Nat.add_sub_cancel' hahead]
        _ ≤ (size - 1) * stay + extra := hbefore

/-- No slot waits for more than the share of the others, once extended. -/
theorem since_le (hfair : Fair size stay extra i left since) (hq : q < size) :
    since q ≤ (size - 1) * stay + extra := by
  by_cases hself : q = i
  · rw [hself]
    exact hfair.here
  · exact le_trans (by omega) (hfair.others q hq hself)

end Fair

end RoundRobin

end CppPlay.Lib
