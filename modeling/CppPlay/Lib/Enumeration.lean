import Mathlib.Order.Bounds.Basic
import Mathlib.Order.WellFounded
import Mathlib.Tactic

/-!
# Enumerating a set by first and next elements

In a linear order the elements of a set from some point on are found one after another:
the least one that is not below the point, and from each element the least one above it.
-/

namespace CppPlay.Lib

variable {α : Type*} [LinearOrder α] {P Q : α → Prop} {d a r x : α}

def IsFirst (P : α → Prop) (d r : α) : Prop := IsLeast {x | P x ∧ d ≤ x} r

def IsNext (P : α → Prop) (d r : α) : Prop := IsLeast {x | P x ∧ d < x} r

theorem isFirst_self (hd : P d) : IsFirst P d d :=
  ⟨⟨hd, le_rfl⟩, fun _ hx => hx.2⟩

theorem isFirst_of_isNext (hd : ¬ P d) (hnext : IsNext P d r) : IsFirst P d r := by
  refine ⟨⟨hnext.1.1, hnext.1.2.le⟩, ?_⟩
  rintro x ⟨hx, hle⟩
  apply hnext.2 ⟨hx, lt_of_le_of_ne hle _⟩
  rintro rfl
  exact hd hx

theorem isNext_of_isFirst (hd : ¬ P d) (hfirst : IsFirst P d r) : IsNext P d r := by
  refine ⟨⟨hfirst.1.1, lt_of_le_of_ne hfirst.1.2 ?_⟩, fun x hx => hfirst.2 ⟨hx.1, hx.2.le⟩⟩
  rintro rfl
  exact hd hfirst.1.1

theorem IsFirst.from_isFirst (hfirst : IsFirst Q d r) (hsub : ∀ x, Q x → P x)
    (hwider : IsFirst P d a) : IsFirst Q a r :=
  ⟨⟨hfirst.1.1, hwider.2 ⟨hsub r hfirst.1.1, hfirst.1.2⟩⟩,
    fun _ hx => hfirst.2 ⟨hx.1, hwider.1.2.trans hx.2⟩⟩

theorem IsNext.from_isNext (hnext : IsNext Q d r) (hsub : ∀ x, Q x → P x)
    (hwider : IsNext P d a) : IsFirst Q a r :=
  ⟨⟨hnext.1.1, hwider.2 ⟨hsub r hnext.1.1, hnext.1.2⟩⟩,
    fun _ hx => hnext.2 ⟨hx.1, hwider.1.2.trans_le hx.2⟩⟩

/-- Above an element there is a next one, if there is any and the order is that of
natural numbers. -/
theorem exists_isNext {rank : α → ℕ} (hrank : StrictMono rank) (hx : P x) (hlt : d < x) :
    ∃ r, IsNext P d r ∧ r ≤ x := by
  have hwf : WellFounded (fun a b : α => rank a < rank b) :=
    InvImage.wf rank Nat.lt_wfRel.wf
  obtain ⟨r, ⟨hr, hdr⟩, hmin⟩ :=
    WellFounded.has_min hwf {x | P x ∧ d < x} ⟨x, hx, hlt⟩
  have hleast : ∀ y, P y ∧ d < y → r ≤ y := by
    intro y hy
    exact hrank.le_iff_le.mp (not_lt.mp (hmin y hy))
  exact ⟨r, ⟨⟨hr, hdr⟩, hleast⟩, hleast x ⟨hx, hlt⟩⟩

theorem exists_isFirst {rank : α → ℕ} (hrank : StrictMono rank) (hx : P x) (hle : d ≤ x) :
    ∃ r, IsFirst P d r ∧ r ≤ x := by
  by_cases hd : P d
  · exact ⟨d, isFirst_self hd, hle⟩
  · have hlt : d < x := by
      apply lt_of_le_of_ne hle
      rintro rfl
      exact hd hx
    obtain ⟨r, hnext, hrx⟩ := exists_isNext hrank hx hlt
    exact ⟨r, isFirst_of_isNext hd hnext, hrx⟩

def prepend {β : Type*} (b : β) (f : ℕ → β) : ℕ → β
  | 0 => b
  | i + 1 => f i

/-- The sequence up to its index `k` lists the elements from `d` to `x` in their order. -/
structure Enumerates (P : α → Prop) (d x : α) (f : ℕ → α) (k : ℕ) : Prop where
  strictMono : ∀ i j, i < j → j ≤ k → f i < f j
  mem_iff : ∀ y, (P y ∧ d ≤ y ∧ y ≤ x) ↔ ∃ i ≤ k, f i = y

theorem Enumerates.prepend {f : ℕ → α} {k : ℕ} (hlists : Enumerates P r x f k)
    (hfirst : IsFirst P d a) (hnext : IsNext P a r) (hrx : r ≤ x) :
    Enumerates P d x (prepend a f) (k + 1) := by
  have habove : ∀ i, i ≤ k → a < f i := by
    intro i hi
    exact hnext.1.2.trans_le ((hlists.mem_iff (f i)).mpr ⟨i, hi, rfl⟩).2.1
  constructor
  · intro i j hij hj
    cases j with
    | zero => exact absurd hij (Nat.not_lt_zero i)
    | succ j =>
        cases i with
        | zero => exact habove j (by omega)
        | succ i => exact hlists.strictMono i j (by omega) (by omega)
  · intro y
    constructor
    · rintro ⟨hy, hdy, hyx⟩
      rcases (hfirst.2 ⟨hy, hdy⟩).eq_or_lt with hay | hay
      · exact ⟨0, Nat.zero_le _, hay⟩
      · obtain ⟨i, hi, hfi⟩ := (hlists.mem_iff y).mp ⟨hy, hnext.2 ⟨hy, hay⟩, hyx⟩
        exact ⟨i + 1, by omega, hfi⟩
    · rintro ⟨i, hi, rfl⟩
      cases i with
      | zero => exact ⟨hfirst.1.1, hfirst.1.2, hnext.1.2.le.trans hrx⟩
      | succ i =>
          obtain ⟨hpi, _, hix⟩ := (hlists.mem_iff (f i)).mpr ⟨i, by omega, rfl⟩
          exact ⟨hpi, hfirst.1.2.trans (habove i (by omega)).le, hix⟩

/-- From the first element on, the next ones lead to each later element and list all that
are between. -/
theorem exists_enumerates {rank : α → ℕ} (hrank : StrictMono rank) (hx : P x)
    (hfirst : IsFirst P d a) (hle : a ≤ x) :
    ∃ f k, Enumerates P d x f k ∧ f 0 = a ∧ f k = x ∧ ∀ i < k, IsNext P (f i) (f (i + 1)) := by
  induction hgap : rank x - rank a using Nat.strong_induction_on generalizing d a with
  | _ gap ih =>
      rcases hle.eq_or_lt with rfl | hlt
      · refine ⟨fun _ => a, 0, ⟨?_, ?_⟩, rfl, rfl, ?_⟩
        · intro i j hij hj
          omega
        · intro y
          constructor
          · rintro ⟨hy, hdy, hya⟩
            exact ⟨0, le_rfl, le_antisymm (hfirst.2 ⟨hy, hdy⟩) hya⟩
          · rintro ⟨_, _, rfl⟩
            exact ⟨hfirst.1.1, hfirst.1.2, le_rfl⟩
        · intro i hi
          omega
      · obtain ⟨r, hnext, hrx⟩ := exists_isNext hrank hx hlt
        have har : rank a < rank r := hrank hnext.1.2
        have hrankx : rank r ≤ rank x := hrank.monotone hrx
        obtain ⟨f, k, hlists, hzero, hlast, hsteps⟩ :=
          ih (rank x - rank r) (by omega) (isFirst_self hnext.1.1) hrx rfl
        refine ⟨prepend a f, k + 1, hlists.prepend hfirst hnext hrx, rfl, hlast, ?_⟩
        intro i hi
        cases i with
        | zero =>
            show IsNext P a (f 0)
            rw [hzero]
            exact hnext
        | succ i => exact hsteps i (by omega)

end CppPlay.Lib
