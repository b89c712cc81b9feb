import CppPlay.Lib.Alignment

/-!
# The order of the elements of a tuple

Three checks tell whether the alignments of a tuple's elements never fall: a
recursion over the element's index, a loop over the array of the alignments and
`std::is_sorted` on it.
-/

namespace CppPlay.Templates

open CppPlay.Lib

/-- What the checks read of an element type, with what the language grants for every type
that is an element of an array. -/
structure ElementType where
  sizeof : ℕ
  alignof : ℕ
  alignof_pow : ∃ k, alignof = 2 ^ k
  sizeof_pos : 0 < sizeof
  alignof_dvd : alignof ∣ sizeof

namespace ElementType

theorem alignof_pos (t : ElementType) : 0 < t.alignof := by
  obtain ⟨k, hk⟩ := t.alignof_pow
  rw [hk]
  exact Nat.two_pow_pos k

theorem alignof_dvd_alignof {t u : ElementType} (hle : t.alignof ≤ u.alignof) :
    t.alignof ∣ u.alignof := by
  obtain ⟨k, hk⟩ := t.alignof_pow
  obtain ⟨l, hl⟩ := u.alignof_pow
  rw [hk, hl] at hle ⊢
  exact (Nat.pow_dvd_pow_iff_le_right (by decide)).mpr
    ((Nat.pow_le_pow_iff_right (by decide)).mp hle)

end ElementType

/-- `none` is an instantiation that does not compile: no `tuple_element_t` at that index. -/
def isTupleElementOrderOptimized (tt : List ElementType) (i : ℕ) : Option ℕ :=
  if tt.length = 0 ∨ tt.length = 1 then some 0
  else if i = tt.length then some 0
  else if hi : i < tt.length then
    if i = 0 then isTupleElementOrderOptimized tt (i + 1)
    else
      let cet := tt[i]
      let pet := tt[i - 1]
      if cet.alignof ≥ pet.alignof then isTupleElementOrderOptimized tt (i + 1) else some i
  else none
termination_by tt.length - i

/-- The loop of `ifSortedByAlignment` from `pos` on, over the alignments `ar`. -/
def sortedLoop (ar : List ℕ) (pos : ℕ) : ℕ :=
  if h : pos < ar.length then
    if ar[pos] < ar[pos - 1] then pos else sortedLoop ar (pos + 1)
  else 0
termination_by ar.length - pos

/-- There is no overload for the empty tuple. -/
def ifSortedByAlignment : List ElementType → Option ℕ
  | [] => none
  | [_] => some 0
  | ts => some (sortedLoop (ts.map ElementType.alignof) 1)

def isSorted : List ℕ → Bool
  | a :: b :: als => !(b < a) && isSorted (b :: als)
  | _ => true

namespace Max2

def getAlignments (ts : List ElementType) : List ℕ := ts.map ElementType.alignof

def ifSortedByAlignment (ts : List ElementType) : Bool := isSorted (getAlignments ts)

end Max2

/-- The element at `i` has a smaller alignment than the one before it. -/
def Drop (ar : List ℕ) (i : ℕ) : Prop :=
  0 < i ∧ ∃ cur prev, ar[i]? = some cur ∧ ar[i - 1]? = some prev ∧ cur < prev

theorem drop_iff {ar : List ℕ} {i : ℕ} (hi : i < ar.length) (hpos : 0 < i) :
    Drop ar i ↔ ar[i] < ar[i - 1] := by
  have hprev : i - 1 < ar.length := by omega
  constructor
  · rintro ⟨_, cur, prev, hcur, hprev', hlt⟩
    rw [List.getElem?_eq_getElem hi, Option.some.injEq] at hcur
    rw [List.getElem?_eq_getElem hprev, Option.some.injEq] at hprev'
    rwa [hcur, hprev']
  · intro hlt
    exact ⟨hpos, _, _, List.getElem?_eq_getElem hi, List.getElem?_eq_getElem hprev, hlt⟩

theorem Drop.lt_length {ar : List ℕ} {i : ℕ} (hdrop : Drop ar i) : i < ar.length := by
  obtain ⟨_, cur, _, hcur, _⟩ := hdrop
  exact (List.getElem?_eq_some_iff.mp hcur).1

/-- A scan from `pos` on gives the first drop, or zero when there is none. -/
theorem sortedLoop_spec {ar : List ℕ} {pos : ℕ} (hpos : 0 < pos) :
    (sortedLoop ar pos = 0 ∧ ∀ i, pos ≤ i → ¬ Drop ar i) ∨
      IsLeast {i | pos ≤ i ∧ Drop ar i} (sortedLoop ar pos) := by
  induction pos using sortedLoop.induct ar with
  | case1 pos hlt hdrop =>
      right
      rw [sortedLoop, dif_pos hlt, if_pos hdrop]
      exact ⟨⟨le_rfl, (drop_iff hlt hpos).mpr hdrop⟩, fun i hi => hi.1⟩
  | case2 pos hlt hrise ih =>
      have hnot : ¬ Drop ar pos := fun hdrop => hrise ((drop_iff hlt hpos).mp hdrop)
      have hlater : ∀ i, pos ≤ i → Drop ar i → pos + 1 ≤ i := by
        intro i hi hdrop
        have hne : pos ≠ i := by
          rintro rfl
          exact hnot hdrop
        omega
      rw [sortedLoop, dif_pos hlt, if_neg hrise]
      rcases ih (Nat.succ_pos pos) with ⟨hzero, hnone⟩ | hleast
      · exact Or.inl ⟨hzero, fun i hi hdrop => hnone i (hlater i hi hdrop) hdrop⟩
      · right
        constructor
        · exact ⟨by have := hleast.1.1; omega, hleast.1.2⟩
        · exact fun i hi => hleast.2 ⟨hlater i hi.1 hi.2, hi.2⟩
  | case3 pos hend =>
      left
      rw [sortedLoop, dif_neg hend]
      exact ⟨rfl, fun i hi hdrop => hend (hi.trans_lt hdrop.lt_length)⟩

theorem isSorted_iff_pairwise (als : List ℕ) :
    isSorted als = true ↔ als.Pairwise (· ≤ ·) := by
  rw [← List.isChain_iff_pairwise]
  induction als using isSorted.induct with
  | case1 a b als ih =>
      rw [isSorted, List.isChain_cons_cons, ← ih, Bool.and_eq_true, Bool.not_eq_true',
        decide_eq_false_iff_not, not_lt]
  | case2 als hshort =>
      match als, hshort with
      | [], _ => simp [isSorted]
      | [_], _ => simp [isSorted]
      | a :: b :: als, hshort => exact absurd rfl (hshort a b als)

theorem pairwise_iff_forall_not_drop (ar : List ℕ) :
    ar.Pairwise (· ≤ ·) ↔ ∀ i, ¬ Drop ar i := by
  rw [← List.isChain_iff_pairwise, List.isChain_iff_getElem]
  constructor
  · intro hchain i hdrop
    have hlt := hdrop.lt_length
    obtain ⟨k, rfl⟩ : ∃ k, i = k + 1 := Nat.exists_eq_succ_of_ne_zero hdrop.1.ne'
    have hle := hchain k hlt
    rw [drop_iff hlt hdrop.1] at hdrop
    exact absurd hdrop (not_lt.mpr hle)
  · intro hnone k hk
    by_contra hgt
    exact hnone (k + 1) ((drop_iff hk k.succ_pos).mpr (not_le.mp hgt))

/-- The recursion over the index reads the same alignments as the loop. -/
theorem isTupleElementOrderOptimized_eq_sortedLoop {tt : List ElementType} {i : ℕ}
    (hmany : 2 ≤ tt.length) (hpos : 0 < i) (hle : i ≤ tt.length) :
    isTupleElementOrderOptimized tt i =
      some (sortedLoop (tt.map ElementType.alignof) i) := by
  induction i using isTupleElementOrderOptimized.induct tt with
  | case1 i hshort => omega
  | case2 hmore =>
      rw [isTupleElementOrderOptimized, if_neg hmore, if_pos rfl, sortedLoop,
        dif_neg (by rw [List.length_map]; exact lt_irrefl _)]
  | case3 => exact absurd hpos (lt_irrefl 0)
  | case4 i hmore hne hi hnot cet pet hrise ih =>
      have hstay : ¬ cet.alignof < pet.alignof := not_lt.mpr hrise
      rw [isTupleElementOrderOptimized, if_neg hmore, if_neg hne, dif_pos hi, if_neg hnot,
        ih (Nat.succ_pos i) hi]
      rw [sortedLoop.eq_def _ i, dif_pos (by rwa [List.length_map])]
      simp only [List.getElem_map]
      rw [if_neg hstay]
      exact if_pos hrise
  | case5 i hmore hne hi hnot cet pet hdrop =>
      have hfall : cet.alignof < pet.alignof := not_le.mp hdrop
      rw [isTupleElementOrderOptimized, if_neg hmore, if_neg hne, dif_pos hi, if_neg hnot,
        sortedLoop, dif_pos (by rwa [List.length_map])]
      simp only [List.getElem_map]
      rw [if_pos hfall]
      exact if_neg hdrop
  | case6 i hmore hne hi => omega

theorem ifSortedByAlignment_eq_sortedLoop (t : ElementType) (ts : List ElementType) :
    ifSortedByAlignment (t :: ts) =
      some (sortedLoop ((t :: ts).map ElementType.alignof) 1) := by
  cases ts with
  | nil => rw [ifSortedByAlignment, sortedLoop, dif_neg (by simp)]
  | cons u ts => rfl

theorem isTupleElementOrderOptimized_eq_ifSorted (t : ElementType) (ts : List ElementType) :
    isTupleElementOrderOptimized (t :: ts) 0 = ifSortedByAlignment (t :: ts) := by
  cases ts with
  | nil =>
      rw [isTupleElementOrderOptimized, if_pos (Or.inr List.length_singleton)]
      rfl
  | cons u ts =>
      have hmany : 2 ≤ (t :: u :: ts).length := by simp
      rw [isTupleElementOrderOptimized, if_neg (by simp), if_neg (by simp),
        dif_pos (by simp), if_pos rfl, ifSortedByAlignment_eq_sortedLoop,
        isTupleElementOrderOptimized_eq_sortedLoop hmany Nat.one_pos (by simp)]

def tupleSize (ts : List ElementType) : ℕ :=
  layoutSize ElementType.sizeof ElementType.alignof ts

theorem tupleSize_of_sorted {ts us : List ElementType}
    (hsorted : ts.Pairwise fun t u => t.alignof ≤ u.alignof) (hus : us = ts ∨ us = ts.reverse) :
    tupleSize us = roundUp (totalSize ElementType.sizeof ts) (maxAlign ElementType.alignof ts) := by
  have hasc : ts.Pairwise fun t u => t.alignof ∣ u.alignof :=
    hsorted.imp ElementType.alignof_dvd_alignof
  rcases hus with rfl | rfl
  · apply layoutSize_of_ascending (fun t _ => t.alignof_pos) (fun t _ => t.alignof_dvd) _ hasc
    intro t ht
    have hne : us ≠ [] := List.ne_nil_of_mem ht
    obtain ⟨u, _, hmax⟩ := exists_eq_maxAlign (fun t _ => ElementType.alignof_pos t) hne
    rw [← hmax]
    apply ElementType.alignof_dvd_alignof
    rw [hmax]
    exact le_maxAlign ht
  · have hdesc : ts.reverse.Pairwise fun t u => u.alignof ∣ t.alignof :=
      List.pairwise_reverse.mpr hasc
    have hperm : ts.reverse.Perm ts := List.reverse_perm ts
    rw [tupleSize, layoutSize_of_descending (fun t _ => t.alignof_pos)
      (fun t _ => t.alignof_dvd) hdesc, totalSize_perm hperm, maxAlign_perm hperm]

theorem orderChecks_agree (t : ElementType) (ts : List ElementType) :
    ∃ n, isTupleElementOrderOptimized (t :: ts) 0 = some n ∧
      ifSortedByAlignment (t :: ts) = some n ∧
      (n = 0 ↔ (t :: ts).Pairwise fun t u => t.alignof ≤ u.alignof) ∧
      (n ≠ 0 → IsLeast {i | Drop ((t :: ts).map ElementType.alignof) i} n) ∧
      (Max2.ifSortedByAlignment (t :: ts) = true ↔ n = 0) ∧
      (n = 0 → ∀ us, us = t :: ts ∨ us = (t :: ts).reverse →
        tupleSize us = roundUp (totalSize ElementType.sizeof (t :: ts))
          (maxAlign ElementType.alignof (t :: ts)) ∧
        ∀ vs, vs.Perm (t :: ts) → tupleSize us ≤ tupleSize vs) := by
  have hspec : _ ∨ IsLeast {i | 1 ≤ i ∧ Drop ((t :: ts).map ElementType.alignof) i} _ :=
    sortedLoop_spec Nat.one_pos
  have hpairwise := pairwise_iff_forall_not_drop ((t :: ts).map ElementType.alignof)
  set n := sortedLoop ((t :: ts).map ElementType.alignof) 1 with hn
  have hzero : n = 0 ↔ ∀ i, ¬ Drop ((t :: ts).map ElementType.alignof) i := by
    rcases hspec with ⟨hzero, hnone⟩ | hleast
    · exact ⟨fun _ i hdrop => hnone i hdrop.1 hdrop, fun _ => hzero⟩
    · constructor
      · intro h0
        exact absurd hleast.1.1 (by omega)
      · exact fun hnone => absurd hleast.1.2 (hnone n)
  have hsorted : n = 0 ↔ (t :: ts).Pairwise fun t u => t.alignof ≤ u.alignof := by
    rw [hzero, ← hpairwise, List.pairwise_map]
  refine ⟨n, ?_, ifSortedByAlignment_eq_sortedLoop t ts, hsorted, ?_, ?_, ?_⟩
  · rw [isTupleElementOrderOptimized_eq_ifSorted, ifSortedByAlignment_eq_sortedLoop]
  · intro hne
    rcases hspec with ⟨h0, _⟩ | hleast
    · exact absurd h0 hne
    · exact ⟨hleast.1.2, fun i hi => hleast.2 ⟨hi.1, hi⟩⟩
  · rw [Max2.ifSortedByAlignment, Max2.getAlignments, isSorted_iff_pairwise, hpairwise, hzero]
  · intro h0 us hus
    have hsize := tupleSize_of_sorted (hsorted.mp h0) hus
    have hperm : us.Perm (t :: ts) := by
      rcases hus with rfl | rfl
      · exact List.Perm.refl _
      · exact List.reverse_perm _
    constructor
    · exact hsize
    · intro vs hvs
      apply layoutSize_le_of_perm (fun t _ => t.alignof_pos) (hperm.trans hvs.symm)
      rw [totalSize_perm hperm, maxAlign_perm hperm]
      exact hsize

end CppPlay.Templates
