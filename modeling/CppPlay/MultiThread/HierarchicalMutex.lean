import CppPlay.Lib.Run
import CppPlay.Lib.Threads
import Mathlib.Order.Fin.Basic

/-!
# The hierarchical mutex

A thread may lock a mutex only while its own hierarchy value is above that of the
mutex.  `lock` saves the value of the thread in a field of the mutex and `unlock`
restores it from there, which is right as long as the mutexes are unlocked in the
reverse order of their locking.
-/

namespace CppPlay.MultiThread

open CppPlay.Lib

/-- An `unsigned long`; the greatest one is `ULONG_MAX`. -/
abbrev UnsignedLong := Fin (2 ^ 64 - 1 + 1)

/-- Where a thread stands: in no call, before the internal lock of `lock` or
`try_lock`, before `update_hierarchy_value`, or before the internal unlock. -/
inductive HierarchyPc (μ : Type) where
  | idle
  | locking (m : μ)
  | tryLocking (m : μ)
  | updating (m : μ)
  | releasing (m : μ)
  deriving DecidableEq

inductive HierarchyCall (μ : Type) where
  | lock (m : μ)
  | tryLock (m : μ)
  | unlock (m : μ)

namespace HierarchyPc

variable {μ : Type}

/-- The thread passed the check for the mutex and did not take its value over yet. -/
def Pending (pc : HierarchyPc μ) (m : μ) : Prop :=
  pc = .locking m ∨ pc = .tryLocking m ∨ pc = .updating m

/-- The thread has the internal mutex outside the time that it counts as held. -/
def Owns (pc : HierarchyPc μ) (m : μ) : Prop := pc = .updating m ∨ pc = .releasing m

@[simp] theorem not_pending_idle (m : μ) : ¬ (idle : HierarchyPc μ).Pending m := by
  simp [Pending]

@[simp] theorem not_owns_idle (m : μ) : ¬ (idle : HierarchyPc μ).Owns m := by
  simp [Owns]

end HierarchyPc

/-- The mutexes with the threads that use them.  `owner` is who has the internal
mutex, `held` lists what a thread locked and did not unlock, the latest first. -/
structure HierarchicalMutexes (ι μ : Type) where
  owner : μ → Option ι
  previousHierarchyValue : μ → UnsignedLong
  thisThreadHierarchyValue : ι → UnsignedLong
  pc : ι → HierarchyPc μ
  held : ι → List μ

namespace HierarchicalMutexes

variable {ι μ : Type}

def start : HierarchicalMutexes ι μ :=
  ⟨fun _ => none, fun _ => 0, fun _ => ⊤, fun _ => .idle, fun _ => []⟩

/-- `check_for_hierarchy_violation` throws. -/
def Violates (hierarchyValue : μ → UnsignedLong) (s : HierarchicalMutexes ι μ) (t : ι) (m : μ) :
    Prop :=
  s.thisThreadHierarchyValue t ≤ hierarchyValue m

instance (hierarchyValue : μ → UnsignedLong) (s : HierarchicalMutexes ι μ) (t : ι) (m : μ) :
    Decidable (s.Violates hierarchyValue t m) :=
  inferInstanceAs (Decidable (_ ≤ _))

/-- The least of the values, and `ULONG_MAX` of none. -/
def minHierarchyValue (hierarchyValue : μ → UnsignedLong) (held : List μ) : UnsignedLong :=
  (held.map hierarchyValue).foldr min ⊤

def WaitsFor (s : HierarchicalMutexes ι μ) (t u : ι) : Prop :=
  ∃ m, s.pc t = .locking m ∧ s.owner m = some u

/-- Each thread's value is the least among its mutexes, and no threads wait for each
other in a circle. -/
structure Safe (hierarchyValue : μ → UnsignedLong) (s : HierarchicalMutexes ι μ) : Prop where
  value_eq : ∀ t, s.thisThreadHierarchyValue t = minHierarchyValue hierarchyValue (s.held t)
  acyclic : ∀ t, ¬ Relation.TransGen s.WaitsFor t t

variable [DecidableEq ι] [DecidableEq μ]

/-- The next step of a thread; the call counts when the thread is in none. -/
def step (hierarchyValue : μ → UnsignedLong) (s : HierarchicalMutexes ι μ)
    (input : ι × HierarchyCall μ) : HierarchicalMutexes ι μ :=
  let t := input.1
  match s.pc t with
  | .idle =>
      match input.2 with
      | .lock m =>
          if s.Violates hierarchyValue t m then s
          else { s with pc := Function.update s.pc t (.locking m) }
      | .tryLock m =>
          if s.Violates hierarchyValue t m then s
          else { s with pc := Function.update s.pc t (.tryLocking m) }
      | .unlock m =>
          -- only the holder unlocks
          if m ∈ s.held t then
            { s with
              thisThreadHierarchyValue :=
                Function.update s.thisThreadHierarchyValue t (s.previousHierarchyValue m)
              pc := Function.update s.pc t (.releasing m)
              held := Function.update s.held t ((s.held t).erase m) }
          else s
  | .locking m =>
      if s.owner m = none then
        { s with
          owner := Function.update s.owner m (some t)
          pc := Function.update s.pc t (.updating m) }
      else s
  | .tryLocking m =>
      if s.owner m = none then
        { s with
          owner := Function.update s.owner m (some t)
          pc := Function.update s.pc t (.updating m) }
      else { s with pc := Function.update s.pc t .idle }
  | .updating m =>
      { s with
        previousHierarchyValue :=
          Function.update s.previousHierarchyValue m (s.thisThreadHierarchyValue t)
        thisThreadHierarchyValue :=
          Function.update s.thisThreadHierarchyValue t (hierarchyValue m)
        pc := Function.update s.pc t .idle
        held := Function.update s.held t (m :: s.held t) }
  | .releasing m =>
      { s with
        owner := Function.update s.owner m none
        pc := Function.update s.pc t .idle }

/-- An unlock of a mutex that the thread holds takes the one with the least value. -/
def UnlocksLowest (hierarchyValue : μ → UnsignedLong) (s : HierarchicalMutexes ι μ)
    (input : ι × HierarchyCall μ) : Prop :=
  ∀ m, s.pc input.1 = .idle → input.2 = .unlock m → m ∈ s.held input.1 →
    ∀ other ∈ s.held input.1, hierarchyValue m ≤ hierarchyValue other

/-! ## Saved values -/

section Layered

variable {hierarchyValue previous previous' : μ → UnsignedLong} {value : UnsignedLong}
  {held : List μ}

/-- The value of a thread is that of the mutex it locked last, which has saved the
value it finds when that one is unlocked. -/
def Layered (hierarchyValue previous : μ → UnsignedLong) : UnsignedLong → List μ → Prop
  | value, [] => value = ⊤
  | value, m :: held =>
      value = hierarchyValue m ∧ hierarchyValue m < previous m ∧
        Layered hierarchyValue previous (previous m) held

omit [DecidableEq μ] in
theorem Layered.congr (hlayered : Layered hierarchyValue previous value held)
    (hsame : ∀ m ∈ held, previous' m = previous m) :
    Layered hierarchyValue previous' value held := by
  induction held generalizing value with
  | nil => exact hlayered
  | cons m held ih =>
      obtain ⟨hvalue, hbelow, hrest⟩ := hlayered
      have hm : previous' m = previous m := hsame m List.mem_cons_self
      refine ⟨hvalue, ?_, ?_⟩
      · rw [hm]
        exact hbelow
      · rw [hm]
        exact ih hrest fun other hmem => hsame other (List.mem_cons_of_mem _ hmem)

omit [DecidableEq μ] in
theorem Layered.le (hlayered : Layered hierarchyValue previous value held) :
    ∀ m ∈ held, value ≤ hierarchyValue m := by
  induction held generalizing value with
  | nil => exact fun m hmem => absurd hmem List.not_mem_nil
  | cons last held ih =>
      obtain ⟨hvalue, hbelow, hrest⟩ := hlayered
      intro m hmem
      rcases List.mem_cons.mp hmem with hlast | hearlier
      · rw [hlast, hvalue]
      · rw [hvalue]
        exact hbelow.le.trans (ih hrest m hearlier)

omit [DecidableEq μ] in
theorem Layered.notMem (hlayered : Layered hierarchyValue previous value held) {m : μ}
    (hbelow : hierarchyValue m < value) : m ∉ held :=
  fun hmem => absurd (hlayered.le m hmem) (not_le.mpr hbelow)

omit [DecidableEq μ] in
theorem Layered.eq_min (hlayered : Layered hierarchyValue previous value held) :
    value = minHierarchyValue hierarchyValue held := by
  induction held generalizing value with
  | nil => exact hlayered
  | cons m held ih =>
      obtain ⟨hvalue, hbelow, hrest⟩ := hlayered
      have hmin : previous m = minHierarchyValue hierarchyValue held := ih hrest
      rw [hvalue]
      calc
        hierarchyValue m = min (hierarchyValue m) (previous m) := (min_eq_left hbelow.le).symm
        _ = minHierarchyValue hierarchyValue (m :: held) := by rw [hmin]; rfl

omit [DecidableEq μ] in
theorem minHierarchyValue_le {m : μ} (hmem : m ∈ held) :
    minHierarchyValue hierarchyValue held ≤ hierarchyValue m := by
  unfold minHierarchyValue
  induction held with
  | nil => exact absurd hmem List.not_mem_nil
  | cons last held ih =>
      rw [List.map_cons, List.foldr_cons]
      rcases List.mem_cons.mp hmem with hlast | hearlier
      · rw [hlast]
        exact min_le_left _ _
      · exact (min_le_right _ _).trans (ih hearlier)

omit [DecidableEq μ] in
/-- What a mutex has saved lies above its own value, however deep it lies. -/
theorem Layered.lt_previous (hlayered : Layered hierarchyValue previous value held) :
    ∀ m ∈ held, hierarchyValue m < previous m := by
  induction held generalizing value with
  | nil => exact fun m hmem => absurd hmem List.not_mem_nil
  | cons last held ih =>
      intro m hmem
      rcases List.mem_cons.mp hmem with hlast | hearlier
      · rw [hlast]
        exact hlayered.2.1
      · exact ih hlayered.2.2 m hearlier

end Layered

/-! ## The invariant -/

variable {hierarchyValue : μ → UnsignedLong} {s : HierarchicalMutexes ι μ}

def PendingOk (hierarchyValue : μ → UnsignedLong) (s : HierarchicalMutexes ι μ) (t : ι)
    (pc : HierarchyPc μ) : Prop :=
  ∀ m, pc.Pending m → hierarchyValue m < s.thisThreadHierarchyValue t

def ReleasingOk (s : HierarchicalMutexes ι μ) (t : ι) (pc : HierarchyPc μ) : Prop :=
  ∀ m, pc = .releasing m → m ∉ s.held t

structure Inv (hierarchyValue : μ → UnsignedLong) (s : HierarchicalMutexes ι μ) : Prop where
  owner_iff : ∀ m t, s.owner m = some t ↔ m ∈ s.held t ∨ (s.pc t).Owns m
  layered : ∀ t, Layered hierarchyValue s.previousHierarchyValue
    (s.thisThreadHierarchyValue t) (s.held t)
  pending : ∀ t, s.PendingOk hierarchyValue t (s.pc t)
  releasing : ∀ t, s.ReleasingOk t (s.pc t)

omit [DecidableEq ι] [DecidableEq μ] in
theorem start_inv : (start : HierarchicalMutexes ι μ).Inv hierarchyValue := by
  constructor
  · intro m t
    simp [start]
  · intro t
    rfl
  · intro t m hpending
    exact absurd hpending (by simp [start])
  · intro t m hpc
    exact absurd hpc (by simp [start])

omit [DecidableEq ι] [DecidableEq μ] in
theorem Inv.acyclic (hinv : s.Inv hierarchyValue) (t : ι) :
    ¬ Relation.TransGen s.WaitsFor t t := by
  let rank : ι → UnsignedLong := fun t =>
    match s.pc t with
    | .locking m => hierarchyValue m
    | _ => ⊤
  apply transGen_irrefl_of_rank rank
  -- a thread that waits asks for a mutex below all that it has
  rintro t u v ⟨m, ht, howner⟩ ⟨m', hu, _⟩
  have hheld : m ∈ s.held u := by
    rcases (hinv.owner_iff m u).mp howner with hmem | howns
    · exact hmem
    · rw [hu] at howns
      exact absurd howns (by simp [HierarchyPc.Owns])
  have hbelow : hierarchyValue m' < hierarchyValue m :=
    (hinv.pending u m' (.inl hu)).trans_le ((hinv.layered u).le m hheld)
  simpa only [rank, ht, hu] using hbelow

omit [DecidableEq ι] [DecidableEq μ] in
theorem Inv.safe (hinv : s.Inv hierarchyValue) : s.Safe hierarchyValue :=
  ⟨fun t => (hinv.layered t).eq_min, hinv.acyclic⟩

omit [DecidableEq μ] in
/-- A thread that has no internal mutex at hand goes to where it has none either. -/
theorem Inv.move (hinv : s.Inv hierarchyValue) {t : ι} {pc : HierarchyPc μ}
    (hold : ∀ m, ¬ (s.pc t).Owns m) (hnew : ∀ m, ¬ pc.Owns m)
    (hpending : ∀ m, pc.Pending m → hierarchyValue m < s.thisThreadHierarchyValue t) :
    Inv hierarchyValue { s with pc := Function.update s.pc t pc } := by
  constructor
  · intro m u
    rw [hinv.owner_iff m u]
    by_cases hsame : u = t
    · simp [hsame, hold, hnew]
    · simp [Function.update_of_ne hsame]
  · exact hinv.layered
  · exact forall_update (P := s.PendingOk hierarchyValue) hpending fun u _ => hinv.pending u
  · refine forall_update (P := s.ReleasingOk) ?_ fun u _ => hinv.releasing u
    intro m hpc
    exact absurd (.inr hpc) (hnew m)

omit [DecidableEq μ] in
theorem Inv.begin (hinv : s.Inv hierarchyValue) {t : ι} {m : μ} {pc : HierarchyPc μ}
    (hidle : s.pc t = .idle) (hpending : ∀ n, pc.Pending n → n = m) (howns : ∀ n, ¬ pc.Owns n)
    (hviolates : ¬ s.Violates hierarchyValue t m) :
    Inv hierarchyValue { s with pc := Function.update s.pc t pc } := by
  apply hinv.move (by simp [hidle]) howns
  intro n hn
  rw [hpending n hn]
  exact not_le.mp hviolates

omit [DecidableEq μ] in
theorem Inv.pending_frame (hinv : s.Inv hierarchyValue) {t : ι} {pc : HierarchyPc μ}
    {s' : HierarchicalMutexes ι μ} (hpc : s'.pc = Function.update s.pc t pc)
    (hvalue : ∀ u, u ≠ t → s'.thisThreadHierarchyValue u = s.thisThreadHierarchyValue u)
    (hnone : ∀ m, ¬ pc.Pending m) (u : ι) : s'.PendingOk hierarchyValue u (s'.pc u) := by
  intro m hpending
  rw [hpc] at hpending
  by_cases hsame : u = t
  · rw [hsame, Function.update_self] at hpending
    exact absurd hpending (hnone m)
  · rw [Function.update_of_ne hsame] at hpending
    rw [hvalue u hsame]
    exact hinv.pending u m hpending

omit [DecidableEq μ] in
theorem Inv.releasing_frame (hinv : s.Inv hierarchyValue) {t : ι} {pc : HierarchyPc μ}
    {s' : HierarchicalMutexes ι μ} (hpc : s'.pc = Function.update s.pc t pc)
    (hheld : ∀ u, u ≠ t → s'.held u = s.held u) (hown : s'.ReleasingOk t pc) (u : ι) :
    s'.ReleasingOk u (s'.pc u) := by
  intro m hreleasing
  rw [hpc] at hreleasing
  by_cases hsame : u = t
  · rw [hsame, Function.update_self] at hreleasing
    rw [hsame]
    exact hown m hreleasing
  · rw [Function.update_of_ne hsame] at hreleasing
    rw [hheld u hsame]
    exact hinv.releasing u m hreleasing

theorem Inv.acquire (hinv : s.Inv hierarchyValue) {t : ι} {m : μ}
    (hpc : s.pc t = .locking m ∨ s.pc t = .tryLocking m) (hfree : s.owner m = none) :
    Inv hierarchyValue { s with
      owner := Function.update s.owner m (some t)
      pc := Function.update s.pc t (.updating m) } := by
  have hold : ∀ m, ¬ (s.pc t).Owns m := by
    rcases hpc with hpc | hpc <;> simp [hpc, HierarchyPc.Owns]
  have hbelow : hierarchyValue m < s.thisThreadHierarchyValue t := by
    apply hinv.pending t m
    rcases hpc with hpc | hpc
    · exact .inl hpc
    · exact .inr (.inl hpc)
  have hnobody : ∀ u, ¬ (m ∈ s.held u ∨ (s.pc u).Owns m) := by
    intro u
    rw [← hinv.owner_iff m u, hfree]
    simp
  constructor
  · intro n u
    by_cases hsame : u = t
    · have hothers := hinv.owner_iff n t
      simp only [hold, or_false] at hothers
      by_cases hm : n = m
      · simp [hm, hsame, HierarchyPc.Owns]
      · simp [Function.update_of_ne hm, hsame, HierarchyPc.Owns, Ne.symm hm, hothers]
    · by_cases hm : n = m
      · have hu := hnobody u
        simp only [Function.update_of_ne hsame, hm, Function.update_self, hu, iff_false]
        simpa using Ne.symm hsame
      · simp only [Function.update_of_ne hsame, Function.update_of_ne hm]
        exact hinv.owner_iff n u
  · exact hinv.layered
  · refine forall_update (P := s.PendingOk hierarchyValue) ?_ fun u _ => hinv.pending u
    rintro n (hpc | hpc | hpc)
    · exact absurd hpc (by simp)
    · exact absurd hpc (by simp)
    · rw [HierarchyPc.updating.injEq] at hpc
      rw [← hpc]
      exact hbelow
  · refine forall_update (P := s.ReleasingOk) ?_ fun u _ => hinv.releasing u
    intro n hpc
    exact absurd hpc (by simp)

/-- The value of a thread moves into the mutex that it locked, and no other thread has
saved its own there. -/
theorem Inv.update (hinv : s.Inv hierarchyValue) {t : ι} {m : μ} (hpc : s.pc t = .updating m) :
    Inv hierarchyValue { s with
      previousHierarchyValue :=
        Function.update s.previousHierarchyValue m (s.thisThreadHierarchyValue t)
      thisThreadHierarchyValue := Function.update s.thisThreadHierarchyValue t (hierarchyValue m)
      pc := Function.update s.pc t .idle
      held := Function.update s.held t (m :: s.held t) } := by
  have hbelow : hierarchyValue m < s.thisThreadHierarchyValue t :=
    hinv.pending t m (.inr (.inr hpc))
  have howner : s.owner m = some t := (hinv.owner_iff m t).mpr (.inr (.inl hpc))
  have hnotMem : ∀ u, m ∉ s.held u := by
    intro u
    by_cases hsame : u = t
    · rw [hsame]
      exact (hinv.layered t).notMem hbelow
    · intro hmem
      have hother := (hinv.owner_iff m u).mpr (.inl hmem)
      rw [howner, Option.some.injEq] at hother
      exact hsame hother.symm
  have hframe : ∀ u, Layered hierarchyValue
      (Function.update s.previousHierarchyValue m (s.thisThreadHierarchyValue t))
      (s.thisThreadHierarchyValue u) (s.held u) := by
    intro u
    apply (hinv.layered u).congr
    intro n hmem
    apply Function.update_of_ne
    rintro rfl
    exact hnotMem u hmem
  constructor
  · intro n u
    rw [hinv.owner_iff n u]
    by_cases hsame : u = t
    · simp [hsame, hpc, HierarchyPc.Owns, or_comm, eq_comm]
    · simp [Function.update_of_ne hsame]
  · intro u
    by_cases hsame : u = t
    · simp only [hsame, Function.update_self, Layered]
      exact ⟨trivial, hbelow, hframe t⟩
    · simp only [Function.update_of_ne hsame]
      exact hframe u
  · exact hinv.pending_frame rfl (fun u hother => Function.update_of_ne hother _ _) (by simp)
  · apply hinv.releasing_frame rfl fun u hother => Function.update_of_ne hother _ _
    intro n hreleasing
    exact absurd hreleasing (by simp)

omit [DecidableEq ι] [DecidableEq μ] in
/-- The lowest of the mutexes is the one that was locked last. -/
theorem Layered.eq_head {previous : μ → UnsignedLong} {value : UnsignedLong} {last m : μ}
    {held : List μ} (hlayered : Layered hierarchyValue previous value (last :: held))
    (hmem : m ∈ last :: held)
    (hlowest : hierarchyValue m ≤ hierarchyValue last) : m = last := by
  rcases List.mem_cons.mp hmem with hlast | hearlier
  · exact hlast
  · have habove : previous last ≤ hierarchyValue m := hlayered.2.2.le m hearlier
    exact absurd (hlayered.2.1.trans_le habove) (not_lt.mpr hlowest)

theorem Inv.unlock (hinv : s.Inv hierarchyValue) {t : ι} {m : μ} (hpc : s.pc t = .idle)
    (hmem : m ∈ s.held t)
    (hlowest : ∀ other ∈ s.held t, hierarchyValue m ≤ hierarchyValue other) :
    Inv hierarchyValue { s with
      thisThreadHierarchyValue :=
        Function.update s.thisThreadHierarchyValue t (s.previousHierarchyValue m)
      pc := Function.update s.pc t (.releasing m)
      held := Function.update s.held t ((s.held t).erase m) } := by
  cases hheld : s.held t with
  | nil =>
      rw [hheld] at hmem
      exact absurd hmem List.not_mem_nil
  | cons last held =>
      have hlayered := hinv.layered t
      rw [hheld] at hlayered hmem hlowest
      have hlast : m = last := hlayered.eq_head hmem (hlowest last List.mem_cons_self)
      rw [hlast, List.erase_cons_head]
      constructor
      · intro n u
        rw [hinv.owner_iff n u]
        by_cases hsame : u = t
        · simp [hsame, hpc, hheld, HierarchyPc.Owns, or_comm, eq_comm]
        · simp [Function.update_of_ne hsame]
      · intro u
        by_cases hsame : u = t
        · simp only [hsame, Function.update_self]
          exact hlayered.2.2
        · simp only [Function.update_of_ne hsame]
          exact hinv.layered u
      · exact hinv.pending_frame rfl (fun u hother => Function.update_of_ne hother _ _)
          (by simp [HierarchyPc.Pending])
      · apply hinv.releasing_frame rfl fun u hother => Function.update_of_ne hother _ _
        intro n hreleasing
        rw [HierarchyPc.releasing.injEq] at hreleasing
        rw [← hreleasing]
        simpa only [Function.update_self] using hlayered.2.2.notMem hlayered.2.1

theorem Inv.release (hinv : s.Inv hierarchyValue) {t : ι} {m : μ} (hpc : s.pc t = .releasing m) :
    Inv hierarchyValue { s with
      owner := Function.update s.owner m none
      pc := Function.update s.pc t .idle } := by
  have howner : s.owner m = some t := (hinv.owner_iff m t).mpr (.inr (.inr hpc))
  constructor
  · intro n u
    have hold := hinv.owner_iff n u
    by_cases hsame : u = t
    · rw [hsame, hpc] at hold
      by_cases hm : n = m
      · simp [hm, hsame, hinv.releasing t m hpc]
      · simp [Function.update_of_ne hm, hsame, hold, HierarchyPc.Owns, Ne.symm hm]
    · by_cases hm : n = m
      · have hnot : ¬ (m ∈ s.held u ∨ (s.pc u).Owns m) := by
          rw [← hinv.owner_iff m u, howner, Option.some.injEq]
          exact Ne.symm hsame
        simpa [Function.update_of_ne hsame, hm] using hnot
      · simpa only [Function.update_of_ne hm, Function.update_of_ne hsame] using hold
  · exact hinv.layered
  · refine forall_update (P := s.PendingOk hierarchyValue) ?_ fun u _ => hinv.pending u
    intro n hpending
    exact absurd hpending (by simp)
  · refine forall_update (P := s.ReleasingOk) ?_ fun u _ => hinv.releasing u
    intro n hreleasing
    exact absurd hreleasing (by simp)

theorem step_inv (hinv : s.Inv hierarchyValue) {input : ι × HierarchyCall μ}
    (hlowest : s.UnlocksLowest hierarchyValue input) :
    (s.step hierarchyValue input).Inv hierarchyValue := by
  rcases input with ⟨t, call⟩
  cases hpc : s.pc t with
  | idle =>
      cases call with
      | lock m =>
          by_cases hviolates : s.Violates hierarchyValue t m
          · simpa only [step, hpc, if_pos hviolates] using hinv
          · simp only [step, hpc, if_neg hviolates]
            exact hinv.begin hpc (by simp [HierarchyPc.Pending, eq_comm])
              (by simp [HierarchyPc.Owns]) hviolates
      | tryLock m =>
          by_cases hviolates : s.Violates hierarchyValue t m
          · simpa only [step, hpc, if_pos hviolates] using hinv
          · simp only [step, hpc, if_neg hviolates]
            exact hinv.begin hpc (by simp [HierarchyPc.Pending, eq_comm])
              (by simp [HierarchyPc.Owns]) hviolates
      | unlock m =>
          by_cases hmem : m ∈ s.held t
          · simp only [step, hpc, if_pos hmem]
            exact hinv.unlock hpc hmem (hlowest m hpc rfl hmem)
          · simpa only [step, hpc, if_neg hmem] using hinv
  | locking m =>
      by_cases hfree : s.owner m = none
      · simp only [step, hpc, if_pos hfree]
        exact hinv.acquire (.inl hpc) hfree
      · simpa only [step, hpc, if_neg hfree] using hinv
  | tryLocking m =>
      by_cases hfree : s.owner m = none
      · simp only [step, hpc, if_pos hfree]
        exact hinv.acquire (.inr hpc) hfree
      · simp only [step, hpc, if_neg hfree]
        exact hinv.move (by simp [hpc, HierarchyPc.Owns]) (by simp) (by simp)
  | updating m =>
      simp only [step, hpc]
      exact hinv.update hpc
  | releasing m =>
      simp only [step, hpc]
      exact hinv.release hpc

/-- An unlock of any other mutex leaves the thread with a value above its least. -/
theorem not_safe_of_unlock (hinv : s.Inv hierarchyValue) {input : ι × HierarchyCall μ}
    (hnot : ¬ s.UnlocksLowest hierarchyValue input) :
    ¬ (s.step hierarchyValue input).Safe hierarchyValue := by
  rcases input with ⟨t, call⟩
  simp only [UnlocksLowest, not_forall] at hnot
  obtain ⟨m, hpc, rfl, hmem, other, hother, hlower⟩ := hnot
  rw [not_le] at hlower
  intro hsafe
  have hvalue := hsafe.value_eq t
  simp only [step, hpc, if_pos hmem, Function.update_self] at hvalue
  have hne : other ≠ m := by
    rintro rfl
    exact lt_irrefl _ hlower
  have hleast : minHierarchyValue hierarchyValue ((s.held t).erase m) ≤ hierarchyValue other :=
    minHierarchyValue_le ((List.mem_erase_of_ne hne).mpr hother)
  rw [← hvalue] at hleast
  exact absurd (hlower.trans ((hinv.layered t).lt_previous m hmem)) (not_lt.mpr hleast)

/-- In a run whose threads unlock what they hold, all values and waits are as they
should be exactly when each unlock is of the lowest mutex that its thread holds. -/
theorem always_safe_iff (hierarchyValue : μ → UnsignedLong)
    (inputs : List (ι × HierarchyCall μ)) :
    (∀ first, first <+: inputs → (run (step hierarchyValue) start first).Safe hierarchyValue) ↔
      ∀ earlier input later, inputs = earlier ++ input :: later →
        (run (step hierarchyValue) start earlier).UnlocksLowest hierarchyValue input :=
  always_iff_of_steps (step hierarchyValue) start (Inv hierarchyValue) (Safe hierarchyValue)
    (UnlocksLowest hierarchyValue) start_inv (fun _ => Inv.safe)
    (fun _ _ hinv hlowest => step_inv hinv hlowest)
    (fun _ _ hinv hnot => not_safe_of_unlock hinv hnot) inputs

/-! ## Unlocking in the order of locking -/

/-- Thread 0 locks 1000 and 500 and unlocks 1000, which thread 1 then locks; each of
them waits for what the other one holds. -/
def unlocksTheHighOne : List (Bool × HierarchyCall Bool) :=
  [(false, .lock true), (false, .lock true), (false, .lock true),
    (false, .lock false), (false, .lock false), (false, .lock false),
    (false, .unlock true), (false, .unlock true),
    (true, .lock true), (true, .lock true), (true, .lock true),
    (true, .lock false), (false, .lock true)]

def highAndLow (high : Bool) : UnsignedLong := if high then 1000 else 500

theorem deadlock_unlocksTheHighOne :
    let s := run (step highAndLow) start unlocksTheHighOne
    s.thisThreadHierarchyValue false ≠ minHierarchyValue highAndLow (s.held false) ∧
      Relation.TransGen s.WaitsFor false false := by
  constructor
  · decide +kernel
  · have hlow : (run (step highAndLow) start unlocksTheHighOne).WaitsFor true false :=
      ⟨false, by decide +kernel, by decide +kernel⟩
    have hhigh : (run (step highAndLow) start unlocksTheHighOne).WaitsFor false true :=
      ⟨true, by decide +kernel, by decide +kernel⟩
    exact .tail (.single hhigh) hlow

end HierarchicalMutexes

end CppPlay.MultiThread
