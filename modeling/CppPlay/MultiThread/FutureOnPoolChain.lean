import CppPlay.MultiThread.StopTokenPool

/-!
# Futures chained on one pool

The tasks of the draining pool are numbered by their submission, and a task that runs may
block its worker in `get()` of the futures of earlier ones.
-/

namespace CppPlay.MultiThread

open CppPlay.Lib

/-- What each task waits for before it finishes, in the order of its calls of `get()`. -/
structure FutureChain where
  waits : List (List ℕ)
  earlier : ∀ task, ∀ future ∈ waits.getD task [], future < task

/-- The pool, and of the task that each worker runs how many futures it has got. -/
structure FutureOnPool (n : ℕ) where
  pool : StopTokenPool n ℕ
  got : Fin n → ℕ

namespace FutureOnPool

variable {n : ℕ} (chain : FutureChain)

def start : FutureOnPool n := ⟨StopTokenPool.start, fun _ => 0⟩

def nextFuture? (s : FutureOnPool n) (w : Fin n) : Option ℕ :=
  match s.pool.pc w with
  | .running task => (chain.waits.getD task [])[s.got w]?
  | _ => none

def step (s : FutureOnPool n) : DrainCall n Unit → FutureOnPool n
  | .submit _ =>
      if s.pool.submitted.length < chain.waits.length then
        { s with pool := s.pool.step (.submit s.pool.submitted.length) }
      else s
  | .notify choice => { s with pool := s.pool.step (.notify choice) }
  | .wakeSpuriously w => { s with pool := s.pool.step (.wakeSpuriously w) }
  | .work w =>
      match s.nextFuture? chain w with
      | some future =>
          -- `get()` returns once the future is ready, until then the worker is blocked in it
          if future ∈ s.pool.finished then
            { s with got := Function.update s.got w (s.got w + 1) }
          else s
      | none => ⟨s.pool.step (.work w), Function.update s.got w 0⟩
  | .destroy w => { s with pool := s.pool.step (.destroy w) }

/-- The worker is blocked in `get()` of an unfinished future, waits on an empty queue, or
has left. -/
def IsStalled (s : FutureOnPool n) (w : Fin n) : Prop :=
  match s.pool.pc w with
  | .looping => False
  | .blocked => s.pool.tasks = []
  | .running _ => ∃ future, s.nextFuture? chain w = some future ∧ future ∉ s.pool.finished
  | .exited => True

def CanWork (s : FutureOnPool n) (w : Fin n) : Prop :=
  (s.pool.pc w).isActive = true ∧ ¬ s.IsStalled chain w

/-! ## The invariant -/

structure Inv (s : FutureOnPool n) : Prop where
  pool : s.pool.Inv
  ordered : s.pool.submitted = List.range s.pool.submitted.length

variable {chain} {s : FutureOnPool n}

theorem start_inv : (start : FutureOnPool n).Inv :=
  ⟨StopTokenPool.start_inv, rfl⟩

theorem Inv.keep (hinv : s.Inv) (call : DrainCall n ℕ) (got : Fin n → ℕ)
    (hsame : (s.pool.step call).submitted = s.pool.submitted) :
    (⟨s.pool.step call, got⟩ : FutureOnPool n).Inv := by
  constructor
  · exact StopTokenPool.step_inv hinv.pool call
  · rw [hsame]
    exact hinv.ordered

theorem submitted_stepWorker (pool : StopTokenPool n ℕ) (w : Fin n) :
    (pool.stepWorker w).submitted = pool.submitted := by
  unfold StopTokenPool.stepWorker
  repeat' split
  all_goals rfl

theorem submitted_stepDestroy (pool : StopTokenPool n ℕ) (w : Fin n) :
    (pool.stepDestroy w).submitted = pool.submitted := by
  unfold StopTokenPool.stepDestroy
  repeat' split
  all_goals rfl

theorem submitted_notify (pool : StopTokenPool n ℕ) (choice : Fin n) :
    (pool.step (.notify choice)).submitted = pool.submitted := by
  simp only [StopTokenPool.step]
  repeat' split
  all_goals rfl

theorem submit_inv (hinv : s.Inv) :
    ({ s with pool := s.pool.step (.submit s.pool.submitted.length) } : FutureOnPool n).Inv := by
  constructor
  · exact StopTokenPool.step_inv hinv.pool (.submit s.pool.submitted.length)
  · simp only [StopTokenPool.step]
    by_cases hdestroying : s.pool.destroying = true
    · rw [if_pos hdestroying]
      exact hinv.ordered
    · rw [if_neg hdestroying]
      simp only [List.length_append, List.length_singleton, List.range_succ]
      rw [← hinv.ordered]

theorem step_inv (hinv : s.Inv) (call : DrainCall n Unit) : (s.step chain call).Inv := by
  cases call with
  | submit task =>
      simp only [step]
      split
      · exact submit_inv hinv
      · exact hinv
  | notify choice => exact hinv.keep _ _ (submitted_notify _ _)
  | wakeSpuriously w => exact hinv.keep (.wakeSpuriously w) _ rfl
  | work w =>
      simp only [step]
      split
      · split
        · exact ⟨hinv.pool, hinv.ordered⟩
        · exact hinv
      · exact hinv.keep (.work w) _ (submitted_stepWorker _ _)
  | destroy w => exact hinv.keep (.destroy w) _ (submitted_stepDestroy _ _)

/-! ## Who can go on -/

theorem Inv.finished_or_running (hinv : s.Inv) {task : ℕ} (hmem : task ∈ s.pool.dequeued) :
    task ∈ s.pool.finished ∨ ∃ w, s.pool.pc w = .running task := by
  have hsum : task ∈ (s.pool.finished : Multiset ℕ) + ∑ w, (s.pool.pc w).task := by
    rw [hinv.pool.run_once]
    exact hmem
  rcases Multiset.mem_add.mp hsum with hfinished | hrunning
  · exact .inl hfinished
  · obtain ⟨w, _, hw⟩ := Multiset.mem_sum.mp hrunning
    right
    use w
    cases hpc : s.pool.pc w with
    | running other =>
        rw [hpc, DrainPc.task, Multiset.mem_singleton] at hw
        rw [hw]
    | _ => simp [hpc, DrainPc.task] at hw

theorem mem_sum_of_running {task : ℕ} {w : Fin n} (hpc : s.pool.pc w = .running task) :
    task ∈ ∑ w, (s.pool.pc w).task := by
  apply Multiset.mem_sum.mpr
  exact ⟨w, Finset.mem_univ w, by simp [hpc, DrainPc.task]⟩

theorem Inv.dequeued_of_running (hinv : s.Inv) {task : ℕ} {w : Fin n}
    (hpc : s.pool.pc w = .running task) : task ∈ s.pool.dequeued := by
  have hmem : task ∈ (s.pool.finished : Multiset ℕ) + ∑ w, (s.pool.pc w).task :=
    Multiset.mem_add.mpr (.inr (mem_sum_of_running hpc))
  rw [hinv.pool.run_once] at hmem
  exact hmem

theorem Inv.dequeued_eq (hinv : s.Inv) :
    s.pool.dequeued = List.range s.pool.dequeued.length := by
  have hprefix : s.pool.dequeued <+: List.range s.pool.submitted.length := by
    rw [← hinv.ordered, hinv.pool.conserved]
    exact List.prefix_append _ _
  rw [List.prefix_iff_eq_take, List.take_range] at hprefix
  have hle : s.pool.dequeued.length ≤ s.pool.submitted.length := by
    rw [hinv.pool.conserved, List.length_append]
    exact Nat.le_add_right _ _
  rwa [min_eq_left hle] at hprefix

theorem Inv.mem_dequeued_iff (hinv : s.Inv) {task : ℕ} :
    task ∈ s.pool.dequeued ↔ task < s.pool.dequeued.length := by
  rw [hinv.dequeued_eq, List.mem_range, List.length_range]

theorem Inv.mem_submitted_iff (hinv : s.Inv) {task : ℕ} :
    task ∈ s.pool.submitted ↔ task < s.pool.submitted.length := by
  rw [hinv.ordered, List.mem_range, List.length_range]

theorem canWork_of_running {task : ℕ} {w : Fin n} (hpc : s.pool.pc w = .running task)
    (hbefore : ∀ other < task, other ∈ s.pool.finished) : s.CanWork chain w := by
  constructor
  · rw [hpc]
    rfl
  · simp only [IsStalled, nextFuture?, hpc]
    rintro ⟨future, hnext, hnot⟩
    apply hnot
    apply hbefore
    exact chain.earlier task future (List.mem_of_getElem? hnext)

/-- While the first unfinished task is in the queue no task is run, so nobody is blocked
in `get()`. -/
theorem Inv.not_running (hinv : s.Inv) {task : ℕ} (hqueued : task ∉ s.pool.dequeued)
    (hbefore : ∀ other < task, other ∈ s.pool.finished) (w : Fin n) (other : ℕ) :
    s.pool.pc w ≠ .running other := by
  intro hpc
  have hother := hinv.dequeued_of_running hpc
  have hless : other < task := by
    rw [hinv.mem_dequeued_iff] at hother hqueued
    omega
  have honce : s.pool.dequeued.Nodup := by
    rw [hinv.dequeued_eq]
    exact List.nodup_range
  have hcount := congrArg (Multiset.count other) hinv.pool.run_once
  have hfinished : 0 < Multiset.count other (s.pool.finished : Multiset ℕ) :=
    Multiset.count_pos.mpr (hbefore other hless)
  have hrunning : 0 < Multiset.count other (∑ w, (s.pool.pc w).task) :=
    Multiset.count_pos.mpr (mem_sum_of_running hpc)
  have hone := List.nodup_iff_count_le_one.mp honce other
  rw [Multiset.count_add, Multiset.coe_count other s.pool.dequeued] at hcount
  omega

theorem Inv.served_of_queued (hinv : s.Inv) (hworkers : 0 < n) {task : ℕ}
    (hsubmitted : task ∈ s.pool.submitted) (hqueued : task ∉ s.pool.dequeued)
    (hbefore : ∀ other < task, other ∈ s.pool.finished) :
    (∃ w, ¬ s.IsStalled chain w) ∧
      (0 < s.pool.pendingNotifies ∨ ∃ w, s.CanWork chain w) := by
  have hnobody := hinv.not_running hqueued hbefore
  have htasks : s.pool.tasks ≠ [] := by
    intro hempty
    rw [hinv.pool.conserved, hempty, List.append_nil] at hsubmitted
    exact hqueued hsubmitted
  have hnone : ∀ w, ¬ s.IsStalled chain w := by
    intro w
    unfold IsStalled
    cases hpc : s.pool.pc w with
    | looping => exact id
    | blocked => exact htasks
    | running other => exact absurd hpc (hnobody w other)
    | exited => exact absurd (hinv.pool.exited w hpc).1 htasks
  constructor
  · exact ⟨⟨0, hworkers⟩, hnone _⟩
  · rcases hinv.pool.served htasks with hpending | ⟨w, hactive⟩
    · exact .inl hpending
    · exact .inr ⟨w, hactive, hnone w⟩

theorem Inv.exists_not_stalled (hinv : s.Inv) (hworkers : 0 < n) {task : ℕ}
    (hsubmitted : task ∈ s.pool.submitted) (hunfinished : task ∉ s.pool.finished) :
    (∃ w, ¬ s.IsStalled chain w) ∧
      (0 < s.pool.pendingNotifies ∨ ∃ w, s.CanWork chain w) := by
  induction task using Nat.strong_induction_on with
  | _ task ih =>
      by_cases hbefore : ∀ other < task, other ∈ s.pool.finished
      · by_cases htaken : task ∈ s.pool.dequeued
        · have hrunning : ∃ w, s.pool.pc w = .running task :=
            (hinv.finished_or_running htaken).resolve_left hunfinished
          obtain ⟨w, hpc⟩ := hrunning
          have hw : s.CanWork chain w := canWork_of_running hpc hbefore
          exact ⟨⟨w, hw.2⟩, .inr ⟨w, hw⟩⟩
        · exact hinv.served_of_queued hworkers hsubmitted htaken hbefore
      · push Not at hbefore
        obtain ⟨other, hless, hother⟩ := hbefore
        apply ih other hless
        · rw [hinv.mem_submitted_iff] at hsubmitted ⊢
          omega
        · exact hother

/-- In no reachable state are all the workers stalled while a submitted task is
unfinished: a worker can go on, or a call of `submit` is about to wake one. -/
theorem never_deadlocks (chain : FutureChain) (hworkers : 0 < n) (calls : List (DrainCall n Unit))
    (task : ℕ) (hsubmitted : task ∈ (run (step chain) start calls).pool.submitted)
    (hunfinished : task ∉ (run (step chain) start calls).pool.finished) :
    (∃ w, ¬ (run (step chain) start calls).IsStalled chain w) ∧
      (0 < (run (step chain) start calls).pool.pendingNotifies ∨
        ∃ w, (run (step chain) start calls).CanWork chain w) := by
  have hinv : (run (step chain) start calls).Inv :=
    run_invariant Inv start_inv (fun s call hinv => step_inv hinv call) calls
  exact hinv.exists_not_stalled hworkers hsubmitted hunfinished

/-- The third task needs the futures of the two before it. -/
def foo1Andfoo2_foo3 : FutureChain where
  waits := [[], [], [0, 1]]
  earlier := by
    intro task future hmem
    match task with
    | 0 => simp at hmem
    | 1 => simp at hmem
    | 2 =>
        simp only [List.getD_cons_succ, List.getD_cons_zero, List.mem_cons, List.not_mem_nil,
          or_false] at hmem
        omega
    | task + 3 => simp at hmem

/-- The tasks are submitted, and two workers begin the first and the third. -/
def thirdWaits (v w : Fin n) : List (DrainCall n Unit) :=
  [.submit (), .submit (), .submit (), .work v, .work w, .work w, .work w, .work w]

theorem never_deadlocks_thirdWaits :
    (run (step foo1Andfoo2_foo3) start (thirdWaits (0 : Fin 2) 1)).IsStalled foo1Andfoo2_foo3 1 ∧
      ∃ w, ¬ (run (step foo1Andfoo2_foo3) start
        (thirdWaits (0 : Fin 2) 1)).IsStalled foo1Andfoo2_foo3 w :=
  ⟨⟨0, by decide +kernel, by decide +kernel⟩,
    (never_deadlocks foo1Andfoo2_foo3 (by decide) (thirdWaits 0 1) 0 (by decide +kernel)
      (by decide +kernel)).1⟩

end FutureOnPool

end CppPlay.MultiThread
