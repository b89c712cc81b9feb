import CppPlay.Lib.Run
import CppPlay.Lib.Threads
import Mathlib.Algebra.Order.Group.Multiset

/-!
# The lock-free pool with a deleter

The queue holds pointers to tasks, which the workers run and pass to the deleter.  The call
of the deleter stands after that of the task in one `try` block, and the workers leave as
soon as the flag is set.
-/

namespace CppPlay.MultiThread

open CppPlay.Lib

inductive SubmitPc (π : Type) where
  | idle
  | pushing (taskPtr : π)

/-- Where a worker stands: before the loop condition, before the pop, before the call of the
task, or before that of the deleter. -/
inductive TaskPc (π : Type) where
  | testing
  | popping
  | running (taskPtr : π)
  | deleting (taskPtr : π)
  | exited

inductive PoolPhase where
  | alive
  | joining
  | destroyed
  deriving DecidableEq

/-- A submitter makes its next step, with a push that may fail; a worker does, with a task
that may throw; `done` is called; the destructor makes its next step. -/
inductive DeleterCall (ι κ π : Type) where
  | submit (t : ι) (taskPtr : π) (accepted : Bool)
  | work (w : κ) (throws : Bool)
  | done
  | destroy

/-- The pool with its threads and with the pointers that were pushed, run and passed to the
deleter. -/
structure DeleterPool (ι κ π : Type) where
  tasks : List π
  done : Bool
  submitPc : ι → SubmitPc π
  taskPc : κ → TaskPc π
  phase : PoolPhase
  pushed : List π
  ran : List π
  deleted : List π

namespace DeleterPool

variable {ι κ π : Type}

def start : DeleterPool ι κ π :=
  ⟨[], false, fun _ => .idle, fun _ => .testing, .alive, [], [], []⟩

section Step

variable [DecidableEq ι] [DecidableEq κ]

def stepSubmit (s : DeleterPool ι κ π) (t : ι) (taskPtr : π) (accepted : Bool) :
    DeleterPool ι κ π :=
  match s.submitPc t with
  | .idle =>
      if s.done then s
      else { s with submitPc := Function.update s.submitPc t (.pushing taskPtr) }
  | .pushing taskPtr =>
      if accepted then
        { s with
          tasks := s.tasks ++ [taskPtr]
          submitPc := Function.update s.submitPc t .idle
          pushed := s.pushed ++ [taskPtr] }
      else s

def stepWorker (s : DeleterPool ι κ π) (w : κ) (throws : Bool) : DeleterPool ι κ π :=
  match s.taskPc w with
  | .testing =>
      if s.done then { s with taskPc := Function.update s.taskPc w .exited }
      else { s with taskPc := Function.update s.taskPc w .popping }
  | .popping =>
      match s.tasks with
      | [] => { s with taskPc := Function.update s.taskPc w .testing }
      | taskPtr :: tasks =>
          { s with tasks := tasks, taskPc := Function.update s.taskPc w (.running taskPtr) }
  | .running taskPtr =>
      -- an exception of the task leaves the block before the deleter
      { s with
        taskPc := Function.update s.taskPc w (if throws then .testing else .deleting taskPtr)
        ran := s.ran ++ [taskPtr] }
  | .deleting taskPtr =>
      { s with
        taskPc := Function.update s.taskPc w .testing
        deleted := s.deleted ++ [taskPtr] }
  | .exited => s

def Exited (s : DeleterPool ι κ π) : Prop := ∀ w, s.taskPc w = .exited

instance (pc : TaskPc π) : Decidable (pc = .exited) :=
  match pc with
  | .exited => .isTrue rfl
  | .testing | .popping | .running _ | .deleting _ => .isFalse (by simp)

variable [Fintype κ]

instance (s : DeleterPool ι κ π) : Decidable s.Exited :=
  inferInstanceAs (Decidable (∀ w, s.taskPc w = .exited))

def stepDestroy (s : DeleterPool ι κ π) : DeleterPool ι κ π :=
  match s.phase with
  | .alive => { s with done := true, phase := .joining }
  | .joining => if s.Exited then { s with phase := .destroyed } else s
  | .destroyed => s

def stepAlive (s : DeleterPool ι κ π) : DeleterCall ι κ π → DeleterPool ι κ π
  | .submit t taskPtr accepted => s.stepSubmit t taskPtr accepted
  | .work w throws => s.stepWorker w throws
  | .done => { s with done := true }
  | .destroy => s.stepDestroy

def step (s : DeleterPool ι κ π) (call : DeleterCall ι κ π) : DeleterPool ι κ π :=
  if s.phase = .destroyed then s else s.stepAlive call

end Step

/-- Each pointer was run at most as often as it was pushed, and deleted exactly as often. -/
structure Releases (s : DeleterPool ι κ π) : Prop where
  ran : s.ran.Subperm s.pushed
  deleted : s.deleted.Perm s.pushed

/-- No task throws, and the destructor returns with an empty queue. -/
def ReturnsTasks (s : DeleterPool ι κ π) : DeleterCall ι κ π → Prop
  | .work w throws => (∃ taskPtr, s.taskPc w = .running taskPtr) → throws = false
  | .destroy => s.phase = .joining → s.Exited → s.tasks = []
  | _ => True

/-! ## Where the pointers are -/

/-- The pointer that a worker has not passed on. -/
def held : TaskPc π → Multiset π
  | .running taskPtr => {taskPtr}
  | .deleting taskPtr => {taskPtr}
  | _ => 0

/-- The one whose task it has called. -/
def called : TaskPc π → Multiset π
  | .deleting taskPtr => {taskPtr}
  | _ => 0

@[simp] theorem held_testing : held (.testing : TaskPc π) = 0 := rfl
@[simp] theorem held_popping : held (.popping : TaskPc π) = 0 := rfl
@[simp] theorem held_running (taskPtr : π) : held (.running taskPtr) = {taskPtr} := rfl
@[simp] theorem held_deleting (taskPtr : π) : held (.deleting taskPtr) = {taskPtr} := rfl
@[simp] theorem held_exited : held (.exited : TaskPc π) = 0 := rfl

@[simp] theorem called_testing : called (.testing : TaskPc π) = 0 := rfl
@[simp] theorem called_running (taskPtr : π) : called (.running taskPtr) = 0 := rfl
@[simp] theorem called_deleting (taskPtr : π) : called (.deleting taskPtr) = {taskPtr} := rfl

/-- The pointer whose task throws in this step. -/
def lostBy (s : DeleterPool ι κ π) : DeleterCall ι κ π → Multiset π
  | .work w throws =>
      match s.taskPc w with
      | .running taskPtr => if throws then {taskPtr} else 0
      | _ => 0
  | _ => 0

theorem lostBy_of_returnsTasks {s : DeleterPool ι κ π} {call : DeleterCall ι κ π}
    (hreturns : s.ReturnsTasks call) : s.lostBy call = 0 := by
  cases call with
  | work w throws =>
      cases hpc : s.taskPc w with
      | running taskPtr =>
          have hthrows : throws = false := hreturns ⟨taskPtr, hpc⟩
          simp only [lostBy, hpc, hthrows, Bool.false_eq_true, if_false]
      | _ => simp only [lostBy, hpc]
  | _ => rfl

variable [Fintype κ]

/-- Every pointer is in the queue, with a worker, deleted or lost by an exception. -/
structure Accounts (lost : Multiset π) (s : DeleterPool ι κ π) : Prop where
  pushed : (s.pushed : Multiset π) = s.deleted + lost + s.tasks + ∑ w, held (s.taskPc w)
  ran : (s.ran : Multiset π) = s.deleted + lost + ∑ w, called (s.taskPc w)
  exited : s.phase = .destroyed → s.Exited

variable {lost : Multiset π} {s : DeleterPool ι κ π}

theorem start_accounts : (start : DeleterPool ι κ π).Accounts 0 := by
  constructor
  · simp [start]
  · simp [start]
  · intro hcontra
    cases hcontra

theorem called_le_held (pc : TaskPc π) : called pc ≤ held pc := by
  cases pc <;> simp [called, held]

/-- At most once, in every state. -/
theorem Accounts.ran_le (haccounts : s.Accounts lost) : (s.ran : Multiset π) ≤ s.pushed := by
  have hsum : ∑ w, called (s.taskPc w) ≤ ∑ w, held (s.taskPc w) :=
    Finset.sum_le_sum fun w _ => called_le_held _
  calc
    (s.ran : Multiset π) = s.deleted + lost + ∑ w, called (s.taskPc w) := haccounts.ran
    _ ≤ s.deleted + lost + s.tasks + ∑ w, held (s.taskPc w) := by
      apply add_le_add _ hsum
      exact Multiset.le_add_right _ _
    _ = s.pushed := haccounts.pushed.symm

theorem Accounts.pushed_of_destroyed (haccounts : s.Accounts lost)
    (hdestroyed : s.phase = .destroyed) :
    (s.pushed : Multiset π) = s.deleted + lost + s.tasks := by
  have hnone : ∑ w, held (s.taskPc w) = 0 := by
    apply Finset.sum_eq_zero
    intro w _
    rw [haccounts.exited hdestroyed w, held_exited]
  rw [haccounts.pushed, hnone, add_zero]

section Step

variable [DecidableEq κ] {w : κ} {pc : TaskPc π}

/-- A worker moves and passes on what it had. -/
theorem Accounts.move (haccounts : s.Accounts lost) (halive : s.phase ≠ .destroyed)
    (hpc : s.taskPc w = pc) {next : TaskPc π} {lost' : Multiset π} {tasks ran deleted : List π}
    (hheld : (s.deleted + lost + s.tasks + held pc : Multiset π) =
      deleted + lost' + tasks + held next)
    (hcalled : (ran + (s.deleted + lost) + called pc : Multiset π) =
      s.ran + (deleted + lost') + called next) :
    Accounts lost' { s with
      tasks := tasks
      taskPc := Function.update s.taskPc w next
      ran := ran
      deleted := deleted } := by
  constructor
  · apply eq_add_sum_update held haccounts.pushed
    rw [hpc, add_assoc, hheld, ← add_assoc]
  · apply eq_add_sum_update called haccounts.ran
    rw [hpc, hcalled]
  · exact fun hcontra => absurd hcontra halive

theorem Accounts.stepWorker [DecidableEq ι] (haccounts : s.Accounts lost)
    (halive : s.phase ≠ .destroyed) (w : κ) (throws : Bool) :
    Accounts (lost + s.lostBy (.work w throws)) (s.stepWorker w throws) := by
  cases hpc : s.taskPc w with
  | testing =>
      simp only [DeleterPool.stepWorker, lostBy, hpc, add_zero]
      split_ifs
      · exact haccounts.move halive hpc rfl rfl
      · exact haccounts.move halive hpc rfl rfl
  | popping =>
      cases htasks : s.tasks with
      | nil =>
          simp only [DeleterPool.stepWorker, lostBy, hpc, htasks, add_zero]
          apply haccounts.move halive hpc
          · rw [htasks]
            rfl
          · rfl
      | cons taskPtr tasks =>
          simp only [DeleterPool.stepWorker, lostBy, hpc, htasks, add_zero]
          apply haccounts.move halive hpc
          · rw [htasks, held_popping, held_running, ← Multiset.cons_coe, ← Multiset.singleton_add]
            abel
          · rfl
  | running taskPtr =>
      cases throws with
      | true =>
          simp only [DeleterPool.stepWorker, lostBy, hpc, if_true]
          apply haccounts.move halive hpc
          · rw [held_running, held_testing]
            abel
          · rw [called_running, called_testing, ← Multiset.coe_add, Multiset.coe_singleton]
            abel
      | false =>
          simp only [DeleterPool.stepWorker, lostBy, hpc, Bool.false_eq_true, if_false, add_zero]
          apply haccounts.move halive hpc
          · rfl
          · rw [called_running, called_deleting, ← Multiset.coe_add, Multiset.coe_singleton]
            abel
  | deleting taskPtr =>
      simp only [DeleterPool.stepWorker, lostBy, hpc, add_zero]
      apply haccounts.move halive hpc
      · rw [held_deleting, held_testing, ← Multiset.coe_add, Multiset.coe_singleton]
        abel
      · rw [called_deleting, called_testing, ← Multiset.coe_add, Multiset.coe_singleton]
        abel
  | exited =>
      simp only [DeleterPool.stepWorker, lostBy, hpc, add_zero]
      exact haccounts

variable [DecidableEq ι]

theorem Accounts.stepAlive (haccounts : s.Accounts lost) (halive : s.phase ≠ .destroyed)
    (call : DeleterCall ι κ π) : Accounts (lost + s.lostBy call) (s.stepAlive call) := by
  cases call with
  | submit t taskPtr accepted =>
      simp only [lostBy, add_zero, DeleterPool.stepAlive, stepSubmit]
      split
      · split_ifs
        · exact haccounts
        · exact { haccounts with }
      · split_ifs
        · refine { haccounts with pushed := ?_ }
          rw [← Multiset.coe_add, ← Multiset.coe_add, haccounts.pushed]
          abel
        · exact haccounts
  | work w throws => exact haccounts.stepWorker halive w throws
  | done =>
      simp only [lostBy, add_zero]
      exact { haccounts with }
  | destroy =>
      simp only [lostBy, add_zero, DeleterPool.stepAlive, stepDestroy]
      split
      · exact { haccounts with exited := fun hcontra => absurd hcontra (by simp) }
      · split_ifs with hexited
        · exact { haccounts with exited := fun _ => hexited }
        · exact haccounts
      · exact haccounts

theorem step_of_destroyed (hdestroyed : s.phase = .destroyed) (call : DeleterCall ι κ π) :
    s.step call = s := if_pos hdestroyed

theorem step_of_alive (halive : s.phase ≠ .destroyed) (call : DeleterCall ι κ π) :
    s.step call = s.stepAlive call := if_neg halive

theorem Accounts.step (haccounts : s.Accounts lost) (call : DeleterCall ι κ π) :
    ∃ lost', lost ≤ lost' ∧ (s.step call).Accounts lost' := by
  by_cases hdestroyed : s.phase = .destroyed
  · rw [step_of_destroyed hdestroyed]
    exact ⟨lost, le_rfl, haccounts⟩
  · rw [step_of_alive hdestroyed]
    exact ⟨_, Multiset.le_add_right _ _, haccounts.stepAlive hdestroyed call⟩

/-! ## Runs to the end of the destructor -/

/-- Nothing is lost, and the pool was not destroyed with pointers in the queue. -/
structure Kept (s : DeleterPool ι κ π) : Prop where
  accounts : s.Accounts 0
  tasks : s.phase = .destroyed → s.tasks = []

/-- Something is lost for good, or stays in the queue for good. -/
def Leaks (s : DeleterPool ι κ π) : Prop :=
  (∃ lost, lost ≠ 0 ∧ s.Accounts lost) ∨
    s.Accounts 0 ∧ s.phase = .destroyed ∧ s.tasks ≠ []

theorem phase_stepAlive (halive : s.phase ≠ .destroyed) (call : DeleterCall ι κ π)
    (hdestroyed : (s.stepAlive call).phase = .destroyed) :
    call = .destroy ∧ s.phase = .joining ∧ s.Exited ∧ (s.stepAlive call).tasks = s.tasks := by
  cases call with
  | submit t taskPtr accepted =>
      simp only [stepAlive, stepSubmit] at hdestroyed
      split at hdestroyed <;> split_ifs at hdestroyed <;> exact absurd hdestroyed halive
  | work w throws =>
      simp only [stepAlive, stepWorker] at hdestroyed
      split at hdestroyed <;> try split_ifs at hdestroyed
      all_goals try split at hdestroyed
      all_goals exact absurd hdestroyed halive
  | done => exact absurd hdestroyed halive
  | destroy =>
      cases hphase : s.phase with
      | alive =>
          simp only [stepAlive, stepDestroy, hphase] at hdestroyed
          cases hdestroyed
      | joining =>
          simp only [stepAlive, stepDestroy, hphase] at hdestroyed ⊢
          split_ifs at hdestroyed ⊢ with hexited
          · exact ⟨trivial, trivial, hexited, rfl⟩
          · exact absurd hdestroyed halive
      | destroyed => exact absurd hphase halive

theorem Kept.step (hkept : s.Kept) {call : DeleterCall ι κ π} (hreturns : s.ReturnsTasks call) :
    (s.step call).Kept := by
  by_cases hdestroyed : s.phase = .destroyed
  · rw [step_of_destroyed hdestroyed]
    exact hkept
  · rw [step_of_alive hdestroyed]
    have haccounts := hkept.accounts.stepAlive hdestroyed call
    rw [lostBy_of_returnsTasks hreturns, add_zero] at haccounts
    refine ⟨haccounts, fun hnow => ?_⟩
    obtain ⟨hcall, hphase, hexited, htasks⟩ := phase_stepAlive hdestroyed call hnow
    rw [hcall] at hreturns
    rw [htasks]
    exact hreturns hphase hexited

theorem Kept.leaks_step (hkept : s.Kept) {call : DeleterCall ι κ π}
    (hnot : ¬ s.ReturnsTasks call) : (s.step call).Leaks := by
  have haccounts := hkept.accounts
  cases call with
  | submit t taskPtr accepted => exact absurd trivial hnot
  | work w throws =>
      simp only [ReturnsTasks, not_forall, Bool.not_eq_false] at hnot
      obtain ⟨⟨taskPtr, hpc⟩, hthrows⟩ := hnot
      have halive : s.phase ≠ .destroyed := by
        intro hdestroyed
        have hexited := haccounts.exited hdestroyed w
        rw [hpc] at hexited
        cases hexited
      have hlost : s.lostBy (.work w throws) = {taskPtr} := by
        simp only [lostBy, hpc, hthrows, if_true]
      have hnext := haccounts.stepAlive halive (.work w throws)
      rw [hlost, zero_add] at hnext
      rw [step_of_alive halive]
      exact .inl ⟨_, Multiset.singleton_ne_zero taskPtr, hnext⟩
  | done => exact absurd trivial hnot
  | destroy =>
      simp only [ReturnsTasks, not_forall] at hnot
      obtain ⟨hphase, hexited, htasks⟩ := hnot
      have halive : s.phase ≠ .destroyed := by
        rw [hphase]
        simp
      have hnext := haccounts.stepAlive halive .destroy
      rw [step_of_alive halive]
      simp only [stepAlive, stepDestroy, hphase, if_pos hexited, lostBy, add_zero] at hnext ⊢
      exact .inr ⟨hnext, rfl, htasks⟩

theorem Leaks.step (hleaks : s.Leaks) (call : DeleterCall ι κ π) : (s.step call).Leaks := by
  rcases hleaks with ⟨lost, hlost, haccounts⟩ | ⟨haccounts, hdestroyed, htasks⟩
  · obtain ⟨lost', hle, hnext⟩ := haccounts.step call
    refine .inl ⟨lost', ?_, hnext⟩
    intro hzero
    rw [hzero] at hle
    exact hlost (Multiset.le_zero.mp hle)
  · rw [step_of_destroyed hdestroyed]
    exact .inr ⟨haccounts, hdestroyed, htasks⟩

/-- After the destructor each pointer was deleted once exactly when no task threw and the queue
was empty at the end. -/
theorem releases_iff_returnsTasks (calls : List (DeleterCall ι κ π))
    (hdestroyed : (run step (start : DeleterPool ι κ π) calls).phase = .destroyed) :
    (run step (start : DeleterPool ι κ π) calls).Releases ↔
      ∀ earlier call later, calls = earlier ++ call :: later →
        (run step (start : DeleterPool ι κ π) earlier).ReturnsTasks call := by
  have hstart : (start : DeleterPool ι κ π).Kept := ⟨start_accounts, fun _ => rfl⟩
  rcases run_invariant_or_broken step (start : DeleterPool ι κ π) Kept Leaks ReturnsTasks hstart
      (fun _ _ hkept => hkept.step) (fun _ _ hkept => hkept.leaks_step)
      (fun _ call hleaks => hleaks.step call) calls with ⟨hall, hkept⟩ | ⟨hnot, hleaks⟩
  · refine iff_of_true ?_ hall
    have hpushed := hkept.accounts.pushed_of_destroyed hdestroyed
    rw [hkept.tasks hdestroyed, add_zero, Multiset.coe_nil, add_zero] at hpushed
    exact ⟨Multiset.coe_le.mp hkept.accounts.ran_le, (Multiset.coe_eq_coe.mp hpushed).symm⟩
  · refine iff_of_false ?_ hnot
    intro hreleases
    have hdeleted := Multiset.coe_eq_coe.mpr hreleases.deleted
    rcases hleaks with ⟨lost, hlost, haccounts⟩ | ⟨haccounts, _, htasks⟩
    · rw [haccounts.pushed_of_destroyed hdestroyed, add_assoc, left_eq_add, add_eq_zero] at hdeleted
      exact hlost hdeleted.1
    · rw [haccounts.pushed_of_destroyed hdestroyed, add_assoc, left_eq_add, add_eq_zero,
        Multiset.coe_eq_zero] at hdeleted
      exact htasks hdeleted.2

end Step

/-- One task, which returns, and the end of the pool. -/
def runsOneTask : List (DeleterCall Unit Unit ℕ) :=
  [.submit () 5 true, .submit () 5 true, .work () false, .work () false, .work () false,
    .work () false, .destroy, .work () false, .destroy]

theorem releases_iff_runsOneTask :
    (run step (start : DeleterPool Unit Unit ℕ) runsOneTask).Releases ↔
      ∀ earlier call later, runsOneTask = earlier ++ call :: later →
        (run step (start : DeleterPool Unit Unit ℕ) earlier).ReturnsTasks call :=
  releases_iff_returnsTasks runsOneTask (by decide)

def throwsOneTask : List (DeleterCall Unit Unit ℕ) :=
  [.submit () 5 true, .submit () 5 true, .work () false, .work () false, .work () true,
    .destroy, .work () false, .destroy]

theorem not_releases_throwsOneTask :
    ¬ ∀ calls : List (DeleterCall Unit Unit ℕ),
      (run step (start : DeleterPool Unit Unit ℕ) calls).phase = .destroyed →
        (run step (start : DeleterPool Unit Unit ℕ) calls).Releases := by
  intro hall
  have hdeleted := (hall throwsOneTask (by decide)).deleted.length_eq
  exact absurd hdeleted (by decide)

end DeleterPool

end CppPlay.MultiThread
