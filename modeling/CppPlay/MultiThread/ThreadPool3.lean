import CppPlay.Lib.Run
import CppPlay.Lib.Threads
import Mathlib.Algebra.BigOperators.Fin
import Mathlib.Data.Multiset.Filter

/-!
# The pool of `jthread` workers that are declared first

The destructor calls `stop`, and the members are destroyed in the reverse order of their
declaration: the flag, the condition, the mutex and the queue, and only then the workers,
each of which is asked to stop and joined.
-/

namespace CppPlay.MultiThread

open CppPlay.Lib

/-- Where a worker stands: before the loop condition, before the critical section or in its
wait, in a task, or out. -/
inductive JoinedPc (Task : Type) where
  | looping
  | waiting
  | running (task : Task × Bool)
  | exited

/-- Before the destructor, after its `stop`, or in the destruction of the workers, with the
one that is being joined. -/
inductive DtorPc (n : ℕ) where
  | alive
  | stopped
  | joining (worker : Option (Fin n))

/-- The worker of a step of the destructor is the next one to be joined. -/
inductive StopCall (n : ℕ) (Task : Type) where
  | enqueue (task : Task)
  | stop
  | work (w : Fin n)
  | destroy (w : Fin n)

/-- The pool, in which a task comes with whether it was enqueued before `stop`.  `undefined` is
set when a worker uses a destroyed member. -/
structure ThreadPool3 (n : ℕ) (Task : Type) where
  tasks : List (Task × Bool)
  stopFlag : Bool
  pc : Fin n → JoinedPc Task
  stopRequested : Fin n → Bool
  dtor : DtorPc n
  undefined : Bool
  enqueued : List (Task × Bool)
  executed : List (Task × Bool)

namespace JoinedPc

variable {Task : Type}

def isExited : JoinedPc Task → Bool
  | .exited => true
  | _ => false

theorem isExited_iff {pc : JoinedPc Task} : pc.isExited = true ↔ pc = .exited := by
  cases pc <;> simp [isExited]

end JoinedPc

namespace ThreadPool3

variable {n : ℕ} {Task : Type}

def start : ThreadPool3 n Task :=
  ⟨[], false, fun _ => .looping, fun _ => false, .alive, false, [], []⟩

def membersAlive (s : ThreadPool3 n Task) : Bool :=
  match s.dtor with
  | .joining _ => false
  | _ => true

def stepEnqueue (s : ThreadPool3 n Task) (task : Task) : ThreadPool3 n Task :=
  match s.dtor with
  | .alive =>
      { s with
        tasks := s.tasks ++ [(task, !s.stopFlag)]
        enqueued := s.enqueued ++ [(task, !s.stopFlag)] }
  -- all calls are over before the destructor begins
  | _ => s

/-- The next step of a worker.  What it does after the use of a destroyed member is not
defined, so it counts as out. -/
def stepWorker (s : ThreadPool3 n Task) (w : Fin n) : ThreadPool3 n Task :=
  match s.pc w with
  | .looping =>
      if s.stopRequested w then { s with pc := Function.update s.pc w .exited }
      else { s with pc := Function.update s.pc w .waiting }
  | .waiting =>
      if s.membersAlive then
        if s.stopFlag || !s.tasks.isEmpty || s.stopRequested w then
          if s.stopFlag && s.tasks.isEmpty then { s with pc := Function.update s.pc w .exited }
          else
            match s.tasks with
            | [] => { s with pc := Function.update s.pc w .looping }
            | task :: tasks =>
                { s with tasks := tasks, pc := Function.update s.pc w (.running task) }
        else s
      else { s with pc := Function.update s.pc w .exited, undefined := true }
  | .running task =>
      { s with
        pc := Function.update s.pc w .looping
        executed := s.executed ++ [task] }
  | .exited => s

def stepDestroy (s : ThreadPool3 n Task) (w : Fin n) : ThreadPool3 n Task :=
  match s.dtor with
  | .alive => { s with stopFlag := true, dtor := .stopped }
  -- the queue is destroyed with its tasks
  | .stopped => { s with tasks := [], dtor := .joining none }
  | .joining none =>
      { s with
        stopRequested := Function.update s.stopRequested w true
        dtor := .joining (some w) }
  | .joining (some worker) =>
      if (s.pc worker).isExited then { s with dtor := .joining none } else s

def step (s : ThreadPool3 n Task) : StopCall n Task → ThreadPool3 n Task
  | .enqueue task => s.stepEnqueue task
  | .stop =>
      match s.dtor with
      | .alive => { s with stopFlag := true }
      | _ => s
  | .work w => s.stepWorker w
  | .destroy w => s.stepDestroy w

/-- The tasks that were enqueued before `stop`. -/
def promised (tasks : List (Task × Bool)) : Multiset (Task × Bool) :=
  (tasks.filter Prod.snd : List (Task × Bool))

/-- Such a task that a worker has taken and not executed. -/
def held : JoinedPc Task → Multiset (Task × Bool)
  | .running task => promised [task]
  | _ => 0

/-- Every task enqueued before `stop` is queued, with a worker or executed once, and executed
once the last worker is out. -/
structure Finishes (s : ThreadPool3 n Task) : Prop where
  defined : s.undefined = false
  kept : promised s.enqueued = promised s.executed + ∑ w, held (s.pc w) + promised s.tasks
  executed : (∀ w, s.pc w = .exited) → promised s.executed = promised s.enqueued

/-- The queue is destroyed without such tasks, and no worker comes to it afterwards. -/
def StopsInTime (s : ThreadPool3 n Task) : StopCall n Task → Prop
  | .work w => s.pc w = .waiting → s.membersAlive = true
  | .destroy _ => s.dtor = .stopped → promised s.tasks = 0
  | _ => True

/-! ## Where the tasks are -/

@[simp] theorem promised_nil : promised ([] : List (Task × Bool)) = 0 := rfl

theorem promised_append (first second : List (Task × Bool)) :
    promised (first ++ second) = promised first + promised second := by
  rw [promised, List.filter_append, ← Multiset.coe_add]
  rfl

theorem promised_cons (task : Task × Bool) (tasks : List (Task × Bool)) :
    promised (task :: tasks) = promised [task] + promised tasks :=
  promised_append [task] tasks

@[simp] theorem held_looping : held (.looping : JoinedPc Task) = 0 := rfl
@[simp] theorem held_waiting : held (.waiting : JoinedPc Task) = 0 := rfl
@[simp] theorem held_running (task : Task × Bool) : held (.running task) = promised [task] := rfl
@[simp] theorem held_exited : held (.exited : JoinedPc Task) = 0 := rfl

/-- A worker goes only after `stop` and when no task from before is left in the queue. -/
structure Inv (s : ThreadPool3 n Task) : Prop where
  defined : s.undefined = false
  kept : promised s.enqueued = promised s.executed + ∑ w, held (s.pc w) + promised s.tasks
  exited : ∀ w, s.pc w = .exited → s.stopFlag = true ∧ promised s.tasks = 0
  stopped : s.dtor ≠ .alive → s.stopFlag = true
  dropped : s.membersAlive = false → promised s.tasks = 0
  requested : ∀ w, s.stopRequested w = true → s.membersAlive = false

variable {s : ThreadPool3 n Task}

theorem start_inv : (start : ThreadPool3 n Task).Inv := by
  constructor <;> simp [start, membersAlive]

theorem Inv.finishes {s : ThreadPool3 (n + 1) Task} (hinv : s.Inv) : s.Finishes := by
  refine ⟨hinv.defined, hinv.kept, ?_⟩
  intro hexited
  have hnone : ∑ w, held (s.pc w) = 0 := by
    apply Finset.sum_eq_zero
    intro w _
    rw [hexited w, held_exited]
  rw [hinv.kept, hnone, (hinv.exited 0 (hexited 0)).2, add_zero, add_zero]

theorem Inv.stepEnqueue (hinv : s.Inv) (task : Task) : (s.stepEnqueue task).Inv := by
  rw [ThreadPool3.stepEnqueue]
  split
  next halive =>
    have hdropped : ∀ w, s.pc w = .exited →
        s.stopFlag = true ∧ promised (s.tasks ++ [(task, !s.stopFlag)]) = 0 := by
      intro w hpc
      obtain ⟨hstop, hnone⟩ := hinv.exited w hpc
      rw [promised_append, hnone, hstop]
      exact ⟨rfl, rfl⟩
    refine { hinv with kept := ?_, exited := hdropped, dropped := ?_ }
    · rw [promised_append, promised_append, hinv.kept]
      abel
    · intro hdead
      rw [membersAlive, halive] at hdead
      cases hdead
  next => exact hinv

theorem Inv.kept_move (hinv : s.Inv) {w : Fin n} {pc next : JoinedPc Task} (hpc : s.pc w = pc)
    {tasks executed : List (Task × Bool)}
    (hmove : promised s.executed + promised s.tasks + held pc =
      promised executed + promised tasks + held next) :
    promised s.enqueued =
      promised executed + ∑ u, held (Function.update s.pc w next u) + promised tasks := by
  have hbefore : promised s.enqueued =
      promised s.executed + promised s.tasks + ∑ u, held (s.pc u) := by
    rw [hinv.kept, add_right_comm]
  rw [add_right_comm]
  apply eq_add_sum_update held hbefore
  rw [hpc, add_assoc, hmove, ← add_assoc]

theorem Inv.exit (hinv : s.Inv) {w : Fin n} {pc : JoinedPc Task} (hpc : s.pc w = pc)
    (hheld : held pc = 0) (hstop : s.stopFlag = true) (hnone : promised s.tasks = 0) :
    Inv { s with pc := Function.update s.pc w .exited } :=
  { hinv with
    kept := hinv.kept_move hpc (by rw [hheld, held_exited])
    exited := fun _ _ => ⟨hstop, hnone⟩ }

theorem Inv.move (hinv : s.Inv) {w : Fin n} {pc next : JoinedPc Task} (hpc : s.pc w = pc)
    (hnext : next ≠ .exited) {tasks executed : List (Task × Bool)}
    (hmove : promised s.executed + promised s.tasks + held pc =
      promised executed + promised tasks + held next)
    (htasks : promised s.tasks = 0 → promised tasks = 0) :
    Inv { s with
      tasks := tasks
      pc := Function.update s.pc w next
      executed := executed } := by
  refine { hinv with
    kept := hinv.kept_move hpc hmove
    exited := ?_
    dropped := fun hdead => htasks (hinv.dropped hdead) }
  intro u hu
  rcases update_apply_eq_iff.mp hu with ⟨_, hleft⟩ | ⟨_, hearlier⟩
  · exact absurd hleft hnext
  · obtain ⟨hstop, hnone⟩ := hinv.exited u hearlier
    exact ⟨hstop, htasks hnone⟩

theorem Inv.stepWorker (hinv : s.Inv) (w : Fin n)
    (halive : s.pc w = .waiting → s.membersAlive = true) : (s.stepWorker w).Inv := by
  cases hpc : s.pc w with
  | looping =>
      simp only [ThreadPool3.stepWorker, hpc]
      split_ifs with hrequested
      · have hdead := hinv.requested w hrequested
        have hstop : s.stopFlag = true := by
          apply hinv.stopped
          intro hcontra
          rw [membersAlive, hcontra] at hdead
          cases hdead
        exact hinv.exit hpc rfl hstop (hinv.dropped hdead)
      · exact hinv.move hpc (by simp) rfl id
  | waiting =>
      simp only [ThreadPool3.stepWorker, hpc, if_pos (halive hpc)]
      split_ifs with hpred hleaves
      · rw [Bool.and_eq_true, List.isEmpty_iff] at hleaves
        exact hinv.exit hpc rfl hleaves.1 (by rw [hleaves.2, promised_nil])
      · split
        next htasks => exact hinv.move hpc (by simp) rfl id
        next task tasks htasks =>
          have hfront : promised s.tasks = promised [task] + promised tasks := by
            rw [htasks, promised_cons]
          apply hinv.move hpc (by simp)
          · rw [hfront, held_waiting, held_running]
            abel
          · intro hnone
            rw [hfront] at hnone
            exact (add_eq_zero.mp hnone).2
      · exact hinv
  | running task =>
      simp only [ThreadPool3.stepWorker, hpc]
      apply hinv.move hpc (by simp) _ id
      rw [promised_append, held_running, held_looping]
      abel
  | exited =>
      simp only [ThreadPool3.stepWorker, hpc]
      exact hinv

theorem Inv.stepDestroy (hinv : s.Inv) (w : Fin n)
    (hdrained : s.dtor = .stopped → promised s.tasks = 0) : (s.stepDestroy w).Inv := by
  cases hdtor : s.dtor with
  | alive =>
      have halive : s.membersAlive = true := by rw [membersAlive, hdtor]
      simp only [ThreadPool3.stepDestroy, hdtor]
      refine { hinv with exited := ?_, stopped := fun _ => rfl, dropped := ?_, requested := ?_ }
      · exact fun u hu => ⟨rfl, (hinv.exited u hu).2⟩
      · intro hdead
        cases hdead
      · intro u hu
        rw [hinv.requested u hu] at halive
        cases halive
  | stopped =>
      have hnone := hdrained hdtor
      have hstop := hinv.stopped (by rw [hdtor]; simp)
      simp only [ThreadPool3.stepDestroy, hdtor]
      refine { hinv with
        kept := ?_, exited := ?_, stopped := fun _ => hstop, dropped := ?_, requested := ?_ }
      · rw [hinv.kept, hnone, promised_nil]
      · exact fun _ _ => ⟨hstop, rfl⟩
      · exact fun _ => rfl
      · exact fun _ _ => rfl
  | joining worker =>
      have hdead : s.membersAlive = false := by rw [membersAlive, hdtor]
      have hstop := hinv.stopped (by rw [hdtor]; simp)
      cases worker with
      | none =>
          simp only [ThreadPool3.stepDestroy, hdtor]
          exact
            { hinv with
              stopped := fun _ => hstop
              dropped := fun _ => hinv.dropped hdead
              requested := fun _ _ => rfl }
      | some worker =>
          simp only [ThreadPool3.stepDestroy, hdtor]
          split_ifs
          · exact
              { hinv with
                stopped := fun _ => hstop
                dropped := fun _ => hinv.dropped hdead
                requested := fun _ _ => rfl }
          · exact hinv

theorem Inv.step (hinv : s.Inv) {call : StopCall n Task} (hstops : s.StopsInTime call) :
    (s.step call).Inv := by
  cases call with
  | enqueue task => exact hinv.stepEnqueue task
  | stop =>
      rw [ThreadPool3.step]
      split
      next halive =>
        exact
          { hinv with
            exited := fun w hpc => ⟨rfl, (hinv.exited w hpc).2⟩
            stopped := fun _ => rfl }
      next => exact hinv
  | work w => exact hinv.stepWorker w hstops
  | destroy w => exact hinv.stepDestroy w hstops

theorem not_finishes_step (hinv : s.Inv) {call : StopCall n Task} (hnot : ¬ s.StopsInTime call) :
    ¬ (s.step call).Finishes := by
  intro hfinishes
  cases call with
  | enqueue task => exact hnot trivial
  | stop => exact hnot trivial
  | work w =>
      simp only [StopsInTime, not_forall, Bool.not_eq_true] at hnot
      obtain ⟨hpc, hdead⟩ := hnot
      have hdefined := hfinishes.defined
      simp only [step, stepWorker, hpc, hdead, Bool.false_eq_true, if_false] at hdefined
      cases hdefined
  | destroy w =>
      simp only [StopsInTime, not_forall] at hnot
      obtain ⟨hdtor, hleft⟩ := hnot
      have hkept := hfinishes.kept
      simp only [step, stepDestroy, hdtor, promised_nil, add_zero] at hkept
      rw [hinv.kept, add_eq_left] at hkept
      exact hleft hkept

/-- The tasks enqueued before `stop` are executed before the last worker is out exactly when
none is left as the queue is destroyed and no worker comes back to it. -/
theorem finishes_iff_stopsInTime (calls : List (StopCall (n + 1) Task)) :
    (∀ first, first <+: calls →
        (run step (start : ThreadPool3 (n + 1) Task) first).Finishes) ↔
      ∀ earlier call later, calls = earlier ++ call :: later →
        (run step (start : ThreadPool3 (n + 1) Task) earlier).StopsInTime call :=
  always_iff_of_steps step start Inv Finishes StopsInTime start_inv (fun _ => Inv.finishes)
    (fun _ _ hinv hstops => hinv.step hstops) (fun _ _ hinv hnot => not_finishes_step hinv hnot)
    calls

/-- The queue is destroyed before the worker looks into it. -/
def destroyedAtOnce (w : Fin n) : List (StopCall n ℕ) :=
  [.enqueue 5, .destroy w, .destroy w, .destroy w, .work w]

theorem not_finishes_destroyedAtOnce :
    ¬ ∀ (n : ℕ) (calls : List (StopCall (n + 1) ℕ)),
      (run step (start : ThreadPool3 (n + 1) ℕ) calls).Finishes := by
  intro hall
  have hexecuted := (hall 0 (destroyedAtOnce 0)).executed (Fin.forall_fin_one.mpr rfl)
  have hcard := congrArg Multiset.card hexecuted
  exact absurd hcard (by decide)

end ThreadPool3

end CppPlay.MultiThread
