import CppPlay.MultiThread.RingQueue
import Mathlib.Data.Fintype.Card

/-!
# The ring inside the lock-free pool

The submitters of the pool push into one `RingQueue` and its workers pop from it, any
number of both.  The ring keeps the tasks as long as no push writes, and no pop reads,
a slot by an index that is out of date.
-/

namespace CppPlay.MultiThread

open CppPlay.Lib

inductive EnqueuePc (Task : Type) where
  | idle
  | pushing (task : Task)
  | releasing

/-- Where a worker stands in `worker_loop`.  A `SmallTask` without a function is
`none`. -/
inductive WorkerPc (Task : Type) where
  | acquiring
  | testingStop
  | popping
  | running (task : Option Task)
  | exited

inductive PoolCall (ι κ Task : Type) where
  | enqueue (t : ι) (task : Task)
  | work (w : κ)
  | requestStop (w : κ)
  | releaseWorkers

structure LockFreePool (ι κ Task : Type) where
  queue : RingQueue ι κ (Option Task)
  sem : ℕ
  stopRequested : κ → Bool
  enqueuePc : ι → EnqueuePc Task
  workerPc : κ → WorkerPc Task

namespace LockFreePool

variable {ι κ Task : Type}

def start : LockFreePool ι κ Task :=
  ⟨RingQueue.start fun _ => none, 0, fun _ => false, fun _ => .idle, fun _ => .acquiring⟩

section Step

variable [DecidableEq ι] [DecidableEq κ]

/-- The next step of `enqueue`, which pushes until the ring takes the task. -/
def stepEnqueue (capacity : ℕ) (s : LockFreePool ι κ Task) (t : ι) (task : Task) :
    LockFreePool ι κ Task :=
  match s.enqueuePc t with
  | .idle => { s with enqueuePc := Function.update s.enqueuePc t (.pushing task) }
  | .pushing task =>
      let queue := s.queue.stepPush capacity t (some task)
      match s.queue.pushPc t with
      | .stored _ _ =>
          { s with queue := queue, enqueuePc := Function.update s.enqueuePc t .releasing }
      | _ => { s with queue := queue }
  | .releasing =>
      { s with sem := s.sem + 1, enqueuePc := Function.update s.enqueuePc t .idle }

/-- What a move leaves behind is a task without a function. -/
def movedFrom (_ : Option Task) : Option Task := none

def stepWorker (capacity : ℕ) (s : LockFreePool ι κ Task) (w : κ) : LockFreePool ι κ Task :=
  match s.workerPc w with
  | .acquiring =>
      if s.sem = 0 then s
      else { s with sem := s.sem - 1, workerPc := Function.update s.workerPc w .testingStop }
  | .testingStop =>
      if s.stopRequested w then { s with workerPc := Function.update s.workerPc w .exited }
      else { s with workerPc := Function.update s.workerPc w .popping }
  | .popping =>
      let queue := s.queue.stepPop capacity movedFrom w
      match s.queue.popPc w with
      | .loaded head =>
          if head = s.queue.tail then
            { s with queue := queue, workerPc := Function.update s.workerPc w .acquiring }
          else { s with queue := queue }
      | .moved _ task =>
          { s with queue := queue, workerPc := Function.update s.workerPc w (.running task) }
      | _ => { s with queue := queue }
  | .running _ => { s with workerPc := Function.update s.workerPc w .acquiring }
  | .exited => s

def step [Fintype κ] (capacity : ℕ) (s : LockFreePool ι κ Task) :
    PoolCall ι κ Task → LockFreePool ι κ Task
  | .enqueue t task => s.stepEnqueue capacity t task
  | .work w => s.stepWorker capacity w
  | .requestStop w => { s with stopRequested := Function.update s.stopRequested w true }
  | .releaseWorkers => { s with sem := s.sem + Fintype.card κ }

end Step

/-! ## What the ring owes the pool -/

/-- What was read out of the slots was pushed, each task at most once, and what was
pushed and not yet read is in a slot. -/
structure TasksKept (capacity : ℕ) (queue : RingQueue ι κ (Option Task)) : Prop where
  taken_le : (queue.taken : Multiset (Option Task)) ≤ queue.pushed
  pushed_le : (queue.pushed : Multiset (Option Task)) ≤
    queue.taken + (Multiset.range capacity).map queue.buffer

theorem tasksKept_of_inv {capacity : ℕ} {queue : RingQueue ι κ (Option Task)}
    (hinv : queue.Inv capacity) : TasksKept capacity queue :=
  ⟨Multiset.coe_le.mpr hinv.taken_prefix.sublist.subperm, hinv.pushed_le⟩

/-- The step of the ring that a step of the pool makes. -/
def ringCall (s : LockFreePool ι κ Task) :
    PoolCall ι κ Task → Option (RingCall ι κ (Option Task))
  | .enqueue t _ =>
      match s.enqueuePc t with
      | .pushing task => some (.push t (some task))
      | _ => none
  | .work w =>
      match s.workerPc w with
      | .popping => some (.pop w)
      | _ => none
  | .requestStop _ => none
  | .releaseWorkers => none

/-- A step that writes or reads a slot of the ring does so by a current index. -/
def Fresh (capacity : ℕ) (s : LockFreePool ι κ Task) (input : PoolCall ι κ Task) : Prop :=
  ∀ call, s.ringCall input = some call → s.queue.Fresh capacity call

variable [DecidableEq ι] [DecidableEq κ] {capacity : ℕ} {s : LockFreePool ι κ Task}

/-- The pool touches the ring by its pushes and pops only. -/
theorem queue_step [Fintype κ] (input : PoolCall ι κ Task) :
    (s.step capacity input).queue =
      ((s.ringCall input).map (s.queue.step capacity movedFrom)).getD s.queue := by
  cases input with
  | enqueue t task =>
      cases hpc : s.enqueuePc t with
      | idle => simp [step, stepEnqueue, ringCall, hpc]
      | pushing task =>
          cases hpush : s.queue.pushPc t <;>
            simp [step, stepEnqueue, ringCall, hpc, hpush, RingQueue.step]
      | releasing => simp [step, stepEnqueue, ringCall, hpc]
  | work w =>
      cases hpc : s.workerPc w with
      | acquiring =>
          by_cases hsem : s.sem = 0 <;> simp [step, stepWorker, ringCall, hpc, hsem]
      | testingStop =>
          cases hstop : s.stopRequested w <;> simp [step, stepWorker, ringCall, hpc, hstop]
      | popping =>
          cases hpop : s.queue.popPc w with
          | loaded head =>
              by_cases hempty : head = s.queue.tail <;>
                simp [step, stepWorker, ringCall, hpc, hpop, hempty, RingQueue.step]
          | _ => simp [step, stepWorker, ringCall, hpc, hpop, RingQueue.step]
      | running task => simp [step, stepWorker, ringCall, hpc]
      | exited => simp [step, stepWorker, ringCall, hpc]
  | requestStop w => rfl
  | releaseWorkers => rfl

theorem step_queue_inv [Fintype κ] (hinv : s.queue.Inv capacity) {input : PoolCall ι κ Task}
    (hfresh : s.Fresh capacity input) : (s.step capacity input).queue.Inv capacity := by
  rw [queue_step]
  cases hcall : s.ringCall input with
  | none => exact hinv
  | some call => exact RingQueue.step_inv hinv (hfresh call hcall)

/-- A run of the pool keeps all tasks, if none of its pushes writes and none of its pops
reads a slot by an index that is out of date. -/
theorem tasksKept_of_fresh [Fintype κ] (capacity : ℕ) (hcapacity : 0 < capacity)
    (inputs : List (PoolCall ι κ Task))
    (hfresh : ∀ earlier input later, inputs = earlier ++ input :: later →
      (run (step capacity) start earlier).Fresh capacity input) :
    ∀ first, first <+: inputs → TasksKept capacity (run (step capacity) start first).queue := by
  intro first hfirst
  apply tasksKept_of_inv
  exact run_invariant_of_ok (step capacity) start (fun _ s => s.queue.Inv capacity)
    (fun earlier input => (run (step capacity) start earlier).Fresh capacity input)
    (RingQueue.start_inv hcapacity _)
    (fun _ _ hinv hfresh => step_queue_inv hinv hfresh) hfresh first hfirst

/-- One submitter and one worker do not get in each other's way. -/
theorem single_fresh (hcapacity : 0 < capacity) (inputs : List (PoolCall Unit Unit Task))
    (input : PoolCall Unit Unit Task) :
    (run (step capacity) start inputs).Fresh capacity input := by
  have hrun : (run (step capacity) start inputs).queue.Inv capacity ∧
      (run (step capacity) start inputs).queue.Current capacity := by
    apply run_invariant fun s : LockFreePool Unit Unit Task =>
      s.queue.Inv capacity ∧ s.queue.Current capacity
    · exact ⟨RingQueue.start_inv hcapacity _, RingQueue.start_current _⟩
    · intro s input hs
      rw [queue_step]
      cases s.ringCall input with
      | none => exact hs
      | some call =>
          exact ⟨RingQueue.step_inv hs.1 (hs.2.fresh hs.1 call), hs.2.step hs.1 movedFrom call⟩
  exact fun call _ => hrun.2.fresh hrun.1 call

instance [Fintype ι] [Fintype κ] (capacity : ℕ) (s : LockFreePool ι κ Task)
    (input : PoolCall ι κ Task) : Decidable (s.Fresh capacity input) :=
  inferInstanceAs (Decidable (∀ call ∈ s.ringCall input, s.queue.Fresh capacity call))

/-- Two submitters push two tasks each, the last one into the first slot again, while two
workers pop. -/
def inTurn : List (PoolCall Bool Bool ℕ) :=
  [.enqueue false 1, .enqueue true 2] ++ List.replicate 5 (.enqueue false 1) ++
    (List.replicate 5 [.enqueue true 2, .work false]).flatten ++ List.replicate 2 (.work false) ++
    (List.replicate 6 [.enqueue false 3, .work true]).flatten ++ [.work true] ++
    (List.replicate 6 [.enqueue true 4, .work false]).flatten ++ [.work false] ++
    List.replicate 7 (.work true)

theorem tasksKept_inTurn :
    (run (step 3) start inTurn).queue.taken = [some 1, some 2, some 3, some 4] ∧
      ∀ first, first <+: inTurn → TasksKept 3 (run (step 3) start first).queue :=
  ⟨by decide +kernel,
    tasksKept_of_fresh 3 (by decide) inTurn (runOk_iff.mp (by decide +kernel))⟩

/-! ## Threads that overtake each other -/

/-- Both submitters read the same `tail_`, write slot 0 and return `true`. -/
def bothPush : List (PoolCall Bool Bool ℕ) :=
  (List.replicate 5 [.enqueue false 1, .enqueue true 2]).flatten

/-- Two tasks are in the ring when both workers read the same `head_` and slot 0. -/
def bothPop : List (PoolCall Bool Bool ℕ) :=
  List.replicate 6 (.enqueue false 1) ++ List.replicate 6 (.enqueue true 2) ++
    (List.replicate 5 [.work false, .work true]).flatten

/-- A task is overwritten, and a pop yields what another one has left behind. -/
theorem not_tasksKept_bothPush_bothPop :
    ¬ TasksKept 4 (run (step 4) start bothPush).queue ∧
      ¬ TasksKept 4 (run (step 4) start bothPop).queue := by
  constructor
  · intro hkept
    have hpushed : ((run (step 4) start bothPush).queue.pushed : Multiset (Option ℕ)) =
        {some 1, some 2} := by
      decide +kernel
    have hleft : ((run (step 4) start bothPush).queue.taken : Multiset (Option ℕ)) +
        (Multiset.range 4).map (run (step 4) start bothPush).queue.buffer =
        {some 2, none, none, none} := by
      decide +kernel
    have hle := hkept.pushed_le
    rw [hpushed, hleft] at hle
    exact absurd hle (by decide)
  · intro hkept
    have htaken : ((run (step 4) start bothPop).queue.taken : Multiset (Option ℕ)) =
        {some 1, none} := by
      decide +kernel
    have hpushed : ((run (step 4) start bothPop).queue.pushed : Multiset (Option ℕ)) =
        {some 1, some 2} := by
      decide +kernel
    have hle := hkept.taken_le
    rw [htaken, hpushed] at hle
    exact absurd hle (by decide)

end LockFreePool

end CppPlay.MultiThread
