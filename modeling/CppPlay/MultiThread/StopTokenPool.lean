import CppPlay.Lib.Run
import CppPlay.Lib.Threads
import Mathlib.Algebra.BigOperators.Fin
import Mathlib.Data.Multiset.AddSub

/-!
# The draining pool with stop tokens

The workers wait on a condition variable for tasks or for the stop request, and leave
only when they find the queue empty after it.  The destructor stops and joins the
workers one after another, in whichever order the vector destroys them.  A critical
section is one step, and so is each notification.
-/

namespace CppPlay.MultiThread

open CppPlay.Lib

/-- Where a worker stands: before the critical section, blocked in `cv.wait`, in a task,
or out. -/
inductive DrainPc (Task : Type) where
  | looping
  | blocked
  | running (task : Task)
  | exited

namespace DrainPc

variable {Task : Type}

def isBlocked : DrainPc Task → Bool
  | .blocked => true
  | _ => false

def isExited : DrainPc Task → Bool
  | .exited => true
  | _ => false

theorem isBlocked_iff {pc : DrainPc Task} : pc.isBlocked = true ↔ pc = .blocked := by
  cases pc <;> simp [isBlocked]

theorem isExited_iff {pc : DrainPc Task} : pc.isExited = true ↔ pc = .exited := by
  cases pc <;> simp [isExited]

def wake : DrainPc Task → DrainPc Task
  | .blocked => .looping
  | pc => pc

/-- The worker will look at the queue again without being woken. -/
def isActive : DrainPc Task → Bool
  | .looping | .running _ => true
  | _ => false

def task : DrainPc Task → Multiset Task
  | .running task => {task}
  | _ => 0

@[simp] theorem task_wake (pc : DrainPc Task) : pc.wake.task = pc.task := by
  cases pc <;> rfl

/-- The steps until the worker is blocked or out, if there is no task for it. -/
def steps : DrainPc Task → ℕ
  | .looping => 1
  | .running _ => 2
  | _ => 0

theorem steps_wake_le (pc : DrainPc Task) : pc.wake.steps ≤ pc.steps + 1 := by
  cases pc <;> simp [wake, steps]

theorem wake_ne_blocked (pc : DrainPc Task) : pc.wake ≠ .blocked := by
  cases pc <;> simp [wake]

theorem wake_eq_exited_iff {pc : DrainPc Task} : pc.wake = .exited ↔ pc = .exited := by
  cases pc <;> simp [wake]

theorem isActive_wake {pc : DrainPc Task} (hactive : pc.isActive = true) :
    pc.wake.isActive = true := by
  cases pc <;> simp [isActive, wake] at hactive ⊢

end DrainPc

inductive DrainCall (n : ℕ) (Task : Type) where
  | submit (task : Task)
  | notify (choice : Fin n)
  | wakeSpuriously (w : Fin n)
  | work (w : Fin n)
  | destroy (w : Fin n)

/-- The call goes on with what is under way in the pool. -/
def DrainCall.IsOwn {n : ℕ} {Task : Type} : DrainCall n Task → Prop
  | .submit _ => False
  | .wakeSpuriously _ => False
  | _ => True

/-- The pool with its workers.  `pendingNotifies` counts the calls of `submit` between
their push and their `notify_one`; the last lists record the tasks. -/
structure StopTokenPool (n : ℕ) (Task : Type) where
  tasks : List Task
  pc : Fin n → DrainPc Task
  stopRequested : Fin n → Bool
  pendingNotifies : ℕ
  destroying : Bool
  joining : Option (Fin n)
  joined : Fin n → Bool
  returned : Bool
  submitted : List Task
  dequeued : List Task
  finished : List Task

namespace StopTokenPool

variable {n : ℕ} {Task : Type}

def start : StopTokenPool n Task :=
  ⟨[], fun _ => .looping, fun _ => false, 0, false, none, fun _ => false, false, [], [], []⟩

/-- A pass of `cv.wait(lock, st, pred)`: what it returns, or nothing if it blocks. -/
def wait (stopRequested pred : Bool) : Option Bool :=
  if stopRequested then some pred else if pred then some true else none

def waitAndStop (stopRequested pred : Bool) : Option Bool :=
  (wait stopRequested pred).map not

/-- A worker that finds a task takes it, whether it was asked to stop or not. -/
@[simp] theorem waitAndStop_true (stopRequested : Bool) :
    waitAndStop stopRequested true = some false := by
  cases stopRequested <;> rfl

@[simp] theorem waitAndStop_blocks : waitAndStop false false = none := rfl

@[simp] theorem waitAndStop_stops : waitAndStop true false = some true := rfl

/-- The next step of a worker: its critical section, or the end of its task. -/
def stepWorker (s : StopTokenPool n Task) (w : Fin n) : StopTokenPool n Task :=
  match s.pc w with
  | .looping =>
      match waitAndStop (s.stopRequested w) !s.tasks.isEmpty, s.tasks with
      | none, _ => { s with pc := Function.update s.pc w .blocked }
      | some true, _ => { s with pc := Function.update s.pc w .exited }
      | some false, task :: tasks =>
          { s with
            tasks := tasks
            pc := Function.update s.pc w (.running task)
            dequeued := s.dequeued ++ [task] }
      | some false, [] => s
  | .blocked => s
  | .running task =>
      { s with
        pc := Function.update s.pc w .looping
        finished := s.finished ++ [task] }
  | .exited => s

/-- The next step of the destructor, which starts when no `submit` is under way: the stop
request of the next worker, or the end of its join. -/
def stepDestroy (s : StopTokenPool n Task) (w : Fin n) : StopTokenPool n Task :=
  if s.destroying then
    match s.joining with
    | none =>
        if ∀ u, s.joined u = true then { s with returned := true }
        else if s.joined w then s
        else
          { s with
            pc := Function.update s.pc w (s.pc w).wake
            stopRequested := Function.update s.stopRequested w true
            joining := some w }
    | some v =>
        if (s.pc v).isExited then
          { s with joining := none, joined := Function.update s.joined v true }
        else s
  else if s.pendingNotifies = 0 then { s with destroying := true }
  else s

def step (s : StopTokenPool n Task) : DrainCall n Task → StopTokenPool n Task
  | .submit task =>
      -- no call is made once the destruction has begun
      if s.destroying then s
      else
        { s with
          tasks := s.tasks ++ [task]
          pendingNotifies := s.pendingNotifies + 1
          submitted := s.submitted ++ [task] }
  | .notify choice =>
      if s.pendingNotifies = 0 then s
      else if (s.pc choice).isBlocked then
        { s with
          pc := Function.update s.pc choice .looping
          pendingNotifies := s.pendingNotifies - 1 }
      else if ∃ w, (s.pc w).isBlocked = true then s
      else { s with pendingNotifies := s.pendingNotifies - 1 }
  | .wakeSpuriously w => { s with pc := Function.update s.pc w (s.pc w).wake }
  | .work w => s.stepWorker w
  | .destroy w => s.stepDestroy w

/-- The pool runs each task once, in the order of submission, before it is gone. -/
structure Drains (s : StopTokenPool n Task) : Prop where
  dequeued_prefix : s.dequeued <+: s.submitted
  run_once : (s.finished : Multiset Task) + (∑ w, (s.pc w).task) = s.dequeued
  tasks_of_exited : ∀ w, s.pc w = .exited → s.tasks = []
  all_of_returned : s.returned = true →
    (∀ w, s.pc w = .exited) ∧ (s.finished : Multiset Task) = s.submitted
  served : s.tasks ≠ [] → 0 < s.pendingNotifies ∨ ∃ w, (s.pc w).isActive = true
  joining_ne_blocked : ∀ w, s.joining = some w → s.pc w ≠ .blocked

/-! ## The invariant -/

structure Inv (s : StopTokenPool n Task) : Prop where
  conserved : s.submitted = s.dequeued ++ s.tasks
  run_once : (s.finished : Multiset Task) + (∑ w, (s.pc w).task) = s.dequeued
  exited : ∀ w, s.pc w = .exited → s.tasks = [] ∧ s.stopRequested w = true
  stopped : ∀ w, s.stopRequested w = true → s.destroying = true ∧ s.pc w ≠ .blocked
  served : s.tasks ≠ [] → 0 < s.pendingNotifies ∨ ∃ w, (s.pc w).isActive = true
  joining : ∀ w, s.joining = some w → s.stopRequested w = true ∧ s.joined w = false
  joined : ∀ w, s.joined w = true → s.pc w = .exited
  returned : s.returned = true → ∀ w, s.joined w = true

variable {s : StopTokenPool n Task}

theorem start_inv : (start : StopTokenPool n Task).Inv := by
  constructor
  · rfl
  · simp [start, DrainPc.task]
  · intro w hpc
    exact absurd hpc (by simp [start])
  · intro w hstop
    exact absurd hstop (by simp [start])
  · exact fun hsome => absurd rfl hsome
  · intro w hjoining
    exact absurd hjoining (by simp [start])
  · intro w hjoined
    exact absurd hjoined (by simp [start])
  · intro hreturned
    exact absurd hreturned (by simp [start])

theorem Inv.drains (hinv : s.Inv) (hworkers : 0 < n) : s.Drains := by
  constructor
  · rw [hinv.conserved]
    exact List.prefix_append _ _
  · exact hinv.run_once
  · exact fun w hpc => (hinv.exited w hpc).1
  · intro hreturned
    have hexited : ∀ w, s.pc w = .exited := fun w => hinv.joined w (hinv.returned hreturned w)
    have hrunning : ∑ w, (s.pc w).task = 0 := by
      apply Finset.sum_eq_zero
      intro w _
      rw [hexited w]
      rfl
    have honce := hinv.run_once
    rw [hrunning, add_zero] at honce
    have hnone := (hinv.exited ⟨0, hworkers⟩ (hexited _)).1
    refine ⟨hexited, ?_⟩
    rw [honce, hinv.conserved, hnone, List.append_nil]
  · exact hinv.served
  · exact fun w hjoining => (hinv.stopped w (hinv.joining w hjoining).1).2

/-! ## What a step keeps -/

theorem Inv.move (hinv : s.Inv) {w : Fin n} (pc : DrainPc Task)
    (tasks dequeued finished : List Task)
    (hin : s.pc w ≠ .exited)
    (hconserved : dequeued ++ tasks = s.dequeued ++ s.tasks)
    (honce : (finished : Multiset Task) + pc.task + s.dequeued =
      s.finished + (s.pc w).task + dequeued)
    (hempty : s.tasks = [] → tasks = [])
    (hserved : tasks ≠ [] → pc.isActive = true)
    (hblocked : pc = .blocked → s.stopRequested w = false)
    (hexited : pc = .exited → tasks = [] ∧ s.stopRequested w = true) :
    Inv { s with
      tasks := tasks
      pc := Function.update s.pc w pc
      dequeued := dequeued
      finished := finished } := by
  constructor
  · exact hinv.conserved.trans hconserved.symm
  · symm
    apply eq_add_sum_update DrainPc.task hinv.run_once.symm
    calc
      (dequeued : Multiset Task) + s.finished + (s.pc w).task =
          finished + pc.task + s.dequeued := by
        rw [honce]
        abel
      _ = s.dequeued + finished + pc.task := by abel
  · intro u hu
    rcases update_apply_eq_iff.mp hu with ⟨hsame, hpc⟩ | ⟨_, hold⟩
    · rw [hsame]
      exact hexited hpc
    · exact ⟨hempty (hinv.exited u hold).1, (hinv.exited u hold).2⟩
  · intro u hstop
    refine ⟨(hinv.stopped u hstop).1, ?_⟩
    intro hu
    rcases update_apply_eq_iff.mp hu with ⟨hsame, hpc⟩ | ⟨_, hold⟩
    · rw [hsame, hblocked hpc] at hstop
      exact absurd hstop (by simp)
    · exact (hinv.stopped u hstop).2 hold
  · intro hsome
    refine .inr ⟨w, ?_⟩
    simpa only [Function.update_self] using hserved hsome
  · exact hinv.joining
  · intro u hjoined
    have hu := hinv.joined u hjoined
    have hne : u ≠ w := by
      rintro rfl
      exact hin hu
    simpa only [Function.update_of_ne hne] using hu
  · exact hinv.returned

theorem Inv.wake (hinv : s.Inv) (w : Fin n) :
    Inv { s with pc := Function.update s.pc w (s.pc w).wake } := by
  have hexited : ∀ u, Function.update s.pc w (s.pc w).wake u = .exited ↔ s.pc u = .exited :=
    update_apply_eq_iff_of_iff DrainPc.wake_eq_exited_iff
  constructor
  · exact hinv.conserved
  · have hsum := sum_update DrainPc.task s.pc w (s.pc w).wake
    rw [DrainPc.task_wake] at hsum
    rw [add_right_cancel hsum]
    exact hinv.run_once
  · exact fun u hu => hinv.exited u ((hexited u).mp hu)
  · intro u hstop
    refine ⟨(hinv.stopped u hstop).1, ?_⟩
    intro hu
    rcases update_apply_eq_iff.mp hu with ⟨_, hpc⟩ | ⟨_, hold⟩
    · exact DrainPc.wake_ne_blocked _ hpc
    · exact (hinv.stopped u hstop).2 hold
  · intro hsome
    rcases hinv.served hsome with hpending | ⟨u, hactive⟩
    · exact .inl hpending
    · refine .inr ⟨u, ?_⟩
      by_cases hsame : u = w
      · simp only [hsame, Function.update_self]
        rw [hsame] at hactive
        exact DrainPc.isActive_wake hactive
      · simpa only [Function.update_of_ne hsame] using hactive
  · exact hinv.joining
  · exact fun u hjoined => (hexited u).mpr (hinv.joined u hjoined)
  · exact hinv.returned

theorem stepWorker_inv (hinv : s.Inv) (w : Fin n) : (s.stepWorker w).Inv := by
  cases hpc : s.pc w with
  | looping =>
      have hin : s.pc w ≠ .exited := by simp [hpc]
      cases htasks : s.tasks with
      | nil =>
          cases hstop : s.stopRequested w with
          | false =>
              simp only [stepWorker, hpc, hstop, htasks, List.isEmpty_nil, Bool.not_true,
                waitAndStop_blocks]
              have hblocks := hinv.move .blocked s.tasks s.dequeued s.finished hin rfl
                (by rw [hpc]; rfl) id (by simp [htasks]) (fun _ => hstop) (by simp)
              simpa only [htasks] using hblocks
          | true =>
              simp only [stepWorker, hpc, hstop, htasks, List.isEmpty_nil, Bool.not_true,
                waitAndStop_stops]
              have hexits := hinv.move .exited s.tasks s.dequeued s.finished hin rfl
                (by rw [hpc]; rfl) id (by simp [htasks]) (by simp) (fun _ => ⟨htasks, hstop⟩)
              simpa only [htasks] using hexits
      | cons task tasks =>
          simp only [stepWorker, hpc, htasks, List.isEmpty_cons, Bool.not_false, waitAndStop_true]
          apply hinv.move (.running task) tasks (s.dequeued ++ [task]) s.finished hin
          · rw [htasks, List.append_assoc, List.singleton_append]
          · rw [hpc, ← Multiset.coe_add]
            simp only [DrainPc.task, Multiset.coe_singleton]
            abel
          · exact fun hnone => absurd (htasks.symm.trans hnone) (List.cons_ne_nil _ _)
          · exact fun _ => rfl
          · simp
          · simp
  | blocked =>
      simp only [stepWorker, hpc]
      exact hinv
  | running task =>
      simp only [stepWorker, hpc]
      apply hinv.move .looping s.tasks s.dequeued (s.finished ++ [task])
      · simp [hpc]
      · rfl
      · rw [hpc, ← Multiset.coe_add]
        simp [DrainPc.task]
      · exact id
      · exact fun _ => rfl
      · simp
      · simp
  | exited =>
      simp only [stepWorker, hpc]
      exact hinv

theorem Inv.requestStop (hinv : s.Inv) (hdestroying : s.destroying = true) {w : Fin n}
    (hjoined : ¬ s.joined w = true) :
    Inv { s with
      pc := Function.update s.pc w (s.pc w).wake
      stopRequested := Function.update s.stopRequested w true
      joining := some w } := by
  have hwake := hinv.wake w
  constructor
  · exact hwake.conserved
  · exact hwake.run_once
  · intro u hu
    refine ⟨(hwake.exited u hu).1, ?_⟩
    by_cases hsame : u = w
    · simp [hsame]
    · simpa only [Function.update_of_ne hsame] using (hwake.exited u hu).2
  · intro u hstop
    refine ⟨hdestroying, ?_⟩
    rcases update_apply_eq_iff.mp hstop with ⟨hsame, _⟩ | ⟨_, hold⟩
    · simpa only [hsame, Function.update_self] using DrainPc.wake_ne_blocked _
    · exact (hwake.stopped u hold).2
  · exact hwake.served
  · intro u hjoining
    cases hjoining
    exact ⟨Function.update_self .., Bool.not_eq_true _ ▸ hjoined⟩
  · exact hwake.joined
  · exact hwake.returned

theorem Inv.endJoin (hinv : s.Inv) {v : Fin n} (hexited : s.pc v = .exited) :
    Inv { s with joining := none, joined := Function.update s.joined v true } := by
  refine ⟨hinv.conserved, hinv.run_once, hinv.exited, hinv.stopped, hinv.served, by simp, ?_, ?_⟩
  · intro u hjoined
    rcases update_apply_eq_iff.mp hjoined with ⟨hsame, _⟩ | ⟨_, hold⟩
    · rw [hsame]
      exact hexited
    · exact hinv.joined u hold
  · intro hreturned
    exact forall_update (P := fun _ joined => joined = true) rfl
      fun u _ => hinv.returned hreturned u

theorem stepDestroy_inv (hinv : s.Inv) (w : Fin n) : (s.stepDestroy w).Inv := by
  unfold stepDestroy
  by_cases hdestroying : s.destroying = true
  · rw [if_pos hdestroying]
    cases hjoining : s.joining with
    | none =>
        simp only
        by_cases hall : ∀ u, s.joined u = true
        · rw [if_pos hall]
          exact ⟨hinv.conserved, hinv.run_once, hinv.exited, hinv.stopped, hinv.served,
            by simp, hinv.joined, fun _ => hall⟩
        · rw [if_neg hall]
          by_cases hjoined : s.joined w = true
          · rw [if_pos hjoined]
            exact hinv
          · rw [if_neg hjoined]
            exact hinv.requestStop hdestroying hjoined
    | some v =>
        simp only
        by_cases hexited : (s.pc v).isExited = true
        · rw [if_pos hexited]
          exact hinv.endJoin (DrainPc.isExited_iff.mp hexited)
        · rw [if_neg hexited]
          exact hinv
  · rw [if_neg hdestroying]
    by_cases hpending : s.pendingNotifies = 0
    · rw [if_pos hpending]
      exact ⟨hinv.conserved, hinv.run_once, hinv.exited,
        fun u hstop => ⟨rfl, (hinv.stopped u hstop).2⟩, hinv.served, hinv.joining, hinv.joined,
        hinv.returned⟩
    · rw [if_neg hpending]
      exact hinv

theorem step_submit_inv (hinv : s.Inv) (task : Task) : (s.step (.submit task)).Inv := by
  simp only [step]
  by_cases hdestroying : s.destroying = true
  · rw [if_pos hdestroying]
    exact hinv
  · rw [if_neg hdestroying]
    have hnobody : ∀ w, s.pc w ≠ .exited := by
      intro w hpc
      exact hdestroying (hinv.stopped w (hinv.exited w hpc).2).1
    refine ⟨?_, hinv.run_once, ?_, hinv.stopped, ?_, hinv.joining, hinv.joined, hinv.returned⟩
    · rw [hinv.conserved, List.append_assoc]
    · exact fun w hpc => absurd hpc (hnobody w)
    · exact fun _ => .inl (Nat.succ_pos _)

/-- A notification that wakes nobody finds a worker that is not asleep. -/
theorem step_notify_inv (hinv : s.Inv) (choice : Fin n) : (s.step (.notify choice)).Inv := by
  simp only [step]
  by_cases hpending : s.pendingNotifies = 0
  · rw [if_pos hpending]
    exact hinv
  · rw [if_neg hpending]
    by_cases hblocked : (s.pc choice).isBlocked = true
    · rw [if_pos hblocked]
      have hwake := hinv.wake choice
      rw [DrainPc.isBlocked_iff.mp hblocked] at hwake
      refine ⟨hwake.conserved, hwake.run_once, hwake.exited, hwake.stopped, ?_, hwake.joining,
        hwake.joined, hwake.returned⟩
      exact fun _ => .inr ⟨choice, by simp [DrainPc.isActive]⟩
    · rw [if_neg hblocked]
      by_cases hsome : ∃ w, (s.pc w).isBlocked = true
      · rw [if_pos hsome]
        exact hinv
      · rw [if_neg hsome]
        refine ⟨hinv.conserved, hinv.run_once, hinv.exited, hinv.stopped, ?_, hinv.joining,
          hinv.joined, hinv.returned⟩
        intro htasks
        refine .inr ⟨choice, ?_⟩
        cases hpc : s.pc choice with
        | looping => rfl
        | blocked => exact absurd (DrainPc.isBlocked_iff.mpr hpc) hblocked
        | running task => rfl
        | exited => exact absurd (hinv.exited choice hpc).1 htasks

theorem step_inv (hinv : s.Inv) (call : DrainCall n Task) : (s.step call).Inv := by
  cases call with
  | submit task => exact step_submit_inv hinv task
  | notify choice => exact step_notify_inv hinv choice
  | wakeSpuriously w => exact hinv.wake w
  | work w => exact stepWorker_inv hinv w
  | destroy w => exact stepDestroy_inv hinv w

/-! ## Coming to an end -/

/-- What the pool still has to do until its destructor returns. -/
def rank (s : StopTokenPool n Task) : ℕ :=
  2 * s.tasks.length + (∑ w, (s.pc w).steps) + 2 * s.pendingNotifies +
    (if s.destroying then 0 else 1) + 3 * (∑ w, if s.joined w then 0 else 1) +
    (if s.joining = none then 2 else 0) + (if s.returned then 0 else 1)

theorem rank_move {w : Fin n} {pc : DrainPc Task} {tasks : List Task}
    (dequeued finished : List Task)
    (hless : 2 * tasks.length + pc.steps < 2 * s.tasks.length + (s.pc w).steps) :
    rank { s with
      tasks := tasks
      pc := Function.update s.pc w pc
      dequeued := dequeued
      finished := finished } < s.rank := by
  have hsum := sum_update DrainPc.steps s.pc w pc
  simp only [rank]
  omega

theorem rank_stepWorker_lt {w : Fin n} (hactive : (s.pc w).isActive = true) :
    (s.stepWorker w).rank < s.rank := by
  cases hpc : s.pc w with
  | looping =>
      cases htasks : s.tasks with
      | nil =>
          simp only [stepWorker, hpc, htasks, List.isEmpty_nil, Bool.not_true]
          rw [← htasks]
          cases s.stopRequested w <;>
            exact rank_move s.dequeued s.finished (by simp [hpc, DrainPc.steps])
      | cons task tasks =>
          simp only [stepWorker, hpc, htasks, List.isEmpty_cons, Bool.not_false,
            waitAndStop_true]
          apply rank_move _ s.finished
          simp only [hpc, htasks, DrainPc.steps, List.length_cons]
          omega
  | running task =>
      simp only [stepWorker, hpc]
      exact rank_move s.dequeued _ (by simp [hpc, DrainPc.steps])
  | blocked => simp [hpc, DrainPc.isActive] at hactive
  | exited => simp [hpc, DrainPc.isActive] at hactive

/-- A notification that is under way wakes a worker or finds nobody to wake. -/
theorem exists_rank_notify_lt (hworkers : 0 < n) (hpending : s.pendingNotifies ≠ 0) :
    ∃ choice, (s.step (.notify choice)).rank < s.rank := by
  by_cases hblocked : ∃ w, (s.pc w).isBlocked = true
  · obtain ⟨w, hw⟩ := hblocked
    have hsum := sum_update DrainPc.steps s.pc w .looping
    have hwakes : DrainPc.steps (.looping : DrainPc Task) = 1 := rfl
    refine ⟨w, ?_⟩
    simp only [step, if_neg hpending, if_pos hw, rank]
    omega
  · have hnot : ¬ (s.pc ⟨0, hworkers⟩).isBlocked = true := fun hw => hblocked ⟨_, hw⟩
    refine ⟨⟨0, hworkers⟩, ?_⟩
    simp only [step, if_neg hpending, if_neg hnot, if_neg hblocked, rank]
    omega

theorem exists_rank_stepDestroy_lt (hinv : s.Inv) (hworkers : 0 < n)
    (hnone : ∀ w, ¬ (s.pc w).isActive = true) (hpending : s.pendingNotifies = 0)
    (hreturned : ¬ s.returned = true) : ∃ w, (s.stepDestroy w).rank < s.rank := by
  by_cases hdestroying : s.destroying = true
  · cases hjoining : s.joining with
    | none =>
        by_cases hall : ∀ u, s.joined u = true
        · refine ⟨⟨0, hworkers⟩, ?_⟩
          simp only [stepDestroy, if_pos hdestroying, hjoining, if_pos hall, rank, if_neg hreturned,
            if_true]
          omega
        · obtain ⟨w, hw⟩ := not_forall.mp hall
          have hsum := sum_update DrainPc.steps s.pc w (s.pc w).wake
          have hwake := DrainPc.steps_wake_le (s.pc w)
          refine ⟨w, ?_⟩
          simp only [stepDestroy, if_pos hdestroying, hjoining, if_neg hall, if_neg hw, rank]
          simp only [reduceCtorEq, if_false, if_true]
          omega
    | some v =>
        obtain ⟨hstop, hjoined⟩ := hinv.joining v hjoining
        have hexited : (s.pc v).isExited = true := by
          cases hpc : s.pc v with
          | exited => exact DrainPc.isExited_iff.mpr rfl
          | blocked => exact absurd hpc (hinv.stopped v hstop).2
          | _ => exact absurd (by simp [hpc, DrainPc.isActive]) (hnone v)
        have hsum := sum_update (fun joined : Bool => if joined then 0 else 1) s.joined v true
        simp only [hjoined, Bool.false_eq_true, if_false, if_true] at hsum
        refine ⟨v, ?_⟩
        simp only [stepDestroy, if_pos hdestroying, hjoining, if_pos hexited, rank]
        simp only [reduceCtorEq, if_false, if_true]
        omega
  · refine ⟨⟨0, hworkers⟩, ?_⟩
    simp only [stepDestroy, if_neg hdestroying, if_pos hpending, rank, if_true]
    omega

/-- As long as the destructor has not returned, somebody can do something. -/
theorem exists_rank_step_lt (hinv : s.Inv) (hworkers : 0 < n) (hreturned : ¬ s.returned = true) :
    ∃ call : DrainCall n Task, call.IsOwn ∧ (s.step call).rank < s.rank := by
  by_cases hactive : ∃ w, (s.pc w).isActive = true
  · obtain ⟨w, hw⟩ := hactive
    exact ⟨.work w, trivial, rank_stepWorker_lt hw⟩
  · by_cases hpending : s.pendingNotifies = 0
    · obtain ⟨w, hless⟩ := exists_rank_stepDestroy_lt hinv hworkers
        (fun w hw => hactive ⟨w, hw⟩) hpending hreturned
      exact ⟨.destroy w, trivial, hless⟩
    · obtain ⟨choice, hless⟩ := exists_rank_notify_lt hworkers hpending
      exact ⟨.notify choice, trivial, hless⟩

/-- A pool with a worker drains in every run, and every run can be brought to its end. -/
theorem drains_run (hworkers : 0 < n) (calls : List (DrainCall n Task)) :
    (run step start calls).Drains ∧
      ∃ later : List (DrainCall n Task), (∀ call ∈ later, call.IsOwn) ∧
        (run step start (calls ++ later)).returned = true := by
  have hinv : (run step (start : StopTokenPool n Task) calls).Inv :=
    run_invariant Inv start_inv (fun s call hinv => step_inv hinv call) calls
  refine ⟨hinv.drains hworkers, ?_⟩
  simp only [run_append]
  exact exists_run_of_rank step Inv (fun s => s.returned = true) DrainCall.IsOwn rank
    (fun s call hs _ => step_inv hs call)
    (fun s hs hreturned => exists_rank_step_lt hs hworkers hreturned) hinv

/-- Two tasks are submitted, the first worker blocks and is stopped, the other one runs
both tasks, and the destructor joins both. -/
def twoWorkers (v w : Fin n) : List (DrainCall n ℕ) :=
  [.work v, .submit 7, .notify w, .notify v, .submit 8, .notify v, .notify w, .work w,
    .destroy v, .destroy v, .work w, .work w, .work w, .work v, .destroy v, .destroy w,
    .work w, .destroy w, .destroy v]

theorem drains_run_twoWorkers :
    (run step start (twoWorkers (0 : Fin 2) 1)).returned = true ∧
      (run step start (twoWorkers (0 : Fin 2) 1)).finished = [7, 8] ∧
      (run step start (twoWorkers (0 : Fin 2) 1)).Drains :=
  ⟨by decide +kernel, by decide +kernel, (drains_run (by decide) (twoWorkers 0 1)).1⟩

end StopTokenPool

end CppPlay.MultiThread
