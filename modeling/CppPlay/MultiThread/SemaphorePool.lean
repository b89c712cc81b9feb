import CppPlay.Lib.Run
import CppPlay.Lib.Threads
import Mathlib.Algebra.BigOperators.Fin
import Mathlib.Algebra.Order.BigOperators.Group.Finset
import Mathlib.Data.Multiset.AddSub

/-!
# The semaphore pool and its shutdown

Every task brings a permit, and the destructor adds one for each worker.  A worker that
was asked to stop looks at the queue twice, under two locks: it exits if the first look
finds the queue empty, and goes back for another permit if the second one does.  The
workers are declared first, so the semaphore, the mutex and the queue with its tasks are
destroyed before the workers are joined.
-/

namespace CppPlay.MultiThread

open CppPlay.Lib

/-- Where a worker stands in `worker_loop`: before `sem_.acquire()`, before the stop
check, before its first look at the queue, before the second one, in a task, or out. -/
inductive SemaphorePc (Task : Type) where
  | acquiring
  | testingStop
  | testingEmpty
  | taking
  | running (task : Task)
  | exited
  deriving DecidableEq

/-- How far the destructor is: not called, before the stop request of a worker, past its
release of the permits, or past the destruction of the members, in the join of the workers. -/
inductive SemaphoreDtor where
  | alive
  | requesting (i : ℕ)
  | released
  | joining
  deriving DecidableEq

def SemaphoreDtor.hasReleased : SemaphoreDtor → Bool
  | .released | .joining => true
  | _ => false

inductive SemaphoreCall (n : ℕ) (Task : Type) where
  | push (task : Task)
  | release
  | work (w : Fin n)
  | destroy

/-- The pool with its workers.  `pendingReleases` counts the calls of `enqueue` between
their push and their release; `enqueued` and `executed` record the tasks.  `undefined` is set
when a worker uses a destroyed member. -/
structure SemaphorePool (n : ℕ) (Task : Type) where
  sem : ℕ
  tasks : List Task
  stopping : Bool
  stopRequested : Fin n → Bool
  pc : Fin n → SemaphorePc Task
  dtor : SemaphoreDtor
  pendingReleases : ℕ
  undefined : Bool
  enqueued : List Task
  executed : List Task

namespace SemaphorePool

variable {n : ℕ} {Task : Type}

def start : SemaphorePool n Task :=
  ⟨0, [], false, fun _ => false, fun _ => .acquiring, .alive, 0, false, [], []⟩

def membersAlive (s : SemaphorePool n Task) : Bool :=
  match s.dtor with
  | .joining => false
  | _ => true

/-- What a worker does after the use of a destroyed member is not defined, so it counts as
out. -/
def useDestroyed (s : SemaphorePool n Task) (w : Fin n) : SemaphorePool n Task :=
  { s with pc := Function.update s.pc w .exited, undefined := true }

def stepWorker (s : SemaphorePool n Task) (w : Fin n) : SemaphorePool n Task :=
  match s.pc w with
  | .acquiring =>
      if s.membersAlive then
        if s.sem = 0 then s
        else { s with sem := s.sem - 1, pc := Function.update s.pc w .testingStop }
      else s.useDestroyed w
  -- the stop token is the worker's own
  | .testingStop =>
      if s.stopRequested w then { s with pc := Function.update s.pc w .testingEmpty }
      else { s with pc := Function.update s.pc w .taking }
  | .testingEmpty =>
      if s.membersAlive then
        if s.tasks.isEmpty then { s with pc := Function.update s.pc w .exited }
        else { s with pc := Function.update s.pc w .taking }
      else s.useDestroyed w
  | .taking =>
      if s.membersAlive then
        match s.tasks with
        | [] => { s with pc := Function.update s.pc w .acquiring }
        | task :: tasks =>
            { s with tasks := tasks, pc := Function.update s.pc w (.running task) }
      else s.useDestroyed w
  | .running task =>
      { s with
        pc := Function.update s.pc w .acquiring
        executed := s.executed ++ [task] }
  | .exited => s

/-- The next step of the destructor, which starts when no `enqueue` is under way. -/
def stepDestroy (s : SemaphorePool n Task) : SemaphorePool n Task :=
  match s.dtor with
  | .alive =>
      if s.pendingReleases = 0 then { s with stopping := true, dtor := .requesting 0 } else s
  | .requesting i =>
      if hi : i < n then
        { s with
          stopRequested := Function.update s.stopRequested ⟨i, hi⟩ true
          dtor := .requesting (i + 1) }
      else { s with sem := s.sem + n, dtor := .released }
  -- the queue is destroyed with its tasks
  | .released => { s with tasks := [], dtor := .joining }
  | .joining => s

def step (s : SemaphorePool n Task) : SemaphoreCall n Task → SemaphorePool n Task
  | .push task =>
      -- `enqueue` throws on a stopped pool
      if s.stopping then s
      else
        { s with
          tasks := s.tasks ++ [task]
          pendingReleases := s.pendingReleases + 1
          enqueued := s.enqueued ++ [task] }
  | .release =>
      if s.pendingReleases = 0 then s
      else { s with sem := s.sem + 1, pendingReleases := s.pendingReleases - 1 }
  | .work w => s.stepWorker w
  | .destroy => s.stepDestroy

end SemaphorePool

namespace SemaphorePc

variable {Task : Type}

def permit : SemaphorePc Task → ℕ
  | .testingStop | .testingEmpty | .taking => 1
  | _ => 0

def alive : SemaphorePc Task → ℕ
  | .exited => 0
  | _ => 1

def taker : SemaphorePc Task → ℕ
  | .taking => 1
  | _ => 0

/-- The steps until the worker is out or needs a permit, which it cannot get from a destroyed
semaphore. -/
def steps : SemaphorePc Task → ℕ
  | .acquiring => 1
  | .testingStop => 5
  | .testingEmpty => 4
  | .taking => 3
  | .running _ => 2
  | .exited => 0

def task : SemaphorePc Task → Multiset Task
  | .running task => {task}
  | _ => 0

def WillAcquire : SemaphorePc Task → Prop
  | .acquiring | .taking | .running _ => True
  | _ => False

/-- The next step of the worker is on the semaphore, or on the queue under the mutex. -/
def usesMembers : SemaphorePc Task → Bool
  | .acquiring | .testingEmpty | .taking => true
  | _ => false

theorem taker_le_permit (pc : SemaphorePc Task) : pc.taker ≤ pc.permit := by
  cases pc <;> simp [taker, permit]

theorem permit_add_willAcquire {pc : SemaphorePc Task} (hpc : pc.WillAcquire) :
    pc.permit = pc.taker ∧ pc.alive = 1 := by
  cases pc <;> simp [WillAcquire, permit, taker, alive] at hpc ⊢

end SemaphorePc

namespace SemaphorePool

variable {n : ℕ} {Task : Type} {s : SemaphorePool n Task}

/-- The permits of the shutdown are used up, and a worker still needs one. -/
def Stuck (s : SemaphorePool n Task) : Prop :=
  s.dtor.hasReleased ∧ s.sem = 0 ∧ ∃ w, (s.pc w).WillAcquire

/-- The worker can do nothing more unless a permit comes. -/
def Rests (s : SemaphorePool n Task) (w : Fin n) : Prop :=
  s.pc w = .exited ∨ s.membersAlive ∧ s.pc w = .acquiring ∧ s.sem = 0

def AtRest (s : SemaphorePool n Task) : Prop := ∀ w, s.Rests w

/-- No worker waits in vain or uses a destroyed member, no task is executed twice, and all are
executed in the end. -/
structure ShutsDown (s : SemaphorePool n Task) : Prop where
  not_stuck : ¬ s.Stuck
  defined : s.undefined = false
  executed_le : (s.executed : Multiset Task) ≤ s.enqueued
  executed_eq : s.dtor.hasReleased → s.AtRest → (s.executed : Multiset Task) = s.enqueued

def takers (s : SemaphorePool n Task) : ℕ := ∑ w, (s.pc w).taker

/-- A worker whose first look finds tasks in the queue leaves one of them to each worker
that is already on its way to take one; and there is a worker. -/
def LeavesOneEach (s : SemaphorePool n Task) : SemaphoreCall n Task → Prop
  | .push _ => 0 < n
  | .work w => s.pc w = .testingEmpty → s.tasks ≠ [] → s.takers < s.tasks.length
  | _ => True

/-- The queue is empty when the members are destroyed, and no worker comes to them after
that. -/
def OutlivesWork (s : SemaphorePool n Task) : SemaphoreCall n Task → Prop
  | .work w => (s.pc w).usesMembers → s.membersAlive
  | .destroy => s.dtor = .released → s.tasks = []
  | _ => True

def InOrder (s : SemaphorePool n Task) (call : SemaphoreCall n Task) : Prop :=
  s.LeavesOneEach call ∧ s.OutlivesWork call

/-! ## Permits and tasks -/

/-- The permits that are there or under way are as many as the tasks of the queue and,
from the release on, the workers that are to exit. -/
structure Inv (s : SemaphorePool n Task) : Prop where
  conserved : (s.enqueued : Multiset Task) = s.executed + (∑ w, (s.pc w).task) + s.tasks
  permits : s.sem + s.pendingReleases + (∑ w, (s.pc w).permit) +
    (if s.dtor.hasReleased then 0 else n) = s.tasks.length + ∑ w, (s.pc w).alive
  takers_le : s.takers ≤ s.tasks.length
  exited : ∀ w, s.pc w = .exited → s.dtor.hasReleased ∧ s.tasks = []
  pending : s.dtor ≠ .alive → s.pendingReleases = 0
  stopping : s.dtor ≠ .alive → s.stopping = true
  requesting : ∀ i, s.dtor = .requesting i → ∀ w : Fin n, w.val < i → s.stopRequested w = true
  requested : s.dtor.hasReleased → ∀ w, s.stopRequested w = true
  worker : s.enqueued ≠ [] → 0 < n
  defined : s.undefined = false
  destroyed : s.membersAlive = false → s.tasks = []

theorem start_inv : (start : SemaphorePool n Task).Inv := by
  constructor
  · simp [start, SemaphorePc.task]
  · simp [start, SemaphoreDtor.hasReleased, SemaphorePc.permit, SemaphorePc.alive]
  · simp [start, takers, SemaphorePc.taker]
  · intro w hpc
    exact absurd hpc (by simp [start])
  · exact fun _ => rfl
  · exact fun hdtor => absurd rfl hdtor
  · intro i hdtor
    exact absurd hdtor (by simp [start])
  · intro hreleased
    exact absurd hreleased (by simp [start, SemaphoreDtor.hasReleased])
  · exact fun hsome => absurd rfl hsome
  · rfl
  · exact fun _ => rfl

/-- A worker past its acquire that is not about to take a task has a permit over. -/
theorem takers_lt_permits {w : Fin n} (htaker : (s.pc w).taker = 0)
    (hpermit : (s.pc w).permit = 1) : s.takers < ∑ w, (s.pc w).permit :=
  Finset.sum_lt_sum (fun w _ => (s.pc w).taker_le_permit) ⟨w, Finset.mem_univ w, by omega⟩

theorem Inv.ne_exited (hinv : s.Inv) (hbefore : s.dtor.hasReleased = false) (w : Fin n) :
    s.pc w ≠ .exited := by
  intro hpc
  have hreleased := (hinv.exited w hpc).1
  rw [hbefore] at hreleased
  exact absurd hreleased Bool.false_ne_true

theorem not_alive (hreleased : s.dtor.hasReleased) : s.dtor ≠ .alive := by
  intro halive
  rw [halive] at hreleased
  exact absurd hreleased Bool.false_ne_true

theorem membersAlive_of_before (hbefore : s.dtor.hasReleased = false) : s.membersAlive = true := by
  cases hdtor : s.dtor <;> simp [hdtor, SemaphoreDtor.hasReleased, membersAlive] at hbefore ⊢

/-- Before the release every permit stands for a task. -/
theorem Inv.permits_of_before (hinv : s.Inv) (hbefore : s.dtor.hasReleased = false) :
    s.sem + s.pendingReleases + (∑ w, (s.pc w).permit) = s.tasks.length := by
  have halive : ∑ w, (s.pc w).alive = n := by
    have hone : ∀ w, (s.pc w).alive = 1 := by
      intro w
      cases hpc : s.pc w with
      | exited => exact absurd hpc (hinv.ne_exited hbefore w)
      | _ => rfl
    simp [hone]
  have hpermits := hinv.permits
  rw [if_neg (by simp [hbefore]), halive] at hpermits
  omega

/-- Before the release the permit of a worker past its acquire stands for a task that no
other one has in view. -/
theorem Inv.takers_lt_length (hinv : s.Inv) (hbefore : s.dtor.hasReleased = false) {w : Fin n}
    (htaker : (s.pc w).taker = 0) (hpermit : (s.pc w).permit = 1) :
    s.takers < s.tasks.length := by
  have hpermits := hinv.permits_of_before hbefore
  have hlt := takers_lt_permits htaker hpermit
  omega

theorem Inv.not_stuck (hinv : s.Inv) : ¬ s.Stuck := by
  rintro ⟨hreleased, hsem, w, hw⟩
  have hpermits := hinv.permits
  rw [if_pos hreleased, hsem, hinv.pending (not_alive hreleased)] at hpermits
  have htakers := hinv.takers_le
  -- each worker that is alive has one of the permits, so that no task is left and none is
  -- about to be taken
  have hle : ∑ w, (s.pc w).permit ≤ ∑ w, (s.pc w).alive := by
    apply Finset.sum_le_sum
    intro w _
    cases s.pc w <;> simp [SemaphorePc.permit, SemaphorePc.alive]
  have hzero : s.takers = 0 := by omega
  have htaker : (s.pc w).taker = 0 := by
    have hall := Finset.sum_eq_zero_iff.mp hzero
    exact hall w (Finset.mem_univ w)
  obtain ⟨hpermit, halive⟩ := SemaphorePc.permit_add_willAcquire hw
  have hlt : ∑ w, (s.pc w).permit < ∑ w, (s.pc w).alive := by
    apply Finset.sum_lt_sum
    · intro w _
      cases s.pc w <;> simp [SemaphorePc.permit, SemaphorePc.alive]
    · exact ⟨w, Finset.mem_univ w, by omega⟩
  omega

theorem Inv.shutsDown (hinv : s.Inv) : s.ShutsDown := by
  refine ⟨hinv.not_stuck, hinv.defined, ?_, ?_⟩
  · rw [hinv.conserved, add_assoc]
    exact Multiset.le_add_right _ _
  · intro hreleased hrest
    have hexited : ∀ w, s.pc w = .exited := by
      intro w
      rcases hrest w with hexited | ⟨_, hacquiring, hsem⟩
      · exact hexited
      · exact absurd ⟨hreleased, hsem, w, by simp [hacquiring, SemaphorePc.WillAcquire]⟩
          hinv.not_stuck
    have hrunning : ∑ w, (s.pc w).task = 0 := by
      apply Finset.sum_eq_zero
      intro w _
      rw [hexited w]
      rfl
    have hconserved := hinv.conserved
    rw [hrunning, add_zero] at hconserved
    by_cases hnone : s.enqueued = []
    · have hzero : (s.executed : Multiset Task) + s.tasks = 0 := by
        rw [← hconserved, hnone]
        rfl
      rw [hnone, (add_eq_zero.mp hzero).1]
      rfl
    · have hw := hexited ⟨0, hinv.worker hnone⟩
      rw [hconserved, (hinv.exited _ hw).2]
      simp

/-! ## What a step keeps -/

/-- A worker moves and thereby changes permits and queue; the sums follow. -/
theorem Inv.move (hinv : s.Inv) {w : Fin n} (pc : SemaphorePc Task) (sem : ℕ)
    (tasks executed : List Task)
    (hpermits : sem + pc.permit + s.tasks.length + (s.pc w).alive =
      s.sem + (s.pc w).permit + tasks.length + pc.alive)
    (htakers : s.takers + pc.taker ≤ tasks.length + (s.pc w).taker)
    (hconserved : (executed : Multiset Task) + pc.task + tasks =
      s.executed + (s.pc w).task + s.tasks)
    (hempty : s.tasks = [] → tasks = [])
    (hexited : pc = .exited → s.dtor.hasReleased ∧ tasks = []) :
    Inv { s with
      sem := sem
      tasks := tasks
      pc := Function.update s.pc w pc
      executed := executed } := by
  constructor
  · have hbefore : (s.enqueued : Multiset Task) =
        s.executed + s.tasks + ∑ u, (s.pc u).task := by
      rw [hinv.conserved, add_right_comm]
    rw [add_right_comm]
    apply eq_add_sum_update SemaphorePc.task hbefore
    rw [add_assoc, add_right_comm (s.executed : Multiset Task), ← hconserved]
    abel
  · have hpermit := sum_update SemaphorePc.permit s.pc w pc
    have halive := sum_update SemaphorePc.alive s.pc w pc
    have hbefore := hinv.permits
    simp only
    omega
  · have htaker := sum_update SemaphorePc.taker s.pc w pc
    have hsum : s.takers = ∑ u, (s.pc u).taker := rfl
    simp only [takers]
    omega
  · intro u hu
    rcases update_apply_eq_iff.mp hu with ⟨_, hpc⟩ | ⟨_, hold⟩
    · exact hexited hpc
    · obtain ⟨hreleased, hnone⟩ := hinv.exited u hold
      exact ⟨hreleased, hempty hnone⟩
  · exact hinv.pending
  · exact hinv.stopping
  · exact hinv.requesting
  · exact hinv.requested
  · exact hinv.worker
  · exact hinv.defined
  · exact fun hgone => hempty (hinv.destroyed hgone)

/-- A worker moves and leaves the queue as it is. -/
theorem Inv.moveOn (hinv : s.Inv) {w : Fin n} (pc : SemaphorePc Task)
    (hpermits : pc.permit + (s.pc w).alive = (s.pc w).permit + pc.alive)
    (htakers : s.takers + pc.taker ≤ s.tasks.length + (s.pc w).taker)
    (htask : pc.task = (s.pc w).task)
    (hexited : pc = .exited → s.dtor.hasReleased ∧ s.tasks = []) :
    Inv { s with pc := Function.update s.pc w pc } := by
  apply hinv.move pc s.sem s.tasks s.executed
  · omega
  · exact htakers
  · rw [htask]
  · exact id
  · exact hexited

/-- A worker between its permit and the queue has a task left for it, until the permits of
the destructor are out. -/
theorem Inv.takers_lt_of_testing (hinv : s.Inv) {w : Fin n}
    (htesting : s.pc w = .testingStop ∨ s.pc w = .testingEmpty)
    (hbefore : s.dtor.hasReleased = false) : s.takers < s.tasks.length := by
  apply hinv.takers_lt_length hbefore (w := w)
  · rcases htesting with hpc | hpc <;> simp [hpc, SemaphorePc.taker]
  · rcases htesting with hpc | hpc <;> simp [hpc, SemaphorePc.permit]

theorem Inv.moveToTaking (hinv : s.Inv) {w : Fin n}
    (htesting : s.pc w = .testingStop ∨ s.pc w = .testingEmpty)
    (hlt : s.takers < s.tasks.length) : Inv { s with pc := Function.update s.pc w .taking } := by
  apply hinv.moveOn .taking
  · rcases htesting with hpc | hpc <;> simp only [hpc, SemaphorePc.permit, SemaphorePc.alive]
  · rcases htesting with hpc | hpc <;> simpa [hpc, SemaphorePc.taker] using hlt
  · rcases htesting with hpc | hpc <;> rw [hpc] <;> rfl
  · simp

theorem Inv.take (hinv : s.Inv) {w : Fin n} (hpc : s.pc w = .taking)
    (halive : s.membersAlive = true) : (s.stepWorker w).Inv := by
  have htakers := hinv.takers_le
  simp only [stepWorker, hpc]
  rw [if_pos halive]
  cases htasks : s.tasks with
  | nil =>
      -- one task is left for each worker that is about to take one
      have hone : (s.pc w).taker ≤ s.takers :=
        Finset.single_le_sum (f := fun w => (s.pc w).taker) (fun _ _ => Nat.zero_le _)
          (Finset.mem_univ w)
      rw [htasks, List.length_nil] at htakers
      simp only [hpc, SemaphorePc.taker] at hone
      omega
  | cons task tasks =>
      simp only
      apply hinv.move (.running task) s.sem tasks s.executed
      · simp only [hpc, htasks, SemaphorePc.permit, SemaphorePc.alive, List.length_cons]
        omega
      · simp only [hpc, SemaphorePc.taker]
        rw [htasks, List.length_cons] at htakers
        exact htakers
      · rw [hpc, htasks]
        simp only [SemaphorePc.task, ← Multiset.cons_coe, ← Multiset.singleton_add]
        abel
      · intro hnone
        exact absurd (htasks.symm.trans hnone) (List.cons_ne_nil _ _)
      · simp

theorem stepWorker_inv (hinv : s.Inv) {w : Fin n} (hleaves : s.LeavesOneEach (.work w))
    (houtlives : s.OutlivesWork (.work w)) : (s.stepWorker w).Inv := by
  have htakers := hinv.takers_le
  cases hpc : s.pc w with
  | acquiring =>
      simp only [stepWorker, hpc]
      rw [if_pos (houtlives (by rw [hpc]; rfl))]
      by_cases hsem : s.sem = 0
      · rw [if_pos hsem]
        exact hinv
      · rw [if_neg hsem]
        apply hinv.move .testingStop (s.sem - 1) s.tasks s.executed
        · simp only [hpc, SemaphorePc.permit, SemaphorePc.alive]
          omega
        · simpa [hpc, SemaphorePc.taker] using htakers
        · rw [hpc]
          rfl
        · exact id
        · simp
  | testingStop =>
      simp only [stepWorker, hpc]
      by_cases hstop : s.stopRequested w = true
      · rw [if_pos hstop]
        apply hinv.moveOn .testingEmpty
        · simp only [hpc, SemaphorePc.permit, SemaphorePc.alive]
        · simpa [hpc, SemaphorePc.taker] using htakers
        · rw [hpc]
          rfl
        · simp
      · rw [if_neg hstop]
        have hbefore : s.dtor.hasReleased = false :=
          Bool.eq_false_iff.mpr fun hreleased => hstop (hinv.requested hreleased w)
        exact hinv.moveToTaking (.inl hpc) (hinv.takers_lt_of_testing (.inl hpc) hbefore)
  | testingEmpty =>
      simp only [stepWorker, hpc]
      rw [if_pos (houtlives (by rw [hpc]; rfl))]
      by_cases hnone : s.tasks = []
      · have hreleased : s.dtor.hasReleased = true := by
          by_contra hnot
          have hbefore := Bool.eq_false_iff.mpr hnot
          have hlt := hinv.takers_lt_of_testing (.inr hpc) hbefore
          rw [hnone, List.length_nil] at hlt
          exact Nat.not_lt_zero _ hlt
        rw [if_pos (by simp [hnone])]
        apply hinv.moveOn .exited
        · simp only [hpc, SemaphorePc.permit, SemaphorePc.alive]
        · simpa [hpc, SemaphorePc.taker] using htakers
        · rw [hpc]
          rfl
        · exact fun _ => ⟨hreleased, hnone⟩
      · rw [if_neg (by simp [hnone])]
        exact hinv.moveToTaking (.inr hpc) (hleaves hpc hnone)
  | taking => exact hinv.take hpc (houtlives (by rw [hpc]; rfl))
  | running task =>
      simp only [stepWorker, hpc]
      apply hinv.move .acquiring s.sem s.tasks (s.executed ++ [task])
      · simp only [hpc, SemaphorePc.permit, SemaphorePc.alive]
      · simpa [hpc, SemaphorePc.taker] using htakers
      · rw [hpc, ← Multiset.coe_add]
        simp [SemaphorePc.task]
      · exact id
      · simp
  | exited =>
      simp only [stepWorker, hpc]
      exact hinv

theorem step_push_inv (hinv : s.Inv) {task : Task} (hworker : 0 < n) :
    (s.step (.push task)).Inv := by
  simp only [step]
  by_cases hstopping : s.stopping = true
  · rw [if_pos hstopping]
    exact hinv
  · rw [if_neg hstopping]
    have hdtor : s.dtor = .alive := by
      by_contra hdtor
      exact hstopping (hinv.stopping hdtor)
    have hbefore : s.dtor.hasReleased = false := by rw [hdtor]; rfl
    have hpermits := hinv.permits
    have htakers := hinv.takers_le
    constructor
    · simp only [← Multiset.coe_add, hinv.conserved, add_assoc]
    · simp only [List.length_append, List.length_singleton]
      omega
    · rw [List.length_append, List.length_singleton]
      exact htakers.trans (Nat.le_succ _)
    · exact fun w hpc => absurd hpc (hinv.ne_exited hbefore w)
    · exact fun hnot => absurd hdtor hnot
    · exact hinv.stopping
    · exact hinv.requesting
    · exact hinv.requested
    · exact fun _ => hworker
    · exact hinv.defined
    · intro hgone
      have halive := membersAlive_of_before hbefore
      exact Bool.noConfusion (halive.symm.trans hgone)

theorem step_release_inv (hinv : s.Inv) : (s.step .release).Inv := by
  simp only [step]
  by_cases hpending : s.pendingReleases = 0
  · rw [if_pos hpending]
    exact hinv
  · rw [if_neg hpending]
    have hpermits := hinv.permits
    constructor
    · exact hinv.conserved
    · simp only
      omega
    · exact hinv.takers_le
    · exact hinv.exited
    · exact fun hdtor => absurd (hinv.pending hdtor) hpending
    · exact hinv.stopping
    · exact hinv.requesting
    · exact hinv.requested
    · exact hinv.worker
    · exact hinv.defined
    · exact hinv.destroyed

/-- Before the release nobody has exited, so the permits are all that a step of the destructor
can change in the books. -/
theorem Inv.shutDown (hinv : s.Inv) (hbefore : s.dtor.hasReleased = false)
    (hpending : s.pendingReleases = 0) {stopping : Bool} (hstopping : stopping = true)
    {stopRequested : Fin n → Bool} {dtor : SemaphoreDtor} (hdtor : dtor ≠ .joining) {sem : ℕ}
    (hsem : sem + (if dtor.hasReleased then 0 else n) = s.sem + n)
    (hrequesting : ∀ i, dtor = .requesting i → ∀ w : Fin n, w.val < i → stopRequested w = true)
    (hrequested : dtor.hasReleased → ∀ w, stopRequested w = true) :
    Inv { s with
      sem := sem
      stopping := stopping
      stopRequested := stopRequested
      dtor := dtor } := by
  constructor
  · exact hinv.conserved
  · have hpermits := hinv.permits
    rw [if_neg (by simp [hbefore])] at hpermits
    simp only
    omega
  · exact hinv.takers_le
  · exact fun w hpc => absurd hpc (hinv.ne_exited hbefore w)
  · exact fun _ => hpending
  · exact fun _ => hstopping
  · exact hrequesting
  · exact hrequested
  · exact hinv.worker
  · exact hinv.defined
  · intro hgone
    cases dtor <;> first | exact absurd rfl hdtor | exact Bool.noConfusion hgone

/-- The queue that is destroyed is empty, so the books stay as they are. -/
theorem Inv.destroyMembers (hinv : s.Inv) (hreleased : s.dtor = .released) (hnone : s.tasks = []) :
    Inv { s with tasks := [], dtor := .joining } := by
  have hreleased' : s.dtor.hasReleased = true := by rw [hreleased]; rfl
  constructor
  · simpa only [hnone] using hinv.conserved
  · have hpermits := hinv.permits
    rw [if_pos hreleased', hnone] at hpermits
    exact hpermits
  · have htakers := hinv.takers_le
    rw [hnone] at htakers
    exact htakers
  · exact fun w hpc => ⟨rfl, rfl⟩
  · exact fun _ => hinv.pending (not_alive hreleased')
  · exact fun _ => hinv.stopping (not_alive hreleased')
  · exact fun i hi => SemaphoreDtor.noConfusion hi
  · exact fun _ => hinv.requested hreleased'
  · exact hinv.worker
  · exact hinv.defined
  · exact fun _ => rfl

theorem stepDestroy_inv (hinv : s.Inv) (houtlives : s.OutlivesWork .destroy) :
    s.stepDestroy.Inv := by
  cases hdtor : s.dtor with
  | alive =>
      simp only [stepDestroy, hdtor]
      by_cases hpending : s.pendingReleases = 0
      · rw [if_pos hpending]
        apply hinv.shutDown (by rw [hdtor]; rfl) hpending rfl
        · simp
        · simp [SemaphoreDtor.hasReleased]
        · intro i hi w hw
          cases hi
          exact absurd hw (Nat.not_lt_zero _)
        · simp [SemaphoreDtor.hasReleased]
      · rw [if_neg hpending]
        exact hinv
  | requesting i =>
      simp only [stepDestroy, hdtor]
      have hbefore : s.dtor.hasReleased = false := by rw [hdtor]; rfl
      have hstopping := hinv.stopping (by simp [hdtor])
      have hpending := hinv.pending (by simp [hdtor])
      by_cases hi : i < n
      · rw [dif_pos hi]
        apply hinv.shutDown hbefore hpending hstopping
        · simp
        · simp [SemaphoreDtor.hasReleased]
        · intro j hj w hw
          cases hj
          by_cases hsame : w = ⟨i, hi⟩
          · simp [hsame]
          · have hne : w.val ≠ i := fun heq => hsame (Fin.ext heq)
            have hearlier := hinv.requesting i hdtor w (by omega)
            simpa only [Function.update_of_ne hsame] using hearlier
        · simp [SemaphoreDtor.hasReleased]
      · rw [dif_neg hi]
        apply hinv.shutDown hbefore hpending hstopping
        · simp
        · simp [SemaphoreDtor.hasReleased]
        · simp
        · exact fun _ w => hinv.requesting i hdtor w (by omega)
  | released =>
      simp only [stepDestroy, hdtor]
      exact hinv.destroyMembers hdtor (houtlives hdtor)
  | joining =>
      simp only [stepDestroy, hdtor]
      exact hinv

theorem step_inv (hinv : s.Inv) {call : SemaphoreCall n Task} (horder : s.InOrder call) :
    (s.step call).Inv := by
  cases call with
  | push task => exact step_push_inv hinv horder.1
  | release => exact step_release_inv hinv
  | work w => exact stepWorker_inv hinv horder.1 horder.2
  | destroy => exact stepDestroy_inv hinv horder.2

/-- The pool shuts down well in each run whose workers leave one task to each worker that
is on its way to take one, and whose members outlive the work on them. -/
theorem shutsDown_of_inOrder (calls : List (SemaphoreCall n Task))
    (horder : RunOk step InOrder start calls) :
    ∀ first, first <+: calls → (run step start first).ShutsDown := by
  rintro first ⟨later, rfl⟩
  rw [runOk_append] at horder
  have hinv : (run step start first).Inv :=
    run_invariant_of_runOk Inv horder.1 start_inv fun _ _ hinv hok => step_inv hinv hok
  exact hinv.shutsDown

instance [DecidableEq Task] (s : SemaphorePool n Task) (call : SemaphoreCall n Task) :
    Decidable (s.InOrder call) :=
  match call with
  | .push _ => inferInstanceAs (Decidable (0 < n ∧ True))
  | .release => inferInstanceAs (Decidable (True ∧ True))
  | .work w =>
      inferInstanceAs (Decidable
        ((s.pc w = .testingEmpty → s.tasks ≠ [] → s.takers < s.tasks.length) ∧
          ((s.pc w).usesMembers → s.membersAlive)))
  | .destroy => inferInstanceAs (Decidable (True ∧ (s.dtor = .released → s.tasks = [])))

/-- Two workers execute three tasks, one of them after the stop request, and exit; then the
members are destroyed. -/
def twoWorkers : List (SemaphoreCall 2 ℕ) :=
  [.push 7, .release, .push 8, .release, .push 9, .release,
    .work 0, .work 1, .work 0, .work 1, .work 1, .work 0, .work 0, .work 1,
    .destroy, .destroy, .destroy, .destroy,
    .work 1, .work 1, .work 1, .work 1, .work 1,
    .work 0, .work 0, .work 0, .work 1, .work 1, .work 1, .destroy]

theorem shutsDown_twoWorkers :
    (run step start twoWorkers).pc 0 = .exited ∧ (run step start twoWorkers).pc 1 = .exited ∧
      (run step start twoWorkers).dtor = .joining ∧
      (run step start twoWorkers).executed = [8, 7, 9] ∧
      (run step start twoWorkers).ShutsDown :=
  ⟨by decide +kernel, by decide +kernel, by decide +kernel, by decide +kernel,
    shutsDown_of_inOrder twoWorkers (by decide +kernel) _ (List.prefix_refl _)⟩

/-! ## Coming to rest -/

/-- The steps that the workers can make with the permits that there are. -/
def rank (s : SemaphorePool n Task) : ℕ := 5 * s.sem + ∑ w, (s.pc w).steps

theorem rank_move {w : Fin n} {pc : SemaphorePc Task} {sem : ℕ} (tasks executed : List Task)
    (undefined : Bool) (hless : 5 * sem + pc.steps < 5 * s.sem + (s.pc w).steps) :
    rank { s with
      sem := sem
      tasks := tasks
      pc := Function.update s.pc w pc
      undefined := undefined
      executed := executed } < s.rank := by
  have hsum := sum_update SemaphorePc.steps s.pc w pc
  simp only [rank]
  omega

theorem rank_useDestroyed {w : Fin n} (hpc : s.pc w ≠ .exited) :
    (s.useDestroyed w).rank < s.rank := by
  apply rank_move s.tasks s.executed true
  have hpos : 0 < (s.pc w).steps := by
    cases hcase : s.pc w with
    | exited => exact absurd hcase hpc
    | _ => simp [SemaphorePc.steps]
  exact Nat.add_lt_add_left hpos _

theorem rank_stepWorker_lt {w : Fin n} (hbusy : ¬ s.Rests w) : (s.stepWorker w).rank < s.rank := by
  have hnot : s.pc w ≠ .exited := fun hpc => hbusy (.inl hpc)
  cases hpc : s.pc w with
  | acquiring =>
      simp only [stepWorker, hpc]
      by_cases halive : s.membersAlive = true
      · have hsem : s.sem ≠ 0 := fun hsem => hbusy (.inr ⟨halive, hpc, hsem⟩)
        rw [if_pos halive, if_neg hsem]
        apply rank_move s.tasks s.executed
        rw [hpc]
        simp only [SemaphorePc.steps]
        omega
      · rw [if_neg halive]
        exact rank_useDestroyed hnot
  | testingStop =>
      simp only [stepWorker, hpc]
      cases s.stopRequested w <;>
        exact rank_move s.tasks s.executed s.undefined (by simp [hpc, SemaphorePc.steps])
  | testingEmpty =>
      simp only [stepWorker, hpc]
      by_cases halive : s.membersAlive = true
      · rw [if_pos halive]
        cases s.tasks.isEmpty <;>
          exact rank_move s.tasks s.executed s.undefined (by simp [hpc, SemaphorePc.steps])
      · rw [if_neg halive]
        exact rank_useDestroyed hnot
  | taking =>
      simp only [stepWorker, hpc]
      by_cases halive : s.membersAlive = true
      · rw [if_pos halive]
        cases s.tasks with
        | nil => exact rank_move _ s.executed s.undefined (by simp [hpc, SemaphorePc.steps])
        | cons task tasks =>
            exact rank_move tasks s.executed s.undefined (by simp [hpc, SemaphorePc.steps])
      · rw [if_neg halive]
        exact rank_useDestroyed hnot
  | running task =>
      simp only [stepWorker, hpc]
      exact rank_move s.tasks _ s.undefined (by simp [hpc, SemaphorePc.steps])
  | exited => exact absurd hpc hnot

/-- No schedule of the workers alone goes on forever. -/
theorem length_le_rank (s : SemaphorePool n Task) (ws : List (Fin n))
    (hbusy : ∀ earlier w later, ws = earlier ++ w :: later →
      ¬ (run step s (earlier.map .work)).Rests w) : ws.length ≤ s.rank := by
  induction ws generalizing s with
  | nil => exact Nat.zero_le _
  | cons w ws ih =>
      have hless : (s.stepWorker w).rank < s.rank := rank_stepWorker_lt (hbusy [] w ws rfl)
      have hrest : ws.length ≤ (s.stepWorker w).rank := by
        apply ih
        intro earlier u later hsplit
        have hu := hbusy (w :: earlier) u later (by rw [hsplit, List.cons_append])
        rwa [List.map_cons, run_cons] at hu
      rw [List.length_cons]
      exact Nat.succ_le_of_lt (hrest.trans_lt hless)

/-! ## The lost permit and the lost task -/

/-- Both workers find the one task at their first look.  The second one to take it finds
none, and goes back for the permit that the other one would need. -/
def bothLook : List (SemaphoreCall 2 ℕ) :=
  [.push 7, .release, .destroy, .destroy, .destroy, .destroy,
    .work 0, .work 0, .work 1, .work 1, .work 0, .work 1, .work 0, .work 1,
    .work 1, .work 1, .work 1, .work 0]

/-- The worker comes to the semaphore when it is gone, and the task with it. -/
def destroyedAtOnce : List (SemaphoreCall 1 ℕ) :=
  [.push 7, .release, .destroy, .destroy, .destroy, .destroy, .work (Fin.last 0)]

theorem not_shutsDown_bothLook_destroyedAtOnce :
    (run step start bothLook).pc 0 = .acquiring ∧ (run step start bothLook).Stuck ∧
      (run step start destroyedAtOnce).undefined = true ∧
      (run step start destroyedAtOnce).tasks = [] ∧
      (run step start destroyedAtOnce).executed = [] :=
  ⟨by decide +kernel, ⟨by decide +kernel, by decide +kernel, 0, by
    have hpc : (run step start bothLook).pc 0 = .acquiring := by decide +kernel
    rw [hpc]
    trivial⟩, by decide +kernel, by decide +kernel, by decide +kernel⟩

end SemaphorePool

end CppPlay.MultiThread
