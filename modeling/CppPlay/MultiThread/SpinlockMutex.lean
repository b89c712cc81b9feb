import CppPlay.Lib.Run
import CppPlay.Lib.Threads

/-!
# The waiting ticket locks

`spinlock_mutex` and `wait_ticket_mutex` hand out tickets and let a thread wait on
the atomic `out` until its ticket is served.  They differ in the notification of
`unlock` only: `notify_one` wakes any one of the blocked threads, `notify_all` all
of them.  Every step is one atomic access, one block or one notification.
-/

namespace CppPlay.MultiThread

open CppPlay.Lib

/-- Where a thread stands: outside, before the load of `out`, before the comparison
of `wait`, blocked in it, in the critical section, or before the notification. -/
inductive LockPc where
  | idle
  | loading (my : Int32)
  | waiting (my now : Int32)
  | blocked (my now : Int32)
  | holding (my : Int32)
  | notifying
  deriving DecidableEq

namespace LockPc

def isHolding : LockPc → Bool
  | .holding _ => true
  | _ => false

def wake : LockPc → LockPc
  | .blocked my now => .waiting my now
  | pc => pc

theorem wake_eq_waiting_iff {pc : LockPc} {my now : Int32} :
    pc.wake = .waiting my now ↔ pc = .waiting my now ∨ pc = .blocked my now := by
  cases pc <;> simp [wake]

theorem wake_ne_blocked (pc : LockPc) (my now : Int32) : pc.wake ≠ .blocked my now := by
  cases pc <;> simp [wake]

theorem wake_eq_notifying_iff {pc : LockPc} : pc.wake = .notifying ↔ pc = .notifying := by
  cases pc <;> simp [wake]

@[simp] theorem isHolding_wake (pc : LockPc) : pc.wake.isHolding = pc.isHolding := by
  cases pc <;> rfl

end LockPc

/-- The lock with its threads; `waiters` are those that are blocked. -/
structure TicketLock (ι : Type) where
  in_ : Int32
  out : Int32
  pc : ι → LockPc
  waiters : List ι

namespace TicketLock

variable {ι : Type}

def start : TicketLock ι := ⟨0, 0, fun _ => .idle, []⟩

/-- The thread whose turn it is is blocked, no notification is to come, and nobody
holds the lock. -/
def Stuck (s : TicketLock ι) : Prop :=
  (∃ t now, s.pc t = .blocked s.out now) ∧
    ∀ u, s.pc u ≠ .notifying ∧ (s.pc u).isHolding = false

variable [DecidableEq ι]

/-- The next step of a thread.  A notification wakes the threads that `notify` takes
from the blocked ones; the number stands for the choice of the implementation. -/
def step (notify : ℕ → List ι → List ι) (s : TicketLock ι) (input : ι × ℕ) : TicketLock ι :=
  let t := input.1
  match s.pc t with
  | .idle => { s with in_ := s.in_ + 1, pc := Function.update s.pc t (.loading s.in_) }
  | .loading my =>
      if s.out = my then { s with pc := Function.update s.pc t (.holding my) }
      else { s with pc := Function.update s.pc t (.waiting my s.out) }
  | .waiting my now =>
      if s.out = now then
        { s with
          pc := Function.update s.pc t (.blocked my now)
          waiters := s.waiters ++ [t] }
      else { s with pc := Function.update s.pc t (.loading my) }
  | .blocked _ _ => s
  | .holding _ => { s with out := s.out + 1, pc := Function.update s.pc t .notifying }
  | .notifying =>
      let woken := notify input.2 s.waiters
      { s with
        pc := Function.update (fun u => if u ∈ woken then (s.pc u).wake else s.pc u) t .idle
        waiters := s.waiters.filter fun u => u ∉ woken }

/-- The last notification to come is made while nobody holds the lock, and it passes
over a blocked thread whose turn it is. -/
def LosesWakeUp (notify : ℕ → List ι → List ι) (s : TicketLock ι) (input : ι × ℕ) : Prop :=
  s.pc input.1 = .notifying ∧
    (∀ u, u ≠ input.1 → s.pc u ≠ .notifying) ∧
    (∀ u, (s.pc u).isHolding = false) ∧
    ∃ t now, s.pc t = .blocked s.out now ∧ t ∉ notify input.2 s.waiters

/-! ## Who is blocked -/

/-- A thread waits only for a value that is not its ticket to change, and the blocked
threads are the waiters. -/
structure Inv (s : TicketLock ι) : Prop where
  waiting_ne : ∀ t my now, s.pc t = .waiting my now → my ≠ now
  blocked_ne : ∀ t my now, s.pc t = .blocked my now → my ≠ now
  mem_waiters : ∀ t, t ∈ s.waiters ↔ ∃ my now, s.pc t = .blocked my now

variable {s : TicketLock ι} {notify : ℕ → List ι → List ι}

omit [DecidableEq ι] in
theorem start_inv : (start : TicketLock ι).Inv := by
  constructor
  · intro t my now hpc
    exact absurd hpc (by simp [start])
  · intro t my now hpc
    exact absurd hpc (by simp [start])
  · intro t
    simp [start]

theorem Inv.move (hinv : s.Inv) {t : ι} {pc : LockPc} (in_ out : Int32)
    (hold : ∀ my now, s.pc t ≠ .blocked my now) (hnew : ∀ my now, pc ≠ .blocked my now)
    (hwaiting : ∀ my now, pc = .waiting my now → my ≠ now) :
    Inv { s with in_ := in_, out := out, pc := Function.update s.pc t pc } := by
  constructor
  · intro u my now hu
    rcases update_apply_eq_iff.mp hu with ⟨_, hpc⟩ | ⟨_, hpc⟩
    · exact hwaiting my now hpc
    · exact hinv.waiting_ne u my now hpc
  · intro u my now hu
    rcases update_apply_eq_iff.mp hu with ⟨_, hpc⟩ | ⟨_, hpc⟩
    · exact absurd hpc (hnew my now)
    · exact hinv.blocked_ne u my now hpc
  · intro u
    simp only [hinv.mem_waiters u, update_apply_eq_iff]
    by_cases hsame : u = t
    · simp [hsame, hold, hnew]
    · simp [hsame]

theorem Inv.block (hinv : s.Inv) {t : ι} {my now : Int32} (hpc : s.pc t = .waiting my now) :
    Inv { s with
      pc := Function.update s.pc t (.blocked my now)
      waiters := s.waiters ++ [t] } := by
  constructor
  · intro u my' now' hu
    rcases update_apply_eq_iff.mp hu with ⟨_, hblocked⟩ | ⟨_, hold⟩
    · exact absurd hblocked (by simp)
    · exact hinv.waiting_ne u my' now' hold
  · intro u my' now' hu
    rcases update_apply_eq_iff.mp hu with ⟨_, hblocked⟩ | ⟨_, hold⟩
    · rw [LockPc.blocked.injEq] at hblocked
      rw [← hblocked.1, ← hblocked.2]
      exact hinv.waiting_ne t my now hpc
    · exact hinv.blocked_ne u my' now' hold
  · intro u
    simp only [List.mem_append, List.mem_singleton, hinv.mem_waiters u, update_apply_eq_iff]
    by_cases hsame : u = t
    · simp [hsame]
    · simp [hsame]

/-- The state behind a notification of `t` that wakes these threads. -/
def notified (s : TicketLock ι) (t : ι) (woken : List ι) : TicketLock ι :=
  { s with
    pc := Function.update (fun u => if u ∈ woken then (s.pc u).wake else s.pc u) t .idle
    waiters := s.waiters.filter fun u => u ∉ woken }

theorem notified_eq_blocked_iff {t u : ι} {woken : List ι} {my now : Int32} :
    (s.notified t woken).pc u = .blocked my now ↔
      u ≠ t ∧ u ∉ woken ∧ s.pc u = .blocked my now := by
  rw [notified, update_apply_eq_iff]
  by_cases hwoken : u ∈ woken
  · simp [hwoken, LockPc.wake_ne_blocked]
  · simp [hwoken]

theorem notified_eq_notifying_iff {t u : ι} {woken : List ι} :
    (s.notified t woken).pc u = .notifying ↔ u ≠ t ∧ s.pc u = .notifying := by
  rw [notified, update_apply_eq_iff]
  by_cases hwoken : u ∈ woken
  · simp [hwoken, LockPc.wake_eq_notifying_iff]
  · simp [hwoken]

theorem isHolding_notified {t : ι} (hpc : s.pc t = .notifying) (woken : List ι) (u : ι) :
    ((s.notified t woken).pc u).isHolding = (s.pc u).isHolding := by
  by_cases hsame : u = t
  · rw [hsame, hpc]
    simp [notified, LockPc.isHolding]
  · by_cases hwoken : u ∈ woken <;> simp [notified, Function.update_of_ne hsame, hwoken]

theorem Inv.notified (hinv : s.Inv) {t : ι} (hpc : s.pc t = .notifying) (woken : List ι) :
    (s.notified t woken).Inv := by
  constructor
  · intro u my now hu
    simp only [TicketLock.notified, update_apply_eq_iff] at hu
    rcases hu with ⟨_, hidle⟩ | ⟨_, hold⟩
    · exact absurd hidle (by simp)
    · by_cases hwoken : u ∈ woken
      · rw [if_pos hwoken, LockPc.wake_eq_waiting_iff] at hold
        rcases hold with hwaiting | hblocked
        · exact hinv.waiting_ne u my now hwaiting
        · exact hinv.blocked_ne u my now hblocked
      · rw [if_neg hwoken] at hold
        exact hinv.waiting_ne u my now hold
  · intro u my now hu
    exact hinv.blocked_ne u my now (notified_eq_blocked_iff.mp hu).2.2
  · intro u
    simp only [notified_eq_blocked_iff]
    have hmem := hinv.mem_waiters u
    by_cases hsame : u = t
    · simp [hsame] at hmem
      simp [TicketLock.notified, hsame, hmem, hpc]
    · simp [TicketLock.notified, hmem, hsame, and_comm]

theorem step_inv (hinv : s.Inv) (input : ι × ℕ) : (s.step notify input).Inv := by
  rcases input with ⟨t, choice⟩
  cases hpc : s.pc t with
  | idle =>
      simp only [step, hpc]
      exact hinv.move _ _ (by simp [hpc]) (by simp) (by simp)
  | loading my =>
      simp only [step, hpc]
      by_cases hturn : s.out = my
      · rw [if_pos hturn]
        exact hinv.move _ _ (by simp [hpc]) (by simp) (by simp)
      · rw [if_neg hturn]
        apply hinv.move _ _ (by simp [hpc]) (by simp)
        rintro my' now heq rfl
        rw [LockPc.waiting.injEq] at heq
        exact hturn (heq.2.trans heq.1.symm)
  | waiting my now =>
      simp only [step, hpc]
      by_cases hsame : s.out = now
      · rw [if_pos hsame]
        exact hinv.block hpc
      · rw [if_neg hsame]
        exact hinv.move _ _ (by simp [hpc]) (by simp) (by simp)
  | blocked my now =>
      simp only [step, hpc]
      exact hinv
  | holding my =>
      simp only [step, hpc]
      exact hinv.move _ _ (by simp [hpc]) (by simp) (by simp)
  | notifying =>
      simp only [step, hpc]
      exact hinv.notified hpc _

/-! ## Lost notifications -/

/-- A step that is no notification and after which the thread whose turn it is waits
in vain: it did so before. -/
theorem stuck_of_move {t : ι} {pc : LockPc} {in_ : Int32} {waiters : List ι}
    (hold : s.pc t ≠ .notifying ∧ (s.pc t).isHolding = false)
    (hnew : ∀ now, pc ≠ .blocked s.out now)
    (hstuck : Stuck { s with in_ := in_, pc := Function.update s.pc t pc, waiters := waiters }) :
    s.Stuck := by
  obtain ⟨⟨w, now, hw⟩, hothers⟩ := hstuck
  constructor
  · rcases update_apply_eq_iff.mp hw with ⟨_, hblocked⟩ | ⟨_, hblocked⟩
    · exact absurd hblocked (hnew now)
    · exact ⟨w, now, hblocked⟩
  · intro u
    by_cases hsame : u = t
    · rw [hsame]
      exact hold
    · have hu := hothers u
      simpa only [Function.update_of_ne hsame] using hu

theorem stuck_notified_iff {t : ι} (hpc : s.pc t = .notifying) (choice : ℕ) :
    (s.step notify (t, choice)).Stuck ↔ s.LosesWakeUp notify (t, choice) := by
  have hstep : s.step notify (t, choice) = s.notified t (notify choice s.waiters) := by
    simp only [step, hpc, notified]
  rw [hstep]
  constructor
  · rintro ⟨⟨w, now, hw⟩, hothers⟩
    obtain ⟨_, hnot, hblocked⟩ := notified_eq_blocked_iff.mp hw
    refine ⟨hpc, ?_, ?_, w, now, hblocked, hnot⟩
    · intro u hne hnotifying
      exact (hothers u).1 (notified_eq_notifying_iff.mpr ⟨hne, hnotifying⟩)
    · intro u
      rw [← isHolding_notified hpc (notify choice s.waiters) u]
      exact (hothers u).2
  · rintro ⟨_, hlast, hfree, w, now, hblocked, hnot⟩
    constructor
    · refine ⟨w, now, notified_eq_blocked_iff.mpr ⟨?_, hnot, hblocked⟩⟩
      rintro rfl
      simp [hpc] at hblocked
    · intro u
      constructor
      · intro hnotifying
        obtain ⟨hne, hold⟩ := notified_eq_notifying_iff.mp hnotifying
        exact hlast u hne hold
      · rw [isHolding_notified hpc]
        exact hfree u

theorem not_stuck_step (hinv : s.Inv) (hnot : ¬ s.Stuck) {input : ι × ℕ}
    (hkeeps : ¬ s.LosesWakeUp notify input) : ¬ (s.step notify input).Stuck := by
  rcases input with ⟨t, choice⟩
  cases hpc : s.pc t with
  | idle =>
      simp only [step, hpc]
      exact fun hstuck => hnot (stuck_of_move (by simp [hpc, LockPc.isHolding]) (by simp) hstuck)
  | loading my =>
      simp only [step, hpc]
      by_cases hturn : s.out = my
      · rw [if_pos hturn]
        intro hstuck
        have hholds := (hstuck.2 t).2
        simp [LockPc.isHolding] at hholds
      · rw [if_neg hturn]
        exact fun hstuck =>
          hnot (stuck_of_move (by simp [hpc, LockPc.isHolding]) (by simp) hstuck)
  | waiting my now =>
      have hne := hinv.waiting_ne t my now hpc
      simp only [step, hpc]
      by_cases hsame : s.out = now
      · rw [if_pos hsame]
        refine fun hstuck => hnot (stuck_of_move (by simp [hpc, LockPc.isHolding]) ?_ hstuck)
        -- the ticket of a thread that blocks is not the one that is served
        intro now' heq
        rw [LockPc.blocked.injEq] at heq
        exact hne (heq.1.trans hsame)
      · rw [if_neg hsame]
        exact fun hstuck =>
          hnot (stuck_of_move (by simp [hpc, LockPc.isHolding]) (by simp) hstuck)
  | blocked my now =>
      simp only [step, hpc]
      exact hnot
  | holding my =>
      simp only [step, hpc]
      intro hstuck
      have hnotifies := (hstuck.2 t).1
      simp at hnotifies
  | notifying => exact fun hstuck => hkeeps ((stuck_notified_iff hpc choice).mp hstuck)

/-- No run of the lock comes into a state in which the thread whose turn it is waits
in vain, unless a notification of the run passes it over. -/
theorem unstuck_iff (notify : ℕ → List ι → List ι) (inputs : List (ι × ℕ)) :
    (∀ first, first <+: inputs → ¬ (run (step notify) start first).Stuck) ↔
      ∀ earlier input later, inputs = earlier ++ input :: later →
        ¬ (run (step notify) start earlier).LosesWakeUp notify input := by
  apply always_iff_of_steps (step notify) start (fun s => s.Inv ∧ ¬ s.Stuck)
    (fun s => ¬ s.Stuck) (fun s input => ¬ s.LosesWakeUp notify input)
  · refine ⟨start_inv, ?_⟩
    rintro ⟨⟨t, now, hpc⟩, _⟩
    simp [start] at hpc
  · exact fun s hs => hs.2
  · exact fun s input hs hkeeps => ⟨step_inv hs.1 input, not_stuck_step hs.1 hs.2 hkeeps⟩
  · intro s input hs hloses hnot
    rw [not_not] at hloses
    exact hnot ((stuck_notified_iff hloses.1 input.2).mpr hloses)

end TicketLock

/-! ## The two locks -/

namespace SpinlockMutex

open TicketLock

variable {ι : Type} [DecidableEq ι]

/-- `notify_one` wakes one blocked thread, whichever the choice says. -/
def notifyOne (choice : ℕ) (waiters : List ι) : List ι :=
  (waiters[choice % waiters.length]?).toList

def step (s : TicketLock ι) (input : ι × ℕ) : TicketLock ι := TicketLock.step notifyOne s input

/-- No state of a run is stuck exactly when each `notify_one` that is the last one to
come, made while nobody holds the lock, wakes the blocked thread whose turn it is. -/
theorem never_stuck_iff (inputs : List (ι × ℕ)) :
    (∀ first, first <+: inputs → ¬ (run step start first).Stuck) ↔
      ∀ earlier input later, inputs = earlier ++ input :: later →
        ¬ (run step start earlier).LosesWakeUp notifyOne input :=
  TicketLock.unstuck_iff notifyOne inputs

/-- Threads 1 and 2 wait behind thread 0; its unlock wakes thread 2, which blocks
again. -/
def wakesTheWrongOne : List (Fin 3 × ℕ) :=
  [(0, 0), (0, 0), (1, 0), (1, 0), (1, 0), (2, 0), (2, 0), (2, 0), (0, 0), (0, 1), (2, 0),
    (2, 0), (2, 0)]

theorem stuck_wakesTheWrongOne : (run step start wakesTheWrongOne).Stuck := by
  refine ⟨⟨1, 0, ?_⟩, ?_⟩
  · decide +kernel
  · decide +kernel

end SpinlockMutex

namespace WaitTicketMutex

open TicketLock

variable {ι : Type} [DecidableEq ι]

def notifyAll (_ : ℕ) (waiters : List ι) : List ι := waiters

def step (s : TicketLock ι) (input : ι × ℕ) : TicketLock ι := TicketLock.step notifyAll s input

/-- Where `unlock` notifies all, no state of any run is stuck. -/
theorem never_stuck (inputs : List (ι × ℕ)) : ¬ (run step start inputs).Stuck := by
  have hinv : ∀ inputs : List (ι × ℕ), (run step start inputs).Inv :=
    run_invariant TicketLock.Inv start_inv fun s input hinv => step_inv hinv input
  refine (TicketLock.unstuck_iff notifyAll inputs).mpr ?_ inputs (List.prefix_refl _)
  rintro earlier input later _ ⟨_, _, _, t, now, hblocked, hnot⟩
  exact hnot (((hinv earlier).mem_waiters t).mpr ⟨_, now, hblocked⟩)

end WaitTicketMutex

end CppPlay.MultiThread
