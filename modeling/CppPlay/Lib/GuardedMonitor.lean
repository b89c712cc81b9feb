import CppPlay.Lib.Run
import CppPlay.Lib.Threads

/-!
# Monitors with condition variables

Threads make calls on a state behind a mutex.  A call waits on its condition until its guard
holds, takes its effect, and may then notify one or all of the threads that wait on some
condition, before or after it unlocks.  The state is that of the calls one after another, each
let in by its guard; no thread sleeps over a guard that holds unless a notification is on its
way; and every run comes to a state in which all threads are done or asleep.
-/

namespace CppPlay.Lib

/-- The calls of a monitor.  `notifies` is the condition and whether all that wait on it are
notified; `holding` says that this happens before the mutex is unlocked. -/
structure GuardedMonitor (σ γ κ : Type*) where
  guard : γ → σ → Bool
  effect : γ → σ → σ
  cond : γ → κ
  notifies : γ → Option (κ × Bool)
  holding : γ → Bool

/-- Where a thread stands.  A thread that comes out of `wait` is `woken` until it has the mutex
again; `notified` says that a notification let it go on. -/
inductive MonitorPc (γ κ : Type*) where
  | idle
  | locking (call : γ)
  | testing (call : γ) (notified : Bool)
  | waiting (call : γ)
  | woken (call : γ) (notified : Bool)
  | acting (call : γ) (notified : Bool)
  | notifying (notice : κ × Bool) (holding : Bool)
  | unlocking (notice : Option (κ × Bool))
  deriving DecidableEq

/-- A thread takes a step, or notifies this one of those that wait, or wakes up by itself. -/
inductive MonitorEvent (ι : Type*) where
  | run (t : ι)
  | notify (t waiter : ι)
  | wakeUp (t : ι)

def MonitorEvent.deliberate {ι : Type*} : MonitorEvent ι → Bool
  | .run _ | .notify _ _ => true
  | .wakeUp _ => false

/-- `served` are the calls in the order in which they took effect. -/
structure MonitorState (ι σ γ κ : Type*) where
  shared : σ
  mutex : Option ι
  pc : ι → MonitorPc γ κ
  program : ι → List γ
  served : List (ι × γ)

namespace MonitorPc

variable {γ κ : Type*}

def wake (notified : Bool) : MonitorPc γ κ → MonitorPc γ κ
  | .waiting call => .woken call notified
  | pc => pc

end MonitorPc

namespace GuardedMonitor

variable {ι σ γ κ : Type*} (m : GuardedMonitor σ γ κ)

def start (shared : σ) (program : ι → List γ) : MonitorState ι σ γ κ :=
  ⟨shared, none, fun _ => .idle, program, []⟩

/-- Where a thread goes on behind the effect of its call. -/
def behind (call : γ) : MonitorPc γ κ :=
  match m.notifies call with
  | none => .unlocking none
  | some notice => if m.holding call then .notifying notice true else .unlocking (some notice)

/-- Where a thread goes on when it has notified. -/
def notified : Bool → MonitorPc γ κ
  | true => .unlocking none
  | false => .idle

section Serial

/-- The calls one after another, as long as the guards let them in. -/
def serve (shared : σ) (calls : List γ) : Option σ :=
  calls.foldlM (fun shared call => if m.guard call shared then some (m.effect call shared)
    else none) shared

/-- The call of a thread that has not taken effect yet. -/
def pendingCall : MonitorPc γ κ → List γ
  | .locking call | .testing call _ | .waiting call | .woken call _ | .acting call _ => [call]
  | .idle | .notifying _ _ | .unlocking _ => []

/-- From the test to the unlock, and only there, a thread has the mutex, and the guard stays as
it was. -/
def Holds (shared : σ) (mutex : Option ι) (t : ι) : MonitorPc γ κ → Prop
  | .testing _ _ | .notifying _ true | .unlocking _ => mutex = some t
  | .acting call _ => mutex = some t ∧ m.guard call shared = true
  | .idle | .locking _ | .waiting _ | .woken _ _ | .notifying _ false => mutex ≠ some t

variable {m}

theorem Holds.of_not_owner {shared shared' : σ} {mutex mutex' : Option ι} {t : ι}
    {pc : MonitorPc γ κ} (hholds : m.Holds shared mutex t pc) (hother : mutex ≠ some t)
    (hother' : mutex' ≠ some t) : m.Holds shared' mutex' t pc := by
  cases pc with
  | testing call notified => exact absurd hholds hother
  | unlocking notice => exact absurd hholds hother
  | acting call notified => exact absurd hholds.1 hother
  | notifying notice holding =>
      cases holding with
      | true => exact absurd hholds hother
      | false => exact hother'
  | idle | locking | waiting | woken => exact hother'

theorem serve_append {shared : σ} {calls : List γ} {last : σ} {call : γ}
    (hserve : m.serve shared calls = some last) (hguard : m.guard call last = true) :
    m.serve shared (calls ++ [call]) = some (m.effect call last) := by
  rw [serve] at hserve ⊢
  rw [List.foldlM_append, hserve]
  simp [hguard]

theorem serve_concat {shared last : σ} {calls : List γ} {call : γ}
    (hserve : m.serve shared (calls ++ [call]) = some last) :
    ∃ before, m.serve shared calls = some before ∧ m.guard call before = true ∧
      last = m.effect call before := by
  rw [serve, List.foldlM_append] at hserve
  obtain ⟨before, hbefore, hlast⟩ := Option.bind_eq_some_iff.mp hserve
  have hguard : m.guard call before = true ∧ m.effect call before = last := by simpa using hlast
  exact ⟨before, hbefore, hguard.1, hguard.2.symm⟩

/-- Each call finds its guard true in the state behind the calls before it. -/
theorem serve_guard {shared last : σ} {before after : List γ} {call : γ}
    (hserve : m.serve shared (before ++ call :: after) = some last) :
    ∃ mid, m.serve shared before = some mid ∧ m.guard call mid = true := by
  induction after using List.reverseRecOn generalizing last with
  | nil =>
      obtain ⟨mid, hmid, hguard, -⟩ := serve_concat hserve
      exact ⟨mid, hmid, hguard⟩
  | append_singleton after final ih =>
      rw [← List.cons_append, ← List.append_assoc] at hserve
      obtain ⟨mid, hmid, -, -⟩ := serve_concat hserve
      exact ih hmid

/-- What the calls establish one after another. -/
theorem serve_induction {shared : σ} (P : List γ → σ → Prop) (hstart : P [] shared)
    (hstep : ∀ calls before call, P calls before → m.guard call before = true →
      P (calls ++ [call]) (m.effect call before))
    {calls : List γ} {last : σ} (hserve : m.serve shared calls = some last) : P calls last := by
  induction calls using List.reverseRecOn generalizing last with
  | nil =>
      have hsame : shared = last := by simpa [serve] using hserve
      exact hsame ▸ hstart
  | append_singleton calls call ih =>
      obtain ⟨before, hbefore, hguard, hlast⟩ := serve_concat hserve
      rw [hlast]
      exact hstep calls before call (ih hbefore) hguard

theorem pendingCall_wake (notified : Bool) (pc : MonitorPc γ κ) :
    pendingCall (pc.wake notified) = pendingCall pc := by
  cases pc <;> rfl

theorem pendingCall_behind (call : γ) : pendingCall (m.behind call) = [] := by
  rw [behind]
  cases m.notifies call with
  | none => rfl
  | some notice => cases m.holding call <;> rfl

theorem pendingCall_notified (holding : Bool) :
    pendingCall (notified holding : MonitorPc γ κ) = [] := by
  cases holding <;> rfl

theorem behind_ne_waiting (call other : γ) : m.behind call ≠ .waiting other := by
  rw [behind]
  cases m.notifies call with
  | none => simp
  | some notice => cases m.holding call <;> simp

theorem notified_ne_waiting (holding : Bool) (call : γ) :
    (notified holding : MonitorPc γ κ) ≠ .waiting call := by
  cases holding <;> simp [notified]

theorem wake_ne_waiting (flag : Bool) (pc : MonitorPc γ κ) (call : γ) :
    pc.wake flag ≠ .waiting call := by
  cases pc <;> simp [MonitorPc.wake]

/-- How many steps a thread has before it, if `n` threads may have to be woken. -/
def weight (n : ℕ) : MonitorPc γ κ → ℕ
  | .idle => 0
  | .unlocking none => 1
  | .notifying _ _ => 2 * n + 2
  | .unlocking (some _) => 2 * n + 3
  | .acting _ _ => 2 * n + 4
  | .waiting _ => 2 * n + 5
  | .testing _ _ => 2 * n + 6
  | .locking _ | .woken _ _ => 2 * n + 7

theorem weight_behind_lt (n : ℕ) (call : γ) : weight n (m.behind call) < 2 * n + 4 := by
  rw [behind]
  cases m.notifies call with
  | none => simp [weight]
  | some notice => cases m.holding call <;> simp [weight]

theorem weight_notified_le (n : ℕ) (holding : Bool) :
    weight n (notified holding : MonitorPc γ κ) ≤ 1 := by
  cases holding <;> simp [notified, weight]

theorem weight_wake_le (n : ℕ) (pc : MonitorPc γ κ) : weight n (pc.wake true) ≤ weight n pc + 2 := by
  cases pc <;> simp [MonitorPc.wake, weight]

theorem holds_behind {shared : σ} {mutex : Option ι} {t : ι} (call : γ) (hmutex : mutex = some t) :
    m.Holds shared mutex t (m.behind call) := by
  rw [behind]
  cases m.notifies call with
  | none => exact hmutex
  | some notice =>
      cases hholding : m.holding call
      · exact hmutex
      · exact hmutex

variable [DecidableEq ι]

variable (m) in
/-- What holds of every run: who is inside, and what has been served. -/
structure Served (shared : σ) (program : ι → List γ)
    (s : MonitorState ι σ γ κ) : Prop where
  holds : ∀ t, m.Holds s.shared s.mutex t (s.pc t)
  serial : m.serve shared (s.served.map Prod.snd) = some s.shared
  order : ∀ t, (s.served.filter (·.1 = t)).map Prod.snd ++ pendingCall (s.pc t) ++ s.program t =
    program t

variable {shared : σ} {program : ι → List γ} {s : MonitorState ι σ γ κ}

theorem Served.start (shared : σ) (program : ι → List γ) :
    m.Served shared program (start shared program) :=
  ⟨fun _ => Option.some_ne_none _ |>.symm, rfl, fun _ => rfl⟩

/-- Whoever moves under the mutex is alone with it. -/
theorem Served.alone (hserved : m.Served shared program s) {t : ι} (hmutex : s.mutex = some t)
    {shared' : σ} {mutex' : Option ι} (hmutex' : ∀ u, u ≠ t → mutex' ≠ some u) (u : ι)
    (hu : u ≠ t) : m.Holds shared' mutex' u (s.pc u) := by
  refine (hserved.holds u).of_not_owner (fun howner => hu ?_) (hmutex' u hu)
  exact Option.some.inj (howner.symm.trans hmutex)

end Serial

variable [DecidableEq κ]

def waits (k : κ) : MonitorPc γ κ → Bool
  | .waiting call => m.cond call = k
  | _ => false

variable [DecidableEq ι]

def runStep (s : MonitorState ι σ γ κ) (t : ι) : MonitorState ι σ γ κ :=
  match s.pc t with
  | .idle =>
      match s.program t with
      | [] => s
      | call :: rest =>
          { s with
            program := Function.update s.program t rest
            pc := Function.update s.pc t (.locking call) }
  | .locking call =>
      if s.mutex.isNone then
        { s with mutex := some t, pc := Function.update s.pc t (.testing call false) }
      else s
  | .woken call notified =>
      if s.mutex.isNone then
        { s with mutex := some t, pc := Function.update s.pc t (.testing call notified) }
      else s
  | .testing call notified =>
      if m.guard call s.shared then
        { s with pc := Function.update s.pc t (.acting call notified) }
      else { s with mutex := none, pc := Function.update s.pc t (.waiting call) }
  | .waiting _ => s
  | .acting call _ =>
      { s with
        shared := m.effect call s.shared
        served := s.served ++ [(t, call)]
        pc := Function.update s.pc t (m.behind call) }
  | .notifying (k, true) holding =>
      { s with
        pc := Function.update (fun u => if m.waits k (s.pc u) then (s.pc u).wake true else s.pc u) t
          (notified holding) }
  | .notifying (_, false) _ => s
  | .unlocking none => { s with mutex := none, pc := Function.update s.pc t .idle }
  | .unlocking (some notice) =>
      { s with mutex := none, pc := Function.update s.pc t (.notifying notice false) }

section Step

variable [Fintype ι]

/-- `notify_one` wakes any one of the threads that wait, or nobody if none does. -/
def notifyStep (s : MonitorState ι σ γ κ) (t waiter : ι) : MonitorState ι σ γ κ :=
  match s.pc t with
  | .notifying (k, false) holding =>
      if m.waits k (s.pc waiter) then
        { s with
          pc := Function.update (Function.update s.pc waiter ((s.pc waiter).wake true)) t
            (notified holding) }
      else if ∀ u, m.waits k (s.pc u) = false then
        { s with pc := Function.update s.pc t (notified holding) }
      else s
  | _ => s

def step (s : MonitorState ι σ γ κ) : MonitorEvent ι → MonitorState ι σ γ κ
  | .run t => m.runStep s t
  | .notify t waiter => m.notifyStep s t waiter
  | .wakeUp t => { s with pc := Function.update s.pc t ((s.pc t).wake false) }

end Step

/-! ## The moves -/

/-- What a step does, if it does anything; the flag is off where a thread wakes up by itself. -/
inductive Move (s : MonitorState ι σ γ κ) : Bool → MonitorState ι σ γ κ → Prop where
  | call (t : ι) (call : γ) (rest : List γ) (hpc : s.pc t = .idle)
      (hprogram : s.program t = call :: rest) :
      Move s true { s with
        program := Function.update s.program t rest
        pc := Function.update s.pc t (.locking call) }
  | lock (t : ι) (call : γ) (notified : Bool)
      (hpc : s.pc t = .locking call ∧ notified = false ∨ s.pc t = .woken call notified)
      (hfree : s.mutex = none) :
      Move s true { s with mutex := some t, pc := Function.update s.pc t (.testing call notified) }
  | pass (t : ι) (call : γ) (notified : Bool) (hpc : s.pc t = .testing call notified)
      (hguard : m.guard call s.shared = true) :
      Move s true { s with pc := Function.update s.pc t (.acting call notified) }
  | sleep (t : ι) (call : γ) (notified : Bool) (hpc : s.pc t = .testing call notified)
      (hguard : m.guard call s.shared = false) :
      Move s true { s with mutex := none, pc := Function.update s.pc t (.waiting call) }
  | act (t : ι) (call : γ) (notified : Bool) (hpc : s.pc t = .acting call notified) :
      Move s true { s with
        shared := m.effect call s.shared
        served := s.served ++ [(t, call)]
        pc := Function.update s.pc t (m.behind call) }
  | notify (t : ι) (k : κ) (all holding : Bool) (chosen : ι → Bool)
      (hpc : s.pc t = .notifying (k, all) holding)
      (hwaits : ∀ u, chosen u = true → m.waits k (s.pc u) = true)
      (hall : all = true → ∀ u, m.waits k (s.pc u) = true → chosen u = true)
      (hone : (∀ u, chosen u = false) → ∀ u, m.waits k (s.pc u) = false) :
      Move s true { s with
        pc := Function.update (fun u => if chosen u then (s.pc u).wake true else s.pc u) t
          (notified holding) }
  | unlock (t : ι) (notice : Option (κ × Bool)) (hpc : s.pc t = .unlocking notice) :
      Move s true { s with
        mutex := none
        pc := Function.update s.pc t (notice.elim .idle (.notifying · false)) }
  | wakeUp (t : ι) (call : γ) (hpc : s.pc t = .waiting call) :
      Move s false { s with pc := Function.update s.pc t (.woken call false) }

variable {m} {s s' : MonitorState ι σ γ κ} {chooses : Bool}

theorem step_cases [Fintype ι] (s : MonitorState ι σ γ κ) (event : MonitorEvent ι) :
    m.step s event = s ∨ m.Move s event.deliberate (m.step s event) := by
  cases event with
  | run t =>
      simp only [step, runStep]
      cases hpc : s.pc t with
      | idle =>
          cases hprogram : s.program t with
          | nil => exact .inl rfl
          | cons call rest => exact .inr (.call t call rest hpc hprogram)
      | locking call =>
          dsimp only
          split_ifs with hfree
          · exact .inr (.lock t call false (.inl ⟨hpc, rfl⟩) (Option.isNone_iff_eq_none.mp hfree))
          · exact .inl rfl
      | woken call notified =>
          dsimp only
          split_ifs with hfree
          · exact .inr (.lock t call notified (.inr hpc) (Option.isNone_iff_eq_none.mp hfree))
          · exact .inl rfl
      | testing call notified =>
          dsimp only
          split_ifs with hguard
          · exact .inr (.pass t call notified hpc hguard)
          · exact .inr (.sleep t call notified hpc (Bool.eq_false_iff.mpr hguard))
      | waiting call => exact .inl rfl
      | acting call notified => exact .inr (.act t call notified hpc)
      | notifying notice holding =>
          obtain ⟨k, all⟩ := notice
          cases all with
          | true =>
              exact .inr (.notify t k true holding (fun u => m.waits k (s.pc u)) hpc
                (fun u hu => hu) (fun _ u hu => hu) fun hnone => hnone)
          | false => exact .inl rfl
      | unlocking notice =>
          cases notice with
          | none => exact .inr (.unlock t none hpc)
          | some notice => exact .inr (.unlock t (some notice) hpc)
  | notify t waiter =>
      simp only [step, notifyStep]
      split
      · rename_i k holding hpc
        split_ifs with hwaiter hnobody
        · right
          have hpcs : (fun u => if decide (u = waiter) = true then (s.pc u).wake true
              else s.pc u) = Function.update s.pc waiter ((s.pc waiter).wake true) := by
            funext u
            by_cases hu : u = waiter <;> simp [hu]
          rw [← hpcs]
          refine .notify t k false holding (fun u => decide (u = waiter)) hpc ?_ (by simp) ?_
          · intro u hu
            rw [of_decide_eq_true hu]
            exact hwaiter
          · intro hnone
            simpa using hnone waiter
        · right
          have hpcs : (fun u => if (fun _ : ι => false) u = true then (s.pc u).wake true
              else s.pc u) = s.pc := by
            funext u
            simp
          have hmove := Move.notify (m := m) t k false holding (fun _ => false) hpc (by simp)
            (by simp) fun _ => hnobody
          rw [hpcs] at hmove
          exact hmove
        · exact .inl rfl
      · exact .inl rfl
  | wakeUp t =>
      rw [step]
      cases hpc : s.pc t with
      | waiting call =>
          right
          exact .wakeUp t call hpc
      | _ =>
          left
          simp only [MonitorPc.wake]
          rw [← hpc, Function.update_eq_self]

/-! ## One call after another -/

section Move

variable {shared : σ} {program : ι → List γ}

theorem Served.holds_move (hserved : m.Served shared program s) (hmove : m.Move s chooses s') :
    ∀ t, m.Holds s'.shared s'.mutex t (s'.pc t) := by
  have hholds := hserved.holds
  have hnobody : ∀ t u : ι, u ≠ t → none ≠ some u := by simp
  cases hmove with
  | call t call rest hpc hprogram =>
      have hsame := hholds t
      rw [hpc] at hsame
      apply forall_update (P := fun u pc => m.Holds s.shared s.mutex u pc)
      · exact hsame
      · exact fun u _ => hholds u
  | lock t call notified hpc hfree =>
      apply forall_update (P := fun u pc => m.Holds s.shared (some t) u pc)
      · exact rfl
      · exact fun u hu => (hholds u).of_not_owner (by simp [hfree]) (by simp [Ne.symm hu])
  | pass t call notified hpc hguard =>
      have hmutex := hholds t
      rw [hpc] at hmutex
      apply forall_update (P := fun u pc => m.Holds s.shared s.mutex u pc)
      · exact ⟨hmutex, hguard⟩
      · exact fun u _ => hholds u
  | sleep t call notified hpc hguard =>
      have hmutex := hholds t
      rw [hpc] at hmutex
      apply forall_update (P := fun u pc => m.Holds s.shared none u pc)
      · exact (Option.some_ne_none t).symm
      · exact hserved.alone hmutex (hnobody t)
  | act t call notified hpc =>
      have hinside := hholds t
      rw [hpc] at hinside
      apply forall_update (P := fun u pc => m.Holds (m.effect call s.shared) s.mutex u pc)
      · exact holds_behind call hinside.1
      · refine hserved.alone hinside.1 fun u hu howner => hu ?_
        exact Option.some.inj (howner.symm.trans hinside.1)
  | notify t k all holding chosen hpc hwaits hall hone =>
      have hsame := hholds t
      rw [hpc] at hsame
      apply forall_update (P := fun u pc => m.Holds s.shared s.mutex u pc)
      · cases holding <;> exact hsame
      · intro u _
        split_ifs
        · have hu := hholds u
          cases hpcu : s.pc u <;> rw [hpcu] at hu <;> exact hu
        · exact hholds u
  | unlock t notice hpc =>
      have hmutex := hholds t
      rw [hpc] at hmutex
      apply forall_update (P := fun u pc => m.Holds s.shared none u pc)
      · cases notice <;> exact (Option.some_ne_none t).symm
      · exact hserved.alone hmutex (hnobody t)
  | wakeUp t call hpc =>
      have hsame := hholds t
      rw [hpc] at hsame
      apply forall_update (P := fun u pc => m.Holds s.shared s.mutex u pc)
      · exact hsame
      · exact fun u _ => hholds u

theorem Served.move (hserved : m.Served shared program s) (hmove : m.Move s chooses s') :
    m.Served shared program s' := by
  refine ⟨hserved.holds_move hmove, ?_, ?_⟩
  · cases hmove with
    | act t call notified hpc =>
        have hinside : s.mutex = some t ∧ m.guard call s.shared = true := by
          have hinside := hserved.holds t
          rwa [hpc] at hinside
        rw [List.map_append]
        exact serve_append hserved.serial hinside.2
    | call | lock | pass | sleep | notify | unlock | wakeUp => exact hserved.serial
  · have horder := hserved.order
    -- the thread that moves keeps its place in its program
    have hkept : ∀ (t : ι) (pc : MonitorPc γ κ), pendingCall pc = pendingCall (s.pc t) →
        ∀ u, (s.served.filter (·.1 = u)).map Prod.snd ++
          pendingCall (Function.update s.pc t pc u) ++ s.program u = program u := by
      intro t pc hsame
      apply forall_update (P := fun u pc => (s.served.filter (·.1 = u)).map Prod.snd ++
        pendingCall pc ++ s.program u = program u)
      · rw [hsame]
        exact horder t
      · exact fun u _ => horder u
    cases hmove with
    | call t call rest hpc hprogram =>
        intro u
        have hu := horder u
        by_cases hut : u = t
        · rw [hut, hpc, hprogram] at hu
          rw [hut, ← hu]
          simp [pendingCall]
        · simpa [hut] using hu
    | lock t call notified hpc hfree =>
        apply hkept
        rcases hpc with ⟨hpc, -⟩ | hpc <;> rw [hpc] <;> rfl
    | pass t call notified hpc hguard =>
        apply hkept
        rw [hpc]
        rfl
    | sleep t call notified hpc hguard =>
        apply hkept
        rw [hpc]
        rfl
    | act t call notified hpc =>
        intro u
        have hu := horder u
        by_cases hut : u = t
        · rw [hut, hpc] at hu
          rw [hut, ← hu]
          dsimp only
          rw [Function.update_self, pendingCall_behind]
          simp [pendingCall]
        · have hne : t ≠ u := Ne.symm hut
          simpa [hut, hne] using hu
    | notify t k all holding chosen hpc hwaits hall hone =>
        intro u
        have hu := horder u
        by_cases hut : u = t
        · rw [hut, hpc] at hu
          rw [hut, ← hu]
          dsimp only
          rw [Function.update_self, pendingCall_notified]
          rfl
        · have hsame : pendingCall (if chosen u then (s.pc u).wake true else s.pc u) =
              pendingCall (s.pc u) := by
            split_ifs
            · exact pendingCall_wake true _
            · rfl
          simpa [hut, hsame] using hu
    | unlock t notice hpc =>
        apply hkept
        rw [hpc]
        cases notice <;> rfl
    | wakeUp t call hpc =>
        apply hkept
        rw [hpc]
        rfl

end Move

/-! ## Threads that sleep -/

/-- A thread that is about to notify all that wait on a condition. -/
def notifiesAll (k : κ) : MonitorPc γ κ → Bool
  | .notifying notice _ => notice = (k, true)
  | .unlocking notice => notice = some (k, true)
  | _ => false

variable (m) in
/-- A call that makes the guard of another true notifies all that wait on its condition. -/
def WakesAll : Prop :=
  ∀ call other shared, m.guard call shared = true → m.guard other shared = false →
    m.guard other (m.effect call shared) = true → m.notifies call = some (m.cond other, true)

variable (m) in
/-- Over a guard that is true nobody sleeps, unless a notification is on its way. -/
def Awake (s : MonitorState ι σ γ κ) : Prop :=
  ∀ t call, s.pc t = .waiting call → m.guard call s.shared = true →
    ∃ u, notifiesAll (m.cond call) (s.pc u) = true

omit [DecidableEq ι] in
theorem notifiesAll_behind {call : γ} {k : κ} (hnotifies : m.notifies call = some (k, true)) :
    notifiesAll k (m.behind call) = true := by
  rw [behind, hnotifies]
  cases m.holding call <;> simp [notifiesAll]

/-- A thread other than the one that moves goes on to notify. -/
theorem exists_notifiesAll_update {pcs : ι → MonitorPc γ κ} {t : ι} {pc : MonitorPc γ κ} {k : κ}
    (hexists : ∃ u, notifiesAll k (pcs u) = true)
    (hkept : notifiesAll k (pcs t) = true → notifiesAll k pc = true) :
    ∃ u, notifiesAll k (Function.update pcs t pc u) = true := by
  obtain ⟨u, hu⟩ := hexists
  by_cases hut : u = t
  · exact ⟨t, by rw [Function.update_self]; exact hkept (hut ▸ hu)⟩
  · exact ⟨u, by rwa [Function.update_of_ne hut]⟩

theorem Awake.move {shared : σ} {program : ι → List γ} (hwakes : m.WakesAll)
    (hserved : m.Served shared program s) (hawake : m.Awake s) (hmove : m.Move s chooses s') :
    m.Awake s' := by
  have hupdate : ∀ (t : ι) (pc : MonitorPc γ κ), (∀ call, pc ≠ .waiting call) →
      (∀ k, notifiesAll k (s.pc t) = true → notifiesAll k pc = true) →
      ∀ u call, Function.update s.pc t pc u = .waiting call → m.guard call s.shared = true →
        ∃ w, notifiesAll (m.cond call) (Function.update s.pc t pc w) = true := by
    intro t pc hgoes hkept u call hu hguard
    have hut : u ≠ t := by
      rintro rfl
      rw [Function.update_self] at hu
      exact hgoes call hu
    rw [Function.update_of_ne hut] at hu
    exact exists_notifiesAll_update (hawake u call hu hguard) (hkept _)
  cases hmove with
  | call t call rest hpc hprogram => exact hupdate t _ (by simp) (by simp [hpc, notifiesAll])
  | lock t call notified hpc hfree =>
      refine hupdate t _ (by simp) ?_
      rcases hpc with ⟨hpc, -⟩ | hpc <;> simp [hpc, notifiesAll]
  | pass t call notified hpc hguard =>
      exact hupdate t _ (by simp) (by simp [hpc, notifiesAll])
  | sleep t call notified hpc hguard =>
      intro u other hu hother
      by_cases hut : u = t
      · -- it has just seen that its guard is false
        dsimp only at hu
        rw [hut, Function.update_self, MonitorPc.waiting.injEq] at hu
        rw [← hu, hguard] at hother
        cases hother
      · dsimp only at hu
        rw [Function.update_of_ne hut] at hu
        exact exists_notifiesAll_update (hawake u other hu hother) (by simp [hpc, notifiesAll])
  | act t call notified hpc =>
      have hinside : s.mutex = some t ∧ m.guard call s.shared = true := by
        have hinside := hserved.holds t
        rwa [hpc] at hinside
      intro u other hu hother
      have hut : u ≠ t := by
        rintro rfl
        dsimp only at hu
        rw [Function.update_self] at hu
        exact behind_ne_waiting call other hu
      dsimp only at hu
      rw [Function.update_of_ne hut] at hu
      by_cases hbefore : m.guard other s.shared = true
      · exact exists_notifiesAll_update (hawake u other hu hbefore) (by simp [hpc, notifiesAll])
      · have hnotifies := hwakes call other s.shared hinside.2 (Bool.eq_false_iff.mpr hbefore) hother
        refine ⟨t, ?_⟩
        dsimp only
        rw [Function.update_self]
        exact notifiesAll_behind hnotifies
  | notify t k all holding chosen hpc hwaits hall hone =>
      intro u call hu hguard
      have hut : u ≠ t := by
        rintro rfl
        dsimp only at hu
        rw [Function.update_self] at hu
        exact notified_ne_waiting holding call hu
      dsimp only at hu
      rw [Function.update_of_ne hut] at hu
      have hchosen : chosen u = false := by
        by_contra hchosen
        rw [if_pos (Bool.eq_true_of_not_eq_false hchosen)] at hu
        exact wake_ne_waiting true _ call hu
      rw [if_neg (by simp [hchosen])] at hu
      obtain ⟨w, hw⟩ := hawake u call hu hguard
      have hwt : w ≠ t := by
        rintro rfl
        rw [hpc, notifiesAll, decide_eq_true_eq, Prod.mk.injEq] at hw
        have hu' := hall hw.2 u (by simp [hu, waits, hw.1])
        rw [hchosen] at hu'
        cases hu'
      have hstays : chosen w = false := by
        by_contra hchosen
        have hwaiting := hwaits w (Bool.eq_true_of_not_eq_false hchosen)
        cases hpcw : s.pc w <;> simp [hpcw, waits, notifiesAll] at hwaiting hw
      refine ⟨w, ?_⟩
      dsimp only
      rw [Function.update_of_ne hwt, if_neg (by simp [hstays])]
      exact hw
  | unlock t notice hpc =>
      refine hupdate t _ ?_ ?_
      · cases notice <;> simp
      · intro k hk
        rw [hpc, notifiesAll, decide_eq_true_eq] at hk
        rw [hk]
        simp [notifiesAll]
  | wakeUp t call hpc => exact hupdate t _ (by simp) (by simp [hpc, notifiesAll])

/-! ## Threads that are woken one by one -/

/-- A notification for a condition is pending with the thread: it is about to send one, or it
got one and its call has not taken effect yet. -/
def brings (m : GuardedMonitor σ γ κ) (k : κ) : MonitorPc γ κ → Bool
  | .woken call true | .testing call true | .acting call true => m.cond call = k
  | .notifying notice _ => notice.1 = k
  | .unlocking (some notice) => notice.1 = k
  | _ => false

variable (m) in
/-- How many calls on each condition could be served: each that is served takes one, and those
that it makes room for, one at most, it notifies. -/
structure Rooms (room : κ → σ → ℕ) : Prop where
  guard_iff : ∀ call shared, m.guard call shared = true ↔ 0 < room (m.cond call) shared
  effect_le : ∀ call shared k, m.guard call shared = true →
    room k (m.effect call shared) + (if m.cond call = k then 1 else 0) ≤
      room k shared + if (m.notifies call).map Prod.fst = some k then 1 else 0

section Covered

variable [Fintype ι] {room : κ → σ → ℕ}

/-- While a thread waits on a condition, all that could be served has a notification. -/
def Covered (m : GuardedMonitor σ γ κ) (k : κ) (pcs : ι → MonitorPc γ κ) (room : ℕ) : Prop :=
  (∃ t, m.waits k (pcs t) = true) → room ≤ ∑ u, (m.brings k (pcs u)).toNat

/-- A thread that moves may use up its own notification for the call that it serves, and it
starts to wait only where there is nothing to serve. -/
theorem Covered.update {k : κ} {pcs : ι → MonitorPc γ κ} {before after : ℕ}
    (hcovered : m.Covered k pcs before) {t : ι} {pc : MonitorPc γ κ}
    (hmove : after = 0 ∨ m.waits k pc = false ∧
      after + (m.brings k (pcs t)).toNat ≤ before + (m.brings k pc).toNat) :
    m.Covered k (Function.update pcs t pc) after := by
  intro hsome
  obtain ⟨u, hu⟩ := hsome
  rcases hmove with hzero | ⟨hgoes, hmove⟩
  · rw [hzero]
    exact Nat.zero_le _
  · have hother : u ≠ t := by
      rintro rfl
      rw [Function.update_self, hgoes] at hu
      cases hu
    rw [Function.update_of_ne hother] at hu
    have hle := hcovered ⟨u, hu⟩
    have hsum := sum_update (fun pc => (m.brings k pc).toNat) pcs t pc
    omega

theorem brings_behind (call : γ) (k : κ) :
    (m.brings k (m.behind call)).toNat =
      if (m.notifies call).map Prod.fst = some k then 1 else 0 := by
  rw [behind]
  cases hnotifies : m.notifies call with
  | none => simp [brings]
  | some notice =>
      by_cases hk : notice.1 = k <;> cases m.holding call <;> simp [brings, hk]

theorem brings_acting_le (call : γ) (flag : Bool) (k : κ) :
    (m.brings k (.acting call flag)).toNat ≤ if m.cond call = k then 1 else 0 := by
  cases flag <;> by_cases hk : m.cond call = k <;> simp [brings, hk]

theorem brings_wake (pc : MonitorPc γ κ) (k : κ) :
    m.brings k (pc.wake true) = (m.waits k pc || m.brings k pc) := by
  cases pc <;> simp [MonitorPc.wake, brings, waits]

theorem waits_wake (pc : MonitorPc γ κ) (k : κ) : m.waits k (pc.wake true) = false := by
  cases pc <;> simp [MonitorPc.wake, waits]

/-- Who notifies hands its notification to one that waits, unless nobody does. -/
theorem Covered.notify {k k' : κ} {pcs : ι → MonitorPc γ κ} {room : ℕ}
    (hcovered : m.Covered k pcs room) {t : ι} {all holding : Bool} {chosen : ι → Bool}
    (hpc : pcs t = .notifying (k', all) holding)
    (hwaits : ∀ u, chosen u = true → m.waits k' (pcs u) = true)
    (hone : (∀ u, chosen u = false) → ∀ u, m.waits k' (pcs u) = false) :
    m.Covered k (Function.update (fun u => if chosen u then (pcs u).wake true else pcs u) t
      (notified holding)) room := by
  let woken := fun u => if chosen u then (pcs u).wake true else pcs u
  have hmore : ∀ u, (m.brings k (pcs u)).toNat ≤ (m.brings k (woken u)).toNat := by
    intro u
    simp only [woken]
    split_ifs
    · rw [brings_wake]
      cases m.waits k (pcs u) <;> simp [Bool.toNat_le]
    · rfl
  have hgone : ∀ u, m.waits k (woken u) = true → m.waits k (pcs u) = true := by
    intro u
    simp only [woken]
    split_ifs
    · simp [waits_wake]
    · exact id
  have hfree : m.waits k (notified holding : MonitorPc γ κ) = false ∧
      m.brings k (notified holding : MonitorPc γ κ) = false := by
    cases holding <;> exact ⟨rfl, rfl⟩
  have hself : woken t = pcs t := by
    simp only [woken, hpc]
    split_ifs <;> rfl
  have hwoken : m.Covered k woken room := by
    rintro ⟨u, hu⟩
    exact (hcovered ⟨u, hgone u hu⟩).trans (Finset.sum_le_sum fun u _ => hmore u)
  by_cases hk : k' = k
  · intro hsome
    obtain ⟨u, hu⟩ := hsome
    have hut : u ≠ t := by
      rintro rfl
      rw [Function.update_self, hfree.1] at hu
      cases hu
    rw [Function.update_of_ne hut] at hu
    have hbefore := hgone u hu
    have hlt : ∑ u, (m.brings k (pcs u)).toNat < ∑ u, (m.brings k (woken u)).toNat := by
      by_cases hnone : ∀ u, chosen u = false
      · have hnobody := hone hnone u
        rw [hk, hbefore] at hnobody
        cases hnobody
      · push Not at hnone
        obtain ⟨v, hv⟩ := hnone
        have hchosen := Bool.eq_true_of_not_eq_false hv
        have hwait := hwaits v hchosen
        rw [hk] at hwait
        refine Finset.sum_lt_sum (fun u _ => hmore u) ⟨v, Finset.mem_univ v, ?_⟩
        simp only [woken, hchosen, if_true, brings_wake, hwait, Bool.true_or]
        cases hpcv : pcs v <;> simp [hpcv, waits] at hwait
        simp [brings]
    have hsum := sum_update (fun pc => (m.brings k pc).toNat) woken t
      (notified holding : MonitorPc γ κ)
    have hle := hcovered ⟨u, hbefore⟩
    have hone' := Bool.toNat_le (m.brings k (woken t))
    simp only [hfree.2, Bool.toNat_false] at hsum
    change room ≤ ∑ u, (m.brings k (Function.update woken t (notified holding) u)).toNat
    omega
  · refine hwoken.update (.inr ⟨hfree.1, ?_⟩)
    rw [hself, hpc]
    simp [brings, hk]

theorem Covered.move {shared : σ} {program : ι → List γ} (hrooms : m.Rooms room)
    (hserved : m.Served shared program s)
    (hcovered : ∀ k, m.Covered k s.pc (room k s.shared)) (hmove : m.Move s chooses s') (k : κ) :
    m.Covered k s'.pc (room k s'.shared) := by
  have hk := hcovered k
  cases hmove with
  | call t call rest hpc hprogram =>
      exact hk.update (.inr ⟨rfl, by simp [hpc, brings]⟩)
  | lock t call notified hpc hfree =>
      refine hk.update (.inr ⟨rfl, ?_⟩)
      rcases hpc with ⟨hpc, hflag⟩ | hpc
      · simp [hpc, brings, hflag]
      · cases notified <;> simp [hpc, brings]
  | pass t call notified hpc hguard =>
      refine hk.update (.inr ⟨rfl, ?_⟩)
      cases notified <;> simp [hpc, brings]
  | sleep t call notified hpc hguard =>
      apply hk.update
      by_cases hcond : m.cond call = k
      · left
        have hroom := (hrooms.guard_iff call s.shared).not.mp (by simp [hguard])
        rw [← hcond]
        exact Nat.eq_zero_of_not_pos hroom
      · right
        refine ⟨by simp [waits, hcond], ?_⟩
        cases notified <;> simp [hpc, brings, hcond]
  | act t call notified hpc =>
      have hinside : s.mutex = some t ∧ m.guard call s.shared = true := by
        have hinside := hserved.holds t
        rwa [hpc] at hinside
      refine hk.update (.inr ⟨?_, ?_⟩)
      · by_contra hwaits
        cases hbehind : m.behind call <;> simp [hbehind, waits] at hwaits
        exact behind_ne_waiting call _ hbehind
      · have heffect := hrooms.effect_le call s.shared k hinside.2
        have hacting := brings_acting_le (m := m) call notified k
        rw [hpc, brings_behind]
        change room k (m.effect call s.shared) + _ ≤ _
        omega
  | notify t k' all holding chosen hpc hwaits hall hone =>
      exact hk.notify hpc hwaits hone
  | unlock t notice hpc =>
      refine hk.update (.inr ?_)
      cases notice <;> simp [hpc, brings, waits]
  | wakeUp t call hpc => exact hk.update (.inr ⟨rfl, by simp [hpc, brings]⟩)

end Covered

/-! ## Runs -/

section Runs

variable [Fintype ι] {shared : σ} {program : ι → List γ}

/-- All threads are done or asleep. -/
def Still (s : MonitorState ι σ γ κ) : Prop :=
  ∀ t, s.pc t = .idle ∧ s.program t = [] ∨ ∃ call, s.pc t = .waiting call

theorem run_served (events : List (MonitorEvent ι)) :
    m.Served shared program (run m.step (start shared program) events) := by
  apply run_invariant _ (Served.start shared program)
  intro s event hserved
  rcases step_cases s event with hsame | hmove
  · rw [hsame]
    exact hserved
  · exact hserved.move hmove

theorem sum_countP_filter (p : γ → Bool) (served : List (ι × γ)) :
    ∑ t, ((served.filter (·.1 = t)).map Prod.snd).countP p = (served.map Prod.snd).countP p := by
  induction served with
  | nil => simp
  | cons entry served ih =>
      have hentry : ∀ t, (((entry :: served).filter (·.1 = t)).map Prod.snd).countP p =
          ((served.filter (·.1 = t)).map Prod.snd).countP p +
            if t = entry.1 then (if p entry.2 then 1 else 0) else 0 := by
        intro t
        by_cases ht : entry.1 = t
        · simp [ht, List.countP_cons]
        · simp [ht, Ne.symm ht]
      simp only [hentry, Finset.sum_add_distrib, ih, Finset.sum_ite_eq', Finset.mem_univ, if_true,
        List.map_cons, List.countP_cons]

omit [DecidableEq κ] in
/-- The calls of a kind are served or still to come. -/
theorem Served.countP (hserved : m.Served shared program s) (p : γ → Bool) :
    (s.served.map Prod.snd).countP p + ∑ t, (pendingCall (s.pc t) ++ s.program t).countP p =
      ∑ t, (program t).countP p := by
  rw [← sum_countP_filter, ← Finset.sum_add_distrib]
  apply Finset.sum_congr rfl
  intro t _
  rw [← hserved.order t, List.append_assoc, List.countP_append, List.countP_append,
    List.countP_append]

omit [DecidableEq κ] in
/-- Where nobody sleeps in a call of a kind, and no thread makes calls of that kind and of
others, all calls of that kind have been served. -/
theorem Served.countP_of_still (hserved : m.Served shared program s) (hstill : Still s)
    {p : γ → Bool}
    (hpure : ∀ t, (∀ call ∈ program t, p call = true) ∨ ∀ call ∈ program t, p call = false)
    (hnone : ∀ t call, s.pc t = .waiting call → p call = false) :
    (s.served.map Prod.snd).countP p = ∑ t, (program t).countP p := by
  rw [← hserved.countP p, Nat.left_eq_add]
  apply Finset.sum_eq_zero
  intro t _
  rcases hstill t with ⟨hidle, hdone⟩ | ⟨call, hwaiting⟩
  · rw [hidle, hdone]
    rfl
  · have hmem : ∀ other ∈ pendingCall (s.pc t) ++ s.program t, other ∈ program t := by
      intro other hother
      rw [← hserved.order t, List.append_assoc]
      exact List.mem_append_right _ hother
    have hcall : call ∈ program t := hmem call (by simp [hwaiting, pendingCall])
    rcases hpure t with htrue | hfalse
    · have hcontra := hnone t call hwaiting
      rw [htrue call hcall] at hcontra
      cases hcontra
    · rw [List.countP_eq_zero]
      exact fun other hother => by simp [hfalse other (hmem other hother)]

/-- In a run that has come to rest nobody sleeps whose guard is true. -/
theorem guard_false_of_wakesAll (hwakes : m.WakesAll) (events : List (MonitorEvent ι)) {t : ι}
    {call : γ} (hstill : Still (run m.step (start shared program) events))
    (hwaiting : (run m.step (start shared program) events).pc t = .waiting call) :
    m.guard call (run m.step (start shared program) events).shared = false := by
  have hinv : ∀ events, m.Served shared program (run m.step (start shared program) events) ∧
      m.Awake (run m.step (start shared program) events) := by
    intro events
    apply run_invariant (fun s => m.Served shared program s ∧ m.Awake s)
    · exact ⟨Served.start shared program, fun u call hu => by cases hu⟩
    · rintro s event ⟨hserved, hawake⟩
      rcases step_cases s event with hsame | hmove
      · rw [hsame]
        exact ⟨hserved, hawake⟩
      · exact ⟨hserved.move hmove, hawake.move hwakes hserved hmove⟩
  by_contra hguard
  obtain ⟨u, hu⟩ := (hinv events).2 t call hwaiting (Bool.eq_true_of_not_eq_false hguard)
  rcases hstill u with ⟨hidle, -⟩ | ⟨other, hother⟩
  · simp [hidle, notifiesAll] at hu
  · simp [hother, notifiesAll] at hu

theorem guard_false_of_rooms {room : κ → σ → ℕ} (hrooms : m.Rooms room)
    (events : List (MonitorEvent ι)) {t : ι} {call : γ}
    (hstill : Still (run m.step (start shared program) events))
    (hwaiting : (run m.step (start shared program) events).pc t = .waiting call) :
    m.guard call (run m.step (start shared program) events).shared = false := by
  have hinv : ∀ events, m.Served shared program (run m.step (start shared program) events) ∧
      ∀ k, m.Covered k (run m.step (start shared program) events).pc
        (room k (run m.step (start shared program) events).shared) := by
    intro events
    apply run_invariant (fun s => m.Served shared program s ∧
      ∀ k, m.Covered k s.pc (room k s.shared))
    · refine ⟨Served.start shared program, ?_⟩
      rintro k ⟨u, hu⟩
      cases hu
    · rintro s event ⟨hserved, hcovered⟩
      rcases step_cases s event with hsame | hmove
      · rw [hsame]
        exact ⟨hserved, hcovered⟩
      · exact ⟨hserved.move hmove, Covered.move hrooms hserved hcovered hmove⟩
  by_contra hguard
  have hroom := (hrooms.guard_iff call _).mp (Bool.eq_true_of_not_eq_false hguard)
  have hle := (hinv events).2 (m.cond call) ⟨t, by simp [hwaiting, waits]⟩
  have hzero : ∑ u, (m.brings (m.cond call)
      ((run m.step (start shared program) events).pc u)).toNat = 0 := by
    apply Finset.sum_eq_zero
    intro u _
    rcases hstill u with ⟨hidle, -⟩ | ⟨other, hother⟩
    · simp [hidle, brings]
    · simp [hother, brings]
  omega

def rank (s : MonitorState ι σ γ κ) : ℕ :=
  ∑ t, weight (Fintype.card ι) (s.pc t) +
    (2 * Fintype.card ι + 8) * ∑ t, (s.program t).length

/-- Whatever a thread does by its own choice brings the run closer to its end. -/
theorem rank_lt_of_move (hmove : m.Move s true s') : rank s' < rank s := by
  have hupdate : ∀ (t : ι) (pc : MonitorPc γ κ),
      weight (Fintype.card ι) pc < weight (Fintype.card ι) (s.pc t) →
        ∑ u, weight (Fintype.card ι) (Function.update s.pc t pc u) <
          ∑ u, weight (Fintype.card ι) (s.pc u) := by
    intro t pc hlt
    have hsum := sum_update (weight (Fintype.card ι)) s.pc t pc
    omega
  cases hmove with
  | call t call rest hpc hprogram =>
      have hsum := sum_update (weight (Fintype.card ι)) s.pc t (.locking call)
      have hlength := sum_update List.length s.program t rest
      have hidle : weight (Fintype.card ι) (s.pc t) = 0 := by
        rw [hpc]
        rfl
      have hlocking : weight (Fintype.card ι) (.locking call : MonitorPc γ κ) =
          2 * Fintype.card ι + 7 := rfl
      simp only [hprogram, List.length_cons] at hlength
      simp only [rank]
      have hless : ∑ u, (s.program u).length =
          ∑ u, (Function.update s.program t rest u).length + 1 := by omega
      rw [hless, Nat.mul_add]
      omega
  | lock t call notified hpc hfree =>
      apply Nat.add_lt_add_right
      apply hupdate
      rcases hpc with ⟨hpc, -⟩ | hpc <;> simp [hpc, weight]
  | pass t call notified hpc hguard =>
      apply Nat.add_lt_add_right
      apply hupdate
      simp [hpc, weight]
  | sleep t call notified hpc hguard =>
      apply Nat.add_lt_add_right
      apply hupdate
      simp [hpc, weight]
  | act t call notified hpc =>
      apply Nat.add_lt_add_right
      apply hupdate
      rw [hpc]
      exact weight_behind_lt _ call
  | notify t k all holding chosen hpc hwaits hall hone =>
      apply Nat.add_lt_add_right
      have hsum := sum_update (weight (Fintype.card ι))
        (fun u => if chosen u then (s.pc u).wake true else s.pc u) t
          (notified holding : MonitorPc γ κ)
      have hwoken : ∑ u, weight (Fintype.card ι) (if chosen u then (s.pc u).wake true else s.pc u) ≤
          ∑ u, (weight (Fintype.card ι) (s.pc u) + 2) := by
        apply Finset.sum_le_sum
        intro u _
        split_ifs
        · exact weight_wake_le _ _
        · exact Nat.le_add_right _ _
      have hself : weight (Fintype.card ι) (if chosen t then (s.pc t).wake true else s.pc t) =
          2 * Fintype.card ι + 2 := by
        rw [hpc]
        split_ifs <;> rfl
      rw [Finset.sum_add_distrib, Finset.sum_const, Finset.card_univ, smul_eq_mul] at hwoken
      have hnotified := weight_notified_le (γ := γ) (κ := κ) (Fintype.card ι) holding
      rw [hself] at hsum
      dsimp only
      omega
  | unlock t notice hpc =>
      apply Nat.add_lt_add_right
      apply hupdate
      cases notice <;> simp [hpc, weight]

theorem rank_lt_of_step {event : MonitorEvent ι} (hdeliberate : event.deliberate = true)
    (hchanges : m.step s event ≠ s) : rank (m.step s event) < rank s := by
  have hmove := (step_cases s event).resolve_left hchanges
  rw [hdeliberate] at hmove
  exact rank_lt_of_move hmove

theorem rank_lt_of_pc_ne {event : MonitorEvent ι} (hdeliberate : event.deliberate = true) (t : ι)
    (hne : (m.step s event).pc t ≠ s.pc t) : rank (m.step s event) < rank s :=
  rank_lt_of_step hdeliberate fun hsame => hne (congrArg (fun s => s.pc t) hsame)

/-- Whoever notifies finds one that waits, or nobody. -/
theorem exists_notify {t : ι} {k : κ} {holding : Bool}
    (hpc : s.pc t = .notifying (k, false) holding) :
    ∃ waiter, (m.step s (.notify t waiter)).pc t = notified holding := by
  by_cases hsome : ∃ waiter, m.waits k (s.pc waiter) = true
  · obtain ⟨waiter, hwaiter⟩ := hsome
    refine ⟨waiter, ?_⟩
    simp only [step, notifyStep, hpc, hwaiter, if_true]
    exact Function.update_self ..
  · refine ⟨t, ?_⟩
    push Not at hsome
    have hself : m.waits k (s.pc t) = false := by
      rw [hpc]
      rfl
    simp only [hpc] at hself
    simp only [step, notifyStep, hpc, hself, Bool.false_eq_true, if_false]
    rw [if_pos fun u => Bool.eq_false_iff.mpr (hsome u)]
    exact Function.update_self ..

/-- Whoever has the mutex goes on. -/
theorem exists_rank_lt_of_owner (hserved : m.Served shared program s) {t : ι}
    (hmutex : s.mutex = some t) :
    ∃ event : MonitorEvent ι, event.deliberate = true ∧ rank (m.step s event) < rank s := by
  have hinside := hserved.holds t
  cases hpc : s.pc t with
  | idle | locking | waiting | woken =>
      rw [hpc] at hinside
      exact absurd hmutex hinside
  | testing call notified =>
      refine ⟨.run t, rfl, rank_lt_of_pc_ne rfl t ?_⟩
      simp only [step, runStep, hpc]
      split_ifs <;> simp
  | acting call notified =>
      refine ⟨.run t, rfl, rank_lt_of_pc_ne rfl t ?_⟩
      simp only [step, runStep, hpc, Function.update_self]
      rw [behind]
      cases m.notifies call with
      | none => simp
      | some notice => cases m.holding call <;> simp
  | notifying notice holding =>
      obtain ⟨k, all⟩ := notice
      cases holding with
      | false =>
          rw [hpc] at hinside
          exact absurd hmutex hinside
      | true =>
          cases all with
          | true =>
              refine ⟨.run t, rfl, rank_lt_of_pc_ne rfl t ?_⟩
              simp [step, runStep, hpc, notified]
          | false =>
              obtain ⟨waiter, hnotified⟩ := exists_notify (m := m) hpc
              refine ⟨.notify t waiter, rfl, rank_lt_of_pc_ne rfl t ?_⟩
              rw [hnotified, hpc]
              simp [notified]
  | unlocking notice =>
      refine ⟨.run t, rfl, rank_lt_of_pc_ne rfl t ?_⟩
      cases notice <;> simp [step, runStep, hpc]

/-- A run that has not come to rest goes on. -/
theorem exists_rank_lt (hserved : m.Served shared program s) (hstill : ¬ Still s) :
    ∃ event : MonitorEvent ι, event.deliberate = true ∧ rank (m.step s event) < rank s := by
  rw [Still] at hstill
  push Not at hstill
  obtain ⟨t, hidle, hwaiting⟩ := hstill
  cases hmutex : s.mutex with
  | some owner => exact exists_rank_lt_of_owner hserved hmutex
  | none =>
      have hinside := hserved.holds t
      have hfree : s.mutex ≠ some t := by simp [hmutex]
      cases hpc : s.pc t with
      | idle =>
          refine ⟨.run t, rfl, rank_lt_of_pc_ne rfl t ?_⟩
          obtain ⟨call, rest, hprogram⟩ := List.exists_cons_of_ne_nil (hidle hpc)
          simp [step, runStep, hpc, hprogram]
      | locking call =>
          refine ⟨.run t, rfl, rank_lt_of_pc_ne rfl t ?_⟩
          simp [step, runStep, hpc, hmutex]
      | woken call notified =>
          refine ⟨.run t, rfl, rank_lt_of_pc_ne rfl t ?_⟩
          simp [step, runStep, hpc, hmutex]
      | waiting call => exact absurd hpc (hwaiting call)
      | testing call notified =>
          rw [hpc] at hinside
          exact absurd hinside hfree
      | acting call notified =>
          rw [hpc] at hinside
          exact absurd hinside.1 hfree
      | unlocking notice =>
          rw [hpc] at hinside
          exact absurd hinside hfree
      | notifying notice holding =>
          obtain ⟨k, all⟩ := notice
          cases all with
          | true =>
              refine ⟨.run t, rfl, rank_lt_of_pc_ne rfl t ?_⟩
              cases holding <;> simp [step, runStep, hpc, notified]
          | false =>
              obtain ⟨waiter, hnotified⟩ := exists_notify (m := m) hpc
              refine ⟨.notify t waiter, rfl, rank_lt_of_pc_ne rfl t ?_⟩
              rw [hnotified, hpc]
              cases holding <;> simp [notified]

/-- From wherever the threads have got to, they come to rest. -/
theorem exists_still (events : List (MonitorEvent ι)) :
    ∃ later : List (MonitorEvent ι), (∀ event ∈ later, event.deliberate = true) ∧
      Still (run m.step (start shared program) (events ++ later)) := by
  have hserved : m.Served shared program (run m.step (start shared program) events) :=
    run_served events
  obtain ⟨later, hlater, hstill⟩ := exists_run_of_rank m.step (m.Served shared program) Still
    (fun event => event.deliberate = true) rank
    (fun s event hserved _ => by
      rcases step_cases s event with hsame | hmove
      · rw [hsame]
        exact hserved
      · exact hserved.move hmove)
    (fun s hserved hstill => exists_rank_lt hserved hstill)
    hserved
  refine ⟨later, hlater, ?_⟩
  rw [run_append]
  exact hstill

end Runs

end GuardedMonitor

end CppPlay.Lib
