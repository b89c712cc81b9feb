import CppPlay.Lib.Run
import CppPlay.Lib.Threads
import Mathlib.Data.List.Sort

/-!
# The time event generators

Each `add_timer` starts a wait and leaves the timer to a map whose key is the time or the
duration.  A second timer with the same key finds its place taken, so that it is destroyed at
the end of the call.  All calls of `add_timer` come before the context runs; after that the clock
goes on, waits expire, and completions run their handlers, which return.
-/

namespace CppPlay.Diff

open CppPlay.Lib

inductive GeneratorKind where
  | timeEvent
  | durationTimeEvent
  deriving DecidableEq

/-- What has become of the last wait of a timer: there is none any more, it is pending, its
completion is queued with success or with an error, or the handler is running. -/
inductive WaitPhase where
  | idle
  | armed
  | queued (success : Bool)
  | running
  deriving DecidableEq

structure DeadlineTimer where
  key : ℤ
  expiry : ℤ
  phase : WaitPhase
  executions : ℕ
  deriving DecidableEq

namespace DeadlineTimer

/-- A cancel, or the end of the timer, completes a pending wait with an error. -/
def cancel (t : DeadlineTimer) : DeadlineTimer :=
  if t.phase = .armed then { t with phase := .queued false } else t

def expire (now : ℤ) (t : DeadlineTimer) : DeadlineTimer :=
  if t.phase = .armed ∧ t.expiry ≤ now then { t with phase := .queued true } else t

def start (t : DeadlineTimer) : DeadlineTimer :=
  if t.phase = .queued true then { t with phase := .running, executions := t.executions + 1 }
  else t

def abort (t : DeadlineTimer) : DeadlineTimer :=
  if t.phase = .queued false then { t with phase := .idle } else t

def reset_timer (now : ℤ) (t : DeadlineTimer) : DeadlineTimer :=
  { t with expiry := now + t.key, phase := .armed }

def finish (kind : GeneratorKind) (now : ℤ) (t : DeadlineTimer) : DeadlineTimer :=
  if t.phase = .running then
    match kind with
    | .timeEvent => { t with phase := .idle }
    | .durationTimeEvent => t.reset_timer now
  else t

end DeadlineTimer

def GeneratorKind.wait (now key : ℤ) : GeneratorKind → DeadlineTimer
  | .timeEvent => ⟨key, key, .armed, 0⟩
  | .durationTimeEvent => DeadlineTimer.reset_timer now ⟨key, now, .idle, 0⟩

inductive ContextEvent where
  | advance (ticks : ℕ)
  | expire (i : ℕ)
  | start (i : ℕ)
  | finish (i : ℕ)
  | abort (i : ℕ)
  deriving DecidableEq

/-- The timers are numbered in the order of the calls of `add_timer`. -/
structure EventGenerator where
  now : ℤ
  count : ℕ
  timer : ℕ → DeadlineTimer
  m_timers : List (ℤ × ℕ)

namespace EventGenerator

def empty (now : ℤ) : EventGenerator := ⟨now, 0, fun _ => ⟨0, 0, .idle, 0⟩, []⟩

def modify (s : EventGenerator) (i : ℕ) (f : DeadlineTimer → DeadlineTimer) : EventGenerator :=
  { s with timer := Function.update s.timer i (f (s.timer i)) }

@[simp] theorem timer_modify (s : EventGenerator) (i : ℕ) (f : DeadlineTimer → DeadlineTimer) :
    (s.modify i f).timer = Function.update s.timer i (f (s.timer i)) := rfl

def advance (s : EventGenerator) (ticks : ℕ) : EventGenerator := { s with now := s.now + ticks }

def add_timer (kind : GeneratorKind) (s : EventGenerator) (key : ℤ) : EventGenerator :=
  let timer := kind.wait s.now key
  if key ∈ s.m_timers.map Prod.fst then
    -- the map keeps its old entry, and the last owner of the new timer goes out of scope
    { s with count := s.count + 1, timer := Function.update s.timer s.count timer.cancel }
  else
    { s with
      count := s.count + 1
      timer := Function.update s.timer s.count timer
      m_timers := s.m_timers.orderedInsert (fun a b => a.1 ≤ b.1) (key, s.count) }

def step (kind : GeneratorKind) (s : EventGenerator) : ContextEvent → EventGenerator
  | .advance ticks => s.advance ticks
  | .expire i => s.modify i (DeadlineTimer.expire s.now)
  | .start i => s.modify i DeadlineTimer.start
  | .finish i => s.modify i (DeadlineTimer.finish kind s.now)
  | .abort i => s.modify i DeadlineTimer.abort

def added (kind : GeneratorKind) (now : ℤ) (calls : List (ℕ × ℤ)) : EventGenerator :=
  calls.foldl (fun s call => (s.advance call.1).add_timer kind call.2) (empty now)

def serve (i : ℕ) : List ContextEvent := [.expire i, .start i, .finish i]

/-- Once it is served, a handler has been executed once if its time is reached; that of a
duration is executed once more if the duration since the last reset is over. -/
def Fires (kind : GeneratorKind) (s : EventGenerator) (i : ℕ) : Prop :=
  match kind with
  | .timeEvent => ((run (step kind) s (serve i)).timer i).executions =
      if (s.timer i).key ≤ s.now then 1 else 0
  | .durationTimeEvent => (s.timer i).phase ≠ .running →
      ((run (step kind) s (serve i)).timer i).executions =
        (s.timer i).executions + if (s.timer i).expiry ≤ s.now then 1 else 0

end EventGenerator

/-! ## What the calls of `add_timer` leave -/

namespace DeadlineTimer

def Unused (kind : GeneratorKind) (t : DeadlineTimer) : Prop :=
  t.executions = 0 ∧ (kind = .timeEvent → t.expiry = t.key)

theorem unused_wait (kind : GeneratorKind) (now key : ℤ) :
    Unused kind (kind.wait now key) := by
  cases kind with
  | timeEvent => exact ⟨rfl, fun _ => rfl⟩
  | durationTimeEvent => exact ⟨rfl, nofun⟩

theorem phase_wait (kind : GeneratorKind) (now key : ℤ) : (kind.wait now key).phase = .armed := by
  cases kind <;> rfl

theorem cancel_wait (kind : GeneratorKind) (now key : ℤ) :
    (kind.wait now key).cancel = { kind.wait now key with phase := .queued false } :=
  if_pos (phase_wait kind now key)

end DeadlineTimer

namespace EventGenerator

open DeadlineTimer

/-- The map holds every key, and a timer was destroyed if a key has come twice. -/
structure Added (kind : GeneratorKind) (s : EventGenerator) (keys : List ℤ) : Prop where
  count : s.count = keys.length
  stored : ∀ key, key ∈ s.m_timers.map Prod.fst ↔ key ∈ keys
  unused : ∀ i < s.count, DeadlineTimer.Unused kind (s.timer i)
  armed : keys.Nodup → ∀ i < s.count, (s.timer i).phase = .armed
  destroyed : ¬ keys.Nodup → ∃ i < s.count, (s.timer i).phase = .queued false

theorem added_empty (kind : GeneratorKind) (now : ℤ) : Added kind (empty now) [] := by
  constructor
  · rfl
  · intro key
    rfl
  · intro i hi
    exact absurd hi (Nat.not_lt_zero i)
  · intro _ i hi
    exact absurd hi (Nat.not_lt_zero i)
  · intro hdup
    exact absurd List.nodup_nil hdup

theorem forall_update_count {P : DeadlineTimer → Prop} {timer : ℕ → DeadlineTimer} {count : ℕ}
    {new : DeadlineTimer} (hnew : P new) (hold : ∀ i < count, P (timer i)) :
    ∀ i < count + 1, P (Function.update timer count new i) := by
  intro i hi
  by_cases hlast : i = count
  · rw [hlast, Function.update_self]
    exact hnew
  · rw [Function.update_of_ne hlast]
    exact hold i (by omega)

theorem Added.add_timer {kind : GeneratorKind} {s : EventGenerator} {keys : List ℤ}
    (hadded : Added kind s keys) (key : ℤ) : Added kind (s.add_timer kind key) (keys ++ [key]) := by
  have hnodup : (keys ++ [key]).Nodup ↔ keys.Nodup ∧ key ∉ keys := by
    rw [List.nodup_append_comm, List.singleton_append, List.nodup_cons, and_comm]
  have hcount : s.count + 1 = (keys ++ [key]).length := by
    rw [hadded.count, List.length_append, List.length_singleton]
  rw [EventGenerator.add_timer]
  by_cases hkey : key ∈ s.m_timers.map Prod.fst
  · have hold : key ∈ keys := (hadded.stored key).mp hkey
    rw [if_pos hkey]
    constructor
    · exact hcount
    · intro other
      rw [hadded.stored other, List.mem_append, List.mem_singleton]
      constructor
      · exact .inl
      · rintro (hmem | hsame)
        · exact hmem
        · exact hsame ▸ hold
    · refine forall_update_count ?_ hadded.unused
      rw [cancel_wait]
      exact unused_wait kind s.now key
    · intro hall
      exact absurd hold (hnodup.mp hall).2
    · intro _
      refine ⟨s.count, Nat.lt_succ_self _, ?_⟩
      simp only [Function.update_self, cancel_wait]
  · have hnew : key ∉ keys := fun hmem => hkey ((hadded.stored key).mpr hmem)
    rw [if_neg hkey]
    constructor
    · exact hcount
    · intro other
      have hperm := (List.perm_orderedInsert (fun a b : ℤ × ℕ => a.1 ≤ b.1) (key, s.count)
        s.m_timers).map Prod.fst
      rw [hperm.mem_iff, List.map_cons, List.mem_cons, hadded.stored other, List.mem_append,
        List.mem_singleton, or_comm]
    · exact forall_update_count (unused_wait kind s.now key) hadded.unused
    · intro hall
      exact forall_update_count (P := fun t => t.phase = .armed) (phase_wait kind s.now key)
        (hadded.armed (hnodup.mp hall).1)
    · intro hdup
      have hearlier : ¬ keys.Nodup := fun hall => hdup (hnodup.mpr ⟨hall, hnew⟩)
      obtain ⟨i, hi, hphase⟩ := hadded.destroyed hearlier
      refine ⟨i, Nat.lt_succ_of_lt hi, ?_⟩
      simpa only [Function.update_of_ne hi.ne] using hphase

theorem Added.advance {kind : GeneratorKind} {s : EventGenerator} {keys : List ℤ}
    (hadded : Added kind s keys) (ticks : ℕ) : Added kind (s.advance ticks) keys :=
  ⟨hadded.count, hadded.stored, hadded.unused, hadded.armed, hadded.destroyed⟩

theorem added_calls (kind : GeneratorKind) (now : ℤ) (calls : List (ℕ × ℤ)) :
    Added kind (added kind now calls) (calls.map Prod.snd) := by
  induction calls using List.reverseRecOn with
  | nil => exact added_empty kind now
  | append_singleton calls call ih =>
      rw [added, List.foldl_append, List.map_append]
      exact (ih.advance call.1).add_timer call.2

/-! ## A timer whose place in the map was free -/

end EventGenerator

namespace DeadlineTimer

variable {kind : GeneratorKind} {now : ℤ} {t : DeadlineTimer}

/-- A stored timer always has a wait or a running handler before it, unless it is the one
execution of a time event that lies behind it. -/
structure Stored (kind : GeneratorKind) (now : ℤ) (t : DeadlineTimer) : Prop where
  expiry : kind = .timeEvent → t.expiry = t.key
  before : t.phase = .armed ∨ t.phase = .queued true → kind = .timeEvent → t.executions = 0
  due : t.phase ≠ .armed → t.expiry ≤ now
  after : t.phase = .running ∨ t.phase = .idle → kind = .timeEvent → t.executions = 1
  idle : t.phase = .idle → kind = .timeEvent
  success : t.phase ≠ .queued false

theorem Stored.mono {later : ℤ} (hstored : t.Stored kind now) (hle : now ≤ later) :
    t.Stored kind later :=
  { hstored with due := fun hphase => (hstored.due hphase).trans hle }

theorem Stored.expire (hstored : t.Stored kind now) : (t.expire now).Stored kind now := by
  rw [DeadlineTimer.expire]
  split_ifs with hdue
  · constructor
    · exact hstored.expiry
    · exact fun _ => hstored.before (.inl hdue.1)
    · exact fun _ => hdue.2
    · simp
    · simp
    · simp
  · exact hstored

theorem Stored.start (hstored : t.Stored kind now) : t.start.Stored kind now := by
  rw [DeadlineTimer.start]
  split_ifs with hqueued
  · constructor
    · exact hstored.expiry
    · simp
    · exact fun _ => hstored.due (by rw [hqueued]; simp)
    · exact fun _ hkind => by rw [hstored.before (.inr hqueued) hkind]
    · simp
    · simp
  · exact hstored

theorem Stored.finish (hstored : t.Stored kind now) : (t.finish kind now).Stored kind now := by
  unfold DeadlineTimer.finish
  split_ifs with hrunning
  · cases kind with
    | timeEvent =>
        constructor
        · exact hstored.expiry
        · simp
        · exact fun _ => hstored.due (by rw [hrunning]; simp)
        · exact fun _ => hstored.after (.inl hrunning)
        · exact fun _ => rfl
        · simp
    | durationTimeEvent =>
        constructor
        · exact nofun
        · exact fun _ => nofun
        · exact fun hphase => absurd rfl hphase
        · exact fun _ => nofun
        · exact nofun
        · exact nofun
  · exact hstored

theorem Stored.abort (hstored : t.Stored kind now) : t.abort = t :=
  if_neg hstored.success

theorem Stored.of_unused (hunused : Unused kind t) (harmed : t.phase = .armed) :
    t.Stored kind now := by
  constructor
  · exact hunused.2
  · exact fun _ _ => hunused.1
  · exact fun hphase => absurd harmed hphase
  · rw [harmed]
    simp
  · rw [harmed]
    simp
  · rw [harmed]
    simp

theorem executions_finish (kind : GeneratorKind) (now : ℤ) (t : DeadlineTimer) :
    (t.finish kind now).executions = t.executions := by
  unfold DeadlineTimer.finish
  split_ifs
  · cases kind <;> rfl
  · rfl

theorem executions_served (kind : GeneratorKind) (now : ℤ) (t : DeadlineTimer) :
    ((t.expire now).start.finish kind now).executions =
      t.executions +
        if t.phase = .queued true ∨ t.phase = .armed ∧ t.expiry ≤ now then 1 else 0 := by
  rw [executions_finish, DeadlineTimer.start, DeadlineTimer.expire]
  cases hphase : t.phase with
  | armed =>
      by_cases hdue : t.expiry ≤ now
      · simp [hdue]
      · simp [hdue, hphase]
  | queued success => cases success <;> simp [hphase]
  | _ => simp [hphase]

theorem Stored.executions_timeEvent (hstored : t.Stored .timeEvent now) :
    ((t.expire now).start.finish .timeEvent now).executions = if t.key ≤ now then 1 else 0 := by
  have hkey := hstored.expiry rfl
  rw [executions_served, ← hkey]
  cases hphase : t.phase with
  | armed =>
      have hnone := hstored.before (.inl hphase) rfl
      simp [hnone]
  | queued success =>
      cases success with
      | false => exact absurd hphase hstored.success
      | true =>
          have hnone := hstored.before (.inr hphase) rfl
          have hdue := hstored.due (by rw [hphase]; simp)
          simp [hnone, hdue]
  | running =>
      have hone := hstored.after (.inl hphase) rfl
      have hdue := hstored.due (by rw [hphase]; simp)
      simp [hone, hdue]
  | idle =>
      have hone := hstored.after (.inr hphase) rfl
      have hdue := hstored.due (by rw [hphase]; simp)
      simp [hone, hdue]

theorem Stored.executions_durationTimeEvent (hstored : t.Stored .durationTimeEvent now)
    (hidle : t.phase ≠ .running) :
    ((t.expire now).start.finish .durationTimeEvent now).executions =
      t.executions + if t.expiry ≤ now then 1 else 0 := by
  rw [executions_served]
  cases hphase : t.phase with
  | armed => simp
  | queued success =>
      cases success with
      | false => exact absurd hphase hstored.success
      | true =>
          have hdue := hstored.due (by rw [hphase]; simp)
          simp [hdue]
  | running => exact absurd hphase hidle
  | idle => cases hstored.idle hphase

end DeadlineTimer

/-! ## Whole runs -/

namespace EventGenerator

open DeadlineTimer

variable {kind : GeneratorKind}

theorem forall_modify {s : EventGenerator} {i : ℕ} {f : DeadlineTimer → DeadlineTimer}
    {P : DeadlineTimer → Prop} (hkeep : ∀ t, P t → P (f t)) {n : ℕ}
    (hall : ∀ j < n, P (s.timer j)) : ∀ j < n, P ((s.modify i f).timer j) := by
  intro j hj
  rw [timer_modify]
  by_cases hsame : j = i
  · rw [hsame, Function.update_self]
    exact hkeep _ (hall i (hsame ▸ hj))
  · rw [Function.update_of_ne hsame]
    exact hall j hj

theorem stored_step {n : ℕ} {s : EventGenerator}
    (hstored : ∀ i < n, (s.timer i).Stored kind s.now) (event : ContextEvent) :
    ∀ i < n, ((s.step kind event).timer i).Stored kind (s.step kind event).now := by
  cases event with
  | advance ticks => exact fun i hi => (hstored i hi).mono (by simp [step, advance])
  | expire i => exact forall_modify (fun _ ht => ht.expire) hstored
  | start i => exact forall_modify (fun _ ht => ht.start) hstored
  | finish i => exact forall_modify (fun _ ht => ht.finish) hstored
  | abort i =>
      refine forall_modify (fun t ht => ?_) hstored
      rw [ht.abort]
      exact ht

theorem timer_served (s : EventGenerator) (i : ℕ) :
    (run (step kind) s (serve i)).timer i =
      ((s.timer i).expire s.now).start.finish kind s.now := by
  simp [serve, step, modify]

theorem fires_of_stored {s : EventGenerator} {i : ℕ} (hstored : (s.timer i).Stored kind s.now) :
    s.Fires kind i := by
  cases kind with
  | timeEvent =>
      rw [Fires, timer_served]
      exact hstored.executions_timeEvent
  | durationTimeEvent =>
      rw [Fires, timer_served]
      exact hstored.executions_durationTimeEvent

/-- The wait of a timer without a place in the map has ended with an error, so that its time
passes without its handler. -/
theorem not_fires_of_destroyed {s : EventGenerator} {i : ℕ}
    (hunused : Unused kind (s.timer i)) (hphase : (s.timer i).phase = .queued false)
    (hdue : (s.timer i).expiry ≤ s.now) : ¬ s.Fires kind i := by
  have hserved := executions_served kind s.now (s.timer i)
  rw [hphase, if_neg (by simp), hunused.1, add_zero] at hserved
  cases kind with
  | timeEvent =>
      rw [hunused.2 rfl] at hdue
      rw [Fires, timer_served, hserved, if_pos hdue]
      exact Nat.zero_ne_one
  | durationTimeEvent =>
      rw [Fires, timer_served, hserved, hunused.1, hphase, if_pos hdue]
      simp

theorem exists_due (s : EventGenerator) (i : ℕ) :
    ∃ ticks, ((s.advance ticks).timer i).expiry ≤ (s.advance ticks).now := by
  refine ⟨((s.timer i).expiry - s.now).toNat, ?_⟩
  change (s.timer i).expiry ≤ s.now + (((s.timer i).expiry - s.now).toNat : ℤ)
  omega

/-- Every added timer fires under every schedule of the context exactly when no two of them share
their time or their duration. -/
theorem every_timer_fires_iff (kind : GeneratorKind) (now : ℤ) (calls : List (ℕ × ℤ)) :
    (∀ events, ∀ i < calls.length, (run (step kind) (added kind now calls) events).Fires kind i) ↔
      (calls.map Prod.snd).Nodup := by
  have hadded := added_calls kind now calls
  have hcount : (added kind now calls).count = calls.length := by
    rw [hadded.count, List.length_map]
  constructor
  · intro hfires
    by_contra hdup
    obtain ⟨i, hi, hphase⟩ := hadded.destroyed hdup
    obtain ⟨ticks, hdue⟩ := exists_due (added kind now calls) i
    have hadvanced := hadded.advance ticks
    exact not_fires_of_destroyed (hadvanced.unused i hi) hphase hdue
      (hfires [.advance ticks] i (hcount ▸ hi))
  · intro hnodup events i hi
    have hstart : ∀ j < calls.length,
        ((added kind now calls).timer j).Stored kind (added kind now calls).now := by
      intro j hj
      rw [← hcount] at hj
      exact .of_unused (hadded.unused j hj) (hadded.armed hnodup j hj)
    have hstored := run_invariant
      (fun s : EventGenerator => ∀ j < calls.length, (s.timer j).Stored kind s.now) hstart
      (fun _ event hall => stored_step hall event) events
    exact fires_of_stored (hstored i hi)

theorem not_every_timer_fires :
    ¬ ∀ (kind : GeneratorKind) (now : ℤ) (calls : List (ℕ × ℤ)) (events : List ContextEvent),
      ∀ i < calls.length, (run (step kind) (added kind now calls) events).Fires kind i := by
  intro hclaim
  have hfires := hclaim .timeEvent 0 [(0, 5), (0, 5)] [.advance 5] 1 (by decide)
  rw [Fires] at hfires
  exact absurd hfires (by decide)

end EventGenerator

end CppPlay.Diff
