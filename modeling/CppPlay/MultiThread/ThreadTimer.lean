import CppPlay.Lib.Run

/-!
# The timer thread

The counter is protected by a mutex, and the callback is made after its release.  So a
callback that an increment has decided on may come after any number of calls of the client.
-/

namespace CppPlay.MultiThread

open CppPlay.Lib

/-- What led to a callback: the number of the start, the increments since then without a
reset, the resets by `end` before the last of them, and, of the time of the call, which `end`
has returned with no successful start since. -/
structure TimerCallback where
  start : ℕ
  increments : ℕ
  resets : ℕ
  ended : Option ℕ
  deriving DecidableEq

/-- Where the client stands in `end()`: outside, or before its return. -/
inductive ClientPc where
  | idle
  | ending (number : ℕ)
  deriving DecidableEq

inductive TimerEvent where
  | increment
  | start
  | «end»
  deriving DecidableEq

/-- The counter with its two threads.  `pending` is a callback that is still to be made, and
`counted` the number of increments since the last start while there was no reset. -/
structure ThreadTimer where
  cnt : ℤ
  pending : Option TimerCallback
  client : ClientPc
  starts : ℕ
  resets : ℕ
  counted : Option ℕ
  ended : Option ℕ
  callbacks : List TimerCallback

namespace ThreadTimer

def initCnt : ℤ := -1

def initial : ThreadTimer := ⟨initCnt, none, .idle, 0, 0, none, none, []⟩

/-- The critical section of `increment`, or the callback after it. -/
def increment (maxCnt : ℤ) (s : ThreadTimer) : ThreadTimer :=
  match s.pending with
  | some callback =>
      { s with
        pending := none
        callbacks := { callback with ended := s.ended } :: s.callbacks }
  | none =>
      if s.cnt = initCnt then s
      else if s.cnt < maxCnt then
        { s with cnt := s.cnt + 1, counted := s.counted.map (· + 1) }
      else
        { s with
          cnt := initCnt
          pending := some ⟨s.starts, s.counted.getD 0 + 1, s.resets, none⟩
          counted := none }

def start (s : ThreadTimer) : ThreadTimer :=
  if s.cnt ≠ initCnt then s
  else { s with cnt := 0, starts := s.starts + 1, counted := some 0, ended := none }

def reset (s : ThreadTimer) : ThreadTimer :=
  { s with
    cnt := initCnt
    client := .ending (s.resets + 1)
    resets := s.resets + 1
    counted := none }

/-- A step of the timer thread or of the client, which returns from `end` before its next
call. -/
def step (maxCnt : ℤ) (s : ThreadTimer) : TimerEvent → ThreadTimer
  | .increment => s.increment maxCnt
  | .start =>
      match s.client with
      | .idle => s.start
      | .ending number => { s with client := .idle, ended := some number }
  | .end =>
      match s.client with
      | .idle => s.reset
      | .ending number => { s with client := .idle, ended := some number }

/-- At most one callback for a start, and each after `maxCnt + 1` increments. -/
structure CallsOnce (maxCnt : ℤ) (s : ThreadTimer) : Prop where
  once : (s.callbacks.map TimerCallback.start).Nodup
  started : ∀ callback ∈ s.callbacks, 0 < callback.start ∧ callback.start ≤ s.starts
  increments : ∀ callback ∈ s.callbacks, maxCnt + 1 ≤ callback.increments

/-- No callback comes after the return of an `end` and before the next start. -/
def EndIsFinal (s : ThreadTimer) : Prop := ∀ callback ∈ s.callbacks, callback.ended = none

/-- One that does was decided on before that `end` took the mutex. -/
def EndStopsCounting (s : ThreadTimer) : Prop :=
  ∀ callback ∈ s.callbacks, ∀ number, callback.ended = some number → callback.resets < number

/-! ## The counter and the callbacks -/

/-- Those that were made and the one that is to come. -/
def decided (s : ThreadTimer) : List TimerCallback := s.pending.toList ++ s.callbacks

/-- The client is past the reset of this `end`, and there was no successful start since. -/
def Stopped (s : ThreadTimer) (number : ℕ) : Prop :=
  s.client = .ending number ∨ s.ended = some number

structure Inv (maxCnt : ℤ) (s : ThreadTimer) : Prop where
  counted : s.cnt = initCnt ∧ s.counted = none ∨ ∃ k : ℕ, s.cnt = k ∧ s.counted = some k
  fresh : s.counted ≠ none → 0 < s.starts ∧ ∀ callback ∈ s.decided, callback.start < s.starts
  once : (s.decided.map TimerCallback.start).Nodup
  started : ∀ callback ∈ s.decided, 0 < callback.start ∧ callback.start ≤ s.starts
  increments : ∀ callback ∈ s.decided, maxCnt + 1 ≤ callback.increments
  resets : ∀ callback ∈ s.decided, callback.resets ≤ s.resets
  stopped : ∀ number, s.Stopped number → s.counted = none ∧
    ∀ callback ∈ s.pending, callback.resets < number
  late : s.EndStopsCounting

variable {maxCnt : ℤ} {s : ThreadTimer}

theorem initial_inv (maxCnt : ℤ) : Inv maxCnt initial := by
  constructor <;> simp [initial, decided, Stopped, EndStopsCounting]

theorem Inv.callsOnce (hinv : Inv maxCnt s) : s.CallsOnce maxCnt := by
  have hmem : ∀ callback ∈ s.callbacks, callback ∈ s.decided :=
    fun callback hcallback => List.mem_append_right _ hcallback
  constructor
  · have honce := hinv.once
    rw [decided, List.map_append] at honce
    exact honce.of_append_right
  · exact fun callback hcallback => hinv.started callback (hmem callback hcallback)
  · exact fun callback hcallback => hinv.increments callback (hmem callback hcallback)

/-- The callback is made, and its record gets the `end` that holds then. -/
theorem Inv.callback (hinv : Inv maxCnt s) {callback : TimerCallback}
    (hpending : s.pending = some callback) : Inv maxCnt (s.increment maxCnt) := by
  have hstep : s.increment maxCnt =
      { s with
        pending := none
        callbacks := { callback with ended := s.ended } :: s.callbacks } := by
    rw [increment, hpending]
  have hdecided : s.decided = callback :: s.callbacks := by
    rw [decided, hpending]
    rfl
  have hkept : ∀ P : TimerCallback → Prop, P { callback with ended := s.ended } →
      (∀ other ∈ s.decided, P other) → ∀ other ∈ (s.increment maxCnt).decided, P other := by
    intro P hlast hall other hother
    rw [hstep] at hother
    rcases List.mem_cons.mp hother with hsame | hearlier
    · rw [hsame]
      exact hlast
    · exact hall other (hdecided ▸ List.mem_cons_of_mem _ hearlier)
  have hmem : callback ∈ s.decided := hdecided ▸ List.mem_cons_self
  constructor
  · rw [hstep]
    exact hinv.counted
  · intro hcounted
    rw [hstep] at hcounted
    obtain ⟨hpos, hbefore⟩ := hinv.fresh hcounted
    rw [hstep] at hkept ⊢
    exact ⟨hpos, hkept _ (hbefore callback hmem) hbefore⟩
  · have honce := hinv.once
    rw [hdecided] at honce
    rw [hstep]
    exact honce
  · rw [hstep] at hkept ⊢
    exact hkept _ (hinv.started callback hmem) hinv.started
  · exact hkept _ (hinv.increments callback hmem) hinv.increments
  · rw [hstep] at hkept ⊢
    exact hkept _ (hinv.resets callback hmem) hinv.resets
  · intro number hstopped
    rw [hstep] at hstopped ⊢
    exact ⟨(hinv.stopped number hstopped).1, by simp⟩
  · rw [hstep]
    intro other hother number hended
    rcases List.mem_cons.mp hother with hsame | hearlier
    · rw [hsame] at hended ⊢
      exact (hinv.stopped number (.inr hended)).2 callback (by rw [hpending]; rfl)
    · exact hinv.late other hearlier number hended

theorem Inv.count (hinv : Inv maxCnt s) (hnone : s.pending = none) (hcnt : s.cnt ≠ initCnt)
    (hless : s.cnt < maxCnt) : Inv maxCnt (s.increment maxCnt) := by
  have hstep : s.increment maxCnt =
      { s with cnt := s.cnt + 1, counted := s.counted.map (· + 1) } := by
    rw [increment, hnone]
    simp only [if_neg hcnt, if_pos hless]
  rw [hstep]
  rcases hinv.counted with ⟨hstopped, _⟩ | ⟨k, hk, hcounted⟩
  · exact absurd hstopped hcnt
  · have hnever : ∀ number, ¬ s.Stopped number := by
      intro number hstopped
      rw [(hinv.stopped number hstopped).1] at hcounted
      cases hcounted
    have hfresh := hinv.fresh (by rw [hcounted]; simp)
    exact
      { hinv with
        counted := .inr ⟨k + 1, by rw [hk]; rfl, by rw [hcounted]; rfl⟩
        fresh := fun _ => hfresh
        stopped := fun number hstopped => absurd hstopped (hnever number) }

theorem Inv.expire (hinv : Inv maxCnt s) (hnone : s.pending = none) (hcnt : s.cnt ≠ initCnt)
    (hreached : ¬ s.cnt < maxCnt) : Inv maxCnt (s.increment maxCnt) := by
  have hstep : s.increment maxCnt =
      { s with
        cnt := initCnt
        pending := some ⟨s.starts, s.counted.getD 0 + 1, s.resets, none⟩
        counted := none } := by
    rw [increment, hnone]
    simp only [if_neg hcnt, if_neg hreached]
  rw [hstep]
  rcases hinv.counted with ⟨hstopped, _⟩ | ⟨k, hk, hcounted⟩
  · exact absurd hstopped hcnt
  · have hnever : ∀ number, ¬ s.Stopped number := by
      intro number hstopped
      rw [(hinv.stopped number hstopped).1] at hcounted
      cases hcounted
    obtain ⟨hpos, hbefore⟩ := hinv.fresh (by rw [hcounted]; simp)
    have hdecided : s.decided = s.callbacks := by
      rw [decided, hnone]
      rfl
    have hkept : ∀ P : TimerCallback → Prop,
        P ⟨s.starts, s.counted.getD 0 + 1, s.resets, none⟩ → (∀ other ∈ s.decided, P other) →
        ∀ other ∈ (⟨s.starts, s.counted.getD 0 + 1, s.resets, none⟩ : TimerCallback) ::
          s.callbacks, P other := by
      intro P hlast hall
      rw [List.forall_mem_cons]
      exact ⟨hlast, hdecided ▸ hall⟩
    constructor
    · exact .inl ⟨rfl, rfl⟩
    · exact fun hcontra => absurd rfl hcontra
    · have honce := hinv.once
      rw [hdecided] at honce hbefore
      refine List.nodup_cons.mpr ⟨?_, honce⟩
      intro hmem
      obtain ⟨other, hother, hsame⟩ := List.mem_map.mp hmem
      exact absurd hsame (hbefore other hother).ne
    · exact hkept _ ⟨hpos, le_rfl⟩ hinv.started
    · refine hkept _ ?_ hinv.increments
      rw [hcounted, Option.getD_some]
      push_cast
      omega
    · exact hkept _ le_rfl hinv.resets
    · exact fun number hstopped => absurd hstopped (hnever number)
    · exact hinv.late

theorem Inv.increment (hinv : Inv maxCnt s) : Inv maxCnt (s.increment maxCnt) := by
  cases hpending : s.pending with
  | some callback => exact hinv.callback hpending
  | none =>
      by_cases hcnt : s.cnt = initCnt
      · have hsame : s.increment maxCnt = s := by
          rw [ThreadTimer.increment, hpending]
          simp only [if_pos hcnt]
        rwa [hsame]
      · by_cases hless : s.cnt < maxCnt
        · exact hinv.count hpending hcnt hless
        · exact hinv.expire hpending hcnt hless

theorem Inv.start (hinv : Inv maxCnt s) (hclient : s.client = .idle) :
    Inv maxCnt s.start := by
  unfold ThreadTimer.start
  split_ifs with hcnt
  · exact hinv
  · have hlater : ∀ callback ∈ s.decided,
        0 < callback.start ∧ callback.start ≤ s.starts + 1 := by
      intro callback hcallback
      obtain ⟨hpos, hle⟩ := hinv.started callback hcallback
      exact ⟨hpos, hle.trans (Nat.le_succ _)⟩
    exact
      { hinv with
        counted := .inr ⟨0, rfl, rfl⟩
        fresh := fun _ => ⟨Nat.succ_pos _, fun callback hcallback =>
          Nat.lt_succ_of_le (hinv.started callback hcallback).2⟩
        started := hlater
        stopped := by simp [Stopped, hclient] }

theorem Inv.reset (hinv : Inv maxCnt s) : Inv maxCnt s.reset := by
  have hpending : ∀ callback ∈ s.pending, callback.resets < s.resets + 1 := by
    intro callback hcallback
    apply Nat.lt_succ_of_le
    apply hinv.resets callback
    exact List.mem_append_left _ (Option.mem_toList.mpr hcallback)
  exact
    { hinv with
      counted := .inl ⟨rfl, rfl⟩
      fresh := fun hcontra => absurd rfl hcontra
      resets := fun callback hcallback => (hinv.resets callback hcallback).trans (Nat.le_succ _)
      stopped := by
        intro number hstopped
        refine ⟨rfl, ?_⟩
        rcases hstopped with hnow | hearlier
        · cases hnow
          exact hpending
        · exact (hinv.stopped number (.inr hearlier)).2 }

theorem Inv.return (hinv : Inv maxCnt s) {number : ℕ} (hclient : s.client = .ending number) :
    Inv maxCnt { s with client := .idle, ended := some number } :=
  { hinv with
    stopped := by
      intro other hstopped
      rcases hstopped with hcontra | hsame
      · cases hcontra
      · cases hsame
        exact hinv.stopped number (.inl hclient) }

theorem Inv.step (hinv : Inv maxCnt s) (event : TimerEvent) : Inv maxCnt (s.step maxCnt event) := by
  cases event with
  | increment => exact hinv.increment
  | start =>
      cases hclient : s.client with
      | idle =>
          simp only [ThreadTimer.step, hclient]
          exact hinv.start hclient
      | ending number =>
          simp only [ThreadTimer.step, hclient]
          exact hinv.return hclient
  | «end» =>
      cases hclient : s.client with
      | idle =>
          simp only [ThreadTimer.step, hclient]
          exact hinv.reset
      | ending number =>
          simp only [ThreadTimer.step, hclient]
          exact hinv.return hclient

/-- In every interleaving a start has at most one callback, after its increments, and an `end`
lets through only a callback that was decided on before it. -/
theorem callsOnce_and_endStopsCounting (maxCnt : ℤ) (events : List TimerEvent) :
    (run (step maxCnt) initial events).CallsOnce maxCnt ∧
      (run (step maxCnt) initial events).EndStopsCounting := by
  have hinv : Inv maxCnt (run (step maxCnt) initial events) :=
    run_invariant (Inv maxCnt) (initial_inv maxCnt) (fun _ event hinv => hinv.step event) events
  exact ⟨hinv.callsOnce, hinv.late⟩

/-- The increment has left its critical section when `end` is called and returns. -/
def endBeforeTheCallback : List TimerEvent := [.start, .increment, .end, .end, .increment]

theorem not_endIsFinal_endBeforeTheCallback :
    ¬ ∀ (maxCnt : ℤ) (events : List TimerEvent),
      (run (step maxCnt) initial events).CallsOnce maxCnt ∧
        (run (step maxCnt) initial events).EndIsFinal := by
  intro hall
  have hfinal := (hall 0 endBeforeTheCallback).2
  have hcallbacks : (run (step 0) initial endBeforeTheCallback).callbacks =
      [⟨1, 1, 0, some 1⟩] := by decide
  rw [EndIsFinal, hcallbacks] at hfinal
  exact absurd (hfinal _ List.mem_cons_self) (by decide)

end ThreadTimer

end CppPlay.MultiThread
