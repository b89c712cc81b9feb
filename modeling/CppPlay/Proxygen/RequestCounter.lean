import CppPlay.Proxygen.ServerCounters

/-!
# The counter of current requests

A request handler counts up when it gets its acceptor and down when it is destroyed.
With the largest limit the flag of the base is set but the counter is not enabled, so
only the counting up is done.
-/

namespace CppPlay.CppTools

open CppPlay.Lib CppPlay.Proxygen

/-- The counters with the handlers that have the acceptor and live. -/
structure RequestAcceptor where
  counters : ServerCounters
  handlers : Finset Address

inductive HandlerEvent where
  | setHTTPServerAcceptor (handler : Address)
  | destroy (handler : Address)

namespace RequestAcceptor

def start (flags : Flags) : RequestAcceptor := ⟨setCounters flags .make, ∅⟩

def setHTTPServerAcceptor (counters : ServerCounters) : ServerCounters :=
  let counters := { counters with requests := counters.requests.increment }
  let counters := { counters with currentRequests := counters.currentRequests.increment }
  { counters with
    timeoutedRequestRatio :=
      counters.timeoutedRequestRatio.update counters.requests counters.timeoutedRequests }

/-- `~RequestHandlerBase` of a handler that has the acceptor. -/
def destroyed (counters : ServerCounters) : ServerCounters :=
  { counters with currentRequests := counters.currentRequests.decrement }

/-- A handler that never got the acceptor is destroyed without a trace. -/
def step (s : RequestAcceptor) : HandlerEvent → RequestAcceptor
  | .setHTTPServerAcceptor handler =>
      ⟨setHTTPServerAcceptor s.counters, insert handler s.handlers⟩
  | .destroy handler =>
      if handler ∈ s.handlers then ⟨destroyed s.counters, s.handlers.erase handler⟩ else s

/-- The number of the handlers while the counter is enabled, otherwise zero, compared as
numbers without a bound. -/
structure CountsHandlers (maxValue : UInt64) (s : RequestAcceptor) : Prop where
  value : s.counters.currentRequests.base.value.toNat =
    if s.counters.currentRequests.isEnabled then s.handlers.card else 0
  overloaded : s.counters.currentRequests.isOverloaded = true ↔
    maxValue.toNat < s.handlers.card

/-- A handler gets its acceptor once, and only where the limit leaves the counter enabled. -/
def CountedOnce (maxValue : UInt64) (s : RequestAcceptor) : HandlerEvent → Prop
  | .setHTTPServerAcceptor handler => maxValue < maxUInt64 ∧ handler ∉ s.handlers
  | .destroy _ => True

structure Inv (maxValue : UInt64) (s : RequestAcceptor) : Prop where
  maxValue_eq : s.counters.currentRequests.maxValue = maxValue
  enabled : s.counters.currentRequests.base.enabled = true
  value : s.counters.currentRequests.base.value.toNat =
    if maxValue < maxUInt64 then s.handlers.card else 0

variable {maxValue : UInt64} {s : RequestAcceptor}

theorem Inv.countsHandlers (hinv : Inv maxValue s) : CountsHandlers maxValue s := by
  have hvalue := hinv.value
  constructor
  · simpa [CurrentCounter.isEnabled, hinv.maxValue_eq] using hvalue
  · rw [CurrentCounter.isOverloaded, CurrentCounter.isEnabled, hinv.maxValue_eq]
    by_cases hlimit : maxValue < maxUInt64
    · rw [if_pos hlimit] at hvalue
      simp [hlimit, UInt64.lt_iff_toNat_lt, hvalue]
    · have hcard := card_le_maxUInt64 s.handlers
      have hmax : maxUInt64.toNat ≤ maxValue.toNat :=
        UInt64.le_iff_toNat_le.mp (UInt64.not_lt.mp hlimit)
      simp only [hlimit, decide_false, Bool.false_eq_true, if_false, false_iff]
      omega

theorem inv_start {flags : Flags} (hlimit : 0 < flags.HTTP_SERVER_MAX_REQUESTS_PER_IO_THREAD) :
    Inv flags.HTTP_SERVER_MAX_REQUESTS_PER_IO_THREAD (start flags) := by
  obtain ⟨_, hcurrent, _⟩ := counters_setCounters flags .make
  rw [ServerCounters.make, limitIfSet_make hlimit] at hcurrent
  refine ⟨?_, ?_, ?_⟩ <;> rw [start, ServerCounters.make, hcurrent]
  simp

theorem currentRequests_setHTTPServerAcceptor {counters : ServerCounters}
    (henabled : counters.currentRequests.base.enabled = true) :
    (setHTTPServerAcceptor counters).currentRequests =
      ⟨⟨counters.currentRequests.base.value + 1, true⟩, counters.currentRequests.maxValue⟩ := by
  have hincrement : (setHTTPServerAcceptor counters).currentRequests =
      counters.currentRequests.increment := rfl
  rw [hincrement, CurrentCounter.increment, Counter.increment, Counter.isEnabled,
    if_pos henabled, henabled]

theorem toNat_succ_of_notMem {value : UInt64} {handlers : Finset Address} {handler : Address}
    (hvalue : value.toNat = handlers.card) (hnew : handler ∉ handlers) :
    (value + 1).toNat = (insert handler handlers).card := by
  have hlt : handlers.card < 18446744073709551615 := card_lt_maxUInt64 hnew
  rw [UInt64.toNat_add, hvalue, Finset.card_insert_of_notMem hnew, UInt64.toNat_one]
  omega

theorem toNat_pred_of_mem {value : UInt64} {handlers : Finset Address} {handler : Address}
    (hvalue : value.toNat = handlers.card) (hmem : handler ∈ handlers) :
    0 < value ∧ (value - 1).toNat = (handlers.erase handler).card := by
  have hpos : 0 < handlers.card := Finset.card_pos.mpr ⟨handler, hmem⟩
  have hvaluePos : 0 < value := by
    rw [UInt64.lt_iff_toNat_lt, hvalue]
    exact hpos
  have hone : (1 : UInt64) ≤ value := by
    rw [UInt64.le_iff_toNat_le, hvalue]
    exact hpos
  refine ⟨hvaluePos, ?_⟩
  rw [UInt64.toNat_sub_of_le _ _ hone, hvalue, Finset.card_erase_of_mem hmem]
  rfl

theorem Inv.destroyed (hinv : Inv maxValue s) {handler : Address} (hmem : handler ∈ s.handlers) :
    Inv maxValue ⟨RequestAcceptor.destroyed s.counters, s.handlers.erase handler⟩ := by
  have hvalue := hinv.value
  by_cases hlimit : maxValue < maxUInt64
  · rw [if_pos hlimit] at hvalue
    obtain ⟨hpos, hpred⟩ := toNat_pred_of_mem hvalue hmem
    have henabled : s.counters.currentRequests.isEnabled = true := by
      rw [CurrentCounter.isEnabled, hinv.maxValue_eq]
      exact decide_eq_true hlimit
    have hdecrement : s.counters.currentRequests.decrement =
        ⟨⟨s.counters.currentRequests.base.value - 1, s.counters.currentRequests.base.enabled⟩,
          s.counters.currentRequests.maxValue⟩ := by
      rw [CurrentCounter.decrement, if_pos henabled, if_pos hpos]
    refine ⟨?_, ?_, ?_⟩ <;> rw [RequestAcceptor.destroyed, hdecrement]
    · exact hinv.maxValue_eq
    · exact hinv.enabled
    · rw [if_pos hlimit]
      exact hpred
  · have hdecrement : s.counters.currentRequests.decrement = s.counters.currentRequests := by
      rw [CurrentCounter.decrement, CurrentCounter.isEnabled, hinv.maxValue_eq]
      simp [hlimit]
    refine ⟨?_, ?_, ?_⟩ <;> rw [RequestAcceptor.destroyed, hdecrement]
    · exact hinv.maxValue_eq
    · exact hinv.enabled
    · rw [hvalue, if_neg hlimit, if_neg hlimit]

theorem Inv.step (hinv : Inv maxValue s) {event : HandlerEvent}
    (honce : CountedOnce maxValue s event) : Inv maxValue (s.step event) := by
  cases event with
  | setHTTPServerAcceptor handler =>
      obtain ⟨hlimit, hnew⟩ := honce
      have hvalue := hinv.value
      rw [if_pos hlimit] at hvalue
      refine ⟨?_, ?_, ?_⟩ <;>
        rw [RequestAcceptor.step, currentRequests_setHTTPServerAcceptor hinv.enabled]
      · exact hinv.maxValue_eq
      · rw [if_pos hlimit]
        exact toNat_succ_of_notMem hvalue hnew
  | destroy handler =>
      rw [RequestAcceptor.step]
      split_ifs with hmem
      · exact hinv.destroyed hmem
      · exact hinv

theorem Inv.not_countsHandlers_step (hinv : Inv maxValue s) {event : HandlerEvent}
    (htwice : ¬ CountedOnce maxValue s event) : ¬ CountsHandlers maxValue (s.step event) := by
  cases event with
  | setHTTPServerAcceptor handler =>
      intro hcounts
      have hafter := hcounts.value
      have hvalue := hinv.value
      rw [RequestAcceptor.step, currentRequests_setHTTPServerAcceptor hinv.enabled,
        CurrentCounter.isEnabled, hinv.maxValue_eq] at hafter
      simp only [decide_eq_true_eq, UInt64.toNat_add, UInt64.toNat_one] at hafter
      by_cases hlimit : maxValue < maxUInt64
      · have hmem : handler ∈ s.handlers := by
          by_contra hnew
          exact htwice ⟨hlimit, hnew⟩
        have hcard : s.handlers.card ≤ 18446744073709551615 := card_le_maxUInt64 s.handlers
        rw [if_pos hlimit] at hafter hvalue
        rw [Finset.insert_eq_of_mem hmem, hvalue] at hafter
        omega
      · rw [if_neg hlimit] at hafter hvalue
        rw [hvalue] at hafter
        omega
  | destroy handler => exact absurd trivial htwice

/-- The handlers are counted through a run exactly when each gets its acceptor once while it
lives, and none does where the limit is the largest number. -/
theorem countsHandlers_iff {flags : Flags}
    (hlimit : 0 < flags.HTTP_SERVER_MAX_REQUESTS_PER_IO_THREAD) (events : List HandlerEvent) :
    (∀ first, first <+: events →
      CountsHandlers flags.HTTP_SERVER_MAX_REQUESTS_PER_IO_THREAD
        (run step (start flags) first)) ↔
      ∀ earlier event later, events = earlier ++ event :: later →
        CountedOnce flags.HTTP_SERVER_MAX_REQUESTS_PER_IO_THREAD
          (run step (start flags) earlier) event :=
  always_iff_of_steps step (start flags) (Inv flags.HTTP_SERVER_MAX_REQUESTS_PER_IO_THREAD)
    (CountsHandlers flags.HTTP_SERVER_MAX_REQUESTS_PER_IO_THREAD)
    (CountedOnce flags.HTTP_SERVER_MAX_REQUESTS_PER_IO_THREAD) (inv_start hlimit)
    (fun _ hinv => hinv.countsHandlers) (fun _ _ hinv => hinv.step)
    (fun _ _ hinv => hinv.not_countsHandlers_step) events

def largestLimit : Flags := ⟨false, false, false, false, 0, 18446744073709551615, 0⟩

theorem countsHandlers_largestLimit :
    (∀ first, first <+: [.setHTTPServerAcceptor firstAddress] →
      CountsHandlers 18446744073709551615 (run step (start largestLimit) first)) ↔
      ∀ earlier event later,
        [.setHTTPServerAcceptor firstAddress] = earlier ++ event :: later →
        CountedOnce 18446744073709551615 (run step (start largestLimit) earlier) event :=
  @countsHandlers_iff largestLimit (by decide) [.setHTTPServerAcceptor firstAddress]

/-- One handler that is destroyed again, with the largest limit. -/
theorem not_countsHandlers_destroyed :
    ¬ ∀ (flags : Flags) (events : List HandlerEvent),
      0 < flags.HTTP_SERVER_MAX_REQUESTS_PER_IO_THREAD →
        CountsHandlers flags.HTTP_SERVER_MAX_REQUESTS_PER_IO_THREAD
          (run step (start flags) events) := by
  intro hall
  have hcounts := hall largestLimit
    [.setHTTPServerAcceptor firstAddress, .destroy firstAddress] (by decide)
  exact absurd hcounts.value (by decide)

end RequestAcceptor

end CppPlay.CppTools
