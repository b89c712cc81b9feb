import CppPlay.Lib.Run
import CppPlay.Proxygen.ServerCounters

/-!
# Sampling the ratio of timeouts

The ratio is taken over windows of the history of the two counters.  The checks for a
negative difference are never met, so it is the interval alone that decides.
-/

namespace CppPlay.CppTools

open CppPlay.Lib

inductive CounterEvent where
  | request
  | timeout
  | update
  deriving DecidableEq

namespace CurrentRatioCounter

/-- The request and the timeout counter as of the last sample. -/
def position (counter : CurrentRatioCounter) : ℕ × ℕ :=
  (counter.previousX.toNat, counter.previousY.toNat)

def divisor (counter : CurrentRatioCounter) (xCounter : Counter) : UInt64 :=
  xCounter.get - counter.previousX

/-- `update` comes to the division. -/
def takesSample (counter : CurrentRatioCounter) (xCounter : Counter) : Bool :=
  counter.isEnabled && !(counter.divisor xCounter < counter.interval)

end CurrentRatioCounter

structure Sample where
  start : ℕ × ℕ
  stop : ℕ × ℕ
  interval : UInt64
  ratio : UInt64
  /-- The increments made until then. -/
  counted : ℕ × ℕ

structure Sampling where
  counters : ServerCounters
  requested : ℕ
  timeouted : ℕ
  /-- The last one first. -/
  samples : List Sample

namespace Sampling

def start (flags : Flags) : Sampling := ⟨setCounters flags .make, 0, 0, []⟩

def ratioCounter (s : Sampling) : CurrentRatioCounter := s.counters.timeoutedRequestRatio

def takesSample (s : Sampling) : Bool := s.ratioCounter.takesSample s.counters.requests

def updated (s : Sampling) : CurrentRatioCounter :=
  s.ratioCounter.update s.counters.requests s.counters.timeoutedRequests

def sample (s : Sampling) : Sample :=
  { start := s.ratioCounter.position
    stop := s.updated.position
    interval := s.ratioCounter.interval
    ratio := s.updated.ratio
    counted := (s.requested, s.timeouted) }

def step (s : Sampling) : CounterEvent → Sampling
  | .request =>
      { s with
        counters := { s.counters with requests := s.counters.requests.increment }
        requested := s.requested + 1 }
  | .timeout =>
      { s with
        counters := { s.counters with timeoutedRequests := s.counters.timeoutedRequests.increment }
        timeouted := s.timeouted + 1 }
  | .update =>
      { s with
        counters := { s.counters with timeoutedRequestRatio := s.updated }
        samples := if s.takesSample then s.sample :: s.samples else s.samples }

/-- The windows follow each other from the start of the history to a position. -/
def Tiles : List Sample → ℕ × ℕ → Prop
  | [], stop => stop = (0, 0)
  | sample :: older, stop => sample.stop = stop ∧ Tiles older sample.start

def lastRatio : List Sample → UInt64
  | [] => 0
  | sample :: _ => sample.ratio

def intervalInForce (maxRatio : UInt64) (samples : List Sample) : UInt64 :=
  if maxRatio < lastRatio samples then CurrentRatioCounter.minInterval
  else CurrentRatioCounter.maxInterval

structure Measures (sample : Sample) : Prop where
  stop : sample.stop = sample.counted
  requests : sample.start.1 + sample.interval.toNat ≤ sample.stop.1
  timeouts : sample.start.2 ≤ sample.stop.2
  ratio : sample.ratio.toNat =
    100 * (sample.stop.2 - sample.start.2) / (sample.stop.1 - sample.start.1)

def AllMeasure (maxRatio : UInt64) : List Sample → Prop
  | [] => True
  | sample :: older =>
      (Measures sample ∧ sample.interval = intervalInForce maxRatio older) ∧
        AllMeasure maxRatio older

structure SamplesHistory (maxRatio : UInt64) (s : Sampling) : Prop where
  divisor : s.takesSample = true → s.ratioCounter.divisor s.counters.requests ≠ 0
  unsampled : s.takesSample = false → s.updated = s.ratioCounter
  tiles : Tiles s.samples s.ratioCounter.position
  measures : AllMeasure maxRatio s.samples
  ratio : s.ratioCounter.ratio = lastRatio s.samples
  interval : s.ratioCounter.interval = intervalInForce maxRatio s.samples

/-! ## One update -/

section Update

variable {counter : CurrentRatioCounter} {xCounter yCounter : Counter}

theorem update_of_takesSample (htakes : counter.takesSample xCounter = true) :
    counter.update xCounter yCounter =
      { counter with
        ratio := (yCounter.get - counter.previousY) * 100 / counter.divisor xCounter
        previousX := xCounter.get
        previousY := yCounter.get
        interval :=
          if (yCounter.get - counter.previousY) * 100 / counter.divisor xCounter >
            counter.maxRatio then CurrentRatioCounter.minInterval
          else CurrentRatioCounter.maxInterval } := by
  rw [CurrentRatioCounter.takesSample, Bool.and_eq_true, Bool.not_eq_true',
    decide_eq_false_iff_not] at htakes
  obtain ⟨henabled, hlong⟩ := htakes
  have hlimit : counter.maxRatio < Proxygen.maxUInt64 := of_decide_eq_true henabled
  unfold CurrentRatioCounter.divisor at hlong
  simp [CurrentRatioCounter.update, CurrentRatioCounter.isOverloaded,
    CurrentRatioCounter.isEnabled, CurrentRatioCounter.divisor, hlimit, hlong]

theorem update_of_not_takesSample (htakes : counter.takesSample xCounter = false) :
    counter.update xCounter yCounter = counter := by
  unfold CurrentRatioCounter.update
  cases henabled : counter.isEnabled with
  | false => rfl
  | true =>
      rw [CurrentRatioCounter.takesSample, henabled, Bool.true_and, Bool.not_eq_false',
        decide_eq_true_iff, CurrentRatioCounter.divisor] at htakes
      simp [htakes]

end Update

/-! ## The whole history -/

/-- The counters of an enabled ratio hold the numbers of increments. -/
structure Inv (maxRatio : UInt64) (s : Sampling) : Prop where
  maxRatio_eq : s.ratioCounter.maxRatio = maxRatio
  requests : s.ratioCounter.isEnabled = true →
    s.counters.requests.enabled = true ∧ s.counters.requests.value.toNat = s.requested
  timeouts : s.ratioCounter.isEnabled = true →
    s.counters.timeoutedRequests.enabled = true ∧
      s.counters.timeoutedRequests.value.toNat = s.timeouted
  previousX : s.ratioCounter.previousX.toNat ≤ s.requested
  previousY : s.ratioCounter.previousY.toNat ≤ s.timeouted
  tiles : Tiles s.samples s.ratioCounter.position
  measures : AllMeasure maxRatio s.samples
  ratio : s.ratioCounter.ratio = lastRatio s.samples
  interval : s.ratioCounter.interval = intervalInForce maxRatio s.samples

def Bounded (s : Sampling) : Prop := 100 * s.requested < 2 ^ 64 ∧ 100 * s.timeouted < 2 ^ 64

variable {maxRatio : UInt64} {s : Sampling}

theorem get_of_enabled {counter : Counter} (henabled : counter.enabled = true) :
    counter.get = counter.value := if_pos henabled

theorem Inv.get_requests (hinv : Inv maxRatio s) (henabled : s.ratioCounter.isEnabled = true) :
    s.counters.requests.get.toNat = s.requested := by
  obtain ⟨hflag, hvalue⟩ := hinv.requests henabled
  rw [get_of_enabled hflag, hvalue]

theorem Inv.get_timeouts (hinv : Inv maxRatio s) (henabled : s.ratioCounter.isEnabled = true) :
    s.counters.timeoutedRequests.get.toNat = s.timeouted := by
  obtain ⟨hflag, hvalue⟩ := hinv.timeouts henabled
  rw [get_of_enabled hflag, hvalue]

theorem toNat_sub_of_toNat_le {a b : UInt64} (hle : b.toNat ≤ a.toNat) :
    (a - b).toNat = a.toNat - b.toNat :=
  UInt64.toNat_sub_of_le a b (UInt64.le_iff_toNat_le.mpr hle)

theorem Inv.divisor (hinv : Inv maxRatio s) (henabled : s.ratioCounter.isEnabled = true) :
    (s.ratioCounter.divisor s.counters.requests).toNat =
      s.requested - s.ratioCounter.previousX.toNat := by
  have hx := hinv.get_requests henabled
  rw [CurrentRatioCounter.divisor, toNat_sub_of_toNat_le (hx.symm ▸ hinv.previousX), hx]

theorem intervalInForce_pos (maxRatio : UInt64) (samples : List Sample) :
    0 < (intervalInForce maxRatio samples).toNat := by
  unfold intervalInForce
  split_ifs <;> decide

theorem isEnabled_of_takesSample (htakes : s.takesSample = true) :
    s.ratioCounter.isEnabled = true := by
  rw [takesSample, CurrentRatioCounter.takesSample, Bool.and_eq_true] at htakes
  exact htakes.1

theorem Inv.interval_le (hinv : Inv maxRatio s) (htakes : s.takesSample = true) :
    s.ratioCounter.interval.toNat ≤ s.requested - s.ratioCounter.previousX.toNat := by
  rw [← hinv.divisor (isEnabled_of_takesSample htakes)]
  rw [takesSample, CurrentRatioCounter.takesSample, Bool.and_eq_true, Bool.not_eq_true',
    decide_eq_false_iff_not, UInt64.not_lt] at htakes
  exact UInt64.le_iff_toNat_le.mp htakes.2

theorem Inv.samplesHistory (hinv : Inv maxRatio s) : SamplesHistory maxRatio s := by
  constructor
  · intro htakes hzero
    have hinterval := hinv.interval_le htakes
    have hpos := intervalInForce_pos maxRatio s.samples
    have hdivisor := hinv.divisor (isEnabled_of_takesSample htakes)
    rw [hzero] at hdivisor
    rw [hinv.interval] at hinterval
    have hnone : (0 : UInt64).toNat = 0 := rfl
    omega
  · exact fun htakes => update_of_not_takesSample htakes
  · exact hinv.tiles
  · exact hinv.measures
  · exact hinv.ratio
  · exact hinv.interval

theorem toNat_ratio {dx dy : UInt64} (hdy : 100 * dy.toNat < 2 ^ 64) :
    (dy * 100 / dx).toNat = 100 * dy.toNat / dx.toNat := by
  have hhundred : (100 : UInt64).toNat = 100 := rfl
  rw [UInt64.toNat_div, UInt64.toNat_mul, hhundred, Nat.mul_comm, Nat.mod_eq_of_lt hdy]

/-- The window of a sample ends with all that has been counted. -/
theorem Inv.measures_sample (hinv : Inv maxRatio s) (hbounded : s.Bounded)
    (htakes : s.takesSample = true) : Measures s.sample := by
  have henabled := isEnabled_of_takesSample htakes
  have hx := hinv.get_requests henabled
  have hy := hinv.get_timeouts henabled
  have hinterval := hinv.interval_le htakes
  have hpreviousX := hinv.previousX
  have hpreviousY := hinv.previousY
  have hdy : (s.counters.timeoutedRequests.get - s.ratioCounter.previousY).toNat =
      s.timeouted - s.ratioCounter.previousY.toNat := by
    rw [toNat_sub_of_toNat_le (hy.symm ▸ hpreviousY), hy]
  have hupdated : s.updated = _ := update_of_takesSample htakes
  have hstop : s.updated.position = (s.requested, s.timeouted) := by
    rw [hupdated, CurrentRatioCounter.position, hx, hy]
  have hratio : s.updated.ratio.toNat =
      100 * (s.timeouted - s.ratioCounter.previousY.toNat) /
        (s.requested - s.ratioCounter.previousX.toNat) := by
    obtain ⟨_, htimeouts⟩ := hbounded
    rw [hupdated, toNat_ratio, hdy, hinv.divisor henabled]
    rw [hdy]
    omega
  have hsample : s.sample.stop = (s.requested, s.timeouted) := hstop
  have hstart : s.sample.start = s.ratioCounter.position := rfl
  have hforce : s.sample.interval = s.ratioCounter.interval := rfl
  constructor
  · exact hstop
  · rw [hsample, hstart, hforce, CurrentRatioCounter.position]
    omega
  · rw [hsample, hstart]
    exact hpreviousY
  · rw [hsample, hstart]
    exact hratio

theorem Inv.update_of_takesSample (hinv : Inv maxRatio s) (hbounded : s.Bounded)
    (htakes : s.takesSample = true) : Inv maxRatio (s.step .update) := by
  have hmeasures := hinv.measures_sample hbounded htakes
  have henabled := isEnabled_of_takesSample htakes
  have hsamples : (s.step .update).samples = s.sample :: s.samples := if_pos htakes
  have hcounter : (s.step .update).ratioCounter = s.updated := rfl
  have hposition : s.updated.position = (s.requested, s.timeouted) := hmeasures.stop
  have hupdated : s.updated = _ := Sampling.update_of_takesSample htakes
  have hmaxRatio : s.updated.maxRatio = maxRatio := by
    rw [hupdated]
    exact hinv.maxRatio_eq
  constructor
  · rw [hcounter, hmaxRatio]
  · exact fun _ => hinv.requests henabled
  · exact fun _ => hinv.timeouts henabled
  · exact (congrArg Prod.fst hposition).le
  · exact (congrArg Prod.snd hposition).le
  · rw [hsamples, hcounter]
    exact ⟨rfl, hinv.tiles⟩
  · rw [hsamples]
    exact ⟨⟨hmeasures, hinv.interval⟩, hinv.measures⟩
  · rw [hsamples, hcounter]
    rfl
  · rw [hsamples, hcounter, intervalInForce, lastRatio, sample, hupdated, ← hinv.maxRatio_eq]

theorem Inv.update (hinv : Inv maxRatio s) (hbounded : s.Bounded) :
    Inv maxRatio (s.step .update) := by
  cases htakes : s.takesSample with
  | true => exact hinv.update_of_takesSample hbounded htakes
  | false =>
      have hupdated : s.updated = s.ratioCounter := update_of_not_takesSample htakes
      have hsame : s.step .update = s := by
        simp only [Sampling.step, hupdated, htakes, Bool.false_eq_true, if_false]
        rfl
      rwa [hsame]

theorem toNat_increment {counter : Counter} {n : ℕ} (henabled : counter.enabled = true)
    (hvalue : counter.value.toNat = n) (hbound : 100 * (n + 1) < 2 ^ 64) :
    counter.increment.enabled = true ∧ counter.increment.value.toNat = n + 1 := by
  rw [Counter.increment, Counter.isEnabled, if_pos henabled]
  have hone : (1 : UInt64).toNat = 1 := rfl
  exact ⟨henabled, by rw [UInt64.toNat_add, hvalue, hone, Nat.mod_eq_of_lt (by omega)]⟩

theorem Bounded.of_step {event : CounterEvent} (hbounded : (s.step event).Bounded) :
    s.Bounded := by
  cases event with
  | request =>
      obtain ⟨hrequests, htimeouts⟩ := hbounded
      simp only [Sampling.step] at hrequests
      exact ⟨by omega, htimeouts⟩
  | timeout =>
      obtain ⟨hrequests, htimeouts⟩ := hbounded
      simp only [Sampling.step] at htimeouts
      exact ⟨hrequests, by omega⟩
  | update => exact hbounded

theorem Inv.step (hinv : Inv maxRatio s) (event : CounterEvent)
    (hbounded : (s.step event).Bounded) : Inv maxRatio (s.step event) := by
  cases event with
  | request =>
      exact
        { hinv with
          requests := fun henabled =>
            toNat_increment (hinv.requests henabled).1 (hinv.requests henabled).2 hbounded.1
          previousX := hinv.previousX.trans (Nat.le_succ _) }
  | timeout =>
      exact
        { hinv with
          timeouts := fun henabled =>
            toNat_increment (hinv.timeouts henabled).1 (hinv.timeouts henabled).2 hbounded.2
          previousY := hinv.previousY.trans (Nat.le_succ _) }
  | update => exact hinv.update hbounded.of_step

/-- The limit that `setCounters` gives to the ratio. -/
def maxRatioOf (flags : Flags) : UInt64 :=
  if 0 < flags.HTTP_SERVER_MAX_TIMEOUTED_REQUEST_RATIO then
    flags.HTTP_SERVER_MAX_TIMEOUTED_REQUEST_RATIO
  else Proxygen.maxUInt64

theorem ratio_setCounters (flags : Flags) :
    (setCounters flags .make).timeoutedRequestRatio =
      { CurrentRatioCounter.make with maxRatio := maxRatioOf flags } := by
  rw [setCounters, maxRatioOf]
  split_ifs with hlimit
  · rw [ServerCounters.setMaxRatio]
    split_ifs <;> rfl
  · rfl

theorem value_setCounters (flags : Flags) :
    (setCounters flags .make).requests.value = 0 ∧
      (setCounters flags .make).timeoutedRequests.value = 0 := by
  rw [setCounters, ServerCounters.setMaxRatio]
  split_ifs <;> exact ⟨value_enableIf _ _, value_enableIf _ _⟩

theorem enabled_setCounters {flags : Flags} (henabled : maxRatioOf flags < Proxygen.maxUInt64) :
    (setCounters flags .make).requests.enabled = true ∧
      (setCounters flags .make).timeoutedRequests.enabled = true := by
  rw [maxRatioOf] at henabled
  rw [setCounters, ServerCounters.setMaxRatio, CurrentRatioCounter.isEnabled]
  split_ifs at henabled with hlimit
  · simp [hlimit, henabled, Counter.enable]
  · exact absurd henabled (UInt64.lt_irrefl _)

theorem inv_start (flags : Flags) : Inv (maxRatioOf flags) (start flags) := by
  have hratio : (start flags).ratioCounter = _ := ratio_setCounters flags
  obtain ⟨hrequests, htimeouts⟩ := value_setCounters flags
  have hlimit : (start flags).ratioCounter.isEnabled = true →
      maxRatioOf flags < Proxygen.maxUInt64 := by
    intro henabled
    rw [hratio] at henabled
    exact of_decide_eq_true henabled
  constructor
  · rw [hratio]
  · intro henabled
    exact ⟨(enabled_setCounters (hlimit henabled)).1, congrArg UInt64.toNat hrequests⟩
  · intro henabled
    exact ⟨(enabled_setCounters (hlimit henabled)).2, congrArg UInt64.toNat htimeouts⟩
  · rw [hratio]
    rfl
  · rw [hratio]
    rfl
  · rw [hratio]
    rfl
  · trivial
  · rw [hratio]
    rfl
  · have hnone : ¬ maxRatioOf flags < 0 := UInt64.not_lt_zero
    rw [hratio, start, intervalInForce, lastRatio, if_neg hnone]
    rfl

theorem counts_run (s : Sampling) (events : List CounterEvent) :
    (run step s events).requested = s.requested + events.count .request ∧
      (run step s events).timeouted = s.timeouted + events.count .timeout := by
  induction events generalizing s with
  | nil => exact ⟨rfl, rfl⟩
  | cons event events ih =>
      obtain ⟨hrequested, htimeouted⟩ := ih (s.step event)
      rw [run_cons, hrequested, htimeouted]
      cases event <;> simp [Sampling.step] <;> omega

theorem inv_run (flags : Flags) (events : List CounterEvent) :
    (run step (start flags) events).Bounded →
      Inv (maxRatioOf flags) (run step (start flags) events) := by
  apply run_invariant fun s => s.Bounded → Inv (maxRatioOf flags) s
  · exact fun _ => inv_start flags
  · intro s event hinv hbounded
    exact (hinv hbounded.of_step).step event hbounded

/-- While a hundred times the counters fits, each sample is the share of timeouts in its window
and the windows cover the history. -/
theorem samplesHistory_run (flags : Flags) (events : List CounterEvent)
    (hrequests : 100 * events.count .request < 2 ^ 64)
    (htimeouts : 100 * events.count .timeout < 2 ^ 64) :
    SamplesHistory (maxRatioOf flags) (run step (start flags) events) := by
  apply Inv.samplesHistory
  apply inv_run
  obtain ⟨hrequested, htimeouted⟩ := counts_run (start flags) events
  have hnone : (start flags).requested = 0 ∧ (start flags).timeouted = 0 := ⟨rfl, rfl⟩
  constructor <;> omega

def limitedFlags : Flags := ⟨false, false, false, false, 0, 0, 50⟩

/-- A hundred requests, three of them late, make one sample. -/
def hundredRequests : List CounterEvent :=
  List.replicate 100 .request ++ [.timeout, .timeout, .timeout, .update]

theorem samplesHistory_hundredRequests :
    (run step (start limitedFlags) hundredRequests).samples.map Sample.ratio = [3] ∧
      SamplesHistory 50 (run step (start limitedFlags) hundredRequests) :=
  ⟨by decide +kernel,
    samplesHistory_run limitedFlags hundredRequests (by decide +kernel) (by decide +kernel)⟩

end Sampling

end CppPlay.CppTools
