import CppPlay.Proxygen.RequestHandlerImpl

/-!
# The counters of the acceptor

`isEnabled` of a current counter hides the one of its base and is not virtual:
`increment` asks the flag of the base, the others whether there is a limit.
-/

namespace CppPlay.CppTools

open CppPlay.Proxygen (maxUInt64)

structure Counter where
  value : UInt64
  enabled : Bool
  deriving DecidableEq

namespace Counter

def make : Counter := ⟨0, false⟩

def enable (counter : Counter) : Counter := { counter with enabled := true }

def isEnabled (counter : Counter) : Bool := counter.enabled

def get (counter : Counter) : UInt64 := if counter.isEnabled then counter.value else 0

def increment (counter : Counter) : Counter :=
  if counter.isEnabled then { counter with value := counter.value + 1 } else counter

end Counter

structure CurrentCounter where
  base : Counter
  maxValue : UInt64
  deriving DecidableEq

namespace CurrentCounter

def make : CurrentCounter := ⟨Counter.make, maxUInt64⟩

def setMaxValue (counter : CurrentCounter) (maxValue : UInt64) : CurrentCounter :=
  ⟨counter.base.enable, maxValue⟩

def isEnabled (counter : CurrentCounter) : Bool := counter.maxValue < maxUInt64

def set (counter : CurrentCounter) (value : UInt64) : CurrentCounter :=
  if counter.isEnabled then { counter with base := { counter.base with value := value } }
  else counter

/-- That of the base. -/
def increment (counter : CurrentCounter) : CurrentCounter :=
  { counter with base := counter.base.increment }

def decrement (counter : CurrentCounter) : CurrentCounter :=
  if counter.isEnabled then
    if 0 < counter.base.value then
      { counter with base := { counter.base with value := counter.base.value - 1 } }
    else counter
  else counter

def isOverloaded (counter : CurrentCounter) : Bool :=
  if counter.isEnabled then counter.base.value > counter.maxValue else false

/-- What the request handler reads of the counter. -/
def read (counter : CurrentCounter) : Proxygen.CurrentCounter :=
  ⟨counter.base.value, counter.maxValue⟩

theorem isOverloaded_read (counter : CurrentCounter) :
    counter.read.isOverloaded = counter.isOverloaded := rfl

end CurrentCounter

structure CurrentRatioCounter where
  maxRatio : UInt64
  previousX : UInt64
  previousY : UInt64
  interval : UInt64
  ratio : UInt64
  deriving DecidableEq

namespace CurrentRatioCounter

def maxInterval : UInt64 := 100

def minInterval : UInt64 := 5

def make : CurrentRatioCounter := ⟨maxUInt64, 0, 0, maxInterval, 0⟩

def isEnabled (counter : CurrentRatioCounter) : Bool := counter.maxRatio < maxUInt64

def isOverloaded (counter : CurrentRatioCounter) : Bool :=
  if counter.isEnabled then counter.ratio > counter.maxRatio else false

/-- Differences of unsigned values are never negative. -/
def update (counter : CurrentRatioCounter) (xCounter yCounter : Counter) : CurrentRatioCounter :=
  if counter.isEnabled then
    let dx := xCounter.get - counter.previousX
    if dx < counter.interval then counter
    else
      let dy := yCounter.get - counter.previousY
      let updated := { counter with
        ratio := dy * 100 / dx
        previousX := xCounter.get
        previousY := yCounter.get }
      { updated with interval := if updated.isOverloaded then minInterval else maxInterval }
  else counter

end CurrentRatioCounter

structure ServerCounters where
  connects : Counter
  regectedConnects : Counter
  currentConnects : CurrentCounter
  requests : Counter
  timeoutedRequests : Counter
  currentRequests : CurrentCounter
  timeoutedRequestRatio : CurrentRatioCounter
  deriving DecidableEq

namespace ServerCounters

def make : ServerCounters :=
  ⟨.make, .make, .make, .make, .make, .make, .make⟩

/-- `setMaxValue` of the ratio also enables the two counters that it is made of. -/
def setMaxRatio (counters : ServerCounters) (maxRatio : UInt64) : ServerCounters :=
  let ratio := { counters.timeoutedRequestRatio with maxRatio := maxRatio }
  if ratio.isEnabled then
    { counters with
      timeoutedRequestRatio := ratio
      requests := counters.requests.enable
      timeoutedRequests := counters.timeoutedRequests.enable }
  else { counters with timeoutedRequestRatio := ratio }

end ServerCounters

/-- The options that the acceptor reads. -/
structure Flags where
  HTTP_SERVER_ENABLE_CONNECT_COUNTER : Bool
  HTTP_SERVER_ENABLE_REGECTED_CONNECT_COUNTER : Bool
  HTTP_SERVER_ENABLE_REQUEST_COUNTER : Bool
  HTTP_SERVER_ENABLE_TIMEOUTED_REQUEST_COUNTER : Bool
  HTTP_SERVER_MAX_CONNECTIONS_PER_IO_THREAD : UInt64
  HTTP_SERVER_MAX_REQUESTS_PER_IO_THREAD : UInt64
  HTTP_SERVER_MAX_TIMEOUTED_REQUEST_RATIO : UInt64

def enableIf (flag : Bool) (counter : Counter) : Counter := if flag then counter.enable else counter

def limitIfSet (maxValue : UInt64) (counter : CurrentCounter) : CurrentCounter :=
  if 0 < maxValue then counter.setMaxValue maxValue else counter

/-- `setCounters` of the acceptor. -/
def setCounters (flags : Flags) (counters : ServerCounters) : ServerCounters :=
  let counters := { counters with
    connects := enableIf flags.HTTP_SERVER_ENABLE_CONNECT_COUNTER counters.connects
    regectedConnects :=
      enableIf flags.HTTP_SERVER_ENABLE_REGECTED_CONNECT_COUNTER counters.regectedConnects
    requests := enableIf flags.HTTP_SERVER_ENABLE_REQUEST_COUNTER counters.requests
    timeoutedRequests :=
      enableIf flags.HTTP_SERVER_ENABLE_TIMEOUTED_REQUEST_COUNTER counters.timeoutedRequests
    currentConnects :=
      limitIfSet flags.HTTP_SERVER_MAX_CONNECTIONS_PER_IO_THREAD counters.currentConnects
    currentRequests :=
      limitIfSet flags.HTTP_SERVER_MAX_REQUESTS_PER_IO_THREAD counters.currentRequests }
  if 0 < flags.HTTP_SERVER_MAX_TIMEOUTED_REQUEST_RATIO then
    counters.setMaxRatio flags.HTTP_SERVER_MAX_TIMEOUTED_REQUEST_RATIO
  else counters

theorem value_enableIf (flag : Bool) (counter : Counter) :
    (enableIf flag counter).value = counter.value := by
  cases flag <;> rfl

theorem counters_setMaxRatio (counters : ServerCounters) (maxRatio : UInt64) :
    (counters.setMaxRatio maxRatio).currentConnects = counters.currentConnects ∧
      (counters.setMaxRatio maxRatio).currentRequests = counters.currentRequests ∧
      (counters.setMaxRatio maxRatio).regectedConnects = counters.regectedConnects := by
  rw [ServerCounters.setMaxRatio]
  split_ifs <;> exact ⟨rfl, rfl, rfl⟩

theorem counters_setCounters (flags : Flags) (counters : ServerCounters) :
    (setCounters flags counters).currentConnects =
        limitIfSet flags.HTTP_SERVER_MAX_CONNECTIONS_PER_IO_THREAD counters.currentConnects ∧
      (setCounters flags counters).currentRequests =
        limitIfSet flags.HTTP_SERVER_MAX_REQUESTS_PER_IO_THREAD counters.currentRequests ∧
      (setCounters flags counters).regectedConnects =
        enableIf flags.HTTP_SERVER_ENABLE_REGECTED_CONNECT_COUNTER counters.regectedConnects := by
  rw [setCounters]
  split_ifs
  · exact counters_setMaxRatio _ _
  · exact ⟨rfl, rfl, rfl⟩

theorem limitIfSet_make {maxValue : UInt64} (hpos : 0 < maxValue) :
    limitIfSet maxValue .make = ⟨⟨0, true⟩, maxValue⟩ := if_pos hpos

/-! ## Objects and their number -/

/-- Objects that live at the same time differ in their address, which is not null. -/
abbrev Address := {p : UInt64 // p ≠ 0}

def firstAddress : Address := ⟨1, by decide⟩

theorem card_le_maxUInt64 (objects : Finset Address) : objects.card ≤ maxUInt64.toNat := by
  have hmaps : ∀ p ∈ objects, p.1.toNat ∈ Finset.Ioo 0 (2 ^ 64) := by
    intro p _
    rw [Finset.mem_Ioo]
    refine ⟨Nat.pos_of_ne_zero fun hzero => p.2 ?_, p.1.toNat_lt⟩
    exact UInt64.toNat_inj.mp hzero
  have hinj : Set.InjOn (fun p : Address => p.1.toNat) objects := by
    intro p _ q _ hsame
    exact Subtype.ext (UInt64.toNat_inj.mp hsame)
  have hcard := Finset.card_le_card_of_injOn _ hmaps hinj
  rwa [Nat.card_Ioo] at hcard

theorem card_lt_maxUInt64 {objects : Finset Address} {p : Address} (hnew : p ∉ objects) :
    objects.card < maxUInt64.toNat := by
  have hcard := card_le_maxUInt64 (insert p objects)
  rwa [Finset.card_insert_of_notMem hnew] at hcard

theorem toNat_ofNat_card (objects : Finset Address) :
    (UInt64.ofNat objects.card).toNat = objects.card := by
  rw [UInt64.toNat_ofNat', Nat.mod_eq_of_lt]
  exact (card_le_maxUInt64 objects).trans_lt maxUInt64.toNat_lt

end CppPlay.CppTools
