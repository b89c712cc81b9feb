import CppPlay.Proxygen.ServerCounters

/-!
# The limit of connections

`canAccept` counts the connections without the one that asks, and refuses it only
when they are more than the limit.
-/

namespace CppPlay.CppTools

open CppPlay.Lib CppPlay.Proxygen

/-- `canAccept` with the number of open connections; the counters are there. -/
def canAccept (counters : ServerCounters) (numConnections : UInt64) : ServerCounters × Bool :=
  let counters := { counters with
    currentConnects := counters.currentConnects.set numConnections }
  if counters.currentConnects.isOverloaded then
    ({ counters with regectedConnects := counters.regectedConnects.increment }, false)
  else ({ counters with connects := counters.connects.increment }, true)

/-- The acceptor with its open connections, and how many were open at each attempt that was
refused. -/
structure Acceptor where
  counters : ServerCounters
  connections : Finset Address
  refusedAt : List ℕ

inductive ConnectionEvent where
  | attempt (connection : Address)
  | close (connection : Address)

namespace Acceptor

def start (flags : Flags) : Acceptor := ⟨setCounters flags .make, ∅, []⟩

/-- The acceptor asks before it makes the connection, which then is a new object. -/
def attempt (s : Acceptor) (connection : Address) : Acceptor :=
  let answer := canAccept s.counters (UInt64.ofNat s.connections.card)
  if answer.2 then ⟨answer.1, insert connection s.connections, s.refusedAt⟩
  else ⟨answer.1, s.connections, s.refusedAt ++ [s.connections.card]⟩

def step (s : Acceptor) : ConnectionEvent → Acceptor
  | .attempt connection => if connection ∈ s.connections then s else s.attempt connection
  | .close connection => { s with connections := s.connections.erase connection }

/-- No more than `n` connections are open, and only with `n` open ones an attempt was refused
and counted. -/
structure KeepsLimit (n : UInt64) (s : Acceptor) : Prop where
  card_le : s.connections.card ≤ n.toNat
  refused : ∀ k ∈ s.refusedAt, k = n.toNat
  counted : s.counters.regectedConnects.value ≠ 0 → s.refusedAt ≠ []

def HasRoom (n : UInt64) (s : Acceptor) : ConnectionEvent → Prop
  | .attempt connection => connection ∉ s.connections → s.connections.card < n.toNat
  | .close _ => True

structure Inv (n : UInt64) (s : Acceptor) : Prop where
  maxValue : s.counters.currentConnects.maxValue = n
  card_le : s.connections.card ≤ n.toNat
  refusedAt : s.refusedAt = []
  uncounted : s.counters.regectedConnects.value = 0

variable {n : UInt64} {s : Acceptor}

theorem Inv.keepsLimit (hinv : Inv n s) : KeepsLimit n s := by
  refine ⟨hinv.card_le, ?_, fun hcounted => absurd hinv.uncounted hcounted⟩
  rw [hinv.refusedAt]
  exact fun k hk => absurd hk List.not_mem_nil

theorem canAccept_of_le {counters : ServerCounters} {numConnections : UInt64}
    (hle : numConnections ≤ counters.currentConnects.maxValue) :
    (canAccept counters numConnections).2 = true ∧
      (canAccept counters numConnections).1.currentConnects.maxValue =
        counters.currentConnects.maxValue ∧
      (canAccept counters numConnections).1.regectedConnects = counters.regectedConnects := by
  have hfits : (counters.currentConnects.set numConnections).isOverloaded = false := by
    rw [CurrentCounter.set]
    split_ifs with henabled
    · rw [CurrentCounter.isOverloaded]
      split_ifs
      · simpa using hle
      · rfl
    · rw [CurrentCounter.isOverloaded, if_neg henabled]
  have hmax : (counters.currentConnects.set numConnections).maxValue =
      counters.currentConnects.maxValue := by
    rw [CurrentCounter.set]
    split_ifs <;> rfl
  rw [canAccept]
  simp only [hfits, Bool.false_eq_true, if_false]
  exact ⟨trivial, hmax, trivial⟩

theorem Inv.attempt (hinv : Inv n s) {connection : Address} (hnew : connection ∉ s.connections) :
    (s.attempt connection).connections.card = s.connections.card + 1 ∧
      (s.attempt connection).refusedAt = [] ∧
      (s.attempt connection).counters.currentConnects.maxValue = n ∧
      (s.attempt connection).counters.regectedConnects.value = 0 := by
  have hle : UInt64.ofNat s.connections.card ≤ s.counters.currentConnects.maxValue := by
    rw [UInt64.le_iff_toNat_le, toNat_ofNat_card, hinv.maxValue]
    exact hinv.card_le
  obtain ⟨haccepted, hmax, hregected⟩ := canAccept_of_le hle
  rw [Acceptor.attempt]
  simp only [haccepted, if_true, hmax, hregected]
  exact ⟨Finset.card_insert_of_notMem hnew, hinv.refusedAt, hinv.maxValue, hinv.uncounted⟩

theorem inv_start {flags : Flags} (hlimit : 0 < flags.HTTP_SERVER_MAX_CONNECTIONS_PER_IO_THREAD) :
    Inv flags.HTTP_SERVER_MAX_CONNECTIONS_PER_IO_THREAD (start flags) := by
  obtain ⟨hcurrent, _, hregected⟩ := counters_setCounters flags .make
  refine ⟨?_, Nat.zero_le _, rfl, ?_⟩
  · rw [start, hcurrent, ServerCounters.make, limitIfSet_make hlimit]
  · rw [start, hregected, value_enableIf]
    rfl

theorem Inv.step (hinv : Inv n s) {event : ConnectionEvent} (hroom : HasRoom n s event) :
    Inv n (s.step event) := by
  cases event with
  | attempt connection =>
      rw [Acceptor.step]
      split_ifs with hopen
      · exact hinv
      · obtain ⟨hcard, hrefused, hmax, hcounted⟩ := hinv.attempt hopen
        refine ⟨hmax, ?_, hrefused, hcounted⟩
        rw [hcard]
        exact hroom hopen
  | close connection =>
      exact ⟨hinv.maxValue, (Finset.card_erase_le).trans hinv.card_le, hinv.refusedAt,
        hinv.uncounted⟩

theorem Inv.not_keepsLimit_step (hinv : Inv n s) {event : ConnectionEvent}
    (hfull : ¬ HasRoom n s event) : ¬ KeepsLimit n (s.step event) := by
  cases event with
  | attempt connection =>
      obtain ⟨hnew, hcard⟩ := Classical.not_imp.mp hfull
      intro hkeeps
      have hle := hkeeps.card_le
      rw [Acceptor.step, if_neg hnew, (hinv.attempt hnew).1] at hle
      exact hcard hle
  | close connection => exact absurd trivial hfull

/-- The limit is kept through a run exactly when no connection is attempted while as many
as the limit are open. -/
theorem keepsLimit_iff {flags : Flags}
    (hlimit : 0 < flags.HTTP_SERVER_MAX_CONNECTIONS_PER_IO_THREAD)
    (events : List ConnectionEvent) :
    (∀ first, first <+: events →
      KeepsLimit flags.HTTP_SERVER_MAX_CONNECTIONS_PER_IO_THREAD (run step (start flags) first)) ↔
      ∀ earlier event later, events = earlier ++ event :: later →
        HasRoom flags.HTTP_SERVER_MAX_CONNECTIONS_PER_IO_THREAD
          (run step (start flags) earlier) event :=
  always_iff_of_steps step (start flags) (Inv flags.HTTP_SERVER_MAX_CONNECTIONS_PER_IO_THREAD)
    (KeepsLimit flags.HTTP_SERVER_MAX_CONNECTIONS_PER_IO_THREAD)
    (HasRoom flags.HTTP_SERVER_MAX_CONNECTIONS_PER_IO_THREAD) (inv_start hlimit)
    (fun _ hinv => hinv.keepsLimit) (fun _ _ hinv => hinv.step)
    (fun _ _ hinv => hinv.not_keepsLimit_step) events

def oneConnection : Flags := ⟨true, true, false, false, 1, 0, 0⟩

theorem keepsLimit_oneConnection :
    (∀ first, first <+: [.attempt firstAddress] →
      KeepsLimit 1 (run step (start oneConnection) first)) ↔
      ∀ earlier event later, [.attempt firstAddress] = earlier ++ event :: later →
        HasRoom 1 (run step (start oneConnection) earlier) event :=
  @keepsLimit_iff oneConnection (by decide) [.attempt firstAddress]

/-- The second of two connections with a limit of one. -/
theorem not_keepsLimit_second :
    ¬ ∀ (flags : Flags) (events : List ConnectionEvent),
      0 < flags.HTTP_SERVER_MAX_CONNECTIONS_PER_IO_THREAD →
        KeepsLimit flags.HTTP_SERVER_MAX_CONNECTIONS_PER_IO_THREAD
          (run step (start flags) events) := by
  intro hall
  have hkeeps := hall oneConnection
    [.attempt firstAddress, .attempt ⟨2, by decide⟩] (by decide)
  exact absurd hkeeps.card_le (by decide)

end Acceptor

end CppPlay.CppTools
