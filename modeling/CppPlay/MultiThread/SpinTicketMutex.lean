import CppPlay.Lib.Run
import CppPlay.Lib.Threads

/-!
# The spinning ticket lock

`spin_ticket_mutex` hands out tickets and serves them in order.  Every step below
is one atomic access; `try_lock` reads `serving_` in one step and exchanges
`next_ticket_` in a later one, so that its copy may be stale by any number of steps.
-/

namespace CppPlay.MultiThread

open CppPlay.Lib

/-- Where a thread stands: outside every call, in the loop of `lock`, or between
the two steps of `try_lock`. -/
inductive TicketPc where
  | idle
  | spinning (myTicket : UInt64)
  | trying (current : UInt64)
  deriving DecidableEq

inductive TicketCall where
  | lock | tryLock | unlock

/-- The mutex with its threads.  `tickets` and `entered` record which threads
obtained tickets and the lock, `released` counts the unlocks. -/
structure SpinTicketMutex (ι : Type) where
  nextTicket : UInt64
  serving : UInt64
  pc : ι → TicketPc
  holds : ι → Bool
  tickets : List ι
  entered : List ι
  released : ℕ

namespace SpinTicketMutex

variable {ι : Type}

def start : SpinTicketMutex ι := ⟨0, 0, fun _ => .idle, fun _ => false, [], [], 0⟩

variable [DecidableEq ι]

def enter (s : SpinTicketMutex ι) (t : ι) : SpinTicketMutex ι :=
  { s with
    pc := Function.update s.pc t .idle
    holds := Function.update s.holds t true
    entered := s.entered ++ [t] }

/-- The next step of a thread; the call counts when the thread is in none. -/
def step (s : SpinTicketMutex ι) (input : ι × TicketCall) : SpinTicketMutex ι :=
  let t := input.1
  match s.pc t with
  | .idle =>
      match input.2 with
      | .lock =>
          { s with
            nextTicket := s.nextTicket + 1
            pc := Function.update s.pc t (.spinning s.nextTicket)
            tickets := s.tickets ++ [t] }
      | .tryLock => { s with pc := Function.update s.pc t (.trying s.serving) }
      | .unlock =>
          -- only the holder unlocks
          if s.holds t then
            { s with
              serving := s.serving + 1
              holds := Function.update s.holds t false
              released := s.released + 1 }
          else s
  | .spinning myTicket => if s.serving = myTicket then s.enter t else s
  | .trying current =>
      if s.nextTicket = current then
        enter { s with nextTicket := current + 1, tickets := s.tickets ++ [t] } t
      else { s with pc := Function.update s.pc t .idle }

/-- The next step of the thread ends a `try_lock` with `true`. -/
def TryLockReturnsTrue (s : SpinTicketMutex ι) (t : ι) : Prop :=
  s.pc t = .trying s.nextTicket

/-! ## The tickets and their order -/

/-- What the copies of a thread are: a ticket of its own that did not come in yet,
or a `serving_` of now or of earlier. -/
def PcOk (s : SpinTicketMutex ι) (t : ι) : TicketPc → Prop
  | .idle => True
  | .spinning myTicket =>
      ∃ i, myTicket = UInt64.ofNat i ∧ s.entered.length ≤ i ∧ s.tickets[i]? = some t
  | .trying current => ∃ i, current = UInt64.ofNat i ∧ i ≤ s.released

structure Inv (s : SpinTicketMutex ι) : Prop where
  next_eq : s.nextTicket = UInt64.ofNat s.tickets.length
  serving_eq : s.serving = UInt64.ofNat s.released
  released_le : s.released ≤ s.entered.length
  entered_prefix : s.entered <+: s.tickets
  holder : ∀ t, s.holds t = true →
    s.entered.length = s.released + 1 ∧ s.tickets[s.released]? = some t
  pc : ∀ t, s.PcOk t (s.pc t)

theorem ofNat_inj {i j : ℕ} (hi : i < 2 ^ 64) (hj : j < 2 ^ 64) :
    UInt64.ofNat i = UInt64.ofNat j ↔ i = j := by
  rw [← UInt64.toNat_inj, UInt64.toNat_ofNat', UInt64.toNat_ofNat', Nat.mod_eq_of_lt hi,
    Nat.mod_eq_of_lt hj]

variable {s : SpinTicketMutex ι}

omit [DecidableEq ι] in
theorem start_inv : (start : SpinTicketMutex ι).Inv := by
  constructor
  · rfl
  · rfl
  · exact le_rfl
  · exact List.prefix_refl _
  · intro t hholds
    exact absurd hholds (by simp [start])
  · intro t
    trivial

omit [DecidableEq ι] in
theorem Inv.entered_le (hinv : s.Inv) : s.entered.length ≤ s.tickets.length :=
  hinv.entered_prefix.length_le

theorem Inv.move (hinv : s.Inv) {t : ι} {pc : TicketPc} (hpc : s.PcOk t pc) :
    Inv { s with pc := Function.update s.pc t pc } :=
  ⟨hinv.next_eq, hinv.serving_eq, hinv.released_le, hinv.entered_prefix, hinv.holder,
    forall_update hpc fun u _ => hinv.pc u⟩

omit [DecidableEq ι] in
theorem Inv.ticket (hinv : s.Inv) (t : ι) :
    Inv { s with nextTicket := s.nextTicket + 1, tickets := s.tickets ++ [t] } := by
  constructor
  · simp only [List.length_append, List.length_singleton]
    rw [hinv.next_eq, UInt64.ofNat_add]
    rfl
  · exact hinv.serving_eq
  · exact hinv.released_le
  · exact hinv.entered_prefix.trans (List.prefix_append _ _)
  · intro u hu
    obtain ⟨hlength, hget⟩ := hinv.holder u hu
    exact ⟨hlength, getElem?_append_of_eq_some hget⟩
  · intro u
    have hu := hinv.pc u
    cases hpc : s.pc u with
    | idle => trivial
    | spinning myTicket =>
        rw [hpc] at hu
        obtain ⟨i, hmy, hi, hget⟩ := hu
        exact ⟨i, hmy, hi, getElem?_append_of_eq_some hget⟩
    | trying current =>
        rw [hpc] at hu
        exact hu

theorem Inv.enter (hinv : s.Inv) {t : ι} (hfree : s.entered.length = s.released)
    (hticket : s.tickets[s.released]? = some t) : (s.enter t).Inv := by
  have hlength : (s.enter t).entered.length = s.released + 1 := by
    simp [SpinTicketMutex.enter, hfree]
  constructor
  · exact hinv.next_eq
  · exact hinv.serving_eq
  · rw [hlength]
    exact Nat.le_succ _
  · exact append_singleton_prefix hinv.entered_prefix (hfree ▸ hticket)
  · intro u hu
    rcases update_apply_eq_iff.mp hu with ⟨hsame, _⟩ | ⟨_, hold⟩
    · rw [hsame]
      exact ⟨hlength, hticket⟩
    · have hheld := (hinv.holder u hold).1
      omega
  · apply forall_update
    · trivial
    · intro u hne
      have hu := hinv.pc u
      cases hpc : s.pc u with
      | idle => trivial
      | spinning myTicket =>
          rw [hpc] at hu
          obtain ⟨i, hmy, hi, hget⟩ := hu
          refine ⟨i, hmy, ?_, hget⟩
          have hother : i ≠ s.released := by
            intro heq
            rw [heq, hticket, Option.some.injEq] at hget
            exact hne hget.symm
          rw [hlength]
          omega
      | trying current =>
          rw [hpc] at hu
          exact hu

theorem Inv.unlock (hinv : s.Inv) {t : ι} (hholds : s.holds t = true) :
    Inv { s with
      serving := s.serving + 1
      holds := Function.update s.holds t false
      released := s.released + 1 } := by
  obtain ⟨hlength, hget⟩ := hinv.holder t hholds
  constructor
  · exact hinv.next_eq
  · simp only
    rw [hinv.serving_eq, UInt64.ofNat_add]
    rfl
  · exact hlength.ge
  · exact hinv.entered_prefix
  · intro u hu
    rcases update_apply_eq_iff.mp hu with ⟨_, hfalse⟩ | ⟨hne, hold⟩
    · exact absurd hfalse (by simp)
    · have hother := (hinv.holder u hold).2
      rw [hget, Option.some.injEq] at hother
      exact absurd hother.symm hne
  · intro u
    have hu := hinv.pc u
    cases hpc : s.pc u with
    | idle => trivial
    | spinning myTicket =>
        rw [hpc] at hu
        exact hu
    | trying current =>
        rw [hpc] at hu
        obtain ⟨i, hcurrent, hi⟩ := hu
        exact ⟨i, hcurrent, Nat.le_succ_of_le hi⟩

/-! ## Coming in -/

omit [DecidableEq ι] in
theorem Inv.spin (hinv : s.Inv) (hfew : s.tickets.length < 2 ^ 64) {t : ι}
    (hspinning : s.pc t = .spinning s.serving) :
    s.entered.length = s.released ∧ s.tickets[s.released]? = some t := by
  have hpc := hinv.pc t
  rw [hspinning] at hpc
  obtain ⟨i, hmy, hi, hget⟩ := hpc
  have hlt := (List.getElem?_eq_some_iff.mp hget).1
  have hreleased := hinv.released_le
  rw [hinv.serving_eq, ofNat_inj (by omega) (by omega)] at hmy
  rw [← hmy] at hi hget
  exact ⟨by omega, hget⟩

omit [DecidableEq ι] in
/-- The exchange succeeds only when every ticket has been served, however old the
copy of `serving_` is. -/
theorem Inv.tryLock (hinv : s.Inv) (hfew : s.tickets.length < 2 ^ 64) {t : ι}
    (hreturns : s.TryLockReturnsTrue t) :
    s.tickets.length = s.released ∧ s.entered.length = s.released := by
  have hpc := hinv.pc t
  rw [hreturns] at hpc
  obtain ⟨i, hcurrent, hi⟩ := hpc
  have hreleased := hinv.released_le
  have hentered := hinv.entered_le
  rw [hinv.next_eq, ofNat_inj hfew (by omega)] at hcurrent
  omega

theorem step_tickets (s : SpinTicketMutex ι) (input : ι × TicketCall) :
    s.tickets <+: (s.step input).tickets := by
  rcases input with ⟨t, call⟩
  cases hpc : s.pc t with
  | idle =>
      cases call with
      | lock => simp [step, hpc]
      | tryLock => simp [step, hpc]
      | unlock => cases hholds : s.holds t <;> simp [step, hpc, hholds]
  | spinning myTicket =>
      by_cases hserving : s.serving = myTicket <;>
        simp [step, hpc, hserving, SpinTicketMutex.enter]
  | trying current =>
      by_cases hnext : s.nextTicket = current <;>
        simp [step, hpc, hnext, SpinTicketMutex.enter]

theorem step_inv (hinv : s.Inv) (input : ι × TicketCall)
    (hfew : s.tickets.length < 2 ^ 64) : (s.step input).Inv := by
  rcases input with ⟨t, call⟩
  cases hpc : s.pc t with
  | idle =>
      cases call with
      | lock =>
          simp only [step, hpc]
          apply (hinv.ticket t).move
          exact ⟨s.tickets.length, hinv.next_eq, hinv.entered_le, by simp⟩
      | tryLock =>
          simp only [step, hpc]
          exact hinv.move ⟨s.released, hinv.serving_eq, le_rfl⟩
      | unlock =>
          simp only [step, hpc]
          cases hholds : s.holds t with
          | false => simpa using hinv
          | true => exact hinv.unlock hholds
  | spinning myTicket =>
      simp only [step, hpc]
      by_cases hserving : s.serving = myTicket
      · rw [if_pos hserving]
        obtain ⟨hfree, hticket⟩ := hinv.spin hfew (hserving ▸ hpc)
        exact hinv.enter hfree hticket
      · rw [if_neg hserving]
        exact hinv
  | trying current =>
      simp only [step, hpc]
      by_cases hnext : s.nextTicket = current
      · rw [if_pos hnext, ← hnext]
        obtain ⟨hall, hfree⟩ := hinv.tryLock hfew (hnext ▸ hpc)
        exact (hinv.ticket t).enter hfree (by simp [← hall])
      · rw [if_neg hnext]
        exact hinv.move trivial

theorem run_inv (inputs : List (ι × TicketCall))
    (hfew : (run step start inputs).tickets.length < 2 ^ 64) :
    (run step (start : SpinTicketMutex ι) inputs).Inv := by
  induction inputs using List.reverseRecOn with
  | nil => exact start_inv
  | append_singleton inputs input ih =>
      rw [run_append, run_cons, run_nil] at hfew ⊢
      have hle := (step_tickets (run step start inputs) input).length_le
      exact step_inv (ih (by omega)) input (by omega)

/-- With fewer than `2 ^ 64` tickets, in every state of every run at most one
thread holds the lock, `serving_` does not pass `next_ticket_`, the lock is
obtained in the order of the tickets, and a `try_lock` that is about to return
`true` finds the lock free and then is its only holder. -/
theorem fair_run (inputs : List (ι × TicketCall))
    (hfew : (run step (start : SpinTicketMutex ι) inputs).tickets.length < 2 ^ 64) :
    let s := run step (start : SpinTicketMutex ι) inputs
    (∀ t u, s.holds t = true → s.holds u = true → t = u) ∧
      s.serving ≤ s.nextTicket ∧
      s.entered <+: s.tickets ∧
      ∀ t call, s.TryLockReturnsTrue t →
        s.serving = s.nextTicket ∧ (∀ u, s.holds u = false) ∧
          ∀ u, (s.step (t, call)).holds u = true ↔ u = t := by
  intro s
  have hinv : s.Inv := run_inv inputs hfew
  have hlt : s.tickets.length < 2 ^ 64 := hfew
  have hreleased := hinv.released_le
  have hentered := hinv.entered_le
  refine ⟨?_, ?_, hinv.entered_prefix, ?_⟩
  · intro t u ht hu
    have hthis := (hinv.holder t ht).2
    rw [(hinv.holder u hu).2, Option.some.injEq] at hthis
    exact hthis.symm
  · rw [hinv.serving_eq, hinv.next_eq, UInt64.le_iff_toNat_le, UInt64.toNat_ofNat',
      UInt64.toNat_ofNat', Nat.mod_eq_of_lt (by omega), Nat.mod_eq_of_lt hlt]
    omega
  · intro t call hreturns
    obtain ⟨hall, hfree⟩ := hinv.tryLock hfew hreturns
    have hnone : ∀ u, s.holds u = false := by
      intro u
      cases hholds : s.holds u with
      | false => rfl
      | true =>
          have hheld := (hinv.holder u hholds).1
          omega
    refine ⟨?_, hnone, ?_⟩
    · rw [hinv.serving_eq, hinv.next_eq, hall]
    · intro u
      have hpc : s.pc t = .trying s.nextTicket := hreturns
      simp only [step, hpc, if_true, SpinTicketMutex.enter, update_apply_eq_iff]
      simp [hnone u]

/-- A first `try_lock` of thread `v` fails on a copy from before the unlock of thread `u`;
the second one is about to succeed. -/
def staleTry {Thread : Type} (u v : Thread) : List (Thread × TicketCall) :=
  [(u, .lock), (u, .lock), (v, .tryLock), (u, .unlock), (v, .tryLock), (v, .tryLock)]

theorem fair_run_staleTry :
    (run step (start : SpinTicketMutex (Fin 2)) (staleTry 0 1)).TryLockReturnsTrue 1 ∧
      (run step (start : SpinTicketMutex (Fin 2)) (staleTry 0 1)).serving =
        (run step (start : SpinTicketMutex (Fin 2)) (staleTry 0 1)).nextTicket := by
  have hreturns :
      (run step (start : SpinTicketMutex (Fin 2)) (staleTry 0 1)).TryLockReturnsTrue 1 := by
    rw [TryLockReturnsTrue]
    decide +kernel
  exact ⟨hreturns, ((fair_run (staleTry 0 1) (by decide +kernel)).2.2.2 1 .lock hreturns).1⟩

end SpinTicketMutex

end CppPlay.MultiThread
