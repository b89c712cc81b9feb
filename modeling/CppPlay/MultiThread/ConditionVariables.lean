import CppPlay.Lib.CircularBuffer
import CppPlay.Lib.GuardedMonitor

/-!
# Programs with condition variables

The flag that threads set and wait for, the two loops that take turns, and the bounded message
queue are monitors; what each of them promises follows from the calls in the order in which they
took effect, and from the fact that nobody sleeps whose guard is true.
-/

namespace CppPlay.MultiThread

open CppPlay.Lib

/-! ## The flag -/

inductive FlagCall where
  | set (flag : Bool)
  | wait (flag : Bool)
  deriving DecidableEq

/-- `set` notifies behind its block; `all` says whether it calls `notify_all`, as it does, or
`notify_one`. -/
def flagMonitor (all : Bool) : GuardedMonitor Bool FlagCall Bool where
  guard
    | .set _, _ => true
    | .wait flag, m_flag => m_flag == flag
  effect
    | .set flag, _ => flag
    | .wait _, m_flag => m_flag
  cond
    | .set flag | .wait flag => flag
  notifies
    | .set flag => some (flag, all)
    | .wait _ => none
  holding _ := false

/-- The flag behind the calls, which begins as false. -/
def lastFlag (calls : List FlagCall) : Bool :=
  calls.foldl (fun m_flag call => match call with
    | .set flag => flag
    | .wait _ => m_flag) false

namespace flagMonitor

theorem wakesAll : (flagMonitor true).WakesAll := by
  intro call other m_flag _ hbefore hafter
  cases call with
  | set flag =>
      cases other with
      | set other => cases hbefore
      | wait other =>
          have hflag : flag = other := by simpa [flagMonitor] using hafter
          simp [flagMonitor, hflag]
  | wait flag => simp [flagMonitor] at hbefore hafter; simp_all

theorem serve_eq {all : Bool} {calls : List FlagCall} {m_flag : Bool}
    (hserve : (flagMonitor all).serve false calls = some m_flag) : m_flag = lastFlag calls := by
  refine GuardedMonitor.serve_induction (fun calls m_flag => m_flag = lastFlag calls) rfl ?_ hserve
  intro calls before call hbefore _
  rw [lastFlag, List.foldl_append, ← lastFlag, ← hbefore]
  cases call <;> rfl

variable {ι : Type} [DecidableEq ι] [Fintype ι]

/-- A wait returns only where the flag is as it waits for; when all threads are done or asleep,
those that sleep wait for the other flag; and the threads do come to rest. -/
theorem every_waiter_is_woken (program : ι → List FlagCall) (events : List (MonitorEvent ι)) :
    let m := flagMonitor true
    let s := run m.step (GuardedMonitor.start false program) events
    s.shared = lastFlag (s.served.map Prod.snd) ∧
      (∀ before t flag after, s.served = before ++ (t, .wait flag) :: after →
        lastFlag (before.map Prod.snd) = flag) ∧
      (GuardedMonitor.Still s → ∀ t call, s.pc t = .waiting call → call = .wait (!s.shared)) ∧
      (∀ event : MonitorEvent ι, event.deliberate = true → m.step s event ≠ s →
        GuardedMonitor.rank (m.step s event) < GuardedMonitor.rank s) ∧
      ∃ later : List (MonitorEvent ι), (∀ event ∈ later, event.deliberate = true) ∧
        GuardedMonitor.Still
          (run m.step (GuardedMonitor.start false program) (events ++ later)) := by
  intro m s
  have hserved : m.Served false program s := GuardedMonitor.run_served events
  refine ⟨serve_eq hserved.serial, ?_, ?_,
    fun event hdeliberate hchanges => GuardedMonitor.rank_lt_of_step hdeliberate hchanges,
    GuardedMonitor.exists_still events⟩
  · intro before t flag after hsplit
    have hserial := hserved.serial
    rw [hsplit, List.map_append, List.map_cons] at hserial
    obtain ⟨mid, hmid, hguard⟩ := GuardedMonitor.serve_guard hserial
    rw [← serve_eq hmid]
    simpa [m, flagMonitor] using hguard
  · intro hstill t call hwaiting
    have hguard : m.guard call s.shared = false :=
      GuardedMonitor.guard_false_of_wakesAll wakesAll events hstill hwaiting
    cases call with
    | set flag => simp [m, flagMonitor] at hguard
    | wait flag =>
        have hne : s.shared ≠ flag := by simpa [m, flagMonitor] using hguard
        rw [Bool.eq_not_of_ne hne.symm]

/-- With `notify_one` one of two waiters may sleep for ever. -/
theorem notify_one_leaves_a_sleeper :
    ∃ (program : Fin 3 → List FlagCall) (events : List (MonitorEvent (Fin 3)))
      (s : MonitorState (Fin 3) Bool FlagCall Bool),
      s = run (flagMonitor false).step (GuardedMonitor.start false program) events ∧
        GuardedMonitor.Still s ∧ s.pc 1 = .waiting (.wait true) ∧ s.shared = true := by
  refine ⟨![[.wait true], [.wait true], [.set true]],
    [.run 0, .run 0, .run 0, .run 1, .run 1, .run 1, .run 2, .run 2, .run 2, .run 2, .run 2,
      .notify 2 0, .run 0, .run 0, .run 0, .run 0], _, rfl, ?_⟩
  generalize hs : run _ _ _ = s
  have hidle : ∀ t : Fin 3, t ≠ 1 → s.pc t = .idle ∧ s.program t = [] := by
    rw [← hs]
    decide +kernel
  have hasleep : s.pc 1 = .waiting (.wait true) := by
    rw [← hs]
    decide +kernel
  have hflag : s.shared = true := by
    rw [← hs]
    decide +kernel
  refine ⟨fun t => ?_, hasleep, hflag⟩
  by_cases ht : t = 1
  · exact .inr ⟨.wait true, ht ▸ hasleep⟩
  · exact .inl (hidle t ht)

end flagMonitor

/-! ## Taking turns -/

inductive MakeOrderCall where
  | A_once_s
  | B_once_s
  deriving DecidableEq

inductive OrderCondition where
  | m_acv
  | m_bcv
  deriving DecidableEq

structure MakeOrder where
  b_last : Bool
  out : List Char

namespace MakeOrder

def start : MakeOrder := ⟨true, []⟩

def a_can_go (s : MakeOrder) : Bool := s.b_last

def b_can_go (s : MakeOrder) : Bool := !s.b_last

/-- `A` waits on the condition that `B` notifies, and the other way round. -/
def monitor : GuardedMonitor MakeOrder MakeOrderCall OrderCondition where
  guard
    | .A_once_s, s => s.a_can_go
    | .B_once_s, s => s.b_can_go
  effect
    | .A_once_s, s => ⟨false, s.out ++ ['A']⟩
    | .B_once_s, s => ⟨true, s.out ++ ['B']⟩
  cond
    | .A_once_s => .m_bcv
    | .B_once_s => .m_acv
  notifies
    | .A_once_s => some (.m_acv, false)
    | .B_once_s => some (.m_bcv, false)
  holding _ := true

/-- One call at a time can be served, of the kind whose turn it is. -/
def room : OrderCondition → MakeOrder → ℕ
  | .m_acv, s => (!s.b_last).toNat
  | .m_bcv, s => s.b_last.toNat

theorem rooms : monitor.Rooms room := by
  constructor
  · intro call s
    cases call <;> cases hlast : s.b_last <;>
      simp [monitor, room, a_can_go, b_can_go, hlast]
  · intro call s k hguard
    cases call <;> cases k <;> cases hlast : s.b_last <;>
      simp [monitor, room, a_can_go, b_can_go, hlast] at hguard ⊢

/-- What is printed in `n` turns. -/
def turns : ℕ → List Char
  | 0 => []
  | n + 1 => turns n ++ [if n % 2 = 0 then 'A' else 'B']

def letter : MakeOrderCall → Char
  | .A_once_s => 'A'
  | .B_once_s => 'B'

theorem count_turns (n : ℕ) :
    (turns n).count 'A' = (n + 1) / 2 ∧ (turns n).count 'B' = n / 2 := by
  induction n with
  | zero => exact ⟨rfl, rfl⟩
  | succ n ih =>
      rw [turns, List.count_append, List.count_append, ih.1, ih.2]
      rcases Nat.mod_two_eq_zero_or_one n with heven | hodd
      · simp [heven]
        omega
      · simp [hodd]
        omega

/-- The letters are those of the calls, they alternate, and `b_last` knows whose turn it is. -/
structure InTurn (calls : List MakeOrderCall) (s : MakeOrder) : Prop where
  letters : s.out = calls.map letter
  alternate : s.out = turns calls.length
  last : s.b_last = (calls.length % 2 == 0)

theorem serve_inTurn {calls : List MakeOrderCall} {s : MakeOrder}
    (hserve : monitor.serve start calls = some s) : InTurn calls s := by
  refine GuardedMonitor.serve_induction InTurn ⟨rfl, rfl, rfl⟩ ?_ hserve
  intro calls s call hturn hguard
  obtain ⟨hletters, halternate, hlast⟩ := hturn
  cases call with
  | A_once_s =>
      have heven : calls.length % 2 = 0 := by simpa [monitor, a_can_go, hlast] using hguard
      refine ⟨?_, ?_, ?_⟩
      · simp [monitor, hletters, letter]
      · simp [monitor, halternate, turns, heven]
      · simp only [monitor, List.length_append, List.length_singleton]
        rw [eq_comm, beq_eq_false_iff_ne]
        omega
  | B_once_s =>
      have hodd : calls.length % 2 = 1 := by simpa [monitor, b_can_go, hlast] using hguard
      refine ⟨?_, ?_, ?_⟩
      · simp [monitor, hletters, letter]
      · simp [monitor, halternate, turns, hodd]
      · simp only [monitor, List.length_append, List.length_singleton]
        rw [eq_comm, beq_iff_eq]
        omega

theorem count_map_letter (calls : List MakeOrderCall) :
    (calls.map letter).count 'A' = calls.countP (· == .A_once_s) ∧
      (calls.map letter).count 'B' = calls.countP (· == .B_once_s) := by
  induction calls with
  | nil => exact ⟨rfl, rfl⟩
  | cons call calls ih => cases call <;> simp [letter, ih.1, ih.2]

variable {ι : Type} [Fintype ι]

/-- How often the loops make a call of a kind. -/
def total (kind : ι → MakeOrderCall) (iterations : ι → ℕ) (call : MakeOrderCall) : ℕ :=
  ∑ t, if kind t = call then iterations t else 0

theorem countP_replicate_total (kind : ι → MakeOrderCall) (iterations : ι → ℕ)
    (call : MakeOrderCall) :
    ∑ t, (List.replicate (iterations t) (kind t)).countP (· == call) =
      total kind iterations call := by
  apply Finset.sum_congr rfl
  intro t _
  simp [List.countP_replicate]

variable [DecidableEq ι]

/-- Loops of `A_s` and of `B_s`, any number of each: what is printed alternates and begins with
an `A`, and goes on until the calls of one kind are used up; if there are as many of both, all
loops come to their end. -/
theorem loops_take_turns (kind : ι → MakeOrderCall) (iterations : ι → ℕ)
    (events : List (MonitorEvent ι)) :
    let program := fun t => List.replicate (iterations t) (kind t)
    let s := run monitor.step (GuardedMonitor.start start program) events
    s.shared.out = s.served.map (fun entry => letter entry.2) ∧
      s.shared.out = turns s.served.length ∧
      (GuardedMonitor.Still s →
        s.served.length = min (2 * total kind iterations .A_once_s)
          (2 * total kind iterations .B_once_s + 1) ∧
        (total kind iterations .A_once_s = total kind iterations .B_once_s →
          ∀ t, s.pc t = .idle ∧ s.program t = [])) ∧
      (∀ event : MonitorEvent ι, event.deliberate = true → monitor.step s event ≠ s →
        GuardedMonitor.rank (monitor.step s event) < GuardedMonitor.rank s) ∧
      ∃ later : List (MonitorEvent ι), (∀ event ∈ later, event.deliberate = true) ∧
        GuardedMonitor.Still
          (run monitor.step (GuardedMonitor.start start program) (events ++ later)) := by
  intro program s
  have hserved : monitor.Served start program s := GuardedMonitor.run_served events
  obtain ⟨hletters, halternate, hlast⟩ := serve_inTurn hserved.serial
  rw [List.length_map] at halternate hlast
  refine ⟨by rw [hletters, List.map_map]; rfl, halternate, ?_,
    fun event hdeliberate hchanges => GuardedMonitor.rank_lt_of_step hdeliberate hchanges,
    GuardedMonitor.exists_still events⟩
  intro hstill
  have hcounts : ∀ call, (s.served.map Prod.snd).countP (· == call) +
      ∑ t, (GuardedMonitor.pendingCall (s.pc t) ++ s.program t).countP (· == call) =
        total kind iterations call := by
    intro call
    rw [hserved.countP, countP_replicate_total]
  have hall : ∀ call, monitor.guard call s.shared = true →
      (s.served.map Prod.snd).countP (· == call) = total kind iterations call := by
    intro call hguard
    rw [hserved.countP_of_still hstill, countP_replicate_total]
    · intro t
      by_cases hkind : kind t = call
      · left
        intro other hother
        rw [List.eq_of_mem_replicate hother, hkind]
        exact beq_self_eq_true call
      · right
        intro other hother
        rw [List.eq_of_mem_replicate hother]
        exact beq_eq_false_iff_ne.mpr hkind
    · intro t other hwaiting
      rw [beq_eq_false_iff_ne]
      rintro rfl
      rw [GuardedMonitor.guard_false_of_rooms rooms events hstill hwaiting] at hguard
      cases hguard
  have hA : (s.served.map Prod.snd).countP (· == .A_once_s) = (s.served.length + 1) / 2 := by
    rw [← (count_map_letter _).1, ← hletters, halternate, (count_turns _).1]
  have hB : (s.served.map Prod.snd).countP (· == .B_once_s) = s.served.length / 2 := by
    rw [← (count_map_letter _).2, ← hletters, halternate, (count_turns _).2]
  have hleA := hcounts .A_once_s
  have hleB := hcounts .B_once_s
  have hlength : s.served.length = min (2 * total kind iterations .A_once_s)
      (2 * total kind iterations .B_once_s + 1) := by
    rcases Nat.mod_two_eq_zero_or_one s.served.length with heven | hodd
    · have hserved' := hall .A_once_s (by simp [monitor, a_can_go, hlast, heven])
      omega
    · have hserved' := hall .B_once_s (by simp [monitor, b_can_go, hlast, hodd])
      omega
  refine ⟨hlength, fun hsame t => ?_⟩
  rcases hstill t with hdone | ⟨call, hwaiting⟩
  · exact hdone
  · have hrest : ∑ t, (GuardedMonitor.pendingCall (s.pc t) ++ s.program t).countP (· == call) = 0 := by
      cases call <;> omega
    have hnone := (Finset.sum_eq_zero_iff.mp hrest) t (Finset.mem_univ t)
    rw [hwaiting] at hnone
    simp [GuardedMonitor.pendingCall] at hnone

end MakeOrder

/-! ## The message queue -/

inductive MQCall (τ : Type) where
  | push (p : τ)
  | pop
  deriving DecidableEq

inductive MQCondition where
  | m_notEmpty
  | m_notFull
  deriving DecidableEq

/-- The queue with what the calls of `pop` have returned. -/
structure MQ {τ : Type} (cb : CircularBuffer τ) where
  m_c : cb.Buffer
  popped : List τ

namespace MQCall

variable {τ : Type}

def isPush : MQCall τ → Bool
  | .push _ => true
  | .pop => false

def pushed : MQCall τ → Option τ
  | .push p => some p
  | .pop => none

@[simp] theorem isPush_push (p : τ) : (push p).isPush = true := rfl

@[simp] theorem isPush_pop : (pop : MQCall τ).isPush = false := rfl

@[simp] theorem pushed_push (p : τ) : (push p).pushed = some p := rfl

@[simp] theorem pushed_pop : (pop : MQCall τ).pushed = none := rfl

theorem length_filterMap_pushed (calls : List (MQCall τ)) :
    (calls.filterMap pushed).length = calls.countP isPush := by
  induction calls with
  | nil => rfl
  | cons call calls ih =>
      cases call with
      | push p =>
          rw [List.filterMap_cons_some (pushed_push p), List.length_cons, ih,
            List.countP_cons_of_pos (isPush_push p)]
      | pop =>
          rw [List.filterMap_cons_none pushed_pop, ih, List.countP_cons_of_neg (by simp)]

end MQCall

namespace MQ

variable {τ : Type} (cb : CircularBuffer τ)

def start (size : ℕ) : MQ cb := ⟨cb.make size, []⟩

def monitor : GuardedMonitor (MQ cb) (MQCall τ) MQCondition where
  guard
    | .push _, q => !cb.full q.m_c
    | .pop, q => !cb.empty q.m_c
  effect
    | .push p, q => { q with m_c := cb.push_back q.m_c p }
    | .pop, q => ⟨cb.pop_front q.m_c, q.popped ++ (cb.front q.m_c).toList⟩
  cond
    | .push _ => .m_notFull
    | .pop => .m_notEmpty
  notifies
    | .push _ => some (.m_notEmpty, false)
    | .pop => some (.m_notFull, false)
  holding _ := true

def room : MQCondition → MQ cb → ℕ
  | .m_notEmpty, q => (cb.elements q.m_c).length
  | .m_notFull, q => cb.capacity q.m_c - (cb.elements q.m_c).length

variable {cb}

theorem guard_push {q : MQ cb} {p : τ} : (monitor cb).guard (.push p) q = true ↔
    (cb.elements q.m_c).length < cb.capacity q.m_c := by
  rw [← CircularBuffer.full_eq_false_iff]
  simp [monitor]

theorem guard_pop {q : MQ cb} :
    (monitor cb).guard .pop q = true ↔ 0 < (cb.elements q.m_c).length := by
  rw [← CircularBuffer.empty_eq_false_iff]
  simp [monitor]

theorem effect_push {q : MQ cb} {p : τ} (hguard : (monitor cb).guard (.push p) q = true) :
    cb.elements ((monitor cb).effect (.push p) q).m_c = cb.elements q.m_c ++ [p] ∧
      cb.capacity ((monitor cb).effect (.push p) q).m_c = cb.capacity q.m_c :=
  ⟨CircularBuffer.elements_push_back_of_lt (guard_push.mp hguard) p, cb.capacity_push_back _ p⟩

theorem effect_pop {q : MQ cb} (hguard : (monitor cb).guard .pop q = true) :
    cb.elements ((monitor cb).effect .pop q).m_c = (cb.elements q.m_c).tail ∧
      cb.capacity ((monitor cb).effect .pop q).m_c = cb.capacity q.m_c :=
  ⟨cb.elements_pop_front _ (List.length_pos_iff.mp (guard_pop.mp hguard)),
    cb.capacity_pop_front _⟩

theorem rooms : (monitor cb).Rooms (room cb) := by
  constructor
  · intro call q
    cases call with
    | push p =>
        rw [guard_push]
        simp only [room, monitor]
        omega
    | pop => exact guard_pop
  · intro call q k hguard
    cases call with
    | push p =>
        obtain ⟨helements, hcapacity⟩ := effect_push hguard
        have hlt := guard_push.mp hguard
        cases k <;> simp only [room, helements, hcapacity, List.length_append,
          List.length_singleton] <;> simp [monitor]
        omega
    | pop =>
        obtain ⟨helements, hcapacity⟩ := effect_pop hguard
        have hpos := guard_pop.mp hguard
        have hle := cb.length_le q.m_c
        cases k <;> simp only [room, helements, hcapacity, List.length_tail] <;>
          simp [monitor] <;> omega

/-- What went in is what came out and what is still there. -/
structure Conserves (size : ℕ) (calls : List (MQCall τ)) (q : MQ cb) : Prop where
  capacity : cb.capacity q.m_c = size
  fifo : calls.filterMap MQCall.pushed = q.popped ++ cb.elements q.m_c
  pops : calls.countP (!·.isPush) = q.popped.length

theorem serve_conserves {size : ℕ} {calls : List (MQCall τ)} {q : MQ cb}
    (hserve : (monitor cb).serve (start cb size) calls = some q) : Conserves size calls q := by
  have hstart : Conserves size [] (start cb size) :=
    ⟨cb.capacity_make size, (cb.elements_make size).symm, rfl⟩
  refine GuardedMonitor.serve_induction (Conserves size) hstart ?_ hserve
  intro calls q call hconserves hguard
  obtain ⟨hcapacity, hfifo, hpops⟩ := hconserves
  cases call with
  | push p =>
      obtain ⟨helements, hsame⟩ := effect_push hguard
      constructor
      · rw [hsame, hcapacity]
      · rw [helements, List.filterMap_append, hfifo, List.append_assoc]
        rfl
      · rw [List.countP_append, hpops]
        rfl
  | pop =>
      obtain ⟨helements, hsame⟩ := effect_pop hguard
      obtain ⟨x, rest, hfirst⟩ := List.exists_cons_of_length_pos (guard_pop.mp hguard)
      have hfront : cb.front q.m_c = some x := by rw [cb.front_eq, hfirst]; rfl
      constructor
      · rw [hsame, hcapacity]
      · rw [helements, hfirst]
        simp [monitor, hfifo, hfront, hfirst]
      · simp [monitor, hpops, hfront]

variable {ι : Type} [DecidableEq ι] [Fintype ι]

/-- Why a thread sleeps: a `push` on a full buffer, a `pop` on an empty one. -/
def Blocked (size : ℕ) (q : MQ cb) (call : MQCall τ) : Prop :=
  if call.isPush then (cb.elements q.m_c).length = size else cb.elements q.m_c = []

theorem blocked_of_guard {size : ℕ} {q : MQ cb} {call : MQCall τ}
    (hcapacity : cb.capacity q.m_c = size) (hguard : (monitor cb).guard call q = false) :
    Blocked size q call := by
  cases call with
  | push p =>
      have hfull : cb.full q.m_c = true := by simpa [monitor] using hguard
      exact ((cb.full_iff _).mp hfull).trans hcapacity
  | pop =>
      have hempty : cb.empty q.m_c = true := by simpa [monitor] using hguard
      exact (cb.empty_iff _).mp hempty

section Still

variable {size : ℕ} {program : ι → List (MQCall τ)}
  {s : MonitorState ι (MQ cb) (MQCall τ) MQCondition}

omit [DecidableEq ι] in
theorem pending_pos {t : ι} {call : MQCall τ} (hwaiting : s.pc t = .waiting call)
    {p : MQCall τ → Bool} (hp : p call = true) :
    0 < ∑ t, (GuardedMonitor.pendingCall (s.pc t) ++ s.program t).countP p := by
  apply Finset.sum_pos' (fun _ _ => Nat.zero_le _)
  exact ⟨t, Finset.mem_univ t, by simp [hwaiting, GuardedMonitor.pendingCall, hp]⟩

variable (hserved : (monitor cb).Served (start cb size) program s)
  (hblocked : ∀ t call, s.pc t = .waiting call → Blocked size s.shared call)
  (hpure : ∀ t, (∀ call ∈ program t, call.isPush = true) ∨
    ∀ call ∈ program t, call.isPush = false)
  (hsame : ∑ t, (program t).countP MQCall.isPush = ∑ t, (program t).countP (!·.isPush))
  (hstill : GuardedMonitor.Still s)

include hserved

omit [Fintype ι] in
/-- The buffer holds what the pushes are ahead of the pops. -/
theorem length_elements : (s.served.map Prod.snd).countP MQCall.isPush =
    (s.served.map Prod.snd).countP (!·.isPush) + (cb.elements s.shared.m_c).length := by
  obtain ⟨-, hfifo, hpops⟩ := serve_conserves hserved.serial
  rw [hpops, ← MQCall.length_filterMap_pushed, hfifo, List.length_append]

include hblocked hpure hsame hstill

/-- A buffer with a capacity is not full and empty, so that all pushes have been served. -/
theorem not_waiting_pop (hsize : 0 < size) (t : ι) : s.pc t ≠ .waiting .pop := by
  intro hwaiting
  have hempty : cb.elements s.shared.m_c = [] := hblocked t .pop hwaiting
  have hserves := hserved.countP_of_still (p := MQCall.isPush) hstill hpure fun u call hu => by
    cases call with
    | push p =>
        have hfull : (cb.elements s.shared.m_c).length = size := hblocked u (.push p) hu
        rw [hempty, List.length_nil] at hfull
        omega
    | pop => rfl
  have hlength := length_elements hserved
  have hrest := hserved.countP (!·.isPush)
  have hpos := pending_pos hwaiting (p := (!·.isPush)) rfl
  rw [hempty, List.length_nil] at hlength
  omega

theorem not_waiting_push (hsize : 0 < size) (t : ι) (p : τ) : s.pc t ≠ .waiting (.push p) := by
  intro hwaiting
  have hfull : (cb.elements s.shared.m_c).length = size := hblocked t (.push p) hwaiting
  have hserves := hserved.countP_of_still (p := (!·.isPush)) hstill
    (fun u => by simpa [or_comm] using hpure u) fun u call hu => by
      cases call with
      | push p => rfl
      | pop => exact absurd hu (not_waiting_pop hserved hblocked hpure hsame hstill hsize u)
  have hlength := length_elements hserved
  have hpushes := hserved.countP MQCall.isPush
  omega

theorem done_of_still (hsize : 0 < size) (t : ι) : s.pc t = .idle ∧ s.program t = [] := by
  rcases hstill t with hdone | ⟨call, hwaiting⟩
  · exact hdone
  · cases call with
    | push p =>
        exact absurd hwaiting (not_waiting_push hserved hblocked hpure hsame hstill hsize t p)
    | pop => exact absurd hwaiting (not_waiting_pop hserved hblocked hpure hsame hstill hsize t)

theorem elements_of_still (hsize : 0 < size) : cb.elements s.shared.m_c = [] := by
  have hnothing : ∀ p : MQCall τ → Bool,
      ∑ t, (GuardedMonitor.pendingCall (s.pc t) ++ s.program t).countP p = 0 := by
    intro p
    apply Finset.sum_eq_zero
    intro t _
    obtain ⟨hidle, hprogram⟩ := done_of_still hserved hblocked hpure hsame hstill hsize t
    rw [hidle, hprogram]
    rfl
  have hlength := length_elements hserved
  have hpushes := hserved.countP MQCall.isPush
  have hpops := hserved.countP (!·.isPush)
  rw [hnothing] at hpushes hpops
  apply List.eq_nil_of_length_eq_zero
  omega

end Still

/-- Whatever the threads do, what came out is a beginning of what went in, and the rest is in
the buffer; at rest only a full buffer keeps a `push` and only an empty one a `pop` asleep; and
where some threads push and others pop, as many elements in all, everything arrives. -/
theorem messages_arrive (cb : CircularBuffer τ) (size : ℕ) (program : ι → List (MQCall τ))
    (events : List (MonitorEvent ι)) :
    let m := monitor cb
    let s := run m.step (GuardedMonitor.start (start cb size) program) events
    (s.served.map Prod.snd).filterMap MQCall.pushed =
        s.shared.popped ++ cb.elements s.shared.m_c ∧
      (GuardedMonitor.Still s → ∀ t call, s.pc t = .waiting call →
        if call.isPush then (cb.elements s.shared.m_c).length = size
        else cb.elements s.shared.m_c = []) ∧
      (0 < size →
        (∀ t, (∀ call ∈ program t, call.isPush = true) ∨
          ∀ call ∈ program t, call.isPush = false) →
        ∑ t, (program t).countP MQCall.isPush = ∑ t, (program t).countP (!·.isPush) →
        GuardedMonitor.Still s →
          (∀ t, s.pc t = .idle ∧ s.program t = []) ∧
            (s.served.map Prod.snd).filterMap MQCall.pushed = s.shared.popped) ∧
      (∀ event : MonitorEvent ι, event.deliberate = true → m.step s event ≠ s →
        GuardedMonitor.rank (m.step s event) < GuardedMonitor.rank s) ∧
      ∃ later : List (MonitorEvent ι), (∀ event ∈ later, event.deliberate = true) ∧
        GuardedMonitor.Still
          (run m.step (GuardedMonitor.start (start cb size) program) (events ++ later)) := by
  intro m s
  have hserved : m.Served (start cb size) program s := GuardedMonitor.run_served events
  obtain ⟨hcapacity, hfifo, -⟩ := serve_conserves hserved.serial
  have hblocked : GuardedMonitor.Still s → ∀ t call, s.pc t = .waiting call →
      Blocked size s.shared call := fun hstill t call hwaiting =>
    blocked_of_guard hcapacity (GuardedMonitor.guard_false_of_rooms rooms events hstill hwaiting)
  refine ⟨hfifo, hblocked, ?_,
    fun event hdeliberate hchanges => GuardedMonitor.rank_lt_of_step hdeliberate hchanges,
    GuardedMonitor.exists_still events⟩
  intro hsize hpure hsame hstill
  have hdone := done_of_still hserved (hblocked hstill) hpure hsame hstill hsize
  have hempty := elements_of_still hserved (hblocked hstill) hpure hsame hstill hsize
  exact ⟨hdone, by rw [hfifo, hempty, List.append_nil]⟩

def popAndPush : Fin 2 → List (MQCall ℕ) := ![[.pop], [.push 7]]

/-- The thread that pops sleeps until the other has pushed. -/
def popFirst {ι : Type} (t u : ι) : List (MonitorEvent ι) :=
  [.run t, .run t, .run t, .run u, .run u, .run u, .run u, .notify u t, .run u, .run t, .run t,
    .run t, .notify t u, .run t]

theorem messages_arrive_popFirst :
    let s := run (monitor (ListBuffer.circularBuffer ℕ)).step
      (GuardedMonitor.start (start (ListBuffer.circularBuffer ℕ) 1) popAndPush) (popFirst 0 1)
    (s.served.map Prod.snd).filterMap MQCall.pushed = s.shared.popped := by
  intro s
  have hidle : ∀ t, s.pc t = .idle ∧ s.program t = [] := by decide +kernel
  have harrive := (messages_arrive (ListBuffer.circularBuffer ℕ) 1 popAndPush (popFirst 0 1)).2.2.1
  exact (harrive Nat.one_pos (by decide) (by decide) fun t => .inl (hidle t)).2

end MQ

end CppPlay.MultiThread
