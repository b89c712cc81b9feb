import CppPlay.Lib.Run
import CppPlay.Lib.Threads

/-!
# The blocking queue

`moveIn` and `moveOut` of the thread safe `DataQueue` over a `std::queue`, with one condition
variable for each side.  `full` compares with `>`, so the queue takes one element more than
`MAX_QUEUE_SIZE`; everything else of the monitor is right for that capacity.
-/

namespace CppPlay.MultiThread

open CppPlay.Lib

def MAX_QUEUE_SIZE : ℕ := 20

inductive QueueSide where
  | producer
  | consumer
  deriving DecidableEq

def QueueSide.other : QueueSide → QueueSide
  | .producer => .consumer
  | .consumer => .producer

inductive QueueCall (τ : Type) where
  | moveIn (element : τ)
  | moveOut

/-! ## The container -/

section Container

variable {τ : Type}

def full (container : List τ) : Bool := MAX_QUEUE_SIZE < container.length

def empty (container : List τ) : Bool := container.isEmpty

namespace QueueCall

def side : QueueCall τ → QueueSide
  | .moveIn _ => .producer
  | .moveOut => .consumer

def mayGo (container : List τ) : QueueCall τ → Bool
  | .moveIn _ => !full container
  | .moveOut => !empty container

end QueueCall

/-- How many calls of a side the container can serve. -/
def QueueSide.room (container : List τ) : QueueSide → ℕ
  | .producer => MAX_QUEUE_SIZE + 1 - container.length
  | .consumer => container.length

theorem QueueCall.room_of_not_mayGo {container : List τ} {call : QueueCall τ}
    (hgo : call.mayGo container = false) : call.side.room container = 0 := by
  cases call with
  | moveIn element =>
      simp only [mayGo, full, Bool.not_eq_false', decide_eq_true_eq] at hgo
      simp only [side, QueueSide.room]
      omega
  | moveOut => simpa [mayGo, empty, side, QueueSide.room] using hgo

end Container

/-! ## The monitor -/

/-- Where a thread stands in a call.  A thread that comes out of `wait` is `woken` until it has the
mutex again; `notified` says that it goes on because of a notification, and not by itself. -/
inductive DataQueuePc (τ : Type) where
  | idle
  | locking (call : QueueCall τ)
  | testing (call : QueueCall τ) (notified : Bool)
  | waiting (call : QueueCall τ)
  | woken (call : QueueCall τ) (notified : Bool)
  | moving (call : QueueCall τ) (notified : Bool)
  | notifying (call : QueueCall τ)
  | unlocking

namespace DataQueuePc

variable {τ : Type}

def waits (side : QueueSide) : DataQueuePc τ → Bool
  | .waiting call => call.side = side
  | _ => false

/-- A notification for a side is pending with the thread: it is about to send one, or it got one
and has not moved its element yet. -/
def notified (side : QueueSide) : DataQueuePc τ → Bool
  | .woken call true => call.side = side
  | .testing call true => call.side = side
  | .moving call true => call.side = side
  | .notifying call => call.side.other = side
  | _ => false

def wake (notified : Bool) : DataQueuePc τ → DataQueuePc τ
  | .waiting call => .woken call notified
  | pc => pc

theorem wake_cases (notified : Bool) (pc : DataQueuePc τ) :
    (∃ call, pc = .waiting call ∧ pc.wake notified = .woken call notified) ∨
      pc.wake notified = pc := by
  cases pc with
  | waiting call => exact .inl ⟨call, rfl, rfl⟩
  | _ => exact .inr rfl

end DataQueuePc

inductive DataQueueEvent (ι τ : Type) where
  | call (t : ι) (call : QueueCall τ)
  | run (t : ι)
  | notify (t waiter : ι)
  | wakeUp (t : ι)

structure DataQueue (ι τ : Type) where
  container : List τ
  mutex : Option ι
  pc : ι → DataQueuePc τ
  entered : List τ
  left : List τ
  undefined : Bool

namespace DataQueue

variable {ι τ : Type}

def start : DataQueue ι τ := ⟨[], none, fun _ => .idle, [], [], false⟩

section Step

variable [DecidableEq ι]

def runStep (s : DataQueue ι τ) (t : ι) : DataQueue ι τ :=
  match s.pc t with
  | .locking call =>
      if s.mutex.isNone then
        { s with mutex := some t, pc := Function.update s.pc t (.testing call false) }
      else s
  | .woken call notified =>
      if s.mutex.isNone then
        { s with mutex := some t, pc := Function.update s.pc t (.testing call notified) }
      else s
  | .testing call notified =>
      if call.mayGo s.container then
        { s with pc := Function.update s.pc t (.moving call notified) }
      else { s with mutex := none, pc := Function.update s.pc t (.waiting call) }
  | .moving (.moveIn element) _ =>
      { s with
        container := s.container ++ [element]
        entered := s.entered ++ [element]
        pc := Function.update s.pc t (.notifying (.moveIn element)) }
  | .moving .moveOut _ =>
      match s.container with
      -- `front` of an empty container
      | [] => { s with undefined := true }
      | el :: container =>
          { s with
            container := container
            left := s.left ++ [el]
            pc := Function.update s.pc t (.notifying .moveOut) }
  | .unlocking => { s with mutex := none, pc := Function.update s.pc t .idle }
  | .idle | .waiting _ | .notifying _ => s

variable [Fintype ι]

/-- `notify_one` wakes one of the threads that wait, any of them, or nobody if none does. -/
def notifyStep (s : DataQueue ι τ) (t waiter : ι) : DataQueue ι τ :=
  match s.pc t with
  | .notifying call =>
      if (s.pc waiter).waits call.side.other then
        { s with
          pc := Function.update (Function.update s.pc waiter ((s.pc waiter).wake true)) t
            .unlocking }
      else if ∀ u, (s.pc u).waits call.side.other = false then
        { s with pc := Function.update s.pc t .unlocking }
      else s
  | _ => s

def step (s : DataQueue ι τ) : DataQueueEvent ι τ → DataQueue ι τ
  | .call t call =>
      match s.pc t with
      | .idle => { s with pc := Function.update s.pc t (.locking call) }
      | _ => s
  | .run t => s.runStep t
  | .notify t waiter => s.notifyStep t waiter
  | .wakeUp t => { s with pc := Function.update s.pc t ((s.pc t).wake false) }

end Step

structure Monitor (s : DataQueue ι τ) : Prop where
  bounded : s.container.length ≤ MAX_QUEUE_SIZE
  fifo : s.entered = s.left ++ s.container
  defined : s.undefined = false
  producers : ∀ t, (s.pc t).waits .producer = true → full s.container = false →
    ∃ u, (s.pc u).notified .producer = true
  consumers : ∀ t, (s.pc t).waits .consumer = true → empty s.container = false →
    ∃ u, (s.pc u).notified .consumer = true

/-- No `moveIn` moves its element into a queue that already holds `MAX_QUEUE_SIZE`. -/
def MovesIntoRoom (s : DataQueue ι τ) (event : DataQueueEvent ι τ) : Prop :=
  ∀ t element notified, event = .run t → s.pc t = .moving (.moveIn element) notified →
    s.container.length < MAX_QUEUE_SIZE

/-! ## The invariant -/

def Holds (mutex : Option ι) (container : List τ) (t : ι) : DataQueuePc τ → Prop
  | .testing _ _ | .notifying _ | .unlocking => mutex = some t
  | .moving call _ => mutex = some t ∧ call.mayGo container = true
  | _ => True

theorem Holds.of_not_owner {mutex mutex' : Option ι} {container container' : List τ} {t : ι}
    {pc : DataQueuePc τ} (hholds : Holds mutex container t pc) (hother : mutex ≠ some t) :
    Holds mutex' container' t pc := by
  cases pc with
  | testing call notified => exact absurd hholds hother
  | notifying call => exact absurd hholds hother
  | unlocking => exact absurd hholds hother
  | moving call notified => exact absurd hholds.1 hother
  | _ => trivial

section Served

variable [Fintype ι]

/-- While a thread of a side waits, every call that the container could serve has a
notification. -/
def Served (side : QueueSide) (pc : ι → DataQueuePc τ) (room : ℕ) : Prop :=
  (∃ t, (pc t).waits side = true) → room ≤ ∑ u, ((pc u).notified side).toNat

theorem Served.exists_notified {side : QueueSide} {pc : ι → DataQueuePc τ} {room : ℕ}
    (hserved : Served side pc room) {t : ι} (hwaits : (pc t).waits side = true)
    (hroom : 0 < room) : ∃ u, (pc u).notified side = true := by
  by_contra hnone
  have hsum : ∑ u, ((pc u).notified side).toNat = 0 := by
    apply Finset.sum_eq_zero
    intro u _
    rw [Bool.eq_false_iff.mpr fun hu => hnone ⟨u, hu⟩]
    rfl
  have hle := hserved ⟨t, hwaits⟩
  omega

theorem Served.of_nobody {side : QueueSide} {pc : ι → DataQueuePc τ} {room : ℕ}
    (hnobody : ∀ u, (pc u).waits side = false) : Served side pc room := by
  intro hsome
  obtain ⟨u, hu⟩ := hsome
  rw [hnobody u] at hu
  cases hu

variable [DecidableEq ι]

/-- A thread that moves may use up its own notification for the call it has served, and it starts
to wait only where there is nothing to serve. -/
theorem Served.update {side : QueueSide} {pc : ι → DataQueuePc τ} {room room' : ℕ}
    (hserved : Served side pc room) {t : ι} {a : DataQueuePc τ}
    (hmove : room' = 0 ∨ a.waits side = false ∧
      room' + ((pc t).notified side).toNat ≤ room + (a.notified side).toNat) :
    Served side (Function.update pc t a) room' := by
  intro hsome
  obtain ⟨u, hu⟩ := hsome
  rcases hmove with hzero | ⟨hgoes, hmove⟩
  · rw [hzero]
    exact Nat.zero_le _
  · have hother : u ≠ t := by
      intro hsame
      rw [hsame, Function.update_self, hgoes] at hu
      cases hu
    rw [Function.update_of_ne hother] at hu
    have hle := hserved ⟨u, hu⟩
    have hsum := sum_update (fun pc => (pc.notified side).toNat) pc t a
    omega

end Served

theorem alone_of_none {s : DataQueue ι τ} (hmutex : s.mutex.isNone = true) (t : ι) :
    ∀ u, u ≠ t → s.mutex ≠ some u := by
  intro u _ howner
  rw [howner] at hmutex
  cases hmutex

theorem alone_of_some {s : DataQueue ι τ} {t : ι} (hmutex : s.mutex = some t) :
    ∀ u, u ≠ t → s.mutex ≠ some u := by
  intro u hu howner
  exact hu (Option.some.inj (howner.symm.trans hmutex))

variable [Fintype ι]

structure Inv (s : DataQueue ι τ) : Prop where
  bounded : s.container.length ≤ MAX_QUEUE_SIZE + 1
  fifo : s.entered = s.left ++ s.container
  defined : s.undefined = false
  holds : ∀ t, Holds s.mutex s.container t (s.pc t)
  served : ∀ side, Served side s.pc (side.room s.container)

theorem start_inv : (start : DataQueue ι τ).Inv := by
  constructor
  · exact Nat.zero_le _
  · rfl
  · rfl
  · intro t
    trivial
  · intro side hsome
    obtain ⟨t, ht⟩ := hsome
    cases ht

theorem Inv.monitor {s : DataQueue ι τ} (hinv : s.Inv)
    (hbound : s.container.length ≤ MAX_QUEUE_SIZE) : s.Monitor := by
  constructor
  · exact hbound
  · exact hinv.fifo
  · exact hinv.defined
  · intro t hwaits _
    refine (hinv.served .producer).exists_notified hwaits ?_
    rw [QueueSide.room]
    omega
  · intro t hwaits hsome
    rw [empty, List.isEmpty_eq_false_iff] at hsome
    exact (hinv.served .consumer).exists_notified hwaits (List.length_pos_of_ne_nil hsome)

variable [DecidableEq ι]

/-- A move of one thread that only it can make, because it has the mutex or nobody has. -/
theorem Inv.of_move {s s' : DataQueue ι τ} (hinv : s.Inv) {t : ι} {a : DataQueuePc τ}
    (halone : ∀ u, u ≠ t → s.mutex ≠ some u) (hpc : s'.pc = Function.update s.pc t a)
    (hbounded : s'.container.length ≤ MAX_QUEUE_SIZE + 1)
    (hfifo : s'.entered = s'.left ++ s'.container) (hdefined : s'.undefined = false)
    (hholds : Holds s'.mutex s'.container t a)
    (hmove : ∀ side : QueueSide, side.room s'.container = 0 ∨ a.waits side = false ∧
      side.room s'.container + ((s.pc t).notified side).toNat ≤
        side.room s.container + (a.notified side).toNat) : s'.Inv := by
  constructor
  · exact hbounded
  · exact hfifo
  · exact hdefined
  · rw [hpc]
    exact forall_update hholds fun u hu => (hinv.holds u).of_not_owner (halone u hu)
  · rw [hpc]
    exact fun side => (hinv.served side).update (hmove side)

/-- Such a move, where it leaves the container alone. -/
theorem Inv.of_pc {s : DataQueue ι τ} (hinv : s.Inv) {t : ι} {a : DataQueuePc τ}
    {mutex : Option ι} (halone : ∀ u, u ≠ t → s.mutex ≠ some u)
    (hholds : Holds mutex s.container t a)
    (hmove : ∀ side : QueueSide, side.room s.container = 0 ∨ a.waits side = false ∧
      ((s.pc t).notified side).toNat ≤ (a.notified side).toNat) :
    Inv { s with mutex := mutex, pc := Function.update s.pc t a } := by
  refine hinv.of_move halone rfl hinv.bounded hinv.fifo hinv.defined hholds ?_
  intro side
  rcases hmove side with hzero | ⟨hgoes, hle⟩
  · exact .inl hzero
  · exact .inr ⟨hgoes, Nat.add_le_add_left hle _⟩

theorem Inv.moveIn {s : DataQueue ι τ} (hinv : s.Inv) {t : ι} {element : τ} {notified : Bool}
    (hpc : s.pc t = .moving (.moveIn element) notified) : (s.runStep t).Inv := by
  obtain ⟨hmutex, hgo⟩ : s.mutex = some t ∧ (QueueCall.moveIn element).mayGo s.container = true :=
    (hpc ▸ hinv.holds t :)
  simp only [QueueCall.mayGo, full, Bool.not_eq_true', decide_eq_false_iff_not, not_lt] at hgo
  have hlength : (s.container ++ [element]).length = s.container.length + 1 :=
    List.length_append
  rw [DataQueue.runStep, hpc]
  refine hinv.of_move (alone_of_some hmutex) rfl ?_ ?_ hinv.defined hmutex ?_
  · change (s.container ++ [element]).length ≤ _
    omega
  · change s.entered ++ [element] = s.left ++ (s.container ++ [element])
    rw [hinv.fifo, List.append_assoc]
  · intro side
    refine .inr ⟨rfl, ?_⟩
    cases side with
    | producer =>
        have hused : ((s.pc t).notified .producer).toNat ≤ 1 := Bool.toNat_le _
        simp only [QueueSide.room, hlength]
        omega
    | consumer =>
        have hnone : ((s.pc t).notified .consumer).toNat = 0 := by
          rw [hpc]
          cases notified <;> rfl
        have hsends : ((DataQueuePc.notifying (.moveIn element)).notified .consumer).toNat = 1 :=
          rfl
        simp only [QueueSide.room, hlength]
        omega

theorem Inv.moveOut {s : DataQueue ι τ} (hinv : s.Inv) {t : ι} {notified : Bool}
    (hpc : s.pc t = .moving .moveOut notified) : (s.runStep t).Inv := by
  obtain ⟨hmutex, hgo⟩ : s.mutex = some t ∧ QueueCall.moveOut.mayGo s.container = true :=
    (hpc ▸ hinv.holds t :)
  cases hcontainer : s.container with
  | nil =>
      rw [hcontainer] at hgo
      cases hgo
  | cons el container =>
      have hbounded := hinv.bounded
      have hfifo := hinv.fifo
      rw [hcontainer] at hbounded hfifo
      rw [List.length_cons] at hbounded
      rw [DataQueue.runStep, hpc]
      simp only [hcontainer]
      refine hinv.of_move (alone_of_some hmutex) rfl ?_ ?_ hinv.defined hmutex ?_
      · change container.length ≤ _
        omega
      · change s.entered = (s.left ++ [el]) ++ container
        rw [hfifo, List.append_assoc, List.singleton_append]
      · intro side
        refine .inr ⟨rfl, ?_⟩
        cases side with
        | producer =>
            have hnone : ((s.pc t).notified .producer).toNat = 0 := by
              rw [hpc]
              cases notified <;> rfl
            have hsends : ((DataQueuePc.notifying (.moveOut : QueueCall τ)).notified
                .producer).toNat = 1 := rfl
            simp only [QueueSide.room, hcontainer, List.length_cons]
            omega
        | consumer =>
            have hused : ((s.pc t).notified .consumer).toNat ≤ 1 := Bool.toNat_le _
            simp only [QueueSide.room, hcontainer, List.length_cons]
            omega

theorem Inv.runStep {s : DataQueue ι τ} (hinv : s.Inv) (t : ι) : (s.runStep t).Inv := by
  have hthread := hinv.holds t
  cases hpc : s.pc t with
  | idle =>
      rw [DataQueue.runStep, hpc]
      exact hinv
  | waiting call =>
      rw [DataQueue.runStep, hpc]
      exact hinv
  | notifying call =>
      rw [DataQueue.runStep, hpc]
      exact hinv
  | locking call =>
      rw [DataQueue.runStep, hpc]
      simp only
      split_ifs with hfree
      · exact hinv.of_pc (alone_of_none hfree t) rfl
          fun side => .inr ⟨rfl, by rw [hpc]; exact le_rfl⟩
      · exact hinv
  | woken call notified =>
      rw [DataQueue.runStep, hpc]
      simp only
      split_ifs with hfree
      · exact hinv.of_pc (alone_of_none hfree t) rfl
          fun side => .inr ⟨rfl, by rw [hpc]; cases notified <;> exact le_rfl⟩
      · exact hinv
  | testing call notified =>
      rw [hpc] at hthread
      rw [DataQueue.runStep, hpc]
      simp only
      split_ifs with hgo
      · exact hinv.of_pc (alone_of_some hthread) ⟨hthread, hgo⟩
          fun side => .inr ⟨rfl, by rw [hpc]; cases notified <;> exact le_rfl⟩
      · -- the notification is lost, but there is nothing that it could be for
        have hroom := QueueCall.room_of_not_mayGo (Bool.eq_false_iff.mpr hgo)
        refine hinv.of_pc (alone_of_some hthread) trivial ?_
        intro side
        by_cases hside : call.side = side
        · rw [← hside]
          exact .inl hroom
        · refine .inr ⟨decide_eq_false hside, ?_⟩
          rw [hpc]
          cases notified <;> simp [DataQueuePc.notified, hside]
  | moving call notified =>
      cases call with
      | moveIn element => exact hinv.moveIn hpc
      | moveOut => exact hinv.moveOut hpc
  | unlocking =>
      rw [hpc] at hthread
      rw [DataQueue.runStep, hpc]
      exact hinv.of_pc (alone_of_some hthread) trivial
        fun side => .inr ⟨rfl, by rw [hpc]; exact le_rfl⟩

theorem Inv.wakeUp {s : DataQueue ι τ} (hinv : s.Inv) (t : ι) (notified : Bool) :
    Inv { s with pc := Function.update s.pc t ((s.pc t).wake notified) } := by
  rcases (s.pc t).wake_cases notified with ⟨call, hpc, hwoken⟩ | hsame
  · rw [hwoken]
    constructor
    · exact hinv.bounded
    · exact hinv.fifo
    · exact hinv.defined
    · exact forall_update trivial fun u _ => hinv.holds u
    · intro side
      refine (hinv.served side).update (.inr ⟨rfl, ?_⟩)
      rw [hpc]
      exact Nat.le_add_right _ _
  · rw [hsame, Function.update_eq_self]
    exact hinv

theorem Served.handOver {side : QueueSide} {pc : ι → DataQueuePc τ} {room : ℕ}
    (hserved : Served side pc room) {t waiter : ι} {call : QueueCall τ}
    (hpc : pc t = .notifying call) (hwaits : (pc waiter).waits call.side.other = true) :
    Served side (Function.update (Function.update pc waiter ((pc waiter).wake true)) t .unlocking)
      room := by
  rcases (pc waiter).wake_cases true with ⟨waiting, hwaiter, hwoken⟩ | hsame
  · have hne : t ≠ waiter := by
      intro hsame
      rw [← hsame, hpc] at hwaits
      cases hwaits
    rw [hwaiter] at hwaits
    have hside : waiting.side = call.side.other := of_decide_eq_true hwaits
    have hweight : ((DataQueuePc.woken waiting true).notified side).toNat =
        ((pc t).notified side).toNat := by
      rw [hpc, DataQueuePc.notified, DataQueuePc.notified, hside]
    have hfirst : Served side (Function.update pc waiter ((pc waiter).wake true))
        (room + ((pc t).notified side).toNat) := by
      refine hserved.update (.inr ⟨by rw [hwoken]; rfl, ?_⟩)
      rw [hwoken, hweight, hwaiter]
      exact le_rfl
    refine hfirst.update (.inr ⟨rfl, ?_⟩)
    rw [Function.update_of_ne hne]
    exact Nat.le_add_right _ _
  · cases hwaiter : pc waiter with
    | waiting waiting =>
        rw [hwaiter] at hsame
        cases hsame
    | _ =>
        rw [hwaiter] at hwaits
        cases hwaits

theorem Inv.notifyStep {s : DataQueue ι τ} (hinv : s.Inv) (t waiter : ι) :
    (s.notifyStep t waiter).Inv := by
  have hthread := hinv.holds t
  unfold DataQueue.notifyStep
  cases hpc : s.pc t with
  | notifying call =>
      rw [hpc] at hthread
      simp only
      split_ifs with hwaits hnobody
      · constructor
        · exact hinv.bounded
        · exact hinv.fifo
        · exact hinv.defined
        · exact forall_update hthread fun u _ => (hinv.wakeUp waiter true).holds u
        · exact fun side => (hinv.served side).handOver hpc hwaits
      · constructor
        · exact hinv.bounded
        · exact hinv.fifo
        · exact hinv.defined
        · exact forall_update hthread fun u _ => hinv.holds u
        · intro side
          by_cases hside : call.side.other = side
          · rw [hside] at hnobody
            exact Served.of_nobody (forall_update
              (P := fun _ pc => DataQueuePc.waits side pc = false) rfl fun u _ => hnobody u)
          · refine (hinv.served side).update (.inr ⟨rfl, ?_⟩)
            rw [hpc]
            simp [DataQueuePc.notified, hside]
      · exact hinv
  | _ => exact hinv

theorem Inv.step {s : DataQueue ι τ} (hinv : s.Inv) (event : DataQueueEvent ι τ) :
    (s.step event).Inv := by
  cases event with
  | call t call =>
      rw [DataQueue.step]
      cases hpc : s.pc t with
      | idle =>
          constructor
          · exact hinv.bounded
          · exact hinv.fifo
          · exact hinv.defined
          · exact forall_update trivial fun u _ => hinv.holds u
          · intro side
            exact (hinv.served side).update (.inr ⟨rfl, by rw [hpc]; rfl⟩)
      | _ => exact hinv
  | run t => exact hinv.runStep t
  | notify t waiter => exact hinv.notifyStep t waiter
  | wakeUp t => exact hinv.wakeUp t false

/-- In every run the monitor is right for one element more than `MAX_QUEUE_SIZE`. -/
theorem inv_run (events : List (DataQueueEvent ι τ)) : (run step start events).Inv :=
  run_invariant Inv start_inv (fun _ event hinv => hinv.step event) events

/-! ## The bound -/

omit [Fintype ι] in
theorem runStep_moveIn {s : DataQueue ι τ} {t : ι} {element : τ} {notified : Bool}
    (hpc : s.pc t = .moving (.moveIn element) notified) :
    (s.runStep t).container = s.container ++ [element] := by
  rw [runStep, hpc]

theorem length_step_le {s : DataQueue ι τ} {event : DataQueueEvent ι τ}
    (hother : ∀ t element notified, event = .run t →
      s.pc t ≠ .moving (.moveIn element) notified) :
    (s.step event).container.length ≤ s.container.length := by
  cases event with
  | call t call =>
      rw [step]
      cases s.pc t <;> exact le_rfl
  | run t =>
      rw [step, runStep]
      cases hpc : s.pc t with
      | moving call notified =>
          cases call with
          | moveIn element => exact absurd hpc (hother t element notified rfl)
          | moveOut =>
              cases hcontainer : s.container with
              | nil => simp
              | cons el container => simp
      | locking call =>
          simp only
          split_ifs <;> exact le_rfl
      | woken call notified =>
          simp only
          split_ifs <;> exact le_rfl
      | testing call notified =>
          simp only
          split_ifs <;> exact le_rfl
      | _ => exact le_rfl
  | notify t waiter =>
      rw [step, notifyStep]
      cases s.pc t with
      | notifying call =>
          simp only
          split_ifs <;> exact le_rfl
      | _ => exact le_rfl
  | wakeUp t => exact le_rfl

/-- The queue keeps its promises exactly in the runs that never move an element into a queue that
holds `MAX_QUEUE_SIZE`. -/
theorem monitor_iff (events : List (DataQueueEvent ι τ)) :
    (∀ first, first <+: events → (run step start first).Monitor) ↔
      ∀ earlier event later, events = earlier ++ event :: later →
        (run step (start : DataQueue ι τ) earlier).MovesIntoRoom event := by
  refine always_iff_of_steps step start
    (fun s => s.Inv ∧ s.container.length ≤ MAX_QUEUE_SIZE) Monitor MovesIntoRoom
    ⟨start_inv, Nat.zero_le _⟩ (fun s hs => hs.1.monitor hs.2) ?_ ?_ events
  · intro s event hs hroom
    refine ⟨hs.1.step event, ?_⟩
    by_cases hmoves : ∃ t element notified, event = .run t ∧
        s.pc t = .moving (.moveIn element) notified
    · obtain ⟨t, element, notified, hevent, hpc⟩ := hmoves
      have hlt := hroom t element notified hevent hpc
      rw [hevent, step, runStep_moveIn hpc, List.length_append, List.length_singleton]
      omega
    · have hle := length_step_le fun t element notified hevent hpc =>
        hmoves ⟨t, element, notified, hevent, hpc⟩
      exact hle.trans hs.2
  · intro s event hs hnot hmonitor
    apply hnot
    intro t element notified hevent hpc
    have hbound := hmonitor.bounded
    rw [hevent, step, runStep_moveIn hpc, List.length_append, List.length_singleton] at hbound
    omega

def moveInEvents (t : ι) (element : τ) : List (DataQueueEvent ι τ) :=
  [.call t (.moveIn element), .run t, .run t, .run t, .notify t t, .run t]

theorem not_always_monitor :
    ¬ ∀ (ι τ : Type) [Fintype ι] [DecidableEq ι] (events : List (DataQueueEvent ι τ)),
      (run step (start : DataQueue ι τ) events).Monitor := by
  intro hclaim
  have hmonitor := hclaim Unit ℕ ((List.range 21).flatMap (moveInEvents ()))
  have hbound := hmonitor.bounded
  have hlength : (run step (start : DataQueue Unit ℕ)
      ((List.range 21).flatMap (moveInEvents ()))).container.length = 21 := by
    decide +kernel
  rw [hlength] at hbound
  exact absurd hbound (by decide)

end DataQueue

end CppPlay.MultiThread
