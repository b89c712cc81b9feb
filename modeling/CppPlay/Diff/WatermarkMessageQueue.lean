import CppPlay.Lib.CircularBuffer
import CppPlay.Lib.Run

/-!
# The watermark queue

`deliver` tells its caller how full the queue is through two callbacks, and each of them ends
the call.  `on_low_watermark` was to be a warning, but the message it warns about is dropped.
-/

namespace CppPlay.Diff

open CppPlay.Lib

variable {τ : Type}

inductive Expiry where
  | posInfin
  | negInfin
  deriving DecidableEq

inductive Watermark where
  | low
  | high
  deriving DecidableEq

structure WatermarkMessageQueue (cb : CircularBuffer τ) where
  m_non_empty_queue : Expiry
  m_queue : cb.Buffer
  m_low_watermark : ℕ

namespace WatermarkMessageQueue

variable {cb : CircularBuffer τ}

def make (high_watermark low_watermark : ℕ) : WatermarkMessageQueue cb :=
  ⟨.posInfin, cb.make high_watermark, low_watermark⟩

def deliverMsg (q : WatermarkMessageQueue cb) (msg : τ) : WatermarkMessageQueue cb :=
  { q with m_queue := cb.push_back q.m_queue msg, m_non_empty_queue := .negInfin }

/-- The queue afterwards, and the callback that was called. -/
def deliver (q : WatermarkMessageQueue cb) (msg : τ) :
    WatermarkMessageQueue cb × Option Watermark :=
  if cb.full q.m_queue then (q, some .high)
  else if q.m_low_watermark < cb.size q.m_queue then (q, some .low)
  else (q.deliverMsg msg, none)

def empty (q : WatermarkMessageQueue cb) : Bool := cb.empty q.m_queue

def front (q : WatermarkMessageQueue cb) : Option τ :=
  if q.empty then none else cb.front q.m_queue

def pop_front (q : WatermarkMessageQueue cb) : WatermarkMessageQueue cb :=
  if q.empty then q else { q with m_queue := cb.pop_front q.m_queue }

/-- What the callbacks say of a message that is handed to `deliver`: it is kept unless the queue is
full, and `on_low_watermark` is the warning that there are already many. -/
structure DeliversWell (q : WatermarkMessageQueue cb) (msg : τ) : Prop where
  keeps : (cb.elements q.m_queue).length < cb.capacity q.m_queue →
    cb.elements (q.deliver msg).1.m_queue = cb.elements q.m_queue ++ [msg] ∧
      (q.deliver msg).2 ≠ some .high
  full : (cb.elements q.m_queue).length = cb.capacity q.m_queue →
    (q.deliver msg).1 = q ∧ (q.deliver msg).2 = some .high
  low : (q.deliver msg).2 = some .low ↔ q.m_low_watermark < (cb.elements q.m_queue).length

theorem deliver_of_le {q : WatermarkMessageQueue cb}
    (hlow : q.m_low_watermark < cb.capacity q.m_queue)
    (hfound : (cb.elements q.m_queue).length ≤ q.m_low_watermark) (msg : τ) :
    (cb.elements q.m_queue).length < cb.capacity q.m_queue ∧
      q.deliver msg = (q.deliverMsg msg, none) := by
  have hroom := lt_of_le_of_lt hfound hlow
  rw [deliver, if_neg (by rw [cb.full_iff]; omega), if_neg (by rw [cb.size_eq]; omega)]
  exact ⟨hroom, rfl⟩

theorem deliversWell_iff {q : WatermarkMessageQueue cb}
    (hlow : q.m_low_watermark < cb.capacity q.m_queue) (msg : τ) :
    q.DeliversWell msg ↔ (cb.elements q.m_queue).length ≤ q.m_low_watermark := by
  constructor
  · intro hwell
    by_contra hmore
    have hwarned := hwell.low.mpr (not_le.mp hmore)
    by_cases hfull : (cb.elements q.m_queue).length = cb.capacity q.m_queue
    · rw [(hwell.full hfull).2] at hwarned
      cases hwarned
    · have hle := cb.length_le q.m_queue
      have hkept := (hwell.keeps (by omega)).1
      rw [deliver, if_neg (by rw [cb.full_iff]; exact hfull),
        if_pos (by rw [cb.size_eq]; exact not_le.mp hmore)] at hkept
      simp at hkept
  · intro hfound
    obtain ⟨hroom, hdeliver⟩ := deliver_of_le hlow hfound msg
    constructor
    · intro _
      rw [hdeliver]
      exact ⟨CircularBuffer.elements_push_back_of_lt hroom msg, by simp⟩
    · intro hat
      omega
    · rw [hdeliver]
      simp only [reduceCtorEq, false_iff]
      omega

end WatermarkMessageQueue

/-! ## Whole runs -/

inductive WatermarkEvent (τ : Type) where
  | deliver (msg : τ)
  | front
  | pop_front

/-- The queue with the messages that have been pushed to it and those that have been popped. -/
structure WatermarkRun (cb : CircularBuffer τ) where
  queue : WatermarkMessageQueue cb
  enqueued : List τ
  popped : List τ

namespace WatermarkRun

variable {cb : CircularBuffer τ}

variable (cb) in
def start (high_watermark low_watermark : ℕ) : WatermarkRun cb :=
  ⟨.make high_watermark low_watermark, [], []⟩

def step (s : WatermarkRun cb) : WatermarkEvent τ → WatermarkRun cb
  | .deliver msg =>
      match s.queue.deliver msg with
      | (queue, none) => { s with queue := queue, enqueued := s.enqueued ++ [msg] }
      | (queue, some _) => { s with queue := queue }
  | .front => s
  | .pop_front =>
      { s with
        queue := s.queue.pop_front
        popped := s.popped ++ (cb.elements s.queue.m_queue).take 1 }

def Stores (s : WatermarkRun cb) : Prop := s.enqueued = s.popped ++ cb.elements s.queue.m_queue

def Serves (s : WatermarkRun cb) : WatermarkEvent τ → Prop
  | .deliver msg => s.queue.DeliversWell msg
  | .front => s.queue.front = s.enqueued[s.popped.length]?
  | .pop_front => True

structure Inv (high_watermark low_watermark : ℕ) (s : WatermarkRun cb) : Prop where
  capacity : cb.capacity s.queue.m_queue = high_watermark
  low : s.queue.m_low_watermark = low_watermark
  stores : s.Stores

variable {high_watermark low_watermark : ℕ}

theorem Inv.step {s : WatermarkRun cb} (hinv : s.Inv high_watermark low_watermark)
    (event : WatermarkEvent τ) : (s.step event).Inv high_watermark low_watermark := by
  cases event with
  | deliver msg =>
      rw [WatermarkRun.step, WatermarkMessageQueue.deliver]
      split_ifs with hfull hlow
      · exact hinv
      · exact hinv
      · refine ⟨(cb.capacity_push_back _ msg).trans hinv.capacity, hinv.low, ?_⟩
        have hroom := CircularBuffer.full_eq_false_iff.mp (Bool.eq_false_iff.mpr hfull)
        have hpushed := CircularBuffer.elements_push_back_of_lt hroom msg
        change s.enqueued ++ [msg] = s.popped ++ cb.elements (cb.push_back s.queue.m_queue msg)
        rw [hpushed, ← List.append_assoc, ← hinv.stores]
  | front => exact hinv
  | pop_front =>
      have hstores := hinv.stores
      rw [Stores] at hstores
      rw [WatermarkRun.step, WatermarkMessageQueue.pop_front, WatermarkMessageQueue.empty]
      cases hitems : cb.elements s.queue.m_queue with
      | nil =>
          rw [hitems] at hstores
          rw [if_pos ((cb.empty_iff _).mpr hitems)]
          refine ⟨hinv.capacity, hinv.low, ?_⟩
          change s.enqueued = (s.popped ++ []) ++ cb.elements s.queue.m_queue
          simp only [hstores, hitems, List.append_nil]
      | cons item items =>
          have hne : cb.elements s.queue.m_queue ≠ [] := by simp [hitems]
          rw [hitems] at hstores
          rw [if_neg (by rw [cb.empty_iff]; exact hne)]
          refine ⟨(cb.capacity_pop_front _).trans hinv.capacity, hinv.low, ?_⟩
          change s.enqueued = (s.popped ++ [item]) ++ cb.elements (cb.pop_front s.queue.m_queue)
          rw [hstores, cb.elements_pop_front _ hne, hitems, List.tail_cons, List.append_assoc,
            List.singleton_append]

theorem start_inv :
    (start cb high_watermark low_watermark).Inv high_watermark low_watermark :=
  ⟨cb.capacity_make _, rfl, (cb.elements_make _).symm⟩

theorem inv_run (events : List (WatermarkEvent τ)) :
    (run step (start cb high_watermark low_watermark) events).Inv high_watermark low_watermark :=
  run_invariant (Inv high_watermark low_watermark) start_inv
    (fun _ event hinv => hinv.step event) events

theorem Stores.front {s : WatermarkRun cb} (hstores : s.Stores) :
    s.queue.front = s.enqueued[s.popped.length]? := by
  rw [Stores] at hstores
  rw [hstores, List.getElem?_append_right le_rfl, Nat.sub_self, WatermarkMessageQueue.front,
    WatermarkMessageQueue.empty]
  cases hitems : cb.elements s.queue.m_queue with
  | nil => rw [if_pos ((cb.empty_iff _).mpr hitems)]; rfl
  | cons item items =>
      rw [if_neg (by rw [cb.empty_iff, hitems]; exact List.cons_ne_nil _ _), cb.front_eq, hitems]
      rfl

theorem Inv.serves_iff {s : WatermarkRun cb} (hinv : s.Inv high_watermark low_watermark)
    (hlow : low_watermark < high_watermark) (event : WatermarkEvent τ) :
    s.Serves event ↔
      ∀ msg, event = .deliver msg → (cb.elements s.queue.m_queue).length ≤ low_watermark := by
  cases event with
  | deliver msg =>
      have hwell := WatermarkMessageQueue.deliversWell_iff (q := s.queue)
        (by rw [hinv.low, hinv.capacity]; exact hlow) msg
      rw [hinv.low] at hwell
      rw [Serves, hwell]
      simp
  | front => simpa [Serves] using hinv.stores.front
  | pop_front => simp [Serves]

/-- Messages are stored in order in every run, and every delivery is served as its callbacks say
exactly when none finds more messages than the low watermark. -/
theorem always_serves_iff (cb : CircularBuffer τ) (high_watermark low_watermark : ℕ)
    (hlow : low_watermark < high_watermark) (events : List (WatermarkEvent τ)) :
    ((∀ first, first <+: events →
          (run step (start cb high_watermark low_watermark) first).Stores) ∧
        ∀ earlier event later, events = earlier ++ event :: later →
          (run step (start cb high_watermark low_watermark) earlier).Serves event) ↔
      ∀ earlier msg later, events = earlier ++ .deliver msg :: later →
        (cb.elements (run step (start cb high_watermark low_watermark) earlier).queue.m_queue).length
          ≤ low_watermark := by
  constructor
  · intro hclaim earlier msg later hsplit
    exact ((inv_run earlier).serves_iff hlow _).mp (hclaim.2 earlier _ later hsplit) msg rfl
  · intro hbelow
    refine ⟨fun first _ => (inv_run first).stores, ?_⟩
    intro earlier event later hsplit
    refine ((inv_run earlier).serves_iff hlow event).mpr ?_
    intro msg hevent
    rw [hevent] at hsplit
    exact hbelow earlier msg later hsplit

theorem always_serves_iff_ten :
    ((∀ first, first <+: [.deliver 1, .front, .pop_front] →
          (run step (start (ListBuffer.circularBuffer ℕ) 10 5) first).Stores) ∧
        ∀ earlier event later, [.deliver 1, .front, .pop_front] = earlier ++ event :: later →
          (run step (start (ListBuffer.circularBuffer ℕ) 10 5) earlier).Serves event) ↔
      ∀ earlier msg later, [.deliver 1, .front, .pop_front] = earlier ++ .deliver msg :: later →
        (run step (start (ListBuffer.circularBuffer ℕ) 10 5) earlier).queue.m_queue.elements.length
          ≤ 5 :=
  always_serves_iff (ListBuffer.circularBuffer ℕ) 10 5 (by decide) [.deliver 1, .front, .pop_front]

theorem not_always_serves :
    ¬ ∀ (high_watermark low_watermark : ℕ), low_watermark < high_watermark →
      ∀ (events : List (WatermarkEvent ℕ)) (earlier : List (WatermarkEvent ℕ))
        (event : WatermarkEvent ℕ) (later : List (WatermarkEvent ℕ)),
        events = earlier ++ event :: later →
          (run step (start (ListBuffer.circularBuffer ℕ) high_watermark low_watermark)
            earlier).Serves event := by
  intro hclaim
  have hserves := hclaim 2 0 (by decide) _ [.deliver 1] (.deliver 2) [] rfl
  have hkept := (hserves.keeps (by decide)).1
  exact absurd hkept (by decide)

end WatermarkRun

end CppPlay.Diff
