import CppPlay.Lib.Run

/-!
# The range push of the hybrid queue

`push(begin, end)` calls itself to wait for space, and again for the rest of the range after
each part it has pushed.  Neither call is guarded by a test of `begin` against `end`.
-/

namespace CppPlay.MultiThread

open CppPlay.Lib

/-- Where an activation of `push(begin, end)` stands.  It is `waiting` or `pushingRest` while an
activation that it has called is running. -/
inductive PushFramePc where
  | trying (tr : ℕ)
  | waiting
  | pushing (available : ℕ)
  | pushingRest
  | returned
  deriving DecidableEq

/-- An iterator is its distance from the `begin` of the first call. -/
structure PushFrame where
  begin : ℕ
  pc : PushFramePc
  deriving DecidableEq

inductive HybridEvent where
  | producer
  | consumer
  deriving DecidableEq

/-- The queue, the activations of the producer with the innermost first, and the iterators it has
read through with the elements it has pushed. -/
structure HybridQueue (τ : Type) where
  queue : List τ
  stack : List PushFrame
  reads : List ℕ
  pushed : List τ

namespace HybridQueue

variable {τ : Type}

/-- The push begins on a queue that holds `queue`. -/
def start (queue : List τ) : HybridQueue τ := ⟨queue, [⟨0, .trying 0⟩], [], []⟩

section Step

variable (SIZE max_bad_push : ℕ) (memory : ℕ → τ)

def write_available (s : HybridQueue τ) : ℕ := SIZE - s.queue.length

def pushPart (s : HybridQueue τ) (begin available : ℕ) (callers : List PushFrame) :
    HybridQueue τ :=
  let count := min available (s.write_available SIZE)
  let elements := (List.range' begin count).map memory
  { queue := s.queue ++ elements
    stack := ⟨begin + count, .trying 0⟩ :: ⟨begin, .pushingRest⟩ :: callers
    reads := s.reads ++ List.range' begin count
    pushed := s.pushed ++ elements }

def producerStep (s : HybridQueue τ) : HybridQueue τ :=
  match s.stack with
  | ⟨begin, .trying tr⟩ :: callers =>
      if tr < max_bad_push then
        if s.write_available SIZE = 0 then
          { s with stack := ⟨begin, .trying (tr + 1)⟩ :: callers }
        else { s with stack := ⟨begin, .pushing (s.write_available SIZE)⟩ :: callers }
      else { s with stack := ⟨begin, .trying 0⟩ :: ⟨begin, .waiting⟩ :: callers }
  | ⟨begin, .pushing available⟩ :: callers => s.pushPart SIZE memory begin available callers
  -- after the wait nothing is available still, and the call goes on with that
  | ⟨_, .returned⟩ :: ⟨begin, .waiting⟩ :: callers =>
      { s with stack := ⟨begin, .pushing 0⟩ :: callers }
  | ⟨_, .returned⟩ :: ⟨begin, .pushingRest⟩ :: callers =>
      { s with stack := ⟨begin, .returned⟩ :: callers }
  | _ => s

def step (s : HybridQueue τ) : HybridEvent → HybridQueue τ
  | .producer => s.producerStep SIZE max_bad_push memory
  | .consumer => { s with queue := s.queue.tail }

end Step

def Returned (s : HybridQueue τ) : Prop := ∃ begin, s.stack = [⟨begin, .returned⟩]

/-- What a push of the range from 0 to `length` promises for every schedule of the producer and
the consumer. -/
structure PushesRange (SIZE max_bad_push : ℕ) (memory : ℕ → τ) (queue : List τ) (length : ℕ) :
    Prop where
  inRange : ∀ events, ∀ i ∈ (run (step SIZE max_bad_push memory) (start queue) events).reads,
    i < length
  pushes : ∀ events, Returned (run (step SIZE max_bad_push memory) (start queue) events) →
    (run (step SIZE max_bad_push memory) (start queue) events).pushed =
      (List.range length).map memory
  returns : ∀ events, ∃ later,
    Returned (run (step SIZE max_bad_push memory) (start queue) (events ++ later))

variable {SIZE max_bad_push : ℕ} {memory : ℕ → τ} {queue : List τ}

/-! ## No activation returns -/

def NoneReturns (s : HybridQueue τ) : Prop := ∀ frame ∈ s.stack, frame.pc ≠ .returned

theorem noneReturns_step (s : HybridQueue τ) (event : HybridEvent) (hnone : s.NoneReturns) :
    (s.step SIZE max_bad_push memory event).NoneReturns := by
  cases event with
  | consumer => exact hnone
  | producer =>
      rw [step, producerStep]
      cases hstack : s.stack with
      | nil => exact hnone
      | cons frame callers =>
          have hframes := hnone
          rw [NoneReturns, hstack, List.forall_mem_cons] at hframes
          obtain ⟨begin, pc⟩ := frame
          cases pc with
          | trying tr =>
              simp only
              split_ifs
              · exact List.forall_mem_cons.mpr ⟨nofun, hframes.2⟩
              · exact List.forall_mem_cons.mpr ⟨nofun, hframes.2⟩
              · exact List.forall_mem_cons.mpr ⟨nofun, List.forall_mem_cons.mpr ⟨nofun, hframes.2⟩⟩
          | pushing available =>
              exact List.forall_mem_cons.mpr ⟨nofun, List.forall_mem_cons.mpr ⟨nofun, hframes.2⟩⟩
          | returned => exact absurd rfl hframes.1
          | waiting => exact hnone
          | pushingRest => exact hnone

theorem never_returns (events : List HybridEvent) :
    ¬ Returned (run (step SIZE max_bad_push memory) (start queue) events) := by
  have hnone : NoneReturns (run (step SIZE max_bad_push memory) (start queue) events) := by
    refine run_invariant NoneReturns ?_ noneReturns_step events
    intro frame hframe
    rw [List.mem_singleton.mp hframe]
    exact nofun
  intro hreturned
  obtain ⟨begin, hstack⟩ := hreturned
  exact hnone ⟨begin, .returned⟩ (by rw [hstack]; exact List.mem_singleton_self _) rfl

/-! ## The range is left behind -/

structure Fresh (s : HybridQueue τ) (begin : ℕ) : Prop where
  queue : s.queue = []
  stack : ∃ callers, s.stack = ⟨begin, .trying 0⟩ :: callers

def roundEvents (SIZE : ℕ) : List HybridEvent :=
  [.producer, .producer] ++ List.replicate SIZE .consumer

theorem run_consumer (s : HybridQueue τ) (n : ℕ) :
    run (step SIZE max_bad_push memory) s (List.replicate n .consumer) =
      { s with queue := s.queue.drop n } := by
  induction n generalizing s with
  | zero => rfl
  | succ n ih => rw [List.replicate_succ, run_cons, ih, step, List.drop_tail]

/-- Where the queue is empty an activation takes all its capacity from the range, whatever is left
of that. -/
theorem Fresh.push {s : HybridQueue τ} {begin : ℕ} (hfresh : s.Fresh begin) (hSIZE : 0 < SIZE)
    (htries : 0 < max_bad_push) :
    ∃ callers, run (step SIZE max_bad_push memory) s [.producer, .producer] =
      { queue := (List.range' begin SIZE).map memory
        stack := ⟨begin + SIZE, .trying 0⟩ :: callers
        reads := s.reads ++ List.range' begin SIZE
        pushed := s.pushed ++ (List.range' begin SIZE).map memory } := by
  obtain ⟨callers, hstack⟩ := hfresh.stack
  refine ⟨⟨begin, .pushingRest⟩ :: callers, ?_⟩
  have havailable : s.write_available SIZE = SIZE := by rw [write_available, hfresh.queue]; rfl
  have hfirst : s.step SIZE max_bad_push memory .producer =
      { s with stack := ⟨begin, .pushing SIZE⟩ :: callers } := by
    rw [step, producerStep, hstack]
    simp only [if_pos htries, havailable, if_neg hSIZE.ne']
  rw [run_cons, run_cons, run_nil, hfirst, step, producerStep]
  simp only [pushPart, write_available, hfresh.queue, List.length_nil, Nat.sub_zero, min_self,
    List.nil_append]

theorem exists_fresh (hSIZE : 0 < SIZE) (htries : 0 < max_bad_push) (rounds : ℕ) :
    ∃ events, Fresh (run (step SIZE max_bad_push memory) (start queue) events)
      (rounds * SIZE) := by
  induction rounds with
  | zero =>
      refine ⟨List.replicate queue.length .consumer, ?_, [], ?_⟩
      · rw [run_consumer]
        exact List.drop_length
      · rw [run_consumer, zero_mul, start]
  | succ rounds ih =>
      obtain ⟨events, hfresh⟩ := ih
      obtain ⟨callers, hpush⟩ := hfresh.push hSIZE htries
      refine ⟨events ++ roundEvents SIZE, ?_, callers, ?_⟩
      · rw [run_append, roundEvents, run_append, hpush, run_consumer]
        simp
      · rw [run_append, roundEvents, run_append, hpush, run_consumer, Nat.succ_mul]

theorem exists_read_past_end (hSIZE : 0 < SIZE) (htries : 0 < max_bad_push) (length : ℕ) :
    ∃ events, ∃ i ∈ (run (step SIZE max_bad_push memory) (start queue) events).reads,
      length ≤ i := by
  obtain ⟨events, hfresh⟩ := exists_fresh hSIZE htries length
  obtain ⟨callers, hpush⟩ := hfresh.push hSIZE htries
  refine ⟨events ++ [.producer, .producer], length * SIZE, ?_, Nat.le_mul_of_pos_right _ hSIZE⟩
  rw [run_append, hpush]
  exact List.mem_append_right _ (List.mem_range'_1.mpr ⟨le_rfl, by omega⟩)

theorem never_pushesRange (SIZE max_bad_push : ℕ) (memory : ℕ → τ) (queue : List τ)
    (length : ℕ) : ¬ PushesRange SIZE max_bad_push memory queue length := by
  intro hpushes
  obtain ⟨later, hreturned⟩ := hpushes.returns []
  exact never_returns later hreturned

theorem not_all_ranges_pushed :
    ¬ ∀ (SIZE max_bad_push : ℕ) (memory : ℕ → ℕ) (queue : List ℕ) (length : ℕ),
      PushesRange SIZE max_bad_push memory queue length := by
  intro hclaim
  obtain ⟨events, i, hread, hbehind⟩ :=
    @exists_read_past_end ℕ 8192 1024 id [] (by norm_num) (by norm_num) 1
  have hinside := (hclaim 8192 1024 id [] 1).inRange events i hread
  omega

end HybridQueue

end CppPlay.MultiThread
