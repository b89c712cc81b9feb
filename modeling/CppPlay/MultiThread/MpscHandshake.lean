import CppPlay.MultiThread.MpscQueue
import Mathlib.Data.Fintype.BigOperators

/-!
# The end of the producers

A producer calls `produce` until it returns true.  The flag is read for the count and
again for the result, and a producer that is between the two reads when `stop` is
called leaves without being counted.
-/

namespace CppPlay.MultiThread

open CppPlay.Lib

def ProducePc.isReturning {τ : Type} : ProducePc τ → Bool
  | .returning => true
  | _ => false

/-- The queue with the producers that have received true. -/
structure Handshake (n : ℕ) (τ : Type) where
  queue : MpscQueue n τ
  received : Fin n → Bool

namespace Handshake

variable {n : ℕ} {τ : Type}

def start : Handshake n τ := ⟨MpscQueue.start, fun _ => false⟩

def returnsTrue (s : Handshake n τ) (i : Fin n) : Bool :=
  (s.queue.producePc i).isReturning && s.queue.stop

/-- A producer that has received true makes no further call. -/
def step (capacity : ℕ) (s : Handshake n τ) : MpscCall n τ → Handshake n τ
  | .produce i items =>
      if s.received i then s
      else
        { queue := s.queue.step capacity (.produce i items)
          received := if s.returnsTrue i then Function.update s.received i true else s.received }
  | .consume => { s with queue := s.queue.step capacity .consume }
  | .stop => { s with queue := s.queue.step capacity .stop }

def AllReceived (s : Handshake n τ) : Prop := ∀ i, s.received i = true

def CanLeave (capacity : ℕ) (s : Handshake n τ) : Prop :=
  s.queue.donePorodicers = n ∧
    ∃ later, (∀ call ∈ later, call = .consume) ∧
      (run (step capacity) s later).queue.consumePc = .returned

/-- No producer is between `if(_stop)` and `return _stop`. -/
def NoneReturning (s : Handshake n τ) : Prop :=
  ∀ i, (s.queue.producePc i).isReturning = false

/-! ## Counting the producers that are past the count -/

def passed (s : Handshake n τ) : Finset (Fin n) :=
  Finset.univ.filter fun i => s.received i || (s.queue.producePc i).isReturning

theorem mem_passed {s : Handshake n τ} {i : Fin n} :
    i ∈ s.passed ↔ s.received i = true ∨ (s.queue.producePc i).isReturning = true := by
  rw [passed, Finset.mem_filter, Bool.or_eq_true]
  exact and_iff_right (Finset.mem_univ i)

/-- Before the call of `stop`. -/
structure Running (s : Handshake n τ) : Prop where
  received : ∀ i, s.received i = false
  donePorodicers : s.queue.donePorodicers = 0
  producePc : ∀ i, s.queue.producePc i ≠ .counting

/-- After it, when `uncounted` producers had passed the guard. -/
structure Stopped (uncounted : ℕ) (s : Handshake n τ) : Prop where
  stop : s.queue.stop = true
  passed : s.passed.card = s.queue.donePorodicers + uncounted

variable {capacity uncounted : ℕ} {s : Handshake n τ}

theorem start_running : (start : Handshake n τ).Running :=
  ⟨fun _ => rfl, rfl, fun _ => by simp [start, MpscQueue.start]⟩

/-- What a producer can do while the flag is not set. -/
theorem stepProduce_of_running (capacity : ℕ) {q : MpscQueue n τ} {i : Fin n} (items : List τ)
    (hstop : q.stop = false) (hpc : q.producePc i ≠ .counting) :
    (q.stepProduce capacity i items).donePorodicers = q.donePorodicers ∧
      ∃ pc, pc ≠ .counting ∧
        (q.stepProduce capacity i items).producePc = Function.update q.producePc i pc := by
  cases hcase : q.producePc i with
  | idle =>
      simp only [MpscQueue.stepProduce, hcase]
      exact ⟨trivial, .testing items, by simp, rfl⟩
  | testing items =>
      simp only [MpscQueue.stepProduce, hcase]
      split_ifs
      · exact ⟨rfl, .leaving, by simp, rfl⟩
      · exact ⟨rfl, .pushing items, by simp, rfl⟩
  | pushing items =>
      simp only [MpscQueue.stepProduce, hcase]
      exact ⟨trivial, _, by simp, rfl⟩
  | leaving =>
      simp only [MpscQueue.stepProduce, hcase, hstop, Bool.false_eq_true, if_false]
      exact ⟨trivial, .returning, by simp, rfl⟩
  | counting => exact absurd hcase hpc
  | returning =>
      simp only [MpscQueue.stepProduce, hcase]
      exact ⟨trivial, .idle, by simp, rfl⟩

/-- What a producer can do once it is set: be counted on its way out, return, or neither. -/
theorem stepProduce_of_stopped (capacity : ℕ) {q : MpscQueue n τ} (i : Fin n) (items : List τ)
    (hstop : q.stop = true) :
    (q.producePc i = .counting ∧
        (q.stepProduce capacity i items).donePorodicers = q.donePorodicers + 1 ∧
        (q.stepProduce capacity i items).producePc = Function.update q.producePc i .returning) ∨
      (q.producePc i = .returning ∧
        (q.stepProduce capacity i items).donePorodicers = q.donePorodicers ∧
        (q.stepProduce capacity i items).producePc = Function.update q.producePc i .idle) ∨
      ((q.producePc i).isReturning = false ∧
        (q.stepProduce capacity i items).donePorodicers = q.donePorodicers ∧
        ∃ pc, pc.isReturning = false ∧
          (q.stepProduce capacity i items).producePc = Function.update q.producePc i pc) := by
  cases hcase : q.producePc i with
  | idle =>
      simp only [MpscQueue.stepProduce, hcase]
      exact .inr (.inr ⟨rfl, trivial, .testing items, rfl, rfl⟩)
  | testing items =>
      simp only [MpscQueue.stepProduce, hcase, hstop, Bool.true_or, if_true]
      exact .inr (.inr ⟨rfl, trivial, .leaving, rfl, rfl⟩)
  | pushing items =>
      simp only [MpscQueue.stepProduce, hcase]
      exact .inr (.inr ⟨rfl, trivial, _, rfl, rfl⟩)
  | leaving =>
      simp only [MpscQueue.stepProduce, hcase, hstop, if_true]
      exact .inr (.inr ⟨rfl, trivial, .counting, rfl, rfl⟩)
  | counting =>
      simp only [MpscQueue.stepProduce, hcase]
      exact .inl ⟨trivial, trivial, trivial⟩
  | returning =>
      simp only [MpscQueue.stepProduce, hcase]
      exact .inr (.inl ⟨trivial, trivial, trivial⟩)

theorem stop_stepProduce (q : MpscQueue n τ) (i : Fin n) (items : List τ) :
    (q.stepProduce capacity i items).stop = q.stop := by
  unfold MpscQueue.stepProduce
  split <;> try split_ifs
  all_goals rfl

theorem stepConsume_keeps (capacity : ℕ) (q : MpscQueue n τ) :
    (q.stepConsume capacity).stop = q.stop ∧
      (q.stepConsume capacity).donePorodicers = q.donePorodicers ∧
      (q.stepConsume capacity).producePc = q.producePc := by
  cases hcase : q.consumePc with
  | draining queue =>
      simp only [MpscQueue.stepConsume, hcase]
      split_ifs <;> exact ⟨rfl, rfl, rfl⟩
  | calling =>
      simp only [MpscQueue.stepConsume, hcase]
      exact ⟨trivial, trivial, trivial⟩
  | testingStop =>
      simp only [MpscQueue.stepConsume, hcase]
      split_ifs <;> exact ⟨rfl, rfl, rfl⟩
  | testingDone =>
      simp only [MpscQueue.stepConsume, hcase]
      split_ifs <;> exact ⟨rfl, rfl, rfl⟩
  | returned =>
      simp only [MpscQueue.stepConsume, hcase]
      exact ⟨trivial, trivial, trivial⟩

theorem Running.step (hrunning : s.Running) (hstop : s.queue.stop = false)
    {call : MpscCall n τ} (hcall : call ≠ .stop) :
    (s.step capacity call).Running ∧ (s.step capacity call).queue.stop = false := by
  cases call with
  | produce i items =>
      obtain ⟨hdone, pc, hpc, hproducePc⟩ :=
        stepProduce_of_running capacity items hstop (hrunning.producePc i)
      have hreturns : s.returnsTrue i = false := by
        rw [returnsTrue, hstop, Bool.and_false]
      rw [Handshake.step, hrunning.received i, hreturns]
      constructor
      · constructor
        · exact hrunning.received
        · exact hdone.trans hrunning.donePorodicers
        · intro j
          have hmoved : ∀ j, Function.update s.queue.producePc i pc j ≠ .counting :=
            forall_update (P := fun _ pc => pc ≠ ProducePc.counting) hpc fun j _ => hrunning.producePc j
          exact hproducePc ▸ hmoved j
      · exact (stop_stepProduce _ _ _).trans hstop
  | consume =>
      obtain ⟨hsame, hdone, hproducePc⟩ := stepConsume_keeps capacity s.queue
      exact ⟨⟨hrunning.received, hdone.trans hrunning.donePorodicers,
        fun j => hproducePc ▸ hrunning.producePc j⟩, hsame.trans hstop⟩
  | stop => exact absurd rfl hcall

theorem step_produce_of_stopped (capacity : ℕ) (hstop : s.queue.stop = true) {i : Fin n}
    (items : List τ) (hreceived : s.received i = false) :
    s.step capacity (.produce i items) =
      { queue := s.queue.stepProduce capacity i items
        received := if (s.queue.producePc i).isReturning then Function.update s.received i true
          else s.received } := by
  rw [step, hreceived, returnsTrue, hstop, Bool.and_true]
  rfl

/-- A producer comes to be past the count only by being counted. -/
theorem passed_produce (hstop : s.queue.stop = true) {i : Fin n} {items : List τ}
    (hreceived : s.received i = false) {pc : ProducePc τ}
    (hproducePc : (s.queue.stepProduce capacity i items).producePc =
      Function.update s.queue.producePc i pc) :
    (s.step capacity (.produce i items)).passed =
      if (s.queue.producePc i).isReturning || pc.isReturning then insert i s.passed
      else s.passed := by
  have hstep := step_produce_of_stopped capacity hstop items hreceived
  ext j
  by_cases hsame : j = i
  · have hbefore : i ∈ s.passed ↔ (s.queue.producePc i).isReturning = true := by
      rw [mem_passed, hreceived]
      simp
    have hafter : i ∈ (s.step capacity (.produce i items)).passed ↔
        (s.queue.producePc i).isReturning = true ∨ pc.isReturning = true := by
      rw [mem_passed, hstep, hproducePc, Function.update_self]
      cases hreturning : (s.queue.producePc i).isReturning <;> simp [hreceived]
    rw [hsame, hafter, ← Bool.or_eq_true]
    split_ifs with hreturning
    · exact iff_of_true hreturning (Finset.mem_insert_self i _)
    · rw [Bool.or_eq_true, not_or] at hreturning
      rw [Bool.or_eq_true, hbefore]
      exact iff_of_false (not_or.mpr hreturning) hreturning.1
  · have hother : j ∈ (s.step capacity (.produce i items)).passed ↔ j ∈ s.passed := by
      rw [mem_passed, mem_passed, hstep, hproducePc, Function.update_of_ne hsame]
      cases hreturning : (s.queue.producePc i).isReturning <;> simp [hsame]
    rw [hother]
    split_ifs <;> simp [hsame]

theorem Stopped.produce (hstopped : s.Stopped uncounted) (i : Fin n) (items : List τ)
    (hreceived : s.received i = false) :
    (s.step capacity (.produce i items)).Stopped uncounted := by
  have hstop := hstopped.stop
  have hpassed := hstopped.passed
  have hstep := step_produce_of_stopped capacity hstop items hreceived
  refine ⟨by rw [hstep]; exact (stop_stepProduce _ _ _).trans hstop, ?_⟩
  rcases stepProduce_of_stopped capacity i items hstop with
    ⟨hpc, hdone, hproducePc⟩ | ⟨hpc, hdone, hproducePc⟩ | ⟨hpc, hdone, pc, hnew, hproducePc⟩
  · have hnew : i ∉ s.passed := by simp [mem_passed, hreceived, hpc, ProducePc.isReturning]
    have hcounted : (s.step capacity (.produce i items)).passed = insert i s.passed :=
      (passed_produce hstop hreceived hproducePc).trans (if_pos (by rw [hpc]; rfl))
    rw [hcounted, Finset.card_insert_of_notMem hnew, hpassed, hstep, hdone]
    omega
  · have hmem : i ∈ s.passed := by simp [mem_passed, hpc, ProducePc.isReturning]
    have hsame : (s.step capacity (.produce i items)).passed = insert i s.passed :=
      (passed_produce hstop hreceived hproducePc).trans (if_pos (by rw [hpc]; rfl))
    rw [hsame, Finset.insert_eq_of_mem hmem, hpassed, hstep, hdone]
  · have hsame : (s.step capacity (.produce i items)).passed = s.passed :=
      (passed_produce hstop hreceived hproducePc).trans (if_neg (by rw [hpc, hnew]; simp))
    rw [hsame, hpassed, hstep, hdone]

theorem Stopped.step (hstopped : s.Stopped uncounted) (call : MpscCall n τ) :
    (s.step capacity call).Stopped uncounted := by
  cases call with
  | produce i items =>
      cases hreceived : s.received i with
      | true =>
          rw [Handshake.step, if_pos hreceived]
          exact hstopped
      | false => exact hstopped.produce i items hreceived
  | consume =>
      obtain ⟨hsame, hdone, hproducePc⟩ := stepConsume_keeps capacity s.queue
      have hpassed : (s.step capacity .consume).passed = s.passed := by
        ext j
        rw [mem_passed, mem_passed]
        exact hproducePc ▸ Iff.rfl
      refine ⟨hsame.trans hstopped.stop, ?_⟩
      rw [hpassed, hstopped.passed]
      exact congrArg (· + uncounted) hdone.symm
  | stop => exact ⟨rfl, hstopped.passed⟩

theorem Running.stop (capacity : ℕ) (hrunning : s.Running) :
    (s.step capacity .stop).Stopped s.passed.card := by
  refine ⟨rfl, ?_⟩
  have hdone : (s.step capacity .stop).queue.donePorodicers = 0 := hrunning.donePorodicers
  rw [hdone, Nat.zero_add]
  rfl

theorem Running.card_passed_eq_zero_iff (hrunning : s.Running) :
    s.passed.card = 0 ↔ s.NoneReturning := by
  rw [Finset.card_eq_zero, Finset.eq_empty_iff_forall_notMem]
  refine forall_congr' fun i => ?_
  rw [mem_passed, hrunning.received i]
  simp

/-! ## The way out of the loop -/

/-- How far the consumer is from leaving, once its exit condition holds. -/
def rank (q : MpscQueue n τ) : ℕ :=
  match q.consumePc with
  | .draining queue => 4 + (n - queue) + ∑ i, (q.producerQueues i).length
  | .calling => 3
  | .testingStop => 2
  | .testingDone => 1
  | .returned => 0

theorem rank_stepConsume_lt (capacity : ℕ) {q : MpscQueue n τ} (hstop : q.stop = true)
    (hdone : q.donePorodicers = n) (hnot : q.consumePc ≠ .returned) :
    rank (q.stepConsume capacity) < rank q := by
  cases hpc : q.consumePc with
  | draining queue =>
      simp only [MpscQueue.stepConsume, hpc, rank]
      by_cases hqueue : queue < n
      · rw [dif_pos hqueue]
        by_cases hempty : ((q.producerQueues ⟨queue, hqueue⟩).take capacity).isEmpty = true
        · rw [if_pos hempty]
          simp only
          omega
        · rw [if_neg hempty]
          have hmove := sum_update List.length q.producerQueues ⟨queue, hqueue⟩
            ((q.producerQueues ⟨queue, hqueue⟩).drop capacity)
          have htaken : 0 < ((q.producerQueues ⟨queue, hqueue⟩).take capacity).length := by
            rw [List.length_pos_iff_ne_nil]
            exact fun hnil => hempty (List.isEmpty_iff.mpr hnil)
          rw [List.length_take] at htaken
          rw [List.length_drop] at hmove
          simp only
          omega
      · rw [dif_neg hqueue]
        simp only
        omega
  | calling =>
      simp only [MpscQueue.stepConsume, hpc, rank]
      omega
  | testingStop =>
      simp only [MpscQueue.stepConsume, hpc, hstop, if_true, rank]
      omega
  | testingDone =>
      simp only [MpscQueue.stepConsume, hpc, if_pos hdone, rank]
      omega
  | returned => exact absurd hpc hnot

theorem canLeave_of_done (hstop : s.queue.stop = true) (hdone : s.queue.donePorodicers = n) :
    s.CanLeave capacity := by
  refine ⟨hdone, ?_⟩
  apply exists_run_of_rank (step capacity)
    (fun s => s.queue.stop = true ∧ s.queue.donePorodicers = n)
    (fun s => s.queue.consumePc = .returned) (fun call => call = .consume) (fun s => rank s.queue)
  · intro s call hinv hcall
    obtain ⟨hsame, hsameDone, _⟩ := stepConsume_keeps capacity s.queue
    rw [hcall]
    exact ⟨hsame.trans hinv.1, hsameDone.trans hinv.2⟩
  · intro s hinv hfinal
    exact ⟨.consume, rfl, rank_stepConsume_lt capacity hinv.1 hinv.2 hfinal⟩
  · exact ⟨hstop, hdone⟩

/-! ## Runs -/

theorem running_run (capacity : ℕ) {calls : List (MpscCall n τ)} (hnone : .stop ∉ calls) :
    (run (step capacity) start calls).Running ∧
      (run (step capacity) start calls).queue.stop = false := by
  induction calls using List.reverseRecOn with
  | nil => exact ⟨start_running, rfl⟩
  | append_singleton calls call ih =>
      rw [List.mem_append, List.mem_singleton, not_or] at hnone
      obtain ⟨hrunning, hstop⟩ := ih hnone.1
      rw [run_append, run_cons, run_nil]
      exact hrunning.step hstop (Ne.symm hnone.2)

theorem stopped_run (capacity : ℕ) (hstopped : s.Stopped uncounted) (calls : List (MpscCall n τ)) :
    (run (step capacity) s calls).Stopped uncounted :=
  run_invariant (Stopped uncounted) hstopped (fun _ call hinv => hinv.step call) calls

theorem Stopped.canLeave_iff (hstopped : s.Stopped uncounted) (hreceived : s.AllReceived) :
    s.CanLeave capacity ↔ uncounted = 0 := by
  have hpassed := hstopped.passed
  have hall : s.passed = Finset.univ := by
    rw [Finset.eq_univ_iff_forall]
    exact fun i => mem_passed.mpr (.inl (hreceived i))
  rw [hall, Finset.card_univ, Fintype.card_fin] at hpassed
  constructor
  · intro hleave
    have hdone := hleave.1
    omega
  · intro hzero
    exact canLeave_of_done hstopped.stop (by omega)

/-- When every producer has received true, all are counted and the consumer can leave, exactly
when none of them was past the guard at the call of `stop`. -/
theorem canLeave_iff_noneReturning (capacity : ℕ) (calls : List (MpscCall n τ))
    (hstop : .stop ∈ calls) (hreceived : (run (step capacity) start calls).AllReceived) :
    (run (step capacity) start calls).CanLeave capacity ↔
      ∀ earlier later, calls = earlier ++ .stop :: later → .stop ∉ earlier →
        (run (step capacity) start earlier).NoneReturning := by
  have hsplit : ∀ earlier later, calls = earlier ++ .stop :: later → .stop ∉ earlier →
      ((run (step capacity) start calls).CanLeave capacity ↔
        (run (step capacity) start earlier).NoneReturning) := by
    intro earlier later hcalls hfirst
    obtain ⟨hrunning, _⟩ := running_run capacity hfirst
    have hstopped := stopped_run capacity (hrunning.stop capacity) later
    rw [← run_cons (step capacity), ← run_append, ← hcalls] at hstopped
    rw [hstopped.canLeave_iff hreceived, hrunning.card_passed_eq_zero_iff]
  constructor
  · intro hleave earlier later hcalls hfirst
    exact (hsplit earlier later hcalls hfirst).mp hleave
  · intro hnone
    obtain ⟨earlier, later, hcalls, hfirst⟩ := List.eq_append_cons_of_mem hstop
    exact (hsplit earlier later hcalls hfirst).mpr (hnone earlier later hcalls hfirst)

/-- The producer enters the guard after `stop` and is counted. -/
def stopsBeforeTheGuard (i : Fin n) : List (MpscCall n ℕ) :=
  [.stop, .produce i [5], .produce i [5], .produce i [5], .produce i [5], .produce i [5]]

theorem canLeave_iff_stopsBeforeTheGuard :
    (run (step 1024) start (stopsBeforeTheGuard (0 : Fin 1))).CanLeave 1024 ↔
      ∀ earlier later, stopsBeforeTheGuard (0 : Fin 1) = earlier ++ .stop :: later →
        .stop ∉ earlier → (run (step 1024) start earlier).NoneReturning :=
  canLeave_iff_noneReturning 1024 (stopsBeforeTheGuard 0) (by simp [stopsBeforeTheGuard])
    (by unfold AllReceived; decide +kernel)

/-- It has passed the guard, and finds the flag set at its return. -/
def stopsBeforeTheReturn (i : Fin n) : List (MpscCall n ℕ) :=
  [.produce i [], .produce i [], .produce i [], .stop, .produce i []]

theorem not_canLeave_stopsBeforeTheReturn :
    ¬ ∀ (n capacity : ℕ) (calls : List (MpscCall n ℕ)), .stop ∈ calls →
      (run (step capacity) start calls).AllReceived →
        (run (step capacity) start calls).CanLeave capacity := by
  intro hall
  have hreceived : (run (step 1024) start (stopsBeforeTheReturn (0 : Fin 1))).AllReceived := by
    unfold AllReceived
    decide +kernel
  have hleave := hall 1 1024 (stopsBeforeTheReturn 0) (by simp [stopsBeforeTheReturn]) hreceived
  have hdone : (run (step 1024) start (stopsBeforeTheReturn (0 : Fin 1))).queue.donePorodicers = 0 := by
    decide +kernel
  rw [CanLeave, hdone] at hleave
  exact absurd hleave.1 (by decide)

end Handshake

end CppPlay.MultiThread
