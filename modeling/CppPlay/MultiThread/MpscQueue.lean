import CppPlay.Lib.Run
import CppPlay.Lib.Threads

/-!
# The queue of many producers and one consumer

Each producer pushes into a bounded queue of its own.  The consumer drains the queues
one after another into its buffer, hands the buffer over, and only then looks whether
it has to stop.  Every step is one operation on a queue or one access of a flag.
-/

namespace CppPlay.MultiThread

open CppPlay.Lib

/-- Where a producer stands in `produce`: before the loop condition, before the push,
before `if(_stop)`, before the count, or before `return _stop`. -/
inductive ProducePc (τ : Type) where
  | idle
  | testing (items : List τ)
  | pushing (items : List τ)
  | leaving
  | counting
  | returning
  deriving DecidableEq

/-- Where the consumer stands in `consume`: before a pop from a queue, before the call
of `f`, before the load of `_stop`, before that of `_donePorodicers`, or outside. -/
inductive ConsumePc where
  | draining (queue : ℕ)
  | calling
  | testingStop
  | testingDone
  | returned
  deriving DecidableEq

inductive MpscCall (n : ℕ) (τ : Type) where
  | produce (i : Fin n) (items : List τ)
  | consume
  | stop

/-- The queue with its threads.  Each element of the consumer's buffer comes with the
producer whose queue it was in; `pushed` and `delivered` record what went into the
queues and what was handed to `f`. -/
structure MpscQueue (n : ℕ) (τ : Type) where
  producerQueues : Fin n → List τ
  consumerBuf : List (Fin n × τ)
  stop : Bool
  donePorodicers : ℕ
  producePc : Fin n → ProducePc τ
  consumePc : ConsumePc
  pushed : Fin n → List τ
  delivered : List (Fin n × τ)

namespace MpscQueue

variable {n : ℕ} {τ : Type}

def start : MpscQueue n τ :=
  ⟨fun _ => [], [], false, 0, fun _ => .idle, .draining 0, fun _ => [], []⟩

/-- What a push of these items puts into the queue: as many as there is room for. -/
def fits (capacity : ℕ) (s : MpscQueue n τ) (i : Fin n) (items : List τ) : List τ :=
  items.take (capacity - (s.producerQueues i).length)

/-- The next step of a producer; the items count when a call begins. -/
def stepProduce (capacity : ℕ) (s : MpscQueue n τ) (i : Fin n) (items : List τ) :
    MpscQueue n τ :=
  match s.producePc i with
  | .idle => { s with producePc := Function.update s.producePc i (.testing items) }
  | .testing items =>
      if s.stop || items.isEmpty then
        { s with producePc := Function.update s.producePc i .leaving }
      else { s with producePc := Function.update s.producePc i (.pushing items) }
  | .pushing items =>
      let fit := s.fits capacity i items
      { s with
        producerQueues := Function.update s.producerQueues i (s.producerQueues i ++ fit)
        producePc := Function.update s.producePc i (.testing (items.drop fit.length))
        pushed := Function.update s.pushed i (s.pushed i ++ fit) }
  | .leaving =>
      if s.stop then { s with producePc := Function.update s.producePc i .counting }
      else { s with producePc := Function.update s.producePc i .returning }
  | .counting =>
      { s with
        donePorodicers := s.donePorodicers + 1
        producePc := Function.update s.producePc i .returning }
  | .returning => { s with producePc := Function.update s.producePc i .idle }

/-- The next step of the consumer.  A pop takes up to `capacity` elements, and one that
takes none ends the draining of its queue. -/
def stepConsume (capacity : ℕ) (s : MpscQueue n τ) : MpscQueue n τ :=
  match s.consumePc with
  | .draining queue =>
      if hqueue : queue < n then
        let i : Fin n := ⟨queue, hqueue⟩
        let popped := (s.producerQueues i).take capacity
        if popped.isEmpty then { s with consumePc := .draining (queue + 1) }
        else
          { s with
            producerQueues :=
              Function.update s.producerQueues i ((s.producerQueues i).drop capacity)
            consumerBuf := s.consumerBuf ++ popped.map fun item => (i, item) }
      else { s with consumePc := .calling }
  | .calling =>
      { s with
        consumerBuf := []
        consumePc := .testingStop
        delivered := s.delivered ++ s.consumerBuf }
  | .testingStop =>
      if s.stop then { s with consumePc := .testingDone }
      else { s with consumePc := .draining 0 }
  | .testingDone =>
      if s.donePorodicers = n then { s with consumePc := .returned }
      else { s with consumePc := .draining 0 }
  | .returned => s

def step (capacity : ℕ) (s : MpscQueue n τ) : MpscCall n τ → MpscQueue n τ
  | .produce i items => s.stepProduce capacity i items
  | .consume => s.stepConsume capacity
  | .stop => { s with stop := true }

def ofProducer (i : Fin n) (elements : List (Fin n × τ)) : List τ :=
  (elements.filter fun element => element.1 = i).map Prod.snd

/-- What was handed over of each producer's elements are the first ones it pushed, and
all of them once `consume` has returned. -/
structure Delivers (s : MpscQueue n τ) : Prop where
  delivered_prefix : ∀ i, ofProducer i s.delivered <+: s.pushed i
  all_of_returned : s.consumePc = .returned → ∀ i, ofProducer i s.delivered = s.pushed i

/-- The check that ends `consume` finds all queues empty, and no push transfers anything
after it. -/
def LeavesNothing (capacity : ℕ) (s : MpscQueue n τ) : MpscCall n τ → Prop
  | .produce i _ => s.consumePc = .returned →
      ∀ items, s.producePc i = .pushing items → s.fits capacity i items = []
  | .consume => s.consumePc = .testingDone → s.donePorodicers = n →
      ∀ i, s.producerQueues i = []
  | .stop => True

/-! ## Where the elements are -/

theorem ofProducer_append (i : Fin n) (first second : List (Fin n × τ)) :
    ofProducer i (first ++ second) = ofProducer i first ++ ofProducer i second := by
  rw [ofProducer, List.filter_append, List.map_append]
  rfl

theorem ofProducer_map_self (i : Fin n) (items : List τ) :
    ofProducer i (items.map fun item => (i, item)) = items := by
  simp [ofProducer, List.filter_map, Function.comp_def]

theorem ofProducer_map_of_ne {i j : Fin n} (hne : i ≠ j) (items : List τ) :
    ofProducer i (items.map fun item => (j, item)) = [] := by
  simp [ofProducer, List.filter_map, Function.comp_def, Ne.symm hne]

/-- What a producer pushed is, in this order, handed over, in the buffer, or in its
queue. -/
def Balanced (s : MpscQueue n τ) : Prop :=
  ∀ i, s.pushed i =
    ofProducer i s.delivered ++ ofProducer i s.consumerBuf ++ s.producerQueues i

/-- The consumer is past a call of `f` and not yet back at the queues. -/
def Checks (pc : ConsumePc) : Prop := pc = .testingStop ∨ pc = .testingDone ∨ pc = .returned

structure Inv (s : MpscQueue n τ) : Prop where
  balanced : s.Balanced
  handedOver : Checks s.consumePc → s.consumerBuf = []
  drained : s.consumePc = .returned → ∀ i, s.producerQueues i = []

variable {capacity : ℕ} {s : MpscQueue n τ}

theorem start_inv : (start : MpscQueue n τ).Inv := by
  constructor
  · intro i
    simp [start, ofProducer]
  · exact fun _ => rfl
  · exact fun _ i => rfl

theorem Inv.delivers (hinv : s.Inv) : s.Delivers := by
  constructor
  · intro i
    rw [hinv.balanced i, List.append_assoc]
    exact List.prefix_append _ _
  · intro hreturned i
    have hbuf : s.consumerBuf = [] := hinv.handedOver (.inr (.inr hreturned))
    rw [hinv.balanced i, hbuf, hinv.drained hreturned i, List.append_nil]
    simp [ofProducer]

theorem Balanced.push (hbalanced : s.Balanced) (i : Fin n) (fit : List τ)
    (pc : Fin n → ProducePc τ) :
    Balanced { s with
      producerQueues := Function.update s.producerQueues i (s.producerQueues i ++ fit)
      producePc := pc
      pushed := Function.update s.pushed i (s.pushed i ++ fit) } := by
  intro j
  have hj := hbalanced j
  by_cases hsame : j = i
  · rw [hsame] at hj ⊢
    simp only [Function.update_self]
    rw [hj, List.append_assoc]
  · simpa only [Function.update_of_ne hsame] using hj

theorem Balanced.pop (hbalanced : s.Balanced) (i : Fin n) (count : ℕ) :
    Balanced { s with
      producerQueues := Function.update s.producerQueues i ((s.producerQueues i).drop count)
      consumerBuf :=
        s.consumerBuf ++ ((s.producerQueues i).take count).map fun item => (i, item) } := by
  intro j
  have hj := hbalanced j
  simp only [ofProducer_append]
  by_cases hsame : j = i
  · rw [hsame] at hj ⊢
    rw [hj, ofProducer_map_self, Function.update_self]
    simp only [List.append_assoc, List.take_append_drop]
  · rw [ofProducer_map_of_ne hsame, Function.update_of_ne hsame, List.append_nil]
    exact hj

theorem Balanced.handOver (hbalanced : s.Balanced) :
    Balanced { s with
      consumerBuf := []
      consumePc := .testingStop
      delivered := s.delivered ++ s.consumerBuf } := by
  intro j
  rw [hbalanced j, ofProducer_append]
  simp [ofProducer]

theorem stepProduce_inv (hinv : s.Inv) {i : Fin n} {items : List τ}
    (hleaves : s.LeavesNothing capacity (.produce i items)) :
    (s.stepProduce capacity i items).Inv := by
  obtain ⟨hbalanced, hhanded, hdrained⟩ := hinv
  cases hpc : s.producePc i with
  | idle =>
      simp only [stepProduce, hpc]
      exact ⟨hbalanced, hhanded, hdrained⟩
  | testing items =>
      simp only [stepProduce, hpc]
      by_cases hends : (s.stop || items.isEmpty) = true
      · rw [if_pos hends]
        exact ⟨hbalanced, hhanded, hdrained⟩
      · rw [if_neg hends]
        exact ⟨hbalanced, hhanded, hdrained⟩
  | pushing items =>
      simp only [stepProduce, hpc]
      refine ⟨hbalanced.push i _ _, hhanded, ?_⟩
      intro hreturned
      have hfit : s.fits capacity i items = [] := hleaves hreturned items hpc
      refine forall_update (P := fun _ queue => queue = []) ?_ fun j _ => hdrained hreturned j
      rw [hfit, List.append_nil]
      exact hdrained hreturned i
  | leaving =>
      simp only [stepProduce, hpc]
      cases s.stop <;> exact ⟨hbalanced, hhanded, hdrained⟩
  | counting =>
      simp only [stepProduce, hpc]
      exact ⟨hbalanced, hhanded, hdrained⟩
  | returning =>
      simp only [stepProduce, hpc]
      exact ⟨hbalanced, hhanded, hdrained⟩

theorem stepConsume_inv (hinv : s.Inv) (hleaves : s.LeavesNothing capacity .consume) :
    (s.stepConsume capacity).Inv := by
  obtain ⟨hbalanced, hhanded, hdrained⟩ := hinv
  cases hpc : s.consumePc with
  | draining queue =>
      simp only [stepConsume, hpc]
      by_cases hqueue : queue < n
      · rw [dif_pos hqueue]
        by_cases hempty : ((s.producerQueues ⟨queue, hqueue⟩).take capacity).isEmpty = true
        · rw [if_pos hempty]
          exact ⟨hbalanced, by simp [Checks], by simp⟩
        · rw [if_neg hempty]
          exact ⟨hbalanced.pop _ capacity, by simp [Checks], by simp⟩
      · rw [dif_neg hqueue]
        exact ⟨hbalanced, by simp [Checks], by simp⟩
  | calling =>
      simp only [stepConsume, hpc]
      exact ⟨hbalanced.handOver, fun _ => rfl, by simp⟩
  | testingStop =>
      have hbuf : s.consumerBuf = [] := hhanded (.inl hpc)
      simp only [stepConsume, hpc]
      cases s.stop with
      | false => exact ⟨hbalanced, fun _ => hbuf, by simp⟩
      | true => exact ⟨hbalanced, fun _ => hbuf, by simp⟩
  | testingDone =>
      have hbuf : s.consumerBuf = [] := hhanded (.inr (.inl hpc))
      simp only [stepConsume, hpc]
      by_cases hdone : s.donePorodicers = n
      · rw [if_pos hdone]
        exact ⟨hbalanced, fun _ => hbuf, fun _ => hleaves hpc hdone⟩
      · rw [if_neg hdone]
        exact ⟨hbalanced, fun _ => hbuf, by simp⟩
  | returned =>
      simp only [stepConsume, hpc]
      exact ⟨hbalanced, hhanded, hdrained⟩

theorem step_inv (hinv : s.Inv) {call : MpscCall n τ} (hleaves : s.LeavesNothing capacity call) :
    (s.step capacity call).Inv := by
  cases call with
  | produce i items => exact stepProduce_inv hinv hleaves
  | consume => exact stepConsume_inv hinv hleaves
  | stop => exact ⟨hinv.balanced, hinv.handedOver, hinv.drained⟩

/-- After the consumer has gone what is left in a queue, or comes into it, is lost. -/
theorem not_delivers_of_leaves (hinv : s.Inv) {call : MpscCall n τ}
    (hnot : ¬ s.LeavesNothing capacity call) : ¬ (s.step capacity call).Delivers := by
  intro hdelivers
  cases call with
  | produce i items =>
      simp only [LeavesNothing, not_forall] at hnot
      obtain ⟨hreturned, items, hpc, hfit⟩ := hnot
      have hall := hdelivers.all_of_returned
      simp only [step, stepProduce, hpc] at hall
      have hi := hall hreturned i
      rw [Function.update_self, hinv.delivers.all_of_returned hreturned i] at hi
      exact hfit (List.self_eq_append_right.mp hi)
  | consume =>
      simp only [LeavesNothing, not_forall] at hnot
      obtain ⟨hpc, hdone, i, hleft⟩ := hnot
      have hall := hdelivers.all_of_returned
      simp only [step, stepConsume, hpc, if_pos hdone] at hall
      have hi := hall trivial i
      rw [hinv.balanced i, hinv.handedOver (.inr (.inl hpc)), List.append_assoc] at hi
      exact hleft (List.append_eq_nil_iff.mp (List.self_eq_append_right.mp hi)).2
  | stop => exact hnot trivial

/-- Every element of a run is handed over in order before `consume` returns exactly when
the queues are empty at the check that ends `consume` and stay so. -/
theorem delivers_iff (capacity : ℕ) (calls : List (MpscCall n τ)) :
    (∀ first, first <+: calls → (run (step capacity) start first).Delivers) ↔
      ∀ earlier call later, calls = earlier ++ call :: later →
        (run (step capacity) start earlier).LeavesNothing capacity call :=
  always_iff_of_steps (step capacity) start Inv Delivers (LeavesNothing capacity) start_inv
    (fun _ => Inv.delivers) (fun _ _ hinv hleaves => step_inv hinv hleaves)
    (fun _ _ hinv hnot => not_delivers_of_leaves hinv hnot) calls

/-- The consumer finds the queue empty and hands the empty buffer over; then the
producer pushes 5, sees the stop and counts itself done. -/
def pushesAfterTheDrain : List (MpscCall 1 ℕ) :=
  [.consume, .consume, .consume, .produce 0 [5], .produce 0 [5], .produce 0 [5], .stop,
    .produce 0 [], .produce 0 [], .produce 0 [], .produce 0 [], .consume, .consume]

theorem lost_pushesAfterTheDrain :
    let s := run (step 1024) start pushesAfterTheDrain
    s.consumePc = .returned ∧ s.pushed 0 = [5] ∧ s.delivered = [] ∧ ¬ s.Delivers := by
  intro s
  have hreturned : s.consumePc = .returned := by decide +kernel
  have hpushed : s.pushed 0 = [5] := by decide +kernel
  have hdelivered : s.delivered = [] := by decide +kernel
  refine ⟨hreturned, hpushed, hdelivered, ?_⟩
  intro hdelivers
  have hall := hdelivers.all_of_returned hreturned 0
  rw [hpushed, hdelivered] at hall
  exact absurd hall (by decide)

end MpscQueue

end CppPlay.MultiThread
