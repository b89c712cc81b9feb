import CppPlay.Lib.Run
import CppPlay.Lib.RingWindow
import CppPlay.Lib.Threads
import Mathlib.Data.Fintype.Basic

/-!
# The rings with two atomic indexes

`RingQueue` and `OneReaderOneWriterQueue` are the same algorithm: a push reads both
indexes, writes a slot and stores its index, a pop does the same at the other end.
`OneReaderOneWriterQueue` calls `_head` the index of the pushes and `_tail` that of
the pops, and it copies out of a slot where `RingQueue` moves.  Any number of threads
may push and pop here, so that the case of one each and the case of a pool share
what a step does.
-/

namespace CppPlay.MultiThread

open CppPlay.Lib

/-- Where a push stands: before its load of `tail_`, of `head_`, before the write of
the slot, and before the store of `tail_`. -/
inductive PushPc (τ : Type) where
  | idle
  | loaded (item : τ) (tail : ℕ)
  | checked (item : τ) (tail : ℕ)
  | stored (item : τ) (tail : ℕ)

def PushPc.isStored {τ : Type} : PushPc τ → Bool
  | stored _ _ => true
  | _ => false

inductive PopPc (τ : Type) where
  | idle
  | loaded (head : ℕ)
  | checked (head : ℕ)
  | moved (head : ℕ) (item : τ)

def PopPc.isMoved {τ : Type} : PopPc τ → Bool
  | moved _ _ => true
  | _ => false

inductive RingCall (ι κ τ : Type) where
  | push (t : ι) (item : τ)
  | pop (t : κ)

/-- The ring with the threads that push and pop.  `pushed` are the items whose push
returned `true`, `popped` those whose pop did, and `taken` what was read out of a
slot. -/
structure RingQueue (ι κ τ : Type) where
  head : ℕ
  tail : ℕ
  buffer : ℕ → τ
  pushPc : ι → PushPc τ
  popPc : κ → PopPc τ
  pushed : List τ
  taken : List τ
  popped : List τ

namespace RingQueue

variable {ι κ τ : Type}

def start (buffer : ℕ → τ) : RingQueue ι κ τ :=
  ⟨0, 0, buffer, fun _ => .idle, fun _ => .idle, [], [], []⟩

section Step

variable [DecidableEq ι] [DecidableEq κ]

/-- The next step of a push; the item counts when a push begins. -/
def stepPush (capacity : ℕ) (s : RingQueue ι κ τ) (t : ι) (item : τ) : RingQueue ι κ τ :=
  match s.pushPc t with
  | .idle => { s with pushPc := Function.update s.pushPc t (.loaded item s.tail) }
  | .loaded item tail =>
      let next := (tail + 1) % capacity
      if next = s.head then { s with pushPc := Function.update s.pushPc t .idle }
      else { s with pushPc := Function.update s.pushPc t (.checked item tail) }
  | .checked item tail =>
      { s with
        buffer := Function.update s.buffer tail item
        pushPc := Function.update s.pushPc t (.stored item tail) }
  | .stored item tail =>
      { s with
        tail := (tail + 1) % capacity
        pushPc := Function.update s.pushPc t .idle
        pushed := s.pushed ++ [item] }

/-- The next step of a pop; `leave` is what a read leaves in the slot. -/
def stepPop (capacity : ℕ) (leave : τ → τ) (s : RingQueue ι κ τ) (t : κ) : RingQueue ι κ τ :=
  match s.popPc t with
  | .idle => { s with popPc := Function.update s.popPc t (.loaded s.head) }
  | .loaded head =>
      if head = s.tail then { s with popPc := Function.update s.popPc t .idle }
      else { s with popPc := Function.update s.popPc t (.checked head) }
  | .checked head =>
      { s with
        buffer := Function.update s.buffer head (leave (s.buffer head))
        popPc := Function.update s.popPc t (.moved head (s.buffer head))
        taken := s.taken ++ [s.buffer head] }
  | .moved head item =>
      { s with
        head := (head + 1) % capacity
        popPc := Function.update s.popPc t .idle
        popped := s.popped ++ [item] }

def step (capacity : ℕ) (leave : τ → τ) (s : RingQueue ι κ τ) :
    RingCall ι κ τ → RingQueue ι κ τ
  | .push t item => s.stepPush capacity t item
  | .pop t => s.stepPop capacity leave t

end Step

/-! ## Steps that are up to date -/

/-- The slot that a push writes is the one of `tail_`, the ring is not full, and no
other push has written its slot without storing `tail_`. -/
def PushesFresh (capacity : ℕ) (s : RingQueue ι κ τ) (t : ι) : Prop :=
  ∀ item tail, s.pushPc t = .checked item tail →
    tail = s.tail ∧ (tail + 1) % capacity ≠ s.head ∧
      ∀ u item' tail', s.pushPc u ≠ .stored item' tail'

/-- The slot that a pop reads is the one of `head_`, the ring is not empty, and no
other pop has read its slot without storing `head_`. -/
def PopsFresh (s : RingQueue ι κ τ) (t : κ) : Prop :=
  ∀ head, s.popPc t = .checked head →
    head = s.head ∧ head ≠ s.tail ∧ ∀ u head' item, s.popPc u ≠ .moved head' item

def Fresh (capacity : ℕ) (s : RingQueue ι κ τ) : RingCall ι κ τ → Prop
  | .push t _ => s.PushesFresh capacity t
  | .pop t => s.PopsFresh t

theorem pushesFresh_iff {capacity : ℕ} {s : RingQueue ι κ τ} {t : ι} :
    s.PushesFresh capacity t ↔
      match s.pushPc t with
      | .checked _ tail =>
          tail = s.tail ∧ (tail + 1) % capacity ≠ s.head ∧ ∀ u, (s.pushPc u).isStored = false
      | _ => True := by
  have hnone : (∀ u item tail, s.pushPc u ≠ .stored item tail) ↔
      ∀ u, (s.pushPc u).isStored = false :=
    forall_congr' fun u => by cases s.pushPc u <;> simp [PushPc.isStored]
  rw [PushesFresh, ← hnone]
  cases hpc : s.pushPc t <;> simp

theorem popsFresh_iff {s : RingQueue ι κ τ} {t : κ} :
    s.PopsFresh t ↔
      match s.popPc t with
      | .checked head => head = s.head ∧ head ≠ s.tail ∧ ∀ u, (s.popPc u).isMoved = false
      | _ => True := by
  have hnone : (∀ u head item, s.popPc u ≠ .moved head item) ↔
      ∀ u, (s.popPc u).isMoved = false :=
    forall_congr' fun u => by cases s.popPc u <;> simp [PopPc.isMoved]
  rw [PopsFresh, ← hnone]
  cases hpc : s.popPc t <;> simp

instance [Fintype ι] [Fintype κ] (capacity : ℕ) (s : RingQueue ι κ τ) (call : RingCall ι κ τ) :
    Decidable (s.Fresh capacity call) :=
  match call with
  | .push t _ => @decidable_of_iff _ _ pushesFresh_iff.symm (by split <;> infer_instance)
  | .pop t => @decidable_of_iff _ _ popsFresh_iff.symm (by split <;> infer_instance)

/-! ## The ring and its history -/

/-- The indexes are positions in the history of the pushes, and the slots hold what
was pushed and not yet read. -/
structure Inv (capacity : ℕ) (s : RingQueue ι κ τ) : Prop where
  tail_eq : s.tail = s.pushed.length % capacity
  head_eq : s.head = s.popped.length % capacity
  room : s.pushed.length < s.popped.length + capacity
  popped_prefix : s.popped <+: s.taken
  taken_prefix : s.taken <+: s.pushed
  slots : Window capacity s.buffer s.pushed s.taken.length
  stored : ∀ t item tail, s.pushPc t = .stored item tail →
    tail = s.tail ∧ s.buffer tail = item ∧ s.pushed.length + 1 < s.popped.length + capacity ∧
      ∀ u item' tail', s.pushPc u = .stored item' tail' → u = t
  moved : ∀ t head item, s.popPc t = .moved head item →
    head = s.head ∧ s.taken = s.popped ++ [item] ∧
      ∀ u head' item', s.popPc u = .moved head' item' → u = t
  settled : (∀ t head item, s.popPc t ≠ .moved head item) → s.taken = s.popped

variable {capacity : ℕ} {leave : τ → τ} {s : RingQueue ι κ τ}

theorem start_inv (hcapacity : 0 < capacity) (buffer : ℕ → τ) :
    (start buffer : RingQueue ι κ τ).Inv capacity := by
  constructor
  · exact (Nat.zero_mod capacity).symm
  · exact (Nat.zero_mod capacity).symm
  · simpa [start] using hcapacity
  · exact List.prefix_refl _
  · exact List.prefix_refl _
  · intro k _ hlast
    exact absurd hlast (by simp [start])
  · intro t item tail hpc
    exact absurd hpc (by simp [start])
  · intro t head item hpc
    exact absurd hpc (by simp [start])
  · exact fun _ => rfl

theorem Inv.popped_le (hinv : s.Inv capacity) : s.popped.length ≤ s.pushed.length :=
  (hinv.popped_prefix.trans hinv.taken_prefix).length_le

theorem Inv.next_eq_head_iff (hinv : s.Inv capacity) :
    (s.tail + 1) % capacity = s.head ↔ s.pushed.length + 1 = s.popped.length + capacity := by
  have hle := hinv.popped_le
  have hroom := hinv.room
  have hlap : (s.popped.length + capacity) % capacity = (s.pushed.length + 1) % capacity ↔
      s.popped.length + capacity = s.pushed.length + 1 :=
    mod_eq_mod_iff_of_lt_lap (by omega) (by omega)
  rw [Nat.add_mod_right] at hlap
  rw [hinv.tail_eq, hinv.head_eq, Nat.mod_add_mod]
  exact ⟨fun hnext => (hlap.mp hnext.symm).symm, fun hfull => (hlap.mpr hfull.symm).symm⟩

theorem Inv.head_eq_tail_iff (hinv : s.Inv capacity) :
    s.head = s.tail ↔ s.popped.length = s.pushed.length := by
  have hlap := mod_eq_mod_iff_of_lt_lap hinv.popped_le hinv.room
  rw [hinv.tail_eq, hinv.head_eq]
  exact ⟨fun hsame => (hlap.mp hsame.symm).symm, fun hempty => (hlap.mpr hempty.symm).symm⟩

/-- The items of the ring are those that were pushed and not yet read. -/
theorem Inv.pushed_le (hinv : s.Inv capacity) :
    (s.pushed : Multiset τ) ≤ s.taken + (Multiset.range capacity).map s.buffer := by
  have hroom := hinv.room
  have htaken : s.popped.length ≤ s.taken.length := hinv.popped_prefix.length_le
  have hlap : s.pushed.length ≤ s.taken.length + capacity := by omega
  have hcapacity : 0 < capacity := by
    have hle := hinv.popped_le
    omega
  calc
    (s.pushed : Multiset τ) = s.taken + s.pushed.drop s.taken.length := by
      rw [Multiset.coe_add, ← List.prefix_iff_eq_append.mp hinv.taken_prefix]
      simp
    _ ≤ s.taken + (Multiset.range capacity).map s.buffer := by
      apply Multiset.add_le_add_left
      exact hinv.slots.drop_le hlap hcapacity

/-! ## What a step keeps -/

section Push

variable [DecidableEq ι]

/-- A step of a push that neither writes a slot nor stores the index. -/
theorem Inv.movePush (hinv : s.Inv capacity) {t : ι} {pc : PushPc τ}
    (hold : ∀ item tail, s.pushPc t ≠ .stored item tail)
    (hnew : ∀ item tail, pc ≠ .stored item tail) :
    Inv capacity { s with pushPc := Function.update s.pushPc t pc } := by
  have hstored : ∀ u item tail, Function.update s.pushPc t pc u = .stored item tail ↔
      s.pushPc u = .stored item tail := by
    intro u item tail
    apply update_apply_eq_iff_of_iff
    exact iff_of_false (hnew item tail) (hold item tail)
  constructor
  · exact hinv.tail_eq
  · exact hinv.head_eq
  · exact hinv.room
  · exact hinv.popped_prefix
  · exact hinv.taken_prefix
  · exact hinv.slots
  · simpa only [hstored] using hinv.stored
  · exact hinv.moved
  · exact hinv.settled

/-- The slot of `tail_` lies outside the window, so that its write loses nothing. -/
theorem Inv.write (hinv : s.Inv capacity) {t : ι} {item : τ} {tail : ℕ}
    (hpc : s.pushPc t = .checked item tail) (hfresh : s.PushesFresh capacity t) :
    Inv capacity { s with
      buffer := Function.update s.buffer tail item
      pushPc := Function.update s.pushPc t (.stored item tail) } := by
  obtain ⟨htail, hnotFull, hnobody⟩ := hfresh item tail hpc
  rw [htail, Ne, hinv.next_eq_head_iff] at hnotFull
  have hroom := hinv.room
  have htaken : s.popped.length ≤ s.taken.length := hinv.popped_prefix.length_le
  have hfree : s.pushed.length + 1 < s.popped.length + capacity := by omega
  constructor
  · exact hinv.tail_eq
  · exact hinv.head_eq
  · exact hinv.room
  · exact hinv.popped_prefix
  · exact hinv.taken_prefix
  · rw [htail, hinv.tail_eq]
    exact hinv.slots.write (by omega) item
  · intro u item' tail' hu
    rcases update_apply_eq_iff.mp hu with ⟨hsame, heq⟩ | ⟨_, hother⟩
    · rw [PushPc.stored.injEq] at heq
      rw [← heq.1, ← heq.2]
      refine ⟨htail, Function.update_self .., hfree, ?_⟩
      intro v item'' tail'' hv
      rcases update_apply_eq_iff.mp hv with ⟨hv, _⟩ | ⟨_, hother⟩
      · rw [hv, hsame]
      · exact absurd hother (hnobody v item'' tail'')
    · exact absurd hother (hnobody u item' tail')
  · exact hinv.moved
  · exact hinv.settled

theorem Inv.storeTail (hinv : s.Inv capacity) {t : ι} {item : τ} {tail : ℕ}
    (hpc : s.pushPc t = .stored item tail) :
    Inv capacity { s with
      tail := (tail + 1) % capacity
      pushPc := Function.update s.pushPc t .idle
      pushed := s.pushed ++ [item] } := by
  obtain ⟨htail, hslot, hroom, honly⟩ := hinv.stored t item tail hpc
  have htaken : s.popped.length ≤ s.taken.length := hinv.popped_prefix.length_le
  constructor
  · rw [htail, hinv.tail_eq, List.length_append, List.length_singleton, Nat.mod_add_mod]
  · exact hinv.head_eq
  · rw [List.length_append, List.length_singleton]
    exact hroom
  · exact hinv.popped_prefix
  · exact hinv.taken_prefix.trans (List.prefix_append _ _)
  · rw [htail, hinv.tail_eq] at hslot
    exact hinv.slots.publish hslot
  · intro u item' tail' hu
    rcases update_apply_eq_iff.mp hu with ⟨_, hidle⟩ | ⟨hne, hother⟩
    · exact absurd hidle (by simp)
    · exact absurd (honly u item' tail' hother) hne
  · exact hinv.moved
  · exact hinv.settled

end Push

section Pop

variable [DecidableEq κ]

theorem Inv.movePop (hinv : s.Inv capacity) {t : κ} {pc : PopPc τ}
    (hold : ∀ head item, s.popPc t ≠ .moved head item)
    (hnew : ∀ head item, pc ≠ .moved head item) :
    Inv capacity { s with popPc := Function.update s.popPc t pc } := by
  have hmoved : ∀ u head item, Function.update s.popPc t pc u = .moved head item ↔
      s.popPc u = .moved head item := by
    intro u head item
    apply update_apply_eq_iff_of_iff
    exact iff_of_false (hnew head item) (hold head item)
  constructor
  · exact hinv.tail_eq
  · exact hinv.head_eq
  · exact hinv.room
  · exact hinv.popped_prefix
  · exact hinv.taken_prefix
  · exact hinv.slots
  · exact hinv.stored
  · simpa only [hmoved] using hinv.moved
  · simpa only [Ne, hmoved] using hinv.settled

/-- The slot of `head_` holds the item that was pushed first of those in the ring. -/
theorem Inv.read (hinv : s.Inv capacity) {t : κ} {head : ℕ} (leave : τ → τ)
    (hpc : s.popPc t = .checked head) (hfresh : s.PopsFresh t) :
    Inv capacity { s with
      buffer := Function.update s.buffer head (leave (s.buffer head))
      popPc := Function.update s.popPc t (.moved head (s.buffer head))
      taken := s.taken ++ [s.buffer head] } := by
  obtain ⟨hhead, hnotEmpty, hnobody⟩ := hfresh head hpc
  have hsettled : s.taken = s.popped := hinv.settled hnobody
  rw [hhead, Ne, hinv.head_eq_tail_iff] at hnotEmpty
  have hle := hinv.popped_le
  have hroom := hinv.room
  have hslot : s.pushed[s.taken.length]? = some (s.buffer head) := by
    rw [hhead, hinv.head_eq, ← hsettled]
    apply hinv.slots _ le_rfl
    rw [hsettled]
    omega
  constructor
  · exact hinv.tail_eq
  · exact hinv.head_eq
  · exact hinv.room
  · exact hinv.popped_prefix.trans (List.prefix_append _ _)
  · exact append_singleton_prefix hinv.taken_prefix hslot
  · rw [List.length_append, List.length_singleton, hhead, hinv.head_eq, ← hsettled]
    exact hinv.slots.leave (by rw [hsettled]; exact hroom) _
  · intro u item tail hu
    obtain ⟨htail, hstored, hrest⟩ := hinv.stored u item tail hu
    refine ⟨htail, ?_, hrest⟩
    have hne : tail ≠ head := by
      rw [htail, hhead]
      exact fun hsame => hnotEmpty (hinv.head_eq_tail_iff.mp hsame.symm)
    exact (Function.update_of_ne hne _ _).trans hstored
  · intro u head' item hu
    rcases update_apply_eq_iff.mp hu with ⟨hsame, heq⟩ | ⟨_, hother⟩
    · rw [PopPc.moved.injEq] at heq
      rw [← heq.1, ← heq.2, hsettled]
      refine ⟨hhead, rfl, ?_⟩
      intro v head'' item' hv
      rcases update_apply_eq_iff.mp hv with ⟨hv, _⟩ | ⟨_, hother⟩
      · rw [hv, hsame]
      · exact absurd hother (hnobody v head'' item')
    · exact absurd hother (hnobody u head' item)
  · intro hnone
    exact absurd (Function.update_self ..) (hnone t head (s.buffer head))

theorem Inv.storeHead (hinv : s.Inv capacity) {t : κ} {head : ℕ} {item : τ}
    (hpc : s.popPc t = .moved head item) :
    Inv capacity { s with
      head := (head + 1) % capacity
      popPc := Function.update s.popPc t .idle
      popped := s.popped ++ [item] } := by
  obtain ⟨hhead, htaken, honly⟩ := hinv.moved t head item hpc
  have hroom := hinv.room
  constructor
  · exact hinv.tail_eq
  · rw [hhead, hinv.head_eq, List.length_append, List.length_singleton, Nat.mod_add_mod]
  · rw [List.length_append, List.length_singleton]
    exact hroom.trans (by omega)
  · rw [htaken]
  · exact hinv.taken_prefix
  · exact hinv.slots
  · intro u item' tail hu
    obtain ⟨htail, hstored, hlap, huniq⟩ := hinv.stored u item' tail hu
    refine ⟨htail, hstored, ?_, huniq⟩
    rw [List.length_append, List.length_singleton]
    exact hlap.trans (by omega)
  · intro u head' item' hu
    rcases update_apply_eq_iff.mp hu with ⟨_, hidle⟩ | ⟨hne, hother⟩
    · exact absurd hidle (by simp)
    · exact absurd (honly u head' item' hother) hne
  · exact fun _ => htaken

end Pop

theorem step_inv [DecidableEq ι] [DecidableEq κ] (hinv : s.Inv capacity) {call : RingCall ι κ τ}
    (hfresh : s.Fresh capacity call) : (s.step capacity leave call).Inv capacity := by
  cases call with
  | push t item =>
      cases hpc : s.pushPc t with
      | idle =>
          simp only [step, stepPush, hpc]
          exact hinv.movePush (by simp [hpc]) (by simp)
      | loaded item tail =>
          simp only [step, stepPush, hpc]
          by_cases hfull : (tail + 1) % capacity = s.head
          · rw [if_pos hfull]
            exact hinv.movePush (by simp [hpc]) (by simp)
          · rw [if_neg hfull]
            exact hinv.movePush (by simp [hpc]) (by simp)
      | checked item tail =>
          simp only [step, stepPush, hpc]
          exact hinv.write hpc hfresh
      | stored item tail =>
          simp only [step, stepPush, hpc]
          exact hinv.storeTail hpc
  | pop t =>
      cases hpc : s.popPc t with
      | idle =>
          simp only [step, stepPop, hpc]
          exact hinv.movePop (by simp [hpc]) (by simp)
      | loaded head =>
          simp only [step, stepPop, hpc]
          by_cases hempty : head = s.tail
          · rw [if_pos hempty]
            exact hinv.movePop (by simp [hpc]) (by simp)
          · rw [if_neg hempty]
            exact hinv.movePop (by simp [hpc]) (by simp)
      | checked head =>
          simp only [step, stepPop, hpc]
          exact hinv.read leave hpc hfresh
      | moved head item =>
          simp only [step, stepPop, hpc]
          exact hinv.storeHead hpc

/-! ## One thread at each end -/

section Spsc

/-- The copies that the two threads hold of their own index are current, and what they
have seen of the other one still gives them their slot. -/
structure Current (capacity : ℕ) (s : RingQueue Unit Unit τ) : Prop where
  loadedPush : ∀ item tail, s.pushPc () = .loaded item tail → tail = s.tail
  checkedPush : ∀ item tail, s.pushPc () = .checked item tail →
    tail = s.tail ∧ s.pushed.length + 1 < s.popped.length + capacity
  loadedPop : ∀ head, s.popPc () = .loaded head → head = s.head
  checkedPop : ∀ head, s.popPc () = .checked head →
    head = s.head ∧ s.popped.length < s.pushed.length

/-- The next step of the push returns `false`. -/
def PushReturnsFalse (capacity : ℕ) (s : RingQueue Unit Unit τ) : Prop :=
  ∃ item tail, s.pushPc () = .loaded item tail ∧ (tail + 1) % capacity = s.head

def PopReturnsFalse (s : RingQueue Unit Unit τ) : Prop :=
  ∃ head, s.popPc () = .loaded head ∧ head = s.tail

/-- The ring is a bounded first-in first-out queue, whose ends use different slots. -/
structure Fifo (capacity : ℕ) (s : RingQueue Unit Unit τ) : Prop where
  popped_prefix : s.popped <+: s.pushed
  pushed_le : s.pushed.length ≤ s.popped.length + (capacity - 1)
  slots_ne : ∀ item tail head, s.pushPc () = .checked item tail → s.popPc () = .checked head →
    tail ≠ head
  full_of_false : s.PushReturnsFalse capacity →
    s.pushed.length = s.popped.length + (capacity - 1)
  empty_of_false : s.PopReturnsFalse → s.pushed.length = s.popped.length

variable {s : RingQueue Unit Unit τ}

theorem Current.fresh (hcurrent : s.Current capacity) (hinv : s.Inv capacity)
    (call : RingCall Unit Unit τ) : s.Fresh capacity call := by
  cases call with
  | push t item =>
      intro item tail hpc
      obtain ⟨htail, hroom⟩ := hcurrent.checkedPush item tail hpc
      refine ⟨htail, ?_, ?_⟩
      · rw [htail, Ne, hinv.next_eq_head_iff]
        omega
      · intro u item' tail' hstored
        exact absurd (hpc.symm.trans hstored) (by simp)
  | pop t =>
      intro head hpc
      obtain ⟨hhead, hsome⟩ := hcurrent.checkedPop head hpc
      refine ⟨hhead, ?_, ?_⟩
      · rw [hhead, Ne, hinv.head_eq_tail_iff]
        omega
      · intro u head' item hmoved
        exact absurd (hpc.symm.trans hmoved) (by simp)

theorem Current.stepPush (hcurrent : s.Current capacity) (hinv : s.Inv capacity) (item : τ) :
    (s.stepPush capacity () item).Current capacity := by
  obtain ⟨hloaded, hchecked, hloadedPop, hcheckedPop⟩ := hcurrent
  cases hpc : s.pushPc () with
  | idle =>
      simp only [RingQueue.stepPush, hpc]
      exact ⟨by simp, by simp, hloadedPop, hcheckedPop⟩
  | loaded item tail =>
      simp only [RingQueue.stepPush, hpc]
      by_cases hfull : (tail + 1) % capacity = s.head
      · rw [if_pos hfull]
        exact ⟨by simp, by simp, hloadedPop, hcheckedPop⟩
      · rw [if_neg hfull]
        refine ⟨by simp, ?_, hloadedPop, hcheckedPop⟩
        intro item' tail' heq
        simp only [Function.update_self, PushPc.checked.injEq] at heq
        have htail := hloaded item tail hpc
        rw [htail, hinv.next_eq_head_iff] at hfull
        have hroom := hinv.room
        refine ⟨heq.2.symm.trans htail, ?_⟩
        show s.pushed.length + 1 < s.popped.length + capacity
        omega
  | checked item tail =>
      simp only [RingQueue.stepPush, hpc]
      exact ⟨by simp, by simp, hloadedPop, hcheckedPop⟩
  | stored item tail =>
      simp only [RingQueue.stepPush, hpc]
      refine ⟨by simp, by simp, hloadedPop, ?_⟩
      intro head hpop
      obtain ⟨hhead, hsome⟩ := hcheckedPop head hpop
      refine ⟨hhead, ?_⟩
      rw [List.length_append, List.length_singleton]
      exact Nat.lt_succ_of_lt hsome

theorem Current.stepPop (hcurrent : s.Current capacity) (hinv : s.Inv capacity) (leave : τ → τ) :
    (s.stepPop capacity leave ()).Current capacity := by
  obtain ⟨hloaded, hchecked, hloadedPop, hcheckedPop⟩ := hcurrent
  cases hpc : s.popPc () with
  | idle =>
      simp only [RingQueue.stepPop, hpc]
      exact ⟨hloaded, hchecked, by simp, by simp⟩
  | loaded head =>
      simp only [RingQueue.stepPop, hpc]
      by_cases hempty : head = s.tail
      · rw [if_pos hempty]
        exact ⟨hloaded, hchecked, by simp, by simp⟩
      · rw [if_neg hempty]
        refine ⟨hloaded, hchecked, by simp, ?_⟩
        intro head' heq
        simp only [Function.update_self, PopPc.checked.injEq] at heq
        have hhead := hloadedPop head hpc
        rw [hhead, hinv.head_eq_tail_iff] at hempty
        exact ⟨heq.symm.trans hhead, lt_of_le_of_ne hinv.popped_le hempty⟩
  | checked head =>
      simp only [RingQueue.stepPop, hpc]
      exact ⟨hloaded, hchecked, by simp, by simp⟩
  | moved head item =>
      simp only [RingQueue.stepPop, hpc]
      refine ⟨hloaded, ?_, by simp, by simp⟩
      intro item' tail hpush
      obtain ⟨htail, hroom⟩ := hchecked item' tail hpush
      refine ⟨htail, ?_⟩
      rw [List.length_append, List.length_singleton]
      exact hroom.trans (by omega)

theorem start_current (buffer : ℕ → τ) : (start buffer).Current capacity := by
  constructor <;> simp [start]

theorem Current.step (hcurrent : s.Current capacity) (hinv : s.Inv capacity) (leave : τ → τ)
    (call : RingCall Unit Unit τ) : (s.step capacity leave call).Current capacity := by
  cases call with
  | push t item => exact hcurrent.stepPush hinv item
  | pop t => exact hcurrent.stepPop hinv leave

theorem Current.fifo (hcurrent : s.Current capacity) (hinv : s.Inv capacity) :
    s.Fifo capacity := by
  have hroom := hinv.room
  have hle := hinv.popped_le
  constructor
  · exact hinv.popped_prefix.trans hinv.taken_prefix
  · omega
  · intro item tail head hpush hpop
    obtain ⟨htail, _⟩ := hcurrent.checkedPush item tail hpush
    obtain ⟨hhead, hsome⟩ := hcurrent.checkedPop head hpop
    rw [htail, hhead]
    exact fun hsame => hsome.ne (hinv.head_eq_tail_iff.mp hsame.symm)
  · rintro ⟨item, tail, hpush, hfull⟩
    rw [hcurrent.loadedPush item tail hpush, hinv.next_eq_head_iff] at hfull
    omega
  · rintro ⟨head, hpop, hempty⟩
    rw [hcurrent.loadedPop head hpop, hinv.head_eq_tail_iff] at hempty
    exact hempty.symm

theorem fifo_run (hcapacity : 0 < capacity) (buffer : ℕ → τ) (leave : τ → τ)
    (calls : List (RingCall Unit Unit τ)) :
    (run (step capacity leave) (start buffer) calls).Fifo capacity := by
  have hrun : (run (step capacity leave) (start buffer) calls).Inv capacity ∧
      (run (step capacity leave) (start buffer) calls).Current capacity := by
    apply run_invariant fun s : RingQueue Unit Unit τ => s.Inv capacity ∧ s.Current capacity
    · exact ⟨start_inv hcapacity buffer, start_current buffer⟩
    · intro s call hs
      exact ⟨step_inv hs.1 (hs.2.fresh hs.1 call), hs.2.step hs.1 leave call⟩
  exact hrun.2.fifo hrun.1

end Spsc

end RingQueue

namespace OneReaderOneWriterQueue

variable {τ : Type}

/-- The value stays in the slot that it is copied from. -/
def step (size : ℕ) : RingQueue Unit Unit τ → RingCall Unit Unit τ → RingQueue Unit Unit τ :=
  RingQueue.step size id

end OneReaderOneWriterQueue

/-- With one thread that pushes and one that pops both rings are bounded first-in
first-out queues, whatever the interleaving. -/
theorem spsc_fifo {τ : Type} (capacity : ℕ) (hcapacity : 0 < capacity) (buffer : ℕ → τ)
    (movedFrom : τ → τ) (calls : List (RingCall Unit Unit τ)) :
    (run (OneReaderOneWriterQueue.step capacity) (RingQueue.start buffer) calls).Fifo capacity ∧
      (run (RingQueue.step capacity movedFrom) (RingQueue.start buffer) calls).Fifo capacity :=
  ⟨RingQueue.fifo_run hcapacity buffer id calls,
    RingQueue.fifo_run hcapacity buffer movedFrom calls⟩

/-- Two pushes fill the ring of three slots, the third one is refused, and the pops
that follow find the two. -/
def fillsAndDrains : List (RingCall Unit Unit ℕ) :=
  List.replicate 4 (.push () 7) ++ List.replicate 4 (.push () 8) ++ List.replicate 2 (.push () 9) ++
    List.replicate 10 (.pop ())

theorem spsc_fifo_fillsAndDrains :
    let s := run (RingQueue.step 3 fun _ => 0) (RingQueue.start fun _ => 0) fillsAndDrains
    s.pushed = [7, 8] ∧ s.popped = [7, 8] ∧ s.Fifo 3 :=
  ⟨by decide +kernel, by decide +kernel,
    (spsc_fifo 3 (by decide) (fun _ => 0) (fun _ => 0) fillsAndDrains).2⟩

end CppPlay.MultiThread
