import CppPlay.Lib.RingWindow
import CppPlay.Lib.Run

/-!
# The objects in the slots of the ring

The slots are an array of objects that `new T[size]` has constructed and that are destroyed
with the array.  `write` constructs in place and the reader destroys in place, as in a ring
of raw memory.  An element type with a destructor that does something is assumed.
-/

namespace CppPlay.MultiThread

open CppPlay.Lib

/-- Where `write` stands: outside, after the check of `_stopped`, before the construction, or
before the store of the index. -/
inductive WritePc (τ : Type) where
  | idle
  | running (item : τ)
  | constructing (item : τ) (currentWrite : ℕ)
  | storing (currentWrite : ℕ)

/-- Where `read` stands; `popFront` begins with the destruction. -/
inductive ReadPc where
  | idle
  | running
  | moving (currentRead : ℕ)
  | destroying (currentRead : ℕ)
  | storing (currentRead : ℕ)

inductive SlotCall (τ : Type) where
  | write (item : τ)
  | read
  | popFront
  | stop

/-- The queue with its two threads.  A slot without a value holds no live object; `misused` is
set by a construction in a slot that holds one and a destruction in one that does not. -/
structure ProducerConsumerQueue (τ : Type) where
  records : ℕ → Option τ
  readIndex : ℕ
  writeIndex : ℕ
  stopped : Bool
  producer : WritePc τ
  consumer : ReadPc
  received : List (Option τ)
  constructed : ℕ
  destroyed : ℕ
  misused : Bool

namespace ProducerConsumerQueue

variable {τ : Type}

def start [Inhabited τ] (size : ℕ) : ProducerConsumerQueue τ :=
  { records := fun i => if i < size then some default else none
    readIndex := 0
    writeIndex := 0
    stopped := false
    producer := .idle
    consumer := .idle
    received := []
    constructed := size
    destroyed := 0
    misused := false }

def construct (s : ProducerConsumerQueue τ) (i : ℕ) (item : τ) : ProducerConsumerQueue τ :=
  { s with
    records := Function.update s.records i (some item)
    constructed := s.constructed + 1
    misused := s.misused || (s.records i).isSome }

def destroy (s : ProducerConsumerQueue τ) (i : ℕ) : ProducerConsumerQueue τ :=
  { s with
    records := Function.update s.records i none
    destroyed := s.destroyed + 1
    misused := s.misused || (s.records i).isNone }

def nextRecord (size i : ℕ) : ℕ := if i + 1 = size then 0 else i + 1

/-- The next step of `write`; the item counts when a call begins. -/
def stepWrite (size : ℕ) (s : ProducerConsumerQueue τ) (item : τ) : ProducerConsumerQueue τ :=
  match s.producer with
  | .idle => if s.stopped then s else { s with producer := .running item }
  | .running item =>
      if nextRecord size s.writeIndex = s.readIndex then { s with producer := .idle }
      else { s with producer := .constructing item s.writeIndex }
  | .constructing item currentWrite =>
      { s.construct currentWrite item with producer := .storing currentWrite }
  | .storing currentWrite =>
      { s with writeIndex := nextRecord size currentWrite, producer := .idle }

def stepRead (size : ℕ) (s : ProducerConsumerQueue τ) : ProducerConsumerQueue τ :=
  match s.consumer with
  | .idle => if s.stopped then s else { s with consumer := .running }
  | .running =>
      if s.readIndex = s.writeIndex then { s with consumer := .idle }
      else { s with consumer := .moving s.readIndex }
  | .moving currentRead =>
      { s with
        consumer := .destroying currentRead
        received := s.received ++ [s.records currentRead] }
  | .destroying currentRead => { s.destroy currentRead with consumer := .storing currentRead }
  | .storing currentRead =>
      { s with readIndex := nextRecord size currentRead, consumer := .idle }

def stepPopFront (size : ℕ) (s : ProducerConsumerQueue τ) : ProducerConsumerQueue τ :=
  match s.consumer with
  -- the assertion that the queue is not empty ends the program
  | .idle =>
      if s.readIndex = s.writeIndex then s else { s with consumer := .destroying s.readIndex }
  | _ => s.stepRead size

def step (size : ℕ) (s : ProducerConsumerQueue τ) : SlotCall τ → ProducerConsumerQueue τ
  | .write item => s.stepWrite size item
  | .read => s.stepRead size
  | .popFront => s.stepPopFront size
  | .stop => { s with stopped := true }

/-- The loop of the destructor, with a bound on its rounds. -/
def destroyUnread (size : ℕ) : ℕ → ℕ → ProducerConsumerQueue τ → ProducerConsumerQueue τ
  | 0, _, s => s
  | rounds + 1, readIndex, s =>
      if readIndex = s.writeIndex then s
      else destroyUnread size rounds (nextRecord size readIndex) (s.destroy readIndex)

/-- The destructor, and then that of the array, which destroys from the last slot on. -/
def destructor (size : ℕ) (s : ProducerConsumerQueue τ) : ProducerConsumerQueue τ :=
  (List.range size).reverse.foldl destroy (destroyUnread size size s.readIndex s)

structure Balanced (s : ProducerConsumerQueue τ) : Prop where
  lifetimes : s.misused = false
  calls : s.destroyed = s.constructed

def FindsStopped (s : ProducerConsumerQueue τ) : SlotCall τ → Prop
  | .write _ => s.producer = .idle → s.stopped = true
  | _ => True

/-! ## Runs without a construction in a slot -/

structure Untouched (s : ProducerConsumerQueue τ) : Prop where
  readIndex : s.readIndex = 0
  writeIndex : s.writeIndex = 0
  consumer : s.consumer = .idle ∨ s.consumer = .running

/-- No `write` got past the check. -/
structure Unwritten (size : ℕ) (s : ProducerConsumerQueue τ) : Prop extends Untouched s where
  producer : s.producer = .idle
  live : ∀ i < size, (s.records i).isSome = true
  misused : s.misused = false
  constructed : s.constructed = size
  destroyed : s.destroyed = 0

/-- The first `write` that did is on its way to construct over the object in the first slot. -/
structure Writing (s : ProducerConsumerQueue τ) : Prop extends Untouched s where
  producer : (∃ item, s.producer = .running item) ∨ ∃ item, s.producer = .constructing item 0
  live : (s.records 0).isSome = true

variable {size : ℕ} {s : ProducerConsumerQueue τ}

theorem start_unwritten [Inhabited τ] (size : ℕ) :
    (start size : ProducerConsumerQueue τ).Unwritten size := by
  refine ⟨⟨rfl, rfl, .inl rfl⟩, rfl, ?_, rfl, rfl, rfl⟩
  intro i hi
  simp only [start, if_pos hi, Option.isSome_some]

/-- On an empty ring the reader changes nothing but where it stands. -/
theorem Untouched.stepRead (size : ℕ) (huntouched : s.Untouched) :
    ∃ pc, (pc = .idle ∨ pc = .running) ∧ s.stepRead size = { s with consumer := pc } := by
  have hempty : s.readIndex = s.writeIndex := by
    rw [huntouched.readIndex, huntouched.writeIndex]
  rcases huntouched.consumer with hidle | hrunning
  · by_cases hstopped : s.stopped = true
    · refine ⟨.idle, .inl rfl, ?_⟩
      simp only [ProducerConsumerQueue.stepRead, hidle, if_pos hstopped]
      rw [← hidle]
    · refine ⟨.running, .inr rfl, ?_⟩
      simp only [ProducerConsumerQueue.stepRead, hidle, if_neg hstopped]
  · refine ⟨.idle, .inl rfl, ?_⟩
    simp only [ProducerConsumerQueue.stepRead, hrunning, if_pos hempty]

theorem Untouched.stepPopFront (size : ℕ) (huntouched : s.Untouched) :
    ∃ pc, (pc = .idle ∨ pc = .running) ∧ s.stepPopFront size = { s with consumer := pc } := by
  have hempty : s.readIndex = s.writeIndex := by
    rw [huntouched.readIndex, huntouched.writeIndex]
  rcases huntouched.consumer with hidle | hrunning
  · refine ⟨.idle, .inl rfl, ?_⟩
    simp only [ProducerConsumerQueue.stepPopFront, hidle, if_pos hempty]
    rw [← hidle]
  · simp only [ProducerConsumerQueue.stepPopFront, hrunning]
    exact huntouched.stepRead size

theorem Unwritten.step (hunwritten : s.Unwritten size) {call : SlotCall τ}
    (hstopped : s.FindsStopped call) : (s.step size call).Unwritten size := by
  cases call with
  | write item =>
      have hsame : s.stepWrite size item = s := by
        simp only [stepWrite, hunwritten.producer, if_pos (hstopped hunwritten.producer)]
      rwa [ProducerConsumerQueue.step, hsame]
  | read =>
      obtain ⟨pc, hpc, hstep⟩ := hunwritten.toUntouched.stepRead size
      rw [ProducerConsumerQueue.step, hstep]
      exact { hunwritten with consumer := hpc }
  | popFront =>
      obtain ⟨pc, hpc, hstep⟩ := hunwritten.toUntouched.stepPopFront size
      rw [ProducerConsumerQueue.step, hstep]
      exact { hunwritten with consumer := hpc }
  | stop => exact { hunwritten with }

theorem Unwritten.step_writing (hsize : 0 < size) (hunwritten : s.Unwritten size)
    {call : SlotCall τ} (hrunning : ¬ s.FindsStopped call) : (s.step size call).Writing := by
  cases call with
  | write item =>
      rw [FindsStopped, not_forall] at hrunning
      obtain ⟨hidle, hstopped⟩ := hrunning
      simp only [ProducerConsumerQueue.step, stepWrite, hidle, if_neg hstopped]
      exact ⟨⟨hunwritten.readIndex, hunwritten.writeIndex, hunwritten.consumer⟩,
        .inl ⟨item, rfl⟩, hunwritten.live 0 hsize⟩
  | read => exact absurd trivial hrunning
  | popFront => exact absurd trivial hrunning
  | stop => exact absurd trivial hrunning

theorem misused_stepWrite (item : τ) (hmisused : s.misused = true) :
    (s.stepWrite size item).misused = true := by
  unfold stepWrite
  split
  · split_ifs <;> exact hmisused
  · split_ifs <;> exact hmisused
  · simp [construct, hmisused]
  · exact hmisused

theorem misused_stepRead (hmisused : s.misused = true) : (s.stepRead size).misused = true := by
  unfold stepRead
  split
  · split_ifs <;> exact hmisused
  · split_ifs <;> exact hmisused
  · exact hmisused
  · simp [destroy, hmisused]
  · exact hmisused

theorem misused_step (call : SlotCall τ) (hmisused : s.misused = true) :
    (s.step size call).misused = true := by
  cases call with
  | write item => exact misused_stepWrite item hmisused
  | read => exact misused_stepRead hmisused
  | popFront =>
      rw [step, stepPopFront]
      split
      · split_ifs <;> exact hmisused
      · exact misused_stepRead hmisused
  | stop => exact hmisused

/-- The construction hits the object of the array. -/
theorem Writing.step (hsize : 2 ≤ size) (hwriting : s.Writing) (call : SlotCall τ) :
    (s.step size call).misused = true ∨ (s.step size call).Writing := by
  cases call with
  | write item =>
      rcases hwriting.producer with ⟨pending, hrunning⟩ | ⟨pending, hconstructing⟩
      · have hroom : nextRecord size s.writeIndex ≠ s.readIndex := by
          rw [hwriting.writeIndex, hwriting.readIndex, nextRecord]
          split_ifs <;> omega
        simp only [ProducerConsumerQueue.step, stepWrite, hrunning, if_neg hroom]
        exact .inr ⟨⟨hwriting.readIndex, hwriting.writeIndex, hwriting.consumer⟩,
          .inr ⟨pending, by rw [hwriting.writeIndex]⟩, hwriting.live⟩
      · simp only [ProducerConsumerQueue.step, stepWrite, hconstructing, construct, hwriting.live,
          Bool.or_true]
        exact .inl trivial
  | read =>
      obtain ⟨pc, hpc, hstep⟩ := hwriting.toUntouched.stepRead size
      rw [ProducerConsumerQueue.step, hstep]
      exact .inr { hwriting with consumer := hpc }
  | popFront =>
      obtain ⟨pc, hpc, hstep⟩ := hwriting.toUntouched.stepPopFront size
      rw [ProducerConsumerQueue.step, hstep]
      exact .inr { hwriting with consumer := hpc }
  | stop => exact .inr { hwriting with }

/-! ## The destructor -/

theorem misused_foldl_destroy (slots : List ℕ) (hmisused : s.misused = true) :
    (slots.foldl destroy s).misused = true := by
  induction slots generalizing s with
  | nil => exact hmisused
  | cons i slots ih => exact ih (by simp [destroy, hmisused])

theorem misused_destroyUnread (rounds readIndex : ℕ) (hmisused : s.misused = true) :
    (destroyUnread size rounds readIndex s).misused = true := by
  induction rounds generalizing readIndex s with
  | zero => exact hmisused
  | succ rounds ih =>
      unfold destroyUnread
      split_ifs
      · exact hmisused
      · exact ih _ (by simp [destroy, hmisused])

theorem foldl_destroy_counts (slots : List ℕ) :
    (slots.foldl destroy s).destroyed = s.destroyed + slots.length ∧
      (slots.foldl destroy s).constructed = s.constructed := by
  induction slots generalizing s with
  | nil => exact ⟨rfl, rfl⟩
  | cons i slots ih =>
      obtain ⟨hdestroyed, hconstructed⟩ := ih (s := s.destroy i)
      rw [List.foldl_cons, hdestroyed, hconstructed, List.length_cons]
      exact ⟨by rw [destroy, Nat.add_right_comm, Nat.add_assoc], rfl⟩

theorem foldl_destroy_live {slots : List ℕ} (hnodup : slots.Nodup)
    (hlive : ∀ i ∈ slots, (s.records i).isSome = true) :
    (slots.foldl destroy s).misused = s.misused := by
  induction slots generalizing s with
  | nil => rfl
  | cons i slots ih =>
      rw [List.nodup_cons] at hnodup
      have hi : (s.records i).isNone = false := by
        rw [Option.isNone_eq_false_iff]
        exact hlive i List.mem_cons_self
      have hothers : ∀ j ∈ slots, ((s.destroy i).records j).isSome = true := by
        intro j hj
        have hne : j ≠ i := fun hsame => hnodup.1 (hsame ▸ hj)
        simp only [destroy, Function.update_of_ne hne]
        exact hlive j (List.mem_cons_of_mem _ hj)
      rw [List.foldl_cons, ih hnodup.2 hothers, destroy, hi, Bool.or_false]

theorem Unwritten.balanced (hsize : 0 < size) (hunwritten : s.Unwritten size) :
    (s.destructor size).Balanced := by
  have hnone : destroyUnread size size s.readIndex s = s := by
    obtain ⟨rounds, hrounds⟩ := Nat.exists_eq_succ_of_ne_zero hsize.ne'
    rw [hrounds, destroyUnread, hunwritten.readIndex, hunwritten.writeIndex, if_pos rfl]
  have hlive : ∀ i ∈ (List.range size).reverse, (s.records i).isSome = true := by
    intro i hi
    exact hunwritten.live i (List.mem_range.mp (List.mem_reverse.mp hi))
  have hmisused := foldl_destroy_live (List.nodup_reverse.mpr List.nodup_range) hlive
  obtain ⟨hdestroyed, hconstructed⟩ := foldl_destroy_counts (s := s) (List.range size).reverse
  constructor
  · rw [destructor, hnone, hmisused, hunwritten.misused]
  · rw [destructor, hnone, hdestroyed, hconstructed, hunwritten.destroyed, hunwritten.constructed,
      List.length_reverse, List.length_range, Nat.zero_add]

/-- The objects are balanced after the destructor exactly when every `write` found the queue
stopped, so that the slots kept the objects of the array. -/
theorem balanced_iff_findsStopped [Inhabited τ] (hsize : 2 ≤ size) (calls : List (SlotCall τ))
    (hidle : (run (step size) (start size) calls).producer = .idle) :
    ((run (step size) (start size) calls).destructor size).Balanced ↔
      ∀ earlier call later, calls = earlier ++ call :: later →
        (run (step size) (start size) earlier).FindsStopped call := by
  have hpos : 0 < size := by omega
  rcases run_invariant_or_broken (step size) (start size) (Unwritten size)
      (fun s : ProducerConsumerQueue τ => s.misused = true ∨ s.Writing) FindsStopped
      (start_unwritten size) (fun _ _ hunwritten => hunwritten.step)
      (fun _ _ hunwritten hrunning => .inr (hunwritten.step_writing hpos hrunning))
      (fun _ call hwritten => hwritten.elim (fun hmisused => .inl (misused_step call hmisused))
        fun hwriting => hwriting.step hsize call) calls with ⟨hall, hunwritten⟩ | ⟨hnot, hwritten⟩
  · exact iff_of_true (hunwritten.balanced hpos) hall
  · refine iff_of_false ?_ hnot
    intro hbalanced
    have hmisused : (run (step size) (start size) calls).misused = true := by
      rcases hwritten with hmisused | hwriting
      · exact hmisused
      · rcases hwriting.producer with ⟨item, hproducer⟩ | ⟨item, hproducer⟩
        · rw [hidle] at hproducer
          cases hproducer
        · rw [hidle] at hproducer
          cases hproducer
    have hkept : ((run (step size) (start size) calls).destructor size).misused = true :=
      misused_foldl_destroy _ (misused_destroyUnread size _ hmisused)
    rw [hbalanced.lifetimes] at hkept
    cases hkept

/-- One item is written and read, and the array then destroys an object that is gone. -/
def writesAndReads : List (SlotCall ℕ) :=
  [.write 5, .write 5, .write 5, .write 5, .read, .read, .read, .read, .read]

theorem not_balanced_writesAndReads :
    ¬ ∀ (size : ℕ) (calls : List (SlotCall ℕ)), 2 ≤ size →
      (run (step size) (start size) calls).producer = .idle →
        (run (step size) (start size) calls).consumer = .idle →
          ((run (step size) (start size) calls).destructor size).Balanced := by
  intro hall
  have hbalanced := hall 2 writesAndReads le_rfl rfl rfl
  have hmisused : ((run (step 2) (start 2) writesAndReads).destructor 2).misused = true := by
    decide
  rw [hbalanced.lifetimes] at hmisused
  cases hmisused

def stoppedAtOnce : List (SlotCall ℕ) := [.read, .stop, .write 5, .read]

theorem balanced_iff_stoppedAtOnce :
    ((run (step 2) (start 2) stoppedAtOnce).destructor 2).Balanced ↔
      ∀ earlier call later, stoppedAtOnce = earlier ++ call :: later →
        (run (step 2) (start 2) earlier).FindsStopped call :=
  balanced_iff_findsStopped le_rfl stoppedAtOnce rfl

/-! ## The numbers of constructions and destructions -/

/-- The construction runs ahead of the store of the index. -/
def ProducerCounts (size written taken : ℕ) (s : ProducerConsumerQueue τ) : Prop :=
  match s.producer with
  | .idle => s.constructed = size + written
  | .running _ => s.constructed = size + written
  | .constructing _ currentWrite =>
      currentWrite = s.writeIndex ∧ written + 1 < taken + size ∧ s.constructed = size + written
  | .storing currentWrite =>
      currentWrite = s.writeIndex ∧ written + 1 < taken + size ∧ s.constructed = size + written + 1

def ConsumerCounts (written taken : ℕ) (s : ProducerConsumerQueue τ) : Prop :=
  match s.consumer with
  | .idle => s.destroyed = taken
  | .running => s.destroyed = taken
  | .moving currentRead => currentRead = s.readIndex ∧ taken < written ∧ s.destroyed = taken
  | .destroying currentRead => currentRead = s.readIndex ∧ taken < written ∧ s.destroyed = taken
  | .storing currentRead => currentRead = s.readIndex ∧ taken < written ∧ s.destroyed = taken + 1

/-- The indexes after these many writes and reads. -/
structure Counts (size written taken : ℕ) (s : ProducerConsumerQueue τ) : Prop where
  writeIndex : s.writeIndex = written % size
  readIndex : s.readIndex = taken % size
  taken_le : taken ≤ written
  room : written < taken + size
  producer : ProducerCounts size written taken s
  consumer : ConsumerCounts written taken s

variable {written taken : ℕ}

theorem nextRecord_mod (hsize : 0 < size) (k : ℕ) : nextRecord size (k % size) = (k + 1) % size := by
  have hlt := Nat.mod_lt k hsize
  have hnext : (k + 1) % size = (k % size + 1) % size := (Nat.mod_add_mod k size 1).symm
  rw [nextRecord, hnext]
  split_ifs with hlast
  · rw [hlast, Nat.mod_self]
  · rw [Nat.mod_eq_of_lt (by omega : k % size + 1 < size)]

theorem start_counts [Inhabited τ] (hsize : 0 < size) :
    (start size : ProducerConsumerQueue τ).Counts size 0 0 :=
  ⟨(Nat.zero_mod size).symm, (Nat.zero_mod size).symm, le_rfl, by omega, rfl, rfl⟩

theorem Counts.lt_of_ne (hcounts : s.Counts size written taken)
    (hne : s.readIndex ≠ s.writeIndex) : taken < written := by
  apply lt_of_le_of_ne hcounts.taken_le
  intro hsame
  apply hne
  rw [hcounts.readIndex, hcounts.writeIndex, hsame]

theorem Counts.stepWrite (hsize : 0 < size) (hcounts : s.Counts size written taken) (item : τ) :
    ∃ written', (s.stepWrite size item).Counts size written' taken := by
  have hproducer := hcounts.producer
  cases hpc : s.producer with
  | idle =>
      rw [ProducerCounts, hpc] at hproducer
      simp only [ProducerConsumerQueue.stepWrite, hpc]
      split_ifs
      · exact ⟨written, hcounts⟩
      · exact ⟨written, { hcounts with producer := hproducer }⟩
  | running item =>
      rw [ProducerCounts, hpc] at hproducer
      simp only [ProducerConsumerQueue.stepWrite, hpc]
      split_ifs with hfull
      · exact ⟨written, { hcounts with producer := hproducer }⟩
      · have hroom : written + 1 ≠ taken + size := by
          intro hlap
          apply hfull
          rw [hcounts.writeIndex, nextRecord_mod hsize, hlap, Nat.add_mod_right, hcounts.readIndex]
        have hless := hcounts.room
        exact ⟨written, { hcounts with producer := ⟨rfl, by omega, hproducer⟩ }⟩
  | constructing item currentWrite =>
      rw [ProducerCounts, hpc] at hproducer
      obtain ⟨hcurrent, hroom, hconstructed⟩ := hproducer
      simp only [ProducerConsumerQueue.stepWrite, hpc]
      exact ⟨written, { hcounts with
        producer := ⟨hcurrent, hroom, congrArg (· + 1) hconstructed⟩ }⟩
  | storing currentWrite =>
      rw [ProducerCounts, hpc] at hproducer
      obtain ⟨hcurrent, hroom, hconstructed⟩ := hproducer
      have hconsumer := hcounts.consumer
      have htaken := hcounts.taken_le
      simp only [ProducerConsumerQueue.stepWrite, hpc]
      refine ⟨written + 1, ?_, hcounts.readIndex, by omega, hroom, hconstructed, ?_⟩
      · rw [hcurrent, hcounts.writeIndex, nextRecord_mod hsize]
      · rw [ConsumerCounts] at hconsumer ⊢
        cases hreader : s.consumer <;> simp only [hreader] at hconsumer ⊢ <;> omega

theorem Counts.stepRead (hsize : 0 < size) (hcounts : s.Counts size written taken) :
    ∃ taken', (s.stepRead size).Counts size written taken' := by
  have hconsumer := hcounts.consumer
  cases hpc : s.consumer with
  | idle =>
      rw [ConsumerCounts, hpc] at hconsumer
      simp only [ProducerConsumerQueue.stepRead, hpc]
      split_ifs
      · exact ⟨taken, hcounts⟩
      · exact ⟨taken, { hcounts with consumer := hconsumer }⟩
  | running =>
      rw [ConsumerCounts, hpc] at hconsumer
      simp only [ProducerConsumerQueue.stepRead, hpc]
      split_ifs with hempty
      · exact ⟨taken, { hcounts with consumer := hconsumer }⟩
      · exact ⟨taken, { hcounts with consumer := ⟨rfl, hcounts.lt_of_ne hempty, hconsumer⟩ }⟩
  | moving currentRead =>
      rw [ConsumerCounts, hpc] at hconsumer
      simp only [ProducerConsumerQueue.stepRead, hpc]
      exact ⟨taken, { hcounts with consumer := hconsumer }⟩
  | destroying currentRead =>
      rw [ConsumerCounts, hpc] at hconsumer
      obtain ⟨hcurrent, hless, hdestroyed⟩ := hconsumer
      simp only [ProducerConsumerQueue.stepRead, hpc]
      exact ⟨taken, { hcounts with
        consumer := ⟨hcurrent, hless, congrArg (· + 1) hdestroyed⟩ }⟩
  | storing currentRead =>
      rw [ConsumerCounts, hpc] at hconsumer
      obtain ⟨hcurrent, hless, hdestroyed⟩ := hconsumer
      have hproducer := hcounts.producer
      have hroom := hcounts.room
      simp only [ProducerConsumerQueue.stepRead, hpc]
      refine ⟨taken + 1, hcounts.writeIndex, ?_, hless, by omega, ?_, hdestroyed⟩
      · rw [hcurrent, hcounts.readIndex, nextRecord_mod hsize]
      · rw [ProducerCounts] at hproducer ⊢
        cases hwriter : s.producer <;> simp only [hwriter] at hproducer ⊢ <;> omega

theorem Counts.step (hsize : 0 < size) (hcounts : s.Counts size written taken) (call : SlotCall τ) :
    ∃ written' taken', (s.step size call).Counts size written' taken' := by
  cases call with
  | write item =>
      obtain ⟨written', hnext⟩ := hcounts.stepWrite hsize item
      exact ⟨written', taken, hnext⟩
  | read =>
      obtain ⟨taken', hnext⟩ := hcounts.stepRead hsize
      exact ⟨written, taken', hnext⟩
  | popFront =>
      rw [ProducerConsumerQueue.step, stepPopFront]
      split
      next hidle =>
        split_ifs with hempty
        · exact ⟨written, taken, hcounts⟩
        · have hconsumer := hcounts.consumer
          rw [ConsumerCounts, hidle] at hconsumer
          exact ⟨written, taken,
            { hcounts with consumer := ⟨rfl, hcounts.lt_of_ne hempty, hconsumer⟩ }⟩
      next =>
        obtain ⟨taken', hnext⟩ := hcounts.stepRead hsize
        exact ⟨written, taken', hnext⟩
  | stop => exact ⟨written, taken, { hcounts with }⟩

theorem destroyUnread_counts (hsize : 0 < size) (rounds taken : ℕ)
    (hwrite : s.writeIndex = written % size) (hle : taken ≤ written)
    (hlap : written < taken + size) (hrounds : written - taken ≤ rounds) :
    (destroyUnread size rounds (taken % size) s).destroyed = s.destroyed + (written - taken) ∧
      (destroyUnread size rounds (taken % size) s).constructed = s.constructed := by
  induction rounds generalizing taken s with
  | zero =>
      have hnone : written - taken = 0 := by omega
      rw [hnone]
      exact ⟨rfl, rfl⟩
  | succ rounds ih =>
      have hends : taken % size = s.writeIndex ↔ written = taken := by
        rw [hwrite, eq_comm, mod_eq_mod_iff_of_lt_lap hle hlap]
      unfold destroyUnread
      split_ifs with hend
      · rw [hends.mp hend, Nat.sub_self]
        exact ⟨rfl, rfl⟩
      · have hless : taken ≠ written := fun hsame => hend (hends.mpr hsame.symm)
        rw [nextRecord_mod hsize]
        obtain ⟨hdestroyed, hconstructed⟩ :=
          ih (s := s.destroy (taken % size)) (taken + 1) hwrite (by omega) (by omega) (by omega)
        rw [hdestroyed, hconstructed]
        have hone : (s.destroy (taken % size)).destroyed = s.destroyed + 1 := rfl
        exact ⟨by omega, rfl⟩

/-- Only the numbers agree in every run. -/
theorem destroyed_eq_constructed [Inhabited τ] (hsize : 0 < size) (calls : List (SlotCall τ))
    (hproducer : (run (step size) (start size) calls).producer = .idle)
    (hconsumer : (run (step size) (start size) calls).consumer = .idle) :
    ((run (step size) (start size) calls).destructor size).destroyed =
      ((run (step size) (start size) calls).destructor size).constructed := by
  obtain ⟨written, taken, hcounts⟩ : ∃ written taken,
      (run (step size) (start size) calls : ProducerConsumerQueue τ).Counts size written taken :=
    run_invariant (fun s : ProducerConsumerQueue τ => ∃ written taken, s.Counts size written taken)
      ⟨0, 0, start_counts hsize⟩ (fun _ call ⟨_, _, hcounts⟩ => hcounts.step hsize call) calls
  have hconstructed := hcounts.producer
  have hdestroyed := hcounts.consumer
  rw [ProducerCounts, hproducer] at hconstructed
  rw [ConsumerCounts, hconsumer] at hdestroyed
  have hroom := hcounts.room
  have hle := hcounts.taken_le
  obtain ⟨hloop, hsame⟩ := destroyUnread_counts hsize size taken hcounts.writeIndex hle hroom
    (by omega)
  obtain ⟨harray, hkept⟩ := foldl_destroy_counts (List.range size).reverse
    (s := destroyUnread size size (taken % size) (run (step size) (start size) calls))
  rw [destructor, hcounts.readIndex, harray, hkept, hloop, hsame, List.length_reverse,
    List.length_range]
  simp only at hconstructed hdestroyed
  omega

end ProducerConsumerQueue

end CppPlay.MultiThread
