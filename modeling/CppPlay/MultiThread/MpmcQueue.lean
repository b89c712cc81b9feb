import CppPlay.Lib.BoundedQueue
import CppPlay.Lib.RingWindow
import CppPlay.Lib.Run
import CppPlay.Lib.Threads
import Mathlib.Data.Nat.Size

/-!
# The lock-free queue of many producers and consumers

A slot carries a sequence number: twice the position that may be pushed there, and one
more when it holds the item of that position.  A push or a pop is one compare-and-swap
of a slot; the two indexes are hints that every thread helps to advance.  Sequence
numbers and indexes are words, so that a thread that sleeps long enough can be deceived.
-/

namespace CppPlay.MultiThread

open CppPlay.Lib

/-- The template arguments, with the size that the constructor gets. -/
structure MpmcConfig where
  bits_in_index : ℕ
  capacity : ℕ
  lazy_push : Bool
  lazy_pop : Bool

def bits_for_value (n : ℕ) : ℕ :=
  if hzero : n = 0 then 0 else bits_for_value (n >>> 1) + 1
  termination_by n
  decreasing_by
    rw [Nat.shiftRight_one]
    omega

/-- The check of the constructor and of the class. -/
def MpmcConfig.admitted (c : MpmcConfig) : Bool :=
  !((c.capacity &&& (c.capacity - 1)) != 0 ||
    decide (c.bits_in_index ≤ bits_for_value c.capacity))

structure MpmcEntry (α : Type) where
  data : α
  seq : ℕ
deriving DecidableEq

/-- The calls that pop or look, `lost` being the pop of a `push_keep_n`. -/
inductive MpmcReader (α : Type) where
  | pop
  | lost (d : α)
  | pop_if (f : α → ℕ → Bool)
  | peek
  | empty

inductive MpmcCall (α : Type) where
  | push (d : α)
  | push_keep_n (d : α)
  | read (reader : MpmcReader α)
  | exchange (i : ℕ) (old_value new_value : α)

/-- Where a thread stands.  `keep` tells a push of `push_keep_n`; `stored` and `took` have
done their compare-and-swap of the slot and go on to the index. -/
inductive MpmcPc (α : Type) where
  | idle
  | push (keep : Bool) (d : α)
  | seq (keep : Bool) (d : α) (wr_index : ℕ)
  | store (keep : Bool) (d : α) (wr_index : ℕ)
  | helpWrite (keep : Bool) (d : α) (wr_index : ℕ)
  | stored (wr_index : ℕ)
  | read (reader : MpmcReader α)
  | entry (reader : MpmcReader α) (rd_index : ℕ)
  | take (reader : MpmcReader α) (rd_index : ℕ) (e : MpmcEntry α)
  | helpRead (reader : MpmcReader α) (rd_index : ℕ)
  | took (reader : MpmcReader α) (rd_index : ℕ)

/-- The queue with its threads.  `writes` and `reads` count how often the indexes were
advanced, and `loaded` is the count that a thread found when it loaded its index. -/
structure MpmcQueue (ι α : Type) where
  write_index : ℕ
  read_index : ℕ
  array : ℕ → MpmcEntry α
  pc : ι → MpmcPc α
  writes : ℕ
  reads : ℕ
  loaded : ι → ℕ
  seen : List (ι × Observation α)

namespace MpmcQueue

variable {ι α : Type}

def start (c : MpmcConfig) [Zero α] : MpmcQueue ι α :=
  ⟨0, 0, fun i => ⟨0, (i <<< 1) % 2 ^ c.bits_in_index⟩, fun _ => .idle, 0, 0, fun _ => 0, []⟩

/-! ## The words of an index -/

def emptySeq (c : MpmcConfig) (index : ℕ) : ℕ := (index <<< 1) % 2 ^ c.bits_in_index

def fullSeq (c : MpmcConfig) (index : ℕ) : ℕ := ((index <<< 1) ||| 1) % 2 ^ c.bits_in_index

/-- What a reader does with the entry it has loaded. -/
inductive Found where
  | none
  | front
  | take
  | help
  | retry
  | notEmpty

def found (c : MpmcConfig) (reader : MpmcReader α) (rd_index : ℕ) (e : MpmcEntry α) : Found :=
  match reader with
  | .pop | .lost _ =>
      if e.seq = fullSeq c rd_index then .take
      else if e.seq ||| 1 = fullSeq c (rd_index + c.capacity) then .help
      else if e.seq = emptySeq c rd_index then .none
      else .retry
  | .pop_if f =>
      if e.seq = emptySeq c rd_index then .none
      else if e.seq = fullSeq c rd_index then
        if f e.data e.seq then .take else .front
      else if e.seq >>> 1 = (rd_index + c.capacity) % 2 ^ c.bits_in_index then .help
      else .retry
  | .peek =>
      if e.seq = emptySeq c rd_index then .none
      else if e.seq = fullSeq c rd_index then .front
      else if e.seq >>> 1 = (rd_index + c.capacity) % 2 ^ c.bits_in_index then .help
      else .retry
  | .empty => if e.seq = emptySeq c rd_index then .none else .notEmpty

/-- Where a reader goes when its call returns: `push_keep_n` tries its push again. -/
def afterRead : MpmcReader α → MpmcPc α
  | .lost d => .push true d
  | _ => .idle

section Step

variable [DecidableEq ι]

def goTo (s : MpmcQueue ι α) (t : ι) (pc : MpmcPc α) : MpmcQueue ι α :=
  { s with pc := Function.update s.pc t pc }

def observe (s : MpmcQueue ι α) (t : ι) (o : Observation α) : MpmcQueue ι α :=
  { s with seen := s.seen ++ [(t, o)] }

def setEntry (c : MpmcConfig) (s : MpmcQueue ι α) (index : ℕ) (e : MpmcEntry α) :
    MpmcQueue ι α :=
  { s with array := Function.update s.array (index % c.capacity) e }

def loadWrite (s : MpmcQueue ι α) (t : ι) : MpmcQueue ι α :=
  { s with loaded := Function.update s.loaded t s.writes }

def loadRead (s : MpmcQueue ι α) (t : ι) : MpmcQueue ι α :=
  { s with loaded := Function.update s.loaded t s.reads }

/-- `_write_index.compare_exchange_strong(wr_index, wr_index + 1)` -/
def advanceWrite (c : MpmcConfig) (s : MpmcQueue ι α) (wr_index : ℕ) : MpmcQueue ι α :=
  if s.write_index = wr_index then
    { s with write_index := (wr_index + 1) % 2 ^ c.bits_in_index, writes := s.writes + 1 }
  else s

def advanceRead (c : MpmcConfig) (s : MpmcQueue ι α) (rd_index : ℕ) : MpmcQueue ι α :=
  if s.read_index = rd_index then
    { s with read_index := (rd_index + 1) % 2 ^ c.bits_in_index, reads := s.reads + 1 }
  else s

variable [DecidableEq α] [Zero α]

def exchange (c : MpmcConfig) (s : MpmcQueue ι α) (t : ι) (i : ℕ) (old_value new_value : α) :
    MpmcQueue ι α :=
  if s.array (i % c.capacity) = ⟨old_value, fullSeq c i⟩ then
    (s.setEntry c i ⟨new_value, fullSeq c i⟩).observe t (.exchanged i old_value new_value)
  else s.observe t (.differs i old_value)

def begin (c : MpmcConfig) (s : MpmcQueue ι α) (t : ι) : MpmcCall α → MpmcQueue ι α
  | .push d => s.goTo t (.push false d)
  | .push_keep_n d => s.goTo t (.push true d)
  | .read reader => s.goTo t (.read reader)
  | .exchange i old_value new_value => s.exchange c t i old_value new_value

/-- The next step of a thread; the call counts when the thread is idle. -/
def step (c : MpmcConfig) (s : MpmcQueue ι α) (input : ι × MpmcCall α) : MpmcQueue ι α :=
  let t := input.1
  match s.pc t with
  | .idle => s.begin c t input.2
  | .push keep d => (s.loadWrite t).goTo t (.seq keep d s.write_index)
  | .seq keep d wr_index =>
      let seq := (s.array (wr_index % c.capacity)).seq
      if seq = emptySeq c wr_index then s.goTo t (.store keep d wr_index)
      else if seq = fullSeq c wr_index ∨ seq = emptySeq c (wr_index + c.capacity) then
        s.goTo t (.helpWrite keep d wr_index)
      else if (seq + (c.capacity <<< 1)) % 2 ^ c.bits_in_index = fullSeq c wr_index then
        (s.observe t .full).goTo t (if keep then .read (.lost d) else .idle)
      else s.goTo t (.push keep d)
  | .store keep d wr_index =>
      if s.array (wr_index % c.capacity) = ⟨0, emptySeq c wr_index⟩ then
        ((s.setEntry c wr_index ⟨d, fullSeq c wr_index⟩).observe t (.pushed d wr_index)).goTo t
          (if c.lazy_push then .idle else .stored wr_index)
      else s.goTo t (.push keep d)
  | .helpWrite keep d wr_index => (s.advanceWrite c wr_index).goTo t (.push keep d)
  | .stored wr_index => (s.advanceWrite c wr_index).goTo t .idle
  | .read reader => (s.loadRead t).goTo t (.entry reader s.read_index)
  | .entry reader rd_index =>
      let e := s.array (rd_index % c.capacity)
      match found c reader rd_index e with
      | .none => (s.observe t .empty).goTo t (afterRead reader)
      | .front => (s.observe t (.front e.data)).goTo t (afterRead reader)
      | .take => s.goTo t (.take reader rd_index e)
      | .help => s.goTo t (.helpRead reader rd_index)
      | .retry => s.goTo t (.read reader)
      | .notEmpty => (s.observe t (.notEmpty rd_index)).goTo t (afterRead reader)
  | .take reader rd_index e =>
      if s.array (rd_index % c.capacity) = e then
        ((s.setEntry c rd_index ⟨0, emptySeq c (rd_index + c.capacity)⟩).observe t
          (.popped e.data rd_index)).goTo t
          (if c.lazy_pop then afterRead reader else .took reader rd_index)
      else s.goTo t (.read reader)
  | .helpRead reader rd_index => (s.advanceRead c rd_index).goTo t (.read reader)
  | .took reader rd_index => (s.advanceRead c rd_index).goTo t (afterRead reader)

end Step

/-! ## What the constructor admits -/

theorem bits_for_value_eq_size (n : ℕ) : bits_for_value n = n.size := by
  induction n using Nat.binaryRec' with
  | zero => rw [bits_for_value, dif_pos rfl, Nat.size_zero]
  | bit b n hbit ih =>
      have hne : Nat.bit b n ≠ 0 := by
        rw [Ne, Nat.bit_eq_zero_iff]
        rintro ⟨hn, hb⟩
        exact absurd (hbit hn) (by simp [hb])
      rw [bits_for_value, dif_neg hne, Nat.bit_shiftRight_one, ih, Nat.size_bit hne]

end MpmcQueue

/-- Sequence numbers have one bit less for the position than an index has. -/
def MpmcConfig.period (c : MpmcConfig) : ℕ := 2 ^ (c.bits_in_index - 1)

/-- What the algorithm needs of the size: the positions of a slot are those of one residue,
also when they are read off a sequence number. -/
structure MpmcConfig.Sized (c : MpmcConfig) : Prop where
  bits_pos : 0 < c.bits_in_index
  capacity_pos : 0 < c.capacity
  capacity_dvd : c.capacity ∣ c.period
  capacity_lt : c.capacity < c.period

namespace MpmcQueue

variable {c : MpmcConfig}

/-- A size is admitted if it is zero or a power of two that is at most a quarter of the range of
the indexes. -/
theorem admitted_iff : c.admitted = true ↔
    (c.capacity = 0 ∧ 0 < c.bits_in_index) ∨
      ∃ k, c.capacity = 2 ^ k ∧ k + 1 < c.bits_in_index := by
  rw [MpmcConfig.admitted, Bool.not_eq_true', Bool.or_eq_false_iff, bne_eq_false_iff_eq,
    decide_eq_false_iff_not, Nat.not_le, bits_for_value_eq_size]
  by_cases hzero : c.capacity = 0
  · have hpow : ∀ k, 0 ≠ 2 ^ k := fun k => (Nat.two_pow_pos k).ne
    simp [hzero, hpow, Nat.size_zero]
  · rw [Nat.and_sub_one_eq_zero_iff_isPowerOfTwo hzero]
    constructor
    · rintro ⟨⟨k, hk⟩, hbits⟩
      rw [hk, Nat.size_pow] at hbits
      exact .inr ⟨k, hk, hbits⟩
    · rintro (⟨h, _⟩ | ⟨k, hk, hbits⟩)
      · exact absurd h hzero
      · rw [hk, Nat.size_pow]
        exact ⟨⟨k, rfl⟩, hbits⟩

theorem sized_of_admitted (hadmitted : c.admitted = true) (hcapacity : c.capacity ≠ 0) :
    c.Sized := by
  rcases admitted_iff.mp hadmitted with ⟨hzero, _⟩ | ⟨k, hk, hbits⟩
  · exact absurd hzero hcapacity
  · constructor
    · exact Nat.zero_lt_of_lt hbits
    · exact Nat.pos_of_ne_zero hcapacity
    · rw [hk]
      exact pow_dvd_pow 2 (by omega)
    · rw [hk]
      exact Nat.pow_lt_pow_right (by omega) (by omega)

/-! ## Sequence numbers -/

section Words

variable (hsized : c.Sized)

include hsized

theorem two_pow_bits : 2 ^ c.bits_in_index = 2 * c.period := by
  have hbits := hsized.bits_pos
  rw [MpmcConfig.period, ← pow_succ', Nat.sub_add_cancel hbits]

theorem emptySeq_eq (index : ℕ) : emptySeq c index = 2 * (index % c.period) := by
  rw [emptySeq, Nat.shiftLeft_eq, pow_one, mul_comm, two_pow_bits hsized, Nat.mul_mod_mul_left]

theorem fullSeq_eq (index : ℕ) : fullSeq c index = 2 * (index % c.period) + 1 := by
  have hor : (index <<< 1) ||| 1 = 2 * index + 1 := by
    rw [← Nat.shiftLeft_add_eq_or_of_lt Nat.one_lt_two, Nat.shiftLeft_eq, pow_one, mul_comm]
  rw [fullSeq, hor, two_pow_bits hsized, Nat.mod_mul, Nat.mul_add_mod, Nat.one_mod,
    Nat.mul_add_div Nat.two_pos, add_comm]
  rfl

theorem emptySeq_inj {i j : ℕ} : emptySeq c i = emptySeq c j ↔ i % c.period = j % c.period := by
  rw [emptySeq_eq hsized, emptySeq_eq hsized]
  omega

theorem fullSeq_inj {i j : ℕ} : fullSeq c i = fullSeq c j ↔ i % c.period = j % c.period := by
  rw [fullSeq_eq hsized, fullSeq_eq hsized]
  omega

theorem emptySeq_ne_fullSeq (i j : ℕ) : emptySeq c i ≠ fullSeq c j := by
  rw [emptySeq_eq hsized, fullSeq_eq hsized]
  omega

theorem emptySeq_or_one (i : ℕ) : emptySeq c i ||| 1 = fullSeq c i := by
  rw [emptySeq_eq hsized, fullSeq_eq hsized, mul_comm, ← pow_one 2, ← Nat.shiftLeft_eq,
    ← Nat.shiftLeft_add_eq_or_of_lt Nat.one_lt_two]

theorem fullSeq_or_one (i : ℕ) : fullSeq c i ||| 1 = fullSeq c i := by
  rw [← emptySeq_or_one hsized, Nat.or_assoc, Nat.or_self]

theorem emptySeq_shiftRight (i : ℕ) : emptySeq c i >>> 1 = i % c.period := by
  rw [emptySeq_eq hsized, Nat.shiftRight_one]
  omega

theorem fullSeq_shiftRight (i : ℕ) : fullSeq c i >>> 1 = i % c.period := by
  rw [fullSeq_eq hsized, Nat.shiftRight_one]
  omega

theorem emptySeq_add (i : ℕ) :
    (emptySeq c i + (c.capacity <<< 1)) % 2 ^ c.bits_in_index = emptySeq c (i + c.capacity) := by
  rw [emptySeq_eq hsized, emptySeq_eq hsized, Nat.shiftLeft_eq, pow_one, mul_comm c.capacity,
    ← mul_add, two_pow_bits hsized, Nat.mul_mod_mul_left, Nat.mod_add_mod]

theorem fullSeq_add (i : ℕ) :
    (fullSeq c i + (c.capacity <<< 1)) % 2 ^ c.bits_in_index = fullSeq c (i + c.capacity) := by
  have heven := emptySeq_add hsized i
  have hlt : (i + c.capacity) % c.period < c.period := Nat.mod_lt _ (Nat.two_pow_pos _)
  rw [emptySeq_eq hsized, emptySeq_eq hsized, two_pow_bits hsized] at heven
  rw [fullSeq_eq hsized, fullSeq_eq hsized, two_pow_bits hsized, add_right_comm,
    ← Nat.mod_add_mod, heven]
  exact Nat.mod_eq_of_lt (by omega)

theorem mod_bits_mod_period (i : ℕ) : i % 2 ^ c.bits_in_index % c.period = i % c.period := by
  rw [two_pow_bits hsized]
  exact Nat.mod_mod_of_dvd i (dvd_mul_left _ _)

theorem emptySeq_mod (i : ℕ) : emptySeq c (i % 2 ^ c.bits_in_index) = emptySeq c i :=
  (emptySeq_inj hsized).mpr (mod_bits_mod_period hsized i)

theorem fullSeq_mod (i : ℕ) : fullSeq c (i % 2 ^ c.bits_in_index) = fullSeq c i :=
  (fullSeq_inj hsized).mpr (mod_bits_mod_period hsized i)

theorem emptySeq_mod_add (i k : ℕ) :
    emptySeq c (i % 2 ^ c.bits_in_index + k) = emptySeq c (i + k) := by
  rw [emptySeq_inj hsized, ← Nat.mod_add_mod, mod_bits_mod_period hsized, Nat.mod_add_mod]

theorem fullSeq_mod_add (i k : ℕ) :
    fullSeq c (i % 2 ^ c.bits_in_index + k) = fullSeq c (i + k) := by
  rw [fullSeq_inj hsized, ← Nat.mod_add_mod, mod_bits_mod_period hsized, Nat.mod_add_mod]

theorem slot_eq_of_mod_period {i j : ℕ} (hmod : i % c.period = j % c.period) :
    i % c.capacity = j % c.capacity := by
  rw [← Nat.mod_mod_of_dvd i hsized.capacity_dvd, hmod, Nat.mod_mod_of_dvd j hsized.capacity_dvd]

theorem slot_mod (i : ℕ) : i % 2 ^ c.bits_in_index % c.capacity = i % c.capacity :=
  slot_eq_of_mod_period hsized (mod_bits_mod_period hsized i)

end Words

end MpmcQueue

end CppPlay.MultiThread
