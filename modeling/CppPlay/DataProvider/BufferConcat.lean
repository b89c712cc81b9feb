import CppPlay.DataProvider.Message

/-!
# Concatenation of buffers

`getPtr` goes through `at(0)`, which throws while the vector has no element.  `setSize`
allocates one more scalar than the bytes need, so after it there always is one; a
buffer that was never given a size has none.
-/

namespace CppPlay.DataProvider

open CppPlay.Lib

namespace MaxAlignedBuffer

/-- Nothing is the exception of `at(0)`. -/
def getPtr (buffer : MaxAlignedBuffer) : Option (Memory Byte) :=
  if buffer.capacity = 0 then none else some buffer.storage

/-- The statements of both overloads of `operator+`. -/
def concat (l r : MaxAlignedBuffer) : Option MaxAlignedBuffer := do
  let out := empty.setSize (l.size + r.size)
  let _ ← out.getPtr
  let lPtr ← l.getPtr
  let out := out.memcpy 0 (lPtr.read 0 l.size)
  let _ ← out.getPtr
  let rPtr ← r.getPtr
  return out.memcpy l.size (rPtr.read 0 r.size)

def plus (l r : MaxAlignedBuffer) : Option MaxAlignedBuffer := concat l r

end MaxAlignedBuffer

/-- A pointer to a buffer, not null. -/
structure BufferPtr where
  pointee : MaxAlignedBuffer

def BufferPtr.plus (l r : BufferPtr) : Option BufferPtr :=
  (MaxAlignedBuffer.concat l.pointee r.pointee).map BufferPtr.mk

namespace MaxAlignedBuffer

/-- The buffers that the public operations make, where the allocations succeed. -/
inductive Built : MaxAlignedBuffer → Prop
  | default : Built empty
  | setSize {buffer : MaxAlignedBuffer} (size : ℕ) : Built buffer → Built (buffer.setSize size)
  | setBuffer {buffer : MaxAlignedBuffer} (src : List Byte) :
      Built buffer → Built (buffer.setBuffer src)
  | plus {l r out : MaxAlignedBuffer} : Built l → Built r → plus l r = some out → Built out

structure Concatenates (a b c : MaxAlignedBuffer) : Prop where
  sum : ∃ ab, plus a b = some ab ∧ ab.size = a.size + b.size ∧
    ab.contents = a.contents ++ b.contents
  pointers : ∃ ab, BufferPtr.plus ⟨a⟩ ⟨b⟩ = some ab ∧ ab.pointee.contents = a.contents ++ b.contents
  assoc : ∃ l r, (plus a b).bind (fun ab => plus ab c) = some l ∧
    (plus b c).bind (fun bc => plus a bc) = some r ∧ l.size = r.size ∧ l.contents = r.contents
  right_neutral : b = empty → ∃ ab, plus a b = some ab ∧ ab.contents = a.contents
  left_neutral : a = empty → ∃ ab, plus a b = some ab ∧ ab.contents = b.contents
  room : a.size ≤ a.capacity ∧ b.size ≤ b.capacity ∧ c.size ≤ c.capacity

theorem allocated_ne_zero (size : ℕ) : allocated size ≠ 0 := by
  unfold allocated sizeofScalar
  omega

theorem getPtr_of_pos {buffer : MaxAlignedBuffer} (hcapacity : buffer.capacity ≠ 0) :
    buffer.getPtr = some buffer.storage := if_neg hcapacity

theorem getPtr_of_zero {buffer : MaxAlignedBuffer} (hcapacity : buffer.capacity = 0) :
    buffer.getPtr = none := if_pos hcapacity

/-- Both operands need an element, also where none of its bytes is copied. -/
theorem concat_eq (l r : MaxAlignedBuffer) :
    concat l r = if l.capacity = 0 ∨ r.capacity = 0 then none else some (l + r) := by
  have hout : (empty.setSize (l.size + r.size)).getPtr =
      some (empty.setSize (l.size + r.size)).storage :=
    getPtr_of_pos (allocated_ne_zero _)
  have hout' : ∀ bytes : List Byte, ((empty.setSize (l.size + r.size)).memcpy 0 bytes).getPtr =
      some ((empty.setSize (l.size + r.size)).memcpy 0 bytes).storage :=
    fun bytes => getPtr_of_pos (allocated_ne_zero _)
  rw [concat]
  by_cases hl : l.capacity = 0
  · simp [hout, getPtr_of_zero hl, hl]
  · by_cases hr : r.capacity = 0
    · simp [hout, hout', getPtr_of_zero hr, getPtr_of_pos hl, hr]
    · simp only [hout, hout', getPtr_of_pos hl, getPtr_of_pos hr, hl, hr, or_self, if_false]
      rfl

theorem plus_eq_some_iff {l r out : MaxAlignedBuffer} :
    plus l r = some out ↔ l.capacity ≠ 0 ∧ r.capacity ≠ 0 ∧ out = l + r := by
  rw [plus, concat_eq]
  split_ifs with hzero
  · rcases hzero with hl | hr
    · simp [hl]
    · simp [hr]
  · rw [not_or] at hzero
    simp [hzero, eq_comm]

theorem capacity_add_ne_zero (l r : MaxAlignedBuffer) : (l + r).capacity ≠ 0 :=
  allocated_ne_zero _

theorem Built.capacity_eq_zero_iff {buffer : MaxAlignedBuffer} (hbuilt : Built buffer) :
    buffer.capacity = 0 ↔ buffer = empty := by
  constructor
  · intro hzero
    cases hbuilt with
    | default => rfl
    | setSize size _ => exact absurd hzero (allocated_ne_zero size)
    | setBuffer src _ => exact absurd hzero (allocated_ne_zero src.length)
    | plus _ _ hplus =>
        rw [(plus_eq_some_iff.mp hplus).2.2] at hzero
        exact absurd hzero (capacity_add_ne_zero _ _)
  · rintro rfl
    rfl

theorem size_add (l r : MaxAlignedBuffer) : (l + r).size = l.size + r.size := rfl

/-- Concatenation keeps its promises exactly for buffers that were given a size. -/
theorem concatenates_iff {a b c : MaxAlignedBuffer} (ha : Built a) (hb : Built b) (hc : Built c) :
    (Concatenates a b c ↔ a ≠ empty ∧ b ≠ empty ∧ c ≠ empty) ∧
      plus a empty = none ∧ plus empty a = none := by
  have hnone : ∀ buffer : MaxAlignedBuffer, plus buffer empty = none ∧ plus empty buffer = none := by
    intro buffer
    rw [plus, plus, concat_eq, concat_eq]
    exact ⟨if_pos (.inr rfl), if_pos (.inl rfl)⟩
  refine ⟨?_, hnone a⟩
  rw [Ne, Ne, Ne, ← ha.capacity_eq_zero_iff, ← hb.capacity_eq_zero_iff, ← hc.capacity_eq_zero_iff]
  constructor
  · intro hlaws
    obtain ⟨ab, hab, _⟩ := hlaws.sum
    obtain ⟨ha', hb', _⟩ := plus_eq_some_iff.mp hab
    obtain ⟨l, r, hl, _⟩ := hlaws.assoc
    rw [hab, Option.bind_some] at hl
    exact ⟨ha', hb', (plus_eq_some_iff.mp hl).2.1⟩
  · rintro ⟨ha', hb', hc'⟩
    have hab : plus a b = some (a + b) := plus_eq_some_iff.mpr ⟨ha', hb', rfl⟩
    have hbc : plus b c = some (b + c) := plus_eq_some_iff.mpr ⟨hb', hc', rfl⟩
    have hpointers : BufferPtr.plus ⟨a⟩ ⟨b⟩ = some ⟨a + b⟩ := by
      rw [BufferPtr.plus, ← plus, hab, Option.map_some]
    refine ⟨⟨_, hab, rfl, contents_add a b⟩, ⟨_, hpointers, contents_add a b⟩,
      ⟨a + b + c, a + (b + c), ?_, ?_, ?_, ?_⟩, ?_, ?_, a.size_le, b.size_le, c.size_le⟩
    · rw [hab, Option.bind_some]
      exact plus_eq_some_iff.mpr ⟨capacity_add_ne_zero a b, hc', rfl⟩
    · rw [hbc, Option.bind_some]
      exact plus_eq_some_iff.mpr ⟨ha', capacity_add_ne_zero b c, rfl⟩
    · rw [size_add, size_add, size_add, size_add, Nat.add_assoc]
    · rw [contents_add, contents_add, contents_add, contents_add, List.append_assoc]
    · rintro rfl
      exact absurd rfl hb'
    · rintro rfl
      exact absurd rfl ha'

/-- Three bytes, a whole scalar and one byte more, and a buffer of size zero. -/
theorem concatenates_threeSizes :
    let a := empty.setBuffer [1, 2, 3]
    let b := empty.setBuffer (List.replicate 17 7)
    let c := (empty.setBuffer [4]).setSize 0
    Concatenates a b c ∧ (a + b + c).contents = [1, 2, 3] ++ List.replicate 17 7 ∧
      plus a empty = none ∧ plus empty a = none := by
  intro a b c
  have ha : Built a := .setBuffer _ .default
  have hb : Built b := .setBuffer _ .default
  have hc : Built c := .setSize 0 (.setBuffer _ .default)
  have hnone : a ≠ empty ∧ b ≠ empty ∧ c ≠ empty := by
    rw [Ne, Ne, Ne, ← ha.capacity_eq_zero_iff, ← hb.capacity_eq_zero_iff,
      ← hc.capacity_eq_zero_iff]
    exact ⟨allocated_ne_zero _, allocated_ne_zero _, allocated_ne_zero _⟩
  obtain ⟨hlaws, hempty⟩ := concatenates_iff ha hb hc
  refine ⟨hlaws.mpr hnone, ?_, hempty⟩
  have hzero : c.contents = [] := Memory.read_zero _ _
  rw [contents_add, contents_add, contents_setBuffer, contents_setBuffer, hzero, List.append_nil]

/-- A default-constructed buffer behind one of a byte. -/
theorem not_concatenates_default :
    ¬ ∀ a b c : MaxAlignedBuffer, Built a → Built b → Built c → Concatenates a b c := by
  intro hall
  have hbuilt : Built (empty.setBuffer [1]) := .setBuffer _ .default
  obtain ⟨ab, hab, _⟩ := (hall (empty.setBuffer [1]) empty empty hbuilt .default .default).sum
  exact (plus_eq_some_iff.mp hab).2.1 rfl

end MaxAlignedBuffer

end CppPlay.DataProvider
