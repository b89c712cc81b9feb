import CppPlay.FixAdapter.MsgFromTSParser

/-!
# Progress of the parse loop

Every round of the loop in `parseBody` that goes on has found a complete field,
so it moves by at least the header and one byte and stays inside the body.  The
end of the loop, the number of its rounds and the sign of the difference that
`nextFld` computes all follow from that one step.
-/

namespace CppPlay.FixAdapter

open CppPlay.Lib

namespace MsgFromTSParser

variable {api : Espd}

def withHeader (p : MsgFromTSParser) (length numFields : UInt16) : MsgFromTSParser :=
  { p with bodySize := length.toNat, numFields := numFields }

/-- `max_size` of `nextFld` as the machine computes it: a difference of `size_t` values that is
converted to `int`. -/
def maxSize (p : MsgFromTSParser) : ℤ :=
  ((BitVec.ofNat 64 p.bodySize + BitVec.ofNat 64 sizeofMsgHeader -
    BitVec.ofNat 64 p.offset).setWidth 32).toInt

theorem maxSize_eq {p : MsgFromTSParser} (hoffset : p.offset ≤ p.bodyEnd)
    (hend : p.bodyEnd < 2 ^ 31) : p.maxSize = (p.bodyEnd : ℤ) - p.offset := by
  have hword : BitVec.ofNat 64 p.bodySize + BitVec.ofNat 64 sizeofMsgHeader -
      BitVec.ofNat 64 p.offset = BitVec.ofNat 64 (p.bodyEnd - p.offset) := by
    rw [← BitVec.ofNat_add]
    change BitVec.ofNat 64 p.bodyEnd - BitVec.ofNat 64 p.offset = _
    apply BitVec.eq_of_toNat_eq
    simp only [BitVec.toNat_sub, BitVec.toNat_ofNat]
    omega
  rw [maxSize, hword, BitVec.toInt_eq_toNat_of_lt]
  · rw [BitVec.toNat_setWidth, BitVec.toNat_ofNat]
    omega
  · rw [BitVec.toNat_setWidth, BitVec.toNat_ofNat]
    omega

/-! ## One round -/

variable (api) in
/-- A round of the loop after which the loop goes on: the position is pushed and `nextFld`
returns another one. -/
def LoopStep (p q : MsgFromTSParser) : Prop := p.pushPos.nextFld api = (.nextField, q)

structure Advanced (p q : MsgFromTSParser) : Prop where
  fields_eq : q.fields = p.fields ++ [p.offset]
  bodyEnd_eq : q.bodyEnd = p.bodyEnd
  offset_ge : p.offset + 4 ≤ q.offset
  offset_lt : q.offset < p.bodyEnd

variable (api) in
theorem round_cases {p : MsgFromTSParser} (hoffset : p.offset ≤ p.bodyEnd) :
    (∃ q, LoopStep api p q ∧ Advanced p q) ∨
      ∃ stop q, stop ≠ .nextField ∧ p.pushPos.nextFld api = (stop, q) ∧
        q.fields = p.fields ++ [p.offset] := by
  cases hsize : fieldSize api p.rest with
  | none =>
      obtain ⟨stop, seen, hstop, -, hnext⟩ := nextFld_of_rest (p := p.pushPos) hoffset hsize
      exact .inr ⟨stop, _, hstop, hnext, rfl⟩
  | some n =>
      have hle : n ≤ p.rest.length := (fieldCode api).size_le hsize
      have hhdr := lt_of_fieldSize hsize
      have hend := bodyEnd_eq_of_rest hoffset
      rcases Nat.lt_or_eq_of_le hle with hlt | hlast
      · obtain ⟨seen, -, hnext⟩ := nextFld_of_word_lt (p := p.pushPos) hoffset hsize hlt
        refine .inl ⟨_, hnext, rfl, rfl, ?_, ?_⟩
        · change p.offset + 4 ≤ p.offset + n
          simp only [sizeofFldHdr] at hhdr
          omega
        · change p.offset + n < p.bodyEnd
          omega
      · obtain ⟨seen, -, hnext⟩ := nextFld_of_word_eq (p := p.pushPos) hoffset hsize hlast
        exact .inr ⟨_, _, by simp, hnext, rfl⟩

theorem advanced_of_loopStep {p q : MsgFromTSParser} (hoffset : p.offset ≤ p.bodyEnd)
    (hstep : LoopStep api p q) : Advanced p q := by
  rcases round_cases api hoffset with ⟨q', hstep', hadvanced⟩ | ⟨stop, q', hstop, hnext, -⟩
  · have hsame : q' = q := congrArg Prod.snd (hstep'.symm.trans hstep)
    exact hsame ▸ hadvanced
  · exact absurd (congrArg Prod.fst (hnext.symm.trans hstep)) hstop

/-! ## The whole loop -/

theorem offset_le_of_rounds {p q : MsgFromTSParser} (hoffset : p.offset ≤ p.bodyEnd)
    (hrounds : Relation.ReflTransGen (LoopStep api) p q) :
    q.offset ≤ q.bodyEnd ∧ q.bodyEnd = p.bodyEnd := by
  induction hrounds with
  | refl => exact ⟨hoffset, rfl⟩
  | tail _ hstep ih =>
      have hadvanced := advanced_of_loopStep ih.1 hstep
      have hlt := hadvanced.offset_lt
      rw [hadvanced.bodyEnd_eq]
      exact ⟨by omega, ih.2⟩

variable (api) in
/-- A quarter of what is left of the body bounds the rounds that are still to come. -/
theorem parseLoop_advances (fuel : ℕ) {p : MsgFromTSParser} (hoffset : p.offset ≤ p.bodyEnd)
    (hfuel : (p.bodyEnd - p.offset) / 4 < fuel) :
    ∃ stop q later, parseLoop api fuel p = some (stop, q) ∧
      q.fields = p.fields ++ p.offset :: later ∧
      List.IsChain (fun pos next => pos + 4 ≤ next) (p.offset :: later) ∧
      later.length ≤ (p.bodyEnd - p.offset) / 4 := by
  induction fuel generalizing p with
  | zero => omega
  | succ fuel ih =>
      rcases round_cases api hoffset with ⟨next, hstep, hadvanced⟩ | ⟨stop, q, hstop, hlast, hq⟩
      · have hend := hadvanced.bodyEnd_eq
        have hge := hadvanced.offset_ge
        have hlt := hadvanced.offset_lt
        obtain ⟨stop, q, later, hloop, hfields, hchain, hcount⟩ := ih (p := next)
          (by omega) (by omega)
        refine ⟨stop, q, next.offset :: later, ?_, ?_, ?_, ?_⟩
        · rw [parseLoop, hstep]
          exact hloop
        · rw [hfields, hadvanced.fields_eq, List.append_assoc, List.singleton_append]
        · exact List.IsChain.cons_cons hge hchain
        · rw [List.length_cons]
          omega
      · exact ⟨stop, q, [], parseLoop_of_stop hstop hlast, hq, List.IsChain.singleton _,
          Nat.zero_le _⟩

/-- The loop ends after at most `bodySize / 4 + 1` rounds, each at least four bytes behind the
one before, and `nextFld` never computes a negative difference. -/
theorem parseBody_advances (api : Espd) (p : MsgFromTSParser) (length numFields : UInt16) :
    (∃ stop q pushed, parseBody api (p.withHeader length numFields) = some (stop, q) ∧
        q.fields = p.fields ++ pushed ∧
        List.IsChain (fun pos next => pos + 4 ≤ next) pushed ∧
        pushed.length ≤ length.toNat / 4 + 1) ∧
      ∀ q, Relation.ReflTransGen (LoopStep api) (p.withHeader length numFields).firstFld q →
        0 ≤ q.pushPos.maxSize ∧
          q.pushPos.maxSize = (length.toNat + sizeofMsgHeader : ℤ) - q.offset := by
  have hoffset : (p.withHeader length numFields).firstFld.offset ≤
      (p.withHeader length numFields).firstFld.bodyEnd := Nat.le_add_left _ _
  have hdistance : (p.withHeader length numFields).firstFld.bodyEnd -
      (p.withHeader length numFields).firstFld.offset = length.toNat := Nat.add_sub_cancel _ _
  constructor
  · obtain ⟨stop, q, later, hloop, hfields, hchain, hcount⟩ :=
      parseLoop_advances api (length.toNat + 1) hoffset (by omega)
    refine ⟨stop, q, _, hloop, hfields, hchain, ?_⟩
    rw [List.length_cons]
    omega
  · intro q hrounds
    obtain ⟨hinside, hend⟩ := offset_le_of_rounds hoffset hrounds
    have hbody : q.bodyEnd = length.toNat + sizeofMsgHeader := hend
    have hlength := length.toNat_lt
    have hsize : q.pushPos.maxSize = (q.bodyEnd : ℤ) - q.offset := by
      refine maxSize_eq hinside ?_
      change q.bodyEnd < 2 ^ 31
      simp only [sizeofMsgHeader] at hbody
      omega
    rw [hsize, hbody]
    refine ⟨?_, by push_cast; rfl⟩
    rw [hbody] at hinside
    omega

end MsgFromTSParser

end CppPlay.FixAdapter
