import CppPlay.IntegralString.IntegralValueTBit

/-!
# `IntegralValueTMS`

A string as the digits of a number in base `end - begin`, the last character the
lowest digit.  Here too `init` has a branch for constant evaluation, which keeps
the digits in an array of `char`, and one for run time, which asks `isValid`.
-/

namespace CppPlay.IntegralString

structure IntegralValueTMS where
  T : UnsignedType
  rangeBegin : ℕ
  rangeEnd : ℕ
  begin_lt_end : rangeBegin < rangeEnd
  end_lt : rangeEnd < 2 ^ 16
  isShortInputOk : Bool
  throwOnInvalid : Bool

namespace IntegralValueTMS

variable (c : IntegralValueTMS)

def Base : ℕ := c.rangeEnd - c.rangeBegin

def Size : ℕ := c.T.size

/-- The base is a `size_t`, whatever `T` is. -/
def Pows : List ℕ := constevalIntPows sizeBits c.Base c.Size

def invalidValue : c.T.Value := if c.isShortInputOk then c.T.max else 0

def offset (ch : CppChar) : ℤ := ch.toInt - c.rangeBegin

def outOfBase (v : ℤ) : Bool := v < 0 ∨ c.Base ≤ v

def isValid (value : List CppChar) : Bool :=
  if c.Size < value.length then false
  else if value.length < c.Size ∧ ¬ c.isShortInputOk then false
  else value.all fun ch => ¬ c.outOfBase (c.offset ch)

/-- `_value += v * Pows._values[p]`; the product is a `size_t`. -/
def accumulate (value : c.T.Value) (v : ℤ) (p : ℕ) : c.T.Value :=
  value + (BitVec.ofInt sizeBits v * BitVec.ofNat sizeBits (c.Pows.getD p 0)).setWidth c.T.bits

/-! ## The branch of `init` for constant evaluation -/

/-- `arValue[p]`, an `int` again: the offset went through a `char`. -/
def narrowed (ch : CppChar) : ℤ := (BitVec.ofInt 8 (c.offset ch)).toInt

def constantLoop (value : c.T.Value) (p : ℕ) : List ℤ → c.T.Value
  | [] => value
  | v :: rest =>
      if c.outOfBase v then c.invalidValue
      else constantLoop (c.accumulate value v p) (p + 1) rest

def constantInit (value : List CppChar) : Except InitError c.T.Value :=
  if c.Size < value.length then .error .outOfRange
  else .ok (c.constantLoop 0 0 (value.reverse.map c.narrowed))

/-! ## The branch of `init` for run time -/

def runtimeLoop (value : c.T.Value) (p : ℕ) : List ℤ → c.T.Value
  | [] => value
  | v :: rest => runtimeLoop (c.accumulate value v p) (p + 1) rest

/-- `init` and the check that the constructor makes behind it. -/
def runtimeInit (value : List CppChar) : Except InitError c.T.Value :=
  let result :=
    if c.isValid value then c.runtimeLoop 0 0 (value.reverse.map c.offset)
    else c.invalidValue
  if result = c.invalidValue ∧ c.throwOnInvalid then
    .error (.runtimeError "Invalid input string")
  else .ok result

/-! ## The two branches -/

variable {c}

theorem isValid_iff {s : List CppChar} :
    c.isValid s = true ↔
      s.length ≤ c.Size ∧ (c.isShortInputOk = true ∨ s.length = c.Size) ∧
        ∀ ch ∈ s, c.outOfBase (c.offset ch) = false := by
  rw [isValid]
  by_cases hlong : c.Size < s.length
  · simp [hlong]
  · by_cases hshort : s.length < c.Size
    · cases hok : c.isShortInputOk with
      | false =>
          have hne : s.length ≠ c.Size := by omega
          simp [hlong, hshort, hne]
      | true => simp [hlong, hshort.le]
    · have hsame : s.length = c.Size := by omega
      simp [hsame]

theorem constantLoop_of_ne (value : c.T.Value) (p : ℕ) (vs : List ℤ)
    (hvalid : c.constantLoop value p vs ≠ c.invalidValue) :
    (∀ v ∈ vs, c.outOfBase v = false) ∧
      c.constantLoop value p vs = c.runtimeLoop value p vs := by
  induction vs generalizing value p with
  | nil => exact ⟨by simp, rfl⟩
  | cons v rest ih =>
      rw [constantLoop] at hvalid ⊢
      cases hv : c.outOfBase v with
      | true => simp [hv] at hvalid
      | false =>
          simp only [hv, Bool.false_eq_true, if_false] at hvalid ⊢
          have hrest := ih _ _ hvalid
          exact ⟨List.forall_mem_cons.mpr ⟨hv, hrest.1⟩, hrest.2⟩

theorem narrowed_eq {ch : CppChar} (hch : (c.rangeBegin : ℤ) ≤ ch.toInt) :
    c.narrowed ch = c.offset ch := by
  have hlt : ch.toInt < 2 ^ 7 := BitVec.toInt_lt
  rw [narrowed, offset, BitVec.toInt_ofInt]
  apply Int.bmod_eq_of_le
  · omega
  · omega

theorem begin_le_of_outOfBase {ch : CppChar} (hch : c.outOfBase (c.offset ch) = false) :
    (c.rangeBegin : ℤ) ≤ ch.toInt := by
  simp only [outOfBase, decide_eq_false_iff_not, not_or, not_lt, not_le] at hch
  have hpos := hch.1
  rw [offset] at hpos
  omega

/-- When the constant branch packs a string, the run-time branch agrees exactly if
the length is one that `isValid` takes and no offset wrapped around in a `char`. -/
theorem runtimeInit_eq_iff {s : List CppChar} {x : c.T.Value}
    (hconstant : c.constantInit s = .ok x) (hx : x ≠ c.invalidValue) :
    c.runtimeInit s = .ok x ↔
      (c.isShortInputOk = true ∨ s.length = c.Size) ∧
        ∀ ch ∈ s, (c.rangeBegin : ℤ) ≤ ch.toInt := by
  have hlength : ¬ c.Size < s.length := by
    intro hlong
    simp [constantInit, hlong] at hconstant
  rw [constantInit, if_neg hlength, Except.ok.injEq] at hconstant
  rw [← hconstant] at hx
  rcases constantLoop_of_ne 0 0 _ hx with ⟨hdigits, hloop⟩
  constructor
  · intro hruntime
    have hvalid : c.isValid s = true := by
      by_contra hinvalid
      rw [runtimeInit, if_neg hinvalid] at hruntime
      cases hthrow : c.throwOnInvalid with
      | true => simp [hthrow] at hruntime
      | false =>
          simp only [hthrow, Bool.false_eq_true, and_false, if_false,
            Except.ok.injEq] at hruntime
          exact hx (hconstant.trans hruntime.symm)
    rw [isValid_iff] at hvalid
    exact ⟨hvalid.2.1, fun ch hch => begin_le_of_outOfBase (hvalid.2.2 ch hch)⟩
  · intro hgood
    have hsame : s.reverse.map c.narrowed = s.reverse.map c.offset := by
      apply List.map_congr_left
      intro ch hch
      exact narrowed_eq (hgood.2 ch (List.mem_reverse.mp hch))
    rw [hsame] at hloop hdigits hx hconstant
    have hvalid : c.isValid s = true := by
      rw [isValid_iff]
      refine ⟨not_lt.mp hlength, hgood.1, fun ch hch => ?_⟩
      exact hdigits _ (List.mem_map_of_mem (List.mem_reverse.mpr hch))
    rw [hconstant] at hloop hx
    rw [runtimeInit, if_pos hvalid, ← hloop]
    simp only [hx, false_and, if_false]

end IntegralValueTMS

end CppPlay.IntegralString
