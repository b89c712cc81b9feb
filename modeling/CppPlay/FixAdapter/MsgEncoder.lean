import CppPlay.FixAdapter.FieldType

/-!
# Encoding a message for the trading system

`FieldEncoder` and `MsgEncoder` of `msg_encoder.h`.  The encoder's state
survives an exception, so the operations run in `EStateM`; every one of them has
a lemma that says when it succeeds and which bytes it has then written.
-/

namespace CppPlay.FixAdapter

open CppPlay.Lib

structure MsgEncoder where
  data : Memory Byte
  offset : ℕ
  numFields : UInt16

abbrev Enc := EStateM CppException MsgEncoder

structure Field where
  id : FieldId
  value : FieldValue
  idType_eq : idType id = some value.type

def bufferTooSmall : CppException :=
  .fixError "Cannot append to the buffer. Buffer is too small. "

def MsgEncoder.wrote (s : MsgEncoder) (bytes : List Byte) : MsgEncoder :=
  { s with
    data := s.data.write s.offset bytes
    offset := s.offset + bytes.length }

@[simp] theorem MsgEncoder.wrote_offset (s : MsgEncoder) (bytes : List Byte) :
    (s.wrote bytes).offset = s.offset + bytes.length := rfl

@[simp] theorem MsgEncoder.wrote_numFields (s : MsgEncoder) (bytes : List Byte) :
    (s.wrote bytes).numFields = s.numFields := rfl

theorem MsgEncoder.wrote_append (s : MsgEncoder) (bytes bytes' : List Byte) :
    s.wrote (bytes ++ bytes') = (s.wrote bytes).wrote bytes' := by
  simp [MsgEncoder.wrote, Memory.write_append, Nat.add_assoc]

def MsgEncoder.wroteField (s : MsgEncoder) (bytes : List Byte) : MsgEncoder :=
  { s.wrote bytes with numFields := s.numFields + 1 }

@[simp] theorem MsgEncoder.wroteField_offset (s : MsgEncoder) (bytes : List Byte) :
    (s.wroteField bytes).offset = s.offset + bytes.length := rfl

section Encoder

variable (api : Espd)

/-! ## FieldEncoder -/

def appendRaw (bytes : List Byte) : Enc Unit := fun s =>
  if bytes.length = 0 then .ok () s
  else if s.offset + bytes.length > api.maxDataSize then .error bufferTooSmall s
  else .ok () (s.wrote bytes)

/-- `testAppend<T>()` and the construction of an unpadded `T` in place. -/
def appendObj (bytes : List Byte) : Enc Unit := fun s =>
  if s.offset + bytes.length > api.maxDataSize then .error bufferTooSmall s
  else .ok () (s.wrote bytes)

def appendString (str : CppString) : Enc Unit := fun s =>
  if s.offset + str.length + 1 ≤ api.maxDataSize then .ok () (s.wrote (str ++ [0]))
  else .error bufferTooSmall s

/-- `append(char*)`; `str` is what stands in front of the terminator. -/
def appendCharPtr (str : CppString) : Enc Unit := fun s =>
  match ((str ++ [0]).take (api.maxDataSize - s.offset)).findIdx? (· = 0) with
  | none => .error bufferTooSmall s
  | some len => .ok () (s.wrote ((str ++ [0]).take (len + 1)))

/-! ## MsgEncoder -/

def addNumFields (fldNum : UInt16) : Enc Unit := fun s =>
  .ok () { s with numFields := s.numFields + fldNum }

def setOffset (offset : ℕ) : Enc Unit := fun s =>
  .ok () { s with offset := offset }

def appendData : FieldValue → Enc Unit
  | .string str => appendString api str
  | value => appendObj api (value.bytes api)

/-- The overloads of `appendField` for arithmetic types and for
`std::string`. -/
def appendField (field : Field) : Enc Unit := do
  appendObj api (FldHdr.bytes api (api.fieldIdCode field.id)
    (api.fieldTypeCode field.value.type))
  appendData api field.value
  addNumFields 1

def appendFieldCharPtr (id : FieldId) (str : CppString) : Enc Unit := do
  appendObj api (api.uespd16.store (api.fieldIdCode id))
  appendObj api (api.uespd8.store (api.fieldTypeCode .string))
  appendCharPtr api str
  addNumFields 1

def insertHdr (sequenceNo : UInt32) (messageType messageFlags : UInt16) :
    Enc Unit := do
  let s ← get
  let offset := UInt16.ofNat s.offset
  if offset.toNat < sizeofMsgHeader then
    throw .badNumericCast
  let dataLen := UInt16.ofNat (offset.toNat - sizeofMsgHeader)
  setOffset 0
  appendObj api ((MsgHeader.make api sequenceNo messageType messageFlags
    s.numFields dataLen).bytes api)
  setOffset offset.toNat

/-! ## What the operations write -/

def Field.bytes (field : Field) : List Byte :=
  FldHdr.bytes api (api.fieldIdCode field.id) (api.fieldTypeCode field.value.type) ++
    field.value.bytes api

def Field.size (field : Field) : ℕ := (field.bytes api).length

variable {api}

theorem Enc.bind_of_ok {σ α β : Type} {x : EStateM CppException σ α}
    {f : α → EStateM CppException σ β} {s s' : σ} {a : α} (hx : x s = .ok a s') :
    (x >>= f) s = f a s' := by
  simp only [bind, EStateM.bind, hx]

theorem Enc.bind_of_error {α β : Type} {x : Enc α} {f : α → Enc β}
    {s s' : MsgEncoder} {e : CppException} (hx : x s = .error e s') :
    (x >>= f) s = .error e s' := by
  simp only [bind, EStateM.bind, hx]

theorem appendObj_ok {bytes : List Byte} {s : MsgEncoder}
    (hfit : s.offset + bytes.length ≤ api.maxDataSize) :
    appendObj api bytes s = .ok () (s.wrote bytes) :=
  if_neg (by omega)

theorem appendObj_error {bytes : List Byte} {s : MsgEncoder}
    (hfull : api.maxDataSize < s.offset + bytes.length) :
    appendObj api bytes s = .error bufferTooSmall s :=
  if_pos hfull

theorem appendData_eq (value : FieldValue) (s : MsgEncoder) :
    appendData api value s = appendObj api (value.bytes api) s := by
  cases value with
  | string str =>
      simp only [appendData, appendString, appendObj, FieldValue.bytes, List.length_append,
        List.length_singleton]
      split_ifs <;> first | rfl | omega
  | uint32 value => rfl
  | int32 value => rfl
  | byte value => rfl
  | decimal value => rfl

theorem appendField_ok {field : Field} {s : MsgEncoder}
    (hfit : s.offset + field.size api ≤ api.maxDataSize) :
    appendField api field s = .ok () (s.wroteField (field.bytes api)) := by
  simp only [Field.size, Field.bytes, List.length_append] at hfit
  unfold appendField
  rw [Enc.bind_of_ok (appendObj_ok (by omega))]
  rw [Enc.bind_of_ok (a := ()) (by
    rw [appendData_eq]
    exact appendObj_ok (by rw [MsgEncoder.wrote_offset]; omega))]
  rw [← MsgEncoder.wrote_append]
  rfl

/-- A failed append: the header alone may already have been written. -/
theorem appendField_error {field : Field} {s : MsgEncoder}
    (hfull : api.maxDataSize < s.offset + field.size api) :
    appendField api field s = .error bufferTooSmall
      (if s.offset + sizeofFldHdr ≤ api.maxDataSize then
        s.wrote (FldHdr.bytes api (api.fieldIdCode field.id)
          (api.fieldTypeCode field.value.type))
      else s) := by
  simp only [Field.size, Field.bytes, List.length_append] at hfull
  unfold appendField
  by_cases hhdr : s.offset + sizeofFldHdr ≤ api.maxDataSize
  · rw [if_pos hhdr, Enc.bind_of_ok (appendObj_ok (by simpa using hhdr))]
    apply Enc.bind_of_error
    rw [appendData_eq]
    exact appendObj_error (by rw [MsgEncoder.wrote_offset]; omega)
  · rw [if_neg hhdr]
    apply Enc.bind_of_error
    exact appendObj_error (by rw [FldHdr.length_bytes]; omega)

theorem appendCharPtr_eq {str : CppString} (hstr : 0 ∉ str) (s : MsgEncoder) :
    appendCharPtr api str s = appendString api str s := by
  have hfind : ∀ n, ((str ++ [0]).take n).findIdx? (· = 0) =
      if str.length < n then some str.length else none := by
    intro n
    split_ifs with hlt
    · rw [List.findIdx?_eq_some_iff_getElem]
      refine ⟨by simp; omega, by simp, ?_⟩
      intro j hj
      have hmem : str[j] ∈ str := List.getElem_mem hj
      simp only [List.getElem_take, List.getElem_append_left hj,
        decide_eq_true_eq]
      intro hzero
      exact hstr (hzero ▸ hmem)
    · rw [List.findIdx?_eq_none_iff]
      intro x hx
      rw [List.take_append_of_le_length (by omega)] at hx
      have hmem := List.mem_of_mem_take hx
      simp only [decide_eq_false_iff_not]
      rintro rfl
      exact hstr hmem
  unfold appendCharPtr appendString
  rw [hfind]
  by_cases hfit : s.offset + str.length + 1 ≤ api.maxDataSize
  · rw [if_pos hfit, if_pos (by omega)]
    simp only
    rw [List.take_of_length_le (by simp)]
  · rw [if_neg hfit, if_neg (by omega)]

/-! ## Sequences of appends -/

/-- One call of `appendField`, through either overload for strings. -/
inductive AppendCall where
  | byValue (field : Field)
  | byCharPtr (ident : FieldId) (str : CppString)
      (idType_eq : idType ident = some .string)

def AppendCall.field : AppendCall → Field
  | .byValue field => field
  | .byCharPtr ident str idType_eq => ⟨ident, .string str, idType_eq⟩

variable (api) in
def AppendCall.run : AppendCall → Enc Unit
  | .byValue field => appendField api field
  | .byCharPtr ident str _ => appendFieldCharPtr api ident str

variable (api) in
def appendFields : List AppendCall → Enc Unit
  | [] => pure ()
  | call :: calls => do
      call.run api
      appendFields calls

def FieldValue.NulFree : FieldValue → Prop
  | .string str => 0 ∉ str
  | _ => True

theorem AppendCall.run_ok {call : AppendCall} {s : MsgEncoder}
    (hnul : call.field.value.NulFree)
    (hfit : s.offset + call.field.size api ≤ api.maxDataSize) :
    call.run api s = .ok () (s.wroteField (call.field.bytes api)) := by
  cases call with
  | byValue field => exact appendField_ok hfit
  | byCharPtr ident str idType_eq =>
      simp only [AppendCall.field, Field.size, Field.bytes, FldHdr.bytes,
        FieldValue.bytes, FieldValue.type, List.length_append,
        EspdWrapper.length_store, List.length_singleton] at hfit
      simp only [AppendCall.run, appendFieldCharPtr, AppendCall.field]
      rw [Enc.bind_of_ok (appendObj_ok (by rw [EspdWrapper.length_store]; omega)),
        Enc.bind_of_ok (appendObj_ok (by simp; omega)),
        Enc.bind_of_ok (a := ()) (by
          rw [appendCharPtr_eq hnul]
          exact if_pos (by simp; omega))]
      rw [← MsgEncoder.wrote_append, ← MsgEncoder.wrote_append,
        ← List.append_assoc]
      rfl

def fieldsBytes (api : Espd) (calls : List AppendCall) : List (List Byte) :=
  calls.map fun call => call.field.bytes api

theorem appendFields_ok {calls : List AppendCall} {s : MsgEncoder}
    (hnul : ∀ call ∈ calls, call.field.value.NulFree)
    (hfit : s.offset + (fieldsBytes api calls).flatten.length ≤ api.maxDataSize) :
    appendFields api calls s = .ok ()
      { s.wrote (fieldsBytes api calls).flatten with
        numFields := s.numFields + UInt16.ofNat calls.length } := by
  induction calls generalizing s with
  | nil =>
      have hsame : s.wrote (fieldsBytes api []).flatten = s := by
        simp [fieldsBytes, MsgEncoder.wrote]
      rw [hsame]
      simp [appendFields, pure, EStateM.pure]
  | cons call calls ih =>
      simp only [fieldsBytes, List.map_cons, List.flatten_cons,
        List.length_append] at hfit ih ⊢
      rw [appendFields, Enc.bind_of_ok
        (AppendCall.run_ok (hnul call List.mem_cons_self)
          (by simp only [Field.size]; omega)),
        ih (fun other hother => hnul other (List.mem_cons_of_mem call hother))
          (by rw [MsgEncoder.wroteField_offset]; omega)]
      rw [MsgEncoder.wrote_append]
      have hcount : s.numFields + 1 + UInt16.ofNat calls.length =
          s.numFields + UInt16.ofNat (call :: calls).length := by
        rw [List.length_cons]
        apply UInt16.toNat_inj.mp
        simp
        omega
      simp only [MsgEncoder.wrote, MsgEncoder.wroteField, hcount]

theorem insertHdr_ok {s : MsgEncoder} {sequenceNo : UInt32}
    {messageType messageFlags : UInt16}
    (hlow : sizeofMsgHeader ≤ s.offset) (hhigh : s.offset ≤ api.maxDataSize) :
    insertHdr api sequenceNo messageType messageFlags s = .ok ()
      { s with
        data := s.data.write 0
          ((MsgHeader.make api sequenceNo messageType messageFlags s.numFields
            (UInt16.ofNat (s.offset - sizeofMsgHeader))).bytes api) } := by
  have hmax := api.maxDataSize_le
  have hoffset : (UInt16.ofNat s.offset).toNat = s.offset := by
    rw [UInt16.toNat_ofNat']
    exact Nat.mod_eq_of_lt (by omega)
  have happend : appendObj api
      ((MsgHeader.make api sequenceNo messageType messageFlags s.numFields
        (UInt16.ofNat (s.offset - sizeofMsgHeader))).bytes api)
      { s with offset := 0 } = _ :=
    appendObj_ok (by rw [MsgHeader.length_bytes]; simp only; omega)
  have hget : (get : Enc MsgEncoder) s = .ok s s := rfl
  have hzero : setOffset 0 s = .ok () { s with offset := 0 } := rfl
  unfold insertHdr
  rw [Enc.bind_of_ok hget]
  simp only [hoffset]
  rw [if_neg (by omega), Enc.bind_of_ok hzero, Enc.bind_of_ok happend]
  rfl

end Encoder

end CppPlay.FixAdapter
