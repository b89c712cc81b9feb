import CppPlay.FixAdapter.MsgToTs
import CppPlay.FixAdapter.NetworkOrder

/-!
# Appends that fail

`appendField` checks the room for the header of a field apart from the room for
its data, and nothing is taken back when a later check fails.  What a failed call
leaves behind is a piece of the header; the converter then gives the message up.
-/

namespace CppPlay.FixAdapter

open CppPlay.Lib

section FailedAppend

variable (api : Espd)

def AppendCall.header (call : AppendCall) : List Byte :=
  FldHdr.bytes api (api.fieldIdCode call.field.id) (api.fieldTypeCode call.field.value.type)

/-- How much of its header a failed call has written; the `char*` overload appends
the id and the type one after the other. -/
def AppendCall.headerWritten : AppendCall → ℕ → ℕ
  | .byValue _, offset =>
      if offset + sizeofFldHdr ≤ api.maxDataSize then sizeofFldHdr else 0
  | .byCharPtr _ _ _, offset =>
      if offset + sizeofFldHdr ≤ api.maxDataSize then sizeofFldHdr
      else if offset + 2 ≤ api.maxDataSize then 2 else 0

/-- A call that throws "Buffer is too small" moves neither the offset nor the number
of fields. -/
def FailedAppendsIntact : Prop :=
  ∀ (call : AppendCall) (s s' : MsgEncoder), call.run api s = .error bufferTooSmall s' →
    s'.offset = s.offset ∧ s'.numFields = s.numFields

variable {api}

theorem MsgEncoder.wrote_nil (s : MsgEncoder) : s.wrote [] = s := by
  simp [MsgEncoder.wrote]

theorem MsgEncoder.read_wrote (s : MsgEncoder) (bytes : List Byte) :
    (s.wrote bytes).data.read 0 s.offset = s.data.read 0 s.offset :=
  Memory.read_write_of_disjoint s.data (Or.inl (by omega))

theorem length_header (call : AppendCall) : (call.header api).length = sizeofFldHdr :=
  FldHdr.length_bytes ..

theorem headerWritten_le (call : AppendCall) (offset : ℕ) :
    call.headerWritten api offset ≤ sizeofFldHdr := by
  unfold AppendCall.headerWritten sizeofFldHdr
  cases call with
  | byValue field => simp only; split_ifs <;> omega
  | byCharPtr ident str htype => simp only; split_ifs <;> omega

theorem appendCharPtr_error {str : CppString} {s s' : MsgEncoder} {e : CppException}
    (herror : appendCharPtr api str s = .error e s') : e = bufferTooSmall ∧ s' = s := by
  unfold appendCharPtr at herror
  split at herror
  · cases herror
    exact ⟨rfl, rfl⟩
  · cases herror

theorem appendFieldCharPtr_error {ident : FieldId} {str : CppString}
    (htype : idType ident = some .string) {s s' : MsgEncoder} {e : CppException}
    (herror : appendFieldCharPtr api ident str s = .error e s') :
    e = bufferTooSmall ∧ s' = s.wrote
      (((AppendCall.byCharPtr ident str htype).header api).take
        ((AppendCall.byCharPtr ident str htype).headerWritten api s.offset)) := by
  unfold appendFieldCharPtr at herror
  have hheader : (AppendCall.byCharPtr ident str htype).header api =
      api.uespd16.store (api.fieldIdCode ident) ++
        api.uespd8.store (api.fieldTypeCode .string) := rfl
  simp only [AppendCall.headerWritten]
  by_cases hid : s.offset + 2 ≤ api.maxDataSize
  · rw [Enc.bind_of_ok (appendObj_ok (by rwa [EspdWrapper.length_store]))] at herror
    by_cases htypeFits : s.offset + sizeofFldHdr ≤ api.maxDataSize
    · rw [if_pos htypeFits, ← length_header (AppendCall.byCharPtr ident str htype),
        List.take_length, hheader, MsgEncoder.wrote_append]
      rw [Enc.bind_of_ok (appendObj_ok (by
        rw [MsgEncoder.wrote_offset, EspdWrapper.length_store, EspdWrapper.length_store]
        exact htypeFits))] at herror
      -- only the search for the terminator is left to fail
      cases hchar : appendCharPtr api str
          ((s.wrote (api.uespd16.store (api.fieldIdCode ident))).wrote
            (api.uespd8.store (api.fieldTypeCode .string))) with
      | ok _ s'' =>
          rw [Enc.bind_of_ok hchar] at herror
          cases herror
      | error _ s'' =>
          rw [Enc.bind_of_error hchar] at herror
          cases herror
          exact appendCharPtr_error hchar
    · rw [if_neg htypeFits, if_pos hid, hheader,
        List.take_left' (EspdWrapper.length_store ..)]
      rw [Enc.bind_of_error (appendObj_error (by
        rw [MsgEncoder.wrote_offset, EspdWrapper.length_store, EspdWrapper.length_store]
        exact not_le.mp htypeFits))] at herror
      cases herror
      exact ⟨rfl, rfl⟩
  · rw [if_neg (by unfold sizeofFldHdr; omega), if_neg hid, List.take_zero,
      MsgEncoder.wrote_nil]
    rw [Enc.bind_of_error (appendObj_error (by
      rw [EspdWrapper.length_store]
      exact not_le.mp hid))] at herror
    cases herror
    exact ⟨rfl, rfl⟩

/-- What a failed call has done: a piece of the header was written, the field was
not counted. -/
theorem AppendCall.run_error {call : AppendCall} {s s' : MsgEncoder} {e : CppException}
    (herror : call.run api s = .error e s') :
    e = bufferTooSmall ∧
      s' = s.wrote ((call.header api).take (call.headerWritten api s.offset)) := by
  cases call with
  | byValue field =>
      have hfull : api.maxDataSize < s.offset + field.size api := by
        by_contra hfit
        rw [AppendCall.run, appendField_ok (not_lt.mp hfit)] at herror
        cases herror
      rw [AppendCall.run, appendField_error hfull] at herror
      cases herror
      refine ⟨rfl, ?_⟩
      simp only [AppendCall.headerWritten]
      split_ifs with hheader
      · rw [← @length_header api (AppendCall.byValue field), List.take_length]
        rfl
      · rw [List.take_zero, MsgEncoder.wrote_nil]
  | byCharPtr ident str htype => exact appendFieldCharPtr_error htype herror

theorem failedAppend_leaves {call : AppendCall} {s s' : MsgEncoder}
    (herror : call.run api s = .error bufferTooSmall s') :
    s'.numFields = s.numFields ∧
      s'.offset = s.offset + call.headerWritten api s.offset ∧
      s'.data.read 0 s.offset = s.data.read 0 s.offset := by
  rcases AppendCall.run_error herror with ⟨_, rfl⟩
  refine ⟨MsgEncoder.wrote_numFields .., ?_, MsgEncoder.read_wrote ..⟩
  rw [MsgEncoder.wrote_offset, List.length_take, length_header,
    min_eq_left (headerWritten_le call s.offset)]

/-- Three bytes are left: the header of a number goes in and its four bytes do not. -/
theorem not_failedAppendsIntact : ¬ FailedAppendsIntact NetworkOrder.espd := by
  intro hintact
  let tsId : Field := ⟨.tsId, .uint32 7, rfl⟩
  let s : MsgEncoder := ⟨fun _ => 0, 4093, 0⟩
  have herror : (AppendCall.byValue tsId).run NetworkOrder.espd s =
      .error bufferTooSmall (s.wrote ((AppendCall.byValue tsId).header NetworkOrder.espd)) :=
    appendField_error (by decide)
  have hoffset := (hintact _ _ _ herror).1
  rw [MsgEncoder.wrote_offset, length_header] at hoffset
  exact absurd hoffset (by decide)

theorem failedAppend_leaves_threeBytes :
    ∃ s' : MsgEncoder,
      (AppendCall.byValue ⟨.tsId, .uint32 7, rfl⟩).run NetworkOrder.espd ⟨fun _ => 0, 4093, 0⟩ =
        .error bufferTooSmall s' ∧ s'.numFields = 0 ∧ s'.offset = 4093 + 3 := by
  have herror : (AppendCall.byValue ⟨.tsId, .uint32 7, rfl⟩).run NetworkOrder.espd
      ⟨fun _ => 0, 4093, 0⟩ = .error bufferTooSmall _ := appendField_error (by decide)
  have hleaves := failedAppend_leaves herror
  exact ⟨_, herror, hleaves.1, hleaves.2.1⟩

/-- The converter does not put a header in front of a message whose body it could not
encode. -/
theorem convertRequest_of_body_error {SessionID : Type} {fix : QuickFix SessionID}
    {platform : Platform} {config : SessionInfo} {request : FixRequest} {msg : FixMessage}
    {text : CppString} {seqNum : UInt32} {s s' : MsgToTs} {e : CppException}
    (htext : msg .msgSeqNum = some text) (hseqNum : castSeqNum platform text = .ok seqNum)
    (hbody : appendMsgBody api fix platform config msg request
      { s with offset := sizeofMsgHeader, numFields := 0 } = .error e s') :
    convertRequest api fix platform config request msg s = .error e s' := by
  unfold convertRequest
  simp only [getField_of_some htext, hseqNum, fromExcept, pure_bind]
  simp only [bind, EStateM.bind, modify, modifyGet, MonadStateOf.modifyGet, EStateM.modifyGet,
    encode, setOffset, hbody]

end FailedAppend

end CppPlay.FixAdapter
