import CppPlay.FixAdapter.NetworkOrder
import CppPlay.FixAdapter.MsgEncoder
import CppPlay.FixAdapter.MsgFromTSParser

/-!
# The wire round trip

What the encoder writes, the parser cuts at the same places and the field
readers decode to the same ids, types and values.  A field's bytes are a word of
`fieldCode`, so the general facts about self-delimiting records carry the
induction over the fields of a message.
-/

namespace CppPlay.FixAdapter

open CppPlay.Lib

variable {api : Espd}

theorem fieldData?_code (value : FieldValue) :
    fieldData? api (api.fieldTypeCode value.type) =
      match value with
      | .uint32 _ | .int32 _ => some (.fixed 4)
      | .byte _ => some (.fixed 1)
      | .decimal _ => some (.fixed 8)
      | .string _ => some .terminated := by
  cases value <;>
    simp [fieldData?, FieldValue.type, api.fieldTypeCode_injective.eq_iff]

variable (api) in
theorem size?_value {value : FieldValue} (hnul : value.NulFree) :
    ∃ data, fieldData? api (api.fieldTypeCode value.type) = some data ∧
      data.size? (value.bytes api) = some (value.bytes api).length := by
  cases value with
  | uint32 value => exact ⟨_, fieldData?_code _, by simp [FieldData.size?, FieldValue.bytes]⟩
  | int32 value => exact ⟨_, fieldData?_code _, by simp [FieldData.size?, FieldValue.bytes]⟩
  | byte value => exact ⟨_, fieldData?_code _, by simp [FieldData.size?, FieldValue.bytes]⟩
  | decimal value => exact ⟨_, fieldData?_code _, by simp [FieldData.size?, FieldValue.bytes]⟩
  | string str =>
      refine ⟨_, fieldData?_code _, ?_⟩
      have hnone : str.findIdx? (· = 0) = none := by
        rw [List.findIdx?_eq_none_iff]
        intro x hx
        simp only [decide_eq_false_iff_not]
        rintro rfl
        exact hnul hx
      simp [FieldData.size?, FieldValue.bytes, List.findIdx?_append, hnone]

theorem Field.isWord {field : Field} (hnul : field.value.NulFree) :
    (fieldCode api).IsWord (field.bytes api) := by
  obtain ⟨data, hdata, hsize⟩ := size?_value api hnul
  apply (fieldSize_eq_some_iff api).mpr
  have htype : ((field.bytes api).drop 2).take 1 =
      api.uespd8.store (api.fieldTypeCode field.value.type) := by
    unfold Field.bytes FldHdr.bytes
    rw [List.append_assoc, List.drop_left' (by simp), List.take_left' (by simp)]
  have hdrop : (field.bytes api).drop sizeofFldHdr = field.value.bytes api := by
    unfold Field.bytes
    rw [List.drop_left' (by simp)]
  refine ⟨by simp [Field.bytes], data, (field.value.bytes api).length, ?_, ?_, ?_⟩
  · rw [htype, api.uespd8.load_store]
    exact hdata
  · rw [hdrop]
    exact hsize
  · simp [Field.bytes]

/-- The readers at `pos` give the id, the type and the value of `field`. -/
structure Decodes (api : Espd) (mem : Memory Byte) (pos : ℕ) (field : Field) :
    Prop where
  id_eq : FldHdr.getId api mem pos = api.fieldIdCode field.id
  type_eq : FldHdr.getType api mem pos = api.fieldTypeCode field.value.type
  data_eq : MsgField.getData api mem pos field.value.type = some field.value

theorem getData_of_read {mem : Memory Byte} {pos : ℕ} {value : FieldValue}
    (hnul : value.NulFree)
    (hread : mem.read (pos + sizeofFldHdr) (value.bytes api).length =
      value.bytes api)
    (hfit : pos + sizeofFldHdr + (value.bytes api).length ≤ api.maxDataSize) :
    MsgField.getData api mem pos value.type = some value := by
  cases value with
  | uint32 value =>
      simp only [FieldValue.bytes, EspdWrapper.length_store] at hread
      simp [MsgField.getData, FieldValue.type, hread]
  | int32 value =>
      simp only [FieldValue.bytes, EspdWrapper.length_store] at hread
      simp [MsgField.getData, FieldValue.type, hread]
  | byte value =>
      simp only [FieldValue.bytes, EspdWrapper.length_store] at hread
      simp [MsgField.getData, FieldValue.type, hread]
  | decimal value =>
      simp only [FieldValue.bytes, EspdWrapper.length_store] at hread
      simp [MsgField.getData, FieldValue.type, hread]
  | string str =>
      simp only [FieldValue.bytes] at hread hfit
      have hlong : mem.read (pos + sizeofFldHdr)
          (api.maxDataSize - (pos + sizeofFldHdr)) =
          (str ++ [0]) ++ mem.read (pos + sizeofFldHdr + (str ++ [0]).length)
            (api.maxDataSize - (pos + sizeofFldHdr) - (str ++ [0]).length) := by
        rw [Memory.read_eq_append_iff]
        exact ⟨by simp at hfit ⊢; omega, hread, by simp⟩
      have hchars : ∀ x ∈ str, decide (x ≠ 0) = true := by
        intro x hx
        simp only [decide_eq_true_eq]
        rintro rfl
        exact hnul hx
      simp only [MsgField.getData, FieldValue.type, cString, hlong]
      rw [List.append_assoc, List.takeWhile_append_of_pos hchars]
      simp

theorem decodes_of_read {mem : Memory Byte} {pos : ℕ} {field : Field}
    (hnul : field.value.NulFree)
    (hread : mem.read pos (field.bytes api).length = field.bytes api)
    (hfit : pos + (field.bytes api).length ≤ api.maxDataSize) :
    Decodes api mem pos field := by
  unfold Field.bytes FldHdr.bytes at hread
  simp only [Memory.read_eq_append_iff, List.length_append,
    EspdWrapper.length_store] at hread
  obtain ⟨-, ⟨-, hid, htype⟩, hvalue⟩ := hread
  constructor
  · rw [FldHdr.getId, hid, EspdWrapper.load_store]
  · rw [FldHdr.getType, htype, EspdWrapper.load_store]
  · apply getData_of_read hnul hvalue
    simp only [Field.bytes, List.length_append, FldHdr.length_bytes] at hfit
    omega

theorem forall₂_decodes {mem : Memory Byte} {start : ℕ} {calls : List AppendCall}
    (hnul : ∀ call ∈ calls, call.field.value.NulFree)
    (hread : mem.read start (fieldsBytes api calls).flatten.length =
      (fieldsBytes api calls).flatten)
    (hfit : start + (fieldsBytes api calls).flatten.length ≤ api.maxDataSize) :
    List.Forall₂ (fun pos call => Decodes api mem pos call.field)
      (blockStarts start (fieldsBytes api calls)) calls := by
  induction calls generalizing start with
  | nil => exact List.Forall₂.nil
  | cons call calls ih =>
      simp only [fieldsBytes, List.map_cons, List.flatten_cons,
        List.length_append, blockStarts_cons] at hread hfit ih ⊢
      obtain ⟨-, hfirst, hrest⟩ := (mem.read_eq_append_iff).mp hread
      apply List.Forall₂.cons
      · exact decodes_of_read (hnul call List.mem_cons_self) hfirst (by omega)
      · apply ih
        · intro other hother
          exact hnul other (List.mem_cons_of_mem call hother)
        · exact hrest
        · omega

def MsgEncoder.reset (data : Memory Byte) : MsgEncoder := ⟨data, 0, 0⟩

/-- Skip the header, append the fields, put the header in front. -/
def encodeMsg (api : Espd) (calls : List AppendCall) (sequenceNo : UInt32)
    (messageType messageFlags : UInt16) : Enc Unit := do
  setOffset sizeofMsgHeader
  appendFields api calls
  insertHdr api sequenceNo messageType messageFlags

theorem length_flatten_fieldsBytes (calls : List AppendCall) :
    (fieldsBytes api calls).flatten.length =
      (calls.map fun call => call.field.size api).sum := by
  rw [List.length_flatten, fieldsBytes, List.map_map]
  rfl

theorem length_le_sum_size (calls : List AppendCall) :
    calls.length ≤ (calls.map fun call => call.field.size api).sum := by
  induction calls with
  | nil => simp
  | cons call calls ih =>
      have hpos : sizeofFldHdr ≤ call.field.size api := by
        simp [Field.size, Field.bytes]
      simp only [sizeofFldHdr] at hpos
      simp only [List.length_cons, List.map_cons, List.sum_cons]
      omega

theorem encodeMsg_ok {calls : List AppendCall} (data : Memory Byte)
    (sequenceNo : UInt32) (messageType messageFlags : UInt16)
    (hnul : ∀ call ∈ calls, call.field.value.NulFree)
    (hfit : sizeofMsgHeader + (calls.map fun call => call.field.size api).sum ≤
      api.maxDataSize) :
    ∃ s, encodeMsg api calls sequenceNo messageType messageFlags
        (MsgEncoder.reset data) = .ok () s ∧
      s.data.read 0 sizeofMsgHeader =
        (MsgHeader.make api sequenceNo messageType messageFlags
          (UInt16.ofNat calls.length)
          (UInt16.ofNat (calls.map fun call => call.field.size api).sum)).bytes api ∧
      s.data.read sizeofMsgHeader (fieldsBytes api calls).flatten.length =
        (fieldsBytes api calls).flatten := by
  rw [← length_flatten_fieldsBytes] at hfit ⊢
  let bytes := (fieldsBytes api calls).flatten
  let start : MsgEncoder := { MsgEncoder.reset data with offset := sizeofMsgHeader }
  let filled : MsgEncoder :=
    { start.wrote bytes with numFields := UInt16.ofNat calls.length }
  have hstart : setOffset sizeofMsgHeader (MsgEncoder.reset data) =
      .ok () start := rfl
  have hfields : appendFields api calls start = .ok () filled := by
    rw [appendFields_ok hnul hfit]
    simp [filled, start, bytes, MsgEncoder.reset]
  have hhdr : insertHdr api sequenceNo messageType messageFlags filled = _ :=
    insertHdr_ok (by simp [filled, start]) hfit
  have hlength : filled.offset - sizeofMsgHeader = bytes.length := by
    simp [filled, start]
  rw [hlength] at hhdr
  refine ⟨_, (Enc.bind_of_ok hstart).trans ((Enc.bind_of_ok hfields).trans hhdr),
    ?_, ?_⟩
  · have hself := filled.data.read_write_self 0
      ((MsgHeader.make api sequenceNo messageType messageFlags filled.numFields
        (UInt16.ofNat bytes.length)).bytes api)
    rwa [MsgHeader.length_bytes] at hself
  · simp only
    rw [Memory.read_write_of_disjoint _ (by right; simp)]
    exact Memory.read_write_self _ _ _

/-- The parser on an encoded message pushes one position for each field, at
which the readers give the field back, and stops at the last field without the
discrepancy warning. -/
theorem parseBuffer_encodeMsg {calls : List AppendCall} (data : Memory Byte)
    (p : MsgFromTSParser) (offset : ℕ) (sequenceNo : UInt32)
    (messageType messageFlags : UInt16) (hne : calls ≠ [])
    (hnul : ∀ call ∈ calls, call.field.value.NulFree)
    (hfit : sizeofMsgHeader + (calls.map fun call => call.field.size api).sum ≤
      api.maxDataSize) :
    ∃ s q, encodeMsg api calls sequenceNo messageType messageFlags
        (MsgEncoder.reset data) = .ok () s ∧
      MsgFromTSParser.parseBuffer api (p.reset api s.data offset) =
        some (.lastField false, q) ∧
      List.Forall₂ (fun pos call => Decodes api s.data pos call.field)
        q.fields calls ∧
      (MsgHeader.getNumFields api s.data).toNat = calls.length ∧
      (MsgHeader.getLength api s.data).toNat =
        (calls.map fun call => call.field.size api).sum ∧
      q.currentNumFields = q.numFields := by
  obtain ⟨s, hencode, hhdr, hbody⟩ := encodeMsg_ok data sequenceNo
    messageType messageFlags hnul hfit
  have hmax := api.maxDataSize_le
  have hcount : calls.length ≤ (calls.map fun call => call.field.size api).sum :=
    length_le_sum_size calls
  obtain ⟨-, hnum, hlen⟩ := MsgHeader.get_of_read api hhdr
  have hnumNat : (MsgHeader.getNumFields api s.data).toNat = calls.length := by
    rw [hnum, MsgHeader.make, UInt16.toNat_ofNat']
    exact Nat.mod_eq_of_lt (by omega)
  have hlenNat : (MsgHeader.getLength api s.data).toNat =
      (calls.map fun call => call.field.size api).sum := by
    rw [hlen, MsgHeader.make, UInt16.toNat_ofNat']
    exact Nat.mod_eq_of_lt (by omega)
  have hwords : ∀ w ∈ fieldsBytes api calls, (fieldCode api).IsWord w := by
    intro w hw
    obtain ⟨call, hcall, rfl⟩ := List.mem_map.mp hw
    exact Field.isWord (hnul call hcall)
  have hcut : MsgFromTSParser.body api s.data = (fieldsBytes api calls).flatten := by
    rw [MsgFromTSParser.body, hlenNat, ← length_flatten_fieldsBytes]
    exact hbody
  have hparse : (fieldCode api).parse (MsgFromTSParser.body api s.data) =
      (fieldsBytes api calls, []) := by
    rw [hcut]
    exact (fieldCode api).parse_flatten hwords
  have hsome : fieldsBytes api calls ≠ [] := by
    simpa [fieldsBytes] using hne
  have hfull : MsgFromTSParser.body api s.data ≠ [] := by
    intro hnil
    rw [hnil, PrefixCode.parse_nil] at hparse
    exact hsome (congrArg Prod.fst hparse).symm
  obtain ⟨stop, q, hrun, -, -, hqnum, -, hfields, hcur, hlast⟩ :=
    MsgFromTSParser.parseBuffer_spec api p s.data offset
  have hsame : q.currentNumFields = q.numFields := by
    rw [hcur, hqnum, hnum, hparse]
    simp [MsgHeader.make, fieldsBytes]
  obtain ⟨hstop, -⟩ := hlast (by rw [hparse]) hfull
  rw [hsame] at hstop
  simp only [ne_eq, not_true_eq_false, decide_false] at hstop
  refine ⟨s, q, hencode, hstop ▸ hrun, ?_, hnumNat, hlenNat, hsame⟩
  rw [hfields, hparse, MsgFromTSParser.pushedBlocks, if_pos ⟨rfl, hsome⟩]
  exact forall₂_decodes hnul hbody (by rwa [length_flatten_fieldsBytes])

def priceAndSymbol : List AppendCall :=
  [.byValue ⟨.price, .decimal 4607182418800017408, by decide⟩,
    .byCharPtr .instName [] (by decide)]

theorem parseBuffer_encodeMsg_priceAndSymbol :
    priceAndSymbol ≠ [] ∧
      (∀ call ∈ priceAndSymbol, call.field.value.NulFree) ∧
      ∃ s q, encodeMsg NetworkOrder.espd priceAndSymbol 1 2 32
          (MsgEncoder.reset fun _ => 0) = .ok () s ∧
        MsgFromTSParser.parseBuffer NetworkOrder.espd
          ((MsgFromTSParser.make NetworkOrder.espd fun _ => 0).reset
            NetworkOrder.espd s.data 0) = some (.lastField false, q) ∧
        List.Forall₂ (fun pos call => Decodes NetworkOrder.espd s.data pos call.field)
          q.fields priceAndSymbol ∧
        (MsgHeader.getNumFields NetworkOrder.espd s.data).toNat = 2 ∧
        (MsgHeader.getLength NetworkOrder.espd s.data).toNat = 15 ∧
        q.currentNumFields = q.numFields := by
  have hnul : ∀ call ∈ priceAndSymbol, call.field.value.NulFree := by
    simp [priceAndSymbol, AppendCall.field, FieldValue.NulFree]
  exact ⟨by simp [priceAndSymbol], hnul,
    parseBuffer_encodeMsg (fun _ => 0)
      (MsgFromTSParser.make NetworkOrder.espd fun _ => 0) 0 1 2 32 (by simp [priceAndSymbol]) hnul
      (by decide)⟩

end CppPlay.FixAdapter
