import CppPlay.Lib.Memory

/-!
# Fields and headers of the trading-system protocol

The layout of `msh_field_type.h` and `msg_header.h`.  The headers they include
(`espdI.h`, `endian_wrapper.h`, `buffer.h`, `Const.h`) are not part of the
repository; what the code relies on of them is collected in the structure
`Espd`: the protocol's numbers, which the switches of the code need to be
distinct, and unpadded byte-order wrappers that give back the value they were
built from.
-/

namespace CppPlay.FixAdapter

open CppPlay.Lib

abbrev Byte := UInt8

/-- The bits of a `double`. -/
abbrev Decimal := UInt64

abbrev CppString := List Byte

/-- A byte-order wrapper of `endian_wrapper.h`: `width` bytes and no padding. -/
structure EspdWrapper (α : Type) (width : ℕ) where
  store : α → List Byte
  load : List Byte → α
  length_store : ∀ value, (store value).length = width
  load_store : ∀ value, load (store value) = value

attribute [simp] EspdWrapper.length_store EspdWrapper.load_store

/-- What the adapter throws, or lets through from the libraries under it. -/
inductive CppException where
  | fixError (what : String)
  | espdError (what : String)
  | espdMsgError (what : String)
  | rejectError (what : String)
  | runtimeError
  | badNumericCast
  | badLexicalCast
  | fieldNotFound
  | incorrectDataFormat
  deriving DecidableEq, Repr

inductive FieldType where
  | int8 | byte | int16 | uint16 | int32 | uint32 | datetime | decimal
  | string | buffer | bytestream | empty
  deriving DecidableEq, Repr

inductive FieldId where
  | origClientOrderId | sessionId | tsId | tsPref | password | username
  | gmtDelta | identCompany | identApplication | identVersion | componentType
  | identUserOs | identSdkVersionId | extTsSessionId | sourceId | instName
  | numPreferences | clientOrderId | price | size | indicator | preferenceId
  | preferenceType | orderInfoType | cmdPref | tradePref2
  | cmd | msgType | requestId | statusText | fieldId
  deriving DecidableEq, Repr

/-- `IdType<id>::type`; the last five ids have no specialisation. -/
def idType : FieldId → Option FieldType
  | .origClientOrderId | .sessionId | .password | .username | .identCompany
  | .identApplication | .identVersion | .identUserOs | .sourceId | .instName
  | .clientOrderId => some .string
  | .tsId | .tsPref | .componentType | .identSdkVersionId | .extTsSessionId
  | .numPreferences | .preferenceId | .preferenceType | .orderInfoType
  | .cmdPref | .tradePref2 => some .uint32
  | .gmtDelta => some .int32
  | .price | .size => some .decimal
  | .indicator => some .byte
  | .cmd | .msgType | .requestId | .statusText | .fieldId => none

inductive MsgType where
  | undefined | connect | postMessage | notify | ratify | roundtrip
  | connectReply | tradingSession | component | systemReply
  deriving DecidableEq, Repr

/-- Commands of a NOTIFY message (`CFETI_*`) that the code has a case for. -/
inductive NotifyCmd where
  | orderQueued | orderRejected
  deriving DecidableEq, Repr

/-- What the adapter relies on of the headers outside the repository. -/
structure Espd where
  maxDataSize : ℕ
  maxDataSize_le : maxDataSize ≤ 65535
  invalidFldSz : ℤ
  invalidFldSz_nonpos : invalidFldSz ≤ 0
  fieldTypeCode : FieldType → UInt8
  fieldTypeCode_injective : Function.Injective fieldTypeCode
  fieldIdCode : FieldId → UInt16
  fieldIdCode_injective : Function.Injective fieldIdCode
  msgTypeCode : MsgType → UInt16
  msgTypeCode_injective : Function.Injective msgTypeCode
  notifyCmdCode : NotifyCmd → UInt32
  notifyCmdCode_injective : Function.Injective notifyCmdCode
  protocolId : UInt16
  version : UInt16
  order : UInt8
  submitOrder : UInt32
  orderInfoExtendedProperties : UInt32
  orderBuy : UInt8
  orderSell : UInt8
  uespd8 : EspdWrapper UInt8 1
  uespd16 : EspdWrapper UInt16 2
  uespd32 : EspdWrapper UInt32 4
  espd32 : EspdWrapper Int32 4
  bespd64 : EspdWrapper Decimal 8

/-- `sizeof(FldHdr)`: a 16-bit id and an 8-bit type. -/
def sizeofFldHdr : ℕ := 2 + 1

def sizeofMsgHeader : ℕ := 2 + 2 + 4 + 2 + 1 + 2 + 2

/-- `sizeof(MsgFieldT<type>::native_type)` of the types with `fixed_size`. -/
def FieldType.nativeSize? : FieldType → Option ℕ
  | .int8 | .byte => some 1
  | .int16 | .uint16 => some 2
  | .int32 | .uint32 | .datetime => some 4
  | .decimal => some 8
  | .string | .buffer | .bytestream | .empty => none

section Layout

variable (api : Espd)

/-! ## Field headers -/

def FldHdr.bytes (id : UInt16) (type : UInt8) : List Byte :=
  api.uespd16.store id ++ api.uespd8.store type

def FldHdr.getId (mem : Memory Byte) (fld : ℕ) : UInt16 :=
  api.uespd16.load (mem.read fld 2)

def FldHdr.getType (mem : Memory Byte) (fld : ℕ) : UInt8 :=
  api.uespd8.load (mem.read (fld + 2) 1)

@[simp] theorem FldHdr.length_bytes (id : UInt16) (type : UInt8) :
    (FldHdr.bytes api id type).length = sizeofFldHdr := by
  simp [FldHdr.bytes, sizeofFldHdr]

/-! ## Values of a field -/

inductive FieldValue where
  | uint32 (value : UInt32)
  | int32 (value : Int32)
  | byte (value : UInt8)
  | decimal (value : Decimal)
  | string (value : CppString)
  deriving DecidableEq, Repr

def FieldValue.type : FieldValue → FieldType
  | .uint32 _ => .uint32
  | .int32 _ => .int32
  | .byte _ => .byte
  | .decimal _ => .decimal
  | .string _ => .string

/-- The data bytes of a field; a string is stored with its terminator. -/
def FieldValue.bytes : FieldValue → List Byte
  | .uint32 value => api.uespd32.store value
  | .int32 value => api.espd32.store value
  | .byte value => api.uespd8.store value
  | .decimal value => api.bespd64.store value
  | .string value => value ++ [0]

/-- `std::string` from a `char*`: up to the first terminator, which is looked
for inside the buffer's array. -/
def cString (mem : Memory Byte) (pos : ℕ) : CppString :=
  (mem.read pos (api.maxDataSize - pos)).takeWhile (· ≠ 0)

/-- `MsgField<MsgFieldT<type>>::get_data`; `none` where the code has no such
reader. -/
def MsgField.getData (mem : Memory Byte) (fld : ℕ) : FieldType → Option FieldValue
  | .uint32 => some (.uint32 (api.uespd32.load (mem.read (fld + sizeofFldHdr) 4)))
  | .int32 => some (.int32 (api.espd32.load (mem.read (fld + sizeofFldHdr) 4)))
  | .byte => some (.byte (api.uespd8.load (mem.read (fld + sizeofFldHdr) 1)))
  | .decimal => some (.decimal (api.bespd64.load (mem.read (fld + sizeofFldHdr) 8)))
  | .string => some (.string (cString api mem (fld + sizeofFldHdr)))
  | _ => none

def fieldFixedSize (nativeSize : ℕ) : ℕ := sizeofFldHdr + nativeSize

/-- `memchr(data, '\0', len)` together with the offsets it looks at. -/
def memchr (mem : Memory Byte) (pos len : ℕ) : Option ℕ × List ℕ :=
  (mem.find 0 pos len, List.range' pos (mem.findExamined 0 pos len))

/-- `strFldSize`, with the offsets it looks at.  The search starts behind the
field header but is given the length measured from the header. -/
def strFldSize (mem : Memory Byte) (fld maxSize : ℕ) : ℤ × List ℕ :=
  if maxSize ≤ sizeofFldHdr then (api.invalidFldSz, [])
  else
    let data := fld + sizeofFldHdr
    let found := memchr mem data maxSize
    match found.1 with
    | none => (api.invalidFldSz, found.2)
    | some i => ((data + i - fld : ℕ) + 1, found.2)

/-! ## The message header -/

structure MsgHeader where
  protocolId : UInt16
  version : UInt16
  sequenceNo : UInt32
  messageType : UInt16
  messageFlags : UInt8
  numFields : UInt16
  length : UInt16
  deriving DecidableEq, Repr

/-- The constructor; the flags are narrowed to one byte. -/
def MsgHeader.make (sequenceNo : UInt32) (messageType messageFlags : UInt16)
    (numFields length : UInt16) : MsgHeader where
  protocolId := api.protocolId
  version := api.version
  sequenceNo := sequenceNo
  messageType := messageType
  messageFlags := messageFlags.toUInt8
  numFields := numFields
  length := length

def MsgHeader.bytes (hdr : MsgHeader) : List Byte :=
  api.uespd16.store hdr.protocolId ++ api.uespd16.store hdr.version ++
    api.uespd32.store hdr.sequenceNo ++ api.uespd16.store hdr.messageType ++
    api.uespd8.store hdr.messageFlags ++ api.uespd16.store hdr.numFields ++
    api.uespd16.store hdr.length

def MsgHeader.getMessageType (mem : Memory Byte) : UInt16 :=
  api.uespd16.load (mem.read 8 2)

def MsgHeader.getNumFields (mem : Memory Byte) : UInt16 :=
  api.uespd16.load (mem.read 11 2)

def MsgHeader.getLength (mem : Memory Byte) : UInt16 :=
  api.uespd16.load (mem.read 13 2)

@[simp] theorem MsgHeader.length_bytes (hdr : MsgHeader) :
    (hdr.bytes api).length = sizeofMsgHeader := by
  simp [MsgHeader.bytes, sizeofMsgHeader]

theorem MsgHeader.get_of_read {mem : Memory Byte} {hdr : MsgHeader}
    (hread : mem.read 0 sizeofMsgHeader = hdr.bytes api) :
    MsgHeader.getMessageType api mem = hdr.messageType ∧
      MsgHeader.getNumFields api mem = hdr.numFields ∧
      MsgHeader.getLength api mem = hdr.length := by
  unfold MsgHeader.bytes at hread
  simp only [Memory.read_eq_append_iff, List.length_append,
    EspdWrapper.length_store, Nat.reduceAdd, Nat.zero_add] at hread
  obtain ⟨-, ⟨-, ⟨-, ⟨-, -, htype⟩, -⟩, hnum⟩, hlength⟩ := hread
  unfold getMessageType getNumFields getLength
  rw [htype, hnum, hlength]
  simp

end Layout

end CppPlay.FixAdapter
