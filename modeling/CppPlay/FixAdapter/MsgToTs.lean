import CppPlay.FixAdapter.MsgEncoder
import CppPlay.FixAdapter.SessionsInfo

/-!
# Requests of a client

`TSRequestManager::convert` writes a FIX message into a buffer.  Every field it
needs and every append may throw; the result below says which requests go
through, and that is a matter of the request and its session alone.
-/

namespace CppPlay.FixAdapter

open CppPlay.Lib

/-- What the conversion takes from Boost, the clock and the generator of ids. -/
structure Platform where
  /-- `boost::lexical_cast` to `long`, `uint_least32_t` and `int_least32_t` -/
  longOfString : CppString → Option ℤ
  uint32OfString : CppString → Option UInt32
  int32OfString : CppString → Option Int32
  gmtDelta : Int32
  /-- `UniqueGenerator::next`, by how often it was called before -/
  uniqueString : ℕ → CppString

/-- Decimal digits without a sign, and a clock at Greenwich. -/
def Platform.plain : Platform where
  longOfString text := (digits text).map Int.ofNat
  uint32OfString text := (digits text).map UInt32.ofNat
  int32OfString text := (digits text).map fun n => Int32.ofNat n
  gmtDelta := 0
  uniqueString n := (Nat.toDigits 10 n).map fun ch => UInt8.ofNat ch.toNat
where
  digits (text : CppString) : Option ℕ :=
    if text ≠ [] ∧ ∀ ch ∈ text, 0x30 ≤ ch ∧ ch ≤ 0x39 then
      some (text.foldl (fun n ch => 10 * n + (ch.toNat - 0x30)) 0)
    else none

inductive FixRequest where
  | logon | newOrderSingle | orderCancelReplaceRequest
  deriving DecidableEq, Repr

def FixRequest.espdType : FixRequest → MsgType
  | .logon => .connect
  | .newOrderSingle | .orderCancelReplaceRequest => .postMessage

/-- `EspdMsgType::flag`, a blank. -/
def espdFlag : UInt16 := 0x20

def ordTypeMarket : Byte := 0x31

/-! ## The converter -/

structure SessionBuffer where
  buffer : List Byte
  numFields : UInt16

/-- The encoder with the session's two fields, once they were encoded. -/
structure MsgToTs extends MsgEncoder where
  cache : Option SessionBuffer

abbrev ToTs := EStateM CppException MsgToTs

def encode {α : Type} (x : Enc α) : ToTs α := fun s =>
  match x s.toMsgEncoder with
  | .ok a e => .ok a { s with toMsgEncoder := e }
  | .error err e => .error err { s with toMsgEncoder := e }

def fromExcept {α : Type} : Except CppException α → ToTs α
  | .ok a => pure a
  | .error err => throw err

/-- The conversion operators of `FIX::DoubleField` and `FIX::CharField`. -/
def fieldValue {α : Type} (convert : CppString → Option α) (text : CppString) :
    Except CppException α :=
  match convert text with
  | none => .error .incorrectDataFormat
  | some value => .ok value

section Bodies

variable (api : Espd) {SessionID : Type} (fix : QuickFix SessionID) (platform : Platform)

def appendTo (id : FieldId) (value : FieldValue) (h : idType id = some value.type) : ToTs Unit :=
  encode (appendField api ⟨id, value, h⟩)

def MsgField.bytes (id : FieldId) (value : FieldValue) : List Byte :=
  FldHdr.bytes api (api.fieldIdCode id) (api.fieldTypeCode value.type) ++ value.bytes api

def submitOrder : List Byte :=
  MsgField.bytes api .msgType (.byte api.order) ++
    MsgField.bytes api .requestId (.uint32 0) ++
    MsgField.bytes api .statusText (.string []) ++
    MsgField.bytes api .orderInfoType (.uint32 api.orderInfoExtendedProperties) ++
    MsgField.bytes api .cmd (.uint32 api.submitOrder)

def getIndicator (side : Byte) : UInt8 :=
  if side = 0x31 then api.orderBuy
  else if side = 0x32 then api.orderSell
  else 0

def appendBuffer (bytes : List Byte) (fldNum : UInt16) : ToTs Unit := do
  encode (appendRaw api bytes)
  encode (addNumFields fldNum)

/-- What was written and counted since `start` goes into the cache. -/
def cacheSince (start : MsgToTs) : ToTs Unit :=
  modify fun s =>
    { s with cache := some ⟨s.data.read start.offset (s.offset - start.offset),
        s.numFields - start.numFields⟩ }

def appendSession (info : SessionLogonInfo) : ToTs Unit := do
  let start ← get
  match start.cache with
  | some cached => appendBuffer api cached.buffer cached.numFields
  | none => do
      appendTo api .sessionId (.string info.sessId) rfl
      appendTo api .username (.string info.userName) rfl
      cacheSince start

/-- `SenderSubID` may be missing, any other exception goes on. -/
def appendSourceId (msg : FixMessage) : ToTs Unit :=
  tryCatch
    (do
      let senderSubID ← fromExcept (msg.getField .senderSubID)
      appendTo api .sourceId (.string senderSubID) rfl)
    fun err => if err = .fieldNotFound then pure () else throw err

def appendOrderBody (info : SessionLogonInfo) (msg : FixMessage) : ToTs Unit := do
  encode (appendObj api (submitOrder api))
  encode (addNumFields 5)
  appendSession api info
  appendSourceId api msg
  let symbol ← fromExcept (msg.getField .symbol)
  appendTo api .instName (.string symbol) rfl
  appendTo api .tsId (.uint32 info.tsId) rfl
  appendTo api .extTsSessionId (.uint32 info.xsessId) rfl
  let clOrdID ← fromExcept (msg.getField .clOrdID)
  appendTo api .clientOrderId (.string clOrdID) rfl
  let orderQty ← fromExcept (msg.getField .orderQty)
  let size ← fromExcept (fieldValue fix.doubleOfString orderQty)
  appendTo api .size (.decimal size) rfl
  let side ← fromExcept (msg.getField .side)
  let sideChar ← fromExcept (fieldValue fix.charOfString side)
  appendTo api .indicator (.byte (getIndicator api sideChar)) rfl
  let ordType ← fromExcept (msg.getField .ordType)
  let ordTypeChar ← fromExcept (fieldValue fix.charOfString ordType)
  if ordTypeChar = ordTypeMarket ∧ msg.isSet .price then
    throw (.rejectError "Market order cannot have price. ")
  let price ← fromExcept (msg.getField .price)
  let priceValue ← fromExcept (fieldValue fix.doubleOfString price)
  appendTo api .price (.decimal priceValue) rfl

/-- `getSettingsValue`, which gives a default where the key is missing or its text
does not convert. -/
def SessionInfo.getSettingsValue {α : Type} (config : SessionInfo) (key : String)
    (convert : CppString → Option α) (default : α) : α :=
  ((config.dict key).bind convert).getD default

/-- The fields of a logon in their order; `GMT_DELTA` is there three times. -/
def logonFields (config : SessionInfo) : List Field :=
  let info := config.logonInfo
  let text key := FieldValue.string (config.getSettingsValue key some [])
  let number key := FieldValue.uint32 (config.getSettingsValue key platform.uint32OfString 0)
  [⟨.sessionId, .string info.sessId, rfl⟩,
    ⟨.tsId, .uint32 info.tsId, rfl⟩,
    ⟨.username, .string info.userName, rfl⟩,
    ⟨.tsPref, .uint32 info.tsPref, rfl⟩,
    ⟨.password, .string info.passWord, rfl⟩,
    ⟨.gmtDelta, .int32 platform.gmtDelta, rfl⟩,
    ⟨.identCompany, text "IDENT_COMPANY", rfl⟩,
    ⟨.identApplication, text "IDENT_APPLICATION", rfl⟩,
    ⟨.identVersion, text "IDENT_VERSION", rfl⟩,
    ⟨.componentType, number "componentType", rfl⟩,
    ⟨.identUserOs, text "IDENT_USER_OS", rfl⟩,
    ⟨.identSdkVersionId, number "sdk_version_id", rfl⟩,
    ⟨.gmtDelta, .int32 (config.getSettingsValue "gmt_delta" platform.int32OfString 0), rfl⟩,
    ⟨.gmtDelta, .int32 platform.gmtDelta, rfl⟩]

def appendMsgBody (config : SessionInfo) (msg : FixMessage) : FixRequest → ToTs Unit
  | .logon => encode (appendFields api ((logonFields platform config).map .byValue))
  | .newOrderSingle => appendOrderBody api fix config.logonInfo msg
  | .orderCancelReplaceRequest => do
      appendOrderBody api fix config.logonInfo msg
      let origClOrdID ← fromExcept (msg.getField .origClOrdID)
      appendTo api .origClientOrderId (.string origClOrdID) rfl

/-- `numeric_cast<uint_least32_t>(lexical_cast<long>(text))` -/
def castSeqNum (text : CppString) : Except CppException UInt32 :=
  match platform.longOfString text with
  | none => .error .badLexicalCast
  | some value =>
      if 0 ≤ value ∧ value < 2 ^ 32 then .ok (UInt32.ofNat value.toNat)
      else .error .badNumericCast

/-- `TSRequestManager::convert` -/
def convertRequest (config : SessionInfo) (request : FixRequest) (msg : FixMessage) :
    ToTs Unit := do
  modify fun s => { s with offset := 0, numFields := 0 }
  let seqNumStr ← fromExcept (msg.getField .msgSeqNum)
  let seqNum ← fromExcept (castSeqNum platform seqNumStr)
  encode (setOffset sizeofMsgHeader)
  appendMsgBody api fix platform config msg request
  encode (insertHdr api seqNum (api.msgTypeCode request.espdType) espdFlag)

end Bodies

/-! ## What fits into a buffer -/

section Sizes

variable (api : Espd) {SessionID : Type} (fix : QuickFix SessionID) (platform : Platform)

def stringFieldSize (text : CppString) : ℕ := sizeofFldHdr + (text.length + 1)

def sessionSize (info : SessionLogonInfo) : ℕ :=
  stringFieldSize info.sessId + stringFieldSize info.userName

def textSize (msg : FixMessage) (tag : FixTag) : ℕ := (msg tag).elim 0 stringFieldSize

def orderSize (info : SessionLogonInfo) (msg : FixMessage) : ℕ :=
  29 + sessionSize info + textSize msg .senderSubID + textSize msg .symbol +
    textSize msg .clOrdID + (7 + 7 + 11 + 4 + 11)

def Converts {α : Type} (msg : FixMessage) (tag : FixTag) (convert : CppString → Option α) :
    Prop :=
  ∃ text value, msg tag = some text ∧ convert text = some value

/-- The fields of an order; a market order cannot be converted, with a price it is
rejected and without one the price is missing. -/
structure OrderConverts (msg : FixMessage) : Prop where
  symbol : ∃ text, msg .symbol = some text
  clOrdID : ∃ text, msg .clOrdID = some text
  orderQty : Converts msg .orderQty fix.doubleOfString
  side : Converts msg .side fix.charOfString
  ordType : ∃ text value, msg .ordType = some text ∧ fix.charOfString text = some value ∧
    value ≠ ordTypeMarket
  price : Converts msg .price fix.doubleOfString

def BodyConverts (config : SessionInfo) (msg : FixMessage) : FixRequest → Prop
  | .logon =>
      sizeofMsgHeader + ((logonFields platform config).map (Field.size api)).sum ≤
        api.maxDataSize
  | .newOrderSingle =>
      OrderConverts fix msg ∧
        sizeofMsgHeader + orderSize config.logonInfo msg ≤ api.maxDataSize
  | .orderCancelReplaceRequest =>
      OrderConverts fix msg ∧ (∃ text, msg .origClOrdID = some text) ∧
        sizeofMsgHeader + orderSize config.logonInfo msg + textSize msg .origClOrdID ≤
          api.maxDataSize

structure RequestConverts (config : SessionInfo) (request : FixRequest) (msg : FixMessage) :
    Prop where
  seqNum : ∃ text value, msg .msgSeqNum = some text ∧
    platform.longOfString text = some value ∧ 0 ≤ value ∧ value < 2 ^ 32
  body : BodyConverts api fix platform config msg request

end Sizes

/-! ## Conversions that go through -/

variable {api : Espd} {SessionID : Type} {fix : QuickFix SessionID} {platform : Platform}

def MsgToTs.CacheOk (info : SessionLogonInfo) (s : MsgToTs) : Prop :=
  ∀ cached, s.cache = some cached → cached.buffer.length = sessionSize info

/-- Where `n` bytes fit, the operation takes them. -/
def Takes (api : Espd) (info : SessionLogonInfo) (n : ℕ) {α : Type} (x : ToTs α) : Prop :=
  ∀ s : MsgToTs, s.CacheOk info → s.offset + n ≤ api.maxDataSize →
    ∃ a s', x s = .ok a s' ∧ s'.offset = s.offset + n ∧ s'.CacheOk info

theorem Takes.bind {info : SessionLogonInfo} {m n : ℕ} {α β : Type} {x : ToTs α}
    {f : α → ToTs β} (hx : Takes api info m x) (hf : ∀ a, Takes api info n (f a)) :
    Takes api info (m + n) (x >>= f) := by
  intro s hcache hfit
  rcases hx s hcache (by omega) with ⟨a, s', hok, hoffset, hcache'⟩
  rcases hf a s' hcache' (by omega) with ⟨b, s'', hok', hoffset', hcache''⟩
  refine ⟨b, s'', ?_, by omega, hcache''⟩
  simp only [Bind.bind, EStateM.bind, hok, hok']

theorem takes_encode {info : SessionLogonInfo} {n : ℕ} {x : Enc Unit}
    (hx : ∀ e : MsgEncoder, e.offset + n ≤ api.maxDataSize →
      ∃ e', x e = .ok () e' ∧ e'.offset = e.offset + n) :
    Takes api info n (encode x) := by
  intro s hcache hfit
  rcases hx s.toMsgEncoder hfit with ⟨e', hok, hoffset⟩
  refine ⟨(), { s with toMsgEncoder := e' }, ?_, hoffset, hcache⟩
  simp only [encode, hok]

theorem takes_appendTo (info : SessionLogonInfo) (ident : FieldId) (value : FieldValue)
    (htype : idType ident = some value.type) :
    Takes api info (sizeofFldHdr + (value.bytes api).length)
      (appendTo api ident value htype) := by
  apply takes_encode
  intro e hfit
  have hsize : Field.size api ⟨ident, value, htype⟩ =
      sizeofFldHdr + (value.bytes api).length := by
    simp [Field.size, Field.bytes]
  refine ⟨_, appendField_ok (by rwa [hsize]), ?_⟩
  rw [MsgEncoder.wroteField_offset]
  exact congrArg (e.offset + ·) hsize

theorem takes_appendObj (info : SessionLogonInfo) (bytes : List Byte) :
    Takes api info bytes.length (encode (appendObj api bytes)) := by
  apply takes_encode
  intro e hfit
  exact ⟨_, appendObj_ok hfit, e.wrote_offset bytes⟩

theorem takes_addNumFields (info : SessionLogonInfo) (fldNum : UInt16) :
    Takes api info 0 (encode (addNumFields fldNum)) := by
  apply takes_encode
  intro e _
  exact ⟨_, rfl, rfl⟩

theorem takes_appendRaw (info : SessionLogonInfo) (bytes : List Byte) :
    Takes api info bytes.length (encode (appendRaw api bytes)) := by
  apply takes_encode
  intro e hfit
  by_cases hempty : bytes.length = 0
  · exact ⟨e, by rw [appendRaw, if_pos hempty], by omega⟩
  · exact ⟨e.wrote bytes, by rw [appendRaw, if_neg hempty, if_neg (by omega)],
      e.wrote_offset bytes⟩

theorem length_stringBytes (text : CppString) :
    sizeofFldHdr + (FieldValue.bytes api (.string text)).length = stringFieldSize text := by
  simp [FieldValue.bytes, stringFieldSize]

theorem takes_appendSession (info : SessionLogonInfo) :
    Takes api info (sessionSize info) (appendSession api info) := by
  intro s hcache hfit
  have hstart : (get : ToTs MsgToTs) s = .ok s s := rfl
  rw [appendSession, Enc.bind_of_ok hstart]
  cases hs : s.cache with
  | some cached =>
      have hlength := hcache cached hs
      have hbuffer : Takes api info _ (appendBuffer api cached.buffer cached.numFields) :=
        (takes_appendRaw info cached.buffer).bind
          fun _ => takes_addNumFields info cached.numFields
      rw [Nat.add_zero, hlength] at hbuffer
      exact hbuffer s hcache hfit
  | none =>
      have hfields : Takes api info _ _ :=
        (takes_appendTo info .sessionId (.string info.sessId) rfl).bind
          fun _ => takes_appendTo info .username (.string info.userName) rfl
      rw [length_stringBytes, length_stringBytes] at hfields
      rcases hfields s hcache hfit with ⟨_, e, hok, hoffset, _⟩
      refine ⟨(), { e with cache := some ⟨e.data.read s.offset (e.offset - s.offset),
        e.numFields - s.numFields⟩ }, ?_, hoffset, ?_⟩
      · simp only [← bind_assoc]
        rw [Enc.bind_of_ok hok]
        rfl
      · intro cached hcached
        rw [Option.some.injEq] at hcached
        rw [← hcached, Memory.length_read, hoffset]
        exact Nat.add_sub_cancel_left ..

theorem takes_appendSourceId (info : SessionLogonInfo) (msg : FixMessage) :
    Takes api info (textSize msg .senderSubID) (appendSourceId api msg) := by
  intro s hcache hfit
  cases htag : msg .senderSubID with
  | none =>
      refine ⟨(), s, ?_, by simp [textSize, htag], hcache⟩
      simp [appendSourceId, FixMessage.getField, htag, fromExcept, throw, throwThe,
        MonadExceptOf.throw, EStateM.throw, tryCatch, tryCatchThe, MonadExceptOf.tryCatch,
        EStateM.tryCatch, Bind.bind, EStateM.bind, pure, EStateM.pure]
      rfl
  | some senderSubID =>
      have hfield : Takes api info _ _ :=
        takes_appendTo info .sourceId (.string senderSubID) rfl
      rw [length_stringBytes] at hfield
      rw [textSize, htag, Option.elim_some] at hfit ⊢
      rcases hfield s hcache hfit with ⟨a, s', hok, hs'⟩
      refine ⟨a, s', ?_, hs'⟩
      simp [appendSourceId, FixMessage.getField, htag, fromExcept, tryCatch, tryCatchThe,
        MonadExceptOf.tryCatch, EStateM.tryCatch, Bind.bind, EStateM.bind, pure, EStateM.pure, hok]

/-! ## Requests that go through -/

theorem getField_of_some {msg : FixMessage} {tag : FixTag} {text : CppString}
    (htag : msg tag = some text) : msg.getField tag = .ok text := by
  rw [FixMessage.getField, htag]

theorem fieldValue_of_some {α : Type} {convert : CppString → Option α} {text : CppString}
    {value : α} (hconvert : convert text = some value) : fieldValue convert text = .ok value := by
  rw [fieldValue, hconvert]

theorem length_submitOrder : (submitOrder api).length = 29 := by
  simp [submitOrder, MsgField.bytes, FieldValue.bytes, sizeofFldHdr]

theorem takes_appendOrderBody (info : SessionLogonInfo) {msg : FixMessage}
    (hmsg : OrderConverts fix msg) :
    Takes api info (orderSize info msg) (appendOrderBody api fix info msg) := by
  rcases hmsg.symbol with ⟨symbol, hsymbol⟩
  rcases hmsg.clOrdID with ⟨clOrdID, hclOrdID⟩
  rcases hmsg.orderQty with ⟨orderQty, size, horderQty, hsize⟩
  rcases hmsg.side with ⟨side, sideChar, hside, hsideChar⟩
  rcases hmsg.ordType with ⟨ordType, ordTypeChar, hordType, hordTypeChar, hmarket⟩
  rcases hmsg.price with ⟨price, priceValue, hprice, hpriceValue⟩
  unfold appendOrderBody
  simp only [getField_of_some hsymbol, getField_of_some hclOrdID, getField_of_some horderQty,
    getField_of_some hside, getField_of_some hordType, getField_of_some hprice,
    fieldValue_of_some hsize, fieldValue_of_some hsideChar, fieldValue_of_some hordTypeChar,
    fieldValue_of_some hpriceValue, fromExcept, pure_bind, hmarket, false_and, if_false]
  have hchain : Takes api info _ _ :=
    (takes_appendObj info (submitOrder api)).bind fun _ =>
    (takes_addNumFields info 5).bind fun _ =>
    (takes_appendSession info).bind fun _ =>
    (takes_appendSourceId info msg).bind fun _ =>
    (takes_appendTo info .instName (.string symbol) rfl).bind fun _ =>
    (takes_appendTo info .tsId (.uint32 info.tsId) rfl).bind fun _ =>
    (takes_appendTo info .extTsSessionId (.uint32 info.xsessId) rfl).bind fun _ =>
    (takes_appendTo info .clientOrderId (.string clOrdID) rfl).bind fun _ =>
    (takes_appendTo info .size (.decimal size) rfl).bind fun _ =>
    (takes_appendTo info .indicator (.byte (getIndicator api sideChar)) rfl).bind fun _ =>
    takes_appendTo info .price (.decimal priceValue) rfl
  convert hchain using 1
  simp only [orderSize, textSize, hsymbol, hclOrdID, Option.elim_some, length_submitOrder,
    stringFieldSize, FieldValue.bytes, EspdWrapper.length_store, sizeofFldHdr,
    List.length_append, List.length_singleton]
  omega

theorem takes_appendFields (info : SessionLogonInfo) (fields : List Field) :
    Takes api info (fields.map (Field.size api)).sum
      (encode (appendFields api (fields.map .byValue))) := by
  apply takes_encode
  induction fields with
  | nil =>
      intro e _
      exact ⟨e, rfl, rfl⟩
  | cons field fields ih =>
      intro e hfit
      rw [List.map_cons, List.sum_cons] at hfit
      have hfirst : appendField api field e = .ok () (e.wroteField (field.bytes api)) :=
        appendField_ok (by omega)
      have hroom : (e.wroteField (field.bytes api)).offset +
          (fields.map (Field.size api)).sum ≤ api.maxDataSize := by
        rw [MsgEncoder.wroteField_offset, Nat.add_assoc]
        exact hfit
      rcases ih _ hroom with ⟨e', hok, hoffset⟩
      refine ⟨e', ?_, ?_⟩
      · rw [List.map_cons, appendFields, AppendCall.run, Enc.bind_of_ok hfirst]
        exact hok
      · rw [hoffset, MsgEncoder.wroteField_offset, List.map_cons, List.sum_cons, Nat.add_assoc]
        rfl

theorem takes_appendMsgBody {config : SessionInfo} {msg : FixMessage} {request : FixRequest}
    (hbody : BodyConverts api fix platform config msg request) :
    ∃ n, sizeofMsgHeader + n ≤ api.maxDataSize ∧
      Takes api config.logonInfo n (appendMsgBody api fix platform config msg request) := by
  cases request with
  | logon => exact ⟨_, hbody, takes_appendFields _ _⟩
  | newOrderSingle => exact ⟨_, hbody.2, takes_appendOrderBody _ hbody.1⟩
  | orderCancelReplaceRequest =>
      rcases hbody with ⟨horder, ⟨origClOrdID, horig⟩, hfit⟩
      refine ⟨_, by rwa [Nat.add_assoc] at hfit, ?_⟩
      have hlast : Takes api config.logonInfo _ _ :=
        takes_appendTo config.logonInfo .origClientOrderId (.string origClOrdID) rfl
      rw [length_stringBytes] at hlast
      simp only [appendMsgBody, getField_of_some horig, fromExcept, pure_bind, textSize, horig,
        Option.elim_some]
      exact (takes_appendOrderBody _ horder).bind fun _ => hlast

/-- A request that meets the condition is converted, from any state in which an
earlier request has left the converter. -/
theorem convertRequest_ok {config : SessionInfo} {request : FixRequest} {msg : FixMessage}
    (hrequest : RequestConverts api fix platform config request msg) {s : MsgToTs}
    (hcache : s.CacheOk config.logonInfo) :
    ∃ s', convertRequest api fix platform config request msg s = .ok () s' ∧
      s'.CacheOk config.logonInfo := by
  rcases hrequest.seqNum with ⟨text, value, htext, hvalue, hlow, hhigh⟩
  have hcast : castSeqNum platform text = .ok (UInt32.ofNat value.toNat) := by
    rw [castSeqNum, hvalue]
    exact if_pos ⟨hlow, hhigh⟩
  rcases takes_appendMsgBody hrequest.body with ⟨n, hfit, hbody⟩
  let start : MsgToTs := { s with offset := sizeofMsgHeader, numFields := 0 }
  rcases hbody start hcache hfit with ⟨_, s', hok, hoffset, hcache'⟩
  have hheader : insertHdr api (UInt32.ofNat value.toNat) (api.msgTypeCode request.espdType)
      espdFlag s'.toMsgEncoder = _ :=
    insertHdr_ok (by rw [hoffset]; exact Nat.le_add_right _ _) (by rw [hoffset]; exact hfit)
  have hskip : encode (setOffset sizeofMsgHeader)
      ({ s with offset := 0, numFields := 0 } : MsgToTs) = .ok () start := rfl
  have hreset : (modify fun s : MsgToTs => { s with offset := 0, numFields := 0 } : ToTs Unit) s =
      .ok () { s with offset := 0, numFields := 0 } := rfl
  unfold convertRequest
  simp only [getField_of_some htext, hcast, fromExcept, pure_bind]
  rw [Enc.bind_of_ok hreset, Enc.bind_of_ok hskip, Enc.bind_of_ok hok, encode, hheader]
  exact ⟨_, rfl, hcache'⟩

end CppPlay.FixAdapter
