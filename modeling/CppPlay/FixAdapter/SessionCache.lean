import CppPlay.FixAdapter.MsgToTs
import CppPlay.Lib.Simulation

/-!
# The session cache

`MsgToTs` encodes `SESSIONID` and `USERNAME` once and copies their bytes from then
on.  Beside it stands the converter without the cache, which encodes them for every
order.  The two end alike on every sequence of requests, whatever of it throws.
-/

namespace CppPlay.FixAdapter

open CppPlay.Lib

/-! ## The converter without a cache -/

namespace Uncached

variable (api : Espd) {SessionID : Type} (fix : QuickFix SessionID) (platform : Platform)

def fromExcept {α : Type} : Except CppException α → Enc α
  | .ok a => pure a
  | .error err => throw err

def appendTo (id : FieldId) (value : FieldValue) (h : some value.type = idType id) : Enc Unit :=
  appendField api ⟨id, value, h.symm⟩

def appendSession (info : SessionLogonInfo) : Enc Unit := do
  appendTo api .sessionId (.string info.sessId) rfl
  appendTo api .username (.string info.userName) rfl

def appendSourceId (msg : FixMessage) : Enc Unit :=
  tryCatch
    (do
      let senderSubID ← fromExcept (msg.getField .senderSubID)
      appendTo api .sourceId (.string senderSubID) rfl)
    fun err => if err = .fieldNotFound then pure () else throw err

def appendOrderBody (info : SessionLogonInfo) (msg : FixMessage) : Enc Unit := do
  appendObj api (submitOrder api)
  addNumFields 5
  appendSession api info
  appendSourceId api msg
  let symbol ← fromExcept (msg.getField .symbol)
  appendTo api .instName (.string symbol) rfl
  appendTo api .tsId (.uint32 info.tsId) rfl
  appendTo api .extTsSessionId (.uint32 info.xsessId) rfl
  let clOrdID ← fromExcept (msg.getField .clOrdID)
  appendTo api .clientOrderId (.string clOrdID) rfl
  let orderQty ← fromExcept (msg.getField .orderQty)
  let size ← fromExcept (fieldValue fix.doubleOfString orderQty)
  appendTo api .size (.decimal size) rfl
  let side ← fromExcept (msg.getField .side)
  let sideChar ← fromExcept (fieldValue fix.charOfString side)
  appendTo api .indicator (.byte (getIndicator api sideChar)) rfl
  let ordType ← fromExcept (msg.getField .ordType)
  let ordTypeChar ← fromExcept (fieldValue fix.charOfString ordType)
  if ordTypeChar = ordTypeMarket ∧ msg.isSet .price then
    throw (.rejectError "Market order cannot have price. ")
  let price ← fromExcept (msg.getField .price)
  let priceValue ← fromExcept (fieldValue fix.doubleOfString price)
  appendTo api .price (.decimal priceValue) rfl

def appendMsgBody (config : SessionInfo) (msg : FixMessage) : FixRequest → Enc Unit
  | .logon => appendFields api ((logonFields platform config).map .byValue)
  | .newOrderSingle => appendOrderBody api fix config.logonInfo msg
  | .orderCancelReplaceRequest => do
      appendOrderBody api fix config.logonInfo msg
      let origClOrdID ← fromExcept (msg.getField .origClOrdID)
      appendTo api .origClientOrderId (.string origClOrdID) rfl

def convertRequest (config : SessionInfo) (request : FixRequest) (msg : FixMessage) :
    Enc Unit := do
  modify fun s => { s with offset := 0, numFields := 0 }
  let seqNumStr ← fromExcept (msg.getField .msgSeqNum)
  let seqNum ← fromExcept (castSeqNum platform seqNumStr)
  setOffset sizeofMsgHeader
  appendMsgBody api fix platform config msg request
  insertHdr api seqNum (api.msgTypeCode request.espdType) espdFlag

end Uncached

/-! ## Sequences of requests -/

/-- One request: the buffer it is given, and the ids that the session has by then. -/
structure RequestCall where
  buffer : Memory Byte
  tsId : UInt32
  xsessId : UInt32
  request : FixRequest
  msg : FixMessage

/-- `set_tsId` and `set_xsessId` are the only setters of a session's logon info. -/
def RequestCall.config (call : RequestCall) (config : SessionInfo) : SessionInfo :=
  { config with
    logonInfo := { config.logonInfo with tsId := call.tsId, xsessId := call.xsessId } }

section Calls

variable (api : Espd) {SessionID : Type} (fix : QuickFix SessionID) (platform : Platform)
  (config : SessionInfo)

/-- A converter that has encoded nothing so far. -/
def MsgToTs.start : MsgToTs := ⟨⟨fun _ => 0, 0, 0⟩, none⟩

def RequestCall.encode (call : RequestCall) : ToTs Unit := do
  modify fun s => { s with data := call.buffer }
  convertRequest api fix platform (call.config config) call.request call.msg

def RequestCall.encodeUncached (call : RequestCall) : Enc Unit := do
  modify fun s => { s with data := call.buffer }
  Uncached.convertRequest api fix platform (call.config config) call.request call.msg

/-- For every request the exception, if any, and the buffer, the offset and the number
of fields behind it. -/
def encodeRequests (calls : List RequestCall) : List (Option CppException × MsgEncoder) :=
  outcomes (RequestCall.encode api fix platform config) MsgToTs.toMsgEncoder .start calls

def encodeRequestsUncached (calls : List RequestCall) :
    List (Option CppException × MsgEncoder) :=
  outcomes (RequestCall.encodeUncached api fix platform config) id MsgToTs.start.toMsgEncoder
    calls

end Calls

/-! ## What the cache holds -/

section Cache

variable (api : Espd)

def sessionBytes (info : SessionLogonInfo) : List Byte :=
  MsgField.bytes api .sessionId (.string info.sessId) ++
    MsgField.bytes api .username (.string info.userName)

/-- Where the session's two fields stand in every order. -/
def sessionOffset : ℕ := sizeofMsgHeader + 29

structure MsgToTs.CacheHolds (info : SessionLogonInfo) (s : MsgToTs) : Prop where
  session : ∀ cached, s.cache = some cached → cached = ⟨sessionBytes api info, 2⟩
  /-- They did fit once, and they always stand at the same place. -/
  fits : s.cache.isSome → sessionOffset + sessionSize info ≤ api.maxDataSize

/-- The converter with the cache beside the one without. -/
structure SameEncoder (info : SessionLogonInfo) (s : MsgToTs) (e : MsgEncoder) : Prop where
  encoder : s.toMsgEncoder = e
  cache : s.CacheHolds api info

def SameEncoderAt (info : SessionLogonInfo) (offset : ℕ) (s : MsgToTs) (e : MsgEncoder) : Prop :=
  SameEncoder api info s e ∧ e.offset = offset

variable {api} {info : SessionLogonInfo}

theorem length_stringField (ident : FieldId) (text : CppString) :
    (MsgField.bytes api ident (.string text)).length = stringFieldSize text := by
  simp [MsgField.bytes, FieldValue.bytes, stringFieldSize]

theorem length_sessionBytes : (sessionBytes api info).length = sessionSize info := by
  rw [sessionBytes, List.length_append, length_stringField, length_stringField, sessionSize]

/-! ## Both converters, step by step -/

theorem sim_encode {α : Type} (x : Enc α) :
    Simulates (SameEncoder api info) (SameEncoder api info) (SameEncoder api info)
      (encode x) x := by
  rintro s e ⟨rfl, hcache⟩
  unfold encode
  cases x s.toMsgEncoder with
  | ok a e' => exact .ok ⟨rfl, ⟨hcache.session, hcache.fits⟩⟩
  | error err e' => exact .error ⟨rfl, ⟨hcache.session, hcache.fits⟩⟩

theorem sim_appendTo (ident : FieldId) (value : FieldValue)
    (htype : idType ident = some value.type) :
    Simulates (SameEncoder api info) (SameEncoder api info) (SameEncoder api info)
      (appendTo api ident value htype) (Uncached.appendTo api ident value htype.symm) :=
  sim_encode _

theorem sim_fromExcept {α : Type} (x : Except CppException α) :
    Simulates (SameEncoder api info) (SameEncoder api info) (SameEncoder api info)
      (fromExcept x) (Uncached.fromExcept x) := by
  cases x with
  | ok a => exact Simulates.pure a
  | error err => exact Simulates.throw err fun _ _ hsame => hsame

theorem sim_submitOrder :
    Simulates (SameEncoderAt api info sizeofMsgHeader) (SameEncoderAt api info sessionOffset)
      (SameEncoder api info) (encode (appendObj api (submitOrder api)))
      (appendObj api (submitOrder api)) := by
  rintro s e ⟨⟨rfl, hcache⟩, hoffset⟩
  unfold encode
  by_cases hfit : s.offset + (submitOrder api).length ≤ api.maxDataSize
  · rw [appendObj_ok hfit]
    refine .ok ⟨⟨rfl, ⟨hcache.session, hcache.fits⟩⟩, ?_⟩
    rw [MsgEncoder.wrote_offset, length_submitOrder, hoffset, sessionOffset]
  · rw [appendObj_error (not_le.mp hfit)]
    exact .error ⟨rfl, ⟨hcache.session, hcache.fits⟩⟩

theorem sim_addNumFields (offset : ℕ) (fldNum : UInt16) :
    Simulates (SameEncoderAt api info offset) (SameEncoderAt api info offset)
      (SameEncoder api info) (encode (addNumFields fldNum)) (addNumFields fldNum) := by
  rintro s e ⟨⟨rfl, hcache⟩, hoffset⟩
  exact .ok ⟨⟨rfl, ⟨hcache.session, hcache.fits⟩⟩, hoffset⟩

/-! ## The session's two fields -/

theorem uncached_appendTo_ok {ident : FieldId} {value : FieldValue}
    (htype : some value.type = idType ident) {e : MsgEncoder}
    (hfit : e.offset + (MsgField.bytes api ident value).length ≤ api.maxDataSize) :
    Uncached.appendTo api ident value htype e =
      .ok () (e.wroteField (MsgField.bytes api ident value)) :=
  appendField_ok hfit

theorem fits_of_uncached_appendTo_ok {ident : FieldId} {value : FieldValue}
    {htype : some value.type = idType ident} {e e' : MsgEncoder} {u : Unit}
    (hok : Uncached.appendTo api ident value htype e = .ok u e') :
    e.offset + (MsgField.bytes api ident value).length ≤ api.maxDataSize ∧
      e' = e.wroteField (MsgField.bytes api ident value) := by
  by_cases hfit : e.offset + (MsgField.bytes api ident value).length ≤ api.maxDataSize
  · rw [uncached_appendTo_ok htype hfit] at hok
    cases hok
    exact ⟨hfit, rfl⟩
  · have herror := @appendField_error api ⟨ident, value, htype.symm⟩ e (not_le.mp hfit)
    rw [Uncached.appendTo, herror] at hok
    cases hok

theorem wroteField_wroteField (e : MsgEncoder) (bytes bytes' : List Byte) :
    (e.wroteField bytes).wroteField bytes' =
      { e.wrote (bytes ++ bytes') with numFields := e.numFields + 2 } := by
  rw [MsgEncoder.wrote_append]
  simp only [MsgEncoder.wroteField, MsgEncoder.wrote]
  congr 1
  exact UInt16.add_assoc ..

theorem uncached_appendSession_ok {e : MsgEncoder}
    (hfit : e.offset + sessionSize info ≤ api.maxDataSize) :
    Uncached.appendSession api info e = .ok ()
      { e.wrote (sessionBytes api info) with numFields := e.numFields + 2 } := by
  rw [sessionSize, ← @length_stringField api .sessionId,
    ← @length_stringField api .username] at hfit
  have hsessId : Uncached.appendTo api .sessionId (.string info.sessId) rfl e = _ :=
    uncached_appendTo_ok rfl (by omega)
  have huserName : Uncached.appendTo api .username (.string info.userName) rfl
      (e.wroteField (MsgField.bytes api .sessionId (.string info.sessId))) = _ :=
    uncached_appendTo_ok rfl (by rw [MsgEncoder.wroteField_offset]; omega)
  rw [Uncached.appendSession, Enc.bind_of_ok hsessId, huserName, wroteField_wroteField]
  rfl

theorem fits_of_uncached_appendSession_ok {e e' : MsgEncoder} {u : Unit}
    (hok : Uncached.appendSession api info e = .ok u e') :
    e.offset + sessionSize info ≤ api.maxDataSize := by
  unfold Uncached.appendSession at hok
  cases hfirst : Uncached.appendTo api .sessionId (.string info.sessId) rfl e with
  | ok _ middle =>
      rw [Enc.bind_of_ok hfirst] at hok
      have hsessId := fits_of_uncached_appendTo_ok hfirst
      have huserName := (fits_of_uncached_appendTo_ok hok).1
      rw [hsessId.2, MsgEncoder.wroteField_offset, length_stringField, length_stringField]
        at huserName
      rw [sessionSize]
      omega
  | error _ middle =>
      rw [Enc.bind_of_error hfirst] at hok
      cases hok

/-- The two `appendField`s of an order that finds no cache, in front of the capture. -/
def sessionFields (api : Espd) (info : SessionLogonInfo)
    (hsessId : idType .sessionId = some .string) (huserName : idType .username = some .string) :
    ToTs Unit := do
  appendTo api .sessionId (.string info.sessId) hsessId
  appendTo api .username (.string info.userName) huserName

theorem sim_sessionFields :
    Simulates (SameEncoder api info) (SameEncoder api info) (SameEncoder api info)
      (sessionFields api info rfl rfl) (Uncached.appendSession api info) :=
  (sim_appendTo _ _ _).bind fun _ => sim_appendTo _ _ _

theorem appendSession_of_none {s : MsgToTs} (hs : s.cache = none) :
    appendSession api info s = (sessionFields api info rfl rfl >>= fun _ => cacheSince s) s := by
  have hstart : (get : ToTs MsgToTs) s = .ok s s := rfl
  unfold sessionFields
  rw [appendSession, Enc.bind_of_ok hstart, hs, bind_assoc]

theorem sim_appendSession :
    Simulates (SameEncoderAt api info sessionOffset) (SameEncoder api info)
      (SameEncoder api info) (appendSession api info) (Uncached.appendSession api info) := by
  rintro s e ⟨⟨rfl, hcache⟩, hoffset⟩
  cases hs : s.cache with
  | some cached =>
      have hstart : (get : ToTs MsgToTs) s = .ok s s := rfl
      have hfit : s.offset + sessionSize info ≤ api.maxDataSize := by
        rw [hoffset]
        exact hcache.fits (by rw [hs]; rfl)
      have hwrite : encode (appendRaw api (sessionBytes api info)) s =
          .ok () { s with toMsgEncoder := s.wrote (sessionBytes api info) } := by
        unfold encode appendRaw
        rw [if_neg (by rw [length_sessionBytes, sessionSize, stringFieldSize]; omega),
          if_neg (by rw [length_sessionBytes]; omega)]
      rw [appendSession, Enc.bind_of_ok hstart, hs, hcache.session cached hs,
        uncached_appendSession_ok hfit]
      simp only [appendBuffer]
      rw [Enc.bind_of_ok hwrite]
      exact .ok ⟨rfl, ⟨hcache.session, hcache.fits⟩⟩
  | none =>
      rw [appendSession_of_none hs]
      have halike := sim_sessionFields s s.toMsgEncoder ⟨rfl, hcache⟩
      generalize hslow : sessionFields api info rfl rfl s = left at halike
      generalize hplain : Uncached.appendSession api info s.toMsgEncoder = right at halike
      cases halike with
      | error hsame =>
          simp only [bind, EStateM.bind, hslow]
          exact .error hsame
      | ok hsame =>
          rw [Enc.bind_of_ok hslow]
          have hfit := fits_of_uncached_appendSession_ok hplain
          rw [uncached_appendSession_ok hfit] at hplain
          cases hplain
          refine .ok ⟨hsame.encoder, ?_, ?_⟩
          · intro cached hcached
            rw [← Option.some.inj hcached, hsame.encoder]
            simp only [MsgEncoder.wrote, Nat.add_sub_cancel_left, Memory.read_write_self]
            congr 1
            exact add_sub_cancel_left _ _
          · intro _
            rw [← hoffset]
            exact hfit

/-! ## The whole conversion -/

theorem sim_appendSourceId (msg : FixMessage) :
    Simulates (SameEncoder api info) (SameEncoder api info) (SameEncoder api info)
      (appendSourceId api msg) (Uncached.appendSourceId api msg) := by
  apply Simulates.tryCatch
  · exact (sim_fromExcept _).bind fun _ => sim_appendTo _ _ _
  · intro err
    split_ifs
    · exact Simulates.pure ()
    · exact Simulates.throw err fun _ _ hsame => hsame

theorem sim_appendOrderBody {SessionID : Type} (fix : QuickFix SessionID) (msg : FixMessage) :
    Simulates (SameEncoderAt api info sizeofMsgHeader) (SameEncoder api info)
      (SameEncoder api info) (appendOrderBody api fix info msg)
      (Uncached.appendOrderBody api fix info msg) := by
  have hprice : Simulates (SameEncoder api info) (SameEncoder api info) (SameEncoder api info)
      _ _ :=
    (sim_fromExcept (msg.getField .price)).bind fun price =>
    (sim_fromExcept (fieldValue fix.doubleOfString price)).bind fun priceValue =>
    sim_appendTo .price (.decimal priceValue) rfl
  refine sim_submitOrder.bind fun _ =>
    (sim_addNumFields _ _).bind fun _ =>
    sim_appendSession.bind fun _ =>
    (sim_appendSourceId msg).bind fun _ =>
    (sim_fromExcept _).bind fun symbol =>
    (sim_appendTo _ _ _).bind fun _ =>
    (sim_appendTo _ _ _).bind fun _ =>
    (sim_appendTo _ _ _).bind fun _ =>
    (sim_fromExcept _).bind fun clOrdID =>
    (sim_appendTo _ _ _).bind fun _ =>
    (sim_fromExcept _).bind fun orderQty =>
    (sim_fromExcept _).bind fun size =>
    (sim_appendTo _ _ _).bind fun _ =>
    (sim_fromExcept _).bind fun side =>
    (sim_fromExcept _).bind fun sideChar =>
    (sim_appendTo _ _ _).bind fun _ =>
    (sim_fromExcept _).bind fun ordType =>
    (sim_fromExcept _).bind fun ordTypeChar => ?_
  split_ifs
  · exact (Simulates.throw _ fun _ _ hsame => hsame).bind fun _ => hprice
  · exact hprice

theorem sim_appendMsgBody {SessionID : Type} (fix : QuickFix SessionID) (platform : Platform)
    (config : SessionInfo) (request : FixRequest) (msg : FixMessage) :
    Simulates (SameEncoderAt api config.logonInfo sizeofMsgHeader)
      (SameEncoder api config.logonInfo) (SameEncoder api config.logonInfo)
      (appendMsgBody api fix platform config msg request)
      (Uncached.appendMsgBody api fix platform config msg request) := by
  cases request with
  | logon => exact (sim_encode _).mono fun _ _ hsame => hsame.1
  | newOrderSingle => exact sim_appendOrderBody fix msg
  | orderCancelReplaceRequest =>
      exact (sim_appendOrderBody fix msg).bind fun _ =>
        (sim_fromExcept _).bind fun _ => sim_appendTo _ _ _

theorem sim_convertRequest {SessionID : Type} (fix : QuickFix SessionID) (platform : Platform)
    (config : SessionInfo) (request : FixRequest) (msg : FixMessage) :
    Simulates (SameEncoder api config.logonInfo) (SameEncoder api config.logonInfo)
      (SameEncoder api config.logonInfo)
      (convertRequest api fix platform config request msg)
      (Uncached.convertRequest api fix platform config request msg) := by
  have hreset : Simulates (SameEncoder api config.logonInfo) (SameEncoder api config.logonInfo)
      (SameEncoder api config.logonInfo)
      (modify fun s => { s with offset := 0, numFields := 0 } : ToTs Unit)
      (modify fun e => { e with offset := 0, numFields := 0 } : Enc Unit) := by
    rintro s e ⟨rfl, hcache⟩
    exact .ok ⟨rfl, ⟨hcache.session, hcache.fits⟩⟩
  have hskip : Simulates (SameEncoder api config.logonInfo)
      (SameEncoderAt api config.logonInfo sizeofMsgHeader) (SameEncoder api config.logonInfo)
      (encode (setOffset sizeofMsgHeader)) (setOffset sizeofMsgHeader) := by
    rintro s e ⟨rfl, hcache⟩
    exact .ok ⟨⟨rfl, ⟨hcache.session, hcache.fits⟩⟩, rfl⟩
  exact hreset.bind fun _ =>
    (sim_fromExcept _).bind fun _ =>
    (sim_fromExcept _).bind fun _ =>
    hskip.bind fun _ =>
    (sim_appendMsgBody fix platform config request msg).bind fun _ =>
    sim_encode _

theorem sameEncoder_setters (config : SessionInfo) (call : RequestCall) :
    SameEncoder api (call.config config).logonInfo = SameEncoder api config.logonInfo := by
  funext s e
  apply propext
  constructor
  · intro h
    exact ⟨h.encoder, ⟨h.cache.session, h.cache.fits⟩⟩
  · intro h
    exact ⟨h.encoder, ⟨h.cache.session, h.cache.fits⟩⟩

theorem sim_encodeRequest {SessionID : Type} (fix : QuickFix SessionID) (platform : Platform)
    (config : SessionInfo) (call : RequestCall) :
    Simulates (SameEncoder api config.logonInfo) (SameEncoder api config.logonInfo)
      (SameEncoder api config.logonInfo) (call.encode api fix platform config)
      (call.encodeUncached api fix platform config) := by
  have hbuffer : Simulates (SameEncoder api config.logonInfo)
      (SameEncoder api config.logonInfo) (SameEncoder api config.logonInfo)
      (modify fun s => { s with data := call.buffer } : ToTs Unit)
      (modify fun e => { e with data := call.buffer } : Enc Unit) := by
    rintro s e ⟨rfl, hcache⟩
    exact .ok ⟨rfl, ⟨hcache.session, hcache.fits⟩⟩
  have hconvert := @sim_convertRequest api SessionID fix platform (call.config config)
    call.request call.msg
  rw [sameEncoder_setters] at hconvert
  exact hbuffer.bind fun _ => hconvert

theorem sameEncoder_start (info : SessionLogonInfo) :
    SameEncoder api info .start MsgToTs.start.toMsgEncoder :=
  ⟨rfl, ⟨nofun, nofun⟩⟩

/-- With the cache and without it every sequence of requests ends alike, request by
request. -/
theorem encodeRequests_eq_uncached (api : Espd) {SessionID : Type} (fix : QuickFix SessionID)
    (platform : Platform) (config : SessionInfo) (calls : List RequestCall) :
    encodeRequests api fix platform config calls =
      encodeRequestsUncached api fix platform config calls :=
  outcomes_eq (fun _ _ hsame => hsame.encoder) (sim_encodeRequest fix platform config) calls
    (sameEncoder_start config.logonInfo)

end Cache

end CppPlay.FixAdapter
