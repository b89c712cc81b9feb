import CppPlay.FixAdapter.BufferConservation
import CppPlay.FixAdapter.MsgFraming
import CppPlay.FixAdapter.OrderEncoding
import CppPlay.FixAdapter.TsWriter
import CppPlay.Lib.Threads

/-!
# The way of a request

A request goes from its session through a buffer into the queue of the session's
trading system and from there to the socket.  What comes out is a matter of the
request and the session's settings: neither what the buffer held before nor what
the converter has cached shows in it, and nothing of it goes to another system.  A
batch that could not be written is written again, so that what arrives depends on how
far the failed writes came.
-/

namespace CppPlay.FixAdapter

open CppPlay.Lib

/-! ## What a request says -/

section Specification

variable (api : Espd) {SessionID : Type} (fix : QuickFix SessionID) (platform : Platform)

def requestFields (config : SessionInfo) (msg : FixMessage) (request : FixRequest) :
    Except CppException (List (FieldId × FieldValue)) :=
  if request = .logon then
    .ok ((logonFields platform config).map fun field => (field.id, field.value))
  else Order.fields api config.logonInfo <$> readRequest fix msg request

def msgOf (seqNum : UInt32) (request : FixRequest) (fields : List (FieldId × FieldValue)) :
    List Byte :=
  (MsgHeader.make api seqNum (api.msgTypeCode request.espdType) espdFlag
      (UInt16.ofNat fields.length) (UInt16.ofNat (fieldsBytesOf api fields).length)).bytes api ++
    fieldsBytesOf api fields

/-- The message that a request makes, if its texts convert and its fields fit. -/
def requestMsg? (config : SessionInfo) (request : FixRequest) (msg : FixMessage) :
    Option (List Byte) :=
  match msg.getField .msgSeqNum >>= castSeqNum platform,
      requestFields api fix platform config msg request with
  | .ok seqNum, .ok fields =>
      if sizeofMsgHeader + (fieldsBytesOf api fields).length ≤ api.maxDataSize then
        some (msgOf api seqNum request fields)
      else none
  | _, _ => none

end Specification

/-! ## Programs that append or throw -/

/-- The program appends the fields that `outcome` says, and throws where there are none or
where they do not fit. -/
def Appends (api : Espd) (outcome : Except CppException (List (FieldId × FieldValue)))
    (x : Enc Unit) : Prop :=
  ∀ e : MsgEncoder,
    match x e with
    | .ok _ e' => ∃ fields, outcome = .ok fields ∧ e' = e.wroteFields api fields ∧
        (fields = [] ∨ e'.offset ≤ api.maxDataSize)
    | .error _ _ => ∀ fields, outcome = .ok fields →
        api.maxDataSize < e.offset + (fieldsBytesOf api fields).length

theorem length_fieldsBytesOf_append (api : Espd) (fields fields' : List (FieldId × FieldValue)) :
    (fieldsBytesOf api (fields ++ fields')).length =
      (fieldsBytesOf api fields).length + (fieldsBytesOf api fields').length := by
  rw [fieldsBytesOf, List.flatMap_append, List.length_append]
  rfl

namespace Appends

variable {api : Espd} {outcome outcome' : Except CppException (List (FieldId × FieldValue))}
  {x y : Enc Unit}

theorem of_ok {fields : List (FieldId × FieldValue)}
    (hok : ∀ e : MsgEncoder, e.offset + (fieldsBytesOf api fields).length ≤ api.maxDataSize →
      x e = .ok () (e.wroteFields api fields))
    (herror : ∀ e : MsgEncoder,
      api.maxDataSize < e.offset + (fieldsBytesOf api fields).length →
        ∃ err e', x e = .error err e') :
    Appends api (.ok fields) x := by
  intro e
  by_cases hfit : e.offset + (fieldsBytesOf api fields).length ≤ api.maxDataSize
  · rw [hok e hfit]
    exact ⟨fields, rfl, rfl, Or.inr hfit⟩
  · obtain ⟨err, e', hthrows⟩ := herror e (not_le.mp hfit)
    rw [hthrows]
    intro fields' hfields
    cases hfields
    exact not_le.mp hfit

theorem nothing {x : Enc Unit} (hx : ∀ e, x e = .ok () e) : Appends api (.ok []) x := by
  intro e
  rw [hx e]
  exact ⟨[], rfl, e.wroteFields_nil.symm, Or.inl rfl⟩

theorem throw (err : CppException) : Appends api (.error err) (throw err) :=
  fun _ _ hfields => nomatch hfields

/-- `if c then throw err; rest`, as the do-notation has it. -/
theorem ite (c : Prop) [Decidable c] (err : CppException) (hy : Appends api outcome y) :
    Appends api (if c then .error err else outcome)
      (if c then MonadExcept.throw err >>= fun _ : Unit => y else y) := by
  split_ifs
  · exact fun _ _ hfields => nomatch hfields
  · exact hy

theorem appendTo (ident : FieldId) (value : FieldValue) (htype : some value.type = idType ident) :
    Appends api (.ok [(ident, value)]) (Uncached.appendTo api ident value htype) := by
  have hbytes : fieldsBytesOf api [(ident, value)] = MsgField.bytes api ident value := by
    simp [fieldsBytesOf]
  apply of_ok
  · intro e hfit
    rw [hbytes] at hfit
    rw [uncached_appendTo_ok htype hfit, MsgEncoder.wroteFields_singleton]
  · intro e hfull
    rw [hbytes] at hfull
    exact ⟨_, _, appendField_error hfull⟩

theorem bind (hx : Appends api outcome x) (hy : Appends api outcome' y) :
    Appends api
      (do
        let fields ← outcome
        let fields' ← outcome'
        pure (fields ++ fields'))
      (x >>= fun _ => y) := by
  intro e
  have hfirst := hx e
  cases hxe : x e with
  | error err e' =>
      rw [hxe] at hfirst
      rw [Enc.bind_of_error hxe]
      intro both hboth
      cases outcome with
      | error err => cases hboth
      | ok fields =>
          cases outcome' with
          | error err => cases hboth
          | ok fields' =>
              cases hboth
              rw [length_fieldsBytesOf_append]
              exact (hfirst fields rfl).trans_le (by omega)
  | ok u e' =>
      rw [hxe] at hfirst
      obtain ⟨fields, rfl, rfl, hroom⟩ := hfirst
      have hsecond := hy (e.wroteFields api fields)
      rw [Enc.bind_of_ok hxe]
      cases hye : y (e.wroteFields api fields) with
      | error err e'' =>
          rw [hye] at hsecond
          intro both hboth
          cases outcome' with
          | error err => cases hboth
          | ok fields' =>
              cases hboth
              have hfull := hsecond fields' rfl
              rw [MsgEncoder.wroteFields_offset] at hfull
              rw [length_fieldsBytesOf_append]
              omega
      | ok u e'' =>
          rw [hye] at hsecond
          obtain ⟨fields', rfl, rfl, hroom'⟩ := hsecond
          refine ⟨fields ++ fields', rfl, (e.wroteFields_append fields fields').symm, ?_⟩
          rcases hroom' with rfl | hroom'
          · rw [List.append_nil, MsgEncoder.wroteFields_nil]
            exact hroom
          · exact Or.inr hroom'

theorem read {α : Type} (r : Except CppException α) {f : α → Enc Unit}
    {next : α → Except CppException (List (FieldId × FieldValue))}
    (hf : ∀ a, Appends api (next a) (f a)) :
    Appends api (r >>= next) (Uncached.fromExcept r >>= f) := by
  cases r with
  | ok a => exact hf a
  | error err => exact fun _ _ hfields => nomatch hfields

theorem text (msg : FixMessage) (tag : FixTag) (ident : FieldId)
    (htype : some .string = idType ident) :
    Appends api (msg.getField tag >>= fun text => .ok [(ident, .string text)])
      (Uncached.fromExcept (msg.getField tag) >>= fun text =>
        Uncached.appendTo api ident (.string text) htype) :=
  Appends.read (msg.getField tag) fun text => Appends.appendTo ident (.string text) htype

theorem text_bind (msg : FixMessage) (tag : FixTag) (ident : FieldId)
    (htype : some .string = idType ident) (hy : Appends api outcome y) :
    Appends api
      (do
        let fields ← msg.getField tag >>= fun text => .ok [(ident, .string text)]
        let fields' ← outcome
        pure (fields ++ fields'))
      (Uncached.fromExcept (msg.getField tag) >>= fun text =>
        Uncached.appendTo api ident (.string text) htype >>= fun _ => y) := by
  have hboth := (Appends.text msg tag ident htype).bind hy
  simp only [bind_assoc] at hboth ⊢
  exact hboth

end Appends

/-! ## The conversion -/

section Conversion

variable {api : Espd} {SessionID : Type} {fix : QuickFix SessionID} {platform : Platform}
  {config : SessionInfo} {request : FixRequest} {msg : FixMessage} {info : SessionLogonInfo}

theorem appends_submitOrder :
    Appends api (.ok (submitOrderFields api))
      (appendObj api (submitOrder api) >>= fun _ => addNumFields 5) := by
  apply Appends.of_ok
  · intro e hfit
    rw [← submitOrder_eq] at hfit
    rw [Enc.bind_of_ok (appendObj_ok hfit), submitOrder_eq]
    rfl
  · intro e hfull
    rw [← submitOrder_eq] at hfull
    exact ⟨_, _, Enc.bind_of_error (appendObj_error hfull)⟩

theorem appends_appendSession :
    Appends api (.ok [(.sessionId, .string info.sessId), (.username, .string info.userName)])
      (Uncached.appendSession api info) :=
  (Appends.appendTo .sessionId (.string info.sessId) rfl).bind
    (Appends.appendTo .username (.string info.userName) rfl)

/-- The handler looks for a missing `SenderSubID` only: a field that does not fit throws on. -/
theorem appends_appendSourceId :
    Appends api (.ok (sourceFields (msg .senderSubID))) (Uncached.appendSourceId api msg) := by
  cases htag : msg .senderSubID with
  | none =>
      have hmissing : ∀ e, (Uncached.fromExcept (msg.getField .senderSubID) >>= fun senderSubID =>
          Uncached.appendTo api .sourceId (.string senderSubID) rfl) e =
            .error .fieldNotFound e := by
        intro e
        rw [FixMessage.getField, htag]
        rfl
      apply Appends.nothing
      intro e
      simp only [Uncached.appendSourceId, tryCatch, tryCatchThe, MonadExceptOf.tryCatch,
        EStateM.tryCatch, hmissing]
      rfl
  | some senderSubID =>
      have hbytes : fieldsBytesOf api (sourceFields (some senderSubID)) =
          MsgField.bytes api .sourceId (.string senderSubID) := by
        simp [fieldsBytesOf, sourceFields]
      have happend : ∀ e, (Uncached.fromExcept (msg.getField .senderSubID) >>= fun senderSubID =>
          Uncached.appendTo api .sourceId (.string senderSubID) rfl) e =
            Uncached.appendTo api .sourceId (.string senderSubID) rfl e := by
        intro e
        rw [getField_of_some htag]
        rfl
      apply Appends.of_ok
      · intro e hfit
        rw [hbytes] at hfit
        simp only [Uncached.appendSourceId, tryCatch, tryCatchThe, MonadExceptOf.tryCatch,
          EStateM.tryCatch, happend, uncached_appendTo_ok rfl hfit, sourceFields, Option.map_some,
          Option.toList_some, MsgEncoder.wroteFields_singleton]
      · intro e hfull
        rw [hbytes] at hfull
        have hthrows : Uncached.appendTo api .sourceId (.string senderSubID) rfl e = _ :=
          appendField_error hfull
        simp only [Uncached.appendSourceId, tryCatch, tryCatchThe, MonadExceptOf.tryCatch,
          EStateM.tryCatch, happend, hthrows]
        exact ⟨bufferTooSmall, _, rfl⟩

theorem appends_appendOrderBody :
    Appends api (Order.fields api info <$> readOrder fix msg)
      (Uncached.appendOrderBody api fix info msg) := by
  have hprice : Appends api _ _ :=
    Appends.read (msg.getField .price) fun price =>
    Appends.read (fieldValue fix.doubleOfString price) fun priceValue =>
    Appends.appendTo .price (.decimal priceValue) rfl
  have hordType : Appends api _ _ :=
    Appends.read (msg.getField .ordType) fun ordType =>
    Appends.read (fieldValue fix.charOfString ordType) fun ordTypeChar =>
    Appends.ite (ordTypeChar = ordTypeMarket ∧ msg.isSet .price)
      (.rejectError "Market order cannot have price. ") hprice
  have hbody : Appends api _ _ :=
    appends_submitOrder.bind <|
    (@appends_appendSession api info).bind <|
    (@appends_appendSourceId api msg).bind <|
    Appends.text_bind msg .symbol .instName rfl <|
    (Appends.appendTo .tsId (.uint32 info.tsId) rfl).bind <|
    (Appends.appendTo .extTsSessionId (.uint32 info.xsessId) rfl).bind <|
    Appends.text_bind msg .clOrdID .clientOrderId rfl <|
    Appends.read (msg.getField .orderQty) fun orderQty =>
    Appends.read (fieldValue fix.doubleOfString orderQty) fun size =>
    (Appends.appendTo .size (.decimal size) rfl).bind <|
    Appends.read (msg.getField .side) fun side =>
    Appends.read (fieldValue fix.charOfString side) fun sideChar =>
    (Appends.appendTo .indicator (.byte (getIndicator api sideChar)) rfl).bind hordType
  convert hbody using 1
  · have hok : ∀ fields : List (FieldId × FieldValue),
        (Except.ok fields : Except CppException _) = pure fields := fun _ => rfl
    simp only [readOrder, hok, map_bind, bind_assoc, pure_bind]
    refine bind_congr fun symbol => bind_congr fun clOrdID => bind_congr fun orderQty =>
      bind_congr fun size => bind_congr fun side => bind_congr fun sideChar =>
      bind_congr fun ordType => bind_congr fun ordTypeChar => ?_
    split_ifs
    · rfl
    · simp [Order.fields]
  · rw [bind_assoc]
    rfl

theorem appends_appendFields (fields : List Field) :
    Appends api (.ok (fields.map fun field => (field.id, field.value)))
      (appendFields api (fields.map .byValue)) := by
  induction fields with
  | nil => exact Appends.nothing fun _ => rfl
  | cons field fields ih =>
      exact (Appends.appendTo field.id field.value field.idType_eq.symm).bind ih

theorem appends_appendMsgBody :
    Appends api (requestFields api fix platform config msg request)
      (Uncached.appendMsgBody api fix platform config msg request) := by
  cases request with
  | logon => exact appends_appendFields _
  | newOrderSingle => exact appends_appendOrderBody
  | orderCancelReplaceRequest =>
      have hboth := (@appends_appendOrderBody api SessionID fix msg config.logonInfo).bind
        (Appends.text msg .origClOrdID .origClientOrderId rfl)
      convert hboth using 1
      · simp only [requestFields, readRequest]
        cases hread : readOrder fix msg with
        | error err => rfl
        | ok order =>
            cases msg.getField .origClOrdID with
            | error err => rfl
            | ok origClOrdID =>
                change Except.ok _ = Except.ok _
                simp [Order.fields, origClOrdID_of_readOrder hread]
      · rfl

/-- A message at the front of a buffer: header and body, and the header says how long it is. -/
structure HoldsMsg (api : Espd) (data : Memory Byte) (bytes : List Byte) : Prop where
  read : data.read 0 bytes.length = bytes
  size : bytes.length = sizeofMsgHeader + (MsgHeader.getLength api data).toNat

theorem length_msgOf (seqNum : UInt32) (fields : List (FieldId × FieldValue)) :
    (msgOf api seqNum request fields).length =
      sizeofMsgHeader + (fieldsBytesOf api fields).length := by
  rw [msgOf, List.length_append, MsgHeader.length_bytes]

/-- `insertHdr` behind the fields makes them a message. -/
theorem insertHdr_wroteFields (buffer : Memory Byte) (seqNum : UInt32)
    {fields : List (FieldId × FieldValue)}
    (hfit : sizeofMsgHeader + (fieldsBytesOf api fields).length ≤ api.maxDataSize) :
    ∃ e', insertHdr api seqNum (api.msgTypeCode request.espdType) espdFlag
        ((⟨buffer, sizeofMsgHeader, 0⟩ : MsgEncoder).wroteFields api fields) = .ok () e' ∧
      HoldsMsg api e'.data (msgOf api seqNum request fields) := by
  let filled := (⟨buffer, sizeofMsgHeader, 0⟩ : MsgEncoder).wroteFields api fields
  have hmax := api.maxDataSize_le
  have hoffset : filled.offset = sizeofMsgHeader + (fieldsBytesOf api fields).length := rfl
  have hinsert := @insertHdr_ok api filled seqNum (api.msgTypeCode request.espdType) espdFlag
    (by rw [hoffset]; exact Nat.le_add_right _ _) (by rwa [hoffset])
  have hnum : filled.numFields = UInt16.ofNat fields.length := UInt16.zero_add _
  have hbody : filled.offset - sizeofMsgHeader = (fieldsBytesOf api fields).length := by
    rw [hoffset, Nat.add_sub_cancel_left]
  rw [hnum, hbody] at hinsert
  refine ⟨_, hinsert, ?_⟩
  have hread : ∀ hdr : MsgHeader,
      (filled.data.write 0 (hdr.bytes api)).read 0 sizeofMsgHeader = hdr.bytes api := by
    intro hdr
    have hself := filled.data.read_write_self 0 (hdr.bytes api)
    rwa [MsgHeader.length_bytes] at hself
  constructor
  · rw [length_msgOf, Memory.read_add, hread]
    rw [Memory.read_write_of_disjoint _ (by right; simp), Nat.zero_add]
    exact congrArg _ (Memory.read_write_self _ _ _)
  · rw [length_msgOf, ((MsgHeader.get_of_read api (hread _))).2.2, MsgHeader.make,
      UInt16.toNat_ofNat', Nat.mod_eq_of_lt (by simp only [sizeofMsgHeader] at hfit; omega)]

theorem fromExcept_bind {α β : Type} (r : Except CppException α) (f : α → Except CppException β)
    (g : β → Enc Unit) :
    (Uncached.fromExcept r >>= fun a => Uncached.fromExcept (f a) >>= g) =
      Uncached.fromExcept (r >>= f) >>= g := by
  cases r with
  | ok a => rfl
  | error err => rfl

theorem requestFields_ne_nil {fields : List (FieldId × FieldValue)}
    (hfields : requestFields api fix platform config msg request = .ok fields) : fields ≠ [] := by
  unfold requestFields at hfields
  split_ifs at hfields with hlogon
  · cases hfields
    exact List.cons_ne_nil _ _
  · cases hread : readRequest fix msg request with
    | error err => rw [hread] at hfields; cases hfields
    | ok order =>
        rw [hread] at hfields
        cases hfields
        exact List.cons_ne_nil _ _

/-- The program ends with a message in its buffer, or throws if there is none. -/
def Makes (api : Espd) (expected : Option (List Byte)) :
    EStateM.Result CppException MsgEncoder Unit → Prop
  | .ok _ e => ∃ bytes, expected = some bytes ∧ HoldsMsg api e.data bytes
  | .error _ _ => expected = none

theorem uncached_convertRequest (e : MsgEncoder) :
    Makes api (requestMsg? api fix platform config request msg)
      (Uncached.convertRequest api fix platform config request msg e) := by
  have hreset : (modify fun s : MsgEncoder => { s with offset := 0, numFields := 0 } : Enc Unit)
      e = .ok () ⟨e.data, 0, 0⟩ := rfl
  have hskip : setOffset sizeofMsgHeader ⟨e.data, 0, 0⟩ =
      .ok () (⟨e.data, sizeofMsgHeader, 0⟩ : MsgEncoder) := rfl
  have hbody := @appends_appendMsgBody api SessionID fix platform config request msg
    ⟨e.data, sizeofMsgHeader, 0⟩
  unfold Uncached.convertRequest requestMsg?
  rw [Enc.bind_of_ok hreset, fromExcept_bind]
  cases msg.getField .msgSeqNum >>= castSeqNum platform with
  | error err => rfl
  | ok seqNum =>
      simp only [Uncached.fromExcept, pure_bind]
      rw [Enc.bind_of_ok hskip]
      cases hx : Uncached.appendMsgBody api fix platform config msg request
          ⟨e.data, sizeofMsgHeader, 0⟩ with
      | error err e' =>
          rw [hx] at hbody
          rw [Enc.bind_of_error hx]
          cases hfields : requestFields api fix platform config msg request with
          | error err => rfl
          | ok fields => exact if_neg (not_le.mpr (hbody fields hfields))
      | ok u e' =>
          rw [hx] at hbody
          obtain ⟨fields, hfields, rfl, hroom⟩ := hbody
          have hfit := hroom.resolve_left (requestFields_ne_nil hfields)
          obtain ⟨e', hinsert, hholds⟩ :=
            @insertHdr_wroteFields api request e.data seqNum fields hfit
          rw [Enc.bind_of_ok hx, hinsert, hfields]
          exact ⟨_, if_pos hfit, hholds⟩

/-- With the cache it is the same message. -/
theorem convertRequest_makes {s : MsgToTs} (hcache : s.CacheHolds api config.logonInfo) :
    match convertRequest api fix platform config request msg s with
    | .ok _ s' => Makes api (requestMsg? api fix platform config request msg)
        (.ok () s'.toMsgEncoder) ∧ s'.CacheHolds api config.logonInfo
    | .error _ s' => requestMsg? api fix platform config request msg = none ∧
        s'.CacheHolds api config.logonInfo := by
  have halike := sim_convertRequest fix platform config request msg s s.toMsgEncoder ⟨rfl, hcache⟩
  have hplain := @uncached_convertRequest api SessionID fix platform config request msg
    s.toMsgEncoder
  generalize convertRequest api fix platform config request msg s = left at halike ⊢
  generalize Uncached.convertRequest api fix platform config request msg s.toMsgEncoder = right
    at halike hplain
  cases halike with
  | ok hsame =>
      refine ⟨?_, hsame.cache⟩
      rw [hsame.encoder]
      exact hplain
  | error hsame => exact ⟨hplain, hsame.cache⟩

end Conversion

/-! ## Buffers as messages -/

/-- What the writer sends of a buffer. -/
def Buffer.msg (api : Espd) (buf : Buffer) : List Byte :=
  buf.data.read 0 (sizeofMsgHeader + (MsgHeader.getLength api buf.data).toNat)

theorem HoldsMsg.msg_eq {api : Espd} {buf : Buffer} {bytes : List Byte}
    (hholds : HoldsMsg api buf.data bytes) : buf.msg api = bytes := by
  rw [Buffer.msg, ← hholds.size, hholds.read]

theorem Buffer.isWord_msg (api : Espd) (buf : Buffer) : (msgCode api).IsWord (buf.msg api) := by
  have hlength : announcedLength api (buf.msg api) = (MsgHeader.getLength api buf.data).toNat := by
    rw [announcedLength, Buffer.msg, Memory.drop_read _ (by simp only [sizeofMsgHeader]; omega),
      Memory.take_read _ (by simp only [sizeofMsgHeader]; omega)]
    rfl
  exact (msgSize_eq_some_iff api).mpr ⟨by rw [hlength, Buffer.msg, Memory.length_read], le_rfl⟩

/-! ## The adapter and what it has sent -/

/-- The settings of a session once the trading system has numbered it. -/
def SessionInfo.withXsessId (xsessId : UInt32) (config : SessionInfo) : SessionInfo :=
  { config with logonInfo := { config.logonInfo with xsessId := xsessId } }

/-- The adapter with its writers, and for each trading system the messages of the batches that
its writer has finished. -/
structure SendingAdapter (SessionID : Type) where
  adapter : Adapter SessionID
  writers : UInt32 → TsWriter
  sent : UInt32 → List (List Byte)

section Adapter

variable (api : Espd) {SessionID : Type} [DecidableEq SessionID] (fix : QuickFix SessionID)
  (platform : Platform)

omit [DecidableEq SessionID] in
def Adapter.queuedMsgs (s : Adapter SessionID) (ts : UInt32) : List (List Byte) :=
  (s.fixToTs ts).elim [] fun router => router.queue.map (Buffer.msg api)

/-- The message that a call adds to the queue of a trading system: that of a request of one of
its sessions which finds a buffer. -/
def Adapter.accepted (s : Adapter SessionID) (ts : UInt32) :
    AdapterCall SessionID → Option (List Byte)
  | .request session request msg =>
      match s.config.sessionsSettings session, s.fixToTs ts with
      | some config, some router =>
          if config.logonInfo.tsId = ts ∧ router.pool ≠ [] then
            requestMsg? api fix platform config request msg
          else none
      | _, _ => none
  | _ => none

def Adapter.acceptedIn (ts : UInt32) : Adapter SessionID → List (AdapterCall SessionID) →
    List (List Byte)
  | _, [] => []
  | s, call :: calls =>
      (s.accepted api fix platform ts call).toList ++
        Adapter.acceptedIn ts (s.step api fix platform call) calls

namespace SendingAdapter

/-- Routers begin with an empty queue. -/
def start (settings : SessionID → Option SessionInfo) (pools : UInt32 → Option (List Buffer))
    (tsToFix : FixTsRouters) (sockets : UInt32 → Inbound) : SendingAdapter SessionID where
  adapter := .start settings (fun ts => (pools ts).map fun pool => ⟨pool, []⟩) tsToFix sockets
  writers _ := .start
  sent _ := []

/-- A call comes with the failed writes that it makes before it is done. -/
def step (s : SendingAdapter SessionID) (input : AdapterCall SessionID × List (ℕ × Bool)) :
    SendingAdapter SessionID where
  adapter := s.adapter.step api fix platform input.1
  writers :=
    match input.1 with
    | .written ts =>
        Function.update s.writers ts
          ((s.writers ts).run [s.adapter.queuedMsgs api ts] (writeOutcomes input.2))
    | _ => s.writers
  sent :=
    match input.1 with
    | .written ts => Function.update s.sent ts (s.sent ts ++ s.adapter.queuedMsgs api ts)
    | _ => s.sent

/-- No failed write to the trading system leaves a trace. -/
def Harmless (ts : UInt32) (s : SendingAdapter SessionID)
    (input : AdapterCall SessionID × List (ℕ × Bool)) : Prop :=
  input.1 = .written ts → ∀ failure ∈ input.2,
    HarmlessFailure (s.adapter.queuedMsgs api ts) failure.1 failure.2

end SendingAdapter

variable {api fix platform} {settings : SessionID → Option SessionInfo}

/-! ### Sessions keep their settings -/

omit [DecidableEq SessionID] in
theorem exists_withXsessId (info : Option SessionInfo) :
    ∃ x, info = info.map (SessionInfo.withXsessId x) := by
  cases info with
  | none => exact ⟨0, rfl⟩
  | some info => exact ⟨info.logonInfo.xsessId, rfl⟩

theorem setSessId_withXsessId (config : SessionsInfo SessionID) (id : SessionID)
    (xsessId tsId : UInt32) (session : SessionID) :
    ∃ x, (config.setSessId id xsessId tsId).2.sessionsSettings session =
      (config.sessionsSettings session).map (SessionInfo.withXsessId x) := by
  have hkept := exists_withXsessId (config.sessionsSettings session)
  rw [SessionsInfo.setSessId]
  cases hinfo : config.getLogonInfo id with
  | none => exact hkept
  | some info =>
      rw [SessionsInfo.getLogonInfo, Option.map_eq_some_iff] at hinfo
      obtain ⟨found, hfound, rfl⟩ := hinfo
      dsimp only
      split_ifs with hts
      · exact hkept
      · by_cases hother : session = id
        · refine ⟨xsessId, ?_⟩
          simp [SessionsInfo.storeLogonInfo, hother, hfound, SessionInfo.withXsessId]
        · simpa [SessionsInfo.storeLogonInfo, hother] using hkept

/-- A response changes the settings by a logon at most. -/
theorem convert_config (config : SessionsInfo SessionID) (conv : MsgFromTs SessionID)
    (p : MsgFromTSParser) :
    (conv.convert api fix platform config p).2.2 = config ∨
      ∃ id xsessId tsId, (conv.convert api fix platform config p).2.2 =
        (config.setSessId id xsessId tsId).2 := by
  rw [MsgFromTs.convert]
  split_ifs with hnotify hconnect
  · exact Or.inl rfl
  · cases hreply : manageConnectReply api fix config p with
    | error err => exact Or.inl rfl
    | ok config' =>
        refine Or.inr ?_
        rw [manageConnectReply] at hreply
        split_ifs at hreply
        generalize hset : config.setSessId _ _ _ = result at hreply
        obtain ⟨accepted, info⟩ := result
        cases accepted with
        | false => cases hreply
        | true =>
            cases hreply
            exact ⟨_, _, _, (congrArg Prod.snd hset).symm⟩
  · exact Or.inl rfl

variable (api settings) in
/-- Every session keeps its settings but for the number of its logon, and its converter has
cached nothing else than the session's two fields. -/
structure Adapter.KeepsSessions (s : Adapter SessionID) : Prop where
  settings : ∀ session, ∃ x,
    s.config.sessionsSettings session = (settings session).map (SessionInfo.withXsessId x)
  caches : ∀ session config, s.config.sessionsSettings session = some config → ∀ data,
    (⟨⟨data, 0, 0⟩, s.caches session⟩ : MsgToTs).CacheHolds api config.logonInfo


namespace Adapter

variable {s s' : Adapter SessionID}

omit [DecidableEq SessionID] in
theorem queuedMsgs_update {ts : UInt32} {router : PooledQueue Buffer}
    (hupdate : s'.fixToTs = Function.update s.fixToTs ts (some router)) (other : UInt32) :
    s'.queuedMsgs api other =
      if other = ts then router.queue.map (Buffer.msg api) else s.queuedMsgs api other := by
  rw [queuedMsgs, hupdate]
  split_ifs with hother
  · rw [hother, Function.update_self, Option.elim_some]
  · rw [Function.update_of_ne hother, queuedMsgs]

omit [DecidableEq SessionID] in
theorem queuedMsgs_of_some {ts : UInt32} {router : PooledQueue Buffer}
    (hrouter : s.fixToTs ts = some router) :
    s.queuedMsgs api ts = router.queue.map (Buffer.msg api) := by
  rw [queuedMsgs, hrouter, Option.elim_some]

omit [DecidableEq SessionID] in
theorem queuedMsgs_congr (hsame : s'.fixToTs = s.fixToTs) :
    s'.queuedMsgs api = s.queuedMsgs api := by
  funext ts
  rw [queuedMsgs, hsame, queuedMsgs]

theorem KeepsSessions.update_caches (hkeeps : s.KeepsSessions api settings)
    {session : SessionID} {config : SessionInfo}
    (hconfig : s.config.sessionsSettings session = some config) {conv : MsgToTs}
    (hcache : conv.CacheHolds api config.logonInfo) (hsettings : s'.config = s.config)
    (hcaches : s'.caches = Function.update s.caches session conv.cache) :
    s'.KeepsSessions api settings := by
  constructor
  · rw [hsettings]
    exact hkeeps.settings
  · intro other config' hother data
    rw [hsettings] at hother
    rw [hcaches]
    by_cases hsame : other = session
    · rw [hsame, hconfig, Option.some.injEq] at hother
      rw [hsame, Function.update_self, ← hother]
      exact ⟨hcache.session, hcache.fits⟩
    · rw [Function.update_of_ne hsame]
      exact hkeeps.caches other config' hother data

/-- A request adds its message to the queue of its trading system, if it makes one and there is
a buffer for it. -/
theorem manageRequest_keeps (hkeeps : s.KeepsSessions api settings) (session : SessionID)
    (request : FixRequest) (msg : FixMessage) :
    (s.manageRequest api fix platform session request msg).KeepsSessions api settings ∧
      ∀ ts, (s.manageRequest api fix platform session request msg).queuedMsgs api ts =
        s.queuedMsgs api ts ++
          (s.accepted api fix platform ts (.request session request msg)).toList := by
  rw [manageRequest]
  cases hconfig : s.config.sessionsSettings session with
  | none => exact ⟨hkeeps, fun ts => by simp [accepted, hconfig]⟩
  | some config =>
  dsimp only
  have hother : ∀ ts, ts ≠ config.logonInfo.tsId →
      s.accepted api fix platform ts (.request session request msg) = none := by
    intro ts hts
    rw [accepted, hconfig]
    cases s.fixToTs ts with
    | none => rfl
    | some router => exact if_neg fun h => hts h.1.symm
  cases hrouter : s.fixToTs config.logonInfo.tsId with
  | none =>
      refine ⟨hkeeps, fun ts => ?_⟩
      by_cases hts : ts = config.logonInfo.tsId
      · simp [accepted, hconfig, hts, hrouter]
      · simp [hother ts hts]
  | some router =>
  dsimp only
  cases hallocate : router.allocate with
  | none =>
      refine ⟨hkeeps, fun ts => ?_⟩
      by_cases hts : ts = config.logonInfo.tsId
      · have hpool : router.pool = [] := by
          rw [PooledQueue.allocate] at hallocate
          cases hpool : router.pool with
          | nil => rfl
          | cons b pool => simp [hpool] at hallocate
        simp [accepted, hconfig, hts, hrouter, hpool]
      · simp [hother ts hts]
  | some taken =>
  obtain ⟨buf, rest⟩ := taken
  have hpool := PooledQueue.pool_ne_nil_of_allocate hallocate
  have hqueue : rest.queue = router.queue := by
    rw [PooledQueue.allocate] at hallocate
    cases hpool : router.pool with
    | nil => simp [hpool] at hallocate
    | cons b pool =>
        simp only [hpool, Option.some.injEq, Prod.mk.injEq] at hallocate
        rw [← hallocate.2]
  have hthis : s.accepted api fix platform config.logonInfo.tsId (.request session request msg) =
      requestMsg? api fix platform config request msg := by
    rw [accepted, hconfig, hrouter]
    exact if_pos ⟨rfl, hpool⟩
  have hmakes := @convertRequest_makes api SessionID fix platform config request msg
    ⟨⟨buf.data, 0, 0⟩, s.caches session⟩ (hkeeps.caches session config hconfig buf.data)
  dsimp only
  cases hconvert : convertRequest api fix platform config request msg
      ⟨⟨buf.data, 0, 0⟩, s.caches session⟩ with
  | error err conv =>
      rw [hconvert] at hmakes
      refine ⟨hkeeps.update_caches hconfig hmakes.2 rfl rfl, fun ts => ?_⟩
      rw [queuedMsgs_update rfl]
      split_ifs with hts
      · rw [hts, hthis, hmakes.1, hqueue, queuedMsgs_of_some hrouter]
        exact (List.append_nil _).symm
      · rw [hother ts hts]
        exact (List.append_nil _).symm
  | ok u conv =>
      rw [hconvert] at hmakes
      obtain ⟨⟨bytes, hbytes, hholds⟩, hcache⟩ := hmakes
      refine ⟨hkeeps.update_caches hconfig hcache rfl rfl, fun ts => ?_⟩
      rw [queuedMsgs_update rfl]
      split_ifs with hts
      · rw [hts, hthis, hbytes, queuedMsgs_of_some hrouter, PooledQueue.produce, hqueue,
          List.map_append, List.map_singleton, HoldsMsg.msg_eq hholds]
        rfl
      · rw [hother ts hts]
        exact (List.append_nil _).symm

omit [DecidableEq SessionID] in
theorem sendQueued_keeps (hkeeps : s.KeepsSessions api settings) (ts : UInt32) :
    (s.sendQueued ts).KeepsSessions api settings ∧
      ∀ other, (s.sendQueued ts).queuedMsgs api other =
        if other = ts then [] else s.queuedMsgs api other := by
  rw [sendQueued]
  cases hrouter : s.fixToTs ts with
  | none =>
      refine ⟨hkeeps, fun other => ?_⟩
      split_ifs with hother
      · rw [hother, queuedMsgs, hrouter, Option.elim_none]
      · rfl
  | some router =>
      refine ⟨⟨hkeeps.settings, hkeeps.caches⟩, fun other => ?_⟩
      rw [queuedMsgs_update (s := s) rfl]
      rfl

omit [DecidableEq SessionID] in
theorem readMsg_keeps (hkeeps : s.KeepsSessions api settings) (ts : UInt32)
    (outcomes : List (Option (List Byte))) :
    (s.readMsg api ts outcomes).KeepsSessions api settings ∧
      (s.readMsg api ts outcomes).fixToTs = s.fixToTs := by
  rw [readMsg]
  cases s.tsToFix ts with
  | none => exact ⟨hkeeps, rfl⟩
  | some router =>
      dsimp only
      cases router.allocate with
      | none => exact ⟨hkeeps, rfl⟩
      | some taken =>
          dsimp only
          cases loadMsg api { s.sockets ts with later := outcomes } with
          | waiting => exact ⟨hkeeps, rfl⟩
          | threw socket => exact ⟨⟨hkeeps.settings, hkeeps.caches⟩, rfl⟩
          | loaded msg socket => exact ⟨⟨hkeeps.settings, hkeeps.caches⟩, rfl⟩

theorem KeepsSessions.of_config (hkeeps : s.KeepsSessions api settings)
    (hconfig : s'.config = s.config ∨
      ∃ id xsessId tsId, s'.config = (s.config.setSessId id xsessId tsId).2)
    (hcaches : s'.caches = s.caches) : s'.KeepsSessions api settings := by
  have hafter : ∀ session, ∃ x, s'.config.sessionsSettings session =
      (s.config.sessionsSettings session).map (SessionInfo.withXsessId x) := by
    intro session
    rcases hconfig with hsame | ⟨id, xsessId, tsId, hlogon⟩
    · rw [hsame]
      exact exists_withXsessId _
    · rw [hlogon]
      exact setSessId_withXsessId s.config id xsessId tsId session
  constructor
  · intro session
    obtain ⟨x, hx⟩ := hafter session
    obtain ⟨x', hx'⟩ := hkeeps.settings session
    refine ⟨x, ?_⟩
    rw [hx, hx', Option.map_map]
    rfl
  · intro session config hsession data
    obtain ⟨x, hx⟩ := hafter session
    rw [hsession, eq_comm, Option.map_eq_some_iff] at hx
    obtain ⟨before, hbefore, rfl⟩ := hx
    have hholds := hkeeps.caches session before hbefore data
    rw [hcaches]
    exact ⟨hholds.session, hholds.fits⟩

theorem manageResponse_keeps (hkeeps : s.KeepsSessions api settings) (ts : UInt32) :
    (s.manageResponse api fix platform ts).KeepsSessions api settings ∧
      (s.manageResponse api fix platform ts).fixToTs = s.fixToTs := by
  rw [manageResponse]
  cases s.tsToFix ts with
  | none => exact ⟨hkeeps, rfl⟩
  | some router =>
      dsimp only
      cases router.consume with
      | none => exact ⟨hkeeps, rfl⟩
      | some taken =>
          obtain ⟨buf, rest⟩ := taken
          have hconfig := @convert_config api SessionID _ fix platform s.config (s.responses ts)
            (parsed api buf.data)
          dsimp only
          generalize (s.responses ts).convert api fix platform s.config (parsed api buf.data) =
            result at hconfig ⊢
          obtain ⟨outcome, conv, config⟩ := result
          cases outcome with
          | error err => exact ⟨hkeeps.of_config hconfig rfl, rfl⟩
          | ok info => exact ⟨hkeeps.of_config hconfig rfl, rfl⟩

omit [DecidableEq SessionID] in
theorem start_keeps (fixToTs tsToFix : FixTsRouters) (sockets : UInt32 → Inbound) :
    (start settings fixToTs tsToFix sockets).KeepsSessions api settings :=
  ⟨fun session => exists_withXsessId (settings session), fun _ _ _ _ => ⟨nofun, nofun⟩⟩

end Adapter

namespace SendingAdapter

/-- The messages of a trading system, in the order in which they were accepted: those sent and
those in its queue. -/
def messages (api : Espd) (s : SendingAdapter SessionID) (ts : UInt32) : List (List Byte) :=
  s.sent ts ++ s.adapter.queuedMsgs api ts

theorem step_keeps {s : SendingAdapter SessionID} (hkeeps : s.adapter.KeepsSessions api settings)
    (input : AdapterCall SessionID × List (ℕ × Bool)) :
    (s.step api fix platform input).adapter.KeepsSessions api settings ∧
      ∀ ts, (s.step api fix platform input).messages api ts =
        s.messages api ts ++ (s.adapter.accepted api fix platform ts input.1).toList := by
  obtain ⟨call, failures⟩ := input
  cases call with
  | request session request msg =>
      have hstep := @Adapter.manageRequest_keeps api SessionID _ fix platform settings s.adapter
        hkeeps session request msg
      refine ⟨hstep.1, fun ts => ?_⟩
      rw [messages, messages, List.append_assoc, ← hstep.2 ts]
      rfl
  | written ts =>
      have hstep := Adapter.sendQueued_keeps hkeeps ts
      refine ⟨hstep.1, fun other => ?_⟩
      have hqueued : (s.step api fix platform (.written ts, failures)).adapter.queuedMsgs api other =
          _ := hstep.2 other
      have hsent : (s.step api fix platform (.written ts, failures)).sent =
          Function.update s.sent ts (s.sent ts ++ s.adapter.queuedMsgs api ts) := rfl
      rw [messages, messages, hqueued, hsent]
      by_cases hother : other = ts
      · rw [if_pos hother, hother, Function.update_self]
        rfl
      · rw [if_neg hother, Function.update_of_ne hother]
        exact (List.append_nil _).symm
  | read ts outcomes =>
      have hstep := Adapter.readMsg_keeps hkeeps ts outcomes
      refine ⟨hstep.1, fun other => ?_⟩
      have hqueued := congrFun (@Adapter.queuedMsgs_congr api _ _ _ hstep.2) other
      exact (congrArg (s.sent other ++ ·) hqueued).trans (List.append_nil _).symm
  | response ts =>
      have hstep := @Adapter.manageResponse_keeps api SessionID _ fix platform settings s.adapter
        hkeeps ts
      refine ⟨hstep.1, fun other => ?_⟩
      have hqueued := congrFun (@Adapter.queuedMsgs_congr api _ _ _ hstep.2) other
      exact (congrArg (s.sent other ++ ·) hqueued).trans (List.append_nil _).symm

theorem run_keeps {s : SendingAdapter SessionID} (hkeeps : s.adapter.KeepsSessions api settings)
    (inputs : List (AdapterCall SessionID × List (ℕ × Bool))) :
    (run (step api fix platform) s inputs).adapter.KeepsSessions api settings ∧
      ∀ ts, (run (step api fix platform) s inputs).messages api ts =
        s.messages api ts ++
          Adapter.acceptedIn api fix platform ts s.adapter (inputs.map Prod.fst) := by
  induction inputs generalizing s with
  | nil => exact ⟨hkeeps, fun ts => (List.append_nil _).symm⟩
  | cons input inputs ih =>
      obtain ⟨hkeeps', hmessages⟩ :=
        @step_keeps api SessionID _ fix platform settings s hkeeps input
      obtain ⟨hfinal, hrest⟩ := ih hkeeps'
      refine ⟨hfinal, fun ts => ?_⟩
      rw [run_cons, hrest ts, hmessages ts, List.append_assoc]
      rfl

omit [DecidableEq SessionID] in
theorem isWord_of_mem_queuedMsgs {s : Adapter SessionID} {ts : UInt32} :
    ∀ msg ∈ s.queuedMsgs api ts, (msgCode api).IsWord msg := by
  intro msg hmsg
  cases hrouter : s.fixToTs ts with
  | none => simp [Adapter.queuedMsgs, hrouter] at hmsg
  | some router =>
      rw [Adapter.queuedMsgs_of_some hrouter, List.mem_map] at hmsg
      obtain ⟨buf, -, rfl⟩ := hmsg
      exact buf.isWord_msg api

theorem buffers_step {s : SendingAdapter SessionID}
    (hbuffers : ∀ ts, (s.writers ts).buffers = [])
    (input : AdapterCall SessionID × List (ℕ × Bool)) :
    ∀ ts, ((s.step api fix platform input).writers ts).buffers = [] := by
  obtain ⟨call, failures⟩ := input
  cases call with
  | written ts =>
      exact forall_update (P := fun _ (w : TsWriter) => w.buffers = [])
        (TsWriter.buffers_run_batch (hbuffers ts)) fun other _ => hbuffers other
  | request | read | response => exact hbuffers

/-- Failures without a trace leave the stream of the trading system whole. -/
theorem clean_step {s : SendingAdapter SessionID} {ts : UInt32}
    (hbuffers : (s.writers ts).buffers = [])
    (hclean : (s.writers ts).socket.Clean api (s.sent ts) (s.sent ts))
    {input : AdapterCall SessionID × List (ℕ × Bool)} (hharmless : Harmless api ts s input) :
    ((s.step api fix platform input).writers ts).socket.Clean api
      ((s.step api fix platform input).sent ts) ((s.step api fix platform input).sent ts) := by
  obtain ⟨call, failures⟩ := input
  cases call with
  | written ts' =>
      have hwriters : (s.step api fix platform (.written ts', failures)).writers =
          Function.update s.writers ts' ((s.writers ts').run [s.adapter.queuedMsgs api ts']
            (writeOutcomes failures)) := rfl
      have hsent : (s.step api fix platform (.written ts', failures)).sent =
          Function.update s.sent ts' (s.sent ts' ++ s.adapter.queuedMsgs api ts') := rfl
      rw [hwriters, hsent]
      by_cases hts : ts = ts'
      · subst hts
        rw [Function.update_self, Function.update_self]
        exact TsWriter.clean_run_batch hbuffers hclean isWord_of_mem_queuedMsgs (hharmless rfl)
      · rw [Function.update_of_ne hts, Function.update_of_ne hts]
        exact hclean
  | request | read | response => exact hclean

/-- Whatever happens, the writer of a trading system finishes the messages of its own sessions'
requests, in the order in which these found their buffers, and the trading system can tell them
apart and gets each once if no failed write has left a trace; a session belongs to the trading
system of its settings for good. -/
theorem requests_reach_their_trading_system (api : Espd) (fix : QuickFix SessionID)
    (platform : Platform) (settings : SessionID → Option SessionInfo)
    (pools : UInt32 → Option (List Buffer)) (tsToFix : FixTsRouters)
    (sockets : UInt32 → Inbound) (inputs : List (AdapterCall SessionID × List (ℕ × Bool))) :
    let s := run (step api fix platform) (start settings pools tsToFix sockets) inputs
    (∀ ts, s.sent ts ++ s.adapter.queuedMsgs api ts =
        Adapter.acceptedIn api fix platform ts
          (start settings pools tsToFix sockets).adapter (inputs.map Prod.fst) ∧
      (RunOk (step api fix platform) (Harmless api ts) (start settings pools tsToFix sockets)
          inputs →
        (s.writers ts).socket.delivered api = s.sent ts ∧
          ((msgCode api).parse (s.writers ts).socket.received).2 = [])) ∧
    ∀ session, ∃ x, s.adapter.config.sessionsSettings session =
      (settings session).map (SessionInfo.withXsessId x) := by
  obtain ⟨hkeeps, hmessages⟩ := @run_keeps api SessionID _ fix platform settings
    (start settings pools tsToFix sockets) (Adapter.start_keeps _ _ _) inputs
  refine ⟨fun ts => ⟨?_, fun hharmless => ?_⟩, hkeeps.settings⟩
  · have hstart : (start settings pools tsToFix sockets).messages api ts = [] := by
      rw [messages, Adapter.queuedMsgs]
      change [] ++ Option.elim ((pools ts).map _) [] _ = []
      cases pools ts with
      | none => rfl
      | some pool => rfl
    rw [← messages, hmessages ts, hstart, List.nil_append]
  · have hwriter := run_invariant_of_runOk (fun s : SendingAdapter SessionID =>
      (∀ ts, (s.writers ts).buffers = []) ∧
        (s.writers ts).socket.Clean api (s.sent ts) (s.sent ts)) hharmless
      ⟨fun _ => rfl, TsWriter.start_clean⟩ fun s input hinv hok =>
        ⟨buffers_step hinv.1 input, clean_step (hinv.1 ts) hinv.2 hok⟩
    exact ⟨hwriter.2.delivered, hwriter.2.whole⟩

end SendingAdapter

end Adapter

end CppPlay.FixAdapter
