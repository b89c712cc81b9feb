import CppPlay.FixAdapter.NetworkOrder
import CppPlay.FixAdapter.SessionCache
import CppPlay.Lib.Run

/-!
# Which orders are encoded

`appendOrderBody` reads the fields of an order one after the other and appends each
as it goes.  Given room, that ends as all reads and the appends behind them would.
A market order with a price is rejected, and one without is refused as well, since
the price is read in any case.
-/

namespace CppPlay.FixAdapter

open CppPlay.Lib

/-! ## What an order says -/

structure Order where
  sourceId : Option CppString
  symbol : CppString
  clOrdID : CppString
  size : Decimal
  side : Byte
  /-- A market order has no price. -/
  price : Option Decimal
  /-- Of a replace request. -/
  origClOrdID : Option CppString

section Specification

variable (api : Espd) {SessionID : Type} (fix : QuickFix SessionID)

def submitOrderFields : List (FieldId × FieldValue) :=
  [(.msgType, .byte api.order), (.requestId, .uint32 0), (.statusText, .string []),
    (.orderInfoType, .uint32 api.orderInfoExtendedProperties), (.cmd, .uint32 api.submitOrder)]

def sourceFields (sourceId : Option CppString) : List (FieldId × FieldValue) :=
  (sourceId.map fun text => (.sourceId, .string text)).toList

def Order.fields (info : SessionLogonInfo) (order : Order) : List (FieldId × FieldValue) :=
  submitOrderFields api ++
    [(FieldId.sessionId, FieldValue.string info.sessId), (.username, .string info.userName)] ++
    sourceFields order.sourceId ++
    [(FieldId.instName, FieldValue.string order.symbol), (.tsId, .uint32 info.tsId),
      (.extTsSessionId, .uint32 info.xsessId), (.clientOrderId, .string order.clOrdID),
      (.size, .decimal order.size), (.indicator, .byte (getIndicator api order.side))] ++
    (order.price.map fun value => (FieldId.price, FieldValue.decimal value)).toList ++
    (order.origClOrdID.map fun text => (FieldId.origClientOrderId, FieldValue.string text)).toList

def MsgEncoder.wroteFields (s : MsgEncoder) (fields : List (FieldId × FieldValue)) : MsgEncoder :=
  { s.wrote (fields.flatMap fun field => MsgField.bytes api field.1 field.2) with
    numFields := s.numFields + UInt16.ofNat fields.length }

def IsMarket (msg : FixMessage) : Prop :=
  (msg .ordType).bind fix.charOfString = some ordTypeMarket

instance (msg : FixMessage) : Decidable (IsMarket fix msg) :=
  inferInstanceAs (Decidable (_ = _))

structure Order.Of (msg : FixMessage) (request : FixRequest) (order : Order) : Prop where
  sourceId : order.sourceId = msg .senderSubID
  symbol : some order.symbol = msg .symbol
  clOrdID : some order.clOrdID = msg .clOrdID
  size : some order.size = (msg .orderQty).bind fix.doubleOfString
  side : some order.side = (msg .side).bind fix.charOfString
  price : if IsMarket fix msg then order.price = none else
    order.price.isSome ∧ order.price = (msg .price).bind fix.doubleOfString
  origClOrdID : order.origClOrdID =
    if request = .orderCancelReplaceRequest then msg .origClOrdID else none

/-- The order has a price, and the texts that are read are numbers and characters. -/
structure Encodable (msg : FixMessage) : Prop where
  price : (msg .price).isSome
  size : ((msg .orderQty).bind fix.doubleOfString).isSome
  side : ((msg .side).bind fix.charOfString).isSome
  ordType : ((msg .ordType).bind fix.charOfString).isSome
  priceValue : ¬ IsMarket fix msg → ((msg .price).bind fix.doubleOfString).isSome

/-- An order, with a price or at the market. -/
structure CarriesOrder (msg : FixMessage) (request : FixRequest) : Prop where
  order : request ≠ .logon
  symbol : (msg .symbol).isSome
  clOrdID : (msg .clOrdID).isSome
  orderQty : (msg .orderQty).isSome
  side : (msg .side).isSome
  ordType : (msg .ordType).isSome
  origClOrdID : request = .orderCancelReplaceRequest → (msg .origClOrdID).isSome
  price : (msg .price).isSome ∨ IsMarket fix msg

end Specification

/-! ## Reads and appends -/

section Ends

variable {api : Espd}

def fieldsBytesOf (api : Espd) (fields : List (FieldId × FieldValue)) : List Byte :=
  fields.flatMap fun field => MsgField.bytes api field.1 field.2

/-- Given room, the program appends the fields that `outcome` says, or throws what it
says. -/
def Ends (api : Espd) (room : ℕ) (outcome : Except CppException (List (FieldId × FieldValue)))
    (x : Enc Unit) : Prop :=
  ∀ e : MsgEncoder, e.offset + room ≤ api.maxDataSize →
    match outcome with
    | .ok fields =>
        (fieldsBytesOf api fields).length ≤ room ∧ x e = .ok () (e.wroteFields api fields)
    | .error err => ∃ e', x e = .error err e'

theorem MsgEncoder.wroteFields_offset (e : MsgEncoder) (fields : List (FieldId × FieldValue)) :
    (e.wroteFields api fields).offset = e.offset + (fieldsBytesOf api fields).length := rfl

theorem MsgEncoder.wroteFields_append (e : MsgEncoder)
    (fields fields' : List (FieldId × FieldValue)) :
    e.wroteFields api (fields ++ fields') = (e.wroteFields api fields).wroteFields api fields' := by
  have hcount : e.numFields + UInt16.ofNat (fields ++ fields').length =
      e.numFields + UInt16.ofNat fields.length + UInt16.ofNat fields'.length := by
    rw [List.length_append, UInt16.ofNat_add, UInt16.add_assoc]
  rw [MsgEncoder.wroteFields, List.flatMap_append, MsgEncoder.wrote_append, hcount]
  rfl

theorem MsgEncoder.wroteFields_nil (e : MsgEncoder) : e.wroteFields api [] = e := by
  simp [MsgEncoder.wroteFields, MsgEncoder.wrote]

theorem MsgEncoder.wroteFields_singleton (e : MsgEncoder) (ident : FieldId) (value : FieldValue) :
    e.wroteFields api [(ident, value)] = e.wroteField (MsgField.bytes api ident value) := by
  simp only [MsgEncoder.wroteFields, List.flatMap_cons, List.flatMap_nil, List.append_nil]
  rfl

namespace Ends

variable {m n : ℕ} {outcome outcome' : Except CppException (List (FieldId × FieldValue))}
  {x y : Enc Unit}

theorem mono (hx : Ends api m outcome x) (hle : m ≤ n) : Ends api n outcome x := by
  intro e hroom
  have hends := hx e (by omega)
  cases outcome with
  | ok fields => exact ⟨hends.1.trans hle, hends.2⟩
  | error err => exact hends

theorem throw (err : CppException) : Ends api n (.error err) (throw err) :=
  fun e _ => ⟨e, rfl⟩

/-- `if c then throw err; rest`, as the do-notation has it. -/
theorem ite (c : Prop) [Decidable c] (err : CppException) (hy : Ends api n outcome y) :
    Ends api n (if c then .error err else outcome)
      (if c then MonadExcept.throw err >>= fun _ : Unit => y else y) := by
  split_ifs
  · exact fun e _ => ⟨e, rfl⟩
  · exact hy

theorem appendTo (ident : FieldId) (value : FieldValue) (htype : some value.type = idType ident) :
    Ends api (MsgField.bytes api ident value).length (.ok [(ident, value)])
      (Uncached.appendTo api ident value htype) := by
  intro e hroom
  refine ⟨by simp [fieldsBytesOf], ?_⟩
  rw [uncached_appendTo_ok htype hroom, MsgEncoder.wroteFields_singleton]

theorem bind (hx : Ends api m outcome x) (hy : Ends api n outcome' y) :
    Ends api (m + n)
      (do
        let fields ← outcome
        let fields' ← outcome'
        pure (fields ++ fields'))
      (x >>= fun _ => y) := by
  intro e hroom
  have hfirst := hx e (by omega)
  cases outcome with
  | error err =>
      rcases hfirst with ⟨e', herror⟩
      exact ⟨e', Enc.bind_of_error herror⟩
  | ok fields =>
      have hsecond := hy (e.wroteFields api fields)
        (by rw [MsgEncoder.wroteFields_offset]; omega)
      cases outcome' with
      | error err =>
          rcases hsecond with ⟨e', herror⟩
          exact ⟨e', by rw [Enc.bind_of_ok hfirst.2, herror]⟩
      | ok fields' =>
          refine ⟨?_, ?_⟩
          · rw [fieldsBytesOf, List.flatMap_append, List.length_append]
            exact Nat.add_le_add hfirst.1 hsecond.1
          · rw [Enc.bind_of_ok hfirst.2, hsecond.2, MsgEncoder.wroteFields_append]

theorem read {α : Type} (r : Except CppException α) {f : α → Enc Unit}
    {next : α → Except CppException (List (FieldId × FieldValue))}
    (hf : ∀ a, r = .ok a → Ends api n (next a) (f a)) :
    Ends api n (r >>= next) (Uncached.fromExcept r >>= f) := by
  cases r with
  | ok a => exact hf a rfl
  | error err => exact fun e _ => ⟨e, rfl⟩

theorem uint32 (ident : FieldId) (value : UInt32) (htype : some .uint32 = idType ident) :
    Ends api 7 (.ok [(ident, .uint32 value)])
      (Uncached.appendTo api ident (.uint32 value) htype) :=
  (Ends.appendTo ident (.uint32 value) htype).mono
    (by simp [MsgField.bytes, FieldValue.bytes, sizeofFldHdr])

theorem decimal (ident : FieldId) (value : Decimal) (htype : some .decimal = idType ident) :
    Ends api 11 (.ok [(ident, .decimal value)])
      (Uncached.appendTo api ident (.decimal value) htype) :=
  (Ends.appendTo ident (.decimal value) htype).mono
    (by simp [MsgField.bytes, FieldValue.bytes, sizeofFldHdr])

theorem byte (ident : FieldId) (value : UInt8) (htype : some .byte = idType ident) :
    Ends api 4 (.ok [(ident, .byte value)])
      (Uncached.appendTo api ident (.byte value) htype) :=
  (Ends.appendTo ident (.byte value) htype).mono
    (by simp [MsgField.bytes, FieldValue.bytes, sizeofFldHdr])

theorem text (msg : FixMessage) (tag : FixTag) (ident : FieldId)
    (htype : some .string = idType ident) :
    Ends api (textSize msg tag)
      (msg.getField tag >>= fun text => .ok [(ident, .string text)])
      (Uncached.fromExcept (msg.getField tag) >>= fun text =>
        Uncached.appendTo api ident (.string text) htype) := by
  apply Ends.read (msg.getField tag)
  intro text htext
  have htag : msg tag = some text := by
    unfold FixMessage.getField at htext
    cases hmsg : msg tag with
    | none => simp [hmsg] at htext
    | some other => rw [hmsg] at htext; rw [Except.ok.inj htext]
  have hsize : textSize msg tag = (MsgField.bytes api ident (.string text)).length := by
    rw [textSize, htag, Option.elim_some, length_stringField]
  rw [hsize]
  exact Ends.appendTo ident (.string text) htype

theorem text_bind (msg : FixMessage) (tag : FixTag) (ident : FieldId)
    (htype : some .string = idType ident) (hy : Ends api n outcome y) :
    Ends api (textSize msg tag + n)
      (do
        let fields ← msg.getField tag >>= fun text => .ok [(ident, .string text)]
        let fields' ← outcome
        pure (fields ++ fields'))
      (Uncached.fromExcept (msg.getField tag) >>= fun text =>
        Uncached.appendTo api ident (.string text) htype >>= fun _ => y) := by
  have hboth := (Ends.text msg tag ident htype).bind hy
  simp only [bind_assoc] at hboth ⊢
  exact hboth

end Ends

/-! ## The body of an order -/

variable {info : SessionLogonInfo} {msg : FixMessage}

theorem submitOrder_eq : submitOrder api = fieldsBytesOf api (submitOrderFields api) := by
  simp [submitOrder, fieldsBytesOf, submitOrderFields]

theorem ends_submitOrder {n : ℕ} {outcome : Except CppException (List (FieldId × FieldValue))}
    {y : Enc Unit} (hy : Ends api n outcome y) :
    Ends api (29 + n)
      (do
        let fields ← outcome
        pure (submitOrderFields api ++ fields))
      (appendObj api (submitOrder api) >>= fun _ => addNumFields 5 >>= fun _ => y) := by
  have hprefix : Ends api 29 (.ok (submitOrderFields api))
      (appendObj api (submitOrder api) >>= fun _ => addNumFields 5) := by
    intro e hroom
    refine ⟨by rw [← submitOrder_eq, length_submitOrder], ?_⟩
    rw [Enc.bind_of_ok (appendObj_ok (by rwa [length_submitOrder])), submitOrder_eq]
    rfl
  have hwhole := hprefix.bind hy
  rw [bind_assoc] at hwhole
  exact hwhole

theorem ends_appendSession :
    Ends api (sessionSize info)
      (.ok [(.sessionId, .string info.sessId), (.username, .string info.userName)])
      (Uncached.appendSession api info) := by
  have hfields := (@Ends.appendTo api .sessionId (.string info.sessId) rfl).bind
    (Ends.appendTo .username (.string info.userName) rfl)
  rw [length_stringField, length_stringField] at hfields
  exact hfields

theorem ends_appendSourceId :
    Ends api (textSize msg .senderSubID) (.ok (sourceFields (msg .senderSubID)))
      (Uncached.appendSourceId api msg) := by
  intro e hroom
  refine ⟨?_, ?_⟩
  · cases htag : msg .senderSubID with
    | none => exact Nat.zero_le _
    | some senderSubID => simp [fieldsBytesOf, sourceFields, textSize, htag, length_stringField]
  · simp only [Uncached.appendSourceId, tryCatch, tryCatchThe, MonadExceptOf.tryCatch,
      EStateM.tryCatch]
    cases htag : msg .senderSubID with
    | none =>
        have hmissing : (Uncached.fromExcept (msg.getField .senderSubID) >>= fun senderSubID =>
            Uncached.appendTo api .sourceId (.string senderSubID) rfl) e =
              .error .fieldNotFound e := by
          rw [FixMessage.getField, htag]
          rfl
        rw [hmissing, sourceFields, Option.map_none, Option.toList_none,
          MsgEncoder.wroteFields_nil]
        rfl
    | some senderSubID =>
        rw [textSize, htag, Option.elim_some, ← @length_stringField api .sourceId] at hroom
        have happend : (Uncached.fromExcept (msg.getField .senderSubID) >>= fun senderSubID =>
            Uncached.appendTo api .sourceId (.string senderSubID) rfl) e =
              .ok () (e.wroteField (MsgField.bytes api .sourceId (.string senderSubID))) := by
          rw [getField_of_some htag]
          exact uncached_appendTo_ok rfl hroom
        rw [happend, sourceFields, Option.map_some, Option.toList_some,
          MsgEncoder.wroteFields_singleton]

/-- The reads of `appendOrderBody` in their order, without the appends. -/
def readOrder {SessionID : Type} (fix : QuickFix SessionID) (msg : FixMessage) :
    Except CppException Order := do
  let symbol ← msg.getField .symbol
  let clOrdID ← msg.getField .clOrdID
  let orderQty ← msg.getField .orderQty
  let size ← fieldValue fix.doubleOfString orderQty
  let side ← msg.getField .side
  let sideChar ← fieldValue fix.charOfString side
  let ordType ← msg.getField .ordType
  let ordTypeChar ← fieldValue fix.charOfString ordType
  if ordTypeChar = ordTypeMarket ∧ msg.isSet .price then
    throw (.rejectError "Market order cannot have price. ")
  let price ← msg.getField .price
  let priceValue ← fieldValue fix.doubleOfString price
  pure ⟨msg .senderSubID, symbol, clOrdID, size, sideChar, some priceValue, none⟩

def readRequest {SessionID : Type} (fix : QuickFix SessionID) (msg : FixMessage) :
    FixRequest → Except CppException Order
  | .orderCancelReplaceRequest => do
      let order ← readOrder fix msg
      let origClOrdID ← msg.getField .origClOrdID
      pure { order with origClOrdID := some origClOrdID }
  | _ => readOrder fix msg

def requestSize (info : SessionLogonInfo) (msg : FixMessage) (request : FixRequest) : ℕ :=
  orderSize info msg +
    if request = .orderCancelReplaceRequest then textSize msg .origClOrdID else 0

/-! What reading an order gives. -/

section Reading

variable {SessionID : Type} {fix : QuickFix SessionID} {request : FixRequest}

def marketWithPrice : CppException := .rejectError "Market order cannot have price. "

theorem getField_bind {tag : FixTag} (hset : (msg tag).isSome)
    (next : CppString → Except CppException Order) :
    (do
      let text ← msg.getField tag
      next text) = next ((msg tag).getD []) := by
  rcases Option.isSome_iff_exists.mp hset with ⟨text, htext⟩
  rw [getField_of_some htext, htext]
  rfl

theorem read_bind {α : Type} {convert : CppString → Option α} {tag : FixTag} {value : α}
    (hvalue : (msg tag).bind convert = some value) (next : α → Except CppException Order) :
    (do
      let text ← msg.getField tag
      let value ← fieldValue convert text
      next value) = next value := by
  rcases Option.bind_eq_some_iff.mp hvalue with ⟨text, htext, hconvert⟩
  rw [getField_of_some htext]
  simp only [bind, Except.bind, fieldValue_of_some hconvert]

theorem read_bind_none {α : Type} {convert : CppString → Option α} {tag : FixTag}
    (hset : (msg tag).isSome) (hvalue : (msg tag).bind convert = none)
    (next : α → Except CppException Order) :
    (do
      let text ← msg.getField tag
      let value ← fieldValue convert text
      next value) = .error .incorrectDataFormat := by
  rcases Option.isSome_iff_exists.mp hset with ⟨text, htext⟩
  rw [htext, Option.bind_some] at hvalue
  rw [getField_of_some htext]
  simp only [bind, Except.bind, fieldValue, hvalue]

theorem readOrder_of_readable (hcarries : CarriesOrder fix msg request) {size : Decimal}
    {side ordType : Byte} (hsize : (msg .orderQty).bind fix.doubleOfString = some size)
    (hside : (msg .side).bind fix.charOfString = some side)
    (hordType : (msg .ordType).bind fix.charOfString = some ordType) :
    readOrder fix msg =
      if ordType = ordTypeMarket ∧ msg.isSet .price then .error marketWithPrice
      else (do
        let text ← msg.getField .price
        let price ← fieldValue fix.doubleOfString text
        pure ⟨msg .senderSubID, (msg .symbol).getD [], (msg .clOrdID).getD [], size, side,
          some price, none⟩) := by
  unfold readOrder
  rw [getField_bind hcarries.symbol, getField_bind hcarries.clOrdID, read_bind hsize,
    read_bind hside, read_bind hordType]
  rfl

theorem readOrder_of_unreadable (hcarries : CarriesOrder fix msg request)
    (hnone : (msg .orderQty).bind fix.doubleOfString = none ∨
      (msg .side).bind fix.charOfString = none ∨ (msg .ordType).bind fix.charOfString = none) :
    readOrder fix msg = .error .incorrectDataFormat := by
  unfold readOrder
  rw [getField_bind hcarries.symbol, getField_bind hcarries.clOrdID]
  cases hsize : (msg .orderQty).bind fix.doubleOfString with
  | none => exact read_bind_none hcarries.orderQty hsize _
  | some size =>
  cases hside : (msg .side).bind fix.charOfString with
  | none =>
      rw [read_bind hsize]
      exact read_bind_none hcarries.side hside _
  | some side =>
  rw [read_bind hsize, read_bind hside]
  simp only [hsize, hside, reduceCtorEq, false_or] at hnone
  exact read_bind_none hcarries.ordType hnone _

theorem readRequest_eq (hcarries : CarriesOrder fix msg request) :
    readRequest fix msg request =
      (fun order => { order with
        origClOrdID := if request = .orderCancelReplaceRequest then msg .origClOrdID
          else order.origClOrdID }) <$> readOrder fix msg := by
  cases request with
  | logon => exact absurd rfl hcarries.order
  | newOrderSingle => exact (id_map _).symm
  | orderCancelReplaceRequest =>
      rcases Option.isSome_iff_exists.mp (hcarries.origClOrdID rfl) with ⟨orig, horig⟩
      simp only [readRequest, getField_of_some horig, horig, if_true]
      cases readOrder fix msg with
      | error err => rfl
      | ok order => rfl

theorem readRequest_of_market (hcarries : CarriesOrder fix msg request)
    (hencodable : Encodable fix msg) (hmarket : IsMarket fix msg) :
    readRequest fix msg request = .error marketWithPrice := by
  rcases Option.isSome_iff_exists.mp hencodable.size with ⟨size, hsize⟩
  rcases Option.isSome_iff_exists.mp hencodable.side with ⟨side, hside⟩
  have hset : msg.isSet .price = true := hencodable.price
  rw [readRequest_eq hcarries, readOrder_of_readable hcarries hsize hside hmarket,
    if_pos ⟨rfl, hset⟩]
  rfl

theorem readRequest_of_priced (hcarries : CarriesOrder fix msg request)
    (hencodable : Encodable fix msg) (hpriced : ¬ IsMarket fix msg) :
    ∃ order, readRequest fix msg request = .ok order ∧ order.Of fix msg request := by
  rcases Option.isSome_iff_exists.mp hencodable.size with ⟨size, hsize⟩
  rcases Option.isSome_iff_exists.mp hencodable.side with ⟨side, hside⟩
  rcases Option.isSome_iff_exists.mp hencodable.ordType with ⟨ordType, hordType⟩
  rcases Option.isSome_iff_exists.mp (hencodable.priceValue hpriced) with ⟨price, hprice⟩
  have hread := readOrder_of_readable hcarries hsize hside hordType
  have hne : ordType ≠ ordTypeMarket := by
    rintro rfl
    exact hpriced hordType
  rw [if_neg fun h => hne h.1, read_bind hprice] at hread
  refine ⟨_, by rw [readRequest_eq hcarries, hread]; rfl, ?_⟩
  constructor
  · rfl
  · exact Option.getD_of_ne_none (Option.isSome_iff_ne_none.mp hcarries.symbol) []
  · exact Option.getD_of_ne_none (Option.isSome_iff_ne_none.mp hcarries.clOrdID) []
  · exact hsize.symm
  · exact hside.symm
  · rw [if_neg hpriced]
    exact ⟨rfl, hprice.symm⟩
  · rfl

/-- An order that is read to its end, or rejected at the market, had everything. -/
theorem encodable_of_readRequest (hcarries : CarriesOrder fix msg request)
    (hread : (∃ order, readRequest fix msg request = .ok order) ∨
      readRequest fix msg request = .error marketWithPrice) : Encodable fix msg := by
  rw [readRequest_eq hcarries] at hread
  cases hsize : (msg .orderQty).bind fix.doubleOfString with
  | none =>
      rw [readOrder_of_unreadable hcarries (Or.inl hsize)] at hread
      rcases hread with ⟨order, hread⟩ | hread <;> cases hread
  | some size =>
  cases hside : (msg .side).bind fix.charOfString with
  | none =>
      rw [readOrder_of_unreadable hcarries (Or.inr (Or.inl hside))] at hread
      rcases hread with ⟨order, hread⟩ | hread <;> cases hread
  | some side =>
  cases hordType : (msg .ordType).bind fix.charOfString with
  | none =>
      rw [readOrder_of_unreadable hcarries (Or.inr (Or.inr hordType))] at hread
      rcases hread with ⟨order, hread⟩ | hread <;> cases hread
  | some ordType =>
  rw [readOrder_of_readable hcarries hsize hside hordType] at hread
  by_cases hmarket : ordType = ordTypeMarket ∧ msg.isSet .price
  · refine ⟨hmarket.2, by rw [hsize]; rfl, by rw [hside]; rfl, by rw [hordType]; rfl, ?_⟩
    intro hpriced
    exact absurd (hordType.trans (congrArg some hmarket.1)) hpriced
  · rw [if_neg hmarket] at hread
    cases hset : msg .price with
    | none =>
        rw [FixMessage.getField, hset] at hread
        rcases hread with ⟨order, hread⟩ | hread <;> cases hread
    | some text =>
        cases hprice : (msg .price).bind fix.doubleOfString with
        | none =>
            rw [read_bind_none (by rw [hset]; rfl) hprice] at hread
            rcases hread with ⟨order, hread⟩ | hread <;> cases hread
        | some price =>
            refine ⟨by rw [hset]; rfl, by rw [hsize]; rfl, by rw [hside]; rfl,
              by rw [hordType]; rfl, ?_⟩
            intro _
            rw [hprice]
            rfl

end Reading

theorem ends_appendOrderBody {SessionID : Type} (fix : QuickFix SessionID) :
    Ends api (orderSize info msg) (Order.fields api info <$> readOrder fix msg)
      (Uncached.appendOrderBody api fix info msg) := by
  have hprice : Ends api 11 _ _ :=
    Ends.read (msg.getField .price) fun price _ =>
    Ends.read (fieldValue fix.doubleOfString price) fun priceValue _ =>
    Ends.decimal .price priceValue rfl
  have hordType : Ends api 11 _ _ :=
    Ends.read (msg.getField .ordType) fun ordType _ =>
    Ends.read (fieldValue fix.charOfString ordType) fun ordTypeChar _ =>
    Ends.ite (ordTypeChar = ordTypeMarket ∧ msg.isSet .price)
      (.rejectError "Market order cannot have price. ") hprice
  have hbody : Ends api _ _ _ :=
    ends_submitOrder <|
    (@ends_appendSession api info).bind <|
    (@ends_appendSourceId api msg).bind <|
    Ends.text_bind msg .symbol .instName rfl <|
    (Ends.uint32 .tsId info.tsId rfl).bind <|
    (Ends.uint32 .extTsSessionId info.xsessId rfl).bind <|
    Ends.text_bind msg .clOrdID .clientOrderId rfl <|
    Ends.read (msg.getField .orderQty) fun orderQty _ =>
    Ends.read (fieldValue fix.doubleOfString orderQty) fun size _ =>
    (Ends.decimal .size size rfl).bind <|
    Ends.read (msg.getField .side) fun side _ =>
    Ends.read (fieldValue fix.charOfString side) fun sideChar _ =>
    (Ends.byte .indicator (getIndicator api sideChar) rfl).bind hordType
  convert hbody using 1
  · simp only [orderSize]
    omega
  · have hok : ∀ fields : List (FieldId × FieldValue),
        (Except.ok fields : Except CppException _) = pure fields := fun _ => rfl
    simp only [readOrder, hok, map_bind, bind_assoc, pure_bind]
    refine bind_congr fun symbol => bind_congr fun clOrdID => bind_congr fun orderQty =>
      bind_congr fun size => bind_congr fun side => bind_congr fun sideChar =>
      bind_congr fun ordType => bind_congr fun ordTypeChar => ?_
    split_ifs
    · rfl
    · simp [Order.fields]
  · rfl

theorem origClOrdID_of_readOrder {SessionID : Type} {fix : QuickFix SessionID} {order : Order}
    (hread : readOrder fix msg = .ok order) : order.origClOrdID = none := by
  have hforget : readOrder fix msg =
      (fun order : Order => { order with origClOrdID := none }) <$> readOrder fix msg := by
    simp only [readOrder, map_bind]
    refine bind_congr fun symbol => bind_congr fun clOrdID => bind_congr fun orderQty =>
      bind_congr fun size => bind_congr fun side => bind_congr fun sideChar =>
      bind_congr fun ordType => bind_congr fun ordTypeChar => ?_
    split_ifs
    · rfl
    · simp only [map_bind, map_pure]
  rw [hread] at hforget
  have horder := Except.ok.inj hforget
  rw [horder]

theorem ends_appendMsgBody {SessionID : Type} (fix : QuickFix SessionID) (platform : Platform)
    {config : SessionInfo} {request : FixRequest} (hrequest : request ≠ .logon) :
    Ends api (requestSize config.logonInfo msg request)
      (Order.fields api config.logonInfo <$> readRequest fix msg request)
      (Uncached.appendMsgBody api fix platform config msg request) := by
  cases request with
  | logon => exact absurd rfl hrequest
  | newOrderSingle => exact ends_appendOrderBody fix
  | orderCancelReplaceRequest =>
      have hboth := (@ends_appendOrderBody api config.logonInfo msg SessionID fix).bind
        (Ends.text msg .origClOrdID .origClientOrderId rfl)
      convert hboth using 1
      · rfl
      · simp only [readRequest]
        cases hread : readOrder fix msg with
        | error err => rfl
        | ok order =>
            cases msg.getField .origClOrdID with
            | error err => rfl
            | ok origClOrdID =>
                change Except.ok _ = Except.ok _
                simp [Order.fields, origClOrdID_of_readOrder hread]
      · rfl

end Ends

/-! ## Orders behind other requests -/

section Reached

variable (api : Espd) {SessionID : Type} (fix : QuickFix SessionID) (platform : Platform)
  (config : SessionInfo)

/-- The converter behind the requests, thrown exceptions included. -/
def MsgToTs.after (calls : List RequestCall) : MsgToTs :=
  run (fun s call => leaves (call.encode api fix platform config s)) .start calls

/-- What `appendMsgBody` starts from: a fresh buffer, with room for the header. -/
def MsgToTs.skipHeader (s : MsgToTs) (buffer : Memory Byte) : MsgToTs :=
  { s with data := buffer, offset := sizeofMsgHeader, numFields := 0 }

/-- The order is encoded, field by field, or rejected if it is a market order with a
price. -/
structure EncodesOrder (earlier : List RequestCall) (call : RequestCall) : Prop where
  encodes : ¬ (IsMarket fix call.msg ∧ call.msg.isSet .price) →
    ∃ order : Order, order.Of fix call.msg call.request ∧
      ∃ s', appendMsgBody api fix platform (call.config config) call.msg call.request
          ((MsgToTs.after api fix platform config earlier).skipHeader call.buffer) = .ok () s' ∧
        s'.toMsgEncoder = ((MsgToTs.after api fix platform config earlier).skipHeader
          call.buffer).wroteFields api (order.fields api (call.config config).logonInfo)
  rejects : IsMarket fix call.msg ∧ call.msg.isSet .price →
    ∃ s', appendMsgBody api fix platform (call.config config) call.msg call.request
      ((MsgToTs.after api fix platform config earlier).skipHeader call.buffer) =
        .error (.rejectError "Market order cannot have price. ") s'

/-- Every order is, given room. -/
def EncodesOrders : Prop :=
  ∀ earlier call, CarriesOrder fix call.msg call.request →
    sizeofMsgHeader + requestSize config.logonInfo call.msg call.request ≤ api.maxDataSize →
      EncodesOrder api fix platform config earlier call

variable {api fix platform config}

theorem cacheHolds_after (calls : List RequestCall) :
    (MsgToTs.after api fix platform config calls).CacheHolds api config.logonInfo := by
  apply run_invariant (fun s : MsgToTs => s.CacheHolds api config.logonInfo)
  · exact (sameEncoder_start config.logonInfo).cache
  · intro s call hcache
    exact (sim_encodeRequest fix platform config call s s.toMsgEncoder ⟨rfl, hcache⟩).leaves.cache

/-- Behind whatever requests, the body of an order ends as reading the order does. -/
theorem appendMsgBody_ends {earlier : List RequestCall} {call : RequestCall}
    (hrequest : call.request ≠ .logon)
    (hroom : sizeofMsgHeader + requestSize config.logonInfo call.msg call.request ≤
      api.maxDataSize) :
    match readRequest fix call.msg call.request with
    | .ok order => ∃ s',
        appendMsgBody api fix platform (call.config config) call.msg call.request
          ((MsgToTs.after api fix platform config earlier).skipHeader call.buffer) = .ok () s' ∧
        s'.toMsgEncoder = ((MsgToTs.after api fix platform config earlier).skipHeader
          call.buffer).wroteFields api (order.fields api (call.config config).logonInfo)
    | .error err => ∃ s',
        appendMsgBody api fix platform (call.config config) call.msg call.request
          ((MsgToTs.after api fix platform config earlier).skipHeader call.buffer) =
            .error err s' := by
  let start := (MsgToTs.after api fix platform config earlier).skipHeader call.buffer
  have hcache := @cacheHolds_after api _ fix platform config earlier
  have hsame : SameEncoder api (call.config config).logonInfo start start.toMsgEncoder := by
    rw [sameEncoder_setters]
    exact ⟨rfl, ⟨hcache.session, hcache.fits⟩⟩
  have halike := sim_appendMsgBody fix platform (call.config config) call.request call.msg
    start start.toMsgEncoder ⟨hsame, rfl⟩
  have hends := @ends_appendMsgBody api call.msg _ fix platform (call.config config) call.request
    hrequest start.toMsgEncoder hroom
  revert hends
  cases readRequest fix call.msg call.request with
  | ok order =>
      rintro ⟨_, hok⟩
      rw [hok] at halike
      generalize appendMsgBody api fix platform (call.config config) call.msg
        call.request start = body at halike ⊢
      cases halike with
      | ok hsame' => exact ⟨_, rfl, hsame'.encoder⟩
  | error err =>
      rintro ⟨e', herror⟩
      rw [herror] at halike
      generalize appendMsgBody api fix platform (call.config config) call.msg
        call.request start = body at halike ⊢
      cases halike with
      | error hsame' => exact ⟨_, rfl⟩

/-- Exactly the orders whose texts convert are treated so, if they have a price. -/
theorem encodesOrder_iff {earlier : List RequestCall} {call : RequestCall}
    (hcarries : CarriesOrder fix call.msg call.request)
    (hroom : sizeofMsgHeader + requestSize config.logonInfo call.msg call.request ≤
      api.maxDataSize) :
    EncodesOrder api fix platform config earlier call ↔ Encodable fix call.msg := by
  have hends := @appendMsgBody_ends api _ fix platform config earlier call hcarries.order hroom
  constructor
  · intro hencodes
    apply encodable_of_readRequest hcarries
    cases hread : readRequest fix call.msg call.request with
    | ok order => exact Or.inl ⟨order, rfl⟩
    | error err =>
        right
        rw [hread] at hends
        rcases hends with ⟨s', herror⟩
        by_cases hmarket : IsMarket fix call.msg ∧ call.msg.isSet .price
        · rcases hencodes.rejects hmarket with ⟨s'', hreject⟩
          rw [herror] at hreject
          cases hreject
          rfl
        · rcases hencodes.encodes hmarket with ⟨order, _, s'', hok, _⟩
          rw [herror] at hok
          cases hok
  · intro hencodable
    constructor
    · intro hnot
      have hpriced : ¬ IsMarket fix call.msg := fun hmarket => hnot ⟨hmarket, hencodable.price⟩
      rcases readRequest_of_priced hcarries hencodable hpriced with ⟨order, hread, horder⟩
      rw [hread] at hends
      exact ⟨order, horder, hends⟩
    · rintro ⟨hmarket, _⟩
      rw [readRequest_of_market hcarries hencodable hmarket] at hends
      exact hends

/-! ### An order at the market, and one with a price -/

def sampleConfig : SessionInfo := ⟨fun _ => none, ⟨0, [0x53], [0x55], [], 1, 2⟩⟩

def marketOrder : FixMessage
  | .symbol => some [0x41]
  | .clOrdID => some [0x31]
  | .orderQty => some [0x30]
  | .side => some [0x31]
  | .ordType => some [ordTypeMarket]
  | _ => none

def limitOrder : FixMessage :=
  (marketOrder.setField .ordType [0x32]).setField .price [0x30]

theorem encodesOrder_limitOrder :
    EncodesOrder NetworkOrder.espd QuickFix.plain Platform.plain sampleConfig []
        ⟨fun _ => 0, 1, 2, .newOrderSingle, limitOrder⟩ ↔
      Encodable QuickFix.plain limitOrder :=
  encodesOrder_iff
    ⟨by decide, rfl, rfl, rfl, rfl, rfl, by decide, Or.inl rfl⟩ (by decide)

/-- The market order has no price, and is refused for that. -/
theorem not_encodesOrders :
    ¬ EncodesOrders NetworkOrder.espd QuickFix.plain Platform.plain sampleConfig := by
  intro hencodes
  let call : RequestCall := ⟨fun _ => 0, 1, 2, .newOrderSingle, marketOrder⟩
  have hroom : sizeofMsgHeader + requestSize sampleConfig.logonInfo call.msg call.request ≤
      NetworkOrder.espd.maxDataSize := by decide
  have hcarries : CarriesOrder QuickFix.plain call.msg call.request :=
    ⟨by decide, rfl, rfl, rfl, rfl, rfl, by decide, Or.inr rfl⟩
  have hnoPrice : ¬ (IsMarket QuickFix.plain call.msg ∧ call.msg.isSet .price) := by decide
  rcases (hencodes [] call hcarries hroom).encodes hnoPrice with ⟨order, _, s', hok, _⟩
  have hread : readRequest QuickFix.plain call.msg call.request = .error .fieldNotFound := rfl
  have hends := @appendMsgBody_ends NetworkOrder.espd _ QuickFix.plain Platform.plain sampleConfig
    [] call hcarries.order hroom
  rw [hread] at hends
  rcases hends with ⟨s'', herror⟩
  rw [herror] at hok
  cases hok

end Reached

end CppPlay.FixAdapter
