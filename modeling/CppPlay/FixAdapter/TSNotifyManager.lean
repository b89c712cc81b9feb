import CppPlay.FixAdapter.MsgFromTSParser
import CppPlay.FixAdapter.SessionsInfo

/-!
# Notifications of the trading system

`TSNotifyManager` turns the fields of a NOTIFY message into an execution report.
It lives as long as its thread: the wrapper around the report and, for each
command, a cache of the actions found for the fields of earlier messages are
used again for the next message.
-/

namespace CppPlay.FixAdapter

open CppPlay.Lib

/-- `FixMsgWr`: the report under construction and the two numbers that select
its session. -/
structure FixMsgWr where
  msg : FixMessage
  extSesId : UInt32
  tsId : UInt32

def FixMsgWr.setMsg (wr : FixMsgWr) (msg : FixMessage) : FixMsgWr := { wr with msg := msg }

def FixMsgWr.setField (wr : FixMsgWr) (tag : FixTag) (value : CppString) : FixMsgWr :=
  { wr with msg := wr.msg.setField tag value }

/-! ## Actions -/

/-- `Act<id>::make` by its id, or `dummyAction`. -/
inductive FixAction where
  | dummyAction
  | act (id : FieldId)
  deriving DecidableEq, Repr

def Act.type : FieldId → Option FieldType
  | .clientOrderId | .origClientOrderId | .instName => some .string
  | .extTsSessionId | .tsId | .fieldId => some .uint32
  | .price | .size => some .decimal
  | .indicator => some .byte
  | _ => none

section Actions

variable (api : Espd) {SessionID : Type} (fix : QuickFix SessionID)

/-- `ESPD_FIX_MAP.getSide`; `Side_INVALID` is NUL. -/
def getSide (indicator : UInt8) : Byte :=
  if indicator = api.orderBuy then 0x31
  else if indicator = api.orderSell then 0x32
  else 0

def Act.store (id : FieldId) (value : FieldValue) (wr : FixMsgWr) : FixMsgWr :=
  match id, value with
  | .tsId, .uint32 tsId => { wr with tsId := tsId }
  | .extTsSessionId, .uint32 xsessId => { wr with extSesId := xsessId }
  | .clientOrderId, .string clOrdID => wr.setField .origClOrdID clOrdID
  | .origClientOrderId, .string origClOrdID => wr.setField .origClOrdID origClOrdID
  | .instName, .string symbol => wr.setField .symbol symbol
  | .price, .decimal price => wr.setField .price (fix.stringOfDouble price)
  | .size, .decimal size => wr.setField .orderQty (fix.stringOfDouble size)
  | .indicator, .byte indicator => wr.setField .side [getSide api indicator]
  | .fieldId, .uint32 ident => wr.setField .orderID (fix.lexicalCast ident)
  | _, _ => wr

/-- The action reads its own type, whatever type the field declares. -/
def FixAction.run (action : FixAction) (data : Memory Byte) (pos : ℕ) (wr : FixMsgWr) :
    FixMsgWr :=
  match action with
  | .dummyAction => wr
  | .act id =>
      match (Act.type id).bind (MsgField.getData api data pos) with
      | none => wr
      | some value => Act.store api fix id value wr

def queuedIds : List FieldId :=
  [.clientOrderId, .extTsSessionId, .tsId, .origClientOrderId, .instName, .price, .size,
    .indicator, .fieldId]

def getFixAction (cmd : NotifyCmd) (id : UInt16) : FixAction :=
  match cmd with
  | .orderQueued =>
      match queuedIds.find? fun f => api.fieldIdCode f = id with
      | some f => .act f
      | none => .dummyAction
  | .orderRejected => .dummyAction

end Actions

/-! ## The cache of actions -/

/-- An element of `m_actions`: the id as it stands in the buffer, the id, and the
action once it is known. -/
structure CachedAction where
  bigId : List Byte
  id : UInt16
  action : Option FixAction

/-- What a use of the manager ends with.  A `push_back` that moves the vector
leaves the loop with an iterator into freed memory. -/
inductive NotifyError where
  | thrown (e : CppException)
  | danglingIterator
  deriving DecidableEq

section Manager

variable (api : Espd) {SessionID : Type} (fix : QuickFix SessionID)

/-- The loop of `manageActions`: `visited` and `ahead` are the cached actions
before and from the position of the iterator. -/
def manageActions (cmd : NotifyCmd) (capacity : ℕ) (data : Memory Byte) :
    List ℕ → List CachedAction → List CachedAction → FixMsgWr →
      Except NotifyError (List CachedAction × FixMsgWr)
  | [], visited, ahead, wr => .ok (visited ++ ahead, wr)
  | pos :: fields, visited, [], wr =>
      let id := FldHdr.getId api data pos
      let action := getFixAction api cmd id
      if visited.length < capacity then
        manageActions cmd capacity data fields
          (visited ++ [⟨data.read pos 2, id, some action⟩]) [] (action.run api fix data pos wr)
      else .error .danglingIterator
  | pos :: fields, visited, cached :: ahead, wr =>
      let cached : CachedAction :=
        if cached.bigId ≠ data.read pos 2 then
          ⟨data.read pos 2, FldHdr.getId api data pos, none⟩
        else cached
      let action := cached.action.getD (getFixAction api cmd cached.id)
      manageActions cmd capacity data fields
        (visited ++ [{ cached with action := some action }]) ahead
        (action.run api fix data pos wr)

/-! ## The manager -/

structure TSNotifyManager where
  actionMaps : NotifyCmd → List CachedAction
  capacity : ℕ
  msg : FixMsgWr

/-- The constructor; the caches reserve what the parser's positions have. -/
def TSNotifyManager.make (capacity : ℕ) : TSNotifyManager :=
  ⟨fun _ => [], capacity, ⟨FixMessage.empty, 0, 0⟩⟩

def initMsg : NotifyCmd → FixMessage
  | .orderQueued =>
      let zero := fix.stringOfDouble 0
      FixMessage.empty.setField .msgType [0x38]
        |>.setField .execType [0x30]
        |>.setField .execTransType [0x30]
        |>.setField .ordStatus [0x30]
        |>.setField .lastShares zero
        |>.setField .cumQty zero
        |>.setField .avgPx zero
        |>.setField .lastPx zero
  | .orderRejected => FixMessage.empty

def finishReport (cmd : NotifyCmd) (msg : FixMessage) : Except CppException FixMessage :=
  match cmd with
  | .orderQueued => do
      let orderQty ← msg.getField .orderQty
      match fix.doubleOfString orderQty with
      | none => .error .incorrectDataFormat
      | some qty => .ok (msg.setField .leavesQty (fix.stringOfDouble qty))
  | .orderRejected => .ok msg

/-- The report and the session, both null for a command without a case. -/
abbrev FixMessageInfo (SessionID : Type) := Option (FixMessage × SessionID)

structure NotifyMsg where
  cmd : UInt32
  data : Memory Byte
  fields : List ℕ
  size : ℕ

def notifyCmd? (cmd : UInt32) : Option NotifyCmd :=
  if cmd = api.notifyCmdCode .orderQueued then some .orderQueued
  else if cmd = api.notifyCmdCode .orderRejected then some .orderRejected
  else none

def TSNotifyManager.manageEspdMsg (mgr : TSNotifyManager) (config : SessionsInfo SessionID)
    (msg : NotifyMsg) :
    Except NotifyError (FixMessageInfo SessionID) × TSNotifyManager :=
  match notifyCmd? api msg.cmd with
  | none => (.ok none, mgr)
  | some cmd =>
      match manageActions api fix cmd mgr.capacity msg.data msg.fields []
        (mgr.actionMaps cmd) (mgr.msg.setMsg (initMsg fix cmd)) with
      | .error e => (.error e, mgr)
      | .ok (actions, wr) =>
          let session := config.getSessionId fix (wr.extSesId, wr.tsId)
          let mgr := { mgr with
            actionMaps := Function.update mgr.actionMaps cmd actions
            msg := wr }
          match finishReport fix cmd wr.msg with
          | .error e => (.error (.thrown e), mgr)
          | .ok report => (.ok (some (report, session)), { mgr with msg := wr.setMsg report })

end Manager

end CppPlay.FixAdapter
