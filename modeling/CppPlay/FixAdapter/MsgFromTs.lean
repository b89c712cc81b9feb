import CppPlay.FixAdapter.MsgToTs
import CppPlay.FixAdapter.NotifyIsolation

/-!
# Messages of the trading system

`MsgFromTs` acts on a parsed message by its type.  A connect reply logs a session
on, a notification becomes a report with an `ExecID` of its session; both throw
when they cannot tell the session.
-/

namespace CppPlay.FixAdapter

open CppPlay.Lib

section Conversion

variable (api : Espd) {SessionID : Type} [DecidableEq SessionID] (fix : QuickFix SessionID)
  (platform : Platform)

/-! ## Reading the parsed message -/

def parsed (data : Memory Byte) : MsgFromTSParser :=
  (((MsgFromTSParser.make api data).parseBuffer api).map Prod.snd).getD
    (MsgFromTSParser.make api data)

/-- The positions that a loop with `firstFld` and `nextFld` goes through. -/
def MsgFromTSParser.positions (p : MsgFromTSParser) : List ℕ :=
  ((({ p with fields := [] } : MsgFromTSParser).parseBody api).map fun r => r.2.fields).getD []

def uint32At (data : Memory Byte) (pos : ℕ) : UInt32 :=
  api.uespd32.load (data.read (pos + sizeofFldHdr) 4)

def decimalAt (data : Memory Byte) (pos : ℕ) : Decimal :=
  api.bespd64.load (data.read (pos + sizeofFldHdr) 8)

def stringAt (data : Memory Byte) (pos : ℕ) : CppString :=
  cString api data (pos + sizeofFldHdr)

/-- `findFieldData` of a 32-bit number, 0 without such a field. -/
def findFieldData (p : MsgFromTSParser) (ident : FieldId) : UInt32 :=
  ((p.fields.find? fun pos => FldHdr.getId api p.data pos = api.fieldIdCode ident).map
    (uint32At api p.data)).getD 0

/-! ## Connect replies -/

structure ConnectReply where
  sessionIDStr : CppString
  xsessId : UInt32
  tsId : UInt32

def ConnectReply.readField (data : Memory Byte) (reply : ConnectReply) (pos : ℕ) :
    ConnectReply :=
  let id := FldHdr.getId api data pos
  if id = api.fieldIdCode .sessionId then
    { reply with sessionIDStr := stringAt api data pos }
  else if id = api.fieldIdCode .extTsSessionId then
    { reply with xsessId := uint32At api data pos }
  else if id = api.fieldIdCode .tsId then
    { reply with tsId := uint32At api data pos }
  else reply

def readConnectReply (p : MsgFromTSParser) : ConnectReply :=
  run (ConnectReply.readField api p.data) ⟨[], 0, 0⟩ (p.positions api)

def showString (text : CppString) : String := String.ofList (text.map fun b => Char.ofNat b.toNat)

def manageConnectReply (config : SessionsInfo SessionID) (p : MsgFromTSParser) :
    Except CppException (SessionsInfo SessionID) :=
  let reply := readConnectReply api p
  if reply.sessionIDStr = [] then
    .error (.fixError " Cannot set SessionID. The message is ignored. ")
  else if reply.xsessId = 0 then
    .error (.fixError " Cannot set xsessId. The message is ignored. ")
  else if reply.tsId = 0 then
    .error (.fixError " Cannot set tsId. The message is ignored. ")
  else
    match config.setSessId (fix.fromString reply.sessionIDStr) reply.xsessId reply.tsId with
    | (false, _) =>
        .error (.fixError (" Cannot set session ID " ++ showString reply.sessionIDStr))
    | (true, config) => .ok config

/-! ## Notifications -/

/-- The converter between two messages: its manager and how many ids were
generated for each session. -/
structure MsgFromTs (SessionID : Type) where
  notifyMgr : TSNotifyManager
  generated : SessionID → ℕ

def initFldsNum : ℕ := 100

def MsgFromTs.start : MsgFromTs SessionID := ⟨.make initFldsNum, fun _ => 0⟩

def TSNotifyManager.setExecId (mgr : TSNotifyManager) (id : CppString) : TSNotifyManager :=
  { mgr with msg := mgr.msg.setField .execID id }

/-- The configured sessions have generators. -/
def getNextUniqStr (config : SessionsInfo SessionID) (generated : SessionID → ℕ)
    (id : SessionID) : Except CppException (CppString × (SessionID → ℕ)) :=
  match config.sessionsSettings id with
  | none => .error (.espdMsgError " Cannot generate ExecID. Message ignored. ")
  | some _ =>
      .ok (platform.uniqueString (generated id), Function.update generated id (generated id + 1))

def MsgFromTSParser.notifyMsg (p : MsgFromTSParser) : NotifyMsg :=
  ⟨findFieldData api p .cmd, p.data, p.fields, p.bodyEnd⟩

def manageNotify (config : SessionsInfo SessionID) (conv : MsgFromTs SessionID)
    (p : MsgFromTSParser) :
    Except NotifyError (FixMessageInfo SessionID) × MsgFromTs SessionID :=
  match conv.notifyMgr.manageEspdMsg api fix config (p.notifyMsg api) with
  | (.error e, mgr) => (.error e, { conv with notifyMgr := mgr })
  | (.ok none, mgr) => (.ok none, { conv with notifyMgr := mgr })
  | (.ok (some (_, session)), mgr) =>
      match getNextUniqStr platform config conv.generated session with
      | .error e => (.error (.thrown e), { conv with notifyMgr := mgr })
      | .ok (execId, generated) =>
          let mgr := mgr.setExecId execId
          (.ok (some (mgr.msg.msg, session)), ⟨mgr, generated⟩)

/-! ## Any message -/

/-- `convert`.  The other types are only logged, and so is an unknown type. -/
def MsgFromTs.convert (config : SessionsInfo SessionID) (conv : MsgFromTs SessionID)
    (p : MsgFromTSParser) :
    Except NotifyError (FixMessageInfo SessionID) × MsgFromTs SessionID ×
      SessionsInfo SessionID :=
  if p.msgType = api.msgTypeCode .notify then
    let (result, conv) := manageNotify api fix platform config conv p
    (result, conv, config)
  else if p.msgType = api.msgTypeCode .connectReply then
    match manageConnectReply api fix config p with
    | .error e => (.error (.thrown e), conv, config)
    | .ok config => (.ok none, conv, config)
  else (.ok none, conv, config)

/-! ## Which messages are handled -/

def dataOf {α : Type} (data : Memory Byte) (ident : FieldId) (read : ℕ → α) (pos : ℕ) :
    Option α :=
  if FldHdr.getId api data pos = api.fieldIdCode ident then some (read pos) else none

def lastData {α : Type} (data : Memory Byte) (positions : List ℕ) (ident : FieldId)
    (read : ℕ → α) : Option α :=
  positions.reverse.findSome? (dataOf api data ident read)

/-- A connect reply for a configured session of this trading system, with a number
for it. -/
def ConnectReplyOk (config : SessionsInfo SessionID) (p : MsgFromTSParser) : Prop :=
  ∃ sessionIDStr xsessId tsId info,
    lastData api p.data (p.positions api) .sessionId (stringAt api p.data) =
      some sessionIDStr ∧
    lastData api p.data (p.positions api) .extTsSessionId (uint32At api p.data) =
      some xsessId ∧
    lastData api p.data (p.positions api) .tsId (uint32At api p.data) = some tsId ∧
    sessionIDStr ≠ [] ∧ xsessId ≠ 0 ∧ tsId ≠ 0 ∧
    config.getLogonInfo (fix.fromString sessionIDStr) = some info ∧ tsId = info.tsId

/-- The number that selects the session: of the message, where its command looks at
it, or else the one that an earlier message left. -/
def selectedNumber (mgr : TSNotifyManager) (p : MsgFromTSParser) (key : SessionKey) :
    NotifyCmd → UInt32
  | .orderQueued =>
      (lastData api p.data p.fields key.fieldId (uint32At api p.data)).getD
        (mgr.msg.register key)
  | .orderRejected => mgr.msg.register key

/-- A notification with no more fields than the caches reserve, for a configured
session, and, when an order was queued, with its size. -/
def NotifyOk (config : SessionsInfo SessionID) (mgr : TSNotifyManager) (p : MsgFromTSParser) :
    Prop :=
  ∀ cmd, notifyCmd? api (findFieldData api p .cmd) = some cmd →
    p.fields.length ≤ mgr.capacity ∧
    (cmd = .orderQueued → ∃ size qty,
      lastData api p.data p.fields .size (decimalAt api p.data) = some size ∧
      fix.doubleOfString (fix.stringOfDouble size) = some qty) ∧
    ∃ info, config.sessionsSettings (config.getSessionId fix
      (selectedNumber api mgr p .extTsSessionId cmd, selectedNumber api mgr p .tsId cmd)) =
        some info

def ResponseOk (config : SessionsInfo SessionID) (conv : MsgFromTs SessionID)
    (p : MsgFromTSParser) : Prop :=
  (p.msgType = api.msgTypeCode .notify → NotifyOk api fix config conv.notifyMgr p) ∧
    (p.msgType = api.msgTypeCode .connectReply → ConnectReplyOk api fix config p)

end Conversion

variable {api : Espd} {SessionID : Type} {fix : QuickFix SessionID} {platform : Platform}

/-! ## The two scans -/

variable (api) in
theorem parsed_spec (data : Memory Byte) :
    (∃ stop, (MsgFromTSParser.make api data).parseBuffer api = some (stop, parsed api data)) ∧
      (parsed api data).data = data ∧
      (parsed api data).bodySize = (MsgHeader.getLength api data).toNat ∧
      (parsed api data).msgType = MsgHeader.getMessageType api data ∧
      (parsed api data).fields = blockStarts sizeofMsgHeader (MsgFromTSParser.pushedBlocks
        ((fieldCode api).parse (MsgFromTSParser.body api data))) := by
  rcases MsgFromTSParser.parseBuffer_spec api ⟨data, 0, 0, 0, 0, 0, [], []⟩ data 0 with
    ⟨stop, q, hparse, hdata, hbodySize, _, hmsgType, hfields, _⟩
  rw [← MsgFromTSParser.make] at hparse
  have hq : parsed api data = q := by
    rw [parsed, hparse]
    rfl
  rw [hq]
  exact ⟨⟨stop, hparse⟩, hdata, hbodySize, hmsgType, hfields⟩

/-- The second scan of a message visits what the first has pushed. -/
theorem positions_parsed (data : Memory Byte) :
    (parsed api data).positions api = (parsed api data).fields := by
  rcases parsed_spec api data with ⟨_, hdata, hbodySize, _, hfields⟩
  let start : MsgFromTSParser := ({ parsed api data with fields := [] } : MsgFromTSParser).firstFld
  have hend : start.bodyEnd = sizeofMsgHeader + (parsed api data).bodySize := Nat.add_comm _ _
  have hrest : start.rest = MsgFromTSParser.body api data := by
    rw [MsgFromTSParser.rest, hend, MsgFromTSParser.body, ← hbodySize]
    change (parsed api data).data.read sizeofMsgHeader _ = _
    rw [hdata]
    congr 1
    exact Nat.add_sub_cancel_left ..
  have hoffset : start.offset ≤ start.bodyEnd := by
    rw [hend]
    exact Nat.le_add_right ..
  have hfuel : start.rest.length < (parsed api data).bodySize + 1 := by
    rw [hrest, MsgFromTSParser.body, Memory.length_read, hbodySize]
    exact Nat.lt_succ_self _
  rcases MsgFromTSParser.parseLoop_spec api hoffset hfuel with ⟨stop, q, hloop, hscan⟩
  have hbody : ({ parsed api data with fields := [] } : MsgFromTSParser).parseBody api =
      some (stop, q) := hloop
  rw [MsgFromTSParser.positions, hbody, hfields, ← hrest, Option.map_some, Option.getD_some]
  exact hscan.fields_eq.trans (List.nil_append _)

/-! ## Connect replies that log on -/

theorem fieldIdCode_eq_iff {ident ident' : FieldId} :
    api.fieldIdCode ident = api.fieldIdCode ident' ↔ ident = ident' :=
  api.fieldIdCode_injective.eq_iff

variable (api) in
theorem readField_eq (data : Memory Byte) (reply : ConnectReply) (pos : ℕ) :
    reply.readField api data pos =
      { sessionIDStr := (dataOf api data .sessionId (stringAt api data) pos).getD
          reply.sessionIDStr
        xsessId := (dataOf api data .extTsSessionId (uint32At api data) pos).getD reply.xsessId
        tsId := (dataOf api data .tsId (uint32At api data) pos).getD reply.tsId } := by
  simp only [ConnectReply.readField, dataOf]
  split_ifs with hsession hext hts hts <;> simp_all [fieldIdCode_eq_iff]

variable (api) in
theorem readConnectReply_eq (p : MsgFromTSParser) :
    readConnectReply api p =
      { sessionIDStr := (lastData api p.data (p.positions api) .sessionId
          (stringAt api p.data)).getD []
        xsessId := (lastData api p.data (p.positions api) .extTsSessionId
          (uint32At api p.data)).getD 0
        tsId := (lastData api p.data (p.positions api) .tsId (uint32At api p.data)).getD 0 } := by
  have hstep := readField_eq api p.data
  have hsession := run_overwrites ConnectReply.sessionIDStr
    (dataOf api p.data .sessionId (stringAt api p.data))
    (fun reply pos => congrArg ConnectReply.sessionIDStr (hstep reply pos)) ⟨[], 0, 0⟩
    (p.positions api)
  have hext := run_overwrites ConnectReply.xsessId
    (dataOf api p.data .extTsSessionId (uint32At api p.data))
    (fun reply pos => congrArg ConnectReply.xsessId (hstep reply pos)) ⟨[], 0, 0⟩
    (p.positions api)
  have hts := run_overwrites ConnectReply.tsId (dataOf api p.data .tsId (uint32At api p.data))
    (fun reply pos => congrArg ConnectReply.tsId (hstep reply pos)) ⟨[], 0, 0⟩
    (p.positions api)
  rw [← readConnectReply] at hsession hext hts
  cases hreply : readConnectReply api p with
  | mk sessionIDStr xsessId tsId =>
      rw [hreply] at hsession hext hts
      rw [ConnectReply.mk.injEq]
      exact ⟨hsession, hext, hts⟩

section Logon

variable [DecidableEq SessionID]

theorem map_setSessId {α : Type} (f : SessionLogonInfo → α)
    (hf : ∀ info xsessId, f { info with xsessId := xsessId } = f info)
    (config : SessionsInfo SessionID) (id : SessionID) (xsessId tsId : UInt32)
    (other : SessionID) :
    ((config.setSessId id xsessId tsId).2.sessionsSettings other).map (fun s => f s.logonInfo) =
      (config.sessionsSettings other).map fun s => f s.logonInfo := by
  rw [SessionsInfo.setSessId]
  cases hinfo : config.getLogonInfo id with
  | none => rfl
  | some info =>
      rw [SessionsInfo.getLogonInfo, Option.map_eq_some_iff] at hinfo
      rcases hinfo with ⟨s, hs, hsinfo⟩
      by_cases hts : tsId = info.tsId
      · by_cases hother : other = id
        · simp [hts, SessionsInfo.storeLogonInfo, hother, hs, hf, hsinfo]
        · simp [hts, SessionsInfo.storeLogonInfo, hother]
      · simp [hts]

theorem manageConnectReply_ok {config : SessionsInfo SessionID} {p : MsgFromTSParser}
    (hreply : ConnectReplyOk api fix config p) :
    ∃ id xsessId tsId, manageConnectReply api fix config p =
      .ok (config.setSessId id xsessId tsId).2 := by
  rcases hreply with ⟨sessionIDStr, xsessId, tsId, info, hsession, hext, hts, hstr, hx, ht,
    hinfo, hsame⟩
  have hread := readConnectReply_eq api p
  rw [hsession, hext, hts, Option.getD_some, Option.getD_some, Option.getD_some] at hread
  refine ⟨fix.fromString sessionIDStr, xsessId, tsId, ?_⟩
  have hset : (config.setSessId (fix.fromString sessionIDStr) xsessId tsId).1 = true := by
    simp [SessionsInfo.setSessId, hinfo, hsame]
  simp only [manageConnectReply, hread, hstr, hx, ht, if_false]
  cases hresult : config.setSessId (fix.fromString sessionIDStr) xsessId tsId with
  | mk status config' =>
      rw [hresult] at hset
      change status = true at hset
      rw [hset]

end Logon

/-! ## Notifications that are reported -/

theorem actionAt_queued_iff {data : Memory Byte} {pos : ℕ} {ident : FieldId}
    (hident : ident ∈ queuedIds) :
    actionAt api .orderQueued data pos = .act ident ↔
      FldHdr.getId api data pos = api.fieldIdCode ident := by
  simp only [actionAt, getFixAction]
  constructor
  · intro haction
    cases hfind : queuedIds.find? fun f =>
        decide (api.fieldIdCode f = FldHdr.getId api data pos) with
    | none => simp [hfind] at haction
    | some f =>
        rw [hfind, FixAction.act.injEq] at haction
        rw [← haction]
        exact (by simpa using List.find?_some hfind : api.fieldIdCode f = _).symm
  · intro hid
    rw [hid]
    simp only [fieldIdCode_eq_iff]
    have hsome : (queuedIds.find? fun f => decide (f = ident)).isSome :=
      List.find?_isSome.mpr ⟨ident, hident, by simp⟩
    rcases Option.isSome_iff_exists.mp hsome with ⟨f, hfind⟩
    have hf : f = ident := by simpa using List.find?_some hfind
    rw [hfind, hf]

theorem register_applyActions_queued (data : Memory Byte) (fields : List ℕ) (wr : FixMsgWr)
    (key : SessionKey) :
    (applyActions api fix .orderQueued data fields wr).register key =
      (lastData api data fields key.fieldId (uint32At api data)).getD (wr.register key) := by
  have hmem : key.fieldId ∈ queuedIds := by cases key <;> decide
  apply run_overwrites (fun wr => FixMsgWr.register wr key)
    (dataOf api data key.fieldId (uint32At api data))
  intro wr pos
  rw [register_run, dataOf]
  by_cases hid : FldHdr.getId api data pos = api.fieldIdCode key.fieldId
  · rw [if_pos ((actionAt_queued_iff hmem).mpr hid), if_pos hid]
    rfl
  · rw [if_neg (fun haction => hid ((actionAt_queued_iff hmem).mp haction)), if_neg hid]
    rfl

theorem orderQty_applyActions (data : Memory Byte) (fields : List ℕ) (wr : FixMsgWr) :
    (applyActions api fix .orderQueued data fields wr).msg .orderQty =
      ((lastData api data fields .size (decimalAt api data)).map
        (fun size => some (fix.stringOfDouble size))).getD (wr.msg .orderQty) := by
  rw [lastData, List.map_findSome?]
  apply run_overwrites (fun wr => FixMsgWr.msg wr .orderQty)
  intro wr pos
  have hrun : ((actionAt api .orderQueued data pos).run api fix data pos wr).msg .orderQty =
      if actionAt api .orderQueued data pos = .act .size then
        some (fix.stringOfDouble (decimalAt api data pos))
      else wr.msg .orderQty := by
    cases actionAt api .orderQueued data pos with
    | dummyAction => rfl
    | act ident =>
        cases ident <;> simp [FixAction.run, Act.type, MsgField.getData, Act.store,
          FixMsgWr.setField, FixMessage.setField, decimalAt]
  rw [hrun, Function.comp_apply, dataOf]
  by_cases hid : FldHdr.getId api data pos = api.fieldIdCode .size
  · rw [if_pos ((actionAt_queued_iff (by decide)).mpr hid), if_pos hid]
    rfl
  · rw [if_neg (fun haction => hid ((actionAt_queued_iff (by decide)).mp haction)), if_neg hid]
    rfl

theorem applyActions_rejected (data : Memory Byte) (fields : List ℕ) (wr : FixMsgWr) :
    applyActions api fix .orderRejected data fields wr = wr := by
  induction fields with
  | nil => rfl
  | cons pos fields ih => exact ih

theorem register_applyActions_eq (mgr : TSNotifyManager) (p : MsgFromTSParser)
    (cmd : NotifyCmd) (key : SessionKey) (msg : FixMessage) :
    (applyActions api fix cmd p.data p.fields (mgr.msg.setMsg msg)).register key =
      selectedNumber api mgr p key cmd := by
  have hreset : (mgr.msg.setMsg msg).register key = mgr.msg.register key := by
    cases key <;> rfl
  cases cmd with
  | orderQueued => rw [register_applyActions_queued, hreset, selectedNumber]
  | orderRejected => rw [applyActions_rejected, hreset, selectedNumber]

theorem finishReport_ok {mgr : TSNotifyManager} {p : MsgFromTSParser} {cmd : NotifyCmd}
    (hsize : cmd = .orderQueued → ∃ size qty,
      lastData api p.data p.fields .size (decimalAt api p.data) = some size ∧
      fix.doubleOfString (fix.stringOfDouble size) = some qty) :
    ∃ report, finishReport fix cmd (applyActions api fix cmd p.data p.fields
      (mgr.msg.setMsg (initMsg fix cmd))).msg = .ok report := by
  cases cmd with
  | orderRejected => exact ⟨_, rfl⟩
  | orderQueued =>
      rcases hsize rfl with ⟨size, qty, hlast, hqty⟩
      have horder : (applyActions api fix .orderQueued p.data p.fields
          (mgr.msg.setMsg (initMsg fix .orderQueued))).msg .orderQty =
          some (fix.stringOfDouble size) := by
        rw [orderQty_applyActions, hlast, Option.map_some, Option.getD_some]
      rw [finishReport, getField_of_some horder]
      simp only [bind, Except.bind, hqty]
      exact ⟨_, rfl⟩

theorem conclude_ok {config : SessionsInfo SessionID} {mgr : TSNotifyManager}
    {p : MsgFromTSParser} {cmd : NotifyCmd} (hnotify : NotifyOk api fix config mgr p)
    (hcmd : notifyCmd? api (findFieldData api p .cmd) = some cmd) :
    ∃ report session info,
      conclude fix config cmd (applyActions api fix cmd p.data p.fields
        (mgr.msg.setMsg (initMsg fix cmd))) = .ok (some (report, session)) ∧
      config.sessionsSettings session = some info := by
  rcases hnotify cmd hcmd with ⟨_, hsize, info, hsession⟩
  rcases finishReport_ok hsize with ⟨report, hfinish⟩
  refine ⟨report, _, info, by rw [conclude, hfinish], ?_⟩
  have hkey : ∀ key, (applyActions api fix cmd p.data p.fields
      (mgr.msg.setMsg (initMsg fix cmd))).register key = selectedNumber api mgr p key cmd :=
    fun key => register_applyActions_eq mgr p cmd key (initMsg fix cmd)
  rw [← hkey, ← hkey] at hsession
  exact hsession

section Responses

variable [DecidableEq SessionID]

variable (platform) in
theorem manageNotify_ok {config : SessionsInfo SessionID} {conv : MsgFromTs SessionID}
    {p : MsgFromTSParser} (hcaches : conv.notifyMgr.CachesOk api)
    (hnotify : NotifyOk api fix config conv.notifyMgr p) :
    ∃ info conv', manageNotify api fix platform config conv p = (.ok info, conv') ∧
      conv'.notifyMgr.CachesOk api ∧ conv'.notifyMgr.capacity = conv.notifyMgr.capacity := by
  cases hcmd : notifyCmd? api (p.notifyMsg api).cmd with
  | none =>
      refine ⟨none, conv, ?_, hcaches, rfl⟩
      simp [manageNotify, TSNotifyManager.manageEspdMsg, hcmd]
  | some cmd =>
      rcases manageEspdMsg_eq fix hcaches config hcmd (hnotify cmd hcmd).1 with
        ⟨hresult, hcaches', hcapacity, _⟩
      rcases conclude_ok hnotify hcmd with ⟨report, session, info, hconclude, hsession⟩
      have hmanage : conv.notifyMgr.manageEspdMsg api fix config (p.notifyMsg api) =
          (.ok (some (report, session)),
            (conv.notifyMgr.manageEspdMsg api fix config (p.notifyMsg api)).2) :=
        Prod.ext (hresult.trans hconclude) rfl
      rw [manageNotify, hmanage]
      simp only [getNextUniqStr, hsession]
      exact ⟨_, _, rfl, hcaches', hcapacity⟩

variable (platform) in
theorem convert_ok {config : SessionsInfo SessionID} {conv : MsgFromTs SessionID}
    {p : MsgFromTSParser} (hcaches : conv.notifyMgr.CachesOk api)
    (hresponse : ResponseOk api fix config conv p) :
    ∃ info conv' config', conv.convert api fix platform config p = (.ok info, conv', config') ∧
      conv'.notifyMgr.CachesOk api ∧ conv'.notifyMgr.capacity = conv.notifyMgr.capacity ∧
      (config' = config ∨ ∃ id xsessId tsId, config' = (config.setSessId id xsessId tsId).2) := by
  rw [MsgFromTs.convert]
  by_cases hnotify : p.msgType = api.msgTypeCode .notify
  · rcases manageNotify_ok platform hcaches (hresponse.1 hnotify) with
      ⟨info, conv', hmanage, hcaches', hcapacity⟩
    rw [if_pos hnotify, hmanage]
    exact ⟨info, conv', config, rfl, hcaches', hcapacity, Or.inl rfl⟩
  · rw [if_neg hnotify]
    by_cases hconnect : p.msgType = api.msgTypeCode .connectReply
    · rcases manageConnectReply_ok (hresponse.2 hconnect) with ⟨id, xsessId, tsId, hreply⟩
      rw [if_pos hconnect, hreply]
      exact ⟨none, conv, _, rfl, hcaches, rfl, Or.inr ⟨id, xsessId, tsId, rfl⟩⟩
    · rw [if_neg hconnect]
      exact ⟨none, conv, config, rfl, hcaches, rfl, Or.inl rfl⟩

end Responses

end CppPlay.FixAdapter
