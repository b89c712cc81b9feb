import CppPlay.FixAdapter.MsgFromTs
import CppPlay.FixAdapter.TsReader
import CppPlay.Lib.PooledQueue

/-!
# The buffers of the adapter

A buffer goes from a router's pool through a conversion or a read into the
router's queue and from there back to the pool.  Nothing returns it when an
exception leaves the function that owns it in between.
-/

namespace CppPlay.FixAdapter

open CppPlay.Lib

/-- `Buffer`; everyone who takes one begins with setting its offset. -/
structure Buffer where
  id : ℕ
  data : Memory Byte

abbrev FixTsRouters := UInt32 → Option (PooledQueue Buffer)

/-- The adapter between two calls: the session's settings, the routers of both
directions, the caches of the sessions' converters, and for each trading system
its socket and its response manager's converter. -/
structure Adapter (SessionID : Type) where
  config : SessionsInfo SessionID
  fixToTs : FixTsRouters
  tsToFix : FixTsRouters
  caches : SessionID → Option SessionBuffer
  sockets : UInt32 → Inbound
  responses : UInt32 → MsgFromTs SessionID

/-- A call of one of the components, with what it meets.  A writer that has sent
everything in its queue gives the buffers back; a read comes with how the calls of
`connect` in it will end. -/
inductive AdapterCall (SessionID : Type) where
  | request (session : SessionID) (request : FixRequest) (msg : FixMessage)
  | written (ts : UInt32)
  | read (ts : UInt32) (outcomes : List (Option (List Byte)))
  | response (ts : UInt32)

namespace Adapter

variable (api : Espd) {SessionID : Type} [DecidableEq SessionID] (fix : QuickFix SessionID)
  (platform : Platform)

def start (settings : SessionID → Option SessionInfo) (fixToTs tsToFix : FixTsRouters)
    (sockets : UInt32 → Inbound) : Adapter SessionID where
  config := .start settings
  fixToTs := fixToTs
  tsToFix := tsToFix
  caches _ := none
  sockets := sockets
  responses _ := .start

/-- `TSRequestManager::manage` of the session's manager. -/
def manageRequest (s : Adapter SessionID) (session : SessionID) (request : FixRequest)
    (msg : FixMessage) : Adapter SessionID :=
  match s.config.sessionsSettings session with
  | none => s
  | some config =>
      let tsId := config.logonInfo.tsId
      match s.fixToTs tsId with
      | none => s
      | some router =>
          match router.allocate with
          | none => s
          | some (buf, router) =>
              let conv : MsgToTs := ⟨⟨buf.data, 0, 0⟩, s.caches session⟩
              match convertRequest api fix platform config request msg conv with
              | .error _ conv =>
                  { s with
                    fixToTs := Function.update s.fixToTs tsId (some router)
                    caches := Function.update s.caches session conv.cache }
              | .ok _ conv =>
                  { s with
                    fixToTs := Function.update s.fixToTs tsId
                      (some (router.produce { buf with data := conv.data }))
                    caches := Function.update s.caches session conv.cache }

/-- A call of the writer's thread function that has sent all it found. -/
def sendQueued (s : Adapter SessionID) (ts : UInt32) : Adapter SessionID :=
  match s.fixToTs ts with
  | none => s
  | some router => { s with fixToTs := Function.update s.fixToTs ts (some router.drain) }

/-- `TsReaderImpl::threadFunction`; a read that waits has not returned. -/
def readMsg (s : Adapter SessionID) (ts : UInt32) (outcomes : List (Option (List Byte))) :
    Adapter SessionID :=
  match s.tsToFix ts with
  | none => s
  | some router =>
      match router.allocate with
      | none => s
      | some (buf, router) =>
          match loadMsg api { s.sockets ts with later := outcomes } with
          | .waiting => s
          | .threw socket =>
              { s with
                tsToFix := Function.update s.tsToFix ts (some router)
                sockets := Function.update s.sockets ts socket }
          | .loaded msg socket =>
              { s with
                tsToFix := Function.update s.tsToFix ts
                  (some (router.produce { buf with data := buf.data.write 0 msg.bytes }))
                sockets := Function.update s.sockets ts socket }

/-- `TSResponseManager::manageEspdMsg`; the call waits while the queue is empty.
What follows the conversion of `UST_ID_ST` only selects converters that do nothing. -/
def manageResponse (s : Adapter SessionID) (ts : UInt32) : Adapter SessionID :=
  match s.tsToFix ts with
  | none => s
  | some router =>
      match router.consume with
      | none => s
      | some (buf, router) =>
          match (s.responses ts).convert api fix platform s.config (parsed api buf.data) with
          | (.error _, conv, config) =>
              { s with
                config := config
                tsToFix := Function.update s.tsToFix ts (some router)
                responses := Function.update s.responses ts conv }
          | (.ok _, conv, config) =>
              { s with
                config := config
                tsToFix := Function.update s.tsToFix ts (some (router.delocate buf))
                responses := Function.update s.responses ts conv }

def step (s : Adapter SessionID) : AdapterCall SessionID → Adapter SessionID
  | .request session request msg => s.manageRequest api fix platform session request msg
  | .written ts => s.sendQueued ts
  | .read ts outcomes => s.readMsg api ts outcomes
  | .response ts => s.manageResponse api fix platform ts

/-- The same buffers are free or queued, at every router of both directions. -/
structure Conserved (s s' : Adapter SessionID) : Prop where
  fixToTs : heldAt Buffer.id s'.fixToTs = heldAt Buffer.id s.fixToTs
  tsToFix : heldAt Buffer.id s'.tsToFix = heldAt Buffer.id s.tsToFix

def CallOk (s : Adapter SessionID) : AdapterCall SessionID → Prop
  | .request session request msg =>
      ∀ config router, s.config.sessionsSettings session = some config →
        s.fixToTs config.logonInfo.tsId = some router → router.pool ≠ [] →
          RequestConverts api fix platform config request msg
  | .written _ => True
  | .read ts outcomes =>
      ∀ router, s.tsToFix ts = some router → router.pool ≠ [] → none ∉ outcomes
  | .response ts =>
      ∀ router buf, s.tsToFix ts = some router → router.queue.head? = some buf →
        ResponseOk api fix s.config (s.responses ts) (parsed api buf.data)

structure Inv (s : Adapter SessionID) : Prop where
  sessions : ∀ session config, s.config.sessionsSettings session = some config →
    ∀ cached, s.caches session = some cached →
      cached.buffer.length = sessionSize config.logonInfo
  responses : ∀ ts, (s.responses ts).notifyMgr.CachesOk api

variable {api fix platform}

omit [DecidableEq SessionID] in
theorem Conserved.refl (s : Adapter SessionID) : Conserved s s := ⟨rfl, rfl⟩

omit [DecidableEq SessionID] in
theorem Conserved.trans {s s' s'' : Adapter SessionID} (hfirst : Conserved s s')
    (hsecond : Conserved s' s'') : Conserved s s'' :=
  ⟨hsecond.fixToTs.trans hfirst.fixToTs, hsecond.tsToFix.trans hfirst.tsToFix⟩

/-! ## Requests -/

theorem Inv.sessions_update {s : Adapter SessionID} (hinv : s.Inv api) {session : SessionID}
    {config : SessionInfo} (hconfig : s.config.sessionsSettings session = some config)
    {conv : MsgToTs} (hcache : conv.CacheOk config.logonInfo) (other : SessionID)
    (config' : SessionInfo) (hother : s.config.sessionsSettings other = some config') :
    ∀ cached, Function.update s.caches session conv.cache other = some cached →
      cached.buffer.length = sessionSize config'.logonInfo := by
  by_cases hsame : other = session
  · rw [hsame, hconfig, Option.some.injEq] at hother
    rw [hsame, Function.update_self, ← hother]
    exact hcache
  · rw [Function.update_of_ne hsame]
    exact hinv.sessions other config' hother

theorem manageRequest_ok {s : Adapter SessionID} (hinv : s.Inv api) {session : SessionID}
    {request : FixRequest} {msg : FixMessage}
    (hok : s.CallOk api fix platform (.request session request msg)) :
    (s.manageRequest api fix platform session request msg).Inv api ∧
      Conserved s (s.manageRequest api fix platform session request msg) := by
  rw [manageRequest]
  cases hconfig : s.config.sessionsSettings session with
  | none => exact ⟨hinv, Conserved.refl s⟩
  | some config =>
      dsimp only
      cases hrouter : s.fixToTs config.logonInfo.tsId with
      | none => exact ⟨hinv, Conserved.refl s⟩
      | some router =>
          dsimp only
          cases hallocate : router.allocate with
          | none => exact ⟨hinv, Conserved.refl s⟩
          | some taken =>
              rcases taken with ⟨buf, rest⟩
              have hpool := PooledQueue.pool_ne_nil_of_allocate hallocate
              have hcache : MsgToTs.CacheOk config.logonInfo
                  ⟨⟨buf.data, 0, 0⟩, s.caches session⟩ :=
                hinv.sessions session config hconfig
              rcases convertRequest_ok (hok config router hconfig hrouter hpool) hcache with
                ⟨conv, hconvert, hcache'⟩
              simp only [hconvert]
              refine ⟨⟨hinv.sessions_update hconfig hcache', hinv.responses⟩,
                heldAt_update hrouter ?_, rfl⟩
              rw [PooledQueue.held_produce, PooledQueue.held_allocate Buffer.id hallocate]

omit [DecidableEq SessionID] in
theorem sendQueued_ok {s : Adapter SessionID} (hinv : s.Inv api) (ts : UInt32) :
    (s.sendQueued ts).Inv api ∧ Conserved s (s.sendQueued ts) := by
  rw [sendQueued]
  cases hrouter : s.fixToTs ts with
  | none => exact ⟨hinv, Conserved.refl s⟩
  | some router =>
      exact ⟨⟨hinv.sessions, hinv.responses⟩,
        heldAt_update hrouter PooledQueue.held_drain, rfl⟩

/-! ## Reads -/

omit [DecidableEq SessionID] in
theorem readMsg_ok {s : Adapter SessionID} (hinv : s.Inv api) {ts : UInt32}
    {outcomes : List (Option (List Byte))}
    (hok : ∀ router, s.tsToFix ts = some router → router.pool ≠ [] → none ∉ outcomes) :
    (s.readMsg api ts outcomes).Inv api ∧ Conserved s (s.readMsg api ts outcomes) := by
  rw [readMsg]
  cases hrouter : s.tsToFix ts with
  | none => exact ⟨hinv, Conserved.refl s⟩
  | some router =>
      dsimp only
      cases hallocate : router.allocate with
      | none => exact ⟨hinv, Conserved.refl s⟩
      | some taken =>
          rcases taken with ⟨buf, rest⟩
          have hconnects := hok router hrouter (PooledQueue.pool_ne_nil_of_allocate hallocate)
          dsimp only
          cases hresult : loadMsg api { s.sockets ts with later := outcomes } with
          | waiting => exact ⟨hinv, Conserved.refl s⟩
          | threw socket => exact absurd hresult (loadMsg_of_connects api hconnects socket)
          | loaded msg socket =>
              refine ⟨⟨hinv.sessions, hinv.responses⟩, rfl, heldAt_update hrouter ?_⟩
              rw [PooledQueue.held_produce, PooledQueue.held_allocate Buffer.id hallocate]

/-! ## Responses -/

theorem Inv.sessions_of_config {s : Adapter SessionID} (hinv : s.Inv api)
    {config : SessionsInfo SessionID}
    (hconfig : config = s.config ∨
      ∃ id xsessId tsId, config = (s.config.setSessId id xsessId tsId).2) :
    ∀ session info, config.sessionsSettings session = some info →
      ∀ cached, s.caches session = some cached →
        cached.buffer.length = sessionSize info.logonInfo := by
  intro session info hinfo cached hcached
  rcases hconfig with hsame | ⟨id, xsessId, tsId, hlogon⟩
  · rw [hsame] at hinfo
    exact hinv.sessions session info hinfo cached hcached
  · have hsize := map_setSessId sessionSize (fun _ _ => rfl) s.config id xsessId tsId session
    rw [← hlogon, hinfo, Option.map_some, eq_comm, Option.map_eq_some_iff] at hsize
    rcases hsize with ⟨before, hbefore, hsize⟩
    rw [← hsize]
    exact hinv.sessions session before hbefore cached hcached

theorem manageResponse_ok {s : Adapter SessionID} (hinv : s.Inv api) {ts : UInt32}
    (hok : s.CallOk api fix platform (.response ts)) :
    (s.manageResponse api fix platform ts).Inv api ∧
      Conserved s (s.manageResponse api fix platform ts) := by
  rw [manageResponse]
  cases hrouter : s.tsToFix ts with
  | none => exact ⟨hinv, Conserved.refl s⟩
  | some router =>
      dsimp only
      cases hconsume : router.consume with
      | none => exact ⟨hinv, Conserved.refl s⟩
      | some taken =>
          rcases taken with ⟨buf, rest⟩
          have hresponse := hok router buf hrouter (PooledQueue.head_of_consume hconsume)
          rcases convert_ok platform (hinv.responses ts) hresponse with
            ⟨info, conv, config, hconvert, hcaches, _, hconfig⟩
          simp only [hconvert]
          refine ⟨⟨hinv.sessions_of_config hconfig, ?_⟩, rfl, heldAt_update hrouter ?_⟩
          · intro other
            by_cases hsame : other = ts
            · rw [hsame]
              simpa using hcaches
            · simpa [Function.update_of_ne hsame] using hinv.responses other
          · rw [PooledQueue.held_delocate, PooledQueue.held_consume Buffer.id hconsume]

/-! ## Runs -/

theorem step_ok {s : Adapter SessionID} (hinv : s.Inv api) {call : AdapterCall SessionID}
    (hok : s.CallOk api fix platform call) :
    (s.step api fix platform call).Inv api ∧ Conserved s (s.step api fix platform call) := by
  cases call with
  | request session request msg => exact manageRequest_ok hinv hok
  | written ts => exact sendQueued_ok hinv ts
  | read ts outcomes => exact readMsg_ok hinv hok
  | response ts => exact manageResponse_ok hinv hok

omit [DecidableEq SessionID] in
variable (api) in
theorem start_inv (settings : SessionID → Option SessionInfo) (fixToTs tsToFix : FixTsRouters)
    (sockets : UInt32 → Inbound) : (start settings fixToTs tsToFix sockets).Inv api := by
  constructor
  · intro session config _ cached hcached
    exact absurd hcached (by simp [start])
  · intro ts
    exact (TSNotifyManager.make_inv api initFldsNum).caches

/-- In every run of calls that meet their conditions, the free and the queued
buffers of every router are those of the beginning. -/
theorem conserved_run (api : Espd) (fix : QuickFix SessionID) (platform : Platform)
    (settings : SessionID → Option SessionInfo) (fixToTs tsToFix : FixTsRouters)
    (sockets : UInt32 → Inbound) (calls : List (AdapterCall SessionID))
    (hok : ∀ earlier call later, calls = earlier ++ call :: later →
      (run (step api fix platform) (start settings fixToTs tsToFix sockets) earlier).CallOk
        api fix platform call) :
    ∀ first, first <+: calls → Conserved (start settings fixToTs tsToFix sockets)
      (run (step api fix platform) (start settings fixToTs tsToFix sockets) first) := by
  have hinv := run_invariant_of_ok (step api fix platform)
    (start settings fixToTs tsToFix sockets)
    (fun _ s => s.Inv api ∧ Conserved (start settings fixToTs tsToFix sockets) s)
    (fun earlier call => (run (step api fix platform)
      (start settings fixToTs tsToFix sockets) earlier).CallOk api fix platform call)
    ⟨start_inv api settings fixToTs tsToFix sockets, Conserved.refl _⟩
    (fun earlier call hinv hcall =>
      have hstep := step_ok hinv.1 hcall
      ⟨hstep.1, hinv.2.trans hstep.2⟩)
    hok
  exact fun first hfirst => (hinv first hfirst).2

def oneClient : Adapter CppString :=
  start SessionsInfo.LogonRun.oneSession
    (fun ts => if ts = 1 then some ⟨[⟨7, fun _ => 0⟩], []⟩ else none)
    (fun ts => if ts = 1 then some ⟨[⟨9, fun _ => 0⟩], []⟩ else none)
    fun _ => ⟨0, [0, 17, 0, 1, 0, 0, 0, 1, 0, 4, 0, 0, 0, 0, 0], 0, []⟩

def limitOrder : FixMessage :=
  FixMessage.empty.setField .msgSeqNum [0x31]
    |>.setField .symbol [0x58]
    |>.setField .clOrdID [0x31]
    |>.setField .orderQty [0x31, 0x30, 0x30]
    |>.setField .side [0x31]
    |>.setField .ordType [0x32]
    |>.setField .price [0x31, 0x30, 0x30]

def orderAndRatify : List (AdapterCall CppString) :=
  [.request [0x41] .newOrderSingle limitOrder, .written 1, .read 1 [], .response 1]

theorem requestConverts_limitOrder {config : SessionInfo}
    (hconfig : SessionsInfo.LogonRun.oneSession [0x41] = some config) :
    RequestConverts NetworkOrder.espd QuickFix.plain Platform.plain config .newOrderSingle
      limitOrder := by
  rw [SessionsInfo.LogonRun.oneSession, if_pos rfl, Option.some.injEq] at hconfig
  rw [← hconfig]
  refine ⟨⟨[0x31], 1, rfl, by decide +kernel, by decide, by decide⟩, ⟨?_, by decide⟩⟩
  exact
    { symbol := ⟨_, rfl⟩
      clOrdID := ⟨_, rfl⟩
      orderQty := ⟨_, _, rfl, rfl⟩
      side := ⟨_, _, rfl, rfl⟩
      ordType := ⟨_, 0x32, rfl, rfl, by decide⟩
      price := ⟨_, _, rfl, rfl⟩ }

theorem callOk_orderAndRatify (earlier : List (AdapterCall CppString))
    (call : AdapterCall CppString) (later : List (AdapterCall CppString))
    (hsplit : orderAndRatify = earlier ++ call :: later) :
    (run (step NetworkOrder.espd QuickFix.plain Platform.plain) oneClient earlier).CallOk
      NetworkOrder.espd QuickFix.plain Platform.plain call := by
  rcases earlier with _ | ⟨first, _ | ⟨second, _ | ⟨third, _ | ⟨fourth, rest⟩⟩⟩⟩
  · rw [List.nil_append, orderAndRatify, List.cons.injEq] at hsplit
    rw [← hsplit.1]
    intro config router hconfig _ _
    exact requestConverts_limitOrder hconfig
  · simp only [orderAndRatify, List.cons_append, List.nil_append, List.cons.injEq] at hsplit
    rw [← hsplit.2.1]
    trivial
  · simp only [orderAndRatify, List.cons_append, List.nil_append, List.cons.injEq] at hsplit
    rw [← hsplit.2.2.1]
    intro router _ _
    exact List.not_mem_nil
  · simp only [orderAndRatify, List.cons_append, List.nil_append, List.cons.injEq] at hsplit
    rw [← hsplit.2.2.2.1, ← hsplit.1, ← hsplit.2.1, ← hsplit.2.2.1]
    intro router buf hrouter hbuf
    have hqueued : ((run (step NetworkOrder.espd QuickFix.plain Platform.plain) oneClient
        [.request [0x41] .newOrderSingle limitOrder, .written 1, .read 1 []]).tsToFix 1).bind
          (fun router => router.queue.head?.map fun buf =>
            MsgHeader.getMessageType NetworkOrder.espd buf.data) =
        some (NetworkOrder.espd.msgTypeCode .ratify) := by decide +kernel
    rw [hrouter, Option.bind_some, hbuf, Option.map_some, Option.some.injEq,
      ← (parsed_spec NetworkOrder.espd buf.data).2.2.2.1] at hqueued
    constructor
    · intro htype
      exact absurd (hqueued.symm.trans htype) (by decide)
    · intro htype
      exact absurd (hqueued.symm.trans htype) (by decide)
  · simp [orderAndRatify] at hsplit

theorem conserved_run_orderAndRatify :
    Conserved oneClient (run (step NetworkOrder.espd QuickFix.plain Platform.plain) oneClient
      orderAndRatify) :=
  conserved_run NetworkOrder.espd QuickFix.plain Platform.plain _ _ _ _ orderAndRatify
    callOk_orderAndRatify orderAndRatify (List.prefix_refl _)

/-- An order without a symbol takes the only buffer with it. -/
theorem not_conserved_noSymbol :
    ¬ Conserved oneClient
      (run (step NetworkOrder.espd QuickFix.plain Platform.plain) oneClient
        [.request [0x41] .newOrderSingle
          (Function.update limitOrder .symbol none)]) := by
  intro hconserved
  have hheld := congrFun hconserved.fixToTs 1
  exact absurd hheld (by decide +kernel)

end Adapter

end CppPlay.FixAdapter
