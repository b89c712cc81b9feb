import CppPlay.DataProvider.Connection
import CppPlay.Lib.RoundRobin

/-!
# The server and its connections

The server has one thread for each io context, and hands the contexts out in turn: to its
signals, to its acceptor, and then to every connection that it makes.  A connection is made
before there is a client for it, so a failed accept uses up a turn.  What the connections
do is their own business until a signal stops all contexts at once.
-/

namespace CppPlay.DataProvider

open CppPlay.Lib

/-! ## Contexts in turn -/

/-- A pool that has contexts. -/
structure IOContextPool where
  ioContexts : ℕ
  nextIOContext : ℕ
  nextIOContext_lt : nextIOContext < ioContexts

namespace IOContextPool

def make (poolSize : ℕ) : Except String IOContextPool :=
  if h : poolSize = 0 then .error "IOContextPool size is 0"
  else .ok ⟨poolSize, 0, Nat.pos_of_ne_zero h⟩

def getIOContext (pool : IOContextPool) : ℕ × IOContextPool :=
  (pool.nextIOContext,
    if h : pool.nextIOContext + 1 = pool.ioContexts then
      ⟨pool.ioContexts, 0, h ▸ Nat.succ_pos _⟩
    else ⟨pool.ioContexts, pool.nextIOContext + 1, Nat.lt_of_le_of_ne pool.nextIOContext_lt h⟩)

theorem getIOContext_of_turn {pool : IOContextPool} {poolSize n : ℕ}
    (hsize : pool.ioContexts = poolSize) (hturn : pool.nextIOContext = n % poolSize) :
    pool.getIOContext.1 = n % poolSize ∧ pool.getIOContext.2.ioContexts = poolSize ∧
      pool.getIOContext.2.nextIOContext = (n + 1) % poolSize := by
  have hlt := pool.nextIOContext_lt
  refine ⟨hturn, ?_⟩
  rw [← Nat.mod_add_mod, ← hturn, ← hsize]
  unfold getIOContext
  split_ifs with hlast
  · exact ⟨rfl, by rw [hlast, Nat.mod_self]⟩
  · exact ⟨rfl, (Nat.mod_eq_of_lt (Nat.lt_of_le_of_ne hlt hlast)).symm⟩

end IOContextPool

/-! ## Clients -/

/-- A client with what it is going to send. -/
structure Client where
  requests : List Request
  bodies_lt : ∀ request ∈ requests, request.body.length < 2 ^ 32

/-- A connection that was started: the context of its socket, its client and its state. -/
structure Started where
  context : ℕ
  client : Client
  connection : Connection

def Started.step (order : ByteOrder) (started : Started) (event : Event) : Started :=
  { started with connection := started.connection.step order event }

/-- The handler got a beginning of what the client has asked for; all that is still to come
reaches it unless the connection has stopped behind a failed write. -/
def Started.Serves (order : ByteOrder) (started : Started) : Prop :=
  started.connection.Inv order started.client.requests ∨
    started.connection.phase = .stopped ∧
      started.connection.handed.map (Connection.seen order) <+: served started.client.requests

theorem Started.Serves.handed_begins {order : ByteOrder} {started : Started}
    (hserves : started.Serves order) :
    started.connection.handed.map (Connection.seen order) <+: served started.client.requests := by
  rcases hserves with hinv | ⟨-, hhanded⟩
  · obtain ⟨⟨rest, hserved, _, _⟩, _⟩ := hinv
    rw [hserved]
    exact List.prefix_append _ _
  · exact hhanded

theorem Started.Serves.step {order : ByteOrder} {started : Started}
    (hserves : started.Serves order) (event : Event) :
    (started.step order event).Serves order := by
  have hhanded := hserves.handed_begins
  rcases hserves with hinv | ⟨hstopped, -⟩
  · by_cases hwrite : event = .written false
    · rw [hwrite]
      cases hphase : started.connection.phase with
      | writing =>
          right
          simpa only [Started.step, Connection.step, hphase, Connection.stop] using ⟨rfl, hhanded⟩
      | readingHeader header transferred =>
          exact Or.inl (by simpa only [Started.step, Connection.step, hphase] using hinv)
      | readingBody header body transferred =>
          exact Or.inl (by simpa only [Started.step, Connection.step, hphase] using hinv)
      | handling => exact Or.inl (by simpa only [Started.step, Connection.step, hphase] using hinv)
      | stopped => exact Or.inl (by simpa only [Started.step, Connection.step, hphase] using hinv)
    · exact Or.inl (Connection.step_inv hinv hwrite)
  · right
    cases event with
    | arrive count => exact ⟨hstopped, hhanded⟩
    | closed => exact ⟨hstopped, hhanded⟩
    | readSome count =>
        simpa only [Started.step, Connection.step, Connection.readSome, hstopped]
          using ⟨trivial, hhanded⟩
    | handled => simpa only [Started.step, Connection.step, hstopped] using ⟨trivial, hhanded⟩
    | written ok => simpa only [Started.step, Connection.step, hstopped] using ⟨trivial, hhanded⟩

/-! ## The server -/

/-- `made` are the contexts that were handed out, `signals` and `acceptor` those of the server
itself; `newConnection` is that of the connection that waits for a client. -/
structure ThrdPerCntxtServer where
  ioContextPool : IOContextPool
  made : List ℕ
  signals : ℕ
  acceptor : ℕ
  newConnection : ℕ
  connections : List Started
  stopped : Bool

/-- An accept is done or has failed, something happens to a connection, or a signal comes. -/
inductive ServerEvent where
  | accepted (client : Client)
  | acceptFailed
  | connection (i : ℕ) (event : Event)
  | signal

namespace ThrdPerCntxtServer

def startAccept (s : ThrdPerCntxtServer) : ThrdPerCntxtServer :=
  { s with
    ioContextPool := s.ioContextPool.getIOContext.2
    made := s.made ++ [s.ioContextPool.getIOContext.1]
    newConnection := s.ioContextPool.getIOContext.1 }

def make (poolSize : ℕ) : Except String ThrdPerCntxtServer :=
  match IOContextPool.make poolSize with
  | .error err => .error err
  | .ok pool =>
      let (signals, pool) := pool.getIOContext
      let (acceptor, pool) := pool.getIOContext
      .ok (startAccept ⟨pool, [signals, acceptor], signals, acceptor, acceptor, [], false⟩)

variable (order : ByteOrder)

def handleAccept (s : ThrdPerCntxtServer) (client : Option Client) : ThrdPerCntxtServer :=
  match client with
  | none => s.startAccept
  | some client =>
      let started : Started :=
        ⟨s.newConnection, client, .start (clientStream order client.requests)⟩
      startAccept { s with connections := s.connections ++ [started] }

/-- Behind `stop` no context calls anything back. -/
def step (s : ThrdPerCntxtServer) (event : ServerEvent) : ThrdPerCntxtServer :=
  if s.stopped then s
  else
    match event with
    | .accepted client => s.handleAccept order (some client)
    | .acceptFailed => s.handleAccept order none
    | .connection i event =>
        { s with connections := s.connections.modify i fun started => started.step order event }
    | .signal => { s with stopped := true }

/-! ## What the server keeps -/

/-- The clients that got a connection: those of the accepts before the first signal. -/
def clientsOf : List ServerEvent → List Client
  | [] => []
  | .signal :: _ => []
  | .accepted client :: events => client :: clientsOf events
  | .acceptFailed :: events => clientsOf events
  | .connection _ _ :: events => clientsOf events

/-- The contexts were handed out in turn, first to the signals and the acceptor, last to the
connection that waits, and in between to the others, those whose accept has failed among them. -/
structure InTurn (poolSize : ℕ) (s : ThrdPerCntxtServer) : Prop where
  made : s.made = RoundRobin.turns poolSize s.made.length
  ioContexts : s.ioContextPool.ioContexts = poolSize
  nextIOContext : s.ioContextPool.nextIOContext = s.made.length % poolSize
  connections : ∃ earlier, s.made = s.signals :: s.acceptor :: earlier ++ [s.newConnection] ∧
    (s.connections.map Started.context).Sublist earlier

variable {order} {poolSize : ℕ} {s : ThrdPerCntxtServer}

/-- A turn for one more connection, behind one that was started or has failed. -/
theorem InTurn.startAccept {s' : ThrdPerCntxtServer} (hinv : s.InTurn poolSize)
    (hpool : s'.ioContextPool = s.ioContextPool) (hmade : s'.made = s.made)
    (hsignals : s'.signals = s.signals) (hacceptor : s'.acceptor = s.acceptor)
    (hconnections : s'.connections = s.connections ∨ ∃ started : Started,
      started.context = s.newConnection ∧ s'.connections = s.connections ++ [started]) :
    s'.startAccept.InTurn poolSize := by
  obtain ⟨earlier, hearlier, hsub⟩ := hinv.connections
  obtain ⟨hfirst, hsize, hnext⟩ := IOContextPool.getIOContext_of_turn
    ((congrArg IOContextPool.ioContexts hpool).trans hinv.ioContexts)
    ((congrArg IOContextPool.nextIOContext hpool).trans hinv.nextIOContext)
  have hcontext : s'.startAccept.made = s.made ++ [s.made.length % poolSize] := by
    change s'.made ++ [s'.ioContextPool.getIOContext.1] = _
    rw [hmade, hfirst]
  have hlength : s'.startAccept.made.length = s.made.length + 1 := by
    rw [hcontext, List.length_append, List.length_singleton]
  constructor
  · rw [hlength, hcontext, RoundRobin.turns_succ, ← hinv.made]
  · exact hsize
  · rw [hlength]
    exact hnext
  · refine ⟨earlier ++ [s.newConnection], ?_, ?_⟩
    · change s'.made ++ [s'.ioContextPool.getIOContext.1] =
        s'.signals :: s'.acceptor :: (earlier ++ [s.newConnection]) ++
          [s'.ioContextPool.getIOContext.1]
      rw [hmade, hearlier, hsignals, hacceptor]
      simp
    · change (s'.connections.map Started.context).Sublist _
      rcases hconnections with hsame | ⟨started, hstarted, hmore⟩
      · rw [hsame]
        exact hsub.trans (List.sublist_append_left _ _)
      · rw [hmore, List.map_append, List.map_singleton, hstarted]
        exact hsub.append (List.Sublist.refl _)

theorem map_modify_step {α : Type} {connections : List Started} (i : ℕ) (event : Event)
    (f : Started → α) (hf : ∀ started : Started, f (started.step order event) = f started) :
    (connections.modify i fun started => started.step order event).map f = connections.map f := by
  apply List.ext_getElem?
  intro k
  rw [List.getElem?_map, List.getElem?_map, List.getElem?_modify]
  cases connections[k]? with
  | none => rfl
  | some started =>
      simp only [Option.map_eq_map, Option.map_some]
      split_ifs
      · rw [hf]
      · rfl

theorem getElem?_modify_step {connections : List Started} {i k : ℕ} {event : Event}
    {started : Started}
    (hstarted : (connections.modify i fun started => started.step order event)[k]? =
      some started) :
    ∃ before, connections[k]? = some before ∧
      (k = i ∧ started = before.step order event ∨ k ≠ i ∧ started = before) := by
  rw [List.getElem?_modify] at hstarted
  cases hbefore : connections[k]? with
  | none => simp [hbefore] at hstarted
  | some before =>
      simp only [hbefore, Option.map_eq_map, Option.map_some, Option.some.injEq] at hstarted
      refine ⟨before, rfl, ?_⟩
      split_ifs at hstarted with hk
      · exact Or.inl ⟨hk.symm, hstarted.symm⟩
      · exact Or.inr ⟨fun h => hk h.symm, hstarted.symm⟩

theorem step_inTurn (hinv : s.InTurn poolSize) (event : ServerEvent) :
    (s.step order event).InTurn poolSize := by
  unfold step
  split_ifs
  · exact hinv
  · cases event with
    | accepted client => exact hinv.startAccept rfl rfl rfl rfl (Or.inr ⟨_, rfl, rfl⟩)
    | acceptFailed => exact hinv.startAccept rfl rfl rfl rfl (Or.inl rfl)
    | connection i event =>
        obtain ⟨earlier, hearlier, hsub⟩ := hinv.connections
        refine ⟨hinv.made, hinv.ioContexts, hinv.nextIOContext, earlier, hearlier, ?_⟩
        exact (map_modify_step i event Started.context fun _ => rfl).symm ▸ hsub
    | signal => exact ⟨hinv.made, hinv.ioContexts, hinv.nextIOContext, hinv.connections⟩

theorem make_inTurn {server : ThrdPerCntxtServer} (hmake : make poolSize = .ok server) :
    server.InTurn poolSize := by
  unfold make IOContextPool.make at hmake
  split_ifs at hmake with hzero
  let pool : IOContextPool := ⟨poolSize, 0, Nat.pos_of_ne_zero hzero⟩
  let signals := pool.getIOContext
  let acceptor := signals.2.getIOContext
  let newConnection := acceptor.2.getIOContext
  have hserver : server = ⟨newConnection.2, [signals.1, acceptor.1, newConnection.1], signals.1,
      acceptor.1, newConnection.1, [], false⟩ := (Except.ok.inj hmake).symm
  obtain ⟨hzeroth, hsize, hturn⟩ :=
    @IOContextPool.getIOContext_of_turn pool poolSize 0 rfl (Nat.zero_mod _).symm
  obtain ⟨hfirst, hsize', hturn'⟩ := IOContextPool.getIOContext_of_turn hsize hturn
  obtain ⟨hsecond, hsize'', hturn''⟩ := IOContextPool.getIOContext_of_turn hsize' hturn'
  rw [hserver]
  constructor
  · change [signals.1, acceptor.1, newConnection.1] = _
    rw [hzeroth, hfirst, hsecond]
    simp [RoundRobin.turns, List.range_succ]
  · exact hsize''
  · exact hturn''
  · exact ⟨[], rfl, List.Sublist.refl _⟩

/-! ## What the clients get -/

/-- The connections have the clients that were accepted, in their order, and serve them. -/
structure ServesClients (order : ByteOrder) (events : List ServerEvent)
    (s : ThrdPerCntxtServer) : Prop where
  clients : s.connections.map Started.client = clientsOf events
  stopped : s.stopped = true ↔ .signal ∈ events
  serves : ∀ started ∈ s.connections, started.Serves order
  complete : ∀ k started, s.connections[k]? = some started →
    .connection k (.written false) ∉ events →
      started.connection.Inv order started.client.requests

theorem clientsOf_append_of_signal {events : List ServerEvent} (hsignal : .signal ∈ events)
    (later : List ServerEvent) : clientsOf (events ++ later) = clientsOf events := by
  induction events with
  | nil => exact absurd hsignal List.not_mem_nil
  | cons event events ih =>
      cases event with
      | signal => rfl
      | accepted client =>
          have htail : ServerEvent.signal ∈ events := by simpa using hsignal
          exact congrArg (client :: ·) (ih htail)
      | acceptFailed => exact ih (by simpa using hsignal)
      | connection i event => exact ih (by simpa using hsignal)

theorem clientsOf_append_of_no_signal {events : List ServerEvent} (hsignal : .signal ∉ events)
    (later : List ServerEvent) :
    clientsOf (events ++ later) = clientsOf events ++ clientsOf later := by
  induction events with
  | nil => rfl
  | cons event events ih =>
      have htail : ServerEvent.signal ∉ events := fun h => hsignal (List.mem_cons_of_mem _ h)
      cases event with
      | signal => exact absurd List.mem_cons_self hsignal
      | accepted client => exact congrArg (client :: ·) (ih htail)
      | acceptFailed => exact ih htail
      | connection i event => exact ih htail

theorem step_servesClients {events : List ServerEvent} (hinv : s.ServesClients order events)
    (event : ServerEvent) : (s.step order event).ServesClients order (events ++ [event]) := by
  by_cases hstopped : s.stopped = true
  · have hsignal := hinv.stopped.mp hstopped
    have hsame : s.step order event = s := if_pos hstopped
    rw [hsame]
    refine ⟨hinv.clients.trans (clientsOf_append_of_signal hsignal _).symm, ?_, hinv.serves, ?_⟩
    · simp [hstopped, hsignal]
    · intro k started hstarted hwrite
      exact hinv.complete k started hstarted fun h => hwrite (List.mem_append_left _ h)
  have hsignal : ServerEvent.signal ∉ events := fun h => hstopped (hinv.stopped.mpr h)
  have hclients := clientsOf_append_of_no_signal hsignal [event]
  unfold step
  rw [if_neg hstopped]
  cases event with
  | accepted client =>
      let started : Started :=
        ⟨s.newConnection, client, .start (clientStream order client.requests)⟩
      have hstart : started.connection.Inv order client.requests :=
        Connection.start_inv client.bodies_lt
      constructor
      · change (s.connections ++ [started]).map Started.client = _
        rw [List.map_append, hinv.clients, hclients]
        rfl
      · change s.stopped = true ↔ _
        simp [hstopped, hsignal]
      · intro other hother
        rcases List.mem_append.mp hother with hold | hnew
        · exact hinv.serves other hold
        · rw [List.mem_singleton.mp hnew]
          exact Or.inl hstart
      · intro k other hother hwrite
        change (s.connections ++ [started])[k]? = some other at hother
        rw [List.getElem?_append] at hother
        split_ifs at hother
        · exact hinv.complete k other hother fun h => hwrite (List.mem_append_left _ h)
        · rw [List.mem_singleton.mp (List.mem_of_getElem? hother)]
          exact hstart
  | acceptFailed =>
      refine ⟨hinv.clients.trans (by rw [hclients]; exact (List.append_nil _).symm), ?_,
        hinv.serves, ?_⟩
      · change s.stopped = true ↔ _
        simp [hstopped, hsignal]
      · intro k started hstarted hwrite
        exact hinv.complete k started hstarted fun h => hwrite (List.mem_append_left _ h)
  | connection i event =>
      refine ⟨(map_modify_step i event Started.client fun _ => rfl).trans
        (hinv.clients.trans (by rw [hclients]; exact (List.append_nil _).symm)), ?_, ?_, ?_⟩
      · change s.stopped = true ↔ _
        simp [hstopped, hsignal]
      · intro started hstarted
        obtain ⟨k, hk⟩ := List.mem_iff_getElem?.mp hstarted
        obtain ⟨before, hbefore, hcase⟩ := getElem?_modify_step hk
        have hserves := hinv.serves before (List.mem_of_getElem? hbefore)
        rcases hcase with ⟨-, rfl⟩ | ⟨-, rfl⟩
        · exact hserves.step event
        · exact hserves
      · intro k started hstarted hwrite
        obtain ⟨before, hbefore, hcase⟩ := getElem?_modify_step hstarted
        have hcomplete := hinv.complete k before hbefore fun h =>
          hwrite (List.mem_append_left _ h)
        rcases hcase with ⟨rfl, rfl⟩ | ⟨-, rfl⟩
        · apply Connection.step_inv hcomplete
          rintro rfl
          exact hwrite (List.mem_append_right _ List.mem_cons_self)
        · exact hcomplete
  | signal =>
      refine ⟨hinv.clients.trans (by rw [hclients]; exact (List.append_nil _).symm), ?_,
        hinv.serves, ?_⟩
      · simp
      · intro k started hstarted hwrite
        exact hinv.complete k started hstarted fun h => hwrite (List.mem_append_left _ h)

theorem make_servesClients {server : ThrdPerCntxtServer} (hmake : make poolSize = .ok server) :
    server.ServesClients order [] := by
  have hnew : server.connections = [] ∧ server.stopped = false := by
    unfold make IOContextPool.make at hmake
    split_ifs at hmake
    rw [← Except.ok.inj hmake]
    exact ⟨rfl, rfl⟩
  refine ⟨by rw [hnew.1]; rfl, by simp [hnew.2], ?_, ?_⟩
  · intro started hstarted
    rw [hnew.1] at hstarted
    exact absurd hstarted List.not_mem_nil
  · intro k started hstarted
    simp [hnew.1] at hstarted

/-- Whatever the clients do and however accepts, reads and writes end, each connection gives the
handler a beginning of the requests that its own client has made before one without a body, and
all of these once it rests and no write has failed on it; the contexts have equally many
connections, give or take one. -/
theorem clients_are_served_apart (order : ByteOrder) (poolSize : ℕ) (events : List ServerEvent) :
    match make poolSize with
    | .error _ => poolSize = 0
    | .ok server =>
        let s := run (step order) server events
        s.InTurn poolSize ∧
        (∀ i j, i < poolSize → j < poolSize → s.made.count i ≤ s.made.count j + 1) ∧
        s.connections.map Started.client = clientsOf events ∧
        ∀ k started, s.connections[k]? = some started →
          started.connection.handed.map (Connection.seen order) <+:
              served started.client.requests ∧
            (started.connection.AtRest → .connection k (.written false) ∉ events →
              started.connection.handed.map (Connection.seen order) =
                served started.client.requests) := by
  cases hmake : make poolSize with
  | error err =>
      unfold make IOContextPool.make at hmake
      split_ifs at hmake with hzero
      exact hzero
  | ok server =>
      have hturn : (run (step order) server events).InTurn poolSize :=
        run_invariant _ (make_inTurn hmake) (fun _ event hinv => step_inTurn hinv event) events
      have hserves : (run (step order) server events).ServesClients order events :=
        run_invariant_of_ok (step order) server (fun events s => s.ServesClients order events)
          (fun _ _ => True) (make_servesClients hmake)
          (fun _ event hinv _ => step_servesClients hinv event) (fun _ _ _ _ => trivial) events
          (List.prefix_refl events)
      refine ⟨hturn, ?_, hserves.clients, ?_⟩
      · intro i j hi hj
        rw [hturn.made]
        exact RoundRobin.count_turns_le hi hj _
      · intro k started hstarted
        refine ⟨(hserves.serves started (List.mem_of_getElem? hstarted)).handed_begins, ?_⟩
        intro hrest hwrite
        exact (hserves.complete k started hstarted hwrite).handed_of_atRest hrest

end ThrdPerCntxtServer

end CppPlay.DataProvider
