import CppPlay.DataProvider.BufferConcat
import CppPlay.DataProvider.Connection

/-!
# The echo server

The handler of the test server answers a request with its header and body.  What comes back to
the client is a beginning of what it has sent, whatever that was.
-/

namespace CppPlay.DataProvider

open CppPlay.Lib

/-- The bytes of a request's buffers as they are on the socket. -/
def wire (buffers : MaxAlignedBuffer × MaxAlignedBuffer) : List Byte :=
  buffers.1.contents ++ buffers.2.contents

def EchoRequestHandler.handleRequest (requestHeaderBufferPtr requestBodyBuffer : BufferPtr) :
    Option BufferPtr :=
  requestHeaderBufferPtr.plus requestBodyBuffer

/-! ## Bytes in and out of a connection -/

namespace Connection

variable (order : ByteOrder) {stream : List Byte} {s : Connection}

/-- What the running read has put in its buffers so far. -/
def readSoFar : Phase → List Byte
  | .readingHeader header transferred => header.storage.read 0 transferred
  | .readingBody header body transferred => header.contents ++ body.storage.read 0 transferred
  | .handling | .writing | .stopped => []

/-- The buffers were given a size. -/
def Prepared (buffers : MaxAlignedBuffer × MaxAlignedBuffer) : Prop :=
  buffers.1.size = MsgHeader.sizeof ∧ buffers.1.capacity ≠ 0 ∧ buffers.2.capacity ≠ 0

def PreparedPhase : Phase → Prop
  | .readingHeader header _ => header.size = MsgHeader.sizeof ∧ header.capacity ≠ 0
  | .readingBody header body _ => Prepared (header, body)
  | .handling | .writing | .stopped => True

/-- No byte is lost or comes from elsewhere. -/
structure Wired (stream : List Byte) (s : Connection) : Prop where
  begins : s.handed.flatMap wire <+: stream
  bytes : s.phase ≠ .stopped →
    s.handed.flatMap wire ++ (readSoFar s.phase ++ (s.unread ++ s.inFlight)) = stream
  handed : ∀ buffers ∈ s.handed, Prepared buffers
  phase : PreparedPhase s.phase

theorem start_wired (stream : List Byte) : (start stream).Wired stream where
  begins := List.nil_prefix
  bytes := fun _ => by simp [start, readHeader, readSoFar]
  handed := nofun
  phase := ⟨rfl, MaxAlignedBuffer.allocated_ne_zero _⟩

theorem Wired.stop (hwired : s.Wired stream) : s.stop.Wired stream :=
  ⟨hwired.begins, fun hrunning => absurd rfl hrunning, hwired.handed, trivial⟩

/-- A phase that leaves the handed buffers alone. -/
theorem wired_of_bytes (hhanded : ∀ buffers ∈ s.handed, Prepared buffers)
    (hprepared : PreparedPhase s.phase)
    (hbytes : s.handed.flatMap wire ++ (readSoFar s.phase ++ (s.unread ++ s.inFlight)) = stream) :
    s.Wired stream :=
  ⟨⟨_, hbytes⟩, fun _ => hbytes, hhanded, hprepared⟩

theorem Wired.readBody {header : MaxAlignedBuffer}
    (hhanded : ∀ buffers ∈ s.handed, Prepared buffers)
    (hheader : header.size = MsgHeader.sizeof ∧ header.capacity ≠ 0)
    (hbytes : s.handed.flatMap wire ++ (header.contents ++ (s.unread ++ s.inFlight)) = stream) :
    (s.readBody order header).Wired stream := by
  unfold Connection.readBody
  dsimp only
  split_ifs with hempty
  · exact ⟨⟨_, hbytes⟩, fun hrunning => absurd rfl hrunning, hhanded, trivial⟩
  · refine wired_of_bytes hhanded ⟨hheader.1, hheader.2, MaxAlignedBuffer.allocated_ne_zero _⟩ ?_
    simpa [readSoFar] using hbytes

theorem Wired.readSome (hwired : s.Wired stream) (count : ℕ) :
    (s.readSome order count).Wired stream := by
  cases hphase : s.phase with
  | readingHeader header transferred =>
      have hbytes := hwired.bytes (by simp [hphase])
      have hprepared := hwired.phase
      rw [hphase] at hbytes hprepared
      have hnext := s.read_append_toCome header transferred count
      simp only [Connection.readSome, hphase]
      by_cases hend : s.atEnd = true
      · rw [if_pos hend]
        exact hwired.stop
      · rw [if_neg hend]
        generalize s.taken count (header.size - transferred) = bytes at hnext
        by_cases hfull : transferred + bytes.length = (header.memcpy transferred bytes).size
        · rw [if_pos hfull, handleReadHeader, if_neg (not_not.mpr hfull)]
          refine Wired.readBody order hwired.handed hprepared ?_
          rw [hfull] at hnext
          rw [← hbytes, readSoFar, ← hnext]
          rfl
        · rw [if_neg hfull]
          refine wired_of_bytes hwired.handed hprepared ?_
          rw [← hbytes, readSoFar, readSoFar, ← hnext]
  | readingBody header body transferred =>
      have hbytes := hwired.bytes (by simp [hphase])
      have hprepared := hwired.phase
      rw [hphase] at hbytes hprepared
      have hnext := s.read_append_toCome body transferred count
      simp only [Connection.readSome, hphase]
      by_cases hend : s.atEnd = true
      · rw [if_pos hend]
        exact hwired.stop
      · rw [if_neg hend]
        generalize s.taken count (body.size - transferred) = bytes at hnext
        by_cases hfull : transferred + bytes.length = (body.memcpy transferred bytes).size
        · rw [if_pos hfull, handleReadBody, if_neg (not_not.mpr hfull)]
          rw [hfull] at hnext
          refine wired_of_bytes ?_ trivial ?_
          · intro buffers hbuffers
            rcases List.mem_append.mp hbuffers with hbefore | hthis
            · exact hwired.handed buffers hbefore
            · rw [List.mem_singleton.mp hthis]
              exact hprepared
          · rw [← hbytes, readSoFar, readSoFar, List.append_assoc, ← hnext]
            simp [wire, MaxAlignedBuffer.contents]
        · rw [if_neg hfull]
          refine wired_of_bytes hwired.handed hprepared ?_
          rw [← hbytes, readSoFar, readSoFar, List.append_assoc, List.append_assoc, ← hnext]
  | handling => simpa only [Connection.readSome, hphase] using hwired
  | writing => simpa only [Connection.readSome, hphase] using hwired
  | stopped => simpa only [Connection.readSome, hphase] using hwired

theorem Wired.step (hwired : s.Wired stream) (event : Event) :
    (s.step order event).Wired stream := by
  cases event with
  | arrive count =>
      refine ⟨hwired.begins, fun hrunning => ?_, hwired.handed, hwired.phase⟩
      simpa only [Connection.step, List.append_assoc, List.take_append_drop] using
        hwired.bytes hrunning
  | closed => exact ⟨hwired.begins, hwired.bytes, hwired.handed, hwired.phase⟩
  | readSome count => exact hwired.readSome order count
  | handled =>
      cases hphase : s.phase with
      | handling =>
          simp only [Connection.step, hphase]
          refine wired_of_bytes hwired.handed trivial ?_
          simpa only [hphase, readSoFar] using hwired.bytes (by simp [hphase])
      | _ => simpa only [Connection.step, hphase] using hwired
  | written ok =>
      cases hphase : s.phase with
      | writing =>
          cases ok with
          | true =>
              simp only [Connection.step, hphase, if_true]
              refine wired_of_bytes hwired.handed ⟨rfl, MaxAlignedBuffer.allocated_ne_zero _⟩ ?_
              simpa only [hphase, readSoFar, readHeader, Memory.read_zero] using
                hwired.bytes (by simp [hphase])
          | false =>
              simp only [Connection.step, hphase, Bool.false_eq_true, if_false]
              exact hwired.stop
      | _ => simpa only [Connection.step, hphase] using hwired

def IsReading : Phase → Prop
  | .readingHeader _ _ => True
  | .readingBody _ _ _ => True
  | .handling | .writing | .stopped => False

theorem handed_readBody (s : Connection) (header : MaxAlignedBuffer) :
    (s.readBody order header).handed = s.handed ∧
      (s.readBody order header).phase ≠ .handling ∧
      (s.readBody order header).phase ≠ .writing := by
  unfold Connection.readBody
  dsimp only
  split_ifs
  · exact ⟨rfl, by simp [stop], by simp [stop]⟩
  · exact ⟨rfl, by simp, by simp⟩

/-- A read hands over nothing, or one pair of buffers that then is with the handler. -/
theorem handed_readSome (s : Connection) (count : ℕ) :
    s.readSome order count = s ∨ IsReading s.phase ∧
      ((s.readSome order count).handed = s.handed ∧
          (s.readSome order count).phase ≠ .handling ∧ (s.readSome order count).phase ≠ .writing ∨
        ∃ buffers, (s.readSome order count).handed = s.handed ++ [buffers] ∧
          (s.readSome order count).phase = .handling) := by
  cases hphase : s.phase with
  | readingHeader header transferred =>
      refine Or.inr ⟨trivial, Or.inl ?_⟩
      simp only [Connection.readSome, hphase]
      by_cases hend : s.atEnd = true
      · rw [if_pos hend]
        exact ⟨rfl, by simp [stop], by simp [stop]⟩
      · rw [if_neg hend]
        generalize s.taken count (header.size - transferred) = bytes
        by_cases hfull : transferred + bytes.length = (header.memcpy transferred bytes).size
        · rw [if_pos hfull, handleReadHeader, if_neg (not_not.mpr hfull)]
          exact handed_readBody order _ _
        · rw [if_neg hfull]
          exact ⟨rfl, by simp, by simp⟩
  | readingBody header body transferred =>
      refine Or.inr ⟨trivial, ?_⟩
      simp only [Connection.readSome, hphase]
      by_cases hend : s.atEnd = true
      · rw [if_pos hend]
        exact Or.inl ⟨rfl, by simp [stop], by simp [stop]⟩
      · rw [if_neg hend]
        generalize s.taken count (body.size - transferred) = bytes
        by_cases hfull : transferred + bytes.length = (body.memcpy transferred bytes).size
        · rw [if_pos hfull, handleReadBody, if_neg (not_not.mpr hfull)]
          exact Or.inr ⟨_, rfl, rfl⟩
        · rw [if_neg hfull]
          exact Or.inl ⟨rfl, by simp, by simp⟩
  | handling => exact Or.inl (by simp only [Connection.readSome, hphase])
  | writing => exact Or.inl (by simp only [Connection.readSome, hphase])
  | stopped => exact Or.inl (by simp only [Connection.readSome, hphase])

end Connection

/-! ## The echo -/

/-- A connection with what its writing has still to send and what the client has got; `failed`
and `threw` tell that a write has failed and that the handler has thrown. -/
structure EchoConnection where
  connection : Connection
  unsent : List Byte
  received : List Byte
  failed : Bool
  threw : Bool

inductive EchoEvent where
  | connection (event : Event)
  -- a part of the running `async_write`
  | send (count : ℕ)

namespace EchoConnection

variable (order : ByteOrder)

def start (stream : List Byte) : EchoConnection := ⟨.start stream, [], [], false, false⟩

def handleRequest (s : EchoConnection) : EchoConnection :=
  match s.connection.phase, s.connection.handed.getLast? with
  | .handling, some (header, body) =>
      match EchoRequestHandler.handleRequest ⟨header⟩ ⟨body⟩ with
      | some response =>
          { s with
            connection := s.connection.step order .handled
            unsent := response.pointee.contents }
      | none => { s with threw := true }
  | _, _ => s

/-- `async_write` is done once everything is sent, or fails. -/
def handleWrite (s : EchoConnection) (ok : Bool) : EchoConnection :=
  match s.connection.phase with
  | .writing =>
      if ok then
        if s.unsent = [] then { s with connection := s.connection.step order (.written true) }
        else s
      else
        { s with
          connection := s.connection.step order (.written false)
          unsent := []
          failed := true }
  | _ => s

def step (s : EchoConnection) : EchoEvent → EchoConnection
  | .connection .handled => s.handleRequest order
  | .connection (.written ok) => s.handleWrite order ok
  | .connection event => { s with connection := s.connection.step order event }
  | .send count =>
      { s with received := s.received ++ s.unsent.take count, unsent := s.unsent.drop count }

/-- What was handed to the handler and is not answered. -/
def pending (s : EchoConnection) : List Byte :=
  match s.connection.phase with
  | .handling => (s.connection.handed.getLast?.map wire).getD []
  | _ => []

/-- What the client has got is what was handed over, but for what is on its way to it. -/
structure Inv (stream : List Byte) (s : EchoConnection) : Prop where
  wired : s.connection.Wired stream
  handling : s.connection.phase = .handling → s.connection.handed ≠ []
  idle : s.connection.phase ≠ .writing → s.unsent = []
  threw : s.threw = false
  received : s.failed = false →
    s.received ++ s.unsent ++ s.pending = s.connection.handed.flatMap wire
  stopped : s.failed = true →
    s.connection.phase = .stopped ∧ s.received <+: s.connection.handed.flatMap wire

variable {stream : List Byte} {s : EchoConnection}

theorem start_inv (stream : List Byte) : (start stream).Inv stream where
  wired := Connection.start_wired stream
  handling := nofun
  idle := fun _ => rfl
  threw := rfl
  received := fun _ => rfl
  stopped := nofun

theorem pending_of_handling (hphase : s.connection.phase = .handling) :
    s.pending = (s.connection.handed.getLast?.map wire).getD [] := by
  simp only [pending, hphase]

theorem pending_of_ne (hphase : s.connection.phase ≠ .handling) : s.pending = [] := by
  unfold pending
  split
  next hhandling => exact absurd hhandling hphase
  next => rfl

/-- The bytes arrive, or the peer's end does. -/
theorem Inv.arrive (hinv : s.Inv stream) {connection : Connection}
    (hwired : connection.Wired stream) (hhanded : connection.handed = s.connection.handed)
    (hphase : connection.phase = s.connection.phase) :
    Inv stream { s with connection := connection } where
  wired := hwired
  handling := by rw [hphase, hhanded]; exact hinv.handling
  idle := by rw [hphase]; exact hinv.idle
  threw := hinv.threw
  received := by
    have hpending : pending { s with connection := connection } = s.pending := by
      simp only [pending, hphase, hhanded]
    rw [hpending, hhanded]
    exact hinv.received
  stopped := by rw [hphase, hhanded]; exact hinv.stopped

/-- Between two requests the client has got all that was handed over. -/
theorem Inv.received_of_reading (hinv : s.Inv stream)
    (hreading : Connection.IsReading s.connection.phase) :
    s.failed = false ∧ s.unsent = [] ∧ s.received = s.connection.handed.flatMap wire := by
  have hfailed : s.failed = false := by
    by_contra hfailed
    rw [(hinv.stopped (by simpa using hfailed)).1] at hreading
    exact hreading
  have hunsent : s.unsent = [] := by
    refine hinv.idle fun hphase => ?_
    rw [hphase] at hreading
    exact hreading
  have hpending : s.pending = [] := by
    refine pending_of_ne fun hphase => ?_
    rw [hphase] at hreading
    exact hreading
  have hreceived := hinv.received hfailed
  rw [hunsent, hpending, List.append_nil, List.append_nil] at hreceived
  exact ⟨hfailed, hunsent, hreceived⟩

theorem Inv.readSome (hinv : s.Inv stream) (count : ℕ) :
    Inv stream { s with connection := s.connection.readSome order count } := by
  have hwired := hinv.wired.readSome order count
  rcases Connection.handed_readSome order s.connection count with hsame | ⟨hreading, hread⟩
  · rw [hsame]
    exact hinv
  · obtain ⟨hfailed, hunsent, hreceived⟩ := hinv.received_of_reading hreading
    rcases hread with ⟨hhanded, hhandling, -⟩ | ⟨buffers, hhanded, hhandling⟩
    · refine ⟨hwired, fun h => absurd h hhandling, fun _ => hunsent, hinv.threw, fun _ => ?_,
        fun h => absurd (hfailed.symm.trans h) Bool.false_ne_true⟩
      rw [pending_of_ne hhandling, hhanded, hunsent, List.append_nil, List.append_nil]
      exact hreceived
    · refine ⟨hwired, fun _ => ?_, fun _ => hunsent, hinv.threw, fun _ => ?_,
        fun h => absurd (hfailed.symm.trans h) Bool.false_ne_true⟩
      · rw [hhanded]
        simp
      · rw [pending_of_handling hhandling, hhanded, hunsent, hreceived]
        simp

theorem handleRequest_of_prepared {header body : MaxAlignedBuffer}
    (hprepared : Connection.Prepared (header, body)) :
    EchoRequestHandler.handleRequest ⟨header⟩ ⟨body⟩ = some ⟨header + body⟩ := by
  rw [EchoRequestHandler.handleRequest, BufferPtr.plus, MaxAlignedBuffer.concat_eq,
    if_neg (not_or.mpr ⟨hprepared.2.1, hprepared.2.2⟩), Option.map_some]

theorem Inv.failed_of_ne (hinv : s.Inv stream) (hphase : s.connection.phase ≠ .stopped) :
    s.failed = false := by
  by_contra hfailed
  exact hphase (hinv.stopped (by simpa using hfailed)).1

/-- The handler's buffers were given a size, so it does not throw. -/
theorem Inv.handleRequest_of_handling (hinv : s.Inv stream)
    (hphase : s.connection.phase = .handling) :
    ∃ buffers, s.connection.handed.getLast? = some buffers ∧ s.handleRequest order =
      { s with connection := s.connection.step order .handled, unsent := wire buffers } := by
  obtain ⟨earlier, ⟨header, body⟩, hhanded⟩ :=
    List.eq_nil_or_concat' _ |>.resolve_left (hinv.handling hphase)
  have hlast : s.connection.handed.getLast? = some (header, body) := by
    rw [hhanded, List.getLast?_concat]
  have hprepared := hinv.wired.handed (header, body) (by simp [hhanded])
  refine ⟨_, hlast, ?_⟩
  simp only [EchoConnection.handleRequest, hphase, hlast, handleRequest_of_prepared hprepared,
    MaxAlignedBuffer.contents_add, wire]

theorem handleRequest_of_ne (hphase : s.connection.phase ≠ .handling) :
    s.handleRequest order = s := by
  unfold handleRequest
  split
  next hhandling _ => exact absurd hhandling hphase
  next => rfl

theorem handleWrite_of_ne (hphase : s.connection.phase ≠ .writing) (ok : Bool) :
    s.handleWrite order ok = s := by
  unfold handleWrite
  split
  next hwriting => exact absurd hwriting hphase
  next => rfl

theorem Inv.handleRequest (hinv : s.Inv stream) : (s.handleRequest order).Inv stream := by
  by_cases hphase : s.connection.phase = .handling
  · have hwired := hinv.wired.step order .handled
    have hfailed := hinv.failed_of_ne (by simp [hphase])
    have hunsent := hinv.idle (by simp [hphase])
    have hreceived := hinv.received hfailed
    obtain ⟨buffers, hlast, hstep⟩ := hinv.handleRequest_of_handling order hphase
    rw [pending_of_handling hphase, hlast, hunsent, List.append_nil] at hreceived
    have hconnection : s.connection.step order .handled =
        { s.connection with phase := .writing } := by
      simp only [Connection.step, hphase]
    rw [hstep, hconnection]
    rw [hconnection] at hwired
    refine ⟨hwired, fun h => Phase.noConfusion h, fun hwriting => absurd rfl hwriting, hinv.threw,
      fun _ => ?_, fun h => absurd (hfailed.symm.trans h) Bool.false_ne_true⟩
    dsimp only [pending]
    rw [List.append_nil]
    exact hreceived
  · rw [handleRequest_of_ne order hphase]
    exact hinv

theorem Inv.handleWrite (hinv : s.Inv stream) (ok : Bool) :
    (s.handleWrite order ok).Inv stream := by
  by_cases hphase : s.connection.phase = .writing
  · have hwired := hinv.wired.step order (.written ok)
    have hfailed := hinv.failed_of_ne (by simp [hphase])
    have hreceived := hinv.received hfailed
    rw [pending_of_ne (by simp [hphase]), List.append_nil] at hreceived
    simp only [EchoConnection.handleWrite, hphase]
    cases ok with
    | true =>
        simp only [if_true]
        split_ifs with hunsent
        · have hstep : s.connection.step order (.written true) = s.connection.readHeader := by
            simp only [Connection.step, hphase, if_true]
          rw [hstep] at hwired ⊢
          refine ⟨hwired, fun h => Phase.noConfusion h, fun _ => hunsent, hinv.threw, fun _ => ?_,
            fun h => absurd (hfailed.symm.trans h) Bool.false_ne_true⟩
          dsimp only [pending, Connection.readHeader]
          rw [List.append_nil]
          exact hreceived
        · exact hinv
    | false =>
        have hstep : s.connection.step order (.written false) = s.connection.stop := by
          simp only [Connection.step, hphase, Bool.false_eq_true, if_false]
        rw [hstep] at hwired
        simp only [Bool.false_eq_true, if_false, hstep]
        refine ⟨hwired, fun h => Phase.noConfusion h, fun _ => rfl, hinv.threw,
          fun h => absurd h.symm Bool.false_ne_true, fun _ => ⟨rfl, ?_⟩⟩
        exact ⟨s.unsent, hreceived⟩
  · rw [handleWrite_of_ne order hphase]
    exact hinv

theorem Inv.send (hinv : s.Inv stream) (count : ℕ) :
    Inv stream { s with
      received := s.received ++ s.unsent.take count, unsent := s.unsent.drop count } := by
  refine ⟨hinv.wired, hinv.handling, fun hphase => ?_, hinv.threw, fun hfailed => ?_,
    fun hfailed => ?_⟩
  · rw [hinv.idle hphase, List.drop_nil]
  · have hreceived := hinv.received hfailed
    dsimp only [pending] at hreceived ⊢
    rw [List.append_assoc s.received, List.take_append_drop]
    exact hreceived
  · have hstopped := hinv.stopped hfailed
    have hunsent := hinv.idle (by rw [hstopped.1]; nofun)
    dsimp only
    rw [hunsent, List.take_nil, List.append_nil]
    exact hstopped

theorem step_inv (hinv : s.Inv stream) (event : EchoEvent) : (s.step order event).Inv stream := by
  cases event with
  | send count => exact hinv.send count
  | connection event =>
      cases event with
      | arrive count => exact hinv.arrive (hinv.wired.step order _) rfl rfl
      | closed => exact hinv.arrive (hinv.wired.step order _) rfl rfl
      | readSome count => exact hinv.readSome order count
      | handled => exact hinv.handleRequest order
      | written ok => exact hinv.handleWrite order ok

/-! ## What the client gets -/

/-- With nothing left to send the connection takes each step that it is given. -/
theorem Inv.connection_step (hinv : s.Inv stream) (hunsent : s.unsent = []) (event : Event) :
    (s.step order (.connection event)).connection = s.connection.step order event := by
  cases event with
  | arrive count => rfl
  | closed => rfl
  | readSome count => rfl
  | handled =>
      by_cases hphase : s.connection.phase = .handling
      · obtain ⟨buffers, -, hstep⟩ := hinv.handleRequest_of_handling order hphase
        exact congrArg connection hstep
      · have hsame : s.connection.step order .handled = s.connection := by
          simp only [Connection.step]
        rw [hsame]
        exact congrArg connection (handleRequest_of_ne order hphase)
  | written ok =>
      by_cases hphase : s.connection.phase = .writing
      · simp only [step, EchoConnection.handleWrite, hphase, hunsent, if_true]
        cases ok with
        | true => rfl
        | false => rfl
      · have hsame : s.connection.step order (.written ok) = s.connection := by
          simp only [Connection.step]
        rw [hsame]
        exact congrArg connection (handleWrite_of_ne order hphase ok)

/-- Other steps than a failed write keep what the connection keeps. -/
theorem Inv.connection_inv (hinv : s.Inv stream) {requests : List Request}
    (hconnection : s.connection.Inv order requests) {event : EchoEvent}
    (hwrite : event ≠ .connection (.written false)) :
    (s.step order event).connection.Inv order requests := by
  cases event with
  | send count => exact hconnection
  | connection event =>
      by_cases hunsent : s.unsent = []
      · rw [hinv.connection_step order hunsent]
        exact Connection.step_inv hconnection fun h => hwrite (h ▸ rfl)
      · have hphase : s.connection.phase = .writing := by
          by_contra hphase
          exact hunsent (hinv.idle hphase)
        cases event with
        | arrive count =>
            change (s.connection.step order (.arrive count)).Inv order requests
            exact Connection.step_inv hconnection nofun
        | closed =>
            change (s.connection.step order .closed).Inv order requests
            exact Connection.step_inv hconnection nofun
        | readSome count =>
            change (s.connection.step order (.readSome count)).Inv order requests
            exact Connection.step_inv hconnection nofun
        | handled =>
            have hne : s.connection.phase ≠ .handling := by
              rw [hphase]
              nofun
            simp only [step, handleRequest_of_ne order hne]
            exact hconnection
        | written ok =>
            cases ok with
            | true =>
                simp only [step, EchoConnection.handleWrite, hphase, hunsent, if_true, if_false]
                exact hconnection
            | false => exact absurd rfl hwrite

theorem Inv.received_begins (hinv : s.Inv stream) :
    s.received <+: s.connection.handed.flatMap wire := by
  cases hfailed : s.failed with
  | false => exact ⟨s.unsent ++ s.pending, by rw [← List.append_assoc, hinv.received hfailed]⟩
  | true => exact (hinv.stopped hfailed).2

theorem failed_step {event : EchoEvent} (hwrite : event ≠ .connection (.written false)) :
    (s.step order event).failed = s.failed := by
  cases event with
  | send count => rfl
  | connection event =>
      cases event with
      | arrive count => rfl
      | closed => rfl
      | readSome count => rfl
      | handled =>
          simp only [step, EchoConnection.handleRequest]
          split
          · split
            · rfl
            · rfl
          · rfl
      | written ok =>
          cases ok with
          | true =>
              simp only [step, EchoConnection.handleWrite, if_true]
              split
              · split_ifs
                · rfl
                · rfl
              · rfl
          | false => exact absurd rfl hwrite

/-! ## What the client gets -/

/-- What holds while no write has failed. -/
structure Serves (order : ByteOrder) (requests : List Request) (s : EchoConnection) : Prop where
  inv : s.Inv (clientStream order requests)
  connection : s.connection.Inv order requests
  failed : s.failed = false

variable {order} {requests : List Request}

theorem Serves.step (hserves : s.Serves order requests) {event : EchoEvent}
    (hwrite : event ≠ .connection (.written false)) : (s.step order event).Serves order requests :=
  ⟨step_inv order hserves.inv event, hserves.inv.connection_inv order hserves.connection hwrite,
    (failed_step order hwrite).trans hserves.failed⟩

/-- What a connection has handed over is as long as the requests. -/
theorem length_wire {stream : List Byte} {s : Connection} (hwired : s.Wired stream)
    (hhanded : s.handed.map (Connection.seen order) = served requests) :
    (s.handed.flatMap wire).length =
      (clientStream order (requests.takeWhile fun request => !request.body.isEmpty)).length := by
  have hlengths : s.handed.map (List.length ∘ wire) =
      (s.handed.map (Connection.seen order)).map fun seen => MsgHeader.sizeof + seen.2.length := by
    rw [List.map_map]
    refine List.map_congr_left fun buffers hbuffers => ?_
    have hsize := (hwired.handed buffers hbuffers).1
    simp [wire, Connection.seen, hsize]
  rw [List.length_flatMap, clientStream, List.length_flatMap]
  change (s.handed.map (List.length ∘ wire)).sum = _
  rw [hlengths, hhanded, served, List.map_map]
  congr 1
  refine List.map_congr_left fun request _ => ?_
  simp [Request.contents_sendBuffer]

theorem Serves.received_of_atRest (hserves : s.Serves order requests)
    (hrest : s.connection.AtRest) : s.received =
      clientStream order (requests.takeWhile fun request => !request.body.isEmpty) := by
  have hinv := hserves.inv
  have hphase : s.connection.phase ≠ .handling ∧ s.connection.phase ≠ .writing := by
    have hrests := hrest.2
    constructor
    · intro hphase
      rw [hphase] at hrests
      exact absurd hrests nofun
    · intro hphase
      rw [hphase] at hrests
      exact absurd hrests nofun
  have hreceived := hinv.received hserves.failed
  rw [hinv.idle hphase.2, pending_of_ne hphase.1, List.append_nil, List.append_nil] at hreceived
  have hlength := length_wire hinv.wired (hserves.connection.handed_of_atRest hrest)
  have hbegins : clientStream order (requests.takeWhile fun request => !request.body.isEmpty) <+:
      clientStream order requests := by
    obtain ⟨rest, hrest⟩ := List.takeWhile_prefix (l := requests)
      fun request : Request => !request.body.isEmpty
    refine ⟨clientStream order rest, ?_⟩
    rw [clientStream, clientStream, ← List.flatMap_append, hrest, clientStream]
  rw [hreceived]
  exact (List.prefix_of_prefix_length_le hinv.wired.begins hbegins hlength.le).eq_of_length hlength

def rank (s : EchoConnection) : ℕ := 2 * s.connection.rank + if s.unsent = [] then 0 else 1

theorem Serves.exists_event (hserves : s.Serves order requests) (hbusy : ¬ s.connection.AtRest) :
    ∃ event, event ≠ .connection (.written false) ∧ (s.step order event).rank < s.rank := by
  by_cases hunsent : s.unsent = []
  · obtain ⟨event, hwrite, hlt⟩ :=
      Connection.exists_event_of_not_atRest hserves.connection hbusy
    refine ⟨.connection event, fun h => hwrite (EchoEvent.connection.inj h), ?_⟩
    unfold rank
    rw [hserves.inv.connection_step order hunsent, if_pos hunsent]
    split_ifs
    all_goals omega
  · refine ⟨.send s.unsent.length, nofun, ?_⟩
    simp [rank, EchoConnection.step, hunsent]

/-- Whatever the client sends, it gets a beginning of it back, and of requests all those before
the first one without a body, once the connection is at rest, to which it can always come. -/
theorem echo_returns_what_was_sent (order : ByteOrder) (stream : List Byte)
    (events : List EchoEvent) :
    let s := run (step order) (start stream) events
    s.received <+: stream ∧ s.threw = false ∧
      ∀ requests : List Request, stream = clientStream order requests →
        (∀ request ∈ requests, request.body.length < 2 ^ 32) →
        .connection (.written false) ∉ events →
          (s.connection.AtRest → s.received =
            clientStream order (requests.takeWhile fun request => !request.body.isEmpty)) ∧
          ∃ later, .connection (.written false) ∉ later ∧
            (run (step order) s later).connection.AtRest := by
  intro s
  have hinv : s.Inv stream := run_invariant (Inv stream) (start_inv stream)
    (fun _ event hinv => step_inv order hinv event) events
  refine ⟨hinv.received_begins.trans hinv.wired.begins, hinv.threw, ?_⟩
  rintro requests rfl hbodies hwrites
  have hserves : s.Serves order requests := by
    apply run_invariant_of_ok (step order) _ (fun _ s => s.Serves order requests)
      (fun _ event => event ≠ .connection (.written false))
      ⟨start_inv _, Connection.start_inv hbodies, rfl⟩
      (fun _ _ hserves hwrite => hserves.step hwrite) _ _ (List.prefix_refl events)
    rintro earlier event later rfl hfails
    exact hwrites (by simp [hfails])
  refine ⟨hserves.received_of_atRest, ?_⟩
  obtain ⟨later, hlater, hrest⟩ := exists_run_of_rank (step order) (Serves order requests)
    (fun s => s.connection.AtRest) (fun event => event ≠ .connection (.written false)) rank
    (fun _ _ hserves hwrite => hserves.step hwrite)
    (fun _ hserves hbusy => hserves.exists_event hbusy) hserves
  exact ⟨later, fun hfails => hlater _ hfails rfl, hrest⟩

end EchoConnection

end CppPlay.DataProvider
