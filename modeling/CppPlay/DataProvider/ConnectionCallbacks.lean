import CppPlay.DataProvider.Connection
import CppPlay.Lib.Threads

/-!
# The callbacks of a connection

The operations of a connection are started by the callbacks of earlier ones, on the io
thread of its socket and on a thread of the handler pool, and share three pointers to
buffers.  Whatever a connection makes of its byte stream these callbacks make of it, where
the responses of the handler hold at least a header.
-/

namespace CppPlay.DataProvider

open CppPlay.Lib

inductive Operation where
  | readHeader
  | readBody
  | handle
  | write
  deriving DecidableEq

/-- What is started and has not called back: an `async_read` or an `async_write` with its
buffer, a request handler with its buffers, on the io thread itself or in the pool, or
the callback that the pool posted back. -/
inductive Pending where
  | readHeader (buffer : ℕ)
  | readBody (buffer : ℕ)
  | handle (onIoThread : Bool) (header body : ℕ)
  | handled (response : ℕ)
  | write (buffer : ℕ)

/-- While the handler blocks the io thread no other callback runs on it. -/
def Pending.blocksIo : Pending → Bool
  | .handle onIoThread _ _ => onIoThread
  | _ => false

/-- A pending operation goes on: the io thread completes it with what was transferred, the
handler returns a response, or the io thread runs a posted callback. -/
inductive Callback where
  | completed (i : ℕ) (error : Bool) (bytes : List Byte)
  | requestHandled (i : ℕ) (response : ℕ) (contents : MaxAlignedBuffer)
  | posted (i : ℕ)

abbrev Handled := MaxAlignedBuffer × MaxAlignedBuffer

/-- The connection with the buffers of its pointers, numbered as they are made.  The last
lists record the operations that were started, the requests that were read, each response
with the request that the handler got, and the responses that were written. -/
structure SharedConnection where
  heap : ℕ → MaxAlignedBuffer
  made : ℕ
  requestHeaderBufferPtr : Option ℕ
  requestBodyBufferPtr : Option ℕ
  responseBufferPtr : Option ℕ
  pending : List Pending
  stopped : Bool
  terminated : Bool
  started : List Operation
  requests : List Handled
  responses : List (Handled × MaxAlignedBuffer)
  written : List MaxAlignedBuffer

namespace SharedConnection

def stop (s : SharedConnection) : SharedConnection := { s with stopped := true }

/-- An exception leaves the thread, or a null pointer is used. -/
def terminate (s : SharedConnection) : SharedConnection := { s with terminated := true }

def setBuffer (s : SharedConnection) (buffer : ℕ) (contents : MaxAlignedBuffer) :
    SharedConnection :=
  { s with heap := Function.update s.heap buffer contents, made := max s.made (buffer + 1) }

def readHeader (s : SharedConnection) : SharedConnection :=
  { s.setBuffer s.made (MaxAlignedBuffer.empty.setSize MsgHeader.sizeof) with
    requestHeaderBufferPtr := some s.made
    pending := s.pending ++ [.readHeader s.made]
    started := s.started ++ [.readHeader] }

def start : SharedConnection :=
  readHeader ⟨fun _ => MaxAlignedBuffer.empty, 0, none, none, none, [], false, false, [], [], [], []⟩

def readBody (order : ByteOrder) (s : SharedConnection) : SharedConnection :=
  match s.requestHeaderBufferPtr with
  | none => s.terminate
  | some header =>
      let bodySize := (MsgHeader.ofBytes order (s.heap header).contents).getBodySize
      if bodySize = 0 then s.stop
      else
        { s.setBuffer s.made (MaxAlignedBuffer.empty.setSize bodySize) with
          requestBodyBufferPtr := some s.made
          pending := s.pending ++ [.readBody s.made]
          started := s.started ++ [.readBody] }

def handleReadHeader (order : ByteOrder) (s : SharedConnection) (bytesTransferred : ℕ) :
    SharedConnection :=
  match s.requestHeaderBufferPtr with
  | none => s.terminate
  | some header =>
      if bytesTransferred ≠ (s.heap header).size then s.stop else s.readBody order

/-- The pointers are moved into the handler, which blocks the io thread when there is no
pool for it. -/
def handleReadBody (hasPool : Bool) (s : SharedConnection) (bytesTransferred : ℕ) :
    SharedConnection :=
  match s.requestHeaderBufferPtr, s.requestBodyBufferPtr with
  | some header, some body =>
      if bytesTransferred ≠ (s.heap body).size then s.stop
      else
        { s with
          requestHeaderBufferPtr := none
          requestBodyBufferPtr := none
          pending := s.pending ++ [.handle (!hasPool) header body]
          started := s.started ++ [.handle]
          requests := s.requests ++ [(s.heap header, s.heap body)] }
  | _, _ => s.terminate

def write (s : SharedConnection) (response : ℕ) : SharedConnection :=
  { s with
    pending := s.pending ++ [.write response]
    started := s.started ++ [.write]
    written := s.written ++ [s.heap response] }

/-- The copy for the debugger throws when the response is shorter than a header. -/
def onRequestHandled (s : SharedConnection) : SharedConnection :=
  match s.responseBufferPtr with
  | none => s.terminate
  | some response =>
      if (s.heap response).size < MsgHeader.sizeof then s.terminate else s.write response

def handleWrite (s : SharedConnection) (bytesTransferred : ℕ) : SharedConnection :=
  match s.responseBufferPtr with
  | none => s.terminate
  | some response =>
      if bytesTransferred ≠ (s.heap response).size then s.stop else s.readHeader

/-- What was read is in the buffer, whether the read has failed or not. -/
def fill (s : SharedConnection) (buffer : ℕ) (bytes : List Byte) : SharedConnection :=
  s.setBuffer buffer ((s.heap buffer).memcpy 0 bytes)

/-- The handler has put its response behind the pointer that it was given. -/
def respond (s : SharedConnection) (header body response : ℕ) (contents : MaxAlignedBuffer) :
    SharedConnection :=
  { s.setBuffer response contents with
    responses := s.responses ++ [((s.heap header, s.heap body), contents)] }

def step (order : ByteOrder) (hasPool : Bool) (s : SharedConnection) (callback : Callback) :
    SharedConnection :=
  if s.terminated then s
  else
    match callback with
    | .completed i error bytes =>
        if s.pending.any Pending.blocksIo then s
        else
          match s.pending[i]? with
          | some (.readHeader buffer) =>
              let s := fill { s with pending := s.pending.eraseIdx i } buffer bytes
              if error then s.stop else s.handleReadHeader order bytes.length
          | some (.readBody buffer) =>
              let s := fill { s with pending := s.pending.eraseIdx i } buffer bytes
              if error then s.stop else s.handleReadBody hasPool bytes.length
          | some (.write _) =>
              let s := { s with pending := s.pending.eraseIdx i }
              if error then s.stop else s.handleWrite bytes.length
          | _ => s
    | .requestHandled i response contents =>
        match s.pending[i]? with
        | some (.handle true header body) =>
            onRequestHandled
              { respond { s with pending := s.pending.eraseIdx i } header body response contents with
                responseBufferPtr := some response }
        | some (.handle false header body) =>
            let s := respond { s with pending := s.pending.eraseIdx i } header body response contents
            { s with pending := s.pending ++ [.handled response] }
        | _ => s
    | .posted i =>
        if s.pending.any Pending.blocksIo then s
        else
          match s.pending[i]? with
          | some (.handled response) =>
              onRequestHandled
                { s with
                  pending := s.pending.eraseIdx i
                  responseBufferPtr := some response }
          | _ => s

/-- At most one operation is outstanding, none after `stop()`, and the responses written
are those of the handler for the requests read, in their order. -/
structure KeepsProtocol (s : SharedConnection) : Prop where
  outstanding : s.pending.length ≤ 1
  response_of_request : ∀ (k : ℕ) (response : MaxAlignedBuffer), s.written[k]? = some response →
    ∃ request, s.requests[k]? = some request ∧ s.responses[k]? = some (request, response)
  rests_of_stopped : s.stopped = true → s.pending = []
  short_of_terminated : s.terminated = true →
    ∃ served ∈ s.responses, served.2.size < MsgHeader.sizeof

/-! ## The invariant -/

structure Served (s : SharedConnection) : Prop where
  requests : s.requests = s.responses.map Prod.fst
  written : s.written = s.responses.map Prod.snd

structure InCallback (s : SharedConnection) : Prop extends Served s where
  pending : s.pending = []
  stopped : s.stopped = false
  terminated : s.terminated = false

/-- What is outstanding, with the pointers that its callback uses. -/
def PendingOk (s : SharedConnection) : List Pending → Prop
  | [] =>
      (s.stopped = true ∨ s.terminated = true) ∧ s.requests = s.responses.map Prod.fst ∧
        s.written <+: s.responses.map Prod.snd
  | [.readHeader buffer] =>
      s.stopped = false ∧ s.Served ∧ s.requestHeaderBufferPtr = some buffer
  | [.readBody buffer] =>
      s.stopped = false ∧ s.Served ∧ s.requestHeaderBufferPtr.isSome = true ∧
        s.requestBodyBufferPtr = some buffer
  | [.handle _ header body] =>
      s.stopped = false ∧ s.written = s.responses.map Prod.snd ∧
        s.requests = s.responses.map Prod.fst ++ [(s.heap header, s.heap body)]
  | [.handled response] =>
      s.stopped = false ∧ s.requests = s.responses.map Prod.fst ∧
        s.responses.map Prod.snd = s.written ++ [s.heap response]
  | [.write buffer] => s.stopped = false ∧ s.Served ∧ s.responseBufferPtr = some buffer
  | _ => False

structure Inv (s : SharedConnection) : Prop where
  pending : s.PendingOk s.pending
  short : s.terminated = true → ∃ served ∈ s.responses, served.2.size < MsgHeader.sizeof

variable {order : ByteOrder} {hasPool : Bool} {s : SharedConnection}

theorem Inv.in_order (hinv : s.Inv) :
    s.written <+: s.responses.map Prod.snd ∧ s.responses.map Prod.fst <+: s.requests := by
  have hserved : s.Served →
      s.written <+: s.responses.map Prod.snd ∧ s.responses.map Prod.fst <+: s.requests := by
    intro hserved
    rw [hserved.written, hserved.requests]
    exact ⟨List.prefix_refl _, List.prefix_refl _⟩
  have hpending := hinv.pending
  unfold PendingOk at hpending
  split at hpending
  · exact ⟨hpending.2.2, hpending.2.1 ▸ List.prefix_refl _⟩
  · exact hserved hpending.2.1
  · exact hserved hpending.2.1
  · exact ⟨hpending.2.1 ▸ List.prefix_refl _, hpending.2.2 ▸ List.prefix_append _ _⟩
  · exact ⟨hpending.2.2 ▸ List.prefix_append _ _, hpending.2.1 ▸ List.prefix_refl _⟩
  · exact hserved hpending.2.1
  · exact hpending.elim

theorem Inv.eq_nil_or_singleton (hinv : s.Inv) :
    s.pending = [] ∨ ∃ pending, s.pending = [pending] ∧ s.stopped = false := by
  have hpending := hinv.pending
  unfold PendingOk at hpending
  split at hpending
  case h_1 hnil => exact .inl hnil
  case h_7 => exact hpending.elim
  all_goals exact .inr ⟨_, by assumption, hpending.1⟩

theorem Inv.keepsProtocol (hinv : s.Inv) : s.KeepsProtocol := by
  constructor
  · rcases hinv.eq_nil_or_singleton with hnil | ⟨pending, hone, _⟩
    · simp [hnil]
    · simp [hone]
  · intro k response hwritten
    obtain ⟨⟨unwritten, hresponses⟩, ⟨unanswered, hrequests⟩⟩ := hinv.in_order
    have hresponse : (s.responses.map Prod.snd)[k]? = some response := by
      rw [← hresponses]
      exact getElem?_append_of_eq_some hwritten
    rw [List.getElem?_map, Option.map_eq_some_iff] at hresponse
    obtain ⟨⟨request, _⟩, hserved, rfl⟩ := hresponse
    refine ⟨request, ?_, hserved⟩
    rw [← hrequests]
    apply getElem?_append_of_eq_some
    rw [List.getElem?_map, hserved]
    rfl
  · intro hstopped
    rcases hinv.eq_nil_or_singleton with hnil | ⟨pending, hone, hrunning⟩
    · exact hnil
    · rw [hrunning] at hstopped
      cases hstopped
  · exact hinv.short

/-! ## The callbacks -/

theorem inv_of_pendingOk (hterminated : s.terminated = false) (hpending : s.PendingOk s.pending) :
    s.Inv := by
  refine ⟨hpending, ?_⟩
  intro hnow
  rw [hterminated] at hnow
  cases hnow

theorem InCallback.stop_inv (hin : s.InCallback) : s.stop.Inv := by
  apply inv_of_pendingOk
  · exact hin.terminated
  · simp only [stop, hin.pending, PendingOk]
    exact ⟨.inl trivial, hin.requests, hin.written ▸ List.prefix_refl _⟩

theorem InCallback.readHeader_inv (hin : s.InCallback) : s.readHeader.Inv := by
  apply inv_of_pendingOk
  · exact hin.terminated
  · simp only [readHeader, setBuffer, hin.pending, List.nil_append, PendingOk]
    exact ⟨hin.stopped, ⟨hin.requests, hin.written⟩, trivial⟩

theorem start_inv : start.Inv := by
  apply InCallback.readHeader_inv
  constructor
  · constructor
    · rfl
    · rfl
  · rfl
  · rfl
  · rfl

theorem InCallback.readBody_inv (hin : s.InCallback) {header : ℕ}
    (hheader : s.requestHeaderBufferPtr = some header) : (s.readBody order).Inv := by
  simp only [readBody, hheader]
  split
  · exact hin.stop_inv
  · apply inv_of_pendingOk
    · exact hin.terminated
    · simp only [setBuffer, hin.pending, List.nil_append, PendingOk]
      exact ⟨hin.stopped, ⟨hin.requests, hin.written⟩, by simp [hheader], trivial⟩

theorem InCallback.handleReadHeader_inv (hin : s.InCallback) {header : ℕ}
    (hheader : s.requestHeaderBufferPtr = some header) (bytesTransferred : ℕ) :
    (s.handleReadHeader order bytesTransferred).Inv := by
  simp only [handleReadHeader, hheader]
  split
  · exact hin.stop_inv
  · exact hin.readBody_inv hheader

theorem InCallback.handleReadBody_inv (hin : s.InCallback) {header body : ℕ}
    (hheader : s.requestHeaderBufferPtr = some header)
    (hbody : s.requestBodyBufferPtr = some body) (bytesTransferred : ℕ) :
    (s.handleReadBody hasPool bytesTransferred).Inv := by
  simp only [handleReadBody, hheader, hbody]
  split
  · exact hin.stop_inv
  · apply inv_of_pendingOk
    · exact hin.terminated
    · simp only [hin.pending, List.nil_append, PendingOk]
      exact ⟨hin.stopped, hin.written, by rw [hin.requests]⟩

theorem InCallback.handleWrite_inv (hin : s.InCallback) {response : ℕ}
    (hresponse : s.responseBufferPtr = some response) (bytesTransferred : ℕ) :
    (s.handleWrite bytesTransferred).Inv := by
  simp only [handleWrite, hresponse]
  split
  · exact hin.stop_inv
  · exact hin.readHeader_inv

theorem InCallback.fill (hin : s.InCallback) (buffer : ℕ) (bytes : List Byte) :
    (s.fill buffer bytes).InCallback :=
  ⟨⟨hin.requests, hin.written⟩, hin.pending, hin.stopped, hin.terminated⟩

theorem onRequestHandled_inv {response : ℕ} (hpending : s.pending = [])
    (hstopped : s.stopped = false) (hterminated : s.terminated = false)
    (hpointer : s.responseBufferPtr = some response)
    (hrequests : s.requests = s.responses.map Prod.fst)
    (hresponses : s.responses.map Prod.snd = s.written ++ [s.heap response]) :
    s.onRequestHandled.Inv := by
  simp only [onRequestHandled, hpointer]
  split
  · rename_i hshort
    constructor
    · simp only [terminate, hpending, PendingOk]
      exact ⟨.inr trivial, hrequests, hresponses ▸ List.prefix_append _ _⟩
    · intro _
      have hlast : s.heap response ∈ s.responses.map Prod.snd := by
        rw [hresponses]
        exact List.mem_concat_self
      obtain ⟨served, hmem, hserved⟩ := List.mem_map.mp hlast
      exact ⟨served, hmem, hserved ▸ hshort⟩
  · apply inv_of_pendingOk
    · exact hterminated
    · simp only [write, hpending, List.nil_append, PendingOk]
      exact ⟨hstopped, ⟨hrequests, hresponses.symm⟩, hpointer⟩

/-! ## Every interleaving -/

theorem inCallback_of_served (hserved : s.Served) (hstopped : s.stopped = false)
    (hterminated : s.terminated = false) : InCallback { s with pending := [] } :=
  ⟨⟨hserved.requests, hserved.written⟩, rfl, hstopped, hterminated⟩

theorem step_completed_inv (hinv : s.Inv) (hterminated : s.terminated = false) (i : ℕ)
    (error : Bool) (bytes : List Byte) : (s.step order hasPool (.completed i error bytes)).Inv := by
  have hpending := hinv.pending
  have hgoes : ¬ s.terminated = true := by simp [hterminated]
  simp only [step, if_neg hgoes]
  split
  · exact hinv
  · rcases hinv.eq_nil_or_singleton with hnil | ⟨pending, hone, hrunning⟩
    · simp only [hnil, List.getElem?_nil]
      exact hinv
    · rw [hone] at hpending
      simp only [hone]
      cases i with
      | succ i => exact hinv
      | zero =>
          cases pending with
          | readHeader buffer =>
              obtain ⟨_, hserved, hpointer⟩ := hpending
              have hin := (inCallback_of_served hserved hrunning hterminated).fill buffer bytes
              simp only [List.getElem?_cons_zero, List.eraseIdx_zero, List.tail_cons]
              split
              · exact hin.stop_inv
              · exact hin.handleReadHeader_inv hpointer _
          | readBody buffer =>
              obtain ⟨_, hserved, hheader, hpointer⟩ := hpending
              obtain ⟨header, hheader⟩ := Option.isSome_iff_exists.mp hheader
              have hin := (inCallback_of_served hserved hrunning hterminated).fill buffer bytes
              simp only [List.getElem?_cons_zero, List.eraseIdx_zero, List.tail_cons]
              split
              · exact hin.stop_inv
              · exact hin.handleReadBody_inv hheader hpointer _
          | write buffer =>
              obtain ⟨_, hserved, hpointer⟩ := hpending
              have hin := inCallback_of_served hserved hrunning hterminated
              simp only [List.getElem?_cons_zero, List.eraseIdx_zero, List.tail_cons]
              split
              · exact hin.stop_inv
              · exact hin.handleWrite_inv hpointer _
          | handle onIoThread header body => exact hinv
          | handled response => exact hinv

theorem step_requestHandled_inv (hinv : s.Inv) (hterminated : s.terminated = false) (i : ℕ)
    (response : ℕ) (contents : MaxAlignedBuffer) :
    (s.step order hasPool (.requestHandled i response contents)).Inv := by
  have hpending := hinv.pending
  have hgoes : ¬ s.terminated = true := by simp [hterminated]
  simp only [step, if_neg hgoes]
  rcases hinv.eq_nil_or_singleton with hnil | ⟨pending, hone, hrunning⟩
  · simp only [hnil, List.getElem?_nil]
    exact hinv
  · rw [hone] at hpending
    simp only [hone]
    cases i with
    | succ i => exact hinv
    | zero =>
        cases pending with
        | handle onIoThread header body =>
            obtain ⟨_, hwritten, hrequests⟩ := hpending
            cases onIoThread with
            | true =>
                simp only [List.getElem?_cons_zero, List.eraseIdx_zero, List.tail_cons]
                apply onRequestHandled_inv
                · rfl
                · exact hrunning
                · exact hterminated
                · rfl
                · simp [respond, setBuffer, hrequests]
                · simp [respond, setBuffer, hwritten]
            | false =>
                simp only [List.getElem?_cons_zero, List.eraseIdx_zero, List.tail_cons, respond,
                  setBuffer, List.nil_append]
                apply inv_of_pendingOk
                · exact hterminated
                · simp only [PendingOk]
                  refine ⟨hrunning, ?_, ?_⟩
                  · simp [hrequests]
                  · simp [hwritten]
        | _ => exact hinv

theorem step_posted_inv (hinv : s.Inv) (hterminated : s.terminated = false) (i : ℕ) :
    (s.step order hasPool (.posted i)).Inv := by
  have hpending := hinv.pending
  have hgoes : ¬ s.terminated = true := by simp [hterminated]
  simp only [step, if_neg hgoes]
  split
  · exact hinv
  · rcases hinv.eq_nil_or_singleton with hnil | ⟨pending, hone, hrunning⟩
    · simp only [hnil, List.getElem?_nil]
      exact hinv
    · rw [hone] at hpending
      simp only [hone]
      cases i with
      | succ i => exact hinv
      | zero =>
          cases pending with
          | handled response =>
              obtain ⟨_, hrequests, hresponses⟩ := hpending
              exact onRequestHandled_inv rfl hrunning hterminated rfl hrequests hresponses
          | _ => exact hinv

theorem step_inv (hinv : s.Inv) (callback : Callback) : (s.step order hasPool callback).Inv := by
  cases hterminated : s.terminated with
  | true =>
      simp only [step, hterminated, if_true]
      exact hinv
  | false =>
      cases callback with
      | completed i error bytes => exact step_completed_inv hinv hterminated i error bytes
      | requestHandled i response contents =>
          exact step_requestHandled_inv hinv hterminated i response contents
      | posted i => exact step_posted_inv hinv hterminated i

theorem step_of_pending_nil (hnil : s.pending = []) (callback : Callback) :
    s.step order hasPool callback = s := by
  cases callback <;> simp [step, hnil]

theorem run_of_pending_nil (hnil : s.pending = []) (callbacks : List Callback) :
    run (step order hasPool) s callbacks = s := by
  induction callbacks with
  | nil => rfl
  | cons callback callbacks ih => rw [run_cons, step_of_pending_nil hnil, ih]

/-- The protocol is kept in every interleaving, and after `stop()` no operation starts. -/
theorem keepsProtocol_run (order : ByteOrder) (hasPool : Bool) (callbacks : List Callback) :
    (run (step order hasPool) start callbacks).KeepsProtocol ∧
      ∀ first, first <+: callbacks → (run (step order hasPool) start first).stopped = true →
        (run (step order hasPool) start callbacks).started =
          (run (step order hasPool) start first).started := by
  have hinv : ∀ callbacks, (run (step order hasPool) start callbacks).Inv := fun callbacks =>
    run_invariant Inv start_inv (fun s callback hinv => step_inv hinv callback) callbacks
  refine ⟨(hinv callbacks).keepsProtocol, ?_⟩
  rintro first ⟨later, rfl⟩ hstopped
  rw [run_append, run_of_pending_nil ((hinv first).keepsProtocol.rests_of_stopped hstopped)]

/-! ## The byte stream behind the callbacks -/

/-- What waits for the byte stream in a phase, with the part of the buffer that has arrived. -/
def PhaseFollows (hasPool : Bool) (s : SharedConnection) : Phase → Prop
  | .readingHeader header transferred =>
      s.stopped = false ∧ ∃ buffer arrived, s.pending = [.readHeader buffer] ∧
        s.requestHeaderBufferPtr = some buffer ∧ buffer < s.made ∧
        header = (s.heap buffer).memcpy 0 arrived ∧ transferred = arrived.length
  | .readingBody header body transferred =>
      s.stopped = false ∧ ∃ headerBuffer buffer arrived, s.pending = [.readBody buffer] ∧
        s.requestHeaderBufferPtr = some headerBuffer ∧ s.requestBodyBufferPtr = some buffer ∧
        headerBuffer ≠ buffer ∧ s.heap headerBuffer = header ∧
        body = (s.heap buffer).memcpy 0 arrived ∧ transferred = arrived.length
  | .handling =>
      s.stopped = false ∧ ∃ header body, s.pending = [.handle (!hasPool) header body]
  | .writing =>
      s.stopped = false ∧ ∃ buffer, s.pending = [.write buffer] ∧
        s.responseBufferPtr = some buffer
  | .stopped => s.stopped = true ∧ s.pending = []

/-- The handler has got the same, and has responded to it as it does. -/
structure Agrees (handler : Handled → MaxAlignedBuffer) (c : Connection) (s : SharedConnection) :
    Prop where
  terminated : s.terminated = false
  requests : s.requests = c.handed
  responses : ∀ answered ∈ s.responses, answered.2 = handler answered.1

/-- The callbacks are where the byte stream has brought the connection. -/
structure Follows (hasPool : Bool) (handler : Handled → MaxAlignedBuffer) (c : Connection)
    (s : SharedConnection) : Prop where
  agrees : Agrees handler c s
  phase : s.PhaseFollows hasPool c.phase

variable {handler : Handled → MaxAlignedBuffer} {c : Connection}

theorem Agrees.congr {c' : Connection} {s' : SharedConnection} (hagrees : Agrees handler c s)
    (hterminated : s'.terminated = s.terminated) (hrequests : s'.requests = s.requests)
    (hresponses : s'.responses = s.responses) (hhanded : c'.handed = c.handed) :
    Agrees handler c' s' := by
  constructor
  · rw [hterminated, hagrees.terminated]
  · rw [hrequests, hagrees.requests, hhanded]
  · rw [hresponses]
    exact hagrees.responses

theorem memcpy_nil (buffer : MaxAlignedBuffer) (pos : ℕ) : buffer.memcpy pos [] = buffer := by
  rw [MaxAlignedBuffer.memcpy, Memory.write_nil]

theorem memcpy_append (buffer : MaxAlignedBuffer) (arrived bytes : List Byte) :
    (buffer.memcpy 0 arrived).memcpy arrived.length bytes = buffer.memcpy 0 (arrived ++ bytes) := by
  simp only [MaxAlignedBuffer.memcpy, Memory.write_append, Nat.zero_add]

theorem follows_stop (hagrees : Agrees handler c s) (hpending : s.pending = []) :
    Follows hasPool handler c.stop s.stop :=
  ⟨hagrees.congr rfl rfl rfl rfl, rfl, hpending⟩

theorem follows_readHeader (hagrees : Agrees handler c s) (hpending : s.pending = [])
    (hstopped : s.stopped = false) : Follows hasPool handler c.readHeader s.readHeader := by
  refine ⟨hagrees.congr rfl rfl rfl rfl, hstopped, s.made, [], ?_, rfl, ?_, ?_, rfl⟩
  · simp [readHeader, hpending]
  · simp [readHeader, setBuffer]
  · simp [readHeader, setBuffer, memcpy_nil]

theorem start_follows (stream : List Byte) :
    Follows hasPool handler (Connection.start stream) start :=
  follows_readHeader ⟨rfl, rfl, fun _ hanswered => absurd hanswered List.not_mem_nil⟩ rfl rfl

theorem follows_readBody (hagrees : Agrees handler c s) (hpending : s.pending = [])
    (hstopped : s.stopped = false) {buffer : ℕ}
    (hpointer : s.requestHeaderBufferPtr = some buffer) (hmade : buffer < s.made) :
    Follows hasPool handler (c.readBody order (s.heap buffer)) (s.readBody order) := by
  simp only [readBody, Connection.readBody, hpointer]
  split_ifs
  · exact follows_stop hagrees hpending
  · refine ⟨hagrees.congr rfl rfl rfl rfl, hstopped, buffer, s.made, [], ?_, hpointer, rfl,
      hmade.ne, ?_, ?_, rfl⟩
    · simp [hpending]
    · simp [setBuffer, Function.update_of_ne hmade.ne]
    · simp [setBuffer, memcpy_nil]

theorem follows_handleReadHeader (hagrees : Agrees handler c s) (hpending : s.pending = [])
    (hstopped : s.stopped = false) {buffer : ℕ}
    (hpointer : s.requestHeaderBufferPtr = some buffer) (hmade : buffer < s.made)
    {header : MaxAlignedBuffer} (hheader : s.heap buffer = header) (transferred : ℕ) :
    Follows hasPool handler (c.handleReadHeader order header transferred)
      (s.handleReadHeader order transferred) := by
  rw [← hheader]
  simp only [handleReadHeader, Connection.handleReadHeader, hpointer]
  split_ifs
  · exact follows_stop hagrees hpending
  · exact follows_readBody hagrees hpending hstopped hpointer hmade

theorem follows_handleReadBody (hagrees : Agrees handler c s) (hpending : s.pending = [])
    (hstopped : s.stopped = false) {headerBuffer bodyBuffer : ℕ}
    (hheaderPtr : s.requestHeaderBufferPtr = some headerBuffer)
    (hbodyPtr : s.requestBodyBufferPtr = some bodyBuffer) {header body : MaxAlignedBuffer}
    (hheader : s.heap headerBuffer = header) (hbody : s.heap bodyBuffer = body)
    (transferred : ℕ) :
    Follows hasPool handler (c.handleReadBody header body transferred)
      (s.handleReadBody hasPool transferred) := by
  rw [← hheader, ← hbody]
  simp only [handleReadBody, Connection.handleReadBody, hheaderPtr, hbodyPtr]
  split_ifs
  · exact follows_stop hagrees hpending
  · refine ⟨⟨hagrees.terminated, ?_, hagrees.responses⟩, hstopped, headerBuffer, bodyBuffer, ?_⟩
    · simp [hagrees.requests]
    · simp [hpending]

/-! A callback of what is outstanding -/

section Callbacks

variable (hterminated : s.terminated = false)

include hterminated

theorem step_readHeader {buffer : ℕ} (hpending : s.pending = [.readHeader buffer]) (error : Bool)
    (bytes : List Byte) :
    s.step order hasPool (.completed 0 error bytes) =
      if error then (fill { s with pending := [] } buffer bytes).stop
      else (fill { s with pending := [] } buffer bytes).handleReadHeader order bytes.length := by
  simp [step, hterminated, hpending, Pending.blocksIo]

theorem step_readBody {buffer : ℕ} (hpending : s.pending = [.readBody buffer]) (error : Bool)
    (bytes : List Byte) :
    s.step order hasPool (.completed 0 error bytes) =
      if error then (fill { s with pending := [] } buffer bytes).stop
      else (fill { s with pending := [] } buffer bytes).handleReadBody hasPool bytes.length := by
  simp [step, hterminated, hpending, Pending.blocksIo]

theorem step_write {buffer : ℕ} (hpending : s.pending = [.write buffer]) (error : Bool)
    (bytes : List Byte) :
    s.step order hasPool (.completed 0 error bytes) =
      if error then stop { s with pending := [] }
      else handleWrite { s with pending := [] } bytes.length := by
  simp [step, hterminated, hpending, Pending.blocksIo]

/-- The handler responds, on the io thread or in the pool. -/
theorem exists_response (hstopped : s.stopped = false) {header body : ℕ}
    (hpending : s.pending = [.handle (!hasPool) header body])
    {response : MaxAlignedBuffer} (hresponse : MsgHeader.sizeof ≤ response.size) :
    ∃ callbacks s', run (step order hasPool) s callbacks = s' ∧ s'.terminated = false ∧
      s'.requests = s.requests ∧
      s'.responses = s.responses ++ [((s.heap header, s.heap body), response)] ∧
      s'.stopped = false ∧
      ∃ buffer, s'.pending = [.write buffer] ∧ s'.responseBufferPtr = some buffer := by
  have hlong : ¬ response.size < MsgHeader.sizeof := not_lt.mpr hresponse
  cases hasPool with
  | false =>
      refine ⟨[.requestHandled 0 s.made response], _, rfl, ?_⟩
      simp [step, hterminated, hpending, hstopped, onRequestHandled, respond, setBuffer, hlong,
        write]
  | true =>
      refine ⟨[.requestHandled 0 s.made response, .posted 0], _, rfl, ?_⟩
      simp [step, hterminated, hpending, hstopped, onRequestHandled, respond, setBuffer, hlong,
        write, Pending.blocksIo]

end Callbacks

theorem heap_fill (s : SharedConnection) (buffer : ℕ) (bytes : List Byte) :
    (s.fill buffer bytes).heap buffer = (s.heap buffer).memcpy 0 bytes :=
  Function.update_self _ _ _

theorem heap_fill_of_ne {buffer other : ℕ} (hne : other ≠ buffer) (bytes : List Byte) :
    (s.fill buffer bytes).heap other = s.heap other :=
  Function.update_of_ne hne _ _

theorem Follows.readSome (hfollows : Follows hasPool handler c s) (count : ℕ) :
    ∃ callbacks, Follows hasPool handler (c.readSome order count)
      (run (step order hasPool) s callbacks) := by
  have hagrees := hfollows.agrees
  have hphase := hfollows.phase
  unfold Connection.readSome
  cases hcase : c.phase with
  | readingHeader header transferred =>
      rw [hcase] at hphase
      obtain ⟨hstopped, buffer, arrived, hpending, hpointer, hmade, rfl, rfl⟩ := hphase
      dsimp only
      by_cases hend : c.atEnd = true
      · refine ⟨[.completed 0 true arrived], ?_⟩
        rw [if_pos hend, run_cons, run_nil, step_readHeader hagrees.terminated hpending]
        exact follows_stop (hagrees.congr rfl rfl rfl rfl) rfl
      · rw [if_neg hend]
        generalize c.taken count _ = bytes
        rw [memcpy_append, ← List.length_append]
        split_ifs with hfull
        · refine ⟨[.completed 0 false (arrived ++ bytes)], ?_⟩
          rw [run_cons, run_nil, step_readHeader hagrees.terminated hpending,
            if_neg Bool.false_ne_true]
          have hheap := heap_fill { s with pending := [] } buffer (arrived ++ bytes)
          refine follows_handleReadHeader ?_ ?_ ?_ ?_ ?_ hheap _
          · exact hagrees.congr rfl rfl rfl rfl
          · rfl
          · exact hstopped
          · exact hpointer
          · exact lt_of_lt_of_le hmade (le_max_left _ _)
        · exact ⟨[], hagrees.congr rfl rfl rfl rfl, hstopped, buffer, arrived ++ bytes,
            hpending, hpointer, hmade, rfl, rfl⟩
  | readingBody header body transferred =>
      rw [hcase] at hphase
      obtain ⟨hstopped, headerBuffer, buffer, arrived, hpending, hheader, hbody, hne, rfl, rfl,
        rfl⟩ := hphase
      dsimp only
      by_cases hend : c.atEnd = true
      · refine ⟨[.completed 0 true arrived], ?_⟩
        rw [if_pos hend, run_cons, run_nil, step_readBody hagrees.terminated hpending]
        exact follows_stop (hagrees.congr rfl rfl rfl rfl) rfl
      · rw [if_neg hend]
        generalize c.taken count _ = bytes
        rw [memcpy_append, ← List.length_append]
        split_ifs with hfull
        · refine ⟨[.completed 0 false (arrived ++ bytes)], ?_⟩
          rw [run_cons, run_nil, step_readBody hagrees.terminated hpending,
            if_neg Bool.false_ne_true]
          have hheap := heap_fill { s with pending := [] } buffer (arrived ++ bytes)
          have hheap' := heap_fill_of_ne (s := { s with pending := [] }) hne (arrived ++ bytes)
          refine follows_handleReadBody ?_ ?_ ?_ ?_ ?_ hheap' hheap _
          · exact hagrees.congr rfl rfl rfl rfl
          · rfl
          · exact hstopped
          · exact hheader
          · exact hbody
        · exact ⟨[], hagrees.congr rfl rfl rfl rfl, hstopped, headerBuffer, buffer,
            arrived ++ bytes, hpending, hheader, hbody, hne, rfl, rfl, rfl⟩
  | handling => exact ⟨[], hfollows⟩
  | writing => exact ⟨[], hfollows⟩
  | stopped => exact ⟨[], hfollows⟩

theorem Follows.step (hfollows : Follows hasPool handler c s)
    (hhandler : ∀ request, MsgHeader.sizeof ≤ (handler request).size) (event : Event) :
    ∃ callbacks, Follows hasPool handler (c.step order event)
      (run (step order hasPool) s callbacks) := by
  have hagrees := hfollows.agrees
  have hphase := hfollows.phase
  cases event with
  | arrive count => exact ⟨[], hagrees.congr rfl rfl rfl rfl, hphase⟩
  | closed => exact ⟨[], hagrees.congr rfl rfl rfl rfl, hphase⟩
  | readSome count => exact hfollows.readSome count
  | handled =>
      cases hcase : c.phase with
      | handling =>
          rw [hcase] at hphase
          obtain ⟨hstopped, header, body, hpending⟩ := hphase
          obtain ⟨callbacks, s', hrun, hterminated, hrequests, hresponses, hwrites⟩ :=
            exists_response hagrees.terminated hstopped hpending
              (hhandler (s.heap header, s.heap body))
          refine ⟨callbacks, ?_⟩
          rw [hrun]
          simp only [Connection.step, hcase]
          refine ⟨⟨hterminated, hrequests.trans hagrees.requests, ?_⟩, hwrites⟩
          rw [hresponses]
          intro answered hanswered
          rcases List.mem_append.mp hanswered with hbefore | hthis
          · exact hagrees.responses answered hbefore
          · rw [List.mem_singleton.mp hthis]
      | readingHeader | readingBody | writing | stopped =>
          refine ⟨[], ?_⟩
          rw [run_nil]
          simpa only [Connection.step, hcase] using hfollows
  | written ok =>
      cases hcase : c.phase with
      | writing =>
          rw [hcase] at hphase
          obtain ⟨hstopped, buffer, hpending, hpointer⟩ := hphase
          refine ⟨[.completed 0 (!ok) (s.heap buffer).contents], ?_⟩
          rw [run_cons, run_nil, step_write hagrees.terminated hpending]
          simp only [Connection.step, hcase]
          cases ok with
          | false => exact follows_stop (hagrees.congr rfl rfl rfl rfl) rfl
          | true =>
              have hfull : ¬ (s.heap buffer).contents.length ≠ (s.heap buffer).size :=
                not_not.mpr (MaxAlignedBuffer.length_contents _)
              simp only [Bool.not_true, Bool.false_eq_true, if_false, if_true, handleWrite,
                hpointer, if_neg hfull]
              exact follows_readHeader (hagrees.congr rfl rfl rfl rfl) rfl hstopped
      | readingHeader | readingBody | handling | stopped =>
          refine ⟨[], ?_⟩
          rw [run_nil]
          simpa only [Connection.step, hcase] using hfollows

/-- What becomes of a byte stream by itself becomes of it by the callbacks as well, with any
handler whose responses hold at least a header: they hand the same buffers to the handler and
wait, or stop, where the connection does. -/
theorem exists_callbacks (order : ByteOrder) (hasPool : Bool)
    (hhandler : ∀ request, MsgHeader.sizeof ≤ (handler request).size) (stream : List Byte)
    (events : List Event) :
    ∃ callbacks, Follows hasPool handler
      (run (Connection.step order) (Connection.start stream) events)
      (run (step order hasPool) start callbacks) := by
  induction events using List.reverseRecOn with
  | nil => exact ⟨[], start_follows stream⟩
  | append_singleton events event ih =>
      obtain ⟨earlier, hfollows⟩ := ih
      obtain ⟨callbacks, hafter⟩ := hfollows.step hhandler event
      refine ⟨earlier ++ callbacks, ?_⟩
      rw [run_append, run_append, run_cons, run_nil]
      exact hafter

end SharedConnection

end CppPlay.DataProvider
