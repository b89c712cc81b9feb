import CppPlay.DataProvider.BufferConcat
import CppPlay.Lib.Run

/-!
# The client's socket

`connect` tries again until its retries are used up, for all calls of the client
together.  An operation that failed should shut the socket down, and no other one
should.  `readHeader` and `readBody` test the error code the wrong way round.
-/

namespace CppPlay.DataProvider

open CppPlay.Lib

/-- One pass of `connect`: the resolver throws, or `boost::asio::connect` opens the socket
anew and returns, with or without an error. -/
inductive Attempt where
  | resolveThrows
  | connected
  | failed (message : String)

/-- What a read or a write of all bytes of a buffer ends with.  Before an error some of the
bytes may have been transferred. -/
inductive Transfer where
  | complete (bytes : Memory Byte)
  | failed (bytes : List Byte) (message : String)

/-- The error code; a buffer of no bytes needs no transfer. -/
def Transfer.error (transfer : Transfer) (size : ℕ) : Option String :=
  match transfer with
  | complete _ => none
  | failed _ message => if size = 0 then none else some message

def Transfer.arrived (transfer : Transfer) (size : ℕ) : List Byte :=
  match transfer with
  | complete bytes => bytes.read 0 size
  | failed bytes _ => bytes.take (size - 1)

/-- What an operation does to the socket; of reads and writes whether they succeed and
whether the socket was shut down before. -/
inductive SocketEvent where
  | connectCall (ok : Bool)
  | gaveUp
  | write (ok afterShutdown : Bool)
  | read (ok afterShutdown : Bool)
  | shutdown
  deriving DecidableEq

namespace SocketEvent

def isFailedTransfer : SocketEvent → Bool
  | write ok _ => !ok
  | read ok _ => !ok
  | _ => false

def isAfterShutdown : SocketEvent → Bool
  | write _ afterShutdown => afterShutdown
  | read _ afterShutdown => afterShutdown
  | _ => false

end SocketEvent

/-- `socketShut` is the state of the socket, not of the client. -/
structure SyncClient where
  _retryNum : ℕ
  _maxRetry : ℕ
  socketShut : Bool
  log : List String

inductive ClientOperation where
  | connect (attempts : ℕ → Attempt)
  | write (requestBuffer : MaxAlignedBuffer) (transfer : Transfer)
  | read (responseHeaderBuffer responseBodyBuffer : MaxAlignedBuffer) (header body : Transfer)
  | stop

namespace SyncClient

def created (maxRetry : ℕ) : SyncClient := ⟨0, maxRetry, false, []⟩

def logged (s : SyncClient) (msg : String) : SyncClient := { s with log := s.log ++ [msg] }

def stop (s : SyncClient) (e : Option String) : SyncClient :=
  { s with
    socketShut := true
    log := s.log ++ [match e with
      | some message => "Connection shutdown because of error " ++ message
      | none => "Connection shutdown without errors"] }

def reopened (s : SyncClient) : SyncClient := { s with socketShut := false }

def retried (s : SyncClient) : SyncClient := { s with _retryNum := s._retryNum + 1 }

def connect (s : SyncClient) (attempts : ℕ → Attempt) : SyncClient × List SocketEvent :=
  match attempts 0 with
  | .resolveThrows => (s, [])
  | .connected => (s.reopened, [.connectCall true])
  | .failed message =>
      if s._retryNum < s._maxRetry then
        let rest := connect (s.reopened.logged message).retried fun n => attempts (n + 1)
        (rest.1, .connectCall false :: rest.2)
      else ((s.reopened.logged message).stop (some message),
        [.connectCall false, .gaveUp, .shutdown])
termination_by s._maxRetry - s._retryNum
decreasing_by
  simp only [retried, logged, reopened]
  omega

/-- For a buffer without an element `getAsioBuffer` throws. -/
def write (s : SyncClient) (requestBuffer : MaxAlignedBuffer) (transfer : Transfer) :
    SyncClient × List SocketEvent :=
  match requestBuffer.getPtr with
  | none => (s, [])
  | some _ =>
      match transfer.error requestBuffer.size with
      | some message => (s.stop (some message), [.write false s.socketShut, .shutdown])
      | none => (s, [.write true s.socketShut])

/-- The statements of `readHeader` and `readBody`, which stop where there was no error. -/
def readInto (s : SyncClient) (buffer : MaxAlignedBuffer) (size : ℕ) (transfer : Transfer) :
    SyncClient × MaxAlignedBuffer × List SocketEvent :=
  let buffer := (buffer.setSize size).memcpy 0 (transfer.arrived size)
  match transfer.error size with
  | some _ => (s, buffer, [.read false s.socketShut])
  | none => (s.stop none, buffer, [.read true s.socketShut, .shutdown])

def readHeader (s : SyncClient) (buffer : MaxAlignedBuffer) (transfer : Transfer) :
    SyncClient × MaxAlignedBuffer × List SocketEvent :=
  s.readInto buffer MsgHeader.sizeof transfer

def readBody (s : SyncClient) (buffer : MaxAlignedBuffer) (size : ℕ) (transfer : Transfer) :
    SyncClient × MaxAlignedBuffer × List SocketEvent :=
  s.readInto buffer size transfer

/-- The size that the header buffer announces once its read has returned. -/
def bodySize (order : ByteOrder) (responseHeaderBuffer : MaxAlignedBuffer) (header : Transfer) :
    ℕ :=
  (MsgHeader.ofBytes order ((responseHeaderBuffer.setSize MsgHeader.sizeof).memcpy 0
    (header.arrived MsgHeader.sizeof)).contents).getBodySize

def read (order : ByteOrder) (s : SyncClient)
    (responseHeaderBuffer responseBodyBuffer : MaxAlignedBuffer) (header body : Transfer) :
    SyncClient × (MaxAlignedBuffer × MaxAlignedBuffer) × List SocketEvent :=
  let first := s.readHeader responseHeaderBuffer header
  let second := first.1.readBody responseBodyBuffer
    (MsgHeader.ofBytes order first.2.1.contents).getBodySize body
  (second.1, (first.2.1, second.2.1), first.2.2 ++ second.2.2)

def operate (order : ByteOrder) (s : SyncClient) : ClientOperation → SyncClient × List SocketEvent
  | .connect attempts => s.connect attempts
  | .write requestBuffer transfer => s.write requestBuffer transfer
  | .read responseHeaderBuffer responseBodyBuffer header body =>
      let result := s.read order responseHeaderBuffer responseBodyBuffer header body
      (result.1, result.2.2)
  | .stop => (s.stop none, [.shutdown])

end SyncClient

structure ClientRun where
  client : SyncClient
  performed : List (ClientOperation × List SocketEvent)

namespace ClientRun

def step (order : ByteOrder) (s : ClientRun) (op : ClientOperation) : ClientRun :=
  ⟨(s.client.operate order op).1, s.performed ++ [(op, (s.client.operate order op).2)]⟩

def start (maxRetry : ℕ) : ClientRun := ⟨.created maxRetry, []⟩

/-- The operation was `stop`, or gave up to connect, or not all was transferred. -/
def Failed (performed : ClientOperation × List SocketEvent) : Prop :=
  performed.1 = .stop ∨ .gaveUp ∈ performed.2 ∨
    ∃ event ∈ performed.2, event.isFailedTransfer = true

/-- The socket is shut down by the operations that fail and by no other one, it is not used
after that, and while none has failed it is open. -/
structure KeepsLifeCycle (s : ClientRun) : Prop where
  shutdown_iff : ∀ performed ∈ s.performed, .shutdown ∈ performed.2 ↔ Failed performed
  no_use : ∀ performed ∈ s.performed, ∀ event ∈ performed.2, event.isAfterShutdown = false
  usable : (∀ performed ∈ s.performed, ¬ Failed performed) → s.client.socketShut = false

/-- Reads and writes begin with an open socket, and of a response the header fails to
arrive and the body does not. -/
def Harmless (order : ByteOrder) (s : ClientRun) : ClientOperation → Prop
  | .connect _ => True
  | .stop => True
  | .write requestBuffer _ => requestBuffer.capacity = 0 ∨ s.client.socketShut = false
  | .read responseHeaderBuffer _ header body =>
      s.client.socketShut = false ∧ header.error MsgHeader.sizeof ≠ none ∧
        body.error (SyncClient.bodySize order responseHeaderBuffer header) = none

end ClientRun

namespace SyncClient

/-! ## One operation -/

structure Proper (s : SyncClient) (op : ClientOperation) (result : SyncClient × List SocketEvent) :
    Prop where
  shutdown_iff : .shutdown ∈ result.2 ↔ ClientRun.Failed (op, result.2)
  no_use : ∀ event ∈ result.2, event.isAfterShutdown = false
  shut : result.1.socketShut = true → s.socketShut = true ∨ .shutdown ∈ result.2

/-- However often it tries again, `connect` shuts down exactly when it gives up. -/
theorem connect_events (s : SyncClient) (attempts : ℕ → Attempt) :
    (.shutdown ∈ (s.connect attempts).2 ↔ .gaveUp ∈ (s.connect attempts).2) ∧
      (∀ event ∈ (s.connect attempts).2,
        event.isFailedTransfer = false ∧ event.isAfterShutdown = false) ∧
      ((s.connect attempts).1.socketShut = true →
        s.socketShut = true ∨ .shutdown ∈ (s.connect attempts).2) := by
  induction s, attempts using connect.induct with
  | case1 s attempts hthrows =>
      rw [connect, hthrows]
      simp
  | case2 s attempts hconnected =>
      rw [connect, hconnected]
      simp [SocketEvent.isFailedTransfer, SocketEvent.isAfterShutdown, reopened]
  | case3 s attempts message hfailed hretry ih =>
      rw [connect, hfailed]
      simp only [hretry, if_true]
      obtain ⟨hiff, hevents, hshut⟩ := ih
      refine ⟨by simpa using hiff, ?_, fun hafter => ?_⟩
      · intro event hevent
        rcases List.mem_cons.mp hevent with rfl | hrest
        · exact ⟨rfl, rfl⟩
        · exact hevents event hrest
      · rcases hshut hafter with hbefore | hshutdown
        · exact absurd hbefore (by simp [retried, logged, reopened])
        · exact .inr (List.mem_cons_of_mem _ hshutdown)
  | case4 s attempts message hfailed hretry =>
      rw [connect, hfailed]
      simp [hretry, SocketEvent.isFailedTransfer, SocketEvent.isAfterShutdown]

theorem proper_connect (s : SyncClient) (attempts : ℕ → Attempt) :
    Proper s (.connect attempts) (s.connect attempts) := by
  obtain ⟨hiff, hevents, hshut⟩ := connect_events s attempts
  refine ⟨?_, fun event hevent => (hevents event hevent).2, hshut⟩
  rw [hiff, ClientRun.Failed]
  constructor
  · exact fun hgaveUp => .inr (.inl hgaveUp)
  · rintro (hstop | hgaveUp | ⟨event, hevent, hfailed⟩)
    · cases hstop
    · exact hgaveUp
    · rw [(hevents event hevent).1] at hfailed
      cases hfailed

theorem proper_stop (s : SyncClient) : Proper s .stop (s.stop none, [.shutdown]) := by
  refine ⟨?_, ?_, fun _ => .inr (List.mem_singleton_self _)⟩
  · simp [ClientRun.Failed]
  · simp [SocketEvent.isAfterShutdown]

theorem proper_write {s : SyncClient} {requestBuffer : MaxAlignedBuffer} (transfer : Transfer)
    (hopen : requestBuffer.capacity = 0 ∨ s.socketShut = false) :
    Proper s (.write requestBuffer transfer) (s.write requestBuffer transfer) := by
  rw [write]
  cases hptr : requestBuffer.getPtr with
  | none => constructor <;> simp [ClientRun.Failed]
  | some storage =>
      have hshut : s.socketShut = false := by
        refine hopen.resolve_left fun hzero => ?_
        rw [MaxAlignedBuffer.getPtr_of_zero hzero] at hptr
        cases hptr
      cases herror : transfer.error requestBuffer.size with
      | none =>
          constructor <;> simp [hshut, ClientRun.Failed, SocketEvent.isFailedTransfer,
            SocketEvent.isAfterShutdown]
      | some message =>
          constructor <;> simp [hshut, ClientRun.Failed, SocketEvent.isFailedTransfer,
            SocketEvent.isAfterShutdown]

theorem readInto_of_error (s : SyncClient) (buffer : MaxAlignedBuffer) {size : ℕ}
    {transfer : Transfer} (herror : transfer.error size ≠ none) :
    (s.readInto buffer size transfer).1 = s ∧
      (s.readInto buffer size transfer).2.2 = [.read false s.socketShut] := by
  obtain ⟨message, hmessage⟩ := Option.ne_none_iff_exists'.mp herror
  rw [readInto, hmessage]
  exact ⟨rfl, rfl⟩

theorem readInto_of_complete (s : SyncClient) (buffer : MaxAlignedBuffer) {size : ℕ}
    {transfer : Transfer} (herror : transfer.error size = none) :
    (s.readInto buffer size transfer).1 = s.stop none ∧
      (s.readInto buffer size transfer).2.2 = [.read true s.socketShut, .shutdown] := by
  rw [readInto, herror]
  exact ⟨rfl, rfl⟩

theorem readInto_buffer (s : SyncClient) (buffer : MaxAlignedBuffer) (size : ℕ)
    (transfer : Transfer) : (s.readInto buffer size transfer).2.1 =
      (buffer.setSize size).memcpy 0 (transfer.arrived size) := by
  rw [readInto]
  cases transfer.error size <;> rfl

section

variable (order : ByteOrder) (s : SyncClient) (responseHeaderBuffer responseBodyBuffer :
  MaxAlignedBuffer) {header : Transfer}

theorem announced (header : Transfer) : (MsgHeader.ofBytes order
    (s.readInto responseHeaderBuffer MsgHeader.sizeof header).2.1.contents).getBodySize =
      bodySize order responseHeaderBuffer header := by
  rw [readInto_buffer, bodySize]

theorem read_events_of_complete (hheader : header.error MsgHeader.sizeof = none)
    (body : Transfer) : ∃ ok, SocketEvent.read ok true ∈
      (s.read order responseHeaderBuffer responseBodyBuffer header body).2.2 := by
  obtain ⟨hclient, hevents⟩ := readInto_of_complete s responseHeaderBuffer hheader
  rw [read]
  simp only [readHeader, readBody, hclient, hevents, announced]
  by_cases hbody : body.error (bodySize order responseHeaderBuffer header) = none
  · obtain ⟨_, hrest⟩ := readInto_of_complete (s.stop none) responseBodyBuffer hbody
    rw [hrest]
    exact ⟨true, List.mem_append_right _ List.mem_cons_self⟩
  · obtain ⟨_, hrest⟩ := readInto_of_error (s.stop none) responseBodyBuffer hbody
    rw [hrest]
    exact ⟨false, List.mem_append_right _ List.mem_cons_self⟩

theorem read_of_error {body : Transfer} (hheader : header.error MsgHeader.sizeof ≠ none)
    (hbody : body.error (bodySize order responseHeaderBuffer header) ≠ none) :
    (s.read order responseHeaderBuffer responseBodyBuffer header body).2.2 =
      [.read false s.socketShut, .read false s.socketShut] := by
  obtain ⟨hclient, hevents⟩ := readInto_of_error s responseHeaderBuffer hheader
  obtain ⟨_, hrest⟩ := readInto_of_error s responseBodyBuffer hbody
  rw [read]
  simp only [readHeader, readBody, hclient, hevents, announced, hrest]
  rfl

theorem read_of_body {body : Transfer} (hheader : header.error MsgHeader.sizeof ≠ none)
    (hbody : body.error (bodySize order responseHeaderBuffer header) = none) :
    (s.read order responseHeaderBuffer responseBodyBuffer header body).1 = s.stop none ∧
      (s.read order responseHeaderBuffer responseBodyBuffer header body).2.2 =
        [.read false s.socketShut, .read true s.socketShut, .shutdown] := by
  obtain ⟨hclient, hevents⟩ := readInto_of_error s responseHeaderBuffer hheader
  obtain ⟨hafter, hrest⟩ := readInto_of_complete s responseBodyBuffer hbody
  rw [read]
  simp only [readHeader, readBody, hclient, hevents, announced, hafter, hrest]
  exact ⟨trivial, rfl⟩

end

variable {order : ByteOrder}

theorem proper_of_harmless {s : ClientRun} {op : ClientOperation}
    (hharmless : s.Harmless order op) :
    Proper s.client op (s.client.operate order op) := by
  cases op with
  | connect attempts => exact proper_connect s.client attempts
  | stop => exact proper_stop s.client
  | write requestBuffer transfer => exact proper_write transfer hharmless
  | read responseHeaderBuffer responseBodyBuffer header body =>
      obtain ⟨hopen, hheader, hbody⟩ := hharmless
      obtain ⟨hafter, hevents⟩ := read_of_body order s.client responseHeaderBuffer
        responseBodyBuffer hheader hbody
      rw [operate, hafter, hevents, hopen]
      constructor <;> simp [ClientRun.Failed, SocketEvent.isFailedTransfer,
        SocketEvent.isAfterShutdown]

theorem not_proper_of_harm {s : ClientRun} {op : ClientOperation} (hharm : ¬ s.Harmless order op) :
    (∃ event ∈ (s.client.operate order op).2, event.isAfterShutdown = true) ∨
      ¬ (.shutdown ∈ (s.client.operate order op).2 ↔
        ClientRun.Failed (op, (s.client.operate order op).2)) := by
  cases op with
  | connect attempts => exact absurd trivial hharm
  | stop => exact absurd trivial hharm
  | write requestBuffer transfer =>
      obtain ⟨hcapacity, hshut⟩ := not_or.mp hharm
      rw [Bool.not_eq_false] at hshut
      rw [operate, write, MaxAlignedBuffer.getPtr_of_pos hcapacity, hshut]
      left
      cases transfer.error requestBuffer.size with
      | none => exact ⟨_, List.mem_cons_self, rfl⟩
      | some message => exact ⟨_, List.mem_cons_self, rfl⟩
  | read responseHeaderBuffer responseBodyBuffer header body =>
      rw [operate]
      by_cases hheader : header.error MsgHeader.sizeof = none
      · obtain ⟨ok, hmem⟩ := read_events_of_complete order s.client responseHeaderBuffer
          responseBodyBuffer hheader body
        exact .inl ⟨_, hmem, rfl⟩
      · by_cases hbody : body.error (bodySize order responseHeaderBuffer header) = none
        · have hshut : s.client.socketShut = true := by
            by_contra hopen
            exact hharm ⟨Bool.eq_false_iff.mpr hopen, hheader, hbody⟩
          rw [(read_of_body order s.client responseHeaderBuffer responseBodyBuffer hheader hbody).2,
            hshut]
          exact .inl ⟨_, List.mem_cons_self, rfl⟩
        · rw [read_of_error order s.client responseHeaderBuffer responseBodyBuffer hheader hbody]
          right
          simp [ClientRun.Failed, SocketEvent.isFailedTransfer]

end SyncClient

namespace ClientRun

/-! ## Runs -/

variable {order : ByteOrder} {s : ClientRun}

/-- The rules so far, and an operation to blame for a socket that is shut down. -/
def Inv (s : ClientRun) : Prop :=
  s.KeepsLifeCycle ∧
    (s.client.socketShut = true → ∃ performed ∈ s.performed, .shutdown ∈ performed.2)

theorem inv_start (maxRetry : ℕ) : (start maxRetry).Inv := by
  refine ⟨⟨?_, ?_, fun _ => rfl⟩, fun hshut => by cases hshut⟩ <;>
    exact fun performed hperformed => absurd hperformed List.not_mem_nil

theorem inv_step {op : ClientOperation} (hinv : s.Inv) (hharmless : s.Harmless order op) :
    (s.step order op).Inv := by
  have hproper := SyncClient.proper_of_harmless hharmless
  have hiff : ∀ performed ∈ (s.step order op).performed,
      .shutdown ∈ performed.2 ↔ Failed performed := by
    intro performed hperformed
    rcases List.mem_append.mp hperformed with hbefore | hnow
    · exact hinv.1.shutdown_iff performed hbefore
    · rw [List.mem_singleton.mp hnow]
      exact hproper.shutdown_iff
  have hblame : (s.step order op).client.socketShut = true →
      ∃ performed ∈ (s.step order op).performed, .shutdown ∈ performed.2 := by
    intro hshut
    rcases hproper.shut hshut with hbefore | hnow
    · obtain ⟨performed, hperformed, hmem⟩ := hinv.2 hbefore
      exact ⟨performed, List.mem_append_left _ hperformed, hmem⟩
    · exact ⟨_, List.mem_append_right _ (List.mem_singleton_self _), hnow⟩
  refine ⟨⟨hiff, ?_, fun hnone => ?_⟩, hblame⟩
  · intro performed hperformed
    rcases List.mem_append.mp hperformed with hbefore | hnow
    · exact hinv.1.no_use performed hbefore
    · rw [List.mem_singleton.mp hnow]
      exact hproper.no_use
  · by_contra hshut
    obtain ⟨performed, hperformed, hmem⟩ := hblame (by simpa using hshut)
    exact hnone performed hperformed ((hiff performed hperformed).mp hmem)

theorem not_keepsLifeCycle_step {op : ClientOperation} (hharm : ¬ s.Harmless order op) :
    ¬ (s.step order op).KeepsLifeCycle := by
  intro hkeeps
  have hmem : (op, (s.client.operate order op).2) ∈ (s.step order op).performed :=
    List.mem_append_right _ (List.mem_singleton_self _)
  rcases SyncClient.not_proper_of_harm hharm with ⟨event, hevent, hafter⟩ | hnot
  · rw [hkeeps.no_use _ hmem event hevent] at hafter
    cases hafter
  · exact hnot (hkeeps.shutdown_iff _ hmem)

/-- The life cycle is kept through a run exactly when no operation uses a socket that is
shut down and of every response read the header fails and the body does not. -/
theorem keepsLifeCycle_iff (order : ByteOrder) (maxRetry : ℕ) (operations : List ClientOperation) :
    (∀ first, first <+: operations →
      (run (step order) (start maxRetry) first).KeepsLifeCycle) ↔
      ∀ earlier op later, operations = earlier ++ op :: later →
        (run (step order) (start maxRetry) earlier).Harmless order op :=
  always_iff_of_steps (step order) (start maxRetry) Inv KeepsLifeCycle
    (fun s op => s.Harmless order op) (inv_start maxRetry) (fun _ hinv => hinv.1)
    (fun _ _ => inv_step) (fun _ _ _ => not_keepsLifeCycle_step) operations

/-- One exchange in which everything succeeds. -/
theorem not_keepsLifeCycle_exchange :
    ¬ ∀ (order : ByteOrder) (maxRetry : ℕ) (operations : List ClientOperation),
      (run (step order) (start maxRetry) operations).KeepsLifeCycle := by
  intro hall
  have hkeeps := hall .little 10
    [.connect fun _ => .connected,
      .write (MaxAlignedBuffer.empty.setBuffer [1]) (.complete fun _ => 0),
      .read .empty .empty (.complete fun _ => 0) (.complete fun _ => 0)]
  rw [run_cons, run_cons, run_cons, run_nil] at hkeeps
  refine not_keepsLifeCycle_step (fun hharmless => ?_) hkeeps
  exact hharmless.2.1 rfl

end ClientRun

end CppPlay.DataProvider
