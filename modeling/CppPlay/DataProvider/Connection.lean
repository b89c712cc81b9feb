import CppPlay.DataProvider.Message
import CppPlay.Lib.Run

/-!
# A connection of the server

The connection reads a header, then the body that it announces, hands both to the
request handler, writes the response, and begins again.  The client's bytes arrive in
pieces of any size, and a read takes any part of what has arrived.
-/

namespace CppPlay.DataProvider

open CppPlay.Lib

/-- What the connection waits for.  `transferred` is how much of the buffer of an
`async_read` is filled. -/
inductive Phase where
  | readingHeader (header : MaxAlignedBuffer) (transferred : ℕ)
  | readingBody (header body : MaxAlignedBuffer) (transferred : ℕ)
  | handling
  | writing
  | stopped

def Phase.rests (unread : List Byte) : Phase → Bool
  | readingHeader _ _ => unread.isEmpty
  | readingBody _ _ _ => unread.isEmpty
  | handling => false
  | writing => false
  | stopped => true

/-- What happens to the connection: bytes arrive, the peer has closed, a read takes up to
`count` bytes, the handler is done (with a response that holds at least a header), or a write
is. -/
inductive Event where
  | arrive (count : ℕ)
  | closed
  | readSome (count : ℕ)
  | handled
  | written (ok : Bool)
  deriving DecidableEq

/-- The connection with its socket: `inFlight` was sent and has not arrived, `unread`
has arrived, and `handed` are the buffers that the request handler got. -/
structure Connection where
  inFlight : List Byte
  unread : List Byte
  peerClosed : Bool
  phase : Phase
  handed : List (MaxAlignedBuffer × MaxAlignedBuffer)

namespace Connection

def stop (s : Connection) : Connection := { s with phase := .stopped }

def readHeader (s : Connection) : Connection :=
  { s with phase := .readingHeader (MaxAlignedBuffer.empty.setSize MsgHeader.sizeof) 0 }

def start (stream : List Byte) : Connection := readHeader ⟨stream, [], false, .stopped, []⟩

/-- A body of no bytes is an error. -/
def readBody (order : ByteOrder) (s : Connection) (header : MaxAlignedBuffer) : Connection :=
  let bodySize := (MsgHeader.ofBytes order header.contents).getBodySize
  if bodySize = 0 then s.stop
  else { s with phase := .readingBody header (MaxAlignedBuffer.empty.setSize bodySize) 0 }

def handleReadHeader (order : ByteOrder) (s : Connection) (header : MaxAlignedBuffer)
    (bytesTransferred : ℕ) : Connection :=
  if bytesTransferred ≠ header.size then s.stop else s.readBody order header

def handleReadBody (s : Connection) (header body : MaxAlignedBuffer) (bytesTransferred : ℕ) :
    Connection :=
  if bytesTransferred ≠ body.size then s.stop
  else { s with phase := .handling, handed := s.handed ++ [(header, body)] }

/-- What a read takes that still lacks `missing` bytes. -/
def taken (s : Connection) (count missing : ℕ) : List Byte := s.unread.take (min count missing)

/-- The read fails: nothing is left and nothing will come. -/
def atEnd (s : Connection) : Bool := s.unread.isEmpty && s.peerClosed

/-- A part of an `async_read`, whose handler is called once the buffer is full. -/
def readSome (order : ByteOrder) (s : Connection) (count : ℕ) : Connection :=
  match s.phase with
  | .readingHeader header transferred =>
      if s.atEnd then s.stop
      else
        let bytes := s.taken count (header.size - transferred)
        let header := header.memcpy transferred bytes
        let transferred := transferred + bytes.length
        let s := { s with unread := s.unread.drop bytes.length }
        if transferred = header.size then s.handleReadHeader order header transferred
        else { s with phase := .readingHeader header transferred }
  | .readingBody header body transferred =>
      if s.atEnd then s.stop
      else
        let bytes := s.taken count (body.size - transferred)
        let body := body.memcpy transferred bytes
        let transferred := transferred + bytes.length
        let s := { s with unread := s.unread.drop bytes.length }
        if transferred = body.size then s.handleReadBody header body transferred
        else { s with phase := .readingBody header body transferred }
  | _ => s

def step (order : ByteOrder) (s : Connection) : Event → Connection
  | .arrive count =>
      { s with
        inFlight := s.inFlight.drop count
        unread := s.unread ++ s.inFlight.take count }
  | .closed => { s with peerClosed := s.inFlight.isEmpty }
  | .readSome count => s.readSome order count
  | .handled =>
      match s.phase with
      | .handling => { s with phase := .writing }
      | _ => s
  | .written ok =>
      match s.phase with
      | .writing => if ok then s.readHeader else s.stop
      | _ => s

def seen (order : ByteOrder) (buffers : MaxAlignedBuffer × MaxAlignedBuffer) :
    MsgHeader × List Byte :=
  (MsgHeader.ofBytes order buffers.1.contents, buffers.2.contents)

/-- All that was sent has arrived, and the connection has read it or has stopped. -/
def AtRest (s : Connection) : Prop := s.inFlight = [] ∧ s.phase.rests s.unread = true

instance (s : Connection) : Decidable s.AtRest := inferInstanceAs (Decidable (_ ∧ _))

end Connection

/-- What the handler owes its calls to: the requests before the first one without a
body. -/
def served (requests : List Request) : List (MsgHeader × List Byte) :=
  (requests.takeWhile fun request => !request.body.isEmpty).map fun request =>
    (request.header, request.body)

theorem served_cons {request : Request} (hbody : request.body ≠ []) (later : List Request) :
    served (request :: later) = (request.header, request.body) :: served later := by
  simp [served, hbody]

theorem served_cons_of_empty {request : Request} (hbody : request.body = [])
    (later : List Request) : served (request :: later) = [] := by
  simp [served, hbody]

namespace Connection

variable {order : ByteOrder}

/-! ## The stream behind the buffers -/

/-- A phase fits the requests that are not handed over if its buffers and what is to come
make up their stream. -/
def PhaseOk (order : ByteOrder) (toCome : List Byte) (rest : List Request) : Phase → Prop
  | .readingHeader header transferred =>
      header.size = MsgHeader.sizeof ∧ transferred < header.size ∧
        header.storage.read 0 transferred ++ toCome = clientStream order rest
  | .readingBody header body transferred =>
      ∃ request later, rest = request :: later ∧
        header.contents = request.header.bytes order ∧ body.size = request.body.length ∧
        transferred < body.size ∧
        body.storage.read 0 transferred ++ toCome = request.body ++ clientStream order later
  | .handling | .writing => toCome = clientStream order rest
  | .stopped => served rest = []

structure Inv (order : ByteOrder) (requests : List Request) (s : Connection) : Prop where
  rest : ∃ rest, served requests = s.handed.map (seen order) ++ served rest ∧
    (∀ request ∈ rest, request.body.length < 2 ^ 32) ∧
    PhaseOk order (s.unread ++ s.inFlight) rest s.phase
  closed : s.peerClosed = true → s.inFlight = []

variable {requests rest : List Request} {s : Connection}

theorem phaseOk_readHeader {toCome : List Byte} (htoCome : toCome = clientStream order rest) :
    PhaseOk order toCome rest
      (.readingHeader (MaxAlignedBuffer.empty.setSize MsgHeader.sizeof) 0) := by
  refine ⟨rfl, Nat.succ_pos _, ?_⟩
  rw [Memory.read_zero, List.nil_append, htoCome]

theorem start_inv (hbodies : ∀ request ∈ requests, request.body.length < 2 ^ 32) :
    (start (clientStream order requests)).Inv order requests := by
  refine ⟨⟨requests, rfl, hbodies, ?_⟩, ?_⟩
  · exact phaseOk_readHeader rfl
  · intro hclosed
    exact absurd hclosed (by simp [start, readHeader])

theorem taken_append (s : Connection) (count missing : ℕ) :
    s.taken count missing ++ s.unread.drop (s.taken count missing).length = s.unread :=
  List.prefix_iff_eq_append.mp (List.take_prefix _ _)

theorem length_taken_le (s : Connection) (count missing : ℕ) :
    (s.taken count missing).length ≤ missing := by
  unfold taken
  rw [List.length_take]
  omega

/-- At the end of the stream no part of a message is missing. -/
theorem eq_nil_of_length_lt (order : ByteOrder)
    (hlength : (clientStream order rest).length < MsgHeader.sizeof) :
    rest = [] := by
  cases rest with
  | nil => rfl
  | cons request later =>
      rw [clientStream_cons, List.length_append, MsgHeader.length_bytes] at hlength
      omega

theorem Inv.toCome_of_atEnd (hinv : s.Inv order requests) (hend : s.atEnd = true) :
    s.unread ++ s.inFlight = [] := by
  unfold atEnd at hend
  rw [Bool.and_eq_true, List.isEmpty_iff] at hend
  rw [hend.1, hinv.closed hend.2]
  rfl

/-- A full header is that of the next request, and the body that it announces is next. -/
theorem readBody_inv {header : MaxAlignedBuffer}
    (hserved : served requests = s.handed.map (seen order) ++ served rest)
    (hbodies : ∀ request ∈ rest, request.body.length < 2 ^ 32)
    (hclosed : s.peerClosed = true → s.inFlight = [])
    (hsize : header.size = MsgHeader.sizeof)
    (hstream : header.contents ++ (s.unread ++ s.inFlight) = clientStream order rest) :
    (s.readBody order header).Inv order requests := by
  cases rest with
  | nil =>
      have hlength := congrArg List.length hstream
      rw [List.length_append, MaxAlignedBuffer.length_contents, hsize] at hlength
      simp [clientStream, MsgHeader.sizeof] at hlength
  | cons request later =>
      rw [clientStream_cons] at hstream
      obtain ⟨hheader, htoCome⟩ := List.append_inj hstream (by simp [hsize])
      have hbody : (MsgHeader.ofBytes order header.contents).getBodySize = request.body.length := by
        rw [hheader, MsgHeader.ofBytes_bytes,
          Request.getBodySize_header (hbodies request List.mem_cons_self)]
      unfold readBody
      rw [hbody]
      by_cases hempty : request.body = []
      · rw [if_pos (by simp [hempty])]
        exact ⟨⟨_, hserved, hbodies, served_cons_of_empty hempty later⟩, hclosed⟩
      · have hpos : 0 < request.body.length := List.length_pos_iff.mpr hempty
        rw [if_neg hpos.ne']
        refine ⟨⟨_, hserved, hbodies, request, later, rfl, hheader, rfl, hpos, ?_⟩, hclosed⟩
        rw [Memory.read_zero, List.nil_append, htoCome]

/-- A read moves bytes into the buffer and leaves the stream as a whole alone. -/
theorem read_append_toCome (s : Connection) (buffer : MaxAlignedBuffer) (transferred count : ℕ) :
    (buffer.memcpy transferred (s.taken count (buffer.size - transferred))).storage.read 0
        (transferred + (s.taken count (buffer.size - transferred)).length) ++
      (s.unread.drop (s.taken count (buffer.size - transferred)).length ++ s.inFlight) =
      buffer.storage.read 0 transferred ++ (s.unread ++ s.inFlight) := by
  have htaken := s.taken_append count (buffer.size - transferred)
  rw [buffer.read_memcpy, List.append_assoc, ← List.append_assoc (s.taken _ _), htaken]

theorem readSome_header_inv (hinv : s.Inv order requests) {header : MaxAlignedBuffer}
    {transferred : ℕ} (hphase : s.phase = .readingHeader header transferred) (count : ℕ) :
    (s.readSome order count).Inv order requests := by
  obtain ⟨⟨rest, hserved, hbodies, hok⟩, hclosed⟩ := id hinv
  rw [hphase] at hok
  obtain ⟨hsize, hlt, hstream⟩ := hok
  simp only [readSome, hphase]
  by_cases hend : s.atEnd = true
  · rw [if_pos hend]
    have hrest : rest = [] := by
      apply eq_nil_of_length_lt order
      rw [← hstream, hinv.toCome_of_atEnd hend, List.append_nil, Memory.length_read, ← hsize]
      exact hlt
    exact ⟨⟨rest, hserved, hbodies, by simp [PhaseOk, stop, hrest, served]⟩, hclosed⟩
  · rw [if_neg hend]
    have hnext := (s.read_append_toCome header transferred count).trans hstream
    have hle := s.length_taken_le count (header.size - transferred)
    generalize s.taken count (header.size - transferred) = bytes at hnext hle
    by_cases hfull : transferred + bytes.length = (header.memcpy transferred bytes).size
    · rw [if_pos hfull]
      unfold handleReadHeader
      rw [if_neg (not_not.mpr hfull)]
      rw [hfull] at hnext
      exact readBody_inv hserved hbodies hclosed hsize hnext
    · rw [if_neg hfull]
      have hmissing : transferred + bytes.length < header.size :=
        lt_of_le_of_ne (by omega) hfull
      exact ⟨⟨rest, hserved, hbodies, hsize, hmissing, hnext⟩, hclosed⟩

theorem readSome_body_inv (hinv : s.Inv order requests) {header body : MaxAlignedBuffer}
    {transferred : ℕ} (hphase : s.phase = .readingBody header body transferred) (count : ℕ) :
    (s.readSome order count).Inv order requests := by
  obtain ⟨⟨rest, hserved, hbodies, hok⟩, hclosed⟩ := id hinv
  rw [hphase] at hok
  obtain ⟨request, later, hrest, hheader, hsize, hlt, hstream⟩ := hok
  simp only [readSome, hphase]
  by_cases hend : s.atEnd = true
  · -- the rest of the body cannot be missing
    have hlength := congrArg List.length hstream
    rw [hinv.toCome_of_atEnd hend, List.append_nil, Memory.length_read, List.length_append]
      at hlength
    omega
  · rw [if_neg hend]
    have hnext := (s.read_append_toCome body transferred count).trans hstream
    have hle := s.length_taken_le count (body.size - transferred)
    generalize s.taken count (body.size - transferred) = bytes at hnext hle
    by_cases hfull : transferred + bytes.length = (body.memcpy transferred bytes).size
    · rw [if_pos hfull]
      unfold handleReadBody
      rw [if_neg (not_not.mpr hfull)]
      rw [hfull] at hnext
      obtain ⟨hcontents, htoCome⟩ := List.append_inj hnext (by simp [hsize])
      have hnonempty : request.body ≠ [] := List.length_pos_iff.mp (by omega)
      have hseen : seen order (header, body.memcpy transferred bytes) =
          (request.header, request.body) := by
        unfold seen
        rw [hheader, MsgHeader.ofBytes_bytes]
        exact congrArg _ hcontents
      refine ⟨⟨later, ?_, ?_, htoCome⟩, hclosed⟩
      · rw [hserved, hrest, served_cons hnonempty, List.map_append, List.map_singleton, hseen,
          List.append_assoc, List.singleton_append]
      · intro other hmem
        exact hbodies other (hrest ▸ List.mem_cons_of_mem _ hmem)
    · rw [if_neg hfull]
      have hmissing : transferred + bytes.length < body.size := lt_of_le_of_ne (by omega) hfull
      exact ⟨⟨rest, hserved, hbodies, request, later, hrest, hheader, hsize, hmissing, hnext⟩,
        hclosed⟩

theorem step_inv (hinv : s.Inv order requests) {event : Event} (hwrite : event ≠ .written false) :
    (s.step order event).Inv order requests := by
  obtain ⟨⟨rest, hserved, hbodies, hok⟩, hclosed⟩ := id hinv
  cases event with
  | arrive count =>
      refine ⟨⟨rest, hserved, hbodies, ?_⟩, ?_⟩
      · simpa only [step, List.append_assoc, List.take_append_drop] using hok
      · intro hpeer
        simp [step, hclosed hpeer]
  | closed =>
      refine ⟨⟨rest, hserved, hbodies, hok⟩, ?_⟩
      exact fun hpeer => List.isEmpty_iff.mp hpeer
  | readSome count =>
      cases hphase : s.phase with
      | readingHeader header transferred => exact readSome_header_inv hinv hphase count
      | readingBody header body transferred => exact readSome_body_inv hinv hphase count
      | handling => simpa only [step, readSome, hphase] using hinv
      | writing => simpa only [step, readSome, hphase] using hinv
      | stopped => simpa only [step, readSome, hphase] using hinv
  | handled =>
      cases hphase : s.phase with
      | handling =>
          simp only [step, hphase]
          rw [hphase] at hok
          exact ⟨⟨rest, hserved, hbodies, hok⟩, hclosed⟩
      | _ => simpa only [step, hphase] using hinv
  | written ok =>
      cases ok with
      | false => exact absurd rfl hwrite
      | true =>
          cases hphase : s.phase with
          | writing =>
              simp only [step, hphase, if_true]
              rw [hphase] at hok
              exact ⟨⟨rest, hserved, hbodies, phaseOk_readHeader hok⟩, hclosed⟩
          | _ => simpa only [step, hphase] using hinv

/-! ## Coming to rest -/

/-- The bytes that a step may still move, and what follows a full body. -/
def rank (s : Connection) : ℕ :=
  4 * s.inFlight.length + 3 * s.unread.length +
    match s.phase with
    | .handling => 2
    | .writing => 1
    | _ => 0

theorem rank_handleReadHeader (s : Connection) (header : MaxAlignedBuffer) (transferred : ℕ) :
    (s.handleReadHeader order header transferred).rank =
      4 * s.inFlight.length + 3 * s.unread.length := by
  unfold handleReadHeader readBody
  by_cases hfull : transferred ≠ header.size
  · simp [hfull, stop, rank]
  · by_cases hzero : (MsgHeader.ofBytes order header.contents).getBodySize = 0
    · simp [hfull, hzero, stop, rank]
    · simp [hfull, hzero, rank]

theorem rank_handleReadBody_le (s : Connection) (header body : MaxAlignedBuffer)
    (transferred : ℕ) : (s.handleReadBody header body transferred).rank ≤
      4 * s.inFlight.length + 3 * s.unread.length + 2 := by
  unfold handleReadBody
  by_cases hfull : transferred ≠ body.size
  · simp [hfull, stop, rank]
  · simp [hfull, rank]

theorem length_taken_one {missing : ℕ} (hunread : s.unread ≠ []) (hmissing : 0 < missing) :
    (s.taken 1 missing).length = 1 := by
  have hpos : 0 < s.unread.length := List.length_pos_iff.mpr hunread
  unfold taken
  rw [List.length_take]
  omega

theorem rank_readSome_lt (hinv : s.Inv order requests) (hunread : s.unread ≠ [])
    (hreading : (∃ header transferred, s.phase = .readingHeader header transferred) ∨
      ∃ header body transferred, s.phase = .readingBody header body transferred) :
    (s.readSome order 1).rank < s.rank := by
  obtain ⟨⟨rest, _, _, hok⟩, _⟩ := hinv
  have hnotEnd : ¬ s.atEnd = true := by simp [atEnd, hunread]
  have hpos : 0 < s.unread.length := List.length_pos_iff.mpr hunread
  have hdrop : (s.unread.drop 1).length = s.unread.length - 1 := List.length_drop
  rcases hreading with ⟨header, transferred, hphase⟩ | ⟨header, body, transferred, hphase⟩
  · rw [hphase] at hok
    have hone : (s.taken 1 (header.size - transferred)).length = 1 :=
      length_taken_one hunread (Nat.sub_pos_of_lt hok.2.1)
    have hrank : s.rank = 4 * s.inFlight.length + 3 * s.unread.length := by simp [rank, hphase]
    simp only [readSome, hphase, if_neg hnotEnd, hone]
    by_cases hfull : transferred + 1 =
        (header.memcpy transferred (s.taken 1 (header.size - transferred))).size
    · rw [if_pos hfull, rank_handleReadHeader, hrank]
      show 4 * s.inFlight.length + 3 * (s.unread.drop 1).length < _
      omega
    · rw [if_neg hfull, hrank]
      show 4 * s.inFlight.length + 3 * (s.unread.drop 1).length + 0 < _
      omega
  · rw [hphase] at hok
    obtain ⟨_, _, _, _, _, hlt, _⟩ := hok
    have hone : (s.taken 1 (body.size - transferred)).length = 1 :=
      length_taken_one hunread (Nat.sub_pos_of_lt hlt)
    have hrank : s.rank = 4 * s.inFlight.length + 3 * s.unread.length := by simp [rank, hphase]
    simp only [readSome, hphase, if_neg hnotEnd, hone]
    by_cases hfull : transferred + 1 =
        (body.memcpy transferred (s.taken 1 (body.size - transferred))).size
    · rw [if_pos hfull]
      apply (rank_handleReadBody_le _ _ _ _).trans_lt
      rw [hrank]
      show 4 * s.inFlight.length + 3 * (s.unread.drop 1).length + 2 < _
      omega
    · rw [if_neg hfull, hrank]
      show 4 * s.inFlight.length + 3 * (s.unread.drop 1).length + 0 < _
      omega

theorem exists_event_of_not_atRest (hinv : s.Inv order requests) (hbusy : ¬ s.AtRest) :
    ∃ event, event ≠ .written false ∧ (s.step order event).rank < s.rank := by
  by_cases harrived : s.inFlight = []
  · have hphase : ¬ s.phase.rests s.unread = true := fun hrest => hbusy ⟨harrived, hrest⟩
    cases hcase : s.phase with
    | readingHeader header transferred =>
        have hunread : s.unread ≠ [] := by simpa [hcase, Phase.rests] using hphase
        exact ⟨.readSome 1, by simp, rank_readSome_lt hinv hunread (.inl ⟨_, _, hcase⟩)⟩
    | readingBody header body transferred =>
        have hunread : s.unread ≠ [] := by simpa [hcase, Phase.rests] using hphase
        exact ⟨.readSome 1, by simp, rank_readSome_lt hinv hunread (.inr ⟨_, _, _, hcase⟩)⟩
    | handling => exact ⟨.handled, by simp, by simp [step, rank, hcase]⟩
    | writing => exact ⟨.written true, by simp, by simp [step, rank, hcase, readHeader]⟩
    | stopped => exact absurd (by simp [hcase, Phase.rests]) hphase
  · have hpos : 0 < s.inFlight.length := List.length_pos_iff.mpr harrived
    refine ⟨.arrive 1, by simp, ?_⟩
    simp only [step, rank, List.length_append, List.length_take, List.length_drop]
    omega

/-- Whatever happened so far, the connection can come to rest. -/
theorem exists_atRest (hinv : s.Inv order requests) :
    ∃ later, .written false ∉ later ∧ (run (step order) s later).AtRest := by
  obtain ⟨later, hwrites, hrest⟩ := exists_run_of_rank (step order) (Inv order requests) AtRest
    (fun event => event ≠ .written false) rank (fun _ _ hinv hwrite => step_inv hinv hwrite)
    (fun _ hinv hbusy => exists_event_of_not_atRest hinv hbusy) hinv
  exact ⟨later, fun hfails => hwrites _ hfails rfl, hrest⟩

theorem Inv.handed_of_atRest (hinv : s.Inv order requests) (hrest : s.AtRest) :
    s.handed.map (seen order) = served requests := by
  obtain ⟨⟨rest, hserved, _, hok⟩, _⟩ := hinv
  obtain ⟨harrived, hphase⟩ := hrest
  have hnone : served rest = [] := by
    cases hcase : s.phase with
    | readingHeader header transferred =>
        have hunread : s.unread = [] := by simpa [hcase, Phase.rests] using hphase
        rw [hcase] at hok
        obtain ⟨hsize, hlt, hstream⟩ := hok
        rw [hunread, harrived, List.append_nil, List.append_nil] at hstream
        have hempty : rest = [] := by
          apply eq_nil_of_length_lt order
          rw [← hstream, Memory.length_read, ← hsize]
          exact hlt
        rw [hempty]
        rfl
    | readingBody header body transferred =>
        have hunread : s.unread = [] := by simpa [hcase, Phase.rests] using hphase
        rw [hcase] at hok
        obtain ⟨request, later, _, _, hsize, hlt, hstream⟩ := hok
        have hlength := congrArg List.length hstream
        rw [hunread, harrived, List.append_nil, List.append_nil, Memory.length_read,
          List.length_append] at hlength
        omega
    | handling => exact absurd hphase (by simp [hcase, Phase.rests])
    | writing => exact absurd hphase (by simp [hcase, Phase.rests])
    | stopped =>
        rw [hcase] at hok
        exact hok
  rw [hserved, hnone, List.append_nil]

/-- The handler gets the requests before the first one without a body, in their order, and
has got all of them when the connection is at rest, to which it can always come. -/
theorem handed_requests (order : ByteOrder) (requests : List Request)
    (hbodies : ∀ request ∈ requests, request.body.length < 2 ^ 32) (events : List Event)
    (hwrites : .written false ∉ events) :
    let s := run (step order) (start (clientStream order requests)) events
    s.handed.map (seen order) <+: served requests ∧
      (s.AtRest → s.handed.map (seen order) = served requests) ∧
      ∃ later, .written false ∉ later ∧ (run (step order) s later).AtRest := by
  intro s
  have hinv : s.Inv order requests := by
    apply run_invariant_of_ok (step order) _ (fun _ s => s.Inv order requests)
      (fun _ event => event ≠ .written false) (start_inv hbodies)
      (fun _ _ hinv hwrite => step_inv hinv hwrite) _ _ (List.prefix_refl events)
    rintro earlier event later rfl hfails
    exact hwrites (by simp [hfails])
  refine ⟨?_, hinv.handed_of_atRest, exists_atRest hinv⟩
  obtain ⟨⟨rest, hserved, _, _⟩, _⟩ := hinv
  rw [hserved]
  exact List.prefix_append _ _

/-- Two requests arrive in pieces of five bytes, and each read takes three. -/
def twoRequests : List Request := [⟨7, [1, 2]⟩, ⟨8, [3]⟩]

def inPieces : List Event :=
  (List.replicate 8 [.arrive 5, .readSome 3, .readSome 3, .handled, .written true]).flatten

theorem handed_requests_inPieces :
    let s := run (step .little) (start (clientStream .little twoRequests)) inPieces
    s.AtRest ∧ s.handed.map (seen .little) = [(⟨2, 7⟩, [1, 2]), (⟨1, 8⟩, [3])] ∧
      s.handed.map (seen .little) <+: served twoRequests := by
  have hrequests := handed_requests .little twoRequests (by decide) inPieces (by decide)
  exact ⟨by decide +kernel, by decide +kernel, hrequests.1⟩

def emptyBody : List Request := [⟨7, []⟩]

theorem not_handed_emptyBody :
    let s := run (step .little) (start (clientStream .little emptyBody)) [.arrive 8, .readSome 8]
    s.AtRest ∧ s.handed.map (seen .little) ≠
      emptyBody.map fun request => (request.header, request.body) :=
  ⟨by decide +kernel, by decide +kernel⟩

end Connection

end CppPlay.DataProvider
