import CppPlay.FixAdapter.MsgFraming
import CppPlay.FixAdapter.NetworkOrder

/-!
# The reader of the trading system's messages

`loadMsg` reads a header and then the body it announces.  Each of the two reads
recovers by itself: it connects again and starts the same read from the front of
the new connection's stream.
-/

namespace CppPlay.FixAdapter

open CppPlay.Lib

/-! ## The socket -/

/-- The reading side of the connector: what the present connection delivers
before it fails, how much of it is read, and how the next calls of `connect` will
end, with a new connection or with an exception. -/
structure Inbound where
  conn : ℕ
  stream : List Byte
  pos : ℕ
  later : List (Option (List Byte))

structure Chunk where
  conn : ℕ
  stream : List Byte
  pos : ℕ
  bytes : List Byte

/-- How a read ends in the calls of `connect` that the run has. -/
inductive Received where
  | done (chunk : Chunk) (s : Inbound)
  | threw (s : Inbound)
  | waiting

/-- `boost::asio::read`, which fails when the stream ends too early. -/
def exactRead (n : ℕ) (s : Inbound) : Option Received :=
  if s.pos + n ≤ s.stream.length then
    some (.done ⟨s.conn, s.stream, s.pos, (s.stream.drop s.pos).take n⟩
      { s with pos := s.pos + n })
  else none

/-- `receive_from_ts`: after a failure `connect` and the same read again.  When
`connect` throws, the socket is closed. -/
def receiveFrom (n conn : ℕ) (stream : List Byte) (pos : ℕ) :
    List (Option (List Byte)) → Received
  | [] => (exactRead n ⟨conn, stream, pos, []⟩).getD .waiting
  | none :: later =>
      (exactRead n ⟨conn, stream, pos, none :: later⟩).getD (.threw ⟨conn + 1, [], 0, later⟩)
  | some next :: later =>
      (exactRead n ⟨conn, stream, pos, some next :: later⟩).getD
        (receiveFrom n (conn + 1) next 0 later)

def receiveFromTs (n : ℕ) (s : Inbound) : Received :=
  receiveFrom n s.conn s.stream s.pos s.later

/-! ## One message -/

structure LoadedMsg where
  header : Chunk
  body : Chunk

def LoadedMsg.bytes (msg : LoadedMsg) : List Byte := msg.header.bytes ++ msg.body.bytes

inductive LoadResult where
  | loaded (msg : LoadedMsg) (s : Inbound)
  | threw (s : Inbound)
  | waiting

variable (api : Espd)

def loadMsg (s : Inbound) : LoadResult :=
  match receiveFromTs sizeofMsgHeader s with
  | .waiting => .waiting
  | .threw s => .threw s
  | .done header s =>
      match receiveFromTs (announcedLength api header.bytes) s with
      | .waiting => .waiting
      | .threw s => .threw s
      | .done body s => .loaded ⟨header, body⟩ s

/-- The reader between two calls of its thread function: the socket and the
buffers handed to the router, the latest first. -/
structure ReaderRun where
  inbound : Inbound
  produced : List LoadedMsg

def ReaderRun.start (stream : List Byte) (later : List (Option (List Byte))) : ReaderRun :=
  ⟨⟨0, stream, 0, later⟩, []⟩

/-- `threadFunction` with a pool that always has a buffer. -/
def ReaderRun.threadFunction (r : ReaderRun) : ReaderRun :=
  match loadMsg api r.inbound with
  | .waiting => r
  | .threw s => { r with inbound := s }
  | .loaded msg s => ⟨s, msg :: r.produced⟩

/-- Header and body are adjacent in one stream and start at a message boundary. -/
structure LoadedMsg.Framed (msg : LoadedMsg) : Prop where
  conn : msg.body.conn = msg.header.conn
  stream : msg.body.stream = msg.header.stream
  adjacent : msg.body.pos = msg.header.pos + sizeofMsgHeader
  boundary : (msgCode api).AtBoundary msg.header.stream msg.header.pos

/-! ## Where a connection may break -/

/-- Behind its whole messages the stream has less than a header. -/
def CutOutsideBody (stream : List Byte) : Prop :=
  ((msgCode api).parse stream).2.length < sizeofMsgHeader

/-- Every connection that another one follows broke outside a body. -/
def CutsOutsideBodies : List Byte → List (Option (List Byte)) → Prop
  | _, [] => True
  | _, none :: later => CutsOutsideBodies [] later
  | stream, some next :: later => CutOutsideBody api stream ∧ CutsOutsideBodies next later

structure Inbound.Aligned (s : Inbound) : Prop where
  boundary : (msgCode api).AtBoundary s.stream s.pos
  cuts : CutsOutsideBodies api s.stream s.later

variable {api}

/-! ## One read -/

theorem exactRead_of_le {n : ℕ} {s : Inbound} (henough : s.pos + n ≤ s.stream.length) :
    exactRead n s = some (.done ⟨s.conn, s.stream, s.pos, (s.stream.drop s.pos).take n⟩
      { s with pos := s.pos + n }) := by
  rw [exactRead, if_pos henough]

theorem exactRead_of_lt {n : ℕ} {s : Inbound} (hshort : s.stream.length < s.pos + n) :
    exactRead n s = none := by
  rw [exactRead, if_neg (not_le.mpr hshort)]

theorem receiveFrom_of_le {n conn : ℕ} {stream : List Byte} {pos : ℕ}
    {later : List (Option (List Byte))} (henough : pos + n ≤ stream.length) :
    receiveFrom n conn stream pos later =
      .done ⟨conn, stream, pos, (stream.drop pos).take n⟩ ⟨conn, stream, pos + n, later⟩ := by
  cases later with
  | nil => rw [receiveFrom, exactRead_of_le henough, Option.getD_some]
  | cons outcome later =>
      cases outcome with
      | none => rw [receiveFrom, exactRead_of_le henough, Option.getD_some]
      | some next => rw [receiveFrom, exactRead_of_le henough, Option.getD_some]

theorem receiveFrom_of_lt {n conn : ℕ} {stream : List Byte} {pos : ℕ}
    {later : List (Option (List Byte))} (hshort : stream.length < pos + n) :
    receiveFrom n conn stream pos later =
      match later with
      | [] => .waiting
      | none :: later => .threw ⟨conn + 1, [], 0, later⟩
      | some next :: later => receiveFrom n (conn + 1) next 0 later := by
  cases later with
  | nil => rw [receiveFrom, exactRead_of_lt hshort, Option.getD_none]
  | cons outcome later =>
      cases outcome with
      | none => rw [receiveFrom, exactRead_of_lt hshort, Option.getD_none]
      | some next => rw [receiveFrom, exactRead_of_lt hshort, Option.getD_none]

theorem receiveFrom_header (conn : ℕ) {stream : List Byte} {pos : ℕ}
    {later : List (Option (List Byte))}
    (hboundary : (msgCode api).AtBoundary stream pos)
    (hcuts : CutsOutsideBodies api stream later) :
    match receiveFrom sizeofMsgHeader conn stream pos later with
    | .waiting => True
    | .threw s => s.Aligned api
    | .done header s =>
        (msgCode api).AtBoundary header.stream header.pos ∧
          header.pos + sizeofMsgHeader ≤ header.stream.length ∧
          header.bytes = (header.stream.drop header.pos).take sizeofMsgHeader ∧
          s.conn = header.conn ∧ s.stream = header.stream ∧
          s.pos = header.pos + sizeofMsgHeader ∧ CutsOutsideBodies api s.stream s.later := by
  induction later generalizing conn stream pos with
  | nil =>
      by_cases henough : pos + sizeofMsgHeader ≤ stream.length
      · rw [receiveFrom_of_le henough]
        exact ⟨hboundary, henough, rfl, rfl, rfl, rfl, hcuts⟩
      · rw [receiveFrom_of_lt (not_le.mp henough)]
        trivial
  | cons outcome later ih =>
      by_cases henough : pos + sizeofMsgHeader ≤ stream.length
      · rw [receiveFrom_of_le henough]
        exact ⟨hboundary, henough, rfl, rfl, rfl, rfl, hcuts⟩
      · cases outcome with
        | none =>
            rw [receiveFrom_of_lt (not_le.mp henough)]
            exact ⟨(msgCode api).atBoundary_zero [], hcuts⟩
        | some next =>
            rw [receiveFrom_of_lt (not_le.mp henough)]
            exact ih _ ((msgCode api).atBoundary_zero next) hcuts.2

/-- A body that follows its header on the same connection: either it is there, or
no connection comes after this one. -/
theorem receiveFrom_body (conn : ℕ) {stream : List Byte} {pos : ℕ}
    {later : List (Option (List Byte))}
    (hboundary : (msgCode api).AtBoundary stream pos)
    (hheader : pos + sizeofMsgHeader ≤ stream.length)
    (hcuts : CutsOutsideBodies api stream later) :
    match receiveFrom (announcedLength api (stream.drop pos)) conn stream
      (pos + sizeofMsgHeader) later with
    | .waiting => True
    | .threw s => s.Aligned api
    | .done body s =>
        body.conn = conn ∧ body.stream = stream ∧ body.pos = pos + sizeofMsgHeader ∧
          s.Aligned api := by
  by_cases henough :
      pos + sizeofMsgHeader + announcedLength api (stream.drop pos) ≤ stream.length
  · rw [receiveFrom_of_le henough]
    refine ⟨rfl, rfl, rfl, ?_, hcuts⟩
    have hsize : (msgCode api).size (stream.drop pos) =
        some (sizeofMsgHeader + announcedLength api (stream.drop pos)) := by
      rw [msgCode, msgSize_eq_some_iff, List.length_drop]
      omega
    have hnext := hboundary.add hsize
    rwa [← Nat.add_assoc] at hnext
  · cases later with
    | nil =>
        rw [receiveFrom_of_lt (not_le.mp henough)]
        trivial
    | cons outcome later =>
        cases outcome with
        | none =>
            rw [receiveFrom_of_lt (not_le.mp henough)]
            exact ⟨(msgCode api).atBoundary_zero [], hcuts⟩
        | some next =>
            have hsize : (msgCode api).size (stream.drop pos) = none := by
              cases hsome : (msgCode api).size (stream.drop pos) with
              | none => rfl
              | some n =>
                  rw [msgCode, msgSize_eq_some_iff, List.length_drop] at hsome
                  omega
            have hcut := hcuts.1
            rw [CutOutsideBody, hboundary.parse_snd hsize, List.length_drop] at hcut
            omega

/-! ## Calls of connect that all succeed -/

theorem receiveFrom_of_connects (n conn : ℕ) (stream : List Byte) (pos : ℕ)
    {later : List (Option (List Byte))} (hconnects : none ∉ later) :
    match receiveFrom n conn stream pos later with
    | .waiting => True
    | .threw _ => False
    | .done _ s => none ∉ s.later := by
  induction later generalizing conn stream pos with
  | nil =>
      by_cases henough : pos + n ≤ stream.length
      · rw [receiveFrom_of_le henough]
        exact hconnects
      · rw [receiveFrom_of_lt (not_le.mp henough)]
        trivial
  | cons outcome later ih =>
      by_cases henough : pos + n ≤ stream.length
      · rw [receiveFrom_of_le henough]
        exact hconnects
      · rw [List.mem_cons, not_or] at hconnects
        cases outcome with
        | none => exact absurd rfl hconnects.1
        | some next =>
            rw [receiveFrom_of_lt (not_le.mp henough)]
            exact ih _ _ _ hconnects.2

variable (api) in
theorem loadMsg_of_connects {s : Inbound} (hconnects : none ∉ s.later) :
    ∀ s', loadMsg api s ≠ .threw s' := by
  intro s'
  have hheader := receiveFrom_of_connects sizeofMsgHeader s.conn s.stream s.pos hconnects
  rw [loadMsg, receiveFromTs]
  cases hfirst : receiveFrom sizeofMsgHeader s.conn s.stream s.pos s.later with
  | waiting => simp
  | threw after =>
      rw [hfirst] at hheader
      exact hheader.elim
  | done header after =>
      rw [hfirst] at hheader
      have hbody := receiveFrom_of_connects (announcedLength api header.bytes) after.conn
        after.stream after.pos hheader
      simp only [receiveFromTs]
      cases hsecond : receiveFrom (announcedLength api header.bytes) after.conn after.stream
          after.pos after.later with
      | waiting => simp
      | threw last =>
          rw [hsecond] at hbody
          exact hbody.elim
      | done body last => simp

/-! ## Runs of the reader -/

theorem loadMsg_aligned {s : Inbound} (haligned : s.Aligned api) :
    match loadMsg api s with
    | .waiting => True
    | .threw s' => s'.Aligned api
    | .loaded msg s' => msg.Framed api ∧ s'.Aligned api := by
  have hheader := receiveFrom_header s.conn haligned.boundary haligned.cuts
  rw [loadMsg, receiveFromTs]
  cases hfirst : receiveFrom sizeofMsgHeader s.conn s.stream s.pos s.later with
  | waiting => trivial
  | threw s' =>
      rw [hfirst] at hheader
      exact hheader
  | done header s' =>
      rw [hfirst] at hheader
      rcases hheader with ⟨hboundary, hroom, hbytes, hconn, hstream, hpos, hcuts⟩
      have hlength : announcedLength api header.bytes =
          announcedLength api (header.stream.drop header.pos) := by
        rw [hbytes, announcedLength_take api le_rfl]
      have hbody := receiveFrom_body s'.conn hboundary hroom (hstream ▸ hcuts)
      simp only [receiveFromTs, hlength, hstream, hpos]
      cases hsecond : receiveFrom (announcedLength api (header.stream.drop header.pos))
          s'.conn header.stream (header.pos + sizeofMsgHeader) s'.later with
      | waiting => trivial
      | threw s'' =>
          rw [hsecond] at hbody
          exact hbody
      | done body s'' =>
          rw [hsecond] at hbody
          rcases hbody with ⟨hsame, hsameStream, hadjacent, haligned'⟩
          exact ⟨⟨hsame.trans hconn, hsameStream, hadjacent, hboundary⟩, haligned'⟩

/-- When no connection that is replaced broke inside a body, every buffer that the
reader hands on is one message of one connection. -/
theorem framed_of_cutsOutsideBodies (api : Espd) (stream : List Byte)
    (later : List (Option (List Byte))) (hcuts : CutsOutsideBodies api stream later)
    (calls : ℕ) :
    ∀ msg ∈ ((ReaderRun.threadFunction api)^[calls] (.start stream later)).produced,
      msg.Framed api := by
  have hinv : ∀ calls, ((ReaderRun.threadFunction api)^[calls]
      (.start stream later)).inbound.Aligned api ∧
      ∀ msg ∈ ((ReaderRun.threadFunction api)^[calls] (.start stream later)).produced,
        msg.Framed api := by
    intro calls
    induction calls with
    | zero => exact ⟨⟨(msgCode api).atBoundary_zero stream, hcuts⟩, by simp [ReaderRun.start]⟩
    | succ calls ih =>
        have hload := loadMsg_aligned ih.1
        rw [Function.iterate_succ_apply', ReaderRun.threadFunction]
        cases hresult : loadMsg api
            ((ReaderRun.threadFunction api)^[calls] (.start stream later)).inbound with
        | waiting => exact ih
        | threw s =>
            rw [hresult] at hload
            exact ⟨hload, ih.2⟩
        | loaded msg s =>
            rw [hresult] at hload
            exact ⟨hload.2, List.forall_mem_cons.mpr ⟨hload.1, ih.2⟩⟩
  exact (hinv calls).2

def headerOfFour : List Byte := [0, 17, 0, 1, 0, 0, 0, 1, 0, 3, 0, 0, 1, 0, 4]

/-- A connection that breaks inside the next header does no harm: the message
behind the break is framed on the new connection. -/
theorem framed_brokenHeader :
    (⟨⟨1, headerOfFour ++ [0, 20, 1, 2], 0, headerOfFour⟩,
      ⟨1, headerOfFour ++ [0, 20, 1, 2], 15, [0, 20, 1, 2]⟩⟩ : LoadedMsg).Framed
        NetworkOrder.espd := by
  have hcuts : CutsOutsideBodies NetworkOrder.espd (headerOfFour ++ [0, 20, 1, 1] ++ [0, 17])
      [some (headerOfFour ++ [0, 20, 1, 2])] := by
    constructor
    · unfold CutOutsideBody
      decide
    · trivial
  exact framed_of_cutsOutsideBodies NetworkOrder.espd _ _ hcuts 2 _ List.mem_cons_self

/-- A connection that breaks behind the header of a message: the body is read from
the front of the next connection. -/
theorem not_framed_brokenBody :
    ¬ ∀ msg ∈ ((ReaderRun.threadFunction NetworkOrder.espd)^[1]
      (.start headerOfFour [some (headerOfFour ++ [0, 20, 1, 2])])).produced,
        msg.Framed NetworkOrder.espd := by
  intro hframed
  have hmsg : (⟨⟨0, headerOfFour, 0, headerOfFour⟩,
      ⟨1, headerOfFour ++ [0, 20, 1, 2], 0, [0, 17, 0, 1]⟩⟩ : LoadedMsg) ∈
      ((ReaderRun.threadFunction NetworkOrder.espd)^[1]
        (.start headerOfFour [some (headerOfFour ++ [0, 20, 1, 2])])).produced :=
    List.mem_singleton_self _
  exact absurd (hframed _ hmsg).conn (by decide)

end CppPlay.FixAdapter
