import Mathlib
import CppPlay.Proxygen.ContentLength

/-!
# Compressed responses

The compression filter stands between a handler and the client.  It holds back the
headers of a complete response until it knows the compressed length, and it swallows the
chunk headers of a response in chunks to send those of the compressed chunks.  What the
client reads must be what the handler said.
-/

namespace CppPlay.Proxygen

/-- What a filter hands down. -/
inductive Egress where
  | call (call : DownstreamCall)
  | sendAbort
  deriving DecidableEq

namespace Headers

/-- The value of a header that is there once. -/
def getSingleOrEmpty (headers : Headers) (name : String) : String :=
  match headers.fields.filter (lowerName ·.1 == lowerName name) with
  | [field] => field.2
  | _ => ""

theorem getSingleOrEmpty_set (headers : Headers) (name value : String) :
    (headers.set name value).getSingleOrEmpty name = value := by
  have hnone : (headers.fields.filter (lowerName ·.1 != lowerName name)).filter
      (lowerName ·.1 == lowerName name) = [] := by
    rw [List.filter_filter, List.filter_eq_nil_iff]
    simp
  simp [getSingleOrEmpty, set, add, hnone]

theorem getSingleOrEmpty_add_of_ne (headers : Headers) {name other : String} (value : String)
    (hne : lowerName other ≠ lowerName name) :
    (headers.add other value).getSingleOrEmpty name = headers.getSingleOrEmpty name := by
  simp [getSingleOrEmpty, add, hne]

theorem getSingleOrEmpty_set_of_ne (headers : Headers) {name other : String} (value : String)
    (hne : lowerName other ≠ lowerName name) :
    (headers.set other value).getSingleOrEmpty name = headers.getSingleOrEmpty name := by
  have hkept : (headers.fields.filter (lowerName ·.1 != lowerName other)).filter
      (lowerName ·.1 == lowerName name) =
        headers.fields.filter (lowerName ·.1 == lowerName name) := by
    rw [List.filter_filter]
    apply List.filter_congr
    intro field _
    by_cases hname : lowerName field.1 = lowerName name
    · simp [hname, Ne.symm hne]
    · simp [hname]
  simp [getSingleOrEmpty, set, add, hkept, hne]

end Headers

/-! ## Building a response -/

/-- The builder with what it has handed to its handler. -/
structure ResponseBuilder where
  headers : Option Headers
  body : Option (List Byte)
  sendEOM : Bool
  calls : List DownstreamCall

inductive BuilderOp where
  | status (code : ℕ) (message : String)
  | header (name value : String)
  | body (bodyIn : List Byte)
  | send
  | sendWithEOM

namespace ResponseBuilder

def start : ResponseBuilder := ⟨none, none, false, []⟩

/-- By default chunked; a complete response goes with a Content-Length instead. -/
def chunked (b : ResponseBuilder) : Bool := !(b.headers.isSome && b.sendEOM)

def headerCalls (b : ResponseBuilder) : List DownstreamCall :=
  match b.headers with
  | none => []
  | some headers =>
      if 200 ≤ headers.statusCode then
        if b.chunked then [.sendHeaders { headers with isChunked := true }]
        else
          [.sendHeaders (headers.add "Content-Length" (Nat.repr (b.body.getD []).length))]
      else [.sendHeaders headers]

def bodyCalls (b : ResponseBuilder) : List DownstreamCall :=
  match b.body with
  | none => []
  | some body =>
      if b.chunked then [.sendChunkHeader body.length, .sendBody body, .sendChunkTerminator]
      else [.sendBody body]

def send (b : ResponseBuilder) : ResponseBuilder :=
  { b with
    headers := none
    body := none
    calls := b.calls ++ b.headerCalls ++ b.bodyCalls ++ if b.sendEOM then [.sendEOM] else [] }

/-- A header without a status before it fails a check. -/
def step (b : ResponseBuilder) : BuilderOp → Option ResponseBuilder
  | .status code message =>
      some { b with
        headers := some { Headers.make with statusCode := code, statusMessage := message } }
  | .header name value =>
      b.headers.map fun headers => { b with headers := some (headers.add name value) }
  | .body bodyIn => some { b with body := some (b.body.getD [] ++ bodyIn) }
  | .send => some b.send
  | .sendWithEOM => some { b with sendEOM := true }.send

def run (b : ResponseBuilder) (ops : List BuilderOp) : Option ResponseBuilder := ops.foldlM step b

end ResponseBuilder

/-- A response as it is built: the bodies that were added before each `send`, and those
before `sendWithEOM`. -/
structure Reply where
  code : ℕ
  message : String
  fields : List (String × String)
  rounds : List (List (List Byte))
  last : List (List Byte)

namespace Reply

def ops (r : Reply) : List BuilderOp :=
  .status r.code r.message :: r.fields.map (fun field => .header field.1 field.2) ++
    r.rounds.flatMap (fun bodies => bodies.map .body ++ [.send]) ++
    r.last.map .body ++ [.sendWithEOM]

def headers (r : Reply) : Headers := ⟨r.code, r.message, r.fields, false⟩

/-- The bodies that go out in a chunk of their own. -/
def chunks (r : Reply) : List (List Byte) :=
  ((r.rounds ++ [r.last]).filter (!·.isEmpty)).map List.flatten

def body (r : Reply) : List Byte := (r.rounds ++ [r.last]).flatten.flatten

def chunkCalls (body : List Byte) : List DownstreamCall :=
  [.sendChunkHeader body.length, .sendBody body, .sendChunkTerminator]

/-- What the builder hands down for the response. -/
def calls (r : Reply) : List DownstreamCall :=
  if r.rounds.isEmpty then
    .sendHeaders (r.headers.add "Content-Length" (Nat.repr r.body.length)) ::
      (if r.last.isEmpty then [] else [.sendBody r.last.flatten]) ++ [.sendEOM]
  else
    .sendHeaders { r.headers with isChunked := true } :: r.chunks.flatMap chunkCalls ++ [.sendEOM]

end Reply

namespace ResponseBuilder

variable {b : ResponseBuilder}

theorem run_append (ops ops' : List BuilderOp) :
    b.run (ops ++ ops') = (b.run ops).bind fun b' => b'.run ops' := by
  rw [run, List.foldlM_append]
  rfl

theorem run_cons (op : BuilderOp) (ops : List BuilderOp) :
    b.run (op :: ops) = (b.step op).bind fun b' => b'.run ops := rfl

theorem run_headers {headers : Headers} (hheaders : b.headers = some headers)
    (fields : List (String × String)) :
    b.run (fields.map fun field => .header field.1 field.2) =
      some { b with headers := some { headers with fields := headers.fields ++ fields } } := by
  induction fields generalizing b headers with
  | nil => simp [run, ← hheaders]
  | cons field fields ih =>
      rw [List.map_cons, run_cons]
      simp only [step, hheaders, Option.map_some, Option.bind_some]
      rw [ih rfl]
      simp [Headers.add]

/-- The bodies that were added since the last `send`. -/
def bodyOf (bodies : List (List Byte)) : Option (List Byte) :=
  if bodies.isEmpty then none else some bodies.flatten

theorem run_bodies (hbody : b.body = none) (bodies : List (List Byte)) :
    b.run (bodies.map .body) = some { b with body := bodyOf bodies } := by
  induction bodies using List.reverseRecOn with
  | nil => simp [run, bodyOf, ← hbody]
  | append_singleton bodies body ih =>
      rw [List.map_append, run_append, ih]
      cases bodies <;> simp [run, step, bodyOf]

theorem run_round (hbody : b.body = none) (bodies : List (List Byte)) :
    b.run (bodies.map .body ++ [.send]) = some { b with body := bodyOf bodies }.send := by
  rw [run_append, run_bodies hbody]
  simp [run, step]

theorem calls_round (bodies : List (List Byte)) (calls : List DownstreamCall) :
    (⟨none, bodyOf bodies, false, calls⟩ : ResponseBuilder).send =
      ⟨none, none, false,
        calls ++ (([bodies].filter (!·.isEmpty)).map List.flatten).flatMap Reply.chunkCalls⟩ := by
  cases bodies <;> simp [send, headerCalls, bodyCalls, chunked, bodyOf, Reply.chunkCalls]

/-- The rounds after the headers are gone. -/
theorem run_rounds (calls : List DownstreamCall) (rounds : List (List (List Byte))) :
    (⟨none, none, false, calls⟩ : ResponseBuilder).run
        (rounds.flatMap fun bodies => bodies.map .body ++ [.send]) =
      some ⟨none, none, false,
        calls ++ ((rounds.filter (!·.isEmpty)).map List.flatten).flatMap Reply.chunkCalls⟩ := by
  induction rounds generalizing calls with
  | nil => simp [run]
  | cons bodies rounds ih =>
      rw [List.flatMap_cons, run_append, run_round rfl, calls_round, Option.bind_some, ih,
        List.append_assoc, ← List.flatMap_append, ← List.map_append, ← List.filter_append,
        List.singleton_append]

/-- What the builder has handed down when it is through with the response. -/
theorem run_reply (r : Reply) (hcode : 200 ≤ r.code) :
    (start.run r.ops).map calls = some r.calls := by
  have hheaders : start.run (.status r.code r.message ::
      r.fields.map fun field => .header field.1 field.2) =
        some ⟨some r.headers, none, false, []⟩ := by
    rw [run_cons]
    simp only [step, Option.bind_some]
    rw [run_headers rfl]
    simp [Headers.make, start, Reply.headers]
  rw [Reply.ops, List.append_assoc, List.append_assoc, run_append, hheaders, Option.bind_some,
    Reply.calls, run_append]
  cases hrounds : r.rounds with
  | nil =>
      simp only [List.flatMap_nil, run, List.foldlM_nil, Option.pure_def, Option.bind_some]
      rw [← run, run_append, run_bodies rfl, Option.bind_some]
      cases hlast : r.last <;>
        simp [run, step, send, headerCalls, bodyCalls, chunked, bodyOf, Reply.body, Reply.headers,
          hrounds, hlast, hcode]
  | cons bodies rounds =>
      have hfirst : (⟨some r.headers, bodyOf bodies, false, []⟩ : ResponseBuilder).send =
          ⟨none, none, false, .sendHeaders { r.headers with isChunked := true } ::
            (([bodies].filter (!·.isEmpty)).map List.flatten).flatMap Reply.chunkCalls⟩ := by
        cases bodies <;>
          simp [send, headerCalls, bodyCalls, chunked, bodyOf, Reply.chunkCalls, Reply.headers,
            hcode]
      have hlast : ∀ calls, (⟨none, bodyOf r.last, true, calls⟩ : ResponseBuilder).send.calls =
          calls ++ (([r.last].filter (!·.isEmpty)).map List.flatten).flatMap Reply.chunkCalls ++
            [.sendEOM] := by
        intro calls
        cases r.last <;> simp [send, headerCalls, bodyCalls, chunked, bodyOf, Reply.chunkCalls]
      rw [List.flatMap_cons, run_append, run_round rfl, hfirst, Option.bind_some, run_rounds,
        Option.bind_some, run_append, run_bodies rfl, Option.bind_some]
      simp only [run, List.foldlM_cons, List.foldlM_nil, step, Option.bind_eq_bind,
        Option.bind_some, Option.pure_def, Option.map_some, hlast]
      have hsplit : bodies :: rounds ++ [r.last] = [bodies] ++ rounds ++ [r.last] := rfl
      rw [Reply.chunks, hrounds, hsplit, List.filter_append, List.filter_append, List.map_append,
        List.map_append, List.flatMap_append, List.flatMap_append]
      simp only [List.isEmpty_cons, Bool.false_eq_true, if_false, List.cons_append]

end ResponseBuilder

/-! ## The filter -/

/-- The compressor, which is no part of this repository. -/
structure ZlibStreamCompressor (σ : Type) where
  make : σ
  hasError : σ → Bool
  compress : σ → List Byte → Bool → σ × List Byte

structure ZlibConfig where
  minimumCompressionSize : ℕ
  compressibleContentTypes : List String

structure ZlibServerFilter (σ : Type) where
  responseMessage : Option Headers
  compressor : Option σ
  header : Bool
  chunked : Bool
  compress : Bool

namespace ZlibServerFilter

def start {σ : Type} : ZlibServerFilter σ := ⟨none, none, false, false, false⟩

/-- The conversion of the header throws when it is no number of 32 bits. -/
def isMinimumCompressibleSize (config : ZlibConfig) (msg : Headers) : Option Bool :=
  let contentLengthHeader := msg.getSingleOrEmpty "Content-Length"
  if contentLengthHeader = "" then some (decide (config.minimumCompressionSize < 0))
  else
    match contentLengthHeader.toNat? with
    | none => none
    | some contentLength =>
        if contentLength < 2 ^ 32 then some (decide (config.minimumCompressionSize < contentLength))
        else none

/-- The content type without its parameters, in lower case. -/
def isCompressibleContentType (config : ZlibConfig) (msg : Headers) : Bool :=
  let responseContentType := (msg.getSingleOrEmpty "Content-Type").toList.map Char.toLower
  String.ofList (responseContentType.takeWhile (· != ';')) ∈ config.compressibleContentTypes

variable {σ : Type}

/-- A call of the handler, with the calls that it makes of the next one; none where the
process ends. -/
def step (z : ZlibStreamCompressor σ) (config : ZlibConfig) (f : ZlibServerFilter σ) :
    DownstreamCall → Option (ZlibServerFilter σ × List Egress)
  | .sendHeaders msg => do
      let large ← if isCompressibleContentType config msg && !msg.isChunked then
          isMinimumCompressibleSize config msg
        else some false
      let compress := isCompressibleContentType config msg && (msg.isChunked || large)
      let msg' := if compress then msg.set "Content-Encoding" "gzip" else msg
      let f := { f with chunked := msg.isChunked, compress := compress }
      if msg.isChunked || !compress then
        some ({ f with header := true }, [.call (.sendHeaders msg')])
      else some ({ f with responseMessage := some msg' }, [])
  | .sendChunkHeader len => some (f, if f.compress then [] else [.call (.sendChunkHeader len)])
  | .sendBody body =>
      if !f.compress then some (f, [.call (.sendBody body)])
      else
        let fresh := f.compressor.isNone
        let compressor := f.compressor.getD z.make
        let f := { f with compressor := some compressor }
        if fresh && z.hasError compressor then some (f, [.sendAbort])
        else
          let (compressor, compressed) := z.compress compressor body (!f.chunked)
          let f := { f with compressor := some compressor }
          if z.hasError compressor then some (f, [.sendAbort])
          else if f.chunked then
            some (f, [.call (.sendChunkHeader compressed.length), .call (.sendBody compressed)])
          else
            f.responseMessage.map fun msg =>
              let msg := msg.set "Content-Length" (Nat.repr compressed.length)
              ({ f with responseMessage := some msg, header := true },
                [.call (.sendHeaders msg), .call (.sendBody compressed)])
  | .sendChunkTerminator => some (f, [.call .sendChunkTerminator])
  | .sendEOM =>
      if f.compress && f.chunked then
        -- without a body there is no compressor to finish
        f.compressor.map fun compressor =>
          let (compressor, compressed) := z.compress compressor [] true
          let f := { f with compressor := some compressor }
          if z.hasError compressor then (f, [.sendAbort])
          else
            (f, [.call (.sendChunkHeader compressed.length), .call (.sendBody compressed),
              .call .sendChunkTerminator, .call .sendEOM])
      else some (f, [.call .sendEOM])

def run (z : ZlibStreamCompressor σ) (config : ZlibConfig) (f : ZlibServerFilter σ) :
    List DownstreamCall → Option (List Egress)
  | [] => some []
  | call :: calls => do
      let (f, out) ← f.step z config call
      let rest ← f.run z config calls
      some (out ++ rest)

end ZlibServerFilter

/-! ## What the client reads -/

/-- The body that the chunks carry. -/
def readChunks : List Egress → Option (List Byte)
  | [.call .sendEOM] => some []
  | .call (.sendChunkHeader len) :: .call (.sendBody body) :: .call .sendChunkTerminator :: rest =>
      if len = body.length then (readChunks rest).map (body ++ ·) else none
  | _ => none

def readWhole : List Egress → Option (List Byte)
  | [.call .sendEOM] => some []
  | .call (.sendBody body) :: rest => (readWhole rest).map (body ++ ·)
  | _ => none

/-- A Content-Length that is there once is the length of what follows. -/
def Headers.lengthAgrees (headers : Headers) (raw : List Byte) : Bool :=
  let contentLength := headers.getSingleOrEmpty "Content-Length"
  contentLength = "" || contentLength.toNat? = some raw.length

/-- The status and the body of a response that arrives whole. -/
def readResponse (gunzip : List Byte → Option (List Byte)) :
    List Egress → Option (ℕ × List Byte)
  | .call (.sendHeaders headers) :: rest => do
      let raw ← if headers.isChunked then readChunks rest
        else (readWhole rest).filter headers.lengthAgrees
      let body ← if headers.getSingleOrEmpty "Content-Encoding" = "gzip" then gunzip raw
        else some raw
      some (headers.statusCode, body)
  | _ => none

namespace ZlibStreamCompressor

variable {σ : Type}

/-- What the compressor puts out for the bodies and then, with the trailer, for the last
one, unless it fails at one of them. -/
def packFrom (z : ZlibStreamCompressor σ) : σ → List (List Byte) → List Byte → Option (List Byte)
  | s, [], last =>
      let (s', packed) := z.compress s last true
      if z.hasError s' then none else some packed
  | s, body :: bodies, last =>
      let (s', packed) := z.compress s body false
      if z.hasError s' then none else (z.packFrom s' bodies last).map (packed ++ ·)

def pack (z : ZlibStreamCompressor σ) (bodies : List (List Byte)) (last : List Byte) :
    Option (List Byte) :=
  if z.hasError z.make then none else z.packFrom z.make bodies last

/-- What the compressor puts out unpacks to what it was given. -/
def PacksFor (z : ZlibStreamCompressor σ) (gunzip : List Byte → Option (List Byte)) : Prop :=
  ∀ bodies last packed, z.pack bodies last = some packed →
    gunzip packed = some (bodies.flatten ++ last)

end ZlibStreamCompressor

theorem readChunks_chunkCalls (chunks : List (List Byte)) :
    readChunks ((chunks.flatMap Reply.chunkCalls ++ [DownstreamCall.sendEOM]).map .call) =
      some chunks.flatten := by
  induction chunks with
  | nil => rfl
  | cons body chunks ih =>
      simp only [List.flatMap_cons, Reply.chunkCalls, List.cons_append, List.nil_append,
        List.map_cons, readChunks, if_true, List.flatten_cons]
      rw [ih]
      rfl

namespace ZlibServerFilter

variable {σ : Type} {z : ZlibStreamCompressor σ} {config : ZlibConfig} {f : ZlibServerFilter σ}

theorem run_cons (call : DownstreamCall) (calls : List DownstreamCall) :
    f.run z config (call :: calls) =
      (f.step z config call).bind fun (f', out) => (f'.run z config calls).map (out ++ ·) := by
  rw [run]
  cases f.step z config call with
  | none => rfl
  | some next => cases hrest : next.1.run z config calls <;> simp [hrest]

/-- A response that is not compressed passes through. -/
theorem run_plain (hplain : f.compress = false) {calls : List DownstreamCall}
    (hcalls : ∀ headers, .sendHeaders headers ∉ calls) :
    f.run z config calls = some (calls.map .call) := by
  induction calls with
  | nil => rfl
  | cons call calls ih =>
      have hrest := ih fun headers hmem => hcalls headers (List.mem_cons_of_mem _ hmem)
      rw [run_cons]
      cases call with
      | sendHeaders headers => exact absurd (List.mem_cons_self ..) (hcalls headers)
      | sendChunkHeader | sendBody | sendChunkTerminator | sendEOM => simp [step, hplain, hrest]

section Chunks

variable (config) (msg : Option Headers) (header : Bool)

/-- A chunk goes out as a chunk of what the compressor makes of it. -/
theorem run_chunk (s : σ) (body : List Byte) (calls : List DownstreamCall) :
    run z config ⟨msg, some s, header, true, true⟩ (Reply.chunkCalls body ++ calls) =
      (run z config ⟨msg, some (z.compress s body false).1, header, true, true⟩ calls).map
        fun rest =>
          (if z.hasError (z.compress s body false).1 then [Egress.sendAbort]
            else [.call (.sendChunkHeader (z.compress s body false).2.length),
              .call (.sendBody (z.compress s body false).2)]) ++
          Egress.call .sendChunkTerminator :: rest := by
  simp only [Reply.chunkCalls, List.cons_append, List.nil_append, run_cons, step]
  cases hrest : run z config ⟨msg, some (z.compress s body false).1, header, true, true⟩ calls <;>
    cases herror : z.hasError (z.compress s body false).1 <;> simp [hrest, herror]

/-- The chunks of a response that is compressed, with a compressor that is there. -/
theorem run_chunks (s : σ) (chunks : List (List Byte)) :
    ∃ out, run z config ⟨msg, some s, header, true, true⟩
        (chunks.flatMap Reply.chunkCalls ++ [.sendEOM]) = some out ∧
      (z.packFrom s chunks [] = none → Egress.sendAbort ∈ out) ∧
      ∀ packed, z.packFrom s chunks [] = some packed → readChunks out = some packed := by
  induction chunks generalizing s with
  | nil =>
      by_cases herror : z.hasError (z.compress s [] true).1 = true
      · refine ⟨[.sendAbort], ?_, fun _ => List.mem_singleton_self _, ?_⟩
        · simp [run, step, herror]
        · simp [ZlibStreamCompressor.packFrom, herror]
      · rw [Bool.not_eq_true] at herror
        refine ⟨[.call (.sendChunkHeader (z.compress s [] true).2.length),
          .call (.sendBody (z.compress s [] true).2), .call .sendChunkTerminator,
          .call .sendEOM], ?_, ?_, ?_⟩
        · simp [run, step, herror]
        · simp [ZlibStreamCompressor.packFrom, herror]
        · simp [readChunks, ZlibStreamCompressor.packFrom, herror]
  | cons body chunks ih =>
      rw [List.flatMap_cons, List.append_assoc, run_chunk]
      obtain ⟨out, hrun, haborts, hreads⟩ := ih (z.compress s body false).1
      rw [hrun, Option.map_some]
      by_cases herror : z.hasError (z.compress s body false).1 = true
      · refine ⟨_, rfl, fun _ => ?_, ?_⟩
        · simp [herror]
        · simp [ZlibStreamCompressor.packFrom, herror]
      · refine ⟨_, rfl, fun hnone => ?_, fun packed hpacked => ?_⟩
        · simp only [ZlibStreamCompressor.packFrom, herror, Bool.false_eq_true, if_false,
            Option.map_eq_none_iff] at hnone
          simp [haborts hnone]
        · simp only [ZlibStreamCompressor.packFrom, herror, Bool.false_eq_true, if_false,
            Option.map_eq_some_iff] at hpacked
          obtain ⟨rest, hrest, rfl⟩ := hpacked
          simp [herror, readChunks, hreads rest hrest]

/-- The first chunk makes the compressor. -/
theorem run_first (body : List Byte) (chunks : List (List Byte)) :
    ∃ out, run z config ⟨msg, none, header, true, true⟩
        ((body :: chunks).flatMap Reply.chunkCalls ++ [.sendEOM]) = some out ∧
      (z.pack (body :: chunks) [] = none → Egress.sendAbort ∈ out) ∧
      ∀ packed, z.pack (body :: chunks) [] = some packed → readChunks out = some packed := by
  by_cases herror : z.hasError z.make = true
  · obtain ⟨out, hrun, _⟩ := run_chunks (z := z) config msg header z.make chunks
    refine ⟨.sendAbort :: .call .sendChunkTerminator :: out, ?_, fun _ => by simp, ?_⟩
    · rw [List.flatMap_cons, List.append_assoc]
      simp [Reply.chunkCalls, run_cons, step, herror, hrun]
    · simp [ZlibStreamCompressor.pack, herror]
  · rw [Bool.not_eq_true] at herror
    have hsame : run z config ⟨msg, none, header, true, true⟩
        ((body :: chunks).flatMap Reply.chunkCalls ++ [.sendEOM]) =
          run z config ⟨msg, some z.make, header, true, true⟩
            ((body :: chunks).flatMap Reply.chunkCalls ++ [.sendEOM]) := by
      rw [List.flatMap_cons, List.append_assoc]
      simp [Reply.chunkCalls, run_cons, step, herror]
    have hpack : z.pack (body :: chunks) [] = z.packFrom z.make (body :: chunks) [] := by
      simp [ZlibStreamCompressor.pack, herror]
    rw [hsame, hpack]
    exact run_chunks config msg header z.make (body :: chunks)

end Chunks

/-! ## Responses through the filter -/

/-- A complete response goes through the filter with its length. -/
def isLarge (config : ZlibConfig) (r : Reply) : Option Bool :=
  isMinimumCompressibleSize config
    (r.headers.add "Content-Length" (Nat.repr r.body.length))

/-- The responses that end the process: one in chunks whose compressor is never made, and a
complete one whose length is no number of 32 bits. -/
def crashes (config : ZlibConfig) (r : Reply) : Bool :=
  isCompressibleContentType config r.headers &&
    if r.rounds.isEmpty then isLarge config r == none else r.chunks.isEmpty

def compresses (config : ZlibConfig) (r : Reply) : Bool :=
  isCompressibleContentType config r.headers &&
    (!r.rounds.isEmpty || isLarge config r == some true)

/-- The compressor gets the chunks one by one, or the whole body at once. -/
def packed (z : ZlibStreamCompressor σ) (r : Reply) : Option (List Byte) :=
  if r.rounds.isEmpty then z.pack [] r.body else z.pack r.chunks []

/-- What the filter makes of a response: the client reads what the handler said, unless the
compressor fails on it, and the process ends on those responses only. -/
def Keeps (z : ZlibStreamCompressor σ) (config : ZlibConfig)
    (gunzip : List Byte → Option (List Byte)) (r : Reply) : Option (List Egress) → Prop
  | none => crashes config r = true
  | some out => crashes config r = false ∧
      if compresses config r = true ∧ packed z r = none then Egress.sendAbort ∈ out
      else readResponse gunzip out = some (r.code, r.body)

theorem flatten_chunks (r : Reply) : r.chunks.flatten = r.body := by
  have hflatten : ∀ rounds : List (List (List Byte)),
      ((rounds.filter (!·.isEmpty)).map List.flatten).flatten = rounds.flatten.flatten := by
    intro rounds
    induction rounds with
    | nil => rfl
    | cons bodies rounds ih => cases bodies <;> simp_all
  exact hflatten _

theorem getSingleOrEmpty_add (headers : Headers) (name value : String) :
    (headers.add name value).getSingleOrEmpty name = value ∨
      (headers.add name value).getSingleOrEmpty name = "" := by
  simp only [Headers.getSingleOrEmpty, Headers.add, List.filter_append]
  cases headers.fields.filter (Headers.lowerName ·.1 == Headers.lowerName name) with
  | nil => simp
  | cons field fields => cases fields <;> simp

theorem lengthAgrees_add (headers : Headers) (raw : List Byte) :
    (headers.add "Content-Length" (Nat.repr raw.length)).lengthAgrees raw = true := by
  rw [Headers.lengthAgrees]
  rcases getSingleOrEmpty_add headers "Content-Length" (Nat.repr raw.length) with h | h
  · simp [h, Nat.toNat?_repr]
  · simp [h]

/-- What the builder hands down is the response. -/
theorem readResponse_calls (gunzip : List Byte → Option (List Byte)) (r : Reply)
    (hencoding : r.headers.getSingleOrEmpty "Content-Encoding" = "") :
    readResponse gunzip (r.calls.map .call) = some (r.code, r.body) := by
  cases hrounds : r.rounds with
  | nil =>
      let msg := r.headers.add "Content-Length" (Nat.repr r.body.length)
      have hkept : msg.getSingleOrEmpty "Content-Encoding" = "" := by
        rw [Headers.getSingleOrEmpty_add_of_ne _ _ (by decide), hencoding]
      have hagrees : msg.lengthAgrees r.body = true := lengthAgrees_add r.headers r.body
      let rest : List DownstreamCall :=
        (if r.last.isEmpty then [] else [.sendBody r.last.flatten]) ++ [.sendEOM]
      have hwhole : readWhole (rest.map .call) = some r.body := by
        simp only [rest, Reply.body, hrounds]
        cases r.last <;> simp [readWhole]
      have hcalls : r.calls = .sendHeaders msg :: rest := by
        simp [Reply.calls, hrounds, msg, rest]
      rw [hcalls, List.map_cons]
      simp only [readResponse, hwhole, hkept]
      simp [show msg.isChunked = false from rfl, show msg.statusCode = r.code from rfl,
        Option.filter, hagrees]
  | cons bodies rounds =>
      have hkept : ({ r.headers with isChunked := true } : Headers).getSingleOrEmpty
          "Content-Encoding" = "" := hencoding
      simp only [Reply.calls, hrounds, List.isEmpty_cons, Bool.false_eq_true, if_false,
        List.cons_append, List.map_cons, readResponse, if_true, readChunks_chunkCalls, hkept]
      simp [flatten_chunks, Reply.headers]

/-- A response in chunks, compressed or not. -/
theorem chunked_keeps {gunzip : List Byte → Option (List Byte)} (hpacks : z.PacksFor gunzip)
    (r : Reply) (hrounds : r.rounds.isEmpty = false)
    (hencoding : r.headers.getSingleOrEmpty "Content-Encoding" = "") :
    Keeps z config gunzip r (start.run z config r.calls) := by
  have hcalls : r.calls = .sendHeaders { r.headers with isChunked := true } ::
      (r.chunks.flatMap Reply.chunkCalls ++ [.sendEOM]) := by
    simp [Reply.calls, hrounds]
  have hsame : isCompressibleContentType config { r.headers with isChunked := true } =
      isCompressibleContentType config r.headers := rfl
  rw [hcalls, run_cons]
  cases hcompress : isCompressibleContentType config r.headers with
  | false =>
      have hplain : ∀ headers, .sendHeaders headers ∉ r.chunks.flatMap Reply.chunkCalls ++
          [DownstreamCall.sendEOM] := by
        simp [Reply.chunkCalls]
      simp only [step, hsame, hcompress, Bool.false_and, Bool.false_eq_true, if_false,
        Bool.true_or, if_true, Option.bind_some, Option.bind_eq_bind]
      rw [run_plain rfl hplain, Option.map_some]
      refine ⟨by simp [crashes, hcompress], ?_⟩
      rw [if_neg (by simp [compresses, hcompress])]
      have hread := readResponse_calls gunzip r hencoding
      rw [hcalls, List.map_cons] at hread
      exact hread
  | true =>
      simp only [step, hsame, hcompress, Bool.true_and, Bool.not_true, Bool.false_eq_true,
        if_false, Bool.true_or, if_true, Option.bind_some, Option.bind_eq_bind]
      cases hchunks : r.chunks with
      | nil =>
          simp only [List.flatMap_nil, List.nil_append, run_cons, step, Bool.and_self, if_true,
            start, Option.map_none, Option.bind_none]
          simp [Keeps, crashes, hcompress, hrounds, hchunks]
      | cons body chunks =>
          obtain ⟨out, hrun, haborts, hreads⟩ := run_first (z := z) config none true body chunks
          simp only [start] at hrun ⊢
          rw [hrun]
          have hpacked : packed z r = z.pack (body :: chunks) [] := by
            simp [packed, hrounds, hchunks]
          refine ⟨by simp [crashes, hrounds, hchunks], ?_⟩
          · cases hpack : z.pack (body :: chunks) [] with
            | none =>
                rw [if_pos ⟨by simp [compresses, hcompress, hrounds], hpacked.trans hpack⟩]
                exact List.mem_append_right _ (haborts hpack)
            | some bytes =>
                rw [if_neg (by simp [hpacked, hpack])]
                have hbody := hpacks _ [] bytes hpack
                have hgzip := (({ r.headers with isChunked := true } : Headers)).getSingleOrEmpty_set
                  "Content-Encoding" "gzip"
                rw [← hchunks, flatten_chunks, List.append_nil] at hbody
                simp only [List.singleton_append, readResponse, hgzip, if_true]
                simp [Headers.set, Headers.add, hreads bytes hpack, hbody, Reply.headers]

theorem length_pos_of_isMinimum {headers : Headers} {n : ℕ}
    (hlarge : isMinimumCompressibleSize config (headers.add "Content-Length" (Nat.repr n)) =
      some true) : 0 < n := by
  rw [isMinimumCompressibleSize] at hlarge
  rcases getSingleOrEmpty_add headers "Content-Length" (Nat.repr n) with h | h
  · rw [h] at hlarge
    by_cases hempty : Nat.repr n = ""
    · simp [hempty] at hlarge
    · simp only [hempty, if_false, Nat.toNat?_repr] at hlarge
      split_ifs at hlarge
      simp only [Option.some.injEq, decide_eq_true_eq] at hlarge
      omega
  · simp [h] at hlarge

/-- The body of a complete response takes the headers with it. -/
theorem run_body (config : ZlibConfig) {gunzip : List Byte → Option (List Byte)}
    (hpacks : z.PacksFor gunzip) {msg : Headers} (hwhole : msg.isChunked = false)
    (body : List Byte) :
    ∃ out, run z config ⟨some (msg.set "Content-Encoding" "gzip"), none, false, false, true⟩
        [.sendBody body, .sendEOM] = some out ∧
      if z.pack [] body = none then Egress.sendAbort ∈ out
      else readResponse gunzip out = some (msg.statusCode, body) := by
  by_cases hmake : z.hasError z.make = true
  · refine ⟨[.sendAbort, .call .sendEOM], by simp [run, step, hmake], ?_⟩
    simp [ZlibStreamCompressor.pack, hmake]
  by_cases herror : z.hasError (z.compress z.make body true).1 = true
  · refine ⟨[.sendAbort, .call .sendEOM], by simp [run, step, hmake, herror], ?_⟩
    simp [ZlibStreamCompressor.pack, ZlibStreamCompressor.packFrom, hmake, herror]
  rw [Bool.not_eq_true] at hmake herror
  let packed := (z.compress z.make body true).2
  let msg' := (msg.set "Content-Encoding" "gzip").set "Content-Length" (Nat.repr packed.length)
  refine ⟨[.call (.sendHeaders msg'), .call (.sendBody packed), .call .sendEOM], ?_, ?_⟩
  · simp [run, step, hmake, herror, packed, msg']
  · have hpack : z.pack [] body = some packed := by
      simp [ZlibStreamCompressor.pack, ZlibStreamCompressor.packFrom, hmake, herror, packed]
    have hbody := hpacks [] body packed hpack
    rw [List.flatten_nil, List.nil_append] at hbody
    have hgzip : msg'.getSingleOrEmpty "Content-Encoding" = "gzip" := by
      rw [Headers.getSingleOrEmpty_set_of_ne _ _ (by decide), Headers.getSingleOrEmpty_set]
    have hlength : msg'.lengthAgrees packed = true := by
      rw [Headers.lengthAgrees, Headers.getSingleOrEmpty_set, Nat.toNat?_repr]
      simp
    rw [hpack, if_neg (by simp)]
    simp only [readResponse, readWhole, hgzip, show msg'.isChunked = false from hwhole]
    simp [Option.filter, hlength, hbody, show msg'.statusCode = msg.statusCode from rfl]

/-- A complete response, compressed or not. -/
theorem whole_keeps {gunzip : List Byte → Option (List Byte)} (hpacks : z.PacksFor gunzip)
    (r : Reply) (hrounds : r.rounds = [])
    (hencoding : r.headers.getSingleOrEmpty "Content-Encoding" = "") :
    Keeps z config gunzip r (start.run z config r.calls) := by
  let msg := r.headers.add "Content-Length" (Nat.repr r.body.length)
  let rest : List DownstreamCall :=
    (if r.last.isEmpty then [] else [.sendBody r.last.flatten]) ++ [.sendEOM]
  have hcalls : r.calls = .sendHeaders msg :: rest := by simp [Reply.calls, hrounds, msg, rest]
  have hbody : r.body = r.last.flatten := by simp [Reply.body, hrounds]
  have htype : isCompressibleContentType config msg =
      isCompressibleContentType config r.headers := by
    rw [isCompressibleContentType, isCompressibleContentType,
      Headers.getSingleOrEmpty_add_of_ne _ _ (by decide)]
  have hplain : ∀ f : ZlibServerFilter σ, f.compress = false →
      (f.run z config rest) = some (rest.map .call) := by
    intro f hf
    apply run_plain hf
    simp only [rest]
    split_ifs <;> simp
  have hread := readResponse_calls gunzip r hencoding
  rw [hcalls, List.map_cons] at hread
  have hlarge : isLarge config r = isMinimumCompressibleSize config msg := rfl
  rw [hcalls, run_cons]
  by_cases hcompress : isCompressibleContentType config r.headers = true
  · cases hsize : isMinimumCompressibleSize config msg with
    | none =>
        simp only [step, htype, hcompress, show msg.isChunked = false from rfl, hsize]
        simp [Keeps, crashes, hcompress, hrounds, hlarge, hsize]
    | some large =>
        have hsurvives : crashes config r = false := by simp [crashes, hrounds, hlarge, hsize]
        have hcompresses : compresses config r = large := by
          cases large <;> simp [compresses, hcompress, hrounds, hlarge, hsize]
        simp only [step, htype, hcompress, show msg.isChunked = false from rfl, hsize,
          Bool.not_false, Bool.and_self, if_true, Option.bind_some, Option.bind_eq_bind,
          Bool.true_and, Bool.false_or]
        cases large with
        | false =>
            simp only [Bool.not_false, Bool.false_eq_true, if_false, if_true, Option.bind_some]
            rw [hplain _ rfl, Option.map_some]
            refine ⟨hsurvives, ?_⟩
            rw [if_neg (by simp [hcompresses])]
            exact hread
        | true =>
            simp only [Bool.not_true, Bool.false_eq_true, if_false, if_true, Option.bind_some,
              start]
            have hlast : r.last.isEmpty = false := by
              have hpos := length_pos_of_isMinimum hsize
              rw [hbody] at hpos
              cases hnil : r.last <;> simp_all
            obtain ⟨out, hrun, hout⟩ := run_body config hpacks
              (show msg.isChunked = false from rfl) r.body
            have hpacked : packed z r = z.pack [] r.body := by simp [packed, hrounds]
            simp only [rest, hlast, Bool.false_eq_true, if_false, List.singleton_append, ← hbody]
            rw [hrun]
            refine ⟨hsurvives, ?_⟩
            simp only [hpacked, hcompresses, true_and]
            exact hout
  · rw [Bool.not_eq_true] at hcompress
    simp only [step, htype, hcompress, Bool.false_and, Bool.false_eq_true, if_false,
      Option.bind_some, Option.bind_eq_bind, Bool.not_false, Bool.or_true, if_true]
    rw [hplain _ rfl, Option.map_some]
    refine ⟨by simp [crashes, hcompress], ?_⟩
    rw [if_neg (by simp [compresses, hcompress])]
    exact hread

/-- A response that the builder builds reaches the client through the compression filter as
the handler said it. -/
theorem response_survives_compression (z : ZlibStreamCompressor σ) (config : ZlibConfig)
    (gunzip : List Byte → Option (List Byte)) (hpacks : z.PacksFor gunzip) (r : Reply)
    (hcode : 200 ≤ r.code) (hencoding : r.headers.getSingleOrEmpty "Content-Encoding" = "") :
    ∃ b, ResponseBuilder.start.run r.ops = some b ∧
      readResponse gunzip (b.calls.map .call) = some (r.code, r.body) ∧
      Keeps z config gunzip r (start.run z config b.calls) := by
  obtain ⟨b, hrun, hcalls⟩ := Option.map_eq_some_iff.mp (ResponseBuilder.run_reply r hcode)
  refine ⟨b, hrun, ?_⟩
  rw [hcalls]
  refine ⟨readResponse_calls gunzip r hencoding, ?_⟩
  cases hrounds : r.rounds with
  | nil => exact whole_keeps hpacks r hrounds hencoding
  | cons bodies rounds => exact chunked_keeps hpacks r (by simp [hrounds]) hencoding

def hello : List Byte := [104, 101, 108, 108, 111]

/-- What gzip makes of it. -/
def helloPacked : List Byte :=
  [31, 139, 8, 0, 0, 0, 0, 0, 0, 3, 203, 72, 205, 201, 201, 7, 0, 134, 166, 16, 54, 5, 0, 0, 0]

/-- A compressor for that body only. -/
def helloCompressor : ZlibStreamCompressor Bool where
  make := false
  hasError failed := failed
  compress failed body trailer :=
    if !failed && trailer && body = hello then (false, helloPacked) else (true, [])

def helloGunzip (raw : List Byte) : Option (List Byte) :=
  if raw = helloPacked then some hello else none

def helloReply : Reply := ⟨200, "OK", [("Content-Type", "text/html; charset=utf-8")], [], [hello]⟩

theorem helloCompressor_packs : helloCompressor.PacksFor helloGunzip := by
  intro bodies last packed hpack
  cases bodies with
  | nil =>
      by_cases hlast : last = hello
      · simp [ZlibStreamCompressor.pack, ZlibStreamCompressor.packFrom, helloCompressor,
          hlast] at hpack
        simp [helloGunzip, ← hpack, hlast]
      · simp [ZlibStreamCompressor.pack, ZlibStreamCompressor.packFrom, helloCompressor,
          hlast] at hpack
  | cons body bodies =>
      simp [ZlibStreamCompressor.pack, ZlibStreamCompressor.packFrom, helloCompressor] at hpack

theorem helloReply_compresses : compresses ⟨0, ["text/html"]⟩ helloReply = true := by
  have htype : isCompressibleContentType ⟨0, ["text/html"]⟩ helloReply.headers = true := by
    decide
  have hlength : (helloReply.headers.add "Content-Length"
      (Nat.repr helloReply.body.length)).getSingleOrEmpty "Content-Length" = Nat.repr 5 := by
    decide
  have hlarge : isLarge ⟨0, ["text/html"]⟩ helloReply = some true := by
    rw [isLarge, isMinimumCompressibleSize, hlength, if_neg (by decide), Nat.toNat?_repr]
    rfl
  simp [compresses, htype, hlarge]

theorem response_survives_compression_hello :
    compresses ⟨0, ["text/html"]⟩ helloReply = true ∧
      ∃ b, ResponseBuilder.start.run helloReply.ops = some b ∧
        readResponse helloGunzip (b.calls.map .call) = some (200, hello) ∧
        Keeps helloCompressor ⟨0, ["text/html"]⟩ helloGunzip helloReply
          (start.run helloCompressor ⟨0, ["text/html"]⟩ b.calls) :=
  ⟨helloReply_compresses, response_survives_compression helloCompressor ⟨0, ["text/html"]⟩ helloGunzip
    helloCompressor_packs helloReply (by decide) (by decide)⟩

end ZlibServerFilter

end CppPlay.Proxygen
