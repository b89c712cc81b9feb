import Mathlib.Data.List.Basic

/-!
# Messages and the response handler

The response handler holds the message of a response and hands it down in pieces, once.
-/

namespace CppPlay.Proxygen

abbrev Byte := UInt8

structure Headers where
  statusCode : ℕ
  statusMessage : String
  fields : List (String × String)
  isChunked : Bool
  deriving DecidableEq

namespace Headers

/-- The names of headers are compared without case. -/
def lowerName (name : String) : List Char := name.toList.map Char.toLower

/-- A new message of HTTP 1.1. -/
def make : Headers := ⟨0, "", [], false⟩

def add (headers : Headers) (name value : String) : Headers :=
  { headers with fields := headers.fields ++ [(name, value)] }

/-- Possible duplicates are removed. -/
def set (headers : Headers) (name value : String) : Headers :=
  add { headers with fields := headers.fields.filter (lowerName ·.1 != lowerName name) } name value

end Headers

structure Message where
  headers : Option Headers
  body : Option (List Byte)
  deriving DecidableEq

namespace Message

def protocolServerError : ℕ := 500

def protocolServiceUnavailable : ℕ := 503

def protocolTooManyRequests : ℕ := 429

def protocolRequestTimeout : ℕ := 408

def status (msg : Message) (code : ℕ) (message : String) : Message :=
  { msg with
    headers := some { msg.headers.getD Headers.make with
      statusCode := code
      statusMessage := message } }

def setHeader (msg : Message) (name value : String) : Message :=
  { msg with headers := msg.headers.map (·.set name value) }

def clearBody (msg : Message) : Message := { msg with body := none }

def appendBody (msg : Message) : Option (List Byte) → Message
  | none => msg
  | some bytes => { msg with body := some (msg.body.getD [] ++ bytes) }

/-- `Message()`. -/
def make : Message := status ⟨none, none⟩ protocolServerError ""

def setDefaulServerError (msg : Message) : Message :=
  ((msg.status protocolServerError "").setHeader "Content-Type" "text/html").clearBody

def setServiceUnavailableError (msg : Message) : Message :=
  (((msg.status protocolServiceUnavailable "Service Unavailable").setHeader
    "Content-Type" "text/html").setHeader "Connection" "close").clearBody

def setTooManyRequestsError (msg : Message) : Message :=
  (((msg.status protocolTooManyRequests "Too Many Requests").setHeader
    "Content-Type" "text/html").setHeader "Connection" "close").clearBody

def setTimeOutServerError (msg : Message) : Message :=
  ((msg.status protocolRequestTimeout "TIMEOUT").setHeader "Content-Type" "text/html").clearBody

def HasHeaders (msg : Message) : Prop := msg.headers.isSome = true

theorem hasHeaders_status (msg : Message) (code : ℕ) (message : String) :
    (msg.status code message).HasHeaders := rfl

theorem HasHeaders.setHeader {msg : Message} (hheaders : msg.HasHeaders) (name value : String) :
    (msg.setHeader name value).HasHeaders := by
  unfold HasHeaders Message.setHeader
  rw [Option.isSome_map]
  exact hheaders

theorem HasHeaders.clearBody {msg : Message} (hheaders : msg.HasHeaders) :
    msg.clearBody.HasHeaders := hheaders

theorem hasHeaders_make : make.HasHeaders := hasHeaders_status _ _ _

theorem hasHeaders_setDefaulServerError (msg : Message) : msg.setDefaulServerError.HasHeaders :=
  ((hasHeaders_status _ _ _).setHeader _ _).clearBody

theorem hasHeaders_setServiceUnavailableError (msg : Message) :
    msg.setServiceUnavailableError.HasHeaders :=
  (((hasHeaders_status _ _ _).setHeader _ _).setHeader _ _).clearBody

theorem hasHeaders_setTooManyRequestsError (msg : Message) :
    msg.setTooManyRequestsError.HasHeaders :=
  (((hasHeaders_status _ _ _).setHeader _ _).setHeader _ _).clearBody

theorem hasHeaders_setTimeOutServerError (msg : Message) : msg.setTimeOutServerError.HasHeaders :=
  ((hasHeaders_status _ _ _).setHeader _ _).clearBody

end Message

inductive DownstreamCall where
  | sendHeaders (headers : Headers)
  | sendChunkHeader (len : ℕ)
  | sendBody (body : List Byte)
  | sendChunkTerminator
  | sendEOM
  deriving DecidableEq

def IsOneResponse (calls : List DownstreamCall) : Prop :=
  ∃ (headers : Headers) (body : Option (List Byte)),
    calls = .sendHeaders headers :: (body.toList.map .sendBody ++ [.sendEOM])

/-- `calls` is what was handed down, and `sends` is `m_sendEOM` at each call of `_send`. -/
structure ResponseHandler where
  msg : Message
  sendEOM : Bool
  wasSent : Bool
  calls : List DownstreamCall
  sends : List Bool
  deriving DecidableEq

namespace ResponseHandler

def make (sendEOM : Bool) : ResponseHandler := ⟨Message.make, sendEOM, false, [], []⟩

def setResponseMsg (r : ResponseHandler) (response : Message) : ResponseHandler :=
  { r with msg := response }

/-- By default chunked; a complete response goes with a Content-Length instead. -/
def chunked (r : ResponseHandler) : Bool := !(r.msg.headers.isSome && r.sendEOM)

def headerCalls (r : ResponseHandler) : List DownstreamCall :=
  match r.msg.headers with
  | none => []
  | some headers =>
      if 200 ≤ headers.statusCode then
        if r.chunked then [.sendHeaders { headers with isChunked := true }]
        else
          [.sendHeaders
            (headers.add "Content-Length" (Nat.repr (r.msg.body.elim 0 List.length)))]
      else [.sendHeaders headers]

def bodyCalls (r : ResponseHandler) : List DownstreamCall :=
  match r.msg.body with
  | none => []
  | some body =>
      if r.chunked then [.sendChunkHeader body.length, .sendBody body, .sendChunkTerminator]
      else [.sendBody body]

/-- The headers and the body are gone afterwards. -/
def send_ (r : ResponseHandler) : ResponseHandler :=
  { r with
    msg := ⟨none, none⟩
    calls := r.calls ++
      (r.headerCalls ++ (r.bodyCalls ++ if r.sendEOM then [.sendEOM] else []))
    sends := r.sends ++ [r.sendEOM] }

def send (r : ResponseHandler) : ResponseHandler :=
  if r.wasSent then r else { r.send_ with wasSent := true }

def sendWithEOM (r : ResponseHandler) : ResponseHandler := send { r with sendEOM := true }

def sendDefauServerError (r : ResponseHandler) : ResponseHandler :=
  sendWithEOM { r with msg := r.msg.setDefaulServerError }

/-- Nothing was sent and a message with headers is there, or one response was sent. -/
structure Ok (r : ResponseHandler) : Prop where
  sendEOM : r.sendEOM = true
  unsent : r.wasSent = false → r.msg.HasHeaders ∧ r.calls = [] ∧ r.sends = []
  sent : r.wasSent = true → IsOneResponse r.calls ∧ r.sends = [true]

variable {r : ResponseHandler}

theorem ok_make : (make true).Ok := by
  constructor
  · rfl
  · exact fun _ => ⟨Message.hasHeaders_make, rfl, rfl⟩
  · intro hsent
    cases hsent

theorem Ok.setResponseMsg (hok : r.Ok) {response : Message} (hheaders : response.HasHeaders) :
    (r.setResponseMsg response).Ok := by
  constructor
  · exact hok.sendEOM
  · exact fun hunsent => ⟨hheaders, (hok.unsent hunsent).2⟩
  · exact hok.sent

theorem isOneResponse_send_ (heom : r.sendEOM = true) (hheaders : r.msg.HasHeaders) :
    IsOneResponse (r.headerCalls ++ (r.bodyCalls ++ if r.sendEOM then [.sendEOM] else [])) := by
  have hchunked : r.chunked = false := by
    unfold chunked
    rw [heom, hheaders]
    rfl
  obtain ⟨headers, hsome⟩ := Option.isSome_iff_exists.mp hheaders
  have hone : ∃ sentHeaders, r.headerCalls = [.sendHeaders sentHeaders] := by
    simp only [headerCalls, hsome, hchunked, Bool.false_eq_true, if_false]
    split
    · exact ⟨_, rfl⟩
    · exact ⟨_, rfl⟩
  obtain ⟨sentHeaders, hheaderCalls⟩ := hone
  refine ⟨sentHeaders, r.msg.body, ?_⟩
  rw [hheaderCalls, if_pos heom]
  cases hbody : r.msg.body <;> simp [bodyCalls, hbody, hchunked]

/-- The first `send` sends the response, later ones nothing. -/
theorem Ok.send (hok : r.Ok) : r.send.Ok ∧ r.send.wasSent = true := by
  unfold ResponseHandler.send
  cases hsent : r.wasSent with
  | true => simpa [hsent] using hok
  | false =>
      obtain ⟨hheaders, hcalls, hsends⟩ := hok.unsent hsent
      rw [if_neg Bool.false_ne_true]
      refine ⟨⟨hok.sendEOM, by simp, ?_⟩, rfl⟩
      intro _
      simp only [send_, hcalls, hsends, List.nil_append]
      exact ⟨isOneResponse_send_ hok.sendEOM hheaders, by rw [hok.sendEOM]⟩

theorem Ok.sendWithEOM (hok : r.Ok) : r.sendWithEOM.Ok ∧ r.sendWithEOM.wasSent = true := by
  have hsame : ({ r with sendEOM := true } : ResponseHandler) = r := by
    rw [← hok.sendEOM]
  unfold ResponseHandler.sendWithEOM
  rw [hsame]
  exact hok.send

theorem Ok.sendDefauServerError (hok : r.Ok) :
    r.sendDefauServerError.Ok ∧ r.sendDefauServerError.wasSent = true :=
  (hok.setResponseMsg (Message.hasHeaders_setDefaulServerError r.msg)).sendWithEOM

end ResponseHandler

end CppPlay.Proxygen
