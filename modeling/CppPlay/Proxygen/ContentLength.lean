import CppPlay.Proxygen.ResponseHandler
import CppPlay.Lib.Run

/-!
# The Content-Length of a response

`_send` adds the header without a look at those that are there, and
`SetDefaulUserError` has put one in already.
-/

namespace CppPlay.Proxygen

open CppPlay.Lib

namespace Headers

def contentLengths (headers : Headers) : List String :=
  (headers.fields.filter (lowerName ·.1 == lowerName "Content-Length")).map Prod.snd

theorem contentLengths_add (headers : Headers) (value : String) :
    (headers.add "Content-Length" value).contentLengths = headers.contentLengths ++ [value] := by
  simp [contentLengths, add]

theorem contentLengths_set (headers : Headers) (value : String) :
    (headers.set "Content-Length" value).contentLengths = [value] := by
  have hnone : (headers.fields.filter (lowerName ·.1 != lowerName "Content-Length")).filter
      (lowerName ·.1 == lowerName "Content-Length") = [] := by
    rw [List.filter_filter, List.filter_eq_nil_iff]
    simp
  simp [contentLengths, set, add, hnone]

theorem contentLengths_set_of_ne (headers : Headers) {name : String} (value : String)
    (hne : lowerName name ≠ lowerName "Content-Length") :
    (headers.set name value).contentLengths = headers.contentLengths := by
  have hkept : (headers.fields.filter (lowerName ·.1 != lowerName name)).filter
      (lowerName ·.1 == lowerName "Content-Length") =
        headers.fields.filter (lowerName ·.1 == lowerName "Content-Length") := by
    rw [List.filter_filter]
    apply List.filter_congr
    intro field _
    by_cases hlength : lowerName field.1 = lowerName "Content-Length"
    · simp [hlength, Ne.symm hne]
    · simp [hlength]
  simp [contentLengths, set, add, hkept, hne]

end Headers

namespace Message

def protocolBadRequest : ℕ := 400

def ofStatus (statusCode : UInt16) (statusMessage : String) : Message :=
  status ⟨none, none⟩ statusCode.toNat statusMessage

def getStatus (msg : Message) : ℕ := msg.headers.elim protocolServerError Headers.statusCode

/-- A null pointer or no bytes are left out, and so is what cannot be copied. -/
def appendCopyFromBuffer (msg : Message) (buf : Option (List Byte)) (copied : Bool) : Message :=
  match buf with
  | none => msg
  | some bytes => if 0 < bytes.length ∧ copied then msg.appendBody (some bytes) else msg

/-- `content` is `s_defaultUserErrorContent` at the time. -/
def SetDefaulUserError (msg : Message) (content : List Byte) : Message :=
  { ((msg.status protocolBadRequest "").setHeader "Content-Type" "text/html").setHeader
      "Content-Length" (Nat.repr content.length) with body := some content }

def contentLengths (msg : Message) : List String := msg.headers.elim [] Headers.contentLengths

theorem contentLengths_status {msg : Message} (code : ℕ) (message : String) :
    (msg.status code message).contentLengths = msg.contentLengths := by
  cases hheaders : msg.headers <;>
    simp [contentLengths, status, hheaders, Headers.contentLengths, Headers.make]

theorem contentLengths_setHeader_of_ne (msg : Message) {name : String} (value : String)
    (hne : Headers.lowerName name ≠ Headers.lowerName "Content-Length") :
    (msg.setHeader name value).contentLengths = msg.contentLengths := by
  cases hheaders : msg.headers <;>
    simp [contentLengths, setHeader, hheaders, Headers.contentLengths_set_of_ne _ _ hne]

theorem contentLengths_setHeader {msg : Message} (hheaders : msg.HasHeaders) (value : String) :
    (msg.setHeader "Content-Length" value).contentLengths = [value] := by
  obtain ⟨headers, hsome⟩ := Option.isSome_iff_exists.mp hheaders
  simp [contentLengths, setHeader, hsome, Headers.contentLengths_set]

end Message

/-- The operations on a message that do not name the Content-Length. -/
inductive MessageOp where
  | status (code : UInt16) (message : String)
  | appendBody (bodyIn : Option (List Byte))
  | appendCopyFromBuffer (buf : Option (List Byte)) (copied : Bool)
  | clearBody
  | SetDefaulUserError (content : List Byte)
  | setDefaulServerError
  | setServiceUnavailableError
  | setTooManyRequestsError
  | setTimeOutServerError
  deriving DecidableEq

namespace MessageOp

def apply (msg : Message) : MessageOp → Message
  | status code message => msg.status code.toNat message
  | appendBody bodyIn => msg.appendBody bodyIn
  | appendCopyFromBuffer buf copied => msg.appendCopyFromBuffer buf copied
  | clearBody => msg.clearBody
  | SetDefaulUserError content => msg.SetDefaulUserError content
  | setDefaulServerError => msg.setDefaulServerError
  | setServiceUnavailableError => msg.setServiceUnavailableError
  | setTooManyRequestsError => msg.setTooManyRequestsError
  | setTimeOutServerError => msg.setTimeOutServerError

def isUserError : MessageOp → Bool
  | SetDefaulUserError _ => true
  | _ => false

variable {msg : Message}

theorem headers_appendBody (bodyIn : Option (List Byte)) :
    (msg.appendBody bodyIn).headers = msg.headers := by
  cases bodyIn <;> rfl

theorem headers_appendCopyFromBuffer (buf : Option (List Byte)) (copied : Bool) :
    (msg.appendCopyFromBuffer buf copied).headers = msg.headers := by
  cases buf with
  | none => rfl
  | some bytes =>
      rw [Message.appendCopyFromBuffer]
      split_ifs
      · exact headers_appendBody _
      · rfl

theorem hasHeaders_SetDefaulUserError (msg : Message) (content : List Byte) :
    (msg.SetDefaulUserError content).HasHeaders :=
  ((Message.hasHeaders_status msg _ _).setHeader _ _).setHeader _ _

theorem hasHeaders_apply (op : MessageOp) (hheaders : msg.HasHeaders) :
    (apply msg op).HasHeaders := by
  cases op with
  | status code message => exact Message.hasHeaders_status msg _ _
  | appendBody bodyIn => rwa [apply, Message.HasHeaders, headers_appendBody]
  | appendCopyFromBuffer buf copied =>
      rwa [apply, Message.HasHeaders, headers_appendCopyFromBuffer]
  | clearBody => exact hheaders.clearBody
  | SetDefaulUserError content => exact hasHeaders_SetDefaulUserError msg content
  | setDefaulServerError => exact Message.hasHeaders_setDefaulServerError msg
  | setServiceUnavailableError => exact Message.hasHeaders_setServiceUnavailableError msg
  | setTooManyRequestsError => exact Message.hasHeaders_setTooManyRequestsError msg
  | setTimeOutServerError => exact Message.hasHeaders_setTimeOutServerError msg

theorem contentLengths_SetDefaulUserError (msg : Message) (content : List Byte) :
    (msg.SetDefaulUserError content).contentLengths = [Nat.repr content.length] :=
  Message.contentLengths_setHeader ((Message.hasHeaders_status msg _ _).setHeader _ _) _

/-- Only `SetDefaulUserError` puts a Content-Length in, and nothing takes one out. -/
theorem contentLengths_apply {op : MessageOp} (hother : op.isUserError = false) :
    (apply msg op).contentLengths = msg.contentLengths := by
  have htype : Headers.lowerName "Content-Type" ≠ Headers.lowerName "Content-Length" := by decide
  have hconnection : Headers.lowerName "Connection" ≠ Headers.lowerName "Content-Length" := by
    decide
  cases op with
  | status code message => exact Message.contentLengths_status _ _
  | appendBody bodyIn => rw [apply, Message.contentLengths, headers_appendBody, Message.contentLengths]
  | appendCopyFromBuffer buf copied =>
      rw [apply, Message.contentLengths, headers_appendCopyFromBuffer, Message.contentLengths]
  | clearBody => rfl
  | SetDefaulUserError content => cases hother
  | setDefaulServerError =>
      exact (Message.contentLengths_setHeader_of_ne _ _ htype).trans
        (Message.contentLengths_status _ _)
  | setServiceUnavailableError =>
      exact (Message.contentLengths_setHeader_of_ne _ _ hconnection).trans
        ((Message.contentLengths_setHeader_of_ne _ _ htype).trans
          (Message.contentLengths_status _ _))
  | setTooManyRequestsError =>
      exact (Message.contentLengths_setHeader_of_ne _ _ hconnection).trans
        ((Message.contentLengths_setHeader_of_ne _ _ htype).trans
          (Message.contentLengths_status _ _))
  | setTimeOutServerError =>
      exact (Message.contentLengths_setHeader_of_ne _ _ htype).trans
        (Message.contentLengths_status _ _)

end MessageOp

/-! ## Messages built by operations -/

def built (statusCode : UInt16) (statusMessage : String) (ops : List MessageOp) : Message :=
  run MessageOp.apply (Message.ofStatus statusCode statusMessage) ops

theorem hasHeaders_built (statusCode : UInt16) (statusMessage : String) (ops : List MessageOp) :
    (built statusCode statusMessage ops).HasHeaders :=
  run_invariant Message.HasHeaders (Message.hasHeaders_status _ _ _)
    (fun _ op hheaders => MessageOp.hasHeaders_apply op hheaders) ops

theorem contentLengths_built_eq_nil_iff (statusCode : UInt16) (statusMessage : String)
    (ops : List MessageOp) : (built statusCode statusMessage ops).contentLengths = [] ↔
      ∀ op ∈ ops, op.isUserError = false := by
  induction ops using List.reverseRecOn with
  | nil =>
      rw [built, run_nil, Message.ofStatus, Message.contentLengths_status]
      simp [Message.contentLengths]
  | append_singleton ops op ih =>
      rw [built] at ih
      rw [built, run_append, run_cons, run_nil, List.forall_mem_append, ← ih,
        List.forall_mem_singleton]
      cases huser : op.isUserError with
      | false =>
          rw [MessageOp.contentLengths_apply huser]
          simp
      | true =>
          cases op <;> simp [MessageOp.isUserError] at huser
          simp [MessageOp.apply, MessageOp.contentLengths_SetDefaulUserError]

namespace ResponseHandler

variable {r : ResponseHandler}

def sentBody (calls : List DownstreamCall) : List Byte :=
  calls.flatMap fun call => match call with
    | .sendBody body => body
    | _ => []

def ContentLengthIsRight (r : ResponseHandler) : Prop :=
  r.chunked = false → 200 ≤ r.msg.getStatus → ∃ sent, r.headerCalls = [.sendHeaders sent] ∧
    sent.contentLengths = [Nat.repr (sentBody r.bodyCalls).length]

theorem length_sentBody (hchunked : r.chunked = false) :
    (sentBody r.bodyCalls).length = r.msg.body.elim 0 List.length := by
  cases hbody : r.msg.body <;> simp [bodyCalls, hbody, hchunked, sentBody]

theorem headerCalls_of_not_chunked {headers : Headers} (hheaders : r.msg.headers = some headers)
    (hchunked : r.chunked = false) (hstatus : 200 ≤ headers.statusCode) :
    r.headerCalls = [.sendHeaders (headers.add "Content-Length"
      (Nat.repr (sentBody r.bodyCalls).length))] := by
  simp only [headerCalls, hheaders, hchunked, length_sentBody hchunked, if_pos hstatus,
    Bool.false_eq_true, if_false]

/-- The one that `_send` adds is the only one and right exactly when no other one is there. -/
theorem contentLengthIsRight_iff_of_hasHeaders (hheaders : r.msg.HasHeaders) :
    r.ContentLengthIsRight ↔
      r.sendEOM = false ∨ r.msg.getStatus < 200 ∨ r.msg.contentLengths = [] := by
  obtain ⟨headers, hsome⟩ := Option.isSome_iff_exists.mp hheaders
  have hgetStatus : r.msg.getStatus = headers.statusCode := by rw [Message.getStatus, hsome]; rfl
  have hlengths : r.msg.contentLengths = headers.contentLengths := by
    rw [Message.contentLengths, hsome]
    rfl
  rw [ContentLengthIsRight, hgetStatus, hlengths]
  cases heom : r.sendEOM with
  | false => simp [chunked, heom, hsome]
  | true =>
      have hchunked : r.chunked = false := by simp [chunked, heom, hsome]
      rcases lt_or_ge headers.statusCode 200 with hlow | hstatus
      · simp [hlow, Nat.not_le.mpr hlow]
      · rw [headerCalls_of_not_chunked hsome hchunked hstatus]
        simp [hchunked, hstatus, Headers.contentLengths_add, Nat.not_lt.mpr hstatus]

/-- Of a message built by the operations the Content-Length is right exactly when none of
them was `SetDefaulUserError`, where a Content-Length is due at all. -/
theorem contentLengthIsRight_iff (r : ResponseHandler) (statusCode : UInt16)
    (statusMessage : String) (ops : List MessageOp) :
    (r.setResponseMsg (built statusCode statusMessage ops)).ContentLengthIsRight ↔
      r.sendEOM = false ∨ (built statusCode statusMessage ops).getStatus < 200 ∨
        ∀ op ∈ ops, op.isUserError = false := by
  rw [contentLengthIsRight_iff_of_hasHeaders (hasHeaders_built statusCode statusMessage ops),
    ← contentLengths_built_eq_nil_iff statusCode statusMessage ops]
  rfl

/-- The default user error alone. -/
theorem contentLength_twice :
    ¬ ∀ (r : ResponseHandler) (statusCode : UInt16) (statusMessage : String)
      (ops : List MessageOp),
      (r.setResponseMsg (built statusCode statusMessage ops)).ContentLengthIsRight := by
  intro hall
  obtain ⟨sent, hsent, hlengths⟩ := hall (make true) 200 "" [.SetDefaulUserError [65]]
    (by decide) (by decide)
  have hcalls : ((make true).setResponseMsg
      (built 200 "" [.SetDefaulUserError [65]])).headerCalls =
        [.sendHeaders ((⟨400, "", [("Content-Type", "text/html"), ("Content-Length", "1"),
          ("Content-Length", "1")], false⟩ : Headers))] := by decide
  rw [hcalls] at hsent
  cases hsent
  exact absurd hlengths (by decide)

end ResponseHandler

end CppPlay.Proxygen
