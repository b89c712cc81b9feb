import CppPlay.Proxygen.ContentLength

/-!
# The events of a response

What the response handler hands down in any sequence of calls, where the lower
handler may throw.  A send that fails leaves the response unsent, but its headers are
gone, and a later send begins anew.
-/

namespace CppPlay.Proxygen

open CppPlay.Lib

/-- A call of the lower handler that throws may have had its effect before. -/
inductive CallResult where
  | returned
  | threw (what : Option String) (delivered : Bool)
  deriving DecidableEq

/-- The calls that were made, those of them that had their effect, and the exception. -/
structure HandedDown where
  made : List DownstreamCall
  delivered : List DownstreamCall
  exception : Option (Option String)

def handDown (results : ℕ → CallResult) : List DownstreamCall → HandedDown
  | [] => ⟨[], [], none⟩
  | call :: calls =>
      match results 0 with
      | .returned =>
          let rest := handDown (fun n => results (n + 1)) calls
          ⟨call :: rest.made, call :: rest.delivered, rest.exception⟩
      | .threw what delivered => ⟨[call], if delivered then [call] else [], some what⟩

def DownstreamCall.isSendBody : DownstreamCall → Bool
  | sendBody _ => true
  | _ => false

structure SendResult where
  handler : ResponseHandler
  status : Bool
  logged : List String

namespace ResponseHandler

/-- The calls of `_send` when none of them throws. -/
def planned (r : ResponseHandler) : List DownstreamCall :=
  r.headerCalls ++ (r.bodyCalls ++ if r.sendEOM then [.sendEOM] else [])

/-- Whatever is thrown the headers are gone, and the body once it was moved into a call. -/
def trySend_ (r : ResponseHandler) (results : ℕ → CallResult) : ResponseHandler :=
  let down := handDown results r.planned
  { r with
    msg := ⟨none, if down.made.any DownstreamCall.isSendBody then none else r.msg.body⟩
    calls := r.calls ++ down.delivered
    sends := r.sends ++ [r.sendEOM] }

/-- `send` with its handlers for exceptions. -/
def trySend (r : ResponseHandler) (results : ℕ → CallResult) : SendResult :=
  if r.wasSent then ⟨r, true, []⟩
  else
    match (handDown results r.planned).exception with
    | none => ⟨{ r.trySend_ results with wasSent := true }, true, []⟩
    | some (some what) => ⟨r.trySend_ results, false, ["exception " ++ what]⟩
    | some none => ⟨r.trySend_ results, false, ["unknown exception."]⟩

def setEOMOnSend (r : ResponseHandler) (sendEOM : Bool) : ResponseHandler :=
  { r with sendEOM := sendEOM }

def trySendWithEOM (r : ResponseHandler) (results : ℕ → CallResult) : SendResult :=
  (r.setEOMOnSend true).trySend results

def tryCopyAndSendWithEOM (r : ResponseHandler) (buf : Option (List Byte)) (copied : Bool)
    (results : ℕ → CallResult) : SendResult :=
  (r.setResponseMsg (r.msg.appendCopyFromBuffer buf copied)).trySendWithEOM results

def trySendDefaulUserError (r : ResponseHandler) (content : List Byte)
    (results : ℕ → CallResult) : SendResult :=
  (r.setResponseMsg (r.msg.SetDefaulUserError content)).trySendWithEOM results

def trySendDefauServerError (r : ResponseHandler) (results : ℕ → CallResult) : SendResult :=
  (r.setResponseMsg r.msg.setDefaulServerError).trySendWithEOM results

end ResponseHandler

inductive ResponseOp where
  | setResponseMsg (response : Message)
  | setEOMOnSend (sendEOM : Bool)
  | send (results : ℕ → CallResult)
  | sendWithEOM (results : ℕ → CallResult)
  | copyAndSendWithEOM (buf : Option (List Byte)) (copied : Bool) (results : ℕ → CallResult)
  | sendDefaulUserError (content : List Byte) (results : ℕ → CallResult)
  | sendDefauServerError (results : ℕ → CallResult)

/-- The handler, whether a call that asks for the EOM has returned true, and the log. -/
structure ResponseRun where
  handler : ResponseHandler
  promised : Bool
  log : List String

namespace ResponseRun

def start : ResponseRun := ⟨ResponseHandler.make true, false, []⟩

def sent (s : ResponseRun) (withEOM : Bool) (result : SendResult) : ResponseRun :=
  ⟨result.handler, s.promised || (withEOM && result.status), s.log ++ result.logged⟩

def step (s : ResponseRun) : ResponseOp → ResponseRun
  | .setResponseMsg response => { s with handler := s.handler.setResponseMsg response }
  | .setEOMOnSend sendEOM => { s with handler := s.handler.setEOMOnSend sendEOM }
  | .send results => s.sent false (s.handler.trySend results)
  | .sendWithEOM results => s.sent true (s.handler.trySendWithEOM results)
  | .copyAndSendWithEOM buf copied results =>
      s.sent true (s.handler.tryCopyAndSendWithEOM buf copied results)
  | .sendDefaulUserError content results =>
      s.sent true (s.handler.trySendDefaulUserError content results)
  | .sendDefauServerError results => s.sent true (s.handler.trySendDefauServerError results)

end ResponseRun

/-! ## The grammar -/

def bodyData (chunked : Bool) : Option (List Byte) → List DownstreamCall
  | none => []
  | some body =>
      if chunked then [.sendChunkHeader body.length, .sendBody body, .sendChunkTerminator]
      else [.sendBody body]

/-- One header block, the body data, and one EOM. -/
def response (headers : Headers) (chunked : Bool) (body : Option (List Byte)) :
    List DownstreamCall :=
  .sendHeaders headers :: (bodyData chunked body ++ [.sendEOM])

def IsResponsePrefix (calls : List DownstreamCall) : Prop :=
  ∃ headers chunked body, calls <+: response headers chunked body

structure Grammar (calls : List DownstreamCall) (promised : Bool) : Prop where
  begins : IsResponsePrefix calls
  ends : promised = true → .sendEOM ∈ calls

namespace ResponseHandler

/-- Nothing is to be handed down, or the first call throws without effect. -/
def Silent (r : ResponseHandler) (results : ℕ → CallResult) : Prop :=
  (r.msg = ⟨none, none⟩ ∧ r.sendEOM = false) ∨ ∃ what, results 0 = .threw what false

/-- The response begins, or an attempt that failed is taken up where it can be: at the body
data, or at the EOM. -/
def Continues (r : ResponseHandler) : Prop :=
  (r.calls = [] ∧ r.msg.HasHeaders) ∨
    (r.msg.headers = none ∧ r.msg.body ≠ none ∧ ∃ headers, r.calls = [.sendHeaders headers]) ∨
    (r.msg.headers = none ∧ r.msg.body = none ∧ ∃ headers chunked body,
      r.calls = .sendHeaders headers :: bodyData chunked body)

def SendOk (r : ResponseHandler) (results : ℕ → CallResult) (withEOM : Bool) : Prop :=
  if r.wasSent then withEOM = true → .sendEOM ∈ r.calls
  else r.Silent results ∨ r.Continues

end ResponseHandler

def ResponseRun.OpOk (s : ResponseRun) : ResponseOp → Prop
  | .setResponseMsg _ => True
  | .setEOMOnSend _ => True
  | .send results => s.handler.SendOk results false
  | .sendWithEOM results => (s.handler.setEOMOnSend true).SendOk results true
  | .copyAndSendWithEOM buf copied results =>
      ((s.handler.setResponseMsg (s.handler.msg.appendCopyFromBuffer buf copied)).setEOMOnSend
        true).SendOk results true
  | .sendDefaulUserError content results =>
      ((s.handler.setResponseMsg (s.handler.msg.SetDefaulUserError content)).setEOMOnSend
        true).SendOk results true
  | .sendDefauServerError results =>
      ((s.handler.setResponseMsg s.handler.msg.setDefaulServerError).setEOMOnSend
        true).SendOk results true

/-! ## Handing down -/

section

variable (results : ℕ → CallResult) (calls : List DownstreamCall)

theorem delivered_begins : (handDown results calls).delivered <+: calls := by
  induction calls generalizing results with
  | nil => exact List.prefix_refl _
  | cons call calls ih =>
      rw [handDown]
      cases results 0 with
      | returned => exact (List.cons_prefix_cons).mpr ⟨rfl, ih _⟩
      | threw what delivered =>
          cases delivered with
          | true => exact ⟨calls, rfl⟩
          | false => exact List.nil_prefix

theorem handDown_of_no_exception (hnone : (handDown results calls).exception = none) :
    (handDown results calls).made = calls ∧ (handDown results calls).delivered = calls := by
  induction calls generalizing results with
  | nil => exact ⟨rfl, rfl⟩
  | cons call calls ih =>
      rw [handDown] at hnone ⊢
      cases hresult : results 0 with
      | returned =>
          simp only [hresult] at hnone ⊢
          rw [(ih _ hnone).1, (ih _ hnone).2]
          exact ⟨rfl, rfl⟩
      | threw what delivered => simp [hresult] at hnone

theorem delivered_eq_nil_iff : (handDown results calls).delivered = [] ↔
    calls = [] ∨ ∃ what, results 0 = .threw what false := by
  cases calls with
  | nil => simp [handDown]
  | cons call calls =>
      rw [handDown]
      cases hresult : results 0 with
      | returned => simp
      | threw what delivered => cases delivered <;> simp

end

namespace ResponseHandler

variable {r : ResponseHandler} {results : ℕ → CallResult} {promised withEOM : Bool}

/-! ## The calls of one send -/

theorem bodyCalls_eq (r : ResponseHandler) : r.bodyCalls = bodyData r.chunked r.msg.body := by
  rw [bodyCalls]
  cases r.msg.body <;> rfl

theorem planned_of_headers (hheaders : r.msg.HasHeaders) : ∃ headers, r.planned =
    .sendHeaders headers :: (bodyData r.chunked r.msg.body ++
      if r.sendEOM then [.sendEOM] else []) := by
  obtain ⟨headers, hsome⟩ := Option.isSome_iff_exists.mp hheaders
  have hheaderCalls : ∃ sentHeaders, r.headerCalls = [.sendHeaders sentHeaders] := by
    simp only [headerCalls, hsome]
    split_ifs
    all_goals exact ⟨_, rfl⟩
  obtain ⟨sentHeaders, hheaderCalls⟩ := hheaderCalls
  exact ⟨sentHeaders, by rw [planned, bodyCalls_eq, hheaderCalls]; rfl⟩

/-- Without headers the body goes in chunks. -/
theorem planned_of_none (hnone : r.msg.headers = none) :
    r.planned = bodyData true r.msg.body ++ if r.sendEOM then [.sendEOM] else [] := by
  have hchunked : r.chunked = true := by simp [chunked, hnone]
  rw [planned, bodyCalls_eq, headerCalls, hnone, hchunked]
  rfl

theorem planned_eq_nil_iff : r.planned = [] ↔ r.msg = ⟨none, none⟩ ∧ r.sendEOM = false := by
  cases hmsg : r.msg with
  | mk headers body =>
      cases headers with
      | some headers =>
          obtain ⟨sentHeaders, hplanned⟩ :=
            planned_of_headers (r := r) (by rw [hmsg]; rfl)
          simp [hplanned]
      | none =>
          rw [planned_of_none (by rw [hmsg]), hmsg]
          cases body <;> cases r.sendEOM <;> simp [bodyData]

theorem delivered_eq_nil_iff_silent :
    (handDown results r.planned).delivered = [] ↔ r.Silent results := by
  rw [delivered_eq_nil_iff, planned_eq_nil_iff, Silent]

theorem sendEOM_mem_planned (heom : r.sendEOM = true) : .sendEOM ∈ r.planned := by
  rw [planned, if_pos heom]
  simp

theorem calls_trySend (hunsent : r.wasSent = false) : (r.trySend results).handler.calls =
    r.calls ++ (handDown results r.planned).delivered := by
  rw [trySend, if_neg (by simp [hunsent])]
  cases (handDown results r.planned).exception with
  | none => rfl
  | some what => cases what <;> rfl

theorem status_trySend (hunsent : r.wasSent = false) (hstatus : (r.trySend results).status = true) :
    (handDown results r.planned).exception = none := by
  rw [trySend, if_neg (by simp [hunsent])] at hstatus
  cases hexception : (handDown results r.planned).exception with
  | none => rfl
  | some what => cases what <;> simp [hexception] at hstatus

theorem trySend_of_sent (hsent : r.wasSent = true) : r.trySend results = ⟨r, true, []⟩ :=
  if_pos hsent

theorem handDown_of_returned (calls : List DownstreamCall) {results : ℕ → CallResult}
    (hreturned : ∀ n, results n = .returned) :
    handDown results calls = ⟨calls, calls, none⟩ := by
  induction calls generalizing results with
  | nil => rfl
  | cons call calls ih =>
      rw [handDown, hreturned 0]
      simp only [ih fun n => hreturned (n + 1)]

theorem trySend_of_returned (hreturned : ∀ n, results n = .returned) :
    r.trySend results = ⟨r.send, true, []⟩ := by
  have hbody : (if r.planned.any DownstreamCall.isSendBody then none else r.msg.body) = none := by
    cases hmsg : r.msg.body with
    | none => simp
    | some body =>
        cases hchunked : r.chunked <;>
          simp [planned, bodyCalls, hmsg, hchunked, DownstreamCall.isSendBody]
  have hsend_ : r.trySend_ results = r.send_ := by
    rw [trySend_, handDown_of_returned _ hreturned]
    simp only [hbody]
    rfl
  rw [trySend, send, handDown_of_returned _ hreturned]
  cases hsent : r.wasSent with
  | true => rfl
  | false =>
      rw [if_neg Bool.false_ne_true, if_neg Bool.false_ne_true]
      simp only [hsend_]

/-! ## Prefixes of a response -/

theorem before_call {calls tail : List DownstreamCall} {call : DownstreamCall}
    (hbegins : IsResponsePrefix (calls ++ call :: tail)) :
    (calls = [] ∧ ∃ headers, call = .sendHeaders headers) ∨
      ∃ headers chunked body rest later, calls = .sendHeaders headers :: rest ∧
        rest ++ call :: later = bodyData chunked body ++ [.sendEOM] := by
  obtain ⟨headers, chunked, body, later, hword⟩ := hbegins
  rw [response, List.append_assoc, List.cons_append] at hword
  cases calls with
  | nil =>
      rw [List.nil_append, List.cons_eq_cons] at hword
      exact .inl ⟨rfl, headers, hword.1⟩
  | cons first rest =>
      rw [List.cons_append, List.cons_eq_cons] at hword
      exact .inr ⟨headers, chunked, body, rest, tail ++ later, by rw [hword.1], hword.2⟩

theorem sendHeaders_notMem (headers : Headers) (chunked : Bool) (body : Option (List Byte)) :
    .sendHeaders headers ∉ bodyData chunked body ++ [.sendEOM] := by
  cases body <;> cases chunked <;> simp [bodyData]

theorem sendEOM_notMem (chunked : Bool) (body : Option (List Byte)) :
    .sendEOM ∉ bodyData chunked body := by
  cases body <;> cases chunked <;> simp [bodyData]

theorem sendChunkHeader_notMem_tail (len : ℕ) (chunked : Bool) (body : Option (List Byte)) :
    DownstreamCall.sendChunkHeader len ∉
      (bodyData chunked body ++ [DownstreamCall.sendEOM]).tail := by
  cases body <;> cases chunked <;> simp [bodyData]

theorem eq_nil_of_sendHeaders {calls tail : List DownstreamCall} {headers : Headers}
    (hbegins : IsResponsePrefix (calls ++ .sendHeaders headers :: tail)) : calls = [] := by
  rcases before_call hbegins with ⟨hnil, _⟩ | ⟨_, chunked, body, rest, later, _, hrest⟩
  · exact hnil
  · have hmem : .sendHeaders headers ∈ rest ++ .sendHeaders headers :: later := by simp
    rw [hrest] at hmem
    exact absurd hmem (sendHeaders_notMem headers chunked body)

theorem eq_headers_of_sendChunkHeader {calls tail : List DownstreamCall} {len : ℕ}
    (hbegins : IsResponsePrefix (calls ++ .sendChunkHeader len :: tail)) :
    ∃ headers, calls = [.sendHeaders headers] := by
  rcases before_call hbegins with ⟨_, _, hcall⟩ | ⟨headers, chunked, body, rest, later, hcalls, hrest⟩
  · cases hcall
  · refine ⟨headers, ?_⟩
    cases rest with
    | nil => exact hcalls
    | cons first rest =>
        have hlater : DownstreamCall.sendChunkHeader len ∈
            (bodyData chunked body ++ [DownstreamCall.sendEOM]).tail := by
          rw [← hrest]
          simp
        exact absurd hlater (sendChunkHeader_notMem_tail len chunked body)

theorem eq_of_sendEOM {calls tail : List DownstreamCall}
    (hbegins : IsResponsePrefix (calls ++ .sendEOM :: tail)) :
    ∃ headers chunked body, calls = .sendHeaders headers :: bodyData chunked body := by
  rcases before_call hbegins with ⟨_, _, hcall⟩ | ⟨headers, chunked, body, rest, later, hcalls, hrest⟩
  · cases hcall
  · have hsame := (List.append_cons_inj_of_notMem (sendEOM_notMem chunked body)
      (List.not_mem_nil)).mp hrest.symm
    exact ⟨headers, chunked, body, by rw [hcalls, ← hsame.1]⟩

/-! ## One send -/

theorem isResponsePrefix_planned (hcontinues : r.Continues) :
    IsResponsePrefix (r.calls ++ r.planned) := by
  have heom : ∀ calls : List DownstreamCall,
      calls ++ (if r.sendEOM then [.sendEOM] else []) <+: calls ++ [.sendEOM] := by
    intro calls
    cases r.sendEOM with
    | true => exact List.prefix_refl _
    | false => exact List.prefix_append_right_inj calls |>.mpr List.nil_prefix
  rcases hcontinues with ⟨hcalls, hheaders⟩ | ⟨hnone, hbody, headers, hcalls⟩ |
    ⟨hnone, hbody, headers, chunked, body, hcalls⟩
  · obtain ⟨headers, hplanned⟩ := planned_of_headers hheaders
    refine ⟨headers, r.chunked, r.msg.body, ?_⟩
    rw [hcalls, hplanned, List.nil_append, response, List.cons_prefix_cons]
    exact ⟨rfl, heom _⟩
  · refine ⟨headers, true, r.msg.body, ?_⟩
    rw [hcalls, planned_of_none hnone, response, List.singleton_append, List.cons_prefix_cons]
    exact ⟨rfl, heom _⟩
  · refine ⟨headers, chunked, body, ?_⟩
    rw [hcalls, planned_of_none hnone, hbody, response, List.cons_append, List.cons_prefix_cons]
    exact ⟨rfl, heom _⟩

theorem isResponsePrefix_of_le {calls calls' : List DownstreamCall}
    (hbegins : IsResponsePrefix calls) (hle : calls' <+: calls) : IsResponsePrefix calls' := by
  obtain ⟨headers, chunked, body, hword⟩ := hbegins
  exact ⟨headers, chunked, body, hle.trans hword⟩

theorem grammar_trySend (heom : withEOM = true → r.sendEOM = true)
    (hgrammar : Grammar r.calls promised) (hok : r.SendOk results withEOM) :
    Grammar (r.trySend results).handler.calls
      (promised || (withEOM && (r.trySend results).status)) := by
  rw [SendOk] at hok
  cases hsent : r.wasSent with
  | true =>
      rw [if_pos hsent] at hok
      rw [trySend_of_sent hsent]
      refine ⟨hgrammar.begins, fun hpromised => ?_⟩
      rcases Bool.or_eq_true_iff.mp hpromised with hbefore | hnow
      · exact hgrammar.ends hbefore
      · exact hok (Bool.and_eq_true_iff.mp hnow).1
  | false =>
      rw [if_neg (by simp [hsent])] at hok
      rw [calls_trySend hsent]
      constructor
      · rcases hok with hsilent | hcontinues
        · rw [delivered_eq_nil_iff_silent.mpr hsilent, List.append_nil]
          exact hgrammar.begins
        · exact isResponsePrefix_of_le (isResponsePrefix_planned hcontinues)
            ((List.prefix_append_right_inj _).mpr (delivered_begins _ _))
      · intro hpromised
        rcases Bool.or_eq_true_iff.mp hpromised with hbefore | hnow
        · exact List.mem_append_left _ (hgrammar.ends hbefore)
        · obtain ⟨hwith, hstatus⟩ := Bool.and_eq_true_iff.mp hnow
          have hall := (handDown_of_no_exception _ _ (status_trySend hsent hstatus)).2
          rw [hall]
          exact List.mem_append_right _ (sendEOM_mem_planned (heom hwith))

/-- A first call that has its effect and that the grammar allows comes from an attempt that
continues the response. -/
theorem continues_of_isResponsePrefix {call : DownstreamCall} {later tail : List DownstreamCall}
    (hplanned : r.planned = call :: later)
    (hbegins : IsResponsePrefix (r.calls ++ call :: tail)) : r.Continues := by
  by_cases hheaders : r.msg.HasHeaders
  · obtain ⟨headers, hcalls⟩ := planned_of_headers hheaders
    rw [hcalls, List.cons_eq_cons] at hplanned
    rw [← hplanned.1] at hbegins
    exact .inl ⟨eq_nil_of_sendHeaders hbegins, hheaders⟩
  · have hnone : r.msg.headers = none := by
      rw [Message.HasHeaders, Option.isSome_iff_ne_none, not_not] at hheaders
      exact hheaders
    rw [planned_of_none hnone] at hplanned
    cases hbody : r.msg.body with
    | some body =>
        simp only [hbody, bodyData, if_true, List.cons_append, List.cons_eq_cons] at hplanned
        rw [← hplanned.1] at hbegins
        refine .inr (.inl ⟨hnone, ?_, eq_headers_of_sendChunkHeader hbegins⟩)
        rw [hbody]
        exact Option.some_ne_none _
    | none =>
        have hcall : call = .sendEOM := by
          rw [hbody] at hplanned
          cases heom : r.sendEOM with
          | true =>
              simp only [heom, bodyData, if_true, List.nil_append, List.cons_eq_cons] at hplanned
              exact hplanned.1.symm
          | false => simp [heom, bodyData] at hplanned
        rw [hcall] at hbegins
        exact .inr (.inr ⟨hnone, hbody, eq_of_sendEOM hbegins⟩)

theorem not_grammar_trySend (hbad : ¬ r.SendOk results withEOM) :
    ¬ Grammar (r.trySend results).handler.calls
      (promised || (withEOM && (r.trySend results).status)) := by
  intro hgrammar
  apply hbad
  rw [SendOk]
  cases hsent : r.wasSent with
  | true =>
      rw [if_pos rfl]
      intro hwith
      rw [trySend_of_sent hsent] at hgrammar
      exact hgrammar.ends (by simp [hwith])
  | false =>
      rw [if_neg Bool.false_ne_true]
      rw [calls_trySend hsent] at hgrammar
      cases hdelivered : (handDown results r.planned).delivered with
      | nil => exact .inl (delivered_eq_nil_iff_silent.mp hdelivered)
      | cons call tail =>
          have hbegins := hgrammar.begins
          obtain ⟨later, hplanned⟩ := delivered_begins results r.planned
          rw [hdelivered] at hbegins hplanned
          exact .inr (continues_of_isResponsePrefix hplanned.symm hbegins)

end ResponseHandler

namespace ResponseRun

/-! ## Runs -/

/-- The calls so far begin a response, and where the EOM was promised it is among them. -/
def KeepsGrammar (s : ResponseRun) : Prop := Grammar s.handler.calls s.promised

theorem keepsGrammar_step {s : ResponseRun} {op : ResponseOp} (hkeeps : s.KeepsGrammar)
    (hok : s.OpOk op) : (s.step op).KeepsGrammar := by
  cases op with
  | setResponseMsg response => exact hkeeps
  | setEOMOnSend sendEOM => exact hkeeps
  | send results =>
      exact ResponseHandler.grammar_trySend (fun hfalse => absurd hfalse Bool.false_ne_true) hkeeps hok
  | sendWithEOM results => exact ResponseHandler.grammar_trySend (fun _ => rfl) hkeeps hok
  | copyAndSendWithEOM buf copied results =>
      exact ResponseHandler.grammar_trySend (fun _ => rfl) hkeeps hok
  | sendDefaulUserError content results =>
      exact ResponseHandler.grammar_trySend (fun _ => rfl) hkeeps hok
  | sendDefauServerError results =>
      exact ResponseHandler.grammar_trySend (fun _ => rfl) hkeeps hok

theorem not_keepsGrammar_step {s : ResponseRun} {op : ResponseOp} (hbad : ¬ s.OpOk op) :
    ¬ (s.step op).KeepsGrammar := by
  cases op with
  | setResponseMsg response => exact absurd trivial hbad
  | setEOMOnSend sendEOM => exact absurd trivial hbad
  | send results => exact ResponseHandler.not_grammar_trySend hbad
  | sendWithEOM results => exact ResponseHandler.not_grammar_trySend hbad
  | copyAndSendWithEOM buf copied results => exact ResponseHandler.not_grammar_trySend hbad
  | sendDefaulUserError content results => exact ResponseHandler.not_grammar_trySend hbad
  | sendDefauServerError results => exact ResponseHandler.not_grammar_trySend hbad

theorem keepsGrammar_start : start.KeepsGrammar := by
  refine ⟨⟨Headers.make, false, none, List.nil_prefix⟩, fun hpromised => ?_⟩
  exact absurd hpromised Bool.false_ne_true

/-- The grammar is kept through a run exactly when each send begins the response, takes it
up where an attempt that failed can be taken up, or asks for no EOM that is missing. -/
theorem keepsGrammar_iff (ops : List ResponseOp) :
    (∀ first, first <+: ops → (run step start first).KeepsGrammar) ↔
      ∀ earlier op later, ops = earlier ++ op :: later → (run step start earlier).OpOk op :=
  always_iff_of_steps step start KeepsGrammar KeepsGrammar OpOk keepsGrammar_start
    (fun _ hkeeps => hkeeps) (fun _ _ => keepsGrammar_step)
    (fun _ _ _ => not_keepsGrammar_step) ops

/-- A response sent without EOM, and then `sendWithEOM`. -/
theorem not_keepsGrammar_sendWithEOM :
    ¬ ∀ ops : List ResponseOp, (run step start ops).KeepsGrammar := by
  intro hall
  have hkeeps := hall [.setEOMOnSend false, .send fun _ => .returned, .sendWithEOM fun _ => .returned]
  exact absurd (hkeeps.ends (by decide)) (by decide)

end ResponseRun

end CppPlay.Proxygen
