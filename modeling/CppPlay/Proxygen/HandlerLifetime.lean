import CppPlay.Proxygen.RequestHandlerImpl

/-!
# The lifetime of a request handler

The adaptor of a transaction calls the handler, which deletes itself in `requestComplete`
and in `onError`, while the executor and the event base may hold its raw pointers.
-/

namespace CppPlay.Proxygen

open CppPlay.Lib

inductive ProxygenError where
  | errorNone
  | unsupportedExpectation
  | timeout
  | read
  | write
  deriving DecidableEq

inductive TransactionError where
  | timeout
  | ingress
  | egress

inductive AdaptorAnswer where
  | response (code : ℕ) (message : String)
  | sendAbort

def AdaptorAnswer.isResponse : AdaptorAnswer → Bool
  | .response _ _ => true
  | .sendAbort => false

/-- What happens to a request: the transaction calls its adaptor, or the executor and the
event base go on with what they hold.  `expect` is the value of the Expect header. -/
inductive LifeEvent where
  | setAcceptor (stopRequested : Bool) (counters : Option ServerCounters)
  | onHeadersComplete (expect : Option (List Char)) (headers : Option Headers)
  | onBody (body : Option (List Byte))
  | onEOM (getTimeOut : Option ℕ) (add : AddOutcome)
  | onError (error : TransactionError)
  | detachTransaction
  | beginTask (i : ℕ)
  | endTask (i : ℕ) (makeResponse : Option AppResponse)
  | expire (i : ℕ)
  | runInEventBase

def LifeEvent.IsOwn : LifeEvent → Prop
  | .beginTask _ | .endTask _ _ | .expire _ | .runInEventBase => True
  | _ => False

/-- The adaptor with its `err_`, until it is deleted, and the handler, until it is.
`misused` records that the handler or its response handler was used afterwards. -/
structure RequestLife where
  server : RequestServer
  adaptor : Option ProxygenError
  answers : List AdaptorAnswer
  deleted : Bool
  misused : Bool

namespace RequestLife

def start : RequestLife := ⟨RequestServer.start, some .errorNone, [], false, false⟩

/-- A call that uses the handler or what is in it. -/
def use (s : RequestLife) (event : ServerEvent) : RequestLife :=
  if s.deleted then { s with misused := true } else { s with server := s.server.step event }

/-- `requestComplete` and `onError` of the handler. -/
def deleteThis (s : RequestLife) : RequestLife :=
  if s.deleted then { s with misused := true } else { s with deleted := true }

def setError (s : RequestLife) (err : ProxygenError) : RequestLife :=
  { s.deleteThis with adaptor := some err }

def answer (s : RequestLife) (answer : AdaptorAnswer) : RequestLife :=
  { s with answers := s.answers ++ [answer] }

def responseStarted (s : RequestLife) : Bool :=
  s.answers.any AdaptorAnswer.isResponse ||
    s.server.handler.responseHandler.any fun r =>
      r.calls.any fun
        | .sendHeaders _ => true
        | _ => false

/-- `boost::iequals(expectation, "100-continue")`. -/
def isContinue (expectation : List Char) : Bool :=
  expectation.map Char.toLower = ['1', '0', '0', '-', 'c', 'o', 'n', 't', 'i', 'n', 'u', 'e']

def checkExpect (s : RequestLife) : Option (List Char) → RequestLife
  | none => s
  | some expectation =>
      if isContinue expectation then s.answer (.response 100 "Continue")
      else (s.setError .unsupportedExpectation).answer (.response 417 "Expectation Failed")

def onHeadersComplete (s : RequestLife) (expect : Option (List Char))
    (headers : Option Headers) : RequestLife :=
  let s := s.checkExpect expect
  if s.adaptor = some .errorNone then s.use (.onRequest headers) else s

def abortOrAnswer (s : RequestLife) (code : ℕ) (message : String) : RequestLife :=
  if s.responseStarted then s.answer .sendAbort else s.answer (.response code message)

def onError (s : RequestLife) : TransactionError → RequestLife
  | .timeout => (s.setError .timeout).abortOrAnswer 408 "Request Timeout"
  | .ingress => (s.setError .read).abortOrAnswer 400 "Bad Request"
  | .egress => s.setError .write

def detachTransaction (s : RequestLife) (err : ProxygenError) : RequestLife :=
  { (if err = .errorNone then s.deleteThis else s) with adaptor := none }

/-- The executor or the event base has something to run that uses the handler. -/
def holds (s : RequestLife) : LifeEvent → Bool
  | .beginTask i =>
      s.server.executor[i]?.any fun task => !task.running && task.functor.requestHandler
  | .endTask i _ => s.server.executor[i]?.any (·.running)
  | .expire i => s.server.executor[i]?.any fun task => !task.running && task.expiration.isSome
  | .runInEventBase => 0 < s.server.eventBase
  | _ => false

/-- A deleted adaptor gets no more calls. -/
def step (s : RequestLife) (event : LifeEvent) : RequestLife :=
  match event, s.adaptor with
  | .setAcceptor stopRequested counters, _ =>
      { s with server := s.server.step (.setAcceptor stopRequested counters) }
  | .onHeadersComplete expect headers, some _ => s.onHeadersComplete expect headers
  | .onBody body, some _ => s.use (.onBody body)
  | .onEOM getTimeOut add, some err =>
      if err = .errorNone then s.use (.onEOM getTimeOut add) else s
  | .onError error, some err => if err ≠ .errorNone then s else s.onError error
  | .detachTransaction, some err => s.detachTransaction err
  | .beginTask i, _ => if s.holds event then s.use (.beginTask i) else s
  | .endTask i makeResponse, _ => if s.holds event then s.use (.endTask i makeResponse) else s
  | .expire i, _ => if s.holds event then s.use (.expire i) else s
  | .runInEventBase, _ => if s.holds event then s.use .runInEventBase else s
  | _, none => s

/-- The handler is not used after its deletion, whatever the executor and the event base
still run. -/
def StaysUnused (s : RequestLife) : Prop :=
  ∀ later : List LifeEvent, (∀ event ∈ later, event.IsOwn) → (run step s later).misused = false

def NobodyHolds (s : RequestLife) : Prop := s.server.IsIdle

/-- The handler is deleted while nobody holds a pointer to it, and no body and no
unsupported expectation comes after an error. -/
def Ok (s : RequestLife) : LifeEvent → Prop
  | .onHeadersComplete (some expectation) _ =>
      isContinue expectation = false → s.adaptor ≠ none →
        s.adaptor = some .errorNone ∧ s.NobodyHolds
  | .onBody _ => s.adaptor ≠ none → s.adaptor = some .errorNone
  | .onError _ | .detachTransaction => s.adaptor = some .errorNone → s.NobodyHolds
  | _ => True

/-! ## The invariant -/

structure Inv (s : RequestLife) : Prop where
  server : s.server.Inv
  deleted : s.deleted = true ↔ s.adaptor ≠ some .errorNone
  free : s.deleted = true → s.NobodyHolds
  unused : s.misused = false

variable {s : RequestLife}

theorem start_inv : start.Inv := by
  constructor
  · exact RequestServer.start_inv
  · simp [start]
  · intro hdeleted
    cases hdeleted
  · rfl

theorem Inv.not_deleted (hinv : s.Inv) (hadaptor : s.adaptor = some .errorNone) :
    s.deleted = false := by
  cases hdeleted : s.deleted with
  | false => rfl
  | true => exact absurd hadaptor (hinv.deleted.mp hdeleted)

theorem Inv.use (hinv : s.Inv) (hdeleted : s.deleted = false) (event : ServerEvent) :
    (s.use event).Inv := by
  unfold RequestLife.use
  rw [if_neg (by simp [hdeleted])]
  refine ⟨RequestServer.step_inv hinv.server event, hinv.deleted, ?_, hinv.unused⟩
  intro hnow
  rw [hdeleted] at hnow
  cases hnow

theorem Inv.answer (hinv : s.Inv) (answer : AdaptorAnswer) : (s.answer answer).Inv :=
  ⟨hinv.server, hinv.deleted, hinv.free, hinv.unused⟩

theorem Inv.abortOrAnswer (hinv : s.Inv) (code : ℕ) (message : String) :
    (s.abortOrAnswer code message).Inv := by
  unfold RequestLife.abortOrAnswer
  split
  · exact hinv.answer _
  · exact hinv.answer _

theorem Inv.deleteThis (hinv : s.Inv) (hadaptor : s.adaptor = some .errorNone)
    (hfree : s.NobodyHolds) (adaptor : Option ProxygenError) (hnew : adaptor ≠ some .errorNone) :
    Inv { s.deleteThis with adaptor := adaptor } := by
  unfold RequestLife.deleteThis
  rw [if_neg (by simp [hinv.not_deleted hadaptor])]
  exact ⟨hinv.server, by simpa using hnew, fun _ => hfree, hinv.unused⟩

theorem Inv.not_holds (hinv : s.Inv) (hdeleted : s.deleted = true) (event : LifeEvent) :
    s.holds event = false := by
  obtain ⟨hexecutor, heventBase⟩ := hinv.free hdeleted
  cases event <;> simp [holds, hexecutor, heventBase]

theorem Inv.use_of_holds (hinv : s.Inv) (event : LifeEvent) (serverEvent : ServerEvent) :
    (if s.holds event then s.use serverEvent else s).Inv := by
  split
  · rename_i hholds
    apply hinv.use
    cases hdeleted : s.deleted with
    | false => rfl
    | true =>
        rw [hinv.not_holds hdeleted event] at hholds
        cases hholds
  · exact hinv

theorem onHeadersComplete_inv (hinv : s.Inv) {expect : Option (List Char)}
    {headers : Option Headers} (hok : s.Ok (.onHeadersComplete expect headers))
    (hthere : s.adaptor ≠ none) : (s.onHeadersComplete expect headers).Inv := by
  have hchecked : (s.checkExpect expect).Inv := by
    cases expect with
    | none => exact hinv
    | some expectation =>
        simp only [checkExpect]
        split
        · exact hinv.answer _
        · rename_i hcontinue
          obtain ⟨hadaptor, hfree⟩ := hok (Bool.not_eq_true _ ▸ hcontinue) hthere
          exact (hinv.deleteThis hadaptor hfree _ (by simp)).answer _
  simp only [onHeadersComplete]
  split
  · rename_i hadaptor
    exact hchecked.use (hchecked.not_deleted hadaptor) _
  · exact hchecked

theorem onError_inv (hinv : s.Inv) (error : TransactionError)
    (hadaptor : s.adaptor = some .errorNone) (hfree : s.NobodyHolds) : (s.onError error).Inv := by
  cases error with
  | timeout => exact (hinv.deleteThis hadaptor hfree _ (by simp)).abortOrAnswer _ _
  | ingress => exact (hinv.deleteThis hadaptor hfree _ (by simp)).abortOrAnswer _ _
  | egress => exact hinv.deleteThis hadaptor hfree _ (by simp)

theorem detachTransaction_inv (hinv : s.Inv) {err : ProxygenError} (hadaptor : s.adaptor = some err)
    (hok : s.Ok .detachTransaction) : (s.detachTransaction err).Inv := by
  unfold detachTransaction
  split
  · rename_i hnone
    rw [hnone] at hadaptor
    exact hinv.deleteThis hadaptor (hok hadaptor) none (by simp)
  · rename_i herror
    have hdeleted : s.deleted = true := by
      rw [hinv.deleted, hadaptor]
      simpa using herror
    exact ⟨hinv.server, by simp [hdeleted], hinv.free, hinv.unused⟩

theorem step_inv (hinv : s.Inv) {event : LifeEvent} (hok : s.Ok event) : (s.step event).Inv := by
  cases event with
  | setAcceptor stopRequested counters =>
      exact ⟨RequestServer.step_inv hinv.server (.setAcceptor stopRequested counters), hinv.deleted,
        hinv.free, hinv.unused⟩
  | onHeadersComplete expect headers =>
      cases hadaptor : s.adaptor with
      | none => simpa only [step, hadaptor] using hinv
      | some err =>
          simp only [step, hadaptor]
          exact onHeadersComplete_inv hinv hok (by simp [hadaptor])
  | onBody body =>
      cases hadaptor : s.adaptor with
      | none => simpa only [step, hadaptor] using hinv
      | some err =>
          simp only [step, hadaptor]
          exact hinv.use (hinv.not_deleted (hok (by simp [hadaptor]))) _
  | onEOM getTimeOut add =>
      cases hadaptor : s.adaptor with
      | none => simpa only [step, hadaptor] using hinv
      | some err =>
          simp only [step, hadaptor]
          split
          · rename_i hnone
            rw [hnone] at hadaptor
            exact hinv.use (hinv.not_deleted hadaptor) _
          · exact hinv
  | onError error =>
      cases hadaptor : s.adaptor with
      | none => simpa only [step, hadaptor] using hinv
      | some err =>
          simp only [step, hadaptor]
          split
          · exact hinv
          · rename_i hnone
            rw [not_not.mp hnone] at hadaptor
            exact onError_inv hinv error hadaptor (hok hadaptor)
  | detachTransaction =>
      cases hadaptor : s.adaptor with
      | none => simpa only [step, hadaptor] using hinv
      | some err =>
          simp only [step, hadaptor]
          exact detachTransaction_inv hinv hadaptor hok
  | beginTask i => exact hinv.use_of_holds _ _
  | endTask i makeResponse => exact hinv.use_of_holds _ _
  | expire i => exact hinv.use_of_holds _ _
  | runInEventBase => exact hinv.use_of_holds _ _

/-! ## The exact condition -/

theorem ok_of_isOwn {event : LifeEvent} (hown : event.IsOwn) (s : RequestLife) : s.Ok event := by
  cases event <;> trivial

theorem Inv.staysUnused (hinv : s.Inv) : s.StaysUnused := by
  intro later hown
  induction later generalizing s with
  | nil => exact hinv.unused
  | cons event later ih =>
      obtain ⟨hevent, hlater⟩ := List.forall_mem_cons.mp hown
      exact ih (step_inv hinv (ok_of_isOwn hevent s)) hlater

theorem misused_use (hdeleted : s.deleted = true) (event : ServerEvent) :
    (s.use event).misused = true := by
  simp [RequestLife.use, hdeleted]

theorem misused_setError (hdeleted : s.deleted = true) (err : ProxygenError) :
    (s.setError err).misused = true := by
  simp [setError, RequestLife.deleteThis, hdeleted]

theorem not_staysUnused_of_misused (hmisused : s.misused = true) : ¬ s.StaysUnused := by
  intro hunused
  have hnow := hunused [] (by simp)
  rw [run_nil, hmisused] at hnow
  cases hnow

/-- A pointer that is held when the handler is deleted will be used. -/
theorem not_staysUnused_of_held (hserver : s.server.Inv) (hdeleted : s.deleted = true)
    (hheld : ¬ s.NobodyHolds) : ¬ s.StaysUnused := by
  have hrun : ∀ event : LifeEvent, event.IsOwn → (s.step event).misused = true →
      ¬ s.StaysUnused := by
    intro event hown hmisused hunused
    have hnow := hunused [event] (by simpa using hown)
    rw [run_cons, run_nil, hmisused] at hnow
    cases hnow
  cases hexecutor : s.server.executor with
  | nil =>
      have hposted : 0 < s.server.eventBase :=
        Nat.pos_of_ne_zero fun hnone => hheld ⟨hexecutor, hnone⟩
      have hholds : s.holds .runInEventBase = true := by simpa [holds] using hposted
      apply hrun .runInEventBase trivial
      simp only [step, hholds, if_true]
      exact misused_use hdeleted _
  | cons task tasks =>
      have hfunctor : task.functor.requestHandler = true :=
        hserver.functors task (by simp [hexecutor])
      cases hrunning : task.running with
      | true =>
          have hholds : s.holds (.endTask 0 none) = true := by simp [holds, hexecutor, hrunning]
          apply hrun (.endTask 0 none) trivial
          simp only [step, hholds, if_true]
          exact misused_use hdeleted _
      | false =>
          have hholds : s.holds (.beginTask 0) = true := by
            simp [holds, hexecutor, hrunning, hfunctor]
          apply hrun (.beginTask 0) trivial
          simp only [step, hholds, if_true]
          exact misused_use hdeleted _

theorem not_staysUnused_of_deleteThis (hinv : s.Inv) (hadaptor : s.adaptor = some .errorNone)
    (hheld : ¬ s.NobodyHolds) (adaptor : Option ProxygenError) (answers : List AdaptorAnswer) :
    ¬ StaysUnused { s.deleteThis with adaptor := adaptor, answers := answers } := by
  unfold RequestLife.deleteThis
  rw [if_neg (by simp [hinv.not_deleted hadaptor])]
  exact not_staysUnused_of_held hinv.server rfl hheld

theorem abortOrAnswer_eq (s : RequestLife) (code : ℕ) (message : String) :
    ∃ answers, s.abortOrAnswer code message = { s with answers := answers } := by
  unfold RequestLife.abortOrAnswer
  split
  · exact ⟨_, rfl⟩
  · exact ⟨_, rfl⟩

theorem not_staysUnused_onError (hinv : s.Inv) (hadaptor : s.adaptor = some .errorNone)
    (hheld : ¬ s.NobodyHolds) (error : TransactionError) : ¬ (s.onError error).StaysUnused := by
  cases error with
  | timeout =>
      obtain ⟨answers, heq⟩ := abortOrAnswer_eq (s.setError .timeout) 408 "Request Timeout"
      simp only [onError]
      rw [heq]
      exact not_staysUnused_of_deleteThis hinv hadaptor hheld _ _
  | ingress =>
      obtain ⟨answers, heq⟩ := abortOrAnswer_eq (s.setError .read) 400 "Bad Request"
      simp only [onError]
      rw [heq]
      exact not_staysUnused_of_deleteThis hinv hadaptor hheld _ _
  | egress => exact not_staysUnused_of_deleteThis hinv hadaptor hheld _ s.deleteThis.answers

theorem not_staysUnused_onHeadersComplete (hinv : s.Inv) {expectation : List Char}
    {headers : Option Headers} (hcontinue : isContinue expectation = false)
    (hbad : ¬ (s.adaptor = some .errorNone ∧ s.NobodyHolds)) :
    ¬ (s.onHeadersComplete (some expectation) headers).StaysUnused := by
  have herr : (s.checkExpect (some expectation)).adaptor ≠ some .errorNone := by
    simp [checkExpect, hcontinue, answer, setError]
  simp only [onHeadersComplete, if_neg herr]
  by_cases hadaptor : s.adaptor = some .errorNone
  · have hheld : ¬ s.NobodyHolds := fun hfree => hbad ⟨hadaptor, hfree⟩
    simp only [checkExpect, hcontinue, Bool.false_eq_true, if_false]
    exact not_staysUnused_of_deleteThis hinv hadaptor hheld _ _
  · apply not_staysUnused_of_misused
    simp only [checkExpect, hcontinue, Bool.false_eq_true, if_false]
    exact misused_setError (hinv.deleted.mpr hadaptor) .unsupportedExpectation

theorem not_staysUnused_step (hinv : s.Inv) {event : LifeEvent} (hbad : ¬ s.Ok event) :
    ¬ (s.step event).StaysUnused := by
  cases event with
  | onHeadersComplete expect headers =>
      cases expect with
      | none => exact absurd trivial hbad
      | some expectation =>
          simp only [Ok, not_forall] at hbad
          obtain ⟨hcontinue, hthere, hbad⟩ := hbad
          obtain ⟨err, hadaptor⟩ := Option.ne_none_iff_exists'.mp hthere
          simp only [step, hadaptor]
          exact not_staysUnused_onHeadersComplete hinv hcontinue hbad
  | onBody body =>
      simp only [Ok, not_forall] at hbad
      obtain ⟨hthere, herror⟩ := hbad
      obtain ⟨err, hadaptor⟩ := Option.ne_none_iff_exists'.mp hthere
      apply not_staysUnused_of_misused
      simp only [step, hadaptor]
      exact misused_use (hinv.deleted.mpr herror) _
  | onError error =>
      simp only [Ok, not_forall] at hbad
      obtain ⟨hadaptor, hheld⟩ := hbad
      simp only [step, hadaptor, ne_eq, not_true_eq_false, if_false]
      exact not_staysUnused_onError hinv hadaptor hheld error
  | detachTransaction =>
      simp only [Ok, not_forall] at hbad
      obtain ⟨hadaptor, hheld⟩ := hbad
      simp only [step, hadaptor, detachTransaction, if_true]
      exact not_staysUnused_of_deleteThis hinv hadaptor hheld none s.deleteThis.answers
  | _ => exact absurd trivial hbad

/-- A handler is never used after its deletion in a run, nor in what the executor and the
event base make of it, exactly if every event is fine where it comes. -/
theorem staysUnused_run_iff (events : List LifeEvent) :
    (∀ first, first <+: events → (run step start first).StaysUnused) ↔
      ∀ earlier event later, events = earlier ++ event :: later →
        (run step start earlier).Ok event :=
  always_iff_of_steps step start Inv StaysUnused Ok start_inv (fun _ hinv => hinv.staysUnused)
    (fun _ _ hinv hok => step_inv hinv hok) (fun _ _ hinv hbad => not_staysUnused_step hinv hbad)
    events

/-- The client expects something unsupported and sends a body, or the write fails while the
functor waits in the executor. -/
theorem misused_after_deletion :
    (run step start [.onHeadersComplete (some ['2', '0', '0', '-', 'o', 'k']) none,
        .onBody none]).misused = true ∧
      (run step start [.onHeadersComplete none none, .onEOM (some 0) .added, .onError .egress,
        .beginTask 0]).misused = true :=
  ⟨by decide +kernel, by decide +kernel⟩

end RequestLife

end CppPlay.Proxygen
