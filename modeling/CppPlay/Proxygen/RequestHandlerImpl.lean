import CppPlay.Lib.Run
import CppPlay.Proxygen.ResponseHandler

/-!
# The asynchronous request handler

At the end of a request the handler answers at once or gives its functor to the executor,
which runs it or its expiry callback and posts the sending of the response back to the
event base.
-/

namespace CppPlay.Proxygen

open CppPlay.Lib

/-- `std::numeric_limits<uint64_t>::max()`. -/
def maxUInt64 : UInt64 := 18446744073709551615

structure CurrentCounter where
  value : UInt64
  maxValue : UInt64

def CurrentCounter.isEnabled (counter : CurrentCounter) : Bool := counter.maxValue < maxUInt64

def CurrentCounter.isOverloaded (counter : CurrentCounter) : Bool :=
  if counter.isEnabled then counter.value > counter.maxValue else false

structure CurrentRatioCounter where
  ratio : UInt64
  maxRatio : UInt64

def CurrentRatioCounter.isEnabled (counter : CurrentRatioCounter) : Bool :=
  counter.maxRatio < maxUInt64

def CurrentRatioCounter.isOverloaded (counter : CurrentRatioCounter) : Bool :=
  if counter.isEnabled then counter.ratio > counter.maxRatio else false

structure ServerCounters where
  currentRequests : CurrentCounter
  timeoutedRequestRatio : CurrentRatioCounter

/-- The pointers to the executor and to the event base only as being there or null. -/
structure HTTPServerAcceptor where
  stopRequested : Bool
  counters : Option ServerCounters
  executor : Bool
  eventBase : Bool

namespace HTTPServerAcceptor

/-- The constructor makes the counters and the executor. -/
def make : HTTPServerAcceptor := ⟨false, some ⟨⟨0, maxUInt64⟩, ⟨0, maxUInt64⟩⟩, true, false⟩

/-- The acceptor gets its event base before it accepts connections. -/
def init (acceptor : HTTPServerAcceptor) : HTTPServerAcceptor := { acceptor with eventBase := true }

end HTTPServerAcceptor

/-- `m_requestHandler` of the functor, which points to its own handler once it is set. -/
structure ThreadFanctor where
  requestHandler : Bool

structure AsyncRequestHandlerImpl where
  acceptor : Option HTTPServerAcceptor
  requestMessage : Message
  responseHandler : Option ResponseHandler
  sendEOM : Bool
  threadFanctor : ThreadFanctor

namespace AsyncRequestHandlerImpl

def make : AsyncRequestHandlerImpl := ⟨none, Message.make, none, true, ⟨false⟩⟩

def setHTTPServerAcceptor (handler : AsyncRequestHandlerImpl) (acceptor : HTTPServerAcceptor) :
    AsyncRequestHandlerImpl :=
  { handler with acceptor := some acceptor }

def setResponseHandler (handler : AsyncRequestHandlerImpl) : AsyncRequestHandlerImpl :=
  { handler with responseHandler := some (ResponseHandler.make handler.sendEOM) }

def onRequest (handler : AsyncRequestHandlerImpl) (headers : Option Headers) :
    AsyncRequestHandlerImpl :=
  { handler with requestMessage := { handler.requestMessage with headers := headers } }

def onBody (handler : AsyncRequestHandlerImpl) (body : Option (List Byte)) :
    AsyncRequestHandlerImpl :=
  { handler with requestMessage := handler.requestMessage.appendBody body }

/-- `m_threadFanctor.set(this)`. -/
def setThreadFanctor (handler : AsyncRequestHandlerImpl) : AsyncRequestHandlerImpl :=
  { handler with threadFanctor := ⟨true⟩ }

def mapResponseHandler (handler : AsyncRequestHandlerImpl)
    (f : ResponseHandler → ResponseHandler) : AsyncRequestHandlerImpl :=
  { handler with responseHandler := handler.responseHandler.map f }

theorem responseHandler_map {handler : AsyncRequestHandlerImpl} {r : ResponseHandler}
    (hr : handler.responseHandler = some r) (f : ResponseHandler → ResponseHandler) :
    (handler.mapResponseHandler f).responseHandler = some (f r) := by
  rw [mapResponseHandler, hr]
  rfl

def onTooManyRequests (handler : AsyncRequestHandlerImpl) : AsyncRequestHandlerImpl :=
  handler.mapResponseHandler fun r =>
    (r.setResponseMsg Message.make.setTooManyRequestsError).sendWithEOM

def onStopRequested (handler : AsyncRequestHandlerImpl) : AsyncRequestHandlerImpl :=
  handler.mapResponseHandler fun r =>
    (r.setResponseMsg Message.make.setServiceUnavailableError).sendWithEOM

def onTooManyTimeouts (handler : AsyncRequestHandlerImpl) : AsyncRequestHandlerImpl :=
  handler.onTooManyRequests

def sendDefauServerError (handler : AsyncRequestHandlerImpl) : AsyncRequestHandlerImpl :=
  handler.mapResponseHandler ResponseHandler.sendDefauServerError

end AsyncRequestHandlerImpl

inductive AddOutcome where
  | added
  | queueFull
  | otherException

structure ExecutorTask where
  functor : ThreadFanctor
  expiration : Option ℕ
  running : Bool

/-- The application's message with headers. -/
structure AppResponse where
  message : Message
  headers : message.HasHeaders

/-- What happens to a live handler.  A function of the application that throws returns
nothing here. -/
inductive ServerEvent where
  | setAcceptor (stopRequested : Bool) (counters : Option ServerCounters)
  | onRequest (headers : Option Headers)
  | onBody (body : Option (List Byte))
  | onEOM (getTimeOut : Option ℕ) (add : AddOutcome)
  | beginTask (i : ℕ)
  | endTask (i : ℕ) (makeResponse : Option AppResponse)
  | expire (i : ℕ)
  | runInEventBase

/-- The handler with the tasks in the executor and the calls of `sendFunc` that are posted
to the event base. -/
structure RequestServer where
  handler : AsyncRequestHandlerImpl
  executor : List ExecutorTask
  eventBase : ℕ
  eomDelivered : Bool

namespace RequestServer

/-- `newHandler`, and then `setTransaction`. -/
def start : RequestServer :=
  ⟨(AsyncRequestHandlerImpl.make.setHTTPServerAcceptor
    HTTPServerAcceptor.make.init).setResponseHandler, [], 0, false⟩

/-- The end of `onEOM`, with its handlers of exceptions. -/
def addToExecutor (s : RequestServer) (getTimeOut : Option ℕ) (add : AddOutcome) :
    RequestServer :=
  match getTimeOut, add with
  | none, _ => { s with handler := s.handler.sendDefauServerError }
  | some timeOut, .added =>
      { s with
        executor := s.executor ++
          [⟨s.handler.threadFanctor, if 0 < timeOut then some timeOut else none, false⟩] }
  | some _, .queueFull => { s with handler := s.handler.onTooManyRequests }
  | some _, .otherException => { s with handler := s.handler.sendDefauServerError }

def onEOM (s : RequestServer) (getTimeOut : Option ℕ) (add : AddOutcome) : RequestServer :=
  match s.handler.acceptor with
  | none => s
  | some acceptor =>
      if acceptor.stopRequested then { s with handler := s.handler.onStopRequested }
      else if acceptor.counters.any (·.currentRequests.isOverloaded) then
        { s with handler := s.handler.onTooManyRequests }
      else if acceptor.counters.any (·.timeoutedRequestRatio.isOverloaded) then
        { s with handler := s.handler.onTooManyTimeouts }
      else
        let s := { s with handler := s.handler.setThreadFanctor }
        if !acceptor.executor then s else s.addToExecutor getTimeOut add

/-- `ThreadFanctor::sendResponse`, on a thread of the executor. -/
def sendResponse (s : RequestServer) (responseMessage : Message) : RequestServer :=
  match s.handler.acceptor with
  | none => s
  | some acceptor =>
      if !acceptor.eventBase then s
      else if s.handler.responseHandler.isNone then s
      else
        { s with
          handler := s.handler.mapResponseHandler (·.setResponseMsg responseMessage)
          eventBase := s.eventBase + 1 }

/-- `ThreadFanctor::operator()` up to its call of `makeResponse`. -/
def beginTask (s : RequestServer) (i : ℕ) : RequestServer :=
  match s.executor[i]? with
  | none => s
  | some task =>
      if task.running then s
      else if !task.functor.requestHandler then { s with executor := s.executor.eraseIdx i }
      else { s with executor := s.executor.set i { task with running := true } }

/-- The rest of `ThreadFanctor::operator()`. -/
def endTask (s : RequestServer) (i : ℕ) (makeResponse : Option AppResponse) : RequestServer :=
  match s.executor[i]? with
  | none => s
  | some task =>
      if task.running then
        sendResponse { s with executor := s.executor.eraseIdx i }
          (makeResponse.elim Message.make.setDefaulServerError AppResponse.message)
      else s

/-- `ThreadFanctor::onAppTimeout`, instead of the functor. -/
def expire (s : RequestServer) (i : ℕ) : RequestServer :=
  match s.executor[i]? with
  | none => s
  | some task =>
      if task.running || task.expiration.isNone then s
      else
        sendResponse { s with executor := s.executor.eraseIdx i }
          Message.make.setTimeOutServerError

/-- `sendFunc`. -/
def runInEventBase (s : RequestServer) : RequestServer :=
  if s.eventBase = 0 then s
  else
    { s with
      handler := s.handler.mapResponseHandler ResponseHandler.send
      eventBase := s.eventBase - 1 }

def step (s : RequestServer) : ServerEvent → RequestServer
  | .setAcceptor stopRequested counters =>
      { s with
        handler := { s.handler with
          acceptor := s.handler.acceptor.map fun acceptor =>
            { acceptor with stopRequested := stopRequested, counters := counters } } }
  | .onRequest headers => { s with handler := s.handler.onRequest headers }
  | .onBody body => { s with handler := s.handler.onBody body }
  | .onEOM getTimeOut add => { s.onEOM getTimeOut add with eomDelivered := true }
  | .beginTask i => s.beginTask i
  | .endTask i makeResponse => s.endTask i makeResponse
  | .expire i => s.expire i
  | .runInEventBase => s.runInEventBase

def IsIdle (s : RequestServer) : Prop := s.executor = [] ∧ s.eventBase = 0

/-- A request is answered by one response, at most once, and has been answered when
everything has run that its end has started. -/
structure AnswersOnce (s : RequestServer) : Prop where
  at_most_once : ∀ r, s.handler.responseHandler = some r →
    r.sends = [] ∧ r.calls = [] ∨ r.sends = [true] ∧ IsOneResponse r.calls
  answered : s.eomDelivered = true → s.IsIdle →
    ∃ r, s.handler.responseHandler = some r ∧ r.sends = [true] ∧ IsOneResponse r.calls

/-! ## The invariant -/

def IsUnderWay (s : RequestServer) : Prop :=
  s.executor ≠ [] ∨ 0 < s.eventBase ∨ ∃ r, s.handler.responseHandler = some r ∧ r.wasSent = true

structure Inv (s : RequestServer) : Prop where
  acceptor : ∃ acceptor, s.handler.acceptor = some acceptor ∧ acceptor.executor = true ∧
    acceptor.eventBase = true
  response : ∃ r, s.handler.responseHandler = some r ∧ r.Ok
  functors : ∀ task ∈ s.executor, task.functor.requestHandler = true
  delivered : s.eomDelivered = true → s.IsUnderWay

variable {s : RequestServer}

theorem start_inv : start.Inv := by
  constructor
  · exact ⟨_, rfl, rfl, rfl⟩
  · exact ⟨_, rfl, ResponseHandler.ok_make⟩
  · intro task hmem
    cases hmem
  · intro hdelivered
    cases hdelivered

theorem Inv.answersOnce (hinv : s.Inv) : s.AnswersOnce := by
  obtain ⟨r, hr, hok⟩ := hinv.response
  constructor
  · intro r' hr'
    rw [hr] at hr'
    cases hr'
    cases hsent : r.wasSent with
    | false => exact .inl ⟨(hok.unsent hsent).2.2, (hok.unsent hsent).2.1⟩
    | true => exact .inr ⟨(hok.sent hsent).2, (hok.sent hsent).1⟩
  · rintro hdelivered ⟨hexecutor, heventBase⟩
    rcases hinv.delivered hdelivered with hwaiting | hposted | ⟨r', hr', hsent⟩
    · exact absurd hexecutor hwaiting
    · omega
    · rw [hr] at hr'
      cases hr'
      exact ⟨r, hr, (hok.sent hsent).2, (hok.sent hsent).1⟩

theorem Inv.answer (hinv : s.Inv) {f : ResponseHandler → ResponseHandler}
    (hf : ∀ r : ResponseHandler, r.Ok → (f r).Ok ∧ (f r).wasSent = true) (eomDelivered : Bool) :
    Inv { s with handler := s.handler.mapResponseHandler f, eomDelivered := eomDelivered } := by
  obtain ⟨r, hr, hok⟩ := hinv.response
  have hmapped := AsyncRequestHandlerImpl.responseHandler_map hr f
  constructor
  · exact hinv.acceptor
  · exact ⟨f r, hmapped, (hf r hok).1⟩
  · exact hinv.functors
  · intro _
    exact .inr (.inr ⟨f r, hmapped, (hf r hok).2⟩)

theorem ok_answer {message : Message} (hheaders : message.HasHeaders) (r : ResponseHandler)
    (hok : r.Ok) : (r.setResponseMsg message).sendWithEOM.Ok ∧
      (r.setResponseMsg message).sendWithEOM.wasSent = true :=
  (hok.setResponseMsg hheaders).sendWithEOM

theorem Inv.addToExecutor (hinv : s.Inv) (hset : s.handler.threadFanctor = ⟨true⟩)
    (getTimeOut : Option ℕ) (add : AddOutcome) :
    Inv { s.addToExecutor getTimeOut add with eomDelivered := true } := by
  cases getTimeOut with
  | none => exact hinv.answer (fun r hok => hok.sendDefauServerError) true
  | some timeOut =>
      cases add with
      | added =>
          refine ⟨hinv.acceptor, hinv.response, ?_, ?_⟩
          · intro task hmem
            rcases List.mem_append.mp hmem with hold | hnew
            · exact hinv.functors task hold
            · rw [List.mem_singleton.mp hnew, hset]
          · intro _
            left
            simp [RequestServer.addToExecutor]
      | queueFull =>
          exact hinv.answer (ok_answer (Message.hasHeaders_setTooManyRequestsError _)) true
      | otherException => exact hinv.answer (fun r hok => hok.sendDefauServerError) true

theorem onEOM_inv (hinv : s.Inv) (getTimeOut : Option ℕ) (add : AddOutcome) :
    (s.step (.onEOM getTimeOut add)).Inv := by
  obtain ⟨acceptor, hacceptor, hexecutor, _⟩ := hinv.acceptor
  simp only [step, onEOM, hacceptor, hexecutor, Bool.not_true, Bool.false_eq_true, if_false]
  split
  · exact hinv.answer (ok_answer (Message.hasHeaders_setServiceUnavailableError _)) true
  · split
    · exact hinv.answer (ok_answer (Message.hasHeaders_setTooManyRequestsError _)) true
    · split
      · exact hinv.answer (ok_answer (Message.hasHeaders_setTooManyRequestsError _)) true
      · have hset : Inv { s with handler := s.handler.setThreadFanctor } :=
          ⟨hinv.acceptor, hinv.response, hinv.functors, hinv.delivered⟩
        exact hset.addToExecutor rfl getTimeOut add

theorem Inv.sendResponse (hinv : s.Inv) {message : Message} (hheaders : message.HasHeaders)
    (i : ℕ) :
    (RequestServer.sendResponse { s with executor := s.executor.eraseIdx i } message).Inv := by
  obtain ⟨acceptor, hacceptor, _, heventBase⟩ := hinv.acceptor
  obtain ⟨r, hr, hok⟩ := hinv.response
  simp only [RequestServer.sendResponse, hacceptor, heventBase, hr, Option.isNone_some,
    Bool.not_true, Bool.false_eq_true, if_false]
  constructor
  · exact hinv.acceptor
  · exact ⟨_, AsyncRequestHandlerImpl.responseHandler_map hr _, hok.setResponseMsg hheaders⟩
  · intro task hmem
    exact hinv.functors task (List.mem_of_mem_eraseIdx hmem)
  · intro _
    exact .inr (.inl (Nat.succ_pos _))

theorem beginTask_inv (hinv : s.Inv) (i : ℕ) : (s.step (.beginTask i)).Inv := by
  simp only [step, beginTask]
  cases htask : s.executor[i]? with
  | none => exact hinv
  | some task =>
      have hfunctor := hinv.functors task (List.mem_of_getElem? htask)
      simp only [hfunctor, Bool.not_true, Bool.false_eq_true, if_false]
      split
      · exact hinv
      · refine ⟨hinv.acceptor, hinv.response, ?_, ?_⟩
        · intro other hmem
          rcases List.mem_or_eq_of_mem_set hmem with hold | hnew
          · exact hinv.functors other hold
          · rw [hnew]
            exact hfunctor
        · intro _
          left
          intro hempty
          have hlength := congrArg List.length hempty
          rw [List.length_set, List.length_nil] at hlength
          rw [List.length_eq_zero_iff.mp hlength] at htask
          cases htask

theorem runInEventBase_inv (hinv : s.Inv) : (s.step .runInEventBase).Inv := by
  simp only [step, runInEventBase]
  split
  · exact hinv
  · have hanswer := hinv.answer (fun r hok => hok.send) s.eomDelivered
    refine ⟨hanswer.acceptor, hanswer.response, hanswer.functors, ?_⟩
    intro _
    obtain ⟨r, hr, hok⟩ := hinv.response
    exact .inr (.inr ⟨_, AsyncRequestHandlerImpl.responseHandler_map hr _, hok.send.2⟩)

theorem step_inv (hinv : s.Inv) (event : ServerEvent) : (s.step event).Inv := by
  cases event with
  | setAcceptor stopRequested counters =>
      obtain ⟨acceptor, hacceptor, hthere⟩ := hinv.acceptor
      refine ⟨⟨{ acceptor with stopRequested := stopRequested, counters := counters }, ?_, hthere⟩,
        hinv.response, hinv.functors, hinv.delivered⟩
      simp only [step, hacceptor, Option.map_some]
  | onRequest headers => exact ⟨hinv.acceptor, hinv.response, hinv.functors, hinv.delivered⟩
  | onBody body => exact ⟨hinv.acceptor, hinv.response, hinv.functors, hinv.delivered⟩
  | onEOM getTimeOut add => exact onEOM_inv hinv getTimeOut add
  | beginTask i => exact beginTask_inv hinv i
  | endTask i makeResponse =>
      simp only [step, endTask]
      split
      · exact hinv
      · split
        · apply hinv.sendResponse
          cases makeResponse with
          | none => exact Message.hasHeaders_setDefaulServerError _
          | some response => exact response.headers
        · exact hinv
  | expire i =>
      simp only [step, expire]
      split
      · exact hinv
      · split
        · exact hinv
        · exact hinv.sendResponse (Message.hasHeaders_setTimeOutServerError _) i
  | runInEventBase => exact runInEventBase_inv hinv

/-- Every request is answered once in every run. -/
theorem answersOnce_run (events : List ServerEvent) : (run step start events).AnswersOnce :=
  (run_invariant Inv start_inv (fun _ event hinv => step_inv hinv event) events).answersOnce

end RequestServer

end CppPlay.Proxygen
