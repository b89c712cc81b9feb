import CppPlay.Lib.Threads
import CppPlay.Proxygen.RatioSampling
import CppPlay.Proxygen.RequestCounter

/-!
# The count of the timeouts

The requests of one acceptor with its counters.  `onAppTimeout` posts its response and
leaves the counter of the timeouts alone, as does everything else.
-/

namespace CppPlay.CppTools

open CppPlay.Lib CppPlay.Proxygen

/-- What the request handlers read of the counters. -/
def ServerCounters.read (counters : ServerCounters) : Proxygen.ServerCounters :=
  { currentRequests := counters.currentRequests.read
    timeoutedRequestRatio :=
      ⟨counters.timeoutedRequestRatio.ratio, counters.timeoutedRequestRatio.maxRatio⟩ }

theorem ServerCounters.isOverloaded_read (counters : ServerCounters) :
    counters.read.timeoutedRequestRatio.isOverloaded =
      counters.timeoutedRequestRatio.isOverloaded := rfl

/-- The acceptor with its live handlers, and the number of requests that `onAppTimeout` has
answered. -/
structure TimeoutServer where
  counters : ServerCounters
  stopRequested : Bool
  requests : Address → Option RequestServer
  timeouts : ℕ

inductive RequestEvent where
  | newHandler (p : Address)
  | handle (p : Address) (event : ServerEvent)
  | destroy (p : Address)
  | stop

namespace TimeoutServer

def start (flags : Flags) : TimeoutServer := ⟨setCounters flags .make, false, fun _ => none, 0⟩

/-- A handler has a pointer to the acceptor, so it sees the counters as they are. -/
def seen (s : TimeoutServer) (request : RequestServer) : RequestServer :=
  request.step (.setAcceptor s.stopRequested (some s.counters.read))

/-- `onAppTimeout` posts a response. -/
def answersTimeout (request : RequestServer) : ServerEvent → Bool
  | .expire i => request.eventBase < (request.expire i).eventBase
  | _ => false

def handle (s : TimeoutServer) (p : Address) (event : ServerEvent) : TimeoutServer :=
  match s.requests p with
  | none => s
  | some request =>
      { s with
        requests := Function.update s.requests p (some ((s.seen request).step event))
        timeouts := s.timeouts + if answersTimeout (s.seen request) event then 1 else 0 }

def step (s : TimeoutServer) : RequestEvent → TimeoutServer
  | .newHandler p =>
      match s.requests p with
      -- the address is taken
      | some _ => s
      | none =>
          { s with
            counters := RequestAcceptor.setHTTPServerAcceptor s.counters
            requests := Function.update s.requests p (some RequestServer.start) }
  | .handle p event => s.handle p event
  | .destroy p =>
      match s.requests p with
      | none => s
      | some _ =>
          { s with
            counters := RequestAcceptor.destroyed s.counters
            requests := Function.update s.requests p none }
  | .stop => { s with stopRequested := true }

def CountsTimeouts (s : TimeoutServer) : Prop :=
  s.counters.timeoutedRequests.get.toNat = s.timeouts

/-- No task that waits in the executor expires. -/
def NoneExpires (s : TimeoutServer) : RequestEvent → Prop
  | .handle p (.expire i) => ∀ request, s.requests p = some request →
      ∀ task, request.executor[i]? = some task → task.running = true ∨ task.expiration = none
  | _ => True

/-! ## The expiry of a task -/

variable {request : RequestServer} {i : ℕ}

theorem eventBase_sendResponse (hinv : request.Inv) (executor : List ExecutorTask)
    (message : Message) :
    (RequestServer.sendResponse { request with executor := executor } message).eventBase =
      request.eventBase + 1 := by
  obtain ⟨acceptor, hacceptor, _, heventBase⟩ := hinv.acceptor
  obtain ⟨r, hr, _⟩ := hinv.response
  simp only [RequestServer.sendResponse, hacceptor, heventBase, hr, Option.isNone_some,
    Bool.not_true, Bool.false_eq_true, if_false]

/-- A task that has waited too long is answered by `onAppTimeout`, and no other. -/
theorem answersTimeout_expire_iff (hinv : request.Inv) :
    answersTimeout request (.expire i) = true ↔
      ∃ task, request.executor[i]? = some task ∧ task.running = false ∧ task.expiration ≠ none := by
  rw [answersTimeout, decide_eq_true_iff]
  cases htask : request.executor[i]? with
  | none => simp [RequestServer.expire, htask]
  | some task =>
      by_cases hwaits : (task.running || task.expiration.isNone) = true
      · have hsame : request.expire i = request := by
          simp only [RequestServer.expire, htask, if_pos hwaits]
        rw [hsame]
        rw [Bool.or_eq_true, Option.isNone_iff_eq_none] at hwaits
        apply iff_of_false (lt_irrefl _)
        intro hanswered
        obtain ⟨other, hother, hrunning, hexpiration⟩ := hanswered
        cases hother
        rcases hwaits with hruns | hnever
        · rw [hruns] at hrunning
          cases hrunning
        · exact hexpiration hnever
      · have hposted : (request.expire i).eventBase = request.eventBase + 1 := by
          simp only [RequestServer.expire, htask, if_neg hwaits]
          exact eventBase_sendResponse hinv _ _
        rw [Bool.or_eq_true, not_or, Bool.not_eq_true, Option.isNone_iff_eq_none] at hwaits
        rw [hposted]
        exact iff_of_true (Nat.lt_succ_self _) ⟨task, rfl, hwaits⟩

/-! ## The counters -/

/-- Nothing has counted a timeout, so the ratio is zero. -/
structure Inert (counters : ServerCounters) : Prop where
  timeouts : counters.timeoutedRequests.value = 0
  previousY : counters.timeoutedRequestRatio.previousY = 0
  ratio : counters.timeoutedRequestRatio.ratio = 0

variable {counters : ServerCounters}

theorem Inert.get (hinert : Inert counters) : counters.timeoutedRequests.get = 0 := by
  rw [Counter.get, hinert.timeouts]
  split_ifs <;> rfl

theorem inert_setCounters (flags : Flags) : Inert (setCounters flags .make) := by
  constructor
  · exact (Sampling.value_setCounters flags).2
  · rw [Sampling.ratio_setCounters]
    rfl
  · rw [Sampling.ratio_setCounters]
    rfl

theorem Inert.setHTTPServerAcceptor (hinert : Inert counters) :
    Inert (RequestAcceptor.setHTTPServerAcceptor counters) := by
  have hget := hinert.get
  have hratio : (RequestAcceptor.setHTTPServerAcceptor counters).timeoutedRequestRatio =
      counters.timeoutedRequestRatio.update counters.requests.increment
        counters.timeoutedRequests := rfl
  cases htakes : counters.timeoutedRequestRatio.takesSample counters.requests.increment with
  | true =>
      rw [Sampling.update_of_takesSample htakes] at hratio
      constructor
      · exact hinert.timeouts
      · rw [hratio]
        exact hget
      · rw [hratio, hget, hinert.previousY]
        simp
  | false =>
      rw [Sampling.update_of_not_takesSample htakes] at hratio
      exact ⟨hinert.timeouts, by rw [hratio, hinert.previousY], by rw [hratio, hinert.ratio]⟩

theorem Inert.destroyed (hinert : Inert counters) : Inert (RequestAcceptor.destroyed counters) :=
  ⟨hinert.timeouts, hinert.previousY, hinert.ratio⟩

theorem Inert.not_isOverloaded (hinert : Inert counters) :
    counters.timeoutedRequestRatio.isOverloaded = false := by
  rw [CurrentRatioCounter.isOverloaded, hinert.ratio]
  split_ifs
  · exact decide_eq_false (UInt64.not_lt_zero)
  · rfl

/-! ## Runs -/

structure Inv (s : TimeoutServer) : Prop where
  inert : Inert s.counters
  requests : ∀ p, ∀ request ∈ s.requests p, request.Inv

variable {s : TimeoutServer}

theorem start_inv (flags : Flags) : Inv (start flags) :=
  ⟨inert_setCounters flags, fun p request hrequest => by cases hrequest⟩

theorem Inv.seen (hinv : Inv s) {p : Address} (hrequest : s.requests p = some request) :
    (s.seen request).Inv :=
  RequestServer.step_inv (hinv.requests p request hrequest) _

theorem Inv.step (hinv : Inv s) (event : RequestEvent) : Inv (s.step event) := by
  have hupdated : ∀ p (request : Option RequestServer), (∀ r ∈ request, r.Inv) →
      ∀ q, ∀ r ∈ Function.update s.requests p request q, RequestServer.Inv r :=
    fun p request hnew => forall_update (P := fun _ request => ∀ r ∈ request, RequestServer.Inv r)
      hnew fun q _ => hinv.requests q
  cases event with
  | newHandler p =>
      rw [TimeoutServer.step]
      split
      next => exact hinv
      next =>
        refine ⟨hinv.inert.setHTTPServerAcceptor, hupdated p _ ?_⟩
        intro r hr
        cases hr
        exact RequestServer.start_inv
  | handle p event =>
      rw [TimeoutServer.step, handle]
      split
      next => exact hinv
      next request hrequest =>
        refine ⟨hinv.inert, hupdated p _ ?_⟩
        intro r hr
        cases hr
        exact RequestServer.step_inv (hinv.seen hrequest) event
  | destroy p =>
      rw [TimeoutServer.step]
      split
      next => exact hinv
      next =>
        refine ⟨hinv.inert.destroyed, hupdated p none ?_⟩
        intro r hr
        cases hr
  | stop => exact ⟨hinv.inert, hinv.requests⟩

/-! ## What counts the timeouts -/

theorem executor_seen (s : TimeoutServer) (request : RequestServer) :
    (s.seen request).executor = request.executor := rfl

theorem Inv.not_answersTimeout (hinv : Inv s) {p : Address} {event : ServerEvent}
    (hnone : NoneExpires s (.handle p event)) (hrequest : s.requests p = some request) :
    answersTimeout (s.seen request) event = false := by
  cases event with
  | expire i =>
      rw [Bool.eq_false_iff]
      intro hanswers
      obtain ⟨task, htask, hrunning, hexpiration⟩ :=
        (answersTimeout_expire_iff (hinv.seen hrequest)).mp hanswers
      rw [executor_seen] at htask
      rcases hnone request hrequest task htask with hruns | hnever
      · rw [hruns] at hrunning
        cases hrunning
      · exact hexpiration hnever
  | _ => rfl

theorem Inv.timeouts_of_noneExpires (hinv : Inv s) {event : RequestEvent}
    (hnone : NoneExpires s event) : (s.step event).timeouts = s.timeouts := by
  cases event with
  | handle p event =>
      rw [TimeoutServer.step, handle]
      split
      next => rfl
      next request hrequest =>
        simp [hinv.not_answersTimeout hnone hrequest]
  | newHandler p =>
      rw [TimeoutServer.step]
      split <;> rfl
  | destroy p =>
      rw [TimeoutServer.step]
      split <;> rfl
  | stop => rfl

theorem Inv.timeouts_of_expires (hinv : Inv s) {event : RequestEvent}
    (hexpires : ¬ NoneExpires s event) : (s.step event).timeouts = s.timeouts + 1 := by
  cases event with
  | handle p event =>
      cases event with
      | expire i =>
          simp only [NoneExpires, not_forall, not_or] at hexpires
          obtain ⟨request, hrequest, task, htask, hwaits, hexpiration⟩ := hexpires
          have hanswers : answersTimeout (s.seen request) (.expire i) = true := by
            rw [answersTimeout_expire_iff (hinv.seen hrequest)]
            exact ⟨task, htask, Bool.eq_false_iff.mpr hwaits, hexpiration⟩
          simp only [TimeoutServer.step, handle, hrequest, hanswers, if_true]
      | _ => exact absurd trivial hexpires
  | _ => exact absurd trivial hexpires

theorem Inv.countsTimeouts_iff (hinv : Inv s) : CountsTimeouts s ↔ s.timeouts = 0 := by
  rw [CountsTimeouts, hinv.inert.get]
  exact eq_comm

/-- The timeouts are counted through a run exactly when there are none. -/
theorem countsTimeouts_iff_noneExpires (flags : Flags) (events : List RequestEvent) :
    (∀ first, first <+: events → CountsTimeouts (run step (start flags) first)) ↔
      ∀ earlier event later, events = earlier ++ event :: later →
        NoneExpires (run step (start flags) earlier) event := by
  apply always_iff_of_steps step (start flags) (fun s => Inv s ∧ s.timeouts = 0)
  · exact ⟨start_inv flags, rfl⟩
  · exact fun s hinv => hinv.1.countsTimeouts_iff.mpr hinv.2
  · intro s event hinv hnone
    obtain ⟨hinv, hzero⟩ := hinv
    exact ⟨hinv.step event, (hinv.timeouts_of_noneExpires hnone).trans hzero⟩
  · intro s event hinv hexpires hcounts
    obtain ⟨hinv, _⟩ := hinv
    have hzero := (hinv.step event).countsTimeouts_iff.mp hcounts
    rw [hinv.timeouts_of_expires hexpires] at hzero
    cases hzero

/-- One request whose task expires in the executor. -/
theorem not_countsTimeouts_expires :
    ¬ ∀ (flags : Flags) (events : List RequestEvent),
      Sampling.maxRatioOf flags < maxUInt64 → CountsTimeouts (run step (start flags) events) := by
  intro hall
  have hcounts := hall Sampling.limitedFlags
    [.newHandler firstAddress, .handle firstAddress (.onEOM (some 10) .added),
      .handle firstAddress (.expire 0)] (by decide)
  rw [CountsTimeouts] at hcounts
  exact absurd hcounts (by decide)

/-- However many requests time out, `onEOM` of none is refused for it. -/
theorem not_isOverloaded_run (flags : Flags) (events : List RequestEvent) :
    (run step (start flags) events).counters.read.timeoutedRequestRatio.isOverloaded = false := by
  rw [ServerCounters.isOverloaded_read]
  exact (run_invariant Inv (start_inv flags) (fun _ event hinv => hinv.step event)
    events).inert.not_isOverloaded

end TimeoutServer

end CppPlay.CppTools
