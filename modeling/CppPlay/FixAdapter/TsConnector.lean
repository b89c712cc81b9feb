import CppPlay.Lib.Run
import CppPlay.Lib.Threads
import Mathlib.Tactic

/-!
# The connection to the trading system

The reader, the writer and whoever stops them share one socket.  A mutex guards `connect`
and `disconnect`; the transfers go without it.  A transfer that fails calls `connect` and
then itself again, and `connect` returns at once when the socket is open.
-/

namespace CppPlay.FixAdapter

open CppPlay.Lib

/-- The socket; connections are numbered as they are established. -/
inductive Socket where
  | closed
  | unconnected
  | connected (conn : ℕ)
  deriving DecidableEq

def Socket.isOpen : Socket → Bool
  | .closed => false
  | .unconnected | .connected _ => true

/-- A transfer that has failed: how deep in the recursion, and how many connections had
been established by then. -/
structure Failure where
  depth : ℕ
  established : ℕ
  deriving DecidableEq

/-- Inside `connect_not_locked`, behind its look at `connected()`. -/
inductive ConnectPhase where
  | resolving
  | trying (left endpoints : ℕ)
  | dialing (left endpoints : ℕ)
  | sleeping (endpoints : ℕ)
  | settingOptions
  | catching
  deriving DecidableEq

inductive ConnectorPc where
  | idle
  | transferring
  | failed (failure : Failure)
  | connecting (phase : ConnectPhase) (failure : Option Failure)
  | returned (failure : Failure)
  | retrying (failure : Failure) (on : Socket)
  | unwinding (outer : ℕ)
  deriving DecidableEq

/-- How a part of `connect_not_locked` ends. -/
inductive ConnectOutcome where
  | ok
  | resolved (endpoints : ℕ)
  | error
  | throws

/-- A move of a thread.  `transfer` is a call of `send_to_ts` or `receive_from_ts`, which
is `done` or fails with an error code; `retry` is the call in its own body. -/
inductive ConnectorCall (τ : Type*) where
  | transfer (t : τ)
  | done (t : τ)
  | fail (t : τ)
  | connect (t : τ)
  | proceed (t : τ) (outcome : ConnectOutcome)
  | retry (t : τ)
  | disconnect (t : τ)

structure TsConnector (τ : Type*) where
  socket : Socket
  established : ℕ
  owner : Option τ
  pc : τ → ConnectorPc

namespace TsConnector

variable {τ : Type*}

def start : TsConnector τ := ⟨.closed, 0, none, fun _ => .idle⟩

variable [DecidableEq τ]

def goto (s : TsConnector τ) (t : τ) (pc : ConnectorPc) : TsConnector τ :=
  { s with pc := Function.update s.pc t pc }

def setSocket (s : TsConnector τ) (socket : Socket) : TsConnector τ := { s with socket := socket }

def setOwner (s : TsConnector τ) (owner : Option τ) : TsConnector τ := { s with owner := owner }

def newConnection (s : TsConnector τ) : TsConnector τ :=
  { s with socket := .connected s.established, established := s.established + 1 }

@[simp] theorem pc_goto (s : TsConnector τ) (t : τ) (pc : ConnectorPc) :
    (s.goto t pc).pc t = pc := by
  simp [goto]

@[simp] theorem socket_goto (s : TsConnector τ) (t : τ) (pc : ConnectorPc) :
    (s.goto t pc).socket = s.socket := rfl

/-- A failed read or write leaves `is_open()` as it is. -/
def fail (s : TsConnector τ) (t : τ) : TsConnector τ :=
  match s.pc t with
  | .transferring => s.goto t (.failed ⟨0, s.established⟩)
  | .retrying failure _ => s.goto t (.failed ⟨failure.depth + 1, s.established⟩)
  | _ => s

/-- `connect` up to the look at `connected()`, for the failure it was called for. -/
def enterConnect (s : TsConnector τ) (t : τ) (failure : Option Failure) : TsConnector τ :=
  if s.socket.isOpen then
    match failure with
    | none => s
    | some failure => s.goto t (.returned failure)
  else (s.setOwner (some t)).goto t (.connecting .resolving failure)

def connect (s : TsConnector τ) (t : τ) : TsConnector τ :=
  if s.owner.isSome then s
  else
    match s.pc t with
    | .idle => s.enterConnect t none
    | .failed failure => s.enterConnect t (some failure)
    | _ => s

/-- Where a call of `connect` that throws leaves its thread: in the innermost of the
handlers around the recursion. -/
def thrownTo : Option Failure → ConnectorPc
  | none => .idle
  | some failure => .unwinding failure.depth

def returnedTo : Option Failure → ConnectorPc
  | none => .idle
  | some failure => .returned failure

/-- The rest of `connect_not_locked`.  `trying` is the loop over the endpoints, which closes
the socket before each of them; without one that answers it is begun again after a sleep. -/
def proceed (s : TsConnector τ) (t : τ) (failure : Option Failure) :
    ConnectPhase → ConnectOutcome → TsConnector τ
  | .catching, _ => ((s.setSocket .closed).setOwner none).goto t (thrownTo failure)
  | _, .throws => s.goto t (.connecting .catching failure)
  | .resolving, .resolved endpoints => s.goto t (.connecting (.trying endpoints endpoints) failure)
  | .trying 0 endpoints, _ => s.goto t (.connecting (.sleeping endpoints) failure)
  | .trying (left + 1) endpoints, _ =>
      (s.setSocket .closed).goto t (.connecting (.dialing left endpoints) failure)
  | .dialing _ _, .ok =>
      s.newConnection.goto t (.connecting .settingOptions failure)
  | .dialing left endpoints, .error =>
      -- the socket was opened for the attempt and stays open
      (s.setSocket .unconnected).goto t (.connecting (.trying left endpoints) failure)
  | .sleeping endpoints, .ok => s.goto t (.connecting (.trying endpoints endpoints) failure)
  | .settingOptions, .ok => (s.setOwner none).goto t (returnedTo failure)
  | _, _ => s

/-- `disconnect`, as `stop` calls it and each `catch (...)` around the recursion. -/
def disconnect (s : TsConnector τ) (t : τ) : TsConnector τ :=
  if s.owner.isSome then s
  else
    match s.pc t with
    | .idle => s.setSocket .closed
    | .unwinding 0 => (s.setSocket .closed).goto t .idle
    | .unwinding (outer + 1) => (s.setSocket .closed).goto t (.unwinding outer)
    | _ => s

def step (s : TsConnector τ) : ConnectorCall τ → TsConnector τ
  | .transfer t =>
      match s.pc t with
      | .idle => s.goto t .transferring
      | _ => s
  | .done t =>
      match s.pc t, s.socket with
      | .transferring, .connected _ | .retrying _ _, .connected _ => s.goto t .idle
      | _, _ => s
  | .fail t => s.fail t
  | .connect t => s.connect t
  | .proceed t outcome =>
      match s.pc t with
      | .connecting phase failure => s.proceed t failure phase outcome
      | _ => s
  | .retry t =>
      match s.pc t with
      | .returned failure => s.goto t (.retrying failure s.socket)
      | _ => s
  | .disconnect t => s.disconnect t

end TsConnector

/-! ## Retries on new connections -/

/-- Connected, and since the failure. -/
def Socket.NewSince (failure : Failure) : Socket → Prop
  | .connected conn => failure.established ≤ conn
  | .closed | .unconnected => False

def ConnectorPc.canDisconnect : ConnectorPc → Bool
  | .idle | .unwinding _ => true
  | _ => false

namespace TsConnector

variable {τ : Type*}

/-- Every retry under way runs on a connection established after the failure before it. -/
def RetriesReconnected (s : TsConnector τ) : Prop :=
  ∀ t failure on, s.pc t = .retrying failure on → on.NewSince failure

/-- A failed thread that gets the mutex does not find the socket open on a connection from
before its failure, and nobody closes the socket between such a call of `connect` and the
retry. -/
def Reconnects (s : TsConnector τ) : ConnectorCall τ → Prop
  | .connect t => s.owner = none → ∀ failure conn, s.pc t = .failed failure →
      s.socket = .connected conn → failure.established ≤ conn
  | .disconnect t => s.owner = none → (s.pc t).canDisconnect = true →
      ∀ u failure, s.pc u ≠ .returned failure
  | _ => True

/-- What holds of each thread, by where it stands. -/
def PcOk (s : TsConnector τ) (t : τ) : ConnectorPc → Prop
  | .idle | .transferring | .unwinding _ => True
  | .failed failure => failure.established ≤ s.established
  | .connecting .settingOptions failure =>
      s.owner = some t ∧ ∃ conn, s.socket = .connected conn ∧
        ∀ f, failure = some f → f.established ≤ conn
  | .connecting .catching _ => s.owner = some t
  | .connecting _ failure =>
      s.owner = some t ∧ ∀ f, failure = some f → f.established ≤ s.established
  | .returned failure => s.owner = none ∧ s.socket.NewSince failure
  | .retrying failure on => on.NewSince failure

structure Inv (s : TsConnector τ) : Prop where
  pcs : ∀ t, s.PcOk t (s.pc t)
  free : s.owner = none → s.socket ≠ .unconnected

/-- Neither inside `connect` nor just back from it: what happens to the socket does not
matter. -/
def Apart : ConnectorPc → Prop
  | .connecting _ _ | .returned _ => False
  | _ => True

variable {s s' : TsConnector τ} {t u : τ} {pc : ConnectorPc}

theorem start_inv : (start : TsConnector τ).Inv := ⟨fun _ => trivial, fun _ => nofun⟩

theorem PcOk.of_apart (hok : s.PcOk t pc) (hapart : Apart pc)
    (hmore : s.established ≤ s'.established) : s'.PcOk t pc := by
  cases pc with
  | idle => trivial
  | transferring => trivial
  | failed failure => exact le_trans hok hmore
  | connecting phase failure => exact hapart.elim
  | returned failure => exact hapart.elim
  | retrying failure on => exact hok
  | unwinding outer => trivial

theorem owner_of_connecting {phase : ConnectPhase} {failure : Option Failure}
    (hok : s.PcOk t (.connecting phase failure)) : s.owner = some t := by
  cases phase with
  | catching => exact hok
  | _ => exact hok.1

/-- While one thread has the mutex the others are elsewhere. -/
theorem apart_of_owner (hok : s.PcOk u pc) (howner : s.owner = some t) (hother : u ≠ t) :
    Apart pc := by
  cases pc with
  | connecting phase failure =>
      have hself := owner_of_connecting hok
      rw [howner, Option.some.injEq] at hself
      exact hother hself.symm
  | returned failure =>
      rw [hok.1] at howner
      cases howner
  | _ => trivial

theorem apart_of_free (hok : s.PcOk u pc) (hfree : s.owner = none)
    (hreturned : ∀ failure, pc ≠ .returned failure) : Apart pc := by
  cases pc with
  | connecting phase failure =>
      have hself := owner_of_connecting hok
      rw [hfree] at hself
      cases hself
  | returned failure => exact hreturned failure rfl
  | _ => trivial

theorem Inv.pcOk (hinv : s.Inv) (hpc : s.pc t = pc) : s.PcOk t pc := by
  rw [← hpc]
  exact hinv.pcs t

theorem Inv.retriesReconnected (hinv : s.Inv) : s.RetriesReconnected :=
  fun _ _ _ hpc => hinv.pcOk hpc

variable [DecidableEq τ]

theorem Inv.goto (hinv : s.Inv) (hpc : s.PcOk t pc) : (s.goto t pc).Inv :=
  ⟨forall_update hpc fun u _ => hinv.pcs u, hinv.free⟩

/-- A move of one thread while no other one is inside `connect` or just back from it. -/
theorem Inv.goto_apart (hinv : s.Inv) (hapart : ∀ u, u ≠ t → Apart (s.pc u))
    (hsame : s'.pc = s.pc) (hmore : s.established ≤ s'.established)
    (hfree : s'.owner = none → s'.socket ≠ .unconnected) (hpc : s'.PcOk t pc) :
    (s'.goto t pc).Inv := by
  refine ⟨?_, hfree⟩
  have hothers : ∀ u, u ≠ t → s'.PcOk u (s'.pc u) := by
    intro u hother
    rw [hsame]
    exact (hinv.pcs u).of_apart (hapart u hother) hmore
  exact forall_update hpc hothers

/-- What `connect` does while the mutex is free: it returns at once, or takes the mutex. -/
theorem enterConnect_inv (hinv : s.Inv) (hfree : s.owner = none) {failure : Option Failure}
    (hbefore : ∀ f, failure = some f → f.established ≤ s.established)
    (hnew : ∀ f conn, failure = some f → s.socket = .connected conn → f.established ≤ conn) :
    (s.enterConnect t failure).Inv := by
  have hopen : s.socket.isOpen = true → ∃ conn, s.socket = .connected conn := by
    intro hisOpen
    cases hsocket : s.socket with
    | closed =>
        rw [hsocket] at hisOpen
        cases hisOpen
    | unconnected => exact absurd hsocket (hinv.free hfree)
    | connected conn => exact ⟨conn, rfl⟩
  unfold enterConnect
  by_cases hisOpen : s.socket.isOpen = true
  · rw [if_pos hisOpen]
    rcases hopen hisOpen with ⟨conn, hsocket⟩
    cases failure with
    | none => exact hinv
    | some f =>
        apply hinv.goto
        refine ⟨hfree, ?_⟩
        rw [hsocket]
        exact hnew f conn rfl hsocket
  · rw [if_neg hisOpen]
    have hapart : ∀ u, u ≠ t → Apart (s.pc u) := by
      intro u _
      apply apart_of_free (hinv.pcs u) hfree
      intro f hreturned
      have hconnected := hinv.pcOk hreturned
      apply hisOpen
      cases hsocket : s.socket with
      | connected conn => rfl
      | _ =>
          rw [PcOk, hsocket] at hconnected
          exact hconnected.2.elim
    exact hinv.goto_apart hapart rfl le_rfl nofun ⟨rfl, hbefore⟩

theorem connect_inv (hinv : s.Inv) (hok : s.Reconnects (.connect t)) : (s.connect t).Inv := by
  unfold connect
  by_cases howner : s.owner.isSome = true
  · rw [if_pos howner]
    exact hinv
  · rw [if_neg howner]
    have hfree : s.owner = none := Option.not_isSome_iff_eq_none.mp howner
    cases hpc : s.pc t with
    | idle => exact enterConnect_inv hinv hfree nofun nofun
    | failed failure =>
        have hbefore := hinv.pcOk hpc
        apply enterConnect_inv hinv hfree
        · intro f hf
          rw [← Option.some.inj hf]
          exact hbefore
        · intro f conn hf hsocket
          rw [← Option.some.inj hf]
          exact hok hfree failure conn hpc hsocket
    | _ => exact hinv

theorem disconnect_inv (hinv : s.Inv) (hok : s.Reconnects (.disconnect t)) :
    (s.disconnect t).Inv := by
  unfold disconnect
  by_cases howner : s.owner.isSome = true
  · rw [if_pos howner]
    exact hinv
  · rw [if_neg howner]
    have hfree : s.owner = none := Option.not_isSome_iff_eq_none.mp howner
    have hapart : (s.pc t).canDisconnect = true → ∀ u, Apart (s.pc u) := fun hcan u =>
      apart_of_free (hinv.pcs u) hfree (hok hfree hcan u)
    cases hpc : s.pc t with
    | idle =>
        have hall := hapart (by rw [hpc]; rfl)
        exact ⟨fun u => (hinv.pcs u).of_apart (hall u) le_rfl, fun _ => nofun⟩
    | unwinding outer =>
        have hall := hapart (by rw [hpc]; rfl)
        cases outer with
        | zero => exact hinv.goto_apart (fun u _ => hall u) rfl le_rfl (fun _ => nofun) trivial
        | succ outer =>
            exact hinv.goto_apart (fun u _ => hall u) rfl le_rfl (fun _ => nofun) trivial
    | _ => exact hinv

theorem Inv.leaveConnect (hinv : s.Inv) {failure : Option Failure}
    (hpc : s.pc t = .connecting .settingOptions failure) :
    ((s.setOwner none).goto t (returnedTo failure)).Inv := by
  have hself := hinv.pcOk hpc
  rcases hself with ⟨howner, conn, hsocket, hnew⟩
  have hapart : ∀ u, u ≠ t → Apart (s.pc u) := fun u hother =>
    apart_of_owner (hinv.pcs u) howner hother
  have hconnected : (s.setOwner none).socket ≠ .unconnected := by
    rw [setOwner, hsocket]
    exact nofun
  have hreturned : (s.setOwner none).PcOk t (returnedTo failure) := by
    cases failure with
    | none => trivial
    | some f =>
        refine ⟨rfl, ?_⟩
        rw [setOwner, hsocket]
        exact hnew f rfl
  exact hinv.goto_apart hapart rfl le_rfl (fun _ => hconnected) hreturned

theorem proceed_inv (hinv : s.Inv) {phase : ConnectPhase} {failure : Option Failure}
    (hpc : s.pc t = .connecting phase failure) (outcome : ConnectOutcome) :
    (s.proceed t failure phase outcome).Inv := by
  have hself := hinv.pcOk hpc
  have howner := owner_of_connecting hself
  have hapart : ∀ u, u ≠ t → Apart (s.pc u) := fun u hother =>
    apart_of_owner (hinv.pcs u) howner hother
  have hcatch : (s.goto t (.connecting .catching failure)).Inv := hinv.goto howner
  cases phase with
  | resolving =>
      cases outcome with
      | resolved endpoints => exact hinv.goto hself
      | throws => exact hcatch
      | _ => exact hinv
  | trying left endpoints =>
      cases left with
      | zero =>
          cases outcome with
          | throws => exact hcatch
          | _ => exact hinv.goto hself
      | succ left =>
          have hclose : ((s.setSocket .closed).goto t
              (.connecting (.dialing left endpoints) failure)).Inv :=
            hinv.goto_apart hapart rfl le_rfl (fun _ => nofun) hself
          cases outcome with
          | throws => exact hcatch
          | _ => exact hclose
  | dialing left endpoints =>
      cases outcome with
      | ok =>
          exact hinv.goto_apart hapart rfl (Nat.le_succ _) (fun _ => nofun)
            ⟨howner, s.established, rfl, hself.2⟩
      | error =>
          have hbusy : (s.setSocket .unconnected).owner ≠ none := by
            rw [setSocket, howner]
            exact nofun
          exact hinv.goto_apart hapart rfl le_rfl (fun hfree => absurd hfree hbusy) hself
      | throws => exact hcatch
      | resolved endpoints => exact hinv
  | sleeping endpoints =>
      cases outcome with
      | ok => exact hinv.goto hself
      | throws => exact hcatch
      | _ => exact hinv
  | settingOptions =>
      cases outcome with
      | ok => exact hinv.leaveConnect hpc
      | throws => exact hcatch
      | _ => exact hinv
  | catching =>
      have hthrown : ((s.setSocket .closed).setOwner none).PcOk t (thrownTo failure) := by
        cases failure <;> trivial
      cases outcome <;> exact hinv.goto_apart hapart rfl le_rfl (fun _ => nofun) hthrown

theorem step_inv (hinv : s.Inv) (call : ConnectorCall τ) (hok : s.Reconnects call) :
    (s.step call).Inv := by
  cases call with
  | transfer t =>
      simp only [step]
      cases hpc : s.pc t with
      | idle => exact hinv.goto trivial
      | _ => exact hinv
  | done t =>
      simp only [step]
      split
      · exact hinv.goto trivial
      · exact hinv.goto trivial
      · exact hinv
  | fail t =>
      simp only [step, fail]
      cases hpc : s.pc t with
      | transferring => exact hinv.goto le_rfl
      | retrying failure on => exact hinv.goto le_rfl
      | _ => exact hinv
  | connect t => exact connect_inv hinv hok
  | proceed t outcome =>
      simp only [step]
      cases hpc : s.pc t with
      | connecting phase failure => exact proceed_inv hinv hpc outcome
      | _ => exact hinv
  | retry t =>
      simp only [step]
      cases hpc : s.pc t with
      | returned failure =>
          exact hinv.goto (hinv.pcOk hpc).2
      | _ => exact hinv
  | disconnect t => exact disconnect_inv hinv hok

/-! ## Where a retry goes wrong -/

/-- The retry of a thread that is back from `connect` runs on what the socket is then. -/
theorem newSince_of_retry {failure : Failure} (hpc : s.pc t = .returned failure)
    (h : (s.step (.retry t)).RetriesReconnected) : s.socket.NewSince failure := by
  apply h t failure s.socket
  simp only [step, hpc, pc_goto]

theorem step_connect_of_isOpen {failure : Failure} (hfree : s.owner = none)
    (hpc : s.pc t = .failed failure) (hopen : s.socket.isOpen = true) :
    s.step (.connect t) = s.goto t (.returned failure) := by
  simp only [step, connect, hfree, Option.isSome_none, Bool.false_eq_true, if_false, hpc,
    enterConnect, hopen, if_true]

theorem step_disconnect (hfree : s.owner = none) (hcan : (s.pc t).canDisconnect = true) :
    (s.step (.disconnect t)).socket = .closed ∧
      ∀ u, u ≠ t → (s.step (.disconnect t)).pc u = s.pc u := by
  simp only [step, disconnect, hfree, Option.isSome_none, Bool.false_eq_true, if_false]
  cases hpc : s.pc t with
  | idle => exact ⟨rfl, fun u _ => rfl⟩
  | unwinding outer =>
      cases outer with
      | zero => exact ⟨rfl, fun u hother => Function.update_of_ne hother _ _⟩
      | succ outer => exact ⟨rfl, fun u hother => Function.update_of_ne hother _ _⟩
  | _ =>
      rw [hpc] at hcan
      cases hcan

/-- Any other move lets a retry go wrong at once. -/
theorem exists_retry_of_not_reconnects {call : ConnectorCall τ} (hok : ¬ s.Reconnects call) :
    ∃ t, ¬ ((s.step call).step (.retry t)).RetriesReconnected := by
  cases call with
  | connect t =>
      simp only [Reconnects, not_forall] at hok
      rcases hok with ⟨hfree, failure, conn, hpc, hsocket, hold⟩
      have hreturned := step_connect_of_isOpen hfree hpc (by rw [hsocket]; rfl)
      refine ⟨t, ?_⟩
      intro hretry
      rw [hreturned] at hretry
      have hnew := newSince_of_retry (pc_goto s t (.returned failure)) hretry
      rw [socket_goto, hsocket] at hnew
      exact hold hnew
  | disconnect t =>
      simp only [Reconnects, not_forall, not_not] at hok
      rcases hok with ⟨hfree, hcan, u, failure, hpc⟩
      have hother : u ≠ t := by
        rintro rfl
        rw [hpc] at hcan
        cases hcan
      rcases step_disconnect hfree hcan with ⟨hclosed, hkept⟩
      refine ⟨u, ?_⟩
      intro hretry
      have hnew := newSince_of_retry ((hkept u hother).trans hpc) hretry
      rw [hclosed] at hnew
      exact hnew
  | _ => exact absurd trivial hok

/-- Every retry under way is on a new connection, and so is the one that a thread makes
next. -/
structure RecoveryReconnects (s : TsConnector τ) : Prop where
  underWay : s.RetriesReconnected
  next : ∀ t, (s.step (.retry t)).RetriesReconnected

/-- Exactly the runs in which `connect` never finds an old connection open, and its new one
is left open. -/
theorem recoveryReconnects_iff (calls : List (ConnectorCall τ)) :
    (∀ first, first <+: calls → (run step start first).RecoveryReconnects) ↔
      ∀ earlier call later, calls = earlier ++ call :: later →
        (run step start earlier).Reconnects call := by
  apply always_iff_of_steps step start Inv RecoveryReconnects Reconnects start_inv
  · intro s hinv
    exact ⟨hinv.retriesReconnected,
      fun t => (step_inv hinv (.retry t) trivial).retriesReconnected⟩
  · intro s call hinv hok
    exact step_inv hinv call hok
  · intro s call _ hok hreconnects
    rcases exists_retry_of_not_reconnects hok with ⟨t, hretry⟩
    exact hretry (hreconnects.next t)

/-! ### A dead peer -/

/-- The connection is open, and a transfer has failed at some depth of the recursion. -/
structure FailedOn (s : TsConnector τ) (t : τ) (conn depth : ℕ) : Prop where
  free : s.owner = none
  socket : s.socket = .connected conn
  pc : s.pc t = .failed ⟨depth, s.established⟩

theorem FailedOn.recurse {conn depth : ℕ} (h : s.FailedOn t conn depth) :
    (run step s [.connect t, .retry t, .fail t]).FailedOn t conn (depth + 1) := by
  have hreturned := step_connect_of_isOpen h.free h.pc (by rw [h.socket]; rfl)
  simp only [run_cons, run_nil, hreturned]
  have hretry : (s.goto t (.returned ⟨depth, s.established⟩)).step (.retry t) =
      (s.goto t (.returned ⟨depth, s.established⟩)).goto t
        (.retrying ⟨depth, s.established⟩ s.socket) := by
    simp only [step, pc_goto, socket_goto]
  rw [hretry]
  simp only [step, fail, pc_goto]
  exact ⟨h.free, h.socket, pc_goto _ _ _⟩

/-- On a connection that stays broken the recursion has no end. -/
theorem recursion_unbounded {conn depth : ℕ} (h : s.FailedOn t conn depth) (n : ℕ) :
    (run step s (List.replicate n [.connect t, .retry t, .fail t]).flatten).FailedOn t conn
      (depth + n) := by
  induction n generalizing s depth with
  | zero => exact h
  | succ n ih =>
      rw [List.replicate_succ, List.flatten_cons, run_append, Nat.add_succ, ← Nat.succ_add]
      exact ih h.recurse

inductive TsThread where
  | reader
  | writer
  | main
  deriving DecidableEq

/-- `connect` of the reader with one endpoint, which answers. -/
def readerConnects : List (ConnectorCall TsThread) :=
  [.connect .reader, .proceed .reader (.resolved 1), .proceed .reader .ok,
    .proceed .reader .ok, .proceed .reader .ok]

/-- The first read fails. -/
def brokenRead : List (ConnectorCall TsThread) :=
  readerConnects ++ [.transfer .reader, .fail .reader, .connect .reader, .retry .reader]

theorem not_retriesReconnected_brokenRead :
    ¬ (run step start brokenRead).RetriesReconnected := by
  intro h
  have hretry : (run step start brokenRead).pc .reader = .retrying ⟨0, 1⟩ (.connected 0) := by
    decide
  exact absurd (h .reader ⟨0, 1⟩ (.connected 0) hretry) (by decide : ¬ 1 ≤ 0)

/-- Where `stop` has closed the socket there is a new connection. -/
example :
    (run step start (readerConnects ++ [.transfer .reader, .disconnect .main, .fail .reader] ++
      readerConnects ++ [.retry .reader])).pc .reader = .retrying ⟨0, 1⟩ (.connected 1) := by
  decide

end TsConnector

end CppPlay.FixAdapter
