import CppPlay.FixAdapter.QuickFix
import CppPlay.Lib.Bimap
import CppPlay.Lib.Run

/-!
# Sessions and their routes

`SessionsInfo` keeps, for each configured session, what its logon handed out, and
a bimap that leads a report of the trading system back to its session.  A logon
writes to both; only the bimap may refuse.
-/

namespace CppPlay.FixAdapter

open CppPlay.Lib

structure SessionLogonInfo where
  tsPref : UInt32
  sessId : CppString
  userName : CppString
  passWord : CppString
  tsId : UInt32
  xsessId : UInt32

structure SessionInfo where
  dict : String → Option CppString
  logonInfo : SessionLogonInfo

abbrev TsSessionId := UInt32 × UInt32

structure SessionsInfo (SessionID : Type) where
  sessionsSettings : SessionID → Option SessionInfo
  sessionIds : Bimap SessionID TsSessionId

namespace SessionsInfo

variable {SessionID : Type} [DecidableEq SessionID]

omit [DecidableEq SessionID] in
def start (settings : SessionID → Option SessionInfo) : SessionsInfo SessionID :=
  ⟨settings, Bimap.empty⟩

def getLogonInfo (config : SessionsInfo SessionID) (id : SessionID) :
    Option SessionLogonInfo :=
  (config.sessionsSettings id).map SessionInfo.logonInfo

def storeLogonInfo (config : SessionsInfo SessionID) (id : SessionID)
    (info : SessionLogonInfo) : SessionsInfo SessionID :=
  { config with
    sessionsSettings := fun other =>
      if other = id then (config.sessionsSettings id).map fun s => { s with logonInfo := info }
      else config.sessionsSettings other }

def setSessId (config : SessionsInfo SessionID) (id : SessionID) (xsessId tsId : UInt32) :
    Bool × SessionsInfo SessionID :=
  match config.getLogonInfo id with
  | none => (false, config)
  | some info =>
      if tsId ≠ info.tsId then (false, config)
      else
        let config := config.storeLogonInfo id { info with xsessId := xsessId }
        (true, { config with sessionIds := config.sessionIds.insert id (xsessId, info.tsId) })

def getSessionId (fix : QuickFix SessionID) (config : SessionsInfo SessionID)
    (id : TsSessionId) : SessionID :=
  (config.sessionIds.findRight id).getD fix.INVALID_SESSION_ID

/-! ## Logons -/

structure Logon (SessionID : Type) where
  id : SessionID
  xsessId : UInt32
  tsId : UInt32

def Logon.route (logon : Logon SessionID) : SessionID × TsSessionId :=
  (logon.id, logon.xsessId, logon.tsId)

def Logon.Known (settings : SessionID → Option SessionInfo) (logon : Logon SessionID) : Bool :=
  (settings logon.id).any fun s => s.logonInfo.tsId = logon.tsId

/-- The store and the accepted logons, the latest first. -/
structure LogonRun (SessionID : Type) where
  config : SessionsInfo SessionID
  accepted : List (SessionID × TsSessionId)

namespace LogonRun

def step (r : LogonRun SessionID) (logon : Logon SessionID) : LogonRun SessionID :=
  match r.config.setSessId logon.id logon.xsessId logon.tsId with
  | (true, config) => ⟨config, logon.route :: r.accepted⟩
  | (false, config) => ⟨config, r.accepted⟩

omit [DecidableEq SessionID] in
def start (settings : SessionID → Option SessionInfo) : LogonRun SessionID :=
  ⟨SessionsInfo.start settings, []⟩

/-- The pair of a session's latest logon leads to the session, unless another
session took it later; a pair that it used before does not. -/
def Routes (fix : QuickFix SessionID) (r : LogonRun SessionID) : Prop :=
  ∀ later s pair earlier, r.accepted = later ++ (s, pair) :: earlier →
    (∀ e ∈ later, e.1 ≠ s) →
      ((∀ e ∈ later, e.2 ≠ pair) → r.config.getSessionId fix pair = s) ∧
      ∀ old, (s, old) ∈ earlier → old ≠ pair → r.config.getSessionId fix old ≠ s

/-! ## One logon -/

/-- What the run keeps: the configured trading systems, and, while the logons
are one-to-one, a bimap that holds exactly them. -/
structure Inv (settings : SessionID → Option SessionInfo) (r : LogonRun SessionID) : Prop where
  tsId : ∀ id, (r.config.getLogonInfo id).map SessionLogonInfo.tsId =
    (settings id).map fun s => s.logonInfo.tsId
  pairs : OneToOne r.accepted → ∀ p, p ∈ r.config.sessionIds.pairs ↔ p ∈ r.accepted

variable {settings : SessionID → Option SessionInfo} {r : LogonRun SessionID}
  {logon : Logon SessionID}

variable (logon) in
/-- A logon of an unknown session changes nothing; any other is logged and
offered to the bimap. -/
theorem step_cases (hinv : r.Inv settings) :
    (logon.Known settings = false ∧ r.step logon = r) ∨
    (logon.Known settings = true ∧
      (r.step logon).accepted = logon.route :: r.accepted ∧
      (r.step logon).config.sessionIds =
        r.config.sessionIds.insert logon.route.1 logon.route.2 ∧
      ∀ id, ((r.step logon).config.getLogonInfo id).map SessionLogonInfo.tsId =
        (r.config.getLogonInfo id).map SessionLogonInfo.tsId) := by
  have hts := hinv.tsId logon.id
  rw [step, setSessId]
  cases hinfo : r.config.getLogonInfo logon.id with
  | none =>
      rw [hinfo, Option.map_none, eq_comm, Option.map_eq_none_iff] at hts
      exact Or.inl ⟨by simp [Logon.Known, hts], rfl⟩
  | some info =>
      rw [hinfo, Option.map_some, eq_comm, Option.map_eq_some_iff] at hts
      rcases hts with ⟨s, hs, hsts⟩
      by_cases hsame : logon.tsId = info.tsId
      · right
        refine ⟨by simp [Logon.Known, hs, hsts, hsame], by simp [hsame],
          by simp [hsame, Logon.route, storeLogonInfo], ?_⟩
        intro id
        simp only [hsame, ne_eq, not_true_eq_false, if_false, getLogonInfo, storeLogonInfo]
        by_cases hid : id = logon.id
        · rw [getLogonInfo, Option.map_eq_some_iff] at hinfo
          rcases hinfo with ⟨stored, hstored, hstoredInfo⟩
          simp [hid, hstored, hstoredInfo]
        · simp [hid]
      · left
        refine ⟨?_, by simp [hsame]⟩
        have hother : info.tsId ≠ logon.tsId := fun heq => hsame heq.symm
        simp [Logon.Known, hs, hsts, hother]

theorem step_inv (hinv : r.Inv settings) : (r.step logon).Inv settings := by
  rcases step_cases logon hinv with ⟨_, hsame⟩ | ⟨_, haccepted, hids, hts⟩
  · rw [hsame]
    exact hinv
  · constructor
    · intro id
      rw [hts id, hinv.tsId id]
    · intro hone p
      rw [haccepted] at hone ⊢
      rw [hids]
      exact Bimap.mem_pairs_insert_of_oneToOne (hinv.pairs (oneToOne_cons.mp hone).1) hone p

theorem run_inv (logons : List (Logon SessionID)) :
    (run step (start settings) logons).Inv settings := by
  apply run_invariant (LogonRun.Inv settings)
  · constructor
    · intro id
      simp [start, SessionsInfo.start, getLogonInfo, Function.comp_def]
    · intro _ p
      exact Iff.rfl
  · intro r logon hinv
    exact step_inv hinv

theorem accepted_run (logons : List (Logon SessionID)) :
    (run step (start settings) logons).accepted =
      ((logons.filter (Logon.Known settings)).map Logon.route).reverse := by
  induction logons using List.reverseRecOn with
  | nil => rfl
  | append_singleton logons logon ih =>
      rw [run_append, run_cons, run_nil]
      rcases step_cases logon (run_inv logons) with
        ⟨hknown, hsame⟩ | ⟨hknown, haccepted, _, _⟩
      · rw [hsame, ih]
        simp [hknown]
      · rw [haccepted, ih]
        simp [hknown]

/-! ## Routing -/

omit [DecidableEq SessionID] in
theorem getSessionId_of_mem {fix : QuickFix SessionID} {config : SessionsInfo SessionID}
    {id : SessionID} {pair : TsSessionId} (hmem : (id, pair) ∈ config.sessionIds.pairs) :
    config.getSessionId fix pair = id := by
  rw [getSessionId, Bimap.findRight_eq_some_iff.mpr hmem, Option.getD_some]

omit [DecidableEq SessionID] in
theorem routes_of_oneToOne (fix : QuickFix SessionID) (hinv : r.Inv settings)
    (hone : OneToOne r.accepted) : r.Routes fix := by
  intro later s pair earlier hsplit _
  have hmem : (s, pair) ∈ r.accepted := by simp [hsplit]
  constructor
  · intro _
    exact getSessionId_of_mem ((hinv.pairs hone _).mpr hmem)
  · intro old hold hne
    have holdMem : (s, old) ∈ r.accepted := by simp [hsplit, hold]
    exact absurd ((hone _ holdMem _ hmem).mp rfl) hne

theorem oneToOne_of_routes (fix : QuickFix SessionID) (hinv : r.Inv settings)
    (hone : OneToOne r.accepted) (hroutes : (r.step logon).Routes fix) :
    OneToOne (r.step logon).accepted := by
  rcases step_cases logon hinv with ⟨_, hsame⟩ | ⟨_, haccepted, hids, _⟩
  · rw [hsame]
    exact hone
  · rw [haccepted, oneToOne_cons]
    refine ⟨hone, ?_⟩
    have hhead := hroutes [] logon.route.1 logon.route.2 r.accepted haccepted (by simp)
    have hroute : (r.step logon).config.getSessionId fix logon.route.2 = logon.route.1 :=
      hhead.1 (by simp)
    intro q hq
    have hpair : (q.1, q.2) ∈ r.config.sessionIds.pairs := (hinv.pairs hone q).mpr hq
    constructor
    · intro hid
      by_contra hne
      have hmem : (logon.route.1, q.2) ∈ r.accepted := hid ▸ hq
      apply hhead.2 q.2 hmem (fun heq => hne heq.symm)
      rw [Bimap.insert_of_left hpair hid.symm] at hids
      apply getSessionId_of_mem
      rw [hids, hid]
      exact hpair
    · intro hsnd
      rw [Bimap.insert_of_right hpair hsnd.symm] at hids
      have hholder : (r.step logon).config.getSessionId fix logon.route.2 = q.1 := by
        apply getSessionId_of_mem
        rw [hids, hsnd]
        exact hpair
      rw [← hroute, hholder]

/-- Reports are routed right in every state of a run exactly when the logons of
known sessions are one-to-one: each keeps its pair, and no two share one. -/
theorem routes_iff (fix : QuickFix SessionID) (settings : SessionID → Option SessionInfo)
    (logons : List (Logon SessionID)) :
    (∀ first, first <+: logons → (run step (start settings) first).Routes fix) ↔
      OneToOne ((logons.filter (Logon.Known settings)).map Logon.route) := by
  have hback : ∀ (r : LogonRun SessionID) logon, r.Inv settings →
      OneToOne (r.step logon).accepted → OneToOne r.accepted := by
    intro r logon hinv hone
    rcases step_cases logon hinv with ⟨_, hsame⟩ | ⟨_, haccepted, _, _⟩
    · rwa [hsame] at hone
    · rw [haccepted] at hone
      exact (oneToOne_cons.mp hone).1
  have hexact := always_iff step (LogonRun.Inv settings) (Routes fix)
    (fun r => OneToOne r.accepted) (run_inv []) oneToOne_nil (fun r logon => step_inv) hback
    (fun r => routes_of_oneToOne fix) (fun r logon => oneToOne_of_routes fix) logons
  rw [run_nil, accepted_run] at hexact
  rw [hexact]
  simp only [OneToOne, List.mem_reverse]

def oneSession (id : CppString) : Option SessionInfo :=
  if id = [0x41] then
    some
      { dict := fun _ => none
        logonInfo :=
          { tsPref := 1, sessId := [0x41], userName := [0x75], passWord := [0x70],
            tsId := 1, xsessId := 0 } }
  else none

/-- After a second logon with another number the session is not found. -/
theorem not_routes_relogon :
    ¬ (run step (start oneSession) [⟨[0x41], 1, 1⟩, ⟨[0x41], 2, 1⟩]).Routes
      QuickFix.plain := by
  intro hroutes
  have hlatest := hroutes [] [0x41] (2, 1) [([0x41], 1, 1)] rfl (by simp)
  exact absurd (hlatest.1 (by simp)) (by decide)

end LogonRun

end SessionsInfo

end CppPlay.FixAdapter
