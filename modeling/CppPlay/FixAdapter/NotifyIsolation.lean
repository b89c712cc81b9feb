import CppPlay.FixAdapter.NetworkOrder
import CppPlay.FixAdapter.TSNotifyManager

/-!
# What one notification leaves to the next

The caches of actions do no harm: an entry is used only for the id that it was
made for.  The two numbers that select the session are never reset, so a message
depends on its predecessors exactly through the numbers it does not carry.
-/

namespace CppPlay.FixAdapter

open CppPlay.Lib

variable (api : Espd) {SessionID : Type} (fix : QuickFix SessionID)

def actionAt (cmd : NotifyCmd) (data : Memory Byte) (pos : ℕ) : FixAction :=
  getFixAction api cmd (FldHdr.getId api data pos)

def applyActions (cmd : NotifyCmd) (data : Memory Byte) (fields : List ℕ) (wr : FixMsgWr) :
    FixMsgWr :=
  fields.foldl (fun wr pos => (actionAt api cmd data pos).run api fix data pos wr) wr

/-! ## The caches -/

def CacheOk (cmd : NotifyCmd) (actions : List CachedAction) : Prop :=
  ∀ cached ∈ actions, cached.id = api.uespd16.load cached.bigId ∧
    ∀ action, cached.action = some action → action = getFixAction api cmd cached.id

variable {api fix}

theorem cacheOk_append {cmd : NotifyCmd} {xs ys : List CachedAction} :
    CacheOk api cmd (xs ++ ys) ↔ CacheOk api cmd xs ∧ CacheOk api cmd ys :=
  List.forall_mem_append

theorem cacheOk_loaded (cmd : NotifyCmd) (data : Memory Byte) (pos : ℕ) :
    CacheOk api cmd
      [⟨data.read pos 2, FldHdr.getId api data pos, some (actionAt api cmd data pos)⟩] := by
  intro cached hmem
  rw [List.mem_singleton.mp hmem]
  exact ⟨rfl, fun action hsome => (Option.some.inj hsome).symm⟩

/-- The entry at the iterator, once it has been compared with the field, gives the
field's own action. -/
theorem usedEntry_ok {cmd : NotifyCmd} {first : CachedAction} (data : Memory Byte) (pos : ℕ)
    (hfirst : CacheOk api cmd [first]) :
    ∃ used : CachedAction,
      (if first.bigId ≠ data.read pos 2 then
        ⟨data.read pos 2, FldHdr.getId api data pos, none⟩ else first) = used ∧
      used.action.getD (getFixAction api cmd used.id) = actionAt api cmd data pos ∧
      CacheOk api cmd [{ used with action := some (actionAt api cmd data pos) }] := by
  obtain ⟨hid, haction⟩ := hfirst first (List.mem_singleton_self first)
  by_cases hsame : first.bigId = data.read pos 2
  · have hfield : first.id = FldHdr.getId api data pos := by rw [hid, hsame, FldHdr.getId]
    refine ⟨first, by simp [hsame], ?_, ?_⟩
    · rw [actionAt, ← hfield]
      cases hcached : first.action with
      | none => rfl
      | some action => exact haction action hcached
    · rw [hsame, hfield]
      exact cacheOk_loaded cmd data pos
  · exact ⟨_, if_pos hsame, rfl, cacheOk_loaded cmd data pos⟩

variable (fix) in
theorem manageActions_eq {cmd : NotifyCmd} {capacity : ℕ} (data : Memory Byte)
    (fields : List ℕ) {visited ahead : List CachedAction} (wr : FixMsgWr)
    (hcache : CacheOk api cmd (visited ++ ahead))
    (hroom : visited.length + fields.length ≤ capacity) :
    ∃ actions, CacheOk api cmd actions ∧
      manageActions api fix cmd capacity data fields visited ahead wr =
        .ok (actions, applyActions api fix cmd data fields wr) := by
  induction fields generalizing visited ahead wr with
  | nil => exact ⟨visited ++ ahead, hcache, by rw [manageActions]; rfl⟩
  | cons pos fields ih =>
      rw [List.length_cons] at hroom
      have hnext : ∀ used : CachedAction, (visited ++ [used]).length + fields.length ≤ capacity := by
        intro used
        rw [List.length_append, List.length_singleton]
        omega
      cases ahead with
      | nil =>
          rw [List.append_nil] at hcache
          have hlt : visited.length < capacity := by omega
          simp only [manageActions, hlt, if_true]
          apply ih
          · rw [List.append_nil]
            exact cacheOk_append.mpr ⟨hcache, cacheOk_loaded cmd data pos⟩
          · exact hnext _
      | cons first ahead =>
          rw [List.append_cons] at hcache
          obtain ⟨hbefore, hrest⟩ := cacheOk_append.mp hcache
          obtain ⟨hvisited, hfirst⟩ := cacheOk_append.mp hbefore
          obtain ⟨used, hchoice, haction, hused⟩ := usedEntry_ok data pos hfirst
          simp only [manageActions, hchoice, haction]
          apply ih
          · exact cacheOk_append.mpr ⟨cacheOk_append.mpr ⟨hvisited, hused⟩, hrest⟩
          · exact hnext _

variable (fix) in
/-- The loop ends inside the capacity, or with the iterator that the capacity cost it. -/
theorem manageActions_cases (cmd : NotifyCmd) {capacity : ℕ} (data : Memory Byte)
    (fields : List ℕ) {visited ahead : List CachedAction} (wr : FixMsgWr)
    (hfit : (visited ++ ahead).length ≤ capacity) :
    (visited.length + fields.length ≤ capacity ∧ ∃ actions wr',
      manageActions api fix cmd capacity data fields visited ahead wr = .ok (actions, wr') ∧
        actions.length ≤ capacity) ∨
    (capacity < visited.length + fields.length ∧
      manageActions api fix cmd capacity data fields visited ahead wr =
        .error .danglingIterator) := by
  induction fields generalizing visited ahead wr with
  | nil =>
      left
      rw [List.length_append] at hfit
      exact ⟨by simp only [List.length_nil]; omega, visited ++ ahead, wr, by rw [manageActions],
        by rwa [List.length_append]⟩
  | cons pos fields ih =>
      have hlength : ∀ used : CachedAction,
          (visited ++ [used]).length + fields.length = visited.length + (pos :: fields).length := by
        intro used
        simp only [List.length_append, List.length_cons, List.length_nil]
        omega
      cases ahead with
      | nil =>
          simp only [manageActions]
          by_cases hlt : visited.length < capacity
          · rw [if_pos hlt, ← hlength]
            apply ih
            simp only [List.append_nil, List.length_append, List.length_singleton]
            omega
          · right
            rw [if_neg hlt]
            exact ⟨by rw [List.length_cons]; omega, rfl⟩
      | cons first ahead =>
          simp only [manageActions]
          rw [← hlength]
          apply ih
          simp only [List.length_append, List.length_cons, List.length_nil] at hfit ⊢
          omega

variable (api fix) in
theorem manageActions_of_lt (cmd : NotifyCmd) {capacity : ℕ} (data : Memory Byte)
    {fields : List ℕ} {ahead : List CachedAction} (wr : FixMsgWr)
    (hfit : ahead.length ≤ capacity) (hfull : capacity < fields.length) :
    manageActions api fix cmd capacity data fields [] ahead wr = .error .danglingIterator := by
  rcases @manageActions_cases api SessionID fix cmd capacity data fields [] ahead wr hfit with
    ⟨hroom, _⟩ | ⟨_, herror⟩
  · rw [List.length_nil, Nat.zero_add] at hroom
    exact absurd hroom (not_le.mpr hfull)
  · exact herror

/-! ## The numbers that select the session -/

inductive SessionKey where
  | extTsSessionId
  | tsId

def SessionKey.fieldId : SessionKey → FieldId
  | .extTsSessionId => .extTsSessionId
  | .tsId => .tsId

def FixMsgWr.register (wr : FixMsgWr) : SessionKey → UInt32
  | .extTsSessionId => wr.extSesId
  | .tsId => wr.tsId

/-- A field with this number, in a command that looks at it. -/
def Carries (api : Espd) (cmd : NotifyCmd) (data : Memory Byte) (fields : List ℕ)
    (key : SessionKey) : Prop :=
  ∃ pos ∈ fields, actionAt api cmd data pos = .act key.fieldId

theorem register_run (action : FixAction) (data : Memory Byte) (pos : ℕ) (wr : FixMsgWr)
    (key : SessionKey) :
    (action.run api fix data pos wr).register key =
      if action = .act key.fieldId then
        api.uespd32.load (data.read (pos + sizeofFldHdr) 4)
      else wr.register key := by
  cases action with
  | dummyAction => simp [FixAction.run]
  | act id =>
      cases id <;> cases key <;>
        simp [FixAction.run, Act.type, MsgField.getData, Act.store, FixMsgWr.register,
          FixMsgWr.setField, SessionKey.fieldId]

theorem msg_run {wr wr' : FixMsgWr} (action : FixAction) (data : Memory Byte) (pos : ℕ)
    (hmsg : wr.msg = wr'.msg) :
    (action.run api fix data pos wr).msg = (action.run api fix data pos wr').msg := by
  cases action with
  | dummyAction => exact hmsg
  | act id =>
      cases id <;>
        simp [FixAction.run, Act.type, MsgField.getData, Act.store, FixMsgWr.setField, hmsg]

theorem msg_applyActions {cmd : NotifyCmd} {data : Memory Byte} (fields : List ℕ)
    {wr wr' : FixMsgWr} (hmsg : wr.msg = wr'.msg) :
    (applyActions api fix cmd data fields wr).msg =
      (applyActions api fix cmd data fields wr').msg := by
  induction fields generalizing wr wr' with
  | nil => exact hmsg
  | cons pos fields ih => exact ih (msg_run _ data pos hmsg)

theorem register_applyActions {cmd : NotifyCmd} {data : Memory Byte} (fields : List ℕ)
    {wr wr' : FixMsgWr} {key : SessionKey}
    (hkey : Carries api cmd data fields key ∨ wr.register key = wr'.register key) :
    (applyActions api fix cmd data fields wr).register key =
      (applyActions api fix cmd data fields wr').register key := by
  induction fields generalizing wr wr' with
  | nil =>
      rcases hkey with ⟨pos, hpos, _⟩ | hsame
      · exact absurd hpos List.not_mem_nil
      · exact hsame
  | cons pos fields ih =>
      apply ih
      by_cases hhere : actionAt api cmd data pos = .act key.fieldId
      · right
        rw [register_run, register_run, if_pos hhere, if_pos hhere]
      · rcases hkey with ⟨other, hother, haction⟩ | hsame
        · rcases List.mem_cons.mp hother with heq | hlater
          · rw [heq] at haction
            exact absurd haction hhere
          · exact Or.inl ⟨other, hlater, haction⟩
        · right
          rw [register_run, register_run, if_neg hhere, if_neg hhere, hsame]

theorem register_applyActions_of_not_carries {cmd : NotifyCmd} {data : Memory Byte}
    (fields : List ℕ) (wr : FixMsgWr) {key : SessionKey}
    (hkey : ¬ Carries api cmd data fields key) :
    (applyActions api fix cmd data fields wr).register key = wr.register key := by
  induction fields generalizing wr with
  | nil => rfl
  | cons pos fields ih =>
      have hhere : actionAt api cmd data pos ≠ .act key.fieldId := fun haction =>
        hkey ⟨pos, List.mem_cons_self, haction⟩
      have hrest : ¬ Carries api cmd data fields key := by
        rintro ⟨other, hother, haction⟩
        exact hkey ⟨other, List.mem_cons_of_mem _ hother, haction⟩
      have hstep : ((actionAt api cmd data pos).run api fix data pos wr).register key =
          wr.register key := by
        rw [register_run, if_neg hhere]
      exact (ih _ hrest).trans hstep

/-! ## What a message reads -/

variable (api) in
/-- The field lies in the message together with the data that its action reads. -/
def ReadsInside (cmd : NotifyCmd) (data : Memory Byte) (size pos : ℕ) : Prop :=
  pos + sizeofFldHdr ≤ size ∧
    ∀ id type, actionAt api cmd data pos = .act id → Act.type id = some type →
      match type.nativeSize? with
      | some n => pos + sizeofFldHdr + n ≤ size
      | none => ∃ i, pos + sizeofFldHdr ≤ i ∧ i < size ∧ data i = 0

theorem getData_congr {cmd : NotifyCmd} {data data' : Memory Byte} {size pos : ℕ}
    (hinside : ReadsInside api cmd data size pos)
    (hsame : ∀ i < size, data i = data' i) {id : FieldId}
    (haction : actionAt api cmd data pos = .act id) :
    (Act.type id).bind (MsgField.getData api data pos) =
      (Act.type id).bind (MsgField.getData api data' pos) := by
  have hread : ∀ n, pos + sizeofFldHdr + n ≤ size →
      data.read (pos + sizeofFldHdr) n = data'.read (pos + sizeofFldHdr) n :=
    fun n hn => Memory.read_congr fun i _ hi => hsame i (by omega)
  cases htype : Act.type id with
  | none => rfl
  | some type =>
      have hdata := hinside.2 id type haction htype
      cases type with
      | uint32 => simp only [Option.bind_some, MsgField.getData, hread 4 hdata]
      | int32 => simp only [Option.bind_some, MsgField.getData, hread 4 hdata]
      | byte => simp only [Option.bind_some, MsgField.getData, hread 1 hdata]
      | decimal => simp only [Option.bind_some, MsgField.getData, hread 8 hdata]
      | string =>
          have hstop : ∃ i, pos + sizeofFldHdr ≤ i ∧ i < size ∧
              decide (data i ≠ 0) = false := by
            rcases hdata with ⟨i, hlow, hhigh, hzero⟩
            exact ⟨i, hlow, hhigh, by simp [hzero]⟩
          simp only [Option.bind_some, MsgField.getData, cString]
          rw [Memory.takeWhile_read_congr hsame _ hstop]
      | int8 => rfl
      | int16 => rfl
      | uint16 => rfl
      | datetime => rfl
      | buffer => rfl
      | bytestream => rfl
      | empty => rfl

theorem readsInside_of_fixed {cmd : NotifyCmd} {data : Memory Byte} {size pos n : ℕ}
    {ident : FieldId} (haction : actionAt api cmd data pos = .act ident)
    (hsize : (Act.type ident).bind FieldType.nativeSize? = some n)
    (hfit : pos + sizeofFldHdr + n ≤ size) : ReadsInside api cmd data size pos := by
  refine ⟨by omega, fun id type hid htype => ?_⟩
  rw [haction, FixAction.act.injEq] at hid
  rw [hid, htype, Option.bind_some] at hsize
  rw [hsize]
  exact hfit

theorem applyActions_congr {cmd : NotifyCmd} {data data' : Memory Byte} {size : ℕ}
    {fields : List ℕ} (hinside : ∀ pos ∈ fields, ReadsInside api cmd data size pos)
    (hsame : ∀ i < size, data i = data' i) (wr : FixMsgWr) :
    applyActions api fix cmd data fields wr = applyActions api fix cmd data' fields wr := by
  induction fields generalizing wr with
  | nil => rfl
  | cons pos fields ih =>
      rw [List.forall_mem_cons] at hinside
      have hid : actionAt api cmd data pos = actionAt api cmd data' pos := by
        have hread : data.read pos 2 = data'.read pos 2 := by
          apply Memory.read_congr
          intro i _ hi
          have hheader := hinside.1.1
          simp only [sizeofFldHdr] at hheader
          exact hsame i (by omega)
        rw [actionAt, actionAt, FldHdr.getId, FldHdr.getId, hread]
      have hrun : (actionAt api cmd data pos).run api fix data pos wr =
          (actionAt api cmd data' pos).run api fix data' pos wr := by
        rw [← hid]
        cases haction : actionAt api cmd data pos with
        | dummyAction => rfl
        | act id => simp only [FixAction.run, getData_congr hinside.1 hsame haction]
      change applyActions api fix cmd data fields
          ((actionAt api cmd data pos).run api fix data pos wr) =
        applyActions api fix cmd data' fields
          ((actionAt api cmd data' pos).run api fix data' pos wr)
      rw [hrun]
      exact ih hinside.2 _

/-! ## One message -/

variable (fix) in
def conclude (config : SessionsInfo SessionID) (cmd : NotifyCmd) (wr : FixMsgWr) :
    Except NotifyError (FixMessageInfo SessionID) :=
  match finishReport fix cmd wr.msg with
  | .error e => .error (.thrown e)
  | .ok report => .ok (some (report, config.getSessionId fix (wr.extSesId, wr.tsId)))

theorem conclude_congr {config : SessionsInfo SessionID} {cmd : NotifyCmd} {wr wr' : FixMsgWr}
    (hmsg : wr.msg = wr'.msg) (hregister : ∀ key, wr.register key = wr'.register key) :
    conclude fix config cmd wr = conclude fix config cmd wr' := by
  have hext := hregister .extTsSessionId
  have hts := hregister .tsId
  simp only [FixMsgWr.register] at hext hts
  rw [conclude, conclude, hmsg, hext, hts]

theorem conclude_ne_danglingIterator (config : SessionsInfo SessionID) (cmd : NotifyCmd)
    (wr : FixMsgWr) : conclude fix config cmd wr ≠ .error .danglingIterator := by
  unfold conclude
  cases finishReport fix cmd wr.msg with
  | error e => simp
  | ok report => simp

variable (api) in
def TSNotifyManager.CachesOk (mgr : TSNotifyManager) : Prop :=
  ∀ cmd, CacheOk api cmd (mgr.actionMaps cmd)

variable (fix) in
/-- A message with no more fields than the caches hold: the result and the numbers
are those of its actions, without a cache. -/
theorem manageEspdMsg_eq {mgr : TSNotifyManager} (hcaches : mgr.CachesOk api)
    (config : SessionsInfo SessionID) {msg : NotifyMsg} {cmd : NotifyCmd}
    (hcmd : notifyCmd? api msg.cmd = some cmd) (hroom : msg.fields.length ≤ mgr.capacity) :
    let wr := applyActions api fix cmd msg.data msg.fields (mgr.msg.setMsg (initMsg fix cmd))
    (mgr.manageEspdMsg api fix config msg).1 = conclude fix config cmd wr ∧
      (mgr.manageEspdMsg api fix config msg).2.CachesOk api ∧
      (mgr.manageEspdMsg api fix config msg).2.capacity = mgr.capacity ∧
      ∀ key, (mgr.manageEspdMsg api fix config msg).2.msg.register key = wr.register key := by
  intro wr
  have hstart : CacheOk api cmd ([] ++ mgr.actionMaps cmd) := hcaches cmd
  have hlength : ([] : List CachedAction).length + msg.fields.length ≤ mgr.capacity := by
    simpa using hroom
  rcases manageActions_eq fix msg.data msg.fields (mgr.msg.setMsg (initMsg fix cmd)) hstart
    hlength with ⟨actions, hactions, heq⟩
  have hupdate : ∀ other, CacheOk api other (Function.update mgr.actionMaps cmd actions other) := by
    intro other
    by_cases hother : other = cmd
    · rw [hother, Function.update_self]
      exact hactions
    · rw [Function.update_of_ne hother]
      exact hcaches other
  simp only [TSNotifyManager.manageEspdMsg, hcmd, heq]
  cases hfinish : finishReport fix cmd
      (applyActions api fix cmd msg.data msg.fields (mgr.msg.setMsg (initMsg fix cmd))).msg with
  | error e => exact ⟨by simp [conclude, wr, hfinish], hupdate, rfl, fun key => rfl⟩
  | ok report =>
      refine ⟨by simp [conclude, wr, hfinish], hupdate, rfl, fun key => ?_⟩
      cases key <;> rfl

/-! ## Runs -/

variable (api) in
def NotifyMsg.Carries (msg : NotifyMsg) (key : SessionKey) : Prop :=
  ∃ cmd, notifyCmd? api msg.cmd = some cmd ∧
    FixAdapter.Carries api cmd msg.data msg.fields key

variable (api) in
/-- The message has room in the caches, its actions read inside it, and each of the
two numbers is its own unless no message before it had one. -/
def Unaffected (capacity : ℕ) (earlier : List NotifyMsg) (msg : NotifyMsg) : Prop :=
  ∀ cmd, notifyCmd? api msg.cmd = some cmd →
    msg.fields.length ≤ capacity ∧
      (∀ pos ∈ msg.fields, ReadsInside api cmd msg.data msg.size pos) ∧
      ∀ key, FixAdapter.Carries api cmd msg.data msg.fields key ∨
        ∀ e ∈ earlier, ¬ e.Carries api key

structure SameMsg (msg msg' : NotifyMsg) : Prop where
  cmd : msg'.cmd = msg.cmd
  fields : msg'.fields = msg.fields
  data : ∀ i < msg.size, msg.data i = msg'.data i

variable (api fix) in
def TSNotifyManager.step (mgr : TSNotifyManager) (input : SessionsInfo SessionID × NotifyMsg) :
    TSNotifyManager :=
  (mgr.manageEspdMsg api fix input.1 input.2).2

variable (api) in
/-- What every message leaves of the caches. -/
structure TSNotifyManager.Sound (capacity : ℕ) (mgr : TSNotifyManager) : Prop where
  caches : mgr.CachesOk api
  capacity : mgr.capacity = capacity
  room : ∀ cmd, (mgr.actionMaps cmd).length ≤ mgr.capacity

theorem TSNotifyManager.Sound.manageEspdMsg_of_lt {capacity : ℕ} {mgr : TSNotifyManager}
    (hsound : mgr.Sound api capacity) (config : SessionsInfo SessionID) {msg : NotifyMsg}
    {cmd : NotifyCmd} (hcmd : notifyCmd? api msg.cmd = some cmd)
    (hfull : capacity < msg.fields.length) :
    mgr.manageEspdMsg api fix config msg = (.error .danglingIterator, mgr) := by
  rw [← hsound.capacity] at hfull
  have hdangling := manageActions_of_lt api fix cmd msg.data (mgr.msg.setMsg (initMsg fix cmd))
    (hsound.room cmd) hfull
  simp only [TSNotifyManager.manageEspdMsg, hcmd, hdangling]

theorem TSNotifyManager.Sound.step {capacity : ℕ} {mgr : TSNotifyManager}
    (hsound : mgr.Sound api capacity) (input : SessionsInfo SessionID × NotifyMsg) :
    (mgr.step api fix input).Sound api capacity := by
  cases hcmd : notifyCmd? api input.2.cmd with
  | none =>
      have hsame : mgr.step api fix input = mgr := by
        simp [TSNotifyManager.step, TSNotifyManager.manageEspdMsg, hcmd]
      rw [hsame]
      exact hsound
  | some cmd =>
      rcases @manageActions_cases api SessionID fix cmd mgr.capacity input.2.data input.2.fields []
        (mgr.actionMaps cmd) (mgr.msg.setMsg (initMsg fix cmd)) (hsound.room cmd) with
        ⟨hroom, actions, wr, hok, hlength⟩ | ⟨hfull, _⟩
      · rw [List.length_nil, Nat.zero_add] at hroom
        rcases manageEspdMsg_eq fix hsound.caches input.1 hcmd hroom with
          ⟨_, hcaches, hcapacity, _⟩
        refine ⟨hcaches, hcapacity.trans hsound.capacity, ?_⟩
        have hmaps : (mgr.step api fix input).actionMaps =
            Function.update mgr.actionMaps cmd actions := by
          simp only [TSNotifyManager.step, TSNotifyManager.manageEspdMsg, hcmd, hok]
          cases finishReport fix cmd wr.msg with
          | error e => rfl
          | ok report => rfl
        have hsame : (mgr.step api fix input).capacity = mgr.capacity := hcapacity
        rw [hmaps, hsame]
        exact (Function.forall_update_iff _ fun _ (kept : List CachedAction) =>
          kept.length ≤ mgr.capacity).mpr ⟨hlength, fun other _ => hsound.room other⟩
      · rw [List.length_nil, Nat.zero_add, hsound.capacity] at hfull
        rw [TSNotifyManager.step, hsound.manageEspdMsg_of_lt input.1 hcmd hfull]
        exact hsound

variable (api) in
/-- What a run keeps: right caches, and a number that no message had is still 0. -/
structure TSNotifyManager.Inv (capacity : ℕ) (earlier : List NotifyMsg)
    (mgr : TSNotifyManager) : Prop where
  caches : mgr.CachesOk api
  capacity : mgr.capacity = capacity
  register : ∀ key, (∀ e ∈ earlier, ¬ e.Carries api key) → mgr.msg.register key = 0

variable (api) in
theorem TSNotifyManager.make_inv (capacity : ℕ) : (make capacity).Inv api capacity [] := by
  constructor
  · intro cmd cached hmem
    exact absurd hmem List.not_mem_nil
  · rfl
  · intro key _
    cases key <;> rfl

variable (fix) in
theorem TSNotifyManager.step_inv {capacity : ℕ} {earlier : List NotifyMsg}
    {mgr : TSNotifyManager} (hinv : mgr.Inv api capacity earlier)
    (config : SessionsInfo SessionID) {msg : NotifyMsg}
    (hunaffected : Unaffected api capacity earlier msg) :
    (mgr.step api fix (config, msg)).Inv api capacity (earlier ++ [msg]) := by
  have hbefore : ∀ key, (∀ e ∈ earlier ++ [msg], ¬ e.Carries api key) →
      mgr.msg.register key = 0 := fun key hkey =>
    hinv.register key fun e he => hkey e (List.mem_append_left _ he)
  cases hcmd : notifyCmd? api msg.cmd with
  | none =>
      have hsame : mgr.step api fix (config, msg) = mgr := by
        simp [step, manageEspdMsg, hcmd]
      rw [hsame]
      exact ⟨hinv.caches, hinv.capacity, hbefore⟩
  | some cmd =>
      have hroom := (hunaffected cmd hcmd).1
      rw [← hinv.capacity] at hroom
      rcases manageEspdMsg_eq fix hinv.caches config hcmd hroom with
        ⟨_, hcaches, hcapacity, hregister⟩
      refine ⟨hcaches, hcapacity.trans hinv.capacity, fun key hkey => ?_⟩
      have hnot : ¬ FixAdapter.Carries api cmd msg.data msg.fields key := fun hcarries =>
        hkey msg (by simp) ⟨cmd, hcmd, hcarries⟩
      have hreset : (mgr.msg.setMsg (initMsg fix cmd)).register key = mgr.msg.register key := by
        cases key <;> rfl
      rw [step, hregister key, register_applyActions_of_not_carries _ _ hnot, hreset]
      exact hbefore key hkey

theorem TSNotifyManager.result_own {capacity : ℕ} {earlier : List NotifyMsg}
    {mgr : TSNotifyManager} (hinv : mgr.Inv api capacity earlier)
    (config : SessionsInfo SessionID) {msg msg' : NotifyMsg}
    (hunaffected : Unaffected api capacity earlier msg) (hsame : SameMsg msg msg') :
    (mgr.manageEspdMsg api fix config msg).1 =
        ((make capacity).manageEspdMsg api fix config msg').1 ∧
      (mgr.manageEspdMsg api fix config msg).1 ≠ .error .danglingIterator := by
  have hcmd' := hsame.cmd
  cases hcmd : notifyCmd? api msg.cmd with
  | none =>
      rw [← hcmd'] at hcmd
      simp [manageEspdMsg, ← hcmd', hcmd]
  | some cmd =>
      rcases hunaffected cmd hcmd with ⟨hroom, hinside, hkeys⟩
      have hold := manageEspdMsg_eq fix hinv.caches config hcmd
        (by rwa [hinv.capacity])
      have hnew := manageEspdMsg_eq fix (make_inv api capacity).caches config (hcmd' ▸ hcmd)
        (hsame.fields ▸ hroom)
      rw [hsame.fields, ← applyActions_congr hinside hsame.data] at hnew
      rw [hold.1, hnew.1]
      constructor
      · apply conclude_congr
        · exact msg_applyActions msg.fields rfl
        · intro key
          apply register_applyActions
          rcases hkeys key with hcarries | hnone
          · exact Or.inl hcarries
          · right
            have hzero := hinv.register key hnone
            cases key with
            | extTsSessionId => exact hzero
            | tsId => exact hzero
      · exact conclude_ne_danglingIterator config cmd _

/-- In a run whose messages are all unaffected by their predecessors, every result
is the one of a new manager on any buffer that holds the same message. -/
theorem TSNotifyManager.results_own (api : Espd) (fix : QuickFix SessionID) (capacity : ℕ)
    (inputs : List (SessionsInfo SessionID × NotifyMsg))
    (hunaffected : ∀ earlier config msg later, inputs = earlier ++ (config, msg) :: later →
      Unaffected api capacity (earlier.map Prod.snd) msg) :
    ∀ earlier config msg later, inputs = earlier ++ (config, msg) :: later →
      ∀ msg', SameMsg msg msg' →
        ((run (step api fix) (make capacity) earlier).manageEspdMsg api fix config msg).1 =
            ((make capacity).manageEspdMsg api fix config msg').1 ∧
          ((run (step api fix) (make capacity) earlier).manageEspdMsg api fix config msg).1 ≠
            .error .danglingIterator := by
  have hinv := run_invariant_of_ok (step api fix) (make capacity)
    (fun earlier mgr => mgr.Inv api capacity (earlier.map Prod.snd))
    (fun earlier input => Unaffected api capacity (earlier.map Prod.snd) input.2)
    (make_inv api capacity)
    (fun earlier input hinv hok => by
      rw [List.map_append]
      exact step_inv fix hinv input.1 hok)
    (fun earlier input later hsplit => hunaffected earlier input.1 input.2 later hsplit)
  intro earlier config msg later hsplit msg' hsame
  exact result_own (hinv earlier ⟨(config, msg) :: later, hsplit.symm⟩) config
    (hunaffected earlier config msg later hsplit) hsame

/-! ## Two clients -/

/-- A queued order of 100 pieces; the fields begin at offset 15. -/
def queuedOrder (fields : List ℕ) (bytes : List Byte) : NotifyMsg where
  cmd := NetworkOrder.espd.notifyCmdCode .orderQueued
  data i := (List.replicate 15 0 ++ bytes).getD i 0
  fields := fields
  size := 15 + bytes.length

def fullNotify : NotifyMsg :=
  queuedOrder [15, 22, 29]
    [0, 13, 5, 0, 0, 0, 1, 0, 2, 5, 0, 0, 0, 1, 0, 19, 7, 0x40, 0x59, 0, 0, 0, 0, 0, 0]

def bareNotify : NotifyMsg :=
  queuedOrder [15] [0, 19, 7, 0x40, 0x59, 0, 0, 0, 0, 0, 0]

def loggedOn : SessionsInfo CppString :=
  (run SessionsInfo.LogonRun.step (.start SessionsInfo.LogonRun.oneSession)
    [⟨[0x41], 1, 1⟩]).config

theorem unaffected_fullNotify (earlier : List NotifyMsg) :
    Unaffected NetworkOrder.espd 100 earlier fullNotify := by
  have hcommand : notifyCmd? NetworkOrder.espd fullNotify.cmd = some .orderQueued := by decide
  have hext : actionAt NetworkOrder.espd .orderQueued fullNotify.data 15 =
      .act .extTsSessionId := by decide
  have hts : actionAt NetworkOrder.espd .orderQueued fullNotify.data 22 = .act .tsId := by
    decide
  have hsize : actionAt NetworkOrder.espd .orderQueued fullNotify.data 29 = .act .size := by
    decide
  intro cmd hcmd
  rw [hcommand, Option.some.injEq] at hcmd
  rw [← hcmd]
  refine ⟨by decide, ?_, ?_⟩
  · intro pos hpos
    simp only [fullNotify, queuedOrder, List.mem_cons, List.not_mem_nil, or_false] at hpos
    rcases hpos with rfl | rfl | rfl
    · exact readsInside_of_fixed hext rfl (by decide)
    · exact readsInside_of_fixed hts rfl (by decide)
    · exact readsInside_of_fixed hsize rfl (by decide)
  · intro key
    left
    cases key with
    | extTsSessionId => exact ⟨15, by decide, hext⟩
    | tsId => exact ⟨22, by decide, hts⟩

theorem results_own_fullNotify :
    ((run (TSNotifyManager.step NetworkOrder.espd QuickFix.plain) (.make 100)
      [(loggedOn, fullNotify)]).manageEspdMsg NetworkOrder.espd QuickFix.plain loggedOn
        fullNotify).1 =
      ((TSNotifyManager.make 100).manageEspdMsg NetworkOrder.espd QuickFix.plain loggedOn
        fullNotify).1 := by
  have hunaffected : ∀ earlier config msg later,
      [(loggedOn, fullNotify), (loggedOn, fullNotify)] = earlier ++ (config, msg) :: later →
        Unaffected NetworkOrder.espd 100 (earlier.map Prod.snd) msg := by
    intro earlier config msg later hsplit
    have hmem : (config, msg) ∈ [(loggedOn, fullNotify), (loggedOn, fullNotify)] := by
      simp [hsplit]
    have hboth : config = loggedOn ∧ msg = fullNotify := by simpa using hmem
    rw [hboth.2]
    exact unaffected_fullNotify _
  exact (TSNotifyManager.results_own NetworkOrder.espd QuickFix.plain 100
    [(loggedOn, fullNotify), (loggedOn, fullNotify)] hunaffected [(loggedOn, fullNotify)]
    loggedOn fullNotify [] rfl fullNotify ⟨rfl, rfl, fun _ _ => rfl⟩).1

def resultSession {SessionID : Type} :
    Except NotifyError (FixMessageInfo SessionID) → Option SessionID
  | .ok (some info) => some info.2
  | _ => none

/-- A report without the numbers goes to the session of the report before it. -/
theorem routed_to_earlier_session :
    ((run (TSNotifyManager.step NetworkOrder.espd QuickFix.plain) (.make 100)
      [(loggedOn, fullNotify)]).manageEspdMsg NetworkOrder.espd QuickFix.plain loggedOn
        bareNotify).1 ≠
      ((TSNotifyManager.make 100).manageEspdMsg NetworkOrder.espd QuickFix.plain loggedOn
        bareNotify).1 := by
  intro hsame
  have hsession := congrArg resultSession hsame
  exact absurd hsession (by decide)

end CppPlay.FixAdapter
