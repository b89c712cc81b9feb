import CppPlay.FixAdapter.NotifyIsolation
import CppPlay.Lib.GrowingVector

/-!
# The positional cache of actions

`FieldActionMap` walks the positions of a message and its own vector of actions side
by side, and pushes an entry where the vector ends.  Its room was reserved once: a
message with more fields moves the vector under the iterator of the loop.
-/

namespace CppPlay.FixAdapter

open CppPlay.Lib

structure FieldActionMap where
  actions : GrowingVector CachedAction

/-- A place in `m_fields`, its end included, and one in `m_actions`. -/
structure FieldActIter (fields : List ℕ) where
  fld : ℕ
  fld_le : fld ≤ fields.length
  act : VectorIterator

namespace FieldActionMap

/-- The constructor; `capacity` is that of `m_fields`. -/
def make (capacity : ℕ) : FieldActionMap := ⟨.reserved capacity⟩

section Loop

variable (api : Espd) {SessionID : Type} (fix : QuickFix SessionID) (grow : ℕ → ℕ)
  (cmd : NotifyCmd) (data : Memory Byte) {fields : List ℕ}

/-- `getFieldAct`; the iterators it gives back are those it was given. -/
def getFieldAct (map : FieldActionMap) (iter : FieldActIter fields) :
    Except NotifyError FieldActionMap :=
  if h : iter.fld < fields.length then
    let bigId := data.read fields[iter.fld] 2
    let act : CachedAction := ⟨bigId, FldHdr.getId api data fields[iter.fld], none⟩
    if ¬ map.actions.Valid iter.act then .error .danglingIterator
    else
      match map.actions.elems[iter.act.index]? with
      | none => .ok ⟨map.actions.pushBack grow act⟩
      | some cached =>
          if cached.bigId ≠ bigId then .ok ⟨map.actions.set iter.act.index act⟩ else .ok map
  else .ok map

def begin (map : FieldActionMap) : FieldActIter fields :=
  ⟨0, Nat.zero_le _, map.actions.begin⟩

def isEnd (iter : FieldActIter fields) : Prop := iter.fld = fields.length

instance (iter : FieldActIter fields) : Decidable (isEnd iter) :=
  inferInstanceAs (Decidable (_ = _))

def advance (iter : FieldActIter fields) (h : ¬ isEnd iter) : FieldActIter fields where
  fld := iter.fld + 1
  fld_le := Nat.lt_of_le_of_ne iter.fld_le h
  act := { iter.act with index := iter.act.index + 1 }

/-- `getAction`, and `getFixAction` with `setAction` where there is none yet. -/
def findAction (map : FieldActionMap) (iter : FieldActIter fields) :
    Except NotifyError (FixAction × FieldActionMap) :=
  if ¬ map.actions.Valid iter.act then .error .danglingIterator
  else
    match map.actions.elems[iter.act.index]? with
    | none => .error .danglingIterator
    | some cached =>
        match cached.action with
        | some act => .ok (act, map)
        | none =>
            let act := getFixAction api cmd cached.id
            .ok (act, ⟨map.actions.set iter.act.index { cached with action := some act }⟩)

/-- The loop of `manageActions` from an iterator on, with the positions it has visited
and the actions it has executed there. -/
def loop (map : FieldActionMap) (iter : FieldActIter fields) (wr : FixMsgWr)
    (executed : List (ℕ × FixAction)) :
    Except NotifyError (FieldActionMap × FixMsgWr × List (ℕ × FixAction)) :=
  if h : isEnd iter then .ok (map, wr, executed)
  else
    have hlt : iter.fld < fields.length := Nat.lt_of_le_of_ne iter.fld_le h
    match findAction api cmd map iter with
    | .error e => .error e
    | .ok (act, map) =>
        let wr := act.run api fix data fields[iter.fld] wr
        match getFieldAct api grow data map (advance iter h) with
        | .error e => .error e
        | .ok map => loop map (advance iter h) wr (executed ++ [(iter.fld, act)])
termination_by fields.length - iter.fld
decreasing_by
  simp only [advance]
  omega

def manageActions (fields : List ℕ) (map : FieldActionMap) (wr : FixMsgWr) :
    Except NotifyError (FieldActionMap × FixMsgWr × List (ℕ × FixAction)) :=
  let iter : FieldActIter fields := begin map
  match getFieldAct api grow data map iter with
  | .error e => .error e
  | .ok map => loop api fix grow cmd data map iter wr []

def visits (fields : List ℕ) (start : ℕ) : List (ℕ × FixAction) :=
  (fields.zipIdx start).map fun p => (p.2, actionAt api cmd data p.1)

end Loop

/-! ## One position -/

section Position

variable {api : Espd} {SessionID : Type} {fix : QuickFix SessionID} {grow : ℕ → ℕ}
  {cmd : NotifyCmd} {data : Memory Byte} {fields : List ℕ}

/-- The iterators stand at the same position, and the vector has not moved. -/
structure InStep (map : FieldActionMap) (iter : FieldActIter fields) : Prop where
  act : iter.act = ⟨iter.fld, map.actions.moves⟩
  reached : iter.fld ≤ map.actions.elems.length

theorem InStep.valid {map : FieldActionMap} {iter : FieldActIter fields}
    (hstep : InStep map iter) : map.actions.Valid iter.act := by
  rw [hstep.act]
  rfl

theorem InStep.index {map : FieldActionMap} {iter : FieldActIter fields}
    (hstep : InStep map iter) : iter.act.index = iter.fld := by
  rw [hstep.act]

theorem cacheOk_set {elems : List CachedAction} {index : ℕ} {cached : CachedAction}
    (hcache : CacheOk api cmd elems) (hcached : CacheOk api cmd [cached]) :
    CacheOk api cmd (elems.set index cached) := by
  intro other hother
  rcases List.mem_or_eq_of_mem_set hother with hold | hnew
  · exact hcache other hold
  · rw [hnew]
    exact hcached cached (List.mem_singleton_self cached)

/-- The entry that `getFieldAct` makes for a field. -/
def freshAction (api : Espd) (data : Memory Byte) (pos : ℕ) : CachedAction :=
  ⟨data.read pos 2, FldHdr.getId api data pos, none⟩

theorem cacheOk_fresh (pos : ℕ) : CacheOk api cmd [freshAction api data pos] := by
  intro cached hmem
  rw [List.mem_singleton.mp hmem]
  exact ⟨rfl, nofun⟩

/-- The entry at the iterator is for the field's id: its action is found, or looked up
and kept. -/
theorem findAction_ok {map : FieldActionMap} {iter : FieldActIter fields}
    (hstep : InStep map iter) {cached : CachedAction}
    (hentry : map.actions.elems[iter.fld]? = some cached) :
    ∃ act map', findAction api cmd map iter = .ok (act, map') ∧
      map'.actions.capacity = map.actions.capacity ∧
      map'.actions.moves = map.actions.moves ∧
      map'.actions.elems.length = map.actions.elems.length ∧
      (CacheOk api cmd map.actions.elems →
        act = getFixAction api cmd cached.id ∧ CacheOk api cmd map'.actions.elems) := by
  have hmem := List.mem_of_getElem? hentry
  unfold findAction
  rw [if_neg (not_not.mpr hstep.valid), hstep.index, hentry]
  cases haction : cached.action with
  | some act =>
      simp only [haction]
      refine ⟨act, map, rfl, rfl, rfl, rfl, ?_⟩
      intro hcache
      exact ⟨(hcache cached hmem).2 act haction, hcache⟩
  | none =>
      simp only [haction]
      refine ⟨_, _, rfl, rfl, rfl, by simp, ?_⟩
      intro hcache
      refine ⟨rfl, cacheOk_set hcache ?_⟩
      intro other hother
      rw [List.mem_singleton.mp hother]
      exact ⟨(hcache cached hmem).1, fun action hsome => (Option.some.inj hsome).symm⟩

variable (grow data) in
/-- At the end of the vector an entry is made, which may move the vector. -/
theorem getFieldAct_of_end {map : FieldActionMap} {iter : FieldActIter fields}
    (hstep : InStep map iter) (hlt : iter.fld < fields.length)
    (hend : map.actions.elems.length = iter.fld) :
    getFieldAct api grow data map iter =
      .ok ⟨map.actions.pushBack grow (freshAction api data fields[iter.fld])⟩ := by
  have hentry : map.actions.elems[iter.fld]? = none :=
    List.getElem?_eq_none_iff.mpr (le_of_eq hend)
  unfold getFieldAct
  rw [dif_pos hlt]
  simp only [hstep.valid, not_true, if_false, hstep.index, hentry]
  rfl

variable (grow data) in
/-- Inside the vector the entry is kept for the same id, and replaced otherwise. -/
theorem getFieldAct_of_entry {map : FieldActionMap} {iter : FieldActIter fields}
    (hstep : InStep map iter) (hlt : iter.fld < fields.length) {cached : CachedAction}
    (hentry : map.actions.elems[iter.fld]? = some cached) :
    ∃ map' used, getFieldAct api grow data map iter = .ok map' ∧ InStep map' iter ∧
      map'.actions.capacity = map.actions.capacity ∧
      map'.actions.elems[iter.fld]? = some used ∧
      (CacheOk api cmd map.actions.elems →
        used.id = FldHdr.getId api data fields[iter.fld] ∧
          CacheOk api cmd map'.actions.elems) := by
  have hmem := List.mem_of_getElem? hentry
  have hlength : iter.fld < map.actions.elems.length :=
    (List.getElem?_eq_some_iff.mp hentry).1
  unfold getFieldAct
  rw [dif_pos hlt]
  simp only [hstep.valid, not_true, if_false, hstep.index, hentry]
  by_cases hsame : cached.bigId = data.read fields[iter.fld] 2
  · refine ⟨map, cached, if_neg (not_not.mpr hsame), hstep, rfl, hentry, ?_⟩
    intro hcache
    exact ⟨by rw [(hcache cached hmem).1, hsame, FldHdr.getId], hcache⟩
  · let fresh := freshAction api data fields[iter.fld]
    refine ⟨⟨map.actions.set iter.fld fresh⟩, fresh, if_pos hsame, ⟨hstep.act, ?_⟩, rfl, ?_, ?_⟩
    · rw [GrowingVector.elems_set, List.length_set]
      exact hstep.reached
    · rw [GrowingVector.elems_set]
      exact List.getElem?_set_self hlength
    · intro hcache
      exact ⟨rfl, cacheOk_set hcache (cacheOk_fresh _)⟩

variable (grow data) in
/-- The entry at the iterator is made or brought up to date, unless making it moves the
vector. -/
theorem getFieldAct_cases {map : FieldActionMap} {iter : FieldActIter fields}
    (hstep : InStep map iter) (hlt : iter.fld < fields.length) :
    (map.actions.capacity ≤ iter.fld ∧ ∃ map',
      getFieldAct api grow data map iter = .ok map' ∧ ¬ map'.actions.Valid iter.act) ∨
    ∃ map' cached, getFieldAct api grow data map iter = .ok map' ∧ InStep map' iter ∧
      map'.actions.capacity = map.actions.capacity ∧
      map'.actions.elems[iter.fld]? = some cached ∧
      (CacheOk api cmd map.actions.elems →
        cached.id = FldHdr.getId api data fields[iter.fld] ∧
          CacheOk api cmd map'.actions.elems) := by
  cases hentry : map.actions.elems[iter.fld]? with
  | none =>
      have hend : map.actions.elems.length = iter.fld :=
        le_antisymm (List.getElem?_eq_none_iff.mp hentry) hstep.reached
      have hpush := @getFieldAct_of_end api grow data fields map iter hstep hlt hend
      by_cases hroom : map.actions.elems.length < map.actions.capacity
      · right
        have hkeep := @GrowingVector.pushBack_of_lt _ grow _ hroom
          (freshAction api data fields[iter.fld])
        refine ⟨_, freshAction api data fields[iter.fld], hpush, ⟨?_, ?_⟩, hkeep.1, ?_, ?_⟩
        · rw [hkeep.2]
          exact hstep.act
        · rw [GrowingVector.elems_pushBack, List.length_append]
          exact Nat.le_add_right_of_le hstep.reached
        · rw [GrowingVector.elems_pushBack]
          generalize freshAction api data fields[iter.fld] = fresh
          rw [← hend]
          exact List.getElem?_concat_length
        · intro hcache
          refine ⟨rfl, ?_⟩
          rw [GrowingVector.elems_pushBack]
          exact cacheOk_append.mpr ⟨hcache, cacheOk_fresh _⟩
      · left
        rw [hend] at hroom
        exact ⟨not_lt.mp hroom, _, hpush,
          GrowingVector.not_valid_pushBack hstep.valid (by rw [hend]; exact not_lt.mp hroom) _⟩
  | some cached => exact Or.inr (getFieldAct_of_entry grow data hstep hlt hentry)

end Position

/-! ## One message -/

section Message

variable {api : Espd} {SessionID : Type} {fix : QuickFix SessionID} {grow : ℕ → ℕ}
  {cmd : NotifyCmd} {data : Memory Byte} {fields : List ℕ}

variable (api fix grow cmd data) in
/-- The loop with the `getFieldAct` in front of it, as `begin` and `next` make it. -/
def loopFrom (map : FieldActionMap) (iter : FieldActIter fields) (wr : FixMsgWr)
    (executed : List (ℕ × FixAction)) :
    Except NotifyError (FieldActionMap × FixMsgWr × List (ℕ × FixAction)) :=
  match getFieldAct api grow data map iter with
  | .error e => .error e
  | .ok map => loop api fix grow cmd data map iter wr executed

theorem loop_of_isEnd {map : FieldActionMap} {iter : FieldActIter fields} (hend : isEnd iter)
    (wr : FixMsgWr) (executed : List (ℕ × FixAction)) :
    loop api fix grow cmd data map iter wr executed = .ok (map, wr, executed) := by
  rw [loop, dif_pos hend]

theorem loop_of_findAction {map map' : FieldActionMap} {iter : FieldActIter fields}
    (hend : ¬ isEnd iter) (hlt : iter.fld < fields.length) {act : FixAction}
    (hfind : findAction api cmd map iter = .ok (act, map')) (wr : FixMsgWr)
    (executed : List (ℕ × FixAction)) :
    loop api fix grow cmd data map iter wr executed =
      loopFrom api fix grow cmd data map' (advance iter hend)
        (act.run api fix data fields[iter.fld] wr) (executed ++ [(iter.fld, act)]) := by
  rw [loop, dif_neg hend]
  simp only [hfind]
  rfl

theorem loop_of_not_valid {map : FieldActionMap} {iter : FieldActIter fields}
    (hend : ¬ isEnd iter) (hvalid : ¬ map.actions.Valid iter.act) (wr : FixMsgWr)
    (executed : List (ℕ × FixAction)) :
    loop api fix grow cmd data map iter wr executed = .error .danglingIterator := by
  rw [loop, dif_neg hend, findAction, if_pos hvalid]

theorem visits_of_lt {start : ℕ} (hlt : start < fields.length) :
    visits api cmd data (fields.drop start) start =
      (start, actionAt api cmd data fields[start]) ::
        visits api cmd data (fields.drop (start + 1)) (start + 1) := by
  rw [List.drop_eq_getElem_cons hlt]
  rfl

theorem inStep_advance {map map' : FieldActionMap} {iter : FieldActIter fields}
    (hstep : InStep map iter) (hend : ¬ isEnd iter)
    (hmoves : map'.actions.moves = map.actions.moves)
    (hlength : iter.fld < map'.actions.elems.length) : InStep map' (advance iter hend) := by
  constructor
  · rw [advance, hmoves, hstep.act]
  · exact hlength

/-- With room for the message every position is visited once and in order, and what is
executed there is the action of the field that stands there. -/
theorem loopFrom_ok {map : FieldActionMap} {iter : FieldActIter fields}
    (hstep : InStep map iter) (hcache : CacheOk api cmd map.actions.elems)
    (hroom : fields.length ≤ map.actions.capacity) (wr : FixMsgWr)
    (executed : List (ℕ × FixAction)) :
    ∃ map', loopFrom api fix grow cmd data map iter wr executed =
        .ok (map', applyActions api fix cmd data (fields.drop iter.fld) wr,
          executed ++ visits api cmd data (fields.drop iter.fld) iter.fld) ∧
      CacheOk api cmd map'.actions.elems ∧ map'.actions.capacity = map.actions.capacity := by
  induction hleft : fields.length - iter.fld generalizing map iter wr executed with
  | zero =>
      have hend : isEnd iter := le_antisymm iter.fld_le (by omega)
      have hsame : getFieldAct api grow data map iter = .ok map :=
        dif_neg (by rw [isEnd] at hend; omega)
      refine ⟨map, ?_, hcache, rfl⟩
      have hnone : fields.drop iter.fld = [] := List.drop_eq_nil_of_le (le_of_eq hend.symm)
      rw [loopFrom, hsame, hnone]
      simp only [loop_of_isEnd hend]
      simp [applyActions, visits]
  | succ left ih =>
      have hlt : iter.fld < fields.length := by omega
      have hend : ¬ isEnd iter := ne_of_lt hlt
      rcases @getFieldAct_cases api grow cmd data fields map iter hstep hlt with
        ⟨hfull, _⟩ | ⟨map₁, cached, hget, hstep₁, hcapacity₁, hentry, hcache₁⟩
      · omega
      · rcases hcache₁ hcache with ⟨hid, hcache₁⟩
        rcases @findAction_ok api cmd fields map₁ iter hstep₁ cached hentry with
          ⟨act, map₂, hfind, hcapacity₂, hmoves₂, hlength₂, hcache₂⟩
        rcases hcache₂ hcache₁ with ⟨hact, hcache₂⟩
        have hreached : iter.fld < map₂.actions.elems.length := by
          rw [hlength₂]
          exact (List.getElem?_eq_some_iff.mp hentry).1
        have hroom₂ : fields.length ≤ map₂.actions.capacity := by
          rw [hcapacity₂, hcapacity₁]
          exact hroom
        rcases ih (inStep_advance hstep₁ hend hmoves₂ hreached) hcache₂ hroom₂
          (act.run api fix data fields[iter.fld] wr) (executed ++ [(iter.fld, act)])
          (by simp only [advance]; omega) with ⟨map', hloop, hcache', hcapacity'⟩
        refine ⟨map', ?_, hcache', by rw [hcapacity', hcapacity₂, hcapacity₁]⟩
        have haction : act = actionAt api cmd data fields[iter.fld] := by
          rw [hact, hid, actionAt]
        have hfields : applyActions api fix cmd data (fields.drop iter.fld) wr =
            applyActions api fix cmd data (fields.drop (advance iter hend).fld)
              (act.run api fix data fields[iter.fld] wr) := by
          rw [List.drop_eq_getElem_cons hlt, haction]
          rfl
        rw [loopFrom, hget]
        simp only [loop_of_findAction hend hlt hfind]
        rw [hloop, hfields, visits_of_lt hlt, ← haction, List.append_assoc]
        rfl

/-- A message with more fields than the reserve moves the vector, and the loop goes on with
an iterator from before. -/
theorem loopFrom_dangling {map : FieldActionMap} {iter : FieldActIter fields}
    (hstep : InStep map iter) (hfull : map.actions.capacity < fields.length) (wr : FixMsgWr)
    (executed : List (ℕ × FixAction)) :
    loopFrom api fix grow cmd data map iter wr executed = .error .danglingIterator := by
  have hfits := map.actions.fits
  have hreached := hstep.reached
  induction hleft : fields.length - iter.fld generalizing map iter wr executed with
  | zero => omega
  | succ left ih =>
      have hlt : iter.fld < fields.length := by omega
      have hend : ¬ isEnd iter := ne_of_lt hlt
      rcases @getFieldAct_cases api grow cmd data fields map iter hstep hlt with
        ⟨_, map₁, hget, hmoved⟩ | ⟨map₁, cached, hget, hstep₁, hcapacity₁, hentry, _⟩
      · rw [loopFrom, hget]
        exact loop_of_not_valid hend hmoved wr executed
      · rcases @findAction_ok api cmd fields map₁ iter hstep₁ cached hentry with
          ⟨act, map₂, hfind, hcapacity₂, hmoves₂, hlength₂, _⟩
        have hreached₂ : iter.fld < map₂.actions.elems.length := by
          rw [hlength₂]
          exact (List.getElem?_eq_some_iff.mp hentry).1
        have hfull₂ : map₂.actions.capacity < fields.length := by
          rw [hcapacity₂, hcapacity₁]
          exact hfull
        rw [loopFrom, hget]
        simp only [loop_of_findAction hend hlt hfind]
        exact ih (inStep_advance hstep₁ hend hmoves₂ hreached₂) hfull₂ _ _ map₂.actions.fits
          hreached₂ (by simp only [advance]; omega)

variable (fix grow data) in
theorem manageActions_spec (fields : List ℕ) {map : FieldActionMap}
    (hcache : CacheOk api cmd map.actions.elems) (wr : FixMsgWr) :
    (fields.length ≤ map.actions.capacity ∧ ∃ map',
      manageActions api fix grow cmd data fields map wr =
        .ok (map', applyActions api fix cmd data fields wr, visits api cmd data fields 0) ∧
      CacheOk api cmd map'.actions.elems ∧ map'.actions.capacity = map.actions.capacity) ∨
    (map.actions.capacity < fields.length ∧
      manageActions api fix grow cmd data fields map wr = .error .danglingIterator) := by
  have hstep : InStep map (begin map : FieldActIter fields) := ⟨rfl, Nat.zero_le _⟩
  rcases Nat.lt_or_ge map.actions.capacity fields.length with hfull | hroom
  · exact Or.inr ⟨hfull, loopFrom_dangling hstep hfull wr []⟩
  · rcases @loopFrom_ok api SessionID fix grow cmd data fields map _ hstep hcache hroom wr [] with
      ⟨map', hloop, hkept⟩
    exact Or.inl ⟨hroom, map', hloop, hkept⟩

variable (fix grow data) in
/-- The manager's loop over lists is this one. -/
theorem manageActions_refines (fields : List ℕ) {map : FieldActionMap}
    (hcache : CacheOk api cmd map.actions.elems) (wr : FixMsgWr) :
    (manageActions api fix grow cmd data fields map wr).map (fun result => result.2.1) =
      (FixAdapter.manageActions api fix cmd map.actions.capacity data fields []
        map.actions.elems wr).map Prod.snd := by
  rcases manageActions_spec fix grow data fields hcache wr with
    ⟨hroom, map', hloop, _, _⟩ | ⟨hfull, hloop⟩
  · have hlist := @manageActions_eq api SessionID fix cmd map.actions.capacity data fields []
      map.actions.elems wr hcache (by simpa using hroom)
    rcases hlist with ⟨actions, _, heq⟩
    rw [hloop, heq]
    rfl
  · rw [hloop, manageActions_of_lt api fix cmd data wr map.actions.fits hfull]
    rfl

end Message

end FieldActionMap

/-! ## Runs -/

structure ManagedMsg where
  cmd : NotifyCmd
  msg : NotifyMsg
  executed : List (ℕ × FixAction)

structure ManageRun where
  actionMaps : NotifyCmd → FieldActionMap
  msg : FixMsgWr
  managed : List ManagedMsg
  dangling : Bool

namespace ManageRun

section Run

variable (api : Espd) {SessionID : Type} (fix : QuickFix SessionID) (grow : ℕ → ℕ)

def start (capacity : ℕ) : ManageRun :=
  ⟨fun _ => .make capacity, ⟨FixMessage.empty, 0, 0⟩, [], false⟩

/-- Nothing is said about what follows the use of a dangling iterator. -/
def step (r : ManageRun) (msg : NotifyMsg) : ManageRun :=
  if r.dangling then r
  else
    match notifyCmd? api msg.cmd with
    | none => r
    | some cmd =>
        match FieldActionMap.manageActions api fix grow cmd msg.data msg.fields (r.actionMaps cmd)
          (r.msg.setMsg (initMsg fix cmd)) with
        | .error _ => { r with dangling := true }
        | .ok (map, wr, executed) =>
            { r with
              actionMaps := Function.update r.actionMaps cmd map
              msg := wr
              managed := r.managed ++ [⟨cmd, msg, executed⟩] }

variable {api fix grow}

variable (api) in
/-- Each position of each message once and in order, with the action of the id that the
message has there, and no iterator from before a move. -/
structure VisitsEveryPosition (r : ManageRun) : Prop where
  noDangling : r.dangling = false
  visits : ∀ m ∈ r.managed,
    m.executed = FieldActionMap.visits api m.cmd m.msg.data m.msg.fields 0

variable (api) in
def Fits (capacity : ℕ) (msg : NotifyMsg) : Prop :=
  ∀ cmd, notifyCmd? api msg.cmd = some cmd → msg.fields.length ≤ capacity

variable (api) in
structure Inv (capacity : ℕ) (r : ManageRun) : Prop where
  visitsEvery : r.VisitsEveryPosition api
  caches : ∀ cmd, CacheOk api cmd (r.actionMaps cmd).actions.elems
  capacity : ∀ cmd, (r.actionMaps cmd).actions.capacity = capacity

variable (api) in
theorem start_inv (capacity : ℕ) : (start capacity).Inv api capacity := by
  constructor
  · exact ⟨rfl, fun m hm => absurd hm List.not_mem_nil⟩
  · intro cmd cached hmem
    exact absurd hmem List.not_mem_nil
  · intro cmd
    rfl

theorem Inv.step {capacity : ℕ} {r : ManageRun} (hinv : r.Inv api capacity) {msg : NotifyMsg}
    (hfits : Fits api capacity msg) : (r.step api fix grow msg).Inv api capacity := by
  unfold ManageRun.step
  rw [hinv.visitsEvery.noDangling, if_neg Bool.false_ne_true]
  cases hcmd : notifyCmd? api msg.cmd with
  | none => exact hinv
  | some cmd =>
      have hroom := hfits cmd hcmd
      rw [← hinv.capacity cmd] at hroom
      rcases FieldActionMap.manageActions_spec fix grow msg.data msg.fields (hinv.caches cmd)
        (r.msg.setMsg (initMsg fix cmd)) with ⟨_, map, hloop, hcache, hcapacity⟩ | ⟨hfull, _⟩
      · simp only [hloop]
        refine ⟨⟨rfl, ?_⟩, ?_, ?_⟩
        · intro m hm
          rcases List.mem_append.mp hm with hold | hnew
          · exact hinv.visitsEvery.visits m hold
          · rw [List.mem_singleton.mp hnew]
        · exact (Function.forall_update_iff _ fun other (cache : FieldActionMap) =>
            CacheOk api other cache.actions.elems).mpr ⟨hcache, fun other _ => hinv.caches other⟩
        · exact (Function.forall_update_iff _ fun _ (cache : FieldActionMap) =>
            cache.actions.capacity = capacity).mpr
              ⟨hcapacity.trans (hinv.capacity cmd), fun other _ => hinv.capacity other⟩
      · exact absurd hroom (not_le.mpr hfull)

theorem Inv.step_dangling {capacity : ℕ} {r : ManageRun} (hinv : r.Inv api capacity)
    {msg : NotifyMsg} (hfits : ¬ Fits api capacity msg) :
    (r.step api fix grow msg).dangling = true := by
  simp only [Fits, not_forall] at hfits
  rcases hfits with ⟨cmd, hcmd, hfull⟩
  rw [← hinv.capacity cmd] at hfull
  unfold ManageRun.step
  rw [hinv.visitsEvery.noDangling, if_neg Bool.false_ne_true]
  rcases FieldActionMap.manageActions_spec fix grow msg.data msg.fields (hinv.caches cmd)
    (r.msg.setMsg (initMsg fix cmd)) with ⟨hroom, _⟩ | ⟨_, hloop⟩
  · exact absurd hroom hfull
  · simp only [hcmd, hloop]

variable (api fix grow) in
/-- Exactly the runs without a message that the caches have too little room for. -/
theorem visitsEveryPosition_iff (capacity : ℕ) (inputs : List NotifyMsg) :
    (∀ first, first <+: inputs →
      (run (step api fix grow) (start capacity) first).VisitsEveryPosition api) ↔
      ∀ msg ∈ inputs, Fits api capacity msg := by
  rw [always_iff_of_steps (step api fix grow) (start capacity) (Inv api capacity)
    (VisitsEveryPosition api) (fun _ msg => Fits api capacity msg)]
  · constructor
    · intro hok msg hmem
      rcases List.append_of_mem hmem with ⟨earlier, later, hsplit⟩
      exact hok earlier msg later hsplit
    · intro hok earlier msg later hsplit
      exact hok msg (by simp [hsplit])
  · exact start_inv api capacity
  · intro r hinv
    exact hinv.visitsEvery
  · intro r msg hinv hfits
    exact hinv.step hfits
  · intro r msg hinv hfits hvisits
    have hdangling := @Inv.step_dangling api SessionID fix grow capacity r hinv msg hfits
    rw [hvisits.noDangling] at hdangling
    cases hdangling

end Run

/-! ### One field more than the room -/

/-- 101 times `ORIG_CLIENT_ORDER_ID` with an empty string. -/
def longNotify : NotifyMsg :=
  queuedOrder ((List.range 101).map fun i => 15 + 4 * i) (List.replicate 101 [0, 0, 8, 0]).flatten

/-- The 101st `push_back` moves the vector. -/
theorem not_visitsEveryPosition_longNotify :
    ¬ (run (step NetworkOrder.espd QuickFix.plain fun capacity => 2 * capacity) (start 100)
      [longNotify]).VisitsEveryPosition NetworkOrder.espd := by
  intro h
  have hfits : ¬ Fits NetworkOrder.espd 100 longNotify := by
    intro hfits
    have hlength : longNotify.fields.length = 101 := (List.length_map _).trans List.length_range
    have hroom := hfits .orderQueued (by decide)
    omega
  have hdangling := @Inv.step_dangling NetworkOrder.espd CppString QuickFix.plain
    (fun capacity => 2 * capacity) 100 _ (start_inv NetworkOrder.espd 100) longNotify hfits
  have hno := h.noDangling
  rw [run_cons, run_nil, hdangling] at hno
  cases hno

end ManageRun

end CppPlay.FixAdapter
