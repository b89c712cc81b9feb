import CppPlay.Lib.Run
import CppPlay.Lib.Threads
import Mathlib.Algebra.BigOperators.Fin
import Mathlib.Data.Multiset.AddSub

/-!
# The ordered thread pool

Each post gives its `in` to the threads of a pool, and to an actor of one thread a closure
that waits for it and then runs the `out`.  The pools start their queued work in the order
of submission, and `join` returns once a closed pool has finished all of it.
-/

namespace CppPlay.Diff

open CppPlay.Lib

/-- A pool of threads that run the closures of numbered posts, known by what its documentation
says: the closures begin in the order of submission, and `join` returns once a closed pool has
none left.  What a thread runs it is in the middle of. -/
structure BasicThreadPool (n : ℕ) (Work : Type) where
  Pool : Type
  make : Pool
  submit : Pool → ℕ → Pool
  close : Pool → Pool
  closed : Pool → Bool
  joined : Pool → Bool
  /-- the closures that wait for a thread -/
  queue : Pool → List ℕ
  running : Pool → Fin n → Option Work
  /-- a thread begins with the next closure -/
  take : Pool → Fin n → Work → Pool
  /-- a thread gets on with its closure, or to the end of it -/
  setRunning : Pool → Fin n → Option Work → Pool
  closed_make : closed make = false
  queue_make : queue make = []
  running_make : running make = fun _ => none
  closed_submit : ∀ pool i, closed pool = false → closed (submit pool i) = false
  queue_submit : ∀ pool i, closed pool = false → queue (submit pool i) = queue pool ++ [i]
  running_submit : ∀ pool i, closed pool = false → running (submit pool i) = running pool
  closed_close : ∀ pool, closed (close pool) = true
  queue_close : ∀ pool, queue (close pool) = queue pool
  running_close : ∀ pool, running (close pool) = running pool
  closed_take : ∀ pool w work, closed (take pool w work) = closed pool
  queue_take : ∀ pool w work, queue (take pool w work) = (queue pool).tail
  running_take : ∀ pool w work,
    running (take pool w work) = Function.update (running pool) w (some work)
  closed_setRunning : ∀ pool w work, closed (setRunning pool w work) = closed pool
  queue_setRunning : ∀ pool w work, queue (setRunning pool w work) = queue pool
  running_setRunning : ∀ pool w work,
    running (setRunning pool w work) = Function.update (running pool) w work
  joined_iff : ∀ pool, joined pool = true ↔
    closed pool = true ∧ queue pool = [] ∧ ∀ w, (running pool w).isNone = true

structure ListPool (n : ℕ) (Work : Type) where
  queue : List ℕ
  running : Fin n → Option Work
  closed : Bool

namespace ListPool

variable {n : ℕ} {Work : Type}

def submit (pool : ListPool n Work) (i : ℕ) : ListPool n Work :=
  if pool.closed then pool else { pool with queue := pool.queue ++ [i] }

theorem submit_of_open {pool : ListPool n Work} (hopen : pool.closed = false) (i : ℕ) :
    pool.submit i = { pool with queue := pool.queue ++ [i] } := by
  rw [submit, hopen, if_neg Bool.false_ne_true]

def basicThreadPool (n : ℕ) (Work : Type) : BasicThreadPool n Work where
  Pool := ListPool n Work
  make := ⟨[], fun _ => none, false⟩
  submit := submit
  close pool := { pool with closed := true }
  closed := closed
  joined pool := pool.closed && pool.queue.isEmpty && decide (∀ w, (pool.running w).isNone = true)
  queue := queue
  running := running
  take pool w work :=
    { pool with queue := pool.queue.tail, running := Function.update pool.running w (some work) }
  setRunning pool w work := { pool with running := Function.update pool.running w work }
  closed_make := rfl
  queue_make := rfl
  running_make := rfl
  closed_submit pool i hopen := by rw [submit_of_open hopen, hopen]
  queue_submit pool i hopen := by rw [submit_of_open hopen]
  running_submit pool i hopen := by rw [submit_of_open hopen]
  closed_close _ := rfl
  queue_close _ := rfl
  running_close _ := rfl
  closed_take _ _ _ := rfl
  queue_take _ _ _ := rfl
  running_take _ _ _ := rfl
  closed_setRunning _ _ _ := rfl
  queue_setRunning _ _ _ := rfl
  running_setRunning _ _ _ := rfl
  joined_iff pool := by simp [and_assoc]

end ListPool

def onlyThread : Fin 1 := Fin.last 0

inductive PoolLife where
  | opened
  | closed
  | null
  deriving DecidableEq

def life {n : ℕ} {Work : Type} {boost : BasicThreadPool n Work} :
    Option boost.Pool → PoolLife
  | none => .null
  | some pool => if boost.closed pool then .closed else .opened

inductive OrderedEvent where
  | inBegins (i : ℕ)
  | inEnds (i : ℕ)
  | outBegins (i : ℕ)
  | outEnds (i : ℕ)
  deriving DecidableEq

namespace OrderedEvent

def isOut : OrderedEvent → Bool
  | .outBegins _ | .outEnds _ => true
  | _ => false

def ins (i : ℕ) : List OrderedEvent := [.inBegins i, .inEnds i]

def outs (i : ℕ) : List OrderedEvent := [.outBegins i, .outEnds i]

end OrderedEvent

open OrderedEvent

/-- The actor's closure for a post: in `f.wait()`, or in the `out`. -/
inductive ActorWork where
  | waiting (i : ℕ)
  | inOut (i : ℕ)

inductive PosterPc where
  | ready
  | posting (i : ℕ)
  | joiningPool
  | stoppingActor
  | joiningActor
  deriving DecidableEq

/-- `posted` numbers the posts that were let in. -/
structure OrderedThreadPool {n : ℕ} (cpu : BasicThreadPool n ℕ)
    (single : BasicThreadPool 1 ActorWork) where
  pool : Option cpu.Pool
  actor : Option single.Pool
  poster : PosterPc
  returned : Bool
  posted : ℕ
  history : List OrderedEvent

inductive OrderedCall (n : ℕ) where
  | post
  | stop
  | proceed
  | work (w : Fin n)
  | act

namespace OrderedThreadPool

variable {n : ℕ} {cpu : BasicThreadPool n ℕ} {single : BasicThreadPool 1 ActorWork}

variable (cpu single) in
def start : OrderedThreadPool cpu single :=
  ⟨some cpu.make, some single.make, .ready, false, 0, []⟩

def stopped (s : OrderedThreadPool cpu single) : Bool :=
  life s.pool != .opened || life s.actor != .opened

/-- The first half of `post`, which gives the `in` to the pool. -/
def post (s : OrderedThreadPool cpu single) : OrderedThreadPool cpu single :=
  if s.poster = .ready then
    if s.stopped then s
    else
      { s with
        pool := s.pool.map (cpu.submit · s.posted)
        poster := .posting s.posted
        posted := s.posted + 1 }
  else s

def stop (s : OrderedThreadPool cpu single) : OrderedThreadPool cpu single :=
  if s.poster = .ready then
    if s.stopped then { s with returned := true }
    else { s with pool := s.pool.map cpu.close, poster := .joiningPool }
  else s

def proceed (s : OrderedThreadPool cpu single) : OrderedThreadPool cpu single :=
  match s.poster with
  | .ready => s
  | .posting i =>
      if life s.actor = .opened then
        { s with actor := s.actor.map (single.submit · i), poster := .ready }
      else { s with poster := .ready }
  | .joiningPool =>
      match s.pool with
      | some pool =>
          if cpu.joined pool then { s with pool := none, poster := .stoppingActor } else s
      | none => s
  | .stoppingActor =>
      if life s.actor = .opened then
        { s with actor := s.actor.map single.close, poster := .joiningActor }
      else { s with poster := .ready, returned := true }
  | .joiningActor =>
      match s.actor with
      | some actor =>
          if single.joined actor then { s with actor := none, poster := .ready, returned := true }
          else s
      | none => s

/-- A thread of the pool begins the next `in`, or ends its own, which readies the future. -/
def work (s : OrderedThreadPool cpu single) (w : Fin n) : OrderedThreadPool cpu single :=
  match s.pool with
  | none => s
  | some pool =>
      match cpu.running pool w, cpu.queue pool with
      | none, [] => s
      | none, i :: _ =>
          { s with
            pool := some (cpu.take pool w i)
            history := s.history ++ [.inBegins i] }
      | some i, _ =>
          { s with
            pool := some (cpu.setRunning pool w none)
            history := s.history ++ [.inEnds i] }

/-- The actor's thread takes the next closure, returns from `f.wait()` into the `out`, or
ends the `out`. -/
def act (s : OrderedThreadPool cpu single) : OrderedThreadPool cpu single :=
  match s.actor with
  | none => s
  | some actor =>
      match single.running actor onlyThread, single.queue actor with
      | none, [] => s
      | none, i :: _ => { s with actor := some (single.take actor onlyThread (.waiting i)) }
      | some (.waiting i), _ =>
          if .inEnds i ∈ s.history then
            { s with
              actor := some (single.setRunning actor onlyThread (some (.inOut i)))
              history := s.history ++ [.outBegins i] }
          else s
      | some (.inOut i), _ =>
          { s with
            actor := some (single.setRunning actor onlyThread none)
            history := s.history ++ [.outEnds i] }

def step (s : OrderedThreadPool cpu single) : OrderedCall n → OrderedThreadPool cpu single
  | .post => s.post
  | .stop => s.stop
  | .proceed => s.proceed
  | .work w => s.work w
  | .act => s.act

def OutsAfterIns (history : List OrderedEvent) : Prop :=
  ∀ first i, first ++ [.outBegins i] <+: history → .inEnds i ∈ first

/-- The `out`s run one at a time in the order of the posts, each after its own `in`, and
once `stop` has returned every `in` and every `out` has run exactly once. -/
structure IsOrdered (s : OrderedThreadPool cpu single) : Prop where
  one_at_a_time : s.history.filter isOut <+: (List.range s.posted).flatMap outs
  out_after_in : OutsAfterIns s.history
  all_of_returned : s.returned = true →
    s.history.Perm ((List.range s.posted).flatMap fun i => ins i ++ outs i)

/-! ## The invariant -/

def pendingIns : Option cpu.Pool → Multiset OrderedEvent
  | none => 0
  | some pool => ((cpu.queue pool).flatMap ins : List OrderedEvent) +
      ∑ w, ((cpu.running pool w).elim 0 fun i => {.inEnds i})

def restOfWork : Option ActorWork → List OrderedEvent
  | none => []
  | some (.waiting i) => outs i
  | some (.inOut i) => [.outEnds i]

def pendingOuts : Option single.Pool → List OrderedEvent
  | none => []
  | some actor =>
      restOfWork (single.running actor onlyThread) ++ (single.queue actor).flatMap outs

def handed (s : OrderedThreadPool cpu single) : ℕ :=
  match s.poster with
  | .posting i => i
  | _ => s.posted

/-- The pool and the actor as the poster left them. -/
def lives (poster : PosterPc) (returned : Bool) : PoolLife × PoolLife :=
  match poster with
  | .ready => if returned then (.null, .null) else (.opened, .opened)
  | .posting _ => (.opened, .opened)
  | .joiningPool => (.closed, .opened)
  | .stoppingActor => (.null, .opened)
  | .joiningActor => (.null, .closed)

structure Inv (s : OrderedThreadPool cpu single) : Prop where
  ins : (s.history.filter (!isOut ·) : Multiset OrderedEvent) + pendingIns s.pool =
    ((List.range s.posted).flatMap OrderedEvent.ins : List OrderedEvent)
  outs : s.history.filter isOut ++ pendingOuts s.actor =
    (List.range s.handed).flatMap OrderedEvent.outs
  posting : ∀ i, s.poster = .posting i → s.posted = i + 1
  after : OutsAfterIns s.history
  lives : (life s.pool, life s.actor) = lives s.poster s.returned
  returned : s.returned = true → s.poster = .ready

section Lives

variable {Work : Type} {boost : BasicThreadPool n Work} {pool : Option boost.Pool}

@[simp] theorem life_none : life (none : Option boost.Pool) = .null := rfl

theorem life_some_ne_null (pool : boost.Pool) : life (some pool) ≠ .null := by
  cases hclosed : boost.closed pool <;> simp [life, hclosed]

theorem life_some_eq_opened_iff {pool : boost.Pool} :
    life (some pool) = .opened ↔ boost.closed pool = false := by
  cases hclosed : boost.closed pool <;> simp [life, hclosed]

theorem life_some_eq_closed_iff {pool : boost.Pool} :
    life (some pool) = .closed ↔ boost.closed pool = true := by
  cases hclosed : boost.closed pool <;> simp [life, hclosed]

theorem eq_none_of_life (hlife : life pool = .null) : pool = none := by
  cases pool with
  | none => rfl
  | some pool => exact absurd hlife (life_some_ne_null pool)

theorem life_map_submit (hlife : life pool = .opened) (i : ℕ) :
    life (pool.map (boost.submit · i)) = .opened := by
  cases pool with
  | none => cases hlife
  | some pool =>
      have hopen := life_some_eq_opened_iff.mp hlife
      exact life_some_eq_opened_iff.mpr (boost.closed_submit pool i hopen)

theorem life_map_close (hlife : life pool = .opened) :
    life (pool.map boost.close) = .closed := by
  cases pool with
  | none => cases hlife
  | some pool => exact life_some_eq_closed_iff.mpr (boost.closed_close pool)

end Lives

theorem pendingIns_map_submit {pool : Option cpu.Pool} (hlife : life pool = .opened) (i : ℕ) :
    pendingIns (pool.map (cpu.submit · i)) = pendingIns pool + (ins i : List OrderedEvent) := by
  cases pool with
  | none => cases hlife
  | some pool =>
      have hopen := life_some_eq_opened_iff.mp hlife
      simp only [Option.map_some, pendingIns, cpu.queue_submit pool i hopen,
        cpu.running_submit pool i hopen, List.flatMap_append, List.flatMap_cons,
        List.flatMap_nil, List.append_nil]
      rw [← Multiset.coe_add, add_right_comm]

theorem pendingIns_map_close (pool : Option cpu.Pool) :
    pendingIns (pool.map cpu.close) = pendingIns pool := by
  cases pool with
  | none => rfl
  | some pool => simp only [Option.map_some, pendingIns, cpu.queue_close, cpu.running_close]

theorem pendingIns_of_joined {pool : cpu.Pool} (hjoined : cpu.joined pool = true) :
    pendingIns (some pool) = 0 := by
  obtain ⟨_, hqueue, hidle⟩ := (cpu.joined_iff pool).mp hjoined
  have hnone : ∀ w, cpu.running pool w = none :=
    fun w => Option.isNone_iff_eq_none.mp (hidle w)
  simp [pendingIns, hqueue, hnone]

theorem pendingOuts_map_submit {actor : Option single.Pool} (hlife : life actor = .opened)
    (i : ℕ) : pendingOuts (actor.map (single.submit · i)) = pendingOuts actor ++ outs i := by
  cases actor with
  | none => cases hlife
  | some actor =>
      have hopen := life_some_eq_opened_iff.mp hlife
      simp [pendingOuts, single.queue_submit actor i hopen, single.running_submit actor i hopen]

theorem pendingOuts_map_close (actor : Option single.Pool) :
    pendingOuts (actor.map single.close) = pendingOuts actor := by
  cases actor with
  | none => rfl
  | some actor =>
      simp only [Option.map_some, pendingOuts, single.queue_close, single.running_close]

theorem pendingOuts_of_joined {actor : single.Pool} (hjoined : single.joined actor = true) :
    pendingOuts (some actor) = [] := by
  obtain ⟨_, hqueue, hidle⟩ := (single.joined_iff actor).mp hjoined
  simp [pendingOuts, hqueue, Option.isNone_iff_eq_none.mp (hidle onlyThread), restOfWork]

theorem OutsAfterIns.append {history : List OrderedEvent} (hafter : OutsAfterIns history)
    {event : OrderedEvent} (hevent : ∀ i, event = .outBegins i → .inEnds i ∈ history) :
    OutsAfterIns (history ++ [event]) := by
  intro first i hprefix
  rcases List.prefix_concat_iff.mp hprefix with hlast | hearlier
  · obtain ⟨hfirst, hbegins⟩ := List.append_inj' hlast rfl
    rw [hfirst]
    exact hevent i (List.singleton_inj.mp hbegins).symm
  · exact hafter first i hearlier

variable {s : OrderedThreadPool cpu single}

theorem start_inv : (start cpu single).Inv := by
  constructor
  · simp [start, pendingIns, cpu.queue_make, cpu.running_make]
  · simp [start, pendingOuts, single.queue_make, single.running_make, restOfWork, handed]
  · intro i hposting
    cases hposting
  · intro first i hprefix
    exact absurd (List.prefix_nil.mp hprefix) (by simp)
  · simp [start, life, cpu.closed_make, single.closed_make, lives]
  · intro hreturned
    cases hreturned

theorem stopped_eq_false (hstopped : ¬ s.stopped = true) :
    life s.pool = .opened ∧ life s.actor = .opened := by
  simpa [stopped] using hstopped

theorem Inv.life_eq (hinv : s.Inv) {poster : PosterPc} (hposter : s.poster = poster)
    {pool actor : PoolLife} (hlives : OrderedThreadPool.lives poster s.returned = (pool, actor)) :
    life s.pool = pool ∧ life s.actor = actor := by
  have hsame := hinv.lives
  rw [hposter, hlives] at hsame
  exact Prod.mk.inj hsame

theorem Inv.outs_eq (hinv : s.Inv) {poster : PosterPc} (hposter : s.poster = poster)
    (hposted : ∀ i, poster ≠ .posting i) :
    s.history.filter isOut ++ pendingOuts s.actor =
      (List.range s.posted).flatMap OrderedEvent.outs := by
  have hhanded : s.handed = s.posted := by
    rw [handed, hposter]
    cases poster with
    | posting i => exact absurd rfl (hposted i)
    | _ => rfl
  rw [← hhanded]
  exact hinv.outs

theorem Inv.not_returned (hinv : s.Inv) (hpool : life s.pool ≠ .null) : s.returned = false := by
  cases hreturned : s.returned with
  | false => rfl
  | true =>
      have hlives := hinv.lives
      rw [hinv.returned hreturned, hreturned] at hlives
      exact absurd (congrArg Prod.fst hlives) hpool

theorem post_inv (hinv : s.Inv) : s.post.Inv := by
  unfold post
  by_cases hready : s.poster = .ready
  · rw [if_pos hready]
    by_cases hstopped : s.stopped = true
    · rw [if_pos hstopped]
      exact hinv
    · rw [if_neg hstopped]
      obtain ⟨hpool, hactor⟩ := stopped_eq_false hstopped
      have hreturned := hinv.not_returned (by simp [hpool])
      have houts := hinv.outs_eq hready nofun
      constructor
      · rw [pendingIns_map_submit hpool, ← add_assoc, hinv.ins, List.range_succ,
          List.flatMap_append, ← Multiset.coe_add, List.flatMap_singleton]
      · exact houts
      · intro i hposting
        cases hposting
        rfl
      · exact hinv.after
      · simp [lives, life_map_submit, hpool, hactor]
      · intro hnow
        rw [hreturned] at hnow
        cases hnow
  · rw [if_neg hready]
    exact hinv

theorem stop_inv (hinv : s.Inv) : s.stop.Inv := by
  unfold stop
  by_cases hready : s.poster = .ready
  · rw [if_pos hready]
    by_cases hstopped : s.stopped = true
    · rw [if_pos hstopped]
      refine ⟨hinv.ins, hinv.outs, hinv.posting, hinv.after, ?_, fun _ => hready⟩
      have hlives := hinv.lives
      cases hreturned : s.returned with
      | true => rwa [hreturned] at hlives
      | false =>
          rw [hready, hreturned] at hlives
          obtain ⟨hpool, hactor⟩ := Prod.mk.inj hlives
          simp [stopped, hpool, hactor] at hstopped
    · rw [if_neg hstopped]
      obtain ⟨hpool, hactor⟩ := stopped_eq_false hstopped
      have hreturned := hinv.not_returned (by simp [hpool])
      have houts := hinv.outs_eq hready nofun
      constructor
      · rw [pendingIns_map_close]
        exact hinv.ins
      · exact houts
      · intro i hposting
        cases hposting
      · exact hinv.after
      · simp [lives, life_map_close hpool, hactor]
      · intro hnow
        rw [hreturned] at hnow
        cases hnow
  · rw [if_neg hready]
    exact hinv

theorem proceed_inv (hinv : s.Inv) : s.proceed.Inv := by
  unfold proceed
  cases hposter : s.poster with
  | ready => exact hinv
  | posting i =>
      obtain ⟨hpool, hactor⟩ := hinv.life_eq hposter rfl
      have hreturned := hinv.not_returned (by simp [hpool])
      have hposted := hinv.posting i hposter
      have houts := hinv.outs
      simp only [handed, hposter] at houts
      simp only [if_pos hactor]
      refine ⟨hinv.ins, ?_, by simp, hinv.after, ?_, fun _ => rfl⟩
      · simp only [handed, hposted, List.range_succ, List.flatMap_append, List.flatMap_singleton]
        rw [pendingOuts_map_submit hactor, ← List.append_assoc, houts]
      · simp [lives, life_map_submit, hpool, hactor, hreturned]
  | joiningPool =>
      obtain ⟨hpool, hactor⟩ := hinv.life_eq hposter rfl
      have houts := hinv.outs_eq hposter nofun
      cases hsome : s.pool with
      | none => exact hinv
      | some pool =>
          simp only
          by_cases hjoined : cpu.joined pool = true
          · rw [if_pos hjoined]
            have hins := hinv.ins
            rw [hsome, pendingIns_of_joined hjoined] at hins
            refine ⟨hins, houts, by simp, hinv.after, ?_, ?_⟩
            · simp [lives, hactor]
            · intro hreturned
              rw [hinv.not_returned (by simp [hpool])] at hreturned
              cases hreturned
          · rw [if_neg hjoined]
            exact hinv
  | stoppingActor =>
      obtain ⟨hpool, hactor⟩ := hinv.life_eq hposter rfl
      have houts := hinv.outs_eq hposter nofun
      simp only [if_pos hactor]
      refine ⟨hinv.ins, ?_, by simp, hinv.after, ?_, ?_⟩
      · rw [pendingOuts_map_close]
        exact houts
      · simp [lives, life_map_close hactor, hpool]
      · intro hreturned
        rw [hinv.returned hreturned] at hposter
        cases hposter
  | joiningActor =>
      obtain ⟨hpool, hactor⟩ := hinv.life_eq hposter rfl
      have houts := hinv.outs_eq hposter nofun
      cases hsome : s.actor with
      | none => exact hinv
      | some actor =>
          simp only
          by_cases hjoined : single.joined actor = true
          · rw [if_pos hjoined]
            rw [hsome, pendingOuts_of_joined hjoined] at houts
            exact ⟨hinv.ins, houts, by simp, hinv.after, by simp [lives, hpool], fun _ => rfl⟩
          · rw [if_neg hjoined]
            exact hinv

theorem pendingIns_begin {pool : cpu.Pool} {w : Fin n} {i : ℕ} {queue : List ℕ}
    (hrunning : cpu.running pool w = none) (hqueue : cpu.queue pool = i :: queue) :
    pendingIns (some pool) = .inBegins i ::ₘ pendingIns (some (cpu.take pool w i)) := by
  have hsum := sum_update (fun work : Option ℕ =>
    work.elim 0 fun i => ({.inEnds i} : Multiset OrderedEvent)) (cpu.running pool) w (some i)
  simp only [hrunning, Option.elim_none, Option.elim_some, add_zero] at hsum
  simp only [pendingIns, cpu.running_take, cpu.queue_take, hsum, hqueue, List.flatMap_cons,
    List.tail_cons, OrderedEvent.ins, List.cons_append, List.nil_append, ← Multiset.cons_coe,
    ← Multiset.singleton_add]
  abel

theorem pendingIns_end {pool : cpu.Pool} {w : Fin n} {i : ℕ}
    (hrunning : cpu.running pool w = some i) :
    pendingIns (some pool) = .inEnds i ::ₘ pendingIns (some (cpu.setRunning pool w none)) := by
  have hsum := sum_update (fun work : Option ℕ =>
    work.elim 0 fun i => ({.inEnds i} : Multiset OrderedEvent)) (cpu.running pool) w none
  simp only [hrunning, Option.elim_none, Option.elim_some, add_zero] at hsum
  simp only [pendingIns, cpu.running_setRunning, cpu.queue_setRunning, ← hsum,
    ← Multiset.singleton_add]
  abel

/-- Running an event that was still to come keeps the books of the pool. -/
theorem Inv.runs_in (hinv : s.Inv) {pool : cpu.Pool} (hsome : s.pool = some pool)
    (pool' : cpu.Pool) (event : OrderedEvent) (hevent : event.isOut = false)
    (hclosed : cpu.closed pool' = cpu.closed pool)
    (hpending : pendingIns (some pool) = event ::ₘ pendingIns (some pool')) :
    Inv { s with pool := some pool', history := s.history ++ [event] } := by
  have hins := hinv.ins
  have hlives := hinv.lives
  rw [hsome] at hins hlives
  constructor
  · simp only [List.filter_append, List.filter_cons, List.filter_nil, hevent, Bool.not_false,
      if_true, ← Multiset.coe_add, Multiset.coe_singleton]
    rw [← hins, hpending, ← Multiset.singleton_add, add_assoc]
  · simpa [hevent, handed] using hinv.outs
  · exact hinv.posting
  · apply hinv.after.append
    intro i hbegins
    rw [hbegins] at hevent
    cases hevent
  · simpa [life, hclosed] using hlives
  · exact hinv.returned

theorem work_inv (hinv : s.Inv) (w : Fin n) : (s.work w).Inv := by
  cases hsome : s.pool with
  | none =>
      simp only [work, hsome]
      exact hinv
  | some pool =>
      cases hrunning : cpu.running pool w with
      | none =>
          cases hqueue : cpu.queue pool with
          | nil =>
              simp only [work, hsome, hrunning, hqueue]
              exact hinv
          | cons i queue =>
              simp only [work, hsome, hrunning, hqueue]
              apply hinv.runs_in hsome _ (.inBegins i) rfl
              · exact cpu.closed_take pool w i
              · exact pendingIns_begin hrunning hqueue
      | some i =>
          simp only [work, hsome, hrunning]
          apply hinv.runs_in hsome _ (.inEnds i) rfl
          · exact cpu.closed_setRunning pool w none
          · exact pendingIns_end hrunning

theorem Inv.runs_out (hinv : s.Inv) {actor : single.Pool}
    (hsome : s.actor = some actor) (actor' : single.Pool) (event : OrderedEvent)
    (hevent : event.isOut = true) (hafter : ∀ i, event = .outBegins i → .inEnds i ∈ s.history)
    (hclosed : single.closed actor' = single.closed actor)
    (hpending : pendingOuts (some actor) = event :: pendingOuts (some actor')) :
    Inv { s with actor := some actor', history := s.history ++ [event] } := by
  have houts := hinv.outs
  have hlives := hinv.lives
  rw [hsome] at houts hlives
  constructor
  · simpa [hevent] using hinv.ins
  · simp only [List.filter_append, List.filter_cons, List.filter_nil, hevent, if_true]
    rw [List.append_assoc, List.singleton_append, ← hpending]
    exact houts
  · exact hinv.posting
  · exact hinv.after.append hafter
  · simpa [life, hclosed] using hlives
  · exact hinv.returned

theorem act_inv (hinv : s.Inv) : s.act.Inv := by
  cases hsome : s.actor with
  | none =>
      simp only [act, hsome]
      exact hinv
  | some actor =>
      cases hrunning : single.running actor onlyThread with
      | none =>
          cases hqueue : single.queue actor with
          | nil =>
              simp only [act, hsome, hrunning, hqueue]
              exact hinv
          | cons i queue =>
              -- the closure comes off the queue and nothing runs yet
              simp only [act, hsome, hrunning, hqueue]
              have houts := hinv.outs
              have hlives := hinv.lives
              rw [hsome] at houts hlives
              refine ⟨hinv.ins, ?_, hinv.posting, hinv.after, ?_, hinv.returned⟩
              · simpa [pendingOuts, single.running_take, single.queue_take, restOfWork, hrunning,
                  hqueue, handed] using houts
              · simpa [life, single.closed_take] using hlives
      | some work =>
          cases work with
          | waiting i =>
              simp only [act, hsome, hrunning]
              by_cases hready : .inEnds i ∈ s.history
              · rw [if_pos hready]
                apply hinv.runs_out hsome _ (.outBegins i) rfl
                · intro j hbegins
                  cases hbegins
                  exact hready
                · exact single.closed_setRunning actor onlyThread _
                · simp [pendingOuts, single.running_setRunning, single.queue_setRunning, restOfWork,
                    hrunning, OrderedEvent.outs]
              · rw [if_neg hready]
                exact hinv
          | inOut i =>
              simp only [act, hsome, hrunning]
              apply hinv.runs_out hsome _ (.outEnds i) rfl
              · intro j hbegins
                cases hbegins
              · exact single.closed_setRunning actor onlyThread _
              · simp [pendingOuts, single.running_setRunning, single.queue_setRunning, restOfWork,
                  hrunning]

theorem step_inv (hinv : s.Inv) (call : OrderedCall n) : (s.step call).Inv := by
  cases call with
  | post => exact post_inv hinv
  | stop => exact stop_inv hinv
  | proceed => exact proceed_inv hinv
  | work w => exact work_inv hinv w
  | act => exact act_inv hinv

theorem Inv.isOrdered (hinv : s.Inv) : s.IsOrdered := by
  have hprefix : s.history.filter isOut <+: (List.range s.handed).flatMap OrderedEvent.outs := by
    rw [← hinv.outs]
    exact List.prefix_append _ _
  constructor
  · refine hprefix.trans ?_
    cases hposter : s.poster with
    | posting i =>
        rw [hinv.posting i hposter, List.range_succ, List.flatMap_append]
        simp only [handed, hposter]
        exact List.prefix_append _ _
    | _ =>
        simp only [handed, hposter]
        exact List.prefix_refl _
  · exact hinv.after
  · intro hreturned
    have hready := hinv.returned hreturned
    have hgone : OrderedThreadPool.lives .ready s.returned = (.null, .null) := by
      rw [hreturned]
      rfl
    obtain ⟨hpool, hactor⟩ := hinv.life_eq hready hgone
    have hins := hinv.ins
    have houts := hinv.outs_eq hready nofun
    rw [eq_none_of_life hpool, pendingIns, add_zero, Multiset.coe_eq_coe] at hins
    rw [eq_none_of_life hactor, pendingOuts, List.append_nil] at houts
    have hboth := (List.filter_append_perm isOut s.history).symm
    rw [houts] at hboth
    refine hboth.trans ((List.perm_append_comm.trans ?_).trans (List.flatMap_append_perm _ _ _))
    exact hins.append_right _

/-! ## The end of `stop` -/

def rankPoster : PosterPc → ℕ
  | .ready => 4
  | .posting _ => 8
  | .joiningPool => 3
  | .stoppingActor => 2
  | .joiningActor => 1

/-- What is still to be done until `stop` returns. -/
def rank (s : OrderedThreadPool cpu single) : ℕ :=
  (pendingIns s.pool).card + (pendingOuts s.actor).length +
    (s.actor.elim 0 fun actor => (single.queue actor).length) +
    (if s.returned then 0 else rankPoster s.poster)

theorem exists_rank_work_lt (hworkers : 0 < n) {pool : cpu.Pool} (hsome : s.pool = some pool)
    (hclosed : cpu.closed pool = true) (hjoined : ¬ cpu.joined pool = true) :
    ∃ w, (s.work w).rank < s.rank := by
  by_cases hidle : ∀ w, (cpu.running pool w).isNone = true
  · have hrunning := Option.isNone_iff_eq_none.mp (hidle ⟨0, hworkers⟩)
    cases hqueue : cpu.queue pool with
    | nil => exact absurd ((cpu.joined_iff pool).mpr ⟨hclosed, hqueue, hidle⟩) hjoined
    | cons i queue =>
        refine ⟨⟨0, hworkers⟩, ?_⟩
        simp only [work, hsome, hrunning, hqueue, rank, pendingIns_begin hrunning hqueue,
          Multiset.card_cons]
        omega
  · obtain ⟨w, hw⟩ := not_forall.mp hidle
    cases hrunning : cpu.running pool w with
    | none => exact absurd (by simp [hrunning]) hw
    | some i =>
        refine ⟨w, ?_⟩
        simp only [work, hsome, hrunning, rank, pendingIns_end hrunning, Multiset.card_cons]
        omega

/-- Once the pool is gone, every future that the actor waits for is ready. -/
theorem Inv.ready_of_waiting (hinv : s.Inv) (hposter : s.poster = .joiningActor)
    {actor : single.Pool} (hsome : s.actor = some actor) {i : ℕ}
    (hrunning : single.running actor onlyThread = some (.waiting i)) : .inEnds i ∈ s.history := by
  have hpool := eq_none_of_life (hinv.life_eq hposter rfl).1
  have hhanded : i < s.posted := by
    have hmem : OrderedEvent.outBegins i ∈ (List.range s.handed).flatMap OrderedEvent.outs := by
      rw [← hinv.outs, hsome]
      simp [pendingOuts, hrunning, restOfWork, OrderedEvent.outs]
    simpa [OrderedEvent.outs, handed, hposter] using hmem
  have hins := hinv.ins
  rw [hpool, pendingIns, add_zero, Multiset.coe_eq_coe] at hins
  have hended : OrderedEvent.inEnds i ∈ s.history.filter (!isOut ·) := by
    rw [hins.mem_iff]
    simpa [OrderedEvent.ins] using hhanded
  exact List.mem_of_mem_filter hended

theorem rank_act_lt {actor : single.Pool} (hsome : s.actor = some actor)
    (hclosed : single.closed actor = true) (hjoined : ¬ single.joined actor = true)
    (hready : ∀ i, single.running actor onlyThread = some (.waiting i) → .inEnds i ∈ s.history) :
    s.act.rank < s.rank := by
  cases hrunning : single.running actor onlyThread with
  | none =>
      cases hqueue : single.queue actor with
      | nil =>
          refine absurd ((single.joined_iff actor).mpr ⟨hclosed, hqueue, ?_⟩) hjoined
          intro w
          rw [Subsingleton.elim w onlyThread, hrunning]
          rfl
      | cons i queue =>
          simp only [act, hsome, hrunning, hqueue, rank, pendingOuts, single.running_take,
            single.queue_take, List.tail_cons, Function.update_self, restOfWork, List.length_append, List.flatMap_cons,
            Option.elim_some, List.length_cons, List.length_nil]
          omega
  | some work =>
      cases work with
      | waiting i =>
          simp only [act, hsome, hrunning, if_pos (hready i hrunning), rank, pendingOuts,
            single.running_setRunning, single.queue_setRunning, Function.update_self, restOfWork,
            List.length_append, OrderedEvent.outs, Option.elim_some, List.length_cons, List.length_nil]
          omega
      | inOut i =>
          simp only [act, hsome, hrunning, rank, pendingOuts, single.running_setRunning,
            single.queue_setRunning, Function.update_self, restOfWork, List.length_append, Option.elim_some,
            List.length_cons, List.length_nil]
          omega

theorem exists_rank_step_lt (hinv : s.Inv) (hworkers : 0 < n) (hreturned : ¬ s.returned = true) :
    ∃ call : OrderedCall n, call ≠ .post ∧ (s.step call).rank < s.rank := by
  rw [Bool.not_eq_true] at hreturned
  cases hposter : s.poster with
  | ready =>
      have hopened : OrderedThreadPool.lives .ready s.returned = (.opened, .opened) := by
        rw [hreturned]
        rfl
      obtain ⟨hpool, hactor⟩ := hinv.life_eq hposter hopened
      refine ⟨.stop, nofun, ?_⟩
      have hstopped : s.stopped = false := by simp [stopped, hpool, hactor]
      simp only [step, stop, hposter, hstopped, rank, pendingIns_map_close, hreturned, rankPoster,
        if_true, Bool.false_eq_true, if_false]
      omega
  | posting i =>
      obtain ⟨_, hactor⟩ := hinv.life_eq hposter rfl
      refine ⟨.proceed, nofun, ?_⟩
      cases hsome : s.actor with
      | none => rw [hsome] at hactor; cases hactor
      | some actor =>
          have hopen := life_some_eq_opened_iff.mp (hsome ▸ hactor)
          simp only [step, proceed, hposter, if_pos hactor, rank, pendingOuts_map_submit hactor,
            List.length_append, hreturned, rankPoster, OrderedEvent.outs]
          simp only [hsome, Option.map_some, Option.elim_some, single.queue_submit actor i hopen,
            Bool.false_eq_true, if_false, List.length_append, List.length_cons, List.length_nil]
          omega
  | joiningPool =>
      obtain ⟨hpool, _⟩ := hinv.life_eq hposter rfl
      cases hsome : s.pool with
      | none => rw [hsome] at hpool; cases hpool
      | some pool =>
          by_cases hjoined : cpu.joined pool = true
          · refine ⟨.proceed, nofun, ?_⟩
            simp only [step, proceed, hposter, hsome, if_pos hjoined, rank, hreturned, rankPoster,
              pendingIns, Multiset.card_zero, Bool.false_eq_true, if_false]
            omega
          · have hclosed := life_some_eq_closed_iff.mp (hsome ▸ hpool)
            obtain ⟨w, hless⟩ := exists_rank_work_lt hworkers hsome hclosed hjoined
            exact ⟨.work w, nofun, hless⟩
  | stoppingActor =>
      obtain ⟨_, hactor⟩ := hinv.life_eq hposter rfl
      refine ⟨.proceed, nofun, ?_⟩
      have hqueue : ((s.actor.map single.close).elim 0 fun actor => (single.queue actor).length) =
          s.actor.elim 0 fun actor => (single.queue actor).length := by
        cases s.actor with
        | none => rfl
        | some actor => simp only [Option.map_some, Option.elim_some, single.queue_close]
      simp only [step, proceed, hposter, if_pos hactor, rank, pendingOuts_map_close, hqueue,
        hreturned, rankPoster, Bool.false_eq_true, if_false]
      omega
  | joiningActor =>
      obtain ⟨_, hactor⟩ := hinv.life_eq hposter rfl
      cases hsome : s.actor with
      | none => rw [hsome] at hactor; cases hactor
      | some actor =>
          by_cases hjoined : single.joined actor = true
          · refine ⟨.proceed, nofun, ?_⟩
            simp only [step, proceed, hposter, hsome, if_pos hjoined, rank, hreturned, rankPoster,
              pendingOuts, List.length_nil, Option.elim_none, Bool.false_eq_true, if_false, if_true]
            omega
          · have hclosed := life_some_eq_closed_iff.mp (hsome ▸ hactor)
            exact ⟨.act, nofun, rank_act_lt hsome hclosed hjoined fun i =>
              hinv.ready_of_waiting hposter hsome⟩

/-- In every run the posts are served in order, and with a thread in the pool `stop` can
always be brought to its end. -/
theorem ordered_run (cpu : BasicThreadPool n ℕ) (single : BasicThreadPool 1 ActorWork)
    (calls : List (OrderedCall n)) :
    (run step (start cpu single) calls).IsOrdered ∧
      (0 < n → ∃ later : List (OrderedCall n), (∀ call ∈ later, call ≠ .post) ∧
        (run step (start cpu single) (calls ++ later)).returned = true) := by
  have hinv : (run step (start cpu single) calls).Inv :=
    run_invariant Inv start_inv (fun s call hinv => step_inv hinv call) calls
  refine ⟨hinv.isOrdered, ?_⟩
  intro hworkers
  simp only [run_append]
  exact exists_run_of_rank step Inv (fun s => s.returned = true) (· ≠ .post) rank
    (fun s call hs _ => step_inv hs call)
    (fun s hs hreturned => exists_rank_step_lt hs hworkers hreturned) hinv

def startTwo : OrderedThreadPool (ListPool.basicThreadPool 2 ℕ)
    (ListPool.basicThreadPool 1 ActorWork) :=
  start _ _

/-- Two pairs are posted, and the second `in` is the first to end. -/
def twoPairs (v w : Fin n) : List (OrderedCall n) :=
  [.post, .proceed, .post, .proceed, .work v, .work w, .act, .act, .work w, .act, .stop, .proceed,
    .work v, .proceed, .proceed, .act, .act, .act, .act, .act, .proceed]

theorem ordered_run_twoPairs :
    (run step startTwo (twoPairs 0 1)).history =
        [.inBegins 0, .inBegins 1, .inEnds 1, .inEnds 0, .outBegins 0, .outEnds 0, .outBegins 1,
          .outEnds 1] ∧
      (run step startTwo (twoPairs 0 1)).returned = true ∧
      (run step startTwo (twoPairs 0 1)).IsOrdered ∧
      ∃ later : List (OrderedCall 2), (∀ call ∈ later, call ≠ .post) ∧
        (run step startTwo (twoPairs 0 1 ++ later)).returned = true :=
  ⟨by decide +kernel, by decide +kernel, (ordered_run _ _ (twoPairs 0 1)).1,
    (ordered_run _ _ (twoPairs 0 1)).2 (by decide)⟩

end OrderedThreadPool

end CppPlay.Diff
