import CppPlay.Lib.BoundedQueue
import CppPlay.Lib.Run
import CppPlay.Lib.Threads
import Mathlib.Algebra.Order.BigOperators.Group.Finset
import Mathlib.Data.Multiset.AddSub

/-!
# The pool that gives its results in order

`submit` puts the future of a task in a bounded queue and the task in a pool of threads; `get`
takes the next future off the queue and waits for it.  Any number of threads may do either, and
a full queue makes a `submit` wait as an empty one does a `get`.
-/

namespace CppPlay.MultiThread

open Lib Function

/-- What a thread calls, one after the other. -/
inductive FutureCall (τ : Type) where
  | submit (task : τ)
  | get

namespace FutureCall

variable {τ : Type}

def isSubmit : FutureCall τ → Bool
  | .submit _ => true
  | .get => false

end FutureCall

/-- Where a thread stands in a call: its task has a future in the queue and is not in the pool,
or it has a future of which it waits for the result. -/
inductive FuturePlace (τ : Type) where
  | outside
  | submitting (item : ℕ × τ)
  | waiting (future : ℕ)

structure FutureCaller (τ : Type) where
  program : List (FutureCall τ)
  place : FuturePlace τ

namespace FutureCaller

variable {τ : Type}

/-- A task that is not yet in the pool. -/
def held (caller : FutureCaller τ) : Multiset (ℕ × τ) :=
  match caller.place with
  | .submitting item => {item}
  | _ => 0

/-- A future whose result it waits for. -/
def awaited (caller : FutureCaller τ) : Multiset ℕ :=
  match caller.place with
  | .waiting future => {future}
  | _ => 0

/-- The calls that it has still to make. -/
def submits (caller : FutureCaller τ) : ℕ := caller.program.countP FutureCall.isSubmit

def gets (caller : FutureCaller τ) : ℕ := caller.program.countP (!·.isSubmit)

/-- The steps that it may still take, counting those of the pool for its tasks. -/
def weight (caller : FutureCaller τ) : ℕ :=
  6 * caller.program.length +
    match caller.place with
    | .outside => 0
    | .submitting _ => 4
    | .waiting _ => 1

end FutureCaller

/-- The tasks are numbered as their futures are pushed: `submitted` has them all, `started` and
`finished` those that the threads of the pool have begun and ended.  `results` are the shared
states of the futures, where an exception is a result like any other; `pulls` and `got` are what
the calls of `get` have taken and returned. -/
structure ThreadPoolOrderedFuture (ι : Type) (n : ℕ) (τ ρ : Type) where
  callers : ι → FutureCaller τ
  m_queue : BoundedQueue ℕ
  m_pool : List (ℕ × τ)
  running : Fin n → Option (ℕ × τ)
  results : ℕ → Option ρ
  submitted : List (ℕ × τ)
  started : List (ℕ × τ)
  finished : List (ℕ × τ)
  pulls : List (ι × ℕ)
  got : List (ι × ℕ × ρ)

/-- The next step of a thread that calls, or of one of the pool. -/
inductive OrderedFutureEvent (ι : Type) (n : ℕ) where
  | caller (t : ι)
  | worker (w : Fin n)

namespace ThreadPoolOrderedFuture

variable {ι : Type} {n : ℕ} {τ ρ : Type}

def start (programs : ι → List (FutureCall τ)) : ThreadPoolOrderedFuture ι n τ ρ where
  callers t := ⟨programs t, .outside⟩
  m_queue := .start
  m_pool := []
  running _ := none
  results _ := none
  submitted := []
  started := []
  finished := []
  pulls := []
  got := []

variable [DecidableEq ι] (maxPendingTasks : ℕ) (invoke : τ → ρ)

/-- `m_queue.push`, which waits while the queue is full. -/
def push (s : ThreadPoolOrderedFuture ι n τ ρ) (t : ι) (task : τ)
    (program : List (FutureCall τ)) : ThreadPoolOrderedFuture ι n τ ρ :=
  match s.m_queue.offer maxPendingTasks s.submitted.length with
  | (true, queue) =>
      { s with
        callers := update s.callers t ⟨program, .submitting (s.submitted.length, task)⟩
        m_queue := queue
        submitted := s.submitted ++ [(s.submitted.length, task)] }
  | (false, _) => s

/-- `m_queue.pull`, which waits while the queue is empty. -/
def pull (s : ThreadPoolOrderedFuture ι n τ ρ) (t : ι) (program : List (FutureCall τ)) :
    ThreadPoolOrderedFuture ι n τ ρ :=
  match s.m_queue.take with
  | (some future, queue) =>
      { s with
        callers := update s.callers t ⟨program, .waiting future⟩
        m_queue := queue
        pulls := s.pulls ++ [(t, future)] }
  | (none, _) => s

def stepCaller (s : ThreadPoolOrderedFuture ι n τ ρ) (t : ι) :
    ThreadPoolOrderedFuture ι n τ ρ :=
  match s.callers t with
  | ⟨[], .outside⟩ => s
  | ⟨.submit task :: program, .outside⟩ => s.push maxPendingTasks t task program
  | ⟨.get :: program, .outside⟩ => s.pull t program
  | ⟨program, .submitting item⟩ =>
      { s with
        callers := update s.callers t ⟨program, .outside⟩
        m_pool := s.m_pool ++ [item] }
  | ⟨program, .waiting future⟩ =>
      match s.results future with
      | none => s
      | some result =>
          { s with
            callers := update s.callers t ⟨program, .outside⟩
            got := s.got ++ [(t, future, result)] }

/-- A thread of the pool takes the next task or ends the one that it runs. -/
def stepWorker (s : ThreadPoolOrderedFuture ι n τ ρ) (w : Fin n) :
    ThreadPoolOrderedFuture ι n τ ρ :=
  match s.running w with
  | none =>
      match s.m_pool with
      | [] => s
      | item :: later =>
          { s with
            m_pool := later
            running := update s.running w (some item)
            started := s.started ++ [item] }
  | some item =>
      { s with
        running := update s.running w none
        results := update s.results item.1 (some (invoke item.2))
        finished := s.finished ++ [item] }

def step (s : ThreadPoolOrderedFuture ι n τ ρ) :
    OrderedFutureEvent ι n → ThreadPoolOrderedFuture ι n τ ρ
  | .caller t => s.stepCaller maxPendingTasks t
  | .worker w => s.stepWorker invoke w

/-! ## Moves -/

/-- The steps that change something. -/
inductive Moves (s : ThreadPoolOrderedFuture ι n τ ρ) : ThreadPoolOrderedFuture ι n τ ρ → Prop where
  | push (t : ι) (task : τ) (program : List (FutureCall τ))
      (hcaller : s.callers t = ⟨.submit task :: program, .outside⟩)
      (hroom : s.m_queue.items.length < maxPendingTasks) :
      Moves s { s with
        callers := update s.callers t ⟨program, .submitting (s.submitted.length, task)⟩
        m_queue := { s.m_queue with items := s.m_queue.items ++ [s.submitted.length] }
        submitted := s.submitted ++ [(s.submitted.length, task)] }
  | pull (t : ι) (program : List (FutureCall τ)) (future : ℕ) (items : List ℕ)
      (hcaller : s.callers t = ⟨.get :: program, .outside⟩)
      (hitems : s.m_queue.items = future :: items) :
      Moves s { s with
        callers := update s.callers t ⟨program, .waiting future⟩
        m_queue := ⟨s.m_queue.first + 1, items⟩
        pulls := s.pulls ++ [(t, future)] }
  | enqueue (t : ι) (program : List (FutureCall τ)) (item : ℕ × τ)
      (hcaller : s.callers t = ⟨program, .submitting item⟩) :
      Moves s { s with
        callers := update s.callers t ⟨program, .outside⟩
        m_pool := s.m_pool ++ [item] }
  | answer (t : ι) (program : List (FutureCall τ)) (future : ℕ) (result : ρ)
      (hcaller : s.callers t = ⟨program, .waiting future⟩)
      (hresult : s.results future = some result) :
      Moves s { s with
        callers := update s.callers t ⟨program, .outside⟩
        got := s.got ++ [(t, future, result)] }
  | begin (w : Fin n) (item : ℕ × τ) (later : List (ℕ × τ)) (hidle : s.running w = none)
      (hpool : s.m_pool = item :: later) :
      Moves s { s with
        m_pool := later
        running := update s.running w (some item)
        started := s.started ++ [item] }
  | finish (w : Fin n) (item : ℕ × τ) (hrunning : s.running w = some item) :
      Moves s { s with
        running := update s.running w none
        results := update s.results item.1 (some (invoke item.2))
        finished := s.finished ++ [item] }

variable {maxPendingTasks invoke} {s s' : ThreadPoolOrderedFuture ι n τ ρ} {t : ι} {w : Fin n}

theorem step_moves (event : OrderedFutureEvent ι n) : s.step maxPendingTasks invoke event = s ∨
    Moves maxPendingTasks invoke s (s.step maxPendingTasks invoke event) := by
  cases event with
  | caller t =>
      simp only [step]
      unfold stepCaller
      split
      next => exact Or.inl rfl
      next task program hcaller =>
        by_cases hroom : s.m_queue.items.length < maxPendingTasks
        · simp only [push, BoundedQueue.offer, if_pos hroom]
          exact Or.inr (.push t task program hcaller hroom)
        · left
          simp only [push, BoundedQueue.offer, if_neg hroom]
      next program hcaller =>
        unfold pull BoundedQueue.take
        cases hitems : s.m_queue.items with
        | nil => exact Or.inl rfl
        | cons future items => exact Or.inr (.pull t program future items hcaller hitems)
      next program item hcaller => exact Or.inr (.enqueue t program item hcaller)
      next program future hcaller =>
        split
        next => exact Or.inl rfl
        next result hresult => exact Or.inr (.answer t program future result hcaller hresult)
  | worker w =>
      simp only [step]
      unfold stepWorker
      split
      next hidle =>
        split
        next => exact Or.inl rfl
        next item later hpool => exact Or.inr (.begin w item later hidle hpool)
      next item hrunning => exact Or.inr (.finish w item hrunning)

/-- Every move is the step of a thread. -/
theorem Moves.exists_event (hmoves : Moves maxPendingTasks invoke s s') :
    ∃ event, s.step maxPendingTasks invoke event = s' := by
  cases hmoves with
  | push t task program hcaller hroom =>
      exact ⟨.caller t, by simp only [step, stepCaller, hcaller, ThreadPoolOrderedFuture.push,
        BoundedQueue.offer, if_pos hroom]⟩
  | pull t program future items hcaller hitems =>
      exact ⟨.caller t, by simp only [step, stepCaller, hcaller, ThreadPoolOrderedFuture.pull,
        BoundedQueue.take, hitems]⟩
  | enqueue t program item hcaller => exact ⟨.caller t, by simp only [step, stepCaller, hcaller]⟩
  | answer t program future result hcaller hresult =>
      exact ⟨.caller t, by simp only [step, stepCaller, hcaller, hresult]⟩
  | begin w item later hidle hpool =>
      exact ⟨.worker w, by simp only [step, stepWorker, hidle, hpool]⟩
  | finish w item hrunning => exact ⟨.worker w, by simp only [step, stepWorker, hrunning]⟩

/-! ## What every move keeps -/

variable [Fintype ι]

def runningTask : Option (ℕ × τ) → Multiset (ℕ × τ)
  | none => 0
  | some item => {item}

/-- Every task is at one place, and the futures are in the queue in the order of their numbers. -/
structure Inv (maxPendingTasks : ℕ) (invoke : τ → ρ) (s : ThreadPoolOrderedFuture ι n τ ρ) :
    Prop where
  numbers : s.submitted.map Prod.fst = List.range s.submitted.length
  fifo : List.range s.submitted.length = s.pulls.map Prod.snd ++ s.m_queue.items
  length_le : s.m_queue.items.length ≤ maxPendingTasks
  tasks : (s.submitted : Multiset (ℕ × τ)) =
    (s.m_pool : Multiset (ℕ × τ)) + s.started + ∑ t, (s.callers t).held
  startedTasks : (s.started : Multiset (ℕ × τ)) =
    (s.finished : Multiset (ℕ × τ)) + ∑ w, runningTask (s.running w)
  ready : ∀ item ∈ s.finished, (s.results item.1).isSome
  results : ∀ future result, s.results future = some result →
    ∃ task, (future, task) ∈ s.submitted ∧ result = invoke task
  got : ∀ t future result, (t, future, result) ∈ s.got →
    ∃ task, (future, task) ∈ s.submitted ∧ result = invoke task
  returned : (s.pulls.map Prod.snd : Multiset ℕ) =
    (s.got.map fun answer => answer.2.1 : Multiset ℕ) + ∑ t, (s.callers t).awaited

omit [DecidableEq ι] in
theorem start_inv (programs : ι → List (FutureCall τ)) :
    (start programs : ThreadPoolOrderedFuture ι n τ ρ).Inv maxPendingTasks invoke where
  numbers := rfl
  fifo := rfl
  length_le := Nat.zero_le _
  tasks := by simp [start, FutureCaller.held]
  startedTasks := by simp [start, runningTask]
  ready := nofun
  results := nofun
  got := nofun
  returned := by simp [start, FutureCaller.awaited]

omit [DecidableEq ι] in
theorem Inv.mem_submitted (hinv : s.Inv maxPendingTasks invoke) {item : ℕ × τ}
    (hitem : item ∈ s.started) : item ∈ s.submitted := by
  rw [← Multiset.mem_coe, hinv.tasks]
  exact Multiset.mem_add.mpr (Or.inl (Multiset.mem_add.mpr (Or.inr hitem)))

omit [DecidableEq ι] in
theorem Inv.mem_started (hinv : s.Inv maxPendingTasks invoke) {item : ℕ × τ}
    (hrunning : s.running w = some item) : item ∈ s.started := by
  rw [← Multiset.mem_coe, hinv.startedTasks]
  refine Multiset.mem_add.mpr (Or.inr (Multiset.mem_sum.mpr ⟨w, Finset.mem_univ w, ?_⟩))
  rw [hrunning, runningTask]
  exact Multiset.mem_singleton_self item

theorem Inv.push (hinv : s.Inv maxPendingTasks invoke) {task : τ}
    {program : List (FutureCall τ)} (hcaller : (s.callers t).place = .outside)
    (hroom : s.m_queue.items.length < maxPendingTasks) :
    Inv maxPendingTasks invoke { s with
      callers := update s.callers t ⟨program, .submitting (s.submitted.length, task)⟩
      m_queue := { s.m_queue with items := s.m_queue.items ++ [s.submitted.length] }
      submitted := s.submitted ++ [(s.submitted.length, task)] } := by
  refine ⟨?_, ?_, ?_, ?_, hinv.startedTasks, hinv.ready, ?_, ?_, ?_⟩
  · simp [hinv.numbers, List.range_succ]
  · rw [List.length_append, List.length_singleton, List.range_succ, hinv.fifo, List.append_assoc]
  · rw [List.length_append, List.length_singleton]
    exact hroom
  · refine eq_add_sum_update FutureCaller.held hinv.tasks ?_
    simp only [FutureCaller.held, hcaller, ← Multiset.coe_add, Multiset.coe_singleton]
    abel
  · intro future result hresult
    obtain ⟨task, hmem, hinvoke⟩ := hinv.results future result hresult
    exact ⟨task, List.mem_append_left _ hmem, hinvoke⟩
  · intro u future result hgot
    obtain ⟨task, hmem, hinvoke⟩ := hinv.got u future result hgot
    exact ⟨task, List.mem_append_left _ hmem, hinvoke⟩
  · refine eq_add_sum_update FutureCaller.awaited hinv.returned ?_
    simp only [FutureCaller.awaited, hcaller]

theorem Inv.pull (hinv : s.Inv maxPendingTasks invoke) {program : List (FutureCall τ)}
    {future : ℕ} {items : List ℕ} (hcaller : (s.callers t).place = .outside)
    (hitems : s.m_queue.items = future :: items) :
    Inv maxPendingTasks invoke { s with
      callers := update s.callers t ⟨program, .waiting future⟩
      m_queue := ⟨s.m_queue.first + 1, items⟩
      pulls := s.pulls ++ [(t, future)] } := by
  refine ⟨hinv.numbers, ?_, ?_, ?_, hinv.startedTasks, hinv.ready, hinv.results, hinv.got, ?_⟩
  · simp [hinv.fifo, hitems]
  · have hle := hinv.length_le
    rw [hitems] at hle
    exact Nat.le_of_succ_le hle
  · refine eq_add_sum_update FutureCaller.held hinv.tasks ?_
    simp only [FutureCaller.held, hcaller]
  · refine eq_add_sum_update FutureCaller.awaited hinv.returned ?_
    simp only [FutureCaller.awaited, hcaller, List.map_append, List.map_singleton,
      ← Multiset.coe_add, Multiset.coe_singleton]
    abel

theorem Inv.enqueue (hinv : s.Inv maxPendingTasks invoke) {program : List (FutureCall τ)}
    {item : ℕ × τ} (hcaller : (s.callers t).place = .submitting item) :
    Inv maxPendingTasks invoke { s with
      callers := update s.callers t ⟨program, .outside⟩, m_pool := s.m_pool ++ [item] } := by
  refine ⟨hinv.numbers, hinv.fifo, hinv.length_le, ?_, hinv.startedTasks, hinv.ready, hinv.results,
    hinv.got, ?_⟩
  · refine eq_add_sum_update FutureCaller.held hinv.tasks ?_
    simp only [FutureCaller.held, hcaller, ← Multiset.coe_add, Multiset.coe_singleton]
    abel
  · refine eq_add_sum_update FutureCaller.awaited hinv.returned ?_
    simp only [FutureCaller.awaited, hcaller]

theorem Inv.answer (hinv : s.Inv maxPendingTasks invoke) {program : List (FutureCall τ)}
    {future : ℕ} {result : ρ} (hcaller : (s.callers t).place = .waiting future)
    (hresult : s.results future = some result) :
    Inv maxPendingTasks invoke { s with
      callers := update s.callers t ⟨program, .outside⟩
      got := s.got ++ [(t, future, result)] } := by
  refine ⟨hinv.numbers, hinv.fifo, hinv.length_le, ?_, hinv.startedTasks, hinv.ready, hinv.results,
    ?_, ?_⟩
  · refine eq_add_sum_update FutureCaller.held hinv.tasks ?_
    simp only [FutureCaller.held, hcaller]
  · intro u other answer hgot
    rcases List.mem_append.mp hgot with hbefore | hthis
    · exact hinv.got u other answer hbefore
    · simp only [List.mem_singleton, Prod.mk.injEq] at hthis
      rw [hthis.2.1, hthis.2.2]
      exact hinv.results future result hresult
  · refine eq_add_sum_update FutureCaller.awaited hinv.returned ?_
    simp only [FutureCaller.awaited, hcaller, List.map_append, List.map_singleton,
      ← Multiset.coe_add, Multiset.coe_singleton]
    abel

omit [DecidableEq ι] in
theorem Inv.begin (hinv : s.Inv maxPendingTasks invoke) {item : ℕ × τ} {later : List (ℕ × τ)}
    (hidle : s.running w = none) (hpool : s.m_pool = item :: later) :
    Inv maxPendingTasks invoke { s with
      m_pool := later
      running := update s.running w (some item)
      started := s.started ++ [item] } := by
  refine ⟨hinv.numbers, hinv.fifo, hinv.length_le, ?_, ?_, hinv.ready, hinv.results, hinv.got,
    hinv.returned⟩
  · rw [hinv.tasks, hpool, ← Multiset.coe_add, ← Multiset.cons_coe, Multiset.coe_singleton,
      ← Multiset.singleton_add]
    abel
  · refine eq_add_sum_update runningTask hinv.startedTasks ?_
    simp only [hidle, runningTask, ← Multiset.coe_add, Multiset.coe_singleton]
    abel

omit [DecidableEq ι] in
theorem Inv.finish (hinv : s.Inv maxPendingTasks invoke) {item : ℕ × τ}
    (hrunning : s.running w = some item) :
    Inv maxPendingTasks invoke { s with
      running := update s.running w none
      results := update s.results item.1 (some (invoke item.2))
      finished := s.finished ++ [item] } := by
  refine ⟨hinv.numbers, hinv.fifo, hinv.length_le, hinv.tasks, ?_, ?_, ?_, hinv.got,
    hinv.returned⟩
  · refine eq_add_sum_update runningTask hinv.startedTasks ?_
    simp only [hrunning, runningTask, ← Multiset.coe_add, Multiset.coe_singleton]
    abel
  · intro other hother
    dsimp only at hother ⊢
    by_cases hsame : other.1 = item.1
    · rw [hsame, update_self]
      rfl
    · rw [update_of_ne hsame]
      rcases List.mem_append.mp hother with hbefore | hthis
      · exact hinv.ready other hbefore
      · exact absurd (congrArg Prod.fst (List.mem_singleton.mp hthis)) hsame
  · intro future result hresult
    dsimp only at hresult
    by_cases hsame : future = item.1
    · rw [hsame, update_self, Option.some.injEq] at hresult
      refine ⟨item.2, ?_, hresult.symm⟩
      rw [hsame]
      exact hinv.mem_submitted (hinv.mem_started hrunning)
    · rw [update_of_ne hsame] at hresult
      exact hinv.results future result hresult

theorem Inv.moves (hinv : s.Inv maxPendingTasks invoke)
    (hmoves : Moves maxPendingTasks invoke s s') : s'.Inv maxPendingTasks invoke := by
  cases hmoves with
  | push t task program hcaller hroom => exact hinv.push (congrArg FutureCaller.place hcaller) hroom
  | pull t program future items hcaller hitems =>
      exact hinv.pull (congrArg FutureCaller.place hcaller) hitems
  | enqueue t program item hcaller => exact hinv.enqueue (congrArg FutureCaller.place hcaller)
  | answer t program future result hcaller hresult =>
      exact hinv.answer (congrArg FutureCaller.place hcaller) hresult
  | begin w item later hidle hpool => exact hinv.begin hidle hpool
  | finish w item hrunning => exact hinv.finish hrunning

/-- Who waits for a future, or has had its result, is the one who has pulled it. -/
structure Pulled (s : ThreadPoolOrderedFuture ι n τ ρ) : Prop where
  waiting : ∀ t future, (s.callers t).place = .waiting future → (t, future) ∈ s.pulls
  got : ∀ t future result, (t, future, result) ∈ s.got → (t, future) ∈ s.pulls

omit [DecidableEq ι] [Fintype ι] in
theorem start_pulled (programs : ι → List (FutureCall τ)) :
    (start programs : ThreadPoolOrderedFuture ι n τ ρ).Pulled :=
  ⟨fun _ _ hplace => by simp [start] at hplace, nofun⟩

omit [Fintype ι] in
theorem Pulled.waiting_update (hpulled : s.Pulled) {caller : FutureCaller τ}
    (hplace : ∀ future, caller.place ≠ .waiting future) (u : ι) :
    ∀ future, (update s.callers t caller u).place = .waiting future → (u, future) ∈ s.pulls :=
  forall_update (P := fun u (caller : FutureCaller τ) => ∀ future,
    caller.place = .waiting future → (u, future) ∈ s.pulls)
    (fun future hwaiting => absurd hwaiting (hplace future)) (fun u _ => hpulled.waiting u) u

omit [Fintype ι] in
theorem Pulled.moves (hpulled : s.Pulled) (hmoves : Moves maxPendingTasks invoke s s') :
    s'.Pulled := by
  cases hmoves with
  | push t task program hcaller hroom => exact ⟨hpulled.waiting_update (by simp), hpulled.got⟩
  | pull t program future items hcaller hitems =>
      constructor
      · refine forall_update (P := fun u (caller : FutureCaller τ) => ∀ other,
          caller.place = .waiting other → (u, other) ∈ s.pulls ++ [(t, future)]) ?_ ?_
        · intro other hplace
          rw [← FuturePlace.waiting.inj hplace]
          exact List.mem_append_right _ (List.mem_singleton_self _)
        · exact fun u _ other hplace => List.mem_append_left _ (hpulled.waiting u other hplace)
      · exact fun u other result hgot => List.mem_append_left _ (hpulled.got u other result hgot)
  | enqueue t program item hcaller => exact ⟨hpulled.waiting_update (by simp), hpulled.got⟩
  | answer t program future result hcaller hresult =>
      refine ⟨hpulled.waiting_update (by simp), fun u other answer hgot => ?_⟩
      rcases List.mem_append.mp hgot with hbefore | hthis
      · exact hpulled.got u other answer hbefore
      · simp only [List.mem_singleton, Prod.mk.injEq] at hthis
        rw [hthis.1, hthis.2.1]
        exact hpulled.waiting t future (congrArg FutureCaller.place hcaller)
  | begin w item later hidle hpool => exact ⟨hpulled.waiting, hpulled.got⟩
  | finish w item hrunning => exact ⟨hpulled.waiting, hpulled.got⟩

/-! ## Coming to rest -/

/-- No thread can take a step. -/
def Resting (maxPendingTasks : ℕ) (invoke : τ → ρ) (s : ThreadPoolOrderedFuture ι n τ ρ) : Prop :=
  ∀ event, s.step maxPendingTasks invoke event = s

def rank (s : ThreadPoolOrderedFuture ι n τ ρ) : ℕ :=
  ∑ t, (s.callers t).weight + 2 * s.m_pool.length + ∑ w, (runningTask (s.running w)).card

theorem rank_of_caller {caller : FutureCaller τ} (hcallers : s'.callers = update s.callers t caller)
    (hrunning : s'.running = s.running)
    (hless : 2 * s'.m_pool.length + caller.weight < 2 * s.m_pool.length + (s.callers t).weight) :
    s'.rank < s.rank := by
  have hsum := sum_update FutureCaller.weight s.callers t caller
  unfold rank
  rw [hcallers, hrunning]
  omega

omit [DecidableEq ι] in
theorem rank_of_worker {task : Option (ℕ × τ)} (hcallers : s'.callers = s.callers)
    (hrunning : s'.running = update s.running w task)
    (hless : 2 * s'.m_pool.length + (runningTask task).card <
      2 * s.m_pool.length + (runningTask (s.running w)).card) :
    s'.rank < s.rank := by
  have hsum := sum_update (fun task => (runningTask task).card) s.running w task
  unfold rank
  rw [hcallers, hrunning]
  omega

/-- A move brings the end nearer. -/
theorem Moves.rank_lt (hmoves : Moves maxPendingTasks invoke s s') : s'.rank < s.rank := by
  cases hmoves with
  | push t task program hcaller hroom =>
      refine rank_of_caller rfl rfl ?_
      simp [hcaller, FutureCaller.weight]
      omega
  | pull t program future items hcaller hitems =>
      refine rank_of_caller rfl rfl ?_
      simp [hcaller, FutureCaller.weight]
      omega
  | enqueue t program item hcaller =>
      refine rank_of_caller rfl rfl ?_
      simp [hcaller, FutureCaller.weight]
      omega
  | answer t program future result hcaller hresult =>
      refine rank_of_caller rfl rfl ?_
      simp [hcaller, FutureCaller.weight]
  | begin w item later hidle hpool =>
      refine rank_of_worker rfl rfl ?_
      simp [hidle, hpool, runningTask]
      omega
  | finish w item hrunning =>
      refine rank_of_worker rfl rfl ?_
      simp [hrunning, runningTask]

theorem Resting.not_moves (hresting : s.Resting maxPendingTasks invoke) :
    ¬ Moves maxPendingTasks invoke s s' := by
  intro hmoves
  obtain ⟨event, hevent⟩ := hmoves.exists_event
  have hlt := hmoves.rank_lt
  rw [← hevent, hresting event] at hlt
  exact lt_irrefl _ hlt

theorem Resting.running_eq (hresting : s.Resting maxPendingTasks invoke) (w : Fin n) :
    s.running w = none := by
  cases hrunning : s.running w with
  | none => rfl
  | some item => exact absurd (.finish w item hrunning) hresting.not_moves

theorem Resting.pool_eq (hresting : s.Resting maxPendingTasks invoke) (hthreads : 0 < n) :
    s.m_pool = [] := by
  cases hpool : s.m_pool with
  | nil => rfl
  | cons item later =>
      exact absurd (.begin ⟨0, hthreads⟩ item later (hresting.running_eq _) hpool)
        hresting.not_moves

/-- At rest every task that was submitted has ended. -/
theorem Resting.finished_eq (hresting : s.Resting maxPendingTasks invoke) (hthreads : 0 < n)
    (hinv : s.Inv maxPendingTasks invoke) :
    (s.submitted : Multiset (ℕ × τ)) = (s.finished : Multiset (ℕ × τ)) := by
  have hheld : ∑ t, (s.callers t).held = 0 := by
    refine Finset.sum_eq_zero fun t _ => ?_
    unfold FutureCaller.held
    split
    next item hplace =>
      exact absurd (.enqueue t (s.callers t).program item (by rw [← hplace])) hresting.not_moves
    next => rfl
  have hrunning : ∑ w, runningTask (s.running w) = 0 :=
    Finset.sum_eq_zero fun w _ => by rw [hresting.running_eq w, runningTask]
  rw [hinv.tasks, hinv.startedTasks, hresting.pool_eq hthreads, hheld, hrunning]
  simp

omit [DecidableEq ι] in
theorem Inv.exists_task (hinv : s.Inv maxPendingTasks invoke) {future : ℕ}
    (hpulled : future ∈ s.pulls.map Prod.snd) : ∃ task, (future, task) ∈ s.submitted := by
  have hlt : future ∈ List.range s.submitted.length := by
    rw [hinv.fifo]
    exact List.mem_append_left _ hpulled
  rw [← hinv.numbers] at hlt
  obtain ⟨⟨number, task⟩, hmem, hnumber⟩ := List.mem_map.mp hlt
  exact ⟨task, hnumber ▸ hmem⟩

/-- Nobody waits for a result for ever. -/
theorem Resting.outside (hresting : s.Resting maxPendingTasks invoke) (hthreads : 0 < n)
    (hinv : s.Inv maxPendingTasks invoke) (t : ι) : (s.callers t).place = .outside := by
  cases hplace : (s.callers t).place with
  | outside => rfl
  | submitting item =>
      exact absurd (.enqueue t (s.callers t).program item (by rw [← hplace])) hresting.not_moves
  | waiting future =>
      have hpulled : future ∈ s.pulls.map Prod.snd := by
        rw [← Multiset.mem_coe, hinv.returned]
        refine Multiset.mem_add.mpr (Or.inr (Multiset.mem_sum.mpr ⟨t, Finset.mem_univ t, ?_⟩))
        rw [FutureCaller.awaited, hplace]
        exact Multiset.mem_singleton_self future
      obtain ⟨task, hsubmitted⟩ := hinv.exists_task hpulled
      have hfinished : (future, task) ∈ s.finished := by
        rw [← Multiset.mem_coe, ← hresting.finished_eq hthreads hinv]
        exact hsubmitted
      obtain ⟨result, hresult⟩ := Option.isSome_iff_exists.mp (hinv.ready _ hfinished)
      exact absurd (.answer t (s.callers t).program future result (by rw [← hplace]) hresult)
        hresting.not_moves

theorem Resting.answered (hresting : s.Resting maxPendingTasks invoke) (hthreads : 0 < n)
    (hinv : s.Inv maxPendingTasks invoke) :
    (s.got.map fun answer => answer.2.1).Perm (s.pulls.map Prod.snd) := by
  have hawaited : ∑ t, (s.callers t).awaited = 0 := by
    refine Finset.sum_eq_zero fun t _ => ?_
    rw [FutureCaller.awaited, hresting.outside hthreads hinv t]
  have hreturned := hinv.returned
  rw [hawaited, add_zero] at hreturned
  exact Multiset.coe_eq_coe.mp hreturned.symm

/-- Only a full queue keeps a `submit` waiting and only an empty one a `get`. -/
theorem Resting.blocked (hresting : s.Resting maxPendingTasks invoke) (hthreads : 0 < n)
    (hinv : s.Inv maxPendingTasks invoke) (t : ι) :
    match (s.callers t).program with
    | [] => True
    | .submit _ :: _ => s.m_queue.items.length = maxPendingTasks
    | .get :: _ => s.m_queue.items = [] := by
  have hplace := hresting.outside hthreads hinv t
  split
  next => trivial
  next task program hprogram =>
    by_contra hroom
    have hle := hinv.length_le
    exact hresting.not_moves (.push t task program (by rw [← hprogram, ← hplace]) (by omega))
  next program hprogram =>
    cases hitems : s.m_queue.items with
    | nil => rfl
    | cons future items =>
        exact absurd (.pull t program future items (by rw [← hprogram, ← hplace]) hitems)
          hresting.not_moves

/-! ## As many results as tasks -/

/-- What the threads have done of their programs. -/
structure Accounts (programs : ι → List (FutureCall τ)) (s : ThreadPoolOrderedFuture ι n τ ρ) :
    Prop where
  submits : ∑ t, (programs t).countP FutureCall.isSubmit =
    s.submitted.length + ∑ t, (s.callers t).submits
  gets : ∑ t, (programs t).countP (!·.isSubmit) = s.pulls.length + ∑ t, (s.callers t).gets
  suffix : ∀ t, (s.callers t).program <:+ programs t

variable {programs : ι → List (FutureCall τ)}

omit [DecidableEq ι] in
theorem start_accounts (programs : ι → List (FutureCall τ)) :
    (start programs : ThreadPoolOrderedFuture ι n τ ρ).Accounts programs where
  submits := by simp [start, FutureCaller.submits]
  gets := by simp [start, FutureCaller.gets]
  suffix := fun _ => List.suffix_rfl

theorem Accounts.caller (haccounts : s.Accounts programs) {caller : FutureCaller τ}
    (hcallers : s'.callers = update s.callers t caller)
    (hsubmits : s'.submitted.length + caller.submits =
      s.submitted.length + (s.callers t).submits)
    (hgets : s'.pulls.length + caller.gets = s.pulls.length + (s.callers t).gets)
    (hsuffix : caller.program <:+ (s.callers t).program) : s'.Accounts programs := by
  have hsubmit := sum_update FutureCaller.submits s.callers t caller
  have hget := sum_update FutureCaller.gets s.callers t caller
  have hbefore := haccounts.submits
  have hbefore' := haccounts.gets
  refine ⟨?_, ?_, ?_⟩
  · rw [hcallers]
    omega
  · rw [hcallers]
    omega
  · rw [hcallers]
    exact forall_update (P := fun u (caller : FutureCaller τ) => caller.program <:+ programs u)
      (hsuffix.trans (haccounts.suffix t)) fun u _ => haccounts.suffix u

theorem Accounts.moves (haccounts : s.Accounts programs)
    (hmoves : Moves maxPendingTasks invoke s s') : s'.Accounts programs := by
  cases hmoves with
  | push t task program hcaller hroom =>
      refine haccounts.caller rfl ?_ ?_ (by simp [hcaller])
      · simp [hcaller, FutureCaller.submits, FutureCall.isSubmit, List.countP_cons]
        omega
      · simp [hcaller, FutureCaller.gets, FutureCall.isSubmit]
  | pull t program future items hcaller hitems =>
      refine haccounts.caller rfl ?_ ?_ (by simp [hcaller])
      · simp [hcaller, FutureCaller.submits, FutureCall.isSubmit]
      · simp [hcaller, FutureCaller.gets, FutureCall.isSubmit]
        omega
  | enqueue t program item hcaller =>
      refine haccounts.caller rfl ?_ ?_ (by simp [hcaller])
      · simp [hcaller, FutureCaller.submits]
      · simp [hcaller, FutureCaller.gets]
  | answer t program future result hcaller hresult =>
      refine haccounts.caller rfl ?_ ?_ (by simp [hcaller])
      · simp [hcaller, FutureCaller.submits]
      · simp [hcaller, FutureCaller.gets]
  | begin w item later hidle hpool =>
      exact ⟨haccounts.submits, haccounts.gets, haccounts.suffix⟩
  | finish w item hrunning => exact ⟨haccounts.submits, haccounts.gets, haccounts.suffix⟩

/-- A thread that only submits, or only gets. -/
def OneKind (program : List (FutureCall τ)) : Prop :=
  (∀ call ∈ program, call.isSubmit = true) ∨ ∀ call ∈ program, call.isSubmit = false

theorem OneKind.isSubmit_eq {program : List (FutureCall τ)} (hkind : OneKind program)
    {call other : FutureCall τ} (hcall : call ∈ program) (hother : other ∈ program) :
    call.isSubmit = other.isSubmit := by
  rcases hkind with hsubmits | hgets
  · rw [hsubmits call hcall, hsubmits other hother]
  · rw [hgets call hcall, hgets other hother]

omit [DecidableEq ι] in
/-- A thread whose next call is of the other kind has none of this kind to make. -/
theorem Accounts.isSubmit_ne (haccounts : s.Accounts programs) (hkind : OneKind (programs t))
    {submits : Bool}
    (hhead : ∀ first rest, (s.callers t).program = first :: rest → first.isSubmit ≠ submits)
    {call : FutureCall τ} (hcall : call ∈ (s.callers t).program) : call.isSubmit ≠ submits := by
  have hsub := (haccounts.suffix t).subset
  cases hprogram : (s.callers t).program with
  | nil => simp [hprogram] at hcall
  | cons first rest =>
      have hfirst : first ∈ programs t := hsub (by simp [hprogram])
      rw [hkind.isSubmit_eq (hsub hcall) hfirst]
      exact hhead first rest hprogram

omit [DecidableEq ι] in
theorem Accounts.gets_eq_zero (haccounts : s.Accounts programs) (hkind : OneKind (programs t))
    (hhead : ∀ program, (s.callers t).program ≠ .get :: program) : (s.callers t).gets = 0 := by
  unfold FutureCaller.gets
  rw [List.countP_eq_zero]
  intro call hcall
  have hsubmit : call.isSubmit ≠ false := by
    refine haccounts.isSubmit_ne hkind (fun first rest hprogram => ?_) hcall
    cases first with
    | submit task => simp [FutureCall.isSubmit]
    | get => exact absurd hprogram (hhead rest)
  simpa using hsubmit

omit [DecidableEq ι] in
theorem Accounts.submits_eq_zero (haccounts : s.Accounts programs) (hkind : OneKind (programs t))
    (hhead : ∀ task program, (s.callers t).program ≠ .submit task :: program) :
    (s.callers t).submits = 0 := by
  unfold FutureCaller.submits
  rw [List.countP_eq_zero]
  intro call hcall
  refine haccounts.isSubmit_ne hkind (fun first rest hprogram => ?_) hcall
  cases first with
  | submit task => exact absurd hprogram (hhead task rest)
  | get => simp [FutureCall.isSubmit]

theorem Resting.program_eq (hresting : s.Resting maxPendingTasks invoke) (hthreads : 0 < n)
    (hpending : 0 < maxPendingTasks) (hinv : s.Inv maxPendingTasks invoke)
    (haccounts : s.Accounts programs) (hkinds : ∀ t, OneKind (programs t))
    (heven : ∑ t, (programs t).countP FutureCall.isSubmit =
      ∑ t, (programs t).countP (!·.isSubmit)) (t : ι) : (s.callers t).program = [] := by
  have hblocked := hresting.blocked hthreads hinv
  have hlength : s.submitted.length = s.pulls.length + s.m_queue.items.length := by
    have hfifo := congrArg List.length hinv.fifo
    simpa using hfifo
  have hsubmits := haccounts.submits
  have hgets := haccounts.gets
  cases hprogram : (s.callers t).program with
  | nil => rfl
  | cons first rest =>
      have hfirst := hblocked t
      rw [hprogram] at hfirst
      cases first with
      | submit task =>
          -- the queue is full, so nobody waits for a future
          have hnone : ∑ u, (s.callers u).gets = 0 := by
            refine Finset.sum_eq_zero fun u _ => haccounts.gets_eq_zero (hkinds u) ?_
            intro program hget
            have hempty := hblocked u
            rw [hget] at hempty
            rw [hempty, List.length_nil] at hfirst
            omega
          dsimp only at hfirst
          omega
      | get =>
          -- the queue is empty, so nobody waits for room
          have hnone : ∑ u, (s.callers u).submits = 0 := by
            refine Finset.sum_eq_zero fun u _ => haccounts.submits_eq_zero (hkinds u) ?_
            intro task program hsubmit
            have hfull := hblocked u
            rw [hsubmit] at hfull
            rw [hfirst, List.length_nil] at hfull
            omega
          have hone : (s.callers t).gets ≤ ∑ u, (s.callers u).gets :=
            Finset.single_le_sum (f := fun u => (s.callers u).gets) (fun _ _ => Nat.zero_le _)
              (Finset.mem_univ t)
          have hpos : 0 < (s.callers t).gets := by
            simp [FutureCaller.gets, hprogram, FutureCall.isSubmit]
          rw [hfirst, List.length_nil] at hlength
          omega

omit [DecidableEq ι] in
/-- Nobody has a call to make, so every future that was pushed has been pulled. -/
theorem Accounts.pulls_eq_range (haccounts : s.Accounts programs)
    (hinv : s.Inv maxPendingTasks invoke) (hprogram : ∀ t, (s.callers t).program = [])
    (heven : ∑ t, (programs t).countP FutureCall.isSubmit =
      ∑ t, (programs t).countP (!·.isSubmit)) :
    s.pulls.map Prod.snd = List.range (∑ t, (programs t).countP FutureCall.isSubmit) := by
  have hsubmits : ∑ t, (s.callers t).submits = 0 :=
    Finset.sum_eq_zero fun t _ => by rw [FutureCaller.submits, hprogram t, List.countP_nil]
  have hgets : ∑ t, (s.callers t).gets = 0 :=
    Finset.sum_eq_zero fun t _ => by rw [FutureCaller.gets, hprogram t, List.countP_nil]
  have hsubmitted := haccounts.submits
  have hpulled := haccounts.gets
  have hfifo := hinv.fifo
  have hempty : s.m_queue.items = [] := by
    have hlength := congrArg List.length hfifo
    simp only [List.length_range, List.length_append, List.length_map] at hlength
    exact List.length_eq_zero_iff.mp (by omega)
  rw [hsubmitted, hsubmits, add_zero, hfifo, hempty, List.append_nil]

theorem rank_step {event : OrderedFutureEvent ι n}
    (hmoves : s.step maxPendingTasks invoke event ≠ s) :
    (s.step maxPendingTasks invoke event).rank < s.rank :=
  ((step_moves event).resolve_left hmoves).rank_lt

theorem exists_step (hbusy : ¬ s.Resting maxPendingTasks invoke) :
    ∃ event, True ∧ (s.step maxPendingTasks invoke event).rank < s.rank := by
  unfold Resting at hbusy
  push Not at hbusy
  obtain ⟨event, hmoves⟩ := hbusy
  exact ⟨event, trivial, rank_step hmoves⟩

theorem run_inv (programs : ι → List (FutureCall τ)) (events : List (OrderedFutureEvent ι n)) :
    (run (step maxPendingTasks invoke) (start programs) events).Inv maxPendingTasks invoke ∧
      (run (step maxPendingTasks invoke) (start programs) events).Pulled ∧
      (run (step maxPendingTasks invoke) (start programs) events).Accounts programs := by
  refine run_invariant (fun s : ThreadPoolOrderedFuture ι n τ ρ =>
      s.Inv maxPendingTasks invoke ∧ s.Pulled ∧ s.Accounts programs)
    ⟨start_inv programs, start_pulled programs, start_accounts programs⟩ (fun s event hinv => ?_)
    events
  rcases @step_moves _ _ _ _ _ maxPendingTasks invoke s event with hsame | hmoves
  · rw [hsame]
    exact hinv
  · exact ⟨hinv.1.moves hmoves, hinv.2.1.moves hmoves, hinv.2.2.moves hmoves⟩

omit [DecidableEq ι] in
theorem Inv.started_nodup (hinv : s.Inv maxPendingTasks invoke) : s.started.Nodup := by
  have hnodup : (s.submitted : Multiset (ℕ × τ)).Nodup := by
    refine List.Nodup.of_map Prod.fst ?_
    rw [hinv.numbers]
    exact List.nodup_range
  rw [hinv.tasks] at hnodup
  exact (Multiset.nodup_add.mp (Multiset.nodup_add.mp hnodup).1).2.1

/-- The results come in the order of the submissions: whoever takes the `k`-th future gets the
result of the `k`-th task.  Every step that a thread can take brings the end nearer, so that the
threads come to rest, with every task ended and nobody waiting for a result; where some threads
submit and others get, as often in all, every call returns. -/
theorem futures_come_in_order (programs : ι → List (FutureCall τ)) (maxPendingTasks : ℕ)
    (invoke : τ → ρ) (events : List (OrderedFutureEvent ι n)) :
    let s := run (step maxPendingTasks invoke) (start programs) events
    s.pulls.map Prod.snd ++ s.m_queue.items = s.submitted.map Prod.fst ∧
      s.submitted.map Prod.fst = List.range s.submitted.length ∧ s.started.Nodup ∧
      (∀ t future result, (t, future, result) ∈ s.got → (t, future) ∈ s.pulls ∧
        ∃ task, (future, task) ∈ s.submitted ∧ result = invoke task) ∧
      (∀ event, s.step maxPendingTasks invoke event ≠ s →
        (s.step maxPendingTasks invoke event).rank < s.rank) ∧
      (∃ later, (run (step maxPendingTasks invoke) s later).Resting maxPendingTasks invoke) ∧
      (0 < n → s.Resting maxPendingTasks invoke →
        s.finished.Perm s.submitted ∧
          (s.got.map fun answer => answer.2.1).Perm (s.pulls.map Prod.snd) ∧
          ∀ t, (s.callers t).place = .outside ∧
            match (s.callers t).program with
            | [] => True
            | .submit _ :: _ => s.m_queue.items.length = maxPendingTasks
            | .get :: _ => s.m_queue.items = []) ∧
      (0 < n → 0 < maxPendingTasks → (∀ t, OneKind (programs t)) →
        ∑ t, (programs t).countP FutureCall.isSubmit = ∑ t, (programs t).countP (!·.isSubmit) →
        s.Resting maxPendingTasks invoke →
          (∀ t, s.callers t = ⟨[], .outside⟩) ∧
            (s.got.map fun answer => answer.2.1).Perm
              (List.range (∑ t, (programs t).countP FutureCall.isSubmit))) := by
  intro s
  obtain ⟨hinv, hpulled, haccounts⟩ :
      s.Inv maxPendingTasks invoke ∧ s.Pulled ∧ s.Accounts programs := run_inv programs events
  refine ⟨by rw [hinv.numbers, hinv.fifo], hinv.numbers, hinv.started_nodup,
    fun t future result hgot => ⟨hpulled.got t future result hgot, hinv.got t future result hgot⟩,
    fun event hmoves => rank_step hmoves, ?_, ?_, ?_⟩
  · obtain ⟨later, -, hresting⟩ := exists_run_of_rank (step maxPendingTasks invoke)
      (fun _ => True) (Resting maxPendingTasks invoke) (fun _ => True) rank
      (fun _ _ _ _ => trivial) (fun _ _ hbusy => exists_step hbusy) (s := s) trivial
    exact ⟨later, hresting⟩
  · intro hthreads hresting
    refine ⟨?_, hresting.answered hthreads hinv, fun t => ⟨hresting.outside hthreads hinv t,
      hresting.blocked hthreads hinv t⟩⟩
    exact Multiset.coe_eq_coe.mp (hresting.finished_eq hthreads hinv).symm
  · intro hthreads hpending hkinds heven hresting
    have hprogram := hresting.program_eq hthreads hpending hinv haccounts hkinds heven
    refine ⟨fun t => ?_, ?_⟩
    · rw [← hprogram t, ← hresting.outside hthreads hinv t]
    · rw [← haccounts.pulls_eq_range hinv hprogram heven]
      exact hresting.answered hthreads hinv

end ThreadPoolOrderedFuture

end CppPlay.MultiThread
