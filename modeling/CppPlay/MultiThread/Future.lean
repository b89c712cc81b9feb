import CppPlay.Lib.Run

/-!
# The future with a thread of its own

The members are destroyed in the reverse order of their declaration, so the guard that
joins the worker comes after the mutex, the condition, the flag and the value that the
worker uses.  A `get` returns when the worker is done with them.
-/

namespace CppPlay.MultiThread

open CppPlay.Lib

inductive FutureMember where
  | th
  | threadGuard
  | m
  | conSet
  | isSet
  | value
  deriving DecidableEq

def FutureMember.declared : List FutureMember := [.th, .threadGuard, .m, .conSet, .isSet, .value]

/-- The variant of a value and an `exception_ptr`, which may be null. -/
inductive FutureValue (τ ε : Type) where
  | value (value : τ)
  | eptr (exception : Option ε)

/-- How a call of `get` ends; `undefined` stands for an end without a return and for the wrong
alternative of the variant. -/
inductive GetResult (τ ε : Type) where
  | value (value : τ)
  | nothing
  | thrown (exception : ε)
  | undefined

/-- Where the worker stands in `callWrapper`: before the step of this name, or at its end. -/
inductive CallPc where
  | locking
  | clearing
  | calling
  | assigning
  | setting
  | notifying
  | unlocking
  | exited
  deriving DecidableEq

def CallPc.steps : CallPc → ℕ
  | .locking => 0
  | .clearing => 1
  | .calling => 2
  | .assigning => 3
  | .setting => 4
  | .notifying => 5
  | .unlocking => 6
  | .exited => 7

/-- Where the owner stands: outside `get`, at the test of `_isSet`, in the wait, before the
value is read, before the unlock, or in the destructor with these members left. -/
inductive OwnerPc where
  | idle
  | checking
  | waiting (woken : Bool)
  | reading
  | unlocking
  | destroying (rest : List FutureMember)
  deriving DecidableEq

inductive FutureThread where
  | worker
  | owner
  deriving DecidableEq

/-- A step of a thread, or a wake-up of the owner for no reason. -/
inductive FutureEvent where
  | worker
  | owner
  | spurious
  deriving DecidableEq

/-- The members with the two threads.  `getsLeft` are the calls of `get` that the owner makes
before it destroys the future; `undefined` is set when the worker uses a destroyed member. -/
structure Future (τ ε : Type) where
  lockedBy : Option FutureThread
  isSet : Bool
  value : FutureValue τ ε
  worker : CallPc
  owner : OwnerPc
  getsLeft : ℕ
  destroyed : List FutureMember
  undefined : Bool
  results : List (GetResult τ ε)

namespace Future

variable {τ ε : Type}

def start [Inhabited τ] (gets : ℕ) : Future τ ε :=
  ⟨none, false, .value default, .locking, .idle, gets, [], false, []⟩

def use (s : Future τ ε) (member : FutureMember) : Future τ ε :=
  { s with undefined := s.undefined || member ∈ s.destroyed }

/-- What `setValue` stores after the call of `f`; a null pointer is there already. -/
def stored (isVoid : Bool) : Except ε τ → FutureValue τ ε
  | .ok value => if isVoid then .eptr none else .value value
  | .error exception => .eptr (some exception)

def notify : OwnerPc → OwnerPc
  | .waiting _ => .waiting true
  | pc => pc

def stepWorker (isVoid : Bool) (outcome : Except ε τ) (s : Future τ ε) : Future τ ε :=
  match s.worker with
  | .locking =>
      let s := s.use .m
      if s.lockedBy = none then { s with lockedBy := some .worker, worker := .clearing } else s
  | .clearing => { s.use .value with value := .eptr none, worker := .calling }
  | .calling => { s with worker := .assigning }
  | .assigning =>
      match isVoid, outcome with
      -- nothing is assigned
      | true, .ok _ => { s with worker := .setting }
      | _, _ => { s.use .value with value := stored isVoid outcome, worker := .setting }
  | .setting => { s.use .isSet with isSet := true, worker := .notifying }
  | .notifying => { s.use .conSet with owner := notify s.owner, worker := .unlocking }
  | .unlocking => { s.use .m with lockedBy := none, worker := .exited }
  | .exited => s

def getResult (isVoid : Bool) : FutureValue τ ε → GetResult τ ε
  | .value value => if isVoid then .undefined else .value value
  | .eptr none => if isVoid then .nothing else .undefined
  | .eptr (some exception) => .thrown exception

def stepOwner (isVoid : Bool) (s : Future τ ε) : Future τ ε :=
  match s.owner with
  | .idle =>
      if s.getsLeft = 0 then { s with owner := .destroying FutureMember.declared.reverse }
      else if s.lockedBy = none then { s with lockedBy := some .owner, owner := .checking }
      else s
  | .checking =>
      if s.isSet then { s with owner := .reading }
      else { s with lockedBy := none, owner := .waiting false }
  | .waiting woken =>
      if woken ∧ s.lockedBy = none then { s with lockedBy := some .owner, owner := .checking }
      else s
  | .reading =>
      { s with owner := .unlocking, results := s.results ++ [getResult isVoid s.value] }
  | .unlocking => { s with lockedBy := none, owner := .idle, getsLeft := s.getsLeft - 1 }
  | .destroying [] => s
  | .destroying (.threadGuard :: rest) =>
      -- the join
      if s.worker = .exited then
        { s with owner := .destroying rest, destroyed := .threadGuard :: s.destroyed }
      else s
  | .destroying (member :: rest) =>
      { s with owner := .destroying rest, destroyed := member :: s.destroyed }

def step (isVoid : Bool) (outcome : Except ε τ) (s : Future τ ε) : FutureEvent → Future τ ε
  | .worker => s.stepWorker isVoid outcome
  | .owner => s.stepOwner isVoid
  | .spurious =>
      match s.owner with
      | .waiting _ => { s with owner := .waiting true }
      | _ => s

def expected (isVoid : Bool) : Except ε τ → GetResult τ ε
  | .ok value => if isVoid then .nothing else .value value
  | .error exception => .thrown exception

/-- The worker uses no destroyed member, and each `get` that the owner makes can return, with
what the callable returned or threw. -/
structure Delivers (isVoid : Bool) (outcome : Except ε τ) (gets : ℕ) (s : Future τ ε) : Prop where
  defined : s.undefined = false
  results : ∀ result ∈ s.results, result = expected isVoid outcome
  finishes : ∃ later, (∀ event ∈ later, event ≠ .spurious) ∧
    (run (step isVoid outcome) s later).owner = .destroying [] ∧
      (run (step isVoid outcome) s later).results.length = gets

theorem getResult_stored (isVoid : Bool) (outcome : Except ε τ) :
    getResult isVoid (stored isVoid outcome) = expected isVoid outcome := by
  cases outcome with
  | ok value => cases isVoid <;> rfl
  | error exception => cases isVoid <;> rfl

/-! ## What holds of both threads -/

def OwnerPc.holds : OwnerPc → Bool
  | .checking => true
  | .reading => true
  | .unlocking => true
  | _ => false

def OwnerPc.inGet : OwnerPc → Bool
  | .idle => false
  | .destroying _ => false
  | _ => true

def OwnerPc.destroys : OwnerPc → Bool
  | .destroying _ => true
  | _ => false

/-- Everything that `get` waits for comes before the worker gives the mutex back for good. -/
structure Inv (isVoid : Bool) (outcome : Except ε τ) (gets : ℕ) (s : Future τ ε) : Prop where
  workerLock : s.lockedBy = some .worker ↔ 1 ≤ s.worker.steps ∧ s.worker.steps ≤ 6
  ownerLock : s.lockedBy = some .owner ↔ OwnerPc.holds s.owner = true
  isSet : s.isSet = true ↔ 5 ≤ s.worker.steps
  cleared : s.worker = .calling ∨ s.worker = .assigning → s.value = .eptr none
  value : 4 ≤ s.worker.steps → s.value = stored isVoid outcome
  waiting : s.owner = .waiting false → s.worker.steps ≤ 5
  reading : s.owner = .reading → s.isSet = true
  got : s.results ≠ [] → s.worker = .exited
  inGet : OwnerPc.inGet s.owner = true → 0 < s.getsLeft
  count : s.results.length + s.getsLeft = gets + if s.owner = .unlocking then 1 else 0
  destroying : OwnerPc.destroys s.owner = true → s.getsLeft = 0
  destroyed : OwnerPc.destroys s.owner = false → s.destroyed = []
  results : ∀ result ∈ s.results, result = expected isVoid outcome
  defined : s.undefined = false

variable {isVoid : Bool} {outcome : Except ε τ} {gets : ℕ} {s : Future τ ε}

theorem start_inv [Inhabited τ] (isVoid : Bool) (outcome : Except ε τ) (gets : ℕ) :
    Inv isVoid outcome gets (start gets) := by
  constructor <;> simp [start, CallPc.steps, OwnerPc.holds, OwnerPc.inGet, OwnerPc.destroys]

theorem Inv.no_results (hinv : Inv isVoid outcome gets s) (hworker : s.worker ≠ .exited) :
    s.results = [] := by
  by_contra hsome
  exact hworker (hinv.got hsome)

/-- With a `get` to come or made, the worker finds all members alive. -/
theorem Inv.use (hinv : Inv isVoid outcome gets s) (hgets : 0 < gets) (hworker : s.worker ≠ .exited)
    (member : FutureMember) : s.use member = s := by
  have hcount := hinv.count
  rw [hinv.no_results hworker, List.length_nil, Nat.zero_add] at hcount
  have halive : s.destroyed = [] := by
    apply hinv.destroyed
    rw [Bool.eq_false_iff]
    intro hdestroys
    have hzero := hinv.destroying hdestroys
    omega
  have hsame : (s.undefined || decide (member ∈ s.destroyed)) = s.undefined := by simp [halive]
  rw [Future.use, hsame]

section Notify

@[simp] theorem holds_notify (pc : OwnerPc) : OwnerPc.holds (notify pc) = OwnerPc.holds pc := by
  cases pc <;> rfl

@[simp] theorem inGet_notify (pc : OwnerPc) : OwnerPc.inGet (notify pc) = OwnerPc.inGet pc := by
  cases pc <;> rfl

@[simp] theorem destroys_notify (pc : OwnerPc) :
    OwnerPc.destroys (notify pc) = OwnerPc.destroys pc := by
  cases pc <;> rfl

theorem notify_ne_waiting (pc : OwnerPc) : notify pc ≠ .waiting false := by
  cases pc <;> simp [notify]

@[simp] theorem notify_eq_reading (pc : OwnerPc) : notify pc = .reading ↔ pc = .reading := by
  cases pc <;> simp [notify]

@[simp] theorem notify_eq_unlocking (pc : OwnerPc) : notify pc = .unlocking ↔ pc = .unlocking := by
  cases pc <;> simp [notify]

end Notify

/-- The worker has the mutex and works on the value. -/
theorem Inv.work (hinv : Inv isVoid outcome gets s) {value : FutureValue τ ε} {worker : CallPc}
    (hlocked : 1 ≤ s.worker.steps) (hsteps : worker.steps = s.worker.steps + 1)
    (hunset : worker.steps ≤ 4)
    (hcleared : worker = .calling ∨ worker = .assigning → value = .eptr none)
    (hvalue : 4 ≤ worker.steps → value = stored isVoid outcome) :
    Inv isVoid outcome gets { s with value := value, worker := worker } := by
  have hlock := hinv.workerLock
  have hset := hinv.isSet
  have hnone : s.results = [] := by
    apply hinv.no_results
    intro hexited
    rw [hexited, CallPc.steps] at hsteps
    omega
  exact
    { hinv with
      workerLock := by rw [hlock, hsteps]; omega
      isSet := by rw [hset, hsteps]; omega
      cleared := hcleared
      value := hvalue
      waiting := fun _ => hunset.trans (by omega)
      got := fun hsome => absurd hnone hsome }

theorem Inv.stepWorker (hinv : Inv isVoid outcome gets s) (hgets : 0 < gets) :
    Inv isVoid outcome gets (s.stepWorker isVoid outcome) := by
  have hlock := hinv.workerLock
  have hset := hinv.isSet
  cases hworker : s.worker with
  | locking =>
      simp only [Future.stepWorker, hworker, hinv.use hgets (by simp [hworker])]
      split_ifs with hfree
      · exact
          { hinv with
            workerLock := by simp [CallPc.steps]
            ownerLock := by simpa [hfree] using hinv.ownerLock
            isSet := by simpa [hworker, CallPc.steps] using hset
            cleared := by simp
            value := by simp [CallPc.steps]
            waiting := by simp [CallPc.steps]
            got := by simp [hinv.no_results, hworker] }
      · exact hinv
  | clearing =>
      simp only [Future.stepWorker, hworker, hinv.use hgets (by simp [hworker])]
      apply hinv.work
      · simp [hworker, CallPc.steps]
      · simp [hworker, CallPc.steps]
      · simp [CallPc.steps]
      · exact fun _ => rfl
      · simp [CallPc.steps]
  | calling =>
      simp only [Future.stepWorker, hworker]
      apply hinv.work
      · simp [hworker, CallPc.steps]
      · simp [hworker, CallPc.steps]
      · simp [CallPc.steps]
      · exact fun _ => hinv.cleared (.inl hworker)
      · simp [CallPc.steps]
  | assigning =>
      have hassigned : ∀ value, value = stored isVoid outcome →
          Inv isVoid outcome gets { s with value := value, worker := .setting } := by
        intro value hvalue
        apply hinv.work
        · simp [hworker, CallPc.steps]
        · simp [hworker, CallPc.steps]
        · simp [CallPc.steps]
        · simp
        · exact fun _ => hvalue
      have hcleared := hinv.cleared (.inr hworker)
      simp only [Future.stepWorker, hworker, hinv.use hgets (by simp [hworker])]
      cases isVoid with
      | true =>
          cases outcome with
          | ok value => exact hassigned s.value hcleared
          | error exception => exact hassigned _ rfl
      | false => exact hassigned _ rfl
  | setting =>
      simp only [Future.stepWorker, hworker, hinv.use hgets (by simp [hworker])]
      exact
        { hinv with
          workerLock := by simpa [hworker, CallPc.steps] using hlock
          isSet := by simp [CallPc.steps]
          cleared := by simp
          value := fun _ => hinv.value (by simp [hworker, CallPc.steps])
          waiting := by simp [CallPc.steps]
          reading := fun _ => rfl
          got := by simp [hinv.no_results, hworker] }
  | notifying =>
      simp only [Future.stepWorker, hworker, hinv.use hgets (by simp [hworker])]
      exact
        { hinv with
          workerLock := by simpa [hworker, CallPc.steps] using hlock
          ownerLock := by simpa using hinv.ownerLock
          isSet := by simpa [hworker, CallPc.steps] using hset
          cleared := by simp
          value := fun _ => hinv.value (by simp [hworker, CallPc.steps])
          waiting := fun hwaiting => absurd hwaiting (notify_ne_waiting _)
          reading := by simpa using hinv.reading
          got := by simp [hinv.no_results, hworker]
          inGet := by simpa using hinv.inGet
          count := by simpa using hinv.count
          destroying := by simpa using hinv.destroying
          destroyed := by simpa using hinv.destroyed }
  | unlocking =>
      have hheld : s.lockedBy = some .worker := hlock.mpr (by simp [hworker, CallPc.steps])
      simp only [Future.stepWorker, hworker, hinv.use hgets (by simp [hworker])]
      exact
        { hinv with
          workerLock := by simp [CallPc.steps]
          ownerLock := by simpa [hheld] using hinv.ownerLock
          isSet := by simpa [hworker, CallPc.steps] using hset
          cleared := by simp
          value := fun _ => hinv.value (by simp [hworker, CallPc.steps])
          waiting := by
            intro hwaiting
            have hearly := hinv.waiting hwaiting
            simp [hworker, CallPc.steps] at hearly
          got := fun _ => rfl }
  | exited =>
      simp only [Future.stepWorker, hworker]
      exact hinv

theorem steps_eq_seven {pc : CallPc} (hsteps : 7 ≤ pc.steps) : pc = .exited := by
  cases pc <;> simp [CallPc.steps] at hsteps ⊢

/-- Where the owner has the mutex and the flag is set, the worker has returned. -/
theorem Inv.exited (hinv : Inv isVoid outcome gets s) (hset : s.isSet = true)
    (hholds : OwnerPc.holds s.owner = true) : s.worker = .exited := by
  apply steps_eq_seven
  have hheld := hinv.ownerLock.mpr hholds
  have hlate := hinv.isSet.mp hset
  have hnot : ¬ (1 ≤ s.worker.steps ∧ s.worker.steps ≤ 6) := by
    rw [← hinv.workerLock, hheld]
    simp
  omega

theorem Inv.lock (hinv : Inv isVoid outcome gets s) (hfree : s.lockedBy = none)
    (hleft : 0 < s.getsLeft) (hidle : s.owner = .idle ∨ ∃ woken, s.owner = .waiting woken) :
    Inv isVoid outcome gets { s with lockedBy := some .owner, owner := .checking } := by
  have hworker := hinv.workerLock
  have hcount := hinv.count
  have howner : s.owner ≠ .unlocking ∧ OwnerPc.destroys s.owner = false := by
    rcases hidle with hpc | ⟨woken, hpc⟩ <;> simp [hpc, OwnerPc.destroys]
  rw [if_neg howner.1] at hcount
  exact
    { hinv with
      workerLock := by simpa [hfree] using hworker
      ownerLock := by simp [OwnerPc.holds]
      waiting := by simp
      reading := by simp
      inGet := fun _ => hleft
      count := by simpa using hcount
      destroying := by simp [OwnerPc.destroys]
      destroyed := fun _ => hinv.destroyed howner.2 }

theorem Inv.stepOwner (hinv : Inv isVoid outcome gets s) :
    Inv isVoid outcome gets (s.stepOwner isVoid) := by
  have hcount := hinv.count
  cases howner : s.owner with
  | idle =>
      simp only [Future.stepOwner, howner]
      split_ifs with hleft hfree
      · exact
          { hinv with
            ownerLock := by simpa [howner, OwnerPc.holds] using hinv.ownerLock
            waiting := by simp
            reading := by simp
            inGet := by simp [OwnerPc.inGet]
            count := by simpa [howner] using hcount
            destroying := fun _ => hleft
            destroyed := by simp [OwnerPc.destroys] }
      · exact hinv.lock hfree (Nat.pos_of_ne_zero hleft) (.inl howner)
      · exact hinv
  | checking =>
      have hheld : s.lockedBy = some .owner := hinv.ownerLock.mpr (by simp [howner, OwnerPc.holds])
      have hleft := hinv.inGet (by simp [howner, OwnerPc.inGet])
      simp only [Future.stepOwner, howner]
      split_ifs with hset
      · exact
          { hinv with
            ownerLock := by simp [hheld, OwnerPc.holds]
            waiting := by simp
            reading := fun _ => hset
            inGet := fun _ => hleft
            count := by simpa [howner] using hcount
            destroying := by simp [OwnerPc.destroys]
            destroyed := fun _ => hinv.destroyed (by simp [howner, OwnerPc.destroys]) }
      · exact
          { hinv with
            workerLock := by simpa [hheld] using hinv.workerLock
            ownerLock := by simp [OwnerPc.holds]
            waiting := fun _ => Nat.le_of_not_le (mt hinv.isSet.mpr hset)
            reading := by simp
            inGet := fun _ => hleft
            count := by simpa [howner] using hcount
            destroying := by simp [OwnerPc.destroys]
            destroyed := fun _ => hinv.destroyed (by simp [howner, OwnerPc.destroys]) }
  | waiting woken =>
      simp only [Future.stepOwner, howner]
      split_ifs with hwake
      · exact hinv.lock hwake.2 (hinv.inGet (by simp [howner, OwnerPc.inGet])) (.inr ⟨woken, howner⟩)
      · exact hinv
  | reading =>
      have hset := hinv.reading howner
      have hexited := hinv.exited hset (by simp [howner, OwnerPc.holds])
      have hvalue := hinv.value (by simp [hexited, CallPc.steps])
      simp only [Future.stepOwner, howner]
      exact
        { hinv with
          ownerLock := by simpa [howner, OwnerPc.holds] using hinv.ownerLock
          waiting := by simp
          reading := by simp
          got := fun _ => hexited
          inGet := fun _ => hinv.inGet (by simp [howner, OwnerPc.inGet])
          count := by
            rw [howner] at hcount
            simp only [List.length_append, List.length_singleton, if_true]
            simp at hcount
            omega
          destroying := by simp [OwnerPc.destroys]
          destroyed := fun _ => hinv.destroyed (by simp [howner, OwnerPc.destroys])
          results := by
            intro result hresult
            rcases List.mem_append.mp hresult with hearlier | hlast
            · exact hinv.results result hearlier
            · rw [List.mem_singleton.mp hlast, hvalue, getResult_stored] }
  | unlocking =>
      have hheld : s.lockedBy = some .owner := hinv.ownerLock.mpr (by simp [howner, OwnerPc.holds])
      have hleft := hinv.inGet (by simp [howner, OwnerPc.inGet])
      simp only [Future.stepOwner, howner]
      exact
        { hinv with
          workerLock := by simpa [hheld] using hinv.workerLock
          ownerLock := by simp [OwnerPc.holds]
          waiting := by simp
          reading := by simp
          inGet := by simp [OwnerPc.inGet]
          count := by
            rw [howner, if_pos rfl] at hcount
            simp
            omega
          destroying := by simp [OwnerPc.destroys]
          destroyed := fun _ => hinv.destroyed (by simp [howner, OwnerPc.destroys]) }
  | destroying rest =>
      have hleft := hinv.destroying (by simp [howner, OwnerPc.destroys])
      have hnext : ∀ (later destroyed : List FutureMember),
          Inv isVoid outcome gets { s with owner := .destroying later, destroyed := destroyed } := by
        intro later destroyed
        exact
          { hinv with
            ownerLock := by simpa [howner, OwnerPc.holds] using hinv.ownerLock
            waiting := by simp
            reading := by simp
            inGet := by simp [OwnerPc.inGet]
            count := by simpa [howner] using hcount
            destroying := fun _ => hleft
            destroyed := by simp [OwnerPc.destroys] }
      rw [Future.stepOwner, howner]
      split
      · contradiction
      · contradiction
      · contradiction
      · contradiction
      · contradiction
      · exact hinv
      · split_ifs
        · exact hnext _ _
        · exact hinv
      · exact hnext _ _

theorem Inv.spurious (hinv : Inv isVoid outcome gets s) :
    Inv isVoid outcome gets (s.step isVoid outcome .spurious) := by
  cases howner : s.owner with
  | waiting woken =>
      simp only [Future.step, howner]
      exact
        { hinv with
          ownerLock := by simpa [howner, OwnerPc.holds] using hinv.ownerLock
          waiting := by simp
          reading := by simp
          inGet := fun _ => hinv.inGet (by simp [howner, OwnerPc.inGet])
          count := by simpa [howner] using hinv.count
          destroying := by simp [OwnerPc.destroys]
          destroyed := fun _ => hinv.destroyed (by simp [howner, OwnerPc.destroys]) }
  | _ =>
      simp only [Future.step, howner]
      exact hinv

theorem Inv.step (hinv : Inv isVoid outcome gets s) (hgets : 0 < gets) (event : FutureEvent) :
    Inv isVoid outcome gets (s.step isVoid outcome event) := by
  cases event with
  | worker => exact hinv.stepWorker hgets
  | owner => exact hinv.stepOwner
  | spurious => exact hinv.spurious

/-! ## Every `get` can return -/

/-- How far the owner is from the end of this `get`, or of the destructor. -/
def ownerRank (s : Future τ ε) : ℕ :=
  match s.owner with
  | .idle => 7
  | .checking => if s.isSet then 3 else 5
  | .waiting woken => if woken && !s.isSet then 6 else 4
  | .reading => 2
  | .unlocking => 1
  | .destroying rest => rest.length

def rank (s : Future τ ε) : ℕ := (7 - s.worker.steps) + 8 * s.getsLeft + ownerRank s

/-- The worker moves on unless it waits for the mutex. -/
theorem rank_stepWorker_lt (hinv : Inv isVoid outcome gets s) (hgets : 0 < gets)
    (hworker : s.worker ≠ .exited) (hfree : s.worker = .locking → s.lockedBy = none) :
    rank (s.stepWorker isVoid outcome) < rank s := by
  have hnext : ∀ s' : Future τ ε, s'.worker.steps = s.worker.steps + 1 →
      s'.getsLeft = s.getsLeft → ownerRank s' ≤ ownerRank s → s.worker.steps < 7 →
      rank s' < rank s := by
    intro s' hsteps hleft howner hlate
    rw [rank, rank, hsteps, hleft]
    omega
  cases hpc : s.worker with
  | locking =>
      simp only [stepWorker, hpc, hinv.use hgets hworker, if_pos (hfree hpc)]
      exact hnext _ (by simp [hpc, CallPc.steps]) rfl le_rfl (by simp [hpc, CallPc.steps])
  | clearing =>
      simp only [stepWorker, hpc, hinv.use hgets hworker]
      exact hnext _ (by simp [hpc, CallPc.steps]) rfl le_rfl (by simp [hpc, CallPc.steps])
  | calling =>
      simp only [stepWorker, hpc]
      exact hnext _ (by simp [hpc, CallPc.steps]) rfl le_rfl (by simp [hpc, CallPc.steps])
  | assigning =>
      simp only [stepWorker, hpc, hinv.use hgets hworker]
      split <;>
        exact hnext _ (by simp [hpc, CallPc.steps]) rfl le_rfl (by simp [hpc, CallPc.steps])
  | setting =>
      have hunset : s.isSet = false := by
        rw [Bool.eq_false_iff, ne_eq, hinv.isSet, hpc]
        decide
      simp only [stepWorker, hpc, hinv.use hgets hworker]
      refine hnext _ (by simp [hpc, CallPc.steps]) rfl ?_ (by simp [hpc, CallPc.steps])
      cases howner : s.owner with
      | waiting woken => cases woken <;> simp [ownerRank, howner, hunset]
      | _ => simp [ownerRank, howner, hunset]
  | notifying =>
      have hset : s.isSet = true := hinv.isSet.mpr (by simp [hpc, CallPc.steps])
      simp only [stepWorker, hpc, hinv.use hgets hworker]
      refine hnext _ (by simp [hpc, CallPc.steps]) rfl ?_ (by simp [hpc, CallPc.steps])
      cases howner : s.owner with
      | waiting woken => simp [ownerRank, howner, notify, hset]
      | _ => simp [ownerRank, howner, notify]
  | unlocking =>
      simp only [stepWorker, hpc, hinv.use hgets hworker]
      exact hnext _ (by simp [hpc, CallPc.steps]) rfl le_rfl (by simp [hpc, CallPc.steps])
  | exited => exact absurd hpc hworker

/-- Once the worker has returned the owner finds the mutex free and the flag set. -/
theorem Inv.of_exited (hinv : Inv isVoid outcome gets s) (hexited : s.worker = .exited) :
    s.isSet = true ∧ (OwnerPc.holds s.owner = false → s.lockedBy = none) ∧
      s.owner ≠ .waiting false := by
  refine ⟨hinv.isSet.mpr (by simp [hexited, CallPc.steps]), ?_, ?_⟩
  · intro hholds
    cases hheld : s.lockedBy with
    | none => rfl
    | some thread =>
        cases thread with
        | worker =>
            have hsteps := hinv.workerLock.mp hheld
            simp [hexited, CallPc.steps] at hsteps
        | owner =>
            rw [hinv.ownerLock.mp hheld] at hholds
            cases hholds
  · intro hwaiting
    have hearly := hinv.waiting hwaiting
    simp [hexited, CallPc.steps] at hearly

theorem rank_stepOwner_lt (hinv : Inv isVoid outcome gets s) (hnot : s.owner ≠ .destroying [])
    (hmoves : OwnerPc.holds s.owner = true ∨ s.worker = .exited) :
    rank (s.stepOwner isVoid) < rank s := by
  cases howner : s.owner with
  | idle =>
      rw [howner] at hmoves
      obtain ⟨hset, hfree, _⟩ := hinv.of_exited (hmoves.resolve_left (by simp [OwnerPc.holds]))
      have hnone := hfree (by simp [howner, OwnerPc.holds])
      simp only [stepOwner, howner]
      split_ifs
      · simp [rank, ownerRank, howner, FutureMember.declared]
      · simp [rank, ownerRank, howner, hset]
  | checking =>
      simp only [stepOwner, howner]
      split_ifs with hset
      · simp [rank, ownerRank, howner, hset]
      · simp [rank, ownerRank, howner, hset]
  | waiting woken =>
      rw [howner] at hmoves
      obtain ⟨hset, hfree, hwoken⟩ := hinv.of_exited (hmoves.resolve_left (by simp [OwnerPc.holds]))
      have hnone := hfree (by simp [howner, OwnerPc.holds])
      cases woken with
      | false => exact absurd howner hwoken
      | true => simp [stepOwner, howner, hnone, rank, ownerRank, hset]
  | reading => simp [stepOwner, howner, rank, ownerRank]
  | unlocking =>
      have hleft := hinv.inGet (by simp [howner, OwnerPc.inGet])
      simp only [stepOwner, howner, rank, ownerRank]
      omega
  | destroying rest =>
      rw [howner] at hmoves hnot
      have hexited := hmoves.resolve_left (by simp [OwnerPc.holds])
      cases rest with
      | nil => exact absurd rfl hnot
      | cons member rest =>
          cases member <;> simp [stepOwner, howner, hexited, rank, ownerRank]

theorem Inv.finishes (hinv : Inv isVoid outcome gets s) (hgets : 0 < gets) :
    ∃ later, (∀ event ∈ later, event ≠ .spurious) ∧
      (run (Future.step isVoid outcome) s later).owner = .destroying [] := by
  apply exists_run_of_rank (Future.step isVoid outcome) (Inv isVoid outcome gets)
    (fun s => s.owner = .destroying []) (fun event => event ≠ .spurious) rank
  · exact fun _ event hinv _ => hinv.step hgets event
  · intro s hinv hnot
    by_cases hexited : s.worker = .exited
    · exact ⟨.owner, by simp, rank_stepOwner_lt hinv hnot (.inr hexited)⟩
    · by_cases hblocked : s.worker = .locking ∧ s.lockedBy ≠ none
      · obtain ⟨hlocking, hheld⟩ := hblocked
        have hholds : OwnerPc.holds s.owner = true := by
          rw [← hinv.ownerLock]
          obtain ⟨thread, hthread⟩ := Option.ne_none_iff_exists'.mp hheld
          cases thread with
          | worker =>
              have hsteps := hinv.workerLock.mp hthread
              simp [hlocking, CallPc.steps] at hsteps
          | owner => exact hthread
        exact ⟨.owner, by simp, rank_stepOwner_lt hinv hnot (.inl hholds)⟩
      · rw [not_and_not_right] at hblocked
        exact ⟨.worker, by simp, rank_stepWorker_lt hinv hgets hexited hblocked⟩
  · exact hinv

theorem inv_run [Inhabited τ] (isVoid : Bool) (outcome : Except ε τ) (hgets : 0 < gets)
    (events : List FutureEvent) :
    Inv isVoid outcome gets (run (step isVoid outcome) (start gets) events) :=
  run_invariant (Inv isVoid outcome gets) (start_inv isVoid outcome gets)
    (fun _ event hinv => hinv.step hgets event) events

theorem Inv.delivers (hinv : Inv isVoid outcome gets s) (hgets : 0 < gets) :
    s.Delivers isVoid outcome gets := by
  obtain ⟨later, hlater, hends⟩ := hinv.finishes hgets
  have hlast : Inv isVoid outcome gets (run (Future.step isVoid outcome) s later) :=
    run_invariant (Inv isVoid outcome gets) hinv (fun _ event hinv => hinv.step hgets event) later
  refine ⟨hinv.defined, hinv.results, later, hlater, hends, ?_⟩
  have hcount := hlast.count
  have hleft := hlast.destroying (by rw [hends]; rfl)
  rw [hleft, hends] at hcount
  simpa using hcount

/-! ## An owner that never calls `get` -/

/-- The owner destroys the members down to the mutex before the worker locks it. -/
def destroysFirst : List FutureEvent := [.owner, .owner, .owner, .owner, .owner, .worker]

theorem undefined_destroysFirst [Inhabited τ] (isVoid : Bool) (outcome : Except ε τ) :
    (run (step isVoid outcome) (start 0) destroysFirst).undefined = true := rfl

/-- The worker uses living members only and every `get` delivers, in every interleaving,
exactly when the owner calls `get` before it destroys the future. -/
theorem delivers_iff_gets [Inhabited τ] (isVoid : Bool) (outcome : Except ε τ) (gets : ℕ) :
    (∀ events, (run (step isVoid outcome) (start gets) events).Delivers isVoid outcome gets) ↔
      0 < gets := by
  constructor
  · intro hall
    by_contra hnone
    have hdefined := (hall destroysFirst).defined
    rw [Nat.eq_zero_of_not_pos hnone, undefined_destroysFirst] at hdefined
    cases hdefined
  · exact fun hgets events => (inv_run isVoid outcome hgets events).delivers hgets

theorem not_delivers_destroysFirst :
    ¬ ∀ (isVoid : Bool) (outcome : Except String ℕ) (gets : ℕ) (events : List FutureEvent),
      (run (step isVoid outcome) (start gets) events).Delivers isVoid outcome gets := by
  intro hall
  have hdefined := (hall false (.ok 1) 0 destroysFirst).defined
  rw [undefined_destroysFirst] at hdefined
  cases hdefined

end Future

end CppPlay.MultiThread
