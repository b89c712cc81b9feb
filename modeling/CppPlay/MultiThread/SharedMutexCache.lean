import CppPlay.Lib.Run
import CppPlay.Lib.Threads

/-!
# The cache under a shared mutex

The readers hold the mutex shared.  `update_or_add` writes the type of a lock and the name
of the mutex in parentheses, which declares a variable of that name and locks nothing.
-/

namespace CppPlay.MultiThread

open CppPlay.Lib

/-- A shared mutex, as far as its readers use it: who owns it exclusively, and that a shared
lock is given while nobody does and changes nothing of that. -/
structure SharedMutex (ι : Type) where
  Mutex : Type
  make : Mutex
  exclusive : Mutex → Option ι
  lock_shared : Mutex → ι → Option Mutex
  unlock_shared : Mutex → ι → Mutex
  exclusive_make : exclusive make = none
  lock_shared_of_free : ∀ m t, exclusive m = none →
    ∃ locked, lock_shared m t = some locked ∧ exclusive locked = none
  exclusive_unlock_shared : ∀ m t, exclusive (unlock_shared m t) = exclusive m

structure Owners (ι : Type) where
  exclusive : Option ι
  shared : Finset ι

namespace Owners

variable {ι : Type} [DecidableEq ι]

def lock_shared (m : Owners ι) (t : ι) : Option (Owners ι) :=
  if m.exclusive.isNone then some { m with shared := insert t m.shared } else none

def unlock_shared (m : Owners ι) (t : ι) : Owners ι :=
  { m with shared := m.shared.erase t }

def sharedMutex (ι : Type) [DecidableEq ι] : SharedMutex ι where
  Mutex := Owners ι
  make := ⟨none, ∅⟩
  exclusive := exclusive
  lock_shared := lock_shared
  unlock_shared := unlock_shared
  exclusive_make := rfl
  lock_shared_of_free m t hfree := by
    refine ⟨{ m with shared := insert t m.shared }, ?_, hfree⟩
    rw [lock_shared, hfree, Option.isNone_none, if_pos rfl]
  exclusive_unlock_shared _ _ := rfl

end Owners

inductive CacheCall (κ τ : Type) where
  | find (key : κ)
  | getCopy (key : κ)
  | update_or_add (key : κ) (value : τ)
  deriving DecidableEq

namespace CacheCall

variable {κ τ : Type}

def updates : CacheCall κ τ → Bool
  | .update_or_add _ _ => true
  | _ => false

def answer [Inhabited τ] (container : κ → Option τ) : CacheCall κ τ → Option τ
  | .find key => container key
  | .getCopy key => some ((container key).getD default)
  | .update_or_add _ _ => none

end CacheCall

/-- Where a thread stands: in no call, inside its map access, or before the unlock. -/
inductive CachePc (κ τ : Type) where
  | idle
  | accessing (call : CacheCall κ τ)
  | unlocking
  deriving DecidableEq

def CachePc.Within {κ τ : Type} (program : List (CacheCall κ τ)) : CachePc κ τ → Prop
  | .accessing call => call ∈ program
  | _ => True

theorem CachePc.Within.mem {κ τ : Type} {program : List (CacheCall κ τ)} {pc : CachePc κ τ}
    {call : CacheCall κ τ} (hwithin : pc.Within program) (hpc : pc = .accessing call) :
    call ∈ program := by
  rw [hpc] at hwithin
  exact hwithin

/-- The cache with the calls that its threads are still to make. -/
structure Cache {ι : Type} (mutex : SharedMutex ι) (κ τ : Type) where
  container : κ → Option τ
  entryMutex : mutex.Mutex
  pc : ι → CachePc κ τ
  calls : ι → List (CacheCall κ τ)
  answers : ι → List (Option τ)

namespace Cache

variable {ι κ τ : Type}

def start (mutex : SharedMutex ι) (programs : ι → List (CacheCall κ τ)) : Cache mutex κ τ :=
  ⟨fun _ => none, mutex.make, fun _ => .idle, programs, fun _ => []⟩

variable {mutex : SharedMutex ι}

def Accesses (s : Cache mutex κ τ) (t : ι) : Prop := ∃ call, s.pc t = .accessing call

def Modifies (s : Cache mutex κ τ) (t : ι) : Prop :=
  ∃ call, s.pc t = .accessing call ∧ call.updates = true

/-- While a thread modifies the map no other thread is inside an access. -/
def Excludes (s : Cache mutex κ τ) : Prop := ∀ t u, t ≠ u → s.Modifies t → ¬ s.Accesses u

/-- A thread that updates is the only one that makes calls. -/
def UpdatesAlone (programs : ι → List (CacheCall κ τ)) : Prop :=
  ∀ t u, t ≠ u → (∃ call ∈ programs t, call.updates = true) → programs u = []

structure Inv (programs : ι → List (CacheCall κ τ)) (s : Cache mutex κ τ) : Prop where
  exclusive : mutex.exclusive s.entryMutex = none
  pc : ∀ t, (s.pc t).Within (programs t)
  calls : ∀ t, s.calls t ⊆ programs t

theorem start_inv (programs : ι → List (CacheCall κ τ)) : (start mutex programs).Inv programs :=
  ⟨mutex.exclusive_make, fun _ => trivial, fun _ => List.Subset.refl _⟩

theorem Inv.excludes {programs : ι → List (CacheCall κ τ)} {s : Cache mutex κ τ}
    (hinv : s.Inv programs) (halone : UpdatesAlone programs) : s.Excludes := by
  intro t u hne hmodifies haccesses
  obtain ⟨call, hpc, hupdates⟩ := hmodifies
  obtain ⟨other, hother⟩ := haccesses
  have hmem := (hinv.pc u).mem hother
  rw [halone t u hne ⟨call, (hinv.pc t).mem hpc, hupdates⟩] at hmem
  cases hmem

variable [DecidableEq ι] [DecidableEq κ] [Inhabited τ]

def step (s : Cache mutex κ τ) (t : ι) : Cache mutex κ τ :=
  match s.pc t with
  | .idle =>
      match s.calls t with
      | [] => s
      | call :: later =>
          if call.updates then
            -- the declared variable hides the mutex, whose owners stay as they are
            { s with
              pc := Function.update s.pc t (.accessing call)
              calls := Function.update s.calls t later }
          else
            match mutex.lock_shared s.entryMutex t with
            | none => s
            | some locked =>
                { s with
                  entryMutex := locked
                  pc := Function.update s.pc t (.accessing call)
                  calls := Function.update s.calls t later }
  | .accessing (.update_or_add key value) =>
      { s with
        container := Function.update s.container key (some value)
        pc := Function.update s.pc t .idle }
  | .accessing call =>
      { s with
        pc := Function.update s.pc t .unlocking
        answers := Function.update s.answers t (s.answers t ++ [call.answer s.container]) }
  | .unlocking =>
      { s with
        entryMutex := mutex.unlock_shared s.entryMutex t
        pc := Function.update s.pc t .idle }

/-! ## What a thread does next -/

variable {programs : ι → List (CacheCall κ τ)} {s : Cache mutex κ τ} {t : ι} {call : CacheCall κ τ}
  {later : List (CacheCall κ τ)}

theorem step_of_done (hpc : s.pc t = .idle) (hcalls : s.calls t = []) : s.step t = s := by
  simp only [step, hpc, hcalls]

/-- Nobody ever has the mutex exclusively, so a thread that makes a call gets to the map. -/
theorem step_call (hmutex : mutex.exclusive s.entryMutex = none) (hpc : s.pc t = .idle)
    (hcalls : s.calls t = call :: later) :
    (s.step t).pc = Function.update s.pc t (.accessing call) ∧
      (s.step t).calls = Function.update s.calls t later ∧
      mutex.exclusive (s.step t).entryMutex = none := by
  cases hupdates : call.updates with
  | true =>
      simp only [step, hpc, hcalls, hupdates, if_true]
      exact ⟨trivial, trivial, hmutex⟩
  | false =>
      obtain ⟨locked, hlock, hfree⟩ := mutex.lock_shared_of_free s.entryMutex t hmutex
      simp only [step, hpc, hcalls, hupdates, Bool.false_eq_true, if_false, hlock]
      exact ⟨trivial, trivial, hfree⟩

theorem step_access (hpc : s.pc t = .accessing call) :
    (s.step t).pc = Function.update s.pc t (if call.updates then .idle else .unlocking) ∧
      (s.step t).calls = s.calls ∧ (s.step t).entryMutex = s.entryMutex := by
  cases call with
  | find key =>
      simp only [step, hpc]
      exact ⟨rfl, trivial, trivial⟩
  | getCopy key =>
      simp only [step, hpc]
      exact ⟨rfl, trivial, trivial⟩
  | update_or_add key value =>
      simp only [step, hpc]
      exact ⟨rfl, trivial, trivial⟩

theorem step_unlock (hpc : s.pc t = .unlocking) :
    (s.step t).pc = Function.update s.pc t .idle ∧ (s.step t).calls = s.calls ∧
      mutex.exclusive (s.step t).entryMutex = mutex.exclusive s.entryMutex := by
  simp only [step, hpc]
  exact ⟨trivial, trivial, mutex.exclusive_unlock_shared _ _⟩

/-! ## Threads keep to their programs -/

theorem Inv.step (hinv : s.Inv programs) (t : ι) : (s.step t).Inv programs := by
  obtain ⟨hexclusive, hwithin, hcalls⟩ := hinv
  have hmoved : ∀ pc : CachePc κ τ, pc.Within (programs t) →
      ∀ u, (Function.update s.pc t pc u).Within (programs u) :=
    fun pc hpc => forall_update (P := fun u (pc : CachePc κ τ) => pc.Within (programs u)) hpc
      fun u _ => hwithin u
  cases hpc : s.pc t with
  | idle =>
      cases hnext : s.calls t with
      | nil =>
          rw [step_of_done hpc hnext]
          exact ⟨hexclusive, hwithin, hcalls⟩
      | cons call later =>
          obtain ⟨hpcStep, hcallsStep, hmutexStep⟩ := step_call hexclusive hpc hnext
          have hsubset := hcalls t
          rw [hnext] at hsubset
          constructor
          · exact hmutexStep
          · rw [hpcStep]
            exact hmoved _ (hsubset List.mem_cons_self)
          · rw [hcallsStep]
            apply forall_update (P := fun u calls => calls ⊆ programs u)
            · exact fun other hmem => hsubset (List.mem_cons_of_mem _ hmem)
            · exact fun u _ => hcalls u
  | accessing call =>
      obtain ⟨hpcStep, hcallsStep, hmutexStep⟩ := step_access hpc
      constructor
      · rw [hmutexStep, hexclusive]
      · rw [hpcStep]
        apply hmoved
        split_ifs <;> trivial
      · rw [hcallsStep]
        exact hcalls
  | unlocking =>
      obtain ⟨hpcStep, hcallsStep, hmutexStep⟩ := step_unlock hpc
      constructor
      · rw [hmutexStep, hexclusive]
      · rw [hpcStep]
        exact hmoved _ trivial
      · rw [hcallsStep]
        exact hcalls

/-! ## A thread on its own -/

/-- Other threads stay where they are, and the mutex is not exclusively owned. -/
structure Moves (t : ι) (s : Cache mutex κ τ) (pc : CachePc κ τ) (later : List (CacheCall κ τ))
    (s' : Cache mutex κ τ) : Prop where
  pc : s'.pc = Function.update s.pc t pc
  calls : s'.calls = Function.update s.calls t later
  exclusive : mutex.exclusive s'.entryMutex = none

omit [DecidableEq κ] [Inhabited τ] in
theorem Moves.trans {s' s'' : Cache mutex κ τ} {pc pc' : CachePc κ τ}
    {later later' : List (CacheCall κ τ)} (hfirst : Moves t s pc later s')
    (hsecond : Moves t s' pc' later' s'') : Moves t s pc' later' s'' := by
  constructor
  · rw [hsecond.pc, hfirst.pc, Function.update_idem]
  · rw [hsecond.calls, hfirst.calls, Function.update_idem]
  · exact hsecond.exclusive

theorem moves_call (hmutex : mutex.exclusive s.entryMutex = none) (hpc : s.pc t = .idle)
    (hcalls : s.calls t = call :: later) : Moves t s (.accessing call) later (s.step t) := by
  obtain ⟨hpcStep, hcallsStep, hmutexStep⟩ := step_call hmutex hpc hcalls
  exact ⟨hpcStep, hcallsStep, hmutexStep⟩

/-- From inside its access a thread comes to the end of its call. -/
theorem exists_moves_idle (hmutex : mutex.exclusive s.entryMutex = none)
    (hpc : s.pc t = .accessing call) :
    ∃ schedule, Moves t s .idle (s.calls t) (run step s schedule) := by
  obtain ⟨hpcStep, hcallsStep, hmutexStep⟩ := step_access hpc
  cases hupdates : call.updates with
  | true =>
      rw [hupdates, if_pos rfl] at hpcStep
      refine ⟨[t], hpcStep, ?_, hmutexStep ▸ hmutex⟩
      rw [run_cons, run_nil, hcallsStep, Function.update_eq_self]
  | false =>
      rw [hupdates, if_neg Bool.false_ne_true] at hpcStep
      have hunlocking : (s.step t).pc t = .unlocking := by
        rw [hpcStep, Function.update_self]
      obtain ⟨hpcLast, hcallsLast, hmutexLast⟩ := step_unlock hunlocking
      refine ⟨[t, t], ?_, ?_, ?_⟩
      · rw [run_cons, run_cons, run_nil, hpcLast, hpcStep, Function.update_idem]
      · rw [run_cons, run_cons, run_nil, hcallsLast, hcallsStep, Function.update_eq_self]
      · rw [run_cons, run_cons, run_nil, hmutexLast, hmutexStep, hmutex]

theorem exists_moves_accessing (earlier : List (CacheCall κ τ))
    (hmutex : mutex.exclusive s.entryMutex = none) (hpc : s.pc t = .idle)
    (hcalls : s.calls t = earlier ++ call :: later) :
    ∃ schedule, Moves t s (.accessing call) later (run step s schedule) := by
  induction earlier generalizing s with
  | nil => exact ⟨[t], moves_call hmutex hpc hcalls⟩
  | cons first earlier ih =>
      have hcall := moves_call hmutex hpc hcalls
      have hfirst : (s.step t).pc t = .accessing first := by
        rw [hcall.pc, Function.update_self]
      obtain ⟨schedule, hidle⟩ := exists_moves_idle hcall.exclusive hfirst
      have hdone := hcall.trans hidle
      have hnext : (run step (s.step t) schedule).pc t = .idle := by
        rw [hdone.pc, Function.update_self]
      have hrest : (run step (s.step t) schedule).calls t = earlier ++ call :: later := by
        rw [hdone.calls, Function.update_self, hcall.calls, Function.update_self]
        rfl
      obtain ⟨rest, haccessing⟩ := ih hdone.exclusive hnext hrest
      refine ⟨t :: (schedule ++ rest), ?_⟩
      rw [run_cons, run_append]
      exact hdone.trans haccessing

/-- A thread in an update leaves the map open to the first call of another. -/
theorem exists_not_excludes {u : ι} (hne : t ≠ u) (hmem : call ∈ programs t)
    (hupdates : call.updates = true) (hother : programs u ≠ []) :
    ∃ schedule : List ι, ¬ (run step (start mutex programs) schedule).Excludes := by
  obtain ⟨earlier, later, hprogram⟩ := List.append_of_mem hmem
  obtain ⟨first, rest, hfirst⟩ := List.exists_cons_of_ne_nil hother
  obtain ⟨schedule, hmoves⟩ := exists_moves_accessing earlier
    (s := start mutex programs) mutex.exclusive_make rfl hprogram
  have hidle : (run step (start mutex programs) schedule).pc u = .idle := by
    rw [hmoves.pc, Function.update_of_ne hne.symm]
    rfl
  have hcalls : (run step (start mutex programs) schedule).calls u = first :: rest := by
    rw [hmoves.calls, Function.update_of_ne hne.symm]
    exact hfirst
  have hcall := moves_call hmoves.exclusive hidle hcalls
  refine ⟨schedule ++ [u], fun hexcludes => ?_⟩
  rw [run_append, run_cons, run_nil] at hexcludes
  apply hexcludes t u hne
  · refine ⟨call, ?_, hupdates⟩
    rw [hcall.pc, Function.update_of_ne hne, hmoves.pc, Function.update_self]
  · exact ⟨first, by rw [hcall.pc, Function.update_self]⟩

/-- No interleaving lets a thread into the map during an update exactly when a thread that
updates is the only one with calls. -/
theorem excludes_iff_updatesAlone (mutex : SharedMutex ι) (programs : ι → List (CacheCall κ τ)) :
    (∀ schedule, (run step (start mutex programs) schedule).Excludes) ↔ UpdatesAlone programs := by
  constructor
  · intro hall t u hne hupdate
    obtain ⟨call, hmem, hupdates⟩ := hupdate
    by_contra hother
    obtain ⟨schedule, hnot⟩ := exists_not_excludes hne hmem hupdates hother
    exact hnot (hall schedule)
  · intro halone schedule
    have hinv : (run step (start mutex programs) schedule).Inv programs :=
      run_invariant (Inv programs) (start_inv programs) (fun _ t hinv => hinv.step t) schedule
    exact hinv.excludes halone

def oneUpdate : Bool → List (CacheCall ℕ ℕ)
  | true => [.update_or_add 1 5, .find 1]
  | false => []

theorem excludes_oneUpdate :
    ∀ schedule, (run step (start (Owners.sharedMutex Bool) oneUpdate) schedule).Excludes := by
  rw [excludes_iff_updatesAlone (Owners.sharedMutex Bool) oneUpdate]
  intro t u hne hupdate
  cases u with
  | false => rfl
  | true =>
      have ht : t = false := Bool.eq_false_iff.mpr hne
      rw [ht] at hupdate
      simp [oneUpdate] at hupdate

/-- One thread reads a key while the other writes it. -/
def readerAndWriter : Bool → List (CacheCall ℕ ℕ)
  | true => [.update_or_add 1 5]
  | false => [.find 1]

theorem not_excludes_readerAndWriter :
    ¬ ∀ (programs : Bool → List (CacheCall ℕ ℕ)) (schedule : List Bool),
      (run step (start (Owners.sharedMutex Bool) programs) schedule).Excludes := by
  intro hall
  apply hall readerAndWriter [true, false] true false (by decide)
  · exact ⟨.update_or_add 1 5, by decide, rfl⟩
  · exact ⟨.find 1, by decide⟩

end Cache

end CppPlay.MultiThread
