import CppPlay.Lib.QueueClient
import CppPlay.Lib.Threads
import CppPlay.MultiThread.MpmcHistory
import Mathlib.Algebra.Order.Group.Multiset
import Mathlib.Data.List.ReduceOption

/-!
# The queue of unique pointers

`pointer_mpmc_queue.h` keeps the plain pointers of unique pointers in a queue.  Between the
queue's operation and the `release` or `reset` behind it, any other thread may go on.  An
operation of the queue is one step here, with the answer of a bounded queue, and goes the same
way with `mpmc_queue`.
-/

namespace CppPlay.MultiThread

open Lib Function

/-- The objects of some pointers, which may be null. -/
def objects (pointers : List (Option ℕ)) : Multiset ℕ := pointers.reduceOption

@[simp] theorem objects_none : objects [none] = 0 := rfl

@[simp] theorem objects_some (a : ℕ) : objects [some a] = {a} := rfl

theorem objects_append (pointers more : List (Option ℕ)) :
    objects (pointers ++ more) = objects pointers + objects more := by
  rw [objects, List.reduceOption_append, ← Multiset.coe_add]
  rfl

theorem objects_cons (p : Option ℕ) (pointers : List (Option ℕ)) :
    objects (p :: pointers) = objects [p] + objects pointers :=
  objects_append [p] pointers

/-- A `unique_ptr` with the place where the call stands that its thread makes on it. -/
inductive Handle where
  | rest (p : Option ℕ)
  -- in `push`, before `release`
  | releasing (p : Option ℕ)
  -- in `pop`, before `reset`
  | resetting (p nv : Option ℕ)
deriving DecidableEq

namespace Handle

def get : Handle → Option ℕ
  | .rest p => p
  | .releasing p => p
  | .resetting p _ => p

def IsRest : Handle → Prop
  | .rest _ => True
  | _ => False

instance : DecidablePred IsRest := fun handle =>
  match handle with
  | .rest _ => .isTrue trivial
  | .releasing _ => .isFalse id
  | .resetting _ _ => .isFalse id

/-- What it deletes, should it and what is popped into it be destroyed. -/
def owned : Handle → Multiset ℕ
  | .rest p => objects [p]
  | .releasing _ => 0
  | .resetting p nv => objects [p] + objects [nv]

end Handle

inductive QueueLife where
  | opened
  -- in the loop of the destructor
  | closing
  | destroyed
deriving DecidableEq

/-- Objects are numbered as they are made; `deleted` has one as often as it is deleted, `pushed`
and `popped` the pointers as they went through the queue. -/
structure PointerQueue (η : Type) where
  handles : η → Handle
  queue : BoundedQueue (Option ℕ)
  life : QueueLife
  next : ℕ
  deleted : Multiset ℕ
  pushed : List (Option ℕ)
  popped : List (Option ℕ)

inductive PointerEvent (η : Type) where
  | make (h : η)
  | move (h src : η)
  | drop (h : η)
  | push (h : η)
  | pop (h : η)
  -- the next step of the push or pop that stands at a handle
  | advance (h : η)
  -- the next step of the queue's destructor
  | destroy

namespace PointerQueue

variable {η : Type}

def start : PointerQueue η := ⟨fun _ => .rest none, .start, .opened, 0, 0, [], []⟩

variable [DecidableEq η]

def put (s : PointerQueue η) (h : η) (handle : Handle) : PointerQueue η :=
  { s with handles := update s.handles h handle }

/-- `unique_ptr::reset`. -/
def reset (s : PointerQueue η) (h : η) (p : Option ℕ) : PointerQueue η :=
  { s.put h (.rest p) with deleted := s.deleted + objects [(s.handles h).get] }

def push (capacity : ℕ) (s : PointerQueue η) (h : η) (p : Option ℕ) : PointerQueue η :=
  match s.queue.offer capacity p with
  | (true, queue) =>
      { s.put h (.releasing p) with queue := queue, pushed := s.pushed ++ [p] }
  | (false, _) => s

def pop (s : PointerQueue η) (h : η) (p : Option ℕ) : PointerQueue η :=
  match s.queue.take with
  | (some nv, queue) =>
      { s.put h (.resetting p nv) with queue := queue, popped := s.popped ++ [nv] }
  | (none, _) => s

def advance (s : PointerQueue η) (h : η) : PointerQueue η :=
  match s.handles h with
  | .rest _ => s
  | .releasing _ => s.put h (.rest none)
  | .resetting _ nv => s.reset h nv

/-- A round of the destructor's loop, whose `up` deletes what was popped. -/
def destroyRound (s : PointerQueue η) : PointerQueue η :=
  match s.queue.take with
  | (some nv, queue) =>
      { s with queue := queue, popped := s.popped ++ [nv], deleted := s.deleted + objects [nv] }
  | (none, _) => { s with life := .destroyed }

/-- The queue is destroyed when nobody is in a call, and called by nobody any more. -/
def step [Fintype η] (capacity : ℕ) (s : PointerQueue η) : PointerEvent η → PointerQueue η
  | .make h =>
      match s.handles h with
      | .rest _ => { s.reset h (some s.next) with next := s.next + 1 }
      | _ => s
  | .move h src =>
      match s.handles h, s.handles src with
      | .rest _, .rest p => (s.put src (.rest none)).reset h p
      | _, _ => s
  | .drop h =>
      match s.handles h with
      | .rest _ => s.reset h none
      | _ => s
  | .push h =>
      match s.life, s.handles h with
      | .opened, .rest p => s.push capacity h p
      | _, _ => s
  | .pop h =>
      match s.life, s.handles h with
      | .opened, .rest p => s.pop h p
      | _, _ => s
  | .advance h => s.advance h
  | .destroy =>
      match s.life with
      | .opened => if ∀ h, (s.handles h).IsRest then { s with life := .closing } else s
      | .closing => s.destroyRound
      | .destroyed => s

variable [Fintype η]

/-! ## The queue of the pointers -/

/-- The queue of unique pointers as it uses the plain one. -/
def client : QueueClient (PointerQueue η) (PointerEvent η) Unit (Option ℕ) where
  call s
    | .push h =>
        match s.life, s.handles h with
        | .opened, .rest p => some ((), .push p)
        | _, _ => none
    | .pop h =>
        match s.life, s.handles h with
        | .opened, .rest _ => some ((), .pop)
        | _, _ => none
    | .destroy =>
        match s.life with
        | .closing => some ((), .pop)
        | _ => none
    | _ => none
  next s
    | .push h, some p => { s.put h (.releasing p) with pushed := s.pushed ++ [p] }
    | .push _, none => s
    | .pop h, some nv =>
        { s.put h (.resetting (s.handles h).get nv) with popped := s.popped ++ [nv] }
    | .pop _, none => s
    | .destroy, some nv =>
        { s with popped := s.popped ++ [nv], deleted := s.deleted + objects [nv] }
    | .destroy, none =>
        match s.life with
        | .opened => if ∀ h, (s.handles h).IsRest then { s with life := .closing } else s
        | _ => { s with life := .destroyed }
    -- no other event touches the queue
    | event, _ => s.step 0 event

def withQueue (s : PointerQueue η × (Unit → BoundedQueue (Option ℕ))) : PointerQueue η :=
  { s.1 with queue := s.2 () }

variable {capacity : ℕ} {s : PointerQueue η} {h src : η} {p old : Option ℕ}

theorem step_withQueue (s : PointerQueue η × (Unit → BoundedQueue (Option ℕ)))
    (event : PointerEvent η) :
    (withQueue s).step capacity event = withQueue (client.atOnce capacity s event) := by
  obtain ⟨s, queues⟩ := s
  cases event with
  | make h =>
      cases hhandle : s.handles h with
      | rest =>
          simp only [step, withQueue, QueueClient.atOnce, client, hhandle]
          rfl
      | releasing | resetting => simp only [step, withQueue, QueueClient.atOnce, client, hhandle]
  | move h src =>
      cases hhandle : s.handles h with
      | rest =>
          cases hsrc : s.handles src with
          | rest =>
              simp only [step, withQueue, QueueClient.atOnce, client, hhandle, hsrc]
              rfl
          | releasing | resetting =>
              simp only [step, withQueue, QueueClient.atOnce, client, hhandle, hsrc]
      | releasing | resetting => simp only [step, withQueue, QueueClient.atOnce, client, hhandle]
  | drop h =>
      cases hhandle : s.handles h with
      | rest =>
          simp only [step, withQueue, QueueClient.atOnce, client, hhandle]
          rfl
      | releasing | resetting => simp only [step, withQueue, QueueClient.atOnce, client, hhandle]
  | advance h =>
      cases hhandle : s.handles h with
      | rest => simp only [step, advance, withQueue, QueueClient.atOnce, client, hhandle]
      | releasing | resetting =>
          simp only [step, advance, withQueue, QueueClient.atOnce, client, hhandle]
          rfl
  | push h =>
      cases hlife : s.life with
      | opened =>
          cases hhandle : s.handles h with
          | rest p =>
              by_cases hroom : (queues ()).items.length < capacity
              · simp only [step, push, put, withQueue, QueueClient.atOnce, client, hlife, hhandle,
                  BoundedQueue.serve_push_of_lt hroom, BoundedQueue.offer, if_pos hroom,
                  update_self]
              · simp only [step, push, withQueue, QueueClient.atOnce, client, hlife, hhandle,
                  BoundedQueue.serve_push_of_not_lt hroom, BoundedQueue.offer, if_neg hroom,
                  update_self]
          | releasing | resetting =>
              simp only [step, withQueue, QueueClient.atOnce, client, hlife, hhandle]
      | closing | destroyed => simp only [step, withQueue, QueueClient.atOnce, client, hlife]
  | pop h =>
      cases hlife : s.life with
      | opened =>
          cases hhandle : s.handles h with
          | rest p =>
              cases hitems : (queues ()).items with
              | nil =>
                  simp only [step, pop, withQueue, QueueClient.atOnce, client, hlife, hhandle,
                    BoundedQueue.serve_pop_of_nil hitems, BoundedQueue.take, hitems, update_self]
              | cons nv items =>
                  simp only [step, pop, put, withQueue, QueueClient.atOnce, client, hlife, hhandle,
                    BoundedQueue.serve_pop_of_cons hitems, BoundedQueue.take, hitems, update_self,
                    Handle.get]
          | releasing | resetting =>
              simp only [step, withQueue, QueueClient.atOnce, client, hlife, hhandle]
      | closing | destroyed => simp only [step, withQueue, QueueClient.atOnce, client, hlife]
  | destroy =>
      cases hlife : s.life with
      | opened =>
          simp only [step, withQueue, QueueClient.atOnce, client, hlife]
          split_ifs
          · rfl
          · rw [← hlife]
      | closing =>
          cases hitems : (queues ()).items with
          | nil =>
              simp only [step, destroyRound, withQueue, QueueClient.atOnce, client, hlife,
                BoundedQueue.serve_pop_of_nil hitems, BoundedQueue.take, hitems, update_self]
          | cons nv items =>
              simp only [step, destroyRound, withQueue, QueueClient.atOnce, client, hlife,
                BoundedQueue.serve_pop_of_cons hitems, BoundedQueue.take, hitems, update_self]
      | destroyed => simp only [step, withQueue, QueueClient.atOnce, client, hlife]

/-- A queue that answers as a bounded queue does makes the pointers go as they do above. -/
theorem run_answered {period : ℕ} {history : List (PointerEvent η × Observation (Option ℕ))}
    (hfits : RunOk client.answered client.Fits (start, fun _ => []) history)
    (hserved : ∃ q, BoundedQueue.start.replay capacity period
      ((run client.answered (start, fun _ => []) history).2 ()) = some q) :
    ∃ queues, run (step capacity) start (history.map Prod.fst) =
      withQueue ((run client.answered (start, fun _ => []) history).1, queues) := by
  obtain ⟨queues, hrun, -⟩ := QueueClient.run_answered hfits fun _ => hserved
  refine ⟨queues, ?_⟩
  rw [← hrun]
  change run (step capacity) (withQueue (start, fun _ => .start)) _ = _
  exact List.foldl_hom withQueue step_withQueue

/-- The queue of `mpmc_queue.h` answers so, whatever its threads do in between. -/
theorem run_mpmc_queue {ι : Type} [DecidableEq ι] [Zero (Option ℕ)] {c : MpmcConfig}
    (hadmitted : c.admitted = true) (hcapacity : c.capacity ≠ 0)
    {inputs : List (ι × MpmcCall (Option ℕ))}
    (hrecent : RunOk (MpmcQueue.step c) (fun s input => s.Recent c input.1)
      (MpmcQueue.start c) inputs)
    {history : List (PointerEvent η × Observation (Option ℕ))}
    (hfits : RunOk client.answered client.Fits (start, fun _ => []) history)
    (hseen : (run client.answered (start, fun _ => []) history).2 () =
      (run (MpmcQueue.step c) (MpmcQueue.start c) inputs).seen.map Prod.snd) :
    ∃ queues, run (step c.capacity) start (history.map Prod.fst) =
      withQueue ((run client.answered (start, fun _ => []) history).1, queues) := by
  have hsized := MpmcQueue.sized_of_admitted hadmitted hcapacity
  obtain ⟨q, hinv⟩ := MpmcQueue.run_inv hsized hrecent
  have hserved := hinv.legal
  rw [← hseen] at hserved
  exact run_answered hfits ⟨q, hserved⟩

/-! ## One owner for every object -/

/-- Every object that was made is deleted, in the queue or owned, and only once. -/
def Balanced (s : PointerQueue η) : Prop :=
  Multiset.range s.next =
    s.deleted + objects s.queue.items + ∑ h, (s.handles h).owned

/-- A pointer gets what was made for it or taken from another. -/
theorem balanced_reset {n : ℕ} (htaken : Multiset.range n =
      s.deleted + objects s.queue.items + objects [p] + ∑ u, (s.handles u).owned)
    (hrest : s.handles h = .rest old) : Balanced { s.reset h p with next := n } := by
  refine eq_add_sum_update Handle.owned htaken ?_
  simp only [reset, put, hrest, Handle.get, Handle.owned]
  abel

theorem Balanced.drop (hbalanced : s.Balanced) (hrest : s.handles h = .rest old) :
    (s.reset h none).Balanced := by
  refine balanced_reset ?_ hrest
  rw [objects_none, add_zero]
  exact hbalanced

theorem Balanced.make (hbalanced : s.Balanced) (hrest : s.handles h = .rest old) :
    Balanced { s.reset h (some s.next) with next := s.next + 1 } := by
  refine balanced_reset ?_ hrest
  rw [Multiset.range_succ, ← Multiset.singleton_add, objects_some, hbalanced]
  abel

theorem Balanced.move (hbalanced : s.Balanced) (hrest : s.handles h = .rest old)
    (hsrc : s.handles src = .rest p) : ((s.put src (.rest none)).reset h p).Balanced := by
  obtain ⟨old', hold'⟩ : ∃ old', (s.put src (.rest none)).handles h = .rest old' := by
    by_cases hsame : h = src
    · exact ⟨none, hsame ▸ update_self ..⟩
    · exact ⟨old, (update_of_ne hsame ..).trans hrest⟩
  refine balanced_reset (s := s.put src (.rest none)) ?_ hold'
  refine eq_add_sum_update Handle.owned hbalanced ?_
  simp only [hsrc, put, Handle.owned, objects_none]
  abel

theorem Balanced.push (hbalanced : s.Balanced) (hrest : s.handles h = .rest p) :
    (s.push capacity h p).Balanced := by
  by_cases hroom : s.queue.items.length < capacity
  · simp only [PointerQueue.push, BoundedQueue.offer, if_pos hroom]
    refine eq_add_sum_update Handle.owned hbalanced ?_
    simp only [put, hrest, Handle.owned, objects_append]
    abel
  · simp only [PointerQueue.push, BoundedQueue.offer, if_neg hroom]
    exact hbalanced

theorem Balanced.pop (hbalanced : s.Balanced) (hrest : s.handles h = .rest p) :
    (s.pop h p).Balanced := by
  unfold PointerQueue.pop BoundedQueue.take
  cases hitems : s.queue.items with
  | nil => exact hbalanced
  | cons nv items =>
      refine eq_add_sum_update Handle.owned hbalanced ?_
      simp only [put, hrest, Handle.owned, hitems, objects_cons nv items]
      abel

theorem Balanced.advance (hbalanced : s.Balanced) (h : η) : (s.advance h).Balanced := by
  unfold PointerQueue.advance
  cases hhandle : s.handles h with
  | rest p => exact hbalanced
  | releasing p =>
      refine eq_add_sum_update Handle.owned hbalanced ?_
      simp only [put, hhandle, Handle.owned, objects_none]
  | resetting p nv =>
      refine eq_add_sum_update Handle.owned hbalanced ?_
      simp only [reset, put, hhandle, Handle.get, Handle.owned]
      abel

omit [DecidableEq η] in
theorem Balanced.destroyRound (hbalanced : s.Balanced) : s.destroyRound.Balanced := by
  unfold PointerQueue.destroyRound BoundedQueue.take
  unfold Balanced at hbalanced ⊢
  cases hitems : s.queue.items with
  | nil => simpa only [hitems] using hbalanced
  | cons nv items =>
      rw [hbalanced, hitems, objects_cons]
      simp only
      abel

/-! ## What the queue keeps -/

structure Inv (capacity : ℕ) (s : PointerQueue η) : Prop where
  balanced : s.Balanced
  fifo : s.pushed = s.popped ++ s.queue.items
  length_le : s.queue.items.length ≤ capacity
  atRest : s.life ≠ .opened → ∀ h, (s.handles h).IsRest
  drained : s.life = .destroyed → s.queue.items = []

omit [DecidableEq η] in
theorem start_inv : (start : PointerQueue η).Inv capacity where
  balanced := by simp [Balanced, start, BoundedQueue.start, objects, Handle.owned]
  fifo := rfl
  length_le := Nat.zero_le _
  atRest := fun hlife => absurd rfl hlife
  drained := nofun

omit [DecidableEq η] in
/-- A move of the handles that leaves the queue alone. -/
theorem Inv.handles {s' : PointerQueue η} (hinv : s.Inv capacity) (hbalanced : s'.Balanced)
    (hpushed : s'.pushed = s.pushed) (hpopped : s'.popped = s.popped) (hqueue : s'.queue = s.queue)
    (hlife : s'.life = s.life)
    (hrest : ∀ u, (s'.handles u).IsRest ∨ s'.handles u = s.handles u) : s'.Inv capacity where
  balanced := hbalanced
  fifo := by rw [hpushed, hpopped, hqueue, hinv.fifo]
  length_le := hqueue ▸ hinv.length_le
  atRest := fun hclosed u => by
    rcases hrest u with hdone | hsame
    · exact hdone
    · rw [hsame]
      exact hinv.atRest (hlife ▸ hclosed) u
  drained := fun hdestroyed => hqueue ▸ hinv.drained (hlife ▸ hdestroyed)

omit [Fintype η] in
theorem isRest_put {handle : Handle} (hhandle : handle.IsRest) (u : η) :
    ((s.put h handle).handles u).IsRest ∨ (s.put h handle).handles u = s.handles u :=
  forall_update (P := fun u (v : Handle) => v.IsRest ∨ v = s.handles u) (Or.inl hhandle)
    (fun _ _ => Or.inr rfl) u

theorem Inv.push (hinv : s.Inv capacity) (hopened : s.life = .opened)
    (hrest : s.handles h = .rest p) : (s.push capacity h p).Inv capacity := by
  have hbalanced : (s.push capacity h p).Balanced := hinv.balanced.push hrest
  by_cases hroom : s.queue.items.length < capacity
  · simp only [PointerQueue.push, BoundedQueue.offer, if_pos hroom] at hbalanced ⊢
    refine ⟨hbalanced, ?_, ?_, fun hclosed => absurd hopened hclosed, fun hdestroyed => ?_⟩
    · simp only [put, hinv.fifo, List.append_assoc]
    · rw [List.length_append]
      exact hroom
    · exact absurd (hopened.symm.trans hdestroyed) (by simp)
  · simp only [PointerQueue.push, BoundedQueue.offer, if_neg hroom]
    exact hinv

theorem Inv.pop (hinv : s.Inv capacity) (hopened : s.life = .opened)
    (hrest : s.handles h = .rest p) : (s.pop h p).Inv capacity := by
  have hbalanced := hinv.balanced.pop hrest
  unfold PointerQueue.pop BoundedQueue.take at hbalanced ⊢
  cases hitems : s.queue.items with
  | nil => exact hinv
  | cons nv items =>
      simp only [hitems] at hbalanced ⊢
      refine ⟨hbalanced, ?_, ?_, fun hclosed => absurd hopened hclosed, fun hdestroyed => ?_⟩
      · simp only [put, hinv.fifo, hitems, List.append_assoc, List.singleton_append]
      · have hle := hinv.length_le
        rw [hitems] at hle
        exact Nat.le_of_succ_le hle
      · exact absurd (hopened.symm.trans hdestroyed) (by simp)

theorem Inv.advance (hinv : s.Inv capacity) (h : η) : (s.advance h).Inv capacity := by
  have hbalanced := hinv.balanced.advance h
  unfold PointerQueue.advance at hbalanced ⊢
  cases hhandle : s.handles h with
  | rest p => exact hinv
  | releasing p =>
      simp only [hhandle] at hbalanced ⊢
      exact hinv.handles hbalanced rfl rfl rfl rfl (isRest_put trivial)
  | resetting p nv =>
      simp only [hhandle] at hbalanced ⊢
      exact hinv.handles hbalanced rfl rfl rfl rfl (isRest_put trivial)

omit [DecidableEq η] in
theorem Inv.destroyRound (hinv : s.Inv capacity) (hclosing : s.life = .closing) :
    s.destroyRound.Inv capacity := by
  have hbalanced := hinv.balanced.destroyRound
  have hrest := hinv.atRest (by rw [hclosing]; nofun)
  unfold PointerQueue.destroyRound BoundedQueue.take at hbalanced ⊢
  cases hitems : s.queue.items with
  | nil =>
      simp only [hitems] at hbalanced ⊢
      exact ⟨hbalanced, hinv.fifo, hinv.length_le, fun _ => hrest, fun _ => hitems⟩
  | cons nv items =>
      simp only [hitems] at hbalanced ⊢
      refine ⟨hbalanced, ?_, ?_, fun _ => hrest, fun hdestroyed => ?_⟩
      · simp only [hinv.fifo, hitems, List.append_assoc, List.singleton_append]
      · have hle := hinv.length_le
        rw [hitems] at hle
        exact Nat.le_of_succ_le hle
      · exact absurd (hclosing.symm.trans hdestroyed) nofun

theorem step_inv (hinv : s.Inv capacity) (event : PointerEvent η) :
    (s.step capacity event).Inv capacity := by
  cases event with
  | make h =>
      simp only [step]
      split
      next old hrest =>
        exact hinv.handles (hinv.balanced.make hrest) rfl rfl rfl rfl (isRest_put trivial)
      next => exact hinv
  | move h src =>
      simp only [step]
      split
      next old p hrest hsrc =>
        refine hinv.handles (hinv.balanced.move hrest hsrc) rfl rfl rfl rfl fun u => ?_
        rcases @isRest_put _ _ (s.put src (.rest none)) h (.rest p) trivial u
          with hdone | hsame
        · exact Or.inl hdone
        · rcases @isRest_put _ _ s src (.rest none) trivial u with hdone | hkept
          · exact Or.inl (hsame ▸ hdone)
          · exact Or.inr (hsame.trans hkept)
      next => exact hinv
  | drop h =>
      simp only [step]
      split
      next old hrest =>
        exact hinv.handles (hinv.balanced.drop hrest) rfl rfl rfl rfl (isRest_put trivial)
      next => exact hinv
  | push h =>
      simp only [step]
      split
      next p hopened hrest =>
        exact hinv.push hopened hrest
      next => exact hinv
  | pop h =>
      simp only [step]
      split
      next p hopened hrest =>
        exact hinv.pop hopened hrest
      next => exact hinv
  | advance h => exact hinv.advance h
  | destroy =>
      simp only [step]
      split
      · split_ifs with hrest
        · exact ⟨hinv.balanced, hinv.fifo, hinv.length_le, fun _ => hrest, nofun⟩
        · exact hinv
      next hclosing =>
        exact hinv.destroyRound hclosing
      next => exact hinv

/-! ## Owners -/

omit [DecidableEq η] in
theorem Balanced.count (hbalanced : s.Balanced) (a : ℕ) :
    (if a < s.next then 1 else 0) = s.deleted.count a + (objects s.queue.items).count a +
      ∑ h, (s.handles h).owned.count a := by
  rw [← Multiset.count_sum', ← Multiset.count_add, ← Multiset.count_add, ← hbalanced,
    Multiset.count_eq_of_nodup (Multiset.nodup_range s.next)]
  simp only [Multiset.mem_range]

omit [DecidableEq η] in
theorem Balanced.count_le (hbalanced : s.Balanced) (a : ℕ) :
    s.deleted.count a + (objects s.queue.items).count a + ∑ h, (s.handles h).owned.count a ≤ 1 := by
  rw [← hbalanced.count a]
  split_ifs
  · exact le_rfl
  · exact Nat.zero_le _

theorem count_objects_pos {pointers : List (Option ℕ)} {a : ℕ} (hmem : some a ∈ pointers) :
    0 < (objects pointers).count a := by
  refine Multiset.count_pos.mpr ?_
  simpa [objects, List.reduceOption_mem_iff] using hmem

theorem Handle.count_owned_pos {handle : Handle} {a : ℕ} (hget : handle.get = some a)
    (howner : handle ≠ .releasing (some a)) : 0 < handle.owned.count a := by
  cases handle with
  | rest p => simp_all [Handle.get, Handle.owned]
  | releasing p => simp_all [Handle.get]
  | resetting p nv => simp_all [Handle.get, Handle.owned]

theorem Handle.eq_rest_of_owned {handle : Handle} {a : ℕ} (hrest : handle.IsRest)
    (howned : 0 < handle.owned.count a) : handle = .rest (some a) := by
  cases handle with
  | rest p =>
      cases p with
      | none => simp [Handle.owned] at howned
      | some b =>
          have hmem := Multiset.count_pos.mp howned
          rw [Handle.owned, objects_some, Multiset.mem_singleton] at hmem
          rw [hmem]
  | releasing p => exact hrest.elim
  | resetting p nv => exact hrest.elim

omit [DecidableEq η] in
theorem Balanced.not_mem_of_owned (hbalanced : s.Balanced) {a : ℕ}
    (howned : 0 < (s.handles h).owned.count a) : a ∉ s.deleted ∧ some a ∉ s.queue.items := by
  have hle := hbalanced.count_le a
  have hone : (s.handles h).owned.count a ≤ ∑ u, (s.handles u).owned.count a :=
    Finset.single_le_sum (f := fun u => (s.handles u).owned.count a) (fun _ _ => Nat.zero_le _)
      (Finset.mem_univ h)
  constructor
  · intro hdeleted
    have := Multiset.count_pos.mpr hdeleted
    omega
  · intro hqueued
    have := count_objects_pos hqueued
    omega

omit [DecidableEq η] in
theorem Balanced.eq_of_owned (hbalanced : s.Balanced) {u : η} {a : ℕ}
    (howned : 0 < (s.handles h).owned.count a) (howned' : 0 < (s.handles u).owned.count a) :
    h = u := by
  by_contra hne
  have hle := hbalanced.count_le a
  have htwo := Finset.add_le_sum (f := fun u => (s.handles u).owned.count a)
    (fun _ _ => Nat.zero_le _) (Finset.mem_univ h) (Finset.mem_univ u) hne
  omega

/-- No object is deleted twice or used by two, deleted or in the queue while it has an owner,
and none is lost: only a pointer that is about to be released points at another's object. -/
theorem every_object_has_one_owner (capacity : ℕ) (events : List (PointerEvent η)) :
    let s := run (step capacity) start events
    s.deleted.Nodup ∧ s.pushed = s.popped ++ s.queue.items ∧
      (∀ a, some a ∈ s.queue.items → a ∉ s.deleted) ∧
      (∀ h a, s.handles h = .rest (some a) → a ∉ s.deleted ∧ some a ∉ s.queue.items) ∧
      (∀ h u a, h ≠ u → (s.handles h).get = some a → (s.handles u).get = some a →
        s.handles h = .releasing (some a) ∨ s.handles u = .releasing (some a)) ∧
      (s.life = .destroyed → ∀ a < s.next, a ∈ s.deleted ∨ ∃! h, s.handles h = .rest (some a)) ∧
      (s.life = .destroyed → (∀ h, s.handles h = .rest none) →
        s.deleted = Multiset.range s.next) := by
  intro s
  have hinv : s.Inv capacity := run_invariant (fun s : PointerQueue η => s.Inv capacity) start_inv
    (fun _ event hinv => step_inv hinv event) events
  have hbalanced := hinv.balanced
  refine ⟨?_, hinv.fifo, ?_, ?_, ?_, ?_, ?_⟩
  · refine Multiset.nodup_iff_count_le_one.mpr fun a => ?_
    have hle := hbalanced.count_le a
    omega
  · intro a hqueued hdeleted
    have hle := hbalanced.count_le a
    have hpos := count_objects_pos hqueued
    have hpos' := Multiset.count_pos.mpr hdeleted
    omega
  · intro h a hrest
    refine hbalanced.not_mem_of_owned (h := h) (Handle.count_owned_pos ?_ ?_)
    · rw [hrest, Handle.get]
    · rw [hrest]
      nofun
  · intro h u a hne hget hget'
    by_contra hnone
    rw [not_or] at hnone
    exact hne (hbalanced.eq_of_owned (Handle.count_owned_pos hget hnone.1)
      (Handle.count_owned_pos hget' hnone.2))
  · intro hdestroyed a ha
    have hcount := hbalanced.count a
    rw [if_pos ha, hinv.drained hdestroyed] at hcount
    by_cases hdeleted : a ∈ s.deleted
    · exact Or.inl hdeleted
    · right
      have hsum : ∑ h, (s.handles h).owned.count a ≠ 0 := by
        rw [Multiset.count_eq_zero_of_notMem hdeleted] at hcount
        simp only [objects, List.reduceOption_nil, Multiset.coe_nil, Multiset.count_zero] at hcount
        omega
      obtain ⟨h, -, howned⟩ := Finset.exists_ne_zero_of_sum_ne_zero hsum
      have hrest := hinv.atRest (by rw [hdestroyed]; nofun) h
      refine ⟨h, Handle.eq_rest_of_owned hrest (Nat.pos_of_ne_zero howned), fun u hu => ?_⟩
      refine hbalanced.eq_of_owned (Handle.count_owned_pos ?_ ?_) (Nat.pos_of_ne_zero howned)
      · rw [hu, Handle.get]
      · rw [hu]
        nofun
  · intro hdestroyed hnone
    have howned : ∑ h, (s.handles h).owned = 0 :=
      Finset.sum_eq_zero fun h _ => by rw [hnone h, Handle.owned, objects_none]
    rw [hbalanced, hinv.drained hdestroyed, howned]
    simp [objects]

/-- The other thread deletes the object before the first has released it. -/
example :
    let events : List (PointerEvent (Fin 2)) :=
      [.make 0, .push 0, .pop 1, .advance 1, .drop 1, .advance 0, .destroy, .destroy]
    let s := run (step 1) start events
    s.deleted = {0} ∧ s.handles 0 = .rest none ∧ s.life = .destroyed := by
  decide

end PointerQueue

end CppPlay.MultiThread
