import Mathlib.Tactic

/-!
# A pool of items and a queue of those in use

An item leaves the pool, belongs to somebody, enters the queue, belongs to
somebody again and returns to the pool.  What the two hold together is counted
by the items' keys, since their contents change on the way.
-/

namespace CppPlay.Lib

structure PooledQueue (β : Type*) where
  pool : List β
  queue : List β

namespace PooledQueue

variable {β κ : Type*}

def allocate (q : PooledQueue β) : Option (β × PooledQueue β) :=
  match q.pool with
  | [] => none
  | b :: pool => some (b, { q with pool := pool })

def delocate (q : PooledQueue β) (b : β) : PooledQueue β := { q with pool := b :: q.pool }

def produce (q : PooledQueue β) (b : β) : PooledQueue β := { q with queue := q.queue ++ [b] }

def consume (q : PooledQueue β) : Option (β × PooledQueue β) :=
  match q.queue with
  | [] => none
  | b :: queue => some (b, { q with queue := queue })

def drain (q : PooledQueue β) : PooledQueue β := ⟨q.queue.reverse ++ q.pool, []⟩

def held (key : β → κ) (q : PooledQueue β) : Multiset κ :=
  (q.pool.map key : Multiset κ) + (q.queue.map key : Multiset κ)

variable {key : β → κ} {q q' : PooledQueue β} {b : β}

theorem pool_ne_nil_of_allocate (hallocate : q.allocate = some (b, q')) : q.pool ≠ [] := by
  intro hempty
  rw [allocate, hempty] at hallocate
  exact absurd hallocate (by simp)

theorem head_of_consume (hconsume : q.consume = some (b, q')) : q.queue.head? = some b := by
  rw [consume] at hconsume
  cases hqueue : q.queue with
  | nil => simp [hqueue] at hconsume
  | cons first queue =>
      simp only [hqueue, Option.some.injEq, Prod.mk.injEq] at hconsume
      rw [hconsume.1, List.head?_cons]

theorem held_allocate (key : β → κ) (hallocate : q.allocate = some (b, q')) :
    q.held key = key b ::ₘ q'.held key := by
  rw [allocate] at hallocate
  cases hpool : q.pool with
  | nil => simp [hpool] at hallocate
  | cons first pool =>
      simp only [hpool, Option.some.injEq, Prod.mk.injEq] at hallocate
      rw [← hallocate.1, ← hallocate.2, held, held, hpool, List.map_cons,
        ← Multiset.cons_coe, Multiset.cons_add]

theorem held_consume (key : β → κ) (hconsume : q.consume = some (b, q')) :
    q.held key = key b ::ₘ q'.held key := by
  rw [consume] at hconsume
  cases hqueue : q.queue with
  | nil => simp [hqueue] at hconsume
  | cons first queue =>
      simp only [hqueue, Option.some.injEq, Prod.mk.injEq] at hconsume
      rw [← hconsume.1, ← hconsume.2, held, held, hqueue, List.map_cons,
        ← Multiset.cons_coe, Multiset.add_cons]

@[simp] theorem held_produce : (q.produce b).held key = key b ::ₘ q.held key := by
  rw [held, held, produce, List.map_append, List.map_singleton, ← Multiset.coe_add,
    Multiset.coe_singleton, ← add_assoc, add_comm, Multiset.singleton_add]

@[simp] theorem held_delocate : (q.delocate b).held key = key b ::ₘ q.held key := by
  rw [held, held, delocate, List.map_cons, ← Multiset.cons_coe, Multiset.cons_add]

@[simp] theorem held_drain : q.drain.held key = q.held key := by
  rw [held, held, drain, List.map_append, List.map_reverse, ← Multiset.coe_add,
    Multiset.coe_reverse, List.map_nil, Multiset.coe_nil, add_zero, add_comm]

end PooledQueue

/-! ## A family of queues -/

section Family

variable {ι β κ : Type*}

def heldAt (key : β → κ) (family : ι → Option (PooledQueue β)) (i : ι) : Multiset κ :=
  (family i).elim 0 (PooledQueue.held key)

theorem heldAt_update [DecidableEq ι] {key : β → κ} {family : ι → Option (PooledQueue β)}
    {i : ι} {q q' : PooledQueue β} (hq : family i = some q)
    (hsame : q'.held key = q.held key) :
    heldAt key (Function.update family i (some q')) = heldAt key family := by
  funext j
  by_cases hj : j = i
  · rw [hj, heldAt, heldAt, Function.update_self, hq, Option.elim_some, Option.elim_some, hsame]
  · rw [heldAt, heldAt, Function.update_of_ne hj]

end Family

end CppPlay.Lib
