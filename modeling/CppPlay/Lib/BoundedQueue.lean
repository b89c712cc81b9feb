import Mathlib.Tactic

/-!
# A bounded queue and what its callers see

An observation is a call of the queue with its answer.  Observations that were made
concurrently are explained by an order in which a queue that serves one call after
another gives the same answers: `replay` is that queue.  Its items are named by their
position modulo a period, as the callers of a ring name them.  Whoever finds that the item
of a name has been there may be late: the queue is empty when that item has left.
-/

namespace CppPlay.Lib

/-- The items that are in the queue, after the `first` ones that have left it. -/
structure BoundedQueue (α : Type*) where
  first : ℕ
  items : List α

inductive Observation (α : Type*) where
  | pushed (a : α) (name : ℕ)
  | full
  | popped (a : α) (name : ℕ)
  | empty
  | front (a : α)
  | exchanged (name : ℕ) (old new : α)
  | differs (name : ℕ) (old : α)
  | notEmpty (name : ℕ)
deriving DecidableEq

namespace BoundedQueue

variable {α : Type*}

def start : BoundedQueue α := ⟨0, []⟩

def next (q : BoundedQueue α) : ℕ := q.first + q.items.length

/-- Where in the queue an item of this name is. -/
def offset (period : ℕ) (q : BoundedQueue α) (name : ℕ) : ℕ :=
  (name % period + (period - q.first % period)) % period

/-- The queue after an observation, if it is what the queue answers. -/
def after [DecidableEq α] (capacity period : ℕ) (q : BoundedQueue α) :
    Observation α → Option (BoundedQueue α)
  | .pushed a name =>
      if q.items.length < capacity ∧ name % period = q.next % period then
        some { q with items := q.items ++ [a] }
      else none
  | .full => if q.items.length = capacity then some q else none
  | .popped a name =>
      if q.items.head? = some a ∧ name % period = q.first % period then
        some ⟨q.first + 1, q.items.tail⟩
      else none
  | .empty => if q.items.isEmpty then some q else none
  | .front a => if q.items.head? = some a then some q else none
  | .exchanged name old new =>
      if q.items[q.offset period name]? = some old then
        some { q with items := q.items.set (q.offset period name) new }
      else none
  | .differs name old => if q.items[q.offset period name]? = some old then none else some q
  | .notEmpty name =>
      if q.items.isEmpty ∧ name % period = q.first % period then none else some q

/-- A push, with its answer. -/
def offer (capacity : ℕ) (q : BoundedQueue α) (a : α) : Bool × BoundedQueue α :=
  if q.items.length < capacity then (true, { q with items := q.items ++ [a] }) else (false, q)

/-- A pop, with its answer. -/
def take (q : BoundedQueue α) : Option α × BoundedQueue α :=
  match q.items with
  | [] => (none, q)
  | a :: items => (some a, ⟨q.first + 1, items⟩)

section After

variable [DecidableEq α] {capacity period : ℕ} {q : BoundedQueue α}

theorem after_full (hfull : q.items.length = capacity) : q.after capacity period .full = some q :=
  if_pos hfull

theorem after_empty (hempty : q.items = []) : q.after capacity period .empty = some q :=
  if_pos (List.isEmpty_iff.mpr hempty)

theorem after_notEmpty {name : ℕ}
    (hlate : q.items = [] → name % period ≠ q.first % period) :
    q.after capacity period (.notEmpty name) = some q :=
  if_neg fun hnow => hlate (List.isEmpty_iff.mp hnow.1) hnow.2

theorem after_front {a : α} (hfront : q.items.head? = some a) :
    q.after capacity period (.front a) = some q :=
  if_pos hfront

end After

def replay [DecidableEq α] (capacity period : ℕ) (q : BoundedQueue α)
    (observations : List (Observation α)) : Option (BoundedQueue α) :=
  observations.foldlM (after capacity period) q

variable {capacity period : ℕ} {q q' : BoundedQueue α} {observations : List (Observation α)}

/-! ## Names -/

theorem offset_lt (hperiod : 0 < period) (q : BoundedQueue α) (name : ℕ) :
    q.offset period name < period :=
  Nat.mod_lt _ hperiod

theorem first_add_offset (hperiod : 0 < period) (q : BoundedQueue α) (name : ℕ) :
    (q.first + q.offset period name) % period = name % period := by
  have hlt : q.first % period < period := Nat.mod_lt _ hperiod
  have hlap : q.first % period + (name % period + (period - q.first % period)) =
      name % period + period := by omega
  rw [offset, Nat.add_mod_mod, ← Nat.mod_add_mod, hlap, Nat.add_mod_right, Nat.mod_mod]

/-- A window that is no longer than the period has at most one item of a name. -/
theorem offset_eq {name k : ℕ} (hk : k < period)
    (hname : (q.first + k) % period = name % period) : q.offset period name = k := by
  have hperiod : 0 < period := by omega
  have hsame : (q.first + q.offset period name) % period = (q.first + k) % period :=
    (first_add_offset hperiod q name).trans hname.symm
  have hmod : q.offset period name % period = k % period :=
    Nat.ModEq.add_left_cancel' q.first hsame
  rwa [Nat.mod_eq_of_lt (offset_lt hperiod q name), Nat.mod_eq_of_lt hk] at hmod

/-! ## Replays -/

section Replay

variable [DecidableEq α]

@[simp] theorem replay_nil : replay capacity period q [] = some q := rfl

@[simp] theorem replay_singleton {o : Observation α} :
    replay capacity period q [o] = q.after capacity period o := by
  simp [replay]

theorem replay_append {later : List (Observation α)} :
    replay capacity period q (observations ++ later) =
      (replay capacity period q observations).bind fun q' => replay capacity period q' later := by
  rw [replay, List.foldlM_append]
  rfl

theorem replay_concat {o : Observation α}
    (hbefore : replay capacity period q observations = some q') :
    replay capacity period q (observations ++ [o]) = q'.after capacity period o := by
  rw [replay_append, hbefore, Option.bind_some, replay_singleton]

/-- What a single observation keeps, a whole replay keeps. -/
theorem replay_induction (P : List (Observation α) → BoundedQueue α → Prop) (hstart : P [] q)
    (hstep : ∀ observations q o q', P observations q → q.after capacity period o = some q' →
      P (observations ++ [o]) q')
    (hreplay : replay capacity period q observations = some q') : P observations q' := by
  induction observations using List.reverseRecOn generalizing q' with
  | nil =>
      rw [replay_nil, Option.some.injEq] at hreplay
      rwa [← hreplay]
  | append_singleton observations o ih =>
      rw [replay_append, Option.bind_eq_some_iff] at hreplay
      obtain ⟨between, hbefore, hlast⟩ := hreplay
      rw [replay_singleton] at hlast
      exact hstep observations between o q' (ih hbefore) hlast

theorem length_le_of_after {o : Observation α} (hle : q.items.length ≤ capacity)
    (hafter : q.after capacity period o = some q') : q'.items.length ≤ capacity := by
  cases o with
  | pushed a name =>
      rw [after, Option.ite_none_right_eq_some, Option.some.injEq] at hafter
      rw [← hafter.2, List.length_append, List.length_singleton]
      exact hafter.1.1
  | popped a name =>
      rw [after, Option.ite_none_right_eq_some, Option.some.injEq] at hafter
      rw [← hafter.2, List.length_tail]
      exact (Nat.sub_le _ _).trans hle
  | exchanged name old new =>
      rw [after, Option.ite_none_right_eq_some, Option.some.injEq] at hafter
      rw [← hafter.2, List.length_set]
      exact hle
  | full | empty | front =>
      rw [after, Option.ite_none_right_eq_some, Option.some.injEq] at hafter
      rwa [← hafter.2]
  | differs | notEmpty =>
      rw [after, Option.ite_none_left_eq_some, Option.some.injEq] at hafter
      rwa [← hafter.2]

theorem length_le_of_replay (hreplay : replay capacity period start observations = some q) :
    q.items.length ≤ capacity :=
  replay_induction (fun _ q => q.items.length ≤ capacity) (Nat.zero_le _)
    (fun _ _ _ _ hle hafter => length_le_of_after hle hafter) hreplay

end Replay

/-! ## First in, first out -/

section Order

def pushes : List (Observation α) → List α :=
  List.filterMap fun
    | .pushed a _ => some a
    | _ => none

def pops : List (Observation α) → List α :=
  List.filterMap fun
    | .popped a _ => some a
    | _ => none

theorem first_eq_of_replay [DecidableEq α]
    (hreplay : replay capacity period start observations = some q) :
    q.first = (pops observations).length := by
  refine replay_induction (fun observations q => q.first = (pops observations).length) rfl ?_
    hreplay
  intro observations q o q' ih hafter
  rw [pops] at ih ⊢
  rw [List.filterMap_append, List.length_append, ← ih]
  cases o with
  | differs | notEmpty =>
      rw [after, Option.ite_none_left_eq_some, Option.some.injEq] at hafter
      rw [← hafter.2]
      simp
  | pushed | full | popped | empty | front | exchanged =>
      rw [after, Option.ite_none_right_eq_some, Option.some.injEq] at hafter
      rw [← hafter.2]
      simp

def Exchanges (observations : List (Observation α)) : Prop :=
  ∃ name old new, Observation.exchanged name old new ∈ observations

/-- Without exchanges, what was pushed is what was popped and then what is still in. -/
theorem pushes_eq_of_replay [DecidableEq α] (hfixed : ¬ Exchanges observations)
    (hreplay : replay capacity period start observations = some q) :
    pushes observations = pops observations ++ q.items := by
  refine replay_induction
    (fun observations q => ¬ Exchanges observations →
      pushes observations = pops observations ++ q.items) (fun _ => rfl) ?_ hreplay hfixed
  intro observations q o q' ih hafter hfixed
  have hbefore : ¬ Exchanges observations := fun ⟨name, old, new, hmem⟩ =>
    hfixed ⟨name, old, new, List.mem_append_left _ hmem⟩
  have heq := ih hbefore
  rw [pushes, pops] at heq ⊢
  rw [List.filterMap_append, List.filterMap_append]
  cases o with
  | pushed a name =>
      rw [after, Option.ite_none_right_eq_some, Option.some.injEq] at hafter
      rw [← hafter.2]
      simp [heq]
  | popped a name =>
      rw [after, Option.ite_none_right_eq_some, Option.some.injEq] at hafter
      rw [← hafter.2]
      obtain ⟨rest, hitems⟩ := List.head?_eq_some_iff.mp hafter.1.1
      simp [heq, hitems]
  | exchanged name old new =>
      exact absurd ⟨name, old, new, by simp⟩ hfixed
  | full | empty | front =>
      rw [after, Option.ite_none_right_eq_some, Option.some.injEq] at hafter
      rw [← hafter.2]
      simp [heq]
  | differs | notEmpty =>
      rw [after, Option.ite_none_left_eq_some, Option.some.injEq] at hafter
      rw [← hafter.2]
      simp [heq]

end Order

end BoundedQueue

end CppPlay.Lib
