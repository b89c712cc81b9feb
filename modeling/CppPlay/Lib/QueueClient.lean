import CppPlay.Lib.BoundedQueue
import CppPlay.Lib.Run

/-!
# Clients of bounded queues

A client calls queues and goes on with what they answer.  Where the answers of each queue are
those of a bounded queue that serves one call after another, in the order in which they come,
the client does what it does with queues whose calls take effect at once.
-/

namespace CppPlay.Lib

open Function

inductive QueueCall (α : Type*) where
  | push (a : α)
  | pop

namespace Observation

variable {α : Type*}

/-- The item that went in or out. -/
def answer : Observation α → Option α
  | .pushed a _ => some a
  | .popped a _ => some a
  | _ => none

/-- What a call may see. -/
def Of : Observation α → QueueCall α → Prop
  | .pushed a _, .push b => a = b
  | .full, .push _ => True
  | .popped _ _, .pop => True
  | .empty, .pop => True
  | _, _ => False

end Observation

namespace BoundedQueue

variable {α : Type*} {capacity period : ℕ} {q q' : BoundedQueue α}

def serve (capacity : ℕ) (q : BoundedQueue α) : QueueCall α → Option α × BoundedQueue α
  | .push a =>
      match q.offer capacity a with
      | (true, queue) => (some a, queue)
      | (false, queue) => (none, queue)
  | .pop => q.take

theorem serve_push_of_lt (hroom : q.items.length < capacity) (a : α) :
    q.serve capacity (.push a) = (some a, { q with items := q.items ++ [a] }) := by
  rw [serve, offer, if_pos hroom]

theorem serve_push_of_not_lt (hfull : ¬ q.items.length < capacity) (a : α) :
    q.serve capacity (.push a) = (none, q) := by
  rw [serve, offer, if_neg hfull]

theorem serve_pop_of_nil (hempty : q.items = []) : q.serve capacity .pop = (none, q) := by
  rw [serve, take, hempty]

theorem serve_pop_of_cons {a : α} {items : List α} (hitems : q.items = a :: items) :
    q.serve capacity .pop = (some a, ⟨q.first + 1, items⟩) := by
  rw [serve, take, hitems]

/-- A call sees what the queue answers, and nothing else. -/
theorem serve_of_after [DecidableEq α] {o : Observation α} {call : QueueCall α}
    (hof : o.Of call) (hafter : q.after capacity period o = some q') :
    q.serve capacity call = (o.answer, q') := by
  cases call with
  | push a =>
      cases o with
      | pushed b name =>
          have hsame : b = a := hof
          rw [after, Option.ite_none_right_eq_some, Option.some.injEq] at hafter
          rw [serve_push_of_lt hafter.1.1, ← hafter.2, hsame]
          rfl
      | full =>
          rw [after, Option.ite_none_right_eq_some, Option.some.injEq] at hafter
          rw [serve_push_of_not_lt (by omega), ← hafter.2]
          rfl
      | popped | empty | front | exchanged | differs | notEmpty => exact hof.elim
  | pop =>
      cases o with
      | popped b name =>
          rw [after, Option.ite_none_right_eq_some, Option.some.injEq] at hafter
          obtain ⟨rest, hitems⟩ := List.head?_eq_some_iff.mp hafter.1.1
          rw [serve_pop_of_cons hitems, ← hafter.2, hitems]
          rfl
      | empty =>
          rw [after, Option.ite_none_right_eq_some, Option.some.injEq] at hafter
          rw [serve_pop_of_nil (List.isEmpty_iff.mp hafter.1), ← hafter.2]
          rfl
      | pushed | full | front | exchanged | differs | notEmpty => exact hof.elim

end BoundedQueue

/-- `call` is the queue that a step of the client calls, if it calls one, and `next` what the
step does once it has the answer. -/
structure QueueClient (σ ι κ α : Type*) where
  call : σ → ι → Option (κ × QueueCall α)
  next : σ → ι → Option α → σ

namespace QueueClient

variable {σ ι κ α : Type*} [DecidableEq κ] (client : QueueClient σ ι κ α)

/-- Calls that take effect at once. -/
def atOnce (capacity : ℕ) (s : σ × (κ → BoundedQueue α)) (i : ι) : σ × (κ → BoundedQueue α) :=
  match client.call s.1 i with
  | none => (client.next s.1 i none, s.2)
  | some (k, call) =>
      match (s.2 k).serve capacity call with
      | (answer, queue) => (client.next s.1 i answer, update s.2 k queue)

/-- Calls that have been answered somehow; every queue keeps what it has answered. -/
def answered (s : σ × (κ → List (Observation α))) (input : ι × Observation α) :
    σ × (κ → List (Observation α)) :=
  match client.call s.1 input.1 with
  | none => (client.next s.1 input.1 none, s.2)
  | some (k, _) =>
      (client.next s.1 input.1 input.2.answer, update s.2 k (s.2 k ++ [input.2]))

omit [DecidableEq κ] in
/-- The answer is one to the call. -/
def Fits (s : σ × (κ → List (Observation α))) (input : ι × Observation α) : Prop :=
  ∀ k call, client.call s.1 input.1 = some (k, call) → input.2.Of call

variable {capacity period : ℕ}

theorem answered_isPrefix (s : σ × (κ → List (Observation α))) (input : ι × Observation α)
    (k : κ) : s.2 k <+: (client.answered s input).2 k := by
  unfold answered
  split
  next => exact List.prefix_refl _
  next l call hcall =>
    by_cases hk : k = l
    · rw [hk]
      dsimp only
      rw [update_self]
      exact List.prefix_append _ _
    · dsimp only
      rw [update_of_ne hk]

variable {client} in
/-- The client cannot tell queues that answer as bounded queues do from bounded queues. -/
theorem run_answered [DecidableEq α] {s : σ} {history : List (ι × Observation α)}
    (hfits : RunOk client.answered client.Fits (s, fun _ => []) history)
    (hserved : ∀ k, ∃ q, BoundedQueue.start.replay capacity period
      ((run client.answered (s, fun _ => []) history).2 k) = some q) :
    ∃ queues, run (client.atOnce capacity) (s, fun _ => .start) (history.map Prod.fst) =
        ((run client.answered (s, fun _ => []) history).1, queues) ∧
      ∀ k, BoundedQueue.start.replay capacity period
        ((run client.answered (s, fun _ => []) history).2 k) = some (queues k) := by
  induction history using List.reverseRecOn with
  | nil => exact ⟨fun _ => .start, rfl, fun _ => rfl⟩
  | append_singleton history input ih =>
      obtain ⟨hbefore, hlast, -⟩ := runOk_append.mp hfits
      rw [List.map_append, List.map_singleton]
      simp only [run_append, run_cons, run_nil] at hserved ⊢
      generalize run client.answered (s, fun _ => []) history = t at hserved hlast ih ⊢
      -- what is served by the end was served before
      have hearlier : ∀ k, ∃ q, BoundedQueue.start.replay capacity period (t.2 k) = some q := by
        intro k
        obtain ⟨q, hq⟩ := hserved k
        obtain ⟨later, hlater⟩ := client.answered_isPrefix t input k
        rw [← hlater, BoundedQueue.replay_append, Option.bind_eq_some_iff] at hq
        exact ⟨hq.choose, hq.choose_spec.1⟩
      obtain ⟨queues, hrun, hqueues⟩ := ih hbefore hearlier
      rw [hrun]
      cases hcall : client.call t.1 input.1 with
      | none =>
          have hanswered : client.answered t input = (client.next t.1 input.1 none, t.2) := by
            rw [answered, hcall]
          refine ⟨queues, ?_, ?_⟩
          · rw [hanswered, atOnce, hcall]
          · rw [hanswered]
            exact hqueues
      | some called =>
          obtain ⟨k, call⟩ := called
          have hanswered : client.answered t input =
              (client.next t.1 input.1 input.2.answer, update t.2 k (t.2 k ++ [input.2])) := by
            rw [answered, hcall]
          rw [hanswered] at hserved ⊢
          obtain ⟨q, hq⟩ := hserved k
          have hafter : (queues k).after capacity period input.2 = some q := by
            dsimp only at hq
            rw [update_self, BoundedQueue.replay_concat (hqueues k)] at hq
            exact hq
          refine ⟨update queues k q, ?_, fun l => ?_⟩
          · rw [atOnce, hcall]
            dsimp only
            rw [BoundedQueue.serve_of_after (hlast k call hcall) hafter]
          · by_cases hl : l = k
            · rw [hl, update_self]
              exact hq
            · dsimp only
              rw [update_of_ne hl, update_of_ne hl]
              exact hqueues l

end QueueClient

end CppPlay.Lib
