import CppPlay.Lib.Run
import CppPlay.Lib.Threads

/-!
# Actors that answer

A worker runs the task of a message and answers the sender.  The same `try` covers the task and
`_onOK`, so that the answer tells how both of them ended, and the answer needs
`shared_from_this`, which throws once nobody owns the actor.
-/

namespace CppPlay.MultiThread

open CppPlay.Lib

inductive MsgId where
  | TASK
  | OK_STATUS
  | ER1_STATUS
  | ER2_STATUS
  deriving DecidableEq

structure Message (φ : Type) where
  task : Option φ := none
  onOK : Option φ := none
  onOkResponse : Option φ := none
  onErrorResponse : Option φ := none
  id : MsgId := .TASK
  deriving DecidableEq

namespace Message

variable {φ : Type}

/-- A call of a `std::function` returns; that of an empty one throws. -/
def returns (behaves : φ → Bool) (function : Option φ) : Bool := function.any behaves

def respond (behaves : φ → Bool) (msg : Message φ) : Message φ :=
  if returns behaves msg.task then
    let response : Message φ := { id := .OK_STATUS, onOkResponse := msg.onOkResponse }
    if returns behaves msg.onOK then response
    else { response with id := .ER1_STATUS, onErrorResponse := msg.onErrorResponse }
  else { id := .ER1_STATUS, onErrorResponse := msg.onErrorResponse }

structure Answers (behaves : φ → Bool) (msg response : Message φ) : Prop where
  ok : response.id = .OK_STATUS ∧ response.onOkResponse = msg.onOkResponse ↔
    returns behaves msg.task = true
  error : returns behaves msg.task = false →
    response.id = .ER1_STATUS ∧ response.onErrorResponse = msg.onErrorResponse

theorem respond_answers_iff (behaves : φ → Bool) (msg : Message φ) :
    Answers behaves msg (respond behaves msg) ↔
      (returns behaves msg.task = true → returns behaves msg.onOK = true) := by
  cases htask : returns behaves msg.task with
  | false =>
      have hrespond : respond behaves msg =
          { id := .ER1_STATUS, onErrorResponse := msg.onErrorResponse } := by
        rw [respond, if_neg (by rw [htask]; exact Bool.false_ne_true)]
      rw [hrespond]
      refine ⟨fun _ hreturns => absurd hreturns Bool.false_ne_true, fun _ => ⟨?_, ?_⟩⟩
      · simp [htask]
      · exact fun _ => ⟨rfl, rfl⟩
  | true =>
      cases honOK : returns behaves msg.onOK with
      | false =>
          constructor
          · intro hanswers
            have hok := (hanswers.ok.mpr htask).1
            rw [respond, if_pos htask, if_neg (by rw [honOK]; exact Bool.false_ne_true)] at hok
            cases hok
          · exact fun hreturns => absurd (hreturns rfl) Bool.false_ne_true
      | true =>
          refine ⟨fun _ _ => rfl, fun _ => ⟨?_, ?_⟩⟩
          · rw [respond, if_pos htask, if_pos honOK]
            exact ⟨fun _ => htask, fun _ => ⟨rfl, rfl⟩⟩
          · intro hthrows
            rw [htask] at hthrows
            cases hthrows

end Message

/-! ## The actors and their queues -/

inductive ActorEvent (ι φ : Type) where
  | submit (sender : Option ι) (receiver : ι) (msg : Message φ)
  | release (a : ι)
  | pull (a : ι)
  | process (a : ι) (behaves : φ → Bool)

/-- The queue of each actor, what its worker has pulled, and whether anybody outside the queues
owns it. -/
structure Actors (ι φ : Type) where
  queue : ι → List (Option ι × Message φ)
  pulled : ι → Option (Option ι × Message φ)
  owned : ι → Bool

namespace Actors

variable {ι φ : Type} [DecidableEq ι] [Fintype ι]

def start : Actors ι φ := ⟨fun _ => [], fun _ => none, fun _ => true⟩

/-- `shared_from_this` does not throw: the actor is owned from outside or by a message that names
it as its sender. -/
def hasOwner (s : Actors ι φ) (a : ι) : Bool :=
  s.owned a || decide (∃ b, some a ∈ ((s.pulled b).toList ++ s.queue b).map Prod.fst)

def push (s : Actors ι φ) (receiver : ι) (element : Option ι × Message φ) : Actors ι φ :=
  { s with queue := Function.update s.queue receiver (s.queue receiver ++ [element]) }

/-- The outer `catch` swallows what the handlers and `shared_from_this` throw. -/
def process (s : Actors ι φ) (a : ι) (sender : Option ι) (msg : Message φ) (behaves : φ → Bool) :
    Actors ι φ :=
  match msg.id, sender with
  | .TASK, some sender =>
      if s.hasOwner a then s.push sender (some a, msg.respond behaves) else s
  | _, _ => s

def step (s : Actors ι φ) : ActorEvent ι φ → Actors ι φ
  | .submit sender receiver msg =>
      if s.owned receiver && sender.all s.owned then s.push receiver (sender, msg) else s
  | .release a => { s with owned := Function.update s.owned a false }
  | .pull a =>
      match s.pulled a, s.queue a with
      | none, element :: elements =>
          { s with
            queue := Function.update s.queue a elements
            pulled := Function.update s.pulled a (some element) }
      | _, _ => s
  | .process a behaves =>
      match s.pulled a with
      | none => s
      | some (sender, msg) =>
          let processed := s.process a sender msg behaves
          { processed with pulled := Function.update processed.pulled a none }

def RespondsOnce (s : Actors ι φ) (a sender : ι) (msg : Message φ) (behaves : φ → Bool) : Prop :=
  ∃ response, msg.Answers behaves response ∧
    (s.step (.process a behaves)).queue =
      Function.update s.queue sender (s.queue sender ++ [(some a, response)])

theorem queue_process {s : Actors ι φ} {a sender : ι} {msg : Message φ} (behaves : φ → Bool)
    (hpulled : s.pulled a = some (some sender, msg)) (htask : msg.id = .TASK) :
    (s.step (.process a behaves)).queue =
      if s.hasOwner a then
        Function.update s.queue sender (s.queue sender ++ [(some a, msg.respond behaves)])
      else s.queue := by
  rw [step, hpulled]
  simp only [process, htask]
  split_ifs <;> rfl

theorem respondsOnce_iff {s : Actors ι φ} {a sender : ι} {msg : Message φ} (behaves : φ → Bool)
    (hpulled : s.pulled a = some (some sender, msg)) (htask : msg.id = .TASK) :
    s.RespondsOnce a sender msg behaves ↔
      s.hasOwner a = true ∧
        (Message.returns behaves msg.task = true → Message.returns behaves msg.onOK = true) := by
  have hqueue := queue_process behaves hpulled htask
  constructor
  · intro hresponds
    obtain ⟨response, hanswers, happended⟩ := hresponds
    rw [hqueue] at happended
    have hsender := congrFun happended sender
    rw [Function.update_self] at hsender
    by_cases howner : s.hasOwner a = true
    · rw [if_pos howner, Function.update_self] at hsender
      have hsame : msg.respond behaves = response :=
        congrArg Prod.snd (List.singleton_inj.mp (List.append_cancel_left hsender))
      rw [← hsame] at hanswers
      exact ⟨howner, (Message.respond_answers_iff behaves msg).mp hanswers⟩
    · rw [if_neg howner] at hsender
      simp at hsender
  · intro hcondition
    refine ⟨msg.respond behaves, (Message.respond_answers_iff behaves msg).mpr hcondition.2, ?_⟩
    rw [hqueue, if_pos hcondition.1]

/-- In a run every task from a sender is answered exactly once exactly when the actors that process
them are still owned and `_onOK` returns wherever the task has. -/
theorem always_respondsOnce_iff (events : List (ActorEvent ι φ)) :
    (∀ earlier a behaves later sender msg, events = earlier ++ .process a behaves :: later →
        (run step start earlier).pulled a = some (some sender, msg) → msg.id = .TASK →
        (run step start earlier).RespondsOnce a sender msg behaves) ↔
      ∀ earlier a behaves later sender msg, events = earlier ++ .process a behaves :: later →
        (run step start earlier).pulled a = some (some sender, msg) → msg.id = .TASK →
        (run step start earlier).hasOwner a = true ∧
          (Message.returns behaves msg.task = true →
            Message.returns behaves msg.onOK = true) := by
  constructor
  · intro hclaim earlier a behaves later sender msg hsplit hpulled htask
    exact (respondsOnce_iff behaves hpulled htask).mp
      (hclaim earlier a behaves later sender msg hsplit hpulled htask)
  · intro hcondition earlier a behaves later sender msg hsplit hpulled htask
    exact (respondsOnce_iff behaves hpulled htask).mpr
      (hcondition earlier a behaves later sender msg hsplit hpulled htask)

theorem not_always_respondsOnce :
    ¬ ∀ (events : List (ActorEvent Bool Unit)) (a sender : Bool) (msg : Message Unit)
        (behaves : Unit → Bool),
      (run step start events).pulled a = some (some sender, msg) → msg.id = .TASK →
      (run step start events).RespondsOnce a sender msg behaves := by
  intro hclaim
  let msg : Message Unit := { task := some () }
  have hresponds := hclaim [.submit (some false) true msg, .pull true] true false msg
    (fun _ => true) rfl rfl
  have honOK := ((respondsOnce_iff (fun _ => true) rfl rfl).mp hresponds).2 rfl
  exact Bool.false_ne_true honOK

end Actors

end CppPlay.MultiThread
