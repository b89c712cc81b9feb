import CppPlay.Lib.QueueClient
import CppPlay.Lib.RoundRobin
import CppPlay.Lib.Threads
import CppPlay.MultiThread.MpmcHistory

/-!
# The pack of queues of `mpmc_queue_pack.h`

A pack is a ring of `G` queues.  A producer keeps to one of them; a consumer stays at one for
`K` pops, and goes round from one that it finds empty.  A push or a pop of a queue is one step
here, with the answer of a bounded queue; queues that serve their callers as `mpmc_queue` does
make the pack do the same.
-/

namespace CppPlay.MultiThread

namespace MpmcQueuePack

open Lib Function

/-! ## Pack, producers and consumers -/

/-- A queue has room for `size` items. -/
structure Params where
  G : ℕ
  K : ℕ
  size : ℕ
  G_pos : 0 < G

namespace Params

variable (params : Params)

/-- The queue of the producer or consumer that found `count` in the pack's counter. -/
def queueIndex (count : ℕ) : ℕ := count % 2 ^ 64 % params.G

def next (i : ℕ) : ℕ := (i + 1) % params.G

/-- `++_pop_count` reaches this before it reaches `K`, should `K` be zero. -/
def stay : ℕ := max params.K 1

/-- The item that a `pop` finds behind an empty queue does not count for `_pop_count`. -/
def uncounted : ℕ := min (params.G - 1) 1

end Params

/-- `k` is that of the loop of a running `pop`, and zero outside. -/
structure Consumer where
  readQueueIndex : ℕ
  popCount : ℕ
  k : ℕ

namespace Consumer

variable (params : Params)

def make (count : ℕ) : Consumer := ⟨params.queueIndex count, 0, 0⟩

/-- The loop goes on to the next queue before it looks at it. -/
def aim (consumer : Consumer) : Consumer :=
  if consumer.k = 0 then consumer
  else { consumer with readQueueIndex := params.next consumer.readQueueIndex }

/-- The queue gave an item, which `pop` returns. -/
def found (consumer : Consumer) : Consumer :=
  if consumer.k = 0 then
    if params.K ≤ consumer.popCount + 1 then
      { consumer with popCount := 0, readQueueIndex := params.next consumer.readQueueIndex }
    else { consumer with popCount := consumer.popCount + 1 }
  else { consumer with k := 0 }

/-- The queue was empty; `pop` returns false where the loop ends. -/
def notFound (consumer : Consumer) : Consumer :=
  { consumer with
    popCount := if consumer.k = 0 then 0 else consumer.popCount
    k := if consumer.k + 1 < params.G then consumer.k + 1 else 0 }

end Consumer

/-- What a consumer has seen: `since` are the items it got since it last looked at a queue,
`empty` the queues that the running `pop` found empty, and `failed` those of the calls of `pop`
that have returned false. -/
structure Seen where
  since : ℕ → ℕ
  empty : List ℕ
  failed : List (List ℕ)

namespace Seen

variable (params : Params)

def found (seen : Seen) (i : ℕ) : Seen := ⟨RoundRobin.served seen.since i, [], seen.failed⟩

def notFound (seen : Seen) (consumer : Consumer) : Seen :=
  let since := RoundRobin.looked seen.since consumer.readQueueIndex
  let empty := seen.empty ++ [consumer.readQueueIndex]
  if consumer.k + 1 < params.G then ⟨since, empty, seen.failed⟩
  else ⟨since, [], seen.failed ++ [empty]⟩

end Seen

/-- An item is a value with the producer that pushed it; `pops` has the consumer as well. -/
structure Pack (α : Type*) where
  queues : ℕ → BoundedQueue (ℕ × α)
  consumers : ℕ → Consumer
  pushes : List (ℕ × α)
  pops : List (ℕ × ℕ × α)
  seen : ℕ → Seen

/-- The next push of a producer, or the next look of a consumer at a queue. -/
inductive Step (α : Type*) where
  | push (p : ℕ) (value : α)
  | pop (c : ℕ)

namespace Pack

variable {α : Type*} (params : Params)

def start : Pack α :=
  ⟨fun _ => .start, Consumer.make params, [], [], fun _ => ⟨fun _ => 0, [], []⟩⟩

def push (s : Pack α) (p : ℕ) (value : α) : Pack α :=
  let i := params.queueIndex p
  match (s.queues i).offer params.size (p, value) with
  | (true, queue) =>
      { s with queues := update s.queues i queue, pushes := s.pushes ++ [(p, value)] }
  | (false, _) => s

def pop (s : Pack α) (c : ℕ) : Pack α :=
  let consumer := (s.consumers c).aim params
  let i := consumer.readQueueIndex
  match (s.queues i).take with
  | (some item, queue) =>
      { s with
        queues := update s.queues i queue
        consumers := update s.consumers c (consumer.found params)
        pops := s.pops ++ [(c, item)]
        seen := update s.seen c ((s.seen c).found i) }
  | (none, _) =>
      { s with
        consumers := update s.consumers c (consumer.notFound params)
        seen := update s.seen c ((s.seen c).notFound params consumer) }

def step (s : Pack α) : Step α → Pack α
  | .push p value => s.push params p value
  | .pop c => s.pop params c

variable {params} {s : Pack α} {p c : ℕ} {value : α}

theorem push_of_room (hroom : (s.queues (params.queueIndex p)).items.length < params.size) :
    s.push params p value =
      { s with
        queues := update s.queues (params.queueIndex p)
          { s.queues (params.queueIndex p) with
            items := (s.queues (params.queueIndex p)).items ++ [(p, value)] }
        pushes := s.pushes ++ [(p, value)] } := by
  simp only [push, BoundedQueue.offer, if_pos hroom]

theorem push_of_full (hfull : ¬ (s.queues (params.queueIndex p)).items.length < params.size) :
    s.push params p value = s := by
  simp only [push, BoundedQueue.offer, if_neg hfull]

theorem pop_of_cons {consumer : Consumer} {item : ℕ × α} {items : List (ℕ × α)}
    (haim : (s.consumers c).aim params = consumer)
    (hitems : (s.queues consumer.readQueueIndex).items = item :: items) :
    s.pop params c =
      { s with
        queues := update s.queues consumer.readQueueIndex
          ⟨(s.queues consumer.readQueueIndex).first + 1, items⟩
        consumers := update s.consumers c (consumer.found params)
        pops := s.pops ++ [(c, item)]
        seen := update s.seen c ((s.seen c).found consumer.readQueueIndex) } := by
  simp only [pop, haim, BoundedQueue.take, hitems]

theorem pop_of_nil {consumer : Consumer} (haim : (s.consumers c).aim params = consumer)
    (hitems : (s.queues consumer.readQueueIndex).items = []) :
    s.pop params c =
      { s with
        consumers := update s.consumers c (consumer.notFound params)
        seen := update s.seen c ((s.seen c).notFound params consumer) } := by
  simp only [pop, haim, BoundedQueue.take, hitems]

/-! ## The queues of the pack -/

variable (params) in
/-- The pack as it uses its queues, which may be of any type `Q`. -/
def client : QueueClient (Pack α) (Step α) ℕ (ℕ × α) where
  call s
    | .push p value => some (params.queueIndex p, .push (p, value))
    | .pop c => some (((s.consumers c).aim params).readQueueIndex, .pop)
  next s
    | .push p value, some _ => { s with pushes := s.pushes ++ [(p, value)] }
    | .push _ _, none => s
    | .pop c, some item =>
        let consumer := (s.consumers c).aim params
        { s with
          consumers := update s.consumers c (consumer.found params)
          pops := s.pops ++ [(c, item)]
          seen := update s.seen c ((s.seen c).found consumer.readQueueIndex) }
    | .pop c, none =>
        let consumer := (s.consumers c).aim params
        { s with
          consumers := update s.consumers c (consumer.notFound params)
          seen := update s.seen c ((s.seen c).notFound params consumer) }

def withQueues (s : Pack α × (ℕ → BoundedQueue (ℕ × α))) : Pack α := { s.1 with queues := s.2 }

theorem step_withQueues (s : Pack α × (ℕ → BoundedQueue (ℕ × α))) (next : Step α) :
    (withQueues s).step params next = withQueues ((client params).atOnce params.size s next) := by
  obtain ⟨s, queues⟩ := s
  cases next with
  | push p value =>
      rw [step]
      by_cases hroom : (queues (params.queueIndex p)).items.length < params.size
      · rw [push_of_room hroom, QueueClient.atOnce]
        simp only [client, BoundedQueue.serve_push_of_lt hroom, withQueues]
      · rw [push_of_full hroom, QueueClient.atOnce]
        simp only [client, BoundedQueue.serve_push_of_not_lt hroom, withQueues, update_eq_self]
  | pop c =>
      rw [step]
      cases hitems : (queues ((s.consumers c).aim params).readQueueIndex).items with
      | nil =>
          rw [pop_of_nil rfl hitems, QueueClient.atOnce]
          simp only [client, BoundedQueue.serve_pop_of_nil hitems, withQueues, update_eq_self]
      | cons item items =>
          rw [pop_of_cons rfl hitems, QueueClient.atOnce]
          simp only [client, BoundedQueue.serve_pop_of_cons hitems, withQueues]

/-- Queues that answer as bounded queues do make the pack go as it does above. -/
theorem run_answered [DecidableEq α] {period : ℕ}
    {history : List (Step α × Observation (ℕ × α))}
    (hfits : RunOk (client params).answered (client params).Fits (start params, fun _ => []) history)
    (hserved : ∀ i, ∃ q, BoundedQueue.start.replay params.size period
      ((run (client params).answered (start params, fun _ => []) history).2 i) = some q) :
    ∃ queues, run (step params) (start params) (history.map Prod.fst) =
      withQueues ((run (client params).answered (start params, fun _ => []) history).1, queues) := by
  obtain ⟨queues, hrun, -⟩ := QueueClient.run_answered hfits hserved
  refine ⟨queues, ?_⟩
  rw [← hrun]
  change run (step params) (withQueues (start params, fun _ => .start)) _ = _
  exact List.foldl_hom withQueues step_withQueues

/-- The queues of `mpmc_queue.h` answer so, whatever their threads do in between. -/
theorem run_mpmc_queues {β ι : Type} [DecidableEq β] [Zero β] [DecidableEq ι] {c : MpmcConfig}
    (hadmitted : c.admitted = true) (hpos : 0 < params.size) (hsize : c.capacity = params.size)
    {inputs : ℕ → List (ι × MpmcCall (ℕ × β))}
    (hrecent : ∀ i, RunOk (MpmcQueue.step c) (fun s input => s.Recent c input.1)
      (MpmcQueue.start c) (inputs i))
    {history : List (Step β × Observation (ℕ × β))}
    (hfits : RunOk (client params).answered (client params).Fits (start params, fun _ => []) history)
    (hseen : ∀ i, (run (client params).answered (start params, fun _ => []) history).2 i =
      (run (MpmcQueue.step c) (MpmcQueue.start c) (inputs i)).seen.map Prod.snd) :
    ∃ queues, run (step params) (start params) (history.map Prod.fst) =
      withQueues ((run (client params).answered (start params, fun _ => []) history).1, queues) := by
  have hsized := MpmcQueue.sized_of_admitted hadmitted (by omega)
  have hserved : ∀ i, ∃ q, BoundedQueue.start.replay params.size c.period
      ((run (client params).answered (start params, fun _ => []) history).2 i) = some q := by
    intro i
    obtain ⟨q, hinv⟩ := MpmcQueue.run_inv hsized (hrecent i)
    rw [hseen i, ← hsize]
    exact ⟨q, hinv.legal⟩
  exact run_answered hfits hserved

/-! ## What went through the pack -/

/-- What was pushed at a queue is what was popped off it and then what is in it. -/
structure InOrder (params : Params) (s : Pack α) : Prop where
  queue : ∀ i, s.pushes.filter (fun item => params.queueIndex item.1 = i) =
    (s.pops.map Prod.snd).filter (fun item => params.queueIndex item.1 = i) ++ (s.queues i).items
  length_le : ∀ i, (s.queues i).items.length ≤ params.size

theorem start_inOrder : (start params : Pack α).InOrder params :=
  ⟨fun _ => rfl, fun _ => Nat.zero_le _⟩

/-- The items that are in a queue are of the producers that have this queue. -/
theorem InOrder.queueIndex_of_mem (hinv : s.InOrder params) {i : ℕ} {item : ℕ × α}
    (hitem : item ∈ (s.queues i).items) : params.queueIndex item.1 = i := by
  have hpushed : item ∈ s.pushes.filter fun item => params.queueIndex item.1 = i := by
    rw [hinv.queue i]
    exact List.mem_append_right _ hitem
  simpa using (List.mem_filter.mp hpushed).2

theorem InOrder.producer (hinv : s.InOrder params) (p : ℕ) :
    s.pushes.filter (fun item => item.1 = p) =
      (s.pops.map Prod.snd).filter (fun item => item.1 = p) ++
        (s.queues (params.queueIndex p)).items.filter fun item => item.1 = p := by
  have hpart : ∀ items : List (ℕ × α), items.filter (fun item => item.1 = p) =
      (items.filter fun item => params.queueIndex item.1 = params.queueIndex p).filter
        fun item => item.1 = p := by
    intro items
    rw [List.filter_filter]
    refine List.filter_congr fun item _ => ?_
    by_cases hitem : item.1 = p
    · simp [hitem]
    · simp [hitem]
  rw [hpart s.pushes, hinv.queue, List.filter_append, ← hpart]

theorem InOrder.push (hinv : s.InOrder params) (p : ℕ) (value : α) :
    (s.push params p value).InOrder params := by
  by_cases hroom : (s.queues (params.queueIndex p)).items.length < params.size
  · rw [push_of_room hroom]
    constructor
    · intro i
      dsimp only
      rw [List.filter_append, hinv.queue i]
      by_cases hi : i = params.queueIndex p
      · rw [hi, update_self]
        simp
      · rw [update_of_ne hi]
        simp [Ne.symm hi]
    · refine forall_update
        (P := fun _ (queue : BoundedQueue (ℕ × α)) => queue.items.length ≤ params.size) ?_
        fun i _ => hinv.length_le i
      rw [List.length_append, List.length_singleton]
      exact hroom
  · rw [push_of_full hroom]
    exact hinv

theorem InOrder.pop (hinv : s.InOrder params) (c : ℕ) : (s.pop params c).InOrder params := by
  cases hitems : (s.queues ((s.consumers c).aim params).readQueueIndex).items with
  | nil =>
      rw [pop_of_nil rfl hitems]
      exact ⟨hinv.queue, hinv.length_le⟩
  | cons item items =>
      rw [pop_of_cons rfl hitems]
      have hindex : params.queueIndex item.1 = ((s.consumers c).aim params).readQueueIndex :=
        hinv.queueIndex_of_mem (hitems ▸ List.mem_cons_self)
      constructor
      · intro i
        dsimp only
        rw [hinv.queue i, List.map_append, List.map_singleton, List.filter_append,
          List.append_assoc]
        congr 1
        by_cases hi : i = ((s.consumers c).aim params).readQueueIndex
        · rw [hi, update_self, hitems]
          simp [hindex]
        · rw [update_of_ne hi]
          simp [hindex, Ne.symm hi]
      · refine forall_update
          (P := fun _ (queue : BoundedQueue (ℕ × α)) => queue.items.length ≤ params.size) ?_
          fun i _ => hinv.length_le i
        have hle := hinv.length_le ((s.consumers c).aim params).readQueueIndex
        rw [hitems, List.length_cons] at hle
        exact Nat.le_of_succ_le hle

theorem step_inOrder (hinv : s.InOrder params) (next : Step α) :
    (s.step params next).InOrder params := by
  cases next with
  | push p value => exact hinv.push p value
  | pop c => exact hinv.pop c

/-- Nothing is lost, doubled or overtaken: of what a producer has pushed, what came first was
popped and the rest is still in its queue, and whoever consumes gets a part of it in its order. -/
theorem pack_keeps_order (params : Params) (steps : List (Step α)) :
    let s := run (step params) (start params) steps
    (∀ i, (s.queues i).items.length ≤ params.size) ∧
      (∀ i, s.pushes.filter (fun item => params.queueIndex item.1 = i) =
        (s.pops.map Prod.snd).filter (fun item => params.queueIndex item.1 = i) ++
          (s.queues i).items) ∧
      (∀ p, s.pushes.filter (fun item => item.1 = p) =
        (s.pops.map Prod.snd).filter (fun item => item.1 = p) ++
          (s.queues (params.queueIndex p)).items.filter fun item => item.1 = p) ∧
      ∀ c p, ((s.pops.filter fun pop => pop.1 = c ∧ pop.2.1 = p).map Prod.snd).Sublist
        (s.pushes.filter fun item => item.1 = p) := by
  intro s
  have hinv : s.InOrder params := run_invariant (fun s : Pack α => s.InOrder params) start_inOrder
    (fun _ next hinv => step_inOrder hinv next) steps
  have hproducer := fun p => hinv.producer p
  refine ⟨hinv.length_le, hinv.queue, hproducer, fun c p => ?_⟩
  rw [hproducer p]
  refine List.Sublist.trans ?_ (List.sublist_append_left _ _)
  rw [List.filter_map]
  refine List.Sublist.map _ ?_
  refine List.monotone_filter_right _ fun pop hpop => ?_
  simp only [decide_eq_true_eq] at hpop
  simpa using hpop.2

/-! ## Going round -/

/-- A consumer is where the others' share lets every queue have its turn. -/
structure GoesRound (params : Params) (consumer : Consumer) (seen : Seen) : Prop where
  index : consumer.readQueueIndex < params.G
  popCount : consumer.popCount < params.stay
  k : consumer.k < params.G
  fair : RoundRobin.Fair params.G params.stay params.uncounted consumer.readQueueIndex
    (if consumer.k = 0 then params.stay - consumer.popCount else 1) seen.since
  here : consumer.k ≠ 0 → seen.since consumer.readQueueIndex = 0
  empty : ∃ first, seen.empty = RoundRobin.turnsFrom params.G first consumer.k ∧
    (consumer.k ≠ 0 → consumer.readQueueIndex = (first + (consumer.k - 1)) % params.G)
  failed : ∀ looks ∈ seen.failed, looks.Perm (List.range params.G)

namespace GoesRound

variable {consumer : Consumer} {seen : Seen}

theorem make (count : ℕ) : GoesRound params (.make params count) ⟨fun _ => 0, [], []⟩ where
  index := Nat.mod_lt _ params.G_pos
  popCount := lt_of_lt_of_le Nat.zero_lt_one (le_max_right _ _)
  k := params.G_pos
  fair := .start (Nat.mod_lt _ params.G_pos) (by simp [Consumer.make])
  here := fun hk => absurd rfl hk
  empty := ⟨0, rfl, fun hk => absurd rfl hk⟩
  failed := fun _ hlooks => absurd hlooks List.not_mem_nil

/-- What a consumer that is about to look at a queue is like. -/
structure Aimed (params : Params) (consumer : Consumer) (seen : Seen) : Prop where
  index : consumer.readQueueIndex < params.G
  popCount : consumer.popCount < params.stay
  k : consumer.k < params.G
  fair : RoundRobin.Fair params.G params.stay params.uncounted consumer.readQueueIndex
    (if consumer.k = 0 then params.stay - consumer.popCount else params.stay + 1) seen.since
  empty : ∃ first, seen.empty ++ [consumer.readQueueIndex] =
    RoundRobin.turnsFrom params.G first (consumer.k + 1)
  failed : ∀ looks ∈ seen.failed, looks.Perm (List.range params.G)

theorem aim (hinv : GoesRound params consumer seen) : Aimed params (consumer.aim params) seen := by
  obtain ⟨first, hempty, hindex⟩ := hinv.empty
  by_cases hk : consumer.k = 0
  · have haim : consumer.aim params = consumer := if_pos hk
    rw [haim]
    refine ⟨hinv.index, hinv.popCount, hinv.k, ?_, ⟨consumer.readQueueIndex, ?_⟩, hinv.failed⟩
    · have hfair := hinv.fair
      rw [if_pos hk] at hfair ⊢
      exact hfair
    · rw [hempty, hk, RoundRobin.turnsFrom_succ, Nat.add_zero, Nat.mod_eq_of_lt hinv.index]
      rfl
  · have haim : consumer.aim params =
        { consumer with readQueueIndex := params.next consumer.readQueueIndex } := if_neg hk
    rw [haim]
    refine ⟨Nat.mod_lt _ params.G_pos, hinv.popCount, hinv.k, ?_, ⟨first, ?_⟩, hinv.failed⟩
    · have hfair := hinv.fair
      have hlt := hinv.k
      rw [if_neg hk] at hfair ⊢
      exact hfair.move hinv.index (hinv.here hk) (le_min (by omega) le_rfl)
    · have hnext : params.next consumer.readQueueIndex = (first + consumer.k) % params.G := by
        rw [Params.next, hindex hk, Nat.mod_add_mod]
        congr 1
        omega
      rw [RoundRobin.turnsFrom_succ, hempty, ← hnext]

theorem Aimed.found (haimed : Aimed params consumer seen) :
    GoesRound params (consumer.found params) (seen.found consumer.readQueueIndex) := by
  have hhere : RoundRobin.served seen.since consumer.readQueueIndex consumer.readQueueIndex = 0 :=
    if_pos rfl
  have hfair := haimed.fair
  have hpopCount := haimed.popCount
  by_cases hk : consumer.k = 0
  · rw [if_pos hk, show params.stay - consumer.popCount =
      params.stay - (consumer.popCount + 1) + 1 by omega] at hfair
    by_cases hstay : params.K ≤ consumer.popCount + 1
    · have hfound : consumer.found params = { consumer with
          popCount := 0, readQueueIndex := params.next consumer.readQueueIndex } := by
        rw [Consumer.found, if_pos hk, if_pos hstay]
      rw [hfound]
      refine ⟨Nat.mod_lt _ params.G_pos, lt_of_le_of_lt (Nat.zero_le _) hpopCount, haimed.k, ?_,
        fun hne => absurd hk hne, ⟨0, ?_, fun hne => absurd hk hne⟩, haimed.failed⟩
      · rw [if_pos hk]
        exact (hfair.serve.mono (Nat.zero_le _)).move haimed.index hhere (Nat.zero_le _)
      · rw [hk]
        rfl
    · have hfound : consumer.found params =
          { consumer with popCount := consumer.popCount + 1 } := by
        rw [Consumer.found, if_pos hk, if_neg hstay]
      have hlt : consumer.popCount + 1 < params.stay := lt_of_lt_of_le (by omega) (le_max_left _ _)
      rw [hfound]
      refine ⟨haimed.index, hlt, haimed.k, ?_, fun hne => absurd hk hne,
        ⟨0, ?_, fun hne => absurd hk hne⟩, haimed.failed⟩
      · rw [if_pos hk]
        exact hfair.serve
      · rw [hk]
        rfl
  · have hfound : consumer.found params = { consumer with k := 0 } := if_neg hk
    rw [if_neg hk] at hfair
    rw [hfound]
    refine ⟨haimed.index, hpopCount, params.G_pos, ?_, fun hne => absurd rfl hne,
      ⟨0, rfl, fun hne => absurd rfl hne⟩, haimed.failed⟩
    exact hfair.serve.mono (by simp)

theorem Aimed.notFound (haimed : Aimed params consumer seen) :
    GoesRound params (consumer.notFound params) (seen.notFound params consumer) := by
  have hhere : RoundRobin.looked seen.since consumer.readQueueIndex consumer.readQueueIndex = 0 :=
    if_pos rfl
  obtain ⟨first, hempty⟩ := haimed.empty
  have hpopCount : (consumer.notFound params).popCount < params.stay := by
    have hlt := haimed.popCount
    simp only [Consumer.notFound]
    split_ifs
    all_goals omega
  by_cases hmore : consumer.k + 1 < params.G
  · have hk : (consumer.notFound params).k = consumer.k + 1 := if_pos hmore
    have hseen : seen.notFound params consumer = ⟨RoundRobin.looked seen.since
        consumer.readQueueIndex, seen.empty ++ [consumer.readQueueIndex], seen.failed⟩ :=
      if_pos hmore
    have hindex : consumer.readQueueIndex = (first + consumer.k) % params.G := by
      rw [RoundRobin.turnsFrom_succ] at hempty
      simpa using (List.append_inj' hempty rfl).2
    rw [hseen]
    refine ⟨haimed.index, hpopCount, hk ▸ hmore, ?_, fun _ => hhere,
      ⟨first, hk ▸ hempty, fun _ => ?_⟩, haimed.failed⟩
    · rw [hk, if_neg (Nat.succ_ne_zero _)]
      have hlt := haimed.popCount
      refine haimed.fair.look.mono ?_
      split_ifs
      all_goals omega
    · rw [hk, Nat.add_sub_cancel]
      exact hindex
  · have hlast : consumer.k + 1 = params.G := by
      have := haimed.k
      omega
    have hk : (consumer.notFound params).k = 0 := if_neg hmore
    have hseen : seen.notFound params consumer = ⟨RoundRobin.looked seen.since
        consumer.readQueueIndex, [], seen.failed ++ [seen.empty ++ [consumer.readQueueIndex]]⟩ :=
      if_neg hmore
    rw [hseen]
    refine ⟨haimed.index, hpopCount, hk ▸ params.G_pos, ?_, fun hne => absurd hk hne,
      ⟨0, ?_, fun hne => absurd hk hne⟩, fun looks hlooks => ?_⟩
    · rw [hk, if_pos rfl]
      by_cases hfirst : consumer.k = 0
      · -- the only queue is the next one as well
        have hnext : (consumer.readQueueIndex + 1) % params.G = consumer.readQueueIndex := by
          have hindex := haimed.index
          rw [← hlast, hfirst] at hindex ⊢
          omega
        have hmoved := (haimed.fair.look.mono (Nat.zero_le _)).move haimed.index hhere
          (Nat.zero_le _)
        rw [hnext] at hmoved
        exact hmoved.mono (by omega)
      · have hfair := haimed.fair.look
        rw [if_neg hfirst] at hfair
        exact hfair.mono (by omega)
    · rw [hk]
      rfl
    · rcases List.mem_append.mp hlooks with hbefore | hthis
      · exact haimed.failed looks hbefore
      · rw [List.mem_singleton.mp hthis, hempty, hlast]
        exact RoundRobin.turnsFrom_perm params.G_pos first

end GoesRound

theorem step_goesRound (hinv : ∀ c, GoesRound params (s.consumers c) (s.seen c))
    (next : Step α) (c : ℕ) :
    GoesRound params ((s.step params next).consumers c) ((s.step params next).seen c) := by
  cases next with
  | push p value =>
      simp only [step]
      by_cases hroom : (s.queues (params.queueIndex p)).items.length < params.size
      · rw [push_of_room hroom]
        exact hinv c
      · rw [push_of_full hroom]
        exact hinv c
  | pop d =>
      have haimed := (hinv d).aim
      simp only [step]
      by_cases hc : c = d
      · rw [hc]
        cases hitems : (s.queues ((s.consumers d).aim params).readQueueIndex).items with
        | nil =>
            rw [pop_of_nil rfl hitems]
            simpa only [update_self] using haimed.notFound
        | cons item items =>
            rw [pop_of_cons rfl hitems]
            simpa only [update_self] using haimed.found
      · cases hitems : (s.queues ((s.consumers d).aim params).readQueueIndex).items with
        | nil =>
            rw [pop_of_nil rfl hitems]
            simpa only [update_of_ne hc] using hinv c
        | cons item items =>
            rw [pop_of_cons rfl hitems]
            simpa only [update_of_ne hc] using hinv c

/-! ## The longest wait -/

/-- What was pushed is popped, the first consumer is as given, and it got `waited` items since
it looked at the first queue. -/
structure Fed (s : Pack α) (consumer : Consumer) (waited : ℕ) : Prop where
  queues : ∀ i, (s.queues i).items = []
  consumer : s.consumers 0 = consumer
  waited : (s.seen 0).since 0 = waited

section

variable {consumer : Consumer} {i n waited : ℕ}

theorem queueIndex_of_lt (hG : params.G ≤ 2 ^ 64) (hi : i < params.G) :
    params.queueIndex i = i := by
  rw [Params.queueIndex, Nat.mod_eq_of_lt (hi.trans_le hG), Nat.mod_eq_of_lt hi]

/-- An item comes just before the consumer looks at its queue. -/
theorem Fed.feed (hfed : s.Fed consumer waited) (value : α) (hsize : 0 < params.size)
    (hG : params.G ≤ 2 ^ 64) (haim : (consumer.aim params).readQueueIndex = i)
    (hi : i < params.G) (hfirst : i ≠ 0) :
    (run (step params) s [.push i value, .pop 0]).Fed ((consumer.aim params).found params)
      (waited + 1) := by
  have hindex := queueIndex_of_lt hG hi
  have hpush : s.push params i value =
      { s with
        queues := update s.queues i { s.queues i with items := [(i, value)] }
        pushes := s.pushes ++ [(i, value)] } := by
    have hroom : (s.queues (params.queueIndex i)).items.length < params.size := by
      rw [hfed.queues, List.length_nil]
      exact hsize
    rw [push_of_room hroom, hindex, hfed.queues, List.nil_append]
  have hconsumer : ((s.push params i value).consumers 0).aim params = consumer.aim params := by
    rw [hpush]
    exact congrArg (Consumer.aim params) hfed.consumer
  have hitems : ((s.push params i value).queues (consumer.aim params).readQueueIndex).items =
      (i, value) :: [] := by
    rw [hpush, haim]
    dsimp only
    rw [update_self]
  rw [run_cons, run_cons, run_nil]
  simp only [step]
  rw [pop_of_cons hconsumer hitems, hpush]
  constructor
  · refine forall_update (P := fun _ (queue : BoundedQueue (ℕ × α)) => queue.items = []) rfl
      fun j hj => ?_
    rw [haim] at hj
    dsimp only
    rw [update_of_ne hj]
    exact hfed.queues j
  · dsimp only
    rw [update_self]
  · dsimp only
    rw [update_self, haim]
    change (if 0 = i then 0 else (s.seen 0).since 0 + 1) = waited + 1
    rw [if_neg hfirst.symm, hfed.waited]

/-- The consumer stays at a queue for as long as it may. -/
theorem Fed.stay (hfed : s.Fed ⟨i, 0, 0⟩ waited) (value : α) (hsize : 0 < params.size)
    (hG : params.G ≤ 2 ^ 64) (hi : i < params.G) (hfirst : i ≠ 0) (hn : n < params.stay) :
    ∃ steps, (run (step params) s steps).Fed ⟨i, n, 0⟩ (waited + n) := by
  induction n with
  | zero => exact ⟨[], hfed⟩
  | succ n ih =>
      obtain ⟨steps, hbefore⟩ := ih (Nat.lt_of_succ_lt hn)
      refine ⟨steps ++ [.push i value, .pop 0], ?_⟩
      have hmore : ¬ params.K ≤ n + 1 := by
        intro hK
        exact absurd hn (not_lt.mpr (max_le hK (Nat.succ_pos n)))
      have hfound : ((⟨i, n, 0⟩ : Consumer).aim params).found params = ⟨i, n + 1, 0⟩ := by
        simp [Consumer.aim, Consumer.found, hmore]
      rw [run_append, ← hfound]
      exact hbefore.feed value hsize hG rfl hi hfirst

theorem Fed.round (hfed : s.Fed ⟨i, 0, 0⟩ waited) (value : α) (hsize : 0 < params.size)
    (hG : params.G ≤ 2 ^ 64) (hi : i < params.G) (hfirst : i ≠ 0) :
    ∃ steps, (run (step params) s steps).Fed ⟨params.next i, 0, 0⟩ (waited + params.stay) := by
  have hpos : 0 < params.stay := lt_of_lt_of_le Nat.zero_lt_one (le_max_right _ _)
  obtain ⟨steps, hbefore⟩ := hfed.stay value hsize hG hi hfirst (Nat.sub_lt hpos Nat.one_pos)
  refine ⟨steps ++ [.push i value, .pop 0], ?_⟩
  have hlast : params.K ≤ params.stay - 1 + 1 := by
    rw [Nat.sub_add_cancel hpos]
    exact le_max_left _ _
  have hfound : ((⟨i, params.stay - 1, 0⟩ : Consumer).aim params).found params =
      ⟨params.next i, 0, 0⟩ := by
    simp [Consumer.aim, Consumer.found, hlast]
  have hwaited : waited + (params.stay - 1) + 1 = waited + params.stay := by omega
  rw [run_append, ← hfound, ← hwaited]
  exact hbefore.feed value hsize hG rfl hi hfirst

theorem Fed.rounds (hfed : s.Fed ⟨1, 0, 0⟩ waited) (value : α) (hsize : 0 < params.size)
    (hG : params.G ≤ 2 ^ 64) (hn : n < params.G) (hmore : 1 < params.G) :
    ∃ steps, (run (step params) s steps).Fed ⟨(1 + n) % params.G, 0, 0⟩
      (waited + n * params.stay) := by
  induction n with
  | zero =>
      refine ⟨[], ?_⟩
      rw [Nat.mod_eq_of_lt hmore, Nat.zero_mul]
      exact hfed
  | succ n ih =>
      obtain ⟨steps, hbefore⟩ := ih (Nat.lt_of_succ_lt hn)
      rw [Nat.mod_eq_of_lt (by omega)] at hbefore
      obtain ⟨later, hafter⟩ := hbefore.round value hsize hG (by omega) (by omega)
      refine ⟨steps ++ later, ?_⟩
      rw [run_append, Nat.succ_mul, ← Nat.add_assoc, ← Nat.add_assoc]
      exact hafter

/-- The consumer finds the first queue empty, and then all that the other queues may give it
before it comes back. -/
theorem exists_longest_wait (value : α) (hsize : 0 < params.size) (hG : params.G ≤ 2 ^ 64) :
    ∃ steps, ((run (step params) (start params : Pack α) steps).seen 0).since 0 =
      (params.G - 1) * params.stay + min (params.G - 1) 1 := by
  have hpos := params.G_pos
  by_cases hone : params.G = 1
  · refine ⟨[], ?_⟩
    rw [hone, Nat.sub_self, Nat.zero_mul]
    rfl
  have hmore : 1 < params.G := by omega
  have hempty : (run (step params) (start params : Pack α) [.pop 0]).Fed ⟨0, 0, 1⟩ 0 := by
    have hnotFound : (Consumer.make params 0).notFound params = ⟨0, 0, 1⟩ := by
      simp [Consumer.make, Consumer.notFound, Params.queueIndex, hmore]
    have haim : ((start params : Pack α).consumers 0).aim params = .make params 0 := rfl
    rw [run_cons, run_nil, step, pop_of_nil haim rfl]
    refine ⟨fun _ => rfl, ?_, ?_⟩
    · dsimp only
      rw [update_self, hnotFound]
    · dsimp only
      rw [update_self]
      simp [Seen.notFound, Consumer.make, hmore, Params.queueIndex, RoundRobin.looked]
  have hnext : params.next 0 = 1 := Nat.mod_eq_of_lt hmore
  have haim : ((⟨0, 0, 1⟩ : Consumer).aim params).readQueueIndex = 1 := hnext
  have hfirst := hempty.feed value hsize hG haim hmore Nat.one_ne_zero
  have hfound : ((⟨0, 0, 1⟩ : Consumer).aim params).found params = ⟨1, 0, 0⟩ := by
    simp [Consumer.aim, Consumer.found, hnext]
  rw [hfound] at hfirst
  obtain ⟨steps, hlast⟩ := hfirst.rounds value hsize hG (n := params.G - 1) (by omega) hmore
  refine ⟨[.pop 0] ++ ([.push 1 value, .pop 0] ++ steps), ?_⟩
  rw [run_append, run_append, hlast.waited]
  omega

end

/-- No queue waits for a consumer for longer than it takes the other queues' shares and the one
item that is not counted, as it may; and a pop that returns false has found every queue empty,
each of them once. -/
theorem no_queue_is_kept_waiting (params : Params) :
    (∀ (steps : List (Step α)) (c : ℕ),
      let seen := (run (step params) (start params) steps).seen c
      (∀ q < params.G, seen.since q ≤ (params.G - 1) * params.stay + min (params.G - 1) 1) ∧
        seen.empty.length < params.G ∧
        ∀ looks ∈ seen.failed, looks.Perm (List.range params.G)) ∧
      (α → 0 < params.size → params.G ≤ 2 ^ 64 →
        ∃ steps, ((run (step params) (start params : Pack α) steps).seen 0).since 0 =
          (params.G - 1) * params.stay + min (params.G - 1) 1) := by
  refine ⟨fun steps c => ?_, exists_longest_wait⟩
  have hstart : ∀ c, GoesRound params ((start params : Pack α).consumers c)
      ((start params : Pack α).seen c) := fun c => .make c
  have hround := run_invariant
    (fun s : Pack α => ∀ c, GoesRound params (s.consumers c) (s.seen c)) hstart
    (fun _ next hinv => step_goesRound hinv next) steps c
  refine ⟨fun q hq => hround.fair.since_le hq, ?_, hround.failed⟩
  obtain ⟨first, hempty, -⟩ := hround.empty
  rw [hempty, RoundRobin.turnsFrom, List.length_map, List.length_range]
  exact hround.k

end Pack

end MpmcQueuePack

end CppPlay.MultiThread
