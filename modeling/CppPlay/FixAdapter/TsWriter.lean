import CppPlay.FixAdapter.MsgFraming
import CppPlay.FixAdapter.NetworkOrder

/-!
# The writer of orders

`send_to_ts` writes a whole batch of messages.  When the write fails it connects
again, which does nothing while the socket is still open, and writes the same
batch once more from its beginning.
-/

namespace CppPlay.FixAdapter

open CppPlay.Lib

/-! ## The socket -/

/-- How a call of `write` ends, and whether the `connect` behind a failure gave a
new connection. -/
inductive WriteOutcome where
  | done
  | failed (transferred : ℕ) (reconnected : Bool)

/-- What the trading system got on the closed connections, the oldest first, and
on the present one. -/
structure Outbound where
  closed : List (List Byte)
  received : List Byte

def Outbound.start : Outbound := ⟨[], []⟩

def Outbound.streams (s : Outbound) : List (List Byte) := s.closed ++ [s.received]

def Outbound.transfer (s : Outbound) (bytes : List Byte) : Outbound :=
  { s with received := s.received ++ bytes }

def Outbound.connect (s : Outbound) (reconnected : Bool) : Outbound :=
  if reconnected then ⟨s.closed ++ [s.received], []⟩ else s

/-- `send_to_ts` returns, or the outcomes of the run end inside a write. -/
inductive Sent where
  | returned (s : Outbound) (outcomes : List WriteOutcome)
  | writing (s : Outbound)

def sendToTs (bufs : List (List Byte)) : Outbound → List WriteOutcome → Sent
  | s, [] => .writing s
  | s, .done :: outcomes => .returned (s.transfer bufs.flatten) outcomes
  | s, .failed transferred reconnected :: outcomes =>
      sendToTs bufs ((s.transfer (bufs.flatten.take transferred)).connect reconnected) outcomes

/-! ## The thread -/

structure TsWriter where
  buffers : List (List Byte)
  socket : Outbound

def TsWriter.start : TsWriter := ⟨[], .start⟩

def TsWriter.consume (w : TsWriter) (queued : List (List Byte)) : TsWriter :=
  { w with buffers := w.buffers ++ queued }

def TsWriter.delocate (w : TsWriter) : TsWriter := { w with buffers := [] }

/-- `threadFunction` for one batch after the other, as far as the outcomes go. -/
def TsWriter.run : TsWriter → List (List (List Byte)) → List WriteOutcome → TsWriter
  | w, [], _ => w
  | w, queued :: batches, outcomes =>
      let w := w.consume queued
      match sendToTs w.buffers w.socket outcomes with
      | .writing socket => { w with socket := socket }
      | .returned socket outcomes =>
          ({ w with socket := socket } : TsWriter).delocate.run batches outcomes

/-- The failures of a write that is done in the end. -/
def writeOutcomes (failures : List (ℕ × Bool)) : List WriteOutcome :=
  failures.map (fun failure => .failed failure.1 failure.2) ++ [.done]

/-! ## At most once -/

variable (api : Espd)

def Outbound.delivered (s : Outbound) : List (List Byte) :=
  s.streams.flatMap fun stream => ((msgCode api).parse stream).1

/-- No message arrived more often than it was handed over, and a stream is whole
messages with at most one truncated message at its end. -/
structure AtMostOnce (handed : List (List Byte)) (s : Outbound) : Prop where
  once : (s.delivered api).Subperm handed
  truncated : ∀ stream ∈ s.streams, ((msgCode api).parse stream).2 = [] ∨
    ∃ msg ∈ handed, ((msgCode api).parse stream).2 <+: msg

/-- A failure that leaves no trace on a connection that goes on: less than the
first message got through, and nothing at all unless the connection is replaced. -/
def HarmlessFailure (batch : List (List Byte)) (transferred : ℕ) (reconnected : Bool) : Prop :=
  transferred < (batch.headD []).length ∧ (transferred = 0 ∨ reconnected = true)

def HarmlessFailures : List (List (List Byte)) → List WriteOutcome → Prop
  | _, [] => True
  | [], _ => True
  | _ :: batches, .done :: outcomes => HarmlessFailures batches outcomes
  | batch :: batches, .failed transferred reconnected :: outcomes =>
      HarmlessFailure batch transferred reconnected ∧
        HarmlessFailures (batch :: batches) outcomes

variable {api}

/-! ## One write -/

/-- Between two writes the present stream is whole messages, and exactly the
messages of the finished batches have arrived. -/
structure Outbound.Clean (api : Espd) (finished handed : List (List Byte)) (s : Outbound) :
    Prop where
  whole : ((msgCode api).parse s.received).2 = []
  delivered : s.delivered api = finished
  truncated : ∀ stream ∈ s.closed, ((msgCode api).parse stream).2 = [] ∨
    ∃ msg ∈ handed, ((msgCode api).parse stream).2 <+: msg

theorem parse_append_of_whole {stream : List Byte} (ys : List Byte)
    (hwhole : ((msgCode api).parse stream).2 = []) :
    (msgCode api).parse (stream ++ ys) =
      (((msgCode api).parse stream).1 ++ ((msgCode api).parse ys).1,
        ((msgCode api).parse ys).2) := by
  rcases ((msgCode api).parse_snd_eq_nil_iff stream).mp hwhole with ⟨ws, hws, hstream⟩
  rw [hstream, (msgCode api).parse_flatten_append hws, (msgCode api).parse_flatten hws]

theorem Outbound.Clean.done {s : Outbound} {finished handed batch : List (List Byte)}
    (hclean : s.Clean api finished handed) (hbatch : ∀ msg ∈ batch, (msgCode api).IsWord msg) :
    (s.transfer batch.flatten).Clean api (finished ++ batch) handed := by
  have hparse := parse_append_of_whole batch.flatten hclean.whole
  rw [(msgCode api).parse_flatten hbatch] at hparse
  constructor
  · rw [transfer, hparse]
  · rw [← hclean.delivered]
    simp [Outbound.delivered, Outbound.streams, transfer, hparse]
  · exact hclean.truncated

theorem take_flatten_of_lt {batch : List (List Byte)} {transferred : ℕ}
    (hlt : transferred < (batch.headD []).length) :
    ∃ msg ∈ batch, transferred < msg.length ∧
      batch.flatten.take transferred = msg.take transferred := by
  cases batch with
  | nil => simp at hlt
  | cons msg rest =>
      refine ⟨msg, List.mem_cons_self, hlt, ?_⟩
      have hle : transferred ≤ msg.length := Nat.le_of_lt hlt
      rw [List.flatten_cons, List.take_append_of_le_length hle]

theorem Outbound.Clean.failed {s : Outbound} {finished handed batch : List (List Byte)}
    {transferred : ℕ} {reconnected : Bool} (hclean : s.Clean api finished handed)
    (hbatch : ∀ msg ∈ batch, (msgCode api).IsWord msg) (hhanded : ∀ msg ∈ batch, msg ∈ handed)
    (hharmless : HarmlessFailure batch transferred reconnected) :
    ((s.transfer (batch.flatten.take transferred)).connect reconnected).Clean api
      finished handed := by
  rcases take_flatten_of_lt hharmless.1 with ⟨msg, hmsg, hlt, htake⟩
  have hpart : (msgCode api).size (msg.take transferred) = none := by
    apply (msgCode api).size_eq_none_of_proper (hbatch msg hmsg) (List.take_prefix _ _)
    rw [List.length_take]
    omega
  have hparse := parse_append_of_whole (msg.take transferred) hclean.whole
  rw [(msgCode api).parse_of_none hpart, List.append_nil] at hparse
  rw [htake]
  cases reconnected with
  | false =>
      have hzero : transferred = 0 := by simpa using hharmless.2
      rw [hzero, List.take_zero]
      simpa [transfer, connect] using hclean
  | true =>
      constructor
      · simp [connect]
      · rw [← hclean.delivered]
        simp [Outbound.delivered, Outbound.streams, transfer, connect, hparse]
      · intro stream hstream
        simp only [connect, transfer, if_true, List.mem_append, List.mem_singleton] at hstream
        rcases hstream with hold | hnew
        · exact hclean.truncated stream hold
        · right
          refine ⟨msg, hhanded msg hmsg, ?_⟩
          rw [hnew, hparse]
          exact List.take_prefix _ _

theorem Outbound.Clean.atMostOnce {s : Outbound} {finished handed : List (List Byte)}
    (hclean : s.Clean api finished handed) (hfinished : finished <+: handed) :
    AtMostOnce api handed s := by
  constructor
  · rw [hclean.delivered]
    exact hfinished.sublist.subperm
  · intro stream hstream
    rcases List.mem_append.mp hstream with hold | hnew
    · exact hclean.truncated stream hold
    · rw [List.mem_singleton.mp hnew]
      exact Or.inl hclean.whole

/-! ## A whole batch, and runs -/

theorem sendToTs_clean {batch : List (List Byte)} {batches : List (List (List Byte))}
    {finished handed : List (List Byte)} (s : Outbound) (outcomes : List WriteOutcome)
    (hclean : s.Clean api finished handed)
    (hbatch : ∀ msg ∈ batch, (msgCode api).IsWord msg) (hhanded : ∀ msg ∈ batch, msg ∈ handed)
    (hharmless : HarmlessFailures (batch :: batches) outcomes) :
    match sendToTs batch s outcomes with
    | .writing s' => s'.Clean api finished handed
    | .returned s' outcomes' =>
        s'.Clean api (finished ++ batch) handed ∧ HarmlessFailures batches outcomes' := by
  induction outcomes generalizing s with
  | nil => exact hclean
  | cons outcome outcomes ih =>
      cases outcome with
      | done => exact ⟨hclean.done hbatch, hharmless⟩
      | failed transferred reconnected =>
          exact ih _ (hclean.failed hbatch hhanded hharmless.1) hharmless.2

theorem TsWriter.run_atMostOnce {batches : List (List (List Byte))}
    (finished handed : List (List Byte)) (w : TsWriter) (outcomes : List WriteOutcome)
    (hbuffers : w.buffers = []) (hclean : w.socket.Clean api finished handed)
    (hhanded : handed = finished ++ batches.flatten)
    (hwords : ∀ batch ∈ batches, ∀ msg ∈ batch, (msgCode api).IsWord msg)
    (hharmless : HarmlessFailures batches outcomes) :
    AtMostOnce api handed (w.run batches outcomes).socket := by
  induction batches generalizing w outcomes finished with
  | nil =>
      apply hclean.atMostOnce
      rw [hhanded]
      exact List.prefix_append _ _
  | cons batch batches ih =>
      rw [List.forall_mem_cons] at hwords
      rw [List.flatten_cons] at hhanded
      have hmem : ∀ msg ∈ batch, msg ∈ handed := by
        intro msg hmsg
        rw [hhanded]
        simp [hmsg]
      have hsend := sendToTs_clean w.socket outcomes hclean hwords.1 hmem hharmless
      have hconsume : w.consume batch = ⟨batch, w.socket⟩ := by
        rw [consume, hbuffers, List.nil_append]
      simp only [TsWriter.run, hconsume]
      cases hresult : sendToTs batch w.socket outcomes with
      | writing socket =>
          rw [hresult] at hsend
          apply hsend.atMostOnce
          rw [hhanded]
          exact List.prefix_append _ _
      | returned socket outcomes' =>
          rw [hresult] at hsend
          apply ih (finished ++ batch) _ outcomes' rfl hsend.1 _ hwords.2 hsend.2
          rw [hhanded, List.append_assoc]

/-! ## A batch that is written in the end -/

theorem Outbound.Clean.mono {s : Outbound} {finished handed handed' : List (List Byte)}
    (hclean : s.Clean api finished handed) (hsubset : handed ⊆ handed') :
    s.Clean api finished handed' := by
  refine ⟨hclean.whole, hclean.delivered, fun stream hstream => ?_⟩
  rcases hclean.truncated stream hstream with hnone | ⟨msg, hmsg, hprefix⟩
  · exact Or.inl hnone
  · exact Or.inr ⟨msg, hsubset hmsg, hprefix⟩

theorem sendToTs_writeOutcomes (batch : List (List Byte)) (s : Outbound)
    (failures : List (ℕ × Bool)) :
    ∃ s', sendToTs batch s (writeOutcomes failures) = .returned s' [] := by
  induction failures generalizing s with
  | nil => exact ⟨_, rfl⟩
  | cons failure failures ih => exact ih _

theorem harmlessFailures_writeOutcomes {batch : List (List Byte)} {failures : List (ℕ × Bool)}
    (hharmless : ∀ failure ∈ failures, HarmlessFailure batch failure.1 failure.2) :
    HarmlessFailures [batch] (writeOutcomes failures) := by
  induction failures with
  | nil => trivial
  | cons failure failures ih =>
      rw [List.forall_mem_cons] at hharmless
      exact ⟨hharmless.1, ih hharmless.2⟩

namespace TsWriter

variable {w : TsWriter} {batch : List (List Byte)} {failures : List (ℕ × Bool)}

theorem run_batch (hbuffers : w.buffers = []) {s' : Outbound}
    (hsent : sendToTs batch w.socket (writeOutcomes failures) = .returned s' []) :
    w.run [batch] (writeOutcomes failures) = ⟨[], s'⟩ := by
  have hconsume : w.consume batch = ⟨batch, w.socket⟩ := by
    rw [consume, hbuffers, List.nil_append]
  simp only [run, hconsume, hsent]
  rfl

theorem buffers_run_batch (hbuffers : w.buffers = []) :
    (w.run [batch] (writeOutcomes failures)).buffers = [] := by
  obtain ⟨s', hsent⟩ := sendToTs_writeOutcomes batch w.socket failures
  rw [run_batch hbuffers hsent]

/-- Failures that leave no trace do not show once the batch is through. -/
theorem clean_run_batch {finished handed : List (List Byte)} (hbuffers : w.buffers = [])
    (hclean : w.socket.Clean api finished handed) (hwords : ∀ msg ∈ batch, (msgCode api).IsWord msg)
    (hharmless : ∀ failure ∈ failures, HarmlessFailure batch failure.1 failure.2) :
    (w.run [batch] (writeOutcomes failures)).socket.Clean api (finished ++ batch)
      (handed ++ batch) := by
  obtain ⟨s', hsent⟩ := sendToTs_writeOutcomes batch w.socket failures
  have hafter := sendToTs_clean w.socket (writeOutcomes failures)
    (hclean.mono (List.subset_append_left handed batch)) hwords
    (fun msg hmsg => List.mem_append_right _ hmsg) (harmlessFailures_writeOutcomes hharmless)
  rw [hsent] at hafter
  rw [run_batch hbuffers hsent]
  exact hafter.1

theorem start_clean : start.socket.Clean api [] [] := by
  constructor
  · exact congrArg Prod.snd (msgCode api).parse_nil
  · simp [Outbound.delivered, Outbound.streams, start, Outbound.start]
  · simp [start, Outbound.start]

end TsWriter

/-! ## Runs from the start -/

/-- When no failed write got a whole message through and none left a part on a
connection that stays, nothing is delivered twice. -/
theorem atMostOnce_of_harmlessFailures (api : Espd) (batches : List (List (List Byte)))
    (outcomes : List WriteOutcome)
    (hwords : ∀ batch ∈ batches, ∀ msg ∈ batch, (msgCode api).IsWord msg)
    (hharmless : HarmlessFailures batches outcomes) :
    AtMostOnce api batches.flatten (TsWriter.start.run batches outcomes).socket := by
  exact TsWriter.run_atMostOnce [] _ TsWriter.start outcomes rfl
    (TsWriter.start_clean.mono (List.nil_subset _)) rfl hwords hharmless

def orderMsg (sequenceNo : Byte) : List Byte :=
  [0, 17, 0, 1, 0, 0, 0, sequenceNo, 0, 2, 0, 0, 1, 0, 4, 0, 20, 1, 1]

theorem atMostOnce_twoFailures :
    AtMostOnce NetworkOrder.espd [orderMsg 1, orderMsg 2, orderMsg 3]
      (TsWriter.start.run [[orderMsg 1, orderMsg 2], [orderMsg 3]]
        [.failed 5 true, .done, .failed 0 false, .done]).socket := by
  apply atMostOnce_of_harmlessFailures NetworkOrder.espd [[orderMsg 1, orderMsg 2], [orderMsg 3]]
  · decide
  · exact ⟨⟨by decide, Or.inr rfl⟩, ⟨by decide, Or.inl rfl⟩, trivial⟩

/-- The write fails behind the first of two messages; the first one arrives twice. -/
theorem not_atMostOnce_resentBatch :
    ¬ AtMostOnce NetworkOrder.espd [orderMsg 1, orderMsg 2]
      (TsWriter.start.run [[orderMsg 1, orderMsg 2]] [.failed 19 false, .done]).socket := by
  intro hatMostOnce
  have hlength := hatMostOnce.once.length_le
  exact absurd hlength (by decide)

end CppPlay.FixAdapter
