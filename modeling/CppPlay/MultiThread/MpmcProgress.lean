import CppPlay.MultiThread.MpmcHistory

/-!
# The lock-free queue makes progress

While nobody's compare-and-swap of a slot succeeds and no call is answered without one,
the indexes can be advanced twice only, so that every thread comes to the end of its
retries.  A rank counts how many steps of its own a thread still has until then.
-/

namespace CppPlay.MultiThread

open CppPlay.Lib

namespace MpmcQueue

variable {ι α : Type}

/-- The readers that compare the whole sequence number with the one a lap ahead. -/
def MpmcReader.Plain : MpmcReader α → Prop
  | .pop | .lost _ | .empty => True
  | .pop_if _ | .peek => False

def MpmcCall.Plain : MpmcCall α → Prop
  | .read reader => MpmcReader.Plain reader
  | .push _ | .push_keep_n _ | .exchange _ _ _ => True

def MpmcPc.Plain : MpmcPc α → Prop
  | .read reader | .entry reader _ | .take reader _ _ | .helpRead reader _ | .took reader _ =>
      MpmcReader.Plain reader
  | _ => True

/-- How many steps a thread may take before its call returns or somebody's call is served. -/
def rank [DecidableEq α] [Zero α] (c : MpmcConfig) (s : MpmcQueue ι α) (q : BoundedQueue α)
    (loaded : ℕ) : MpmcPc α → ℕ
  | .idle => 7
  | .push _ _ => 3 + 3 * (q.next - s.writes)
  | .seq _ _ _ =>
      if loaded = s.writes then 2 + 3 * (q.next - s.writes) else 5 + 3 * (q.next - s.writes)
  | .store _ _ wr_index =>
      if s.array (wr_index % c.capacity) = ⟨0, emptySeq c wr_index⟩ then 1
      else 4 + 3 * (q.next - s.writes)
  | .helpWrite _ _ _ => if loaded = s.writes then 4 else 4 + 3 * (q.next - s.writes)
  | .stored _ => 1
  | .read _ => 3 + 3 * (q.first - s.reads)
  | .entry _ _ =>
      if loaded = s.reads then 2 + 3 * (q.first - s.reads) else 5 + 3 * (q.first - s.reads)
  | .take _ rd_index e =>
      if s.array (rd_index % c.capacity) = e then 1 else 4 + 3 * (q.first - s.reads)
  | .helpRead _ _ => if loaded = s.reads then 4 else 4 + 3 * (q.first - s.reads)
  | .took (.lost _) _ => 4 + 3 * (q.next - s.writes)
  | .took _ _ => 1

variable {c : MpmcConfig} {s s' : MpmcQueue ι α} {q q' : BoundedQueue α} {t u : ι}

/-! ## What a step leaves alone -/

/-- A step of the thread leaves the others where they are, and the slots unless it is seen. -/
structure StepFrame (t : ι) (s s' : MpmcQueue ι α) : Prop where
  pc_eq : ∀ u, u ≠ t → s'.pc u = s.pc u
  loaded_eq : ∀ u, u ≠ t → s'.loaded u = s.loaded u
  writes_le : s.writes ≤ s'.writes
  reads_le : s.reads ≤ s'.reads
  seen_grows : s.seen <+: s'.seen
  array_eq : s'.seen = s.seen → s'.array = s.array

theorem StepFrame.refl (t : ι) (s : MpmcQueue ι α) : StepFrame t s s :=
  ⟨fun _ _ => rfl, fun _ _ => rfl, le_rfl, le_rfl, List.prefix_refl _, fun _ => rfl⟩

theorem StepFrame.trans {s'' : MpmcQueue ι α} (hfirst : StepFrame t s s')
    (hsecond : StepFrame t s' s'') : StepFrame t s s'' := by
  constructor
  · exact fun u hu => (hsecond.pc_eq u hu).trans (hfirst.pc_eq u hu)
  · exact fun u hu => (hsecond.loaded_eq u hu).trans (hfirst.loaded_eq u hu)
  · exact hfirst.writes_le.trans hsecond.writes_le
  · exact hfirst.reads_le.trans hsecond.reads_le
  · exact hfirst.seen_grows.trans hsecond.seen_grows
  · intro hseen
    have hbetween : s'.seen = s.seen := by
      apply (hfirst.seen_grows.eq_of_length_le _).symm
      rw [← hseen]
      exact hsecond.seen_grows.length_le
    rw [hsecond.array_eq (hseen.trans hbetween.symm), hfirst.array_eq hbetween]

theorem frame_observe (s : MpmcQueue ι α) (o : Observation α) : StepFrame t s (s.observe t o) :=
  ⟨fun _ _ => rfl, fun _ _ => rfl, le_rfl, le_rfl, List.prefix_append _ _, fun _ => rfl⟩

theorem frame_setEntry (s : MpmcQueue ι α) (i : ℕ) (e : MpmcEntry α) (o : Observation α) :
    StepFrame t s ((s.setEntry c i e).observe t o) := by
  constructor
  · exact fun _ _ => rfl
  · exact fun _ _ => rfl
  · exact le_rfl
  · exact le_rfl
  · exact List.prefix_append _ _
  · intro hseen
    exact absurd hseen (by simp [observe, setEntry])

theorem frame_advanceWrite (s : MpmcQueue ι α) (wr_index : ℕ) :
    StepFrame t s (s.advanceWrite c wr_index) := by
  rw [advanceWrite]
  split_ifs
  · exact ⟨fun _ _ => rfl, fun _ _ => rfl, Nat.le_succ _, le_rfl, List.prefix_refl _, fun _ => rfl⟩
  · exact .refl t s

theorem frame_advanceRead (s : MpmcQueue ι α) (rd_index : ℕ) :
    StepFrame t s (s.advanceRead c rd_index) := by
  rw [advanceRead]
  split_ifs
  · exact ⟨fun _ _ => rfl, fun _ _ => rfl, le_rfl, Nat.le_succ _, List.prefix_refl _, fun _ => rfl⟩
  · exact .refl t s

section Frame

variable [DecidableEq ι]

@[simp] theorem goTo_pc_self (s : MpmcQueue ι α) (pc : MpmcPc α) : (s.goTo t pc).pc t = pc :=
  Function.update_self ..

@[simp] theorem goTo_loaded (s : MpmcQueue ι α) (pc : MpmcPc α) :
    (s.goTo t pc).loaded = s.loaded := rfl

@[simp] theorem rank_goTo [DecidableEq α] [Zero α] (s : MpmcQueue ι α) (pc : MpmcPc α)
    (loaded : ℕ) (pc' : MpmcPc α) :
    (s.goTo t pc).rank c q loaded pc' = s.rank c q loaded pc' := by
  cases pc' with
  | took reader => cases reader <;> rfl
  | _ => rfl

theorem frame_goTo (s : MpmcQueue ι α) (pc : MpmcPc α) : StepFrame t s (s.goTo t pc) :=
  ⟨fun _ hu => Function.update_of_ne hu _ _, fun _ _ => rfl, le_rfl, le_rfl, List.prefix_refl _,
    fun _ => rfl⟩

theorem frame_loadWrite (s : MpmcQueue ι α) : StepFrame t s (s.loadWrite t) :=
  ⟨fun _ _ => rfl, fun _ hu => Function.update_of_ne hu _ _, le_rfl, le_rfl, List.prefix_refl _,
    fun _ => rfl⟩

theorem frame_loadRead (s : MpmcQueue ι α) : StepFrame t s (s.loadRead t) :=
  ⟨fun _ _ => rfl, fun _ hu => Function.update_of_ne hu _ _, le_rfl, le_rfl, List.prefix_refl _,
    fun _ => rfl⟩

variable [DecidableEq α] [Zero α]

theorem frame_step (c : MpmcConfig) (s : MpmcQueue ι α) (t : ι) (call : MpmcCall α) :
    StepFrame t s (s.step c (t, call)) := by
  cases hpc : s.pc t with
  | idle =>
      simp only [step, hpc]
      cases call with
      | exchange i old_value new_value =>
          rw [begin, exchange]
          split_ifs
          · exact frame_setEntry s _ _ _
          · exact frame_observe s _
      | push | push_keep_n | read => exact frame_goTo s _
  | push =>
      simp only [step, hpc]
      exact (frame_loadWrite s).trans (frame_goTo _ _)
  | read =>
      simp only [step, hpc]
      exact (frame_loadRead s).trans (frame_goTo _ _)
  | seq =>
      simp only [step, hpc]
      split_ifs
      · exact frame_goTo s _
      · exact frame_goTo s _
      · exact (frame_observe s _).trans (frame_goTo _ _)
      · exact (frame_observe s _).trans (frame_goTo _ _)
      · exact frame_goTo s _
  | store | take =>
      simp only [step, hpc]
      split_ifs
      · exact (frame_setEntry s _ _ _).trans (frame_goTo _ _)
      · exact (frame_setEntry s _ _ _).trans (frame_goTo _ _)
      · exact frame_goTo s _
  | helpWrite | stored =>
      simp only [step, hpc]
      exact (frame_advanceWrite s _).trans (frame_goTo _ _)
  | helpRead | took =>
      simp only [step, hpc]
      exact (frame_advanceRead s _).trans (frame_goTo _ _)
  | entry reader rd_index =>
      simp only [step, hpc]
      cases found c reader rd_index (s.array (rd_index % c.capacity)) with
      | none | front | notEmpty => exact (frame_observe s _).trans (frame_goTo _ _)
      | take | help | retry => exact frame_goTo s _

/-- A step that is not seen leaves the queue that explains what was seen. -/
theorem Inv.step_unseen (hinv : s.Inv c q) (hsized : c.Sized) {input : ι × MpmcCall α}
    (hrecent : s.Recent c input.1) (hseen : (s.step c input).seen = s.seen) :
    (s.step c input).Inv c q := by
  obtain ⟨q', hinv'⟩ := step_inv hinv hsized hrecent
  have hlegal := hinv'.legal
  rw [hseen, hinv.legal, Option.some.injEq] at hlegal
  rwa [hlegal]

end Frame

/-! ## The rank of a thread -/

@[simp] theorem advanceRead_writes (rd_index : ℕ) :
    (s.advanceRead c rd_index).writes = s.writes := by
  rw [advanceRead]
  split_ifs <;> rfl

section Rank

variable [DecidableEq α] [Zero α]

theorem rank_other (hinv : s.Inv c q) (hinv' : s'.Inv c q) (hframe : StepFrame u s s')
    (hseen : s'.seen = s.seen) (hne : t ≠ u) :
    s'.rank c q (s'.loaded t) (s'.pc t) ≤ s.rank c q (s.loaded t) (s.pc t) := by
  have hknows := hinv.threads t
  have harray := hframe.array_eq hseen
  have hwrites := hframe.writes_le
  have hreads := hframe.reads_le
  have hnext := hinv.next_le
  have hfirst := hinv.first_le
  have hnext' := hinv'.writes_le
  have hfirst' := hinv'.reads_le
  rw [hframe.loaded_eq t hne, hframe.pc_eq t hne]
  cases hpc : s.pc t with
  | idle | stored => exact le_rfl
  | push =>
      simp only [rank]
      omega
  | seq | helpWrite =>
      rw [hpc, Knows] at hknows
      simp only [rank]
      split_ifs <;> omega
  | store | take =>
      simp only [rank, harray]
      split_ifs <;> omega
  | read =>
      simp only [rank]
      omega
  | entry | helpRead =>
      rw [hpc, Knows] at hknows
      simp only [rank]
      split_ifs <;> omega
  | took reader rd_index =>
      cases reader <;> simp only [rank] <;> omega

theorem rank_le (hinv : s.Inv c q) : s.rank c q (s.loaded t) (s.pc t) ≤ 8 := by
  have hnext := hinv.next_le
  have hfirst := hinv.first_le
  cases s.pc t with
  | took reader => cases reader <;> simp only [rank] <;> omega
  | seq | store | helpWrite | entry | take | helpRead =>
      simp only [rank]
      split_ifs <;> omega
  | idle | push | stored | read =>
      simp only [rank]
      omega

/-- The slot of the current write index is free, was just pushed to, or is a lap behind. -/
theorem Inv.seq_current (hinv : s.Inv c q) (hsized : c.Sized) :
    let seq := (s.array (s.writes % c.capacity)).seq
    seq = emptySeq c s.writes ∨ seq = fullSeq c s.writes ∨
      seq = emptySeq c (s.writes + c.capacity) ∨
      (seq + (c.capacity <<< 1)) % 2 ^ c.bits_in_index = fullSeq c s.writes := by
  intro seq
  have hwrites := hinv.writes_le
  have hnext := hinv.next_le
  have hlength := hinv.length_le
  have hdef : q.next = q.first + q.items.length := rfl
  obtain ⟨j, hfirst, hlast, hmod, ⟨hj, d, _, hslot⟩ | ⟨hj, hslot⟩⟩ := hinv.slot hsized s.writes
  · have hseq : seq = fullSeq c j := congrArg MpmcEntry.seq hslot
    rcases Nat.lt_or_ge j s.writes with hlt | hge
    · have hlap : (j + c.capacity) % c.capacity = s.writes % c.capacity := by
        rw [Nat.add_mod_right, hmod]
      have heq := eq_of_mod_eq_mod hlap (by omega) (by omega)
      right; right; right
      rw [hseq, fullSeq_add hsized, heq]
    · have heq : j = s.writes := by omega
      exact .inr (.inl (heq ▸ hseq))
  · have hseq : seq = emptySeq c j := congrArg MpmcEntry.seq hslot
    rcases Nat.lt_or_ge j (s.writes + c.capacity) with hlt | hge
    · have heq := eq_of_mod_eq_mod hmod hlt (by omega)
      exact .inl (heq ▸ hseq)
    · have heq : j = s.writes + c.capacity := by omega
      exact .inr (.inr (.inl (heq ▸ hseq)))

/-- The slot of the current read index is of its position, or of the one a lap ahead when
somebody has popped and the index was not yet advanced. -/
theorem Inv.entry_current (hinv : s.Inv c q) (hsized : c.Sized) :
    let seq := (s.array (s.reads % c.capacity)).seq
    (q.first = s.reads ∧ (seq = fullSeq c s.reads ∨ seq = emptySeq c s.reads)) ∨
      (s.reads < q.first ∧ (seq = fullSeq c (s.reads + c.capacity) ∨
        seq = emptySeq c (s.reads + c.capacity))) := by
  intro seq
  have hreads := hinv.reads_le
  have hle := hinv.first_le
  obtain ⟨j, hfirst, hlast, hmod, hslot⟩ := hinv.slot hsized s.reads
  have hseq : seq = fullSeq c j ∨ seq = emptySeq c j := by
    rcases hslot with ⟨_, d, _, hslot⟩ | ⟨_, hslot⟩
    · exact .inl (congrArg MpmcEntry.seq hslot)
    · exact .inr (congrArg MpmcEntry.seq hslot)
  rcases hreads.eq_or_lt with heq | hlt
  · have hj := eq_of_mod_eq_mod hmod (by omega) (by omega)
    exact .inl ⟨heq.symm, hj ▸ hseq⟩
  · have hlap : j % c.capacity = (s.reads + c.capacity) % c.capacity := by
      rw [hmod, Nat.add_mod_right]
    have hj := eq_of_mod_eq_mod hlap (by omega) (by omega)
    exact .inr ⟨hlt, hj ▸ hseq⟩

theorem found_ne_retry (hinv : s.Inv c q) (hsized : c.Sized) {reader : MpmcReader α}
    (hplain : MpmcReader.Plain reader) :
    found c reader s.read_index (s.array (s.read_index % c.capacity)) ≠ .retry := by
  have hcurrent := hinv.entry_current hsized
  rw [hinv.read_index, slot_mod hsized]
  cases reader with
  | pop | lost =>
      simp only [found, fullSeq_mod hsized, fullSeq_mod_add hsized, emptySeq_mod hsized]
      rcases hcurrent with ⟨_, hseq | hseq⟩ | ⟨_, hseq | hseq⟩
      · simp [hseq]
      · rw [hseq]
        split_ifs <;> simp_all
      · rw [hseq, fullSeq_or_one hsized]
        split_ifs <;> simp_all
      · rw [hseq, emptySeq_or_one hsized]
        split_ifs <;> simp_all
  | empty =>
      simp only [found]
      split_ifs <;> simp
  | pop_if | peek => exact absurd hplain id

theorem Inv.free_of_seq (hinv : s.Inv c q) (hsized : c.Sized) {index : ℕ}
    (hseq : (s.array (index % c.capacity)).seq = emptySeq c index) :
    s.array (index % c.capacity) = ⟨0, emptySeq c index⟩ := by
  obtain ⟨j, _, _, _, ⟨_, d, _, hslot⟩ | ⟨_, hslot⟩⟩ := hinv.slot hsized index
  · rw [hslot] at hseq
    exact absurd hseq.symm (emptySeq_ne_fullSeq hsized _ _)
  · rw [hslot] at hseq ⊢
    rw [← hseq]

theorem advanceWrite_writes (hinv : s.Inv c q) {loaded : ℕ} (hcurrent : loaded = s.writes) :
    (s.advanceWrite c (loaded % 2 ^ c.bits_in_index)).writes = s.writes + 1 := by
  rw [advanceWrite, if_pos (hcurrent ▸ hinv.write_index)]

theorem advanceRead_reads (hinv : s.Inv c q) {loaded : ℕ} (hcurrent : loaded = s.reads) :
    (s.advanceRead c (loaded % 2 ^ c.bits_in_index)).reads = s.reads + 1 := by
  rw [advanceRead, if_pos (hcurrent ▸ hinv.read_index)]

variable [DecidableEq ι]

/-- What a push makes of the sequence number that it has read. -/
theorem rank_seq (hinv : s.Inv c q) (hsized : c.Sized) {call : MpmcCall α} {keep : Bool} {d : α}
    {wr_index : ℕ} (hpc : s.pc t = .seq keep d wr_index) (hrecent : s.Recent c t)
    (hseen : (s.step c (t, call)).seen = s.seen) :
    (s.step c (t, call)).rank c q ((s.step c (t, call)).loaded t) ((s.step c (t, call)).pc t) <
      s.rank c q (s.loaded t) (s.pc t) := by
  have hknows := hinv.threads t
  simp only [Recent, hpc] at hrecent
  rw [hpc] at hknows
  obtain ⟨hindex, hloaded⟩ := hknows
  have hslot : wr_index % c.capacity = s.loaded t % c.capacity := hindex ▸ slot_mod hsized _
  have hfull : fullSeq c wr_index = fullSeq c (s.loaded t) := hindex ▸ fullSeq_mod hsized _
  have hempty : emptySeq c wr_index = emptySeq c (s.loaded t) := hindex ▸ emptySeq_mod hsized _
  have hahead : emptySeq c (wr_index + c.capacity) = emptySeq c (s.loaded t + c.capacity) :=
    hindex ▸ emptySeq_mod_add hsized _ _
  simp only [step, hpc] at hseen ⊢
  split_ifs at hseen ⊢ with hfree hbehind hlap hkeep
  · rw [hslot, hempty] at hfree
    have hentry := hinv.free_of_seq hsized hfree
    rw [rank_goTo, goTo_pc_self, goTo_loaded]
    simp only [rank, hslot, hempty, if_pos hentry]
    split_ifs <;> omega
  · rw [hslot, hfull, hahead] at hbehind
    have hlt := hinv.lt_next_of_seq hsized hloaded hrecent hbehind
    rw [rank_goTo, goTo_pc_self, goTo_loaded]
    simp only [rank]
    split_ifs <;> omega
  · exact absurd hseen (by simp [observe, goTo])
  · exact absurd hseen (by simp [observe, goTo])
  · have hstale : s.loaded t ≠ s.writes := by
      intro hcurrent
      have hseq := hinv.seq_current hsized
      rw [hslot, hempty, hcurrent] at hfree
      rw [hslot, hfull, hahead, hcurrent] at hbehind
      rw [hslot, hfull, hcurrent] at hlap
      tauto
    rw [rank_goTo, goTo_pc_self, goTo_loaded]
    simp only [rank, if_neg hstale]
    omega

/-- What a reader makes of the entry that it has read. -/
theorem rank_entry (hinv : s.Inv c q) (hsized : c.Sized) {call : MpmcCall α}
    {reader : MpmcReader α} {rd_index : ℕ} (hpc : s.pc t = .entry reader rd_index)
    (hrecent : s.Recent c t) (hplain : MpmcPc.Plain (s.pc t))
    (hseen : (s.step c (t, call)).seen = s.seen) :
    (s.step c (t, call)).rank c q ((s.step c (t, call)).loaded t) ((s.step c (t, call)).pc t) <
      s.rank c q (s.loaded t) (s.pc t) := by
  have hknows := hinv.threads t
  simp only [Recent, hpc] at hrecent
  rw [hpc] at hknows hplain
  obtain ⟨hindex, hloaded⟩ := hknows
  have hentry := hinv.entry hsized reader hloaded hrecent
  rw [← hindex] at hentry
  simp only [step, hpc] at hseen ⊢
  cases hfound : found c reader rd_index (s.array (rd_index % c.capacity)) with
  | none | front | notEmpty =>
      simp only [hfound] at hseen
      exact absurd hseen (by simp [observe, goTo])
  | take =>
      rw [rank_goTo, goTo_pc_self, goTo_loaded]
      simp only [rank, if_pos]
      split_ifs <;> omega
  | help =>
      simp only [hfound] at hentry
      rw [rank_goTo, goTo_pc_self, goTo_loaded]
      simp only [rank]
      split_ifs <;> omega
  | retry =>
      have hstale : s.loaded t ≠ s.reads := by
        intro hcurrent
        rw [hcurrent, ← hinv.read_index] at hindex
        rw [hindex] at hfound
        exact found_ne_retry hinv hsized hplain hfound
      rw [rank_goTo, goTo_pc_self, goTo_loaded]
      simp only [rank, if_neg hstale]
      omega

/-- A step that is neither seen nor the return of its call brings the thread closer to one. -/
theorem rank_self (hinv : s.Inv c q) (hsized : c.Sized) {call : MpmcCall α}
    (hrecent : s.Recent c t) (hplain : MpmcPc.Plain (s.pc t))
    (hseen : (s.step c (t, call)).seen = s.seen) (hreturn : (s.step c (t, call)).pc t ≠ .idle) :
    (s.step c (t, call)).rank c q ((s.step c (t, call)).loaded t) ((s.step c (t, call)).pc t) <
      s.rank c q (s.loaded t) (s.pc t) := by
  have hknows := hinv.threads t
  have hnext := hinv.next_le
  have hfirst := hinv.first_le
  cases hpc : s.pc t with
  | idle =>
      simp only [step, hpc] at hseen ⊢
      cases call with
      | exchange i old_value new_value =>
          rw [begin, exchange] at hseen
          split_ifs at hseen <;> exact absurd hseen (by simp [observe, setEntry])
      | push | push_keep_n | read =>
          simp only [begin]
          rw [rank_goTo, goTo_pc_self]
          simp only [rank]
          omega
  | push keep d =>
      simp only [step, hpc, goTo, loadWrite, Function.update_self, rank, if_pos]
      omega
  | read reader =>
      simp only [step, hpc, goTo, loadRead, Function.update_self, rank, if_pos]
      omega
  | seq keep d wr_index =>
      rw [← hpc]
      exact rank_seq hinv hsized hpc hrecent hseen
  | store keep d wr_index =>
      simp only [step, hpc] at hseen ⊢
      by_cases hentry : s.array (wr_index % c.capacity) = ⟨0, emptySeq c wr_index⟩
      · rw [if_pos hentry] at hseen
        exact absurd hseen (by simp [observe, setEntry, goTo])
      · rw [if_neg hentry]
        rw [rank_goTo, goTo_pc_self, goTo_loaded]
        simp only [rank, if_neg hentry]
        omega
  | helpWrite keep d wr_index =>
      rw [hpc] at hknows
      obtain ⟨hindex, hloaded, hpushed⟩ := hknows
      have hwrites := (frame_advanceWrite (c := c) (t := t) s wr_index).writes_le
      simp only [step, hpc]
      rw [rank_goTo, goTo_pc_self, goTo_loaded]
      simp only [rank]
      split_ifs with hcurrent
      · rw [hindex, advanceWrite_writes hinv hcurrent]
        omega
      · omega
  | stored wr_index =>
      simp only [step, hpc, goTo_pc_self] at hreturn
      exact absurd rfl hreturn
  | entry reader rd_index =>
      rw [← hpc]
      exact rank_entry hinv hsized hpc hrecent hplain hseen
  | take reader rd_index e =>
      simp only [step, hpc] at hseen ⊢
      by_cases hentry : s.array (rd_index % c.capacity) = e
      · rw [if_pos hentry] at hseen
        exact absurd hseen (by simp [observe, setEntry, goTo])
      · rw [if_neg hentry]
        rw [rank_goTo, goTo_pc_self, goTo_loaded]
        simp only [rank, if_neg hentry]
        omega
  | helpRead reader rd_index =>
      rw [hpc] at hknows
      obtain ⟨hindex, hloaded, hpopped⟩ := hknows
      have hreads := (frame_advanceRead (c := c) (t := t) s rd_index).reads_le
      simp only [step, hpc]
      rw [rank_goTo, goTo_pc_self, goTo_loaded]
      simp only [rank]
      split_ifs with hcurrent
      · rw [hindex, advanceRead_reads hinv hcurrent]
        omega
      · omega
  | took reader rd_index =>
      simp only [step, hpc, goTo_pc_self] at hreturn ⊢
      cases reader with
      | lost d =>
          rw [rank_goTo]
          simp only [afterRead, rank, advanceRead_writes]
          omega
      | pop | pop_if | peek | empty => exact absurd rfl hreturn

theorem plain_step {call : MpmcCall α} (hplain : MpmcPc.Plain (s.pc t))
    (hcall : MpmcCall.Plain call) : MpmcPc.Plain ((s.step c (t, call)).pc t) := by
  have hback : ∀ reader : MpmcReader α, MpmcPc.Plain (afterRead reader) := by
    intro reader
    cases reader <;> trivial
  cases hpc : s.pc t with
  | idle =>
      simp only [step, hpc]
      cases call with
      | exchange =>
          rw [begin, exchange]
          split_ifs <;> exact hpc ▸ trivial
      | push | push_keep_n | read =>
          simp only [begin, goTo_pc_self]
          exact hcall
  | push | helpWrite | stored =>
      simp only [step, hpc, goTo_pc_self]
      trivial
  | seq keep =>
      simp only [step, hpc]
      split_ifs <;> simp only [goTo_pc_self] <;> trivial
  | store =>
      simp only [step, hpc]
      split_ifs <;> simp only [goTo_pc_self] <;> trivial
  | read reader | helpRead reader =>
      simp only [step, hpc, goTo_pc_self]
      rw [hpc] at hplain
      exact hplain
  | entry reader rd_index =>
      simp only [step, hpc]
      rw [hpc] at hplain
      split <;> simp only [goTo_pc_self] <;> first | exact hback reader | exact hplain
  | take reader =>
      simp only [step, hpc]
      rw [hpc] at hplain
      split_ifs <;> simp only [goTo_pc_self] <;> first | exact hback reader | exact hplain
  | took reader =>
      simp only [step, hpc, goTo_pc_self]
      exact hback reader

theorem seen_grows_run (c : MpmcConfig) (s : MpmcQueue ι α) (inputs : List (ι × MpmcCall α)) :
    s.seen <+: (run (step c) s inputs).seen :=
  run_invariant (fun s' => s.seen <+: s'.seen) (List.prefix_refl _)
    (fun s' input hprefix => hprefix.trans (frame_step c s' input.1 input.2).seen_grows) inputs

/-- The step of the thread is the last of its call. -/
def Returns (c : MpmcConfig) (s : MpmcQueue ι α) (t : ι) (inputs : List (ι × MpmcCall α)) : Prop :=
  ∃ first call rest, inputs = first ++ (t, call) :: rest ∧
    (run (step c) s (first ++ [(t, call)])).pc t = .idle

theorem rank_run {inputs : List (ι × MpmcCall α)} (hinv : s.Inv c q) (hsized : c.Sized)
    (hrecent : RunOk (step c) (fun s input => s.Recent c input.1) s inputs)
    (hplain : MpmcPc.Plain (s.pc t)) (hcalls : ∀ call, (t, call) ∈ inputs → MpmcCall.Plain call)
    (hseen : (run (step c) s inputs).seen = s.seen) (hreturn : ¬ Returns c s t inputs) :
    (inputs.map Prod.fst).count t ≤ s.rank c q (s.loaded t) (s.pc t) := by
  induction inputs generalizing s with
  | nil => exact Nat.zero_le _
  | cons input inputs ih =>
      obtain ⟨u, call⟩ := input
      rw [run_cons] at hseen
      have hframe := frame_step c s u call
      have hunseen : (s.step c (u, call)).seen = s.seen := by
        apply (hframe.seen_grows.eq_of_length_le _).symm
        rw [← hseen]
        exact (seen_grows_run c _ inputs).length_le
      have hinv' := hinv.step_unseen hsized hrecent.1 hunseen
      have hreturn' : ¬ Returns c (s.step c (u, call)) t inputs := by
        rintro ⟨first, call', rest, hsplit, hidle⟩
        exact hreturn ⟨(u, call) :: first, call', rest, by rw [hsplit]; rfl, hidle⟩
      have hcalls' : ∀ call, (t, call) ∈ inputs → MpmcCall.Plain call :=
        fun call hmem => hcalls call (List.mem_cons_of_mem _ hmem)
      rw [List.map_cons]
      by_cases hself : t = u
      · cases hself
        have hgoes : (s.step c (t, call)).pc t ≠ .idle :=
          fun hidle => hreturn ⟨[], call, inputs, rfl, hidle⟩
        have hless := rank_self (t := t) hinv hsized hrecent.1 hplain hunseen hgoes
        have hplain' := plain_step (c := c) hplain (hcalls call (List.mem_cons_self ..))
        have hrest := ih hinv' hrecent.2 hplain' hcalls' (hseen.trans hunseen.symm) hreturn'
        rw [List.count_cons_self]
        omega
      · have hless := rank_other hinv hinv' hframe hunseen hself
        have hplain' : MpmcPc.Plain ((s.step c (u, call)).pc t) := by
          rwa [hframe.pc_eq t hself]
        have hrest := ih hinv' hrecent.2 hplain' hcalls' (hseen.trans hunseen.symm) hreturn'
        rw [List.count_cons_of_ne (Ne.symm hself)]
        omega

theorem plain_run {inputs : List (ι × MpmcCall α)} (hplain : MpmcPc.Plain (s.pc t))
    (hcalls : ∀ call, (t, call) ∈ inputs → MpmcCall.Plain call) :
    MpmcPc.Plain ((run (step c) s inputs).pc t) := by
  induction inputs generalizing s with
  | nil => exact hplain
  | cons input inputs ih =>
      obtain ⟨u, call⟩ := input
      apply ih
      · by_cases hself : t = u
        · cases hself
          exact plain_step hplain (hcalls call (List.mem_cons_self ..))
        · rwa [(frame_step c s u call).pc_eq t hself]
      · exact fun call hmem => hcalls call (List.mem_cons_of_mem _ hmem)

/-- Among any nine steps of a thread its call returns, or some thread's call is served: the
calls other than `peek` and `pop_if` are lock-free. -/
theorem mpmc_queue_lock_free (hadmitted : c.admitted = true) (hcapacity : c.capacity ≠ 0)
    (before later : List (ι × MpmcCall α))
    (hrecent : RunOk (step c) (fun s input => s.Recent c input.1) (start c) (before ++ later))
    (hcalls : ∀ call, (t, call) ∈ before ++ later → MpmcCall.Plain call)
    (hcount : 8 < (later.map Prod.fst).count t) :
    Returns c (run (step c) (start c) before) t later ∨
      (run (step c) (start c) before).seen ≠ (run (step c) (start c) (before ++ later)).seen := by
  have hsized := sized_of_admitted hadmitted hcapacity
  rw [runOk_append] at hrecent
  obtain ⟨q, hinv⟩ := run_inv hsized hrecent.1
  by_contra hnone
  rw [not_or, not_not, run_append] at hnone
  have hplain : MpmcPc.Plain ((run (step c) (start c) before).pc t) :=
    plain_run trivial fun call hmem => hcalls call (List.mem_append_left _ hmem)
  have hbound := rank_run hinv hsized hrecent.2 hplain
    (fun call hmem => hcalls call (List.mem_append_right _ hmem)) hnone.2.symm hnone.1
  have hrank := rank_le (t := t) hinv
  omega

/-- A `push_keep_n` of a full queue that holds one item, against a pop. -/
theorem mpmc_queue_lock_free_keep :
    let c : MpmcConfig := ⟨32, 1, false, true⟩
    let before : List (Fin 2 × MpmcCall ℕ) := List.replicate 5 (0, .push 7)
    let later : List (Fin 2 × MpmcCall ℕ) :=
      (List.replicate 3 [(0, .push_keep_n 8), (1, .read .pop), (0, .push_keep_n 8),
        (0, .push_keep_n 8)]).flatten
    (later.map Prod.fst).count 0 = 9 ∧
      (Returns c (run (step c) (start c) before) 0 later ∨
        (run (step c) (start c) before).seen ≠ (run (step c) (start c) (before ++ later)).seen) := by
  intro c before later
  have hadmitted : c.admitted = true := admitted_iff.mpr (.inr ⟨0, rfl, by decide⟩)
  refine ⟨by decide, ?_⟩
  apply mpmc_queue_lock_free hadmitted (by decide) before later (by decide)
  · intro call hmem
    simp only [before, later, List.mem_append, List.mem_replicate, List.mem_flatten] at hmem
    rcases hmem with ⟨_, hcall⟩ | ⟨round, ⟨_, hround⟩, hmem⟩
    · rw [(Prod.mk.inj hcall).2]
      trivial
    · rw [hround] at hmem
      simp only [List.mem_cons, Prod.mk.injEq, List.not_mem_nil, or_false] at hmem
      rcases hmem with ⟨_, hcall⟩ | ⟨_, hcall⟩ | ⟨_, hcall⟩ | ⟨_, hcall⟩ <;>
        exact hcall ▸ trivial
  · decide

end Rank

end MpmcQueue

end CppPlay.MultiThread
