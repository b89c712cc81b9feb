import CppPlay.MultiThread.MpmcProgress

/-!
# The looks at a queue whose read index lags

A pop frees its slot before the read index is advanced, with `lazy_pop` until the next
pop.  A pop that finds the slot a lap ahead advances the index; `peek` and `pop_if`
mean to do the same, but they compare the position that is left of the sequence number
with an index that has one bit more.
-/

namespace CppPlay.MultiThread

open CppPlay.Lib

namespace MpmcQueue

variable {ι α : Type} {c : MpmcConfig} {s : MpmcQueue ι α} {q : BoundedQueue α} {t : ι}
  {reader : MpmcReader α}

/-- The readers whose call ends with an item or without one. -/
def MpmcReader.Single : MpmcReader α → Prop
  | .pop | .pop_if _ | .peek => True
  | .lost _ | .empty => False

theorem single_of_not_plain (hlook : ¬ MpmcReader.Plain reader) : MpmcReader.Single reader := by
  cases reader with
  | pop | lost | empty => exact absurd trivial hlook
  | pop_if | peek => trivial

theorem afterRead_of_single (hsingle : MpmcReader.Single reader) : afterRead reader = .idle := by
  cases reader with
  | lost => exact absurd hsingle id
  | pop | pop_if | peek | empty => rfl

/-- A position and the one a lap ahead have different sequence numbers. -/
theorem lap_ne (hsized : c.Sized) (i : ℕ) : (i + c.capacity) % c.period ≠ i % c.period := by
  have hcapacity := hsized.capacity_lt
  have hpos := hsized.capacity_pos
  intro hmod
  have heq := eq_of_mod_eq_mod hmod (by omega) (by omega)
  omega

section Found

variable [DecidableEq α] [Zero α]

theorem Inv.found_settled (hinv : s.Inv c q) (hsized : c.Sized)
    (hsingle : MpmcReader.Single reader) (hsettled : q.first = s.reads) :
    let e := s.array (s.read_index % c.capacity)
    found c reader s.read_index e = .none ∨ found c reader s.read_index e = .front ∨
      found c reader s.read_index e = .take := by
  have hcurrent := hinv.entry_current hsized
  rw [hinv.read_index, slot_mod hsized]
  intro e
  have hseq : e.seq = fullSeq c s.reads ∨ e.seq = emptySeq c s.reads := by
    rcases hcurrent with ⟨_, hseq⟩ | ⟨hlt, _⟩
    · exact hseq
    · exact absurd hsettled hlt.ne'
  cases reader with
  | lost | empty => exact absurd hsingle id
  | pop =>
      simp only [found, fullSeq_mod hsized, emptySeq_mod hsized, fullSeq_mod_add hsized]
      rcases hseq with hseq | hseq
      · rw [if_pos hseq]
        exact .inr (.inr rfl)
      · have hahead : ¬ e.seq ||| 1 = fullSeq c (s.reads + c.capacity) := by
          rw [hseq, emptySeq_or_one hsized, fullSeq_inj hsized]
          exact (lap_ne hsized s.reads).symm
        rw [if_neg (by rw [hseq]; exact emptySeq_ne_fullSeq hsized _ _), if_neg hahead,
          if_pos hseq]
        exact .inl rfl
  | pop_if | peek =>
      simp only [found, fullSeq_mod hsized, emptySeq_mod hsized]
      rcases hseq with hseq | hseq
      · rw [if_neg (by rw [hseq]; exact (emptySeq_ne_fullSeq hsized _ _).symm), if_pos hseq]
        first | exact .inr (.inl rfl) | (split_ifs <;> simp)
      · rw [if_pos hseq]
        exact .inl rfl

/-- Behind the pops, a pop advances the index. -/
theorem Inv.found_lagging_pop (hinv : s.Inv c q) (hsized : c.Sized) (hlags : s.reads < q.first) :
    found c .pop s.read_index (s.array (s.read_index % c.capacity)) = .help := by
  have hcurrent := hinv.entry_current hsized
  rw [hinv.read_index, slot_mod hsized]
  generalize s.array (s.reads % c.capacity) = e at hcurrent
  simp only [found, fullSeq_mod hsized, fullSeq_mod_add hsized]
  rcases hcurrent with ⟨hsettled, _⟩ | ⟨_, hseq | hseq⟩
  · exact absurd hsettled hlags.ne'
  · have hhere : ¬ e.seq = fullSeq c s.reads := by
      rw [hseq, fullSeq_inj hsized]
      exact lap_ne hsized s.reads
    rw [if_neg hhere, if_pos (by rw [hseq, fullSeq_or_one hsized])]
  · have hhere : ¬ e.seq = fullSeq c s.reads := by
      rw [hseq]
      exact emptySeq_ne_fullSeq hsized _ _
    rw [if_neg hhere, if_pos (by rw [hseq, emptySeq_or_one hsized])]

/-- Behind the pops, the index is advanced only if it has its upper bit clear. -/
theorem Inv.found_lagging (hinv : s.Inv c q) (hsized : c.Sized)
    (hlook : ¬ MpmcReader.Plain reader) (hlags : s.reads < q.first) :
    found c reader s.read_index (s.array (s.read_index % c.capacity)) =
      if (s.read_index + c.capacity) % 2 ^ c.bits_in_index < c.period then .help else .retry := by
  have hcurrent := hinv.entry_current hsized
  have hnot := lap_ne hsized s.reads
  have hslot : s.array (s.read_index % c.capacity) = s.array (s.reads % c.capacity) := by
    rw [hinv.read_index, slot_mod hsized]
  have hempty : emptySeq c s.read_index = emptySeq c s.reads :=
    hinv.read_index ▸ emptySeq_mod hsized _
  have hfull : fullSeq c s.read_index = fullSeq c s.reads :=
    hinv.read_index ▸ fullSeq_mod hsized _
  have hahead : (s.read_index + c.capacity) % 2 ^ c.bits_in_index % c.period =
      (s.reads + c.capacity) % c.period := by
    rw [mod_bits_mod_period hsized, hinv.read_index, ← Nat.mod_add_mod,
      mod_bits_mod_period hsized, Nat.mod_add_mod]
  have hshift : (s.reads + c.capacity) % c.period =
      (s.read_index + c.capacity) % 2 ^ c.bits_in_index ↔
        (s.read_index + c.capacity) % 2 ^ c.bits_in_index < c.period := by
    rw [← hahead]
    exact Nat.mod_eq_iff_lt (Nat.two_pow_pos _).ne'
  rw [hslot]
  generalize s.array (s.reads % c.capacity) = e at hcurrent
  have hseq : e.seq ≠ emptySeq c s.reads ∧ e.seq ≠ fullSeq c s.reads ∧
      e.seq >>> 1 = (s.reads + c.capacity) % c.period := by
    rcases hcurrent with ⟨hsettled, _⟩ | ⟨_, hseq | hseq⟩
    · exact absurd hsettled hlags.ne'
    · rw [hseq]
      exact ⟨(emptySeq_ne_fullSeq hsized _ _).symm, fun h => hnot ((fullSeq_inj hsized).mp h),
        fullSeq_shiftRight hsized _⟩
    · rw [hseq]
      exact ⟨fun h => hnot ((emptySeq_inj hsized).mp h), emptySeq_ne_fullSeq hsized _ _,
        emptySeq_shiftRight hsized _⟩
  cases reader with
  | pop | lost | empty => exact absurd trivial hlook
  | pop_if | peek =>
      simp only [found, hempty, hfull, if_neg hseq.1, if_neg hseq.2.1, hseq.2.2, hshift]

end Found

/-! ## A thread alone -/

section Alone

variable [DecidableEq ι] [DecidableEq α] [Zero α]

/-- The thread takes `n` steps, nobody else any. -/
def alone (c : MpmcConfig) (s : MpmcQueue ι α) (t : ι) (reader : MpmcReader α) (n : ℕ) :
    MpmcQueue ι α :=
  run (step c) s (List.replicate n (t, .read reader))

@[simp] theorem alone_zero : alone c s t reader 0 = s := rfl

theorem alone_succ (n : ℕ) :
    alone c s t reader (n + 1) = alone c (s.step c (t, .read reader)) t reader n := rfl

theorem step_read {call : MpmcCall α} (hpc : s.pc t = .read reader) :
    s.step c (t, call) = (s.loadRead t).goTo t (.entry reader s.read_index) := by
  simp only [step, hpc]

theorem alone_took {rd_index : ℕ} (hsingle : MpmcReader.Single reader)
    (hpc : s.pc t = .took reader rd_index) : (alone c s t reader 1).pc t = .idle := by
  rw [alone_succ, alone_zero]
  simp only [step, hpc, goTo_pc_self]
  exact afterRead_of_single hsingle

theorem alone_take {rd_index : ℕ} {e : MpmcEntry α} (hsingle : MpmcReader.Single reader)
    (hpc : s.pc t = .take reader rd_index e) (hentry : s.array (rd_index % c.capacity) = e) :
    ∃ n, (alone c s t reader n).pc t = .idle := by
  cases hlazy : c.lazy_pop with
  | true =>
      refine ⟨1, ?_⟩
      rw [alone_succ, alone_zero]
      simp only [step, hpc, if_pos hentry, hlazy, if_true, goTo_pc_self]
      exact afterRead_of_single hsingle
  | false =>
      refine ⟨2, ?_⟩
      rw [alone_succ]
      refine alone_took hsingle (?_ : _ = MpmcPc.took reader rd_index)
      simp only [step, hpc, if_pos hentry, hlazy, Bool.false_eq_true, if_false, goTo_pc_self]

theorem alone_settled (hinv : s.Inv c q) (hsized : c.Sized) (hsingle : MpmcReader.Single reader)
    (hsettled : q.first = s.reads) (hpc : s.pc t = .read reader) :
    ∃ n, (alone c s t reader n).pc t = .idle := by
  let s₁ := (s.loadRead t).goTo t (.entry reader s.read_index)
  have hpc₁ : s₁.pc t = .entry reader s.read_index := goTo_pc_self _ _
  have hfound := hinv.found_settled hsized hsingle hsettled
  have hstop : ∀ n, (alone c s₁ t reader n).pc t = .idle →
      ∃ n, (alone c s t reader n).pc t = .idle := by
    intro n hn
    exact ⟨n + 1, by rw [alone_succ, step_read hpc]; exact hn⟩
  rcases hfound with hnone | hfront | htake
  · apply hstop 1
    rw [alone_succ, alone_zero]
    simp only [step, hpc₁]
    rw [show s₁.array = s.array from rfl, hnone]
    simp only [goTo_pc_self]
    exact afterRead_of_single hsingle
  · apply hstop 1
    rw [alone_succ, alone_zero]
    simp only [step, hpc₁]
    rw [show s₁.array = s.array from rfl, hfront]
    simp only [goTo_pc_self]
    exact afterRead_of_single hsingle
  · have hnext : s₁.step c (t, .read reader) =
        s₁.goTo t (.take reader s.read_index (s.array (s.read_index % c.capacity))) := by
      simp only [step, hpc₁]
      rw [show s₁.array = s.array from rfl, htake]
    obtain ⟨n, hn⟩ := alone_take (c := c)
      (s := s₁.goTo t (.take reader s.read_index (s.array (s.read_index % c.capacity))))
      hsingle (goTo_pc_self _ _) rfl
    apply hstop (n + 1)
    rw [alone_succ, hnext]
    exact hn

/-- Once the lagging index has been advanced, the call goes on as usual. -/
theorem alone_helps (hinv : s.Inv c q) (hsized : c.Sized) (hsingle : MpmcReader.Single reader)
    (hlags : s.reads < q.first)
    (hfound : found c reader s.read_index (s.array (s.read_index % c.capacity)) = .help)
    (hpc : s.pc t = .read reader) : ∃ n, (alone c s t reader n).pc t = .idle := by
  let s₁ := (s.loadRead t).goTo t (.entry reader s.read_index)
  let s₂ := s₁.goTo t (.helpRead reader s.read_index)
  let s₃ := (s₂.advanceRead c s.read_index).goTo t (.read reader)
  have hcapacity := hsized.capacity_lt
  have hfirst : s.step c (t, .read reader) = s₁ := step_read hpc
  have hpc₁ : s₁.pc t = .entry reader s.read_index := goTo_pc_self _ _
  have hsecond : s₁.step c (t, .read reader) = s₂ := by
    simp only [step, hpc₁]
    rw [show s₁.array = s.array from rfl, hfound]
  have hpc₂ : s₂.pc t = .helpRead reader s.read_index := goTo_pc_self _ _
  have hthird : s₂.step c (t, .read reader) = s₃ := by simp only [step, hpc₂, s₃]
  have hloaded : s₂.loaded t = s.reads := Function.update_self ..
  have hrecent : s.reads + c.capacity < s₂.loaded t + c.period := by omega
  have hinv₁ : s₁.Inv c q := by
    rw [← hfirst]
    exact hinv.step_unseen hsized (by simp only [Recent, hpc]) (by rw [hfirst]; rfl)
  have hinv₂ : s₂.Inv c q := by
    rw [← hsecond]
    exact hinv₁.step_unseen hsized (by simp only [Recent, hpc₁]; exact hrecent)
      (by rw [hsecond]; rfl)
  have hadvance : s₂.advanceRead c s.read_index =
      { s₂ with
        read_index := (s.read_index + 1) % 2 ^ c.bits_in_index, reads := s₂.reads + 1 } :=
    if_pos rfl
  have hinv₃ : s₃.Inv c q := by
    rw [← hthird]
    apply hinv₂.step_unseen hsized (by simp only [Recent, hpc₂]; exact hrecent)
    rw [hthird]
    simp only [s₃, hadvance]
    rfl
  have hsettled : q.first = s₃.reads := by
    have hle := hinv.first_le
    have hreads : s₃.reads = s.reads + 1 := by
      simp only [s₃, hadvance]
      rfl
    omega
  obtain ⟨n, hn⟩ := alone_settled hinv₃ hsized hsingle hsettled (goTo_pc_self _ _)
  refine ⟨n + 1 + 1 + 1, ?_⟩
  rw [alone_succ, hfirst, alone_succ, hsecond, alone_succ, hthird]
  exact hn

/-- The thread tries again with the slots and the index that it started with. -/
def Retries (s : MpmcQueue ι α) (t : ι) (reader : MpmcReader α) (s' : MpmcQueue ι α) : Prop :=
  s'.array = s.array ∧ s'.read_index = s.read_index ∧
    (s'.pc t = .read reader ∨ s'.pc t = .entry reader s.read_index)

/-- With its upper bit set the lagging index stays, and the call tries again and again. -/
theorem alone_stuck (hfound : found c reader s.read_index
      (s.array (s.read_index % c.capacity)) = .retry) {s' : MpmcQueue ι α}
    (hretries : Retries s t reader s') (n : ℕ) : (alone c s' t reader n).pc t ≠ .idle := by
  induction n generalizing s' with
  | zero =>
      rcases hretries.2.2 with hpc | hpc <;> simp [hpc]
  | succ n ih =>
      obtain ⟨harray, hindex, hpc | hpc⟩ := hretries
      · rw [alone_succ, step_read hpc]
        exact ih ⟨harray, hindex, .inr (by rw [goTo_pc_self, hindex])⟩
      · have hstep : s'.step c (t, .read reader) = s'.goTo t (.read reader) := by
          simp only [step, hpc]
          rw [harray, hfound]
        rw [alone_succ, hstep]
        exact ih ⟨harray, hindex, .inl (goTo_pc_self _ _)⟩

/-- A pop that is not disturbed returns, and so does any call that finds the index where the pops
are or advances it. -/
theorem alone_returns (hinv : s.Inv c q) (hsized : c.Sized) (hsingle : MpmcReader.Single reader)
    (hfound : s.reads < q.first →
      found c reader s.read_index (s.array (s.read_index % c.capacity)) = .help)
    (hidle : s.pc t = .idle) : ∃ n, 0 < n ∧ (alone c s t reader n).pc t = .idle := by
  let s₁ := s.goTo t (.read reader)
  have hpc₁ : s₁.pc t = .read reader := goTo_pc_self _ _
  have hinv₁ : s₁.Inv c q := hinv.goTo trivial
  have hreturn : ∃ n, (alone c s₁ t reader n).pc t = .idle := by
    rcases hinv.reads_le.eq_or_lt with heq | hlags
    · exact alone_settled hinv₁ hsized hsingle heq.symm hpc₁
    · exact alone_helps hinv₁ hsized hsingle hlags (hfound hlags) hpc₁
  obtain ⟨n, hn⟩ := hreturn
  have hbegin : s.step c (t, .read reader) = s₁ := by simp only [step, hidle, begin, s₁]
  exact ⟨n + 1, Nat.succ_pos n, by rw [alone_succ, hbegin]; exact hn⟩

/-- A `peek` or a `pop_if` that is not disturbed returns, unless it starts behind the pops with
an index whose upper bit is set: then it runs until somebody else advances the index, as a pop
would. -/
theorem peek_returns_iff (hadmitted : c.admitted = true) (hcapacity : c.capacity ≠ 0)
    (before : List (ι × MpmcCall α))
    (hrecent : RunOk (step c) (fun s input => s.Recent c input.1) (start c) before)
    (hidle : (run (step c) (start c) before).pc t = .idle) (hlook : ¬ MpmcReader.Plain reader) :
    let s := run (step c) (start c) before
    ((∃ n, 0 < n ∧ (alone c s t reader n).pc t = .idle) ↔
      ¬ (s.reads < (BoundedQueue.pops (s.seen.map Prod.snd)).length ∧
        2 ^ (c.bits_in_index - 1) ≤ (s.read_index + c.capacity) % 2 ^ c.bits_in_index)) ∧
    ∃ n, 0 < n ∧ (alone c s t .pop n).pc t = .idle := by
  intro s
  have hsized := sized_of_admitted hadmitted hcapacity
  obtain ⟨q, hinv⟩ := run_inv hsized hrecent
  have hfirst := BoundedQueue.first_eq_of_replay hinv.legal
  refine ⟨⟨?_, ?_⟩, alone_returns hinv hsized trivial (hinv.found_lagging_pop hsized) hidle⟩
  · rintro ⟨n, hpos, hn⟩ ⟨hlags, hset⟩
    let s₁ := s.goTo t (.read reader)
    have hbegin : ∀ n, alone c s t reader (n + 1) = alone c s₁ t reader n := by
      intro n
      rw [alone_succ]
      congr 1
      simp only [step, show s.pc t = .idle from hidle]
      rfl
    have hpc₁ : s₁.pc t = .read reader := goTo_pc_self _ _
    obtain ⟨n, rfl⟩ := Nat.exists_eq_succ_of_ne_zero hpos.ne'
    rw [Nat.succ_eq_add_one, hbegin] at hn
    have hfound : found c reader s.read_index (s.array (s.read_index % c.capacity)) = .retry :=
      (hinv.found_lagging hsized hlook (hfirst ▸ hlags)).trans (if_neg (Nat.not_lt.mpr hset))
    exact alone_stuck (s := s₁) hfound ⟨rfl, rfl, .inl hpc₁⟩ n hn
  · intro hnot
    apply alone_returns hinv hsized (single_of_not_plain hlook) _ hidle
    intro hlags
    have hclear : (s.read_index + c.capacity) % 2 ^ c.bits_in_index < c.period := by
      by_contra hset
      exact hnot ⟨hfirst ▸ hlags, Nat.not_lt.mp hset⟩
    rw [hinv.found_lagging hsized hlook hlags, if_pos hclear]

/-- After a lazy pop the index lags, but it is small: a `peek` returns. -/
theorem peek_returns_iff_lazy :
    let c : MpmcConfig := ⟨32, 2, true, true⟩
    let before : List (Fin 2 × MpmcCall ℕ) :=
      List.replicate 4 (0, .push 7) ++ List.replicate 4 (1, .read .pop)
    (run (step c) (start c) before).reads = 0 ∧
      BoundedQueue.pops ((run (step c) (start c) before).seen.map Prod.snd) = [7] ∧
      ∃ n, 0 < n ∧ (alone c (run (step c) (start c) before) 0 .peek n).pc 0 = .idle := by
  intro c before
  have hadmitted : c.admitted = true := admitted_iff.mpr (.inr ⟨1, rfl, by decide⟩)
  refine ⟨by decide, by decide, ?_⟩
  have hlook : ¬ MpmcReader.Plain (.peek : MpmcReader ℕ) := id
  have hidle : (run (step c) (start c) before).pc 0 = .idle := by with_unfolding_all rfl
  exact (peek_returns_iff hadmitted (by decide) before (by decide) hidle hlook).1.mpr (by decide)

end Alone

end MpmcQueue

end CppPlay.MultiThread
