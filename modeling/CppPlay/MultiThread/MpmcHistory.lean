import CppPlay.MultiThread.MpmcQueue

/-!
# The lock-free queue is a bounded queue

The successful compare-and-swaps of the slots, with the reads that make a call return
without one, are observations of a queue that serves one call after another.  A thread's
index stays usable while the other threads advance it by less than what a sequence number
can tell apart, less the capacity.
-/

namespace CppPlay.MultiThread

open CppPlay.Lib

namespace MpmcQueue

variable {ι α : Type}

/-- The step of the thread comes before its index is out of date by a whole period. -/
def Recent (c : MpmcConfig) (s : MpmcQueue ι α) (t : ι) : Prop :=
  match s.pc t with
  | .idle | .push _ _ | .read _ => True
  | .seq _ _ _ | .store _ _ _ | .helpWrite _ _ _ | .stored _ =>
      s.writes + c.capacity < s.loaded t + c.period
  | .entry _ _ | .take _ _ _ | .helpRead _ _ | .took _ _ =>
      s.reads + c.capacity < s.loaded t + c.period

instance (c : MpmcConfig) (s : MpmcQueue ι α) (t : ι) : Decidable (s.Recent c t) := by
  unfold Recent
  split <;> infer_instance

/-- What a thread knows that loaded its index when it was `loaded`. -/
def Knows (c : MpmcConfig) (s : MpmcQueue ι α) (q : BoundedQueue α) (loaded : ℕ) :
    MpmcPc α → Prop
  | .idle | .push _ _ | .read _ => True
  | .seq _ _ wr_index | .store _ _ wr_index =>
      wr_index = loaded % 2 ^ c.bits_in_index ∧ loaded ≤ s.writes
  | .helpWrite _ _ wr_index | .stored wr_index =>
      wr_index = loaded % 2 ^ c.bits_in_index ∧ loaded ≤ s.writes ∧ loaded < q.next
  | .entry _ rd_index => rd_index = loaded % 2 ^ c.bits_in_index ∧ loaded ≤ s.reads
  | .take _ rd_index e =>
      rd_index = loaded % 2 ^ c.bits_in_index ∧ loaded ≤ s.reads ∧ e.seq = fullSeq c rd_index
  | .helpRead _ rd_index | .took _ rd_index =>
      rd_index = loaded % 2 ^ c.bits_in_index ∧ loaded ≤ s.reads ∧ loaded < q.first

/-- The slots are the window of the positions that may be popped or pushed next, and each index
is at the end of its part or one short of it. -/
structure Inv [DecidableEq α] [Zero α] (c : MpmcConfig) (s : MpmcQueue ι α)
    (q : BoundedQueue α) : Prop where
  legal : BoundedQueue.start.replay c.capacity c.period (s.seen.map Prod.snd) = some q
  write_index : s.write_index = s.writes % 2 ^ c.bits_in_index
  read_index : s.read_index = s.reads % 2 ^ c.bits_in_index
  writes_le : s.writes ≤ q.next
  next_le : q.next ≤ s.writes + 1
  reads_le : s.reads ≤ q.first
  first_le : q.first ≤ s.reads + 1
  full : ∀ k d, q.items[k]? = some d →
    s.array ((q.first + k) % c.capacity) = ⟨d, fullSeq c (q.first + k)⟩
  free : ∀ j, q.next ≤ j → j < q.first + c.capacity →
    s.array (j % c.capacity) = ⟨0, emptySeq c j⟩
  threads : ∀ t, Knows c s q (s.loaded t) (s.pc t)

variable {c : MpmcConfig} {s s' : MpmcQueue ι α} {q q' : BoundedQueue α} {t : ι}

theorem Knows.mono {loaded : ℕ} {pc : MpmcPc α} (hknows : Knows c s q loaded pc)
    (hwrites : s.writes ≤ s'.writes) (hreads : s.reads ≤ s'.reads) (hnext : q.next ≤ q'.next)
    (hfirst : q.first ≤ q'.first) : Knows c s' q' loaded pc := by
  cases pc with
  | idle | push | read => trivial
  | seq | store => exact ⟨hknows.1, hknows.2.trans hwrites⟩
  | helpWrite | stored =>
      exact ⟨hknows.1, hknows.2.1.trans hwrites, hknows.2.2.trans_le hnext⟩
  | entry => exact ⟨hknows.1, hknows.2.trans hreads⟩
  | take => exact ⟨hknows.1, hknows.2.1.trans hreads, hknows.2.2⟩
  | helpRead | took => exact ⟨hknows.1, hknows.2.1.trans hreads, hknows.2.2.trans_le hfirst⟩

variable [DecidableEq α] [Zero α]

theorem Inv.length_le (hinv : s.Inv c q) : q.items.length ≤ c.capacity :=
  BoundedQueue.length_le_of_replay hinv.legal

theorem start_inv : (start c : MpmcQueue ι α).Inv c .start := by
  constructor
  · rfl
  · exact (Nat.zero_mod _).symm
  · exact (Nat.zero_mod _).symm
  · exact le_rfl
  · exact Nat.zero_le _
  · exact le_rfl
  · exact Nat.zero_le _
  · intro k d hitem
    exact absurd hitem (by simp [BoundedQueue.start])
  · intro j _ hj
    have hlt : j < c.capacity := by simpa [BoundedQueue.start] using hj
    rw [Nat.mod_eq_of_lt hlt]
    rfl
  · intro t
    trivial

/-! ## What a slot tells -/

/-- The slot of any index belongs to one position, which holds an item or is free. -/
theorem Inv.slot (hinv : s.Inv c q) (hsized : c.Sized) (index : ℕ) :
    ∃ j, q.first ≤ j ∧ j < q.first + c.capacity ∧ j % c.capacity = index % c.capacity ∧
      ((j < q.next ∧ ∃ d, q.items[j - q.first]? = some d ∧
          s.array (index % c.capacity) = ⟨d, fullSeq c j⟩) ∨
        (q.next ≤ j ∧ s.array (index % c.capacity) = ⟨0, emptySeq c j⟩)) := by
  have hlt := BoundedQueue.offset_lt hsized.capacity_pos q index
  have hslot := BoundedQueue.first_add_offset hsized.capacity_pos q index
  generalize q.offset c.capacity index = k at hlt hslot
  refine ⟨q.first + k, Nat.le_add_right _ _, by omega, hslot, ?_⟩
  rw [← hslot]
  rcases Nat.lt_or_ge k q.items.length with hitem | hfree
  · left
    have hget := List.getElem?_eq_getElem hitem
    rw [Nat.add_sub_cancel_left, BoundedQueue.next]
    exact ⟨by omega, _, hget, hinv.full k _ hget⟩
  · right
    have hnext : q.next ≤ q.first + k := Nat.add_le_add_left hfree _
    exact ⟨hnext, hinv.free _ hnext (by omega)⟩

section Writer

variable (hsized : c.Sized) (hinv : s.Inv c q) {loaded : ℕ} (hloaded : loaded ≤ s.writes)
  (hrecent : s.writes + c.capacity < loaded + c.period)

include hsized hinv hloaded hrecent

theorem Inv.lt_next_of_seq
    (hseq : (s.array (loaded % c.capacity)).seq = fullSeq c loaded ∨
      (s.array (loaded % c.capacity)).seq = emptySeq c (loaded + c.capacity)) :
    loaded < q.next := by
  obtain ⟨j, hfirst, hlast, _, ⟨hj, d, _, hentry⟩ | ⟨hj, hentry⟩⟩ := hinv.slot hsized loaded
  · rcases hseq with hfull | hempty
    · rw [hentry, fullSeq_inj hsized] at hfull
      have hnext := hinv.next_le
      have hwrites := hinv.writes_le
      have hlength := hinv.length_le
      rw [BoundedQueue.next] at hj hnext hwrites ⊢
      have heq := eq_of_mod_eq_mod hfull (by omega) (by omega)
      omega
    · rw [hentry] at hempty
      exact absurd hempty.symm (emptySeq_ne_fullSeq hsized _ _)
  · rcases hseq with hfull | hempty
    · rw [hentry] at hfull
      exact absurd hfull (emptySeq_ne_fullSeq hsized _ _)
    · rw [hentry, emptySeq_inj hsized] at hempty
      have hnext := hinv.next_le
      have hwrites := hinv.writes_le
      have hle : q.first ≤ q.next := Nat.le_add_right _ _
      have hcapacity := hsized.capacity_lt
      have heq := eq_of_mod_eq_mod hempty (by omega) (by omega)
      omega

theorem Inv.full_of_seq
    (hseq : ((s.array (loaded % c.capacity)).seq + (c.capacity <<< 1)) % 2 ^ c.bits_in_index =
      fullSeq c loaded) :
    q.items.length = c.capacity := by
  obtain ⟨j, hfirst, hlast, _, ⟨hj, d, _, hentry⟩ | ⟨hj, hentry⟩⟩ := hinv.slot hsized loaded
  · rw [hentry, fullSeq_add hsized, fullSeq_inj hsized] at hseq
    have hnext := hinv.next_le
    have hwrites := hinv.writes_le
    have hlength := hinv.length_le
    rw [BoundedQueue.next] at hj hnext hwrites
    have heq := eq_of_mod_eq_mod hseq (by omega) (by omega)
    omega
  · rw [hentry, emptySeq_add hsized] at hseq
    exact absurd hseq (emptySeq_ne_fullSeq hsized _ _)

theorem Inv.next_of_entry
    (hentry : s.array (loaded % c.capacity) = ⟨0, emptySeq c loaded⟩) :
    loaded = q.next ∧ q.items.length < c.capacity := by
  obtain ⟨j, hfirst, hlast, _, ⟨hj, d, _, hslot⟩ | ⟨hj, hslot⟩⟩ := hinv.slot hsized loaded
  · rw [hslot, MpmcEntry.mk.injEq] at hentry
    exact absurd hentry.2.symm (emptySeq_ne_fullSeq hsized _ _)
  · rw [hslot, MpmcEntry.mk.injEq, emptySeq_inj hsized] at hentry
    have hwrites := hinv.writes_le
    have hle := hinv.next_le
    have hnext : q.next = q.first + q.items.length := rfl
    have heq := eq_of_mod_eq_mod hentry.2 (by omega) (by omega)
    omega

end Writer

section Reader

variable (hsized : c.Sized) (hinv : s.Inv c q) {loaded : ℕ} (hloaded : loaded ≤ s.reads)
  (hrecent : s.reads + c.capacity < loaded + c.period)

include hsized hinv hloaded hrecent

theorem Inv.head_of_seq (hseq : (s.array (loaded % c.capacity)).seq = fullSeq c loaded) :
    loaded = q.first ∧ q.items.head? = some (s.array (loaded % c.capacity)).data := by
  obtain ⟨j, hfirst, hlast, _, ⟨hj, d, hget, hentry⟩ | ⟨hj, hentry⟩⟩ := hinv.slot hsized loaded
  · rw [hentry, fullSeq_inj hsized] at hseq
    have hreads := hinv.reads_le
    have hle := hinv.first_le
    have heq := eq_of_mod_eq_mod hseq (by omega) (by omega)
    have hzero : j - q.first = 0 := by omega
    rw [hzero] at hget
    rw [hentry, List.head?_eq_getElem?]
    exact ⟨by omega, hget⟩
  · rw [hentry] at hseq
    exact absurd hseq (emptySeq_ne_fullSeq hsized _ _)

theorem Inv.empty_of_seq (hseq : (s.array (loaded % c.capacity)).seq = emptySeq c loaded) :
    q.items = [] := by
  obtain ⟨j, hfirst, hlast, _, ⟨hj, d, hget, hentry⟩ | ⟨hj, hentry⟩⟩ := hinv.slot hsized loaded
  · rw [hentry] at hseq
    exact absurd hseq.symm (emptySeq_ne_fullSeq hsized _ _)
  · rw [hentry, emptySeq_inj hsized] at hseq
    have hreads := hinv.reads_le
    have hle := hinv.first_le
    have hnext : q.next = q.first + q.items.length := rfl
    have heq := eq_of_mod_eq_mod hseq (by omega) (by omega)
    apply List.eq_nil_of_length_eq_zero
    omega

/-- Both ways to find the slot a lap ahead look at its position only. -/
theorem Inv.lt_first_of_seq
    (hseq : (s.array (loaded % c.capacity)).seq >>> 1 % c.period =
      (loaded + c.capacity) % c.period) :
    loaded < q.first := by
  obtain ⟨j, hfirst, hlast, _, hslot⟩ := hinv.slot hsized loaded
  have hmod : j % c.period = (loaded + c.capacity) % c.period := by
    rcases hslot with ⟨_, d, _, hentry⟩ | ⟨_, hentry⟩
    · rwa [hentry, fullSeq_shiftRight hsized, Nat.mod_mod] at hseq
    · rwa [hentry, emptySeq_shiftRight hsized, Nat.mod_mod] at hseq
  have hreads := hinv.reads_le
  have hle := hinv.first_le
  have hcapacity := hsized.capacity_lt
  have heq := eq_of_mod_eq_mod hmod (by omega) (by omega)
  omega

end Reader

/-! ## What a step keeps -/

section Thread

variable [DecidableEq ι]

theorem Inv.goTo (hinv : s.Inv c q) {pc : MpmcPc α} (hknows : Knows c s q (s.loaded t) pc) :
    (s.goTo t pc).Inv c q :=
  { hinv with
    threads := forall_update (P := fun u pc => Knows c s q (s.loaded u) pc) hknows
      fun u _ => hinv.threads u }

theorem Inv.loadWrite (hinv : s.Inv c q) (hidle : ∀ loaded, Knows c s q loaded (s.pc t)) :
    (s.loadWrite t).Inv c q :=
  { hinv with
    threads := forall_update (P := fun u loaded => Knows c s q loaded (s.pc u)) (hidle _)
      fun u _ => hinv.threads u }

theorem Inv.loadRead (hinv : s.Inv c q) (hidle : ∀ loaded, Knows c s q loaded (s.pc t)) :
    (s.loadRead t).Inv c q :=
  { hinv with
    threads := forall_update (P := fun u loaded => Knows c s q loaded (s.pc u)) (hidle _)
      fun u _ => hinv.threads u }

end Thread

theorem Inv.legal_concat (hinv : s.Inv c q) {o : Observation α}
    (hafter : q.after c.capacity c.period o = some q') :
    BoundedQueue.start.replay c.capacity c.period ((s.seen ++ [(t, o)]).map Prod.snd) =
      some q' := by
  rw [List.map_append, List.map_singleton, BoundedQueue.replay_concat hinv.legal]
  exact hafter

/-- An observation that takes nothing from the queue and brings nothing to it. -/
theorem Inv.observe (hinv : s.Inv c q) {o : Observation α}
    (hafter : q.after c.capacity c.period o = some q) : (s.observe t o).Inv c q :=
  { hinv with legal := hinv.legal_concat hafter }

theorem Inv.advanceWrite (hinv : s.Inv c q) (hsized : c.Sized) {loaded : ℕ}
    (hloaded : loaded ≤ s.writes) (hrecent : s.writes + c.capacity < loaded + c.period)
    (hpushed : loaded < q.next) :
    (s.advanceWrite c (loaded % 2 ^ c.bits_in_index)).Inv c q := by
  rw [MpmcQueue.advanceWrite]
  by_cases hsame : s.write_index = loaded % 2 ^ c.bits_in_index
  · rw [if_pos hsame]
    rw [hinv.write_index, two_pow_bits hsized] at hsame
    have heq := eq_of_mod_eq_mod hsame (by omega) (by omega)
    have hnext := hinv.next_le
    exact
      { hinv with
        write_index := by rw [heq]; exact Nat.mod_add_mod _ _ _
        writes_le := by rw [heq]; exact hpushed
        next_le := Nat.le_succ_of_le hnext
        threads := fun u =>
          (hinv.threads u).mono (Nat.le_succ _) le_rfl le_rfl le_rfl }
  · rw [if_neg hsame]
    exact hinv

theorem Inv.advanceRead (hinv : s.Inv c q) (hsized : c.Sized) {loaded : ℕ}
    (hloaded : loaded ≤ s.reads) (hrecent : s.reads + c.capacity < loaded + c.period)
    (hpopped : loaded < q.first) :
    (s.advanceRead c (loaded % 2 ^ c.bits_in_index)).Inv c q := by
  rw [MpmcQueue.advanceRead]
  by_cases hsame : s.read_index = loaded % 2 ^ c.bits_in_index
  · rw [if_pos hsame]
    rw [hinv.read_index, two_pow_bits hsized] at hsame
    have heq := eq_of_mod_eq_mod hsame (by omega) (by omega)
    have hfirst := hinv.first_le
    exact
      { hinv with
        read_index := by rw [heq]; exact Nat.mod_add_mod _ _ _
        reads_le := by rw [heq]; exact hpopped
        first_le := Nat.le_succ_of_le hfirst
        threads := fun u =>
          (hinv.threads u).mono le_rfl (Nat.le_succ _) le_rfl le_rfl }
  · rw [if_neg hsame]
    exact hinv

/-- The free slot of the next position gets the item. -/
theorem Inv.push (hinv : s.Inv c q) (hsized : c.Sized) {d : α} (hwrites : q.next ≤ s.writes)
    (hroom : q.items.length < c.capacity) {wr_index : ℕ}
    (hindex : wr_index = q.next % 2 ^ c.bits_in_index) :
    ((s.setEntry c wr_index ⟨d, fullSeq c wr_index⟩).observe t (.pushed d wr_index)).Inv c
      { q with items := q.items ++ [d] } := by
  have hslot : wr_index % c.capacity = q.next % c.capacity := hindex ▸ slot_mod hsized q.next
  have hseq : fullSeq c wr_index = fullSeq c q.next := hindex ▸ fullSeq_mod hsized q.next
  have hnext : BoundedQueue.next { q with items := q.items ++ [d] } = q.next + 1 := by
    simp [BoundedQueue.next, add_assoc]
  have hother : ∀ j, q.first ≤ j → j < q.first + c.capacity → j ≠ q.next →
      (s.setEntry c wr_index ⟨d, fullSeq c wr_index⟩).array (j % c.capacity) =
        s.array (j % c.capacity) := by
    intro j hfirst hlast hne
    have hlt : q.next < q.first + c.capacity := Nat.add_lt_add_left hroom _
    have hle : q.first ≤ q.next := Nat.le_add_right _ _
    apply Function.update_of_ne
    rw [hslot]
    intro hmod
    exact hne (eq_of_mod_eq_mod hmod (by omega) (by omega))
  exact
    { hinv with
      legal := by
        apply hinv.legal_concat
        rw [BoundedQueue.after, if_pos]
        exact ⟨hroom, hindex ▸ mod_bits_mod_period hsized q.next⟩
      writes_le := hnext ▸ Nat.le_succ_of_le hinv.writes_le
      next_le := hnext ▸ Nat.succ_le_succ hwrites
      full := by
        intro k d' hitem
        rcases Nat.lt_trichotomy k q.items.length with hlt | heq | hgt
        · rw [List.getElem?_append_left hlt] at hitem
          rw [← hinv.full k d' hitem]
          apply hother _ (Nat.le_add_right _ _) (by omega)
          exact (Nat.add_lt_add_left hlt _).ne
        · rw [heq, List.getElem?_concat_length, Option.some.injEq] at hitem
          rw [heq, ← hitem]
          show Function.update _ (wr_index % c.capacity) _ (q.next % c.capacity) = _
          rw [hslot, Function.update_self, hseq]
          rfl
        · rw [List.getElem?_eq_none (by simp; omega)] at hitem
          exact absurd hitem (by simp)
      free := by
        intro j hj hlast
        rw [hnext] at hj
        rw [← hinv.free j (by omega) hlast]
        have hle : q.first ≤ q.next := Nat.le_add_right _ _
        exact hother j (by omega) hlast (by omega)
      threads := fun u =>
        (hinv.threads u).mono le_rfl le_rfl (hnext ▸ Nat.le_succ _) le_rfl }

/-- The slot of the first position is freed for the one a lap later. -/
theorem Inv.pop (hinv : s.Inv c q) (hsized : c.Sized) {d : α} (hreads : q.first ≤ s.reads)
    (hhead : q.items.head? = some d) {rd_index : ℕ}
    (hindex : rd_index = q.first % 2 ^ c.bits_in_index) :
    ((s.setEntry c rd_index ⟨0, emptySeq c (rd_index + c.capacity)⟩).observe t
      (.popped d rd_index)).Inv c ⟨q.first + 1, q.items.tail⟩ := by
  have hslot : rd_index % c.capacity = q.first % c.capacity := hindex ▸ slot_mod hsized q.first
  have hseq : emptySeq c (rd_index + c.capacity) = emptySeq c (q.first + c.capacity) :=
    hindex ▸ emptySeq_mod_add hsized q.first c.capacity
  obtain ⟨rest, hitems⟩ := List.head?_eq_some_iff.mp hhead
  have hnext : BoundedQueue.next ⟨q.first + 1, q.items.tail⟩ = q.next := by
    simp only [BoundedQueue.next, hitems, List.tail_cons, List.length_cons]
    omega
  have hlength := hinv.length_le
  have hother : ∀ j, q.first < j → j < q.first + c.capacity →
      (s.setEntry c rd_index ⟨0, emptySeq c (rd_index + c.capacity)⟩).array (j % c.capacity) =
        s.array (j % c.capacity) := by
    intro j hfirst hlast
    apply Function.update_of_ne
    rw [hslot]
    intro hmod
    have heq := eq_of_mod_eq_mod hmod (by omega) (by omega)
    omega
  exact
    { hinv with
      legal := by
        apply hinv.legal_concat
        rw [BoundedQueue.after, if_pos]
        exact ⟨hhead, hindex ▸ mod_bits_mod_period hsized q.first⟩
      writes_le := hnext ▸ hinv.writes_le
      next_le := hnext ▸ hinv.next_le
      reads_le := Nat.le_succ_of_le hinv.reads_le
      first_le := Nat.succ_le_succ hreads
      full := by
        intro k d' hitem
        rw [List.getElem?_tail] at hitem
        have hlt : k + 1 < q.items.length := (List.getElem?_eq_some_iff.mp hitem).1
        rw [Nat.add_assoc, Nat.add_comm 1 k, ← hinv.full (k + 1) d' hitem]
        exact hother _ (by omega) (by omega)
      free := by
        intro j hj hlast
        rw [hnext] at hj
        rcases Nat.lt_or_ge j (q.first + c.capacity) with hlt | hge
        · rw [← hinv.free j hj hlt]
          have hle : q.first < q.next := by
            rw [BoundedQueue.next, hitems, List.length_cons]
            omega
          exact hother j (by omega) hlt
        · have heq : j = q.first + c.capacity := by
            change j < q.first + 1 + c.capacity at hlast
            omega
          rw [heq, Nat.add_mod_right]
          show Function.update _ (rd_index % c.capacity) _ (q.first % c.capacity) = _
          rw [hslot, Function.update_self, hseq]
      threads := fun u =>
        (hinv.threads u).mono le_rfl le_rfl hnext.ge (Nat.le_succ _) }

/-- An exchange is of the one item in the queue that has the name, if there is one. -/
theorem Inv.exchange (hinv : s.Inv c q) (hsized : c.Sized) (i : ℕ) (old_value new_value : α) :
    ∃ q', (s.exchange c t i old_value new_value).Inv c q' := by
  have hlength := hinv.length_le
  have hcapacity := hsized.capacity_lt
  rw [MpmcQueue.exchange]
  by_cases hentry : s.array (i % c.capacity) = ⟨old_value, fullSeq c i⟩
  · rw [if_pos hentry]
    obtain ⟨j, hfirst, hlast, hmod, ⟨hj, d, hget, hslot⟩ | ⟨hj, hslot⟩⟩ := hinv.slot hsized i
    · rw [hslot, MpmcEntry.mk.injEq, fullSeq_inj hsized] at hentry
      have hadd : q.first + (j - q.first) = j := Nat.add_sub_cancel' hfirst
      have hoffset : q.offset c.period i = j - q.first :=
        BoundedQueue.offset_eq (by omega) (hadd.symm ▸ hentry.2)
      refine ⟨{ q with items := q.items.set (j - q.first) new_value }, ?_⟩
      have hnext : BoundedQueue.next { q with items := q.items.set (j - q.first) new_value } =
          q.next := by
        rw [BoundedQueue.next, BoundedQueue.next, List.length_set]
      have hother : ∀ k, q.first ≤ k → k < q.first + c.capacity → k ≠ j →
          (s.setEntry c i ⟨new_value, fullSeq c i⟩).array (k % c.capacity) =
            s.array (k % c.capacity) := by
        intro k hk hklast hne
        apply Function.update_of_ne
        rw [← hmod]
        intro hsame
        exact hne (eq_of_mod_eq_mod hsame (by omega) (by omega))
      exact
        { hinv with
          legal := by
            apply hinv.legal_concat
            rw [BoundedQueue.after, hoffset, if_pos (by rw [hget, hentry.1])]
          writes_le := hnext ▸ hinv.writes_le
          next_le := hnext ▸ hinv.next_le
          full := by
            intro k d' hitem
            have hk : k < q.items.length := by
              have hlt := (List.getElem?_eq_some_iff.mp hitem).1
              rwa [List.length_set] at hlt
            by_cases hsame : q.first + k = j
            · have hkj : j - q.first = k := by omega
              rw [hkj, List.getElem?_set_self hk, Option.some.injEq] at hitem
              show Function.update _ (i % c.capacity) _ ((q.first + k) % c.capacity) = _
              rw [hsame, hmod, Function.update_self, hitem, fullSeq_inj hsized |>.mpr hentry.2]
            · have hkj : j - q.first ≠ k := by omega
              rw [List.getElem?_set_ne hkj] at hitem
              rw [← hinv.full k d' hitem]
              exact hother (q.first + k) (Nat.le_add_right _ _) (by omega) hsame
          free := by
            intro k hk hklast
            rw [hnext] at hk
            rw [← hinv.free k hk hklast]
            have hle : q.first ≤ q.next := Nat.le_add_right _ _
            exact hother k (by omega) hklast (by omega)
          threads := fun u => (hinv.threads u).mono le_rfl le_rfl hnext.ge le_rfl }
    · rw [hslot, MpmcEntry.mk.injEq] at hentry
      exact absurd hentry.2 (emptySeq_ne_fullSeq hsized _ _)
  · rw [if_neg hentry]
    refine ⟨q, hinv.observe ?_⟩
    rw [BoundedQueue.after, if_neg]
    intro hget
    have hperiod : 0 < c.period := hsized.capacity_pos.trans hsized.capacity_lt
    have hname := BoundedQueue.first_add_offset hperiod q i
    apply hentry
    rw [← slot_eq_of_mod_period hsized hname, hinv.full _ _ hget, (fullSeq_inj hsized).mpr hname]

/-! ## What a run keeps -/

/-- The entry that a reader has loaded lets it do what it does next. -/
theorem Inv.entry (hinv : s.Inv c q) (hsized : c.Sized) (reader : MpmcReader α) {loaded : ℕ}
    (hloaded : loaded ≤ s.reads) (hrecent : s.reads + c.capacity < loaded + c.period) :
    let rd_index := loaded % 2 ^ c.bits_in_index
    let e := s.array (rd_index % c.capacity)
    match found c reader rd_index e with
    | .none => q.items = []
    | .front => q.items.head? = some e.data
    | .take => e.seq = fullSeq c rd_index
    | .help => loaded < q.first
    | .notEmpty => q.items = [] → rd_index % c.period ≠ q.first % c.period
    | .retry => True := by
  intro rd_index e
  have hslot : e = s.array (loaded % c.capacity) := by
    show s.array _ = _
    rw [slot_mod hsized]
  have hempty : e.seq = emptySeq c rd_index → q.items = [] := by
    intro hseq
    apply hinv.empty_of_seq hsized hloaded hrecent
    rw [← hslot, hseq]
    exact emptySeq_mod hsized loaded
  have hfull : e.seq = fullSeq c rd_index → q.items.head? = some e.data := by
    intro hseq
    rw [hslot]
    apply (hinv.head_of_seq hsized hloaded hrecent _).2
    rw [← hslot, hseq]
    exact fullSeq_mod hsized loaded
  have hlate : e.seq ≠ emptySeq c rd_index → q.items = [] →
      rd_index % c.period ≠ q.first % c.period := by
    intro hseq hitems hmod
    have hreads := hinv.reads_le
    have hle := hinv.first_le
    have hcapacity := hsized.capacity_lt
    have hpos := hsized.capacity_pos
    rw [mod_bits_mod_period hsized] at hmod
    have heq := eq_of_mod_eq_mod hmod (by omega) (by omega)
    have hnext : q.next = q.first := by rw [BoundedQueue.next, hitems, List.length_nil, add_zero]
    apply hseq
    rw [hslot, heq, hinv.free q.first hnext.le (by omega), ← heq]
    exact (emptySeq_mod hsized loaded).symm
  have hahead : e.seq >>> 1 % c.period = (loaded + c.capacity) % c.period →
      loaded < q.first := by
    intro hseq
    apply hinv.lt_first_of_seq hsized hloaded hrecent
    rwa [← hslot]
  have hor : e.seq ||| 1 = fullSeq c (rd_index + c.capacity) → loaded < q.first := by
    intro hseq
    apply hahead
    have hshift : e.seq >>> 1 = (e.seq ||| 1) >>> 1 := by
      rw [Nat.shiftRight_or_distrib]
      exact (Nat.or_zero _).symm
    rw [hshift, hseq, fullSeq_mod_add hsized, fullSeq_shiftRight hsized, Nat.mod_mod]
  have hshift : e.seq >>> 1 = (rd_index + c.capacity) % 2 ^ c.bits_in_index →
      loaded < q.first := by
    intro hseq
    apply hahead
    rw [hseq, mod_bits_mod_period hsized, ← Nat.mod_add_mod, mod_bits_mod_period hsized,
      Nat.mod_add_mod]
  cases reader with
  | pop | lost =>
      simp only [found]
      split_ifs with h1 h2 h3
      · exact h1
      · exact hor h2
      · exact hempty h3
      · trivial
  | pop_if f =>
      simp only [found]
      split_ifs with h1 h2 h3 h4
      · exact hempty h1
      · exact h2
      · exact hfull h2
      · exact hshift h4
      · trivial
  | peek =>
      simp only [found]
      split_ifs with h1 h2 h3
      · exact hempty h1
      · exact hfull h2
      · exact hshift h3
      · trivial
  | empty =>
      simp only [found]
      split_ifs with h1
      · exact hempty h1
      · exact hlate h1

section Run

variable [DecidableEq ι]

theorem Inv.stepSeq (hinv : s.Inv c q) (hsized : c.Sized) {call : MpmcCall α} {keep : Bool}
    {d : α} {wr_index : ℕ} (hpc : s.pc t = .seq keep d wr_index) (hrecent : s.Recent c t) :
    (s.step c (t, call)).Inv c q := by
  have hknows := hinv.threads t
  simp only [Recent, hpc] at hrecent
  rw [hpc] at hknows
  obtain ⟨hindex, hloaded⟩ := hknows
  have hslot : wr_index % c.capacity = s.loaded t % c.capacity := hindex ▸ slot_mod hsized _
  have hfull : fullSeq c wr_index = fullSeq c (s.loaded t) := hindex ▸ fullSeq_mod hsized _
  have hempty : emptySeq c (wr_index + c.capacity) = emptySeq c (s.loaded t + c.capacity) :=
    hindex ▸ emptySeq_mod_add hsized _ _
  simp only [step, hpc]
  split_ifs with hfree hbehind hlap hkeep
  · exact hinv.goTo ⟨hindex, hloaded⟩
  · rw [hslot, hfull, hempty] at hbehind
    exact hinv.goTo ⟨hindex, hloaded, hinv.lt_next_of_seq hsized hloaded hrecent hbehind⟩
  · rw [hslot, hfull] at hlap
    have hlength := hinv.full_of_seq hsized hloaded hrecent hlap
    exact (hinv.observe (BoundedQueue.after_full hlength)).goTo trivial
  · rw [hslot, hfull] at hlap
    have hlength := hinv.full_of_seq hsized hloaded hrecent hlap
    exact (hinv.observe (BoundedQueue.after_full hlength)).goTo trivial
  · exact hinv.goTo trivial

theorem Inv.stepStore (hinv : s.Inv c q) (hsized : c.Sized) {call : MpmcCall α} {keep : Bool}
    {d : α} {wr_index : ℕ} (hpc : s.pc t = .store keep d wr_index) (hrecent : s.Recent c t) :
    ∃ q', (s.step c (t, call)).Inv c q' := by
  have hknows := hinv.threads t
  simp only [Recent, hpc] at hrecent
  rw [hpc] at hknows
  obtain ⟨hindex, hloaded⟩ := hknows
  simp only [step, hpc]
  by_cases hentry : s.array (wr_index % c.capacity) = ⟨0, emptySeq c wr_index⟩
  · rw [if_pos hentry]
    rw [hindex, slot_mod hsized, emptySeq_mod hsized] at hentry
    obtain ⟨hnext, hroom⟩ := hinv.next_of_entry hsized hloaded hrecent hentry
    have hpushed := hinv.push (t := t) (d := d) hsized (hnext ▸ hloaded) hroom (hnext ▸ hindex)
    refine ⟨_, hpushed.goTo ?_⟩
    cases c.lazy_push with
    | true => trivial
    | false =>
        refine ⟨hindex, hloaded, ?_⟩
        show s.loaded t < q.first + (q.items ++ [d]).length
        rw [List.length_append, hnext]
        exact Nat.lt_succ_self _
  · rw [if_neg hentry]
    exact ⟨q, hinv.goTo trivial⟩

theorem Inv.stepEntry (hinv : s.Inv c q) (hsized : c.Sized) {call : MpmcCall α}
    {reader : MpmcReader α} {rd_index : ℕ} (hpc : s.pc t = .entry reader rd_index)
    (hrecent : s.Recent c t) : (s.step c (t, call)).Inv c q := by
  have hknows := hinv.threads t
  simp only [Recent, hpc] at hrecent
  rw [hpc] at hknows
  obtain ⟨hindex, hloaded⟩ := hknows
  have hback : ∀ loaded, Knows c s q loaded (afterRead reader) := by
    intro loaded
    cases reader <;> trivial
  have hentry := hinv.entry hsized reader hloaded hrecent
  rw [← hindex] at hentry
  simp only [step, hpc]
  cases hfound : found c reader rd_index (s.array (rd_index % c.capacity)) with
  | none =>
      simp only [hfound] at hentry
      exact (hinv.observe (BoundedQueue.after_empty hentry)).goTo (hback _)
  | front =>
      simp only [hfound] at hentry
      exact (hinv.observe (BoundedQueue.after_front hentry)).goTo (hback _)
  | take =>
      simp only [hfound] at hentry
      exact hinv.goTo ⟨hindex, hloaded, hentry⟩
  | help =>
      simp only [hfound] at hentry
      exact hinv.goTo ⟨hindex, hloaded, hentry⟩
  | retry => exact hinv.goTo trivial
  | notEmpty =>
      simp only [hfound] at hentry
      exact (hinv.observe (BoundedQueue.after_notEmpty hentry)).goTo (hback _)

theorem Inv.stepTake (hinv : s.Inv c q) (hsized : c.Sized) {call : MpmcCall α}
    {reader : MpmcReader α} {rd_index : ℕ} {e : MpmcEntry α}
    (hpc : s.pc t = .take reader rd_index e) (hrecent : s.Recent c t) :
    ∃ q', (s.step c (t, call)).Inv c q' := by
  have hknows := hinv.threads t
  simp only [Recent, hpc] at hrecent
  rw [hpc] at hknows
  obtain ⟨hindex, hloaded, hseq⟩ := hknows
  simp only [step, hpc]
  by_cases hentry : s.array (rd_index % c.capacity) = e
  · rw [if_pos hentry]
    rw [← hentry, hindex, slot_mod hsized, fullSeq_mod hsized] at hseq
    obtain ⟨hfirst, hhead⟩ := hinv.head_of_seq hsized hloaded hrecent hseq
    rw [← slot_mod hsized, ← hindex, hentry] at hhead
    have hpopped := hinv.pop (t := t) hsized (hfirst ▸ hloaded) hhead (hfirst ▸ hindex)
    refine ⟨_, hpopped.goTo ?_⟩
    cases c.lazy_pop with
    | true => cases reader <;> trivial
    | false =>
        refine ⟨hindex, hloaded, ?_⟩
        show s.loaded t < q.first + 1
        rw [hfirst]
        exact Nat.lt_succ_self _
  · rw [if_neg hentry]
    exact ⟨q, hinv.goTo trivial⟩

theorem step_inv (hinv : s.Inv c q) (hsized : c.Sized) {input : ι × MpmcCall α}
    (hrecent : s.Recent c input.1) : ∃ q', (s.step c input).Inv c q' := by
  obtain ⟨t, call⟩ := input
  have hknows := hinv.threads t
  cases hpc : s.pc t with
  | idle =>
      simp only [step, hpc]
      cases call with
      | push | push_keep_n | read => exact ⟨q, hinv.goTo trivial⟩
      | exchange i old_value new_value => exact hinv.exchange hsized i old_value new_value
  | push keep d =>
      simp only [step, hpc]
      refine ⟨q, (hinv.loadWrite fun _ => hpc ▸ trivial).goTo ?_⟩
      simp only [Knows, MpmcQueue.loadWrite, Function.update_self]
      exact ⟨hinv.write_index, le_rfl⟩
  | seq keep d wr_index => exact ⟨q, hinv.stepSeq hsized hpc hrecent⟩
  | store keep d wr_index => exact hinv.stepStore hsized hpc hrecent
  | helpWrite keep d wr_index | stored wr_index =>
      simp only [Recent, hpc] at hrecent
      rw [hpc] at hknows
      obtain ⟨hindex, hloaded, hpushed⟩ := hknows
      simp only [step, hpc, hindex]
      exact ⟨q, (hinv.advanceWrite hsized hloaded hrecent hpushed).goTo trivial⟩
  | read reader =>
      simp only [step, hpc]
      refine ⟨q, (hinv.loadRead fun _ => hpc ▸ trivial).goTo ?_⟩
      simp only [Knows, MpmcQueue.loadRead, Function.update_self]
      exact ⟨hinv.read_index, le_rfl⟩
  | entry reader rd_index => exact ⟨q, hinv.stepEntry hsized hpc hrecent⟩
  | take reader rd_index e => exact hinv.stepTake hsized hpc hrecent
  | helpRead reader rd_index =>
      simp only [Recent, hpc] at hrecent
      rw [hpc] at hknows
      obtain ⟨hindex, hloaded, hpopped⟩ := hknows
      simp only [step, hpc, hindex]
      exact ⟨q, (hinv.advanceRead hsized hloaded hrecent hpopped).goTo trivial⟩
  | took reader rd_index =>
      simp only [Recent, hpc] at hrecent
      rw [hpc] at hknows
      obtain ⟨hindex, hloaded, hpopped⟩ := hknows
      simp only [step, hpc, hindex]
      refine ⟨q, (hinv.advanceRead hsized hloaded hrecent hpopped).goTo ?_⟩
      cases reader <;> trivial

theorem run_inv (hsized : c.Sized) {inputs : List (ι × MpmcCall α)}
    (hrecent : RunOk (step c) (fun s input => s.Recent c input.1) (start c) inputs) :
    ∃ q, (run (step c) (start c) inputs).Inv c q :=
  run_invariant_of_runOk (fun s => ∃ q, s.Inv c q) hrecent ⟨_, start_inv⟩
    fun _ _ ⟨_, hinv⟩ hok => step_inv hinv hsized hok

/-- Whatever the threads do, the answers of their calls are those of a bounded queue that
serves the calls one after another, and its items are what the full slots hold.  An `empty`
that returns false has seen an item, or an index that lags behind the pops. -/
theorem mpmc_queue_is_bounded_queue (hadmitted : c.admitted = true) (hcapacity : c.capacity ≠ 0)
    (inputs : List (ι × MpmcCall α))
    (hrecent : RunOk (step c) (fun s input => s.Recent c input.1) (start c) inputs) :
    let s := run (step c) (start c) inputs
    let observations := s.seen.map Prod.snd
    ∃ q, BoundedQueue.start.replay c.capacity c.period observations = some q ∧
      q.items.length ≤ c.capacity ∧
      (¬ BoundedQueue.Exchanges observations →
        BoundedQueue.pushes observations = BoundedQueue.pops observations ++ q.items) ∧
      ∀ k < c.capacity, s.array ((q.first + k) % c.capacity) =
        match q.items[k]? with
        | some d => ⟨d, fullSeq c (q.first + k)⟩
        | none => ⟨0, emptySeq c (q.first + k)⟩ := by
  intro s observations
  obtain ⟨q, hinv⟩ := run_inv (sized_of_admitted hadmitted hcapacity) hrecent
  refine ⟨q, hinv.legal, hinv.length_le, ?_, ?_⟩
  · exact fun hfixed => BoundedQueue.pushes_eq_of_replay hfixed hinv.legal
  · intro k hk
    cases hitem : q.items[k]? with
    | some d => exact hinv.full k d hitem
    | none =>
        apply hinv.free
        · exact Nat.add_le_add_left (List.getElem?_eq_none_iff.mp hitem) _
        · exact Nat.add_lt_add_left hk _

/-- Two pushes race for the first slot and a pop takes what the winner stored. -/
theorem mpmc_queue_is_bounded_queue_race :
    let c : MpmcConfig := ⟨32, 2, false, false⟩
    let inputs : List (Fin 3 × MpmcCall ℕ) :=
      [(0, .push 7), (1, .push 8), (0, .push 0), (1, .push 0), (0, .push 0), (1, .push 0),
        (1, .push 0), (0, .push 0), (1, .push 0), (2, .read .pop), (2, .read .pop),
        (2, .read .pop), (2, .read .pop), (0, .push 0), (0, .push 0), (0, .push 0)]
    (run (step c) (start c) inputs).seen = [(1, .pushed 8 0), (2, .popped 8 0), (0, .pushed 7 1)] ∧
      ∃ q, BoundedQueue.start.replay 2 c.period
        ((run (step c) (start c) inputs).seen.map Prod.snd) = some q := by
  intro c inputs
  have hadmitted : c.admitted = true := admitted_iff.mpr (.inr ⟨1, rfl, by decide⟩)
  refine ⟨by decide, ?_⟩
  obtain ⟨q, hlegal, _⟩ := mpmc_queue_is_bounded_queue hadmitted (by decide) inputs (by decide)
  exact ⟨q, hlegal⟩

/-- Behind a lazy pop the read index lags, and the empty queue is not found empty. -/
example :
    let c : MpmcConfig := ⟨32, 2, true, true⟩
    let inputs : List (Fin 1 × MpmcCall ℕ) :=
      List.replicate 4 (0, .push 7) ++ List.replicate 4 (0, .read .pop) ++
        List.replicate 3 (0, .read .empty)
    (run (step c) (start c) inputs).seen = [(0, .pushed 7 0), (0, .popped 7 0), (0, .notEmpty 0)] := by
  decide

end Run

end MpmcQueue

end CppPlay.MultiThread
