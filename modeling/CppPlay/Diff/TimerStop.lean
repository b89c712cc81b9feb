import CppPlay.Diff.TimeEventGenerator

/-!
# Stopping the duration timers

`stop` cancels the stored timers one after the other.  It asks for `m_stopped` but never sets it,
and `reset_timer` does not ask for it, so that a timer outlives its cancel unless its wait is
pending at that moment.
-/

namespace CppPlay.Diff

open CppPlay.Lib

/-- Where the one call of `stop` stands, with the timers it has still to cancel. -/
inductive StopProgress where
  | notCalled
  | cancelling (remaining : List ℕ)
  | returned
  deriving DecidableEq

inductive StopEvent where
  | context (event : ContextEvent)
  | call
  | cancel
  | «return»
  deriving DecidableEq

structure DurationTimeEventGenerator where
  generator : EventGenerator
  m_stopped : Bool
  stop : StopProgress

namespace DurationTimeEventGenerator

def start (now : ℤ) (calls : List (ℕ × ℤ)) : DurationTimeEventGenerator :=
  ⟨.added .durationTimeEvent now calls, false, .notCalled⟩

def step (s : DurationTimeEventGenerator) : StopEvent → DurationTimeEventGenerator
  | .context event => { s with generator := s.generator.step .durationTimeEvent event }
  | .call =>
      match s.stop with
      | .notCalled =>
          if s.m_stopped then { s with stop := .returned }
          else { s with stop := .cancelling (s.generator.m_timers.map Prod.snd) }
      | _ => s
  | .cancel =>
      match s.stop with
      | .cancelling (i :: remaining) =>
          { s with
            generator := s.generator.modify i DeadlineTimer.cancel
            stop := .cancelling remaining }
      | _ => s
  | .return =>
      match s.stop with
      | .cancelling [] => { s with stop := .returned }
      | _ => s

def Quiet (s : DurationTimeEventGenerator) : Prop :=
  ∀ later i, ((run step s later).generator.timer i).phase ≠ .armed ∧
    ((run step s later).generator.timer i).executions = (s.generator.timer i).executions

/-- The cancel, if this event is one, finds the completion of its timer not queued with success
and its handler not running. -/
def CancelsInTime (s : DurationTimeEventGenerator) (event : StopEvent) : Prop :=
  ∀ i remaining, event = .cancel → s.stop = .cancelling (i :: remaining) →
    (s.generator.timer i).phase ≠ .queued true ∧ (s.generator.timer i).phase ≠ .running

end DurationTimeEventGenerator

/-! ## Timers that are over and timers that go on -/

def WaitPhase.Over : WaitPhase → Prop
  | .idle | .queued false => True
  | _ => False

namespace DeadlineTimer

variable {now : ℤ} {t : DeadlineTimer}

theorem over_expire_iff : (t.expire now).phase.Over ↔ t.phase.Over := by
  rw [expire]
  split_ifs with hdue
  · rw [hdue.1]
    rfl
  · rfl

theorem over_start_iff : t.start.phase.Over ↔ t.phase.Over := by
  rw [start]
  split_ifs with hqueued
  · rw [hqueued]
    rfl
  · rfl

theorem over_finish_iff : (t.finish .durationTimeEvent now).phase.Over ↔ t.phase.Over := by
  unfold finish
  split_ifs with hrunning
  · rw [hrunning]
    rfl
  · rfl

theorem over_abort_iff : t.abort.phase.Over ↔ t.phase.Over := by
  rw [abort]
  split_ifs with hqueued
  · rw [hqueued]
    rfl
  · rfl

theorem over_cancel_iff :
    t.cancel.phase.Over ↔ t.phase ≠ .queued true ∧ t.phase ≠ .running := by
  rw [cancel]
  cases hphase : t.phase with
  | queued success => cases success <;> simp [hphase, WaitPhase.Over]
  | _ => simp [hphase, WaitPhase.Over]

theorem executions_expire : (t.expire now).executions = t.executions := by
  rw [expire]
  split_ifs <;> rfl

theorem executions_abort : t.abort.executions = t.executions := by
  rw [abort]
  split_ifs <;> rfl

theorem start_of_over (hover : t.phase.Over) : t.start = t := by
  rw [start, if_neg]
  intro hqueued
  rw [hqueued] at hover
  exact hover

end DeadlineTimer

namespace EventGenerator

open DeadlineTimer

theorem modify_apply_iff {s : EventGenerator} {i : ℕ} {f : DeadlineTimer → DeadlineTimer}
    {P : DeadlineTimer → Prop} (hf : ∀ t, P (f t) ↔ P t) (j : ℕ) :
    P ((s.modify i f).timer j) ↔ P (s.timer j) := by
  rw [timer_modify]
  by_cases hsame : j = i
  · rw [hsame, Function.update_self, hf]
  · rw [Function.update_of_ne hsame]

/-- Nothing that the context does ends a duration timer, and nothing revives one. -/
theorem over_step_iff (s : EventGenerator) (event : ContextEvent) (i : ℕ) :
    ((s.step .durationTimeEvent event).timer i).phase.Over ↔ (s.timer i).phase.Over := by
  cases event with
  | advance ticks => rfl
  | expire j => exact modify_apply_iff (P := fun t => t.phase.Over) (fun _ => over_expire_iff) i
  | start j => exact modify_apply_iff (P := fun t => t.phase.Over) (fun _ => over_start_iff) i
  | finish j => exact modify_apply_iff (P := fun t => t.phase.Over) (fun _ => over_finish_iff) i
  | abort j => exact modify_apply_iff (P := fun t => t.phase.Over) (fun _ => over_abort_iff) i

theorem executions_step_of_over {s : EventGenerator} (hover : ∀ i, (s.timer i).phase.Over)
    (event : ContextEvent) (i : ℕ) :
    ((s.step .durationTimeEvent event).timer i).executions = (s.timer i).executions := by
  have hmodify : ∀ (j : ℕ) (f : DeadlineTimer → DeadlineTimer),
      (f (s.timer j)).executions = (s.timer j).executions →
      ((s.modify j f).timer i).executions = (s.timer i).executions := by
    intro j f hf
    rw [timer_modify]
    by_cases hsame : i = j
    · rw [hsame, Function.update_self, hf]
    · rw [Function.update_of_ne hsame]
  cases event with
  | advance ticks => rfl
  | expire j => exact hmodify j _ executions_expire
  | start j => exact hmodify j _ (by rw [start_of_over (hover j)])
  | finish j => exact hmodify j _ (executions_finish _ _ _)
  | abort j => exact hmodify j _ executions_abort

/-- The map numbers different timers, and those outside it are over. -/
structure Numbered (s : EventGenerator) : Prop where
  nodup : (s.m_timers.map Prod.snd).Nodup
  lt_count : ∀ i ∈ s.m_timers.map Prod.snd, i < s.count
  others_over : ∀ i, i ∉ s.m_timers.map Prod.snd → (s.timer i).phase.Over

theorem Numbered.add_timer {s : EventGenerator} (hnumbered : s.Numbered) (kind : GeneratorKind)
    (key : ℤ) : (s.add_timer kind key).Numbered := by
  rw [EventGenerator.add_timer]
  by_cases hkey : key ∈ s.m_timers.map Prod.fst
  · rw [if_pos hkey]
    constructor
    · exact hnumbered.nodup
    · exact fun i hi => Nat.lt_succ_of_lt (hnumbered.lt_count i hi)
    · intro i hi
      by_cases hnew : i = s.count
      · simp only [hnew, Function.update_self, cancel_wait]
        trivial
      · simp only [Function.update_of_ne hnew]
        exact hnumbered.others_over i hi
  · rw [if_neg hkey]
    have hperm := (List.perm_orderedInsert (fun a b : ℤ × ℕ => a.1 ≤ b.1) (key, s.count)
      s.m_timers).map Prod.snd
    rw [List.map_cons] at hperm
    have hfresh : s.count ∉ s.m_timers.map Prod.snd :=
      fun hmem => lt_irrefl _ (hnumbered.lt_count _ hmem)
    constructor
    · exact hperm.nodup_iff.mpr (List.nodup_cons.mpr ⟨hfresh, hnumbered.nodup⟩)
    · intro i hi
      rcases List.mem_cons.mp (hperm.mem_iff.mp hi) with hlast | hearlier
      · exact hlast ▸ Nat.lt_succ_self _
      · exact Nat.lt_succ_of_lt (hnumbered.lt_count i hearlier)
    · intro i hi
      have hother : i ∉ s.count :: s.m_timers.map Prod.snd :=
        fun hmem => hi (hperm.mem_iff.mpr hmem)
      rw [List.mem_cons, not_or] at hother
      simp only [Function.update_of_ne hother.1]
      exact hnumbered.others_over i hother.2

theorem numbered_added (kind : GeneratorKind) (now : ℤ) (calls : List (ℕ × ℤ)) :
    (added kind now calls).Numbered := by
  induction calls using List.reverseRecOn with
  | nil => exact ⟨List.nodup_nil, nofun, fun _ _ => trivial⟩
  | append_singleton calls call ih =>
      rw [added, List.foldl_append]
      have hadvanced : ((added kind now calls).advance call.1).Numbered :=
        ⟨ih.nodup, ih.lt_count, ih.others_over⟩
      exact hadvanced.add_timer kind call.2

end EventGenerator

/-! ## The runs of `stop` -/

namespace DurationTimeEventGenerator

def remaining (s : DurationTimeEventGenerator) : List ℕ :=
  match s.stop with
  | .notCalled => s.generator.m_timers.map Prod.snd
  | .cancelling remaining => remaining
  | .returned => []

structure Stopped (s : DurationTimeEventGenerator) : Prop where
  not_m_stopped : s.m_stopped = false
  nodup : s.remaining.Nodup
  others_over : ∀ i, i ∉ s.remaining → (s.generator.timer i).phase.Over

structure Missed (s : DurationTimeEventGenerator) : Prop where
  not_m_stopped : s.m_stopped = false
  nodup : s.remaining.Nodup
  alive : ∃ i, i ∉ s.remaining ∧ ¬ (s.generator.timer i).phase.Over

theorem m_stopped_step (s : DurationTimeEventGenerator) (event : StopEvent) :
    (s.step event).m_stopped = s.m_stopped := by
  obtain ⟨generator, m_stopped, stop⟩ := s
  cases event with
  | context event => rfl
  | call =>
      cases stop with
      | notCalled => cases m_stopped <;> rfl
      | _ => rfl
  | cancel | «return» =>
      cases stop with
      | cancelling remaining => cases remaining <;> rfl
      | _ => rfl

/-- Apart from a cancel, a step keeps the list of the timers to cancel and who is over. -/
theorem step_keeps {s : DurationTimeEventGenerator} {event : StopEvent}
    (hcall : s.stop = .notCalled → s.m_stopped = false)
    (hevent : ∀ i remaining, event = .cancel → s.stop ≠ .cancelling (i :: remaining)) :
    (s.step event).remaining = s.remaining ∧
      ∀ i, ((s.step event).generator.timer i).phase.Over ↔ (s.generator.timer i).phase.Over := by
  obtain ⟨generator, m_stopped, stop⟩ := s
  cases event with
  | context event =>
      refine ⟨?_, EventGenerator.over_step_iff generator event⟩
      cases stop <;> cases event <;> rfl
  | call =>
      cases stop with
      | notCalled =>
          rw [show m_stopped = false from hcall rfl]
          exact ⟨rfl, fun _ => Iff.rfl⟩
      | _ => exact ⟨rfl, fun _ => Iff.rfl⟩
  | cancel =>
      cases stop with
      | cancelling remaining =>
          cases remaining with
          | nil => exact ⟨rfl, fun _ => Iff.rfl⟩
          | cons i remaining => exact absurd rfl (hevent i remaining rfl)
      | _ => exact ⟨rfl, fun _ => Iff.rfl⟩
  | «return» =>
      cases stop with
      | cancelling remaining => cases remaining <;> exact ⟨rfl, fun _ => Iff.rfl⟩
      | _ => exact ⟨rfl, fun _ => Iff.rfl⟩

theorem step_cancel {s : DurationTimeEventGenerator} {i : ℕ} {remaining : List ℕ}
    (hstop : s.stop = .cancelling (i :: remaining)) :
    s.remaining = i :: remaining ∧ (s.step .cancel).remaining = remaining ∧
      (s.step .cancel).generator = s.generator.modify i DeadlineTimer.cancel := by
  obtain ⟨generator, m_stopped, stop⟩ := s
  rw [show stop = .cancelling (i :: remaining) from hstop]
  exact ⟨rfl, rfl, rfl⟩

theorem cancel_or_keeps (s : DurationTimeEventGenerator) (event : StopEvent) :
    (∃ i remaining, event = .cancel ∧ s.stop = .cancelling (i :: remaining)) ∨
      ∀ i remaining, event = .cancel → s.stop ≠ .cancelling (i :: remaining) := by
  by_cases hcancel : ∃ i remaining, event = .cancel ∧ s.stop = .cancelling (i :: remaining)
  · exact .inl hcancel
  · exact .inr fun i remaining hevent hstop => hcancel ⟨i, remaining, hevent, hstop⟩

theorem over_cancelled_iff {s : DurationTimeEventGenerator} {i : ℕ} {remaining : List ℕ}
    (hstop : s.stop = .cancelling (i :: remaining)) :
    ((s.step .cancel).generator.timer i).phase.Over ↔ s.CancelsInTime .cancel := by
  rw [(step_cancel hstop).2.2, EventGenerator.timer_modify, Function.update_self,
    DeadlineTimer.over_cancel_iff]
  constructor
  · intro hphase j later _ hother
    have hsame : i = j := by
      rw [hstop] at hother
      simp only [StopProgress.cancelling.injEq, List.cons.injEq] at hother
      exact hother.1
    exact hsame ▸ hphase
  · intro hinTime
    exact hinTime i remaining rfl hstop

theorem timer_cancel_of_ne {s : DurationTimeEventGenerator} {i j : ℕ} {remaining : List ℕ}
    (hstop : s.stop = .cancelling (i :: remaining)) (hne : j ≠ i) :
    (s.step .cancel).generator.timer j = s.generator.timer j := by
  rw [(step_cancel hstop).2.2, EventGenerator.timer_modify, Function.update_of_ne hne]

theorem Stopped.step {s : DurationTimeEventGenerator} (hstopped : s.Stopped) (event : StopEvent)
    (hinTime : s.CancelsInTime event) : (s.step event).Stopped := by
  rcases s.cancel_or_keeps event with ⟨i, remaining, hevent, hstop⟩ | hother
  · have hnodup := hstopped.nodup
    have hlist := step_cancel hstop
    rw [hlist.1, List.nodup_cons] at hnodup
    rw [hevent] at hinTime ⊢
    refine ⟨(m_stopped_step s _).trans hstopped.not_m_stopped, hlist.2.1 ▸ hnodup.2, ?_⟩
    intro j hj
    rw [hlist.2.1] at hj
    by_cases hsame : j = i
    · rw [hsame]
      exact (over_cancelled_iff hstop).mpr hinTime
    · rw [timer_cancel_of_ne hstop hsame]
      exact hstopped.others_over j (by rw [hlist.1, List.mem_cons, not_or]; exact ⟨hsame, hj⟩)
  · obtain ⟨hlist, hover⟩ := step_keeps (fun _ => hstopped.not_m_stopped) hother
    refine ⟨(m_stopped_step s _).trans hstopped.not_m_stopped, hlist ▸ hstopped.nodup,
      fun i hi => (hover i).mpr ?_⟩
    exact hstopped.others_over i (hlist ▸ hi)

theorem Stopped.missed {s : DurationTimeEventGenerator} (hstopped : s.Stopped)
    (event : StopEvent) (hlate : ¬ s.CancelsInTime event) : (s.step event).Missed := by
  rcases s.cancel_or_keeps event with ⟨i, remaining, hevent, hstop⟩ | hother
  · have hnodup := hstopped.nodup
    have hlist := step_cancel hstop
    rw [hlist.1, List.nodup_cons] at hnodup
    rw [hevent] at hlate ⊢
    refine ⟨(m_stopped_step s _).trans hstopped.not_m_stopped, hlist.2.1 ▸ hnodup.2, i,
      hlist.2.1 ▸ hnodup.1, ?_⟩
    rw [over_cancelled_iff hstop]
    exact hlate
  · exact absurd (fun i remaining hevent hstop => absurd hstop (hother i remaining hevent)) hlate

theorem Missed.step {s : DurationTimeEventGenerator} (hmissed : s.Missed) (event : StopEvent) :
    (s.step event).Missed := by
  obtain ⟨j, hj, halive⟩ := hmissed.alive
  rcases s.cancel_or_keeps event with ⟨i, remaining, hevent, hstop⟩ | hother
  · have hnodup := hmissed.nodup
    have hlist := step_cancel hstop
    rw [hlist.1, List.nodup_cons] at hnodup
    rw [hlist.1, List.mem_cons, not_or] at hj
    rw [hevent]
    refine ⟨(m_stopped_step s _).trans hmissed.not_m_stopped, hlist.2.1 ▸ hnodup.2, j,
      hlist.2.1 ▸ hj.2, ?_⟩
    rw [timer_cancel_of_ne hstop hj.1]
    exact halive
  · obtain ⟨hlist, hover⟩ := step_keeps (fun _ => hmissed.not_m_stopped) hother
    exact ⟨(m_stopped_step s _).trans hmissed.not_m_stopped, hlist ▸ hmissed.nodup, j, hlist ▸ hj,
      fun hnow => halive ((hover j).mp hnow)⟩

/-! ## After the return -/

theorem step_returned {s : DurationTimeEventGenerator} (hstop : s.stop = .returned)
    (event : StopEvent) : (s.step event).stop = .returned := by
  obtain ⟨generator, m_stopped, stop⟩ := s
  rw [show stop = .returned from hstop]
  cases event <;> rfl

structure AtRest (executions : ℕ → ℕ) (s : DurationTimeEventGenerator) : Prop where
  stop : s.stop = .returned
  all_over : ∀ i, (s.generator.timer i).phase.Over
  executions_eq : ∀ i, (s.generator.timer i).executions = executions i

theorem AtRest.step {executions : ℕ → ℕ} {s : DurationTimeEventGenerator}
    (hrest : s.AtRest executions) (event : StopEvent) : (s.step event).AtRest executions := by
  have hother : ∀ i remaining, event = .cancel → s.stop ≠ .cancelling (i :: remaining) := by
    intro i remaining _ hstop
    rw [hrest.stop] at hstop
    cases hstop
  constructor
  · exact step_returned hrest.stop event
  · have hcall : s.stop = .notCalled → s.m_stopped = false := by
      rw [hrest.stop]
      exact nofun
    exact fun i => ((step_keeps hcall hother).2 i).mpr (hrest.all_over i)
  · intro i
    rw [← hrest.executions_eq i]
    have hreturned := hrest.stop
    obtain ⟨generator, m_stopped, stop⟩ := s
    rw [show stop = .returned from hreturned]
    cases event with
    | context event => exact EventGenerator.executions_step_of_over hrest.all_over event i
    | _ => rfl

theorem quiet_of_over {s : DurationTimeEventGenerator} (hstop : s.stop = .returned)
    (hover : ∀ i, (s.generator.timer i).phase.Over) : s.Quiet := by
  intro later i
  have hrest := run_invariant (AtRest fun j => (s.generator.timer j).executions)
    ⟨hstop, hover, fun _ => rfl⟩ (fun _ event hrest => hrest.step event) later
  refine ⟨?_, hrest.executions_eq i⟩
  intro harmed
  have hend := hrest.all_over i
  rw [harmed] at hend
  exact hend

theorem not_quiet_of_alive {s : DurationTimeEventGenerator} {i : ℕ}
    (halive : ¬ (s.generator.timer i).phase.Over) : ¬ s.Quiet := by
  intro hquiet
  cases hphase : (s.generator.timer i).phase with
  | armed => exact (hquiet [] i).1 hphase
  | queued success =>
      cases success with
      | false =>
          rw [hphase] at halive
          exact halive trivial
      | true =>
          have hstarted := (hquiet [.context (.start i)] i).2
          simp [step, EventGenerator.step, DeadlineTimer.start, hphase] at hstarted
  | running =>
      apply (hquiet [.context (.finish i)] i).1
      simp [step, EventGenerator.step, DeadlineTimer.finish, DeadlineTimer.reset_timer, hphase]
  | idle =>
      rw [hphase] at halive
      exact halive trivial

/-- When `stop` has returned, nothing more happens exactly when each of its cancels came before
the completion of the timer was queued with success. -/
theorem stop_final_iff (now : ℤ) (calls : List (ℕ × ℤ)) (events : List StopEvent)
    (hreturned : (run step (start now calls) events).stop = .returned) :
    (run step (start now calls) events).Quiet ↔
      ∀ earlier event later, events = earlier ++ event :: later →
        (run step (start now calls) earlier).CancelsInTime event := by
  have hnumbered := EventGenerator.numbered_added .durationTimeEvent now calls
  have hremaining : (run step (start now calls) events).remaining = [] := by
    rw [remaining, hreturned]
  rcases run_invariant_or_broken step (start now calls) Stopped Missed CancelsInTime
    ⟨rfl, hnumbered.nodup, hnumbered.others_over⟩ (fun _ event hstopped => hstopped.step event)
    (fun _ event hstopped => hstopped.missed event) (fun _ event hmissed => hmissed.step event)
    events with ⟨hall, hstopped⟩ | ⟨hnot, hmissed⟩
  · refine iff_of_true (quiet_of_over hreturned fun i => ?_) hall
    exact hstopped.others_over i (by rw [hremaining]; exact List.not_mem_nil)
  · obtain ⟨i, _, halive⟩ := hmissed.alive
    exact iff_of_false (not_quiet_of_alive halive) hnot

theorem stop_final_pending :
    (run step (start 0 [(0, 5)]) [.call, .cancel, .return]).Quiet ↔
      ∀ earlier event later, [.call, .cancel, .return] = earlier ++ event :: later →
        (run step (start 0 [(0, 5)]) earlier).CancelsInTime event :=
  stop_final_iff 0 [(0, 5)] [.call, .cancel, .return] (by decide)

theorem not_always_final :
    ¬ ∀ (now : ℤ) (calls : List (ℕ × ℤ)) (events : List StopEvent),
      (run step (start now calls) events).stop = .returned →
      (run step (start now calls) events).Quiet := by
  intro hclaim
  have hquiet := hclaim 0 [(0, 5)]
    [.context (.advance 5), .context (.expire 0), .call, .cancel, .return] (by decide)
  have hstarted := (hquiet [.context (.start 0)] 0).2
  exact absurd hstarted (by decide)

end DurationTimeEventGenerator

end CppPlay.Diff
