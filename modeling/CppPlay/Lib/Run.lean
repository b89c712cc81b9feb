import Mathlib.Tactic

/-!
# Runs of a deterministic step

A run feeds a list of inputs to a step function.  Besides the rule for
invariants there is one for exact conditions: a property holds in every state of
a run exactly when the run never leaves the good states.
-/

namespace CppPlay.Lib

variable {σ ι : Type*} (step : σ → ι → σ)

def run (s : σ) (inputs : List ι) : σ := inputs.foldl step s

@[simp] theorem run_nil (s : σ) : run step s [] = s := rfl

@[simp] theorem run_cons (s : σ) (i : ι) (inputs : List ι) :
    run step s (i :: inputs) = run step (step s i) inputs := rfl

@[simp] theorem run_append (s : σ) (first second : List ι) :
    run step s (first ++ second) = run step (run step s first) second :=
  List.foldl_append

variable {step}

theorem run_invariant (Inv : σ → Prop) {s : σ} (hstart : Inv s)
    (hstep : ∀ s i, Inv s → Inv (step s i)) (inputs : List ι) :
    Inv (run step s inputs) := by
  induction inputs generalizing s with
  | nil => exact hstart
  | cons i inputs ih => exact ih (hstep s i hstart)

variable (step) in
/-- Every input of the run meets the condition where it comes. -/
def RunOk (Ok : σ → ι → Prop) : σ → List ι → Prop
  | _, [] => True
  | s, i :: inputs => Ok s i ∧ RunOk Ok (step s i) inputs

variable (step) in
def decidableRunOk (Ok : σ → ι → Prop) [∀ s i, Decidable (Ok s i)] :
    ∀ s inputs, Decidable (RunOk step Ok s inputs)
  | _, [] => .isTrue trivial
  | s, i :: inputs => @instDecidableAnd _ _ _ (decidableRunOk Ok (step s i) inputs)

instance (Ok : σ → ι → Prop) [∀ s i, Decidable (Ok s i)] (s : σ) (inputs : List ι) :
    Decidable (RunOk step Ok s inputs) :=
  decidableRunOk step Ok s inputs

theorem run_invariant_of_runOk {Ok : σ → ι → Prop} (Inv : σ → Prop) {s : σ} {inputs : List ι}
    (hok : RunOk step Ok s inputs) (hstart : Inv s)
    (hstep : ∀ s i, Inv s → Ok s i → Inv (step s i)) : Inv (run step s inputs) := by
  induction inputs generalizing s with
  | nil => exact hstart
  | cons i inputs ih => exact ih hok.2 (hstep s i hstart hok.1)

theorem runOk_append {Ok : σ → ι → Prop} {s : σ} {first second : List ι} :
    RunOk step Ok s (first ++ second) ↔
      RunOk step Ok s first ∧ RunOk step Ok (run step s first) second := by
  induction first generalizing s with
  | nil => exact (and_iff_right trivial).symm
  | cons i first ih => rw [List.cons_append, RunOk, RunOk, ih, and_assoc, run_cons]

theorem runOk_iff {Ok : σ → ι → Prop} {s : σ} {inputs : List ι} :
    RunOk step Ok s inputs ↔
      ∀ earlier i later, inputs = earlier ++ i :: later → Ok (run step s earlier) i := by
  induction inputs generalizing s with
  | nil => simp [RunOk]
  | cons first inputs ih =>
      rw [RunOk, ih]
      constructor
      · rintro ⟨hfirst, hlater⟩ earlier i later hsplit
        cases earlier with
        | nil => exact (List.cons.inj hsplit).1 ▸ hfirst
        | cons other earlier =>
            obtain ⟨rfl, hrest⟩ := List.cons.inj hsplit
            exact hlater earlier i later hrest
      · intro hall
        refine ⟨hall [] first inputs rfl, fun earlier i later hsplit => ?_⟩
        exact hall (first :: earlier) i later (by rw [hsplit, List.cons_append])

variable (step) in
/-- If some input that is allowed lowers a rank whenever the state is not a final one, then
allowed inputs lead to a final state. -/
theorem exists_run_of_rank (Inv Final : σ → Prop) (Ok : ι → Prop) (rank : σ → ℕ)
    (hstep : ∀ s i, Inv s → Ok i → Inv (step s i))
    (hless : ∀ s, Inv s → ¬ Final s → ∃ i, Ok i ∧ rank (step s i) < rank s)
    {s : σ} (hstart : Inv s) : ∃ later, (∀ i ∈ later, Ok i) ∧ Final (run step s later) := by
  induction hrank : rank s using Nat.strong_induction_on generalizing s with
  | _ bound ih =>
      by_cases hfinal : Final s
      · exact ⟨[], by simp, hfinal⟩
      · obtain ⟨i, hi, hlower⟩ := hless s hstart hfinal
        obtain ⟨later, hlater, hends⟩ := ih _ (hrank ▸ hlower) (hstep s i hstart hi) rfl
        exact ⟨i :: later, List.forall_mem_cons.mpr ⟨hi, hlater⟩, hends⟩

variable (step) in
/-- An invariant that may look at the inputs so far, over runs whose every input
meets a condition. -/
theorem run_invariant_of_ok (s : σ) (Inv : List ι → σ → Prop) (Ok : List ι → ι → Prop)
    (hstart : Inv [] s)
    (hstep : ∀ earlier i, Inv earlier (run step s earlier) → Ok earlier i →
      Inv (earlier ++ [i]) (step (run step s earlier) i))
    {inputs : List ι}
    (hok : ∀ earlier i later, inputs = earlier ++ i :: later → Ok earlier i) :
    ∀ first, first <+: inputs → Inv first (run step s first) := by
  intro first
  induction first using List.reverseRecOn with
  | nil => exact fun _ => hstart
  | append_singleton earlier i ih =>
      rintro ⟨later, hsplit⟩
      rw [List.append_assoc, List.singleton_append] at hsplit
      rw [run_append, run_cons, run_nil]
      exact hstep earlier i (ih ⟨i :: later, hsplit⟩) (hok earlier i later hsplit.symm)

variable (step) in
/-- Inputs that meet a condition keep an invariant, and the first that does not breaks something
for good. -/
theorem run_invariant_or_broken (s : σ) (Inv Broken : σ → Prop) (Ok : σ → ι → Prop)
    (hstart : Inv s) (hkeep : ∀ s i, Inv s → Ok s i → Inv (step s i))
    (hbreak : ∀ s i, Inv s → ¬ Ok s i → Broken (step s i))
    (hbroken : ∀ s i, Broken s → Broken (step s i)) (inputs : List ι) :
    ((∀ earlier i later, inputs = earlier ++ i :: later → Ok (run step s earlier) i) ∧
        Inv (run step s inputs)) ∨
      (¬ (∀ earlier i later, inputs = earlier ++ i :: later → Ok (run step s earlier) i) ∧
        Broken (run step s inputs)) := by
  induction inputs using List.reverseRecOn with
  | nil => exact .inl ⟨fun earlier i later hsplit => by simp at hsplit, hstart⟩
  | append_singleton inputs last ih =>
      rw [run_append, run_cons, run_nil]
      rcases ih with ⟨hall, hinv⟩ | ⟨hnot, hbad⟩
      · by_cases hok : Ok (run step s inputs) last
        · refine .inl ⟨?_, hkeep _ last hinv hok⟩
          intro earlier i later hsplit
          rcases List.eq_nil_or_concat later with hnil | ⟨between, final, hconcat⟩
          · rw [hnil] at hsplit
            obtain ⟨hearlier, hlast⟩ := List.append_inj' hsplit rfl
            rw [← hearlier, ← List.head_eq_of_cons_eq hlast]
            exact hok
          · rw [hconcat, List.concat_eq_append, ← List.cons_append, ← List.append_assoc] at hsplit
            exact hall earlier i between (List.append_inj' hsplit rfl).1
        · refine .inr ⟨?_, hbreak _ last hinv hok⟩
          exact fun hevery => hok (hevery inputs last [] rfl)
      · refine .inr ⟨?_, hbroken _ last hbad⟩
        intro hevery
        apply hnot
        intro earlier i later hsplit
        apply hevery earlier i (later ++ [last])
        rw [hsplit, List.append_assoc, List.cons_append]

/-- A part of the state that an input either overwrites or leaves alone ends with
the last value written. -/
theorem run_overwrites {ρ : Type*} (part : σ → ρ) (writes : ι → Option ρ)
    (hstep : ∀ s i, part (step s i) = (writes i).getD (part s)) (s : σ) (inputs : List ι) :
    part (run step s inputs) = (inputs.reverse.findSome? writes).getD (part s) := by
  induction inputs generalizing s with
  | nil => rfl
  | cons i inputs ih =>
      rw [run_cons, ih, hstep, List.reverse_cons, List.findSome?_append]
      cases inputs.reverse.findSome? writes with
      | some value => rfl
      | none => cases hwrites : writes i <;> simp [hwrites]

/-- Where all hits of a search agree, their order does not matter. -/
theorem findSome?_perm {α ρ : Type*} {f : α → Option ρ} {xs ys : List α} (hperm : xs.Perm ys)
    (hagree : ∀ x ∈ xs, ∀ y ∈ xs, ∀ a b, f x = some a → f y = some b → a = b) :
    xs.findSome? f = ys.findSome? f := by
  cases hxs : xs.findSome? f with
  | none =>
      rw [List.findSome?_eq_none_iff] at hxs
      exact (List.findSome?_eq_none_iff.mpr fun y hy => hxs y (hperm.mem_iff.mpr hy)).symm
  | some a =>
      cases hys : ys.findSome? f with
      | none =>
          rcases List.exists_of_findSome?_eq_some hxs with ⟨x, hx, hfx⟩
          rw [List.findSome?_eq_none_iff] at hys
          rw [hys x (hperm.mem_iff.mp hx)] at hfx
          cases hfx
      | some b =>
          rcases List.exists_of_findSome?_eq_some hxs with ⟨x, hx, hfx⟩
          rcases List.exists_of_findSome?_eq_some hys with ⟨y, hy, hfy⟩
          rw [hagree x hx y (hperm.mem_iff.mpr hy) a b hfx hfy]

/-- The order of the inputs does not matter to a part of the state if all that write it
write the same value. -/
theorem run_overwrites_perm {ρ : Type*} (part : σ → ρ) (writes : ι → Option ρ)
    (hstep : ∀ s i, part (step s i) = (writes i).getD (part s)) (s : σ)
    {inputs inputs' : List ι} (hperm : inputs.Perm inputs')
    (hagree : ∀ i ∈ inputs, ∀ j ∈ inputs, ∀ a b, writes i = some a → writes j = some b → a = b) :
    part (run step s inputs) = part (run step s inputs') := by
  rw [run_overwrites part writes hstep, run_overwrites part writes hstep]
  have hreverse : inputs.reverse.Perm inputs'.reverse :=
    (List.reverse_perm inputs).trans (hperm.trans (List.reverse_perm inputs').symm)
  rw [findSome?_perm hreverse fun i hi j hj =>
    hagree i (List.mem_reverse.mp hi) j (List.mem_reverse.mp hj)]

variable (step) in
/-- `P` in every state of the run is the same as `Good` at its end, if a good
state has `P`, goodness is never regained, and a step that keeps `P` stays good. -/
theorem always_iff (Inv P Good : σ → Prop) {s : σ}
    (hstart : Inv s) (hgood : Good s) (hinv : ∀ s i, Inv s → Inv (step s i))
    (hback : ∀ s i, Inv s → Good (step s i) → Good s)
    (hsound : ∀ s, Inv s → Good s → P s)
    (hstay : ∀ s i, Inv s → Good s → P (step s i) → Good (step s i))
    (inputs : List ι) :
    (∀ first, first <+: inputs → P (run step s first)) ↔ Good (run step s inputs) := by
  induction inputs using List.reverseRecOn with
  | nil =>
      constructor
      · intro _
        exact hgood
      · intro _ first hfirst
        rw [List.prefix_nil.mp hfirst]
        exact hsound s hstart hgood
  | append_singleton inputs i ih =>
      have hinvAll : Inv (run step s inputs) := run_invariant Inv hstart hinv inputs
      have hlast : run step s (inputs ++ [i]) = step (run step s inputs) i := by
        rw [run_append, run_cons, run_nil]
      constructor
      · intro hall
        have hbefore : Good (run step s inputs) :=
          ih.mp fun first hfirst => hall first (hfirst.trans (List.prefix_append _ _))
        have hnow := hall _ (List.prefix_refl _)
        rw [hlast] at hnow ⊢
        exact hstay _ i hinvAll hbefore hnow
      · intro hend first hfirst
        rcases List.prefix_concat_iff.mp hfirst with hwhole | hshorter
        · rw [hwhole]
          exact hsound _ (run_invariant Inv hstart hinv _) hend
        · rw [hlast] at hend
          exact ih.mpr (hback _ i hinvAll hend) first hshorter

variable (step) in
/-- `P` in every state of the run is the same as every input meeting `Ok`, if such
inputs keep an invariant that has `P` and any other input loses `P` at once. -/
theorem always_iff_of_steps (s : σ) (Inv P : σ → Prop) (Ok : σ → ι → Prop)
    (hstart : Inv s) (hsound : ∀ s, Inv s → P s)
    (hkeep : ∀ s i, Inv s → Ok s i → Inv (step s i))
    (hbreak : ∀ s i, Inv s → ¬ Ok s i → ¬ P (step s i)) (inputs : List ι) :
    (∀ first, first <+: inputs → P (run step s first)) ↔
      ∀ earlier i later, inputs = earlier ++ i :: later → Ok (run step s earlier) i := by
  constructor
  · intro hall
    have hlast : ∀ earlier i, run step s (earlier ++ [i]) = step (run step s earlier) i := by
      intro earlier i
      rw [run_append, run_cons, run_nil]
    have hok : ∀ earlier i, earlier ++ [i] <+: inputs → Inv (run step s earlier) →
        Ok (run step s earlier) i := by
      intro earlier i hprefix hinv
      by_contra hnot
      apply hbreak _ i hinv hnot
      rw [← hlast]
      exact hall _ hprefix
    have hinv : ∀ earlier, earlier <+: inputs → Inv (run step s earlier) := by
      intro earlier
      induction earlier using List.reverseRecOn with
      | nil => exact fun _ => hstart
      | append_singleton earlier i ih =>
          intro hprefix
          have hbefore := ih ((List.prefix_append _ _).trans hprefix)
          rw [hlast]
          exact hkeep _ i hbefore (hok earlier i hprefix hbefore)
    intro earlier i later hsplit
    have hprefix : earlier ++ [i] <+: inputs :=
      ⟨later, by rw [hsplit, List.append_assoc, List.singleton_append]⟩
    exact hok earlier i hprefix (hinv earlier ((List.prefix_append _ _).trans hprefix))
  · intro hok first hfirst
    apply hsound
    exact run_invariant_of_ok step s (fun _ s => Inv s) (fun earlier i => Ok (run step s earlier) i)
      hstart (fun earlier i => hkeep _ i) hok first hfirst

end CppPlay.Lib
