import Mathlib.Tactic

/-!
# Programs that end alike

Two programs over different states may return or throw.  One simulates the other
if, started in related states, both return the same value or both throw the same
exception, in states that are related again.  What can be seen of them is then the
same over whole sequences of calls, those that throw included.
-/

namespace CppPlay.Lib

universe u

variable {ε σ τ α β : Type u}

inductive Alike (Returned Thrown : σ → τ → Prop) :
    EStateM.Result ε σ α → EStateM.Result ε τ α → Prop
  | ok {a : α} {s : σ} {t : τ} (h : Returned s t) : Alike Returned Thrown (.ok a s) (.ok a t)
  | error {e : ε} {s : σ} {t : τ} (h : Thrown s t) :
      Alike Returned Thrown (.error e s) (.error e t)

def Simulates (Pre Returned Thrown : σ → τ → Prop) (x : EStateM ε σ α) (y : EStateM ε τ α) :
    Prop :=
  ∀ s t, Pre s t → Alike Returned Thrown (x s) (y t)

namespace Simulates

variable {Pre Mid Returned Thrown Thrown' : σ → τ → Prop}

theorem pure (a : α) :
    Simulates Pre Pre Thrown (Pure.pure a : EStateM ε σ α) (Pure.pure a : EStateM ε τ α) :=
  fun _ _ hpre => .ok hpre

theorem throw (e : ε) (hthrown : ∀ s t, Pre s t → Thrown s t) :
    Simulates Pre Returned Thrown (MonadExcept.throw e : EStateM ε σ α)
      (MonadExcept.throw e : EStateM ε τ α) :=
  fun s t hpre => .error (hthrown s t hpre)

theorem bind {x : EStateM ε σ α} {y : EStateM ε τ α} {f : α → EStateM ε σ β}
    {g : α → EStateM ε τ β} (hxy : Simulates Pre Mid Thrown x y)
    (hfg : ∀ a, Simulates Mid Returned Thrown (f a) (g a)) :
    Simulates Pre Returned Thrown (x >>= f) (y >>= g) := by
  intro s t hpre
  have hfirst := hxy s t hpre
  simp only [Bind.bind, EStateM.bind]
  generalize x s = left at hfirst ⊢
  generalize y t = right at hfirst ⊢
  cases hfirst with
  | ok hmid => exact hfg _ _ _ hmid
  | error hthrown => exact .error hthrown

theorem tryCatch {x : EStateM ε σ α} {y : EStateM ε τ α} {f : ε → EStateM ε σ α}
    {g : ε → EStateM ε τ α} (hxy : Simulates Pre Returned Thrown' x y)
    (hfg : ∀ e, Simulates Thrown' Returned Thrown (f e) (g e)) :
    Simulates Pre Returned Thrown (MonadExcept.tryCatch x f) (MonadExcept.tryCatch y g) := by
  intro s t hpre
  have hbody := hxy s t hpre
  simp only [MonadExcept.tryCatch, tryCatchThe, MonadExceptOf.tryCatch, EStateM.tryCatch]
  generalize x s = left at hbody ⊢
  generalize y t = right at hbody ⊢
  cases hbody with
  | ok hreturned => exact .ok hreturned
  | error hthrown => exact hfg _ _ _ hthrown

theorem mono {x : EStateM ε σ α} {y : EStateM ε τ α} {Pre' : σ → τ → Prop}
    (hxy : Simulates Pre Returned Thrown x y) (hpre : ∀ s t, Pre' s t → Pre s t) :
    Simulates Pre' Returned Thrown x y :=
  fun s t h => hxy s t (hpre s t h)

end Simulates

/-! ## Sequences of calls -/

/-- The state in which a program ends, whether it returns or throws. -/
def leaves : EStateM.Result ε σ α → σ
  | .ok _ s => s
  | .error _ s => s

def thrown : EStateM.Result ε σ α → Option ε
  | .ok _ _ => none
  | .error e _ => some e

theorem Alike.thrown_eq {Returned Thrown : σ → τ → Prop} {x : EStateM.Result ε σ α}
    {y : EStateM.Result ε τ α} (hxy : Alike Returned Thrown x y) : thrown x = thrown y := by
  cases hxy with
  | ok h => rfl
  | error h => rfl

theorem Alike.leaves {R : σ → τ → Prop} {x : EStateM.Result ε σ α}
    {y : EStateM.Result ε τ α} (hxy : Alike R R x y) : R (leaves x) (leaves y) := by
  cases hxy with
  | ok h => exact h
  | error h => exact h

section Outcomes

variable {ι ω : Type u} (call : ι → EStateM ε σ α) (call' : ι → EStateM ε τ α)
  (view : σ → ω) (view' : τ → ω)

/-- The exception of every call, if any, and what can be seen behind it. -/
def outcomes : σ → List ι → List (Option ε × ω)
  | _, [] => []
  | s, i :: calls =>
      (thrown (call i s), view (leaves (call i s))) :: outcomes (leaves (call i s)) calls

variable {call call' view view'}

theorem outcomes_eq {R : σ → τ → Prop} (hview : ∀ s t, R s t → view s = view' t)
    (hcall : ∀ i, Simulates R R R (call i) (call' i)) (calls : List ι) {s : σ} {t : τ}
    (hst : R s t) : outcomes call view s calls = outcomes call' view' t calls := by
  induction calls generalizing s t with
  | nil => rfl
  | cons i calls ih =>
      have halike := hcall i s t hst
      rw [outcomes, outcomes, halike.thrown_eq, hview _ _ halike.leaves, ih halike.leaves]

end Outcomes

end CppPlay.Lib
