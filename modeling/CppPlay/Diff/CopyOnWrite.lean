import CppPlay.Lib.Run
import CppPlay.Lib.Threads
import Mathlib.Data.Finset.Card

/-!
# Copy on write

Handles share an object until one of them is written to.  Any number of threads may work on
different handles at the same time, and what they read must be what they would read if every
handle had a value of its own.
-/

namespace CppPlay.Diff

open CppPlay.Lib

/-- The shared object. -/
structure Implementation (α : Type) where
  count : ℕ
  value : α

/-- What follows a release: the destructor ends, or the pointer is set to another object, and
the caller of `write` changes its value. -/
inductive AfterRelease (α : Type) where
  | destroyed
  | reset (object : ℕ) (change : Option (α → α))

/-- A handle with the place where the call stands that a thread makes on it. -/
inductive Handle (α : Type) where
  -- not constructed
  | raw
  | rest (object : Option ℕ)
  -- before the test of the count
  | assigning (object : ℕ) (x : α)
  | storing (object : ℕ) (x : α)
  -- before the test of the count
  | writing (object : ℕ) (change : α → α)
  | copying (object : ℕ) (change : α → α)
  | changing (object : ℕ) (change : α → α)
  -- before the count goes down
  | releasing (object : ℕ) (after : AfterRelease α)
  | deleting (object : ℕ) (after : AfterRelease α)
  | ending (after : AfterRelease α)

inductive CowCall (η α : Type) where
  | construct (d : η) (x : α)
  | copy (d s : η)
  | move (d s : η)
  | destroy (d : η)
  | assign (d : η) (x : α)
  -- `write` with what the caller does to the value
  | write (d : η) (change : α → α)
  | read (d : η)

/-- A thread makes a call, or the thread that is in a call on a handle takes a step. -/
inductive CowEvent (η α : Type) where
  | call (call : CowCall η α)
  | advance (d : η)

/-- The handles and the objects, with the calls that were made and the values that were read.
`undefined` is set when an object is used that is deleted. -/
structure Cow (η α : Type) where
  handles : η → Handle α
  heap : ℕ → Option (Implementation α)
  next : ℕ
  calls : List (CowCall η α)
  reads : List (η × α)
  undefined : Bool

variable {η α : Type}

namespace Cow

def start : Cow η α := ⟨fun _ => .raw, fun _ => none, 0, [], [], false⟩

def setObject (s : Cow η α) (a : ℕ) (object : Option (Implementation α)) : Cow η α :=
  { s with heap := Function.update s.heap a object }

/-- A new object, which has the address `s.next`. -/
def new (s : Cow η α) (x : α) : Cow η α :=
  { s.setObject s.next (some ⟨1, x⟩) with next := s.next + 1 }

def access (s : Cow η α) (a : ℕ) (use : Implementation α → Cow η α) : Cow η α :=
  match s.heap a with
  | some object => use object
  | none => { s with undefined := true }

variable [DecidableEq η]

def put (s : Cow η α) (d : η) (handle : Handle α) : Cow η α :=
  { s with handles := Function.update s.handles d handle }

/-- The first step of a call; a thread makes none whose precondition does not hold, and none
on a handle that another thread is busy with. -/
def begin (s : Cow η α) : CowCall η α → Option (Cow η α)
  | .construct d x =>
      match s.handles d with
      | .raw => some ((s.new x).put d (.rest (some s.next)))
      | _ => none
  | .copy d src =>
      match s.handles d, s.handles src with
      | .raw, .rest none => some (s.put d (.rest none))
      | .raw, .rest (some a) =>
          some (s.access a fun object =>
            (s.setObject a (some { object with count := object.count + 1 })).put d
              (.rest (some a)))
      | _, _ => none
  | .move d src =>
      match s.handles d, s.handles src with
      | .raw, .rest object => some ((s.put d (.rest object)).put src (.rest none))
      | _, _ => none
  | .destroy d =>
      match s.handles d with
      | .rest none => some (s.put d .raw)
      | .rest (some a) => some (s.put d (.releasing a .destroyed))
      | _ => none
  | .assign d x =>
      match s.handles d with
      | .rest none => some ((s.new x).put d (.rest (some s.next)))
      | .rest (some a) => some (s.put d (.assigning a x))
      | _ => none
  | .write d change =>
      match s.handles d with
      | .rest (some a) => some (s.put d (.writing a change))
      | _ => none
  | .read d =>
      match s.handles d with
      | .rest (some a) =>
          some (s.access a fun object => { s with reads := s.reads ++ [(d, object.value)] })
      | _ => none

/-- The next step of the call on a handle. -/
def advance (s : Cow η α) (d : η) : Cow η α :=
  match s.handles d with
  | .raw => s
  | .rest _ => s
  | .assigning a x =>
      s.access a fun object =>
        if object.count = 1 then s.put d (.storing a x)
        else (s.new x).put d (.releasing a (.reset s.next none))
  | .storing a x =>
      s.access a fun object =>
        (s.setObject a (some { object with value := x })).put d (.rest (some a))
  | .writing a change =>
      s.access a fun object =>
        if object.count = 1 then s.put d (.changing a change) else s.put d (.copying a change)
  | .copying a change =>
      s.access a fun object =>
        (s.new object.value).put d (.releasing a (.reset s.next (some change)))
  | .changing a change =>
      s.access a fun object =>
        (s.setObject a (some { object with value := change object.value })).put d (.rest (some a))
  | .releasing a after =>
      s.access a fun object =>
        (s.setObject a (some { object with count := object.count - 1 })).put d
          (if object.count - 1 = 0 then .deleting a after else .ending after)
  | .deleting a after => s.access a fun _ => (s.setObject a none).put d (.ending after)
  | .ending .destroyed => s.put d .raw
  | .ending (.reset object none) => s.put d (.rest (some object))
  | .ending (.reset object (some change)) => s.put d (.changing object change)

def step (s : Cow η α) : CowEvent η α → Cow η α
  | .call call =>
      match s.begin call with
      | some s' => { s' with calls := s.calls ++ [call] }
      | none => s
  | .advance d => s.advance d

end Cow

/-! ## Handles with values of their own -/

/-- Every handle has its own value, unless it is not constructed or moved from. -/
structure Values (η α : Type) where
  store : η → Option (Option α)
  reads : List (η × α)

namespace Values

def start : Values η α := ⟨fun _ => none, []⟩

variable [DecidableEq η]

def put (v : Values η α) (d : η) (value : Option (Option α)) : Values η α :=
  { v with store := Function.update v.store d value }

def step (v : Values η α) : CowCall η α → Values η α
  | .construct d x => v.put d (some (some x))
  | .copy d src => v.put d (v.store src)
  | .move d src => (v.put d (v.store src)).put src (some none)
  | .destroy d => v.put d none
  | .assign d x => v.put d (some (some x))
  | .write d change => v.put d ((v.store d).map (Option.map change))
  | .read d =>
      match v.store d with
      | some (some x) => { v with reads := v.reads ++ [(d, x)] }
      | _ => v

end Values

/-! ## What a handle holds -/

def AfterRelease.object : AfterRelease α → Option ℕ
  | .destroyed => none
  | .reset object _ => some object

/-- The objects that a handle counts for. -/
def Handle.Holds : Handle α → ℕ → Prop
  | .raw, _ => False
  | .rest object, a => object = some a
  | .assigning object _, a | .storing object _, a | .writing object _, a
  | .copying object _, a | .changing object _, a => object = a
  | .releasing object after, a => object = a ∨ after.object = some a
  | .deleting _ after, a | .ending after, a => after.object = some a

/-- The objects that nobody else may hold. -/
def Handle.Owns : Handle α → ℕ → Prop
  | .storing object _, a | .changing object _, a => object = a
  | .releasing _ after, a | .deleting _ after, a | .ending after, a => after.object = some a
  | _, _ => False

/-- How many steps the call under way can still take. -/
def Handle.stepsLeft : Handle α → ℕ
  | .raw | .rest _ => 0
  | .storing _ _ | .changing _ _ => 1
  | .ending _ => 2
  | .deleting _ _ => 3
  | .releasing _ _ => 4
  | .assigning _ _ | .copying _ _ => 5
  | .writing _ _ => 6

def CowEvent.isAdvance [DecidableEq η] (d : η) : CowEvent η α → Bool
  | .advance e => e = d
  | .call _ => false

theorem CowEvent.isAdvance_iff [DecidableEq η] {event : CowEvent η α} {d : η} :
    event.isAdvance d = true ↔ event = .advance d := by
  cases event <;> simp [isAdvance]

theorem Handle.Owns.holds {handle : Handle α} {a : ℕ} (h : handle.Owns a) : handle.Holds a := by
  cases handle with
  | releasing object after => exact .inr h
  | raw | rest | assigning | writing | copying => exact h.elim
  | storing | changing | deleting | ending => exact h

/-- The value that a handle has, or that it has when the call on it is over. -/
def Handle.value (heap : ℕ → Option α) : Handle α → Option (Option α)
  | .raw => none
  | .rest object => some (object.bind heap)
  | .assigning _ x | .storing _ x => some (some x)
  | .writing object change | .copying object change | .changing object change =>
      some ((heap object).map change)
  | .releasing _ after | .deleting _ after | .ending after =>
      match after with
      | .destroyed => none
      | .reset object none => some (heap object)
      | .reset object (some change) => some ((heap object).map change)

theorem Handle.value_congr {handle : Handle α} {heap heap' : ℕ → Option α}
    (hheap : ∀ a, handle.Holds a → heap' a = heap a) :
    handle.value heap' = handle.value heap := by
  cases handle with
  | raw | assigning | storing => rfl
  | rest object =>
      cases object with
      | none => rfl
      | some a => simp [Handle.value, hheap a rfl]
  | writing | copying | changing => simp [Handle.value, hheap _ rfl]
  | releasing object after =>
      cases after with
      | destroyed => rfl
      | reset object change => cases change <;> simp [Handle.value, hheap object (.inr rfl)]
  | deleting object after | ending after =>
      cases after with
      | destroyed => rfl
      | reset object change => cases change <;> simp [Handle.value, hheap object rfl]

def Handle.Deletes : Handle α → ℕ → Prop
  | .deleting object _, a => object = a
  | _, _ => False

namespace Cow

def contents (s : Cow η α) (a : ℕ) : Option α := (s.heap a).map Implementation.value

def value (s : Cow η α) (d : η) : Option (Option α) := (s.handles d).value s.contents

/-- The state of an address: no object is there, or one that its owners count for, or one that
its last owner is about to delete. -/
inductive At (s : Cow η α) (a : ℕ) : Prop where
  | free (hheap : s.heap a = none) (hholds : ∀ d, ¬ (s.handles d).Holds a)
      (hdeletes : ∀ d, ¬ (s.handles d).Deletes a)
  | held (owners : Finset η) (x : α) (hheap : s.heap a = some ⟨owners.card, x⟩)
      (hnonempty : owners.Nonempty) (hholds : ∀ d, (s.handles d).Holds a ↔ d ∈ owners)
      (howns : ∀ d, (s.handles d).Owns a → owners = {d})
      (hdeletes : ∀ d, ¬ (s.handles d).Deletes a)
  | doomed (last : η) (x : α) (hheap : s.heap a = some ⟨0, x⟩)
      (hholds : ∀ d, ¬ (s.handles d).Holds a)
      (hdeletes : ∀ d, (s.handles d).Deletes a ↔ d = last)

structure Inv (s : Cow η α) : Prop where
  at_address : ∀ a, s.At a
  fresh : ∀ a, s.next ≤ a → s.heap a = none
  apart : ∀ d a after, s.handles d = .releasing a after → after.object ≠ some a

/-- The values that the handles have. -/
def values (s : Cow η α) : Values η α := ⟨s.value, s.reads⟩

/-- A step that nobody but the thread on its handle can see. -/
structure Keeps (s s' : Cow η α) : Prop where
  inv : s'.Inv
  values : s'.values = s.values
  undefined : s'.undefined = s.undefined
  calls : s'.calls = s.calls

variable {s s' : Cow η α} {d : η} {a : ℕ}

theorem Inv.not_holds_next (hinv : s.Inv) (d : η) : ¬ (s.handles d).Holds s.next := by
  cases hinv.at_address s.next with
  | free hheap hholds hdeletes => exact hholds d
  | held owners x hheap hnonempty hholds howns hdeletes =>
      rw [hinv.fresh _ le_rfl] at hheap
      cases hheap
  | doomed last x hheap hholds hdeletes => exact hholds d

theorem Inv.not_deletes_next (hinv : s.Inv) (d : η) : ¬ (s.handles d).Deletes s.next := by
  cases hinv.at_address s.next with
  | free hheap hholds hdeletes => exact hdeletes d
  | held owners x hheap hnonempty hholds howns hdeletes => exact hdeletes d
  | doomed last x hheap hholds hdeletes =>
      rw [hinv.fresh _ le_rfl] at hheap
      cases hheap

/-- What a handle counts for is there, and not about to be deleted. -/
theorem Inv.held_of_holds (hinv : s.Inv) (hholds : (s.handles d).Holds a) :
    ∃ (owners : Finset η) (x : α), s.heap a = some ⟨owners.card, x⟩ ∧ d ∈ owners ∧
      (∀ u, (s.handles u).Holds a ↔ u ∈ owners) ∧
      (∀ u, (s.handles u).Owns a → owners = {u}) ∧ ∀ u, ¬ (s.handles u).Deletes a := by
  cases hinv.at_address a with
  | free hheap hnone hdeletes => exact absurd hholds (hnone d)
  | held owners x hheap hnonempty hall howns hdeletes =>
      exact ⟨owners, x, hheap, (hall d).mp hholds, hall, howns, hdeletes⟩
  | doomed last x hheap hnone hdeletes => exact absurd hholds (hnone d)

/-- Whose count is one, or who owns the object, is alone with it. -/
theorem Inv.alone (hinv : s.Inv) (hholds : (s.handles d).Holds a) {object : Implementation α}
    (hheap : s.heap a = some object) (hone : object.count = 1 ∨ (s.handles d).Owns a) :
    object.count = 1 ∧ (∀ u, u ≠ d → ¬ (s.handles u).Holds a) ∧
      ∀ u, ¬ (s.handles u).Deletes a := by
  obtain ⟨owners, x, hsome, hmem, hall, howns, hdeletes⟩ := hinv.held_of_holds hholds
  rw [hsome, Option.some.injEq] at hheap
  have hsingle : owners = {d} := by
    rcases hone with hcount | hown
    · rw [← hheap, Finset.card_eq_one] at hcount
      obtain ⟨u, hu⟩ := hcount
      rw [hu, Finset.mem_singleton] at hmem
      rw [hu, hmem]
    · exact howns d hown
  refine ⟨by rw [← hheap, hsingle, Finset.card_singleton], fun u hu hother => hu ?_, hdeletes⟩
  rw [hall, hsingle, Finset.mem_singleton] at hother
  exact hother

theorem Inv.exists_of_holds (hinv : s.Inv) (hholds : (s.handles d).Holds a) :
    ∃ object, s.heap a = some object := by
  obtain ⟨owners, x, hheap, -⟩ := hinv.held_of_holds hholds
  exact ⟨_, hheap⟩

theorem Inv.lt_next (hinv : s.Inv) (hholds : (s.handles d).Holds a) : a < s.next := by
  by_contra hle
  obtain ⟨object, hheap⟩ := hinv.exists_of_holds hholds
  rw [hinv.fresh a (not_lt.mp hle)] at hheap
  cases hheap

theorem Inv.of_eq (hinv : s.Inv) (hhandles : s'.handles = s.handles) (hheap : s'.heap = s.heap)
    (hnext : s'.next = s.next) : s'.Inv := by
  refine ⟨fun a => ?_, hnext ▸ hheap ▸ hinv.fresh, hhandles ▸ hinv.apart⟩
  cases hinv.at_address a with
  | free hnone hholds hdeletes =>
      rw [← hhandles] at hholds hdeletes
      exact .free (by rw [hheap, hnone]) hholds hdeletes
  | held owners x hsome hnonempty hholds howns hdeletes =>
      rw [← hhandles] at hholds howns hdeletes
      exact .held owners x (by rw [hheap, hsome]) hnonempty hholds howns hdeletes
  | doomed last x hsome hholds hdeletes =>
      rw [← hhandles] at hholds hdeletes
      exact .doomed last x (by rw [hheap, hsome]) hholds hdeletes

/-- A handle at rest shares its object with others that do not own it. -/
theorem Inv.unowned (hinv : s.Inv) (hrest : s.handles d = .rest (some a)) (u : η) :
    ¬ (s.handles u).Owns a := by
  have hholds : (s.handles d).Holds a := by
    rw [hrest]
    exact rfl
  obtain ⟨owners, x, hheap, hmem, hall, howns, hdeletes⟩ := hinv.held_of_holds hholds
  intro hown
  rw [howns u hown, Finset.mem_singleton] at hmem
  rw [← hmem, hrest] at hown
  exact hown

theorem access_eq {object : Implementation α} (hheap : s.heap a = some object)
    (use : Implementation α → Cow η α) : s.access a use = use object := by
  rw [access, hheap]

theorem contents_eq {object : Implementation α} (hheap : s.heap a = some object) :
    s.contents a = some object.value := by
  rw [contents, hheap]
  rfl

theorem values_eq {v : Values η α} (hvalue : ∀ u, s.value u = v.store u)
    (hreads : s.reads = v.reads) : s.values = v := by
  rw [values, funext hvalue, hreads]

/-- To an address a new place in a call means nothing if the handle counts for it as before. -/
def SameAt (handle handle' : Handle α) (a : ℕ) : Prop :=
  (handle'.Holds a ↔ handle.Holds a) ∧ (handle'.Owns a → handle.Owns a) ∧
    (handle'.Deletes a ↔ handle.Deletes a)

variable [DecidableEq η]

theorem At.of_same {handle : Handle α} (hat : s.At a) (hheap : s'.heap a = s.heap a)
    (hhandles : s'.handles = Function.update s.handles d handle)
    (hsame : SameAt (s.handles d) handle a) : s'.At a := by
  obtain ⟨hholds', howns', hdeletes'⟩ := hsame
  have hholdsAll : ∀ u, (s'.handles u).Holds a ↔ (s.handles u).Holds a := by
    intro u
    rw [hhandles]
    by_cases hu : u = d
    · rw [hu, Function.update_self, hholds']
    · rw [Function.update_of_ne hu]
  have hownsAll : ∀ u, (s'.handles u).Owns a → (s.handles u).Owns a := by
    intro u
    rw [hhandles]
    by_cases hu : u = d
    · rw [hu, Function.update_self]
      exact howns'
    · rw [Function.update_of_ne hu]
      exact id
  have hdeletesAll : ∀ u, (s'.handles u).Deletes a ↔ (s.handles u).Deletes a := by
    intro u
    rw [hhandles]
    by_cases hu : u = d
    · rw [hu, Function.update_self, hdeletes']
    · rw [Function.update_of_ne hu]
  cases hat with
  | free hnone hholds hdeletes =>
      exact .free (hheap.trans hnone) (fun u => (hholdsAll u).not.mpr (hholds u))
        (fun u => (hdeletesAll u).not.mpr (hdeletes u))
  | held owners x hsome hnonempty hholds howns hdeletes =>
      exact .held owners x (hheap.trans hsome) hnonempty
        (fun u => (hholdsAll u).trans (hholds u)) (fun u h => howns u (hownsAll u h))
        (fun u => (hdeletesAll u).not.mpr (hdeletes u))
  | doomed last x hsome hholds hdeletes =>
      exact .doomed last x (hheap.trans hsome) (fun u => (hholdsAll u).not.mpr (hholds u))
        (fun u => (hdeletesAll u).trans (hdeletes u))

/-- A held address that its only owner keeps. -/
theorem At.of_alone {handle : Handle α} {x : α}
    (hheap : s'.heap a = some ⟨1, x⟩)
    (hhandles : s'.handles = Function.update s.handles d handle)
    (hholds : ∀ u, u ≠ d → ¬ (s.handles u).Holds a) (hholds' : handle.Holds a)
    (hdeletes : ∀ u, u ≠ d → ¬ (s.handles u).Deletes a) (hdeletes' : ¬ handle.Deletes a) :
    s'.At a := by
  have hothers : ∀ u, u ≠ d → s'.handles u = s.handles u := by
    intro u hu
    rw [hhandles, Function.update_of_ne hu]
  have hself : s'.handles d = handle := by rw [hhandles, Function.update_self]
  refine .held {d} x (by rw [hheap, Finset.card_singleton]) (Finset.singleton_nonempty d) ?_ ?_ ?_
  · intro u
    rw [Finset.mem_singleton]
    by_cases hu : u = d
    · simp [hu, hself, hholds']
    · simp [hu, hothers u hu, hholds u hu]
  · intro u howns
    by_cases hu : u = d
    · rw [hu]
    · rw [hothers u hu] at howns
      exact absurd howns.holds (hholds u hu)
  · intro u
    by_cases hu : u = d
    · rw [hu, hself]
      exact hdeletes'
    · rw [hothers u hu]
      exact hdeletes u hu

/-- A step on one handle is seen by the others only if it changes a value that they hold. -/
theorem value_of_update {handle : Handle α}
    (hhandles : s'.handles = Function.update s.handles d handle)
    (hothers : ∀ u, u ≠ d → ∀ a, (s.handles u).Holds a → s'.contents a = s.contents a)
    (u : η) : s'.value u = if u = d then handle.value s'.contents else s.value u := by
  by_cases hu : u = d
  · rw [if_pos hu, value, hhandles, hu, Function.update_self]
  · rw [if_neg hu, value, hhandles, Function.update_of_ne hu]
    exact Handle.value_congr (hothers u hu)

theorem apart_update {handle : Handle α}
    (hapart : ∀ d a after, s.handles d = .releasing a after → after.object ≠ some a)
    (hhandle : ∀ a after, handle = .releasing a after → after.object ≠ some a) :
    ∀ u a after, Function.update s.handles d handle u = .releasing a after →
      after.object ≠ some a := by
  intro u a after hu
  by_cases hud : u = d
  · rw [hud, Function.update_self] at hu
    exact hhandle a after hu
  · rw [Function.update_of_ne hud] at hu
    exact hapart u a after hu

/-- The thread on a handle goes on; what it counts for stays, and what it now owns it is alone
with. -/
theorem Inv.put {handle : Handle α} (hinv : s.Inv)
    (hholds : ∀ a, handle.Holds a ↔ (s.handles d).Holds a)
    (howns : ∀ a, handle.Owns a → (s.handles d).Owns a ∨
      ∃ x, s.heap a = some ⟨1, x⟩)
    (hdeletes : ∀ a, handle.Deletes a ↔ (s.handles d).Deletes a)
    (hapart : ∀ a after, handle = .releasing a after → after.object ≠ some a) :
    (s.put d handle).Inv := by
  refine ⟨fun a => ?_, hinv.fresh, apart_update hinv.apart hapart⟩
  by_cases hown : handle.Owns a
  · rcases howns a hown with hbefore | ⟨x, hheap⟩
    · exact (hinv.at_address a).of_same rfl rfl ⟨hholds a, fun _ => hbefore, hdeletes a⟩
    · have hhold := (hholds a).mp hown.holds
      obtain ⟨-, halone, hnone⟩ := hinv.alone hhold hheap (.inl rfl)
      exact .of_alone hheap rfl halone hown.holds (fun u _ => hnone u)
        ((hdeletes a).not.mpr (hnone d))
  · exact (hinv.at_address a).of_same rfl rfl
      ⟨hholds a, fun h => absurd h hown, hdeletes a⟩

/-- A new object for a handle. -/
theorem Inv.new_put {handle : Handle α} {x : α} (hinv : s.Inv)
    (hholds : ∀ a, handle.Holds a ↔ (s.handles d).Holds a ∨ a = s.next)
    (howns : ∀ a, a ≠ s.next → handle.Owns a → (s.handles d).Owns a)
    (hdeletes : ∀ a, ¬ handle.Deletes a) (hdeletes' : ∀ a, ¬ (s.handles d).Deletes a)
    (hapart : ∀ a after, handle = .releasing a after → after.object ≠ some a) :
    ((s.new x).put d handle).Inv := by
  refine ⟨fun a => ?_, fun a ha => ?_, apart_update hinv.apart hapart⟩
  · by_cases hnext : a = s.next
    · rw [hnext]
      exact .of_alone (Function.update_self ..) rfl (fun u _ => hinv.not_holds_next u)
        ((hholds _).mpr (.inr rfl)) (fun u _ => hinv.not_deletes_next u) (hdeletes _)
    · exact (hinv.at_address a).of_same (Function.update_of_ne hnext ..) rfl
        ⟨(hholds a).trans (or_iff_left hnext), howns a hnext,
          iff_of_false (hdeletes a) (hdeletes' a)⟩
  · have hnext : s.next < a := ha
    exact (Function.update_of_ne hnext.ne' ..).trans (hinv.fresh a hnext.le)

theorem contents_new (x : α) (handle : Handle α) :
    ((s.new x).put d handle).contents = Function.update s.contents s.next (some x) := by
  funext a
  by_cases ha : a = s.next
  · simp [contents, put, new, setObject, ha]
  · simp [contents, put, new, setObject, ha]

theorem Inv.value_new_put (hinv : s.Inv) (x : α) (handle : Handle α) (u : η) :
    ((s.new x).put d handle).value u =
      if u = d then handle.value (Function.update s.contents s.next (some x))
      else s.value u := by
  have hothers : ∀ u, u ≠ d → ∀ a, (s.handles u).Holds a →
      ((s.new x).put d handle).contents a = s.contents a := by
    intro u _ a hhold
    rw [contents_new]
    apply Function.update_of_ne
    rintro rfl
    exact hinv.not_holds_next u hhold
  rw [value_of_update rfl hothers, contents_new]

/-- Another handle for an object that nobody owns. -/
theorem Inv.copy {src : η} {object : Implementation α} (hinv : s.Inv)
    (hraw : s.handles d = .raw) (hsrc : s.handles src = .rest (some a))
    (hheap : s.heap a = some object) :
    ((s.setObject a (some { object with count := object.count + 1 })).put d
      (.rest (some a))).Inv := by
  have hhold : (s.handles src).Holds a := by
    rw [hsrc]
    exact rfl
  obtain ⟨owners, x, hsome, hmem, hall, howns, hdeletes⟩ := hinv.held_of_holds hhold
  rw [hsome, Option.some.injEq] at hheap
  have hnew : d ∉ owners := by
    rw [← hall, hraw]
    exact id
  have hnone := hinv.unowned hsrc
  refine ⟨fun b => ?_, fun b hb => ?_, apart_update hinv.apart (by simp)⟩
  · by_cases hb : b = a
    · rw [hb]
      refine .held (insert d owners) x ?_ (Finset.insert_nonempty ..) ?_ ?_ ?_
      · rw [Finset.card_insert_of_notMem hnew, ← hheap]
        exact Function.update_self ..
      · apply forall_update (P := fun u (h : Handle α) => h.Holds a ↔ u ∈ insert d owners)
        · simp [Handle.Holds]
        · intro u hu
          exact (hall u).trans (by rw [Finset.mem_insert, or_iff_right hu])
      · apply forall_update (P := fun u (h : Handle α) => h.Owns a → insert d owners = {u})
        · exact fun hown => hown.elim
        · exact fun u _ hown => absurd hown (hnone u)
      · apply forall_update (P := fun _ (h : Handle α) => ¬ h.Deletes a)
        · exact id
        · exact fun u _ => hdeletes u
    · refine (hinv.at_address b).of_same (Function.update_of_ne hb ..) rfl ?_
      rw [hraw]
      simp [SameAt, Handle.Holds, Handle.Owns, Handle.Deletes, Ne.symm hb]
  · by_cases hba : b = a
    · rw [hba] at hb
      rw [hinv.fresh a hb] at hsome
      cases hsome
    · exact (Function.update_of_ne hba ..).trans (hinv.fresh b hb)

/-- The last handle of an object is the one that deletes it. -/
theorem Inv.release {after : AfterRelease α} {object : Implementation α} (hinv : s.Inv)
    (hhandle : s.handles d = .releasing a after) (hheap : s.heap a = some object) :
    ((s.setObject a (some { object with count := object.count - 1 })).put d
      (if object.count - 1 = 0 then .deleting a after else .ending after)).Inv := by
  have hhold : (s.handles d).Holds a := by
    rw [hhandle]
    exact .inl rfl
  obtain ⟨owners, x, hsome, hmem, hall, howns, hdeletes⟩ := hinv.held_of_holds hhold
  rw [hsome, Option.some.injEq] at hheap
  have hafter := hinv.apart d a after hhandle
  have hcount : object.count - 1 = (owners.erase d).card := by
    rw [Finset.card_erase_of_mem hmem, ← hheap]
  have hothers : ∀ u, u ≠ d → ((s.handles u).Holds a ↔ u ∈ owners.erase d) := by
    intro u hu
    rw [hall, Finset.mem_erase, and_iff_right hu]
  have hapart : ∀ b after', (if object.count - 1 = 0 then .deleting a after else .ending after) =
      Handle.releasing b after' → after'.object ≠ some b := by
    intro b after'
    split_ifs <;> simp
  refine ⟨fun b => ?_, fun b hb => ?_, apart_update hinv.apart hapart⟩
  · by_cases hb : b = a
    · rw [hb]
      have hobject : ((s.setObject a (some { object with count := object.count - 1 })).put d
          (if object.count - 1 = 0 then .deleting a after else .ending after)).heap a =
            some ⟨(owners.erase d).card, x⟩ := by
        rw [← hcount, ← hheap]
        exact Function.update_self ..
      by_cases hzero : object.count - 1 = 0
      · have hempty := Finset.card_eq_zero.mp (hcount.symm.trans hzero)
        rw [if_pos hzero] at hobject ⊢
        refine .doomed d x (by rw [hobject, hempty, Finset.card_empty]) ?_ ?_
        · apply forall_update (P := fun _ (h : Handle α) => ¬ h.Holds a)
          · exact hafter
          · intro u hu
            exact (hothers u hu).not.mpr (by simp [hempty])
        · apply forall_update (P := fun u (h : Handle α) => h.Deletes a ↔ u = d)
          · simp [Handle.Deletes]
          · exact fun u hu => iff_of_false (hdeletes u) hu
      · rw [if_neg hzero] at hobject ⊢
        refine .held (owners.erase d) x hobject ?_ ?_ ?_ ?_
        · rw [← Finset.card_pos, ← hcount]
          exact Nat.pos_of_ne_zero hzero
        · apply forall_update (P := fun u (h : Handle α) => h.Holds a ↔ u ∈ owners.erase d)
          · exact iff_of_false hafter (Finset.notMem_erase d owners)
          · exact hothers
        · apply forall_update (P := fun u (h : Handle α) => h.Owns a → owners.erase d = {u})
          · exact fun hown => absurd hown.holds hafter
          · intro u hu hown
            rw [howns u hown, Finset.mem_singleton] at hmem
            exact absurd hmem.symm hu
        · apply forall_update (P := fun _ (h : Handle α) => ¬ h.Deletes a)
          · exact id
          · exact fun u _ => hdeletes u
    · refine (hinv.at_address b).of_same (Function.update_of_ne hb ..) rfl ?_
      rw [hhandle]
      split_ifs <;> simp [SameAt, Handle.Holds, Handle.Owns, Handle.Deletes, Ne.symm hb]
  · by_cases hba : b = a
    · rw [hba] at hb
      rw [hinv.fresh a hb] at hsome
      cases hsome
    · exact (Function.update_of_ne hba ..).trans (hinv.fresh b hb)

theorem Inv.delete {after : AfterRelease α} (hinv : s.Inv)
    (hhandle : s.handles d = .deleting a after) :
    (∃ x, s.heap a = some ⟨0, x⟩) ∧ (∀ u, ¬ (s.handles u).Holds a) ∧
      ((s.setObject a none).put d (.ending after)).Inv := by
  have hdelete : (s.handles d).Deletes a := by
    rw [hhandle]
    exact rfl
  cases hinv.at_address a with
  | free hheap hholds hdeletes => exact absurd hdelete (hdeletes d)
  | held owners x hheap hnonempty hholds howns hdeletes => exact absurd hdelete (hdeletes d)
  | doomed last x hheap hholds hdeletes =>
      have hlast := (hdeletes d).mp hdelete
      have hafter : after.object ≠ some a := by
        have hnot := hholds d
        rw [hhandle] at hnot
        exact hnot
      refine ⟨⟨x, hheap⟩, hholds, fun b => ?_, fun b hb => ?_,
        apart_update hinv.apart (by simp)⟩
      · by_cases hb : b = a
        · rw [hb]
          refine .free (Function.update_self ..) ?_ ?_
          · apply forall_update (P := fun _ (h : Handle α) => ¬ h.Holds a)
            · exact hafter
            · exact fun u _ => hholds u
          · apply forall_update (P := fun _ (h : Handle α) => ¬ h.Deletes a)
            · exact id
            · intro u hu
              exact (hdeletes u).not.mpr (hlast ▸ hu)
        · refine (hinv.at_address b).of_same (Function.update_of_ne hb ..) rfl ?_
          rw [hhandle]
          simp [SameAt, Handle.Holds, Handle.Owns, Handle.Deletes, Ne.symm hb]
      · by_cases hba : b = a
        · rw [hba]
          exact Function.update_self ..
        · exact (Function.update_of_ne hba ..).trans (hinv.fresh b hb)

/-- The owner of an object changes its value in place. -/
theorem Inv.change {object : Implementation α} (hinv : s.Inv)
    (hown : (s.handles d).Owns a)
    (honly : ∀ b, (s.handles d).Holds b → b = a) (hdelete : ∀ b, ¬ (s.handles d).Deletes b)
    (hheap : s.heap a = some object) (x : α) :
    ((s.setObject a (some { object with value := x })).put d (.rest (some a))).Inv := by
  obtain ⟨hone, halone, hdeletes⟩ := hinv.alone hown.holds hheap (.inr hown)
  refine ⟨fun b => ?_, fun b hb => ?_, apart_update hinv.apart (by simp)⟩
  · by_cases hb : b = a
    · rw [hb]
      refine .of_alone (x := x) ?_ rfl halone rfl (fun u _ => hdeletes u) id
      rw [← hone]
      exact Function.update_self ..
    · refine (hinv.at_address b).of_same (Function.update_of_ne hb ..) rfl ⟨?_, ?_, ?_⟩
      · exact iff_of_false (fun hrest => hb (Option.some.inj hrest).symm) fun h => hb (honly b h)
      · exact fun h => h.elim
      · exact iff_of_false id (hdelete b)
  · by_cases hba : b = a
    · rw [hba] at hb
      rw [hinv.fresh a hb] at hheap
      cases hheap
    · exact (Function.update_of_ne hba ..).trans (hinv.fresh b hb)

/-- A new place in the call on a handle, where the value that it is to have is the same. -/
theorem Keeps.put {handle : Handle α} (hinv : (s.put d handle).Inv)
    (hvalue : handle.value s.contents = s.value d) : Keeps s (s.put d handle) := by
  refine ⟨hinv, values_eq (fun u => ?_) rfl, rfl, rfl⟩
  have hhandles : (s.put d handle).handles = Function.update s.handles d handle := rfl
  rw [value_of_update hhandles fun _ _ _ _ => rfl]
  split_ifs with hu
  · rw [hu]
    exact hvalue
  · rfl

theorem Keeps.new_put {handle : Handle α} {x : α} (hinv : s.Inv)
    (hafter : ((s.new x).put d handle).Inv)
    (hvalue : handle.value (Function.update s.contents s.next (some x)) = s.value d) :
    Keeps s ((s.new x).put d handle) := by
  refine ⟨hafter, values_eq (fun u => ?_) rfl, rfl, rfl⟩
  rw [hinv.value_new_put]
  split_ifs with hu
  · rw [hu]
    exact hvalue
  · rfl

/-- An object changes that nobody else holds, or whose value stays. -/
theorem Keeps.setObject_put {handle : Handle α} {object : Option (Implementation α)}
    (hafter : ((s.setObject a object).put d handle).Inv)
    (hothers : (∀ u, u ≠ d → ¬ (s.handles u).Holds a) ∨
      object.map Implementation.value = s.contents a)
    (hvalue : handle.value ((s.setObject a object).put d handle).contents = s.value d) :
    Keeps s ((s.setObject a object).put d handle) := by
  refine ⟨hafter, values_eq (fun u => ?_) rfl, rfl, rfl⟩
  have hkept : ∀ u, u ≠ d → ∀ b, (s.handles u).Holds b →
      ((s.setObject a object).put d handle).contents b = s.contents b := by
    intro u hu b hhold
    by_cases hb : b = a
    · rw [hb] at hhold ⊢
      rcases hothers with halone | hsame
      · exact absurd hhold (halone u hu)
      · rw [← hsame]
        simp [contents, Cow.put, setObject]
    · simp [contents, Cow.put, setObject, hb]
  rw [value_of_update rfl hkept]
  split_ifs with hu
  · rw [hu]
    exact hvalue
  · rfl

/-- The handle gets an object of its own before it lets the other go. -/
theorem Inv.keeps_reset (hinv : s.Inv) {change : Option (α → α)} {x : α}
    (hholds : ∀ b, (s.handles d).Holds b ↔ a = b) (hdeletes : ∀ b, ¬ (s.handles d).Deletes b)
    (hvalue : some (some (change.elim x (· x))) = s.value d) :
    Keeps s ((s.new x).put d (.releasing a (.reset s.next change))) := by
  have hlt : a < s.next := hinv.lt_next ((hholds a).mpr rfl)
  apply Keeps.new_put hinv
  · apply hinv.new_put
    · intro b
      rw [hholds]
      exact or_congr_right ⟨fun h => (Option.some.inj h).symm, fun h => congrArg some h.symm⟩
    · exact fun b hb hown => absurd (Option.some.inj hown).symm hb
    · exact fun b => id
    · exact hdeletes
    · rintro b after hhandle hafter
      cases hhandle
      exact hlt.ne' (Option.some.inj hafter)
  · rw [← hvalue]
    cases change <;> simp [Handle.value]

/-- Whoever finds the count at one may change the value in place. -/
theorem Inv.keeps_own (hinv : s.Inv) {handle : Handle α} {object : Implementation α}
    (hheap : s.heap a = some object) (hone : object.count = 1)
    (hholds : ∀ b, handle.Holds b ↔ (s.handles d).Holds b)
    (howns : ∀ b, handle.Owns b → b = a)
    (hdeletes : ∀ b, handle.Deletes b ↔ (s.handles d).Deletes b)
    (hapart : ∀ b after, handle ≠ .releasing b after)
    (hvalue : handle.value s.contents = s.value d) : Keeps s (s.put d handle) := by
  apply Keeps.put _ hvalue
  apply hinv.put hholds _ hdeletes fun b after h => absurd h (hapart b after)
  intro b hown
  rw [howns b hown]
  exact .inr ⟨object.value, by rw [hheap, ← hone]⟩

theorem Inv.keeps_change (hinv : s.Inv) {object : Implementation α} {x : α}
    (hheap : s.heap a = some object) (hown : (s.handles d).Owns a)
    (honly : ∀ b, (s.handles d).Holds b → b = a) (hdelete : ∀ b, ¬ (s.handles d).Deletes b)
    (hvalue : s.value d = some (some x)) :
    Keeps s ((s.setObject a (some { object with value := x })).put d (.rest (some a))) := by
  obtain ⟨-, halone, -⟩ := hinv.alone hown.holds hheap (.inr hown)
  apply Keeps.setObject_put (hinv.change hown honly hdelete hheap x) (.inl halone)
  rw [hvalue]
  simp [Handle.value, contents, Cow.put, setObject]

theorem advance_keeps (hinv : s.Inv) (d : η) : Keeps s (s.advance d) := by
  have hvalue : s.value d = (s.handles d).value s.contents := rfl
  have hstays : Keeps s s := ⟨hinv, rfl, rfl, rfl⟩
  rw [advance]
  cases hhandle : s.handles d with
  | raw => exact hstays
  | rest object => exact hstays
  | assigning a x =>
      have hholds : (s.handles d).Holds a := by
        rw [hhandle]
        exact rfl
      obtain ⟨object, hheap⟩ := hinv.exists_of_holds hholds
      rw [hhandle] at hvalue
      simp only [access_eq hheap]
      split_ifs with hone
      · apply hinv.keeps_own hheap hone <;>
          simp [hhandle, Handle.Holds, Handle.Owns, Handle.Deletes, hvalue, Handle.value]
      · apply hinv.keeps_reset <;>
          simp [hhandle, Handle.Holds, Handle.Deletes, hvalue, Handle.value]
  | storing a x =>
      have hown : (s.handles d).Owns a := by
        rw [hhandle]
        exact rfl
      obtain ⟨object, hheap⟩ := hinv.exists_of_holds hown.holds
      rw [hhandle] at hvalue
      simp only [access_eq hheap]
      apply hinv.keeps_change hheap hown <;>
        simp [hhandle, Handle.Holds, Handle.Deletes, hvalue, Handle.value]
  | writing a change =>
      have hholds : (s.handles d).Holds a := by
        rw [hhandle]
        exact rfl
      obtain ⟨object, hheap⟩ := hinv.exists_of_holds hholds
      rw [hhandle] at hvalue
      simp only [access_eq hheap]
      split_ifs with hone
      · apply hinv.keeps_own hheap hone <;>
          simp [hhandle, Handle.Holds, Handle.Owns, Handle.Deletes, hvalue, Handle.value]
      · apply Keeps.put
        · apply hinv.put <;> simp [hhandle, Handle.Holds, Handle.Owns, Handle.Deletes]
        · exact hvalue.symm
  | copying a change =>
      have hholds : (s.handles d).Holds a := by
        rw [hhandle]
        exact rfl
      obtain ⟨object, hheap⟩ := hinv.exists_of_holds hholds
      rw [hhandle] at hvalue
      simp only [access_eq hheap]
      apply hinv.keeps_reset <;>
        simp [hhandle, Handle.Holds, Handle.Deletes, hvalue, Handle.value, contents_eq hheap]
  | changing a change =>
      have hown : (s.handles d).Owns a := by
        rw [hhandle]
        exact rfl
      obtain ⟨object, hheap⟩ := hinv.exists_of_holds hown.holds
      rw [hhandle] at hvalue
      simp only [access_eq hheap]
      apply hinv.keeps_change hheap hown <;>
        simp [hhandle, Handle.Holds, Handle.Deletes, hvalue, Handle.value, contents_eq hheap]
  | releasing a after =>
      have hholds : (s.handles d).Holds a := by
        rw [hhandle]
        exact .inl rfl
      obtain ⟨object, hheap⟩ := hinv.exists_of_holds hholds
      rw [hhandle] at hvalue
      simp only [access_eq hheap]
      have hsame : ((s.setObject a (some { object with count := object.count - 1 })).put d
          (if object.count - 1 = 0 then .deleting a after else .ending after)).contents =
            s.contents := by
        funext b
        by_cases hb : b = a
        · simp [contents, put, setObject, hb, hheap]
        · simp [contents, put, setObject, hb]
      apply Keeps.setObject_put (hinv.release hhandle hheap)
      · exact .inr (contents_eq hheap).symm
      · rw [hsame, hvalue]
        split_ifs <;> rfl
  | deleting a after =>
      obtain ⟨⟨x, hheap⟩, hnone, hafter⟩ := hinv.delete hhandle
      rw [hhandle] at hvalue
      simp only [access_eq hheap]
      apply Keeps.setObject_put hafter (.inl fun u _ => hnone u)
      rw [hvalue]
      change _ = (Handle.ending after).value s.contents
      apply Handle.value_congr
      intro b hb
      have hba : b ≠ a := by
        rintro rfl
        apply hnone d
        rw [hhandle]
        exact hb
      simp [contents, put, setObject, hba]
  | ending after =>
      rw [hhandle] at hvalue
      cases after with
      | destroyed =>
          apply Keeps.put
          · apply hinv.put <;>
              simp [hhandle, Handle.Holds, Handle.Owns, Handle.Deletes, AfterRelease.object]
          · exact hvalue.symm
      | reset object change =>
          cases change with
          | none =>
              apply Keeps.put
              · apply hinv.put <;>
                  simp [hhandle, Handle.Holds, Handle.Owns, Handle.Deletes, AfterRelease.object]
              · exact hvalue.symm
          | some change =>
              apply Keeps.put
              · apply hinv.put <;>
                  simp [hhandle, Handle.Holds, Handle.Owns, Handle.Deletes, AfterRelease.object]
              · exact hvalue.symm

theorem values_put {w : Option (Option α)}
    (hvalue : ∀ u, s'.value u = if u = d then w else s.value u) (hreads : s'.reads = s.reads) :
    s'.values = s.values.put d w := by
  apply values_eq _ hreads
  intro u
  rw [hvalue]
  exact (Function.update_apply ..).symm

/-- A handle whose value changes while the objects stay. -/
theorem put_values (handle : Handle α) :
    (s.put d handle).values = s.values.put d (handle.value s.contents) :=
  values_put (value_of_update rfl fun _ _ _ _ => rfl) rfl

theorem Inv.new_rest (hinv : s.Inv) {x : α}
    (hnone : ∀ b, ¬ (s.handles d).Holds b ∧ ¬ (s.handles d).Deletes b) :
    ((s.new x).put d (.rest (some s.next))).Inv ∧
      ((s.new x).put d (.rest (some s.next))).values = s.values.put d (some (some x)) := by
  refine ⟨hinv.new_put ?_ ?_ ?_ ?_ ?_, ?_⟩
  · intro b
    rw [or_iff_right (hnone b).1]
    exact ⟨fun h => (Option.some.inj h).symm, fun h => congrArg some h.symm⟩
  · exact fun b _ hown => hown.elim
  · exact fun b => id
  · exact fun b => (hnone b).2
  · simp
  · have hvalue : ∀ u, ((s.new x).put d (.rest (some s.next))).value u =
        if u = d then some (some x) else s.value u := by
      intro u
      rw [hinv.value_new_put]
      simp [Handle.value]
    exact values_put hvalue rfl

theorem Inv.move {src : η} {object : Option ℕ} (hinv : s.Inv) (hraw : s.handles d = .raw)
    (hsrc : s.handles src = .rest object) :
    ((s.put d (.rest object)).put src (.rest none)).Inv := by
  have hne : src ≠ d := by
    rintro rfl
    rw [hraw] at hsrc
    cases hsrc
  have hsrc' : (s.put d (.rest object)).handles src = .rest object :=
    (Function.update_of_ne hne ..).trans hsrc
  have hapart : ∀ u b after, (s.put d (.rest object)).handles u = .releasing b after →
      after.object ≠ some b :=
    apart_update hinv.apart (by simp)
  refine ⟨fun b => ?_, hinv.fresh, apart_update hapart (by simp)⟩
  by_cases hb : object = some b
  · have hholds : (s.handles src).Holds b := by
      rw [hsrc]
      exact hb
    obtain ⟨owners, x, hheap, hmem, hall, howns, hdeletes⟩ := hinv.held_of_holds hholds
    have hnone := hinv.unowned (hb ▸ hsrc)
    have hnew : d ∉ owners := by
      rw [← hall, hraw]
      exact id
    have hcard : (insert d (owners.erase src)).card = owners.card := by
      rw [Finset.card_insert_of_notMem fun h => hnew (Finset.mem_of_mem_erase h),
        Finset.card_erase_add_one hmem]
    refine .held (insert d (owners.erase src)) x ?_ (Finset.insert_nonempty ..) ?_ ?_ ?_
    · rw [hcard]
      exact hheap
    · apply forall_update (P := fun u (h : Handle α) =>
        h.Holds b ↔ u ∈ insert d (owners.erase src))
      · simp [Handle.Holds, hne]
      · intro u hu
        apply forall_update (P := fun u (h : Handle α) => u ≠ src →
          (h.Holds b ↔ u ∈ insert d (owners.erase src))) _ _ u hu
        · intro _
          simp [Handle.Holds, hb]
        · intro u hud husrc
          simp [hall, hud, husrc]
    · apply forall_update (P := fun u (h : Handle α) => h.Owns b →
        insert d (owners.erase src) = {u})
      · exact fun hown => hown.elim
      · intro u _
        apply forall_update (P := fun u (h : Handle α) => h.Owns b →
          insert d (owners.erase src) = {u})
        · exact fun hown => hown.elim
        · exact fun u _ hown => absurd hown (hnone u)
    · apply forall_update (P := fun _ (h : Handle α) => ¬ h.Deletes b)
      · exact id
      · intro u _
        apply forall_update (P := fun _ (h : Handle α) => ¬ h.Deletes b)
        · exact id
        · exact fun u _ => hdeletes u
  · have hfirst : (s.put d (.rest object)).At b := by
      refine (hinv.at_address b).of_same rfl rfl ?_
      simp [SameAt, hraw, Handle.Holds, Handle.Owns, Handle.Deletes, hb]
    refine hfirst.of_same rfl rfl ?_
    simp [SameAt, hsrc', Handle.Holds, Handle.Owns, Handle.Deletes, hb]

/-- A call changes the value of its handle, though the objects may be as before. -/
theorem begin_spec {call : CowCall η α} (hinv : s.Inv) (hbegin : s.begin call = some s') :
    s'.Inv ∧ s'.values = s.values.step call ∧ s'.undefined = s.undefined := by
  cases call with
  | construct d x =>
      cases hhandle : s.handles d <;> simp only [begin, hhandle, Option.some.injEq,
        reduceCtorEq] at hbegin
      rw [← hbegin]
      obtain ⟨hafter, hvalues⟩ := hinv.new_rest (d := d) (x := x)
        (by simp [hhandle, Handle.Holds, Handle.Deletes])
      exact ⟨hafter, hvalues, rfl⟩
  | copy d src =>
      cases hhandle : s.handles d <;> simp only [begin, hhandle, reduceCtorEq] at hbegin
      cases hsrc : s.handles src <;> simp only [hsrc, reduceCtorEq] at hbegin
      rename_i object
      have hvalue : s.values.store src = some (object.bind s.contents) := by
        change (s.handles src).value s.contents = _
        rw [hsrc]
        rfl
      cases object with
      | none =>
          rw [← Option.some.inj hbegin]
          refine ⟨?_, ?_, rfl⟩
          · apply hinv.put <;> simp [hhandle, Handle.Holds, Handle.Owns, Handle.Deletes]
          · rw [put_values, Values.step, hvalue]
            rfl
      | some a =>
          have hholds : (s.handles src).Holds a := by
            rw [hsrc]
            exact rfl
          obtain ⟨object, hheap⟩ := hinv.exists_of_holds hholds
          simp only [access_eq hheap, Option.some.injEq] at hbegin
          rw [← hbegin]
          have hsame : ((s.setObject a (some { object with count := object.count + 1 })).put d
              (.rest (some a))).contents = s.contents := by
            funext b
            by_cases hb : b = a
            · simp [contents, put, setObject, hb, hheap]
            · simp [contents, put, setObject, hb]
          refine ⟨hinv.copy hhandle hsrc hheap, values_put (fun u => ?_) rfl, rfl⟩
          rw [value_of_update (d := d) rfl fun u _ b _ => congrFun hsame b, hsame, hvalue]
          rfl
  | move d src =>
      cases hhandle : s.handles d <;> simp only [begin, hhandle, reduceCtorEq] at hbegin
      cases hsrc : s.handles src <;> simp only [hsrc, reduceCtorEq] at hbegin
      rename_i object
      have hvalue : s.values.store src = some (object.bind s.contents) := by
        change (s.handles src).value s.contents = _
        rw [hsrc]
        rfl
      rw [← Option.some.inj hbegin]
      refine ⟨hinv.move hhandle hsrc, ?_, rfl⟩
      rw [put_values, put_values, Values.step, hvalue]
      rfl
  | destroy d =>
      cases hhandle : s.handles d <;> simp only [begin, hhandle, reduceCtorEq] at hbegin
      rename_i object
      cases object with
      | none =>
          rw [← Option.some.inj hbegin]
          refine ⟨?_, put_values _, rfl⟩
          apply hinv.put <;> simp [hhandle, Handle.Holds, Handle.Owns, Handle.Deletes]
      | some a =>
          rw [← Option.some.inj hbegin]
          refine ⟨?_, put_values _, rfl⟩
          apply hinv.put <;>
            simp [hhandle, Handle.Holds, Handle.Owns, Handle.Deletes, AfterRelease.object]
  | assign d x =>
      cases hhandle : s.handles d <;> simp only [begin, hhandle, reduceCtorEq] at hbegin
      rename_i object
      cases object with
      | none =>
          rw [← Option.some.inj hbegin]
          obtain ⟨hafter, hvalues⟩ := hinv.new_rest (d := d) (x := x)
            (by simp [hhandle, Handle.Holds, Handle.Deletes])
          exact ⟨hafter, hvalues, rfl⟩
      | some a =>
          rw [← Option.some.inj hbegin]
          refine ⟨?_, put_values _, rfl⟩
          apply hinv.put <;> simp [hhandle, Handle.Holds, Handle.Owns, Handle.Deletes]
  | write d change =>
      cases hhandle : s.handles d <;> simp only [begin, hhandle, reduceCtorEq] at hbegin
      rename_i object
      cases object with
      | none => simp at hbegin
      | some a =>
          rw [← Option.some.inj hbegin]
          refine ⟨?_, ?_, rfl⟩
          · apply hinv.put <;> simp [hhandle, Handle.Holds, Handle.Owns, Handle.Deletes]
          · have hvalue : s.values.store d = some (s.contents a) := by
              change (s.handles d).value s.contents = _
              rw [hhandle]
              rfl
            rw [put_values, Values.step, hvalue]
            rfl
  | read d =>
      cases hhandle : s.handles d <;> simp only [begin, hhandle, reduceCtorEq] at hbegin
      rename_i object
      cases object with
      | none => simp at hbegin
      | some a =>
          have hholds : (s.handles d).Holds a := by
            rw [hhandle]
            exact rfl
          obtain ⟨object, hheap⟩ := hinv.exists_of_holds hholds
          simp only [access_eq hheap, Option.some.injEq] at hbegin
          have hvalue : s.values.store d = some (some object.value) := by
            change (s.handles d).value s.contents = _
            rw [hhandle, ← contents_eq hheap]
            rfl
          rw [← hbegin]
          refine ⟨hinv.of_eq rfl rfl rfl, ?_, rfl⟩
          rw [Values.step, hvalue]
          rfl

/-- The handles are as if each had a value of its own, on which the calls worked at once. -/
structure Refines (s : Cow η α) : Prop where
  inv : s.Inv
  undefined : s.undefined = false
  values : s.values = run Values.step Values.start s.calls

theorem start_refines : (start : Cow η α).Refines := by
  refine ⟨⟨fun a => .free rfl (fun d => id) (fun d => id), fun a _ => rfl, ?_⟩, rfl, rfl⟩
  intro d a after h
  cases h

theorem step_refines (hrefines : s.Refines) (event : CowEvent η α) : (s.step event).Refines := by
  obtain ⟨hinv, hundefined, hvalues⟩ := hrefines
  cases event with
  | call call =>
      rw [step]
      cases hbegin : s.begin call with
      | none => exact ⟨hinv, hundefined, hvalues⟩
      | some s' =>
          obtain ⟨hinv', hvalues', hundefined'⟩ := begin_spec hinv hbegin
          refine ⟨hinv'.of_eq rfl rfl rfl, hundefined'.trans hundefined, ?_⟩
          rw [run_append, ← hvalues, run_cons, run_nil, ← hvalues']
          rfl
  | advance d =>
      obtain ⟨hinv', hvalues', hundefined', hcalls⟩ := advance_keeps hinv d
      exact ⟨hinv', hundefined'.trans hundefined, by rw [step, hvalues', hvalues, hcalls]⟩

theorem run_refines (events : List (CowEvent η α)) : (run step start events).Refines :=
  run_invariant Refines start_refines (fun _ event h => step_refines h event) events

/-- A call that is under way has only so many steps left. -/
theorem advance_descends (hinv : s.Inv) (hbusy : (s.handles d).stepsLeft ≠ 0) :
    ((s.advance d).handles d).stepsLeft < (s.handles d).stepsLeft := by
  have hself : ∀ (s : Cow η α) handle, (s.put d handle).handles d = handle :=
    fun s handle => Function.update_self ..
  rw [advance]
  cases hhandle : s.handles d with
  | raw => simp [hhandle, Handle.stepsLeft] at hbusy
  | rest object => simp [hhandle, Handle.stepsLeft] at hbusy
  | assigning a x | storing a x | writing a change | copying a change | changing a change
  | releasing a after =>
      have hholds : (s.handles d).Holds a := by simp [hhandle, Handle.Holds]
      obtain ⟨object, hheap⟩ := hinv.exists_of_holds hholds
      simp only [access_eq hheap]
      first
        | split_ifs <;> simp [hself, Handle.stepsLeft]
        | simp [hself, Handle.stepsLeft]
  | deleting a after =>
      obtain ⟨⟨x, hheap⟩, -, -⟩ := hinv.delete hhandle
      simp only [access_eq hheap]
      simp [hself, Handle.stepsLeft]
  | ending after =>
      cases after with
      | destroyed => simp [hself, Handle.stepsLeft]
      | reset object change => cases change <;> simp [hself, Handle.stepsLeft]

theorem stepsLeft_le (handle : Handle α) : handle.stepsLeft ≤ 6 := by
  cases handle <;> simp [Handle.stepsLeft]

omit [DecidableEq η] in
theorem access_handles {a : ℕ} {use : Implementation α → Cow η α} {d : η}
    (huse : ∀ object, (use object).handles d = s.handles d) :
    (s.access a use).handles d = s.handles d := by
  rw [access]
  cases s.heap a with
  | none => rfl
  | some object => exact huse object

theorem advance_handles {d e : η} (hne : d ≠ e) : (s.advance e).handles d = s.handles d := by
  have hput : ∀ (s : Cow η α) handle, (s.put e handle).handles d = s.handles d :=
    fun s handle => Function.update_of_ne hne _ _
  rw [advance]
  cases s.handles e with
  | raw | rest => rfl
  | storing | copying | changing | releasing | deleting =>
      exact access_handles fun object => hput _ _
  | assigning | writing =>
      apply access_handles
      intro object
      split_ifs <;> exact hput _ _
  | ending after =>
      cases after with
      | destroyed => exact hput _ _
      | reset object change => cases change <;> exact hput _ _

/-- A call begins on handles that no thread is busy with. -/
theorem begin_handles {call : CowCall η α} {s' : Cow η α} (hbegin : s.begin call = some s') {d : η}
    (hbusy : (s.handles d).stepsLeft ≠ 0) : s'.handles d = s.handles d := by
  have hput : ∀ (s' : Cow η α) {e : η} (handle : Handle α), (s.handles e).stepsLeft = 0 →
      (s'.put e handle).handles d = s'.handles d := by
    intro s' e handle hidle
    apply Function.update_of_ne
    rintro rfl
    exact hbusy hidle
  cases call with
  | construct e x =>
      cases hhandle : s.handles e <;> simp only [begin, hhandle, Option.some.injEq,
        reduceCtorEq] at hbegin
      rw [← hbegin]
      exact hput _ _ (by rw [hhandle]; rfl)
  | copy e src =>
      cases hhandle : s.handles e <;> simp only [begin, hhandle, reduceCtorEq] at hbegin
      have hidle : (s.handles e).stepsLeft = 0 := by rw [hhandle]; rfl
      cases hsrc : s.handles src <;> simp only [hsrc, reduceCtorEq] at hbegin
      rename_i object
      cases object with
      | none =>
          rw [← Option.some.inj hbegin]
          exact hput _ _ hidle
      | some a =>
          rw [← Option.some.inj hbegin]
          exact access_handles fun object => hput _ _ hidle
  | move e src =>
      cases hhandle : s.handles e <;> simp only [begin, hhandle, reduceCtorEq] at hbegin
      cases hsrc : s.handles src <;> simp only [hsrc, reduceCtorEq] at hbegin
      rw [← Option.some.inj hbegin, hput _ _ (by rw [hsrc]; rfl)]
      exact hput _ _ (by rw [hhandle]; rfl)
  | destroy e | assign e =>
      cases hhandle : s.handles e <;> simp only [begin, hhandle, reduceCtorEq] at hbegin
      rename_i object
      cases object <;>
        · rw [← Option.some.inj hbegin]
          exact hput _ _ (by rw [hhandle]; rfl)
  | write e change =>
      cases hhandle : s.handles e <;> simp only [begin, hhandle, reduceCtorEq] at hbegin
      rename_i object
      cases object with
      | none => simp at hbegin
      | some a =>
          rw [← Option.some.inj hbegin]
          exact hput _ _ (by rw [hhandle]; rfl)
  | read e =>
      cases hhandle : s.handles e <;> simp only [begin, hhandle, reduceCtorEq] at hbegin
      rename_i object
      cases object with
      | none => simp at hbegin
      | some a =>
          rw [← Option.some.inj hbegin]
          exact access_handles fun object => rfl

theorem step_handles {event : CowEvent η α} {d : η} (hother : event ≠ .advance d)
    (hbusy : (s.handles d).stepsLeft ≠ 0) : (s.step event).handles d = s.handles d := by
  cases event with
  | advance e => exact advance_handles fun heq => hother (heq ▸ rfl)
  | call call =>
      rw [step]
      cases hbegin : s.begin call with
      | none => rfl
      | some s' => exact begin_handles hbegin hbusy

/-- A call is over after as many steps of its own as it has left, whatever happens between
them. -/
theorem call_ends (hrefines : s.Refines) {d : η} (later : List (CowEvent η α))
    (hsteps : (s.handles d).stepsLeft ≤ later.countP (CowEvent.isAdvance d)) :
    ∃ first, first <+: later ∧ ((run step s first).handles d).stepsLeft = 0 := by
  induction later generalizing s with
  | nil => exact ⟨[], List.prefix_refl _, by simpa using hsteps⟩
  | cons event later ih =>
      by_cases hover : (s.handles d).stepsLeft = 0
      · exact ⟨[], List.nil_prefix, hover⟩
      · have hnext : ((s.step event).handles d).stepsLeft ≤
            later.countP (CowEvent.isAdvance d) := by
          by_cases hown : event = .advance d
          · subst hown
            have hless := advance_descends hrefines.inv hover
            rw [List.countP_cons_of_pos (CowEvent.isAdvance_iff.mpr rfl)] at hsteps
            rw [step]
            omega
          · rw [step_handles hown hover]
            rwa [List.countP_cons_of_neg fun h => hown (CowEvent.isAdvance_iff.mp h)] at hsteps
        obtain ⟨first, hprefix, hends⟩ := ih (step_refines hrefines event) hnext
        exact ⟨event :: first, List.cons_prefix_cons.mpr ⟨rfl, hprefix⟩, hends⟩

/-- Whatever the threads do, no deleted object is used, what is read is what handles with
values of their own would have, every object has as many handles as it counts, and each call
comes to its end after six more steps of its own at the most. -/
theorem copy_on_write_is_a_value (events : List (CowEvent η α)) :
    let s := run step start events
    let v := run Values.step Values.start s.calls
    s.undefined = false ∧ s.reads = v.reads ∧
      (∀ d, s.handles d = .raw → v.store d = none) ∧
      (∀ d object, s.handles d = .rest object → v.store d = some (object.bind s.contents)) ∧
      ((∀ d, (s.handles d).stepsLeft = 0) → ∀ a object, s.heap a = some object →
        ∃ owners : Finset η, owners.Nonempty ∧ object.count = owners.card ∧
          ∀ d, s.handles d = .rest (some a) ↔ d ∈ owners) ∧
      (∀ d, (s.handles d).stepsLeft ≤ 6 ∧ ((s.handles d).stepsLeft ≠ 0 →
        ((s.advance d).handles d).stepsLeft < (s.handles d).stepsLeft ∧
          ∀ event, event ≠ .advance d → (s.step event).handles d = s.handles d)) ∧
      ∀ d later, 6 ≤ later.countP (CowEvent.isAdvance d) →
        ∃ first, first <+: later ∧ ((run step s first).handles d).stepsLeft = 0 := by
  intro s v
  obtain ⟨hinv, hundefined, hvalues⟩ : s.Refines := run_refines events
  have hstore : ∀ d, v.store d = (s.handles d).value s.contents :=
    fun d => (congrFun (congrArg Values.store hvalues) d).symm
  refine ⟨hundefined, congrArg Values.reads hvalues, ?_, ?_, ?_,
    fun d => ⟨stepsLeft_le _, fun hbusy => ⟨advance_descends hinv hbusy,
      fun event hother => step_handles hother hbusy⟩⟩,
    fun d later hsix => call_ends (run_refines events) later ((stepsLeft_le _).trans hsix)⟩
  · intro d hraw
    rw [hstore, hraw]
    rfl
  · intro d object hrest
    rw [hstore, hrest]
    rfl
  · intro hidle a object hheap
    cases hinv.at_address a with
    | free hnone hholds hdeletes => simp [hnone] at hheap
    | held owners x hsome hnonempty hholds howns hdeletes =>
        rw [hsome, Option.some.injEq] at hheap
        refine ⟨owners, hnonempty, by rw [← hheap], fun d => ?_⟩
        rw [← hholds]
        have hd := hidle d
        cases hhandle : s.handles d <;> simp_all [Handle.Holds, Handle.stepsLeft]
    | doomed last x hsome hholds hdeletes =>
        have hlast := (hdeletes last).mpr rfl
        have hd := hidle last
        cases hhandle : s.handles last <;> simp_all [Handle.Deletes, Handle.stepsLeft]

end Cow

end CppPlay.Diff
