import CppPlay.Lib.Descent
import Mathlib.Order.Fin.Basic

/-!
# `Options`

A table of options with a text for each.  The defaults are put in and the loader is
asked from the last position down to the first.
-/

namespace CppPlay

open CppPlay.Lib

/-- `OptionTraitT<pos>`, and what `boost::lexical_cast` makes of its values: nothing where
it throws. -/
structure OptionTrait where
  string_key : String
  value_type : Type
  default_value : value_type
  toText : value_type → Option String
  ofText : String → Option value_type

abbrev KeyValue := String × String

variable {Size : ℕ} {σ : Type*}

/-- The loader is a function that may have a state, `log` the messages of severity `ERR`
without their place in the source. -/
structure Options (Size : ℕ) (σ : Type*) where
  loader : σ
  keyValueMap : Fin Size → KeyValue
  log : List String

/-- Nothing is an exception. -/
abbrev Loader (σ : Type*) := String → σ → Option String × σ

namespace Options

def store (s : Options Size σ) (pos : Fin Size) (kv : KeyValue) : Options Size σ :=
  { s with keyValueMap := Function.update s.keyValueMap pos kv }

def logged (s : Options Size σ) (msg : String) : Options Size σ := { s with log := s.log ++ [msg] }

def loadedBy (s : Options Size σ) (l : σ) : Options Size σ := { s with loader := l }

@[simp] theorem loader_store (s : Options Size σ) (pos : Fin Size) (kv : KeyValue) :
    (s.store pos kv).loader = s.loader := rfl

@[simp] theorem loader_logged (s : Options Size σ) (msg : String) :
    (s.logged msg).loader = s.loader := rfl

@[simp] theorem keyValueMap_logged (s : Options Size σ) (msg : String) :
    (s.logged msg).keyValueMap = s.keyValueMap := rfl

@[simp] theorem keyValueMap_loadedBy (s : Options Size σ) (l : σ) :
    (s.loadedBy l).keyValueMap = s.keyValueMap := rfl

@[simp] theorem loader_loadedBy (s : Options Size σ) (l : σ) : (s.loadedBy l).loader = l := rfl

def invalidOption : String := "Coding error. Invalid option"

def invalidPair (key value : String) : String :=
  "Invalid key->value pair: " ++ key ++ "->" ++ value ++ "."

section

variable (traits : Fin Size → OptionTrait) (m_loader : Loader σ)

/-- `init(PosT<pos>)` without the call for the next position. -/
def initAt (pos : Fin Size) (s : Options Size σ) : Bool × Options Size σ :=
  match (traits pos).toText (traits pos).default_value with
  | none => (false, s.logged invalidOption)
  | some str_value => (true, s.store pos ((traits pos).string_key, str_value))

def init (s : Options Size σ) : Bool × Options Size σ := descend (initAt traits) Size (Nat.le_refl _) s

def isValueValid (pos : Fin Size) (strValue : String) : Bool := ((traits pos).ofText strValue).isSome

/-- `loadValues(PosT<pos>)` without the call for the next position. -/
def loadAt (pos : Fin Size) (s : Options Size σ) : Bool × Options Size σ :=
  match m_loader (traits pos).string_key s.loader with
  | (none, l) => (false, (s.loadedBy l).logged invalidOption)
  | (some str_value, l) =>
      if str_value = "" then (true, s.loadedBy l)
      else if isValueValid traits pos str_value then
        (true, (s.loadedBy l).store pos ((traits pos).string_key, str_value))
      else (false, (s.loadedBy l).logged (invalidPair (traits pos).string_key str_value))

def loadValues (s : Options Size σ) : Bool × Options Size σ :=
  descend (loadAt traits m_loader) Size (Nat.le_refl _) s

def getOption (pos : Fin Size) (s : Options Size σ) : (traits pos).value_type × Options Size σ :=
  match (traits pos).ofText (s.keyValueMap pos).2 with
  | some value => (value, s)
  | none => ((traits pos).default_value, s.logged invalidOption)

/-! ## What the loader returns -/

/-- The loader after its calls for the last `calls` positions. -/
def loaderAfter (l : σ) : ℕ → σ
  | 0 => l
  | calls + 1 =>
      if hcalls : calls < Size then
        (m_loader (traits (Fin.rev ⟨calls, hcalls⟩)).string_key (loaderAfter l calls)).2
      else loaderAfter l calls

def loaded (l : σ) (pos : Fin Size) : Option String :=
  (m_loader (traits pos).string_key (loaderAfter traits m_loader l pos.rev)).1

/-- The loader throws, or the value does not convert. -/
def Fails (l : σ) (pos : Fin Size) : Prop :=
  ∀ str_value, loaded traits m_loader l pos = some str_value →
    str_value ≠ "" ∧ isValueValid traits pos str_value = false

/-- What loading makes of one entry. -/
def Loads (l : σ) (pos : Fin Size) (old new : KeyValue) : Prop :=
  ∃ str_value, loaded traits m_loader l pos = some str_value ∧
    ((str_value = "" ∧ new = old) ∨
      (str_value ≠ "" ∧ isValueValid traits pos str_value = true ∧
        new = ((traits pos).string_key, str_value)))

def LoadsAtomically (s : Options Size σ) : Prop :=
  ((loadValues traits m_loader s).1 = false →
    ∀ pos, ((loadValues traits m_loader s).2.keyValueMap pos).2 = (s.keyValueMap pos).2) ∧
  ((loadValues traits m_loader s).1 = true →
    ∀ pos str_value, loaded traits m_loader s.loader pos = some str_value →
      ((loadValues traits m_loader s).2.keyValueMap pos).2 =
        if str_value = "" then (s.keyValueMap pos).2 else str_value)

end

variable {traits : Fin Size → OptionTrait} {m_loader : Loader σ} {s : Options Size σ}

/-! ## One position -/

theorem loaderAfter_rev_succ (l : σ) (pos : Fin Size) :
    loaderAfter traits m_loader l (pos.rev + 1) =
      (m_loader (traits pos).string_key (loaderAfter traits m_loader l pos.rev)).2 := by
  rw [loaderAfter, dif_pos pos.rev.isLt, Fin.eta, Fin.rev_rev]

theorem loadAt_true {l : σ} {pos : Fin Size}
    (hloader : s.loader = loaderAfter traits m_loader l pos.rev)
    (hstep : (loadAt traits m_loader pos s).1 = true) :
    (loadAt traits m_loader pos s).2.loader = loaderAfter traits m_loader l (pos.rev + 1) ∧
      Loads traits m_loader l pos (s.keyValueMap pos)
        ((loadAt traits m_loader pos s).2.keyValueMap pos) ∧
      ∀ i, i ≠ pos → (loadAt traits m_loader pos s).2.keyValueMap i = s.keyValueMap i := by
  rw [loaderAfter_rev_succ, Loads, loaded, ← hloader]
  rw [loadAt] at hstep ⊢
  cases hcall : m_loader (traits pos).string_key s.loader with
  | mk value l' =>
      cases value with
      | none => simp [hcall] at hstep
      | some str_value =>
          simp only [hcall] at hstep ⊢
          split_ifs at hstep ⊢ with hempty hvalid
          · exact ⟨rfl, ⟨str_value, rfl, .inl ⟨hempty, rfl⟩⟩, fun i _ => rfl⟩
          · refine ⟨rfl, ⟨str_value, rfl, .inr ⟨hempty, hvalid, ?_⟩⟩, fun i hi => ?_⟩
            · simp [store]
            · simp [store, Function.update_of_ne hi]

theorem loadAt_false {l : σ} {pos : Fin Size}
    (hloader : s.loader = loaderAfter traits m_loader l pos.rev)
    (hstep : (loadAt traits m_loader pos s).1 = false) :
    Fails traits m_loader l pos ∧
      (loadAt traits m_loader pos s).2.keyValueMap = s.keyValueMap := by
  rw [Fails, loaded, ← hloader]
  rw [loadAt] at hstep ⊢
  cases hcall : m_loader (traits pos).string_key s.loader with
  | mk value l' =>
      cases value with
      | none =>
          refine ⟨fun str_value hvalue => ?_, rfl⟩
          cases hvalue
      | some str_value =>
          simp only [hcall] at hstep ⊢
          split_ifs at hstep ⊢ with hempty hvalid
          refine ⟨fun str_value' hvalue => ?_, rfl⟩
          rw [← Option.some.inj hvalue]
          exact ⟨hempty, Bool.eq_false_iff.mpr hvalid⟩

/-! ## The whole table -/

/-- Before the positions below `pos`, those from there on are loaded. -/
structure LoadedFrom (traits : Fin Size → OptionTrait) (m_loader : Loader σ)
    (start : Options Size σ) (pos : ℕ) (s : Options Size σ) : Prop where
  loader_eq : s.loader = loaderAfter traits m_loader start.loader (Size - pos)
  below : ∀ i : Fin Size, i < pos → s.keyValueMap i = start.keyValueMap i
  above : ∀ i : Fin Size, pos ≤ i →
    Loads traits m_loader start.loader i (start.keyValueMap i) (s.keyValueMap i)

theorem loadedFrom_start : LoadedFrom traits m_loader s Size s := by
  refine ⟨by rw [Nat.sub_self, loaderAfter], fun i _ => rfl, fun i hi => ?_⟩
  exact absurd i.isLt hi.not_gt

theorem LoadedFrom.loader_rev {start : Options Size σ} {pos : Fin Size}
    (hloaded : LoadedFrom traits m_loader start (pos + 1) s) :
    s.loader = loaderAfter traits m_loader start.loader pos.rev := by
  rw [hloaded.loader_eq, Fin.val_rev]

theorem LoadedFrom.step {start : Options Size σ} {pos : Fin Size}
    (hloaded : LoadedFrom traits m_loader start (pos + 1) s)
    (hstep : (loadAt traits m_loader pos s).1 = true) :
    LoadedFrom traits m_loader start pos (loadAt traits m_loader pos s).2 := by
  obtain ⟨hloader, hloads, hothers⟩ := loadAt_true hloaded.loader_rev hstep
  refine ⟨?_, fun i hi => ?_, fun i hi => ?_⟩
  · have hcalls : (pos.rev : ℕ) + 1 = Size - pos := by
      rw [Fin.val_rev]
      omega
    rw [hloader, hcalls]
  · have hne : i ≠ pos := fun heq => by simp [heq] at hi
    rw [hothers i hne]
    exact hloaded.below i (by omega)
  · rcases hi.lt_or_eq with hlt | heq
    · have hne : i ≠ pos := fun heq => by simp [heq] at hlt
      rw [hothers i hne]
      exact hloaded.above i hlt
    · obtain rfl : pos = i := Fin.ext heq
      rw [← hloaded.below pos (Nat.lt_succ_self _)]
      exact hloads

theorem loads_of_loadValues (hstatus : (loadValues traits m_loader s).1 = true) (pos : Fin Size) :
    Loads traits m_loader s.loader pos (s.keyValueMap pos)
      ((loadValues traits m_loader s).2.keyValueMap pos) := by
  rcases descend_invariant (LoadedFrom traits m_loader s)
    (fun pos s' hloaded hstep => hloaded.step hstep) le_rfl loadedFrom_start with
    ⟨_, hloaded⟩ | ⟨hfalse, _⟩
  · exact hloaded.above pos (Nat.zero_le _)
  · rw [loadValues, hfalse] at hstatus
    exact absurd hstatus Bool.false_ne_true

theorem exists_failed_of_loadValues (hstatus : (loadValues traits m_loader s).1 = false) :
    ∃ failed : Fin Size, Fails traits m_loader s.loader failed ∧
      (∀ pos, failed < pos → Loads traits m_loader s.loader pos (s.keyValueMap pos)
        ((loadValues traits m_loader s).2.keyValueMap pos)) ∧
      ∀ pos, pos ≤ failed →
        (loadValues traits m_loader s).2.keyValueMap pos = s.keyValueMap pos := by
  rcases descend_invariant (LoadedFrom traits m_loader s)
    (fun pos s' hloaded hstep => hloaded.step hstep) le_rfl loadedFrom_start with
    ⟨htrue, _⟩ | ⟨_, failed, s', hloaded, hstep, hend⟩
  · rw [loadValues, htrue] at hstatus
    exact absurd hstatus.symm Bool.false_ne_true
  · obtain ⟨hfails, hmap⟩ := loadAt_false hloaded.loader_rev hstep
    rw [loadValues, hend, hmap]
    exact ⟨failed, hfails, fun pos hlt => hloaded.above pos hlt,
      fun pos hle => hloaded.below pos (Nat.lt_succ_of_le hle)⟩

/-- Of a failed call the options above the one that failed are loaded, and the others are
as they were. -/
theorem loadValues_in_order (traits : Fin Size → OptionTrait) (m_loader : Loader σ)
    (s : Options Size σ) :
    ((loadValues traits m_loader s).1 = true → ∀ pos, Loads traits m_loader s.loader pos
      (s.keyValueMap pos) ((loadValues traits m_loader s).2.keyValueMap pos)) ∧
    ((loadValues traits m_loader s).1 = false → ∃ failed : Fin Size,
      Fails traits m_loader s.loader failed ∧
      (∀ pos, failed < pos → Loads traits m_loader s.loader pos (s.keyValueMap pos)
        ((loadValues traits m_loader s).2.keyValueMap pos)) ∧
      ∀ pos, pos ≤ failed →
        (loadValues traits m_loader s).2.keyValueMap pos = s.keyValueMap pos) :=
  ⟨loads_of_loadValues, exists_failed_of_loadValues⟩

/-- The loader throws for the first of two options when the second one is loaded. -/
theorem loadValues_not_atomic :
    ¬ ∀ (Size : ℕ) (traits : Fin Size → OptionTrait) (m_loader : Loader Unit)
      (s : Options Size Unit), LoadsAtomically traits m_loader s := by
  intro hall
  let traits : Fin 2 → OptionTrait := fun pos =>
    ⟨if pos = 0 then "ZOOKEEPER_SERVER" else "LOAD_BALANCER", String, "", some, some⟩
  let m_loader : Loader Unit := fun key l =>
    if key = "ZOOKEEPER_SERVER" then (none, l) else (some "Server", l)
  have hatomic := (hall 2 traits m_loader ⟨(), fun pos => ((traits pos).string_key, ""), []⟩).1
    (by decide) 1
  exact absurd hatomic (by decide)

/-! ## Values -/

/-- Every text converts to a value of its option. -/
def Readable (traits : Fin Size → OptionTrait) (s : Options Size σ) : Prop :=
  ∀ pos, isValueValid traits pos (s.keyValueMap pos).2 = true

/-- Where the defaults convert back, `init` leaves a readable table. -/
theorem readable_init (hdefaults : ∀ pos str_value,
      (traits pos).toText (traits pos).default_value = some str_value →
        isValueValid traits pos str_value = true)
    (hinit : (init traits s).1 = true) : Readable traits (init traits s).2 := by
  let Inv : ℕ → Options Size σ → Prop := fun pos s' =>
    ∀ i : Fin Size, pos ≤ i → isValueValid traits i (s'.keyValueMap i).2 = true
  have hkeeps : ∀ (pos : Fin Size) (s' : Options Size σ), Inv (pos + 1) s' →
      (initAt traits pos s').1 = true → Inv pos (initAt traits pos s').2 := by
    intro pos s' habove hstep i hi
    rw [initAt] at hstep ⊢
    cases htext : (traits pos).toText (traits pos).default_value with
    | none => simp [htext] at hstep
    | some str_value =>
        rcases hi.lt_or_eq with hlt | heq
        · have hne : i ≠ pos := fun heq => by simp [heq] at hlt
          simpa [store, Function.update_of_ne hne] using habove i hlt
        · obtain rfl : pos = i := Fin.ext heq
          simpa [store] using hdefaults pos str_value htext
  have hstart : Inv Size s := fun i hi => absurd i.isLt hi.not_gt
  rcases descend_invariant Inv hkeeps le_rfl hstart with ⟨_, hall⟩ | ⟨hfalse, _⟩
  · exact fun pos => hall pos (Nat.zero_le _)
  · rw [init, hfalse] at hinit
    exact absurd hinit Bool.false_ne_true

theorem readable_loadValues (m_loader : Loader σ) (hreadable : Readable traits s) :
    Readable traits (loadValues traits m_loader s).2 := by
  have hloads : ∀ pos new, Loads traits m_loader s.loader pos (s.keyValueMap pos) new →
      isValueValid traits pos new.2 = true := by
    rintro pos new ⟨str_value, _, ⟨_, rfl⟩ | ⟨_, hvalid, rfl⟩⟩
    · exact hreadable pos
    · exact hvalid
  intro pos
  cases hstatus : (loadValues traits m_loader s).1 with
  | true => exact hloads pos _ (loads_of_loadValues hstatus pos)
  | false =>
      obtain ⟨failed, _, habove, hbelow⟩ := exists_failed_of_loadValues hstatus
      rcases lt_or_ge failed pos with hlt | hle
      · exact hloads pos _ (habove pos hlt)
      · rw [hbelow pos hle]
        exact hreadable pos

theorem getOption_of_readable (hreadable : Readable traits s) (pos : Fin Size) :
    ∃ value, (traits pos).ofText (s.keyValueMap pos).2 = some value ∧
      getOption traits pos s = (value, s) := by
  obtain ⟨value, hvalue⟩ := Option.isSome_iff_exists.mp (hreadable pos)
  exact ⟨value, hvalue, by rw [getOption, hvalue]⟩

end Options

end CppPlay
