import CppPlay.Lib.Run

/-!
# `ArrayMap` as a finite map

A key is present when its element differs from the default value.  Objects are kept
as their bytes, since `clear` copies bytes.
-/

namespace CppPlay.Templates

open CppPlay.Lib

/-- An element type whose objects may be copied as bytes: `==` compares the values that the bytes
stand for, so that every object equals itself. -/
structure ObjectType (T : Type*) where
  sizeof : ℕ
  value : (Fin sizeof → UInt8) → T
  default : Fin sizeof → UInt8

namespace ObjectType

abbrev Object {T : Type*} (ty : ObjectType T) := Fin ty.sizeof → UInt8

variable {T : Type*} (ty : ObjectType T)

abbrev NonDefault := {o : ty.Object // ty.value o ≠ ty.value ty.default}

def UniqueDefault : Prop := ∀ o : ty.Object, ty.value o = ty.value ty.default → o = ty.default

end ObjectType

namespace ArrayMap

section Code

variable {T : Type*} [DecidableEq T] {ty : ObjectType T} {size : ℕ}

/-- The member `_map`, a `std::array<T, SIZE>`. -/
abbrev Map (ty : ObjectType T) (size : ℕ) := Fin size → ty.Object

def emptyMap : Map ty size := fun _ => ty.default

def tryEmplace (map : Map ty size) (key : ℕ) (args : ty.Object) :
    Map ty size × ℕ × Bool :=
  if h : key < size then
    if ty.value (map ⟨key, h⟩) ≠ ty.value ty.default then (map, key, false)
    else (Function.update map ⟨key, h⟩ args, key, true)
  else (map, size, false)

def insertOrAssign (map : Map ty size) (key : ℕ) (obj : ty.Object) :
    Map ty size × ℕ × Bool :=
  if h : key < size then (Function.update map ⟨key, h⟩ obj, key, true)
  else (map, size, false)

/-- The pointer to an element is the element's value here. -/
def find (map : Map ty size) (key : ℕ) : Option T :=
  if h : key < size then
    if ty.value (map ⟨key, h⟩) = ty.value ty.default then none
    else some (ty.value (map ⟨key, h⟩))
  else none

/-- The loop of `findValue` from `key` on. -/
def findValueLoop (map : Map ty size) (value : ty.Object) (key : ℕ) : ℕ :=
  if h : key < size then
    if ty.value value = ty.value (map ⟨key, h⟩) then key
    else findValueLoop map value (key + 1)
  else size
termination_by size - key

def findValue (map : Map ty size) (value : ty.Object) : ℕ := findValueLoop map value 0

def empty (map : Map ty size) : Bool :=
  decide (∀ key, ty.value (map key) = ty.value (emptyMap key))

/-- `memcpy(&_map, &EmptyMap, SIZE)`: the first `SIZE` bytes of the array, whatever the
element type's size. -/
def clear (map : Map ty size) : Map ty size := fun key byte =>
  if key * ty.sizeof + byte < size then emptyMap key byte else map key byte

inductive Op (ty : ObjectType T)
  | tryEmplace (key : ℕ) (args : ty.Object)
  | insertOrAssign (key : ℕ) (obj : ty.NonDefault)
  | find (key : ℕ)
  | findValue (value : ty.NonDefault)
  | empty
  | clear

inductive Result (T : Type*)
  | placed (outcome : ℕ × Bool)
  | found (value : Option T)
  | foundKey (key : ℕ)
  | isEmpty (answer : Bool)
  | done

def apply (map : Map ty size) : Op ty → Map ty size × Result T
  | .tryEmplace key args => ((tryEmplace map key args).1, .placed (tryEmplace map key args).2)
  | .insertOrAssign key obj =>
      ((insertOrAssign map key obj.1).1, .placed (insertOrAssign map key obj.1).2)
  | .find key => (map, .found (find map key))
  | .findValue value => (map, .foundKey (findValue map value.1))
  | .empty => (map, .isEmpty (empty map))
  | .clear => (clear map, .done)

end Code

/-! ### The reference map -/

noncomputable section Reference

open Classical in
/-- What each operation does to a partial map on the keys below `size`. -/
def reference {T : Type*} {ty : ObjectType T} {size : ℕ} (m : Fin size → Option T) :
    Op ty → (Fin size → Option T) × Result T
  | .tryEmplace key args =>
      if h : key < size then
        if m ⟨key, h⟩ = none then
          (Function.update m ⟨key, h⟩ (some (ty.value args)), .placed (key, true))
        else (m, .placed (key, false))
      else (m, .placed (size, false))
  | .insertOrAssign key obj =>
      if h : key < size then
        (Function.update m ⟨key, h⟩ (some (ty.value obj)), .placed (key, true))
      else (m, .placed (size, false))
  | .find key => (m, .found (if h : key < size then m ⟨key, h⟩ else none))
  | .findValue value =>
      (m, .foundKey (sInf {key | key = size ∨ ∃ h, m ⟨key, h⟩ = some (ty.value value)}))
  | .empty => (m, .isEmpty (decide (∀ key, m key = none)))
  | .clear => (fun _ => none, .done)

end Reference

variable {T : Type*} [DecidableEq T] {ty : ObjectType T} {size : ℕ}

def contents (map : Map ty size) (key : Fin size) : Option T :=
  if ty.value (map key) = ty.value ty.default then none else some (ty.value (map key))

theorem contents_eq_none {map : Map ty size} {key : Fin size} :
    contents map key = none ↔ ty.value (map key) = ty.value ty.default := by
  rw [contents, ite_eq_left_iff]
  simp

theorem contents_update {map : Map ty size} {key : Fin size} {obj : ty.Object}
    (hobj : ty.value obj ≠ ty.value ty.default) :
    contents (Function.update map key obj) =
      Function.update (contents map) key (some (ty.value obj)) := by
  funext other
  by_cases hother : other = key
  · subst hother
    rw [contents, Function.update_self, Function.update_self, if_neg hobj]
  · rw [contents, Function.update_of_ne hother, Function.update_of_ne hother, contents]

theorem find_eq_contents (map : Map ty size) (key : ℕ) :
    find map key = if h : key < size then contents map ⟨key, h⟩ else none := rfl

theorem contents_eq_some {map : Map ty size} {key : Fin size} (value : ty.NonDefault) :
    contents map key = some (ty.value value) ↔ ty.value value = ty.value (map key) := by
  by_cases hdefault : ty.value (map key) = ty.value ty.default
  · rw [contents_eq_none.mpr hdefault, hdefault]
    simp only [reduceCtorEq, false_iff]
    exact value.2
  · rw [contents, if_neg hdefault, Option.some.injEq, eq_comm]

theorem findValueLoop_isLeast (map : Map ty size) (value : ty.NonDefault) {key : ℕ}
    (hkey : key ≤ size) :
    IsLeast {k | key ≤ k ∧ (k = size ∨ ∃ h, contents map ⟨k, h⟩ = some (ty.value value))}
      (findValueLoop map value key) := by
  induction key using findValueLoop.induct map value.1 with
  | case1 key h hfound =>
      rw [findValueLoop, dif_pos h, if_pos hfound]
      exact ⟨⟨le_rfl, Or.inr ⟨h, (contents_eq_some value).mpr hfound⟩⟩, fun k hk => hk.1⟩
  | case2 key h hother ih =>
      have hrest := ih h
      rw [findValueLoop, dif_pos h, if_neg hother]
      constructor
      · exact ⟨(Nat.le_succ key).trans hrest.1.1, hrest.1.2⟩
      · intro k hk
        have hne : key ≠ k := by
          rintro rfl
          rcases hk.2 with rfl | ⟨_, hcontents⟩
          · exact lt_irrefl _ h
          · exact hother ((contents_eq_some value).mp hcontents)
        exact hrest.2 ⟨lt_of_le_of_ne hk.1 hne, hk.2⟩
  | case3 key hend =>
      have hsize : key = size := le_antisymm hkey (not_lt.mp hend)
      rw [findValueLoop, dif_neg hend]
      exact ⟨⟨hkey, Or.inl rfl⟩, fun k hk => hsize ▸ hk.1⟩

theorem findValue_eq_sInf (map : Map ty size) (value : ty.NonDefault) :
    findValue map value =
      sInf {key | key = size ∨ ∃ h, contents map ⟨key, h⟩ = some (ty.value value)} := by
  have hleast := findValueLoop_isLeast map value (Nat.zero_le size)
  simp only [Nat.zero_le, true_and] at hleast
  exact hleast.csInf_eq.symm

/-- Every operation answers what the reference map answers on the array's contents. -/
theorem apply_result (map : Map ty size) (op : Op ty) :
    (apply map op).2 = (reference (contents map) op).2 := by
  cases op with
  | tryEmplace key args =>
      by_cases h : key < size
      · by_cases hdefault : ty.value (map ⟨key, h⟩) = ty.value ty.default
        · have hnone : contents map ⟨key, h⟩ = none := contents_eq_none.mpr hdefault
          simp [apply, tryEmplace, reference, h, hdefault, hnone]
        · have hsome : contents map ⟨key, h⟩ ≠ none := mt contents_eq_none.mp hdefault
          simp [apply, tryEmplace, reference, h, hdefault, hsome]
      · simp [apply, tryEmplace, reference, h]
  | insertOrAssign key obj =>
      by_cases h : key < size
      · simp [apply, insertOrAssign, reference, h]
      · simp [apply, insertOrAssign, reference, h]
  | find key => rfl
  | findValue value => exact congrArg Result.foundKey (findValue_eq_sInf map value)
  | empty =>
      have hempty : (∀ key, ty.value (map key) = ty.value (emptyMap key : ty.Object)) ↔
          ∀ key, contents map key = none :=
        forall_congr' fun key => contents_eq_none.symm
      simp only [apply, empty, reference, hempty]
  | clear => rfl

/-- The operation leaves the array standing for what the reference map becomes: nothing
equal to the default is emplaced at an absent key, and `clear` is called when the bytes past
the first `size` are those of default objects. -/
def Sound (map : Map ty size) : Op ty → Prop
  | .tryEmplace key args => ∀ h : key < size,
      ty.value (map ⟨key, h⟩) = ty.value ty.default → ty.value args ≠ ty.value ty.default
  | .clear => ∀ (key : Fin size) (byte : Fin ty.sizeof),
      size ≤ key * ty.sizeof + byte → map key byte = ty.default byte
  | _ => True

omit [DecidableEq T] in
theorem clear_eq_emptyMap {map : Map ty size} (hsound : Sound map .clear) :
    clear map = emptyMap := by
  funext key byte
  rw [clear]
  split_ifs with hcopied
  · rfl
  · exact hsound key byte (not_lt.mp hcopied)

omit [DecidableEq T] in
/-- Elements of one byte are all reached by `clear`. -/
theorem sound_clear_of_sizeof_one (hone : ty.sizeof = 1) (map : Map ty size) :
    Sound map .clear := by
  intro key byte hpast
  have hbyte : (byte : ℕ) < 1 := hone ▸ byte.isLt
  have hkey := key.isLt
  have hstart : (key : ℕ) * ty.sizeof = key := by rw [hone, mul_one]
  omega

theorem contents_apply {map : Map ty size} {op : Op ty} (hsound : Sound map op) :
    contents (apply map op).1 = (reference (contents map) op).1 := by
  cases op with
  | tryEmplace key args =>
      by_cases h : key < size
      · by_cases hdefault : ty.value (map ⟨key, h⟩) = ty.value ty.default
        · have hnone : contents map ⟨key, h⟩ = none := contents_eq_none.mpr hdefault
          have hupdate : contents (Function.update map ⟨key, h⟩ args) = _ :=
            contents_update (hsound h hdefault)
          simp [apply, tryEmplace, reference, h, hdefault, hnone, hupdate]
        · have hsome : contents map ⟨key, h⟩ ≠ none := mt contents_eq_none.mp hdefault
          simp [apply, tryEmplace, reference, h, hdefault, hsome]
      · simp [apply, tryEmplace, reference, h]
  | insertOrAssign key obj =>
      by_cases h : key < size
      · simp [apply, insertOrAssign, reference, h, contents_update obj.2]
      · simp [apply, insertOrAssign, reference, h]
  | find key => rfl
  | findValue value => rfl
  | empty => rfl
  | clear =>
      funext key
      rw [apply, clear_eq_emptyMap hsound]
      exact contents_eq_none.mpr rfl

/-! ### Runs beside the reference map -/

abbrev State (ty : ObjectType T) (size : ℕ) := Map ty size × (Fin size → Option T)

noncomputable def step (s : State ty size) (op : Op ty) : State ty size :=
  ((apply s.1 op).1, (reference s.2 op).1)

def start (ty : ObjectType T) (size : ℕ) : State ty size := (emptyMap, fun _ => none)

def Agree (s : State ty size) : Prop :=
  ∀ op : Op ty, (apply s.1 op).2 = (reference s.2 op).2

theorem contents_start : (start ty size).2 = contents (start ty size).1 := by
  funext key
  exact (contents_eq_none.mpr rfl).symm

theorem agree_of_contents {s : State ty size} (hcontents : s.2 = contents s.1) : Agree s := by
  intro op
  rw [hcontents]
  exact apply_result s.1 op

theorem not_agree_of_find {s : State ty size} (key : Fin size)
    (hdiffer : contents s.1 key ≠ s.2 key) : ¬ Agree s := by
  intro hagree
  have hfind := hagree (.find key)
  simp only [apply, reference, find_eq_contents, key.isLt, dite_true, Result.found.injEq] at hfind
  exact hdiffer hfind

theorem not_agree_of_not_sound (hunique : ty.UniqueDefault) {s : State ty size} {op : Op ty}
    (hcontents : s.2 = contents s.1) (hunsound : ¬ Sound s.1 op) : ¬ Agree (step s op) := by
  cases op with
  | tryEmplace key args =>
      simp only [Sound, not_forall, not_not] at hunsound
      obtain ⟨h, habsent, hargs⟩ := hunsound
      apply not_agree_of_find ⟨key, h⟩
      have hnone : contents s.1 ⟨key, h⟩ = none := contents_eq_none.mpr habsent
      have hstill : contents (Function.update s.1 ⟨key, h⟩ args) ⟨key, h⟩ = none := by
        rw [contents_eq_none, Function.update_self, hargs]
      simp [step, apply, tryEmplace, reference, h, habsent, hcontents, hnone, hstill]
  | clear =>
      simp only [Sound, not_forall] at hunsound
      obtain ⟨key, byte, hpast, hbyte⟩ := hunsound
      apply not_agree_of_find key
      have hkept : clear s.1 key byte = s.1 key byte := if_neg (not_lt.mpr hpast)
      have hpresent : contents (clear s.1) key ≠ none := by
        intro hnone
        have hdefault := hunique _ (contents_eq_none.mp hnone)
        rw [hdefault] at hkept
        exact hbyte hkept.symm
      exact hpresent
  | insertOrAssign key obj => exact absurd trivial hunsound
  | find key => exact absurd trivial hunsound
  | findValue value => exact absurd trivial hunsound
  | empty => exact absurd trivial hunsound

/-- Sound operations keep the array and the reference map in agreement; where the default
value has one representation, nothing else does. -/
theorem arrayMap_agrees (ty : ObjectType T) (size : ℕ) (ops : List (Op ty)) :
    ((∀ earlier op later, ops = earlier ++ op :: later →
        Sound (run step (start ty size) earlier).1 op) →
      ∀ first, first <+: ops → Agree (run step (start ty size) first)) ∧
    (ty.UniqueDefault → (∀ first, first <+: ops → Agree (run step (start ty size) first)) →
      ∀ earlier op later, ops = earlier ++ op :: later →
        Sound (run step (start ty size) earlier).1 op) := by
  have hkeep : ∀ (s : State ty size) op, s.2 = contents s.1 → Sound s.1 op →
      (step s op).2 = contents (step s op).1 := by
    intro s op hcontents hsound
    rw [step, contents_apply hsound, hcontents]
  constructor
  · intro hsound first hfirst
    apply agree_of_contents
    exact run_invariant_of_ok step (start ty size) (fun _ s => s.2 = contents s.1)
      (fun earlier op => Sound (run step (start ty size) earlier).1 op) contents_start
      (fun earlier op => hkeep _ op) hsound first hfirst
  · intro hunique hagree
    exact (always_iff_of_steps step (start ty size) (fun s => s.2 = contents s.1) Agree
      (fun s op => Sound s.1 op) contents_start (fun s => agree_of_contents) hkeep
      (fun s op => not_agree_of_not_sound hunique) ops).mp hagree

/-- Objects of `n` bytes that are equal when their bytes are, zero by default. -/
def plainBytes (n : ℕ) : ObjectType (Fin n → UInt8) := ⟨n, id, fun _ => 0⟩

/-- Twenty elements of eight bytes: `clear` copies twenty bytes and leaves key 5 alone. -/
theorem clear_leaves_key :
    ¬ ∀ ops first, first <+: ops → Agree (run step (start (plainBytes 8) 20) first) := by
  intro hclaim
  let ten : (plainBytes 8).NonDefault := ⟨fun _ => 10, by decide⟩
  have hagree := hclaim [.insertOrAssign 5 ten, .clear] _ (List.prefix_refl _)
  have hkept : (run step (start (plainBytes 8) 20) [.insertOrAssign 5 ten, .clear]).1 5 =
      fun _ => 10 := by
    funext byte
    have hpast : 20 ≤ 5 * 8 + (byte : ℕ) := by omega
    exact if_neg (not_lt.mpr hpast)
  refine not_agree_of_find 5 ?_ hagree
  intro hnone
  have hdefault := contents_eq_none.mp (hnone.trans rfl)
  rw [hkept] at hdefault
  exact absurd (congrFun hdefault 0) (by decide)

end ArrayMap

end CppPlay.Templates
