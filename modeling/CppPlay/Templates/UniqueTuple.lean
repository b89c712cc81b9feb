import CppPlay.Lib.Occurrences

/-!
# Tuples without duplicates

A metafunction keeps of equal element types the first, by an accumulator.  A function
keeps the last, by a look ahead; it makes values of the tuples on its way, so it does
not compile for every list of types.
-/

namespace CppPlay.Templates

open CppPlay.Lib

/-! ## Tuples of values -/

section Values

variable {α : Type*}

/-- The type traits that the construction of a tuple depends on. -/
structure TypeTraits (α : Type*) where
  is_default_constructible : α → Bool
  is_move_constructible : α → Bool

namespace TypeTraits

variable (traits : TypeTraits α)

/-- `std::tuple<Ts...>{}`; here and below `none` is what does not compile. -/
def tuple (ts : List α) : Option (List α) :=
  if ts.all traits.is_default_constructible then some ts else none

/-- The elements of both tuples, which are temporaries, are moved into the result. -/
def tuple_cat (ts us : List α) : Option (List α) :=
  if (ts ++ us).all traits.is_move_constructible then some (ts ++ us) else none

/-- Each type of the list has a default constructor, and if there are two different ones
they can be moved. -/
def Builds (ts : List α) : Prop :=
  (∀ t ∈ ts, traits.is_default_constructible t) ∧
    ((∃ t ∈ ts, ∃ u ∈ ts, t ≠ u) → ∀ t ∈ ts, traits.is_move_constructible t)

instance [DecidableEq α] (ts : List α) : Decidable (traits.Builds ts) :=
  inferInstanceAs (Decidable (_ ∧ _))

variable {traits}

theorem builds_congr {ts us : List α} (hsame : ∀ t, t ∈ ts ↔ t ∈ us) :
    traits.Builds ts ↔ traits.Builds us := by
  simp only [Builds, hsame]

theorem tuple_eq_some_iff {ts us : List α} :
    traits.tuple ts = some us ↔ (∀ t ∈ ts, traits.is_default_constructible t) ∧ ts = us := by
  simp [tuple]

theorem tuple_cat_eq_some_iff {ts us vs : List α} :
    traits.tuple_cat ts us = some vs ↔
      (∀ t ∈ ts ++ us, traits.is_move_constructible t) ∧ ts ++ us = vs := by
  simp only [tuple_cat, Option.ite_none_right_eq_some, List.all_eq_true, Option.some.injEq]

/-- A type in front of others that are different. -/
theorem builds_cons_iff {t : α} {rest : List α} (hnew : t ∉ rest) (hne : rest ≠ []) :
    traits.Builds (t :: rest) ↔
      (∀ u ∈ t :: rest, traits.is_default_constructible u) ∧
        ∀ u ∈ t :: rest, traits.is_move_constructible u := by
  obtain ⟨u, hu⟩ := List.exists_mem_of_ne_nil rest hne
  have hdifferent : ∃ u ∈ t :: rest, ∃ v ∈ t :: rest, u ≠ v :=
    ⟨t, List.mem_cons_self, u, List.mem_cons_of_mem t hu, fun heq => hnew (heq ▸ hu)⟩
  rw [Builds, forall_prop_of_true hdifferent]

end TypeTraits

end Values

variable {α : Type*} [DecidableEq α]

/-- Where `Car` is `Needle` both specialisations match, and the one for `Needle` is taken. -/
def contains : List α → α → Bool
  | [], _ => false
  | car :: cdr, needle => if car = needle then true else contains cdr needle

def filter (out : List α) : List α → List α
  | [] => out
  | inCar :: inCdr => if contains out inCar then filter out inCdr else filter (out ++ [inCar]) inCdr

def tuple_without_duplicates (tuple : List α) : List α := filter [] tuple

def IsUnique (tuple : List α) : Prop := tuple = tuple_without_duplicates tuple

instance (tuple : List α) : Decidable (IsUnique tuple) := inferInstanceAs (Decidable (_ = _))

/-- No overload takes the empty tuple. -/
def make_unique_tuple (traits : TypeTraits α) : List α → Option (List α)
  | [] => none
  | t :: rest =>
      if rest.any (t = ·) then
        (traits.tuple rest).bind fun _ => make_unique_tuple traits rest
      else if 0 < rest.length then
        (traits.tuple rest).bind fun _ =>
          (make_unique_tuple traits rest).bind fun remaining =>
            (traits.tuple [t]).bind fun first =>
              (traits.tuple remaining).bind fun others => traits.tuple_cat first others
      else traits.tuple [t]

theorem contains_iff {tuple : List α} {needle : α} : contains tuple needle ↔ needle ∈ tuple := by
  induction tuple with
  | nil => simp [contains]
  | cons car cdr ih =>
      rw [contains, List.mem_cons]
      split_ifs with hcar
      · simp [hcar]
      · rw [ih]
        simp [Ne.symm hcar]

/-- The accumulator holds the first occurrences of what was taken so far. -/
theorem filter_firstOccurrences (taken input : List α) :
    filter (firstOccurrences taken) input = firstOccurrences (taken ++ input) := by
  induction input generalizing taken with
  | nil => rw [filter, List.append_nil]
  | cons inCar inCdr ih =>
      have hnext := ih (taken ++ [inCar])
      rw [firstOccurrences_append_singleton, List.append_assoc, List.singleton_append] at hnext
      rw [filter]
      simp only [contains_iff, mem_firstOccurrences]
      split_ifs at hnext ⊢ with hmem
      · rwa [List.append_nil] at hnext
      · exact hnext

theorem tuple_without_duplicates_eq (tuple : List α) :
    tuple_without_duplicates tuple = firstOccurrences tuple :=
  filter_firstOccurrences [] tuple

variable {traits : TypeTraits α}

/-- What is built is a tuple of the last occurrences. -/
theorem make_unique_tuple_eq_some_iff {ts us : List α} :
    make_unique_tuple traits ts = some us ↔
      ts ≠ [] ∧ traits.Builds ts ∧ us = lastOccurrences ts := by
  induction ts generalizing us with
  | nil => simp [make_unique_tuple]
  | cons t rest ih =>
      rw [make_unique_tuple, lastOccurrences_cons t]
      by_cases hmem : t ∈ rest
      · have hany : rest.any (t = ·) = true := by simpa using hmem
        have hne := List.ne_nil_of_mem hmem
        have hsame : traits.Builds (t :: rest) ↔ traits.Builds rest := by
          apply TypeTraits.builds_congr
          intro u
          rw [List.mem_cons, or_iff_right_of_imp]
          rintro rfl
          exact hmem
        rw [if_pos hany, if_pos hmem, Option.bind_eq_some_iff, hsame]
        simp only [TypeTraits.tuple_eq_some_iff, ih]
        constructor
        · rintro ⟨_, _, _, hbuilds, hus⟩
          exact ⟨List.cons_ne_nil _ _, hbuilds, hus⟩
        · rintro ⟨_, hbuilds, hus⟩
          exact ⟨rest, ⟨hbuilds.1, rfl⟩, hne, hbuilds, hus⟩
      · have hany : ¬ rest.any (t = ·) = true := by simpa using hmem
        rw [if_neg hany, if_neg hmem]
        by_cases hne : rest = []
        · subst hne
          simp [TypeTraits.tuple_eq_some_iff, TypeTraits.Builds, lastOccurrences_eq_dedup,
            eq_comm (b := us)]
        · rw [if_pos (List.length_pos_iff.mpr hne), TypeTraits.builds_cons_iff hmem hne]
          have hlast : ∀ u, u ∈ lastOccurrences rest ↔ u ∈ rest := by
            simp [lastOccurrences_eq_dedup]
          simp only [Option.bind_eq_some_iff, TypeTraits.tuple_eq_some_iff, ih,
            TypeTraits.tuple_cat_eq_some_iff]
          constructor
          · rintro ⟨_, ⟨hrest, _⟩, _, ⟨_, _, rfl⟩, _, ⟨hfirst, rfl⟩, _, ⟨_, rfl⟩, hmove, rfl⟩
            refine ⟨List.cons_ne_nil _ _, ⟨?_, ?_⟩, rfl⟩
            · exact List.forall_mem_cons.mpr ⟨hfirst t List.mem_cons_self, hrest⟩
            · intro u hu
              apply hmove
              simpa [hlast] using hu
          · rintro ⟨_, ⟨hdefault, hmove⟩, rfl⟩
            obtain ⟨hfirst, hrest⟩ := List.forall_mem_cons.mp hdefault
            obtain ⟨_, hmoveRest⟩ := List.forall_mem_cons.mp hmove
            refine ⟨rest, ⟨hrest, rfl⟩, _, ⟨hne, ⟨hrest, fun _ => hmoveRest⟩, rfl⟩, [t],
              ⟨by simpa using hfirst, rfl⟩, _, ⟨?_, rfl⟩, ?_, rfl⟩
            · exact fun u hu => hrest u ((hlast u).mp hu)
            · intro u hu
              apply hmove
              simpa [hlast] using hu

/-- What the two ways to remove duplicates leave of a list of types: the function, where its
values can be made, the last occurrences. -/
theorem duplicates_removed (traits : TypeTraits α) (tuple : List α) :
    (tuple_without_duplicates tuple = firstOccurrences tuple ∧
      (tuple_without_duplicates tuple).Sublist tuple ∧
      (tuple_without_duplicates tuple).Nodup ∧
      tuple_without_duplicates (tuple_without_duplicates tuple) =
        tuple_without_duplicates tuple ∧
      (IsUnique tuple ↔ tuple.Nodup)) ∧
    (tuple ≠ [] → make_unique_tuple traits tuple =
      if traits.Builds tuple then some (lastOccurrences tuple) else none) ∧
    (lastOccurrences tuple).Sublist tuple ∧
    (∀ t, t ∈ tuple_without_duplicates tuple ↔ t ∈ tuple) ∧
    ∀ unique, make_unique_tuple traits tuple = some unique → ∀ t, t ∈ unique ↔ t ∈ tuple := by
  rw [IsUnique, tuple_without_duplicates_eq, tuple_without_duplicates_eq]
  refine ⟨⟨rfl, firstOccurrences_sublist tuple, nodup_firstOccurrences tuple, ?_, ?_⟩, ?_, ?_,
    fun t => mem_firstOccurrences, ?_⟩
  · exact firstOccurrences_eq_self_iff.mpr (nodup_firstOccurrences tuple)
  · rw [eq_comm]
    exact firstOccurrences_eq_self_iff
  · intro hne
    split_ifs with hbuilds
    · exact make_unique_tuple_eq_some_iff.mpr ⟨hne, hbuilds, rfl⟩
    · rw [Option.eq_none_iff_forall_ne_some]
      intro unique hunique
      exact hbuilds (make_unique_tuple_eq_some_iff.mp hunique).2.1
  · rw [lastOccurrences_eq_dedup]
    exact List.dedup_sublist _
  · intro unique hunique t
    rw [(make_unique_tuple_eq_some_iff.mp hunique).2.2, lastOccurrences_eq_dedup]
    exact List.mem_dedup

/-! ### Types that cannot be built -/

inductive SampleType where
  | int
  | intRef
  | mutex
  deriving DecidableEq

def sampleTraits : TypeTraits SampleType where
  is_default_constructible
    | .intRef => false
    | _ => true
  is_move_constructible
    | .mutex => false
    | _ => true

/-- A reference has no default constructor, and a mutex cannot be moved behind another
element. -/
theorem not_built_intRef :
    make_unique_tuple sampleTraits [.int, .intRef] = none ∧
      make_unique_tuple sampleTraits [.mutex, .int, .mutex] = none ∧
      make_unique_tuple sampleTraits [.mutex, .mutex] = some [.mutex] := by
  decide

end CppPlay.Templates
