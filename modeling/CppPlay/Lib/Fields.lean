import Mathlib.Data.List.TakeWhile
import Mathlib.Tactic

/-!
# Fields between separators

A text is cut at every separator.  A search in the text for a separator and a tag behind
it finds the first field with that tag that has a separator in front.
-/

namespace CppPlay.Lib

variable {α : Type*} [DecidableEq α]

def findSub (pat : List α) : List α → Option ℕ
  | [] => if pat = [] then some 0 else none
  | x :: xs => if pat.isPrefixOf (x :: xs) then some 0 else (findSub pat xs).map (· + 1)

def afterSub (pat s : List α) : Option (List α) :=
  (findSub pat s).map fun i => s.drop (i + pat.length)

variable {pat tag s : List α} {sep : α}

theorem prefix_of_findSub {i : ℕ} (hfind : findSub pat s = some i) : pat <+: s.drop i := by
  induction s generalizing i with
  | nil =>
      rw [findSub] at hfind
      split_ifs at hfind with hempty
      · rw [hempty]
        exact List.nil_prefix
  | cons x xs ih =>
      rw [findSub] at hfind
      split_ifs at hfind with hhere
      · rw [← Option.some.inj hfind]
        exact List.isPrefixOf_iff_prefix.mp hhere
      · obtain ⟨j, hj, rfl⟩ := Option.map_eq_some_iff.mp hfind
        exact ih hj

theorem afterSub_cons (x : α) (xs : List α) :
    afterSub pat (x :: xs) =
      if pat.isPrefixOf (x :: xs) then some ((x :: xs).drop pat.length)
      else afterSub pat xs := by
  rw [afterSub, findSub]
  split_ifs with hhere
  · rw [Option.map_some, Nat.zero_add]
  · rw [Option.map_map, afterSub]
    congr 1
    funext i
    rw [Function.comp_apply, Nat.add_right_comm, List.drop_succ_cons]

theorem findSub_singleton (c : α) (s : List α) :
    findSub [c] s = if c ∈ s then some (s.takeWhile (· ≠ c)).length else none := by
  induction s with
  | nil => rfl
  | cons x xs ih =>
      rw [findSub]
      by_cases hx : x = c
      · simp [hx]
      · have hc : c ≠ x := Ne.symm hx
        by_cases hmem : c ∈ xs <;> simp [hx, hc, ih, hmem]

theorem takeWhile_ne_append (hfree : sep ∉ tag) (s : List α) :
    (tag ++ s).takeWhile (· ≠ sep) = tag ++ s.takeWhile (· ≠ sep) := by
  apply List.takeWhile_append_of_pos
  intro x hx
  rw [decide_eq_true_eq]
  rintro rfl
  exact hfree hx

theorem findSub_singleton_append (hfree : sep ∉ tag) (s : List α) :
    findSub [sep] (tag ++ s) = (findSub [sep] s).map (tag.length + ·) := by
  rw [findSub_singleton, findSub_singleton, takeWhile_ne_append hfree]
  by_cases hmem : sep ∈ s <;> simp [hmem, hfree]

/-! ### Cutting at a separator -/

theorem splitOn_eq_cons (sep : α) (s : List α) :
    s.splitOn sep = s.takeWhile (· ≠ sep) :: (s.splitOn sep).tail := by
  induction s with
  | nil => rfl
  | cons x xs ih =>
      rw [List.splitOn_cons_eq_if_modifyHead]
      by_cases hx : x = sep
      · simp [hx]
      · rw [ih]
        simp [hx]

theorem splitOn_tail_ne_nil_iff : (s.splitOn sep).tail ≠ [] ↔ sep ∈ s := by
  induction s with
  | nil => simp
  | cons x xs ih =>
      rw [List.splitOn_cons_eq_if_modifyHead]
      by_cases hx : x = sep
      · simp [hx]
      · have hsep : sep ≠ x := Ne.symm hx
        simp only [beq_iff_eq, hx, if_false, List.tail_modifyHead, ih, List.mem_cons, hsep,
          false_or]

theorem splitOn_append (hfree : sep ∉ tag) (s : List α) :
    (tag ++ s).splitOn sep = (s.splitOn sep).modifyHead (tag ++ ·) := by
  induction tag with
  | nil =>
      rw [List.nil_append, splitOn_eq_cons]
      rfl
  | cons x tag ih =>
      rw [List.mem_cons, not_or] at hfree
      have hx : (x == sep) = false := beq_eq_false_iff_ne.mpr (Ne.symm hfree.1)
      rw [List.cons_append, List.splitOn_cons_eq_if_modifyHead, ih hfree.2, hx,
        splitOn_eq_cons sep s]
      rfl

/-- The tag stands at the front of the text exactly when it does so in the first field. -/
theorem isPrefixOf_takeWhile (hfree : sep ∉ tag) :
    tag.isPrefixOf (s.takeWhile (· ≠ sep)) = tag.isPrefixOf s := by
  rw [Bool.eq_iff_iff, List.isPrefixOf_iff_prefix, List.isPrefixOf_iff_prefix]
  constructor
  · exact fun hfield => hfield.trans (List.takeWhile_prefix _)
  · rintro ⟨later, rfl⟩
    rw [takeWhile_ne_append hfree]
    exact List.prefix_append _ _

/-- The text behind the first `sep` and `tag`, cut at the separators, is the first field
but the very first one with that tag, without the tag, and the fields behind it. -/
theorem map_splitOn_afterSub (hfree : sep ∉ tag) (s : List α) :
    (afterSub (sep :: tag) s).map (List.splitOn sep) =
      match (s.splitOn sep).tail.dropWhile (fun f => !tag.isPrefixOf f) with
      | [] => none
      | f :: fs => some (f.drop tag.length :: fs) := by
  induction s with
  | nil => rfl
  | cons x xs ih =>
      rw [afterSub_cons, List.splitOn_cons_eq_if_modifyHead]
      by_cases hx : x = sep
      · have hfirst := splitOn_eq_cons sep xs
        rw [hx, beq_self_eq_true, if_pos rfl, List.tail_cons, List.isPrefixOf_cons_cons,
          beq_self_eq_true, Bool.true_and, hfirst, List.dropWhile_cons,
          isPrefixOf_takeWhile hfree]
        by_cases htag : tag.isPrefixOf xs
        · obtain ⟨later, rfl⟩ := List.isPrefixOf_iff_prefix.mp htag
          have hcut := splitOn_append hfree later
          rw [splitOn_eq_cons sep later, hfirst, List.modifyHead_cons, List.cons.injEq] at hcut
          simp only [htag, if_true, Bool.not_true, Bool.false_eq_true, if_false,
            Option.map_some, List.length_cons, List.drop_succ_cons, List.drop_left]
          rw [hcut.1, hcut.2, List.drop_left, ← splitOn_eq_cons]
        · simp only [htag, Bool.not_false, if_true, Bool.false_eq_true, if_false]
          exact ih
      · have hne : (x == sep) = false := beq_eq_false_iff_ne.mpr hx
        have hnot : (sep :: tag).isPrefixOf (x :: xs) = false := by
          rw [List.isPrefixOf_cons_cons, beq_eq_false_iff_ne.mpr (Ne.symm hx), Bool.false_and]
        simp only [hne, hnot, Bool.false_eq_true, if_false, List.tail_modifyHead]
        exact ih

theorem find?_dropLast {β : Type*} {p : β → Bool} {fields fs : List β} {f : β}
    (hdrop : fields.dropWhile (fun f => !p f) = f :: fs) :
    fields.dropLast.find? p = if fs = [] then none else some f := by
  have hsplit := List.takeWhile_append_dropWhile (p := fun f => !p f) (l := fields)
  have hbefore : (fields.takeWhile fun f => !p f).find? p = none := by
    rw [List.find?_eq_none]
    intro g hg
    simpa using List.mem_takeWhile_imp hg
  have hf : p f = true := by
    have hhead := List.head_dropWhile_not (fun f => !p f) (l := fields) (by simp [hdrop])
    simpa [hdrop] using hhead
  rw [← hsplit, hdrop]
  cases fs with
  | nil => rw [List.dropLast_concat, hbefore, if_pos rfl]
  | cons g gs =>
      rw [List.dropLast_append_of_ne_nil (by simp), List.dropLast_cons_cons, List.find?_append,
        hbefore, Option.none_or, List.find?_cons_of_pos hf]
      rfl

theorem find?_dropLast_of_forall {β : Type*} {p : β → Bool} {fields : List β}
    (hdrop : fields.dropWhile (fun f => !p f) = []) : fields.dropLast.find? p = none := by
  rw [List.dropWhile_eq_nil_iff] at hdrop
  rw [List.find?_eq_none]
  intro f hf
  simpa using hdrop f (List.dropLast_subset _ hf)

end CppPlay.Lib
