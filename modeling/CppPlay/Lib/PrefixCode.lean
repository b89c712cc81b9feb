import Mathlib.Tactic

/-!
# Self-delimiting records

A wire format whose records announce their own length cuts a stream into
complete records and one unfinished rest, and it does so in one way only.  The
structure `PrefixCode` carries exactly what that needs: the length found at the
front of a stream is positive, lies inside the stream, and depends on the record
alone.  A message with a length field and a field with a type byte are both
instances.
-/

namespace CppPlay.Lib

/-- `size xs` is the length of the record at the front of `xs`, when a complete
one is there. -/
structure PrefixCode (α : Type*) where
  size : List α → Option ℕ
  size_pos : ∀ {xs n}, size xs = some n → 0 < n
  size_le : ∀ {xs n}, size xs = some n → n ≤ xs.length
  size_append : ∀ {xs n} (ys : List α), size xs = some n → size (xs ++ ys) = some n
  size_take : ∀ {xs n}, size xs = some n → size (xs.take n) = some n

namespace PrefixCode

variable {α : Type*} (code : PrefixCode α)

def IsWord (w : List α) : Prop := code.size w = some w.length

instance (w : List α) : Decidable (code.IsWord w) :=
  inferInstanceAs (Decidable (code.size w = some w.length))

theorem IsWord.size_append {code : PrefixCode α} {w : List α}
    (hw : code.IsWord w) (ys : List α) :
    code.size (w ++ ys) = some w.length :=
  code.size_append ys hw

theorem size_nil : code.size [] = none := by
  cases hsize : code.size [] with
  | none => rfl
  | some n =>
      have hpos := code.size_pos hsize
      have hle := code.size_le hsize
      simp at hle
      omega

theorem isWord_take {xs : List α} {n : ℕ} (hsize : code.size xs = some n) :
    code.IsWord (xs.take n) := by
  have hle := code.size_le hsize
  unfold IsWord
  rw [code.size_take hsize, List.length_take, Nat.min_eq_left hle]

def parseFuel : ℕ → List α → List (List α) × List α
  | 0, xs => ([], xs)
  | fuel + 1, xs =>
      match code.size xs with
      | none => ([], xs)
      | some n =>
          let tail := parseFuel fuel (xs.drop n)
          (xs.take n :: tail.1, tail.2)

def parse (xs : List α) : List (List α) × List α :=
  code.parseFuel xs.length xs

/-- Every record takes at least one letter, so the length of the stream is
always enough fuel. -/
theorem parseFuel_eq_of_le {fuel fuel' : ℕ} {xs : List α}
    (hfuel : xs.length ≤ fuel) (hfuel' : xs.length ≤ fuel') :
    code.parseFuel fuel xs = code.parseFuel fuel' xs := by
  induction fuel generalizing fuel' xs with
  | zero =>
      have hnil : xs = [] := List.eq_nil_of_length_eq_zero (by omega)
      subst hnil
      cases fuel' <;> simp [parseFuel, code.size_nil]
  | succ fuel ih =>
      cases fuel' with
      | zero =>
          have hnil : xs = [] := List.eq_nil_of_length_eq_zero (by omega)
          subst hnil
          simp [parseFuel, code.size_nil]
      | succ fuel' =>
          cases hsize : code.size xs with
          | none => simp [parseFuel, hsize]
          | some n =>
              have hpos := code.size_pos hsize
              have hlength : (xs.drop n).length ≤ fuel ∧
                  (xs.drop n).length ≤ fuel' := by
                simp only [List.length_drop]
                omega
              simp only [parseFuel, hsize]
              rw [ih hlength.1 hlength.2]

theorem parse_of_none {xs : List α} (hsize : code.size xs = none) :
    code.parse xs = ([], xs) := by
  unfold parse
  cases xs.length <;> simp [parseFuel, hsize]

theorem parse_of_some {xs : List α} {n : ℕ} (hsize : code.size xs = some n) :
    code.parse xs =
      (xs.take n :: (code.parse (xs.drop n)).1, (code.parse (xs.drop n)).2) := by
  have hpos := code.size_pos hsize
  have hle := code.size_le hsize
  obtain ⟨k, hk⟩ : ∃ k, xs.length = k + 1 := ⟨xs.length - 1, by omega⟩
  have hrest : code.parseFuel k (xs.drop n) = code.parse (xs.drop n) := by
    apply code.parseFuel_eq_of_le
    · simp only [List.length_drop]
      omega
    · exact le_rfl
  unfold parse at hrest ⊢
  rw [hk]
  simp only [parseFuel, hsize]
  rw [hrest]

@[simp] theorem parse_nil : code.parse [] = ([], []) :=
  code.parse_of_none code.size_nil

theorem parse_word_append {w : List α} (hw : code.IsWord w) (ys : List α) :
    code.parse (w ++ ys) =
      (w :: (code.parse ys).1, (code.parse ys).2) := by
  rw [code.parse_of_some (hw.size_append ys)]
  simp

theorem parse_flatten_append {ws : List (List α)}
    (hws : ∀ w ∈ ws, code.IsWord w) (ys : List α) :
    code.parse (ws.flatten ++ ys) =
      (ws ++ (code.parse ys).1, (code.parse ys).2) := by
  induction ws with
  | nil => simp
  | cons w ws ih =>
      have hrest := ih (fun v hv => hws v (List.mem_cons_of_mem w hv))
      rw [List.flatten_cons, List.append_assoc,
        code.parse_word_append (hws w List.mem_cons_self), hrest]
      rfl

theorem parse_flatten {ws : List (List α)}
    (hws : ∀ w ∈ ws, code.IsWord w) :
    code.parse ws.flatten = (ws, []) := by
  simpa using code.parse_flatten_append hws []

theorem parse_induction {motive : List α → Prop}
    (rest : ∀ xs, code.size xs = none → motive xs)
    (word : ∀ w ys, code.IsWord w → motive ys → motive (w ++ ys))
    (xs : List α) : motive xs := by
  induction hlen : xs.length using Nat.strong_induction_on generalizing xs with
  | _ len ih =>
      cases hsize : code.size xs with
      | none => exact rest xs hsize
      | some n =>
          have hpos := code.size_pos hsize
          have hle := code.size_le hsize
          have hdrop : motive (xs.drop n) := by
            refine ih (xs.drop n).length ?_ (xs.drop n) rfl
            simp only [List.length_drop]
            omega
          have hword := word (xs.take n) (xs.drop n) (code.isWord_take hsize) hdrop
          rwa [List.take_append_drop] at hword

theorem flatten_parse_append (xs : List α) :
    (code.parse xs).1.flatten ++ (code.parse xs).2 = xs := by
  induction xs using code.parse_induction with
  | rest xs hsize => simp [code.parse_of_none hsize]
  | word w ys hw ih =>
      rw [code.parse_word_append hw, List.flatten_cons, List.append_assoc, ih]

theorem isWord_of_mem_parse {xs w : List α} (hw : w ∈ (code.parse xs).1) :
    code.IsWord w := by
  induction xs using code.parse_induction with
  | rest xs hsize => simp [code.parse_of_none hsize] at hw
  | word v ys hv ih =>
      rw [code.parse_word_append hv] at hw
      rcases List.mem_cons.mp hw with rfl | hmem
      · exact hv
      · exact ih hmem

theorem size_parse_snd (xs : List α) : code.size (code.parse xs).2 = none := by
  induction xs using code.parse_induction with
  | rest xs hsize => simpa [code.parse_of_none hsize] using hsize
  | word w ys hw ih => rwa [code.parse_word_append hw]

/-- A stream is a concatenation of records exactly when nothing is left over. -/
theorem parse_snd_eq_nil_iff (xs : List α) :
    (code.parse xs).2 = [] ↔
      ∃ ws : List (List α), (∀ w ∈ ws, code.IsWord w) ∧ xs = ws.flatten := by
  constructor
  · intro hnil
    refine ⟨(code.parse xs).1, fun w hw => code.isWord_of_mem_parse hw, ?_⟩
    have hsplit := code.flatten_parse_append xs
    rw [hnil, List.append_nil] at hsplit
    exact hsplit.symm
  · rintro ⟨ws, hws, rfl⟩
    rw [code.parse_flatten hws]

theorem parse_flatten_append_of_none {ws : List (List α)} {rest : List α}
    (hws : ∀ w ∈ ws, code.IsWord w) (hrest : code.size rest = none) :
    code.parse (ws.flatten ++ rest) = (ws, rest) := by
  rw [code.parse_flatten_append hws, code.parse_of_none hrest]
  simp

/-! ## Boundaries of a stream -/

def AtBoundary (xs : List α) (pos : ℕ) : Prop :=
  ∃ (ws : List (List α)) (rest : List α), (∀ w ∈ ws, code.IsWord w) ∧
    xs = ws.flatten ++ rest ∧ pos = ws.flatten.length

theorem atBoundary_zero (xs : List α) : code.AtBoundary xs 0 :=
  ⟨[], xs, by simp, by simp, by simp⟩

theorem AtBoundary.add {code : PrefixCode α} {xs : List α} {pos n : ℕ}
    (hpos : code.AtBoundary xs pos) (hsize : code.size (xs.drop pos) = some n) :
    code.AtBoundary xs (pos + n) := by
  rcases hpos with ⟨ws, rest, hws, hxs, hlength⟩
  have hdrop : xs.drop pos = rest := by rw [hxs, hlength, List.drop_left]
  rw [hdrop] at hsize
  refine ⟨ws ++ [rest.take n], rest.drop n, ?_, ?_, ?_⟩
  · intro w hw
    rcases List.mem_append.mp hw with hold | hnew
    · exact hws w hold
    · rw [List.mem_singleton.mp hnew]
      exact code.isWord_take hsize
  · rw [hxs, List.flatten_append, List.flatten_singleton, List.append_assoc,
      List.take_append_drop]
  · rw [hlength, List.flatten_append, List.flatten_singleton, List.length_append,
      List.length_take, Nat.min_eq_left (code.size_le hsize)]

theorem AtBoundary.parse_snd {code : PrefixCode α} {xs : List α} {pos : ℕ}
    (hpos : code.AtBoundary xs pos) (hsize : code.size (xs.drop pos) = none) :
    (code.parse xs).2 = xs.drop pos := by
  rcases hpos with ⟨ws, rest, hws, hxs, hlength⟩
  have hdrop : xs.drop pos = rest := by rw [hxs, hlength, List.drop_left]
  rw [hdrop] at hsize ⊢
  rw [hxs, code.parse_flatten_append_of_none hws hsize]

theorem size_eq_none_of_proper {w rest : List α} (hw : code.IsWord w)
    (hinit : rest <+: w) (hlt : rest.length < w.length) :
    code.size rest = none := by
  cases hsize : code.size rest with
  | none => rfl
  | some n =>
      obtain ⟨tail, rfl⟩ := hinit
      have hle := code.size_le hsize
      have hsame : some n = some (rest ++ tail).length := by
        rw [← code.size_append tail hsize]
        exact hw
      have hn : n = (rest ++ tail).length := Option.some.inj hsame
      omega

end PrefixCode

end CppPlay.Lib
