import Mathlib

/-!
# Addressable memory

A memory maps every address to a cell.  Writing a block changes the cells under
it and no others; reading gives the cells back in order.  The later sections are
the C library's bounded search for a cell, and blocks laid out one behind the
other.
-/

namespace CppPlay.Lib

abbrev Memory (β : Type*) := ℕ → β

namespace Memory

variable {β : Type*}

def read (mem : Memory β) (pos len : ℕ) : List β :=
  (List.range' pos len).map mem

def write (mem : Memory β) (pos : ℕ) (block : List β) : Memory β := fun i =>
  if h : pos ≤ i ∧ i - pos < block.length then block[i - pos] else mem i

@[simp] theorem length_read (mem : Memory β) (pos len : ℕ) :
    (mem.read pos len).length = len := by
  simp [read]

@[simp] theorem read_zero (mem : Memory β) (pos : ℕ) : mem.read pos 0 = [] := rfl

theorem getElem_read (mem : Memory β) {pos len i : ℕ}
    (hi : i < (mem.read pos len).length) :
    (mem.read pos len)[i] = mem (pos + i) := by
  simp [read]

theorem read_add (mem : Memory β) (pos len len' : ℕ) :
    mem.read pos (len + len') =
      mem.read pos len ++ mem.read (pos + len) len' := by
  unfold read
  rw [← List.map_append, List.range'_append_1]

theorem take_read (mem : Memory β) {pos len n : ℕ} (hn : n ≤ len) :
    (mem.read pos len).take n = mem.read pos n := by
  obtain ⟨k, rfl⟩ := Nat.exists_eq_add_of_le hn
  rw [read_add, List.take_left' (by simp)]

theorem drop_read (mem : Memory β) {pos len n : ℕ} (hn : n ≤ len) :
    (mem.read pos len).drop n = mem.read (pos + n) (len - n) := by
  obtain ⟨k, rfl⟩ := Nat.exists_eq_add_of_le hn
  rw [read_add, List.drop_left' (by simp)]
  simp

theorem read_congr {mem mem' : Memory β} {pos len : ℕ}
    (hsame : ∀ i, pos ≤ i → i < pos + len → mem i = mem' i) :
    mem.read pos len = mem'.read pos len := by
  apply List.map_congr_left
  intro i hi
  rw [List.mem_range'_1] at hi
  exact hsame i hi.1 hi.2

theorem takeWhile_read_congr {mem mem' : Memory β} {keep : β → Bool} {bound : ℕ}
    (hsame : ∀ i < bound, mem i = mem' i) {pos : ℕ} (len : ℕ)
    (hstop : ∃ i, pos ≤ i ∧ i < bound ∧ keep (mem i) = false) :
    (mem.read pos len).takeWhile keep = (mem'.read pos len).takeWhile keep := by
  induction len generalizing pos with
  | zero => rfl
  | succ len ih =>
      rcases hstop with ⟨i, hi, hbound, hkeep⟩
      have hhere : mem pos = mem' pos := hsame pos (by omega)
      have hcons : ∀ m : Memory β, m.read pos (len + 1) = m pos :: m.read (pos + 1) len :=
        fun m => rfl
      rw [hcons, hcons, ← hhere]
      cases hpos : keep (mem pos) with
      | false => simp [hpos]
      | true =>
          have hne : i ≠ pos := by
            intro heq
            rw [heq, hpos] at hkeep
            exact Bool.noConfusion hkeep
          rw [List.takeWhile_cons_of_pos hpos, List.takeWhile_cons_of_pos hpos,
            ih ⟨i, by omega, hbound, hkeep⟩]

theorem takeWhile_read_congr_of_kept {mem mem' : Memory β} {keep : β → Bool} {pos : ℕ}
    (hsame : ∀ i, pos ≤ i → (∀ j, pos ≤ j → j < i → keep (mem j) = true) → mem i = mem' i)
    (len : ℕ) : (mem.read pos len).takeWhile keep = (mem'.read pos len).takeWhile keep := by
  induction len generalizing pos with
  | zero => rfl
  | succ len ih =>
      have hhere : mem pos = mem' pos := hsame pos le_rfl fun j hlow hhigh => by omega
      have hcons : ∀ m : Memory β, m.read pos (len + 1) = m pos :: m.read (pos + 1) len :=
        fun m => rfl
      rw [hcons, hcons, ← hhere]
      cases hkeep : keep (mem pos) with
      | false => simp [hkeep]
      | true =>
          have hlater : ∀ i, pos + 1 ≤ i →
              (∀ j, pos + 1 ≤ j → j < i → keep (mem j) = true) → mem i = mem' i := by
            intro i hi hkept
            apply hsame i (by omega)
            intro j hlow hhigh
            rcases Nat.eq_or_lt_of_le hlow with rfl | hnext
            · exact hkeep
            · exact hkept j hnext hhigh
          rw [List.takeWhile_cons_of_pos hkeep, List.takeWhile_cons_of_pos hkeep, ih hlater]

theorem read_eq_append_iff (mem : Memory β) {pos len : ℕ} {xs ys : List β} :
    mem.read pos len = xs ++ ys ↔
      xs.length + ys.length = len ∧
        mem.read pos xs.length = xs ∧
        mem.read (pos + xs.length) ys.length = ys := by
  constructor
  · intro hread
    have hlen : xs.length + ys.length = len := by
      have := congrArg List.length hread
      simpa using this.symm
    subst hlen
    rw [read_add] at hread
    have hparts := List.append_inj hread (by simp)
    exact ⟨rfl, hparts⟩
  · rintro ⟨rfl, hxs, hys⟩
    rw [read_add, hxs, hys]

theorem read_write_self (mem : Memory β) (pos : ℕ) (block : List β) :
    (mem.write pos block).read pos block.length = block := by
  apply List.ext_getElem
  · simp
  · intro i hi hblock
    rw [getElem_read]
    simp [write, hblock]

theorem read_write_of_disjoint (mem : Memory β) {pos pos' len : ℕ}
    {block : List β}
    (hdisjoint : pos' + len ≤ pos ∨ pos + block.length ≤ pos') :
    (mem.write pos block).read pos' len = mem.read pos' len := by
  apply List.ext_getElem
  · simp
  · intro i hi hi'
    rw [getElem_read, getElem_read]
    simp only [length_read] at hi
    simp only [write]
    rw [dif_neg]
    omega

theorem read_of_read {mem : Memory β} {pos k n : ℕ} {block : List β}
    (hread : mem.read pos block.length = block) (hn : k + n ≤ block.length) :
    mem.read (pos + k) n = (block.drop k).take n := by
  rw [← hread, mem.drop_read (by omega), mem.take_read (by omega)]

/-- The cells of a list from address zero on. -/
def ofList [Zero β] (block : List β) : Memory β := fun i => block.getD i 0

@[simp] theorem read_ofList [Zero β] (block : List β) :
    (ofList block).read 0 block.length = block := by
  apply List.ext_getElem
  · simp
  · intro i hi hblock
    rw [getElem_read, ofList, Nat.zero_add, List.getD_eq_getElem _ _ hblock]

/-- A search for a cell that is there does not look behind the block. -/
theorem takeWhile_read_of_stop (mem : Memory β) {keep : β → Bool} {pos len len' : ℕ}
    (hlen : len ≤ len') (hstop : ∃ i < len, keep (mem (pos + i)) = false) :
    (mem.read pos len').takeWhile keep = (mem.read pos len).takeWhile keep := by
  obtain ⟨more, rfl⟩ := Nat.exists_eq_add_of_le hlen
  have hnot : ((mem.read pos len).takeWhile keep).length ≠ (mem.read pos len).length := by
    intro hall
    obtain ⟨i, hi, hkeep⟩ := hstop
    have hmem : mem (pos + i) ∈ mem.read pos len :=
      List.mem_map.mpr ⟨pos + i, List.mem_range'_1.mpr ⟨by omega, by omega⟩, rfl⟩
    have hsame := (List.takeWhile_prefix keep (l := mem.read pos len)).eq_of_length hall
    have hkept := List.takeWhile_eq_self_iff.mp hsame _ hmem
    rw [hkeep] at hkept
    exact Bool.noConfusion hkept
  rw [read_add, List.takeWhile_append, if_neg hnot]

@[simp] theorem write_nil (mem : Memory β) (pos : ℕ) : mem.write pos [] = mem := by
  funext i
  simp [write]

theorem write_append (mem : Memory β) (pos : ℕ) (block block' : List β) :
    mem.write pos (block ++ block') =
      (mem.write pos block).write (pos + block.length) block' := by
  funext i
  simp only [write, List.length_append]
  by_cases hsecond : pos + block.length ≤ i ∧
      i - (pos + block.length) < block'.length
  · rw [dif_pos (by omega), dif_pos hsecond,
      List.getElem_append_right (by omega)]
    congr 1
    omega
  · rw [dif_neg hsecond]
    by_cases hfirst : pos ≤ i ∧ i - pos < block.length
    · rw [dif_pos (by omega), dif_pos hfirst, List.getElem_append_left]
    · rw [dif_neg (by omega), dif_neg hfirst]

/-! ## Searching for a cell -/

section Find

variable [DecidableEq β]

/-- The distance from `pos` to the first cell equal to `c`, looking at no more
than `len` cells. -/
def find (mem : Memory β) (c : β) (pos len : ℕ) : Option ℕ :=
  (mem.read pos len).findIdx? (· = c)

def findExamined (mem : Memory β) (c : β) (pos len : ℕ) : ℕ :=
  match mem.find c pos len with
  | some i => i + 1
  | none => len

theorem find_eq_some_iff (mem : Memory β) {c : β} {pos len i : ℕ} :
    mem.find c pos len = some i ↔
      i < len ∧ mem (pos + i) = c ∧ ∀ j < i, mem (pos + j) ≠ c := by
  unfold find
  rw [List.findIdx?_eq_some_iff_getElem]
  constructor
  · rintro ⟨hlen, hc, hbefore⟩
    rw [getElem_read] at hc
    refine ⟨by simpa using hlen, by simpa using hc, ?_⟩
    intro j hj
    have hne := hbefore j hj
    rw [getElem_read] at hne
    simpa using hne
  · rintro ⟨hlen, hc, hbefore⟩
    refine ⟨by simpa using hlen, ?_, ?_⟩
    · rw [getElem_read]
      simpa using hc
    · intro j hj
      rw [getElem_read]
      simpa using hbefore j hj

theorem find_lt (mem : Memory β) {c : β} {pos len i : ℕ}
    (hfind : mem.find c pos len = some i) : i < len :=
  (mem.find_eq_some_iff.mp hfind).1

theorem find_eq_some_of_lt (mem : Memory β) {c : β} {pos len len' i : ℕ}
    (hfind : mem.find c pos len = some i) (hi : i < len') :
    mem.find c pos len' = some i := by
  rw [find_eq_some_iff] at hfind ⊢
  exact ⟨hi, hfind.2⟩

end Find

end Memory

/-! ## Blocks in a row -/

/-- The offsets at which consecutive blocks begin, the first one at `start`. -/
def blockStarts {β : Type*} (start : ℕ) : List (List β) → List ℕ
  | [] => []
  | block :: blocks => start :: blockStarts (start + block.length) blocks

variable {β : Type*}

@[simp] theorem blockStarts_nil (start : ℕ) :
    blockStarts start ([] : List (List β)) = [] := rfl

@[simp] theorem blockStarts_cons (start : ℕ) (block : List β)
    (blocks : List (List β)) :
    blockStarts start (block :: blocks) =
      start :: blockStarts (start + block.length) blocks := rfl

theorem blockStarts_append (start : ℕ) (blocks blocks' : List (List β)) :
    blockStarts start (blocks ++ blocks') =
      blockStarts start blocks ++
        blockStarts (start + blocks.flatten.length) blocks' := by
  induction blocks generalizing start with
  | nil => simp
  | cons block blocks ih => simp [ih, Nat.add_assoc]

theorem forall₂_read_blockStarts {mem : Memory β} {start : ℕ}
    {blocks : List (List β)}
    (hread : mem.read start blocks.flatten.length = blocks.flatten) :
    List.Forall₂ (fun pos block => mem.read pos block.length = block ∧
        start ≤ pos ∧ pos + block.length ≤ start + blocks.flatten.length)
      (blockStarts start blocks) blocks := by
  induction blocks generalizing start with
  | nil => exact List.Forall₂.nil
  | cons block blocks ih =>
      rw [List.flatten_cons, List.length_append] at hread
      obtain ⟨-, hblock, hrest⟩ := (mem.read_eq_append_iff).mp hread
      rw [List.flatten_cons, List.length_append]
      refine List.Forall₂.cons ⟨hblock, by omega, by omega⟩ ?_
      refine (ih hrest).imp ?_
      intro pos other hother
      exact ⟨hother.1, by omega, by omega⟩

/-- What depends on the blocks alone can be read off at their offsets. -/
theorem map_blockStarts {γ : Type*} {f : ℕ → γ} {g : List β → γ} {mem : Memory β} {start : ℕ}
    {blocks : List (List β)} (hread : mem.read start blocks.flatten.length = blocks.flatten)
    (hsame : ∀ block ∈ blocks, ∀ pos, mem.read pos block.length = block →
      pos + block.length ≤ start + blocks.flatten.length → f pos = g block) :
    (blockStarts start blocks).map f = blocks.map g := by
  induction blocks generalizing start with
  | nil => rfl
  | cons block blocks ih =>
      rw [List.flatten_cons, List.length_append] at hread hsame
      obtain ⟨-, hblock, hrest⟩ := (mem.read_eq_append_iff).mp hread
      rw [blockStarts_cons, List.map_cons, List.map_cons,
        hsame block List.mem_cons_self start hblock (by omega)]
      congr 1
      apply ih hrest
      intro other hother pos hpos hend
      exact hsame other (List.mem_cons_of_mem _ hother) pos hpos (by omega)

end CppPlay.Lib
