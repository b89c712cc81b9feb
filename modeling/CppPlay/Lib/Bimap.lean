import Mathlib.Tactic

/-!
# Maps that are unique on both sides

A set of pairs in which neither a left nor a right value occurs twice.
Insertion of a pair that clashes on either side leaves the map as it is.
-/

namespace CppPlay.Lib

/-- Two pairs agree on one side exactly when they agree on the other. -/
def OneToOne {α β : Type*} (pairs : List (α × β)) : Prop :=
  ∀ p ∈ pairs, ∀ q ∈ pairs, p.1 = q.1 ↔ p.2 = q.2

theorem oneToOne_nil {α β : Type*} : OneToOne ([] : List (α × β)) := by
  intro p hp
  exact absurd hp List.not_mem_nil

theorem oneToOne_cons {α β : Type*} {p : α × β} {pairs : List (α × β)} :
    OneToOne (p :: pairs) ↔
      OneToOne pairs ∧ ∀ q ∈ pairs, p.1 = q.1 ↔ p.2 = q.2 := by
  constructor
  · intro hall
    constructor
    · intro q hq r hr
      exact hall q (List.mem_cons_of_mem p hq) r (List.mem_cons_of_mem p hr)
    · intro q hq
      exact hall p List.mem_cons_self q (List.mem_cons_of_mem p hq)
  · intro hboth q hq r hr
    rcases List.mem_cons.mp hq with hqp | hqs
    · rw [hqp]
      rcases List.mem_cons.mp hr with hrp | hrs
      · simp [hrp]
      · exact hboth.2 r hrs
    · rcases List.mem_cons.mp hr with hrp | hrs
      · rw [hrp, eq_comm, hboth.2 q hqs, eq_comm]
      · exact hboth.1 q hqs r hrs

structure Bimap (α β : Type*) where
  pairs : List (α × β)
  left_nodup : (pairs.map Prod.fst).Nodup
  right_nodup : (pairs.map Prod.snd).Nodup

namespace Bimap

variable {α β : Type*} [DecidableEq β]

def empty : Bimap α β := ⟨[], List.nodup_nil, List.nodup_nil⟩

def insert [DecidableEq α] (m : Bimap α β) (a : α) (b : β) : Bimap α β :=
  if hfree : a ∉ m.pairs.map Prod.fst ∧ b ∉ m.pairs.map Prod.snd then
    ⟨(a, b) :: m.pairs, List.nodup_cons.mpr ⟨hfree.1, m.left_nodup⟩,
      List.nodup_cons.mpr ⟨hfree.2, m.right_nodup⟩⟩
  else m

def findRight (m : Bimap α β) (b : β) : Option α :=
  (m.pairs.find? fun p => p.2 = b).map Prod.fst

theorem findRight_eq_some_iff {m : Bimap α β} {a : α} {b : β} :
    m.findRight b = some a ↔ (a, b) ∈ m.pairs := by
  constructor
  · intro hfound
    rw [findRight, Option.map_eq_some_iff] at hfound
    rcases hfound with ⟨p, hp, hfst⟩
    have hsnd : p.2 = b := by simpa using List.find?_some hp
    have hmem := List.mem_of_find?_eq_some hp
    rw [← hfst, ← hsnd]
    exact hmem
  · intro hmem
    rw [findRight]
    cases hfind : m.pairs.find? (fun p => p.2 = b) with
    | none =>
        have hnone := List.find?_eq_none.mp hfind (a, b) hmem
        simp at hnone
    | some p =>
        have hsnd : p.2 = b := by simpa using List.find?_some hfind
        have hsame : p = (a, b) :=
          List.inj_on_of_nodup_map m.right_nodup (List.mem_of_find?_eq_some hfind) hmem hsnd
        rw [hsame, Option.map_some]

section Insert

variable [DecidableEq α]

theorem pairs_insert_of_free {m : Bimap α β} {a : α} {b : β}
    (hleft : ∀ p ∈ m.pairs, p.1 ≠ a) (hright : ∀ p ∈ m.pairs, p.2 ≠ b) :
    (m.insert a b).pairs = (a, b) :: m.pairs := by
  have hfree : a ∉ m.pairs.map Prod.fst ∧ b ∉ m.pairs.map Prod.snd := by
    constructor
    · intro hmem
      rcases List.mem_map.mp hmem with ⟨p, hp, hfst⟩
      exact hleft p hp hfst
    · intro hmem
      rcases List.mem_map.mp hmem with ⟨p, hp, hsnd⟩
      exact hright p hp hsnd
  rw [insert, dif_pos hfree]

theorem insert_of_left {m : Bimap α β} {a : α} {b : β} {p : α × β}
    (hp : p ∈ m.pairs) (hclash : p.1 = a) : m.insert a b = m := by
  rw [insert, dif_neg]
  intro hfree
  exact hfree.1 (hclash ▸ List.mem_map_of_mem hp)

theorem insert_of_right {m : Bimap α β} {a : α} {b : β} {p : α × β}
    (hp : p ∈ m.pairs) (hclash : p.2 = b) : m.insert a b = m := by
  rw [insert, dif_neg]
  intro hfree
  exact hfree.2 (hclash ▸ List.mem_map_of_mem hp)

/-- Inserting one more pair of a one-to-one history keeps the map equal to it. -/
theorem mem_pairs_insert_of_oneToOne {m : Bimap α β} {p : α × β} {history : List (α × β)}
    (hsame : ∀ q, q ∈ m.pairs ↔ q ∈ history) (hone : OneToOne (p :: history)) (q : α × β) :
    q ∈ (m.insert p.1 p.2).pairs ↔ q ∈ p :: history := by
  rw [oneToOne_cons] at hone
  by_cases hold : p ∈ history
  · rw [insert_of_left ((hsame p).mpr hold) rfl, hsame, List.mem_cons]
    exact ⟨Or.inr, fun hq => hq.elim (fun heq => heq ▸ hold) id⟩
  · have hleft : ∀ r ∈ m.pairs, r.1 ≠ p.1 := by
      intro r hr hfst
      have hmem := (hsame r).mp hr
      have hsnd := (hone.2 r hmem).mp hfst.symm
      exact hold (Prod.ext hfst hsnd.symm ▸ hmem)
    have hright : ∀ r ∈ m.pairs, r.2 ≠ p.2 := by
      intro r hr hsnd
      have hmem := (hsame r).mp hr
      exact hleft r hr ((hone.2 r hmem).mpr hsnd.symm).symm
    rw [pairs_insert_of_free hleft hright, List.mem_cons, List.mem_cons, hsame]

end Insert

end Bimap

end CppPlay.Lib
