import CppPlay.FixAdapter.NetworkOrder
import CppPlay.FixAdapter.MsgFromTSParser

/-!
# What the parser may look at

A message from the trading system is untrusted.  The parser stays inside it, in
what it reads and in the positions it hands on, exactly when the body is made of
complete fields; otherwise the block it could not finish is already pushed.
-/

namespace CppPlay.FixAdapter

open CppPlay.Lib

variable {api : Espd}

def FieldInside (api : Espd) (data : Memory Byte) (low high pos : ℕ) : Prop :=
  low ≤ pos ∧ ∃ n, pos + n ≤ high ∧ (fieldCode api).IsWord (data.read pos n)

/-- The parser looked at no byte behind the message, and every position it
pushed is the start of a field inside the body. -/
structure Contained (api : Espd) (data : Memory Byte) (q : MsgFromTSParser) :
    Prop where
  examined : ∀ i ∈ q.examined, i < sizeofMsgHeader + q.bodySize
  fields : ∀ pos ∈ q.fields,
    FieldInside api data sizeofMsgHeader (sizeofMsgHeader + q.bodySize) pos

def BodyOfFields (api : Espd) (data : Memory Byte) : Prop :=
  ∃ ws, ws ≠ [] ∧ (∀ w ∈ ws, (fieldCode api).IsWord w) ∧
    MsgFromTSParser.body api data = ws.flatten

theorem fieldInside_of_bodyOfFields {data : Memory Byte} {ws : List (List Byte)}
    {pos : ℕ} (hws : ∀ w ∈ ws, (fieldCode api).IsWord w)
    (hbody : MsgFromTSParser.body api data = ws.flatten)
    (hpos : pos ∈ blockStarts sizeofMsgHeader ws) :
    FieldInside api data sizeofMsgHeader
      (sizeofMsgHeader + (MsgHeader.getLength api data).toNat) pos := by
  have hlength : (MsgHeader.getLength api data).toNat = ws.flatten.length := by
    rw [← hbody, MsgFromTSParser.body, Memory.length_read]
  rw [MsgFromTSParser.body, hlength] at hbody
  rw [hlength]
  have hall := forall₂_read_blockStarts hbody
  simp only [List.forall₂_iff_get, List.get_eq_getElem] at hall
  obtain ⟨hsame, hget⟩ := hall
  obtain ⟨i, hi, rfl⟩ := List.mem_iff_getElem.mp hpos
  obtain ⟨hread, hlow, hhigh⟩ := hget i hi (hsame ▸ hi)
  refine ⟨hlow, _, hhigh, ?_⟩
  rw [hread]
  exact hws _ (List.getElem_mem _)

theorem not_fieldInside_of_rest {data : Memory Byte} {ws : List (List Byte)}
    {rest : List Byte}
    (hparse : (fieldCode api).parse (MsgFromTSParser.body api data) = (ws, rest)) :
    ¬ FieldInside api data sizeofMsgHeader
      (sizeofMsgHeader + (MsgHeader.getLength api data).toNat)
      (sizeofMsgHeader + ws.flatten.length) := by
  rintro ⟨-, n, hhigh, hword⟩
  have hsplit := (fieldCode api).flatten_parse_append
    (MsgFromTSParser.body api data)
  have hnone := (fieldCode api).size_parse_snd (MsgFromTSParser.body api data)
  rw [hparse] at hsplit hnone
  simp only at hsplit hnone
  obtain ⟨hlength, -, hrest⟩ :=
    (Memory.read_eq_append_iff data).mp (hsplit.symm : data.read _ _ = _)
  have hfront : rest = data.read (sizeofMsgHeader + ws.flatten.length) n ++
      rest.drop n := by
    rw [← List.take_append_drop n rest]
    congr 1
    · rw [← hrest, Memory.take_read _ (by omega)]
    · simp
  rw [hfront, hword.size_append] at hnone
  contradiction

theorem contained_iff {p : MsgFromTSParser} {data : Memory Byte} {offset : ℕ} :
    ∃ stop q, MsgFromTSParser.parseBuffer api (p.reset api data offset) =
        some (stop, q) ∧
      (Contained api data q ↔ BodyOfFields api data) := by
  obtain ⟨stop, q, hrun, -, hbody, -, -, hfields, -, hlast⟩ :=
    MsgFromTSParser.parseBuffer_spec api p data offset
  refine ⟨stop, q, hrun, ?_, ?_⟩
  · intro hcontained
    obtain ⟨ws, rest, hparse⟩ : ∃ ws rest,
        (fieldCode api).parse (MsgFromTSParser.body api data) = (ws, rest) :=
      ⟨_, _, rfl⟩
    by_cases hgood : rest = [] ∧ ws ≠ []
    · have hsplit := (fieldCode api).flatten_parse_append
        (MsgFromTSParser.body api data)
      rw [hparse, hgood.1, List.append_nil] at hsplit
      refine ⟨ws, hgood.2, ?_, hsplit.symm⟩
      intro w hw
      apply (fieldCode api).isWord_of_mem_parse
      rw [hparse]
      exact hw
    · have hpushed : sizeofMsgHeader + ws.flatten.length ∈ q.fields := by
        rw [hfields, hparse, MsgFromTSParser.pushedBlocks, if_neg hgood,
          blockStarts_append]
        simp
      have hinside := hcontained.fields _ hpushed
      rw [hbody] at hinside
      exact absurd hinside (not_fieldInside_of_rest hparse)
  · rintro ⟨ws, hne, hws, hflatten⟩
    have hparse := (fieldCode api).parse_flatten hws
    rw [← hflatten] at hparse
    have hfull : MsgFromTSParser.body api data ≠ [] := by
      intro hnil
      rw [hnil, PrefixCode.parse_nil] at hparse
      exact hne (congrArg Prod.fst hparse).symm
    obtain ⟨-, hexamined⟩ := hlast (by rw [hparse]) hfull
    refine ⟨hexamined, ?_⟩
    intro pos hpos
    rw [hfields, hparse, MsgFromTSParser.pushedBlocks, if_pos ⟨rfl, hne⟩] at hpos
    rw [hbody]
    exact fieldInside_of_bodyOfFields hws hflatten hpos

/-- A body of four bytes that is a string field without its terminator. -/
def unterminatedString : Memory Byte := fun i =>
  [0, 0, 0, 0, 0, 0, 0, 0, 0, 0, 0, 0, 1, 0, 4, 0, 0, 8].getD i 97

theorem parseBuffer_unterminatedString :
    (MsgFromTSParser.parseBuffer NetworkOrder.espd
        ((MsgFromTSParser.make NetworkOrder.espd unterminatedString).reset
          NetworkOrder.espd unterminatedString 0)).map
      (fun result => (result.2.bodySize, result.2.fields, result.2.examined)) =
      some (4, [15], [13, 14, 11, 12, 8, 9, 17, 18, 19, 20, 21]) := by
  decide

/-- The parser reads behind that message and hands on a position at which no
complete field stands. -/
theorem not_contained_unterminatedString :
    ¬ ∀ (api : Espd) (p : MsgFromTSParser) (data : Memory Byte) (offset : ℕ)
        (stop : NextFld) (q : MsgFromTSParser),
      MsgFromTSParser.parseBuffer api (p.reset api data offset) = some (stop, q) →
        Contained api data q := by
  intro hall
  have hrun := parseBuffer_unterminatedString
  rw [Option.map_eq_some_iff] at hrun
  obtain ⟨⟨stop, q⟩, hparse, hq⟩ := hrun
  simp only [Prod.mk.injEq] at hq
  have hcontained := hall _ _ _ _ stop q hparse
  have hlast : 21 < sizeofMsgHeader + q.bodySize := by
    apply hcontained.examined
    rw [hq.2.2]
    decide
  rw [hq.1] at hlast
  exact absurd hlast (by decide)

end CppPlay.FixAdapter
