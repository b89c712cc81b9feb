import CppPlay.FixAdapter.FieldType
import CppPlay.Lib.PrefixCode

/-!
# Messages on a stream

A message is its header and as many bytes as the header announces, so a stream
of messages is cut in one way only.
-/

namespace CppPlay.FixAdapter

open CppPlay.Lib

variable (api : Espd)

/-- `get_length` of a header at the front of these bytes. -/
def announcedLength (bs : List Byte) : ℕ :=
  (api.uespd16.load ((bs.drop 13).take 2)).toNat

def msgSize (bs : List Byte) : Option ℕ :=
  if bs.length < sizeofMsgHeader then none
  else if bs.length < sizeofMsgHeader + announcedLength api bs then none
  else some (sizeofMsgHeader + announcedLength api bs)

theorem msgSize_eq_some_iff {bs : List Byte} {n : ℕ} :
    msgSize api bs = some n ↔
      n = sizeofMsgHeader + announcedLength api bs ∧ n ≤ bs.length := by
  rw [msgSize]
  by_cases hheader : bs.length < sizeofMsgHeader
  · simp only [hheader, if_true, reduceCtorEq, false_iff, not_and, not_le]
    omega
  · by_cases hbody : bs.length < sizeofMsgHeader + announcedLength api bs
    · simp only [hheader, hbody, if_true, if_false, reduceCtorEq, false_iff, not_and, not_le]
      omega
    · simp only [hheader, hbody, if_false, Option.some.injEq]
      omega

theorem announcedLength_append {bs : List Byte} (ys : List Byte)
    (hheader : sizeofMsgHeader ≤ bs.length) :
    announcedLength api (bs ++ ys) = announcedLength api bs := by
  simp only [sizeofMsgHeader] at hheader
  rw [announcedLength, List.drop_append_of_le_length (by omega),
    List.take_append_of_le_length (by rw [List.length_drop]; omega)]
  rfl

theorem announcedLength_take {bs : List Byte} {n : ℕ} (hn : sizeofMsgHeader ≤ n) :
    announcedLength api (bs.take n) = announcedLength api bs := by
  simp only [sizeofMsgHeader] at hn
  rw [announcedLength, List.drop_take, List.take_take, Nat.min_eq_left (by omega)]
  rfl

theorem msgSize_append {bs : List Byte} {n : ℕ} (hsize : msgSize api bs = some n)
    (ys : List Byte) : msgSize api (bs ++ ys) = some n := by
  rw [msgSize_eq_some_iff] at hsize ⊢
  rw [announcedLength_append api ys (by omega), List.length_append]
  omega

theorem msgSize_take {bs : List Byte} {n : ℕ} (hsize : msgSize api bs = some n) :
    msgSize api (bs.take n) = some n := by
  rw [msgSize_eq_some_iff] at hsize ⊢
  rw [announcedLength_take api (by omega), List.length_take]
  omega

theorem msgSize_pos {bs : List Byte} {n : ℕ} (hsize : msgSize api bs = some n) : 0 < n := by
  rw [msgSize_eq_some_iff] at hsize
  simp only [sizeofMsgHeader] at hsize
  omega

theorem msgSize_le {bs : List Byte} {n : ℕ} (hsize : msgSize api bs = some n) :
    n ≤ bs.length :=
  ((msgSize_eq_some_iff api).mp hsize).2

def msgCode : PrefixCode Byte where
  size := msgSize api
  size_pos := msgSize_pos api
  size_le := msgSize_le api
  size_append ys hsize := msgSize_append api hsize ys
  size_take := msgSize_take api

end CppPlay.FixAdapter
