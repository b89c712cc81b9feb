import CppPlay.Lib.PrefixCode
import CppPlay.FixAdapter.FieldType

/-!
# Parsing a message from the trading system

`MsgFromTSParser` of `msg_from_ts_parser.h`.  A position (`const char*`) is an
offset into the message's buffer.  The component `examined` is not in the
source: it records the offsets whose bytes the parser looks at.

The second half compares the scan with the field format itself.  `fieldCode`
says which bytes are a field, and the positions pushed by `parseBody` are the
starts of the blocks into which that code cuts the body.
-/

namespace CppPlay.FixAdapter

open CppPlay.Lib

structure MsgFromTSParser where
  data : Memory Byte
  offset : ℕ
  bodySize : ℕ
  numFields : UInt16
  msgType : UInt16
  currentNumFields : UInt16
  fields : List ℕ
  examined : List ℕ

/-- The ways out of `nextFld`; `lastField` tells whether the discrepancy
warning is logged. -/
inductive NextFld where
  | nextField
  | invalidMaxSize
  | sizeNotCalculated
  | lastField (discrepancy : Bool)
  | sizeTooBig
  deriving DecidableEq, Repr

namespace MsgFromTSParser

variable (api : Espd)

/-- `reset(buf)`; the field counter is left to `firstFld`. -/
def reset (p : MsgFromTSParser) (data : Memory Byte) (offset : ℕ) :
    MsgFromTSParser where
  data := data
  offset := offset
  bodySize := 0
  numFields := 0
  msgType := api.msgTypeCode .undefined
  currentNumFields := p.currentNumFields
  fields := []
  examined := []

def make (data : Memory Byte) : MsgFromTSParser :=
  reset api ⟨data, 0, 0, 0, 0, 0, [], []⟩ data 0

def setHeader (p : MsgFromTSParser) : MsgFromTSParser :=
  { p with
    bodySize := (MsgHeader.getLength api p.data).toNat
    numFields := MsgHeader.getNumFields api p.data
    msgType := MsgHeader.getMessageType api p.data
    examined := p.examined ++ [13, 14, 11, 12, 8, 9] }

def nextFldSize (p : MsgFromTSParser) (maxSize : ℕ) : ℤ × List ℕ :=
  let fld := p.offset
  let type := FldHdr.getType api p.data fld
  if type = api.fieldTypeCode .uint32 ∨ type = api.fieldTypeCode .int32 ∨
      type = api.fieldTypeCode .datetime then
    (fieldFixedSize 4, [fld + 2])
  else if type = api.fieldTypeCode .decimal then
    (fieldFixedSize 8, [fld + 2])
  else if type = api.fieldTypeCode .string then
    let found := strFldSize api p.data fld maxSize
    (found.1, (fld + 2) :: found.2)
  else if type = api.fieldTypeCode .byte ∨ type = api.fieldTypeCode .int8 then
    (fieldFixedSize 1, [fld + 2])
  else if type = api.fieldTypeCode .uint16 ∨ type = api.fieldTypeCode .int16 then
    (fieldFixedSize 2, [fld + 2])
  else
    (api.invalidFldSz, [fld + 2])

def firstFld (p : MsgFromTSParser) : MsgFromTSParser :=
  { p with offset := sizeofMsgHeader, currentNumFields := 0 }

def nextFld (p : MsgFromTSParser) : NextFld × MsgFromTSParser :=
  let maxSize : ℤ := (p.bodySize + sizeofMsgHeader : ℕ) - (p.offset : ℤ)
  if maxSize ≤ (sizeofFldHdr : ℤ) then (.invalidMaxSize, p)
  else
    let scan := p.nextFldSize api maxSize.toNat
    let size := scan.1
    let seen := p.examined ++ scan.2
    if size = api.invalidFldSz then
      (.sizeNotCalculated, { p with examined := seen })
    else if size < maxSize then
      (.nextField, { p with
        examined := seen
        currentNumFields := p.currentNumFields + 1
        offset := p.offset + size.toNat })
    else if size = maxSize then
      (.lastField (p.currentNumFields + 1 ≠ p.numFields), { p with
        examined := seen
        currentNumFields := p.currentNumFields + 1 })
    else
      (.sizeTooBig, { p with examined := seen })

def pushPos (p : MsgFromTSParser) : MsgFromTSParser :=
  { p with fields := p.fields ++ [p.offset] }

/-- The loop of `parseBody`, entered at the position already returned by
`firstFld` or `nextFld`. -/
def parseLoop : ℕ → MsgFromTSParser → Option (NextFld × MsgFromTSParser)
  | 0, _ => none
  | fuel + 1, p =>
      match p.pushPos.nextFld api with
      | (.nextField, p') => parseLoop fuel p'
      | (stop, p') => some (stop, p')

def parseBody (p : MsgFromTSParser) : Option (NextFld × MsgFromTSParser) :=
  parseLoop api (p.bodySize + 1) p.firstFld

def parseBuffer (p : MsgFromTSParser) : Option (NextFld × MsgFromTSParser) :=
  (p.setHeader api).parseBody api

def bodyEnd (p : MsgFromTSParser) : ℕ := p.bodySize + sizeofMsgHeader

def rest (p : MsgFromTSParser) : List Byte :=
  p.data.read p.offset (p.bodyEnd - p.offset)

end MsgFromTSParser

/-! ## The field format -/

section FieldFormat

variable (api : Espd)

inductive FieldData where
  | fixed (size : ℕ)
  | terminated
  deriving DecidableEq, Repr

/-- The data that a type byte calls for; other types have no field format. -/
def fieldData? (type : UInt8) : Option FieldData :=
  if type = api.fieldTypeCode .uint32 ∨ type = api.fieldTypeCode .int32 ∨
      type = api.fieldTypeCode .datetime then some (.fixed 4)
  else if type = api.fieldTypeCode .decimal then some (.fixed 8)
  else if type = api.fieldTypeCode .string then some .terminated
  else if type = api.fieldTypeCode .byte ∨ type = api.fieldTypeCode .int8 then
    some (.fixed 1)
  else if type = api.fieldTypeCode .uint16 ∨ type = api.fieldTypeCode .int16 then
    some (.fixed 2)
  else none

/-- Length of that data at the front of `ys`; a string includes its
terminator. -/
def FieldData.size? (ys : List Byte) : FieldData → Option ℕ
  | .fixed n => if n ≤ ys.length then some n else none
  | .terminated => (ys.findIdx? (· = 0)).map (· + 1)

def fieldSize (xs : List Byte) : Option ℕ :=
  if xs.length < sizeofFldHdr then none
  else
    (fieldData? api (api.uespd8.load ((xs.drop 2).take 1))).bind fun data =>
      (data.size? (xs.drop sizeofFldHdr)).map (sizeofFldHdr + ·)

theorem FieldData.size?_le {data : FieldData} {ys : List Byte} {n : ℕ}
    (hsize : data.size? ys = some n) : n ≤ ys.length := by
  cases data with
  | fixed k =>
      simp only [FieldData.size?, Option.ite_none_right_eq_some,
        Option.some.injEq] at hsize
      omega
  | terminated =>
      simp only [FieldData.size?, Option.map_eq_some_iff] at hsize
      obtain ⟨i, hfind, rfl⟩ := hsize
      have hlt := (List.findIdx?_eq_some_iff_getElem.mp hfind).1
      omega

theorem FieldData.size?_append {data : FieldData} {ys : List Byte} {n : ℕ}
    (hsize : data.size? ys = some n) (zs : List Byte) :
    data.size? (ys ++ zs) = some n := by
  cases data with
  | fixed k =>
      simp only [FieldData.size?, Option.ite_none_right_eq_some,
        Option.some.injEq, List.length_append] at hsize ⊢
      omega
  | terminated =>
      simp only [FieldData.size?, Option.map_eq_some_iff] at hsize ⊢
      obtain ⟨i, hfind, rfl⟩ := hsize
      exact ⟨i, by simp [List.findIdx?_append, hfind], rfl⟩

theorem FieldData.size?_take {data : FieldData} {ys : List Byte} {n : ℕ}
    (hsize : data.size? ys = some n) : data.size? (ys.take n) = some n := by
  cases data with
  | fixed k =>
      simp only [FieldData.size?, Option.ite_none_right_eq_some,
        Option.some.injEq, List.length_take] at hsize ⊢
      omega
  | terminated =>
      simp only [FieldData.size?, Option.map_eq_some_iff] at hsize ⊢
      obtain ⟨i, hfind, rfl⟩ := hsize
      refine ⟨i, ?_, rfl⟩
      rw [List.findIdx?_eq_some_iff_getElem] at hfind ⊢
      obtain ⟨hlt, hzero, hbefore⟩ := hfind
      refine ⟨by simp; omega, by simpa using hzero, ?_⟩
      intro j hj
      simpa using hbefore j hj

theorem fieldSize_eq_some_iff {xs : List Byte} {n : ℕ} :
    fieldSize api xs = some n ↔
      sizeofFldHdr ≤ xs.length ∧
        ∃ data k, fieldData? api (api.uespd8.load ((xs.drop 2).take 1)) =
            some data ∧
          data.size? (xs.drop sizeofFldHdr) = some k ∧ sizeofFldHdr + k = n := by
  unfold fieldSize
  by_cases hshort : xs.length < sizeofFldHdr
  · simp [hshort]
  · simp [hshort, Option.bind_eq_some_iff, not_lt.mp hshort]

theorem fieldData?_fixed_pos {type : UInt8} {n : ℕ}
    (hdata : fieldData? api type = some (.fixed n)) : 0 < n := by
  unfold fieldData? at hdata
  split_ifs at hdata <;> simp at hdata <;> omega

variable {api} in
theorem lt_of_fieldSize {xs : List Byte} {n : ℕ}
    (hsize : fieldSize api xs = some n) : sizeofFldHdr < n := by
  obtain ⟨-, data, k, htype, hk, rfl⟩ := (fieldSize_eq_some_iff api).mp hsize
  cases data with
  | fixed m =>
      have hpos := fieldData?_fixed_pos api htype
      simp only [FieldData.size?, Option.ite_none_right_eq_some,
        Option.some.injEq] at hk
      omega
  | terminated =>
      simp only [FieldData.size?, Option.map_eq_some_iff] at hk
      obtain ⟨i, -, rfl⟩ := hk
      omega

theorem fieldSize_le {xs : List Byte} {n : ℕ} (hsize : fieldSize api xs = some n) :
    n ≤ xs.length := by
  obtain ⟨hlen, data, k, -, hk, rfl⟩ := (fieldSize_eq_some_iff api).mp hsize
  have hle := FieldData.size?_le hk
  rw [List.length_drop] at hle
  omega

theorem fieldSize_append {xs : List Byte} {n : ℕ} (hsize : fieldSize api xs = some n)
    (ys : List Byte) : fieldSize api (xs ++ ys) = some n := by
  obtain ⟨hlen, data, k, htype, hk, rfl⟩ := (fieldSize_eq_some_iff api).mp hsize
  refine (fieldSize_eq_some_iff api).mpr
    ⟨by rw [List.length_append]; omega, data, k, ?_, ?_, rfl⟩
  · have hsame : ((xs ++ ys).drop 2).take 1 = (xs.drop 2).take 1 := by
      simp only [sizeofFldHdr] at hlen
      rw [List.drop_append_of_le_length (by omega),
        List.take_append_of_le_length (by rw [List.length_drop]; omega)]
    rw [hsame]
    exact htype
  · rw [List.drop_append_of_le_length hlen]
    exact FieldData.size?_append hk ys

theorem fieldSize_take {xs : List Byte} {n : ℕ} (hsize : fieldSize api xs = some n) :
    fieldSize api (xs.take n) = some n := by
  obtain ⟨hlen, data, k, htype, hk, rfl⟩ := (fieldSize_eq_some_iff api).mp hsize
  refine (fieldSize_eq_some_iff api).mpr
    ⟨by rw [List.length_take]; omega, data, k, ?_, ?_, rfl⟩
  · have hsame : ((xs.take (sizeofFldHdr + k)).drop 2).take 1 = (xs.drop 2).take 1 := by
      rw [List.drop_take, List.take_take]
      congr 1
      simp only [sizeofFldHdr]
      omega
    rw [hsame]
    exact htype
  · rw [List.drop_take, Nat.add_sub_cancel_left]
    exact FieldData.size?_take hk

def fieldCode : PrefixCode Byte where
  size := fieldSize api
  size_pos hsize := Nat.zero_lt_of_lt (lt_of_fieldSize hsize)
  size_le := fieldSize_le api
  size_append ys hsize := fieldSize_append api hsize ys
  size_take := fieldSize_take api

end FieldFormat

/-! ## The scan against the field format -/

namespace MsgFromTSParser

variable {api : Espd}

theorem nextFldSize_eq (p : MsgFromTSParser) (maxSize : ℕ) :
    p.nextFldSize api maxSize =
      match fieldData? api (FldHdr.getType api p.data p.offset) with
      | none => (api.invalidFldSz, [p.offset + 2])
      | some (.fixed n) => (fieldFixedSize n, [p.offset + 2])
      | some .terminated =>
          ((strFldSize api p.data p.offset maxSize).1,
            (p.offset + 2) :: (strFldSize api p.data p.offset maxSize).2) := by
  simp only [nextFldSize, fieldData?]
  split_ifs <;> rfl

theorem getType_eq_of_read {p : MsgFromTSParser} {maxSize : ℕ}
    (hmax : sizeofFldHdr ≤ maxSize) :
    FldHdr.getType api p.data p.offset =
      api.uespd8.load (((p.data.read p.offset maxSize).drop 2).take 1) := by
  simp only [sizeofFldHdr] at hmax
  rw [Memory.drop_read _ (by omega), Memory.take_read _ (by omega)]
  rfl

variable (api) in
theorem strFldSize_of_find {mem : Memory Byte} {fld maxSize i : ℕ}
    (hmax : sizeofFldHdr < maxSize)
    (hfind : mem.find 0 (fld + sizeofFldHdr) maxSize = some i) :
    strFldSize api mem fld maxSize =
      (((sizeofFldHdr + i + 1 : ℕ) : ℤ),
        List.range' (fld + sizeofFldHdr) (i + 1)) := by
  unfold strFldSize memchr
  rw [if_neg (by omega)]
  simp only [hfind, Memory.findExamined]
  congr 1
  push_cast
  omega

theorem strFldSize_of_not_find {mem : Memory Byte} {fld maxSize : ℕ}
    (hfind : mem.find 0 (fld + sizeofFldHdr) maxSize = none) :
    (strFldSize api mem fld maxSize).1 = api.invalidFldSz := by
  unfold strFldSize memchr
  split_ifs with hmax
  · rfl
  · simp only [hfind]

theorem nextFldSize_of_some {p : MsgFromTSParser} {maxSize n : ℕ}
    (hmax : sizeofFldHdr < maxSize)
    (hsize : fieldSize api (p.data.read p.offset maxSize) = some n) :
    (p.nextFldSize api maxSize).1 = n ∧
      ∀ i ∈ (p.nextFldSize api maxSize).2, p.offset ≤ i ∧ i < p.offset + n := by
  obtain ⟨-, data, k, htype, hk, rfl⟩ := (fieldSize_eq_some_iff api).mp hsize
  rw [← getType_eq_of_read hmax.le] at htype
  rw [nextFldSize_eq, htype]
  cases data with
  | fixed m =>
      simp only [FieldData.size?, Option.ite_none_right_eq_some,
        Option.some.injEq] at hk
      simp only [fieldFixedSize, hk.2, List.mem_singleton, forall_eq, true_and]
      simp only [sizeofFldHdr]
      omega
  | terminated =>
      simp only [FieldData.size?, Option.map_eq_some_iff] at hk
      obtain ⟨i, hfind, rfl⟩ := hk
      rw [Memory.drop_read _ hmax.le] at hfind
      have hlt := Memory.find_lt p.data hfind
      have hfound := strFldSize_of_find api hmax
        (p.data.find_eq_some_of_lt hfind (show i < maxSize by omega))
      simp only [hfound, List.mem_cons, List.mem_range'_1]
      refine ⟨rfl, ?_⟩
      simp only [sizeofFldHdr]
      omega

theorem nextFldSize_of_none {p : MsgFromTSParser} {maxSize : ℕ}
    (hmax : sizeofFldHdr < maxSize)
    (hsize : fieldSize api (p.data.read p.offset maxSize) = none) :
    (p.nextFldSize api maxSize).1 = api.invalidFldSz ∨
      (maxSize : ℤ) < (p.nextFldSize api maxSize).1 := by
  unfold fieldSize at hsize
  rw [if_neg (by simpa using hmax.le), ← getType_eq_of_read hmax.le] at hsize
  rw [nextFldSize_eq]
  cases htype : fieldData? api (FldHdr.getType api p.data p.offset) with
  | none => exact Or.inl rfl
  | some data =>
      rw [htype, Option.bind_some, Option.map_eq_none_iff,
        Memory.drop_read _ hmax.le] at hsize
      cases data with
      | fixed m =>
          right
          simp only [FieldData.size?, Memory.length_read, ite_eq_right_iff,
            reduceCtorEq, imp_false, not_le] at hsize
          simp only [fieldFixedSize]
          omega
      | terminated =>
          simp only [FieldData.size?, Option.map_eq_none_iff] at hsize
          cases hfind : p.data.find 0 (p.offset + sizeofFldHdr) maxSize with
          | none => exact Or.inl (strFldSize_of_not_find hfind)
          | some i =>
              right
              simp only [strFldSize_of_find api hmax hfind]
              by_contra hfits
              have hi : i < maxSize - sizeofFldHdr := by omega
              have hnear := p.data.find_eq_some_of_lt hfind hi
              rw [Memory.find, hsize] at hnear
              contradiction

theorem nextFld_eq {p : MsgFromTSParser} (hoffset : p.offset ≤ p.bodyEnd) :
    p.nextFld api =
      if p.rest.length ≤ sizeofFldHdr then (.invalidMaxSize, p)
      else
        let scan := p.nextFldSize api p.rest.length
        let seen := p.examined ++ scan.2
        if scan.1 = api.invalidFldSz then
          (.sizeNotCalculated, { p with examined := seen })
        else if scan.1 < (p.rest.length : ℤ) then
          (.nextField, { p with
            examined := seen
            currentNumFields := p.currentNumFields + 1
            offset := p.offset + scan.1.toNat })
        else if scan.1 = (p.rest.length : ℤ) then
          (.lastField (p.currentNumFields + 1 ≠ p.numFields), { p with
            examined := seen
            currentNumFields := p.currentNumFields + 1 })
        else
          (.sizeTooBig, { p with examined := seen }) := by
  have hmax : ((p.bodySize + sizeofMsgHeader : ℕ) : ℤ) - (p.offset : ℤ) =
      (p.rest.length : ℤ) := by
    simp only [rest, bodyEnd, Memory.length_read] at *
    omega
  simp only [nextFld, hmax, Int.toNat_natCast, Nat.cast_le]

theorem nextFldSize_rest_of_some {p : MsgFromTSParser} {n : ℕ}
    (hsize : fieldSize api p.rest = some n) :
    sizeofFldHdr < p.rest.length ∧
      (p.nextFldSize api p.rest.length).1 = n ∧
      (n : ℤ) ≠ api.invalidFldSz ∧
      ∀ i ∈ (p.nextFldSize api p.rest.length).2,
        p.offset ≤ i ∧ i < p.offset + n := by
  have hlt := lt_of_fieldSize hsize
  have hle := (fieldCode api).size_le hsize
  have hinvalid := api.invalidFldSz_nonpos
  unfold rest at hsize hle ⊢
  rw [Memory.length_read] at hle ⊢
  obtain ⟨hscan, hseen⟩ := nextFldSize_of_some (by omega) hsize
  exact ⟨by omega, hscan, by omega, hseen⟩

theorem nextFld_of_word_lt {p : MsgFromTSParser} {n : ℕ}
    (hoffset : p.offset ≤ p.bodyEnd) (hsize : fieldSize api p.rest = some n)
    (hlt : n < p.rest.length) :
    ∃ seen, (∀ i ∈ seen, p.offset ≤ i ∧ i < p.offset + n) ∧
      p.nextFld api = (.nextField, { p with
        examined := p.examined ++ seen
        currentNumFields := p.currentNumFields + 1
        offset := p.offset + n }) := by
  obtain ⟨hmax, hscan, hvalid, hseen⟩ := nextFldSize_rest_of_some hsize
  refine ⟨_, hseen, ?_⟩
  rw [nextFld_eq hoffset, if_neg (by omega)]
  simp only [hscan]
  rw [if_neg hvalid, if_pos (by omega), Int.toNat_natCast]

theorem nextFld_of_word_eq {p : MsgFromTSParser} {n : ℕ}
    (hoffset : p.offset ≤ p.bodyEnd) (hsize : fieldSize api p.rest = some n)
    (hlast : n = p.rest.length) :
    ∃ seen, (∀ i ∈ seen, p.offset ≤ i ∧ i < p.offset + n) ∧
      p.nextFld api =
        (.lastField (p.currentNumFields + 1 ≠ p.numFields), { p with
          examined := p.examined ++ seen
          currentNumFields := p.currentNumFields + 1 }) := by
  obtain ⟨hmax, hscan, hvalid, hseen⟩ := nextFldSize_rest_of_some hsize
  refine ⟨_, hseen, ?_⟩
  rw [nextFld_eq hoffset, if_neg (by omega)]
  simp only [hscan]
  rw [if_neg hvalid, if_neg (by omega), if_pos (by omega)]

theorem nextFld_of_rest {p : MsgFromTSParser}
    (hoffset : p.offset ≤ p.bodyEnd) (hsize : fieldSize api p.rest = none) :
    ∃ stop seen, stop ≠ .nextField ∧ (∀ d, stop ≠ .lastField d) ∧
      p.nextFld api = (stop, { p with examined := p.examined ++ seen }) := by
  rw [nextFld_eq hoffset]
  by_cases hmax : p.rest.length ≤ sizeofFldHdr
  · exact ⟨.invalidMaxSize, [], by simp, by simp, by simp [hmax]⟩
  · rw [if_neg hmax]
    have hscan : (p.nextFldSize api p.rest.length).1 = api.invalidFldSz ∨
        (p.rest.length : ℤ) < (p.nextFldSize api p.rest.length).1 :=
      nextFldSize_of_none (by omega) (by simpa [rest] using hsize)
    by_cases hvalid : (p.nextFldSize api p.rest.length).1 = api.invalidFldSz
    · exact ⟨.sizeNotCalculated, _, by simp, by simp, if_pos hvalid⟩
    · have hbig := hscan.resolve_left hvalid
      refine ⟨.sizeTooBig, (p.nextFldSize api p.rest.length).2,
        by simp, by simp, ?_⟩
      simp only
      rw [if_neg hvalid, if_neg (by omega), if_neg (by omega)]

/-! ## The whole scan -/

/-- The blocks whose starts are pushed: the complete fields, and what is left
over, which is pushed before its size is looked at.  An empty body still pushes
its start. -/
def pushedBlocks (parsed : List (List Byte) × List Byte) : List (List Byte) :=
  if parsed.2 = [] ∧ parsed.1 ≠ [] then parsed.1 else parsed.1 ++ [parsed.2]

theorem pushedBlocks_cons {w rest : List Byte} {ws : List (List Byte)}
    (hne : ws.flatten ++ rest ≠ []) :
    pushedBlocks (w :: ws, rest) = w :: pushedBlocks (ws, rest) := by
  unfold pushedBlocks
  by_cases hrest : rest = []
  · have hws : ws ≠ [] := by
      rintro rfl
      simp [hrest] at hne
    simp [hrest, hws]
  · simp [hrest]

/-- What the loop has done when it stops, told by the cut of the remaining body
into fields. -/
structure ScanResult (api : Espd) (p : MsgFromTSParser) (stop : NextFld)
    (q : MsgFromTSParser) : Prop where
  data_eq : q.data = p.data
  bodySize_eq : q.bodySize = p.bodySize
  numFields_eq : q.numFields = p.numFields
  msgType_eq : q.msgType = p.msgType
  fields_eq :
    q.fields = p.fields ++
      blockStarts p.offset (pushedBlocks ((fieldCode api).parse p.rest))
  currentNumFields_eq :
    q.currentNumFields =
      p.currentNumFields + UInt16.ofNat ((fieldCode api).parse p.rest).1.length
  stop_eq :
    ((fieldCode api).parse p.rest).2 = [] → p.rest ≠ [] →
      stop = .lastField (q.currentNumFields ≠ q.numFields)
  examined_bound :
    ((fieldCode api).parse p.rest).2 = [] → p.rest ≠ [] →
      ∃ seen, q.examined = p.examined ++ seen ∧ ∀ i ∈ seen, i < p.bodyEnd

theorem bodyEnd_eq_of_rest {p : MsgFromTSParser} (hoffset : p.offset ≤ p.bodyEnd) :
    p.bodyEnd = p.offset + p.rest.length := by
  simp only [rest, Memory.length_read]
  omega

theorem rest_next {p : MsgFromTSParser} (hoffset : p.offset ≤ p.bodyEnd) {n : ℕ}
    (hle : n ≤ p.rest.length) (fields examined : List ℕ) (currentNumFields : UInt16) :
    rest { p with
      fields := fields
      examined := examined
      currentNumFields := currentNumFields
      offset := p.offset + n } = p.rest.drop n := by
  have hend := bodyEnd_eq_of_rest hoffset
  unfold rest
  rw [Memory.drop_read _ (by omega), ← Nat.sub_add_eq]
  rfl

theorem scanResult_of_rest {p : MsgFromTSParser} {stop : NextFld} {seen : List ℕ}
    (hsize : fieldSize api p.rest = none) :
    ScanResult api p stop
      { p with fields := p.fields ++ [p.offset], examined := p.examined ++ seen } := by
  have hparse := (fieldCode api).parse_of_none hsize
  constructor
  · rfl
  · rfl
  · rfl
  · rfl
  · simp [hparse, pushedBlocks]
  · simp [hparse]
  · intro hnil hne
    simp [hparse, hne] at hnil
  · intro hnil hne
    simp [hparse, hne] at hnil

theorem scanResult_of_last {p : MsgFromTSParser} {seen : List ℕ}
    (hoffset : p.offset ≤ p.bodyEnd)
    (hsize : fieldSize api p.rest = some p.rest.length)
    (hseen : ∀ i ∈ seen, p.offset ≤ i ∧ i < p.offset + p.rest.length) :
    ScanResult api p (.lastField (p.currentNumFields + 1 ≠ p.numFields))
      { p with
        fields := p.fields ++ [p.offset]
        examined := p.examined ++ seen
        currentNumFields := p.currentNumFields + 1 } := by
  have hparse : (fieldCode api).parse p.rest = ([p.rest], []) := by
    have hcut := (fieldCode api).parse_word_append (w := p.rest) hsize []
    simpa using hcut
  constructor
  · rfl
  · rfl
  · rfl
  · rfl
  · simp [hparse, pushedBlocks]
  · simp [hparse]
  · intro _ _
    rfl
  · intro _ _
    refine ⟨seen, rfl, ?_⟩
    intro i hi
    rw [bodyEnd_eq_of_rest hoffset]
    exact (hseen i hi).2

theorem scanResult_cons {p q : MsgFromTSParser} {stop : NextFld} {n : ℕ}
    {seen : List ℕ} (hoffset : p.offset ≤ p.bodyEnd)
    (hsize : fieldSize api p.rest = some n) (hlt : n < p.rest.length)
    (hseen : ∀ i ∈ seen, p.offset ≤ i ∧ i < p.offset + n)
    (hrest : ScanResult api
      { p with
        fields := p.fields ++ [p.offset]
        examined := p.examined ++ seen
        currentNumFields := p.currentNumFields + 1
        offset := p.offset + n } stop q) :
    ScanResult api p stop q := by
  have hend := bodyEnd_eq_of_rest hoffset
  have hnext := rest_next hoffset hlt.le (p.fields ++ [p.offset]) (p.examined ++ seen)
    (p.currentNumFields + 1)
  have hne : p.rest.drop n ≠ [] := by
    intro hnil
    have := congrArg List.length hnil
    simp only [List.length_drop, List.length_nil] at this
    omega
  have hparse : (fieldCode api).parse p.rest = _ :=
    (fieldCode api).parse_of_some hsize
  have hlen : (p.rest.take n).length = n := by
    rw [List.length_take]
    omega
  have hsplit := (fieldCode api).flatten_parse_append (p.rest.drop n)
  have hfields := hrest.fields_eq
  have hcount := hrest.currentNumFields_eq
  have hstop := hrest.stop_eq
  have hexamined := hrest.examined_bound
  rw [hnext] at hfields hcount hstop hexamined
  constructor
  · exact hrest.data_eq
  · exact hrest.bodySize_eq
  · exact hrest.numFields_eq
  · exact hrest.msgType_eq
  · rw [hfields, hparse, pushedBlocks_cons (by rw [hsplit]; exact hne),
      blockStarts_cons, hlen, List.append_assoc]
    rfl
  · rw [hcount, hparse, List.length_cons]
    apply UInt16.toNat_inj.mp
    simp
    omega
  · intro hnil _
    rw [hparse] at hnil
    exact hstop hnil hne
  · intro hnil _
    rw [hparse] at hnil
    obtain ⟨later, hlater, hbound⟩ := hexamined hnil hne
    refine ⟨seen ++ later, by rw [hlater, List.append_assoc], ?_⟩
    intro i hi
    rcases List.mem_append.mp hi with hmem | hmem
    · have := (hseen i hmem).2
      omega
    · exact hbound i hmem

theorem parseLoop_of_stop {fuel : ℕ} {p q : MsgFromTSParser} {stop : NextFld}
    (hstop : stop ≠ .nextField) (hnext : p.pushPos.nextFld api = (stop, q)) :
    parseLoop api (fuel + 1) p = some (stop, q) := by
  rw [parseLoop, hnext]
  cases stop with
  | nextField => exact absurd rfl hstop
  | invalidMaxSize => rfl
  | sizeNotCalculated => rfl
  | lastField discrepancy => rfl
  | sizeTooBig => rfl

variable (api) in
/-- The loop ends, and it has pushed the starts of the blocks of the body. -/
theorem parseLoop_spec {fuel : ℕ} {p : MsgFromTSParser}
    (hoffset : p.offset ≤ p.bodyEnd) (hfuel : p.rest.length < fuel) :
    ∃ stop q, parseLoop api fuel p = some (stop, q) ∧
      ScanResult api p stop q := by
  induction fuel generalizing p with
  | zero => omega
  | succ fuel ih =>
      cases hsize : fieldSize api p.rest with
      | none =>
          obtain ⟨stop, seen, hnext, -, hscan⟩ :=
            nextFld_of_rest (p := p.pushPos) hoffset hsize
          refine ⟨stop, _, parseLoop_of_stop hnext hscan, ?_⟩
          exact scanResult_of_rest hsize
      | some n =>
          have hle : n ≤ p.rest.length := (fieldCode api).size_le hsize
          have hhdr := lt_of_fieldSize hsize
          rcases Nat.lt_or_eq_of_le hle with hlt | rfl
          · obtain ⟨seen, hseen, hscan⟩ :=
              nextFld_of_word_lt (p := p.pushPos) hoffset hsize hlt
            have hend := bodyEnd_eq_of_rest hoffset
            let next : MsgFromTSParser := { p with
              fields := p.fields ++ [p.offset]
              examined := p.examined ++ seen
              currentNumFields := p.currentNumFields + 1
              offset := p.offset + n }
            have hinside : next.offset ≤ next.bodyEnd := by
              simp only [next, bodyEnd] at hend ⊢
              omega
            have hnext : next.rest = p.rest.drop n := rest_next hoffset hlt.le _ _ _
            have hless : next.rest.length < fuel := by
              rw [hnext, List.length_drop]
              omega
            obtain ⟨stop, q, hloop, hresult⟩ := ih hinside hless
            refine ⟨stop, q, ?_, scanResult_cons hoffset hsize hlt hseen hresult⟩
            rw [parseLoop, hscan]
            exact hloop
          · obtain ⟨seen, hseen, hscan⟩ :=
              nextFld_of_word_eq (p := p.pushPos) hoffset hsize rfl
            refine ⟨_, _, parseLoop_of_stop (by simp) hscan, ?_⟩
            exact scanResult_of_last hoffset hsize hseen

def body (api : Espd) (data : Memory Byte) : List Byte :=
  data.read sizeofMsgHeader (MsgHeader.getLength api data).toNat

theorem parseBuffer_spec (api : Espd) (p : MsgFromTSParser)
    (data : Memory Byte) (offset : ℕ) :
    ∃ stop q, parseBuffer api (p.reset api data offset) = some (stop, q) ∧
      q.data = data ∧
      q.bodySize = (MsgHeader.getLength api data).toNat ∧
      q.numFields = MsgHeader.getNumFields api data ∧
      q.msgType = MsgHeader.getMessageType api data ∧
      q.fields = blockStarts sizeofMsgHeader
        (pushedBlocks ((fieldCode api).parse (body api data))) ∧
      q.currentNumFields =
        UInt16.ofNat ((fieldCode api).parse (body api data)).1.length ∧
      (((fieldCode api).parse (body api data)).2 = [] → body api data ≠ [] →
        stop = .lastField (q.currentNumFields ≠ q.numFields) ∧
          ∀ i ∈ q.examined, i < sizeofMsgHeader + q.bodySize) := by
  let start := ((p.reset api data offset).setHeader api).firstFld
  have hend : start.bodyEnd =
      sizeofMsgHeader + (MsgHeader.getLength api data).toNat := by
    simp only [start, bodyEnd, firstFld, setHeader, reset]
    omega
  have hrest : start.rest = body api data := by
    unfold rest body
    rw [hend]
    simp [start, firstFld, setHeader, reset]
  have hoffset : start.offset ≤ start.bodyEnd := by
    rw [hend]
    simp [start, firstFld]
  have hfuel : start.rest.length < start.bodySize + 1 := by
    rw [hrest, body, Memory.length_read]
    simp [start, firstFld, setHeader, reset]
  obtain ⟨stop, q, hloop, hscan⟩ := parseLoop_spec api hoffset hfuel
  have hfields := hscan.fields_eq
  have hcount := hscan.currentNumFields_eq
  have hstop := hscan.stop_eq
  have hexamined := hscan.examined_bound
  rw [hrest] at hfields hcount hstop hexamined
  refine ⟨stop, q, hloop, hscan.data_eq, hscan.bodySize_eq, hscan.numFields_eq,
    hscan.msgType_eq, ?_, ?_, ?_⟩
  · simpa [start, firstFld, setHeader, reset] using hfields
  · simpa [start, firstFld, setHeader, reset] using hcount
  · intro hnil hne
    refine ⟨hstop hnil hne, ?_⟩
    obtain ⟨seen, hseen, hbound⟩ := hexamined hnil hne
    have hbody : q.bodySize = (MsgHeader.getLength api data).toNat :=
      hscan.bodySize_eq
    intro i hi
    rw [hseen] at hi
    rcases List.mem_append.mp hi with hmem | hmem
    · simp only [start, firstFld, setHeader, reset, List.nil_append,
        List.mem_cons, List.not_mem_nil, or_false] at hmem
      simp only [sizeofMsgHeader]
      omega
    · have := hbound i hmem
      omega

end MsgFromTSParser

end CppPlay.FixAdapter
