import CppPlay.FixAdapter.Containment
import CppPlay.FixAdapter.MsgFromTs
import CppPlay.Lib.Threads

/-!
# Which type a field is read with

The parser takes the size of a field from the type in its header.  The actions and
`findFieldData` take the type to read from the field's id, and never look at the header's.
-/

namespace CppPlay.FixAdapter

open CppPlay.Lib

/-- A position pushed by the parser with the length of its block. -/
structure GivenField where
  pos : ℕ
  size : ℕ
  deriving DecidableEq

def fieldsFrom (start : ℕ) : List (List Byte) → List GivenField
  | [] => []
  | block :: blocks => ⟨start, block.length⟩ :: fieldsFrom (start + block.length) blocks

/-- The offsets that `MsgField<MsgFieldT<type>>::get_data` looks at: a `std::string` is
made from a `char*`, up to the first terminator wherever it is. -/
def MsgField.offsets (mem : Memory Byte) (fld : ℕ) (type : FieldType) : Set ℕ :=
  match type.nativeSize? with
  | some n => {o | fld + sizeofFldHdr ≤ o ∧ o < fld + sizeofFldHdr + n}
  | none =>
      if type = .string then
        {o | fld + sizeofFldHdr ≤ o ∧ ∀ i, fld + sizeofFldHdr ≤ i → i < o → mem i ≠ 0}
      else ∅

def FieldType.Readable (type : FieldType) : Prop :=
  type.nativeSize? ≠ none ∨ type = .string

def FixAction.reads : FixAction → Option FieldType
  | .dummyAction => none
  | .act id => Act.type id

section Accesses

variable (api : Espd)

def givenFields (data : Memory Byte) : List GivenField :=
  fieldsFrom sizeofMsgHeader (MsgFromTSParser.pushedBlocks
    ((fieldCode api).parse (MsgFromTSParser.body api data)))

/-- The actions that `manageActions` runs and the positions it gives them, up to a
`push_back` that moves the vector. -/
def actionsRun (cmd : NotifyCmd) (capacity : ℕ) (data : Memory Byte) :
    List ℕ → List CachedAction → List CachedAction → List (FixAction × ℕ)
  | [], _, _ => []
  | pos :: fields, visited, [] =>
      let id := FldHdr.getId api data pos
      let action := getFixAction api cmd id
      if visited.length < capacity then
        (action, pos) :: actionsRun cmd capacity data fields
          (visited ++ [⟨data.read pos 2, id, some action⟩]) []
      else []
  | pos :: fields, visited, cached :: ahead =>
      let cached : CachedAction :=
        if cached.bigId ≠ data.read pos 2 then
          ⟨data.read pos 2, FldHdr.getId api data pos, none⟩
        else cached
      let action := cached.action.getD (getFixAction api cmd cached.id)
      (action, pos) :: actionsRun cmd capacity data fields
        (visited ++ [{ cached with action := some action }]) ahead

/-- `findFieldData<MsgFieldT<type>>(id)`; `none` is the value-initialised result. -/
def findFieldDataOf (p : MsgFromTSParser) (type : FieldType) (id : UInt16) : Option FieldValue :=
  (p.fields.find? fun pos => FldHdr.getId api p.data pos = id).bind fun pos =>
    MsgField.getData api p.data pos type

def foundField (data : Memory Byte) (id : UInt16) : Option GivenField :=
  (givenFields api data).find? fun f => FldHdr.getId api data f.pos = id

def searchedFields (data : Memory Byte) (id : UInt16) : List GivenField :=
  (givenFields api data).takeWhile (fun f => FldHdr.getId api data f.pos ≠ id) ++
    (foundField api data id).toList

/-! ## The property and its condition -/

/-- The data of the field is read as what the field declares and nowhere else. -/
structure TypedRead (data : Memory Byte) (f : GivenField) (type : FieldType) : Prop where
  declared : FldHdr.getType api data f.pos = api.fieldTypeCode type
  inside : ∀ o ∈ MsgField.offsets data f.pos type, f.pos ≤ o ∧ o < f.pos + f.size

def ActionsTyped (cmd : NotifyCmd) (mgr : TSNotifyManager) (data : Memory Byte) : Prop :=
  ∀ r ∈ (actionsRun api cmd mgr.capacity data (parsed api data).fields []
      (mgr.actionMaps cmd)).zip (givenFields api data),
    ∀ type, r.1.1.reads = some type → TypedRead api data r.2 type

def FindTyped (type : FieldType) (id : UInt16) (data : Memory Byte) : Prop :=
  (∀ f ∈ searchedFields api data id, ∀ o, f.pos ≤ o → o < f.pos + 2 → o < f.pos + f.size) ∧
    ∀ f, foundField api data id = some f → TypedRead api data f type

structure WholeField (data : Memory Byte) (f : GivenField) (type : FieldType) : Prop where
  declared : FldHdr.getType api data f.pos = api.fieldTypeCode type
  complete : (fieldCode api).IsWord (data.read f.pos f.size)

/-- Every field that the command has an action for is complete and of the action's type. -/
def ActedOnWhole (cmd : NotifyCmd) (capacity : ℕ) (data : Memory Byte) : Prop :=
  ∀ f ∈ (givenFields api data).take capacity, ∀ type,
    (actionAt api cmd data f.pos).reads = some type → WholeField api data f type

/-- The ids that are compared lie in the message, and the field with that id is complete
and of that type. -/
def FoundWhole (type : FieldType) (id : UInt16) (data : Memory Byte) : Prop :=
  (∀ f ∈ searchedFields api data id, 2 ≤ f.size) ∧
    ∀ f, foundField api data id = some f → WholeField api data f type

end Accesses

variable {api : Espd} {SessionID : Type}

/-! ## The fields of a message -/

theorem map_pos_fieldsFrom (start : ℕ) (blocks : List (List Byte)) :
    (fieldsFrom start blocks).map GivenField.pos = blockStarts start blocks := by
  induction blocks generalizing start with
  | nil => rfl
  | cons block blocks ih => rw [fieldsFrom, List.map_cons, ih, blockStarts_cons]

theorem map_pos_givenFields (data : Memory Byte) :
    (givenFields api data).map GivenField.pos = (parsed api data).fields := by
  rw [givenFields, map_pos_fieldsFrom]
  exact (parsed_spec api data).2.2.2.2.symm

theorem findFieldDataOf_parsed (data : Memory Byte) (type : FieldType) (id : UInt16) :
    findFieldDataOf api (parsed api data) type id =
      (foundField api data id).bind fun f => MsgField.getData api data f.pos type := by
  rw [findFieldDataOf, (parsed_spec api data).2.1, ← map_pos_givenFields, List.find?_map,
    Option.bind_map]
  rfl

theorem read_mem_of_mem_fieldsFrom {mem : Memory Byte} {start : ℕ} {blocks : List (List Byte)}
    (hread : mem.read start blocks.flatten.length = blocks.flatten) {f : GivenField}
    (hf : f ∈ fieldsFrom start blocks) : mem.read f.pos f.size ∈ blocks := by
  induction blocks generalizing start with
  | nil => exact absurd hf List.not_mem_nil
  | cons block blocks ih =>
      rw [List.flatten_cons, List.length_append] at hread
      obtain ⟨_, hblock, hrest⟩ := mem.read_eq_append_iff.mp hread
      rcases List.mem_cons.mp hf with rfl | hlater
      · rw [hblock]
        exact List.mem_cons_self
      · exact List.mem_cons_of_mem _ (ih hrest hlater)

variable (api) in
theorem flatten_pushedBlocks (xs : List Byte) :
    (MsgFromTSParser.pushedBlocks ((fieldCode api).parse xs)).flatten = xs := by
  have hsplit := (fieldCode api).flatten_parse_append xs
  rw [MsgFromTSParser.pushedBlocks]
  split_ifs with hwhole
  · rw [hwhole.1, List.append_nil] at hsplit
    exact hsplit
  · rw [List.flatten_append, List.flatten_singleton]
    exact hsplit

/-- What is pushed is a complete field or has no field at its front. -/
theorem size_of_mem_givenFields {data : Memory Byte} {f : GivenField}
    (hf : f ∈ givenFields api data) :
    (fieldCode api).IsWord (data.read f.pos f.size) ∨
      fieldSize api (data.read f.pos f.size) = none := by
  have hflatten := flatten_pushedBlocks api (MsgFromTSParser.body api data)
  have hblock : data.read f.pos f.size ∈ MsgFromTSParser.pushedBlocks
      ((fieldCode api).parse (MsgFromTSParser.body api data)) := by
    apply read_mem_of_mem_fieldsFrom _ hf
    rw [hflatten, MsgFromTSParser.body, Memory.length_read]
  have hmem : data.read f.pos f.size ∈ ((fieldCode api).parse (MsgFromTSParser.body api data)).1 ∨
      data.read f.pos f.size = ((fieldCode api).parse (MsgFromTSParser.body api data)).2 := by
    rw [MsgFromTSParser.pushedBlocks] at hblock
    split_ifs at hblock
    · exact Or.inl hblock
    · rcases List.mem_append.mp hblock with hword | hrest
      · exact Or.inl hword
      · exact Or.inr (List.mem_singleton.mp hrest)
  rcases hmem with hword | hrest
  · exact Or.inl ((fieldCode api).isWord_of_mem_parse hword)
  · rw [hrest]
    exact Or.inr ((fieldCode api).size_parse_snd _)

/-! ## One read -/

theorem mem_offsets_of_native {mem : Memory Byte} {fld n o : ℕ} {type : FieldType}
    (hn : type.nativeSize? = some n) :
    o ∈ MsgField.offsets mem fld type ↔
      fld + sizeofFldHdr ≤ o ∧ o < fld + sizeofFldHdr + n := by
  rw [MsgField.offsets, hn]
  rfl

theorem mem_offsets_string {mem : Memory Byte} {fld o : ℕ} :
    o ∈ MsgField.offsets mem fld .string ↔
      fld + sizeofFldHdr ≤ o ∧ ∀ i, fld + sizeofFldHdr ≤ i → i < o → mem i ≠ 0 := Iff.rfl

theorem getData_eq_of_offsets {mem mem' : Memory Byte} {fld : ℕ} {type : FieldType}
    (hsame : ∀ o ∈ MsgField.offsets mem fld type, mem o = mem' o) :
    MsgField.getData api mem fld type = MsgField.getData api mem' fld type := by
  have hread : ∀ n, type.nativeSize? = some n →
      mem.read (fld + sizeofFldHdr) n = mem'.read (fld + sizeofFldHdr) n := by
    intro n hn
    apply Memory.read_congr
    intro i hlow hhigh
    exact hsame i ((mem_offsets_of_native hn).mpr ⟨hlow, hhigh⟩)
  cases type with
  | uint32 => simp only [MsgField.getData, hread 4 rfl]
  | int32 => simp only [MsgField.getData, hread 4 rfl]
  | byte => simp only [MsgField.getData, hread 1 rfl]
  | decimal => simp only [MsgField.getData, hread 8 rfl]
  | string =>
      have hstring : cString api mem (fld + sizeofFldHdr) =
          cString api mem' (fld + sizeofFldHdr) := by
        apply Memory.takeWhile_read_congr_of_kept
        intro i hi hkept
        exact hsame i ⟨hi, fun j hlow hhigh => by simpa using hkept j hlow hhigh⟩
      simp only [MsgField.getData, hstring]
  | int8 => rfl
  | int16 => rfl
  | uint16 => rfl
  | datetime => rfl
  | buffer => rfl
  | bytestream => rfl
  | empty => rfl

/-- The parser's size rule and the readers agree on every type. -/
theorem fieldData?_of_readable {type : FieldType} (hreadable : type.Readable) :
    fieldData? api (api.fieldTypeCode type) =
      some (match type.nativeSize? with
        | some n => .fixed n
        | none => .terminated) := by
  have hcode : ∀ other, api.fieldTypeCode type = api.fieldTypeCode other ↔ type = other :=
    fun other => api.fieldTypeCode_injective.eq_iff
  simp only [fieldData?, hcode]
  cases type with
  | buffer => simp [FieldType.Readable, FieldType.nativeSize?] at hreadable
  | bytestream => simp [FieldType.Readable, FieldType.nativeSize?] at hreadable
  | empty => simp [FieldType.Readable, FieldType.nativeSize?] at hreadable
  | _ => rfl

theorem nativeSize_pos {type : FieldType} {n : ℕ} (hn : type.nativeSize? = some n) : 0 < n := by
  cases type <;> simp [FieldType.nativeSize?] at hn <;> omega

/-- A block that declares the type is a field as soon as its data fit. -/
theorem fieldSize_of_declared {data : Memory Byte} {pos size k : ℕ} {type : FieldType}
    (hreadable : type.Readable) (hsize : sizeofFldHdr ≤ size)
    (hdeclared : FldHdr.getType api data pos = api.fieldTypeCode type) :
    fieldSize api (data.read pos size) = some (sizeofFldHdr + k) ↔
      (match type.nativeSize? with
        | some n => FieldData.fixed n
        | none => .terminated).size? (data.read (pos + sizeofFldHdr) (size - sizeofFldHdr)) =
          some k := by
  have htype : api.uespd8.load (((data.read pos size).drop 2).take 1) =
      api.fieldTypeCode type := by
    simp only [sizeofFldHdr] at hsize
    rw [Memory.drop_read _ (by omega), Memory.take_read _ (by omega)]
    exact hdeclared
  rw [fieldSize_eq_some_iff, htype, fieldData?_of_readable hreadable, Memory.length_read,
    Memory.drop_read _ hsize]
  simp [hsize]

theorem inside_of_complete {data : Memory Byte} {f : GivenField} {type : FieldType}
    (hreadable : type.Readable) (hwhole : WholeField api data f type) :
    ∀ o ∈ MsgField.offsets data f.pos type, f.pos ≤ o ∧ o < f.pos + f.size := by
  have hword : fieldSize api (data.read f.pos f.size) = some f.size := by
    have hcomplete := hwhole.complete
    rwa [PrefixCode.IsWord, Memory.length_read] at hcomplete
  obtain ⟨k, hk⟩ := Nat.exists_eq_add_of_lt (lt_of_fieldSize hword)
  have hsize : sizeofFldHdr ≤ f.size := (lt_of_fieldSize hword).le
  have hlength : f.size = sizeofFldHdr + (k + 1) := by omega
  have hdata := hword
  nth_rewrite 2 [hlength] at hdata
  rw [fieldSize_of_declared hreadable hsize hwhole.declared] at hdata
  intro o ho
  cases hnative : type.nativeSize? with
  | some n =>
      rw [mem_offsets_of_native hnative] at ho
      simp only [hnative, FieldData.size?, Memory.length_read, Option.ite_none_right_eq_some,
        Option.some.injEq] at hdata
      omega
  | none =>
      obtain rfl : type = .string := hreadable.resolve_left (not_not.mpr hnative)
      rw [mem_offsets_string] at ho
      simp only [hnative, FieldData.size?, Option.map_eq_some_iff, add_left_inj,
        exists_eq_right] at hdata
      obtain ⟨hlt, hzero⟩ := (Memory.find_eq_some_iff data).mp hdata
      refine ⟨by omega, ?_⟩
      by_contra hpast
      exact ho.2 (f.pos + sizeofFldHdr + k) (by omega) (by omega) hzero.1

theorem complete_of_inside {data : Memory Byte} {f : GivenField} {type : FieldType}
    (hreadable : type.Readable) (hf : f ∈ givenFields api data)
    (htyped : TypedRead api data f type) : (fieldCode api).IsWord (data.read f.pos f.size) := by
  apply (size_of_mem_givenFields hf).resolve_right
  intro hnone
  have hinside := htyped.inside
  have hno : ∀ k, sizeofFldHdr ≤ f.size →
      (match type.nativeSize? with
        | some n => FieldData.fixed n
        | none => .terminated).size?
          (data.read (f.pos + sizeofFldHdr) (f.size - sizeofFldHdr)) ≠ some k := by
    intro k hsize hdata
    rw [← fieldSize_of_declared hreadable hsize htyped.declared, hnone] at hdata
    exact absurd hdata (by simp)
  cases hnative : type.nativeSize? with
  | some n =>
      have hpos := nativeSize_pos hnative
      have hlast := hinside (f.pos + sizeofFldHdr + n - 1)
        ((mem_offsets_of_native hnative).mpr (by omega))
      apply hno n (by omega)
      simp only [hnative, FieldData.size?, Memory.length_read]
      exact if_pos (by omega)
  | none =>
      obtain rfl : type = .string := hreadable.resolve_left (not_not.mpr hnative)
      have hoffsets : ∀ o, f.pos + sizeofFldHdr ≤ o →
          (∀ i, f.pos + sizeofFldHdr ≤ i → i < o → data i ≠ 0) → o < f.pos + f.size := by
        intro o hlow hkept
        exact (hinside o (mem_offsets_string.mpr ⟨hlow, hkept⟩)).2
      have hfirst := hoffsets (f.pos + sizeofFldHdr) le_rfl fun i hlow hhigh => by omega
      have hterminated : ∃ i, data.find 0 (f.pos + sizeofFldHdr) (f.size - sizeofFldHdr) =
          some i := by
        rw [← Option.isSome_iff_exists, Option.isSome_iff_ne_none]
        intro hfind
        rw [Memory.find, List.findIdx?_eq_none_iff] at hfind
        apply lt_irrefl (f.pos + f.size)
        apply hoffsets (f.pos + f.size) (by omega)
        intro i hlow hhigh hzero
        have hmem : data i ∈ data.read (f.pos + sizeofFldHdr) (f.size - sizeofFldHdr) := by
          rw [Memory.read, List.mem_map]
          exact ⟨i, List.mem_range'_1.mpr ⟨hlow, by omega⟩, rfl⟩
        simpa [hzero] using hfind _ hmem
      obtain ⟨i, hi⟩ := hterminated
      apply hno (i + 1) (by omega)
      simp only [hnative, FieldData.size?, Option.map_eq_some_iff]
      exact ⟨i, hi, rfl⟩

theorem typedRead_iff_wholeField {data : Memory Byte} {f : GivenField} {type : FieldType}
    (hreadable : type.Readable) (hf : f ∈ givenFields api data) :
    TypedRead api data f type ↔ WholeField api data f type :=
  ⟨fun htyped => ⟨htyped.declared, complete_of_inside hreadable hf htyped⟩,
    fun hwhole => ⟨hwhole.declared, inside_of_complete hreadable hwhole⟩⟩

/-! ## The actions that run -/

/-- Each field gets the action of its own id until the cache is full, whatever earlier
messages left in it, and the report is the work of these actions. -/
theorem actionsRun_spec (fix : QuickFix SessionID) {cmd : NotifyCmd} {capacity : ℕ}
    (data : Memory Byte) (fields : List ℕ) {visited ahead : List CachedAction} (wr : FixMsgWr)
    (hcache : CacheOk api cmd (visited ++ ahead))
    (hroom : visited.length + ahead.length ≤ capacity) :
    actionsRun api cmd capacity data fields visited ahead =
        (fields.take (capacity - visited.length)).map
          (fun pos => (actionAt api cmd data pos, pos)) ∧
      ∀ actions wr', manageActions api fix cmd capacity data fields visited ahead wr =
          .ok (actions, wr') →
        CacheOk api cmd actions ∧ actions.length ≤ capacity ∧
          wr' = (actionsRun api cmd capacity data fields visited ahead).foldl
            (fun wr r => r.1.run api fix data r.2 wr) wr := by
  induction fields generalizing visited ahead wr with
  | nil =>
      rw [actionsRun, List.take_nil]
      refine ⟨rfl, fun actions wr' hok => ?_⟩
      rw [manageActions, Except.ok.injEq, Prod.mk.injEq] at hok
      rw [← hok.1, ← hok.2, List.length_append]
      exact ⟨hcache, hroom, rfl⟩
  | cons pos fields ih =>
      cases ahead with
      | nil =>
          rw [List.append_nil] at hcache
          by_cases hlt : visited.length < capacity
          · let used : CachedAction :=
              ⟨data.read pos 2, FldHdr.getId api data pos, some (actionAt api cmd data pos)⟩
            have hlength : (visited ++ [used]).length = visited.length + 1 :=
              List.length_append
            have hused : CacheOk api cmd ((visited ++ [used]) ++ []) := by
              rw [List.append_nil]
              exact cacheOk_append.mpr ⟨hcache, cacheOk_loaded cmd data pos⟩
            have hfits : (visited ++ [used]).length + ([] : List CachedAction).length ≤
                capacity := by
              rw [hlength]
              exact hlt
            have hnext := ih ((actionAt api cmd data pos).run api fix data pos wr) hused hfits
            have hcount : capacity - visited.length =
                capacity - (visited ++ [used]).length + 1 := by omega
            simp only [actionsRun, manageActions, hlt, if_true]
            rw [hcount, List.take_succ_cons, List.map_cons]
            exact ⟨congrArg _ hnext.1, hnext.2⟩
          · have hfull : capacity - visited.length = 0 := by omega
            simp [actionsRun, manageActions, hlt, hfull]
      | cons first ahead =>
          rw [List.append_cons] at hcache
          obtain ⟨hbefore, hrest⟩ := cacheOk_append.mp hcache
          obtain ⟨hvisited, hfirst⟩ := cacheOk_append.mp hbefore
          obtain ⟨used, hchoice, haction, hused⟩ := usedEntry_ok data pos hfirst
          rw [List.length_cons] at hroom
          let kept : CachedAction := { used with action := some (actionAt api cmd data pos) }
          have hlength : (visited ++ [kept]).length = visited.length + 1 := List.length_append
          have hkept : CacheOk api cmd ((visited ++ [kept]) ++ ahead) :=
            cacheOk_append.mpr ⟨cacheOk_append.mpr ⟨hvisited, hused⟩, hrest⟩
          have hfits : (visited ++ [kept]).length + ahead.length ≤ capacity := by omega
          have hnext := ih ((actionAt api cmd data pos).run api fix data pos wr) hkept hfits
          have hcount : capacity - visited.length =
              capacity - (visited ++ [kept]).length + 1 := by omega
          simp only [actionsRun, manageActions, hchoice, haction]
          rw [hcount, List.take_succ_cons, List.map_cons]
          exact ⟨congrArg _ hnext.1, hnext.2⟩

variable (api) in
/-- What every message leaves of the manager. -/
structure TSNotifyManager.Fits (mgr : TSNotifyManager) : Prop where
  caches : mgr.CachesOk api
  capacity : mgr.capacity = initFldsNum
  room : ∀ cmd, (mgr.actionMaps cmd).length ≤ initFldsNum

theorem TSNotifyManager.make_fits : (make initFldsNum).Fits api := by
  refine ⟨fun cmd cached hmem => absurd hmem List.not_mem_nil, rfl, fun cmd => Nat.zero_le _⟩

theorem TSNotifyManager.Fits.manageEspdMsg {mgr : TSNotifyManager} (hfits : mgr.Fits api)
    (fix : QuickFix SessionID) (config : SessionsInfo SessionID) (msg : NotifyMsg) :
    (mgr.manageEspdMsg api fix config msg).2.Fits api := by
  have hsound : mgr.Sound api initFldsNum := by
    refine ⟨hfits.caches, hfits.capacity, fun cmd => ?_⟩
    rw [hfits.capacity]
    exact hfits.room cmd
  have hafter : (mgr.step api fix (config, msg)).Sound api initFldsNum := hsound.step (config, msg)
  refine ⟨hafter.caches, hafter.capacity, fun cmd => ?_⟩
  have hroom := hafter.room cmd
  rw [hafter.capacity] at hroom
  exact hroom

/-! ## Runs of the converter -/

section Runs

variable [DecidableEq SessionID] (fix : QuickFix SessionID) (platform : Platform)

variable (api) in
/-- The converter and the sessions after one more message in the buffer. -/
def MsgFromTs.receive (s : MsgFromTs SessionID × SessionsInfo SessionID) (data : Memory Byte) :
    MsgFromTs SessionID × SessionsInfo SessionID :=
  (s.1.convert api fix platform s.2 (parsed api data)).2

theorem manageNotify_fits {conv : MsgFromTs SessionID} (hfits : conv.notifyMgr.Fits api)
    (config : SessionsInfo SessionID) (p : MsgFromTSParser) :
    (manageNotify api fix platform config conv p).2.notifyMgr.Fits api := by
  have hmgr := hfits.manageEspdMsg fix config (p.notifyMsg api)
  rcases hresult : conv.notifyMgr.manageEspdMsg api fix config (p.notifyMsg api) with
    ⟨result, mgr⟩
  rw [hresult] at hmgr
  rw [manageNotify, hresult]
  cases result with
  | error e => exact hmgr
  | ok info =>
      cases info with
      | none => exact hmgr
      | some report =>
          simp only
          cases getNextUniqStr platform config conv.generated report.2 with
          | error e => exact hmgr
          | ok unique => exact ⟨hmgr.caches, hmgr.capacity, hmgr.room⟩

theorem MsgFromTs.receive_fits {s : MsgFromTs SessionID × SessionsInfo SessionID}
    (hfits : s.1.notifyMgr.Fits api) (data : Memory Byte) :
    (receive api fix platform s data).1.notifyMgr.Fits api := by
  rw [receive, convert]
  split_ifs
  · exact manageNotify_fits fix platform hfits s.2 _
  · cases manageConnectReply api fix s.2 (parsed api data) with
    | error e => exact hfits
    | ok config => exact hfits
  · exact hfits

theorem MsgFromTs.run_fits (config : SessionsInfo SessionID) (earlier : List (Memory Byte)) :
    (run (receive api fix platform) (start, config) earlier).1.notifyMgr.Fits api :=
  run_invariant (fun s : MsgFromTs SessionID × SessionsInfo SessionID =>
    s.1.notifyMgr.Fits api) TSNotifyManager.make_fits
    (fun _ data hfits => receive_fits fix platform hfits data) earlier

end Runs

/-! ## Exactly when the accesses are typed -/

theorem readable_of_reads {action : FixAction} {type : FieldType}
    (hreads : action.reads = some type) : type.Readable := by
  cases action with
  | dummyAction => exact absurd hreads (by simp [FixAction.reads])
  | act id =>
      cases id <;> simp [FixAction.reads, Act.type] at hreads <;> subst hreads <;>
        simp [FieldType.Readable, FieldType.nativeSize?]

theorem zip_take_map_pos {α : Type*} (g : ℕ → α) (fs : List GivenField) (k : ℕ) :
    (((fs.map GivenField.pos).take k).map g).zip fs =
      (fs.take k).map fun f => (g f.pos, f) := by
  induction fs generalizing k with
  | nil => simp
  | cons f fs ih =>
      cases k with
      | zero => simp
      | succ k =>
          rw [List.map_cons, List.take_succ_cons, List.map_cons, List.zip_cons_cons, ih,
            List.take_succ_cons, List.map_cons]

theorem actionsTyped_iff {mgr : TSNotifyManager} (hfits : mgr.Fits api) (cmd : NotifyCmd)
    (data : Memory Byte) :
    ActionsTyped api cmd mgr data ↔ ActedOnWhole api cmd initFldsNum data := by
  have hroom : ([] : List CachedAction).length + (mgr.actionMaps cmd).length ≤ mgr.capacity := by
    rw [List.length_nil, Nat.zero_add, hfits.capacity]
    exact hfits.room cmd
  have hrun := (actionsRun_spec QuickFix.plain data (parsed api data).fields
    ⟨FixMessage.empty, 0, 0⟩ (hfits.caches cmd) hroom).1
  rw [ActionsTyped, ActedOnWhole, hrun, hfits.capacity, List.length_nil, Nat.sub_zero,
    ← map_pos_givenFields, zip_take_map_pos, List.forall_mem_map]
  apply forall₂_congr
  intro f hf
  apply forall₂_congr
  intro type hreads
  exact typedRead_iff_wholeField (readable_of_reads hreads) (List.mem_of_mem_take hf)

theorem findTyped_iff {type : FieldType} (hreadable : type.Readable) (id : UInt16)
    (data : Memory Byte) : FindTyped api type id data ↔ FoundWhole api type id data := by
  have hids : (∀ f ∈ searchedFields api data id,
      ∀ o, f.pos ≤ o → o < f.pos + 2 → o < f.pos + f.size) ↔
        ∀ f ∈ searchedFields api data id, 2 ≤ f.size := by
    apply forall₂_congr
    intro f _
    constructor
    · intro hinside
      have hlast := hinside (f.pos + 1) (by omega) (by omega)
      omega
    · intro hsize o _ ho
      omega
  rw [FindTyped, FoundWhole, hids]
  apply and_congr_right
  intro _
  apply forall₂_congr
  intro f hfound
  exact typedRead_iff_wholeField hreadable (List.mem_of_find?_eq_some hfound)

/-- After any messages, the actions for the next one read its fields as they are declared
exactly when the fields acted on are complete and of their actions' types, and so for every
search of a field. -/
theorem access_typed_iff (api : Espd) [DecidableEq SessionID] (fix : QuickFix SessionID)
    (platform : Platform) (config : SessionsInfo SessionID) (earlier : List (Memory Byte))
    (data : Memory Byte) :
    (∀ cmd, ActionsTyped api cmd
        (run (MsgFromTs.receive api fix platform) (.start, config) earlier).1.notifyMgr data ↔
      ActedOnWhole api cmd initFldsNum data) ∧
    ∀ type, type.Readable → ∀ id,
      (FindTyped api type id data ↔ FoundWhole api type id data) :=
  ⟨fun cmd => actionsTyped_iff (MsgFromTs.run_fits fix platform config earlier) cmd data,
    fun _ hreadable id => findTyped_iff hreadable id data⟩

/-- In a body of complete fields only the types can be wrong. -/
theorem actedOnWhole_of_bodyOfFields {data : Memory Byte} (hbody : BodyOfFields api data)
    (cmd : NotifyCmd) (capacity : ℕ) :
    ActedOnWhole api cmd capacity data ↔
      ∀ f ∈ (givenFields api data).take capacity, ∀ type,
        (actionAt api cmd data f.pos).reads = some type →
          FldHdr.getType api data f.pos = api.fieldTypeCode type := by
  obtain ⟨ws, hne, hws, hflatten⟩ := hbody
  have hparse := (fieldCode api).parse_flatten hws
  have hcomplete : ∀ f ∈ givenFields api data,
      (fieldCode api).IsWord (data.read f.pos f.size) := by
    intro f hf
    rw [givenFields, hflatten, hparse, MsgFromTSParser.pushedBlocks, if_pos ⟨rfl, hne⟩] at hf
    apply hws
    apply read_mem_of_mem_fieldsFrom _ hf
    rw [← hflatten, MsgFromTSParser.body, Memory.length_read]
  apply forall₂_congr
  intro f hf
  apply forall₂_congr
  intro type _
  exact ⟨fun hwhole => hwhole.declared,
    fun hdeclared => ⟨hdeclared, hcomplete f (List.mem_of_mem_take hf)⟩⟩

/-- A price declared as a byte, the only field of its message. -/
def bytePrice : Memory Byte := fun i =>
  [0, 0, 0, 0, 0, 0, 0, 0, 0, 0, 0, 0, 1, 0, 4, 0, 18, 1, 7].getD i 0

/-- The parser finds the message in order, and the action for the price reads eight bytes
where it has one. -/
theorem bytePrice_not_typed :
    ((MsgFromTSParser.make NetworkOrder.espd bytePrice).parseBuffer NetworkOrder.espd).map
        Prod.fst = some (.lastField false) ∧
      ¬ ActionsTyped NetworkOrder.espd .orderQueued (.make initFldsNum) bytePrice := by
  constructor
  · decide
  · rw [actionsTyped_iff TSNotifyManager.make_fits]
    intro hwhole
    have hgiven : givenFields NetworkOrder.espd bytePrice = [⟨15, 4⟩] := by decide
    have hmem : (⟨15, 4⟩ : GivenField) ∈
        (givenFields NetworkOrder.espd bytePrice).take initFldsNum := by
      rw [hgiven]
      exact List.mem_singleton_self _
    have hdeclared := (hwhole ⟨15, 4⟩ hmem .decimal (by decide)).declared
    exact absurd hdeclared (by decide)

end CppPlay.FixAdapter
