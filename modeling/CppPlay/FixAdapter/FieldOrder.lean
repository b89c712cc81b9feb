import CppPlay.FixAdapter.TypedAccess

/-!
# The order of the fields of a notification

The actions of a queued order write different parts of the report, but for two: the
client's order id and the original one are both written to `OrigClOrdID`.  What is
written last there is what the report carries.  The fields of a message are the blocks
of bytes that lie in the buffer behind its header, and these are what is rearranged; an
action that reads more than its own block reads from the next one.
-/

namespace CppPlay.FixAdapter

open CppPlay.Lib

/-! ## What a field does to the report -/

inductive Effect where
  | setField (tag : FixTag) (text : CppString)
  | setTsId (tsId : UInt32)
  | setExtSesId (xsessId : UInt32)

namespace Effect

def apply (wr : FixMsgWr) : Effect → FixMsgWr
  | .setField tag text => wr.setField tag text
  | .setTsId tsId => { wr with tsId := tsId }
  | .setExtSesId xsessId => { wr with extSesId := xsessId }

def text? (tag : FixTag) : Effect → Option (Option CppString)
  | .setField other text => if other = tag then some (some text) else none
  | _ => none

def number? : SessionKey → Effect → Option UInt32
  | .tsId, .setTsId tsId => some tsId
  | .extTsSessionId, .setExtSesId xsessId => some xsessId
  | _, _ => none

theorem msg_apply (tag : FixTag) (wr : FixMsgWr) (e : Effect) :
    (apply wr e).msg tag = (e.text? tag).getD (wr.msg tag) := by
  cases e with
  | setField other text =>
      simp only [apply, text?, FixMsgWr.setField, FixMessage.setField]
      by_cases hother : other = tag
      · rw [if_pos hother, hother, Function.update_self]
        rfl
      · rw [if_neg hother, Function.update_of_ne (Ne.symm hother)]
        rfl
  | setTsId tsId => rfl
  | setExtSesId xsessId => rfl

theorem register_apply (key : SessionKey) (wr : FixMsgWr) (e : Effect) :
    (apply wr e).register key = (e.number? key).getD (wr.register key) := by
  cases e <;> cases key <;> rfl

end Effect

/-- The field whose action sets the tag; `OrigClOrdID` has a second one. -/
def FixTag.source : FixTag → Option FieldId
  | .origClOrdID => some .origClientOrderId
  | .symbol => some .instName
  | .price => some .price
  | .orderQty => some .size
  | .side => some .indicator
  | .orderID => some .fieldId
  | _ => none

section Effects

variable (api : Espd) {SessionID : Type} (fix : QuickFix SessionID)

def Act.effect (id : FieldId) (value : FieldValue) : Option Effect :=
  match id, value with
  | .tsId, .uint32 tsId => some (.setTsId tsId)
  | .extTsSessionId, .uint32 xsessId => some (.setExtSesId xsessId)
  | .clientOrderId, .string clOrdID => some (.setField .origClOrdID clOrdID)
  | .origClientOrderId, .string origClOrdID => some (.setField .origClOrdID origClOrdID)
  | .instName, .string symbol => some (.setField .symbol symbol)
  | .price, .decimal price => some (.setField .price (fix.stringOfDouble price))
  | .size, .decimal size => some (.setField .orderQty (fix.stringOfDouble size))
  | .indicator, .byte indicator => some (.setField .side [getSide api indicator])
  | .fieldId, .uint32 ident => some (.setField .orderID (fix.lexicalCast ident))
  | _, _ => none

def fieldContent (data : Memory Byte) (pos : ℕ) : UInt16 × Option FieldValue :=
  (FldHdr.getId api data pos,
    match actionAt api .orderQueued data pos with
    | .dummyAction => none
    | .act id => (Act.type id).bind (MsgField.getData api data pos))

def NotifyMsg.contents (msg : NotifyMsg) : List (UInt16 × Option FieldValue) :=
  msg.fields.map (fieldContent api msg.data)

def contentEffect (content : UInt16 × Option FieldValue) : Option Effect :=
  match getFixAction api .orderQueued content.1 with
  | .dummyAction => none
  | .act id => content.2.bind (Act.effect api fix id)

def NotifyMsg.effects (msg : NotifyMsg) : List Effect :=
  (msg.contents api).filterMap (contentEffect api fix)

def NotifyMsg.value (msg : NotifyMsg) (id : FieldId) : Option FieldValue :=
  ((msg.contents api).find? fun content => content.1 = api.fieldIdCode id).bind Prod.snd

variable {api fix}

theorem Act.store_eq (id : FieldId) (value : FieldValue) (wr : FixMsgWr) :
    Act.store api fix id value wr = ((Act.effect api fix id value).map (Effect.apply wr)).getD wr := by
  cases id <;> cases value <;> rfl

theorem applyActions_eq_run (msg : NotifyMsg) (wr : FixMsgWr) :
    applyActions api fix .orderQueued msg.data msg.fields wr =
      run Effect.apply wr (msg.effects api fix) := by
  rw [run, NotifyMsg.effects, NotifyMsg.contents, List.foldl_filterMap, List.foldl_map, applyActions]
  congr 1
  funext wr pos
  simp only [fieldContent, contentEffect, actionAt]
  cases getFixAction api .orderQueued (FldHdr.getId api msg.data pos) with
  | dummyAction => rfl
  | act id =>
      simp only [FixAction.run]
      cases (Act.type id).bind (MsgField.getData api msg.data pos) with
      | none => rfl
      | some value =>
          simp only [Option.bind_some, Act.store_eq]
          cases Act.effect api fix id value with
          | none => rfl
          | some e => rfl

/-! ## Fields and their ids -/

theorem getFixAction_eq_act_iff {code : UInt16} {id : FieldId} :
    getFixAction api .orderQueued code = .act id ↔ id ∈ queuedIds ∧ code = api.fieldIdCode id := by
  have hfind : ∀ found, queuedIds.find? (fun f => api.fieldIdCode f = code) = some found ↔
      found ∈ queuedIds ∧ code = api.fieldIdCode found := by
    intro found
    constructor
    · intro h
      have hcode : api.fieldIdCode found = code := by simpa using List.find?_some h
      exact ⟨List.mem_of_find?_eq_some h, hcode.symm⟩
    · rintro ⟨hmem, rfl⟩
      cases h : queuedIds.find? fun f => api.fieldIdCode f = api.fieldIdCode found with
      | none => exact absurd (List.find?_eq_none.mp h found hmem) (by simp)
      | some other =>
          have hcode : api.fieldIdCode other = api.fieldIdCode found := by
            simpa using List.find?_some h
          rw [api.fieldIdCode_injective hcode]
  rw [← hfind id, getFixAction]
  cases queuedIds.find? fun f => api.fieldIdCode f = code with
  | none => simp
  | some found => simp

theorem mem_queuedIds_of_effect {id : FieldId} {value : FieldValue} {e : Effect}
    (he : Act.effect api fix id value = some e) : id ∈ queuedIds := by
  cases id <;> first | decide | (cases value <;> cases he)

theorem source_of_effect {id : FieldId} {value : FieldValue} {tag : FixTag} {text : CppString}
    (he : Act.effect api fix id value = some (.setField tag text)) (hid : id ≠ .clientOrderId) :
    tag.source = some id := by
  cases id <;> cases value <;> cases he
  all_goals first | rfl | exact absurd rfl hid

theorem fieldId_of_effect {id : FieldId} {value : FieldValue} {e : Effect} {key : SessionKey}
    {number : UInt32} (he : Act.effect api fix id value = some e)
    (hnumber : e.number? key = some number) : id = key.fieldId := by
  cases id <;> cases value <;> cases he
  all_goals cases key <;> first | rfl | cases hnumber

variable {msg : NotifyMsg}

variable (api) in
def NotifyMsg.DistinctIds (msg : NotifyMsg) : Prop :=
  (msg.fields.map (FldHdr.getId api msg.data)).Nodup

instance (msg : NotifyMsg) : Decidable (msg.DistinctIds api) :=
  inferInstanceAs (Decidable (List.Nodup _))

theorem NotifyMsg.DistinctIds.content_eq (hdistinct : msg.DistinctIds api)
    {c c' : UInt16 × Option FieldValue} (hc : c ∈ msg.contents api) (hc' : c' ∈ msg.contents api)
    (hid : c.1 = c'.1) : c = c' := by
  apply List.inj_on_of_nodup_map _ hc hc' hid
  rw [NotifyMsg.contents, List.map_map]
  exact hdistinct

theorem NotifyMsg.DistinctIds.value_eq_some_iff (hdistinct : msg.DistinctIds api) {id : FieldId}
    {value : FieldValue} :
    msg.value api id = some value ↔ (api.fieldIdCode id, some value) ∈ msg.contents api := by
  rw [NotifyMsg.value, Option.bind_eq_some_iff]
  constructor
  · rintro ⟨content, hfind, hvalue⟩
    have hid : content.1 = api.fieldIdCode id := by simpa using List.find?_some hfind
    rw [← hid, ← hvalue]
    exact List.mem_of_find?_eq_some hfind
  · intro hmem
    cases hfind : (msg.contents api).find? fun content => content.1 = api.fieldIdCode id with
    | none => exact absurd (List.find?_eq_none.mp hfind _ hmem) (by simp)
    | some content =>
        have hid : content.1 = api.fieldIdCode id := by simpa using List.find?_some hfind
        refine ⟨content, rfl, ?_⟩
        rw [hdistinct.content_eq (List.mem_of_find?_eq_some hfind) hmem hid]

theorem NotifyMsg.DistinctIds.mem_effects_iff (hdistinct : msg.DistinctIds api) {e : Effect} :
    e ∈ msg.effects api fix ↔
      ∃ id value, msg.value api id = some value ∧ Act.effect api fix id value = some e := by
  rw [NotifyMsg.effects, List.mem_filterMap]
  constructor
  · rintro ⟨⟨code, value⟩, hmem, heffect⟩
    unfold contentEffect at heffect
    cases haction : getFixAction api .orderQueued code with
    | dummyAction => simp [haction] at heffect
    | act id =>
        simp only [haction] at heffect
        rcases Option.bind_eq_some_iff.mp heffect with ⟨v, hv, he⟩
        refine ⟨id, v, hdistinct.value_eq_some_iff.mpr ?_, he⟩
        rw [← (getFixAction_eq_act_iff.mp haction).2, ← hv]
        exact hmem
  · rintro ⟨id, value, hvalue, he⟩
    refine ⟨_, hdistinct.value_eq_some_iff.mp hvalue, ?_⟩
    rw [contentEffect, getFixAction_eq_act_iff.mpr ⟨mem_queuedIds_of_effect he, rfl⟩]
    exact he

/-! ## The fields as blocks of bytes -/

/-- The fields lie one behind the other after the header. -/
structure NotifyMsg.Holds (msg : NotifyMsg) (blocks : List (List Byte)) : Prop where
  fields : msg.fields = blockStarts sizeofMsgHeader blocks
  data : msg.data.read sizeofMsgHeader blocks.flatten.length = blocks.flatten

/-- The message with these fields in the place of its own. -/
def NotifyMsg.withFields (msg : NotifyMsg) (blocks : List (List Byte)) : NotifyMsg :=
  { msg with
    data := msg.data.write sizeofMsgHeader blocks.flatten
    fields := blockStarts sizeofMsgHeader blocks }

variable (api) in
/-- The id of the field and all that its action reads are the field's own. -/
structure OwnBytes (block : List Byte) : Prop where
  id : 2 ≤ block.length
  inside : ∀ type, (actionAt api .orderQueued (Memory.ofList block) 0).reads = some type →
    ∀ o ∈ MsgField.offsets (Memory.ofList block) 0 type, o < block.length

variable (api) in
/-- No action reads bytes of another field, or behind the message. -/
structure ReadsOwn (blocks : List (List Byte)) : Prop where
  fits : sizeofMsgHeader + blocks.flatten.length ≤ api.maxDataSize
  own : ∀ block ∈ blocks, OwnBytes api block

variable (api) in
def blockContent (block : List Byte) : UInt16 × Option FieldValue :=
  fieldContent api (Memory.ofList block) 0

variable {blocks blocks' : List (List Byte)}

theorem NotifyMsg.holds_withFields (msg : NotifyMsg) (blocks : List (List Byte)) :
    (msg.withFields blocks).Holds blocks :=
  ⟨rfl, Memory.read_write_self _ _ _⟩

theorem NotifyMsg.Holds.length_fields (hholds : msg.Holds blocks) :
    msg.fields.length = blocks.length := by
  rw [hholds.fields]
  exact (forall₂_read_blockStarts hholds.data).length_eq

variable (api) in
/-- What the parser hands to the manager are the blocks that it has pushed. -/
theorem holds_notifyMsg (data : Memory Byte) :
    ((parsed api data).notifyMsg api).Holds (MsgFromTSParser.pushedBlocks
      ((fieldCode api).parse (MsgFromTSParser.body api data))) := by
  obtain ⟨_, hdata, _, _, hfields⟩ := parsed_spec api data
  refine ⟨hfields, ?_⟩
  rw [MsgFromTSParser.notifyMsg, hdata, flatten_pushedBlocks, MsgFromTSParser.body,
    Memory.length_read]

theorem cString_of_stop {mem : Memory Byte} {pos len : ℕ} (hfits : pos + len ≤ api.maxDataSize)
    (hstop : ∃ i < len, mem (pos + i) = 0) :
    cString api mem pos = (mem.read pos len).takeWhile (· ≠ 0) := by
  apply mem.takeWhile_read_of_stop (by omega)
  obtain ⟨i, hi, hzero⟩ := hstop
  exact ⟨i, hi, by simp [hzero]⟩

/-- An action that reads nothing but its block reads the same wherever the block lies. -/
theorem getData_of_own {data : Memory Byte} {pos : ℕ} {block : List Byte} {type : FieldType}
    (hread : data.read pos block.length = block) (hfits : pos + block.length ≤ api.maxDataSize)
    (hown : ∀ o ∈ MsgField.offsets (Memory.ofList block) 0 type, o < block.length) :
    MsgField.getData api data pos type = MsgField.getData api (Memory.ofList block) 0 type := by
  have hself := Memory.read_ofList block
  have hnative : ∀ n, type.nativeSize? = some n →
      data.read (pos + sizeofFldHdr) n =
        (Memory.ofList block).read (0 + sizeofFldHdr) n := by
    intro n hn
    have hlast := hown (0 + sizeofFldHdr + n - 1) ((mem_offsets_of_native hn).mpr
      (by have := nativeSize_pos hn; omega))
    rw [Memory.read_of_read hread (by omega), Memory.read_of_read hself (by omega)]
  cases type with
  | uint32 => simp only [MsgField.getData, hnative 4 rfl]
  | int32 => simp only [MsgField.getData, hnative 4 rfl]
  | byte => simp only [MsgField.getData, hnative 1 rfl]
  | decimal => simp only [MsgField.getData, hnative 8 rfl]
  | string =>
      have hsize : sizeofFldHdr < block.length := by
        have hfirst := hown (0 + sizeofFldHdr) (mem_offsets_string.mpr
          ⟨le_rfl, fun i hlow hhigh => by omega⟩)
        omega
      have hrest : data.read (pos + sizeofFldHdr) (block.length - sizeofFldHdr) =
          (Memory.ofList block).read (0 + sizeofFldHdr) (block.length - sizeofFldHdr) := by
        rw [Memory.read_of_read hread (by omega), Memory.read_of_read hself (by omega)]
      -- otherwise the reading would go on to the end of the block
      have hstop : ∃ i < block.length - sizeofFldHdr,
          Memory.ofList block (0 + sizeofFldHdr + i) = 0 := by
        by_contra hnone
        push Not at hnone
        refine absurd (hown block.length (mem_offsets_string.mpr ⟨by omega, ?_⟩)) (lt_irrefl _)
        intro i hlow hhigh
        have hi := hnone (i - sizeofFldHdr) (by omega)
        rwa [show 0 + sizeofFldHdr + (i - sizeofFldHdr) = i by omega] at hi
      have hstop' : ∃ i < block.length - sizeofFldHdr, data (pos + sizeofFldHdr + i) = 0 := by
        obtain ⟨i, hi, hzero⟩ := hstop
        refine ⟨i, hi, ?_⟩
        have hsame := congrArg (fun bytes => bytes[i]?) hrest
        rw [Nat.zero_add] at hzero
        simpa [Memory.read, hi, hzero] using hsame
      simp only [MsgField.getData]
      rw [cString_of_stop (by omega) hstop', cString_of_stop (by omega) hstop, hrest]
  | int8 => rfl
  | int16 => rfl
  | uint16 => rfl
  | datetime => rfl
  | buffer => rfl
  | bytestream => rfl
  | empty => rfl

theorem fieldContent_of_own {data : Memory Byte} {pos : ℕ} {block : List Byte}
    (hread : data.read pos block.length = block) (hfits : pos + block.length ≤ api.maxDataSize)
    (hown : OwnBytes api block) : fieldContent api data pos = blockContent api block := by
  have hsize := hown.id
  have hid : FldHdr.getId api data pos = FldHdr.getId api (Memory.ofList block) 0 := by
    have hbytes := Memory.read_of_read hread (k := 0) (n := 2) (by omega)
    have hself := Memory.read_of_read (Memory.read_ofList block) (k := 0) (n := 2) (by omega)
    rw [Nat.add_zero] at hbytes hself
    rw [FldHdr.getId, FldHdr.getId, hbytes, hself]
  have haction : actionAt api .orderQueued data pos =
      actionAt api .orderQueued (Memory.ofList block) 0 := by
    rw [actionAt, actionAt, hid]
  rw [blockContent, fieldContent, fieldContent, hid, haction]
  congr 1
  cases hact : actionAt api .orderQueued (Memory.ofList block) 0 with
  | dummyAction => rfl
  | act id =>
      simp only
      cases htype : Act.type id with
      | none => rfl
      | some type =>
          apply getData_of_own hread hfits
          apply hown.inside
          rw [hact]
          exact htype

theorem NotifyMsg.Holds.contents_eq (hholds : msg.Holds blocks) (hreads : ReadsOwn api blocks) :
    msg.contents api = blocks.map (blockContent api) := by
  have hfits := hreads.fits
  rw [NotifyMsg.contents, hholds.fields]
  apply map_blockStarts hholds.data
  intro block hblock pos hread hend
  exact fieldContent_of_own hread (by omega) (hreads.own block hblock)

theorem ReadsOwn.perm (hreads : ReadsOwn api blocks) (hperm : blocks'.Perm blocks) :
    ReadsOwn api blocks' := by
  refine ⟨?_, fun block hblock => hreads.own block (hperm.subset hblock)⟩
  rw [hperm.flatten.length_eq]
  exact hreads.fits

/-- A complete field whose type is the one that its action reads is read alone. -/
theorem ownBytes_of_isWord {block : List Byte} (hword : (fieldCode api).IsWord block)
    (htype : ∀ type, (actionAt api .orderQueued (Memory.ofList block) 0).reads = some type →
      FldHdr.getType api (Memory.ofList block) 0 = api.fieldTypeCode type) :
    OwnBytes api block := by
  refine ⟨?_, ?_⟩
  · have hsize : sizeofFldHdr < block.length := lt_of_fieldSize hword
    exact (Nat.le_succ 2).trans hsize.le
  · intro type hreads o ho
    have hwhole : WholeField api (Memory.ofList block) ⟨0, block.length⟩ type :=
      ⟨htype type hreads, by rwa [Memory.read_ofList]⟩
    have hinside := inside_of_complete (readable_of_reads hreads) hwhole o ho
    simpa using hinside.2

/-! ## One value for every part of the report -/

variable (api) in
/-- A client's order id is there only together with an original one that is the same. -/
def NotifyMsg.OrigAlone (msg : NotifyMsg) : Prop :=
  ∀ text, msg.value api .clientOrderId = some (.string text) →
    msg.value api .origClientOrderId = some (.string text)

theorem Effect.text?_eq_some_iff {tag : FixTag} {e : Effect} {a : Option CppString} :
    e.text? tag = some a ↔ ∃ text, e = .setField tag text ∧ a = some text := by
  cases e with
  | setField other text =>
      by_cases hother : other = tag
      · simp [text?, hother, eq_comm]
      · simp [text?, hother]
  | setTsId tsId => simp [text?]
  | setExtSesId xsessId => simp [text?]

theorem origText_of_effect (halone : msg.OrigAlone api) {id : FieldId} {value : FieldValue}
    {text : CppString} (hvalue : msg.value api id = some value)
    (he : Act.effect api fix id value = some (.setField .origClOrdID text)) :
    msg.value api .origClientOrderId = some (.string text) := by
  by_cases hclient : id = .clientOrderId
  · subst hclient
    cases value <;> cases he
    exact halone text hvalue
  · have hid := Option.some.inj (source_of_effect he hclient)
    subst hid
    cases value <;> cases he
    exact hvalue

theorem id_ne_clientOrderId {id : FieldId} {value : FieldValue} {tag : FixTag} {text : CppString}
    (he : Act.effect api fix id value = some (.setField tag text)) (htag : tag ≠ .origClOrdID) :
    id ≠ .clientOrderId := by
  rintro rfl
  cases value <;> cases he
  exact htag rfl

theorem texts_agree (hdistinct : msg.DistinctIds api) {tag : FixTag}
    (htag : tag ≠ .origClOrdID ∨ msg.OrigAlone api) :
    ∀ e ∈ msg.effects api fix, ∀ e' ∈ msg.effects api fix, ∀ a b,
      e.text? tag = some a → e'.text? tag = some b → a = b := by
  intro e he e' he' a b ha hb
  rcases Effect.text?_eq_some_iff.mp ha with ⟨text, rfl, rfl⟩
  rcases Effect.text?_eq_some_iff.mp hb with ⟨text', rfl, rfl⟩
  rcases hdistinct.mem_effects_iff.mp he with ⟨id, value, hvalue, heffect⟩
  rcases hdistinct.mem_effects_iff.mp he' with ⟨id', value', hvalue', heffect'⟩
  by_cases horig : tag = .origClOrdID
  · subst horig
    have halone := htag.resolve_left (absurd rfl)
    have htext := origText_of_effect halone hvalue heffect
    rw [origText_of_effect halone hvalue' heffect'] at htext
    cases htext
    rfl
  · have hid : some id = some id' :=
      (source_of_effect heffect (id_ne_clientOrderId heffect horig)).symm.trans
        (source_of_effect heffect' (id_ne_clientOrderId heffect' horig))
    cases hid
    rw [hvalue] at hvalue'
    cases hvalue'
    rw [heffect] at heffect'
    cases heffect'
    rfl

theorem numbers_agree (hdistinct : msg.DistinctIds api) (key : SessionKey) :
    ∀ e ∈ msg.effects api fix, ∀ e' ∈ msg.effects api fix, ∀ a b,
      e.number? key = some a → e'.number? key = some b → a = b := by
  intro e he e' he' a b ha hb
  rcases hdistinct.mem_effects_iff.mp he with ⟨id, value, hvalue, heffect⟩
  rcases hdistinct.mem_effects_iff.mp he' with ⟨id', value', hvalue', heffect'⟩
  rw [fieldId_of_effect heffect ha] at hvalue heffect
  rw [fieldId_of_effect heffect' hb, hvalue] at hvalue'
  rw [fieldId_of_effect heffect' hb] at heffect'
  cases hvalue'
  rw [heffect] at heffect'
  cases heffect'
  rw [ha] at hb
  exact Option.some.inj hb

/-- A tag that is not set at the start ends with the text that the message sets. -/
theorem run_text_iff (hdistinct : msg.DistinctIds api) {tag : FixTag}
    (htag : tag ≠ .origClOrdID ∨ msg.OrigAlone api) {wr : FixMsgWr} (hstart : wr.msg tag = none)
    (text : CppString) :
    (run Effect.apply wr (msg.effects api fix)).msg tag = some text ↔
      .setField tag text ∈ msg.effects api fix := by
  have hlast := run_overwrites (fun wr : FixMsgWr => wr.msg tag) (Effect.text? tag)
    (Effect.msg_apply tag) wr (msg.effects api fix)
  have hagree := @texts_agree api SessionID fix msg hdistinct tag htag
  simp only [hstart] at hlast
  rw [hlast]
  cases hfound : (msg.effects api fix).reverse.findSome? (Effect.text? tag) with
  | none =>
      simp only [Option.getD_none, reduceCtorEq, false_iff]
      intro hmem
      have hnone := List.findSome?_eq_none_iff.mp hfound _ (List.mem_reverse.mpr hmem)
      simp [Effect.text?] at hnone
  | some a =>
      rcases List.exists_of_findSome?_eq_some hfound with ⟨e, he, ha⟩
      rw [List.mem_reverse] at he
      rcases Effect.text?_eq_some_iff.mp ha with ⟨last, rfl, rfl⟩
      simp only [Option.getD_some, Option.some.injEq]
      constructor
      · rintro rfl
        exact he
      · intro hmem
        exact Option.some.inj (hagree _ he _ hmem _ _ ha
          (Effect.text?_eq_some_iff.mpr ⟨text, rfl, rfl⟩))

/-! ## The report -/

variable (api fix) in
/-- A report is made: the size is there, and its number is read back. -/
def NotifyMsg.Reported (msg : NotifyMsg) : Prop :=
  ∃ size, msg.value api .size = some (.decimal size) ∧
    (fix.doubleOfString (fix.stringOfDouble size)).isSome

/-- Fields that are read alone have the same effects in another order. -/
theorem effects_withFields_perm (hholds : msg.Holds blocks) (hreads : ReadsOwn api blocks)
    (hperm : blocks'.Perm blocks) :
    (msg.effects api fix).Perm ((msg.withFields blocks').effects api fix) := by
  have hafter := (msg.holds_withFields blocks').contents_eq (hreads.perm hperm)
  rw [NotifyMsg.effects, NotifyMsg.effects, hholds.contents_eq hreads, hafter]
  exact ((hperm.map _).filterMap _).symm

theorem orderQty_eq_some_iff (hdistinct : msg.DistinctIds api) {wr : FixMsgWr}
    (hstart : wr.msg .orderQty = none) {text : CppString} :
    (run Effect.apply wr (msg.effects api fix)).msg .orderQty = some text ↔
      ∃ size, msg.value api .size = some (.decimal size) ∧ text = fix.stringOfDouble size := by
  rw [run_text_iff hdistinct (Or.inl (by decide)) hstart, hdistinct.mem_effects_iff]
  constructor
  · rintro ⟨id, value, hvalue, he⟩
    have hid := Option.some.inj (source_of_effect he (id_ne_clientOrderId he (by decide)))
    subst hid
    cases value <;> cases he
    exact ⟨_, hvalue, rfl⟩
  · rintro ⟨size, hvalue, rfl⟩
    exact ⟨.size, .decimal size, hvalue, rfl⟩

theorem origClOrdID_eq_some_iff (hdistinct : msg.DistinctIds api) (halone : msg.OrigAlone api)
    {wr : FixMsgWr} (hstart : wr.msg .origClOrdID = none) {text : CppString} :
    (run Effect.apply wr (msg.effects api fix)).msg .origClOrdID = some text ↔
      msg.value api .origClientOrderId = some (.string text) := by
  rw [run_text_iff hdistinct (Or.inr halone) hstart, hdistinct.mem_effects_iff]
  constructor
  · rintro ⟨id, value, hvalue, he⟩
    exact origText_of_effect halone hvalue he
  · intro hvalue
    exact ⟨.origClientOrderId, .string text, hvalue, rfl⟩

theorem conclude_queued (config : SessionsInfo SessionID) (wr : FixMsgWr) :
    conclude fix config .orderQueued wr =
      match wr.msg .orderQty with
      | none => .error (.thrown .fieldNotFound)
      | some text =>
          match fix.doubleOfString text with
          | none => .error (.thrown .incorrectDataFormat)
          | some qty => .ok (some (wr.msg.setField .leavesQty (fix.stringOfDouble qty),
              config.getSessionId fix (wr.extSesId, wr.tsId))) := by
  simp only [conclude, finishReport, FixMessage.getField]
  cases wr.msg .orderQty with
  | none => rfl
  | some text =>
      simp only [bind, Except.bind]
      cases fix.doubleOfString text with
      | none => rfl
      | some qty => rfl

/-- Behind the same effects in another order the report is the same, and so is the exception
where none is made. -/
theorem conclude_perm (hdistinct : msg.DistinctIds api)
    (halone : msg.Reported api fix → msg.OrigAlone api) (config : SessionsInfo SessionID)
    {msg' : NotifyMsg} (hsame : (msg.effects api fix).Perm (msg'.effects api fix))
    {wr : FixMsgWr} (hstart : wr.msg .orderQty = none) :
    conclude fix config .orderQueued (run Effect.apply wr (msg'.effects api fix)) =
      conclude fix config .orderQueued (run Effect.apply wr (msg.effects api fix)) := by
  have htext : ∀ tag, tag ≠ .origClOrdID ∨ msg.OrigAlone api →
      (run Effect.apply wr (msg'.effects api fix)).msg tag =
        (run Effect.apply wr (msg.effects api fix)).msg tag := fun tag htag =>
    (run_overwrites_perm (fun wr : FixMsgWr => wr.msg tag) (Effect.text? tag)
      (Effect.msg_apply tag) wr hsame (texts_agree hdistinct htag)).symm
  have hnumber : ∀ key, (run Effect.apply wr (msg'.effects api fix)).register key =
      (run Effect.apply wr (msg.effects api fix)).register key := fun key =>
    (run_overwrites_perm (fun wr : FixMsgWr => wr.register key) (Effect.number? key)
      (Effect.register_apply key) wr hsame (numbers_agree hdistinct key)).symm
  by_cases hreported : msg.Reported api fix
  · apply conclude_congr
    · funext tag
      exact htext tag (Or.inr (halone hreported))
    · exact hnumber
  · rw [conclude_queued, conclude_queued, htext .orderQty (Or.inl (by decide))]
    cases hqty : (run Effect.apply wr (msg.effects api fix)).msg .orderQty with
    | none => rfl
    | some text =>
        rcases (orderQty_eq_some_iff hdistinct hstart).mp hqty with ⟨size, hsize, rfl⟩
        cases hback : fix.doubleOfString (fix.stringOfDouble size) with
        | none => simp only [hback]
        | some qty => exact absurd ⟨size, hsize, by rw [hback]; rfl⟩ hreported

theorem origClOrdID_of_conclude {config : SessionsInfo SessionID} {wr : FixMsgWr}
    {report : FixMessage} {session : SessionID}
    (hreport : conclude fix config .orderQueued wr = .ok (some (report, session))) :
    report .origClOrdID = wr.msg .origClOrdID := by
  rw [conclude_queued] at hreport
  cases hqty : wr.msg .orderQty with
  | none => simp [hqty] at hreport
  | some text =>
      simp only [hqty] at hreport
      cases hback : fix.doubleOfString text with
      | none => simp [hback] at hreport
      | some qty =>
          simp only [hback] at hreport
          cases hreport
          exact Function.update_of_ne (by decide) _ _

theorem conclude_of_reported (hdistinct : msg.DistinctIds api) (hreported : msg.Reported api fix)
    (config : SessionsInfo SessionID) {wr : FixMsgWr} (hstart : wr.msg .orderQty = none) :
    ∃ report session, conclude fix config .orderQueued
      (run Effect.apply wr (msg.effects api fix)) = .ok (some (report, session)) := by
  rcases hreported with ⟨size, hsize, hback⟩
  rcases Option.isSome_iff_exists.mp hback with ⟨qty, hqty⟩
  have htext := (@orderQty_eq_some_iff api SessionID fix msg hdistinct wr hstart _).mpr ⟨size, hsize, rfl⟩
  rw [conclude_queued, htext]
  simp only [hqty]
  exact ⟨_, _, rfl⟩

theorem reported_of_conclude (hdistinct : msg.DistinctIds api) {config : SessionsInfo SessionID}
    {wr : FixMsgWr} (hstart : wr.msg .orderQty = none) {report : FixMessage}
    {session : SessionID} (hreport : conclude fix config .orderQueued
      (run Effect.apply wr (msg.effects api fix)) = .ok (some (report, session))) :
    msg.Reported api fix := by
  rw [conclude_queued] at hreport
  cases hqty : (run Effect.apply wr (msg.effects api fix)).msg .orderQty with
  | none => simp [hqty] at hreport
  | some text =>
      rcases (orderQty_eq_some_iff hdistinct hstart).mp hqty with ⟨size, hsize, rfl⟩
      simp only [hqty] at hreport
      cases hback : fix.doubleOfString (fix.stringOfDouble size) with
      | none => simp [hback] at hreport
      | some qty => exact ⟨size, hsize, by rw [hback]; rfl⟩

/-! ## The manager behind other messages -/

variable (api fix) in
theorem TSNotifyManager.sound_run (capacity : ℕ)
    (inputs : List (SessionsInfo SessionID × NotifyMsg)) :
    (run (step api fix) (make capacity) inputs).Sound api capacity := by
  apply run_invariant (fun mgr : TSNotifyManager => mgr.Sound api capacity)
  · exact ⟨(make_inv api capacity).caches, rfl, fun _ => Nat.zero_le _⟩
  · intro mgr input hsound
    exact hsound.step input

variable (fix) in
/-- What a queued order comes to: the effects of its fields, unless there are too many
of them. -/
theorem TSNotifyManager.Sound.queued_result {capacity : ℕ} {mgr : TSNotifyManager}
    (hsound : mgr.Sound api capacity) (config : SessionsInfo SessionID)
    (hcmd : msg.cmd = api.notifyCmdCode .orderQueued) :
    (mgr.manageEspdMsg api fix config msg).1 =
      if msg.fields.length ≤ capacity then
        conclude fix config .orderQueued
          (run Effect.apply (mgr.msg.setMsg (initMsg fix .orderQueued)) (msg.effects api fix))
      else .error .danglingIterator := by
  have hqueued : notifyCmd? api msg.cmd = some .orderQueued := by rw [notifyCmd?, if_pos hcmd]
  split_ifs with hroom
  · rw [← hsound.capacity] at hroom
    rw [(manageEspdMsg_eq fix hsound.caches config hqueued hroom).1, applyActions_eq_run]
  · rw [hsound.manageEspdMsg_of_lt config hqueued (not_le.mp hroom)]

variable (api fix) in
/-- The report and the session are the same for every order of the fields, and `OrigClOrdID`
is the original order id of the message. -/
structure FieldOrderIrrelevant (mgr : TSNotifyManager) (config : SessionsInfo SessionID)
    (msg : NotifyMsg) (blocks : List (List Byte)) : Prop where
  noDangling : (mgr.manageEspdMsg api fix config msg).1 ≠ .error .danglingIterator
  same : ∀ blocks', blocks'.Perm blocks →
    (mgr.manageEspdMsg api fix config (msg.withFields blocks')).1 =
      (mgr.manageEspdMsg api fix config msg).1
  origClOrdID : ∀ report session text,
    (mgr.manageEspdMsg api fix config msg).1 = .ok (some (report, session)) →
      (report .origClOrdID = some text ↔ msg.value api .origClientOrderId = some (.string text))

theorem exists_block_of_value (hdistinct : msg.DistinctIds api) (hholds : msg.Holds blocks)
    (hreads : ReadsOwn api blocks) {id : FieldId} {value : FieldValue}
    (hvalue : msg.value api id = some value) :
    ∃ block ∈ blocks, blockContent api block = (api.fieldIdCode id, some value) := by
  have hmem := hdistinct.value_eq_some_iff.mp hvalue
  rw [hholds.contents_eq hreads] at hmem
  exact List.mem_map.mp hmem

/-- A client's order id at the end is what the report gets. -/
theorem run_effects_clientLast {block : List Byte} {text : CppString}
    (hreads : ReadsOwn api (blocks ++ [block]))
    (hblock : blockContent api block = (api.fieldIdCode .clientOrderId, some (.string text)))
    (wr : FixMsgWr) :
    (run Effect.apply wr ((msg.withFields (blocks ++ [block])).effects api fix)).msg .origClOrdID =
      some text := by
  have haction : getFixAction api .orderQueued (api.fieldIdCode .clientOrderId) =
      .act .clientOrderId := getFixAction_eq_act_iff.mpr ⟨by decide, rfl⟩
  have heffect : contentEffect api fix (blockContent api block) =
      some (.setField .origClOrdID text) := by
    rw [hblock, contentEffect, haction]
    rfl
  have hlast : (msg.withFields (blocks ++ [block])).effects api fix =
      (blocks.map (blockContent api)).filterMap (contentEffect api fix) ++
        [.setField .origClOrdID text] := by
    rw [NotifyMsg.effects, (msg.holds_withFields _).contents_eq hreads]
    simp [heffect]
  rw [hlast, run_append, run_cons, run_nil, Effect.msg_apply, Effect.text?, if_pos rfl]
  rfl

end Effects

/-! ### A client's order id in front of the original one, and behind it -/

/-- `CLIENT_ORDER_ID` "A", `ORIG_CLIENT_ORDER_ID` "B" and a size. -/
def clientFirst : NotifyMsg :=
  queuedOrder [15, 20, 25]
    [0, 17, 8, 0x41, 0, 0, 0, 8, 0x42, 0, 0, 19, 7, 0x40, 0x59, 0, 0, 0, 0, 0, 0]

def clientFirstBlocks : List (List Byte) :=
  [[0, 17, 8, 0x41, 0], [0, 0, 8, 0x42, 0], [0, 19, 7, 0x40, 0x59, 0, 0, 0, 0, 0, 0]]

def resultOrigClOrdID {SessionID : Type} :
    Except NotifyError (FixMessageInfo SessionID) → Option CppString
  | .ok (some info) => info.1 .origClOrdID
  | _ => none

def fullNotifyBlocks : List (List Byte) :=
  [[0, 13, 5, 0, 0, 0, 1], [0, 2, 5, 0, 0, 0, 1], [0, 19, 7, 0x40, 0x59, 0, 0, 0, 0, 0, 0]]

theorem readsOwn_fullNotifyBlocks : ReadsOwn NetworkOrder.espd fullNotifyBlocks := by
  have hown : ∀ block ∈ fullNotifyBlocks, ∀ type,
      (fieldCode NetworkOrder.espd).IsWord block →
      (actionAt NetworkOrder.espd .orderQueued (Memory.ofList block) 0).reads = some type →
      FldHdr.getType NetworkOrder.espd (Memory.ofList block) 0 =
        NetworkOrder.espd.fieldTypeCode type → OwnBytes NetworkOrder.espd block := by
    intro block _ type hword hreads htype
    apply ownBytes_of_isWord hword
    intro other hother
    rw [hreads, Option.some.injEq] at hother
    rwa [← hother]
  refine ⟨by decide, ?_⟩
  intro block hblock
  have hmem := hblock
  simp only [fullNotifyBlocks, List.mem_cons, List.not_mem_nil, or_false] at hmem
  rcases hmem with rfl | rfl | rfl
  · exact hown _ hblock .uint32 (by decide) (by decide) (by decide)
  · exact hown _ hblock .uint32 (by decide) (by decide) (by decide)
  · exact hown _ hblock .decimal (by decide) (by decide) (by decide)

end CppPlay.FixAdapter
