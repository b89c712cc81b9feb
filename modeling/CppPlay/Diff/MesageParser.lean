import CppPlay.Lib.Fields

/-!
# The FIX text parser

`makeMessage` scans its text twice: a search for the tag of the message type chooses the
class of the object, and a tokenizer fills the object's fields.
-/

namespace CppPlay.MesageParser

open CppPlay.Lib

abbrev Text := List Char

inductive MsType where
  | unknownMsType | logon | newOrderSingle
  deriving DecidableEq

inductive Tag where
  | beginString | bodyLength | msgSeqNum | msgType | senderCompID | senderSubID
  | sendingTime | targetCompID | targetSubID | senderLocationID
  deriving DecidableEq

def Tag.code : Tag → ℤ
  | .beginString => 8
  | .bodyLength => 9
  | .msgSeqNum => 34
  | .msgType => 35
  | .senderCompID => 49
  | .senderSubID => 50
  | .sendingTime => 52
  | .targetCompID => 56
  | .targetSubID => 57
  | .senderLocationID => 142

namespace MsConsts

def separator : Char := '^'

def invalidValue : Text := []

/-- Assuming a type is just one char. -/
def getMsType : Text → MsType
  | [] => .unknownMsType
  | 'A' :: _ => .logon
  | _ :: _ => .unknownMsType

end MsConsts

/-- What the parser uses of Boost: `lexical_cast` from an `int` and to an `int`, which throws
where it has no value, and a `tokenizer` with a `char_separator`, which drops empty tokens. -/
structure Boost where
  lexicalCastString : ℤ → Text
  lexicalCastInt : Text → Option ℤ
  tokens : Char → Text → List Text
  lexicalCastString_natCast : ∀ n : ℕ, n < 2 ^ 31 → lexicalCastString n = Nat.toDigits 10 n
  lexicalCastInt_toDigits : ∀ n : ℕ, n < 2 ^ 31 → lexicalCastInt (Nat.toDigits 10 n) = some (n : ℤ)
  tokens_eq : ∀ sep text, tokens sep text = (text.splitOn sep).filter (· ≠ [])

namespace Boost

def numberOfDigits (digits : Text) : Option ℤ :=
  if digits = [] ∨ ¬ digits.all Char.isDigit then none
  else some (Nat.ofDigitChars 10 digits 0 : ℕ)

/-- A sign, or none, and digits, within the range of an `int`. -/
def intOfText (text : Text) : Option ℤ :=
  let value := match text with
    | '-' :: digits => (numberOfDigits digits).map Neg.neg
    | '+' :: digits => numberOfDigits digits
    | digits => numberOfDigits digits
  value.filter fun n => -2 ^ 31 ≤ n ∧ n < 2 ^ 31

theorem isDigit_of_mem_toDigits {n : ℕ} {c : Char} (hc : c ∈ Nat.toDigits 10 n) :
    c.isDigit = true :=
  Nat.isDigit_of_mem_toDigits (by decide) (by decide) hc

theorem numberOfDigits_toDigits (n : ℕ) : numberOfDigits (Nat.toDigits 10 n) = some (n : ℤ) := by
  have hne : Nat.toDigits 10 n ≠ [] := Nat.toDigits_ne_nil
  have hall : (Nat.toDigits 10 n).all Char.isDigit = true :=
    List.all_eq_true.mpr fun c hc => isDigit_of_mem_toDigits hc
  rw [numberOfDigits, if_neg (by simp [hne, hall]), Nat.ofDigitChars_ten_toDigits]

theorem intOfText_toDigits (n : ℕ) (hn : n < 2 ^ 31) :
    intOfText (Nat.toDigits 10 n) = some (n : ℤ) := by
  have hfits : -2 ^ 31 ≤ (n : ℤ) ∧ (n : ℤ) < 2 ^ 31 := by omega
  have hsign : ∀ c, c.isDigit = false → ∀ digits, Nat.toDigits 10 n ≠ c :: digits := by
    intro c hc digits heq
    have hdigit : c.isDigit = true := isDigit_of_mem_toDigits (heq ▸ List.mem_cons_self)
    rw [hc] at hdigit
    exact Bool.false_ne_true hdigit
  rw [intOfText, numberOfDigits_toDigits, Option.filter_some, if_pos (decide_eq_true hfits)]
  · exact hsign '-' (by decide)
  · exact hsign '+' (by decide)

def plain : Boost where
  lexicalCastString n := if n < 0 then '-' :: Nat.toDigits 10 n.natAbs else Nat.toDigits 10 n.natAbs
  lexicalCastInt := intOfText
  tokens sep text := (text.splitOn sep).filter (· ≠ [])
  lexicalCastString_natCast n _ := if_neg (by omega)
  lexicalCastInt_toDigits := intOfText_toDigits
  tokens_eq _ _ := rfl

end Boost

/-- What leaves `makeMessage`; the text of an invalid tag is a pointer moved by the tag. -/
inductive Thrown where
  | literal (text : String)
  | invalidField (fld : Text)
  | invalidTag (tag : ℤ)
  | badLexicalCast

/-- `std::map<Tag, std::string>`; a `Tag` is any `int` that was cast to it. -/
abbrev TagMap := ℤ → Option Text

structure MsBase where
  type : MsType
  tagMap : TagMap

def MsBase.getFieldValue (msg : MsBase) (tag : ℤ) : Text :=
  (msg.tagMap tag).getD MsConsts.invalidValue

def baseTags : List Tag :=
  [.beginString, .bodyLength, .msgSeqNum, .msgType, .senderCompID, .targetCompID]

/-- The tags of `MsBase` and those that `Message<Logon>` adds. -/
def logonTags : List Tag := baseTags ++ [.senderSubID, .targetSubID, .sendingTime]

def initMap (tags : List Tag) : TagMap := fun tag =>
  if tag ∈ tags.map Tag.code then some MsConsts.invalidValue else none

section Source

variable (boost : Boost)

def bStr : Text :=
  MsConsts.separator :: boost.lexicalCastString Tag.msgType.code ++ ['=']

def getMsType (ms : Text) : MsType :=
  match findSub (bStr boost) ms with
  | none => .unknownMsType
  | some bgn =>
      match findSub [MsConsts.separator] (ms.drop (bgn + 1)) with
      | none => .unknownMsType
      | some gap =>
          let fin := bgn + 1 + gap
          let bgn := bgn + (bStr boost).length
          if fin - bgn < 1 then .unknownMsType
          else MsConsts.getMsType ((ms.drop bgn).take (fin - bgn))

def setValue (tagMap : TagMap) (tag : ℤ) (value : Text) : Except Thrown TagMap :=
  match tagMap tag with
  | none => .error (.invalidTag tag)
  | some _ => .ok (Function.update tagMap tag (some value))

def setField (tagMap : TagMap) (fld : Text) : Except Thrown TagMap :=
  match findSub ['='] fld with
  | none => .error (.invalidField fld)
  | some pos =>
      if pos < 1 ∨ pos + 2 > fld.length then .error (.invalidField fld)
      else
        match boost.lexicalCastInt (fld.take pos) with
        | none => .error .badLexicalCast
        | some tag => setValue tagMap tag (fld.drop (pos + 1))

def tokens (ms : Text) : List Text := boost.tokens MsConsts.separator ms

def parse (tagMap : TagMap) (ms : Text) : Except Thrown TagMap :=
  (tokens boost ms).foldlM (setField boost) tagMap

def makeMessage (ms : Text) : Except Thrown MsBase :=
  match getMsType boost ms with
  | .unknownMsType => .error (.literal "Unknown Message Type ")
  | .logon => do
      let tagMap ← parse boost (initMap logonTags) ms
      return ⟨.logon, tagMap⟩
  | .newOrderSingle => .error (.literal "Cannot create message object  ")

/-! ## The fields of a text -/

def fieldOf (tok : Text) : Option (ℤ × Text) :=
  match findSub ['='] tok with
  | none => none
  | some pos =>
      if pos < 1 ∨ pos + 2 > tok.length then none
      else (boost.lexicalCastInt (tok.take pos)).map fun tag => (tag, tok.drop (pos + 1))

def valueFor (tag : ℤ) (tok : Text) : Option Text :=
  (fieldOf boost tok).bind fun f => if f.1 = tag then some f.2 else none

/-- The value of the last token that carries the tag. -/
def lastOf (toks : List Text) (tag : ℤ) : Option Text :=
  toks.reverse.findSome? (valueFor boost tag)

def msgTypeStart : Text := ['3', '5', '=']

/-- The value of the first field spelled `35=` that stands between two separators. -/
def delimitedMsgType (ms : Text) : Option Text :=
  ((ms.splitOn MsConsts.separator).tail.dropLast.find? msgTypeStart.isPrefixOf).map
    (List.drop msgTypeStart.length)

end Source

variable {boost : Boost}

theorem separator_not_mem_msgTypeStart : MsConsts.separator ∉ msgTypeStart := by decide

theorem bStr_eq : bStr boost = MsConsts.separator :: msgTypeStart := by
  have hcode : boost.lexicalCastString Tag.msgType.code = Nat.toDigits 10 35 :=
    boost.lexicalCastString_natCast 35 (by decide)
  rw [bStr, hcode]
  decide

theorem getMsType_of_findSub {ms : Text} {bgn : ℕ} (hfind : findSub (bStr boost) ms = some bgn) :
    getMsType boost ms =
      if MsConsts.separator ∈ ms.drop (bgn + (bStr boost).length) then
        MsConsts.getMsType
          ((ms.drop (bgn + (bStr boost).length)).takeWhile (· ≠ MsConsts.separator))
      else .unknownMsType := by
  obtain ⟨later, hlater⟩ := prefix_of_findSub hfind
  have hrest : ms.drop (bgn + (bStr boost).length) = later := by
    rw [← List.drop_drop, ← hlater, List.drop_left]
  have hbehind : ms.drop (bgn + 1) = msgTypeStart ++ later := by
    rw [← List.drop_drop, ← hlater, bStr_eq]
    rfl
  simp only [getMsType, hfind, hrest, hbehind,
    findSub_singleton_append separator_not_mem_msgTypeStart, findSub_singleton]
  by_cases hmem : MsConsts.separator ∈ later
  · have hgap : bgn + 1 + (msgTypeStart.length +
          (later.takeWhile (· ≠ MsConsts.separator)).length) - (bgn + (bStr boost).length) =
        (later.takeWhile (· ≠ MsConsts.separator)).length := by
      rw [bStr_eq, List.length_cons]
      omega
    have htake : later.take (later.takeWhile (· ≠ MsConsts.separator)).length =
        later.takeWhile (· ≠ MsConsts.separator) :=
      (List.prefix_iff_eq_take.mp (List.takeWhile_prefix _)).symm
    simp only [hmem, if_true, Option.map_some, hgap, htake, ite_eq_right_iff]
    intro hempty
    rw [List.length_eq_zero_iff.mp (Nat.lt_one_iff.mp hempty)]
    rfl
  · simp only [hmem, if_false, Option.map_none]

theorem getMsType_eq (ms : Text) :
    getMsType boost ms = ((delimitedMsgType ms).map MsConsts.getMsType).getD .unknownMsType := by
  have hcut := map_splitOn_afterSub separator_not_mem_msgTypeStart ms
  rw [← bStr_eq, afterSub] at hcut
  rw [delimitedMsgType]
  cases hdrop : (ms.splitOn MsConsts.separator).tail.dropWhile
      (fun f => !msgTypeStart.isPrefixOf f) with
  | nil =>
      simp only [hdrop, Option.map_eq_none_iff] at hcut
      rw [find?_dropLast_of_forall hdrop, getMsType, hcut]
      rfl
  | cons f fs =>
      simp only [hdrop, Option.map_map, Option.map_eq_some_iff] at hcut
      obtain ⟨bgn, hfind, hfields⟩ := hcut
      rw [Function.comp_apply, splitOn_eq_cons, List.cons.injEq] at hfields
      have hmem :
          ((ms.drop (bgn + (bStr boost).length)).splitOn MsConsts.separator).tail ≠ [] ↔ _ :=
        splitOn_tail_ne_nil_iff
      rw [hfields.2] at hmem
      rw [getMsType_of_findSub hfind, hfields.1, find?_dropLast hdrop]
      by_cases hfs : fs = []
      · simp [hfs, ← hmem]
      · simp [hfs, ← hmem]

/-! ## What the tokenizer stores -/

theorem setField_of_fieldOf {tagMap : TagMap} {tok : Text} {f : ℤ × Text}
    (hfield : fieldOf boost tok = some f) :
    setField boost tagMap tok = setValue tagMap f.1 f.2 := by
  rw [fieldOf] at hfield
  rw [setField]
  cases hpos : findSub ['='] tok with
  | none => simp [hpos] at hfield
  | some pos =>
      by_cases hbad : pos < 1 ∨ pos + 2 > tok.length
      · simp only [hpos, hbad, if_true, reduceCtorEq] at hfield
      · simp only [hpos, hbad, if_false, Option.map_eq_some_iff] at hfield
        obtain ⟨tag, htag, rfl⟩ := hfield
        simp only [hbad, if_false, htag]

theorem setField_of_not_fieldOf {tagMap : TagMap} {tok : Text} (hfield : fieldOf boost tok = none) :
    ∃ e, setField boost tagMap tok = .error e := by
  rw [fieldOf] at hfield
  rw [setField]
  cases hpos : findSub ['='] tok with
  | none => exact ⟨_, rfl⟩
  | some pos =>
      by_cases hbad : pos < 1 ∨ pos + 2 > tok.length
      · exact ⟨_, if_pos hbad⟩
      · simp only [hpos, hbad, if_false, Option.map_eq_none_iff] at hfield
        simp only [hbad, if_false, hfield]
        exact ⟨_, rfl⟩

/-- The token sets a field that the object has. -/
def Settable (boost : Boost) (tagMap : TagMap) (tok : Text) : Prop :=
  ∃ f, fieldOf boost tok = some f ∧ tagMap f.1 ≠ none

theorem setField_eq {tagMap : TagMap} {tok : Text} :
    (Settable boost tagMap tok → setField boost tagMap tok =
        .ok fun tag => (tagMap tag).map fun old => (valueFor boost tag tok).getD old) ∧
      (¬ Settable boost tagMap tok → ∃ e, setField boost tagMap tok = .error e) := by
  constructor
  · rintro ⟨f, hfield, hhas⟩
    obtain ⟨old, hold⟩ := Option.ne_none_iff_exists'.mp hhas
    rw [setField_of_fieldOf hfield]
    simp only [setValue, hold, Except.ok.injEq]
    funext tag
    by_cases htag : tag = f.1
    · rw [htag, Function.update_self, hold]
      simp [valueFor, hfield]
    · rw [Function.update_of_ne htag]
      have hother : valueFor boost tag tok = none := by simp [valueFor, hfield, Ne.symm htag]
      simp [hother]
  · intro hnot
    cases hfield : fieldOf boost tok with
    | none => exact setField_of_not_fieldOf hfield
    | some f =>
        have hnone : tagMap f.1 = none := by
          by_contra hhas
          exact hnot ⟨f, hfield, hhas⟩
        rw [setField_of_fieldOf hfield, setValue, hnone]
        exact ⟨_, rfl⟩

theorem lastOf_cons (tok : Text) (toks : List Text) (tag : ℤ) :
    lastOf boost (tok :: toks) tag = (lastOf boost toks tag).or (valueFor boost tag tok) := by
  rw [lastOf, List.reverse_cons, List.findSome?_append, List.findSome?_singleton]
  rfl

/-- Each field of the object ends with the value of its last token; a token that sets no
field of it stops the parse. -/
theorem foldlM_setField (toks : List Text) (tagMap : TagMap) :
    ((∀ tok ∈ toks, Settable boost tagMap tok) → toks.foldlM (setField boost) tagMap =
        .ok fun tag => (tagMap tag).map fun old => (lastOf boost toks tag).getD old) ∧
      (¬ (∀ tok ∈ toks, Settable boost tagMap tok) →
        ∃ e, toks.foldlM (setField boost) tagMap = .error e) := by
  induction toks generalizing tagMap with
  | nil =>
      refine ⟨fun _ => ?_, fun hnot => absurd (by simp) hnot⟩
      simp only [List.foldlM_nil, lastOf, List.reverse_nil, List.findSome?_nil, Option.getD_none,
        Option.map_id']
      rfl
  | cons tok toks ih =>
      rw [List.forall_mem_cons, List.foldlM_cons]
      by_cases htok : Settable boost tagMap tok
      · have hstep := setField_eq.1 htok
        have hkeys : ∀ other, Settable boost
            (fun tag => (tagMap tag).map fun old => (valueFor boost tag tok).getD old) other ↔
              Settable boost tagMap other := by
          intro other
          simp [Settable]
        have hrest := ih fun tag => (tagMap tag).map fun old => (valueFor boost tag tok).getD old
        simp only [hkeys] at hrest
        rw [hstep]
        constructor
        · rintro ⟨_, hall⟩
          have hlater := hrest.1 hall
          simp only [bind, Except.bind, hlater, Except.ok.injEq]
          funext tag
          cases htag : tagMap tag with
          | none => rfl
          | some old =>
              rw [lastOf_cons]
              cases lastOf boost toks tag <;> simp
        · intro hnot
          exact hrest.2 fun hall => hnot ⟨htok, hall⟩
      · obtain ⟨e, he⟩ := setField_eq.2 htok
        rw [he]
        exact ⟨fun hall => absurd hall.1 htok, fun _ => ⟨e, rfl⟩⟩

/-! ## When the two scans agree -/

section Agreement

variable (boost : Boost)

def LogonFields (ms : Text) : Prop :=
  ∀ tok ∈ tokens boost ms, ∃ f, fieldOf boost tok = some f ∧ f.1 ∈ logonTags.map Tag.code

def KnownFields (ms : Text) : Prop :=
  ∀ tok ∈ tokens boost ms, ∃ f, fieldOf boost tok = some f ∧ ∃ tag : Tag, f.1 = tag.code

def HasLogonField (ms : Text) : Prop :=
  ∃ tok ∈ tokens boost ms, fieldOf boost tok = some (35, ['A'])

structure Consistent (ms : Text) : Prop where
  sameClass : ∀ msg, makeMessage boost ms = .ok msg →
    msg.type = getMsType boost ms ∧
      getMsType boost ms = MsConsts.getMsType (msg.getFieldValue Tag.msgType.code)
  lastValue : ∀ msg, makeMessage boost ms = .ok msg → ∀ tag, msg.tagMap tag ≠ none →
    msg.getFieldValue tag = (lastOf boost (tokens boost ms) tag).getD MsConsts.invalidValue
  accepted : KnownFields boost ms → HasLogonField boost ms → ∃ msg, makeMessage boost ms = .ok msg

/-- The first `35=` between two separators announces a logon. -/
def DelimitedLogon (ms : Text) : Prop :=
  ∃ value, delimitedMsgType ms = some value ∧ MsConsts.getMsType value = .logon

/-- No later message type contradicts the one that is found, and a message type `A` is
found wherever it stands. -/
structure ScansAgree (ms : Text) : Prop where
  last : LogonFields boost ms → DelimitedLogon ms →
    ∀ value, lastOf boost (tokens boost ms) Tag.msgType.code = some value →
      MsConsts.getMsType value = .logon
  found : KnownFields boost ms → HasLogonField boost ms →
    DelimitedLogon ms ∧
      ∀ tok ∈ tokens boost ms, ∀ f, fieldOf boost tok = some f → f.1 ≠ Tag.senderLocationID.code

end Agreement

theorem getMsType_eq_logon_iff (ms : Text) : getMsType boost ms = .logon ↔ DelimitedLogon ms := by
  rw [getMsType_eq, DelimitedLogon]
  cases delimitedMsgType ms with
  | none => simp
  | some value => simp

theorem settable_initMap_iff {tok : Text} :
    Settable boost (initMap logonTags) tok ↔
      ∃ f, fieldOf boost tok = some f ∧ f.1 ∈ logonTags.map Tag.code := by
  apply exists_congr
  intro f
  apply and_congr_right
  intro _
  rw [initMap]
  split_ifs with hmem
  · simp [hmem]
  · simp [hmem]

def parsedLogon (boost : Boost) (ms : Text) : MsBase :=
  ⟨.logon, fun tag => (initMap logonTags tag).map fun old =>
    (lastOf boost (tokens boost ms) tag).getD old⟩

theorem makeMessage_eq_ok_iff {ms : Text} {msg : MsBase} :
    makeMessage boost ms = .ok msg ↔
      DelimitedLogon ms ∧ LogonFields boost ms ∧ msg = parsedLogon boost ms := by
  have hparse := @foldlM_setField boost (tokens boost ms) (initMap logonTags)
  simp only [settable_initMap_iff] at hparse
  rw [← getMsType_eq_logon_iff, makeMessage, parse]
  cases htype : getMsType boost ms with
  | unknownMsType => simp
  | newOrderSingle => simp
  | logon =>
      by_cases hfields : LogonFields boost ms
      · have hok := hparse.1 hfields
        simp only [hok, bind, Except.bind, pure, Except.pure, Except.ok.injEq, hfields, true_and]
        exact eq_comm
      · obtain ⟨e, he⟩ := hparse.2 hfields
        simp [he, hfields, bind, Except.bind]

theorem getFieldValue_parsedLogon {ms : Text} {tag : ℤ}
    (htag : tag ∈ logonTags.map Tag.code) :
    (parsedLogon boost ms).getFieldValue tag =
      (lastOf boost (tokens boost ms) tag).getD MsConsts.invalidValue := by
  have hinit : initMap logonTags tag = some MsConsts.invalidValue := if_pos htag
  simp only [MsBase.getFieldValue, parsedLogon, hinit, Option.map_some, Option.getD_some]

theorem mem_tagMap_parsedLogon {ms : Text} {tag : ℤ}
    (htag : (parsedLogon boost ms).tagMap tag ≠ none) : tag ∈ logonTags.map Tag.code := by
  by_contra hnot
  have hinit : initMap logonTags tag = none := if_neg hnot
  exact htag (by simp only [parsedLogon, hinit, Option.map_none])

theorem fieldOf_msgType {value : Text} (hvalue : value ≠ []) :
    fieldOf boost (msgTypeStart ++ value) = some (35, value) := by
  have hpos : findSub ['='] (msgTypeStart ++ value) = some 2 := rfl
  have hlength : 0 < value.length := List.length_pos_iff.mpr hvalue
  have htake : (msgTypeStart ++ value).take 2 = ['3', '5'] := rfl
  have htag : boost.lexicalCastInt ['3', '5'] = some 35 :=
    boost.lexicalCastInt_toDigits 35 (by decide)
  have hfits : ¬ (2 < 1 ∨ 2 + 2 > (msgTypeStart ++ value).length) := by
    rw [List.length_append, msgTypeStart, List.length_cons, List.length_cons,
      List.length_singleton]
    omega
  simp only [fieldOf, hpos, if_neg hfits, htake, htag, Option.map_some]
  rfl

/-- The message type that is found is the value of one of the tokens. -/
theorem exists_lastOf_of_delimited {ms : Text} (hlogon : DelimitedLogon ms) :
    ∃ value, lastOf boost (tokens boost ms) Tag.msgType.code = some value := by
  obtain ⟨value, hvalue, htype⟩ := hlogon
  rw [delimitedMsgType, Option.map_eq_some_iff] at hvalue
  obtain ⟨f, hfound, hdrop⟩ := hvalue
  have hstart := List.find?_some hfound
  obtain ⟨rest, rfl⟩ := List.isPrefixOf_iff_prefix.mp hstart
  rw [List.drop_left] at hdrop
  have hne : rest ≠ [] := by
    rw [hdrop]
    rintro rfl
    exact absurd htype (by decide)
  have hmem : msgTypeStart ++ rest ∈ tokens boost ms := by
    rw [tokens, boost.tokens_eq, List.mem_filter]
    refine ⟨List.mem_of_mem_tail (List.dropLast_subset _ (List.mem_of_find?_eq_some hfound)), ?_⟩
    simp [msgTypeStart]
  have hcarries : valueFor boost Tag.msgType.code (msgTypeStart ++ rest) = some rest := by
    rw [valueFor, fieldOf_msgType hne]
    rfl
  rw [← Option.isSome_iff_exists, lastOf, List.findSome?_isSome_iff]
  exact ⟨_, List.mem_reverse.mpr hmem, by rw [hcarries]; rfl⟩

theorem logonFields_iff_of_known {ms : Text} (hknown : KnownFields boost ms) :
    LogonFields boost ms ↔
      ∀ tok ∈ tokens boost ms, ∀ f, fieldOf boost tok = some f →
        f.1 ≠ Tag.senderLocationID.code := by
  constructor
  · intro hfields tok htok f hfield hcode
    obtain ⟨g, hg, hmem⟩ := hfields tok htok
    rw [hfield, Option.some.injEq] at hg
    rw [← hg, hcode] at hmem
    exact absurd hmem (by decide)
  · intro hnone tok htok
    obtain ⟨f, hfield, tag, htag⟩ := hknown tok htok
    refine ⟨f, hfield, ?_⟩
    have hother := hnone tok htok f hfield
    rw [htag] at hother ⊢
    cases tag <;> first | exact absurd rfl hother | decide

theorem consistent_iff_scansAgree (boost : Boost) (ms : Text) :
    Consistent boost ms ↔ ScansAgree boost ms := by
  have htype : Tag.msgType.code ∈ logonTags.map Tag.code := by decide
  constructor
  · intro hconsistent
    constructor
    · intro hfields hlogon value hvalue
      have hok := makeMessage_eq_ok_iff.mpr ⟨hlogon, hfields, rfl⟩
      have hclass := (hconsistent.sameClass _ hok).2
      rw [getFieldValue_parsedLogon htype, hvalue, Option.getD_some,
        (getMsType_eq_logon_iff ms).mpr hlogon] at hclass
      exact hclass.symm
    · intro hknown hhas
      obtain ⟨msg, hok⟩ := hconsistent.accepted hknown hhas
      obtain ⟨hlogon, hfields, _⟩ := makeMessage_eq_ok_iff.mp hok
      exact ⟨hlogon, (logonFields_iff_of_known hknown).mp hfields⟩
  · intro hagree
    constructor
    · intro msg hok
      obtain ⟨hlogon, hfields, rfl⟩ := makeMessage_eq_ok_iff.mp hok
      obtain ⟨value, hvalue⟩ := exists_lastOf_of_delimited hlogon
      rw [getFieldValue_parsedLogon htype, hvalue, Option.getD_some,
        hagree.last hfields hlogon value hvalue, (getMsType_eq_logon_iff ms).mpr hlogon]
      exact ⟨rfl, rfl⟩
    · intro msg hok tag htag
      obtain ⟨_, _, rfl⟩ := makeMessage_eq_ok_iff.mp hok
      exact getFieldValue_parsedLogon (mem_tagMap_parsedLogon htag)
    · intro hknown hhas
      obtain ⟨hlogon, hnone⟩ := hagree.found hknown hhas
      exact ⟨parsedLogon boost ms,
        makeMessage_eq_ok_iff.mpr ⟨hlogon, (logonFields_iff_of_known hknown).mpr hnone, rfl⟩⟩

theorem consistent_middleField : Consistent Boost.plain "8=FIX.4.2^35=A^34=1".toList := by
  rw [consistent_iff_scansAgree Boost.plain]
  have htokens : tokens Boost.plain "8=FIX.4.2^35=A^34=1".toList =
      ["8=FIX.4.2".toList, "35=A".toList, "34=1".toList] := by decide
  have hlogon : DelimitedLogon "8=FIX.4.2^35=A^34=1".toList := ⟨['A'], by decide, by decide⟩
  constructor
  · intro _ _ value hvalue
    have hlast : lastOf Boost.plain (tokens Boost.plain "8=FIX.4.2^35=A^34=1".toList)
        Tag.msgType.code = some ['A'] := by decide
    rw [hlast, Option.some.injEq] at hvalue
    rw [← hvalue]
    decide
  · intro _ _
    refine ⟨hlogon, ?_⟩
    rw [htokens]
    decide

/-- A message type at the end of the text, without a separator behind it, is not found. -/
theorem not_consistent_lastField : ¬ Consistent Boost.plain "8=FIX.4.2^35=A".toList := by
  intro hconsistent
  have hknown : KnownFields Boost.plain "8=FIX.4.2^35=A".toList := by
    intro tok htok
    have hmem : tok = "8=FIX.4.2".toList ∨ tok = "35=A".toList := by
      have htokens : tokens Boost.plain "8=FIX.4.2^35=A".toList =
          ["8=FIX.4.2".toList, "35=A".toList] := by decide
      rw [htokens, List.mem_cons, List.mem_singleton] at htok
      exact htok
    rcases hmem with rfl | rfl
    · exact ⟨(8, "FIX.4.2".toList), by decide, .beginString, rfl⟩
    · exact ⟨(35, ['A']), by decide, .msgType, rfl⟩
  have hhas : HasLogonField Boost.plain "8=FIX.4.2^35=A".toList :=
    ⟨"35=A".toList, by decide, by decide⟩
  obtain ⟨msg, hok⟩ := hconsistent.accepted hknown hhas
  obtain ⟨⟨value, hvalue, _⟩, _⟩ := makeMessage_eq_ok_iff.mp hok
  have hnone : delimitedMsgType "8=FIX.4.2^35=A".toList = none := by decide
  rw [hnone] at hvalue
  exact absurd hvalue (by simp)

end CppPlay.MesageParser
