import CppPlay.FixAdapter.FieldType

/-!
# What is used of QuickFIX

The library is not part of the repository.  A message is the texts of its fields;
session ids and the conversions of numbers are parameters.
-/

namespace CppPlay.FixAdapter

/-- The fields of FIX messages that the adapter reads or writes. -/
inductive FixTag where
  | msgType | msgSeqNum | senderSubID | execType | execTransType | ordStatus
  | lastShares | cumQty | avgPx | lastPx | leavesQty | execID | orderID
  | clOrdID | origClOrdID | symbol | price | orderQty | side | ordType
  deriving DecidableEq, Repr

/-- `FIX::Message`, header fields included. -/
abbrev FixMessage := FixTag → Option CppString

namespace FixMessage

def empty : FixMessage := fun _ => none

def setField (msg : FixMessage) (tag : FixTag) (value : CppString) : FixMessage :=
  Function.update msg tag (some value)

def getField (msg : FixMessage) (tag : FixTag) : Except CppException CppString :=
  match msg tag with
  | none => .error .fieldNotFound
  | some value => .ok value

def isSet (msg : FixMessage) (tag : FixTag) : Bool := (msg tag).isSome

end FixMessage

/-- What the adapter uses of QuickFIX, session ids and the conversions between the text of
a field and a `double` or a `char`, and the text that Boost makes of a number. -/
structure QuickFix (SessionID : Type) where
  INVALID_SESSION_ID : SessionID
  fromString : CppString → SessionID
  stringOfDouble : Decimal → CppString
  doubleOfString : CppString → Option Decimal
  charOfString : CppString → Option Byte
  /-- `boost::lexical_cast<std::string>` -/
  lexicalCast : UInt32 → CppString

/-- Session ids that are their own text, and the numbers 0 and 100. -/
def QuickFix.plain : QuickFix CppString where
  INVALID_SESSION_ID := []
  fromString text := text
  stringOfDouble value := if value = 0 then [0x30] else [0x31, 0x30, 0x30]
  doubleOfString text := if text = [0x30] then some 0 else some 0x4059000000000000
  charOfString text := match text with
    | [ch] => some ch
    | _ => none
  lexicalCast value := (Nat.toDigits 10 value.toNat).map fun ch => UInt8.ofNat ch.toNat

end CppPlay.FixAdapter
