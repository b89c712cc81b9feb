import CppPlay.Lib.BigEndian
import CppPlay.FixAdapter.FieldType

/-!
# The external headers over network byte order

A value of `Espd` in which the wrappers store big-endian and the protocol's
numbers are those of the enumerations, so that the model can be evaluated.
-/

namespace CppPlay.FixAdapter.NetworkOrder

open CppPlay.Lib

def uespd8 : EspdWrapper UInt8 1 where
  store value := BigEndian.store 1 value.toNat
  load bytes := UInt8.ofNat (BigEndian.load bytes)
  length_store value := BigEndian.length_store 1 value.toNat
  load_store value := by
    rw [BigEndian.load_store_of_lt (by simpa using value.toNat_lt)]
    exact UInt8.ofNat_toNat

def uespd16 : EspdWrapper UInt16 2 where
  store value := BigEndian.store 2 value.toNat
  load bytes := UInt16.ofNat (BigEndian.load bytes)
  length_store value := BigEndian.length_store 2 value.toNat
  load_store value := by
    rw [BigEndian.load_store_of_lt (by simpa using value.toNat_lt)]
    exact UInt16.ofNat_toNat

def uespd32 : EspdWrapper UInt32 4 where
  store value := BigEndian.store 4 value.toNat
  load bytes := UInt32.ofNat (BigEndian.load bytes)
  length_store value := BigEndian.length_store 4 value.toNat
  load_store value := by
    rw [BigEndian.load_store_of_lt (by simpa using value.toNat_lt)]
    exact UInt32.ofNat_toNat

def espd32 : EspdWrapper Int32 4 where
  store value := uespd32.store value.toUInt32
  load bytes := (uespd32.load bytes).toInt32
  length_store value := uespd32.length_store value.toUInt32
  load_store value := by rw [uespd32.load_store]; rfl

def bespd64 : EspdWrapper Decimal 8 where
  store value := BigEndian.store 8 value.toNat
  load bytes := UInt64.ofNat (BigEndian.load bytes)
  length_store value := BigEndian.length_store 8 value.toNat
  load_store value := by
    rw [BigEndian.load_store_of_lt (by simpa using value.toNat_lt)]
    exact UInt64.ofNat_toNat

def espd : Espd where
  maxDataSize := 4096
  maxDataSize_le := by norm_num
  invalidFldSz := -1
  invalidFldSz_nonpos := by norm_num
  fieldTypeCode type := UInt8.ofNat type.ctorIdx
  fieldTypeCode_injective := by
    apply Function.LeftInverse.injective (g := fun code => FieldType.ofNat code.toNat)
    intro type
    cases type <;> rfl
  fieldIdCode ident := UInt16.ofNat ident.ctorIdx
  fieldIdCode_injective := by
    apply Function.LeftInverse.injective (g := fun code => FieldId.ofNat code.toNat)
    intro ident
    cases ident <;> rfl
  msgTypeCode type := UInt16.ofNat type.ctorIdx
  msgTypeCode_injective := by
    apply Function.LeftInverse.injective (g := fun code => MsgType.ofNat code.toNat)
    intro type
    cases type <;> rfl
  notifyCmdCode cmd := UInt32.ofNat cmd.ctorIdx
  notifyCmdCode_injective := by
    apply Function.LeftInverse.injective (g := fun code => NotifyCmd.ofNat code.toNat)
    intro cmd
    cases cmd <;> rfl
  protocolId := 17
  version := 1
  order := 1
  submitOrder := 1
  orderInfoExtendedProperties := 1
  orderBuy := 1
  orderSell := 2
  uespd8 := uespd8
  uespd16 := uespd16
  uespd32 := uespd32
  espd32 := espd32
  bespd64 := bespd64

end CppPlay.FixAdapter.NetworkOrder
