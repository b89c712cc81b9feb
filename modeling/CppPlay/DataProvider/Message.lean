import CppPlay.Lib.BigEndian
import CppPlay.Lib.Memory

/-!
# Messages and buffers of the data provider

A message is a header, copied out of memory as the machine stores it, and a body of the
size that the header announces.  Buffers are vectors of `long double`, of which the
first `_size` bytes count.
-/

namespace CppPlay.DataProvider

open CppPlay.Lib

abbrev Byte := UInt8

inductive ByteOrder where
  | little
  | big
  deriving DecidableEq

namespace ByteOrder

def store : ByteOrder → UInt32 → List Byte
  | little, value => (BigEndian.store 4 value.toNat).reverse
  | big, value => BigEndian.store 4 value.toNat

def load : ByteOrder → List Byte → UInt32
  | little, bytes => UInt32.ofNat (BigEndian.load bytes.reverse)
  | big, bytes => UInt32.ofNat (BigEndian.load bytes)

@[simp] theorem length_store (order : ByteOrder) (value : UInt32) :
    (order.store value).length = 4 := by
  cases order <;> simp [store]

theorem load_store (order : ByteOrder) (value : UInt32) :
    order.load (order.store value) = value := by
  have hlt : value.toNat < 256 ^ 4 := value.toNat_lt
  cases order <;> simp [load, store, BigEndian.load_store_of_lt hlt]

end ByteOrder

structure MsgHeader where
  msgSize : UInt32
  msgType : UInt32
  deriving DecidableEq

namespace MsgHeader

/-- `sizeof(RequestHeader)`. -/
def sizeof : ℕ := 8

def getBodySize (header : MsgHeader) : ℕ := header.msgSize.toNat

def bytes (order : ByteOrder) (header : MsgHeader) : List Byte :=
  order.store header.msgSize ++ order.store header.msgType

/-- `getPtr<RequestHeader>()` of a buffer with these bytes. -/
def ofBytes (order : ByteOrder) (bytes : List Byte) : MsgHeader :=
  ⟨order.load (bytes.take 4), order.load ((bytes.drop 4).take 4)⟩

@[simp] theorem length_bytes (order : ByteOrder) (header : MsgHeader) :
    (header.bytes order).length = sizeof := by
  simp [bytes, sizeof]

theorem ofBytes_bytes (order : ByteOrder) (header : MsgHeader) :
    ofBytes order (header.bytes order) = header := by
  unfold ofBytes bytes
  rw [List.take_left' (by simp), List.drop_left' (by simp), List.take_of_length_le (by simp),
    order.load_store, order.load_store]

end MsgHeader

/-- The storage of the vector, of `capacity` bytes, and how many of them count. -/
structure MaxAlignedBuffer where
  storage : Memory Byte
  capacity : ℕ
  size : ℕ
  size_le : size ≤ capacity

namespace MaxAlignedBuffer

/-- `sizeof(long double)`. -/
def sizeofScalar : ℕ := 16

/-- The bytes of the scalars that `setSize` allocates. -/
def allocated (size : ℕ) : ℕ := (size / sizeofScalar + 1) * sizeofScalar

theorem le_allocated (size : ℕ) : size ≤ allocated size := by
  unfold allocated sizeofScalar
  omega

def empty : MaxAlignedBuffer := ⟨fun _ => 0, 0, 0, le_rfl⟩

/-- The resized vector keeps what it has and fills up with zeros. -/
def setSize (buffer : MaxAlignedBuffer) (size : ℕ) : MaxAlignedBuffer :=
  ⟨fun i => if i < buffer.capacity then buffer.storage i else 0, allocated size, size,
    le_allocated size⟩

def memcpy (buffer : MaxAlignedBuffer) (pos : ℕ) (bytes : List Byte) : MaxAlignedBuffer :=
  { buffer with storage := buffer.storage.write pos bytes }

def setBuffer (buffer : MaxAlignedBuffer) (src : List Byte) : MaxAlignedBuffer :=
  (buffer.setSize src.length).memcpy 0 src

/-- What `getAsioBuffer` covers. -/
def contents (buffer : MaxAlignedBuffer) : List Byte := buffer.storage.read 0 buffer.size

def add (l r : MaxAlignedBuffer) : MaxAlignedBuffer :=
  ((empty.setSize (l.size + r.size)).memcpy 0 l.contents).memcpy l.size r.contents

instance : Add MaxAlignedBuffer := ⟨add⟩

@[simp] theorem size_setSize (buffer : MaxAlignedBuffer) (size : ℕ) :
    (buffer.setSize size).size = size := rfl

@[simp] theorem size_memcpy (buffer : MaxAlignedBuffer) (pos : ℕ) (bytes : List Byte) :
    (buffer.memcpy pos bytes).size = buffer.size := rfl

@[simp] theorem length_contents (buffer : MaxAlignedBuffer) :
    buffer.contents.length = buffer.size := by
  simp [contents]

theorem contents_setBuffer (buffer : MaxAlignedBuffer) (src : List Byte) :
    (buffer.setBuffer src).contents = src :=
  Memory.read_write_self _ 0 src

theorem read_memcpy (buffer : MaxAlignedBuffer) (pos : ℕ) (bytes : List Byte) :
    (buffer.memcpy pos bytes).storage.read 0 (pos + bytes.length) =
      buffer.storage.read 0 pos ++ bytes := by
  rw [Memory.read_add, Nat.zero_add]
  congr 1
  · exact Memory.read_write_of_disjoint _ (.inl (by omega))
  · exact Memory.read_write_self _ pos bytes

/-- Two buffers are put together without a byte more or less. -/
theorem contents_add (l r : MaxAlignedBuffer) : (l + r).contents = l.contents ++ r.contents := by
  have hsecond :=
    read_memcpy ((empty.setSize (l.size + r.size)).memcpy 0 l.contents) l.size r.contents
  have hfirst := read_memcpy (empty.setSize (l.size + r.size)) 0 l.contents
  rw [length_contents] at hsecond hfirst
  rw [Nat.zero_add, Memory.read_zero, List.nil_append] at hfirst
  rw [hfirst] at hsecond
  exact hsecond

end MaxAlignedBuffer

/-! ## The client -/

structure Request where
  msgType : UInt32
  body : List Byte

namespace Request

/-- `RequestHeader(requestBody.size(), msgType)`; the size is cut to 32 bits. -/
def header (request : Request) : MsgHeader :=
  ⟨UInt32.ofNat request.body.length, request.msgType⟩

def sendBuffer (order : ByteOrder) (request : Request) : MaxAlignedBuffer :=
  MaxAlignedBuffer.empty.setBuffer (request.header.bytes order) +
    MaxAlignedBuffer.empty.setBuffer request.body

theorem contents_sendBuffer (order : ByteOrder) (request : Request) :
    (request.sendBuffer order).contents = request.header.bytes order ++ request.body := by
  unfold sendBuffer
  rw [MaxAlignedBuffer.contents_add, MaxAlignedBuffer.contents_setBuffer,
    MaxAlignedBuffer.contents_setBuffer]

theorem getBodySize_header {request : Request} (hbody : request.body.length < 2 ^ 32) :
    request.header.getBodySize = request.body.length := by
  unfold header MsgHeader.getBodySize
  rw [UInt32.toNat_ofNat', Nat.mod_eq_of_lt hbody]

end Request

def clientStream (order : ByteOrder) (requests : List Request) : List Byte :=
  requests.flatMap fun request => (request.sendBuffer order).contents

theorem clientStream_cons (order : ByteOrder) (request : Request) (requests : List Request) :
    clientStream order (request :: requests) =
      request.header.bytes order ++ (request.body ++ clientStream order requests) := by
  unfold clientStream
  rw [List.flatMap_cons, Request.contents_sendBuffer, List.append_assoc]

end CppPlay.DataProvider
