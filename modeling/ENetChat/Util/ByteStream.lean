import ENetChat.Lib.LittleEndian

/-!
# The byte stream

`ByteStream` of `util/byte_stream.{h,cpp}`: one growable buffer with 32-bit
counters and one offset for reading and writing. `size_t` is 64 bits and the
machine is little-endian, so an integer in memory is its little-endian bytes.

A `memcpy` that reads past its source, and memory nobody has written, yield
unspecified bytes; `Unspecified` supplies them, and every operation that can
meet one takes it as an argument. So does `resize`, which copies twice as much
as the old buffer holds: it is assumed, wherever a stream grows, that this read
does not fault.
-/

namespace ENetChat

open LittleEndian (toLE fromLE)

/-- A `std::string`, and any other run of bytes. -/
abbrev Bytes := List UInt8

/-- What C++ leaves open: the byte at each index of memory the program has
not written, and the string that `UserInfo()` copies out of itself. -/
structure Unspecified where
  byte : Nat → UInt8
  name : Bytes

/-- Memory that happens to be zero. -/
instance : Inhabited Unspecified := ⟨{ byte := fun _ => 0, name := [] }⟩

inductive Exception where
  | outOfRange   -- std::out_of_range
  | lengthError  -- std::length_error
  deriving DecidableEq, Repr

/-- Why a computation does not come to its end. -/
inductive Halt where
  | threw (e : Exception)
  | diverges  -- a loop that never exits
  | nullDeref
  | wildRead  -- through a pointer never assigned, or to an erased map entry
  deriving DecidableEq, Repr

-- ---------------------------------------------------------------------------
-- Memory
-- ---------------------------------------------------------------------------

/-- A fresh allocation of `size` bytes. -/
def alloc (u : Unspecified) (size : Nat) : Bytes := (List.range size).map u.byte

/-- The `n` bytes that a `memcpy` finds from index `off` of `src` on: past the
end of `src` whatever is there, without a fault. -/
def readMem (u : Unspecified) (src : Bytes) (off n : Nat) : Bytes :=
  (List.range n).map fun i => src[off + i]?.getD (u.byte (off + i))

/-- `dst` after a `memcpy` of `data` to index `off`; what falls outside the
allocation is lost. -/
def writeMem (dst : Bytes) (off : Nat) (data : Bytes) : Bytes :=
  (dst.take off ++ data ++ dst.drop (off + data.length)).take dst.length

/-- `std::string::max_size()`. -/
def stdStringMaxSize : UInt64 := 0x7fffffffffffffff

-- ---------------------------------------------------------------------------
-- Construction and inspection
-- ---------------------------------------------------------------------------

structure ByteStream where
  mBuffer : Bytes      -- the allocation, `mCapacity` bytes
  mCapacity : UInt32
  mLength : UInt32
  mOffset : UInt32
  deriving DecidableEq, Repr

abbrev Stream := EStateM Halt ByteStream

namespace ByteStream

def initCapacity : UInt32 := 64

/-- `ByteStream(const unsigned int cap = 0)`. -/
def ofCap (u : Unspecified) (cap : UInt32) : ByteStream :=
  let mCapacity := if cap > 0 then cap else initCapacity
  { mBuffer := alloc u mCapacity.toNat, mCapacity, mLength := 0, mOffset := 0 }

/-- `ByteStream(const ByteStream& b)`. -/
def ofCopy (u : Unspecified) (b : ByteStream) : ByteStream :=
  { b with
    mBuffer := writeMem (alloc u b.mCapacity.toNat) 0 (readMem u b.mBuffer 0 b.mCapacity.toNat)
    mOffset := 0 }

/-- `ByteStream(const char* buf, size_t length)`. -/
def ofBuf (u : Unspecified) (buf : Bytes) (length : UInt64) : ByteStream :=
  let mCapacity := length.toUInt32
  { mBuffer := writeMem (alloc u mCapacity.toNat) 0 (readMem u buf 0 length.toNat)
    mCapacity, mLength := length.toUInt32, mOffset := 0 }

def resetPtr (s : ByteStream) : ByteStream := { s with mOffset := 0 }

/-- `end()`. -/
def atEnd (s : ByteStream) : Bool := s.mOffset == s.mLength

def getBuf (u : Unspecified) (s : ByteStream) : Bytes := readMem u s.mBuffer 0 s.mLength.toNat

def getCapacity (s : ByteStream) : UInt32 := s.mCapacity

def getLength (s : ByteStream) : UInt32 := s.mLength

/-- The bytes `peek` copies out. -/
def peek (u : Unspecified) (length : UInt64) (s : ByteStream) : Bytes :=
  let length := length -
    (if s.mOffset.toUInt64 + length > s.mLength.toUInt64 then s.mLength - s.mOffset
      else 0).toUInt64
  readMem u s.mBuffer s.mOffset.toNat length.toNat

/-- The one byte of a local variable that `peek` may leave as it was. -/
def peekByte (u : Unspecified) (s : ByteStream) : UInt8 := (peek u 1 s).headD (u.byte 0)

def peekInt8 (u : Unspecified) (s : ByteStream) : Int8 := (peekByte u s).toInt8

-- ---------------------------------------------------------------------------
-- Reading
-- ---------------------------------------------------------------------------

def read (u : Unspecified) (length : UInt64) : Stream Bytes := do
  let s ← get
  if s.mOffset.toUInt64 + length > s.mLength.toUInt64 then
    throw (.threw .outOfRange)
  else
    set { s with mOffset := s.mOffset + length.toUInt32 }
    return readMem u s.mBuffer s.mOffset.toNat length.toNat

/-- The number in the next `width` bytes. -/
def readLE (u : Unspecified) (width : Nat) : Stream Nat := do
  return fromLE (← read u (UInt64.ofNat width))

def readByte (u : Unspecified) : Stream UInt8 := return UInt8.ofNat (← readLE u 1)

def readInt8 (u : Unspecified) : Stream Int8 := return (UInt8.ofNat (← readLE u 1)).toInt8

def readInt16 (u : Unspecified) : Stream Int16 := return (UInt16.ofNat (← readLE u 2)).toInt16

def readInt32 (u : Unspecified) : Stream Int32 := return (UInt32.ofNat (← readLE u 4)).toInt32

def readInt64 (u : Unspecified) : Stream Int64 := return (UInt64.ofNat (← readLE u 8)).toInt64

def readUInt8 (u : Unspecified) : Stream UInt8 := return UInt8.ofNat (← readLE u 1)

def readUInt16 (u : Unspecified) : Stream UInt16 := return UInt16.ofNat (← readLE u 2)

def readUInt32 (u : Unspecified) : Stream UInt32 := return UInt32.ofNat (← readLE u 4)

def readUInt64 (u : Unspecified) : Stream UInt64 := return UInt64.ofNat (← readLE u 8)

def readString (u : Unspecified) : Stream Bytes := do
  let length ← readUInt64 u
  let s ← get
  if s.mOffset.toUInt64 + length > s.mLength.toUInt64 then
    throw (.threw .outOfRange)
  -- std::string str(m_buffer + m_offset, length)
  else if length > stdStringMaxSize then
    throw (.threw .lengthError)
  else
    set { s with mOffset := s.mOffset + length.toUInt32 }
    return readMem u s.mBuffer s.mOffset.toNat length.toNat

-- ---------------------------------------------------------------------------
-- Writing
-- ---------------------------------------------------------------------------

def resize (u : Unspecified) (s : ByteStream) : ByteStream :=
  let mCapacity := s.mCapacity * 2
  let temp := alloc u mCapacity.toNat
  { s with mCapacity, mBuffer := writeMem temp 0 (readMem u s.mBuffer 0 mCapacity.toNat) }

/-- `while (m_length >= m_capacity) resize();` in at most `fuel` rounds. -/
def grow (u : Unspecified) : (fuel : Nat) → ByteStream → Option ByteStream
  | 0, s => if s.mLength ≥ s.mCapacity then none else some s
  | fuel + 1, s => if s.mLength ≥ s.mCapacity then grow u fuel (s.resize u) else some s

/-- After 32 doublings a 32-bit capacity is 0 and stays 0, so a loop that
has not exited by then never does. -/
def growFuel : Nat := 33

/-- `data` is the memory behind the pointer. -/
def write (u : Unspecified) (data : Bytes) (length : UInt64) : Stream Bool := do
  let s ← get
  match grow u growFuel { s with mLength := s.mLength + length.toUInt32 } with
  | none => throw .diverges
  | some s =>
    set { s with
      mBuffer := writeMem s.mBuffer s.mOffset.toNat (readMem u data 0 length.toNat)
      mOffset := s.mOffset + length.toUInt32 }
    return true

/-- The little-endian bytes of an integer of `width` bytes. -/
def writeLE (u : Unspecified) (width n : Nat) : Stream Bool :=
  write u (toLE width n) (UInt64.ofNat width)

def writeByte (u : Unspecified) (byte : UInt8) : Stream Bool := writeLE u 1 byte.toNat

def writeInt8 (u : Unspecified) (i : Int8) : Stream Bool := writeLE u 1 i.toUInt8.toNat

def writeInt16 (u : Unspecified) (i : Int16) : Stream Bool := writeLE u 2 i.toUInt16.toNat

def writeInt32 (u : Unspecified) (i : Int32) : Stream Bool := writeLE u 4 i.toUInt32.toNat

def writeInt64 (u : Unspecified) (i : Int64) : Stream Bool := writeLE u 8 i.toUInt64.toNat

def writeUInt8 (u : Unspecified) (i : UInt8) : Stream Bool := writeLE u 1 i.toNat

def writeUInt16 (u : Unspecified) (i : UInt16) : Stream Bool := writeLE u 2 i.toNat

def writeUInt32 (u : Unspecified) (i : UInt32) : Stream Bool := writeLE u 4 i.toNat

def writeUInt64 (u : Unspecified) (i : UInt64) : Stream Bool := writeLE u 8 i.toNat

/-- `str.c_str()` ends in a NUL byte. -/
def writeString (u : Unspecified) (str : Bytes) (length : UInt64) : Stream Bool := do
  let success ← writeUInt64 u length
  if success then write u (str ++ [0]) length else return false

end ByteStream

end ENetChat
