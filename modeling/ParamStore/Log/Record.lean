import ParamStore.Attempt
import ParamStore.LittleEndian

/-! Records of the log: a header of two half-words, the payload, and padding up to the next
multiple of four. No pointer leads to the next record; its place follows from the size. -/
namespace ParamStore

/-- Marks a record whose value was replaced or removed. -/
def tombstone : UInt16 := 0

/-- The two reserved ids never name a parameter: one marks dead records, the other unwritten
flash. -/
def isValidParameter (parameter : UInt16) : Bool :=
  parameter != tombstone && parameter != erasedHalfword

def headerSize : Nat := 4

def maxPayload : Nat := 65534

structure Header where
  parameter : UInt16
  size : UInt16
  deriving DecidableEq, Repr

namespace Header

def ofBytes (bytes : Bytes) : Header := ⟨halfwordOfBytes bytes, halfwordOfBytes (bytes.drop 2)⟩

def toBytes (header : Header) : Bytes :=
  halfwordBytes header.parameter ++ halfwordBytes header.size

/-- The log ends here. -/
def isErased (header : Header) : Bool := header.parameter == erasedHalfword

def isTombstone (header : Header) : Bool := header.parameter == tombstone

def isLive (header : Header) : Bool := isValidParameter header.parameter

end Header

/-- Where the record after one with `size` payload bytes at `offset` starts. -/
def nextOffset (offset : Nat) (size : UInt16) : Nat :=
  (offset + headerSize + size.toNat + 3) / 4 * 4

/-- `nextOffset` as the device computes it: adding four and then taking one away, so that even
the unaligned end plus four has to fit a register. -/
def tryNextOffset {ε : Type} (offset : Nat) (size : UInt16) : Attempt ε Nat := do
  let _ ← Attempt.fit (offset + headerSize + size.toNat + 4)
  return nextOffset offset size

/-- A header found at `offset`. -/
structure Record extends Header where
  offset : Nat
  deriving DecidableEq, Repr

namespace Record

def dataOffset (record : Record) : Nat := record.offset + headerSize

def dataEnd (record : Record) : Nat := record.dataOffset + record.size.toNat

def next (record : Record) : Nat := nextOffset record.offset record.size

/-- Bytes that the record takes up, padding included. -/
def span (record : Record) : Nat := record.next - record.offset

def parameterField (record : Record) : Nat := record.offset

def sizeField (record : Record) : Nat := record.offset + 2

end Record

end ParamStore
