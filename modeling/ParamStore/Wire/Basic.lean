import ParamStore.Wire.Varint

/-! The compact byte form of typed values. It names no types: what a reader makes of the bytes
depends on the type it asks for, and bytes after the value are ignored. -/
namespace ParamStore

abbrev Decoder (α : Type) := StateT Bytes Option α

class Wire (α : Type) where
  encode : α → Bytes
  decode : Decoder α

/-- A number in the 32-bit binary floating-point format, as its bit pattern. -/
structure Binary32 where
  bits : UInt32
  deriving DecidableEq, Repr

namespace Decoder

def byte : Decoder UInt8
  | [] => none
  | first :: rest => some (first, rest)

def bytes (count : Nat) : Decoder Bytes := fun input =>
  if count ≤ input.length then some (input.splitAt count) else none

def varint (bits : Nat) : Decoder Nat := Varint.decode bits

/-- Lengths are numbers of 64 bits. -/
def length : Decoder Nat := varint 64

def items {α : Type} (item : Decoder α) : Nat → Decoder (List α)
  | 0 => pure []
  | count + 1 => do
    let first ← item
    return first :: (← items item count)

def text (count : Nat) : Decoder String := do
  let read ← bytes count
  (String.fromUTF8? ⟨read.toArray⟩ : Option String)

end Decoder

namespace Wire

variable {α β : Type}

def encodeList [Wire α] (values : List α) : Bytes := values.flatMap encode

instance : Wire Unit where
  encode _ := []
  decode := pure ()

instance : Wire Bool where
  encode
    | false => [0]
    | true => [1]
  decode := do
    match ← Decoder.byte with
    | 0 => return false
    | 1 => return true
    | _ => failure

instance : Wire UInt8 where
  encode value := [value]
  decode := Decoder.byte

instance : Wire UInt16 where
  encode value := Varint.encode value.toNat
  decode := return .ofNat (← Decoder.varint 16)

instance : Wire UInt32 where
  encode value := Varint.encode value.toNat
  decode := return .ofNat (← Decoder.varint 32)

instance : Wire UInt64 where
  encode value := Varint.encode value.toNat
  decode := return .ofNat (← Decoder.varint 64)

instance : Wire Int8 where
  encode value := [value.toUInt8]
  decode := return (← Decoder.byte).toInt8

instance : Wire Int16 where
  encode value := Varint.encode (Varint.zigzag value.toInt)
  decode := return .ofInt (Varint.unzigzag (← Decoder.varint 16))

instance : Wire Int32 where
  encode value := Varint.encode (Varint.zigzag value.toInt)
  decode := return .ofInt (Varint.unzigzag (← Decoder.varint 32))

instance : Wire Int64 where
  encode value := Varint.encode (Varint.zigzag value.toInt)
  decode := return .ofInt (Varint.unzigzag (← Decoder.varint 64))

instance : Wire Binary32 where
  encode value := wordBytes value.bits
  decode := return ⟨wordOfBytes (← Decoder.bytes 4)⟩

instance : Wire String where
  encode value := Varint.encode value.utf8ByteSize ++ value.toUTF8.data.toList
  decode := do Decoder.text (← Decoder.length)

/-- A character is written as the text that holds only it. Of a longer text of up to four bytes
the first character counts. -/
instance : Wire Char where
  encode value := encode value.toString
  decode := do
    let count ← Decoder.length
    if 4 < count then failure
    else ((← Decoder.text count).toList.head? : Option Char)

instance [Wire α] : Wire (Option α) where
  encode
    | none => [0]
    | some value => 1 :: encode value
  decode := do
    match ← Decoder.byte with
    | 0 => return none
    | 1 => return some (← decode)
    | _ => failure

instance [Wire α] : Wire (List α) where
  encode values := Varint.encode values.length ++ encodeList values
  decode := do Decoder.items decode (← Decoder.length)

/-- The length of a vector is part of its type and is not written. -/
instance {n : Nat} [Wire α] : Wire (Vector α n) where
  encode values := encodeList values.toList
  decode := do
    let values ← Decoder.items decode n
    if fits : values.toArray.size = n then return ⟨values.toArray, fits⟩ else failure

instance [Wire α] [Wire β] : Wire (α × β) where
  encode | (first, second) => encode first ++ encode second
  decode := return (← decode, ← decode)

end Wire

end ParamStore
