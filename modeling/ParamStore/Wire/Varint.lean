import ParamStore.LittleEndian

/-! Numbers of varying length: groups of seven bits, least significant first, with the high bit of
a byte set while more follow. -/
namespace ParamStore.Varint

def encode (value : Nat) : Bytes :=
  if value < 128 then [.ofNat value]
  else .ofNat (128 + value % 128) :: encode (value / 128)
termination_by value

/-- Groups that a number of `bits` bits can take. -/
def groups (bits : Nat) : Nat := (bits + 6) / 7

/-- Largest last group of a number of `bits` bits that takes all its groups. -/
def lastGroup (bits : Nat) : Nat := Nat.pow 2 (bits - 7 * (groups bits - 1)) - 1

/-- Read at most `left` groups, where the last of them may not exceed `last`. Leading zero groups
are accepted. -/
def decodeGroups (last : Nat) : Nat → Bytes → Option (Nat × Bytes)
  | 0, _ => none
  | _, [] => none
  | left + 1, byte :: rest =>
    if byte < 128 then
      if left = 0 ∧ last < byte.toNat then none else some (byte.toNat, rest)
    else do
      let (high, rest) ← decodeGroups last left rest
      return (byte.toNat - 128 + 128 * high, rest)

/-- Read a number of `bits` bits from the front of `bytes`. -/
def decode (bits : Nat) (bytes : Bytes) : Option (Nat × Bytes) :=
  decodeGroups (lastGroup bits) (groups bits) bytes

/-- Interleave the signs, so that numbers near zero stay short. -/
def zigzag (value : Int) : Nat :=
  if 0 ≤ value then 2 * value.toNat else 2 * (-value).toNat - 1

def unzigzag (code : Nat) : Int :=
  if code % 2 = 0 then (code / 2 : Nat) else -((code / 2 : Nat) + 1)

end ParamStore.Varint
