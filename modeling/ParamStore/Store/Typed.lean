import ParamStore.Store.Update
import ParamStore.Wire.Basic

/-! Typed values in the store, in their compact byte form and up to 64 bytes long. -/
namespace ParamStore

def maxEncoded : Nat := 64

namespace Store

variable {α : Type} [Wire α]

def save (store : Store) (parameter : UInt16) (value : α) : Action StoreError Unit :=
  let encoded := Wire.encode value
  if maxEncoded < encoded.length then .fail .serialize
  else store.write parameter encoded

def load (store : Store) (chip : Chip) (parameter : UInt16) : Attempt StoreError α := do
  let reading ← store.read chip parameter maxEncoded
  if reading.truncated then .fail .deserialize
  else match (Wire.decode : Decoder α) reading.bytes with
    | some (value, _) => return value
    | none => .fail .deserialize

end Store

end ParamStore
