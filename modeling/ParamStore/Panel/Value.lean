import ParamStore.Wire.Basic

/-! Composite values that a panel keeps in its store. -/
namespace ParamStore

structure FaderSettings where
  channel : UInt8
  min : UInt16
  max : UInt16
  inverted : Bool
  deriving DecidableEq, Repr

instance : Wire FaderSettings where
  encode value :=
    Wire.encode value.channel ++ Wire.encode value.min ++ Wire.encode value.max ++
      Wire.encode value.inverted
  decode := return ⟨← Wire.decode, ← Wire.decode, ← Wire.decode, ← Wire.decode⟩

inductive PanelEvent where
  | idle
  | move (position : UInt16)
  | note (key : UInt8) (velocity : Int16)
  | pair (first second : UInt8)
  deriving DecidableEq, Repr

/-- An event is written as the number of its kind, then its parts. -/
instance : Wire PanelEvent where
  encode
    | .idle => Varint.encode 0
    | .move position => Varint.encode 1 ++ Wire.encode position
    | .note key velocity => Varint.encode 2 ++ Wire.encode key ++ Wire.encode velocity
    | .pair first second => Varint.encode 3 ++ Wire.encode first ++ Wire.encode second
  decode := do
    match ← Decoder.varint 32 with
    | 0 => return .idle
    | 1 => return .move (← Wire.decode)
    | 2 => return .note (← Wire.decode) (← Wire.decode)
    | 3 => return .pair (← Wire.decode) (← Wire.decode)
    | _ => failure

end ParamStore
