/-! The settings of a panel of faders and buttons. A setting of one fader or button has an id whose
high four bits name the group, the next four the fader or button, and the low eight the setting. -/
namespace ParamStore

/-- Put the index of a fader or button, modulo 16, into the id of a setting. -/
def withIndex (base : UInt16) (index : UInt8) : UInt16 := base ||| ((index &&& 0xF).toUInt16 <<< 8)

/-- The id without its index, and the index. -/
def splitIndex (id : UInt16) : UInt16 × UInt8 := (id &&& 0xF0FF, ((id &&& 0x0F00) >>> 8).toUInt8)

inductive FaderSetting where
  | midiChannel
  | mode
  | control
  | controlMin
  | controlMax
  | pitchMin
  | pitchMax
  deriving DecidableEq, Repr

namespace FaderSetting

def all : List FaderSetting :=
  [midiChannel, mode, control, controlMin, controlMax, pitchMin, pitchMax]

def base : FaderSetting → UInt16
  | midiChannel => 0x2001
  | mode => 0x2002
  | control => 0x2003
  | controlMin => 0x2004
  | controlMax => 0x2005
  | pitchMin => 0x2006
  | pitchMax => 0x2007

def id (setting : FaderSetting) (index : UInt8) : UInt16 := withIndex setting.base index

def ofId? (id : UInt16) : Option (FaderSetting × UInt8) :=
  let (base, index) := splitIndex id
  (all.find? (·.base == base)).map (·, index)

end FaderSetting

inductive ButtonSetting where
  | midiChannel
  | on
  | off
  | mode
  | control
  | note
  | noteVelocity
  | style
  deriving DecidableEq, Repr

namespace ButtonSetting

def all : List ButtonSetting :=
  [midiChannel, on, off, mode, control, note, noteVelocity, style]

def base : ButtonSetting → UInt16
  | midiChannel => 0x4001
  | on => 0x4002
  | off => 0x4003
  | mode => 0x4004
  | control => 0x4005
  | note => 0x4006
  | noteVelocity => 0x4007
  | style => 0x4008

def id (setting : ButtonSetting) (index : UInt8) : UInt16 := withIndex setting.base index

def ofId? (id : UInt16) : Option (ButtonSetting × UInt8) :=
  let (base, index) := splitIndex id
  (all.find? (·.base == base)).map (·, index)

end ButtonSetting

/-- What a fader sends when it is moved. -/
inductive FaderMode where
  | control
  | pitch
  deriving DecidableEq, Repr

def FaderMode.ofWord? : UInt32 → Option FaderMode
  | 0 => some control
  | 2 => some pitch
  | _ => none

/-- What a button sends when it is pressed. -/
inductive ButtonMode where
  | control
  | note
  deriving DecidableEq, Repr

def ButtonMode.ofWord? : UInt32 → Option ButtonMode
  | 0 => some control
  | 1 => some note
  | _ => none

/-- Whether a button keeps its state between presses. -/
inductive ButtonStyle where
  | momentary
  | toggle
  deriving DecidableEq, Repr

def ButtonStyle.ofWord? : UInt32 → Option ButtonStyle
  | 0 => some momentary
  | 1 => some toggle
  | _ => none

end ParamStore
