/-! Error causes and the signed codes under which the host sees them: zero is success, negative
codes are failures, and the one positive code is a warning. -/
namespace ParamStore

/-- Causes found while touching the flash. -/
inductive FlashError where
  | writeProtect
  | program
  | verify
  | eraseWriteProtect
  | eraseProgram
  | timeout
  | outOfBounds
  | unaligned
  deriving DecidableEq, Repr

/-- Coarse classes of flash errors, for callers that only separate misuse from failure. -/
inductive FlashErrorKind where
  | outOfBounds
  | notAligned
  | other
  deriving DecidableEq, Repr

namespace FlashError

def code : FlashError → Int32
  | writeProtect => -2001
  | program => -2002
  | verify => -2003
  | eraseWriteProtect => -2004
  | eraseProgram => -2005
  | timeout => -2006
  | outOfBounds => -2007
  | unaligned => -2008

def kind : FlashError → FlashErrorKind
  | outOfBounds => .outOfBounds
  | unaligned => .notAligned
  | _ => .other

end FlashError

/-- Causes found by the parameter store. -/
inductive StoreError where
  /-- No segment is in use. -/
  | noStorage
  /-- The segment to compact into is in use already. -/
  | targetInUse
  | notFound
  /-- A header does not describe a record of its segment. -/
  | corrupt
  /-- The value does not fit, not even after a compaction. -/
  | tooLarge
  /-- The parameter id is one of the two reserved ones. -/
  | invalidParameter
  | serialize
  | deserialize
  /-- The segments do not match the flash. -/
  | invalidLayout
  | flash (cause : FlashError)
  deriving DecidableEq, Repr

namespace StoreError

def code : StoreError → Int32
  | noStorage => -1001
  | targetInUse => -1002
  | notFound => -1003
  | corrupt => -1004
  | tooLarge => -1005
  | invalidParameter => -1006
  | serialize => -1007
  | deserialize => -1008
  | invalidLayout => -1009
  | flash cause => cause.code

def isHardware : StoreError → Bool
  | flash _ => true
  | _ => false

end StoreError

/-- Status of a call that succeeded. -/
def codeOk : Int32 := 0

/-- Status of a read whose buffer was shorter than the value. -/
def codeInsufficientBuffer : Int32 := 1000

end ParamStore
