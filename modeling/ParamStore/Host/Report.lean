import ParamStore.LittleEndian

/-! Reports, the messages between the host and the device: a command word and fifteen parameter
words, 64 bytes in all. -/
namespace ParamStore

/-- Append a slice to a vector that has room for `capacity` bytes in all: whether it was appended, and
what the vector holds then. -/
abbrev Extend := (capacity : Nat) → (held slice : Bytes) → Except Unit Unit × Bytes

/-- A slice that does not fit is not appended in part. -/
def extendWithin : Extend := fun capacity held slice =>
  if held.length + slice.length ≤ capacity then (.ok (), held ++ slice) else (.error (), held)

structure Report where
  command : UInt32
  parameters : Vector UInt32 15
  deriving DecidableEq, Repr

namespace Report

def ofCommand (command : UInt32) : Report := ⟨command, .replicate 15 0⟩

def words (report : Report) : List UInt32 := report.command :: report.parameters.toList

def toBytes (report : Report) : Bytes := report.words.flatMap wordBytes

/-- The bytes as a vector. Its capacity is one report, so whether they were appended is not asked. -/
def encodeToVec (extend : Extend) (report : Report) : Bytes := (extend 64 [] report.toBytes).2

/-- Word number `index` of `bytes`. -/
def wordAt (bytes : Bytes) (index : Nat) : UInt32 := wordOfBytes (bytes.drop (4 * index))

/-- Only 64 bytes are a report. -/
def ofBytes? (bytes : Bytes) : Option Report :=
  if bytes.length = 64 then
    some ⟨wordAt bytes 0, .ofFn fun index => wordAt bytes (index + 1)⟩
  else none

/-- A parameter word as a signed status. -/
def status (report : Report) (index : Fin 15) : Int32 := report.parameters[index].toInt32

def setStatus (report : Report) (index : Fin 15) (code : Int32) : Report :=
  { report with parameters := report.parameters.set index code.toUInt32 }

def setWord (report : Report) (index : Fin 15) (value : UInt32) : Report :=
  { report with parameters := report.parameters.set index value }

end Report

end ParamStore
