import ParamStore.Log.Walk
import ParamStore.Segment

/-! The log of a segment: what a walk of it has found that did not fail. -/
namespace ParamStore

/-- Of every live parameter its last record, in the order of the log. -/
def survivors : List Record → List Record
  | [] => []
  | record :: later =>
    if record.isLive ∧ later.all (·.parameter != record.parameter) then record :: survivors later
    else survivors later

/-- Appending goes on at `tail`. -/
structure Log where
  segment : Segment
  records : List Record
  tail : Nat
  deriving DecidableEq, Repr

namespace Log

def read (region : Region) (chip : Chip) (segment : Segment) : Attempt StoreError Log := do
  let walked := walk region chip segment.firstRecord segment.stop
  return ⟨segment, walked.records, ← walked.ending⟩

/-- Every record of `parameter`; after an interrupted update there are several. -/
def copies (log : Log) (parameter : UInt16) : List Record :=
  log.records.filter (·.parameter == parameter)

/-- The record that gives `parameter` its value is the last one. -/
def latest? (log : Log) (parameter : UInt16) : Option Record := (log.copies parameter).getLast?

/-- Bytes from the start of the segment to the tail. -/
def used (log : Log) : Nat := log.tail - log.segment.start

def free (log : Log) : Nat := log.segment.stop - log.tail

end Log

end ParamStore
