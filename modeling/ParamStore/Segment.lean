import ParamStore.Attempt
import ParamStore.Error

/-! The two segments of a store, one after the other from offset zero. A segment starts with a
half-word that tells whether it is in use, and its log follows directly. -/
namespace ParamStore

inductive SegmentId where
  | a
  | b
  deriving DecidableEq, Repr

def SegmentId.other : SegmentId → SegmentId
  | a => b
  | b => a

/-- The first half-word of a segment that holds the log. -/
def inUseMagic : UInt16 := 0x5AA5

def magicSize : Nat := 2

/-- Offsets from `start` up to, not including, `stop`. -/
structure Segment where
  id : SegmentId
  start : Nat
  stop : Nat
  deriving DecidableEq, Repr

namespace Segment

def firstRecord (segment : Segment) : Nat := segment.start + magicSize

/-- `firstRecord` of a segment that may end at the last address. -/
def tryFirstRecord {ε : Type} (segment : Segment) : Attempt ε Nat := .fit segment.firstRecord

def size (segment : Segment) : Nat := segment.stop - segment.start

/-- `size` of a segment whose bounds may be in the wrong order. -/
def trySize {ε : Type} (segment : Segment) : Attempt ε Nat :=
  .difference segment.stop segment.start

end Segment

structure Layout where
  segmentSize : Nat
  deriving DecidableEq, Repr

namespace Layout

def totalSize (layout : Layout) : Nat := layout.segmentSize * 2

def segment (layout : Layout) : SegmentId → Segment
  | .a => ⟨.a, 0, layout.segmentSize⟩
  | .b => ⟨.b, layout.segmentSize, layout.totalSize⟩

/-- The layout with segments of `segmentSize` bytes: whole pages, and both within the capacity. -/
def fitting (segmentSize capacity pageSize : Nat) : Attempt StoreError Layout := do
  let layout : Layout := ⟨segmentSize⟩
  if segmentSize = 0 ∨ pageSize = 0 ∨ segmentSize % pageSize ≠ 0 then .fail .invalidLayout
  else if capacity < (← Attempt.fit layout.totalSize) then .fail .invalidLayout
  else return layout

end Layout

end ParamStore
