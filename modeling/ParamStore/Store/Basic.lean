import ParamStore.Log.Basic

/-! A store of parameter values in a region of the flash, and the questions it answers without
changing anything. -/
namespace ParamStore

structure Store where
  region : Region
  layout : Layout
  deriving DecidableEq, Repr

/-- A value, or as much of it as the caller's buffer took. -/
structure Reading where
  bytes : Bytes
  truncated : Bool
  deriving DecidableEq, Repr

/-- The caller's buffer after the read. -/
def Reading.fill (reading : Reading) (buffer : Bytes) : Bytes :=
  reading.bytes ++ buffer.drop reading.bytes.length

/-- Status of a read that gave a value. -/
def readCode (truncated : Bool) : Int32 := if truncated then codeInsufficientBuffer else codeOk

def Reading.code (reading : Reading) : Int32 := readCode reading.truncated

/-- Occupancy of the segment in use. -/
structure Stats where
  active : SegmentId
  used : Nat
  live : Nat
  tombstoned : Nat
  free : Nat
  deriving DecidableEq, Repr

namespace Store

/-- The store with segments of `segmentSize` bytes in a region of a chip with such pages. -/
def create (region : Region) (pageSize segmentSize : Nat) : Attempt StoreError Store :=
  return ⟨region, ← Layout.fitting segmentSize region.length pageSize⟩

def segment (store : Store) (id : SegmentId) : Segment := store.layout.segment id

def readFlash (store : Store) (chip : Chip) (offset length : Nat) : Attempt StoreError Bytes :=
  (store.region.read chip offset length).mapError .flash

def isBlank (store : Store) (chip : Chip) (offset length : Nat) : Attempt StoreError Bool :=
  (store.region.isBlank chip offset length).mapError .flash

def magic (store : Store) (chip : Chip) (id : SegmentId) : Attempt StoreError UInt16 := do
  return halfwordOfBytes (← store.readFlash chip (store.segment id).start magicSize)

def isInUse (store : Store) (chip : Chip) (id : SegmentId) : Attempt StoreError Bool := do
  return (← store.magic chip id) == inUseMagic

/-- The segment that holds the log; if both claim to, it is the first. -/
def active (store : Store) (chip : Chip) : Attempt StoreError Segment := do
  if ← store.isInUse chip .a then return store.segment .a
  else if ← store.isInUse chip .b then return store.segment .b
  else .fail .noStorage

def log (store : Store) (chip : Chip) : Attempt StoreError Log := do
  Log.read store.region chip (← store.active chip)

/-- The value of `parameter`, at most `capacity` bytes of it. -/
def read (store : Store) (chip : Chip) (parameter : UInt16) (capacity : Nat) :
    Attempt StoreError Reading := do
  if !isValidParameter parameter then .fail .invalidParameter
  else match (← store.log chip).latest? parameter with
    | none => .fail .notFound
    | some record =>
      let length := min record.size.toNat capacity
      return ⟨← store.readFlash chip record.dataOffset length, length < record.size.toNat⟩

def contains (store : Store) (chip : Chip) (parameter : UInt16) : Attempt StoreError Bool := do
  if !isValidParameter parameter then return false
  else return ((← store.log chip).latest? parameter).isSome

/-- Counts are kept in half-words while the log is walked, so a full counter is noticed even if
the log turns out to be corrupt further on. -/
def stats (store : Store) (chip : Chip) : Attempt StoreError Stats := do
  let segment ← store.active chip
  let walked := walk store.region chip segment.firstRecord segment.stop
  let tombstoned ← Attempt.fitHalfword (walked.records.countP (·.isTombstone))
  let live ← Attempt.fitHalfword (walked.records.countP (!·.isTombstone))
  let tail ← walked.ending
  return {
    active := segment.id
    used := ← Attempt.difference tail segment.start
    live, tombstoned
    free := ← Attempt.difference segment.stop tail }

/-- Every parameter that has a value, with the size of the value. -/
def live (store : Store) (chip : Chip) : Attempt StoreError (List Header) := do
  return (survivors (← store.log chip).records).map Record.toHeader

/-- Show every parameter that has a value to a visitor, with the size of the value, on one walk over
the log. -/
def forEachLive {σ : Type} (store : Store) (chip : Chip) (visit : σ → Header → σ)
    (state : σ) : σ × Attempt StoreError Unit :=
  match store.active chip with
  | .error failure => (state, .error failure)
  | .ok segment => visitLive store.region chip visit state segment.firstRecord segment.stop

end Store

end ParamStore
