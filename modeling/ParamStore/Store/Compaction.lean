import ParamStore.Store.Plan

/-! Compaction: the last record of every live parameter moves to the other segment, packed from its
start, and the segments change roles. The new segment is marked before the old one is erased, so
at every moment one of them holds all values. -/
namespace ParamStore

structure Migration where
  source : SegmentId
  target : SegmentId
  copied : Nat
  reclaimed : Nat
  deriving DecidableEq, Repr

/-- Copy a record to `position`, payload first. The byte that pads an odd payload moves with it. -/
def Command.copy (record : Record) (position : Nat) : List Command :=
  transfers record.dataOffset (position + headerSize) ((record.size.toNat + 1) / 2 * 2) ++
    commit { record with offset := position }

namespace Store

def copyRecord (store : Store) (stop : Nat) (record : Record) (position : Nat) :
    Action StoreError Unit := do
  let dataEnd ← Action.observe fun _ => .fit (position + headerSize + record.size.toNat)
  if stop < dataEnd then .fail .corrupt
  else store.run (Command.copy record position)

/-- Copy the records one behind the other from `position` on, and tell where they end. -/
def pack (store : Store) (stop : Nat) : List Record → Nat → Action StoreError Nat
  | [], position => pure position
  | record :: rest, position => do
    store.copyRecord stop record position
    store.pack stop rest (← Action.observe fun _ => tryNextOffset position record.size)

/-- Make sure that nothing is left in a segment that is not in use. -/
def clearSpare (store : Store) (spare : Segment) : Action StoreError Bool := do
  if ← Action.observe (store.isBlank · spare.start spare.size) then return false
  else
    store.eraseSegment spare.id
    return true

def compact (store : Store) : Action StoreError Migration := do
  let source ← Action.observe store.active
  let target := store.segment source.id.other
  if ← Action.observe (store.isInUse · target.id) then .fail .targetInUse
  else
    let _ ← store.clearSpare target
    let log ← Action.observe (Log.read store.region · source)
    let kept := survivors log.records
    let tail ← store.pack target.stop kept target.firstRecord
    store.run [store.markCommand target.id, store.eraseCommand source.id]
    return {
      source := source.id
      target := target.id
      copied := kept.length
      reclaimed := log.used - (tail - target.start) }

end Store

end ParamStore
