import ParamStore.Store.Compaction

/-! Setting up a store, and putting it right after an interruption. -/
namespace ParamStore

/-- What a recovery found. -/
inductive Recovery where
  | clean
  /-- Both segments were in use; the second was erased. -/
  | duplicateActive
  /-- The segment not in use held remains of a compaction and was erased. -/
  | dirtyInactive
  /-- No segment is in use; the store has to be formatted. -/
  | unprovisioned
  deriving DecidableEq, Repr

namespace Store

/-- Erase everything and start an empty log in the first segment. -/
def format (store : Store) : Action StoreError Unit :=
  store.run [store.eraseCommand .a, store.eraseCommand .b, store.markCommand .a]

def recoverSpare (store : Store) (spare : SegmentId) : Action StoreError Recovery := do
  if ← store.clearSpare (store.segment spare) then return .dirtyInactive else return .clean

def recover (store : Store) : Action StoreError Recovery := do
  let first ← Action.observe (store.isInUse · .a)
  let second ← Action.observe (store.isInUse · .b)
  match first, second with
  | false, false => return .unprovisioned
  | true, true =>
    store.eraseSegment .b
    return .duplicateActive
  | true, false => store.recoverSpare .b
  | false, true => store.recoverSpare .a

end Store

end ParamStore
