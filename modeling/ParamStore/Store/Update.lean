import ParamStore.Store.Compaction

/-! Setting and removing values. A new value is appended to the log and supersedes the old ones;
when the segment is full, compacting it once must make the room. -/
namespace ParamStore

namespace Store

/-- The log, if its tail takes a record of `size` payload bytes: the record must end within the
segment, and nothing may be programmed between the tail and the end of the segment. What an
interrupted append left there would otherwise pass for the next header. -/
def reserve (store : Store) (chip : Chip) (size : UInt16) : Attempt StoreError (Option Log) := do
  let log ← store.log chip
  let next ← tryNextOffset log.tail size
  if log.segment.stop < next then return none
  else if ← store.isBlank chip log.tail log.free then return some log
  else return none

/-- Compact, unless not even an empty segment has room for `size` payload bytes. -/
def makeRoom (store : Store) (size : UInt16) : Action StoreError Unit := do
  let segment ← Action.observe store.active
  let next ← Action.observe fun _ => tryNextOffset segment.firstRecord size
  if segment.stop < next then .fail .tooLarge
  else
    let _ ← store.compact
    return ()

def write (store : Store) (parameter : UInt16) (data : Bytes) : Action StoreError Unit := do
  if !isValidParameter parameter then .fail .invalidParameter
  else if maxPayload < data.length then .fail .tooLarge
  else
    let size := .ofNat data.length
    match ← Action.observe (store.reserve · size) with
    | some log => store.run (Command.append log parameter data)
    | none =>
      store.makeRoom size
      match ← Action.observe (store.reserve · size) with
      | some log => store.run (Command.append log parameter data)
      | none => .fail .tooLarge

def remove (store : Store) (parameter : UInt16) : Action StoreError Unit := do
  if !isValidParameter parameter then .fail .invalidParameter
  else
    let log ← Action.observe store.log
    if (log.copies parameter).isEmpty then .fail .notFound
    else store.run ((log.copies parameter).map Command.invalidate)

end Store

end ParamStore
