import ParamStore.Store.Basic

/-! Plans. A change of the store is laid out as a list of commands before the first of them runs.
Commands run in order and the first failure ends the plan, so whatever interrupts it, the flash
has seen a part of the plan from its beginning. -/
namespace ParamStore

/-- One order to the flash, by offsets of the region. -/
inductive Command where
  | write (offset : Nat) (bytes : Bytes)
  | transfer (source target length : Nat)
  | erase (start stop : Nat)
  deriving DecidableEq, Repr

namespace Command

def run (region : Region) : Command → Action StoreError Unit
  | write offset bytes => (region.write offset bytes).mapError .flash
  | transfer source target length => Action.mapError .flash do
    region.write target (← Action.observe fun chip => region.read chip source length)
  | erase start stop => (region.erase start stop).mapError .flash

def runAll (region : Region) : List Command → Action StoreError Unit
  | [] => pure ()
  | command :: rest => do
    command.run region
    runAll region rest

/-- Copy `length` bytes, one chunk after the other. -/
def transfers (source target length : Nat) : List Command :=
  if 0 < length then
    let chunk := min chunkSize length
    transfer source target chunk :: transfers (source + chunk) (target + chunk) (length - chunk)
  else []
termination_by length
decreasing_by simp [chunkSize]; omega

/-- Program the header of a record whose payload is in place. The parameter comes last: until it
is there, the log ends before the record. -/
def commit (record : Record) : List Command :=
  [write record.sizeField (halfwordBytes record.size),
   write record.parameterField (halfwordBytes record.parameter)]

/-- Kill a record without moving it. -/
def invalidate (record : Record) : Command := write record.parameterField (halfwordBytes tombstone)

/-- Program a payload. An odd last byte shares its half-word with a byte left erased. -/
def payload (offset : Nat) (data : Bytes) : List Command :=
  let even := data.length / 2 * 2
  write offset (data.take even) ::
    match data[even]? with
    | some last => [write (offset + even) [last, erasedByte]]
    | none => []

/-- Append a new value of `parameter` to the log, and kill the old ones once it stands. -/
def append (log : Log) (parameter : UInt16) (data : Bytes) : List Command :=
  let record : Record := ⟨⟨parameter, .ofNat data.length⟩, log.tail⟩
  payload record.dataOffset data ++ commit record ++ (log.copies parameter).map invalidate

end Command

namespace Store

def run (store : Store) (commands : List Command) : Action StoreError Unit :=
  Command.runAll store.region commands

def eraseCommand (store : Store) (id : SegmentId) : Command :=
  .erase (store.segment id).start (store.segment id).stop

def markCommand (store : Store) (id : SegmentId) : Command :=
  .write (store.segment id).start (halfwordBytes inUseMagic)

def eraseSegment (store : Store) (id : SegmentId) : Action StoreError Unit :=
  store.run [store.eraseCommand id]

def markInUse (store : Store) (id : SegmentId) : Action StoreError Unit :=
  store.run [store.markCommand id]

end Store

end ParamStore
