import ParamStore.Flash.Action

/-! A region of the chip, addressed by offsets from its base. Each mutation is verified by reading
it back, and the controller is unlocked for no longer than one half-word or one page takes. -/
namespace ParamStore

structure Region where
  base : Nat
  length : Nat
  deriving DecidableEq, Repr

/-- Bytes looked at in one go when a range is checked or copied. -/
def chunkSize : Nat := 32

/-- Whether `length` bytes from `offset` on are erased, by looking at one chunk after the other
until one is not. -/
def allErased {ε : Type} (read : Nat → Nat → Attempt ε Bytes) (offset length : Nat) :
    Attempt ε Bool :=
  if 0 < length then do
    let chunk := min chunkSize length
    if (← read offset chunk).all (· == erasedByte) then
      allErased read (offset + chunk) (length - chunk)
    else return false
  else return true
termination_by length
decreasing_by simp [chunkSize]; omega

namespace Region

/-- Address of a range of the region. -/
def address (region : Region) (offset length : Nat) : Attempt FlashError Nat :=
  if region.length < offset + length then .fail .outOfBounds
  else .fit (region.base + offset)

def read (region : Region) (chip : Chip) (offset length : Nat) : Attempt FlashError Bytes := do
  return chip.read (← region.address offset length) length

def isBlank (region : Region) (chip : Chip) (offset length : Nat) : Attempt FlashError Bool :=
  allErased (region.read chip) offset length

/-- Wait for the operation to end. A controller that hangs keeps its status flags. -/
def awaitIdle (protectError programError : FlashError) : Action FlashError Unit := do
  let status := (← get).currentStatus
  if status.busy then .fail .timeout
  else
    modify Chip.clearStatus
    if status.writeProtectError then .fail protectError
    else if status.programError then .fail programError
    else pure ()

def programHalfword (region : Region) (offset : Nat) (value : UInt16) :
    Action FlashError Unit :=
  if offset % 2 ≠ 0 then .fail .unaligned
  else do
    let address ← Action.observe fun _ => region.address offset 2
    Action.unlocked do
      modify (·.program address value)
      awaitIdle .writeProtect .program
      if (← get).read address 2 = halfwordBytes value then pure () else .fail .verify

/-- Erase the page that holds `offset`. -/
def erasePage (region : Region) (offset : Nat) : Action FlashError Unit := do
  let pageSize := (← get).pageSize
  let address ← Action.observe fun _ => region.address (offset - offset % pageSize) pageSize
  Action.unlocked do
    modify (·.erasePage address)
    awaitIdle .eraseWriteProtect .eraseProgram
    let erased ← Action.observe fun chip =>
      allErased (fun start length => return chip.read (← .fit start) length) address pageSize
    if erased then pure () else .fail .verify

def erasePages (region : Region) (pageSize page : Nat) : Nat → Action FlashError Unit
  | 0 => pure ()
  | count + 1 => do
    region.erasePage page
    region.erasePages pageSize (page + pageSize) count

/-- Erase the pages from `start` to `stop`. -/
def erase (region : Region) (start stop : Nat) : Action FlashError Unit := do
  let pageSize := (← get).pageSize
  if start % pageSize ≠ 0 ∨ stop % pageSize ≠ 0 ∨ stop < start then .fail .unaligned
  else if region.length < stop then .fail .outOfBounds
  else region.erasePages pageSize start ((stop - start) / pageSize)

def programAll (region : Region) : Nat → Bytes → Action FlashError Unit
  | offset, low :: high :: rest => do
    region.programHalfword offset (halfword low high)
    region.programAll (offset + 2) rest
  | _, _ => pure ()

/-- Program `bytes` from `offset` on, one half-word after the other. -/
def write (region : Region) (offset : Nat) (bytes : Bytes) : Action FlashError Unit :=
  if offset % 2 ≠ 0 ∨ bytes.length % 2 ≠ 0 then .fail .unaligned
  else do
    let _ ← Action.observe fun _ => region.address offset bytes.length
    region.programAll offset bytes

end Region

end ParamStore
