import ParamStore.Attempt
import ParamStore.LittleEndian
import ParamStore.Error

/-! A NOR flash chip behind its controller. A half-word is programmed only where it is erased, or
cleared to zero anywhere; a page is erased as a whole. The controller ignores mutations while it is
locked, and the chip can be told to misbehave: lose power after some mutations, refuse writes to
protected pages, never become idle, or flip a bit of the next half-word. -/
namespace ParamStore

structure Status where
  busy : Bool := false
  endOfOperation : Bool := false
  writeProtectError : Bool := false
  programError : Bool := false
  deriving DecidableEq, Repr

/-- Injected misbehaviour; the default is a chip that works. -/
structure Faults where
  writeProtected : BitVec 32 := 0
  /-- Mutations left until the supply fails. -/
  powerBudget : Option Nat := none
  stuckBusy : Bool := false
  corruptNext : Bool := false
  deriving DecidableEq, Repr

/-- The first cell has address `base`. Protection and erase counts cover 32 pages. -/
structure Chip where
  base : Nat
  pageSize : Nat
  memory : Array UInt8
  locked : Bool := true
  status : Status := {}
  faults : Faults := {}
  eraseCounts : Vector Nat 32 := .replicate 32 0
  mutations : Nat := 0
  lockViolations : Nat := 0
  deriving DecidableEq, Repr

namespace Chip

/-- A locked chip with every cell erased. -/
def erased (base size pageSize : Nat) : Chip :=
  { base, pageSize, memory := .replicate size erasedByte }

def size (chip : Chip) : Nat := chip.memory.size

/-- The cell at an offset of the chip; there is nothing but erased cells outside it. -/
def cell (chip : Chip) (offset : Nat) : UInt8 := chip.memory.getD offset erasedByte

def offset? (chip : Chip) (address : Nat) : Option Nat :=
  if chip.base ≤ address ∧ address - chip.base < chip.size then some (address - chip.base)
  else none

/-- A range that is not wholly on the chip reads as erased. -/
def read (chip : Chip) (address length : Nat) : Bytes :=
  match chip.offset? address with
  | some offset =>
    if offset + length ≤ chip.size then (List.range' offset length).map chip.cell
    else .replicate length erasedByte
  | none => .replicate length erasedByte

/-- The status register; the busy flag also shows an injected hang. -/
def currentStatus (chip : Chip) : Status :=
  { chip.status with busy := chip.status.busy || chip.faults.stuckBusy }

def eraseCount (chip : Chip) (page : Nat) : Nat := (chip.eraseCounts[page]?).getD 0

def isWriteProtected (chip : Chip) (offset : Nat) : Bool :=
  chip.faults.writeProtected.getLsbD (offset / chip.pageSize)

def unlock (chip : Chip) : Chip := { chip with locked := false }

def lock (chip : Chip) : Chip := { chip with locked := true }

def clearStatus (chip : Chip) : Chip := { chip with status := {} }

/-- Raise the program error. -/
def refuse (chip : Chip) : Chip := { chip with status := { programError := true } }

/-- Count a completed mutation. -/
def complete (chip : Chip) : Chip :=
  { chip with mutations := chip.mutations + 1, status := { endOfOperation := true } }

/-- Run `change` at `target` if the controller is unlocked, the target is on the chip and not
protected, and there is power left. A change that is run has drawn its power. -/
def mutate (chip : Chip) (target : Option Nat) (change : Chip → Nat → Chip) : Chip :=
  if chip.locked then { chip with lockViolations := chip.lockViolations + 1 }
  else match target with
    | none => chip.refuse
    | some offset =>
      if chip.isWriteProtected offset then { chip with status := { writeProtectError := true } }
      else match chip.faults.powerBudget with
        | none => change chip offset
        | some 0 => chip.refuse
        | some (left + 1) => change { chip with faults.powerBudget := some left } offset

def halfwordAt (chip : Chip) (offset : Nat) : UInt16 :=
  halfword (chip.cell offset) (chip.cell (offset + 1))

def setHalfword (chip : Chip) (offset : Nat) (value : UInt16) : Chip :=
  let low := chip.memory.setIfInBounds offset (.ofNat (value.toNat % 256))
  { chip with memory := low.setIfInBounds (offset + 1) (.ofNat (value.toNat / 256)) }

theorem cell_setHalfword (chip : Chip) (offset : Nat) (value : UInt16) (index : Nat)
    (inside : offset + 1 < chip.size) :
    (chip.setHalfword offset value).cell index =
      if index = offset then .ofNat (value.toNat % 256)
      else if index = offset + 1 then .ofNat (value.toNat / 256)
      else chip.cell index := by
  simp only [size] at inside
  simp only [setHalfword, cell, Array.getD_eq_getD_getElem?, Array.getElem?_setIfInBounds]
  grind

@[simp] theorem size_setHalfword (chip : Chip) (offset : Nat) (value : UInt16) :
    (chip.setHalfword offset value).size = chip.size := by
  simp [setHalfword, size]

/-- Flip the lowest bit of `value` if a bit flip is due. -/
def disturbed (chip : Chip) (value : UInt16) : UInt16 :=
  if chip.faults.corruptNext then value ^^^ 1 else value

/-- Bits only go from one to zero: an erased half-word takes any value, any other only zero. -/
def programAt (value : UInt16) (chip : Chip) (offset : Nat) : Chip :=
  if chip.halfwordAt offset ≠ erasedHalfword ∧ value ≠ 0 then chip.refuse
  else
    let stored := chip.disturbed (chip.halfwordAt offset &&& value)
    ({ chip with faults.corruptNext := false }.setHalfword offset stored).complete

def program (chip : Chip) (address : Nat) (value : UInt16) : Chip :=
  chip.mutate ((chip.offset? address).filter (· + 1 < chip.size)) (programAt value)

def eraseCells (chip : Chip) (start stop : Nat) : Chip :=
  { chip with memory :=
      chip.memory.mapIdx fun i old => if start ≤ i ∧ i < stop then erasedByte else old }

theorem cell_eraseCells (chip : Chip) (start stop index : Nat) :
    (chip.eraseCells start stop).cell index =
      if start ≤ index ∧ index < stop then erasedByte else chip.cell index := by
  simp only [eraseCells, cell, Array.getD_eq_getD_getElem?, Array.getElem?_mapIdx]
  cases chip.memory[index]? <;> grind

@[simp] theorem size_eraseCells (chip : Chip) (start stop : Nat) :
    (chip.eraseCells start stop).size = chip.size := by
  simp [eraseCells, size]

def countErase (chip : Chip) (page : Nat) : Chip :=
  if covered : page < 32 then
    { chip with eraseCounts := chip.eraseCounts.set page (chip.eraseCounts[page] + 1) covered }
  else chip

/-- Erase the page that holds `offset`. -/
def eraseAt (chip : Chip) (offset : Nat) : Chip :=
  let page := offset / chip.pageSize
  ((chip.eraseCells (page * chip.pageSize) ((page + 1) * chip.pageSize)).countErase page).complete

def erasePage (chip : Chip) (address : Nat) : Chip :=
  chip.mutate (chip.offset? address) eraseAt

/-- Pages beyond the 32 covered ones stay writable. -/
def protectPage (chip : Chip) (page : Nat) : Chip :=
  if page < 32 then
    { chip with faults.writeProtected := chip.faults.writeProtected ||| BitVec.twoPow 32 page }
  else chip

def failPowerAfter (chip : Chip) (mutations : Nat) : Chip :=
  { chip with faults.powerBudget := some mutations }

def restorePower (chip : Chip) : Chip := { chip with faults.powerBudget := none }

def setStuckBusy (chip : Chip) (stuck : Bool) : Chip := { chip with faults.stuckBusy := stuck }

def corruptNextProgram (chip : Chip) : Chip := { chip with faults.corruptNext := true }

/-- Replace cells behind the controller's back. -/
def poke (chip : Chip) (offset : Nat) : Bytes → Chip
  | [] => chip
  | byte :: rest =>
    { chip with memory := chip.memory.setIfInBounds offset byte }.poke (offset + 1) rest

end Chip

end ParamStore
