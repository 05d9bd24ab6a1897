import ParamStore.Store.Update

/-! Entry records of the boot loader: which user program is installed, and whether the next reset
goes straight into it. Both are words in the store; a missing one counts as zero. -/
namespace ParamStore

inductive BootError where
  | store (cause : StoreError)
  /-- The program does not lie in the flash of user programs. -/
  | badAddress
  deriving DecidableEq, Repr

def BootError.code : BootError → Int32
  | store cause => cause.code
  | badAddress => -3003

/-- Causes of the last reset. -/
structure ResetFlags where
  windowWatchdog : Bool := false
  independentWatchdog : Bool := false
  software : Bool := false
  pin : Bool := false
  powerOn : Bool := false
  deriving DecidableEq, Repr

/-- Watchdogs and software ask for the boot loader, and so does the reset pin unless the power
was switched on. -/
def ResetFlags.requestsBootLoader (flags : ResetFlags) : Bool :=
  flags.windowWatchdog || flags.independentWatchdog || flags.software ||
    (flags.pin && !flags.powerOn)

namespace Boot

/-- Holds the vector table address of the user program. -/
def vectorTableParameter : UInt16 := 0x1001

/-- Holds the word that skips the boot loader once. -/
def skipParameter : UInt16 := 0x1002

def skipMagic : UInt32 := 0x3C65A95A

def userFlashFirst : UInt32 := 0x08002000

def userFlashLast : UInt32 := 0x080077FF

/-- The two records; zero stands for a missing one. -/
structure Entry where
  vectorTable : UInt32
  magic : UInt32
  deriving DecidableEq, Repr

def Entry.none : Entry := ⟨0, 0⟩

/-- The installed program is started if the reset does not ask for the boot loader, or if the boot
loader is to be skipped. -/
def Entry.startsUserProgram (entry : Entry) (bootLoaderRequested : Bool) : Bool :=
  entry.vectorTable != 0 && (!bootLoaderRequested || entry.magic == skipMagic)

def readWord (store : Store) (chip : Chip) (parameter : UInt16) : Attempt StoreError UInt32 :=
  match store.read chip parameter 4 with
  | .ok reading => .ok (wordOfBytes reading.bytes)
  | .error (.error .notFound) => .ok 0
  | .error failure => .error failure

def writeWord (store : Store) (parameter : UInt16) (value : UInt32) : Action StoreError Unit :=
  store.write parameter (wordBytes value)

def Entry.load (store : Store) (chip : Chip) : Attempt BootError Entry := Attempt.mapError .store do
  return ⟨← readWord store chip vectorTableParameter, ← readWord store chip skipParameter⟩

/-- Clear a skip word, so that it works for one reset only. The answer is the entry left. -/
def Entry.consumeSkip (store : Store) (entry : Entry) : Action BootError Entry :=
  if entry.magic ≠ 0 then Action.mapError .store do
    writeWord store skipParameter 0
    return { entry with magic := 0 }
  else return entry

/-- Forget the installed program before it is overwritten. -/
def clearUserProgram (store : Store) : Action BootError Unit := Action.mapError .store do
  if (← Action.observe (readWord store · vectorTableParameter)) ≠ 0 then
    writeWord store vectorTableParameter 0
  else return ()

def setUserProgram (store : Store) (address : UInt32) : Action BootError Unit :=
  if userFlashFirst ≤ address ∧ address ≤ userFlashLast then
    (writeWord store vectorTableParameter address).mapError .store
  else .fail .badAddress

/-- Make the next reset go straight into the user program. If writing the word for that fails, the
program's address is overwritten with zero; whether this second write succeeds is not asked. -/
def armReset (store : Store) : Action BootError Unit := do
  match ← Action.attempt (writeWord store skipParameter skipMagic) with
  | .ok _ => return ()
  | .error cause =>
    let _ ← Action.attempt (writeWord store vectorTableParameter 0)
    .fail (.store cause)

end Boot

end ParamStore
