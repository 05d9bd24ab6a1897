import ParamStore.Proofs.Packing

/-! The flash register by register. A device forms each offset in a register of 32 bits and takes
slices of short buffers. Here every sum, difference and slice stands where it is formed, and to leave
its range is an overflow; the address of a range and the place of a next record are checked already
where they are defined. In a region that ends below the last address, none of it makes a difference. -/
namespace ParamStore

/-- The first `count` places of a buffer of `size`. -/
def Attempt.slice {ε : Type} (count size : Nat) : Attempt ε Unit :=
  if count ≤ size then .ok () else .error .overflow

theorem Attempt.difference_of_le {ε : Type} {minuend subtrahend : Nat}
    (ordered : subtrahend ≤ minuend) :
    (Attempt.difference minuend subtrahend : Attempt ε Nat) = .ok (minuend - subtrahend) :=
  if_pos ordered

theorem Attempt.slice_of_le {ε : Type} {count size : Nat} (room : count ≤ size) :
    (Attempt.slice count size : Attempt ε Unit) = .ok () := if_pos room

namespace Action

variable {ε α β : Type}

/-- What is formed in registers does not depend on the chip. -/
abbrev compute (value : Attempt ε α) : Action ε α := observe fun _ => value

@[simp] theorem compute_ok_bind (value : α) (next : α → Action ε β) :
    (compute (.ok value) >>= next) = next value := rfl

end Action

namespace Device

open ParamStore.Action (compute)

/-- Whether the bytes of a range are erased, of which the first `checked` are. -/
def allErased {ε : Type} (read : Nat → Nat → Attempt ε Bytes) (offset length checked : Nat) :
    Attempt ε Bool :=
  if checked < length then do
    let _ ← Attempt.difference length checked
    let count := min chunkSize (length - checked)
    Attempt.slice count chunkSize
    let place ← Attempt.fit (offset + checked)
    if (← read place count).all (· == erasedByte) then
      let _ ← Attempt.fit (checked + count)
      allErased read offset length (checked + count)
    else return false
  else return true
termination_by length - checked
decreasing_by simp [chunkSize]; omega

def erasePage (region : Region) (offset : Nat) : Action FlashError Unit := do
  let pageSize := (← get).pageSize
  let page ← compute (.difference offset (offset % pageSize))
  let address ← compute (region.address page pageSize)
  Action.unlocked do
    modify (·.erasePage address)
    Region.awaitIdle .eraseWriteProtect .eraseProgram
    let erased ← Action.observe fun chip =>
      allErased (fun start length => return chip.read (← .fit start) length) address pageSize 0
    if erased then pure () else .fail .verify

def erasePages (region : Region) (pageSize page : Nat) : Nat → Action FlashError Unit
  | 0 => pure ()
  | count + 1 => do
    erasePage region page
    let next ← compute (.fit (page + pageSize))
    erasePages region pageSize next count

def erase (region : Region) (start stop : Nat) : Action StoreError Unit := Action.mapError .flash do
  let pageSize := (← get).pageSize
  if start % pageSize ≠ 0 ∨ stop % pageSize ≠ 0 ∨ stop < start then .fail .unaligned
  else if region.length < stop then .fail .outOfBounds
  else erasePages region pageSize start ((stop - start) / pageSize)

/-- Program half-words from the one with this `index` on. -/
def programAll (region : Region) (offset index : Nat) : Bytes → Action FlashError Unit
  | low :: high :: rest => do
    let skipped ← compute (.fit (index * 2))
    let place ← compute (.fit (offset + skipped))
    region.programHalfword place (halfword low high)
    programAll region offset (index + 1) rest
  | _ => pure ()

def program (region : Region) (offset : Nat) (bytes : Bytes) : Action FlashError Unit :=
  if offset % 2 ≠ 0 ∨ bytes.length % 2 ≠ 0 then .fail .unaligned
  else do
    let _ ← compute (region.address offset bytes.length)
    programAll region offset 0 bytes

def put (region : Region) (offset : Nat) (bytes : Bytes) : Action StoreError Unit :=
  (program region offset bytes).mapError .flash

def commit (region : Region) (record : Record) : Action StoreError Unit := do
  put region (← compute (.fit record.sizeField)) (halfwordBytes record.size)
  put region (← compute (.fit record.parameterField)) (halfwordBytes record.parameter)

def invalidate (region : Region) (record : Record) : Action StoreError Unit := do
  put region (← compute (.fit record.parameterField)) (halfwordBytes tombstone)

def payload (region : Region) (record : Record) (data : Bytes) : Action StoreError Unit := do
  let even := data.length / 2 * 2
  let start ← compute (.fit record.dataOffset)
  compute (.slice even data.length)
  put region start (data.take even)
  match data[even]? with
  | some last => put region (← compute (.fit (start + even))) [last, erasedByte]
  | none => pure ()

/-- Copy a payload of `length` bytes, of which the first `copied` are copied. -/
def transfers (region : Region) (record : Record) (position length copied : Nat) :
    Action StoreError Unit :=
  if copied < length then do
    let _ ← compute (.difference length copied)
    let count := min chunkSize (length - copied)
    compute (.slice count chunkSize)
    let source ← compute (.fit record.dataOffset)
    let source ← compute (.fit (source + copied))
    let bytes ← Action.observe fun chip => (region.read chip source count).mapError .flash
    let target ← compute (.fit (position + headerSize))
    let target ← compute (.fit (target + copied))
    put region target bytes
    let _ ← compute (.fit (copied + count))
    transfers region record position length (copied + count)
  else pure ()
termination_by length - copied
decreasing_by simp [chunkSize]; omega

def copyRecord (region : Region) (stop : Nat) (record : Record) (position : Nat) :
    Action StoreError Unit := do
  let start ← compute (.fit (position + headerSize))
  let dataEnd ← compute (.fit (start + record.size.toNat))
  if stop < dataEnd then .fail .corrupt
  else
    let rounded ← compute (.fit (record.size.toNat + 1))
    transfers region record position (rounded / 2 * 2) 0
    commit region { record with offset := position }

section Equalities

variable {region : Region} {offset length : Nat} {record : Record}

theorem allErased_eq {ε : Type} (read : Nat → Nat → Attempt ε Bytes) {checked : Nat}
    (fits : offset + length < 0x100000000) :
    allErased read offset length checked =
      ParamStore.allErased read (offset + checked) (length - checked) := by
  induction gap : length - checked using Nat.strongRecOn generalizing checked with
  | ind left ih =>
    rw [allErased, ParamStore.allErased]
    by_cases more : checked < length
    case neg => rw [if_neg more, if_neg (by omega)]
    have part : 0 < min chunkSize left := by
      simp only [chunkSize]
      omega
    have rest := ih (left - min chunkSize left) (by omega)
      (show length - (checked + min chunkSize left) = _ by omega)
    rw [if_pos more, if_pos (by omega), gap]
    simp (disch := omega) only [Attempt.difference_of_le, Attempt.slice_of_le, Attempt.fit_of_lt,
      rest, Nat.add_assoc]
    rfl

theorem address_bounds {address : Nat} (found : region.address offset length = .ok address) :
    offset + length ≤ region.length ∧ address = region.base + offset := by
  simp only [Region.address, Attempt.fit, Attempt.fail] at found
  split at found
  · cases found
  split at found
  · cases found
    exact ⟨by omega, rfl⟩
  · cases found

theorem programAll_eq (bytes : Bytes) {index : Nat}
    (fits : offset + index * 2 + bytes.length < 0x100000000) :
    programAll region offset index bytes = region.programAll (offset + index * 2) bytes := by
  fun_induction programAll region offset index bytes with
  | case1 index low high rest ih =>
    simp only [List.length_cons] at fits
    have later := ih (by omega)
    rw [Region.programAll, Attempt.fit_of_lt (by omega), Action.compute_ok_bind,
      Attempt.fit_of_lt (by omega), Action.compute_ok_bind, later, Nat.succ_mul, Nat.add_assoc]
  | case2 index bytes short =>
    rw [Region.programAll]
    exact short

section Region

variable (noWrap : region.base + region.length < 0x100000000)

include noWrap

theorem erasePage_eq (offset : Nat) :
    erasePage region offset = region.erasePage offset := by
  refine bind_congr fun chip => ?_
  dsimp only
  rw [Attempt.difference_of_le (Nat.mod_le _ _), Action.compute_ok_bind]
  cases found : region.address (offset - offset % chip.pageSize) chip.pageSize with
  | error failure => rfl
  | ok address =>
    obtain ⟨inside, rfl⟩ := address_bounds found
    have fits : region.base + (offset - offset % chip.pageSize) + chip.pageSize < 0x100000000 := by
      omega
    rw [Action.compute_ok_bind]
    simp only [allErased_eq _ fits]
    rfl

theorem erasePages_eq {pageSize page count : Nat}
    (inside : page + count * pageSize ≤ region.length) :
    erasePages region pageSize page count = region.erasePages pageSize page count := by
  induction count generalizing page with
  | zero => rfl
  | succ count ih =>
    rw [Nat.succ_mul] at inside
    rw [erasePages, Region.erasePages, erasePage_eq noWrap, Attempt.fit_of_lt (by omega),
      ← ih (by omega)]
    rfl

theorem erase_eq (start stop : Nat) :
    erase region start stop = (Command.erase start stop).run region := by
  refine congrArg (Action.mapError StoreError.flash) (bind_congr fun chip => ?_)
  dsimp only
  split
  · rfl
  split
  · rfl
  · have whole := Nat.div_mul_le_self (stop - start) chip.pageSize
    exact erasePages_eq noWrap (by omega)

theorem program_eq (offset : Nat) (bytes : Bytes) :
    program region offset bytes = region.write offset bytes := by
  rw [program, Region.write]
  split
  · rfl
  cases found : region.address offset bytes.length with
  | error failure => rfl
  | ok address =>
    obtain ⟨inside, -⟩ := address_bounds found
    rw [programAll_eq bytes (by omega), Nat.zero_mul, Nat.add_zero]

theorem put_eq (offset : Nat) (bytes : Bytes) :
    put region offset bytes = (Command.write offset bytes).run region := by
  rw [put, program_eq noWrap]
  rfl

theorem commit_eq (fits : record.offset + 2 < 0x100000000) :
    commit region record = Command.runAll region (Command.commit record) := by
  simp only [commit, Record.sizeField, Record.parameterField, Attempt.fit_of_lt fits,
    Attempt.fit_of_lt (show record.offset < 0x100000000 by omega), Action.compute_ok_bind,
    put_eq noWrap, Command.commit, Command.runAll, bind_pure_unit]

theorem invalidate_eq (fits : record.offset < 0x100000000) :
    invalidate region record = (Command.invalidate record).run region := by
  rw [invalidate, Record.parameterField, Attempt.fit_of_lt fits, Action.compute_ok_bind,
    put_eq noWrap]
  rfl

theorem payload_eq {data : Bytes} (fits : record.dataOffset + data.length < 0x100000000) :
    payload region record data =
      Command.runAll region (Command.payload record.dataOffset data) := by
  have even : data.length / 2 * 2 ≤ data.length := Nat.div_mul_le_self _ _
  simp only [payload, Attempt.fit_of_lt (show record.dataOffset < 0x100000000 by omega),
    Attempt.slice_of_le even, Action.compute_ok_bind, put_eq noWrap, Command.payload,
    Command.runAll]
  cases data[data.length / 2 * 2]? with
  | none => rfl
  | some last =>
    rw [Attempt.fit_of_lt (by omega)]
    simp only [Action.compute_ok_bind, Command.runAll, bind_pure_unit]

theorem transfer_eq (source target length : Nat) :
    (do
      let bytes ← Action.observe fun chip => (region.read chip source length).mapError .flash
      put region target bytes : Action StoreError Unit) =
      (Command.transfer source target length).run region := by
  simp only [put_eq noWrap, Command.run, Action.mapError_bind, Action.mapError_observe]

theorem transfers_eq {position copied : Nat} (source : record.dataOffset + length < 0x100000000)
    (target : position + headerSize + length < 0x100000000) :
    transfers region record position length copied =
      Command.runAll region (Command.transfers (record.dataOffset + copied)
        (position + headerSize + copied) (length - copied)) := by
  induction gap : length - copied using Nat.strongRecOn generalizing copied with
  | ind left ih =>
    rw [transfers, Command.transfers]
    by_cases more : copied < length
    case neg =>
      rw [if_neg more, if_neg (by omega)]
      rfl
    have part : 0 < min chunkSize left := by
      simp only [chunkSize]
      omega
    have rest := ih (left - min chunkSize left) (by omega)
      (show length - (copied + min chunkSize left) = _ by omega)
    rw [← Nat.add_assoc, ← Nat.add_assoc] at rest
    rw [if_pos more, if_pos (by omega), gap]
    simp (disch := omega) only [Attempt.difference_of_le, Attempt.slice_of_le, Attempt.fit_of_lt,
      Action.compute_ok_bind, rest, Command.runAll, ← transfer_eq noWrap, bind_assoc]

end Region

theorem copyRecord_eq {store : Store} {stop position : Nat}
    (noWrap : store.region.base + store.region.length < 0x100000000)
    (fits : stop + 65542 < 0x100000000) (bound : position ≤ stop + 3)
    (source : record.dataOffset + 65536 < 0x100000000) :
    copyRecord store.region stop record position = store.copyRecord stop record position := by
  have size := record.size.toNat_lt
  have four : headerSize = 4 := rfl
  simp (disch := omega) only [copyRecord, Store.copyRecord, Attempt.fit_of_lt,
    Action.compute_ok_bind]
  split
  · rfl
  · rw [transfers_eq noWrap (by omega) (by omega), commit_eq noWrap (by simp only; omega),
      Nat.sub_zero, Store.run, Command.copy, Command.runAll_append]
    rfl

end Equalities

end Device

end ParamStore
