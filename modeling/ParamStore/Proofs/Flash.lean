import ParamStore.Proofs.Cells
import ParamStore.Proofs.Ensures

/-! What a region's calls do to the cells of its chip. Every mutation is verified, so one that
answers has taken place; one that fails has changed no cell, or exactly those it was meant to
change. On a chip without faults only an attempt to program a half-word twice fails. -/
namespace ParamStore

/-- No fault but a wrong bit. -/
structure Faults.Mild (faults : Faults) : Prop where
  unprotected : faults.writeProtected = 0
  powered : faults.powerBudget = none
  responsive : faults.stuckBusy = false

namespace Chip

def Faultless (chip : Chip) : Prop := chip.faults = {}

/-- The chip carries out what it is told, though it may store a wrong bit. -/
def Obedient (chip : Chip) : Prop := chip.faults.Mild

/-- What no call changes: the geometry, and the faults, except that they are used up. -/
structure Keeps (chip after : Chip) : Prop where
  base : after.base = chip.base
  pageSize : after.pageSize = chip.pageSize
  size : after.size = chip.size
  protection : after.faults.writeProtected = chip.faults.writeProtected
  response : after.faults.stuckBusy = chip.faults.stuckBusy
  powered : chip.faults.powerBudget = none → after.faults.powerBudget = none
  steady : chip.faults.corruptNext = false → after.faults.corruptNext = false

theorem Keeps.refl (chip : Chip) : chip.Keeps chip := ⟨rfl, rfl, rfl, rfl, rfl, id, id⟩

theorem Keeps.trans {first second third : Chip} (left : first.Keeps second)
    (right : second.Keeps third) : first.Keeps third :=
  ⟨right.base.trans left.base, right.pageSize.trans left.pageSize, right.size.trans left.size,
    right.protection.trans left.protection, right.response.trans left.response,
    fun powered => right.powered (left.powered powered),
    fun steady => right.steady (left.steady steady)⟩

theorem Faultless.eq {chip : Chip} (faultless : chip.Faultless) : chip.faults = {} := faultless

theorem Faultless.steady {chip : Chip} (faultless : chip.Faultless) :
    chip.faults.corruptNext = false := by
  rw [faultless.eq]

theorem Faultless.obedient {chip : Chip} (faultless : chip.Faultless) : chip.Obedient := by
  rw [Obedient, faultless.eq]
  exact ⟨rfl, rfl, rfl⟩

theorem Obedient.faultless {chip : Chip} (obedient : chip.Obedient)
    (steady : chip.faults.corruptNext = false) : chip.Faultless := by
  obtain ⟨unprotected, powered, responsive⟩ := obedient
  unfold Faultless
  cases faults : chip.faults
  simp_all

theorem Keeps.obedient {chip after : Chip} (keeps : chip.Keeps after) (obedient : chip.Obedient) :
    after.Obedient :=
  ⟨keeps.protection.trans obedient.unprotected, keeps.powered obedient.powered,
    keeps.response.trans obedient.responsive⟩

theorem Keeps.faultless {chip after : Chip} (keeps : chip.Keeps after)
    (faultless : chip.Faultless) : after.Faultless :=
  (keeps.obedient faultless.obedient).faultless (keeps.steady faultless.steady)

/-- The cells of a chip are all there is in its memory. -/
theorem memory_eq_of_cell {first second : Chip} (sizes : first.size = second.size)
    (cells : first.cell = second.cell) : first.memory = second.memory := by
  apply Array.ext sizes
  intro index left right
  have same := congrFun cells index
  simpa [cell, left, right] using same

@[simp] theorem cell_unlock (chip : Chip) : chip.unlock.cell = chip.cell := rfl
@[simp] theorem cell_lock (chip : Chip) : chip.lock.cell = chip.cell := rfl
@[simp] theorem cell_clearStatus (chip : Chip) : chip.clearStatus.cell = chip.cell := rfl

theorem Keeps.lock {chip after : Chip} (keeps : chip.unlock.Keeps after) :
    chip.Keeps after.lock :=
  ⟨keeps.base, keeps.pageSize, keeps.size, keeps.protection, keeps.response, keeps.powered,
    keeps.steady⟩

theorem Keeps.clearStatus {chip after : Chip} (keeps : chip.Keeps after) :
    chip.Keeps after.clearStatus :=
  ⟨keeps.base, keeps.pageSize, keeps.size, keeps.protection, keeps.response, keeps.powered,
    keeps.steady⟩

theorem cell_setHalfword_eq (chip : Chip) (offset : Nat) (value : UInt16)
    (inside : offset + 1 < chip.size) :
    (chip.setHalfword offset value).cell = overlay chip.cell offset (halfwordBytes value) := by
  funext index
  rw [cell_setHalfword chip offset value index inside]
  by_cases first : index = offset
  · subst first
    simp [overlay, halfwordBytes]
  by_cases second : index = offset + 1
  · subst second
    simp [overlay, halfwordBytes]
  · rw [if_neg first, if_neg second, overlay_apart]
    simp only [length_halfwordBytes]
    omega

theorem cell_eraseCells_eq (chip : Chip) (start stop : Nat) :
    (chip.eraseCells start stop).cell = wipe chip.cell start stop := by
  funext index
  exact cell_eraseCells chip start stop index

/-- A mutation has been tried: it was refused, for a reason that shows in the status, or it was
`legal` and the cells are now `result`. An obedient chip refuses none that is legal. -/
structure Tried (chip after : Chip) (result : Nat → UInt8) (legal : Prop) : Prop where
  keeps : chip.Keeps after
  idle : after.status.busy = false
  effect : (after.cell = chip.cell ∧ ¬(chip.Obedient ∧ legal) ∧
      (after.status.writeProtectError = true ∨ after.status.programError = true)) ∨
    (after.cell = result ∧ legal ∧ after.status.writeProtectError = false ∧
      after.status.programError = false)

/-- The chip with another supply. -/
def withPower (chip : Chip) (left : Option Nat) : Chip := { chip with faults.powerBudget := left }

@[simp] theorem cell_withPower (chip : Chip) (left : Option Nat) :
    (chip.withPower left).cell = chip.cell := rfl
@[simp] theorem size_withPower (chip : Chip) (left : Option Nat) :
    (chip.withPower left).size = chip.size := rfl
@[simp] theorem pageSize_withPower (chip : Chip) (left : Option Nat) :
    (chip.withPower left).pageSize = chip.pageSize := rfl

theorem Obedient.not_protected {chip : Chip} (obedient : chip.Obedient) (offset : Nat) :
    chip.isWriteProtected offset = false := by
  rw [isWriteProtected, obedient.unprotected]
  exact BitVec.getLsbD_zero

/-- What neither the status nor the supply is a part of, only the change itself can alter, or the count
of violations if the chip is locked. -/
theorem mutate_view {σ : Type} (view : Chip → σ) {chip : Chip} {change : Chip → Nat → Chip}
    (counted : chip.locked = true →
      view { chip with lockViolations := chip.lockViolations + 1 } = view chip)
    (flagged : ∀ status, view { chip with status } = view chip)
    (drawn : ∀ left, view (chip.withPower left) = view chip)
    (changed : ∀ chip offset, view (change chip offset) = view chip) (target : Option Nat) :
    view (chip.mutate target change) = view chip := by
  unfold mutate
  split
  next locked => exact counted locked
  split
  · exact flagged _
  split
  · exact flagged _
  split
  · exact changed chip _
  · exact flagged _
  · exact (changed _ _).trans (drawn _)

/-- A mutation of an unlocked chip is refused, or is the change itself once power is drawn. -/
theorem mutate_cases (chip : Chip) (offset : Nat) (change : Chip → Nat → Chip)
    (unlocked : chip.locked = false) :
    (chip.mutate (some offset) change = { chip with status := { writeProtectError := true } } ∧
      chip.isWriteProtected offset = true) ∨
    (chip.mutate (some offset) change = chip.refuse ∧ chip.faults.powerBudget = some 0) ∨
    ∃ left, chip.mutate (some offset) change = change (chip.withPower left) offset ∧
      (chip.faults.powerBudget = none → left = none) := by
  by_cases protect : chip.isWriteProtected offset = true
  · exact .inl ⟨by simp [mutate, unlocked, protect], protect⟩
  rcases budget : chip.faults.powerBudget with _ | _ | left
  · have same : chip.withPower none = chip := by rw [withPower, ← budget]
    refine .inr (.inr ⟨none, ?_, fun _ => rfl⟩)
    simp only [mutate, unlocked, protect, budget, same, Bool.false_eq_true, ↓reduceIte]
  · exact .inr (.inl ⟨by simp [mutate, unlocked, protect, budget], rfl⟩)
  · refine .inr (.inr ⟨some left, ?_, by simp⟩)
    simp [mutate, unlocked, protect, budget, withPower]

/-- `Tried` for a mutation whose change is carried out or refused by itself. -/
theorem tried_mutate {chip : Chip} {offset : Nat} {change : Chip → Nat → Chip}
    {result : Nat → UInt8} {legal : Prop} (unlocked : chip.locked = false)
    (changed : ∀ left, (chip.faults.powerBudget = none → left = none) →
      chip.Tried (change (chip.withPower left) offset) result legal) :
    chip.Tried (chip.mutate (some offset) change) result legal := by
  rcases mutate_cases chip offset change unlocked with ⟨eq, protect⟩ | ⟨eq, spent⟩ | ⟨left, eq, kept⟩
  · rw [eq]
    refine ⟨⟨rfl, rfl, rfl, rfl, rfl, id, id⟩, rfl, .inl ⟨rfl, ?_, .inl rfl⟩⟩
    intro done
    obtain ⟨obedient, -⟩ := done
    simp [obedient.not_protected] at protect
  · rw [eq]
    refine ⟨⟨rfl, rfl, rfl, rfl, rfl, id, id⟩, rfl, .inl ⟨rfl, ?_, .inr rfl⟩⟩
    intro done
    obtain ⟨obedient, -⟩ := done
    simp [obedient.powered] at spent
  · rw [eq]
    exact changed left kept

end Chip

/-- A half-word takes a value when it is erased, and zero at any time. -/
def Programmable (cells : Nat → UInt8) (offset : Nat) (value : UInt16) : Prop :=
  halfwordIn cells offset = erasedHalfword ∨ value = 0

theorem Programmable.and_eq {cells : Nat → UInt8} {offset : Nat} {value : UInt16}
    (legal : Programmable cells offset value) : halfwordIn cells offset &&& value = value := by
  rcases legal with erased | rfl
  · rw [erased]
    exact UInt16.neg_one_and
  · exact UInt16.and_zero

theorem flipped_ne (value : UInt16) : value ^^^ 1 ≠ value := by
  intro same
  have zero : value ^^^ (value ^^^ 1) = value ^^^ value := by rw [same]
  rw [← UInt16.xor_assoc, UInt16.xor_self, UInt16.zero_xor] at zero
  exact absurd zero (by decide)

namespace Chip

/-- The half-word that is found after programming `value`. -/
def programmed (chip : Chip) (offset : Nat) (value : UInt16) : UInt16 :=
  chip.disturbed (halfwordIn chip.cell offset &&& value)

theorem programmed_of_steady {chip : Chip} {offset : Nat} {value : UInt16}
    (steady : chip.faults.corruptNext = false) (legal : Programmable chip.cell offset value) :
    chip.programmed offset value = value := by
  simp [programmed, disturbed, steady, legal.and_eq]

theorem programmed_of_due {chip : Chip} {offset : Nat} {value : UInt16}
    (due : chip.faults.corruptNext = true) (legal : Programmable chip.cell offset value) :
    chip.programmed offset value = value ^^^ 1 := by
  simp [programmed, disturbed, due, legal.and_eq]

/-- A half-word that is stored uses up the bit flip that may have been due. -/
theorem tried_store {chip : Chip} {offset : Nat} (stored : UInt16) {left : Option Nat} {legal : Prop}
    (inside : offset + 1 < chip.size) (kept : chip.faults.powerBudget = none → left = none)
    (allowed : legal) :
    chip.Tried
      ({ chip.withPower left with faults.corruptNext := false }.setHalfword offset stored).complete
      (overlay chip.cell offset (halfwordBytes stored)) legal where
  keeps := ⟨rfl, rfl,
    size_setHalfword { chip.withPower left with faults.corruptNext := false } _ _, rfl, rfl, kept,
    fun _ => rfl⟩
  idle := rfl
  effect := .inr ⟨cell_setHalfword_eq { chip.withPower left with faults.corruptNext := false } _ _
    inside, allowed, rfl, rfl⟩

theorem tried_programAt {chip : Chip} {offset : Nat} (value : UInt16) {left : Option Nat}
    (inside : offset + 1 < chip.size) (kept : chip.faults.powerBudget = none → left = none) :
    chip.Tried (programAt value (chip.withPower left) offset)
      (overlay chip.cell offset (halfwordBytes (chip.programmed offset value)))
      (Programmable chip.cell offset value) := by
  unfold programAt
  split
  next refused =>
    refine ⟨⟨rfl, rfl, rfl, rfl, rfl, kept, id⟩, rfl, .inl ⟨rfl, ?_, .inr rfl⟩⟩
    intro done
    obtain ⟨-, legal⟩ := done
    exact legal.elim refused.1 refused.2
  next taken =>
    refine tried_store _ inside kept ?_
    by_cases erased : halfwordIn chip.cell offset = erasedHalfword
    · exact .inl erased
    · exact .inr (Decidable.byContradiction fun nonzero => taken ⟨erased, nonzero⟩)

theorem countErase_frame (chip : Chip) (page : Nat) : (chip.countErase page).cell = chip.cell ∧
    (chip.countErase page).base = chip.base ∧ (chip.countErase page).pageSize = chip.pageSize ∧
    (chip.countErase page).size = chip.size ∧ (chip.countErase page).faults = chip.faults := by
  unfold countErase
  split <;> exact ⟨rfl, rfl, rfl, rfl, rfl⟩

theorem tried_eraseAt {chip : Chip} {offset : Nat} {left : Option Nat}
    (aligned : offset % chip.pageSize = 0) (kept : chip.faults.powerBudget = none → left = none) :
    chip.Tried (eraseAt (chip.withPower left) offset)
      (wipe chip.cell offset (offset + chip.pageSize)) True := by
  have first : offset / chip.pageSize * chip.pageSize = offset :=
    Nat.div_mul_cancel (Nat.dvd_of_mod_eq_zero aligned)
  have last : (offset / chip.pageSize + 1) * chip.pageSize = offset + chip.pageSize := by
    rw [Nat.add_mul, first, Nat.one_mul]
  simp only [eraseAt, pageSize_withPower, first, last]
  obtain ⟨cell, base, pageSize, size, faults⟩ := countErase_frame
    ((chip.withPower left).eraseCells offset (offset + chip.pageSize)) (offset / chip.pageSize)
  have works : (((chip.withPower left).eraseCells offset
      (offset + chip.pageSize)).countErase (offset / chip.pageSize)).faults =
      (chip.withPower left).faults := faults
  have protection := congrArg Faults.writeProtected works
  have response := congrArg Faults.stuckBusy works
  exact ⟨⟨base, pageSize, size.trans (size_eraseCells _ _ _), protection, response,
      fun powered => (congrArg Faults.powerBudget works).trans (kept powered),
      fun steady => (congrArg Faults.corruptNext works).trans steady⟩,
    rfl, .inr ⟨cell.trans (cell_eraseCells_eq _ _ _), trivial, rfl, rfl⟩⟩

end Chip

/-- Looking at one chunk after the other finds out whether the whole range is erased. -/
theorem allErased_spec {ε : Type} {read : Nat → Nat → Attempt ε Bytes} {cells : Nat → UInt8}
    {offset length : Nat}
    (reads : ∀ start count, offset ≤ start → start + count ≤ offset + length →
      read start count = .ok (bytesAt cells start count)) :
    ∃ blank, allErased read offset length = .ok blank ∧
      (blank = true ↔ Blank cells offset (offset + length)) := by
  induction length using Nat.strongRecOn generalizing offset with
  | ind length ih =>
    rw [allErased]
    split
    next positive =>
      have chunk : 0 < min chunkSize length ∧ min chunkSize length ≤ length := by
        simp only [chunkSize]; omega
      simp only [reads offset (min chunkSize length) (Nat.le_refl _) (by omega), bind, Except.bind]
      split
      next erased =>
        obtain ⟨blank, found, correct⟩ := @ih (length - min chunkSize length) (by omega)
          (offset + min chunkSize length)
          fun start count above below => reads start count (by omega) (by omega)
        refine ⟨blank, found, correct.trans ?_⟩
        have head : Blank cells offset (offset + min chunkSize length) := by
          intro index above below
          have member : cells index ∈ bytesAt cells offset (min chunkSize length) :=
            List.mem_map_of_mem (List.mem_range'_1.mpr ⟨above, below⟩)
          simpa using List.all_eq_true.mp erased _ member
        constructor
        · intro rest index above below
          by_cases early : index < offset + min chunkSize length
          · exact head index above early
          · exact rest index (by omega) (by omega)
        · intro whole
          exact whole.mono (by omega) (by omega)
      next programmed =>
        refine ⟨false, rfl, by simp, fun whole => ?_⟩
        refine absurd (List.all_eq_true.mpr ?_) programmed
        intro byte member
        obtain ⟨index, inRange, rfl⟩ := List.mem_map.mp member
        obtain ⟨above, below⟩ := List.mem_range'_1.mp inRange
        simp [whole index above (by omega)]
    next empty =>
      refine ⟨true, rfl, fun _ index above below => ?_, fun _ => rfl⟩
      omega

/-- The region lies on the chip and starts with it, so that the offsets of both are the same. -/
structure Region.OnChip (region : Region) (chip : Chip) : Prop where
  base : chip.base = region.base
  within : region.length ≤ chip.size
  noWrap : region.base + region.length < 0x100000000

namespace Region

variable {region : Region} {chip : Chip} {offset length : Nat}

theorem OnChip.keeps {after : Chip} (onChip : region.OnChip chip) (keeps : chip.Keeps after) :
    region.OnChip after :=
  ⟨keeps.base.trans onChip.base, keeps.size ▸ onChip.within, onChip.noWrap⟩

theorem address_eq (noWrap : region.base + region.length < 0x100000000)
    (inside : offset + length ≤ region.length) :
    region.address offset length = .ok (region.base + offset) := by
  rw [address, if_neg (by omega), Attempt.fit, if_pos (by omega)]

/-- Reading a part of the region cannot fail, even if the chip lies elsewhere. -/
theorem read_eq (noWrap : region.base + region.length < 0x100000000)
    (inside : offset + length ≤ region.length) :
    region.read chip offset length = .ok (chip.read (region.base + offset) length) := by
  rw [read, address_eq noWrap inside]
  rfl

theorem OnChip.address_eq (onChip : region.OnChip chip) (inside : offset + length ≤ region.length) :
    region.address offset length = .ok (region.base + offset) :=
  Region.address_eq onChip.noWrap inside

theorem OnChip.chip_read_eq (onChip : region.OnChip chip)
    (inside : offset + length ≤ region.length) :
    chip.read (region.base + offset) length = bytesAt chip.cell offset length := by
  have within := onChip.within
  have shift : region.base + offset - chip.base = offset := by rw [onChip.base]; omega
  unfold Chip.read Chip.offset?
  rw [shift]
  by_cases bound : offset < chip.size
  · rw [if_pos ⟨by rw [onChip.base]; omega, bound⟩]
    simp only
    rw [if_pos (by omega)]
    rfl
  · have empty : length = 0 := by omega
    subst empty
    rw [if_neg (by omega)]
    rfl

theorem OnChip.read_eq (onChip : region.OnChip chip) (inside : offset + length ≤ region.length) :
    region.read chip offset length = .ok (bytesAt chip.cell offset length) := by
  rw [Region.read_eq onChip.noWrap inside, onChip.chip_read_eq inside]

theorem OnChip.isBlank_spec (onChip : region.OnChip chip)
    (inside : offset + length ≤ region.length) :
    ∃ blank, region.isBlank chip offset length = .ok blank ∧
      (blank = true ↔ Blank chip.cell offset (offset + length)) :=
  allErased_spec fun _ _ _ _ => onChip.read_eq (by omega)

/-- Waiting for a mutation that was tried tells whether it was refused, unless the chip hangs. -/
theorem awaitIdle_ensures {before : Chip} {result : Nat → UInt8} {legal : Prop}
    (protectError programError : FlashError) (tried : before.Tried chip result legal) :
    (awaitIdle protectError programError).Ensures chip
      (fun _ after => before.Keeps after ∧ legal ∧ after.cell = result)
      (fun _ after => before.Keeps after ∧ ¬(before.Obedient ∧ legal) ∧
        (after.cell = before.cell ∨
          (after.cell = result ∧ before.faults.stuckBusy = true))) := by
  have cells : chip.cell = before.cell ∨ chip.cell = result := by
    rcases tried.effect with ⟨same, -⟩ | ⟨changed, -⟩
    · exact .inl same
    · exact .inr changed
  unfold awaitIdle
  apply Action.ensures_get_bind
  by_cases stuck : chip.faults.stuckBusy = true
  · have busy : chip.currentStatus.busy = true := by simp [Chip.currentStatus, stuck]
    simp only [busy, ↓reduceIte]
    rw [tried.keeps.response] at stuck
    refine Action.ensures_fail ⟨tried.keeps, ?_, cells.imp_right fun changed => ⟨changed, stuck⟩⟩
    intro done
    obtain ⟨obedient, -⟩ := done
    simp [obedient.responsive] at stuck
  have idle : chip.currentStatus.busy = false := by simp [Chip.currentStatus, stuck, tried.idle]
  simp only [idle, Bool.false_eq_true, ↓reduceIte]
  apply Action.ensures_modify_bind
  have keeps := tried.keeps.clearStatus
  rcases tried.effect with ⟨same, refusable, flags⟩ | ⟨changed, allowed, unprotected, programmed⟩
  · have refused : chip.currentStatus.writeProtectError = true ∨
        chip.currentStatus.programError = true := flags
    rcases refused with flag | flag
    · simp only [flag, ↓reduceIte]
      exact Action.ensures_fail ⟨keeps, refusable, .inl same⟩
    · simp only [flag, ↓reduceIte]
      split <;> exact Action.ensures_fail ⟨keeps, refusable, .inl same⟩
  · simp only [Chip.currentStatus, unprotected, programmed, Bool.false_eq_true, ↓reduceIte]
    exact Action.ensures_pure ⟨keeps, allowed, changed⟩

theorem awaitIdle_leaves {σ : Type} (view : Chip → σ) (protectError programError : FlashError)
    (cleared : ∀ chip, view chip.clearStatus = view chip) :
    (awaitIdle protectError programError).Leaves view := by
  refine Action.leaves_get.bind fun chip => ?_
  dsimp only
  split
  · exact Action.leaves_fail _
  refine (Action.leaves_modify cleared).bind fun _ => ?_
  split
  · exact Action.leaves_fail _
  split
  · exact Action.leaves_fail _
  · exact Action.leaves_pure _

theorem OnChip.program_eq (onChip : region.OnChip chip) (value : UInt16)
    (inside : offset + 2 ≤ region.length) :
    chip.program (region.base + offset) value =
      chip.mutate (some offset) (Chip.programAt value) := by
  have within := onChip.within
  have found : chip.offset? (region.base + offset) = some offset := by
    rw [Chip.offset?, onChip.base, if_pos (by omega), Nat.add_sub_cancel_left]
  have kept : (some offset).filter (· + 1 < chip.size) = some offset := by
    simp; omega
  rw [Chip.program, found, kept]

theorem OnChip.erasePage_eq (onChip : region.OnChip chip) (inside : offset < region.length) :
    chip.erasePage (region.base + offset) = chip.mutate (some offset) Chip.eraseAt := by
  have within := onChip.within
  rw [Chip.erasePage, Chip.offset?, onChip.base, if_pos (by omega), Nat.add_sub_cancel_left]

/-- Programming a half-word of any chip in any state. It was refused, or it was stored, and then the
controller hangs or the half-word is verified. -/
theorem programHalfword_cases (onChip : region.OnChip chip) (value : UInt16)
    (even : offset % 2 = 0) (inside : offset + 2 ≤ region.length) :
    (region.programHalfword offset value).Ensures chip
      (fun _ after => chip.Keeps after ∧ Programmable chip.cell offset value ∧
        chip.programmed offset value = value ∧
        after.cell = overlay chip.cell offset (halfwordBytes value))
      (fun cause after => chip.Keeps after ∧
        ((after.cell = chip.cell ∧ ¬(chip.Obedient ∧ Programmable chip.cell offset value)) ∨
          (after.cell = overlay chip.cell offset (halfwordBytes (chip.programmed offset value)) ∧
            (chip.faults.stuckBusy = true ∨ (cause = .verify ∧
              Programmable chip.cell offset value ∧ chip.programmed offset value ≠ value))))) := by
  have within := onChip.within
  have unlocked : region.OnChip chip.unlock := ⟨onChip.base, onChip.within, onChip.noWrap⟩
  rw [programHalfword, if_neg (by omega)]
  apply Action.ensures_observe_bind (onChip.address_eq inside)
  apply Action.Ensures.unlocked
  apply Action.ensures_modify_bind
  have tried : chip.unlock.Tried (chip.unlock.program (region.base + offset) value)
      (overlay chip.cell offset (halfwordBytes (chip.programmed offset value)))
      (Programmable chip.cell offset value) := by
    rw [unlocked.program_eq value inside]
    refine Chip.tried_mutate rfl fun left kept => ?_
    exact Chip.tried_programAt value (show offset + 1 < chip.size by omega) kept
  apply Action.Ensures.bind ((awaitIdle_ensures _ _ tried).weaken
    fun _ _ ⟨keeps, refusable, cells⟩ => ⟨keeps.lock, cells.imp
      (fun same => ⟨same, refusable⟩) fun ⟨changed, stuck⟩ => ⟨changed, .inl stuck⟩⟩)
  intro _ idle done
  obtain ⟨keeps, allowed, cells⟩ := done
  apply Action.ensures_get_bind
  have found := (unlocked.keeps keeps).chip_read_eq inside
  have stored := bytesAt_overlay chip.cell offset (halfwordBytes (chip.programmed offset value))
  rw [← cells, length_halfwordBytes] at stored
  rw [found, stored]
  split
  next verified =>
    have same := congrArg (fun bytes => halfwordOfBytes (bytes ++ [])) verified
    simp only [halfwordOfBytes_halfwordBytes] at same
    rw [same] at cells
    exact Action.ensures_pure ⟨keeps.lock, allowed, same, cells⟩
  next differs =>
    refine Action.ensures_fail ⟨keeps.lock, .inr ⟨cells, .inr ⟨rfl, allowed, fun same => ?_⟩⟩⟩
    exact differs (by rw [same])

/-- A half-word that fails has not changed, unless a bit flips or the controller hangs. -/
theorem programHalfword_ensures (onChip : region.OnChip chip) (value : UInt16)
    (even : offset % 2 = 0) (inside : offset + 2 ≤ region.length) :
    (region.programHalfword offset value).Ensures chip
      (fun _ after => chip.Keeps after ∧ Programmable chip.cell offset value ∧
        after.cell = overlay chip.cell offset (halfwordBytes value))
      (fun _ after => chip.Keeps after ∧
        ¬(chip.Faultless ∧ Programmable chip.cell offset value) ∧
        (after.cell = chip.cell ∨ (after.cell =
          overlay chip.cell offset (halfwordBytes (chip.programmed offset value)) ∧
          (chip.faults.corruptNext = false → chip.faults.stuckBusy = true)))) := by
  apply (programHalfword_cases onChip value even inside).mono
  · intro _ after done
    obtain ⟨keeps, legal, -, cells⟩ := done
    exact ⟨keeps, legal, cells⟩
  intro cause after failed
  rcases failed with ⟨keeps, ⟨same, refusable⟩ | ⟨changed, stuck | ⟨-, legal, differs⟩⟩⟩
  · refine ⟨keeps, ?_, .inl same⟩
    exact fun ⟨faultless, legal⟩ => refusable ⟨faultless.obedient, legal⟩
  · refine ⟨keeps, fun done => ?_, .inr ⟨changed, fun _ => stuck⟩⟩
    rw [done.1.obedient.responsive] at stuck
    cases stuck
  · have flipped (steady : chip.faults.corruptNext = false) : False :=
      differs (Chip.programmed_of_steady steady legal)
    exact ⟨keeps, fun done => flipped done.1.steady,
      .inr ⟨changed, fun steady => (flipped steady).elim⟩⟩

/-- A bit flip that is due gets noticed. The half-word is the wrong one then, or has not changed. -/
theorem programHalfword_flips (onChip : region.OnChip chip) (due : chip.faults.corruptNext = true)
    (even : offset % 2 = 0) (inside : offset + 2 ≤ region.length) {value : UInt16}
    (legal : Programmable chip.cell offset value) :
    (region.programHalfword offset value).Ensures chip (fun _ _ => False)
      (fun cause after => chip.Keeps after ∧
        ((after.cell = chip.cell ∧ ¬chip.Obedient) ∨
          (after.cell = overlay chip.cell offset (halfwordBytes (value ^^^ 1)) ∧
            (chip.Obedient → cause = .verify)))) := by
  have wrong := Chip.programmed_of_due due legal
  apply (programHalfword_cases onChip value even inside).mono
  · intro _ after done
    obtain ⟨-, -, same, -⟩ := done
    rw [wrong] at same
    exact flipped_ne value same
  intro cause after failed
  rw [wrong] at failed
  rcases failed with ⟨keeps, ⟨same, refusable⟩ | ⟨changed, stuck | ⟨verify, -, -⟩⟩⟩
  · exact ⟨keeps, .inl ⟨same, fun obedient => refusable ⟨obedient, legal⟩⟩⟩
  · refine ⟨keeps, .inr ⟨changed, fun obedient => ?_⟩⟩
    rw [obedient.responsive] at stuck
    cases stuck
  · exact ⟨keeps, .inr ⟨changed, fun _ => verify⟩⟩

/-- Pairs of bytes leave no byte over. -/
theorem eq_nil_of_paired {bytes : Bytes} (paired : bytes.length % 2 = 0)
    (short : ∀ low high rest, bytes = low :: high :: rest → False) : bytes = [] := by
  rcases bytes with _ | ⟨low, _ | ⟨high, rest⟩⟩
  · rfl
  · simp at paired
  · exact (short low high rest rfl).elim

theorem programAll_ensures {bytes : Bytes} (onChip : region.OnChip chip) (even : offset % 2 = 0)
    (paired : bytes.length % 2 = 0) (inside : offset + bytes.length ≤ region.length)
    (blank : Blank chip.cell offset (offset + bytes.length)) :
    (region.programAll offset bytes).Ensures chip
      (fun _ after => chip.Keeps after ∧ after.cell = overlay chip.cell offset bytes)
      (fun _ after => chip.Keeps after ∧ ¬chip.Faultless ∧
        SameOutside chip.cell after.cell offset (offset + bytes.length)) := by
  fun_induction programAll region offset bytes generalizing chip with
  | case1 offset low high rest ih =>
    simp only [List.length_cons] at paired inside blank ⊢
    have legal : Programmable chip.cell offset (halfword low high) :=
      .inl (blank.halfwordIn (Nat.le_refl _) (by omega))
    have pair := halfwordBytes_halfword low high
    apply Action.Ensures.bind
    · apply (programHalfword_ensures onChip (halfword low high) even (by omega)).weaken
      intro _ after done
      obtain ⟨keeps, refusable, cells⟩ := done
      refine ⟨keeps, fun faultless => refusable ⟨faultless, legal⟩, ?_⟩
      rcases cells with same | ⟨changed, -⟩
      · rw [same]
        exact .rfl
      · rw [changed]
        exact (sameOutside_overlay _ _ _).mono (Nat.le_refl _) (by simp)
    · intro _ middle done
      obtain ⟨keeps, -, cells⟩ := done
      have apart : SameOutside chip.cell middle.cell offset (offset + 2) := by
        rw [cells]
        exact sameOutside_overlay _ _ _
      have rest_blank : Blank middle.cell (offset + 2) (offset + 2 + rest.length) :=
        (blank.mono (by omega) (by omega)).congr (apart.sameIn (.inr (Nat.le_refl _)))
      apply (ih (onChip.keeps keeps) (by omega) (by omega) (by omega) rest_blank).mono
      · intro _ after done
        obtain ⟨kept, final⟩ := done
        refine ⟨keeps.trans kept, ?_⟩
        rw [final, cells, pair]
        exact (overlay_append chip.cell offset [low, high] rest).symm
      · intro _ after done
        obtain ⟨kept, faulty, final⟩ := done
        refine ⟨keeps.trans kept, fun faultless => faulty (keeps.faultless faultless), ?_⟩
        exact (apart.mono (Nat.le_refl _) (by omega)).trans (final.mono (by omega) (by omega))
  | case2 bytes offset short =>
    obtain rfl := eq_nil_of_paired paired short
    exact Action.ensures_pure ⟨.refl chip, by simp⟩

/-- Programming an erased range. Whatever goes wrong, nothing outside of it changes. -/
theorem write_ensures {bytes : Bytes} (onChip : region.OnChip chip) (even : offset % 2 = 0)
    (paired : bytes.length % 2 = 0) (inside : offset + bytes.length ≤ region.length)
    (blank : Blank chip.cell offset (offset + bytes.length)) :
    (region.write offset bytes).Ensures chip
      (fun _ after => chip.Keeps after ∧ after.cell = overlay chip.cell offset bytes)
      (fun _ after => chip.Keeps after ∧ ¬chip.Faultless ∧
        SameOutside chip.cell after.cell offset (offset + bytes.length)) := by
  rw [write, if_neg (by omega)]
  apply Action.ensures_observe_bind (onChip.address_eq inside)
  exact programAll_ensures onChip even paired inside blank

/-- Programming one half-word as a range of two bytes. With no bit flip due, it takes the value or
stays as it is, and if it fails without a hanging controller, it stays. -/
theorem write_halfword_ensures (onChip : region.OnChip chip) {value : UInt16}
    (even : offset % 2 = 0) (inside : offset + 2 ≤ region.length)
    (legal : Programmable chip.cell offset value) :
    (region.write offset (halfwordBytes value)).Ensures chip
      (fun _ after => chip.Keeps after ∧
        after.cell = overlay chip.cell offset (halfwordBytes value))
      (fun _ after => chip.Keeps after ∧ ¬chip.Faultless ∧
        SameOutside chip.cell after.cell offset (offset + 2) ∧
        (chip.faults.corruptNext = false → after.cell = chip.cell ∨
          (after.cell = overlay chip.cell offset (halfwordBytes value) ∧
            chip.faults.stuckBusy = true))) := by
  rw [write, if_neg (by rw [length_halfwordBytes]; omega)]
  apply Action.ensures_observe_bind (onChip.address_eq inside)
  simp only [halfwordBytes, programAll, halfword_low_high]
  apply Action.Ensures.bind
  · apply (programHalfword_ensures onChip value even inside).weaken
    intro _ after done
    obtain ⟨keeps, refusable, cells⟩ := done
    refine ⟨keeps, fun faultless => refusable ⟨faultless, legal⟩, ?_, fun steady => ?_⟩
    · rcases cells with same | ⟨changed, -⟩
      · rw [same]
        exact .rfl
      · rw [changed]
        exact sameOutside_overlay _ _ _
    · rw [Chip.programmed_of_steady steady legal] at cells
      exact cells.imp_right fun changed => ⟨changed.1, changed.2 steady⟩
  · intro _ after done
    obtain ⟨keeps, -, cells⟩ := done
    exact Action.ensures_pure ⟨keeps, cells⟩

theorem write_halfword_flips (onChip : region.OnChip chip) (due : chip.faults.corruptNext = true)
    {value : UInt16} (even : offset % 2 = 0) (inside : offset + 2 ≤ region.length)
    (legal : Programmable chip.cell offset value) :
    (region.write offset (halfwordBytes value)).Ensures chip (fun _ _ => False)
      (fun cause after => chip.Keeps after ∧
        ((after.cell = chip.cell ∧ ¬chip.Obedient) ∨
          (after.cell = overlay chip.cell offset (halfwordBytes (value ^^^ 1)) ∧
            (chip.Obedient → cause = .verify)))) := by
  rw [write, if_neg (by rw [length_halfwordBytes]; omega)]
  apply Action.ensures_observe_bind (onChip.address_eq inside)
  simp only [halfwordBytes, programAll, halfword_low_high]
  exact (programHalfword_flips onChip due even inside legal).bind fun _ _ => False.elim

theorem erasePage_ensures (onChip : region.OnChip chip) (positive : 0 < chip.pageSize)
    (aligned : offset % chip.pageSize = 0) (inside : offset + chip.pageSize ≤ region.length) :
    (region.erasePage offset).Ensures chip
      (fun _ after => chip.Keeps after ∧
        after.cell = wipe chip.cell offset (offset + chip.pageSize))
      (fun _ after => chip.Keeps after ∧ ¬chip.Obedient ∧
        (after.cell = chip.cell ∨
          after.cell = wipe chip.cell offset (offset + chip.pageSize))) := by
  have noWrap := onChip.noWrap
  have unlocked : region.OnChip chip.unlock := ⟨onChip.base, onChip.within, onChip.noWrap⟩
  unfold erasePage
  apply Action.ensures_get_bind
  simp only [aligned, Nat.sub_zero]
  apply Action.ensures_observe_bind (onChip.address_eq inside)
  apply Action.Ensures.unlocked
  apply Action.ensures_modify_bind
  have tried : chip.unlock.Tried (chip.unlock.erasePage (region.base + offset))
      (wipe chip.cell offset (offset + chip.pageSize)) True := by
    rw [unlocked.erasePage_eq (by omega)]
    exact Chip.tried_mutate rfl fun left kept => Chip.tried_eraseAt aligned kept
  apply Action.Ensures.bind ((awaitIdle_ensures _ _ tried).weaken
    fun _ _ ⟨keeps, refusable, cells⟩ =>
      ⟨keeps.lock, fun obedient => refusable ⟨obedient, trivial⟩, cells.imp_right And.left⟩)
  intro _ idle done
  obtain ⟨keeps, -, cells⟩ := done
  -- Verification reads by address, so the cells are shifted by the base.
  have reads (start count : Nat) (above : region.base + offset ≤ start)
      (below : start + count ≤ region.base + offset + chip.pageSize) :
      (return idle.read (← .fit start) count : Attempt FlashError Bytes) =
        .ok (bytesAt (fun address => idle.cell (address - region.base)) start count) := by
    obtain ⟨shift, rfl⟩ := Nat.exists_eq_add_of_le (Nat.le_trans (Nat.le_add_right _ _) above)
    simp only [Attempt.fit, if_pos (show region.base + shift < 0x100000000 by omega), bind,
      Except.bind, (unlocked.keeps keeps).chip_read_eq
        (show shift + count ≤ region.length by omega), bytesAt_shift]
    rfl
  obtain ⟨blank, found, correct⟩ := allErased_spec reads
  have verified : blank = true := correct.mpr (by
    intro index above below
    rw [cells]
    exact blank_wipe _ _ _ _ (by omega) (by omega))
  rw [verified] at found
  apply Action.ensures_observe_bind found
  exact Action.ensures_pure ⟨keeps.lock, cells⟩

theorem erasePages_ensures {pageSize count : Nat} (onChip : region.OnChip chip)
    (paged : chip.pageSize = pageSize) (positive : 0 < pageSize)
    (aligned : offset % pageSize = 0) (inside : offset + count * pageSize ≤ region.length) :
    (region.erasePages pageSize offset count).Ensures chip
      (fun _ after => chip.Keeps after ∧
        after.cell = wipe chip.cell offset (offset + count * pageSize))
      (fun _ after => chip.Keeps after ∧ ¬chip.Obedient ∧ ∃ pages ≤ count,
        after.cell = wipe chip.cell offset (offset + pages * pageSize)) := by
  induction count generalizing chip offset with
  | zero => exact Action.ensures_pure ⟨.refl chip, by simp⟩
  | succ count ih =>
    have shift (pages : Nat) :
        offset + pageSize + pages * pageSize = offset + (pages + 1) * pageSize := by
      rw [Nat.add_mul]; omega
    have extended (pages : Nat) : wipe (wipe chip.cell offset (offset + pageSize))
        (offset + pageSize) (offset + pageSize + pages * pageSize) =
        wipe chip.cell offset (offset + (pages + 1) * pageSize) := by
      rw [wipe_wipe (Nat.le_add_right _ _) (Nat.le_add_right _ _), shift]
    subst paged
    have room := shift count
    apply Action.Ensures.bind
    · apply (erasePage_ensures onChip positive aligned (by omega)).weaken
      intro _ after done
      obtain ⟨keeps, faulty, same | erased⟩ := done
      · exact ⟨keeps, faulty, 0, Nat.zero_le _, by simpa using same⟩
      · exact ⟨keeps, faulty, 1, by omega, by simpa using erased⟩
    · intro _ middle done
      obtain ⟨keeps, cells⟩ := done
      apply (ih (onChip.keeps keeps) keeps.pageSize
        (by rw [Nat.add_mod_right]; exact aligned) (by omega)).mono
      · intro _ after done
        obtain ⟨kept, final⟩ := done
        exact ⟨keeps.trans kept, by rw [final, cells, extended]⟩
      · intro _ after done
        obtain ⟨kept, faulty, pages, bound, final⟩ := done
        exact ⟨keeps.trans kept, fun obedient => faulty (keeps.obedient obedient),
          pages + 1, by omega, by rw [final, cells, extended]⟩

/-- Erasing whole pages. An interruption leaves the first of them erased and the others alone. -/
theorem erase_ensures {start stop : Nat} (onChip : region.OnChip chip)
    (positive : 0 < chip.pageSize) (first : start % chip.pageSize = 0)
    (last : stop % chip.pageSize = 0) (ordered : start ≤ stop) (inside : stop ≤ region.length) :
    (region.erase start stop).Ensures chip
      (fun _ after => chip.Keeps after ∧ after.cell = wipe chip.cell start stop)
      (fun _ after => chip.Keeps after ∧ ¬chip.Obedient ∧
        ∃ pages, start + pages * chip.pageSize ≤ stop ∧
          after.cell = wipe chip.cell start (start + pages * chip.pageSize)) := by
  have whole : (stop - start) / chip.pageSize * chip.pageSize = stop - start := by
    apply Nat.div_mul_cancel
    exact Nat.dvd_sub (Nat.dvd_of_mod_eq_zero last) (Nat.dvd_of_mod_eq_zero first)
  have reach : start + (stop - start) / chip.pageSize * chip.pageSize = stop := by omega
  unfold erase
  apply Action.ensures_get_bind
  simp only [first, last, ne_eq, not_true_eq_false, false_or, Nat.not_lt.mpr ordered,
    Nat.not_lt.mpr inside, ↓reduceIte]
  apply (erasePages_ensures onChip rfl positive first (by omega)).mono
  · intro _ after done
    obtain ⟨keeps, cells⟩ := done
    rw [reach] at cells
    exact ⟨keeps, cells⟩
  · intro _ after done
    obtain ⟨keeps, faulty, pages, bound, cells⟩ := done
    have := Nat.mul_le_mul_right chip.pageSize bound
    exact ⟨keeps, faulty, pages, by omega, cells⟩

end Region

end ParamStore
