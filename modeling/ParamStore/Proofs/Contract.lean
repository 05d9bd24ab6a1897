import ParamStore.Proofs.Mounted

/-! What a region owes its callers, whatever the chip holds and however it fails. A range that was
programmed or erased reads back as asked. A call that is not even begun changes nothing. A call that
is cut short has done its work from the beginning of the range up to some half-word or page, and only
that half-word may be neither what it was nor what was asked for. -/
namespace ParamStore

/-- What may be found of a half-word that was to be programmed: its old value, the bits that it has in
common with the value asked for, or these with the lowest one flipped if a bit flip was due. -/
def Programmed (due : Bool) (old asked found : UInt16) : Prop :=
  found = old ∨ found = old &&& asked ∨ (due = true ∧ found = (old &&& asked) ^^^ 1)

/-- Programming `bytes` from `offset` on has stopped at half-word number `index`. -/
structure StoppedAt (due : Bool) (cells new : Nat → UInt8) (offset : Nat) (bytes : Bytes)
    (index : Nat) : Prop where
  inside : 2 * index + 2 ≤ bytes.length
  before : bytesAt new offset (2 * index) = bytes.take (2 * index)
  here : Programmed due (halfwordIn cells (offset + 2 * index))
    (halfwordOfBytes (bytes.drop (2 * index))) (halfwordIn new (offset + 2 * index))
  elsewhere : SameOutside cells new offset (offset + 2 * index + 2)

theorem Chip.programmed_cases (chip : Chip) {offset : Nat} {value : UInt16} :
    chip.programmed offset value = halfwordIn chip.cell offset &&& value ∨
      (chip.faults.corruptNext = true ∧
        chip.programmed offset value = (halfwordIn chip.cell offset &&& value) ^^^ 1) := by
  rw [programmed, disturbed]
  split
  next due => exact .inr ⟨due, rfl⟩
  next => exact .inl rfl

section StoppedAt

variable {due : Bool} {cells middle new : Nat → UInt8} {offset index : Nat} {low high : UInt8}
  {rest : Bytes}

theorem stoppedAt_first
    (programmed : Programmed due (halfwordIn cells offset) (halfword low high)
      (halfwordIn new offset))
    (apart : SameOutside cells new offset (offset + 2)) :
    StoppedAt due cells new offset (low :: high :: rest) 0 :=
  ⟨by simp, rfl, programmed, apart⟩

/-- Stopping later, after the first half-word was programmed. -/
theorem StoppedAt.later {earlier : Bool}
    (stopped : StoppedAt due (overlay cells offset [low, high]) new (offset + 2) rest index)
    (still : due = true → earlier = true) :
    StoppedAt earlier cells new offset (low :: high :: rest) (index + 1) := by
  have shift : offset + 2 + 2 * index = offset + 2 * (index + 1) := by omega
  have apart : SameOutside cells (overlay cells offset [low, high]) offset (offset + 2) :=
    sameOutside_overlay cells offset [low, high]
  have first : bytesAt new offset 2 = [low, high] := by
    rw [bytesAt_congr (stopped.elsewhere.sameIn (.inl (Nat.le_refl _)))]
    exact bytesAt_overlay cells offset [low, high]
  have old : halfwordIn (overlay cells offset [low, high]) (offset + 2 * (index + 1)) =
      halfwordIn cells (offset + 2 * (index + 1)) :=
    halfwordIn_congr (apart _ (.inr (by omega))) (apart _ (.inr (by omega)))
  have here := stopped.here
  rw [shift, old] at here
  refine ⟨?_, ?_, ?_, ?_⟩
  · have := stopped.inside
    simp only [List.length_cons]
    omega
  · rw [show 2 * (index + 1) = 2 + 2 * index by omega, bytesAt_add, first, stopped.before,
      List.take_add]
    rfl
  · exact here.imp_right (.imp_right fun flipped => ⟨still flipped.1, flipped.2⟩)
  · have := stopped.elsewhere
    exact (apart.mono (Nat.le_refl _) (by omega)).trans (this.mono (by omega) (by omega))

/-- Nothing outside of the range has changed. -/
theorem StoppedAt.sameOutside {bytes : Bytes}
    (stopped : StoppedAt due cells new offset bytes index) :
    SameOutside cells new offset (offset + bytes.length) := by
  have := stopped.inside
  exact stopped.elsewhere.mono (Nat.le_refl _) (by omega)

end StoppedAt

namespace Region

variable {region : Region} {chip : Chip} {offset : Nat}

theorem awaitIdle_kind {protectError programError : FlashError} (chip : Chip)
    (refusal : protectError.kind = .other) (mistake : programError.kind = .other) :
    (awaitIdle protectError programError).Ensures chip (fun _ _ => True)
      (fun cause _ => cause.kind = .other) := by
  apply Action.ensures_get_bind
  dsimp only
  split
  · exact Action.ensures_fail rfl
  apply Action.ensures_modify_bind
  split
  · exact Action.ensures_fail refusal
  split
  · exact Action.ensures_fail mistake
  · exact Action.ensures_pure trivial

theorem programHalfword_kind (onChip : region.OnChip chip) (value : UInt16)
    (even : offset % 2 = 0) (inside : offset + 2 ≤ region.length) :
    (region.programHalfword offset value).Ensures chip (fun _ _ => True)
      (fun cause _ => cause.kind = .other) := by
  rw [programHalfword, if_neg (by omega)]
  apply Action.ensures_observe_bind (onChip.address_eq inside)
  apply Action.Ensures.unlocked
  apply Action.ensures_modify_bind
  apply (awaitIdle_kind _ rfl rfl).bind
  intro _ idle _
  apply Action.ensures_get_bind
  split
  · exact Action.ensures_pure trivial
  · exact Action.ensures_fail rfl

theorem programAll_stops {bytes : Bytes} (onChip : region.OnChip chip) (even : offset % 2 = 0)
    (paired : bytes.length % 2 = 0) (inside : offset + bytes.length ≤ region.length) :
    (region.programAll offset bytes).Ensures chip
      (fun _ after => chip.Keeps after ∧ after.cell = overlay chip.cell offset bytes)
      (fun cause after => chip.Keeps after ∧ cause.kind = .other ∧
        ∃ index, StoppedAt chip.faults.corruptNext chip.cell after.cell offset bytes index) := by
  fun_induction programAll region offset bytes generalizing chip with
  | case1 offset low high rest ih =>
    simp only [List.length_cons] at paired inside
    apply Action.Ensures.bind
    · apply ((programHalfword_cases onChip (halfword low high) even (by omega)).and
        (programHalfword_kind onChip (halfword low high) even (by omega))).mono
        (fun _ _ done => done.1)
      intro cause after failed
      obtain ⟨⟨keeps, cells⟩, kind⟩ := failed
      refine ⟨keeps, kind, 0, ?_⟩
      rcases cells with ⟨same, -⟩ | ⟨changed, -⟩
      · rw [same]
        exact stoppedAt_first (.inl rfl) .rfl
      · rw [changed]
        refine stoppedAt_first ?_ (sameOutside_overlay _ _ _)
        rw [halfwordIn_overlay]
        exact .inr chip.programmed_cases
    · intro _ middle done
      obtain ⟨keeps, -, -, cells⟩ := done
      rw [halfwordBytes_halfword] at cells
      apply (ih (onChip.keeps keeps) (by omega) (by omega) (by omega)).mono
      · intro _ after done
        obtain ⟨kept, final⟩ := done
        refine ⟨keeps.trans kept, ?_⟩
        rw [final, cells]
        exact (overlay_append chip.cell offset [low, high] rest).symm
      · intro cause after failed
        obtain ⟨kept, kind, index, stopped⟩ := failed
        rw [cells] at stopped
        refine ⟨keeps.trans kept, kind, index + 1, stopped.later fun due => ?_⟩
        cases steady : chip.faults.corruptNext with
        | true => rfl
        | false => rw [keeps.steady steady] at due; cases due
  | case2 bytes offset short =>
    obtain rfl := eq_nil_of_paired paired short
    exact Action.ensures_pure ⟨.refl chip, by simp⟩

/-- Programming any range. A range that is misplaced leaves the chip as it is. -/
theorem write_stops (onChip : region.OnChip chip) (offset : Nat) (bytes : Bytes) :
    (region.write offset bytes).Ensures chip
      (fun _ after => chip.Keeps after ∧ offset + bytes.length ≤ region.length ∧
        after.cell = overlay chip.cell offset bytes)
      (fun cause after => (cause.kind ≠ .other ∧ after = chip) ∨
        (chip.Keeps after ∧ cause.kind = .other ∧
          ∃ index, StoppedAt chip.faults.corruptNext chip.cell after.cell offset bytes index)) := by
  by_cases odd : offset % 2 ≠ 0 ∨ bytes.length % 2 ≠ 0
  · rw [write, if_pos odd]
    exact Action.ensures_fail (.inl ⟨by decide, rfl⟩)
  rw [write, if_neg odd]
  by_cases inside : offset + bytes.length ≤ region.length
  · apply Action.ensures_observe_bind (onChip.address_eq inside)
    apply (programAll_stops onChip (by omega) (by omega) inside).mono
    · exact fun _ after done => ⟨done.1, inside, done.2⟩
    · exact fun _ after failed => .inr failed
  · have refused : region.address offset bytes.length = .fail .outOfBounds :=
      if_pos (Nat.lt_of_not_le inside)
    exact Action.ensures_observe_bind_fail refused (.inl ⟨by decide, rfl⟩)

/-- Erasing any range. -/
theorem erase_stops (onChip : region.OnChip chip) (positive : 0 < chip.pageSize)
    (start stop : Nat) :
    (region.erase start stop).Ensures chip
      (fun _ after => chip.Keeps after ∧ after.cell = wipe chip.cell start stop)
      (fun _ after => after = chip ∨
        (chip.Keeps after ∧ ∃ pages, start + pages * chip.pageSize ≤ stop ∧
          after.cell = wipe chip.cell start (start + pages * chip.pageSize))) := by
  by_cases misplaced : start % chip.pageSize ≠ 0 ∨ stop % chip.pageSize ≠ 0 ∨ stop < start
  · apply Action.ensures_get_bind
    rw [if_pos misplaced]
    exact Action.ensures_fail (.inl rfl)
  by_cases outside : region.length < stop
  · apply Action.ensures_get_bind
    rw [if_neg misplaced, if_pos outside]
    exact Action.ensures_fail (.inl rfl)
  apply (erase_ensures onChip positive (by omega) (by omega) (by omega) (by omega)).weaken
  intro _ after failed
  obtain ⟨keeps, -, pages⟩ := failed
  exact .inr ⟨keeps, pages⟩

/-- What is known after a range was to be programmed. -/
structure WriteContract (region : Region) (chip : Chip) (offset : Nat) (bytes : Bytes) : Prop where
  total : (region.write offset bytes).outcome chip ≠ .error .overflow
  size : ((region.write offset bytes).after chip).size = chip.size
  works : chip.Faultless → offset % 2 = 0 → bytes.length % 2 = 0 →
    offset + bytes.length ≤ region.length → Blank chip.cell offset (offset + bytes.length) →
      (region.write offset bytes).outcome chip = .ok ()
  done : (region.write offset bytes).outcome chip = .ok () →
    region.read ((region.write offset bytes).after chip) offset bytes.length = .ok bytes ∧
      SameOutside chip.cell ((region.write offset bytes).after chip).cell offset
        (offset + bytes.length)
  misused : (region.write offset bytes).outcome chip = .fail .unaligned ∨
      (region.write offset bytes).outcome chip = .fail .outOfBounds →
    (region.write offset bytes).after chip = chip
  failed : ∀ cause, (region.write offset bytes).outcome chip = .fail cause →
    cause ≠ .unaligned → cause ≠ .outOfBounds →
      ∃ index, StoppedAt chip.faults.corruptNext chip.cell
        ((region.write offset bytes).after chip).cell offset bytes index

/-- What is known after a range was to be erased. -/
structure EraseContract (region : Region) (chip : Chip) (start stop : Nat) : Prop where
  total : (region.erase start stop).outcome chip ≠ .error .overflow
  size : ((region.erase start stop).after chip).size = chip.size
  works : chip.Obedient → start % chip.pageSize = 0 → stop % chip.pageSize = 0 → start ≤ stop →
    stop ≤ region.length → (region.erase start stop).outcome chip = .ok ()
  done : (region.erase start stop).outcome chip = .ok () →
    Blank ((region.erase start stop).after chip).cell start stop ∧
      SameOutside chip.cell ((region.erase start stop).after chip).cell start stop
  failed : ∀ cause, (region.erase start stop).outcome chip = .fail cause →
    ∃ pages, (pages = 0 ∨ start + pages * chip.pageSize ≤ stop) ∧
      ((region.erase start stop).after chip).cell =
        wipe chip.cell start (start + pages * chip.pageSize)

theorem OnChip.writeContract (onChip : region.OnChip chip) (offset : Nat) (bytes : Bytes) :
    region.WriteContract chip offset bytes where
  total := (write_stops onChip offset bytes).outcome_ne_overflow
  size := by
    apply (write_stops onChip offset bytes).always (·.size = chip.size)
    · exact fun _ after done => done.1.size
    · rintro cause after (⟨-, rfl⟩ | ⟨keeps, -⟩)
      · rfl
      · exact keeps.size
  works faultless even paired inside blank := by
    rcases (write_ensures onChip even paired inside blank).outcome_cases with
      ⟨_, outcome, -⟩ | ⟨_, -, -, faulty, -⟩
    · exact outcome
    · exact absurd faultless faulty
  done outcome := by
    obtain ⟨keeps, inside, cells⟩ := (write_stops onChip offset bytes).of_ok outcome
    rw [(onChip.keeps keeps).read_eq inside, cells, bytesAt_overlay]
    exact ⟨rfl, sameOutside_overlay _ _ _⟩
  misused outcome := by
    rcases outcome with outcome | outcome <;>
      rcases (write_stops onChip offset bytes).of_fail outcome with ⟨-, same⟩ | ⟨-, kind, -⟩
    · exact same
    · cases kind
    · exact same
    · cases kind
  failed cause outcome aligned bounded := by
    rcases (write_stops onChip offset bytes).of_fail outcome with ⟨misuse, -⟩ | ⟨-, -, stopped⟩
    · cases cause <;> simp_all [FlashError.kind]
    · exact stopped

theorem OnChip.eraseContract (onChip : region.OnChip chip) (positive : 0 < chip.pageSize)
    (start stop : Nat) : region.EraseContract chip start stop where
  total := (erase_stops onChip positive start stop).outcome_ne_overflow
  size := by
    apply (erase_stops onChip positive start stop).always (·.size = chip.size)
    · exact fun _ after done => done.1.size
    · rintro cause after (rfl | ⟨keeps, -⟩)
      · rfl
      · exact keeps.size
  works obedient first last ordered inside := by
    rcases (erase_ensures onChip positive first last ordered inside).outcome_cases with
      ⟨_, outcome, -⟩ | ⟨_, -, -, disobedient, -⟩
    · exact outcome
    · exact absurd obedient disobedient
  done outcome := by
    obtain ⟨-, cells⟩ := (erase_stops onChip positive start stop).of_ok outcome
    rw [cells]
    exact ⟨blank_wipe _ _ _, sameOutside_wipe _ _ _⟩
  failed cause outcome := by
    rcases (erase_stops onChip positive start stop).of_fail outcome with
      same | ⟨-, pages, inside, cells⟩
    · exact ⟨0, .inl rfl, by simp [same]⟩
    · exact ⟨pages, .inr inside, cells⟩

/-- Whatever the chip holds and however it fails, a region on it keeps its contract. -/
theorem calls_keep_contract (onChip : region.OnChip chip) (positive : 0 < chip.pageSize) :
    (∀ offset bytes, region.WriteContract chip offset bytes) ∧
      ∀ start stop, region.EraseContract chip start stop :=
  ⟨onChip.writeContract, onChip.eraseContract positive⟩

/-- Power for one half-word, and two to program; then a wrong bit in a half-word that gets cleared. -/
theorem calls_keep_contract_sample :
    (Store.sample.region.write 24 [1, 2, 3, 4]).outcome (Store.sampleChip.failPowerAfter 1) =
      .fail .program ∧
    Store.sample.region.WriteContract (Store.sampleChip.failPowerAfter 1) 24 [1, 2, 3, 4] ∧
    Store.sample.region.EraseContract (Store.sampleChip.failPowerAfter 1) 32 64 ∧
    Store.sample.region.WriteContract Store.sampleChip.corruptNextProgram 2 [0, 0] := by
  have spent : Store.sample.region.OnChip (Store.sampleChip.failPowerAfter 1) :=
    ⟨rfl, by decide, by decide⟩
  have flipped : Store.sample.region.OnChip Store.sampleChip.corruptNextProgram :=
    ⟨rfl, by decide, by decide⟩
  exact ⟨rfl, (calls_keep_contract spent (by decide)).1 24 _,
    (calls_keep_contract spent (by decide)).2 32 64,
    (calls_keep_contract flipped (by decide)).1 2 _⟩

end Region

end ParamStore
