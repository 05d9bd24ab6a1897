import ParamStore.Proofs.Packing

/-! Compaction. The copy of the log grows in a segment that does not count, so until it is marked the
old log stands; from then on one of the two counts, and both give the same values. Erasing the old
segment begins with its mark. -/
namespace ParamStore.Store

variable {store : Store} {chip : Chip} {cells new : Nat → UInt8} {log : Log}

/-- The segment that the log is not in. -/
def spare (store : Store) (log : Log) : Segment := store.segment log.segment.id.other

/-- The log that compaction makes of a log. -/
def relocated (store : Store) (log : Log) : Log :=
  ⟨store.spare log, repack (store.spare log).firstRecord (survivors log.records),
    packedEnd (store.spare log).firstRecord (sizesOf (survivors log.records))⟩

/-- The cells with the copy in the other segment, which is not marked yet. -/
def copied (store : Store) (cells : Nat → UInt8) (log : Log) : Nat → UInt8 :=
  packed cells (wipe cells (store.spare log).start (store.spare log).stop)
    (store.spare log).firstRecord (survivors log.records)

/-- The cells with both logs marked. -/
def marked (store : Store) (cells : Nat → UInt8) (log : Log) : Nat → UInt8 :=
  overlay (store.copied cells log) (store.spare log).start (halfwordBytes inUseMagic)

/-- The cells after compaction. -/
def compacted (store : Store) (cells : Nat → UInt8) (log : Log) : Nat → UInt8 :=
  wipe (store.marked cells log) log.segment.start log.segment.stop

/-- A log outlives what happens in the other segment, as long as that does not come to count. -/
theorem Holds.congr_spare (holds : store.Holds cells log) (mounted : store.Mounted chip)
    (same : SameOutside cells new (store.spare log).start (store.spare log).stop)
    (quiet : log.segment.id = .b → ¬store.InUse new .a) :
    store.Holds new log ∧ entriesIn new log.records = entriesIn cells log.records := by
  have placed := holds.placed mounted
  have bounds := holds.tail_le mounted
  have room := placed.room
  have word := placed.word
  have own : SameIn cells new log.segment.start log.segment.stop := same.sameIn holds.apart
  have before := own.mono (Nat.le_add_right _ magicSize) bounds.2
  refine ⟨⟨holds.segment, ⟨?_, quiet⟩, holds.linked.congr before, ?_⟩,
    entriesIn_congr fun record member => holds.linked.payload_congr before member⟩
  · apply (inUse_congr_magic _).mpr holds.active.1
    rw [← holds.segment]
    exact own.mono (Nat.le_refl _) (by omega)
  · by_cases short : log.segment.stop < log.tail + headerSize
    · exact .inl short
    · simp only [headerSize] at short
      refine holds.ends.congr (own.mono ?_ (by omega))
      have := bounds.1
      simp only [Segment.firstRecord] at this
      omega

/-- Packing in the other segment takes no more room than the log has taken. -/
theorem Holds.relocated_used (holds : store.Holds cells log) (mounted : store.Mounted chip) :
    (store.relocated log).tail - (store.spare log).start ≤ log.used ∧
      (store.spare log).firstRecord ≤ (store.relocated log).tail ∧
      (store.relocated log).tail ≤ (store.spare log).stop := by
  have placed := holds.placed mounted
  have other := mounted.placed log.segment.id.other
  have sizes := store.segment_stop log.segment.id
  have otherSize := store.segment_stop log.segment.id.other
  rw [← holds.segment] at sizes
  have tail := holds.linked.packedEnd_eq
  have less := packedEnd_sublist ((survivors_sublist log.records).map (·.size)) magicSize
  have bounds := holds.tail_le mounted
  have first := le_packedEnd magicSize (sizesOf (survivors log.records))
  simp only [Segment.firstRecord] at tail
  rw [packedEnd_shift placed.startWord] at tail
  simp only [relocated, spare, Segment.firstRecord, Log.used]
  rw [packedEnd_shift other.startWord]
  simp only [sizesOf] at *
  omega

theorem Mounted.firstRecord_even (mounted : store.Mounted chip) (id : SegmentId) :
    (store.segment id).firstRecord % 2 = 0 := by
  have := (mounted.placed id).startWord
  simp only [Segment.firstRecord, magicSize]
  omega

/-- Nothing but the segment that the log is not in has changed. -/
theorem sameOutside_copied (mounted : store.Mounted chip) (cells : Nat → UInt8) (log : Log) :
    SameOutside (wipe cells (store.spare log).start (store.spare log).stop)
      (store.copied cells log) (store.spare log).firstRecord (store.relocated log).tail :=
  sameOutside_packed cells _ (mounted.firstRecord_even _) _

/-- The copy has of every parameter the last entry. -/
theorem Holds.laid_relocated (holds : store.Holds cells log) (mounted : store.Mounted chip) :
    store.Laid (store.copied cells log) (store.relocated log)
      (freshest (entriesIn cells log.records)) := by
  obtain ⟨-, above, room⟩ := holds.relocated_used mounted
  have written (record : Record) (member : record ∈ survivors log.records) :
      record.parameter ≠ erasedHalfword ∧ record.size ≠ erasedHalfword := by
    have stands := holds.linked.stands ((survivors_sublist log.records).mem member)
    exact ⟨stands.written, stands.sized⟩
  obtain ⟨linked, listed⟩ := linked_packed cells
    (wipe cells (store.spare log).start (store.spare log).stop)
    (mounted.firstRecord_even log.segment.id.other) written room
  have outside := sameOutside_copied mounted cells log
  have blank := blank_wipe cells (store.spare log).start (store.spare log).stop
  refine ⟨by simp [relocated, spare], linked, ?_, ?_⟩
  · rw [← entriesIn_survivors]
    exact listed
  · apply (blank.mono ?_ (Nat.le_refl _)).congr (outside.sameIn (.inr (Nat.le_refl _)))
    exact Nat.le_trans (Nat.le_add_right _ magicSize) above

theorem inUse_marked (store : Store) (cells : Nat → UInt8) (log : Log) :
    store.InUse (store.marked cells log) log.segment.id.other :=
  halfwordIn_overlay _ _ _

theorem sameOutside_marked (store : Store) (cells : Nat → UInt8) (log : Log) :
    SameOutside (store.copied cells log) (store.marked cells log) (store.spare log).start
      (store.spare log).firstRecord :=
  sameOutside_overlay _ _ _

/-- The marked copy is the log once the original does not come before it. -/
theorem Holds.ready_relocated (holds : store.Holds cells log) (mounted : store.Mounted chip)
    (same : SameIn (store.marked cells log) new (store.spare log).start (store.spare log).stop)
    (alone : log.segment.id = .a → ¬store.InUse new .a) :
    store.Ready new (store.relocated log) (freshest (entriesIn cells log.records)) := by
  have room := (mounted.placed log.segment.id.other).firstRecord_le
  have laidMarked := (holds.laid_relocated mounted).congr mounted
    ((store.sameOutside_marked cells log).sameIn (.inr (Nat.le_refl _)))
  have laid := laidMarked.congr mounted (same.mono (Nat.le_add_right _ magicSize) (Nat.le_refl _))
  have copyMarked : store.InUse new log.segment.id.other :=
    (inUse_congr_magic (same.mono (Nat.le_refl _) room)).mpr (store.inUse_marked cells log)
  have side : (store.relocated log).segment.id = log.segment.id.other := by simp [relocated, spare]
  apply laid.ready
  rw [side]
  refine ⟨copyMarked, fun second => alone ?_⟩
  cases original : log.segment.id with
  | a => rfl
  | b => simp [original, SegmentId.other] at second

theorem Holds.shows_relocated (holds : store.Holds cells log) (mounted : store.Mounted chip)
    (same : SameIn (store.marked cells log) new (store.spare log).start (store.spare log).stop)
    (alone : log.segment.id = .a → ¬store.InUse new .a) :
    store.Shows new (valueOf (entriesIn cells log.records)) := by
  rw [← valueOf_freshest]
  exact (holds.ready_relocated mounted same alone).shows

theorem blank_copied (mounted : store.Mounted chip) (cells : Nat → UInt8) (log : Log) :
    Blank (store.copied cells log) (store.spare log).start (store.spare log).firstRecord := by
  have room := (mounted.placed log.segment.id.other).firstRecord_le
  have outside := sameOutside_copied mounted cells log
  exact ((blank_wipe cells _ _).mono (Nat.le_refl _) room).congr
    (outside.sameIn (.inl (Nat.le_refl _)))

theorem Holds.sameOutside_spare (holds : store.Holds cells log) (mounted : store.Mounted chip) :
    SameOutside cells (store.copied cells log) (store.spare log).start (store.spare log).stop := by
  obtain ⟨-, above, room⟩ := holds.relocated_used mounted
  exact (sameOutside_wipe cells _ _).trans
    ((sameOutside_copied mounted cells log).mono (Nat.le_add_right _ magicSize) room)

/-- With both logs marked, either may count. -/
theorem Holds.shows_marked (holds : store.Holds cells log) (mounted : store.Mounted chip) :
    store.Shows (store.marked cells log) (valueOf (entriesIn cells log.records)) := by
  have room := (mounted.placed log.segment.id.other).firstRecord_le
  have outside := (holds.sameOutside_spare mounted).trans
    ((store.sameOutside_marked cells log).mono (Nat.le_refl _) room)
  cases side : log.segment.id with
  | a =>
    obtain ⟨still, listed⟩ := holds.congr_spare mounted outside (by simp [side])
    exact ⟨log, still, by rw [listed]⟩
  | b => exact holds.shows_relocated mounted (fun _ _ _ => rfl) (by simp [side])

theorem Holds.sameIn_compacted (holds : store.Holds cells log) :
    SameIn (store.marked cells log) (store.compacted cells log) (store.spare log).start
      (store.spare log).stop :=
  (sameOutside_wipe _ _ _).sameIn holds.apart.symm

/-- After compaction the copy is the only log, and nothing is left of the original. -/
theorem Holds.ready_compacted (holds : store.Holds cells log) (mounted : store.Mounted chip) :
    store.Ready (store.compacted cells log) (store.relocated log)
        (freshest (entriesIn cells log.records)) ∧
      Blank (store.compacted cells log) log.segment.start log.segment.stop ∧
      ¬store.InUse (store.compacted cells log) log.segment.id := by
  have placed := (mounted.placed log.segment.id).firstRecord_le
  have blank : Blank (store.compacted cells log) log.segment.start log.segment.stop :=
    blank_wipe _ _ _
  have unmarked : ¬store.InUse (store.compacted cells log) log.segment.id := by
    rw [holds.segment] at blank
    exact not_inUse_of_blank blank placed
  exact ⟨holds.ready_relocated mounted holds.sameIn_compacted fun first => first ▸ unmarked,
    blank, unmarked⟩

/-- What was not in use is erased; the answer tells whether it had to be. -/
theorem clearSpare_ensures (mounted : store.Mounted chip) (id : SegmentId) :
    (store.clearSpare (store.segment id)).Ensures chip
      (fun dirty after => chip.Keeps after ∧
        after.cell = wipe chip.cell (store.segment id).start (store.segment id).stop ∧
        (dirty = false ↔ Blank chip.cell (store.segment id).start (store.segment id).stop) ∧
        (dirty = false → after = chip))
      (chip.Balked (store.PartlyErased id chip.cell)) := by
  have placed := mounted.placed id
  have room := placed.room
  obtain ⟨blank, found, correct⟩ := mounted.isBlank_spec
    (show (store.segment id).start ≤ (store.segment id).stop by omega) placed.inside
  unfold clearSpare
  apply Action.ensures_observe_bind found
  cases blank with
  | true =>
    have erased := correct.mp rfl
    exact Action.ensures_pure ⟨.refl chip, (wipe_blank erased).symm, by simp [erased],
      fun _ => rfl⟩
  | false =>
    rw [segment_id]
    apply (store.eraseSegment_ensures mounted id).bind
    intro _ after done
    obtain ⟨keeps, cells⟩ := done
    exact Action.ensures_pure ⟨keeps, cells, by simpa using correct, by simp⟩

/-- Until the copy is marked, the log is as it was. -/
theorem Holds.shows_unmarked (holds : store.Holds cells log) (mounted : store.Mounted chip)
    (same : SameOutside cells new (store.spare log).start (store.spare log).stop)
    (unmarked : ¬store.InUse new log.segment.id.other) :
    store.Shows new (valueOf (entriesIn cells log.records)) := by
  have quiet : log.segment.id = .b → ¬store.InUse new .a := by
    intro second
    rwa [second] at unmarked
  obtain ⟨still, listed⟩ := holds.congr_spare mounted same quiet
  exact ⟨log, still, by rw [listed]⟩

/-- Marking the copy and erasing the original. -/
theorem Holds.switch_ensures (holds : store.Holds cells log) (mounted : store.Mounted chip)
    (steady : chip.faults.corruptNext = false) (copy : chip.cell = store.copied cells log) :
    (store.run [store.markCommand log.segment.id.other,
      store.eraseCommand log.segment.id]).Ensures chip
      (fun _ after => chip.Keeps after ∧ after.cell = store.compacted cells log)
      (chip.Interrupted (store.Shows · (valueOf (entriesIn cells log.records)))) := by
  have blank := blank_copied mounted cells log
  apply Command.ensures_cons
  · apply (store.markCommand_ensures mounted _ (copy ▸ blank)).weaken
    intro cause after interrupted
    refine interrupted.mono fun final outcome => ?_
    rcases outcome.2 steady with before | behind
    · rw [before, copy]
      exact holds.shows_unmarked mounted (holds.sameOutside_spare mounted)
        (not_inUse_of_blank blank (Nat.le_refl _))
    · rw [behind, copy]
      exact holds.shows_marked mounted
  · intro middle done
    obtain ⟨keeps, cellsMarked⟩ := done
    have both : middle.cell = store.marked cells log := by rw [cellsMarked, copy]; rfl
    apply Command.ensures_cons
    · apply (store.eraseCommand_ensures (mounted.keeps keeps) log.segment.id).weaken
      intro cause after balked
      refine .since keeps (balked.toInterrupted.mono fun final partly => ?_)
      rcases partly.eq_or_not_inUse with same | unmarked
      · rw [same, both]
        exact holds.shows_marked mounted
      -- The original has lost its mark, so the copy is the only log.
      · apply holds.shows_relocated mounted
        · rw [← both]
          exact partly.sameOutside.sameIn (store.segments_apart log.segment.id).symm
        · exact fun first => first ▸ unmarked
    · intro after done
      obtain ⟨kept, final⟩ := done
      refine Action.ensures_pure ⟨keeps.trans kept, ?_⟩
      rw [final, both, ← holds.segment]
      rfl

/-- What is copied lies in the region and outside of the other segment. -/
theorem Holds.sources (holds : store.Holds cells log) (mounted : store.Mounted chip)
    {record : Record} (member : record ∈ survivors log.records) :
    record.offset % 2 = 0 ∧ record.next ≤ store.region.length ∧
      (record.next ≤ (store.spare log).start ∨ (store.spare log).stop ≤ record.offset) := by
  have known := (survivors_sublist log.records).mem member
  have bounds := holds.linked.bounds known
  have tail := holds.tail_le mounted
  have apart := holds.apart
  refine ⟨(holds.even mounted).2 record known, holds.inside mounted known, ?_⟩
  simp only [spare, Segment.firstRecord] at *
  omega

/-- Filling the erased other segment with the copy. -/
theorem Holds.copy_ensures (holds : store.Holds cells log) (mounted : store.Mounted chip)
    (cleared : chip.cell = wipe cells (store.spare log).start (store.spare log).stop) :
    (store.pack (store.spare log).stop (survivors log.records)
      (store.spare log).firstRecord).Ensures chip
      (fun tail after => tail = (store.relocated log).tail ∧ chip.Keeps after ∧
        after.cell = store.copied cells log)
      (chip.Interrupted fun final => SameOutside chip.cell final (store.spare log).firstRecord
        (store.spare log).stop) := by
  have placed := mounted.placed log.segment.id.other
  obtain ⟨-, above, room⟩ := holds.relocated_used mounted
  have start : (store.spare log).start ≤ (store.spare log).firstRecord := Nat.le_add_right _ magicSize
  have blank : Blank chip.cell (store.spare log).start (store.spare log).stop :=
    cleared ▸ blank_wipe _ _ _
  have outside : SameOutside cells chip.cell (store.spare log).start (store.spare log).stop :=
    cleared ▸ sameOutside_wipe _ _ _
  rw [copied, ← cleared]
  apply pack_ensures mounted.onChip (mounted.firstRecord_even log.segment.id.other) placed.inside
    placed.fits room (blank.mono start (Nat.le_refl _))
  · intro record member
    obtain ⟨even, inside, apart⟩ := holds.sources mounted member
    exact ⟨even, inside, apart.imp_left fun before => Nat.le_trans before start⟩
  · intro record member
    obtain ⟨-, -, apart⟩ := holds.sources mounted member
    exact outside.sameIn apart

/-- Compaction moves the log; whatever interrupts it, no value changes. -/
theorem compact_ensures (mounted : store.Mounted chip) (holds : store.Holds chip.cell log)
    (steady : chip.faults.corruptNext = false) :
    store.compact.Ensures chip
      (fun migration after => ¬store.InUse chip.cell log.segment.id.other ∧ chip.Keeps after ∧
        after.cell = store.compacted chip.cell log ∧
        migration = ⟨log.segment.id, log.segment.id.other, (survivors log.records).length,
          log.used - (store.relocated log).used⟩)
      (fun cause after =>
        (cause = .targetInUse ∧ store.InUse chip.cell log.segment.id.other ∧ after = chip) ∨
        chip.Interrupted (store.Shows · (valueOf (entriesIn chip.cell log.records)))
          cause after) := by
  have found := mounted.active_eq holds.active
  rw [← holds.segment] at found
  unfold compact
  apply Action.ensures_observe_bind found
  apply Action.ensures_observe_bind (mounted.isInUse_eq _)
  simp only [segment_id, decide_eq_true_eq]
  by_cases busy : store.InUse chip.cell log.segment.id.other
  · rw [if_pos busy]
    exact Action.ensures_fail (.inl ⟨rfl, busy, rfl⟩)
  rw [if_neg busy]
  -- Erasing the remains can only take the mark of the other segment, which it does not have.
  apply Action.Ensures.bind
  · apply (store.clearSpare_ensures mounted log.segment.id.other).weaken
    intro cause after balked
    refine .inr (balked.toInterrupted.mono fun cells partly => ?_)
    apply holds.shows_unmarked mounted partly.sameOutside
    rcases partly.eq_or_not_inUse with same | unmarked
    · rwa [same]
    · exact unmarked
  intro dirty cleared done
  obtain ⟨keeps, cells, -⟩ := done
  have spared : SameOutside chip.cell cleared.cell (store.spare log).start (store.spare log).stop :=
    cells ▸ sameOutside_wipe _ _ _
  have blank : Blank cleared.cell (store.spare log).start (store.spare log).stop :=
    cells ▸ blank_wipe _ _ _
  have room := (mounted.placed log.segment.id.other).firstRecord_le
  have unmarked : ¬store.InUse cleared.cell log.segment.id.other := not_inUse_of_blank blank room
  obtain ⟨still, -⟩ := holds.congr_spare mounted spared fun second => by rwa [second] at unmarked
  apply Action.ensures_observe_bind ((mounted.keeps keeps).logRead_eq still)
  have copying := holds.copy_ensures (mounted.keeps keeps) cells
  -- The copy grows behind an unwritten mark.
  apply Action.Ensures.bind
  · apply copying.weaken
    intro cause after interrupted
    refine .inr (.since keeps (interrupted.mono fun final outside => ?_))
    apply holds.shows_unmarked mounted
      (spared.trans (outside.mono (Nat.le_add_right _ magicSize) (Nat.le_refl _)))
    exact not_inUse_of_blank ((blank.mono (Nat.le_refl _) room).congr
      (outside.sameIn (.inl (Nat.le_refl _)))) (Nat.le_refl _)
  intro tail middle done
  obtain ⟨rfl, kept, copy⟩ := done
  have powered := keeps.trans kept
  apply Action.Ensures.bind
  · apply (holds.switch_ensures (mounted.keeps powered) (powered.steady steady) copy).weaken
    intro cause after interrupted
    exact .inr (.since powered interrupted)
  intro _ after done
  obtain ⟨last, final⟩ := done
  exact Action.ensures_pure ⟨busy, powered.trans last, final, rfl⟩

end ParamStore.Store
