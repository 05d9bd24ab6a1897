import ParamStore.Proofs.Arming

/-! A full store. Whether a record has room depends on its size and on the packed live records, and a
write that is refused changes neither, though it may have compacted the log. So the next record of that
size is refused as well. Arming writes two records of one size, the second in case that the first
fails, and on a chip without faults the second never helps. -/
namespace ParamStore

namespace Store

variable {store : Store} {chip : Chip} {cells : Nat → UInt8} {log : Log} {size : UInt16}
  {values : Values}

/-- Compaction makes no room that the packed live records did not leave before. -/
theorem Holds.fits_relocated (holds : store.Holds cells log) (mounted : store.Mounted chip)
    (size : UInt16) : Fits (store.relocated log) size ↔ Fits log size := by
  have moved := (holds.ready_compacted mounted).1.holds
  rw [← holds.fits_relocated_iff mounted, Fits, ← moved.survivors_eq, holds.survivors_relocated,
    moved.linked.packedEnd_eq]
  rfl

/-- The store works in one segment, with these values, and has no room for a record of this size. -/
structure Full (store : Store) (chip : Chip) (size : UInt16) (values : Values) : Prop where
  mounted : store.Mounted chip
  faultless : chip.Faultless
  crowded : ∃ log, store.Holds chip.cell log ∧ valueOf (entriesIn chip.cell log.records) = values ∧
    ¬store.InUse chip.cell log.segment.id.other ∧ ¬Fits log size

theorem Full.shows (full : store.Full chip size values) : store.Shows chip.cell values := by
  obtain ⟨log, holds, known, -⟩ := full.crowded
  exact ⟨log, holds, known⟩

/-- A full store refuses every record of that size, and stays full. -/
theorem Full.write (parameter : UInt16) (data : Bytes)
    (full : store.Full chip (.ofNat data.length) values)
    (valid : isValidParameter parameter = true) (short : data.length ≤ maxPayload) :
    (store.write parameter data).outcome chip = .fail .tooLarge ∧
      store.Full ((store.write parameter data).after chip) (.ofNat data.length) values := by
  obtain ⟨mounted, faultless, log, holds, rfl, alone, large⟩ := full
  have guarantee : (store.write parameter data).Ensures chip _ _ :=
    write_ensures mounted holds faultless.steady
  rcases guarantee.outcome_cases with
    ⟨_, -, -, -, -, grown, stored⟩ | ⟨cause, outcome, refused | interrupted⟩
  · exact absurd (stored.fits holds mounted) large
  · obtain ⟨rfl, -⟩ := refused.not_fits holds mounted valid short alone
    refine ⟨outcome, ?_⟩
    generalize (store.write parameter data).after chip = after at refused
    cases refused with
    | tooLong | hopeless => exact ⟨mounted, faultless, log, holds, rfl, alone, large⟩
    | crowded _ _ _ _ _ _ keeps moved =>
      obtain ⟨ready, -, unmarked⟩ := holds.ready_compacted mounted
      refine ⟨mounted.keeps keeps, keeps.faultless faultless, store.relocated log, ?_⟩
      rw [moved]
      refine ⟨ready.holds, ?_, ?_, ?_⟩
      · rw [ready.entries, valueOf_freshest]
      · rwa [relocated, spare, segment_id, SegmentId.other_other]
      · rwa [holds.fits_relocated mounted]
  · exact absurd faultless interrupted.faulty

end Store

namespace Boot

variable {store : Store} {chip : Chip} {log : Log}

theorem writeWord_of_full {values : Values} (full : store.Full chip 4 values)
    (parameter : UInt16) (valid : isValidParameter parameter = true) (word : UInt32) :
    (writeWord store parameter word).outcome chip = .fail .tooLarge ∧
      store.Full ((writeWord store parameter word).after chip) 4 values :=
  Store.Full.write parameter (wordBytes word) full valid (by decide : 4 ≤ maxPayload)

/-- Without room for its word, arming is refused, and so is the write that is to forget the program. -/
theorem armReset_of_full {values : Values} (full : store.Full chip 4 values) :
    (armReset store).outcome chip = .fail (.store .tooLarge) ∧
      store.Full ((armReset store).after chip) 4 values := by
  obtain ⟨refused, still⟩ := writeWord_of_full full skipParameter rfl skipMagic
  obtain ⟨again, left⟩ := writeWord_of_full still vectorTableParameter rfl 0
  constructor
  · unfold armReset
    rw [Action.outcome_bind, Action.outcome_attempt_of_fail refused, Action.after_attempt]
    simp only [Except.bind, Action.outcome_bind, Action.outcome_attempt_of_fail again]
    rfl
  · rw [armReset_after_of_fail refused]
    exact left

/-- On a chip without faults and with one segment in use, arming fails exactly where the packed live
records leave no room for its word. Then it forgets nothing: the next reset finds the program and the
word that were there before. -/
theorem failed_arm_forgets_nothing (mounted : store.Mounted chip) (faultless : chip.Faultless)
    (found : store.log chip = .ok log)
    (alone : store.isInUse chip log.segment.id.other = .ok false) :
    ∃ entry, Entry.load store chip = .ok entry ∧
      ((Store.Fits log 4 ∧ (armReset store).outcome chip = .ok () ∧
          Entry.load store ((armReset store).after chip) = .ok { entry with magic := skipMagic }) ∨
        (¬Store.Fits log 4 ∧ (armReset store).outcome chip = .fail (.store .tooLarge) ∧
          Entry.load store ((armReset store).after chip) = .ok entry)) := by
  have holds := mounted.log_eq_ok_iff.mp found
  have unmarked : ¬store.InUse chip.cell log.segment.id.other := by
    rw [mounted.isInUse_eq] at alone
    simpa using alone
  refine ⟨_, load_eq mounted ⟨_, ⟨log, holds, rfl⟩, rfl⟩, ?_⟩
  have guarantee : (writeWord store skipParameter skipMagic).Ensures chip _ _ :=
    Store.write_ensures mounted holds faultless.steady
  rcases guarantee.outcome_cases with
    ⟨_, done, -, -, keeps, grown, stored⟩ | ⟨cause, -, refused | interrupted⟩
  · have shows := stored.shows holds mounted (by decide) (by decide)
    rw [armReset_after_of_ok done]
    exact .inl ⟨stored.fits holds mounted, armReset_outcome_of_ok done,
      load_eq (mounted.keeps keeps) ⟨_, shows, Values.entry_set_skip _ _⟩⟩
  · have large := (refused.not_fits holds mounted (by decide) (by decide) unmarked).2
    obtain ⟨failed, full⟩ := armReset_of_full
      ⟨mounted, faultless, log, holds, rfl, unmarked, large⟩
    exact .inr ⟨large, failed, load_eq full.mounted ⟨_, full.shows, rfl⟩⟩
  · exact absurd faultless interrupted.faulty

/-- A program is installed, and four bytes of the segment are left. -/
def crowdedChip : Chip := installedChip ([7, 0, 12, 0] ++ .replicate 12 0x11)

def crowdedLog : Log := ⟨Store.sample.segment .a, [⟨⟨0x1001, 4⟩, 2⟩, ⟨⟨7, 12⟩, 12⟩], 28⟩

theorem crowdedChip_mounted : Store.sample.Mounted crowdedChip :=
  ⟨rfl, by decide, rfl, by decide, by decide⟩

theorem crowdedChip_log : Store.sample.log crowdedChip = .ok crowdedLog :=
  eq_ok_of_toOption (by decide +kernel)

theorem failed_arm_forgets_nothing_crowded :
    Store.sample.Mounted crowdedChip ∧ crowdedChip.Faultless ∧
      Store.sample.log crowdedChip = .ok crowdedLog ∧
      Store.sample.isInUse crowdedChip .b = .ok false ∧
      (armReset Store.sample).outcome crowdedChip = .fail (.store .tooLarge) ∧
      ∃ entry, Entry.load Store.sample crowdedChip = .ok entry ∧
        Entry.load Store.sample ((armReset Store.sample).after crowdedChip) = .ok entry := by
  obtain ⟨entry, loaded, ⟨fits, -⟩ | ⟨-, failed, left⟩⟩ :=
    failed_arm_forgets_nothing crowdedChip_mounted rfl crowdedChip_log rfl
  · exact absurd fits (by decide)
  · exact ⟨crowdedChip_mounted, rfl, crowdedChip_log, rfl, failed, entry, loaded, left⟩

/-- The program of the crowded store is started although arming has failed. -/
theorem failed_arm_keeps_program :
    Store.sample.Mounted crowdedChip ∧ crowdedChip.Faultless ∧
      Store.sample.log crowdedChip = .ok crowdedLog ∧
      Store.sample.isInUse crowdedChip .b = .ok false ∧
      (armReset Store.sample).outcome crowdedChip ≠ .ok () ∧
      ∃ left, Entry.load Store.sample ((armReset Store.sample).after crowdedChip) = .ok left ∧
        left.vectorTable ≠ 0 ∧ left.startsUserProgram false = true := by
  have holds := crowdedChip_mounted.log_eq_ok_iff.mp crowdedChip_log
  have program : (valueOf (entriesIn crowdedChip.cell crowdedLog.records)).entry =
      ⟨0x08002000, 0⟩ := by decide +kernel
  obtain ⟨failed, full⟩ := armReset_of_full
    ⟨crowdedChip_mounted, rfl, crowdedLog, holds, rfl, by decide, by decide⟩
  refine ⟨crowdedChip_mounted, rfl, crowdedChip_log, rfl, fun done => ?_, ⟨0x08002000, 0⟩,
    load_eq full.mounted ⟨_, full.shows, program⟩, by decide, rfl⟩
  rw [failed] at done
  cases done

end Boot

end ParamStore
