import ParamStore.Proofs.Update
import ParamStore.Proofs.LiveRecords

/-! What a store takes. Three ways lead to the answer of a write: there is room behind the log, there
would be none in an empty segment, or compaction decides. They all come to one rule, that the value
fits behind the live records once these are packed. -/
namespace ParamStore.Store

variable {store : Store} {chip after : Chip} {cells new : Nat → UInt8} {log grown : Log}
  {parameter : UInt16} {data : Bytes} {cause : StoreError}

/-- A record of this size ends within the segment if it stands behind the packed live records. -/
def Fits (log : Log) (size : UInt16) : Prop :=
  nextOffset (packedEnd log.segment.firstRecord (sizesOf log.lasts)) size ≤ log.segment.stop

instance (log : Log) (size : UInt16) : Decidable (Fits log size) :=
  inferInstanceAs (Decidable (_ ≤ _))

/-- Both segments have the same room. -/
theorem Holds.fits_relocated_iff (holds : store.Holds cells log) (mounted : store.Mounted chip)
    (size : UInt16) :
    nextOffset (store.relocated log).tail size ≤ (store.spare log).stop ↔ Fits log size := by
  have here := holds.placed mounted
  have there := mounted.placed log.segment.id.other
  have stops := store.segment_stop log.segment.id
  have otherStops := store.segment_stop log.segment.id.other
  rw [← holds.segment] at stops
  simp only [Fits, relocated, spare, Segment.firstRecord, holds.survivors_eq,
    packedEnd_shift here.startWord, packedEnd_shift there.startWord,
    nextOffset_shift here.startWord, nextOffset_shift there.startWord, stops, otherStops]
  omega

/-- Packing the live records never needs more room than the log has. -/
theorem Holds.packedEnd_le (holds : store.Holds cells log) :
    packedEnd log.segment.firstRecord (sizesOf log.lasts) ≤ log.tail := by
  rw [← holds.survivors_eq, ← holds.linked.packedEnd_eq]
  exact packedEnd_sublist ((survivors_sublist log.records).map (·.size)) _

theorem Stored.fits (stored : store.Stored cells log parameter data new grown)
    (holds : store.Holds cells log) (mounted : store.Mounted chip) :
    Fits log (.ofNat data.length) := by
  cases stored with
  | inPlace takes =>
    exact Nat.le_trans (nextOffset_mono holds.packedEnd_le _) takes.fits
  | moved full unmarked fits => exact (holds.fits_relocated_iff mounted _).mp fits

/-- A write refused for want of room does not fit. -/
theorem Refused.not_fits (refused : store.Refused chip log parameter data cause after)
    (holds : store.Holds chip.cell log) (mounted : store.Mounted chip)
    (valid : isValidParameter parameter = true) (short : data.length ≤ maxPayload)
    (alone : ¬store.InUse chip.cell log.segment.id.other) :
    cause = .tooLarge ∧ ¬Fits log (.ofNat data.length) := by
  cases refused with
  | reserved invalid => simp [valid] at invalid
  | tooLong _ long => exact absurd short (Nat.not_le_of_lt long)
  | hopeless _ full small =>
    refine ⟨rfl, fun fits => Nat.not_le_of_lt small ?_⟩
    exact Nat.le_trans (nextOffset_mono (le_packedEnd _ _) _) fits
  | occupied _ full inUse => exact absurd inUse alone
  | crowded _ full unmarked _ _ packed =>
    exact ⟨rfl, fun fits => Nat.not_le_of_lt packed ((holds.fits_relocated_iff mounted _).mpr fits)⟩

/-- On a chip without faults and with one segment in use, a write stores its value exactly when the
value fits behind the packed live records. What the log holds besides makes no difference. -/
theorem write_outcome_eq (mounted : store.Mounted chip) (faultless : chip.Faultless)
    (found : store.log chip = .ok log)
    (alone : store.isInUse chip log.segment.id.other = .ok false) (parameter : UInt16)
    (data : Bytes) (valid : isValidParameter parameter = true) (short : data.length ≤ maxPayload) :
    (store.write parameter data).outcome chip =
      if nextOffset (packedEnd log.segment.firstRecord (sizesOf log.lasts)) (.ofNat data.length) ≤
          log.segment.stop then .ok ()
      else .fail .tooLarge := by
  have holds := mounted.log_eq_ok_iff.mp found
  have unmarked : ¬store.InUse chip.cell log.segment.id.other := by
    rw [mounted.isInUse_eq] at alone
    simpa using alone
  rcases (store.write_ensures mounted holds faultless.steady).outcome_cases with
    ⟨_, outcome, -, -, -, grown, stored⟩ | ⟨cause, outcome, refused | interrupted⟩
  · exact outcome.trans (if_pos (stored.fits holds mounted)).symm
  · obtain ⟨rfl, large⟩ := refused.not_fits holds mounted valid short unmarked
    exact outcome.trans (if_neg large).symm
  · exact absurd faultless interrupted.faulty

/-- Eight bytes are packed, the old value of 7 among them, so a record has twenty bytes of payload. -/
theorem write_outcome_eq_sample :
    (sample.write 7 (.replicate 20 0)).outcome sampleChip = .ok () ∧
      (sample.write 7 (.replicate 21 0)).outcome sampleChip = .fail .tooLarge :=
  ⟨write_outcome_eq sample_mounted rfl sample_log rfl 7 (.replicate 20 0) (by decide)
      (by decide),
    write_outcome_eq sample_mounted rfl sample_log rfl 7 (.replicate 21 0) (by decide)
      (by decide)⟩

end ParamStore.Store
