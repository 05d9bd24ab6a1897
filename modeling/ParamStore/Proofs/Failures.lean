import ParamStore.Proofs.Atomicity
import ParamStore.Proofs.Restart
import ParamStore.Proofs.Results

/-! Calls that fail on a chip without faults, whatever it holds. Most change nothing at all. Two do:
a compaction has erased the other segment before it finds that the log is corrupt, and a write may
find only after a compaction that there is no room. In neither case does a value get lost. -/
namespace ParamStore

namespace Store

variable {store : Store} {chip : Chip} {id : SegmentId} {parameter : UInt16} {data : Bytes}
  {missing : StoreError}

/-- Without a log a write fails before it changes anything. -/
theorem write_without_log (lost : store.log chip = .fail missing) :
    (store.write parameter data).Ensures chip (fun _ _ => False) fun cause after =>
      after = chip ∧ ((cause = .invalidParameter ∧ isValidParameter parameter = false) ∨
        (cause = .tooLarge ∧ maxPayload < data.length) ∨ cause = missing) := by
  unfold write
  by_cases valid : isValidParameter parameter = true
  case neg =>
    rw [if_pos (by simp [valid])]
    exact Action.ensures_fail ⟨rfl, .inl ⟨rfl, by simpa using valid⟩⟩
  rw [if_neg (by simp [valid])]
  by_cases long : maxPayload < data.length
  · rw [if_pos long]
    exact Action.ensures_fail ⟨rfl, .inr (.inl ⟨rfl, long⟩)⟩
  rw [if_neg long]
  have unreserved : store.reserve chip (.ofNat data.length) = .fail missing := by
    simp only [reserve, lost, bind, Except.bind, Attempt.fail]
  exact Action.ensures_observe_bind_fail unreserved ⟨rfl, .inr (.inr rfl)⟩

theorem remove_without_log (lost : store.log chip = .fail missing) :
    (store.remove parameter).Ensures chip (fun _ _ => False) fun cause after =>
      after = chip ∧ ((cause = .invalidParameter ∧ isValidParameter parameter = false) ∨
        cause = missing) := by
  unfold remove
  by_cases valid : isValidParameter parameter = true
  case neg =>
    rw [if_pos (by simp [valid])]
    exact Action.ensures_fail ⟨rfl, .inl ⟨rfl, by simpa using valid⟩⟩
  rw [if_neg (by simp [valid])]
  exact Action.ensures_observe_bind_fail lost ⟨rfl, .inr rfl⟩

/-- A log that cannot be walked stays where it is, and nothing of it is copied. -/
theorem compact_corrupt_ensures (mounted : store.Mounted chip)
    (active : store.Active chip.cell id)
    (broken : Log.read store.region chip (store.segment id) = .fail .corrupt) :
    store.compact.Ensures chip (fun _ _ => False) fun cause after =>
      (cause = .targetInUse ∧ store.InUse chip.cell id.other ∧ after = chip) ∨
      (cause = .corrupt ∧ chip.Keeps after ∧ after.cell =
        wipe chip.cell (store.segment id.other).start (store.segment id.other).stop) ∨
      chip.Balked (store.PartlyErased id.other chip.cell) cause after := by
  unfold compact
  apply Action.ensures_observe_bind (mounted.active_eq active)
  apply Action.ensures_observe_bind (mounted.isInUse_eq _)
  simp only [segment_id, decide_eq_true_eq]
  by_cases busy : store.InUse chip.cell id.other
  · rw [if_pos busy]
    exact Action.ensures_fail (.inl ⟨rfl, busy, rfl⟩)
  rw [if_neg busy]
  apply Action.Ensures.bind
  · apply (store.clearSpare_ensures mounted id.other).weaken
    exact fun cause after balked => .inr (.inr balked)
  intro dirty cleared done
  obtain ⟨keeps, erased, -, -⟩ := done
  have outside : SameOutside chip.cell cleared.cell _ _ := erased ▸ sameOutside_wipe _ _ _
  have same := (outside.sameIn (store.segments_apart id)).mono
    (Nat.le_add_right _ magicSize) (Nat.le_refl _)
  have still := mounted.logRead_congr (mounted.keeps keeps) same
  exact Action.ensures_observe_bind_fail (still.trans broken)
    (.inr (.inl ⟨rfl, keeps, erased⟩))

theorem compact_unused_ensures (mounted : store.Mounted chip)
    (unused : ∀ id, ¬store.InUse chip.cell id) :
    store.compact.Ensures chip (fun _ _ => False) fun cause after =>
      cause = .noStorage ∧ after = chip :=
  Action.ensures_observe_bind_fail (mounted.active_of_unused unused) ⟨rfl, rfl⟩

end Store

variable {store : Store} {chip after : Chip} {call : Call} {cause : StoreError}

/-- How a call fails on a chip without faults, and what it leaves. -/
inductive Call.Failed (store : Store) (chip : Chip) : Call → StoreError → Chip → Prop
  | unchanged {call : Call} {cause : StoreError} (soft : cause.isHardware = false)
    (early : call = .compact → cause ≠ .corrupt) : Failed store chip call cause chip
  /-- The log is corrupt; the other segment had been cleared for it. -/
  | abandoned {id : SegmentId} {after : Chip} (active : store.Active chip.cell id)
    (keeps : chip.Keeps after) (erased : after.cell =
      wipe chip.cell (store.segment id.other).start (store.segment id.other).stop) :
    Failed store chip .compact .corrupt after
  /-- The log was compacted for a record that an empty segment would take. -/
  | crowded {log : Log} {parameter : UInt16} {data : Bytes} {after : Chip}
    (holds : store.Holds chip.cell log) (short : data.length ≤ maxPayload)
    (hopeful : nextOffset log.segment.firstRecord (.ofNat data.length) ≤ log.segment.stop)
    (keeps : chip.Keeps after) (moved : after.cell = store.compacted chip.cell log) :
    Failed store chip (.write parameter data) .tooLarge after

theorem Call.write_failed (mounted : store.Mounted chip) (faultless : chip.Faultless)
    (parameter : UInt16) (data : Bytes) :
    (store.write parameter data).Ensures chip (fun _ _ => True)
      (Call.Failed store chip (.write parameter data)) := by
  rcases mounted.log_cases with ⟨log, holds⟩ | ⟨missing, lost, soft⟩
  · apply (store.write_ensures mounted holds faultless.steady).mono (fun _ _ _ => trivial)
    intro cause after failed
    rcases failed with refused | interrupted
    · cases refused with
      | reserved | tooLong | hopeless | occupied => exact .unchanged rfl (by simp)
      | crowded _ _ _ short hopeful _ keeps moved => exact .crowded holds short hopeful keeps moved
    · exact absurd faultless interrupted.faulty
  · apply (Store.write_without_log lost).mono (fun _ _ => False.elim)
    rintro cause after ⟨rfl, ⟨rfl, -⟩ | ⟨rfl, -⟩ | rfl⟩
    · exact .unchanged rfl (by simp)
    · exact .unchanged rfl (by simp)
    · exact .unchanged soft (by simp)

theorem Call.remove_failed (mounted : store.Mounted chip) (faultless : chip.Faultless)
    (parameter : UInt16) :
    (store.remove parameter).Ensures chip (fun _ _ => True)
      (Call.Failed store chip (.remove parameter)) := by
  rcases mounted.log_cases with ⟨log, holds⟩ | ⟨missing, lost, soft⟩
  · apply (store.remove_ensures mounted holds faultless.steady).mono (fun _ _ _ => trivial)
    intro cause after failed
    rcases failed with ⟨rfl, -, rfl⟩ | ⟨rfl, -, -, rfl⟩ | interrupted
    · exact .unchanged rfl (by simp)
    · exact .unchanged rfl (by simp)
    · exact absurd faultless interrupted.faulty
  · apply (Store.remove_without_log lost).mono (fun _ _ => False.elim)
    rintro cause after ⟨rfl, ⟨rfl, -⟩ | rfl⟩
    · exact .unchanged rfl (by simp)
    · exact .unchanged soft (by simp)

theorem Call.compact_failed (mounted : store.Mounted chip) (faultless : chip.Faultless) :
    store.compact.Ensures chip (fun _ _ => True) (Call.Failed store chip .compact) := by
  cases mounted.condition with
  | works holds =>
    apply (store.compact_ensures mounted holds faultless.steady).mono (fun _ _ _ => trivial)
    rintro cause after (⟨rfl, -, rfl⟩ | interrupted)
    · exact .unchanged rfl (by simp)
    · exact absurd faultless interrupted.faulty
  | unused unused =>
    apply (store.compact_unused_ensures mounted unused).mono (fun _ _ => False.elim)
    rintro cause after ⟨rfl, rfl⟩
    exact .unchanged rfl (by simp)
  | corrupt active broken =>
    apply (store.compact_corrupt_ensures mounted active broken).mono (fun _ _ => False.elim)
    rintro cause after (⟨rfl, -, rfl⟩ | ⟨rfl, keeps, erased⟩ | balked)
    · exact .unchanged rfl (by simp)
    · exact .abandoned active keeps erased
    · exact absurd faultless.obedient balked.disobedient

theorem Call.run_failed (mounted : store.Mounted chip) (faultless : chip.Faultless) (call : Call) :
    (call.run store).Ensures chip (fun _ _ => True) (Call.Failed store chip call) := by
  cases call with
  | write parameter data => exact Call.write_failed mounted faultless parameter data
  | remove parameter => exact Call.remove_failed mounted faultless parameter
  | compact =>
    exact (Call.compact_failed mounted faultless).bind fun _ _ _ => Action.ensures_pure trivial
  | recover =>
    apply Action.Ensures.bind
    · apply (store.recover_settles mounted).weaken
      exact fun cause after balked => absurd faultless.obedient balked.disobedient
    · exact fun _ _ _ => Action.ensures_pure trivial

/-- What a call leaves of a store that it has failed on. -/
structure Call.Spares (store : Store) (chip : Chip) (call : Call) (cause : StoreError)
    (after : Chip) : Prop where
  unchanged : cause = .noStorage ∨ cause = .invalidParameter ∨ cause = .notFound ∨
    cause = .targetInUse → after.memory = chip.memory
  corrupt : cause = .corrupt → call ≠ .compact → after.memory = chip.memory
  uncopied : cause = .corrupt → call = .compact → ∃ segment, store.active chip = .ok segment ∧
    SameIn chip.cell after.cell segment.start segment.stop ∧
    Blank after.cell (store.segment segment.id.other).start (store.segment segment.id.other).stop
  tooLarge : cause = .tooLarge → ∀ parameter capacity,
    store.read after parameter capacity = store.read chip parameter capacity
  hopeless : cause = .tooLarge → ∀ parameter data, call = .write parameter data →
    (maxPayload < data.length ∨ ∃ segment, store.active chip = .ok segment ∧
      segment.stop < nextOffset segment.firstRecord (.ofNat data.length)) →
    after.memory = chip.memory

theorem Call.Failed.spares (failed : call.Failed store chip cause after)
    (mounted : store.Mounted chip) : call.Spares store chip cause after := by
  cases failed with
  | unchanged soft early =>
    exact ⟨fun _ => rfl, fun _ _ => rfl, fun corrupt compact => absurd corrupt (early compact),
      fun _ _ _ => rfl, fun _ _ _ _ _ => rfl⟩
  | @abandoned id _ active keeps erased =>
    refine ⟨by simp, by simp, fun _ _ => ?_, by simp, by simp⟩
    refine ⟨store.segment id, mounted.active_eq active, ?_, ?_⟩
    · rw [erased]
      exact (sameOutside_wipe _ _ _).sameIn (store.segments_apart id)
    · rw [erased, Store.segment_id]
      exact blank_wipe _ _ _
  | crowded holds short hopeful keeps moved =>
    refine ⟨by simp, by simp, by simp, fun _ parameter capacity => ?_, ?_⟩
    · obtain ⟨ready, -, -⟩ := holds.ready_compacted mounted
      have shown := ready.shows
      rw [← moved, valueOf_freshest] at shown
      rw [(mounted.keeps keeps).read_of_shows shown, mounted.read_of_shows ⟨_, holds, rfl⟩]
    · rintro _ parameter data ⟨⟩ (long | ⟨segment, known, small⟩)
      · exact absurd short (Nat.not_le_of_lt long)
      · have found := mounted.active_eq holds.active
        rw [← holds.segment, known, Except.ok.injEq] at found
        subst found
        exact absurd hopeful (Nat.not_le_of_lt small)

/-- On a chip without faults, whatever it holds, a call that fails spares the log. Only a compaction
of a corrupt log and a write for which there turns out to be no room change anything: the first
erases what is not the log, and the second changes no value. -/
theorem Call.run_spares (mounted : store.Mounted chip) (faultless : chip.Faultless) (call : Call)
    (cause : StoreError) (failed : (call.run store).outcome chip = .fail cause) :
    call.Spares store chip cause ((call.run store).after chip) := by
  rcases (Call.run_failed mounted faultless call).outcome_cases with
    ⟨answer, outcome, -⟩ | ⟨reported, outcome, left⟩
  · rw [outcome] at failed
    cases failed
  · rw [outcome] at failed
    cases failed
    exact left.spares mounted

namespace Store

/-- Segments of one page. -/
def small : Store := ⟨⟨0, 32⟩, ⟨16⟩⟩

/-- The log has a value, and room for one of four bytes more. -/
def fullChip : Chip where
  base := 0
  pageSize := 16
  memory := #[0xA5, 0x5A, 7, 0, 1, 0, 0x11, 0xFF] ++ Array.replicate 24 erasedByte

/-- The log has lost the size of its record, and the other segment has remains. -/
def tornChip : Chip where
  base := 0
  pageSize := 16
  memory := #[0xA5, 0x5A, 7, 0, 0xFF, 0xFF, 0x11, 0xFF] ++ Array.replicate 8 erasedByte ++
    #[0xDE, 0xAD] ++ Array.replicate 14 erasedByte

theorem fullChip_mounted : small.Mounted fullChip := ⟨rfl, by decide, rfl, by decide, by decide⟩

theorem tornChip_mounted : small.Mounted tornChip := ⟨rfl, by decide, rfl, by decide, by decide⟩

theorem fullChip_holds : small.Holds fullChip.cell ⟨small.segment .a, [⟨⟨7, 1⟩, 2⟩], 8⟩ where
  segment := rfl
  active := by decide
  linked := ⟨rfl, ⟨by decide, by decide, by decide, by decide⟩, rfl⟩
  ends := .inr (by decide)

theorem fullChip_write :
    (Call.run small (.write 7 [1, 2, 3, 4, 5])).outcome fullChip = .fail .tooLarge :=
  (write_yields fullChip_mounted rfl fullChip_holds (by decide)).outcome

theorem tornChip_compact : (Call.run small .compact).outcome tornChip = .fail .corrupt := by
  have broken : Log.read small.region tornChip (small.segment .a) = .fail .corrupt := by
    rw [Log.read, walk_of_failure rfl]
    rfl
  rcases (compact_corrupt_ensures tornChip_mounted (by decide) broken).outcome_cases with
    ⟨_, -, nothing⟩ | ⟨cause, outcome, ⟨-, busy, -⟩ | ⟨rfl, -⟩ | balked⟩
  · exact nothing.elim
  · exact absurd busy (by decide)
  · exact (Action.outcome_bind _ _ _).trans (by rw [outcome]; rfl)
  · exact absurd ⟨rfl, rfl, rfl⟩ balked.disobedient

end Store

theorem Call.run_spares_small :
    Call.Spares Store.small Store.fullChip (.write 7 [1, 2, 3, 4, 5]) .tooLarge
        ((Call.run Store.small (.write 7 [1, 2, 3, 4, 5])).after Store.fullChip) ∧
      Call.Spares Store.small Store.tornChip .compact .corrupt
        ((Call.run Store.small .compact).after Store.tornChip) :=
  ⟨Call.run_spares Store.fullChip_mounted rfl _ _ Store.fullChip_write,
    Call.run_spares Store.tornChip_mounted rfl _ _ Store.tornChip_compact⟩

end ParamStore
