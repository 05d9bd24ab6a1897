import ParamStore.Proofs.Views

/-! What the store never looks at. Two chips may differ in everything behind the mark of the log's end
and in all that the other segment holds besides its magic. They give the same answers, and as long as
one segment is in use, calls cannot tell them apart either: where one chip takes a value in place, the
other may have to be compacted first, or have its other segment erased on the way, but what a call
comes to is decided by the log and its values. -/
namespace ParamStore

namespace Store

variable {store : Store} {first second : Chip} {log : Log} {α : Type}

/-- Both chips have the same segments in use, and the same cells from the start of the log's segment
through the half-word that marks its end, or through the end of the segment if the log fills it. -/
structure SameLog (store : Store) (log : Log) (first second : Chip) : Prop where
  inUse : ∀ id, store.isInUse second id = store.isInUse first id
  cells : SameIn first.cell second.cell log.segment.start (min (log.tail + 2) log.segment.stop)

theorem SameLog.holds (same : store.SameLog log first second) (mounted : store.Mounted first)
    (otherMounted : store.Mounted second) (holds : store.Holds first.cell log) :
    store.Holds second.cell log ∧
      entriesIn second.cell log.records = entriesIn first.cell log.records := by
  have bounds := holds.tail_le mounted
  have start : log.segment.start ≤ log.segment.firstRecord := Nat.le_add_right _ _
  have before : SameIn first.cell second.cell log.segment.firstRecord log.tail :=
    same.cells.mono start (by omega)
  have magics (id : SegmentId) : store.InUse second.cell id ↔ store.InUse first.cell id := by
    have agree := same.inUse id
    rw [mounted.isInUse_eq, otherMounted.isInUse_eq] at agree
    simpa using agree
  have ends : EndsAt second.cell log.segment.stop log.tail :=
    holds.ends.congr_within (same.cells.mono (by omega) (Nat.le_refl _))
  exact ⟨holds.congr magics before ends,
    entriesIn_congr fun record member => holds.linked.payload_congr before member⟩

/-- The call answers alike on both chips, and all values are read alike after it. -/
structure Indistinguishable (store : Store) (action : Action StoreError α) (first second : Chip) :
    Prop where
  outcome : action.outcome second = action.outcome first
  read : ∀ parameter capacity, store.read (action.after second) parameter capacity =
    store.read (action.after first) parameter capacity

theorem Yields.indistinguishable {action : Action StoreError α}
    {result : Attempt StoreError α × Values} (here : store.Yields action first result)
    (there : store.Yields action second result) :
    store.Indistinguishable action first second := by
  refine ⟨there.outcome.trans here.outcome.symm, fun parameter capacity => ?_⟩
  rw [there.mounted.read_of_shows there.shows, here.mounted.read_of_shows here.shows]

/-- Nothing behind the mark of the log's end is interpreted, and of the other segment nothing but
whether it is in use. -/
theorem remains_unseen (mounted : store.Mounted first) (faultless : first.Faultless)
    (otherMounted : store.Mounted second) (otherFaultless : second.Faultless)
    (found : store.log first = .ok log) (same : store.SameLog log first second) :
    (∀ parameter capacity,
      store.read second parameter capacity = store.read first parameter capacity) ∧
    (∀ parameter, store.contains second parameter = store.contains first parameter) ∧
    store.stats second = store.stats first ∧
    store.live second = store.live first ∧
    (∀ {σ : Type} (visit : σ → Header → σ) (state : σ),
      store.forEachLive second visit state = store.forEachLive first visit state) ∧
    (store.isInUse first log.segment.id.other = .ok false →
      (∀ parameter data, store.Indistinguishable (store.write parameter data) first second) ∧
      (∀ parameter, store.Indistinguishable (store.remove parameter) first second) ∧
      store.Indistinguishable store.compact first second) := by
  have holds := mounted.log_eq_ok_iff.mp found
  obtain ⟨otherHolds, entries⟩ := same.holds mounted otherMounted holds
  have shows : store.Shows second.cell (valueOf (entriesIn first.cell log.records)) :=
    ⟨log, otherHolds, by rw [entries]⟩
  have listed : store.live second = store.live first := by
    rw [otherMounted.live_eq otherHolds, mounted.live_eq holds]
  refine ⟨fun parameter capacity => ?_, fun parameter => ?_, ?_, listed, fun visit state => ?_,
    fun alone => ?_⟩
  · rw [otherMounted.read_of_shows shows, mounted.read_of_shows ⟨log, holds, rfl⟩]
  · rw [otherMounted.contains_eq otherHolds, mounted.contains_eq holds, entries]
  · rw [otherMounted.stats_eq otherHolds, mounted.stats_eq holds]
  · rw [otherMounted.forEachLive_eq_foldl, mounted.forEachLive_eq_foldl, listed]
  · have otherAlone := (same.inUse _).trans alone
    rw [mounted.isInUse_eq] at alone
    rw [otherMounted.isInUse_eq] at otherAlone
    simp only [Except.ok.injEq, decide_eq_false_iff_not] at alone otherAlone
    refine ⟨fun parameter data => ?_, fun parameter => ?_, ?_⟩
    · apply (write_yields mounted faultless holds alone).indistinguishable
      rw [← entries]
      exact write_yields otherMounted otherFaultless otherHolds otherAlone
    · apply (remove_yields mounted faultless holds).indistinguishable
      rw [← entries]
      exact remove_yields otherMounted otherFaultless otherHolds
    · apply (compact_yields mounted faultless holds alone).indistinguishable
      rw [← entries]
      exact compact_yields otherMounted otherFaultless otherHolds otherAlone

/-- The sample with litter behind the mark of its end, and with nothing in the other segment. -/
def litteredChip : Chip where
  base := 0x08000000
  pageSize := 16
  memory :=
    #[0xA5, 0x5A, 7, 0, 2, 0, 0x11, 0x22, 0, 0, 1, 0, 0x44, 0xFF, 0xFF, 0xFF,
      7, 0, 1, 0, 0x33, 0xFF, 0xFF, 0xFF, 0xFF, 0xFF, 9, 0, 2, 0, 0x55, 0x66] ++
    Array.replicate 32 erasedByte

theorem littered_mounted : sample.Mounted litteredChip :=
  ⟨rfl, by decide, rfl, by decide, by decide⟩

theorem littered_sameLog : sample.SameLog sampleLog sampleChip litteredChip where
  inUse id := by
    have same : ∀ id, sample.InUse litteredChip.cell id ↔ sample.InUse sampleChip.cell id := by
      intro id
      cases id <;> decide
    simp only [littered_mounted.isInUse_eq, sample_mounted.isInUse_eq, same]
  cells index _ below := by
    have same : ∀ index < 26, litteredChip.cell index = sampleChip.cell index := by decide
    exact same index below

/-- One chip takes the value behind its log, the other one has to be compacted first. -/
theorem remains_unseen_sample :
    sampleLog.Takes sampleChip.cell 1 ∧ ¬sampleLog.Takes litteredChip.cell 1 ∧
      sample.Indistinguishable (sample.write 9 [0x77]) sampleChip litteredChip := by
  have blank : ∀ index < 32, 24 ≤ index → sampleChip.cell index = erasedByte := by decide
  refine ⟨⟨by decide, fun index above below => blank index below above⟩, fun takes => ?_, ?_⟩
  · exact absurd (takes.blank 26 (by decide) (by decide)) (by decide)
  · exact ((remains_unseen sample_mounted rfl littered_mounted rfl sample_log
      littered_sameLog).2.2.2.2.2 rfl).1 9 [0x77]

end Store

end ParamStore
