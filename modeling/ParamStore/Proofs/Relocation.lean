import ParamStore.Proofs.LiveRecords

/-! Compacting what is compact. Both segments start at a multiple of four, so packed records take the
same places in either, with the same padding. The log that a compaction leaves is packed and has only
live records, each the last of its parameter. Compacting it once more moves it as it stands, byte for
byte, and the third time it is back where the first has put it. -/
namespace ParamStore

section Shift

variable {source other cells new : Nat → UInt8} {first second index : Nat}

/-- What is laid over cells does not depend on where they are counted from. -/
theorem overlay_shift (offset : Nat) (bytes : Bytes)
    (same : new (first + index) = cells (second + index)) :
    overlay new (first + offset) bytes (first + index) =
      overlay cells (second + offset) bytes (second + index) := by
  simp only [overlay, Nat.add_le_add_iff_left, Nat.add_sub_add_left, same]

theorem inscribe_shift {record twin : Record} (header : record.toHeader = twin.toHeader)
    (position : Nat) (bytes : Bytes) (same : new (first + index) = cells (second + index)) :
    inscribe new (record.moveTo (first + position)) bytes (first + index) =
      inscribe cells (twin.moveTo (second + position)) bytes (second + index) := by
  have bodies := overlay_shift (position + headerSize) bytes same
  rw [← Nat.add_assoc, ← Nat.add_assoc] at bodies
  simp only [inscribe, Record.dataOffset, Record.moveTo, header]
  exact overlay_shift position twin.toHeader.toBytes bodies

/-- Records with the same headers and bodies, packed at two places, come out alike. -/
theorem packed_shift {records twins : List Record} (firstWord : first % 4 = 0)
    (secondWord : second % 4 = 0)
    (headers : records.map Record.toHeader = twins.map Record.toHeader)
    (bodies : records.map (bodyIn source) = twins.map (bodyIn other)) (position : Nat)
    (same : new (first + index) = cells (second + index)) :
    packed source new (first + position) records (first + index) =
      packed other cells (second + position) twins (second + index) := by
  induction records generalizing twins new cells position with
  | nil =>
    obtain rfl := List.map_eq_nil_iff.mp headers.symm
    exact same
  | cons record rest ih =>
    cases twins with
    | nil => cases headers
    | cons twin others =>
      obtain ⟨header, headers⟩ := List.cons.inj headers
      obtain ⟨body, bodies⟩ := List.cons.inj bodies
      have size : record.size = twin.size := congrArg Header.size header
      simp only [packed, nextOffset_shift firstWord, nextOffset_shift secondWord, size, body]
      exact ih headers bodies _ (inscribe_shift header position _ same)

/-- A packed record has the whole half-words of its original, the byte that pads it included. -/
theorem bodies_packed {position : Nat} (even : position % 2 = 0) (records : List Record) :
    (repack position records).map (bodyIn (packed source cells position records)) =
      records.map (bodyIn source) := by
  induction records generalizing cells position with
  | nil => rfl
  | cons record rest ih =>
    have aligned := nextOffset_mod position record.size
    have later : nextOffset position record.size % 2 = 0 := by omega
    have outside := sameOutside_packed source
      (inscribe cells (record.moveTo position) (bodyIn source record)) later rest
    have wide := (record.moveTo position).padded_le_next even rfl
    have written := bytesAt_inscribe cells (record.moveTo position) (bodyIn source record)
    rw [length_bodyIn] at written
    have body : bodyIn (packed source cells position (record :: rest)) (record.moveTo position) =
        bodyIn source record := (bytesAt_congr (outside.sameIn (.inl wide))).trans written
    exact List.cons_eq_cons.mpr ⟨body, ih later⟩

/-- A segment in use that holds copies of the `source`'s records and nothing else. -/
def imageOf (source : Nat → UInt8) (segment : Segment) (records : List Record) : Nat → UInt8 :=
  overlay (packed source (fun _ => erasedByte) segment.firstRecord records) segment.start
    (halfwordBytes inUseMagic)

theorem imageOf_shift {here there : Segment} {records twins : List Record}
    (hereWord : here.start % 4 = 0) (thereWord : there.start % 4 = 0)
    (headers : records.map Record.toHeader = twins.map Record.toHeader)
    (bodies : records.map (bodyIn source) = twins.map (bodyIn other)) (index : Nat) :
    imageOf source here records (here.start + index) =
      imageOf other there twins (there.start + index) :=
  overlay_shift 0 _ (packed_shift hereWord thereWord headers bodies magicSize rfl)

end Shift

namespace Store

variable {store : Store} {chip : Chip} {cells new : Nat → UInt8} {log : Log}

/-- The cells with the contents of the segments exchanged. -/
def exchanged (store : Store) (cells : Nat → UInt8) : Nat → UInt8 := fun index =>
  if index < store.layout.segmentSize then cells (index + store.layout.segmentSize)
  else if index < store.layout.totalSize then cells (index - store.layout.segmentSize)
  else cells index

theorem exchanged_segment (store : Store) (cells : Nat → UInt8) (id : SegmentId) {index : Nat}
    (inside : index < store.layout.segmentSize) :
    store.exchanged cells ((store.segment id).start + index) =
      cells ((store.segment id.other).start + index) := by
  cases id with
  | a => simp [exchanged, segment, Layout.segment, SegmentId.other, inside, Nat.add_comm]
  | b =>
    have behind : ¬store.layout.segmentSize + index < store.layout.segmentSize := by omega
    have within : store.layout.segmentSize + index < store.layout.totalSize := by
      simp only [Layout.totalSize]
      omega
    simp [exchanged, segment, Layout.segment, SegmentId.other, behind, within]

theorem exchanged_behind (store : Store) (cells : Nat → UInt8) {index : Nat}
    (behind : store.layout.totalSize ≤ index) : store.exchanged cells index = cells index := by
  have beyond : store.layout.segmentSize ≤ store.layout.totalSize := by
    simp only [Layout.totalSize]
    omega
  rw [exchanged, if_neg (by omega), if_neg (by omega)]

/-- Every cell is in a segment or behind both. -/
theorem cells_ext (store : Store)
    (segments : ∀ id index, index < store.layout.segmentSize →
      new ((store.segment id).start + index) = cells ((store.segment id).start + index))
    (behind : ∀ index, store.layout.totalSize ≤ index → new index = cells index) : new = cells := by
  funext index
  by_cases first : index < store.layout.segmentSize
  · simpa [segment, Layout.segment] using segments .a index first
  by_cases second : store.layout.totalSize ≤ index
  · exact behind index second
  · simp only [Layout.totalSize] at second
    have found := segments .b (index - store.layout.segmentSize) (by omega)
    simp only [segment, Layout.segment] at found
    rwa [Nat.add_sub_cancel' (by omega)] at found

/-- Exchanged twice, everything is back. -/
theorem exchanged_exchanged (store : Store) (cells : Nat → UInt8) :
    store.exchanged (store.exchanged cells) = cells := by
  apply store.cells_ext
  · intro id index inside
    rw [store.exchanged_segment _ id inside, store.exchanged_segment _ id.other inside,
      SegmentId.other_other]
  · intro index behind
    rw [store.exchanged_behind _ behind, store.exchanged_behind _ behind]

/-- A log as compaction leaves it: live records packed from the start of a segment, of which the
rest is erased, as is the other segment. -/
structure Tidy (store : Store) (cells : Nat → UInt8) (log : Log) : Prop where
  holds : store.Holds cells log
  kept : survivors log.records = log.records
  image : SameIn (imageOf cells log.segment log.records) cells log.segment.start log.segment.stop
  spare : Blank cells (store.spare log).start (store.spare log).stop

theorem Holds.compacted_image (holds : store.Holds cells log) (mounted : store.Mounted chip) :
    SameIn (imageOf cells (store.spare log) (survivors log.records)) (store.compacted cells log)
      (store.spare log).start (store.spare log).stop := by
  have aligned := (mounted.placed log.segment.id.other).startWord
  intro position above below
  rw [holds.sameIn_compacted position above below]
  obtain ⟨index, rfl⟩ := Nat.exists_eq_add_of_le above
  apply overlay_shift 0
  apply packed_shift aligned aligned rfl rfl magicSize
  exact blank_wipe cells _ _ _ above below

/-- What is in a record's half-words does not change when the copy is marked and the original
erased. -/
theorem Holds.bodies_compacted (holds : store.Holds cells log) (mounted : store.Mounted chip) :
    (store.relocated log).records.map (bodyIn (store.compacted cells log)) =
      (survivors log.records).map (bodyIn cells) := by
  have even := mounted.firstRecord_even log.segment.id.other
  have laid := holds.laid_relocated mounted
  obtain ⟨-, above, room⟩ := holds.relocated_used mounted
  have same : SameIn (store.copied cells log) (store.compacted cells log)
      (store.spare log).firstRecord (store.spare log).stop := fun index low high =>
    (holds.sameIn_compacted index (Nat.le_trans (Nat.le_add_right _ magicSize) low) high).trans
      ((store.sameOutside_marked cells log).sameIn (.inr (Nat.le_refl _)) index low high)
  have packedBodies : (store.relocated log).records.map (bodyIn (store.copied cells log)) =
      (survivors log.records).map (bodyIn cells) := bodies_packed even (survivors log.records)
  rw [← packedBodies]
  apply List.map_congr_left
  intro record member
  have bounds := laid.linked.bounds member
  have wide := record.padded_le_next ((laid.linked.even even).2 record member) rfl
  refine bytesAt_congr (same.mono ?_ (Nat.le_trans wide (Nat.le_trans bounds.2 room)))
  exact Nat.le_trans bounds.1 (Nat.le_add_right _ headerSize)

theorem Holds.tidy_compacted (holds : store.Holds cells log) (mounted : store.Mounted chip) :
    store.Tidy (store.compacted cells log) (store.relocated log) := by
  have aligned := (mounted.placed log.segment.id.other).startWord
  obtain ⟨ready, blank, -⟩ := holds.ready_compacted mounted
  refine ⟨ready.holds, holds.survivors_relocated, ?_, ?_⟩
  · intro position above below
    rw [holds.compacted_image mounted position above below]
    obtain ⟨index, rfl⟩ := Nat.exists_eq_add_of_le above
    exact (imageOf_shift aligned aligned (headers_repack _ _)
      (holds.bodies_compacted mounted) index).symm
  · rwa [Store.spare, relocated, Store.spare, segment_id, SegmentId.other_other, ← holds.segment]

theorem Holds.compacted_behind (holds : store.Holds cells log) (mounted : store.Mounted chip)
    {index : Nat} (behind : store.layout.totalSize ≤ index) :
    store.compacted cells log index = cells index := by
  have stop (id : SegmentId) : (store.segment id).stop ≤ index := by
    cases id <;> simp only [Store.segment, Layout.segment, Layout.totalSize] at behind ⊢ <;> omega
  have room := (mounted.placed log.segment.id.other).firstRecord_le
  have own : log.segment.stop ≤ index := holds.segment ▸ stop log.segment.id
  rw [compacted, sameOutside_wipe _ _ _ index (.inr own),
    store.sameOutside_marked cells log index (.inr (Nat.le_trans room (stop _))),
    holds.sameOutside_spare mounted index (.inr (stop _))]

/-- Compacting a tidy log exchanges the segments. -/
theorem Tidy.compacted_eq (tidy : store.Tidy cells log) (mounted : store.Mounted chip) :
    store.compacted cells log = store.exchanged cells := by
  have holds := tidy.holds
  have aligned := (holds.placed mounted).startWord
  have spareAligned := (mounted.placed log.segment.id.other).startWord
  have size := store.segment_stop log.segment.id
  have spareSize := store.segment_stop log.segment.id.other
  rw [← holds.segment] at size
  apply store.cells_ext
  · intro id index inside
    rw [store.exchanged_segment cells id inside]
    by_cases own : id = log.segment.id
    -- The segment that is left is erased, as the other one has been.
    · subst own
      have erased := (holds.ready_compacted mounted).2.1
      rw [← holds.segment, erased _ (Nat.le_add_right _ _) (by omega)]
      exact (tidy.spare _ (Nat.le_add_right _ _) (by simp only [Store.spare]; omega)).symm
    -- The records are packed in both, at the same distance from the start.
    · have other : id = log.segment.id.other := by
        cases id <;> cases side : log.segment.id <;> simp_all [SegmentId.other]
      subst other
      have moved := holds.compacted_image mounted ((store.spare log).start + index)
        (Nat.le_add_right _ _) (by simp only [Store.spare]; omega)
      have stood := tidy.image (log.segment.start + index) (Nat.le_add_right _ _) (by omega)
      rw [tidy.kept] at moved
      rw [SegmentId.other_other, ← holds.segment, stood]
      exact moved.trans (imageOf_shift spareAligned aligned rfl rfl index)
  · intro index behind
    rw [holds.compacted_behind mounted behind, store.exchanged_behind cells behind]

theorem Holds.compact_faultless (holds : store.Holds chip.cell log) (mounted : store.Mounted chip)
    (faultless : chip.Faultless) (unmarked : ¬store.InUse chip.cell log.segment.id.other) :
    store.compact.outcome chip = .ok ⟨log.segment.id, log.segment.id.other,
        (survivors log.records).length, log.used - (store.relocated log).used⟩ ∧
      chip.Keeps (store.compact.after chip) ∧
      (store.compact.after chip).cell = store.compacted chip.cell log := by
  rcases (store.compact_ensures mounted holds faultless.steady).outcome_cases with
    ⟨migration, outcome, -, keeps, cells, rfl⟩ | ⟨cause, -, ⟨-, inUse, -⟩ | interrupted⟩
  · exact ⟨outcome, keeps, cells⟩
  · exact absurd inUse unmarked
  · exact absurd faultless interrupted.faulty

/-- The chip after `count` compactions in a row. -/
def compactedTimes (store : Store) (chip : Chip) : Nat → Chip
  | 0 => chip
  | count + 1 => store.compact.after (store.compactedTimes chip count)

/-- Packed records take the same room in either segment. -/
theorem Tidy.used_eq (tidy : store.Tidy cells log) (mounted : store.Mounted chip) :
    (store.relocated log).used = log.used := by
  have tail := tidy.holds.linked.packedEnd_eq
  have aligned := (tidy.holds.placed mounted).startWord
  have spareAligned := (mounted.placed log.segment.id.other).startWord
  simp only [Segment.firstRecord] at tail
  rw [packedEnd_shift aligned] at tail
  simp only [relocated, Log.used, tidy.kept, Store.spare, Segment.firstRecord]
  rw [packedEnd_shift spareAligned]
  omega

/-- A store that was compacted and has not changed since: it works without faults, and its log is
tidy and of `count` records. -/
structure Compacted (store : Store) (chip : Chip) (count : Nat) : Prop where
  mounted : store.Mounted chip
  faultless : chip.Faultless
  tidy : ∃ log, store.Tidy chip.cell log ∧ log.records.length = count

theorem length_relocated (store : Store) (log : Log) :
    (store.relocated log).records.length = (survivors log.records).length := by
  simpa [relocated] using congrArg List.length
    (headers_repack (store.spare log).firstRecord (survivors log.records))

theorem Holds.compacted_once (holds : store.Holds chip.cell log) (mounted : store.Mounted chip)
    (faultless : chip.Faultless) (unmarked : ¬store.InUse chip.cell log.segment.id.other) :
    store.Compacted (store.compact.after chip) (survivors log.records).length := by
  obtain ⟨-, keeps, cells⟩ := holds.compact_faultless mounted faultless unmarked
  exact ⟨mounted.keeps keeps, keeps.faultless faultless, store.relocated log,
    cells ▸ holds.tidy_compacted mounted, store.length_relocated log⟩

/-- One more compaction exchanges the segments and wins nothing. -/
theorem Compacted.compact {count : Nat} (compacted : store.Compacted chip count) :
    (∃ migration, store.compact.outcome chip = .ok migration ∧ migration.copied = count ∧
      migration.reclaimed = 0) ∧
    (store.compact.after chip).size = chip.size ∧
    (store.compact.after chip).cell = store.exchanged chip.cell ∧
    store.Compacted (store.compact.after chip) count := by
  obtain ⟨mounted, faultless, log, tidy, rfl⟩ := compacted
  have room := (mounted.placed log.segment.id.other).firstRecord_le
  have unmarked := not_inUse_of_blank tidy.spare room
  obtain ⟨outcome, keeps, cells⟩ := tidy.holds.compact_faultless mounted faultless unmarked
  have again := tidy.holds.compacted_once mounted faultless unmarked
  rw [tidy.kept] at outcome again
  refine ⟨⟨_, outcome, rfl, ?_⟩, keeps.size, cells.trans (tidy.compacted_eq mounted), again⟩
  simp only [tidy.used_eq mounted, Nat.sub_self]

/-- On a chip without faults, any log can be compacted again and again once the other segment is not
in use. The first time moves its live records. From then on, each compaction reclaims nothing, copies
as many records as the first, and exchanges the contents of the segments byte for byte; so every
second one restores the memory. -/
theorem compacting_again_exchanges (mounted : store.Mounted chip) (faultless : chip.Faultless)
    (found : store.log chip = .ok log)
    (spare : store.isInUse chip log.segment.id.other = .ok false) :
    ∃ first moved, store.compact.outcome chip = .ok first ∧
      store.LiveMoved chip (store.compact.after chip) log moved ∧
      first.copied = log.lasts.length ∧ ∀ count,
      (∃ later, store.compact.outcome (store.compactedTimes chip (count + 1)) = .ok later ∧
        later.reclaimed = 0 ∧ later.copied = first.copied) ∧
      (store.compactedTimes chip (count + 2)).size =
        (store.compactedTimes chip (count + 1)).size ∧
      (store.compactedTimes chip (count + 2)).cell =
        store.exchanged (store.compactedTimes chip (count + 1)).cell ∧
      (store.compactedTimes chip (count + 3)).memory =
        (store.compactedTimes chip (count + 1)).memory := by
  have holds := mounted.log_eq_ok_iff.mp found
  have unmarked : ¬store.InUse chip.cell log.segment.id.other := by
    rw [mounted.isInUse_eq] at spare
    simpa using spare
  obtain ⟨outcome, keeps, moved⟩ := holds.compact_faultless mounted faultless unmarked
  have compacted (count : Nat) : store.Compacted (store.compactedTimes chip (count + 1))
      (survivors log.records).length := by
    induction count with
    | zero => exact holds.compacted_once mounted faultless unmarked
    | succ count ih => exact ih.compact.2.2.2
  refine ⟨_, store.relocated log, outcome, holds.liveMoved mounted keeps moved,
    congrArg List.length holds.survivors_eq, fun count => ?_⟩
  obtain ⟨⟨later, done, copied, reclaimed⟩, size, cells, -⟩ := (compacted count).compact
  obtain ⟨-, sizeBack, cellsBack, -⟩ := (compacted (count + 1)).compact
  refine ⟨⟨later, done, reclaimed, copied⟩, size, cells, ?_⟩
  apply Chip.memory_eq_of_cell (sizeBack.trans size)
  calc (store.compactedTimes chip (count + 3)).cell
    _ = store.exchanged (store.compactedTimes chip (count + 2)).cell := cellsBack
    _ = store.exchanged (store.exchanged (store.compactedTimes chip (count + 1)).cell) :=
      congrArg store.exchanged cells
    _ = (store.compactedTimes chip (count + 1)).cell := store.exchanged_exchanged _

theorem compacting_again_exchanges_sample :
    sample.Mounted sampleChip ∧ sampleChip.Faultless ∧ sample.log sampleChip = .ok sampleLog ∧
      sample.isInUse sampleChip .b = .ok false ∧
      (∃ first moved, sample.compact.outcome sampleChip = .ok first ∧ first.copied = 1 ∧
        sample.LiveMoved sampleChip (sample.compact.after sampleChip) sampleLog moved ∧
        ∃ later, sample.compact.outcome (sample.compactedTimes sampleChip 1) = .ok later ∧
          later.reclaimed = 0 ∧ later.copied = first.copied) ∧
      (sample.compactedTimes sampleChip 2).cell =
        sample.exchanged (sample.compactedTimes sampleChip 1).cell ∧
      (sample.compactedTimes sampleChip 3).memory = (sample.compactedTimes sampleChip 1).memory := by
  obtain ⟨first, moved, outcome, live, copied, again⟩ :=
    compacting_again_exchanges sample_mounted rfl sample_log rfl
  obtain ⟨later, -, cells, back⟩ := again 0
  exact ⟨sample_mounted, rfl, sample_log, rfl, ⟨first, moved, outcome, copied, live, later⟩, cells,
    back⟩

end Store

end ParamStore
