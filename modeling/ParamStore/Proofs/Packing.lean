import ParamStore.Proofs.Plan
import ParamStore.Store.Compaction

/-! Packing records one behind the other. Where a packed log ends depends on the sizes alone, and
leaving records out never moves the end back; so the records that a segment holds, or some of them,
always fit into another segment of the same size. -/
namespace ParamStore

/-- Where records of these sizes end that are packed from `position` on. -/
def packedEnd (position : Nat) (sizes : List UInt16) : Nat := sizes.foldl nextOffset position

def sizesOf (records : List Record) : List UInt16 := records.map (·.size)

def Record.moveTo (record : Record) (position : Nat) : Record := { record with offset := position }

/-- The records after they were packed from `position` on. -/
def repack : Nat → List Record → List Record
  | _, [] => []
  | position, record :: rest =>
    record.moveTo position :: repack (nextOffset position record.size) rest

/-- The whole half-words of a record's payload. -/
def bodyIn (cells : Nat → UInt8) (record : Record) : Bytes :=
  bytesAt cells record.dataOffset ((record.size.toNat + 1) / 2 * 2)

/-- The cells with copies of the `source`'s records from `position` on. -/
def packed (source cells : Nat → UInt8) : Nat → List Record → (Nat → UInt8)
  | _, [] => cells
  | position, record :: rest =>
    packed source (inscribe cells (record.moveTo position) (bodyIn source record))
      (nextOffset position record.size) rest

section Ends

variable {position : Nat} {kept sizes : List UInt16}

theorem le_nextOffset (offset : Nat) (size : UInt16) : offset ≤ nextOffset offset size := by
  have := dataEnd_le_nextOffset offset size
  omega

theorem packedEnd_mono {first second : Nat} (ordered : first ≤ second) (sizes : List UInt16) :
    packedEnd first sizes ≤ packedEnd second sizes := by
  induction sizes generalizing first second with
  | nil => exact ordered
  | cons size rest ih => exact ih (nextOffset_mono ordered size)

theorem le_packedEnd (position : Nat) (sizes : List UInt16) : position ≤ packedEnd position sizes := by
  induction sizes generalizing position with
  | nil => exact Nat.le_refl _
  | cons size rest ih => exact Nat.le_trans (le_nextOffset position size) (ih _)

theorem packedEnd_shift {shift : Nat} (aligned : shift % 4 = 0) (position : Nat)
    (sizes : List UInt16) :
    packedEnd (shift + position) sizes = shift + packedEnd position sizes := by
  induction sizes generalizing position with
  | nil => rfl
  | cons size rest ih =>
    have step := ih (nextOffset position size)
    rw [← nextOffset_shift aligned] at step
    exact step

/-- Leaving records out never makes a packed log longer. -/
theorem packedEnd_sublist (sub : kept.Sublist sizes) (position : Nat) :
    packedEnd position kept ≤ packedEnd position sizes := by
  induction sub generalizing position with
  | slnil => exact Nat.le_refl _
  | cons size _ ih =>
    exact Nat.le_trans (ih position) (packedEnd_mono (le_nextOffset position size) _)
  | cons_cons size _ ih => exact ih (nextOffset position size)

end Ends

variable {source cells : Nat → UInt8} {stop position tail : Nat} {records : List Record}

theorem Linked.packedEnd_eq (linked : Linked cells stop position records tail) :
    packedEnd position (sizesOf records) = tail := by
  induction records generalizing position with
  | nil => exact linked
  | cons record rest ih =>
    obtain ⟨rfl, -, linked⟩ := linked
    exact ih linked

theorem survivors_sublist (records : List Record) : (survivors records).Sublist records := by
  induction records with
  | nil => exact .slnil
  | cons record later ih =>
    rw [survivors]
    split
    · exact ih.cons_cons record
    · exact ih.cons record

theorem length_bodyIn (cells : Nat → UInt8) (record : Record) :
    (bodyIn cells record).length = (record.size.toNat + 1) / 2 * 2 := length_bytesAt

theorem take_bodyIn (cells : Nat → UInt8) (record : Record) :
    (bodyIn cells record).take record.size.toNat = payloadIn cells record := by
  rw [bodyIn, take_bytesAt, Nat.min_eq_left (by omega), payloadIn]

theorem sameOutside_packed (source cells : Nat → UInt8) (even : position % 2 = 0)
    (records : List Record) :
    SameOutside cells (packed source cells position records) position
      (packedEnd position (sizesOf records)) := by
  induction records generalizing cells position with
  | nil => exact .rfl
  | cons record rest ih =>
    have aligned := nextOffset_mod position record.size
    have wide : position + headerSize + (bodyIn source record).length ≤
        nextOffset position record.size :=
      (record.moveTo position).padded_le_next even (length_bodyIn source record)
    have first := sameOutside_inscribe cells (record.moveTo position) (bodyIn source record)
    have others := ih (inscribe cells (record.moveTo position) (bodyIn source record))
      (show nextOffset position record.size % 2 = 0 by omega)
    have behind := le_packedEnd (nextOffset position record.size) (sizesOf rest)
    exact (first.mono (Nat.le_refl _) (Nat.le_trans wide behind)).trans
      (others.mono (le_nextOffset position record.size) (Nat.le_refl _))

/-- Packed records form a log, and it has the entries of the source. -/
theorem linked_packed (source cells : Nat → UInt8) (even : position % 2 = 0)
    (written : ∀ record ∈ records,
      record.parameter ≠ erasedHalfword ∧ record.size ≠ erasedHalfword)
    (room : packedEnd position (sizesOf records) ≤ stop) :
    Linked (packed source cells position records) stop position (repack position records)
        (packedEnd position (sizesOf records)) ∧
      entriesIn (packed source cells position records) (repack position records) =
        entriesIn source records := by
  induction records generalizing cells position with
  | nil => exact ⟨rfl, rfl⟩
  | cons record rest ih =>
    have aligned := nextOffset_mod position record.size
    have later : nextOffset position record.size % 2 = 0 := by omega
    obtain ⟨linked, listed⟩ := ih (inscribe cells (record.moveTo position) (bodyIn source record))
      later (fun other member => written other (by simp [member])) room
    have outside := sameOutside_packed source
      (inscribe cells (record.moveTo position) (bodyIn source record)) later rest
    have behind := le_packedEnd (nextOffset position record.size) (sizesOf rest)
    obtain ⟨named, sized⟩ := written record (by simp)
    have header : headerIn (packed source cells position (record :: rest)) position =
        record.toHeader := by
      have kept := headerIn_congr (outside.sameIn (.inl (record.moveTo position).offset_lt_next))
      exact kept.trans (headerIn_inscribe cells (record.moveTo position) (bodyIn source record))
    have payload : payloadIn (packed source cells position (record :: rest))
        (record.moveTo position) = payloadIn source record := by
      have kept := bytesAt_congr (outside.sameIn (.inl (record.moveTo position).dataEnd_le_next))
      have copied := payloadIn_inscribe cells (record.moveTo position) (bodyIn source record)
        (by rw [length_bodyIn]; simp only [Record.moveTo]; omega)
      exact (kept.trans copied).trans (take_bodyIn source record)
    refine ⟨⟨rfl, ⟨header, named, sized, ?_⟩, linked⟩, List.cons_eq_cons.mpr ⟨?_, listed⟩⟩
    · exact Nat.le_trans (record.moveTo position).dataEnd_le_next (Nat.le_trans behind room)
    · rw [entryIn, payload]
      rfl

theorem tryNextOffset_eq {ε : Type} {size : UInt16}
    (fits : position + headerSize + size.toNat + 4 < 0x100000000) :
    (tryNextOffset position size : Attempt ε Nat) = .ok (nextOffset position size) := by
  rw [tryNextOffset, Attempt.fit_of_lt fits]
  rfl

namespace Store

variable {store : Store} {chip : Chip}

/-- A copy takes no more room than its record. -/
theorem sameOutside_copy (cells : Nat → UInt8) (record : Record) (even : position % 2 = 0) :
    SameOutside cells (inscribe cells (record.moveTo position) (bodyIn cells record)) position
      (nextOffset position record.size) :=
  (sameOutside_inscribe _ _ _).mono (Nat.le_refl _)
    ((record.moveTo position).padded_le_next even (length_bodyIn cells record))

/-- Copying one record into erased cells. -/
theorem copyRecord_ensures {record : Record} (onChip : store.region.OnChip chip)
    (even : position % 2 = 0) (inside : stop ≤ store.region.length)
    (fits : stop + 65542 < 0x100000000) (room : nextOffset position record.size ≤ stop)
    (blank : Blank chip.cell position (nextOffset position record.size))
    (sourceEven : record.offset % 2 = 0) (sourceInside : record.next ≤ store.region.length)
    (apart : record.next ≤ position ∨ nextOffset position record.size ≤ record.offset) :
    (store.copyRecord stop record position).Ensures chip
      (fun _ after => chip.Keeps after ∧
        after.cell = inscribe chip.cell (record.moveTo position) (bodyIn chip.cell record))
      (chip.Interrupted fun cells =>
        SameOutside chip.cell cells position (nextOffset position record.size)) := by
  have wide : position + headerSize + (bodyIn chip.cell record).length ≤
      nextOffset position record.size :=
    (record.moveTo position).padded_le_next even (length_bodyIn chip.cell record)
  have sourceWide := record.padded_le_next sourceEven (length_bodyIn chip.cell record)
  have ending := dataEnd_le_nextOffset position record.size
  have length := length_bodyIn chip.cell record
  simp only [Record.dataOffset] at sourceWide
  have body : (Command.runAll store.region (Command.transfers record.dataOffset
      (position + headerSize) ((record.size.toNat + 1) / 2 * 2))).Ensures chip
      (fun _ after => chip.Keeps after ∧ after.cell =
        overlay chip.cell (record.moveTo position).dataOffset (bodyIn chip.cell record))
      (chip.Interrupted fun cells => SameOutside chip.cell cells
        (record.moveTo position).dataOffset
        ((record.moveTo position).dataOffset + (bodyIn chip.cell record).length)) := by
    rw [length]
    apply Command.transfers_ensures onChip
    · simp only [headerSize]; omega
    · omega
    · simp only [Record.dataOffset]; omega
    · omega
    · simp only [Record.dataOffset]; omega
    · exact blank.mono (by omega) (by omega)
  unfold copyRecord
  apply Action.ensures_observe_bind (Attempt.fit_of_lt (by omega))
  rw [if_neg (by omega)]
  apply (Command.inscribe_ensures onChip even
    (show position + headerSize ≤ store.region.length by omega)
    (blank.mono (Nat.le_refl _) (show position + headerSize ≤ _ by omega)) body).mono
  · intro _ after done
    exact done
  · intro cause after interrupted
    exact interrupted.mono fun cells same => same.1.mono (Nat.le_refl _) wide

/-- Packing copies records from outside of the erased range that they go to; interrupted, it has
written nothing outside of that range. -/
theorem pack_ensures (onChip : store.region.OnChip chip) (even : position % 2 = 0)
    (inside : stop ≤ store.region.length) (fits : stop + 65542 < 0x100000000)
    (room : packedEnd position (sizesOf records) ≤ stop) (blank : Blank chip.cell position stop)
    (sources : ∀ record ∈ records, record.offset % 2 = 0 ∧ record.next ≤ store.region.length ∧
      (record.next ≤ position ∨ stop ≤ record.offset))
    (same : ∀ record ∈ records, SameIn source chip.cell record.offset record.next) :
    (store.pack stop records position).Ensures chip
      (fun ending after => ending = packedEnd position (sizesOf records) ∧ chip.Keeps after ∧
        after.cell = packed source chip.cell position records)
      (chip.Interrupted fun cells => SameOutside chip.cell cells position stop) := by
  induction records generalizing chip position with
  | nil => exact Action.ensures_pure ⟨rfl, .refl chip, rfl⟩
  | cons record rest ih =>
    obtain ⟨sourceEven, sourceInside, apart⟩ := sources record (by simp)
    have first : nextOffset position record.size ≤ stop :=
      Nat.le_trans (le_packedEnd _ (sizesOf rest)) room
    have forward := le_nextOffset position record.size
    have ending := dataEnd_le_nextOffset position record.size
    have later : nextOffset position record.size % 2 = 0 := by
      have := nextOffset_mod position record.size
      omega
    have copied : bodyIn chip.cell record = bodyIn source record := by
      have wide := record.padded_le_next sourceEven rfl
      exact bytesAt_congr ((same record (by simp)).mono (by simp only [Record.dataOffset]; omega) wide)
    apply Action.Ensures.bind
    · apply (copyRecord_ensures onChip even inside fits first
        (blank.mono (Nat.le_refl _) first) sourceEven sourceInside (by omega)).weaken
      intro cause after interrupted
      exact interrupted.mono fun cells outside => outside.mono (Nat.le_refl _) first
    · intro _ middle done
      obtain ⟨keeps, cells⟩ := done
      have outside : SameOutside chip.cell middle.cell position
          (nextOffset position record.size) := cells ▸ sameOutside_copy chip.cell record even
      have others (other : Record) (member : other ∈ rest) :
          SameIn source middle.cell other.offset other.next := by
        obtain ⟨-, -, away⟩ := sources other (by simp [member])
        intro index above below
        exact (outside index (by omega)).trans (same other (by simp [member]) index above below)
      apply Action.ensures_observe_bind (tryNextOffset_eq (by omega))
      apply (ih (onChip.keeps keeps) later room
        ((blank.mono forward (Nat.le_refl _)).congr (outside.sameIn (.inr (Nat.le_refl _))))
        (fun other member => ?_) others).mono
      · intro ending after done
        obtain ⟨ends, kept, final⟩ := done
        exact ⟨ends, keeps.trans kept, by rw [final, cells, copied]; rfl⟩
      · intro cause after interrupted
        refine .since keeps (interrupted.mono fun final later => ?_)
        exact (outside.mono (Nat.le_refl _) first).trans (later.mono forward (Nat.le_refl _))
      · obtain ⟨otherEven, otherInside, away⟩ := sources other (by simp [member])
        exact ⟨otherEven, otherInside, by omega⟩

end Store

end ParamStore
