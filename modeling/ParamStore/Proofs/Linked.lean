import ParamStore.Proofs.Flash
import ParamStore.Log.Basic

/-! Logs as they stand in the cells. `Spaced` says that records leave each other their places, `Linked`
that they stand so in the cells from a position to the tail, `EndsAt` that nothing goes on there; a walk
that does not fail finds exactly such a list. All depends on headers only, so it survives every change
that leaves those alone. -/
namespace ParamStore

section Offsets

variable {offset stop : Nat} {size : UInt16}

theorem dataEnd_le_nextOffset (offset : Nat) (size : UInt16) :
    offset + headerSize + size.toNat ≤ nextOffset offset size := by
  simp only [nextOffset]; omega

theorem nextOffset_mod (offset : Nat) (size : UInt16) : nextOffset offset size % 4 = 0 := by
  simp only [nextOffset]; omega

theorem nextOffset_mono {first second : Nat} (ordered : first ≤ second) (size : UInt16) :
    nextOffset first size ≤ nextOffset second size := by
  simp only [nextOffset]; omega

/-- The padding depends on the position within four bytes only. -/
theorem nextOffset_shift {shift : Nat} (aligned : shift % 4 = 0) (offset : Nat) (size : UInt16) :
    nextOffset (shift + offset) size = shift + nextOffset offset size := by
  simp only [nextOffset]; omega

/-- The padding of a record stays in a segment that takes the record. -/
theorem nextOffset_le_iff (aligned : stop % 4 = 0) :
    nextOffset offset size ≤ stop ↔ offset + headerSize + size.toNat ≤ stop := by
  simp only [nextOffset]; omega

theorem Record.offset_lt_next (record : Record) : record.offset + headerSize ≤ record.next := by
  have := dataEnd_le_nextOffset record.offset record.size
  simp only [Record.next]; omega

theorem Record.dataEnd_le_next (record : Record) : record.dataEnd ≤ record.next :=
  dataEnd_le_nextOffset record.offset record.size

end Offsets

variable {cells new : Nat → UInt8} {stop position tail : Nat} {records : List Record}

/-- The header speaks of a record, and the record ends before `stop`. -/
structure Record.Sound (record : Record) (stop : Nat) : Prop where
  written : record.parameter ≠ erasedHalfword
  sized : record.size ≠ erasedHalfword
  inside : record.dataEnd ≤ stop

/-- The records lie one behind the other from `position` on, all before `stop`. -/
def Spaced (stop : Nat) : Nat → List Record → Prop
  | _, [] => True
  | position, record :: rest =>
    record.offset = position ∧ record.Sound stop ∧ Spaced stop record.next rest

theorem Spaced.bounds (spaced : Spaced stop position records) {record : Record}
    (member : record ∈ records) : position ≤ record.offset ∧ record.Sound stop := by
  induction records generalizing position with
  | nil => simp at member
  | cons head rest ih =>
    obtain ⟨rfl, sound, spaced⟩ := spaced
    rcases List.mem_cons.mp member with rfl | member
    · exact ⟨Nat.le_refl _, sound⟩
    · have := head.offset_lt_next
      obtain ⟨above, sound⟩ := ih spaced member
      exact ⟨by omega, sound⟩

theorem Spaced.apart (spaced : Spaced stop position records) :
    records.Pairwise fun first second => first.next ≤ second.offset := by
  induction records generalizing position with
  | nil => exact .nil
  | cons head rest ih =>
    obtain ⟨-, -, spaced⟩ := spaced
    exact .cons (fun record member => (spaced.bounds member).1) (ih spaced)

/-- The cells spell the record, and it lies before `stop`. -/
structure Stands (cells : Nat → UInt8) (stop : Nat) (record : Record) : Prop where
  header : headerIn cells record.offset = record.toHeader
  written : record.parameter ≠ erasedHalfword
  sized : record.size ≠ erasedHalfword
  inside : record.dataEnd ≤ stop

/-- The records stand one behind the other from `position` to `tail`. -/
def Linked (cells : Nat → UInt8) (stop : Nat) : Nat → List Record → Nat → Prop
  | position, [], tail => position = tail
  | position, record :: rest, tail =>
    record.offset = position ∧ Stands cells stop record ∧ Linked cells stop record.next rest tail

/-- No record starts here: there is no room for a header, or none is written. -/
def EndsAt (cells : Nat → UInt8) (stop position : Nat) : Prop :=
  stop < position + headerSize ∨ halfwordIn cells position = erasedHalfword

def payloadIn (cells : Nat → UInt8) (record : Record) : Bytes :=
  bytesAt cells record.dataOffset record.size.toNat

theorem Linked.append {first second : List Record} :
    Linked cells stop position (first ++ second) tail ↔
      ∃ middle, Linked cells stop position first middle ∧
        Linked cells stop middle second tail := by
  induction first generalizing position with
  | nil => simp [Linked]
  | cons record rest ih => simp [Linked, ih, and_assoc]

theorem linked_singleton {record : Record} :
    Linked cells stop position [record] tail ↔
      record.offset = position ∧ Stands cells stop record ∧ record.next = tail := Iff.rfl

theorem Linked.le (linked : Linked cells stop position records tail) : position ≤ tail := by
  induction records generalizing position with
  | nil => exact Nat.le_of_eq linked
  | cons record rest ih =>
    obtain ⟨rfl, -, rest⟩ := linked
    have := record.offset_lt_next
    have := ih rest
    omega

theorem Linked.bounds (linked : Linked cells stop position records tail) {record : Record}
    (member : record ∈ records) : position ≤ record.offset ∧ record.next ≤ tail := by
  induction records generalizing position with
  | nil => simp at member
  | cons head rest ih =>
    obtain ⟨rfl, -, linked⟩ := linked
    rcases List.mem_cons.mp member with rfl | member
    · exact ⟨Nat.le_refl _, linked.le⟩
    · have := head.offset_lt_next
      have := ih linked member
      omega

theorem Linked.stands (linked : Linked cells stop position records tail) {record : Record}
    (member : record ∈ records) : Stands cells stop record := by
  induction records generalizing position with
  | nil => simp at member
  | cons head rest ih =>
    obtain ⟨-, stands, linked⟩ := linked
    rcases List.mem_cons.mp member with rfl | member
    · exact stands
    · exact ih linked member

theorem Linked.spaced (linked : Linked cells stop position records tail) :
    Spaced stop position records := by
  induction records generalizing position with
  | nil => trivial
  | cons head rest ih =>
    obtain ⟨start, stands, linked⟩ := linked
    exact ⟨start, ⟨stands.written, stands.sized, stands.inside⟩, ih linked⟩

theorem Linked.apart (linked : Linked cells stop position records tail) :
    records.Pairwise fun first second => first.next ≤ second.offset := linked.spaced.apart

theorem Linked.nodup (linked : Linked cells stop position records tail) : records.Nodup := by
  apply linked.apart.imp
  rintro first second ordered rfl
  have := first.offset_lt_next
  simp only [headerSize] at this
  omega

/-- Two records of a log are the same or do not overlap. -/
theorem Linked.eq_or_apart (linked : Linked cells stop position records tail)
    {first second : Record} (left : first ∈ records) (right : second ∈ records) :
    first = second ∨ first.next ≤ second.offset ∨ second.next ≤ first.offset := by
  induction records generalizing position with
  | nil => simp at left
  | cons head rest ih =>
    obtain ⟨-, -, linked⟩ := linked
    rcases List.mem_cons.mp left with rfl | before <;>
      rcases List.mem_cons.mp right with rfl | behind
    · exact .inl rfl
    · exact .inr (.inl (linked.bounds behind).1)
    · exact .inr (.inr (linked.bounds before).1)
    · exact ih linked before behind

theorem Linked.tail_le (linked : Linked cells stop position records tail)
    (aligned : stop % 4 = 0) (inside : position ≤ stop) : tail ≤ stop := by
  induction records generalizing position with
  | nil => exact linked ▸ inside
  | cons record rest ih =>
    obtain ⟨rfl, stands, linked⟩ := linked
    exact ih linked ((nextOffset_le_iff aligned).mpr stands.inside)

theorem Linked.even (linked : Linked cells stop position records tail)
    (even : position % 2 = 0) : tail % 2 = 0 ∧ ∀ record ∈ records, record.offset % 2 = 0 := by
  induction records generalizing position with
  | nil => exact ⟨linked ▸ even, by simp⟩
  | cons head rest ih =>
    obtain ⟨rfl, -, linked⟩ := linked
    have aligned := nextOffset_mod head.offset head.size
    obtain ⟨last, others⟩ := ih linked (by simp only [Record.next]; omega)
    refine ⟨last, fun record member => ?_⟩
    rcases List.mem_cons.mp member with rfl | member
    · exact even
    · exact others record member

/-- Nothing of a log reaches beyond its tail. -/
theorem Linked.before_tail (linked : Linked cells stop position records tail) :
    Linked cells tail position records tail := by
  induction records generalizing position with
  | nil => exact linked
  | cons record rest ih =>
    obtain ⟨start, stands, linked⟩ := linked
    exact ⟨start, { stands with inside := Nat.le_trans record.dataEnd_le_next linked.le },
      ih linked⟩

/-- A log after a change that keeps where the records are and how long. -/
theorem Linked.map {change : Record → Record} (linked : Linked cells stop position records tail)
    (placed : ∀ record ∈ records,
      (change record).offset = record.offset ∧ (change record).size = record.size)
    (written : ∀ record ∈ records, (change record).parameter ≠ erasedHalfword)
    (headers : ∀ record ∈ records, headerIn new record.offset = (change record).toHeader) :
    Linked new stop position (records.map change) tail := by
  induction records generalizing position with
  | nil => exact linked
  | cons record rest ih =>
    obtain ⟨start, stands, linked⟩ := linked
    obtain ⟨offset, size⟩ := placed record (by simp)
    refine ⟨offset.trans start, ⟨?_, written record (by simp), ?_, ?_⟩, ?_⟩
    · rw [offset]
      exact headers record (by simp)
    · rw [size]
      exact stands.sized
    · simp only [Record.dataEnd, Record.dataOffset, offset, size]
      exact stands.inside
    · simp only [Record.next, offset, size]
      exact ih linked (fun other member => placed other (by simp [member]))
        (fun other member => written other (by simp [member]))
        (fun other member => headers other (by simp [member]))

theorem Linked.congr (linked : Linked cells stop position records tail)
    (same : SameIn cells new position tail) : Linked new stop position records tail := by
  have headers (record : Record) (member : record ∈ records) :
      headerIn new record.offset = (id record).toHeader := by
    have bounds := linked.bounds member
    have := record.offset_lt_next
    rw [headerIn_congr (same.mono bounds.1 (by omega)), (linked.stands member).header, id]
  have mapped := linked.map (fun _ _ => ⟨rfl, rfl⟩)
    (fun record member => (linked.stands member).written) headers
  simpa using mapped

theorem EndsAt.congr {offset : Nat} (ends : EndsAt cells stop offset)
    (same : SameIn cells new offset (offset + 2)) : EndsAt new stop offset := by
  refine ends.imp id fun erased => ?_
  rw [halfwordIn_congr (same _ (Nat.le_refl _) (by omega)) (same _ (by omega) (by omega)), erased]

/-- Whether a log ends depends on nothing behind its segment. -/
theorem EndsAt.congr_within {offset : Nat} (ends : EndsAt cells stop offset)
    (same : SameIn cells new offset (min (offset + 2) stop)) : EndsAt new stop offset := by
  by_cases room : offset + 2 ≤ stop
  · rw [Nat.min_eq_left room] at same
    exact ends.congr same
  · exact .inl (by simp only [headerSize]; omega)

theorem Linked.payload_congr (linked : Linked cells stop position records tail)
    (same : SameIn cells new position tail) {record : Record} (member : record ∈ records) :
    payloadIn new record = payloadIn cells record := by
  have bounds := linked.bounds member
  have := record.dataEnd_le_next
  simp only [Record.dataEnd, Record.dataOffset] at this
  exact bytesAt_congr (same.mono (by simp only [Record.dataOffset]; omega)
    (by simp only [Record.dataOffset]; omega))

theorem Attempt.fit_of_lt {ε : Type} {value : Nat} (small : value < 0x100000000) :
    (Attempt.fit value : Attempt ε Nat) = .ok value := if_pos small

section Walk

variable {region : Region} {chip : Chip}

theorem recordAt_of_short (fits : stop + 65542 < 0x100000000) (bound : position ≤ stop)
    (short : stop < position + headerSize) : recordAt region chip position stop = .ok none := by
  unfold recordAt
  rw [Attempt.fit_of_lt (by simp only [headerSize]; omega)]
  simp only [bind, Except.bind, if_pos short]
  rfl

/-- What the bytes of a header tell, wherever they come from. -/
theorem recordAt_of_read {bytes : Bytes} (fits : stop + 65542 < 0x100000000)
    (room : position + headerSize ≤ stop)
    (read : region.read chip position headerSize = .ok bytes) :
    recordAt region chip position stop =
      if (Header.ofBytes bytes).parameter = erasedHalfword then .ok none
      else if (Header.ofBytes bytes).size = erasedHalfword then .fail .corrupt
      else if stop < position + headerSize + (Header.ofBytes bytes).size.toNat then .fail .corrupt
      else .ok (some ⟨Header.ofBytes bytes, position⟩) := by
  have := (Header.ofBytes bytes).size.toNat_lt
  simp only [headerSize] at room
  unfold recordAt
  rw [Attempt.fit_of_lt (by simp only [headerSize]; omega), read]
  simp only [bind, Except.bind]
  rw [if_neg (by simp only [headerSize]; omega)]
  simp only [Attempt.mapError, Record.dataEnd, Record.dataOffset, tryNextOffset, headerSize,
    Header.isErased, beq_iff_eq]
  rw [Attempt.fit_of_lt (by omega), Attempt.fit_of_lt (by omega)]
  rfl

/-- Any bytes make up a record, end the log, or are found to be corrupt. -/
theorem recordAt_cases (noWrap : region.base + region.length < 0x100000000)
    (inside : stop ≤ region.length) (fits : stop + 65542 < 0x100000000) (bound : position ≤ stop)
    (chip : Chip) :
    (∃ record, recordAt region chip position stop = .ok (some record) ∧
      record.offset = position ∧ record.Sound stop) ∨
    recordAt region chip position stop = .ok none ∨
    recordAt region chip position stop = .fail .corrupt := by
  by_cases short : stop < position + headerSize
  · exact .inr (.inl (recordAt_of_short fits bound short))
  · have room := Nat.le_of_not_lt short
    rw [recordAt_of_read fits room (Region.read_eq noWrap (by omega))]
    split
    next => exact .inr (.inl rfl)
    next written =>
      split
      next => exact .inr (.inr rfl)
      next sized =>
        split
        next => exact .inr (.inr rfl)
        next small => exact .inl ⟨_, rfl, rfl, written, sized, Nat.le_of_not_lt small⟩

/-- What is at a position of a segment that registers can address. -/
theorem recordAt_eq (onChip : region.OnChip chip) (inside : stop ≤ region.length)
    (fits : stop + 65542 < 0x100000000) (bound : position ≤ stop) :
    recordAt region chip position stop =
      if stop < position + headerSize then .ok none
      else if halfwordIn chip.cell position = erasedHalfword then .ok none
      else if halfwordIn chip.cell (position + 2) = erasedHalfword then .fail .corrupt
      else if stop < position + headerSize + (halfwordIn chip.cell (position + 2)).toNat then
        .fail .corrupt
      else .ok (some ⟨headerIn chip.cell position, position⟩) := by
  by_cases short : stop < position + headerSize
  · rw [if_pos short, recordAt_of_short fits bound short]
  · rw [if_neg short, recordAt_of_read fits (Nat.le_of_not_lt short) (onChip.read_eq (by omega)),
      header_ofBytes_bytesAt]
    rfl

theorem recordAt_eq_some_iff (onChip : region.OnChip chip) (inside : stop ≤ region.length)
    (fits : stop + 65542 < 0x100000000) (bound : position ≤ stop) {record : Record} :
    recordAt region chip position stop = .ok (some record) ↔
      record.offset = position ∧ Stands chip.cell stop record := by
  rw [recordAt_eq onChip inside fits bound]
  constructor
  · intro found
    split at found
    · simp at found
    split at found
    · simp at found
    next written =>
      split at found
      · simp [Attempt.fail] at found
      next sized =>
        split at found
        · simp [Attempt.fail] at found
        next small =>
          simp only [Except.ok.injEq, Option.some.injEq] at found
          subst found
          exact ⟨rfl, rfl, written, sized, Nat.le_of_not_lt small⟩
  · intro done
    obtain ⟨rfl, stands⟩ := done
    have parameter : halfwordIn chip.cell record.offset = record.parameter :=
      congrArg Header.parameter stands.header
    have size : halfwordIn chip.cell (record.offset + 2) = record.size :=
      congrArg Header.size stands.header
    have small := stands.inside
    simp only [Record.dataEnd, Record.dataOffset] at small
    rw [parameter, size, if_neg (by omega), if_neg stands.written, if_neg stands.sized,
      if_neg (by omega), stands.header]

theorem recordAt_eq_none_iff (onChip : region.OnChip chip) (inside : stop ≤ region.length)
    (fits : stop + 65542 < 0x100000000) (bound : position ≤ stop) :
    recordAt region chip position stop = .ok none ↔ EndsAt chip.cell stop position := by
  rw [recordAt_eq onChip inside fits bound, EndsAt]
  split
  next short => simp [short]
  next room =>
    split
    next erased => simp [erased]
    next written =>
      simp only [room, written, or_self, iff_false]
      split
      · simp [Attempt.fail]
      split <;> simp [Attempt.fail]

/-- The flash is asked for one header, and only where there is room for it. -/
theorem recordAt_congr {other : Region} {memory : Chip}
    (same : position + headerSize ≤ stop →
      other.read memory position headerSize = region.read chip position headerSize) :
    recordAt other memory position stop = recordAt region chip position stop := by
  unfold recordAt
  by_cases room : position + headerSize ≤ stop
  · rw [same room]
  · unfold Attempt.fit
    by_cases fits : position + headerSize < 0x100000000
    · simp only [if_pos fits, bind, Except.bind, if_pos (Nat.lt_of_not_le room)]
    · simp only [if_neg fits, bind, Except.bind]

/-- A walk that finds no end has come upon a header that does not describe a record. -/
theorem recordAt_failure (onChip : region.OnChip chip) (inside : stop ≤ region.length)
    (fits : stop + 65542 < 0x100000000) (bound : position ≤ stop) {failure : Failure StoreError}
    (found : recordAt region chip position stop = .error failure) :
    failure = .error .corrupt := by
  rcases recordAt_cases onChip.noWrap inside fits bound chip with ⟨_, going, -⟩ | ended | broken
  · rw [going] at found
    cases found
  · rw [ended] at found
    cases found
  · rw [broken] at found
    exact (Except.error.inj found).symm

/-- Read as headers, the bytes from `start` to `stop` are the same in both. -/
def SameHeaders (region other : Region) (chip memory : Chip) (start stop : Nat) : Prop :=
  ∀ offset, start ≤ offset → offset + headerSize ≤ stop →
    other.read memory offset headerSize = region.read chip offset headerSize

theorem Region.OnChip.sameHeaders {other : Chip} (onChip : region.OnChip chip)
    (onOther : region.OnChip other) (inside : stop ≤ region.length)
    (same : SameIn chip.cell other.cell position stop) :
    SameHeaders region region chip other position stop := by
  intro offset above room
  rw [onChip.read_eq (by omega), onOther.read_eq (by omega), bytesAt_congr (same.mono above room)]

/-- A walk depends on nothing but the headers from where it begins to where it has to end. -/
theorem walk_congr {other : Region} {memory : Chip}
    (same : SameHeaders region other chip memory position stop) :
    walk other memory position stop = walk region chip position stop := by
  fun_induction walk region chip position stop with
  | case1 position record found forward rest ih =>
    rw [← recordAt_congr (same position (Nat.le_refl _))] at found
    rw [walk_of_record found, ih fun offset above => same offset (by omega)]
  | case2 position found =>
    rw [← recordAt_congr (same position (Nat.le_refl _))] at found
    exact walk_of_end found
  | case3 position failure found =>
    rw [← recordAt_congr (same position (Nat.le_refl _))] at found
    exact walk_of_failure found

/-- Records take up at least their headers. -/
theorem walk_length_le (region : Region) (chip : Chip) (position stop : Nat) :
    headerSize * (walk region chip position stop).records.length ≤ stop - position := by
  fun_induction walk region chip position stop with
  | case1 position record found forward rest ih =>
    obtain ⟨rfl, bound⟩ := recordAt_bounds found
    have := record.offset_lt_next
    have behind : headerSize * rest.records.length ≤ stop - min record.next stop := ih
    rw [List.length_cons, Nat.mul_succ]
    omega
  | case2 => exact Nat.zero_le _
  | case3 => exact Nat.zero_le _

theorem walk_ending_cases (onChip : region.OnChip chip) (inside : stop ≤ region.length)
    (fits : stop + 65542 < 0x100000000) (bound : position ≤ stop) :
    (∃ tail, (walk region chip position stop).ending = .ok tail) ∨
      (walk region chip position stop).ending = .fail .corrupt := by
  fun_induction walk region chip position stop with
  | case1 position record found _ _ ih => exact ih (by omega)
  | case2 position found => exact .inl ⟨position, rfl⟩
  | case3 position failure found =>
    right
    rw [recordAt_failure onChip inside fits bound found]
    rfl

theorem linked_of_walk (onChip : region.OnChip chip) (inside : stop ≤ region.length)
    (fits : stop + 65542 < 0x100000000) (aligned : stop % 4 = 0) (bound : position ≤ stop)
    (ended : (walk region chip position stop).ending = .ok tail) :
    Linked chip.cell stop position (walk region chip position stop).records tail ∧
      EndsAt chip.cell stop tail := by
  fun_induction walk region chip position stop with
  | case1 position record found _ _ ih =>
    obtain ⟨start, stands⟩ := (recordAt_eq_some_iff onChip inside fits bound).mp found
    have next : min record.next stop = record.next :=
      Nat.min_eq_left ((nextOffset_le_iff aligned).mpr stands.inside)
    obtain ⟨linked, ends⟩ := ih (by omega) ended
    refine ⟨⟨start, stands, ?_⟩, ends⟩
    rw [← next]
    exact linked
  | case2 position found =>
    cases ended
    exact ⟨rfl, (recordAt_eq_none_iff onChip inside fits bound).mp found⟩
  | case3 position failure found => simp at ended

theorem walk_of_linked (onChip : region.OnChip chip) (inside : stop ≤ region.length)
    (fits : stop + 65542 < 0x100000000) (aligned : stop % 4 = 0) (bound : position ≤ stop)
    (linked : Linked chip.cell stop position records tail) (ends : EndsAt chip.cell stop tail) :
    walk region chip position stop = ⟨records, .ok tail⟩ := by
  induction records generalizing position with
  | nil =>
    cases linked
    exact walk_of_end ((recordAt_eq_none_iff onChip inside fits bound).mpr ends)
  | cons record rest ih =>
    obtain ⟨start, stands, linked⟩ := linked
    have next : record.next ≤ stop := (nextOffset_le_iff aligned).mpr stands.inside
    have found := (recordAt_eq_some_iff onChip inside fits bound).mpr ⟨start, stands⟩
    rw [walk_of_record found, Nat.min_eq_left next, ih next linked]

end Walk

end ParamStore
