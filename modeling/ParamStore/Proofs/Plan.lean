import ParamStore.Proofs.Mounted
import ParamStore.Store.Plan

/-! Plans on the flash. A plan that runs to its end leaves the cells it is meant to leave; cut short,
it has touched no others. A record in particular is inscribed payload first and parameter last, and
until the parameter is there nothing before it has changed and no new record begins. -/
namespace ParamStore

/-- A fault of `chip` has cut a call short and left the cells in a `state`. -/
structure Chip.Interrupted (chip : Chip) (state : (Nat → UInt8) → Prop) (cause : StoreError)
    (after : Chip) : Prop where
  hardware : cause.isHardware = true
  faulty : ¬chip.Faultless
  keeps : chip.Keeps after
  state : state after.cell

namespace Chip.Interrupted

variable {chip middle after : Chip} {state state' : (Nat → UInt8) → Prop} {cause : StoreError}

theorem mono (interrupted : chip.Interrupted state cause after)
    (imp : ∀ cells, state cells → state' cells) : chip.Interrupted state' cause after :=
  ⟨interrupted.hardware, interrupted.faulty, interrupted.keeps, imp _ interrupted.state⟩

theorem since (keeps : chip.Keeps middle) (interrupted : middle.Interrupted state cause after) :
    chip.Interrupted state cause after :=
  ⟨interrupted.hardware, fun faultless => interrupted.faulty (keeps.faultless faultless),
    keeps.trans interrupted.keeps, interrupted.state⟩

end Chip.Interrupted

/-- As `Interrupted`, by a fault that keeps the chip from doing what it is told. -/
structure Chip.Balked (chip : Chip) (state : (Nat → UInt8) → Prop) (cause : StoreError)
    (after : Chip) : Prop extends chip.Interrupted state cause after where
  disobedient : ¬chip.Obedient

theorem Chip.Balked.mono {chip after : Chip} {state state' : (Nat → UInt8) → Prop}
    {cause : StoreError} (balked : chip.Balked state cause after)
    (imp : ∀ cells, state cells → state' cells) : chip.Balked state' cause after :=
  ⟨balked.toInterrupted.mono imp, balked.disobedient⟩

/-- A payload fills whole half-words. -/
def padded (data : Bytes) : Bytes := data ++ .replicate (data.length % 2) erasedByte

theorem length_padded (data : Bytes) : (padded data).length = (data.length + 1) / 2 * 2 := by
  simp only [padded, List.length_append, List.length_replicate]
  omega

/-- The whole half-words of a payload end before the next record. -/
theorem Record.padded_le_next (record : Record) (even : record.offset % 2 = 0) {length : Nat}
    (filled : length = (record.size.toNat + 1) / 2 * 2) :
    record.dataOffset + length ≤ record.next := by
  simp only [dataOffset, next, nextOffset, headerSize]
  omega

/-- The cells with a record in them. -/
def inscribe (cells : Nat → UInt8) (record : Record) (bytes : Bytes) : Nat → UInt8 :=
  overlay (overlay cells record.dataOffset bytes) record.offset record.toHeader.toBytes

section Inscribe

variable {cells : Nat → UInt8} {record : Record} {bytes : Bytes}

theorem length_toBytes (header : Header) : header.toBytes.length = headerSize := rfl

theorem sameOutside_inscribe (cells : Nat → UInt8) (record : Record) (bytes : Bytes) :
    SameOutside cells (inscribe cells record bytes) record.offset
      (record.dataOffset + bytes.length) := by
  have payload : SameOutside cells _ record.offset (record.dataOffset + bytes.length) :=
    (sameOutside_overlay cells record.dataOffset bytes).mono
      (by simp only [Record.dataOffset]; omega) (Nat.le_refl _)
  refine payload.trans ((sameOutside_overlay _ _ _).mono (Nat.le_refl _) ?_)
  simp only [length_toBytes, Record.dataOffset]
  omega

theorem headerIn_inscribe (cells : Nat → UInt8) (record : Record) (bytes : Bytes) :
    headerIn (inscribe cells record bytes) record.offset = record.toHeader := by
  rw [← header_ofBytes_bytesAt, ← length_toBytes record.toHeader, inscribe, bytesAt_overlay,
    Header.ofBytes, Header.toBytes, halfwordOfBytes_halfwordBytes]
  rw [List.drop_left' (length_halfwordBytes _)]
  rw [← List.append_nil (halfwordBytes record.size), halfwordOfBytes_halfwordBytes]

theorem bytesAt_inscribe (cells : Nat → UInt8) (record : Record) (bytes : Bytes) :
    bytesAt (inscribe cells record bytes) record.dataOffset bytes.length = bytes := by
  have apart := sameOutside_overlay (overlay cells record.dataOffset bytes) record.offset
    record.toHeader.toBytes
  rw [inscribe, bytesAt_congr (apart.sameIn (.inr ?_)), bytesAt_overlay]
  simp only [length_toBytes, Record.dataOffset]
  omega

theorem payloadIn_inscribe (cells : Nat → UInt8) (record : Record) (bytes : Bytes)
    (enough : record.size.toNat ≤ bytes.length) :
    payloadIn (inscribe cells record bytes) record = bytes.take record.size.toNat := by
  rw [← bytesAt_inscribe cells record bytes, take_bytesAt, Nat.min_eq_left enough, bytesAt_inscribe]
  rfl

end Inscribe

namespace Command

variable {region : Region} {chip : Chip} {offset : Nat} {bad : StoreError → Chip → Prop}
  {good : Unit → Chip → Prop}

theorem ensures_cons {command : Command} {rest : List Command} {middle : Unit → Chip → Prop}
    (first : (command.run region).Ensures chip middle bad)
    (next : ∀ after, middle () after → (runAll region rest).Ensures after good bad) :
    (runAll region (command :: rest)).Ensures chip good bad :=
  first.bind fun _ after => next after

theorem runAll_append (region : Region) (first second : List Command) :
    runAll region (first ++ second) = (do runAll region first; runAll region second) := by
  induction first with
  | nil => simp [runAll]
  | cons command rest ih => simp [runAll, ih]

theorem ensures_append {first second : List Command} {middle : Unit → Chip → Prop}
    (head : (runAll region first).Ensures chip middle bad)
    (next : ∀ after, middle () after → (runAll region second).Ensures after good bad) :
    (runAll region (first ++ second)).Ensures chip good bad := by
  rw [runAll_append]
  exact head.bind fun _ after => next after

theorem write_ensures (bytes : Bytes) (onChip : region.OnChip chip) (even : offset % 2 = 0)
    (paired : bytes.length % 2 = 0) (inside : offset + bytes.length ≤ region.length)
    (blank : Blank chip.cell offset (offset + bytes.length)) :
    ((write offset bytes).run region).Ensures chip
      (fun _ after => chip.Keeps after ∧ after.cell = overlay chip.cell offset bytes)
      (chip.Interrupted fun cells =>
        SameOutside chip.cell cells offset (offset + bytes.length)) := by
  apply Action.Ensures.mapError
  apply (Region.write_ensures onChip even paired inside blank).weaken
  intro cause after failed
  obtain ⟨keeps, faulty, same⟩ := failed
  exact ⟨rfl, faulty, keeps, same⟩

theorem write_halfword_ensures (value : UInt16) (onChip : region.OnChip chip)
    (even : offset % 2 = 0) (inside : offset + 2 ≤ region.length)
    (legal : Programmable chip.cell offset value) :
    ((write offset (halfwordBytes value)).run region).Ensures chip
      (fun _ after => chip.Keeps after ∧
        after.cell = overlay chip.cell offset (halfwordBytes value))
      (chip.Interrupted fun cells => SameOutside chip.cell cells offset (offset + 2) ∧
        (chip.faults.corruptNext = false → cells = chip.cell ∨
          (cells = overlay chip.cell offset (halfwordBytes value) ∧
            chip.faults.stuckBusy = true))) := by
  apply Action.Ensures.mapError
  apply (Region.write_halfword_ensures onChip even inside legal).weaken
  intro cause after failed
  obtain ⟨keeps, faulty, cells⟩ := failed
  exact ⟨rfl, faulty, keeps, cells⟩

theorem erase_ensures {start stop : Nat} (onChip : region.OnChip chip)
    (positive : 0 < chip.pageSize) (first : start % chip.pageSize = 0)
    (last : stop % chip.pageSize = 0) (ordered : start ≤ stop) (inside : stop ≤ region.length) :
    ((erase start stop).run region).Ensures chip
      (fun _ after => chip.Keeps after ∧ after.cell = wipe chip.cell start stop)
      (chip.Balked fun cells => ∃ pages, start + pages * chip.pageSize ≤ stop ∧
        cells = wipe chip.cell start (start + pages * chip.pageSize)) := by
  apply Action.Ensures.mapError
  apply (Region.erase_ensures onChip positive first last ordered inside).weaken
  intro cause after failed
  obtain ⟨keeps, disobedient, cells⟩ := failed
  exact ⟨⟨rfl, fun faultless => disobedient faultless.obedient, keeps, cells⟩, disobedient⟩

theorem payload_ensures {data : Bytes} (onChip : region.OnChip chip) (even : offset % 2 = 0)
    (inside : offset + (padded data).length ≤ region.length)
    (blank : Blank chip.cell offset (offset + (padded data).length)) :
    (runAll region (payload offset data)).Ensures chip
      (fun _ after => chip.Keeps after ∧ after.cell = overlay chip.cell offset (padded data))
      (chip.Interrupted fun cells =>
        SameOutside chip.cell cells offset (offset + (padded data).length)) := by
  rcases Nat.mod_two_eq_zero_or_one data.length with whole | odd
  · have all : data.length / 2 * 2 = data.length := by omega
    have none : data[data.length]? = none := by simp
    have same : padded data = data := by simp [padded, whole]
    simp only [payload, all, none, List.take_length, same] at *
    apply ensures_cons (write_ensures data onChip even whole inside blank)
    intro after holds
    exact Action.ensures_pure holds
  · obtain ⟨front, last, rfl⟩ : ∃ front last, data = front ++ [last] := by
      rcases List.eq_nil_or_concat data with rfl | ⟨front, last, rfl⟩
      · simp at odd
      · exact ⟨front, last, List.concat_eq_append⟩
    have paired : front.length % 2 = 0 := by simp at odd; omega
    have cut : (front ++ [last]).length / 2 * 2 = front.length := by simp; omega
    have found : (front ++ [last])[front.length]? = some last := by simp
    have plan : payload offset (front ++ [last]) =
        [write offset front, write (offset + front.length) [last, erasedByte]] := by
      simp only [payload, cut, found, List.take_left]
    have filled : padded (front ++ [last]) = front ++ [last, erasedByte] := by
      rw [padded, odd]
      simp
    have total : (front ++ [last, erasedByte]).length = front.length + 2 := by simp
    rw [filled, total] at inside blank
    rw [plan, filled, total]
    apply ensures_cons
    · apply (write_ensures front onChip even paired (by omega)
        (blank.mono (Nat.le_refl _) (by omega))).weaken
      intro cause after interrupted
      exact interrupted.mono fun cells same => same.mono (Nat.le_refl _) (by omega)
    · intro middle done
      obtain ⟨keeps, cells⟩ := done
      have outside : SameOutside chip.cell middle.cell offset (offset + front.length) :=
        cells ▸ sameOutside_overlay _ _ _
      apply ensures_cons
      · apply (write_ensures [last, erasedByte] (onChip.keeps keeps)
          (show (offset + front.length) % 2 = 0 by omega) (by simp) (by simp; omega) ?_).weaken ?_
        · exact (blank.mono (by omega) (by simp; omega)).congr (outside.sameIn (.inr (Nat.le_refl _)))
        · intro cause after interrupted
          refine .since keeps (interrupted.mono fun cells same => ?_)
          exact (outside.mono (Nat.le_refl _) (by omega)).trans
            (same.mono (by omega) (by simp; omega))
      · intro after done
        obtain ⟨kept, final⟩ := done
        refine Action.ensures_pure ⟨keeps.trans kept, ?_⟩
        rw [final, cells, overlay_append]

/-- Copying a range into an erased one, chunk by chunk. -/
theorem transfers_ensures {source target length : Nat} (onChip : region.OnChip chip)
    (even : target % 2 = 0) (paired : length % 2 = 0)
    (sourceInside : source + length ≤ region.length)
    (targetInside : target + length ≤ region.length)
    (apart : source + length ≤ target ∨ target + length ≤ source)
    (blank : Blank chip.cell target (target + length)) :
    (runAll region (transfers source target length)).Ensures chip
      (fun _ after => chip.Keeps after ∧
        after.cell = overlay chip.cell target (bytesAt chip.cell source length))
      (chip.Interrupted fun cells =>
        SameOutside chip.cell cells target (target + length)) := by
  induction length using Nat.strongRecOn generalizing chip source target with
  | ind length ih =>
    rw [transfers]
    split
    next positive =>
      have chunk : 0 < min chunkSize length ∧ min chunkSize length ≤ length ∧
          min chunkSize length % 2 = 0 := by
        simp only [chunkSize]; omega
      have whole : bytesAt chip.cell source length =
          bytesAt chip.cell source (min chunkSize length) ++
          bytesAt chip.cell (source + min chunkSize length) (length - min chunkSize length) := by
        rw [← bytesAt_add, Nat.add_sub_cancel' chunk.2.1]
      generalize min chunkSize length = part at chunk whole
      have size : (bytesAt chip.cell source part).length = part := length_bytesAt
      apply ensures_cons
      · apply Action.Ensures.mapError
        apply Action.ensures_observe_bind (onChip.read_eq (by omega))
        apply (Region.write_ensures onChip even (by omega) (by omega)
          (blank.mono (Nat.le_refl _) (by omega))).weaken
        intro cause after failed
        obtain ⟨keeps, faulty, same⟩ := failed
        exact ⟨rfl, faulty, keeps, same.mono (Nat.le_refl _) (by omega)⟩
      · intro middle done
        obtain ⟨keeps, cells⟩ := done
        have outside := sameOutside_overlay chip.cell target (bytesAt chip.cell source part)
        rw [← cells, size] at outside
        have rest : bytesAt middle.cell (source + part) (length - part) =
            bytesAt chip.cell (source + part) (length - part) :=
          bytesAt_congr (outside.sameIn (by omega))
        apply (ih (length - part) (by omega) (onChip.keeps keeps) (by omega) (by omega) (by omega)
          (by omega) (by omega) ((blank.mono (by omega) (by omega)).congr
            (outside.sameIn (.inr (Nat.le_refl _))))).mono
        · intro _ after done
          obtain ⟨kept, final⟩ := done
          refine ⟨keeps.trans kept, ?_⟩
          rw [final, rest, cells, whole, overlay_append, size]
        · intro cause after interrupted
          refine .since keeps (interrupted.mono fun cells same => ?_)
          exact (outside.mono (Nat.le_refl _) (by omega)).trans (same.mono (by omega) (by omega))
    next =>
      have empty : length = 0 := by omega
      subst empty
      exact Action.ensures_pure ⟨.refl chip, by simp [bytesAt]⟩

/-- The parameter comes last, so an interrupted header leaves it erased or is complete, and complete
only if the controller hangs. -/
theorem commit_ensures {record : Record} (onChip : region.OnChip chip)
    (even : record.offset % 2 = 0) (inside : record.offset + headerSize ≤ region.length)
    (blank : Blank chip.cell record.offset (record.offset + headerSize)) :
    (runAll region (commit record)).Ensures chip
      (fun _ after => chip.Keeps after ∧
        after.cell = overlay chip.cell record.offset record.toHeader.toBytes)
      (chip.Interrupted fun cells =>
        SameOutside chip.cell cells record.offset (record.offset + headerSize) ∧
        (chip.faults.corruptNext = false →
          SameOutside chip.cell cells (record.offset + 2) (record.offset + headerSize) ∨
          (cells = overlay chip.cell record.offset record.toHeader.toBytes ∧
            chip.faults.stuckBusy = true))) := by
  simp only [headerSize] at *
  apply ensures_cons
  · apply (write_halfword_ensures record.size onChip
      (show (record.offset + 2) % 2 = 0 by omega) (by omega)
      (.inl (blank.halfwordIn (by omega) (by omega)))).weaken
    intro cause after interrupted
    exact interrupted.mono fun cells same =>
      ⟨same.1.mono (by omega) (Nat.le_refl _), fun _ => .inl same.1⟩
  · intro middle done
    obtain ⟨keeps, cells⟩ := done
    have sized : SameOutside chip.cell middle.cell (record.offset + 2) (record.offset + 4) :=
      cells ▸ sameOutside_overlay _ _ _
    have header : overlay middle.cell record.offset (halfwordBytes record.parameter) =
        overlay chip.cell record.offset record.toHeader.toBytes := by
      rw [cells, overlay_comm (.inr (by simp)), Header.toBytes, overlay_append]
      rfl
    apply ensures_cons
    · apply (write_halfword_ensures record.parameter (onChip.keeps keeps) even
        (by omega) (.inl ?_)).weaken ?_
      · exact ((blank.mono (Nat.le_refl _) (show record.offset + 2 ≤ _ by omega)).congr
          (sized.sameIn (.inl (Nat.le_refl _)))).halfwordIn (Nat.le_refl _) (Nat.le_refl _)
      · intro cause after interrupted
        refine .since keeps (interrupted.mono fun final same => ⟨?_, fun steady => ?_⟩)
        · exact (sized.mono (by omega) (Nat.le_refl _)).trans
            (same.1.mono (Nat.le_refl _) (by omega))
        · rcases same.2 (keeps.steady steady) with before | ⟨behind, stuck⟩
          · exact .inl (before ▸ sized)
          · exact .inr ⟨behind.trans header, keeps.response ▸ stuck⟩
    · intro after done
      obtain ⟨kept, final⟩ := done
      exact Action.ensures_pure ⟨keeps.trans kept, final.trans header⟩

/-- A record goes into erased cells in two parts, of which the second makes it count. -/
theorem inscribe_ensures {record : Record} {bytes : Bytes} {body : List Command}
    (onChip : region.OnChip chip) (even : record.offset % 2 = 0)
    (inside : record.offset + headerSize ≤ region.length)
    (blank : Blank chip.cell record.offset (record.offset + headerSize))
    (placed : (runAll region body).Ensures chip
      (fun _ after => chip.Keeps after ∧ after.cell = overlay chip.cell record.dataOffset bytes)
      (chip.Interrupted fun cells => SameOutside chip.cell cells record.dataOffset
        (record.dataOffset + bytes.length))) :
    (runAll region (body ++ commit record)).Ensures chip
      (fun _ after => chip.Keeps after ∧ after.cell = inscribe chip.cell record bytes)
      (chip.Interrupted fun cells =>
        SameOutside chip.cell cells record.offset (record.dataOffset + bytes.length) ∧
        (chip.faults.corruptNext = false →
          SameOutside chip.cell cells (record.offset + 2) (record.dataOffset + bytes.length) ∨
          (cells = inscribe chip.cell record bytes ∧ chip.faults.stuckBusy = true))) := by
  simp only [Record.dataOffset, headerSize] at *
  apply ensures_append
  · apply placed.weaken
    intro cause after interrupted
    exact interrupted.mono fun cells same => ⟨same.mono (by omega) (Nat.le_refl _),
      fun _ => .inl (same.mono (by omega) (Nat.le_refl _))⟩
  · intro middle done
    obtain ⟨keeps, cells⟩ := done
    have payload : SameOutside chip.cell middle.cell (record.offset + 4)
        (record.offset + 4 + bytes.length) := cells ▸ sameOutside_overlay _ _ _
    have still : Blank middle.cell record.offset (record.offset + headerSize) :=
      blank.congr (payload.sameIn (.inl (Nat.le_refl _)))
    apply (commit_ensures (onChip.keeps keeps) even inside still).mono
    · intro _ after done
      obtain ⟨kept, final⟩ := done
      exact ⟨keeps.trans kept, by rw [final, cells]; rfl⟩
    · intro cause after interrupted
      refine .since keeps (interrupted.mono fun final same => ⟨?_, fun steady => ?_⟩)
      · exact (payload.mono (by omega) (Nat.le_refl _)).trans
          (same.1.mono (Nat.le_refl _) (by simp only [headerSize]; omega))
      · rcases same.2 (keeps.steady steady) with before | ⟨behind, stuck⟩
        · exact .inl ((payload.mono (by omega) (Nat.le_refl _)).trans
            (before.mono (Nat.le_refl _) (by simp only [headerSize]; omega)))
        · exact .inr ⟨by rw [behind, cells]; rfl, keeps.response ▸ stuck⟩

end Command

namespace Store

variable {store : Store} {chip : Chip} {cells new : Nat → UInt8} {id : SegmentId}

/-- Erasing the segment has not begun, or has at least taken its mark. -/
def PartlyErased (store : Store) (id : SegmentId) (cells new : Nat → UInt8) : Prop :=
  new = cells ∨ ∃ bound, (store.segment id).firstRecord ≤ bound ∧ bound ≤ (store.segment id).stop ∧
    new = wipe cells (store.segment id).start bound

theorem PartlyErased.sameOutside (partly : store.PartlyErased id cells new) :
    SameOutside cells new (store.segment id).start (store.segment id).stop := by
  rcases partly with rfl | ⟨bound, -, inside, rfl⟩
  · exact .rfl
  · exact (sameOutside_wipe _ _ _).mono (Nat.le_refl _) inside

theorem PartlyErased.eq_or_not_inUse (partly : store.PartlyErased id cells new) :
    new = cells ∨ ¬store.InUse new id := by
  rcases partly with same | ⟨bound, above, -, rfl⟩
  · exact .inl same
  · exact .inr (not_inUse_of_blank (blank_wipe _ _ _) above)

theorem eraseCommand_ensures (mounted : store.Mounted chip) (id : SegmentId) :
    ((store.eraseCommand id).run store.region).Ensures chip
      (fun _ after => chip.Keeps after ∧
        after.cell = wipe chip.cell (store.segment id).start (store.segment id).stop)
      (chip.Balked (store.PartlyErased id chip.cell)) := by
  have placed := mounted.placed id
  have room := placed.room
  have word := placed.word
  apply (Command.erase_ensures mounted.onChip (by omega) placed.startPage placed.stopPage
    (by omega) placed.inside).weaken
  intro cause after balked
  refine balked.mono ?_
  intro cells done
  obtain ⟨pages, inside, rfl⟩ := done
  cases pages with
  | zero => exact .inl (by simp)
  | succ more =>
    refine .inr ⟨_, ?_, inside, rfl⟩
    rw [Nat.add_mul, Nat.one_mul, Segment.firstRecord, magicSize]
    omega

theorem eraseSegment_ensures (mounted : store.Mounted chip) (id : SegmentId) :
    (store.eraseSegment id).Ensures chip
      (fun _ after => chip.Keeps after ∧
        after.cell = wipe chip.cell (store.segment id).start (store.segment id).stop)
      (chip.Balked (store.PartlyErased id chip.cell)) :=
  Command.ensures_cons (store.eraseCommand_ensures mounted id) fun _ done =>
    Action.ensures_pure done

theorem markCommand_ensures (mounted : store.Mounted chip) (id : SegmentId)
    (blank : Blank chip.cell (store.segment id).start (store.segment id).firstRecord) :
    ((store.markCommand id).run store.region).Ensures chip
      (fun _ after => chip.Keeps after ∧
        after.cell = overlay chip.cell (store.segment id).start (halfwordBytes inUseMagic))
      (chip.Interrupted fun cells =>
        SameOutside chip.cell cells (store.segment id).start (store.segment id).firstRecord ∧
        (chip.faults.corruptNext = false → cells = chip.cell ∨
          cells = overlay chip.cell (store.segment id).start (halfwordBytes inUseMagic))) := by
  have placed := mounted.placed id
  have room := placed.room
  have word := placed.word
  have inside := placed.inside
  have start := placed.startWord
  apply (Command.write_halfword_ensures inUseMagic mounted.onChip (by omega) (by omega)
    (.inl (blank.halfwordIn (Nat.le_refl _) (Nat.le_refl _)))).weaken
  intro cause after interrupted
  exact interrupted.mono fun cells same =>
    ⟨same.1, fun steady => (same.2 steady).imp_right And.left⟩

end Store

end ParamStore
