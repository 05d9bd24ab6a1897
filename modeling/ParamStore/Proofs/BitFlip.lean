import ParamStore.Proofs.Atomicity
import ParamStore.Proofs.Unseen

/-! A wrong bit. When the chip stores one, it is in the half-word that is programmed next, and the
verification of that half-word ends the call. A write or a compaction begins where nothing counts
yet: with the payload or the size of a record that has no parameter, with a copy in the segment that
is not in use, or with the mark of that segment, which is none with a wrong bit in it. So the log
stays what it was, and the call may be repeated. -/
namespace ParamStore

/-- Nothing is wrong with the chip but that it is about to store a wrong bit. -/
structure Chip.Flips (chip : Chip) : Prop where
  obedient : chip.Obedient
  due : chip.faults.corruptNext = true

/-- A wrong bit was noticed, and it is between `start` and `stop`. -/
structure Chip.Spoiled (chip : Chip) (start stop : Nat) (cause : StoreError) (after : Chip) :
    Prop where
  verify : cause = .flash .verify
  keeps : chip.Keeps after
  same : SameOutside chip.cell after.cell start stop

theorem Chip.Spoiled.mono {chip after : Chip} {start stop low high : Nat} {cause : StoreError}
    (spoiled : chip.Spoiled start stop cause after) (below : low ≤ start) (above : stop ≤ high) :
    chip.Spoiled low high cause after :=
  ⟨spoiled.verify, spoiled.keeps, spoiled.same.mono below above⟩

/-- Erasing leaves the flip to what is programmed next. -/
theorem Chip.erasePage_corruptNext (chip : Chip) (address : Nat) :
    (chip.erasePage address).faults.corruptNext = chip.faults.corruptNext := by
  have kept (chip : Chip) (offset : Nat) :
      (eraseAt chip offset).faults.corruptNext = chip.faults.corruptNext :=
    congrArg Faults.corruptNext (countErase_frame (chip.eraseCells _ _) _).2.2.2.2
  exact mutate_view (·.faults.corruptNext) (fun _ => rfl) (fun _ => rfl) (fun _ => rfl) kept _

namespace Region

variable {region : Region} {chip : Chip} {offset : Nat}

theorem erasePage_leaves (region : Region) (offset : Nat) :
    (region.erasePage offset).Leaves (·.faults.corruptNext) := by
  refine Action.leaves_get.bind fun chip => (Action.leaves_observe _).bind fun address => ?_
  apply Action.Leaves.unlocked (fun _ => rfl) (fun _ => rfl)
  refine (Action.leaves_modify fun chip => chip.erasePage_corruptNext address).bind fun _ => ?_
  refine (awaitIdle_leaves _ _ _ fun _ => rfl).bind fun _ =>
    (Action.leaves_observe _).bind fun erased => ?_
  split
  · exact Action.leaves_pure _
  · exact Action.leaves_fail _

theorem erase_leaves (region : Region) (start stop : Nat) :
    (region.erase start stop).Leaves (·.faults.corruptNext) := by
  have pages (pageSize count page : Nat) :
      (region.erasePages pageSize page count).Leaves (·.faults.corruptNext) := by
    induction count generalizing page with
    | zero => exact Action.leaves_pure _
    | succ count ih => exact (region.erasePage_leaves page).bind fun _ => ih _
  refine Action.leaves_get.bind fun chip => ?_
  dsimp only
  split
  · exact Action.leaves_fail _
  split
  · exact Action.leaves_fail _
  · exact pages _ _ _

/-- Of a range nothing is programmed but its first half-word. -/
theorem write_flips {bytes : Bytes} (onChip : region.OnChip chip) (flips : chip.Flips)
    (even : offset % 2 = 0) (paired : bytes.length % 2 = 0)
    (inside : offset + bytes.length ≤ region.length)
    (blank : Blank chip.cell offset (offset + bytes.length)) :
    (region.write offset bytes).Ensures chip (fun _ after => bytes = [] ∧ after = chip)
      (fun cause after => cause = .verify ∧ chip.Keeps after ∧
        SameOutside chip.cell after.cell offset (offset + bytes.length)) := by
  rw [write, if_neg (by omega)]
  apply Action.ensures_observe_bind (onChip.address_eq inside)
  rcases bytes with _ | ⟨low, _ | ⟨high, rest⟩⟩
  case nil => exact Action.ensures_pure ⟨rfl, rfl⟩
  case cons.nil => simp at paired
  case cons.cons =>
    simp only [List.length_cons] at inside blank ⊢
    have legal : Programmable chip.cell offset (halfword low high) :=
      .inl (blank.halfwordIn (Nat.le_refl _) (by omega))
    apply Action.Ensures.bind
    · apply (programHalfword_flips onChip flips.due even (by omega) legal).weaken
      intro cause after failed
      rcases failed with ⟨keeps, ⟨-, disobedient⟩ | ⟨changed, verify⟩⟩
      · exact absurd flips.obedient disobedient
      · refine ⟨verify flips.obedient, keeps, ?_⟩
        rw [changed]
        exact (sameOutside_overlay _ _ _).mono (Nat.le_refl _) (by simp)
    · exact fun _ _ => False.elim

end Region

namespace Command

variable {region : Region} {chip : Chip} {offset : Nat}

theorem write_flips {bytes : Bytes} (onChip : region.OnChip chip) (flips : chip.Flips)
    (even : offset % 2 = 0) (paired : bytes.length % 2 = 0)
    (inside : offset + bytes.length ≤ region.length)
    (blank : Blank chip.cell offset (offset + bytes.length)) :
    ((write offset bytes).run region).Ensures chip (fun _ after => bytes = [] ∧ after = chip)
      (chip.Spoiled offset (offset + bytes.length)) := by
  apply Action.Ensures.mapError
  apply (Region.write_flips onChip flips even paired inside blank).weaken
  intro cause after failed
  obtain ⟨rfl, keeps, same⟩ := failed
  exact ⟨rfl, keeps, same⟩

/-- Programming one half-word, whatever else is wrong with the chip. -/
theorem write_halfword_flips {value : UInt16} (onChip : region.OnChip chip)
    (due : chip.faults.corruptNext = true) (even : offset % 2 = 0)
    (inside : offset + 2 ≤ region.length) (legal : Programmable chip.cell offset value) :
    ((write offset (halfwordBytes value)).run region).Ensures chip (fun _ _ => False)
      (fun cause after => chip.Keeps after ∧
        ((after.cell = chip.cell ∧ ¬chip.Obedient) ∨
          (after.cell = overlay chip.cell offset (halfwordBytes (value ^^^ 1)) ∧
            (chip.Obedient → cause = .flash .verify)))) := by
  apply Action.Ensures.mapError
  apply (Region.write_halfword_flips onChip due even inside legal).weaken
  intro cause after failed
  obtain ⟨keeps, cells⟩ := failed
  exact ⟨keeps, cells.imp_right fun changed => ⟨changed.1, fun obedient => by
    rw [changed.2 obedient]⟩⟩

theorem payload_flips {data : Bytes} (onChip : region.OnChip chip) (flips : chip.Flips)
    (even : offset % 2 = 0) (inside : offset + (padded data).length ≤ region.length)
    (blank : Blank chip.cell offset (offset + (padded data).length)) :
    (runAll region (payload offset data)).Ensures chip (fun _ after => after = chip)
      (chip.Spoiled offset (offset + (padded data).length)) := by
  have length := length_padded data
  have front : (data.take (data.length / 2 * 2)).length = data.length / 2 * 2 :=
    List.length_take_of_le (by omega)
  apply ensures_cons
  · apply (write_flips onChip flips even (by omega) (by omega)
      (blank.mono (Nat.le_refl _) (by omega))).weaken
    exact fun cause after spoiled => spoiled.mono (Nat.le_refl _) (by omega)
  intro middle done
  obtain ⟨-, rfl⟩ := done
  cases last : data[data.length / 2 * 2]? with
  | none => exact Action.ensures_pure rfl
  | some byte =>
    obtain ⟨odd, -⟩ := List.getElem?_eq_some_iff.mp last
    have pair : [byte, erasedByte].length = 2 := rfl
    apply ensures_cons
    · apply (write_flips onChip flips (show (offset + data.length / 2 * 2) % 2 = 0 by omega)
        (by omega) (by omega) (blank.mono (by omega) (by omega))).weaken
      exact fun cause after spoiled => spoiled.mono (by omega) (by omega)
    · exact fun _ done => absurd done.1 (by simp)

theorem transfers_flips {source target length : Nat} (onChip : region.OnChip chip)
    (flips : chip.Flips) (even : target % 2 = 0) (paired : length % 2 = 0)
    (sourceInside : source + length ≤ region.length)
    (targetInside : target + length ≤ region.length)
    (blank : Blank chip.cell target (target + length)) :
    (runAll region (transfers source target length)).Ensures chip (fun _ after => after = chip)
      (chip.Spoiled target (target + length)) := by
  rw [transfers]
  split
  next positive =>
    have chunk : 0 < min chunkSize length ∧ min chunkSize length ≤ length ∧
        min chunkSize length % 2 = 0 := by
      simp only [chunkSize]; omega
    dsimp only
    generalize min chunkSize length = part at chunk
    have size : (bytesAt chip.cell source part).length = part := length_bytesAt
    apply ensures_cons
    · apply Action.Ensures.mapError
      apply Action.ensures_observe_bind (onChip.read_eq (by omega))
      apply (Region.write_flips onChip flips even (by omega) (by omega)
        (blank.mono (Nat.le_refl _) (by omega))).weaken
      intro cause after failed
      obtain ⟨rfl, keeps, same⟩ := failed
      exact ⟨rfl, keeps, same.mono (Nat.le_refl _) (by omega)⟩
    · intro middle done
      rw [done.1] at size
      simp only [List.length_nil] at size
      omega
  next => exact Action.ensures_pure rfl

/-- The size comes before the parameter. -/
theorem commit_flips {record : Record} (onChip : region.OnChip chip) (flips : chip.Flips)
    (even : record.offset % 2 = 0) (inside : record.offset + headerSize ≤ region.length)
    (blank : Blank chip.cell record.offset (record.offset + headerSize)) :
    (runAll region (commit record)).Ensures chip (fun _ _ => False)
      (chip.Spoiled (record.offset + 2) (record.offset + headerSize)) := by
  have size : (halfwordBytes record.size).length = 2 := length_halfwordBytes _
  have field : record.sizeField = record.offset + 2 := rfl
  simp only [headerSize] at *
  apply ensures_cons
  · apply (write_flips onChip flips (by omega) (by omega) (by omega)
      (blank.mono (by omega) (by omega))).weaken
    exact fun cause after spoiled => spoiled.mono (by omega) (by omega)
  · exact fun _ done => absurd done.1 (by simp [halfwordBytes])

theorem inscribe_flips {record : Record} {stop : Nat} {body : List Command}
    (onChip : region.OnChip chip) (flips : chip.Flips) (even : record.offset % 2 = 0)
    (inside : record.offset + headerSize ≤ region.length) (wide : record.dataOffset ≤ stop)
    (blank : Blank chip.cell record.offset (record.offset + headerSize))
    (placed : (runAll region body).Ensures chip (fun _ after => after = chip)
      (chip.Spoiled record.dataOffset stop)) :
    (runAll region (body ++ commit record)).Ensures chip (fun _ _ => False)
      (chip.Spoiled (record.offset + 2) stop) := by
  simp only [Record.dataOffset, headerSize] at *
  apply ensures_append
  · apply placed.weaken
    exact fun cause after spoiled => spoiled.mono (by omega) (Nat.le_refl _)
  · intro middle done
    obtain rfl : middle = chip := done
    apply (commit_flips onChip flips even inside blank).weaken
    exact fun cause after spoiled => spoiled.mono (Nat.le_refl _) (by simpa [headerSize] using wide)

end Command

namespace Store

variable {store : Store} {chip after : Chip} {cells : Nat → UInt8} {log : Log}
  {parameter : UInt16} {data : Bytes} {position stop : Nat}

/-- The chip holds the log as before, and its segment is still the only one in use. -/
structure Unharmed (store : Store) (log : Log) (chip after : Chip) : Prop where
  keeps : chip.Keeps after
  holds : store.Holds after.cell log
  entries : entriesIn after.cell log.records = entriesIn chip.cell log.records
  alone : ¬store.InUse after.cell log.segment.id.other

/-- A wrong bit behind the mark of the log's end. -/
theorem Holds.unharmed_behind (holds : store.Holds chip.cell log) (mounted : store.Mounted chip)
    (alone : ¬store.InUse chip.cell log.segment.id.other) {cause : StoreError}
    (spoiled : chip.Spoiled (log.tail + 2) log.segment.stop cause after) :
    store.Unharmed log chip after := by
  obtain ⟨still, entries⟩ := holds.congr_behind mounted spoiled.same
  have bounds := holds.tail_le mounted
  have inside := spoiled.same.mono (show log.segment.firstRecord ≤ log.tail + 2 by omega)
    (Nat.le_refl _)
  rw [holds.segment] at inside
  exact ⟨spoiled.keeps, still, entries, mt (mounted.inUse_congr _ inside _).mp alone⟩

/-- A wrong bit in the other segment, which does not come into use by it. -/
theorem Holds.unharmed_spare (holds : store.Holds chip.cell log) (mounted : store.Mounted chip)
    (keeps : chip.Keeps after)
    (same : SameOutside chip.cell after.cell (store.spare log).start (store.spare log).stop)
    (alone : ¬store.InUse after.cell log.segment.id.other) : store.Unharmed log chip after := by
  obtain ⟨still, entries⟩ := holds.congr_spare mounted same fun second => by rwa [second] at alone
  exact ⟨keeps, still, entries, alone⟩

theorem append_flips (mounted : store.Mounted chip) (flips : chip.Flips)
    (holds : store.Holds chip.cell log) (short : data.length ≤ maxPayload)
    (takes : log.Takes chip.cell (.ofNat data.length)) :
    (store.run (Command.append log parameter data)).Ensures chip (fun _ _ => False)
      (chip.Spoiled (log.tail + 2) log.segment.stop) := by
  have even := (holds.even mounted).1
  have inside := (holds.placed mounted).inside
  have length : (log.fresh parameter data).size.toNat = data.length := size_ofNat_toNat short
  have wide : (log.fresh parameter data).dataOffset + (padded data).length ≤ log.segment.stop :=
    Nat.le_trans (Record.padded_le_next _ even (by rw [length, length_padded])) takes.fits
  have start : (log.fresh parameter data).dataOffset = log.tail + headerSize := rfl
  simp only [headerSize] at start
  have payload : (Command.runAll store.region
      (Command.payload (log.fresh parameter data).dataOffset data)).Ensures chip
      (fun _ after => after = chip)
      (chip.Spoiled (log.fresh parameter data).dataOffset log.segment.stop) := by
    apply (Command.payload_flips mounted.onChip flips (by omega) (by omega)
      (takes.blank.mono (by omega) (by omega))).weaken
    exact fun cause after spoiled => spoiled.mono (Nat.le_refl _) (by omega)
  apply Command.ensures_append
  · have room : log.tail + headerSize ≤ log.segment.stop := by
      simp only [headerSize]
      omega
    exact Command.inscribe_flips mounted.onChip flips even (Nat.le_trans room inside) room
      (takes.blank.mono (Nat.le_refl _) room) payload
  · exact fun _ => False.elim

theorem copyRecord_flips {record : Record} (onChip : store.region.OnChip chip)
    (flips : chip.Flips) (even : position % 2 = 0) (inside : stop ≤ store.region.length)
    (fits : stop + 65542 < 0x100000000) (room : nextOffset position record.size ≤ stop)
    (blank : Blank chip.cell position stop) (sourceEven : record.offset % 2 = 0)
    (sourceInside : record.next ≤ store.region.length) :
    (store.copyRecord stop record position).Ensures chip (fun _ _ => False)
      (chip.Spoiled position stop) := by
  have wide : position + headerSize + (record.size.toNat + 1) / 2 * 2 ≤
      nextOffset position record.size :=
    (record.moveTo position).padded_le_next even rfl
  have sourceWide := record.padded_le_next sourceEven rfl
  have body : (Command.runAll store.region (Command.transfers record.dataOffset
      (position + headerSize) ((record.size.toNat + 1) / 2 * 2))).Ensures chip
      (fun _ after => after = chip) (chip.Spoiled (position + headerSize) stop) := by
    apply (Command.transfers_flips onChip flips (by simp only [headerSize]; omega) (by omega)
      (by omega) (by omega) (blank.mono (by omega) (by omega))).weaken
    exact fun cause after spoiled => spoiled.mono (Nat.le_refl _) (by omega)
  unfold copyRecord
  apply Action.ensures_observe_bind (Attempt.fit_of_lt (by omega))
  rw [if_neg (by omega)]
  have inscribed : (Command.runAll store.region (Command.copy record position)).Ensures chip
      (fun _ _ => False) (chip.Spoiled (position + 2) stop) :=
    Command.inscribe_flips onChip flips even (show position + headerSize ≤ _ by omega)
      (show position + headerSize ≤ stop by omega)
      (blank.mono (Nat.le_refl _) (show position + headerSize ≤ stop by omega)) body
  apply inscribed.weaken
  exact fun cause after spoiled => spoiled.mono (by omega) (Nat.le_refl _)

/-- Nothing gets copied; if there is something to copy, its copy is spoiled. -/
theorem Holds.copy_flips (holds : store.Holds cells log) (mounted : store.Mounted chip)
    (flips : chip.Flips)
    (blank : Blank chip.cell (store.spare log).firstRecord (store.spare log).stop) :
    (store.pack (store.spare log).stop (survivors log.records)
      (store.spare log).firstRecord).Ensures chip (fun _ after => after = chip)
      (chip.Spoiled (store.spare log).firstRecord (store.spare log).stop) := by
  have placed := mounted.placed log.segment.id.other
  obtain ⟨-, -, room⟩ := holds.relocated_used mounted
  have sources {record : Record} := @Holds.sources store chip cells log holds mounted record
  simp only [relocated] at room
  cases kept : survivors log.records with
  | nil => exact Action.ensures_pure rfl
  | cons record rest =>
    rw [kept] at room sources
    obtain ⟨even, inside, -⟩ := sources List.mem_cons_self
    have first : nextOffset (store.spare log).firstRecord record.size ≤ (store.spare log).stop :=
      Nat.le_trans (le_packedEnd _ (sizesOf rest)) room
    apply Action.Ensures.bind
    · exact copyRecord_flips mounted.onChip flips (mounted.firstRecord_even _) placed.inside
        placed.fits first blank even inside
    · exact fun _ _ => False.elim

theorem clearSpare_leaves (store : Store) (spare : Segment) :
    (store.clearSpare spare).Leaves (·.faults.corruptNext) := by
  refine (Action.leaves_observe _).bind fun blank => ?_
  split
  · exact Action.leaves_pure _
  · refine Action.Leaves.bind ?_ fun _ => Action.leaves_pure _
    refine Action.Leaves.bind ?_ fun _ => Action.leaves_pure _
    exact (store.region.erase_leaves _ _).mapError

/-- A mark with a wrong bit is none. -/
theorem markCommand_flips (mounted : store.Mounted chip) (flips : chip.Flips) (id : SegmentId)
    (blank : Blank chip.cell (store.segment id).start (store.segment id).firstRecord) :
    ((store.markCommand id).run store.region).Ensures chip (fun _ _ => False)
      (fun cause after => chip.Spoiled (store.segment id).start (store.segment id).firstRecord
        cause after ∧ ¬store.InUse after.cell id) := by
  have placed := mounted.placed id
  have room := placed.room
  have word := placed.word
  have inside := placed.inside
  have start := placed.startWord
  apply (Command.write_halfword_flips mounted.onChip flips.due (by omega) (by omega)
    (.inl (blank.halfwordIn (Nat.le_refl _) (Nat.le_refl _)))).weaken
  intro cause after failed
  rcases failed with ⟨keeps, ⟨-, disobedient⟩ | ⟨changed, verify⟩⟩
  · exact absurd flips.obedient disobedient
  · refine ⟨⟨verify flips.obedient, keeps, changed ▸ sameOutside_overlay _ _ _⟩, ?_⟩
    rw [InUse, changed, halfwordIn_overlay]
    decide

/-- Compaction fails for the wrong bit, and the log is where it was. -/
theorem compact_flips (mounted : store.Mounted chip) (flips : chip.Flips)
    (holds : store.Holds chip.cell log) (alone : ¬store.InUse chip.cell log.segment.id.other) :
    store.compact.Ensures chip (fun _ _ => False)
      (fun cause after => cause = .flash .verify ∧ store.Unharmed log chip after) := by
  have found := mounted.active_eq holds.active
  rw [← holds.segment] at found
  unfold compact
  apply Action.ensures_observe_bind found
  apply Action.ensures_observe_bind (mounted.isInUse_eq _)
  simp only [segment_id, decide_eq_true_eq]
  rw [if_neg alone]
  apply Action.Ensures.bind
  · apply ((store.clearSpare_ensures mounted log.segment.id.other).and_after
      (·.faults.corruptNext = chip.faults.corruptNext) (store.clearSpare_leaves _ chip)).weaken
    exact fun cause after failed => absurd flips.obedient failed.1.disobedient
  intro dirty cleared done
  obtain ⟨⟨keeps, wiped, -⟩, due⟩ := done
  have mountedCleared := mounted.keeps keeps
  have flipsCleared : cleared.Flips := ⟨keeps.obedient flips.obedient, due.trans flips.due⟩
  have spared : SameOutside chip.cell cleared.cell (store.spare log).start (store.spare log).stop :=
    wiped ▸ sameOutside_wipe _ _ _
  have blank : Blank cleared.cell (store.spare log).start (store.spare log).stop :=
    wiped ▸ blank_wipe _ _ _
  have room := (mounted.placed log.segment.id.other).firstRecord_le
  have mark := blank.mono (Nat.le_refl _) room
  have still := (holds.unharmed_spare mounted keeps spared
    (not_inUse_of_blank mark (Nat.le_refl _))).holds
  apply Action.ensures_observe_bind (mountedCleared.logRead_eq still)
  apply Action.Ensures.bind
  · apply (holds.copy_flips mountedCleared flipsCleared
      (blank.mono (Nat.le_add_right _ magicSize) (Nat.le_refl _))).weaken
    intro cause after spoiled
    refine ⟨spoiled.verify, holds.unharmed_spare mounted (keeps.trans spoiled.keeps)
      (spared.trans (spoiled.same.mono (Nat.le_add_right _ magicSize) (Nat.le_refl _))) ?_⟩
    exact not_inUse_of_blank (mark.congr (spoiled.same.sameIn (.inl (Nat.le_refl _))))
      (Nat.le_refl _)
  intro tail middle done
  obtain rfl : middle = cleared := done
  apply Action.Ensures.bind
  · apply Command.ensures_cons
    · apply (store.markCommand_flips mountedCleared flipsCleared _ mark).weaken
      intro cause after failed
      obtain ⟨spoiled, unmarked⟩ := failed
      exact ⟨spoiled.verify, holds.unharmed_spare mounted (keeps.trans spoiled.keeps)
        (spared.trans (spoiled.same.mono (Nat.le_refl _) room)) unmarked⟩
    · exact fun _ => False.elim
  · exact fun _ _ => False.elim

/-- A write that has begun fails for the wrong bit, and the log is what it was. -/
theorem write_flips (mounted : store.Mounted chip) (flips : chip.Flips)
    (holds : store.Holds chip.cell log) (alone : ¬store.InUse chip.cell log.segment.id.other)
    (parameter : UInt16) (data : Bytes) :
    (store.write parameter data).Ensures chip (fun _ _ => False)
      (fun cause after => (cause = .flash .verify ∨ after = chip) ∧
        store.Unharmed log chip after) := by
  have unchanged : store.Unharmed log chip chip := ⟨.refl chip, holds, rfl, alone⟩
  unfold write
  by_cases valid : isValidParameter parameter = true
  case neg =>
    rw [if_pos (by simp [valid])]
    exact Action.ensures_fail ⟨.inr rfl, unchanged⟩
  rw [if_neg (by simp [valid])]
  by_cases long : maxPayload < data.length
  · rw [if_pos long]
    exact Action.ensures_fail ⟨.inr rfl, unchanged⟩
  rw [if_neg long]
  have short := Nat.le_of_not_lt long
  rcases reserve_spec mounted holds short with ⟨reserved, takes⟩ | ⟨reserved, -⟩
  · apply Action.ensures_observe_bind reserved
    apply (append_flips mounted flips holds short takes).weaken
    exact fun cause after spoiled =>
      ⟨.inl spoiled.verify, holds.unharmed_behind mounted alone spoiled⟩
  · have found := mounted.active_eq holds.active
    have placed := holds.placed mounted
    rw [← holds.segment] at found
    apply Action.ensures_observe_bind reserved
    refine Action.Ensures.bind ?_ fun _ _ => False.elim
    apply Action.ensures_observe_bind found
    apply Action.ensures_observe_bind
      (tryNextOffset_of_short placed.firstRecord_le placed.fits short)
    split
    · exact Action.ensures_fail ⟨.inr rfl, unchanged⟩
    · refine Action.Ensures.bind ?_ fun _ _ => False.elim
      apply (compact_flips mounted flips holds alone).weaken
      exact fun cause after failed => ⟨.inl failed.1, failed.2⟩

/-- The call has failed, and for the wrong bit if it has changed anything. The log is found as before
and still in the only segment in use, all values are read as before, and without the fault the call
may be repeated as if it had not been made. -/
structure Caught {α : Type} (store : Store) (action : Action StoreError α) (chip : Chip)
    (log : Log) : Prop where
  failed : ∃ cause, action.outcome chip = .fail cause ∧
    (cause = .flash .verify ∨ action.after chip = chip)
  inUse : ∀ id, store.isInUse (action.after chip) id = store.isInUse chip id
  walked : store.log (action.after chip) = .ok log
  reads : ∀ parameter capacity,
    store.read (action.after chip) parameter capacity = store.read chip parameter capacity
  repeated : store.Indistinguishable action (chip.withFaults {})
    ((action.after chip).withFaults {})

theorem Unharmed.caught {α : Type} {action : Action StoreError α} {cause : StoreError}
    (result : List Entry → Attempt StoreError α × Values) (mounted : store.Mounted chip)
    (holds : store.Holds chip.cell log) (alone : ¬store.InUse chip.cell log.segment.id.other)
    (outcome : action.outcome chip = .fail cause)
    (noticed : cause = .flash .verify ∨ action.after chip = chip)
    (unharmed : store.Unharmed log chip (action.after chip))
    (yields : ∀ other, store.Mounted other → other.Faultless → store.Holds other.cell log →
      ¬store.InUse other.cell log.segment.id.other →
      store.Yields action other (result (entriesIn other.cell log.records))) :
    store.Caught action chip log := by
  obtain ⟨keeps, still, entries, unmarked⟩ := unharmed
  have remounted := mounted.keeps keeps
  refine ⟨⟨cause, outcome, noticed⟩, fun id => ?_, remounted.log_eq_ok_iff.mpr still,
    fun parameter capacity => ?_, ?_⟩
  · have agree : store.InUse (action.after chip).cell id ↔ store.InUse chip.cell id := by
      by_cases own : id = log.segment.id
      · subst own
        exact iff_of_true still.active.1 holds.active.1
      · obtain rfl : id = log.segment.id.other := by
          cases id <;> cases side : log.segment.id <;> simp_all [SegmentId.other]
        exact iff_of_false unmarked alone
    rw [remounted.isInUse_eq, mounted.isInUse_eq]
    simp [agree]
  · exact mounted.read_congr remounted ⟨log, holds, rfl⟩ ⟨log, still, rfl⟩ (by rw [entries]) capacity
  · have first := yields _ (mounted.withFaults {}) rfl holds alone
    have second := yields _ (remounted.withFaults {}) rfl still unmarked
    rw [← show entriesIn _ log.records = entriesIn (chip.withFaults {}).cell log.records from entries]
      at first
    exact first.indistinguishable second

/-- On a chip with a bit flip due and no other fault, whatever it holds besides one log, no write and
no compaction succeeds, and none does any harm. -/
theorem flip_caught (mounted : store.Mounted chip)
    (faults : chip.faults = { corruptNext := true }) (found : store.log chip = .ok log)
    (single : store.isInUse chip log.segment.id.other = .ok false) :
    (∀ parameter data, store.Caught (store.write parameter data) chip log) ∧
      store.Caught store.compact chip log := by
  have holds := mounted.log_eq_ok_iff.mp found
  have flips : chip.Flips := ⟨by rw [Chip.Obedient, faults]; exact ⟨rfl, rfl, rfl⟩, by rw [faults]⟩
  have alone : ¬store.InUse chip.cell log.segment.id.other := by
    rw [mounted.isInUse_eq] at single
    simpa using single
  constructor
  · intro parameter data
    rcases (write_flips mounted flips holds alone parameter data).outcome_cases with
      ⟨_, -, impossible⟩ | ⟨cause, outcome, noticed, unharmed⟩
    · exact impossible.elim
    · apply unharmed.caught (fun entries => written log (valueOf entries) parameter data) mounted
        holds alone outcome noticed
      exact fun other remounted faultless held unmarked =>
        write_yields remounted faultless held unmarked
  · rcases (compact_flips mounted flips holds alone).outcome_cases with
      ⟨_, -, impossible⟩ | ⟨cause, outcome, verify, unharmed⟩
    · exact impossible.elim
    · apply unharmed.caught (fun entries => store.migrated log (valueOf entries)) mounted holds alone
        outcome (.inl verify)
      exact fun other remounted faultless held unmarked =>
        compact_yields remounted faultless held unmarked

theorem flip_caught_sample :
    sample.Caught (sample.write 7 [0x55]) (sampleChip.withFaults { corruptNext := true })
      sampleLog ∧
    sample.Caught sample.compact (sampleChip.withFaults { corruptNext := true }) sampleLog := by
  have mounted := sample_mounted.withFaults { corruptNext := true }
  have found := mounted.log_eq_ok_iff.mpr sample_holds
  obtain ⟨writes, compacts⟩ := flip_caught mounted rfl found rfl
  exact ⟨writes 7 [0x55], compacts⟩

end Store

end ParamStore
