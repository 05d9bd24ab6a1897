import ParamStore.Proofs.Contract
import ParamStore.Proofs.Safety

/-! Where calls reach. The flash around a store belongs to others, so a call must not touch it, not
even if the log is corrupt and the chip fails while the call runs. Every change is laid out as
commands, each of which names the range it changes; that these ranges lie in the segment that is
worked on follows from what was checked before the commands were laid out. -/
namespace ParamStore

/-- The range that the command may change lies between `start` and `stop`. -/
def Command.Within (start stop : Nat) : Command → Prop
  | write offset bytes => start ≤ offset ∧ offset + bytes.length ≤ stop
  | transfer _ target length => start ≤ target ∧ target + length ≤ stop
  | erase first last => start ≤ first ∧ last ≤ stop

theorem Command.Within.mono {command : Command} {start stop low high : Nat}
    (within : command.Within start stop) (below : low ≤ start) (above : stop ≤ high) :
    command.Within low high := by
  cases command <;> simp only [Command.Within] at * <;> omega

namespace Command

variable {start stop : Nat}

theorem transfers_within {source target length : Nat} (low : start ≤ target)
    (high : target + length ≤ stop) :
    ∀ command ∈ transfers source target length, command.Within start stop := by
  fun_induction transfers source target length with
  | case1 source target length positive chunk ih =>
    have bound : chunk ≤ length := Nat.min_le_right chunkSize length
    intro command member
    rcases List.mem_cons.mp member with rfl | member
    · exact ⟨low, by omega⟩
    · exact ih (by omega) (by omega) command member
  | case2 => simp

/-- The byte that fills up an odd payload is part of the range. -/
theorem payload_within {offset : Nat} {data : Bytes} (low : start ≤ offset)
    (high : offset + (padded data).length ≤ stop) :
    ∀ command ∈ payload offset data, command.Within start stop := by
  rw [length_padded] at high
  have front : (write offset (data.take (data.length / 2 * 2))).Within start stop :=
    ⟨low, by rw [List.length_take]; omega⟩
  intro command member
  simp only [payload] at member
  split at member
  next last found =>
    have odd : data.length / 2 * 2 < data.length := (List.getElem?_eq_some_iff.mp found).1
    simp only [List.mem_cons, List.not_mem_nil, or_false] at member
    rcases member with rfl | rfl
    · exact front
    · exact ⟨by omega, by simp only [List.length_cons, List.length_nil]; omega⟩
  next =>
    rw [List.mem_singleton.mp member]
    exact front

theorem commit_within {record : Record} (low : start ≤ record.offset)
    (high : record.offset + headerSize ≤ stop) :
    ∀ command ∈ commit record, command.Within start stop := by
  simp only [headerSize] at high
  intro command member
  simp only [commit, List.mem_cons, List.not_mem_nil, or_false] at member
  rcases member with rfl | rfl
  · exact ⟨Nat.le_add_right_of_le low, by
      simp only [length_halfwordBytes, Record.sizeField]; omega⟩
  · exact ⟨low, by simp only [length_halfwordBytes, Record.parameterField]; omega⟩

/-- A copy that ends in an even place has room for the byte that fills it up. -/
theorem copy_within {record : Record} {position : Nat} (low : start ≤ position)
    (even : position % 2 = 0) (evenStop : stop % 2 = 0)
    (room : position + headerSize + record.size.toNat ≤ stop) :
    ∀ command ∈ copy record position, command.Within start stop := by
  simp only [headerSize] at room
  intro command member
  rcases List.mem_append.mp member with body | header
  · exact transfers_within (by omega) (by simp only [headerSize]; omega) command body
  · exact commit_within low (show position + headerSize ≤ stop by simp only [headerSize]; omega)
      command header

end Command

namespace Chip

/-- What a call may have made of `origin`: no cell has changed but those from `start` to `stop`. -/
structure Confined (origin : Chip) (start stop : Nat) (chip : Chip) : Prop where
  keeps : origin.Keeps chip
  same : SameOutside origin.cell chip.cell start stop

variable {origin chip after : Chip} {start stop : Nat}

theorem Confined.refl (origin : Chip) : origin.Confined start stop origin := ⟨.refl origin, .rfl⟩

theorem Confined.step {first last : Nat} (confined : origin.Confined start stop chip)
    (keeps : chip.Keeps after) (same : SameOutside chip.cell after.cell first last)
    (low : start ≤ first) (high : last ≤ stop) : origin.Confined start stop after :=
  ⟨confined.keeps.trans keeps, confined.same.trans (same.mono low high)⟩

theorem Confined.mono {low high : Nat} (confined : origin.Confined start stop chip)
    (below : low ≤ start) (above : stop ≤ high) : origin.Confined low high chip :=
  ⟨confined.keeps, confined.same.mono below above⟩

theorem length_read (chip : Chip) (address length : Nat) :
    (chip.read address length).length = length := by
  unfold read
  split
  · split <;> simp
  · simp

end Chip

/-- From `origin` on, the call does not overflow and changes no cell but those from `start` to `stop`,
whether it succeeds or not. -/
abbrev Action.StaysIn {ε α : Type} (action : Action ε α) (origin : Chip) (start stop : Nat) : Prop :=
  action.Ensures origin (fun _ => origin.Confined start stop) fun _ => origin.Confined start stop

theorem Action.StaysIn.mono {ε α : Type} {action : Action ε α} {origin : Chip}
    {start stop low high : Nat} (stays : action.StaysIn origin start stop) (below : low ≤ start)
    (above : stop ≤ high) : action.StaysIn origin low high :=
  Ensures.mono stays (fun _ _ confined => confined.mono below above)
    fun _ _ confined => confined.mono below above

theorem Action.StaysIn.after {ε α : Type} {action : Action ε α} {origin : Chip} {start stop : Nat}
    (stays : action.StaysIn origin start stop) : origin.Confined start stop (action.after origin) :=
  Ensures.always stays (origin.Confined start stop) (fun _ _ kept => kept) fun _ _ kept => kept

theorem Region.length_of_read {region : Region} {chip : Chip} {offset length : Nat} {bytes : Bytes}
    (found : region.read chip offset length = .ok bytes) : bytes.length = length := by
  unfold Region.read at found
  cases address : region.address offset length with
  | ok place =>
    rw [address] at found
    cases found
    exact chip.length_read place length
  | error failure =>
    rw [address] at found
    cases found

namespace Store

variable {store : Store} {origin chip : Chip} {start stop : Nat} {log : Log} {id : SegmentId}
  {parameter : UInt16} {data : Bytes}

theorem segment_stop_le (store : Store) (id : SegmentId) :
    (store.segment id).stop ≤ store.layout.totalSize := by
  cases id <;> simp only [segment, Layout.segment, Layout.totalSize] <;> omega

theorem eraseCommand_within (store : Store) (id : SegmentId) :
    (store.eraseCommand id).Within 0 store.layout.totalSize :=
  ⟨Nat.zero_le _, store.segment_stop_le id⟩

theorem Mounted.markCommand_within (mounted : store.Mounted chip) (id : SegmentId) :
    (store.markCommand id).Within 0 store.layout.totalSize :=
  ⟨Nat.zero_le _, Nat.le_trans (mounted.placed id).firstRecord_le (store.segment_stop_le id)⟩

theorem Holds.invalidate_within (holds : store.Holds chip.cell log) (mounted : store.Mounted chip)
    {record : Record} (member : record ∈ log.records) :
    (Command.invalidate record).Within log.segment.firstRecord log.segment.stop := by
  obtain ⟨low, high⟩ := holds.linked.bounds member
  have header := record.offset_lt_next
  have bounds := holds.tail_le mounted
  simp only [headerSize] at header
  exact ⟨low, by simp only [length_halfwordBytes, Record.parameterField]; omega⟩

/-- A log that takes a record has room for it before the end of its segment. -/
theorem Holds.append_within (holds : store.Holds chip.cell log) (mounted : store.Mounted chip)
    (short : data.length ≤ maxPayload) (takes : log.Takes chip.cell (.ofNat data.length))
    (parameter : UInt16) :
    ∀ command ∈ Command.append log parameter data,
      command.Within log.segment.firstRecord log.segment.stop := by
  have low := (holds.tail_le mounted).1
  have length : (log.fresh parameter data).size.toNat = data.length := size_ofNat_toNat short
  have wide : (log.fresh parameter data).dataOffset + (padded data).length ≤ log.segment.stop :=
    Nat.le_trans (Record.padded_le_next _ (holds.even mounted).1 (by rw [length, length_padded]))
      takes.fits
  intro command member
  simp only [Command.append, List.mem_append, List.mem_map] at member
  rcases member with (body | header) | ⟨record, copy, rfl⟩
  · exact Command.payload_within (Nat.le_add_right_of_le low) wide command body
  · exact Command.commit_within low (Nat.le_trans (log.fresh parameter data).offset_lt_next takes.fits)
      command header
  · exact holds.invalidate_within mounted (Log.mem_copies copy)

theorem copyRecord_of_long {record : Record} {stop position : Nat}
    (fits : position + headerSize + record.size.toNat < 0x100000000)
    (long : stop < position + headerSize + record.size.toNat) :
    store.copyRecord stop record position = .fail .corrupt := by
  rw [copyRecord, Attempt.fit_of_lt fits]
  exact if_pos long

theorem copyRecord_of_room {record : Record} {stop position : Nat}
    (fits : position + headerSize + record.size.toNat < 0x100000000)
    (room : position + headerSize + record.size.toNat ≤ stop) :
    store.copyRecord stop record position = store.run (Command.copy record position) := by
  rw [copyRecord, Attempt.fit_of_lt fits]
  exact if_neg (Nat.not_lt.mpr room)

theorem nextOffset_le_of_room {size : UInt16} {stop position : Nat}
    (room : position + headerSize + size.toNat ≤ stop) : nextOffset position size ≤ stop + 3 := by
  simp only [nextOffset]
  omega

section Plans

variable (mounted : store.Mounted origin)

include mounted

theorem regionWrite_confined {offset : Nat} {bytes : Bytes} (low : start ≤ offset)
    (high : offset + bytes.length ≤ stop) :
    (store.region.write offset bytes).Safe (origin.Confined start stop) := by
  intro chip confined
  have onChip := mounted.onChip.keeps confined.keeps
  apply (Region.write_stops onChip offset bytes).mono
  · intro _ after done
    obtain ⟨keeps, -, cells⟩ := done
    exact confined.step keeps (cells ▸ sameOutside_overlay _ _ _) low high
  · intro cause after failed
    rcases failed with ⟨-, rfl⟩ | ⟨keeps, -, index, stopped⟩
    · exact confined
    · exact confined.step keeps stopped.sameOutside low high

theorem command_confined {command : Command} (within : command.Within start stop) :
    (command.run store.region).Safe (origin.Confined start stop) := by
  cases command with
  | write offset bytes => exact (regionWrite_confined mounted within.1 within.2).mapError
  | transfer source target length =>
    refine Action.Safe.mapError (Action.safe_observe_bind ?_ ?_)
    · intro chip confined
      exact (mounted.keeps confined.keeps).readRegion_ne_overflow source length
    · intro chip bytes _ found
      have length := Region.length_of_read found
      exact regionWrite_confined mounted within.1 (length ▸ within.2)
  | erase first last =>
    apply Action.Safe.mapError
    intro chip confined
    have remounted := mounted.keeps confined.keeps
    have word := (remounted.placed .a).word
    apply (Region.erase_stops remounted.onChip (by omega) first last).mono
    · intro _ after done
      obtain ⟨keeps, cells⟩ := done
      exact confined.step keeps (cells ▸ sameOutside_wipe _ _ _) within.1 within.2
    · intro cause after failed
      rcases failed with rfl | ⟨keeps, pages, inside, cells⟩
      · exact confined
      · exact confined.step keeps (cells ▸ sameOutside_wipe _ _ _) within.1
          (Nat.le_trans inside within.2)

theorem run_confined {commands : List Command}
    (within : ∀ command ∈ commands, command.Within start stop) :
    (store.run commands).Safe (origin.Confined start stop) := by
  induction commands with
  | nil => exact Action.safe_pure ()
  | cons command rest ih =>
    refine (command_confined mounted (within command (by simp))).bind fun _ => ?_
    exact ih fun other member => within other (by simp [member])

/-- A record that does not end before `limit` is refused. So packing goes on at most the padding of
one record behind `limit`, where even the longest record can still be tried. -/
theorem pack_confined {limit position : Nat} (low : start ≤ position) (high : limit ≤ stop)
    (even : position % 2 = 0) (evenLimit : limit % 2 = 0) (fits : limit + 65542 < 0x100000000)
    (bound : position ≤ limit + 3) (records : List Record) :
    (store.pack limit records position).Safe (origin.Confined start stop) := by
  induction records generalizing position with
  | nil => exact Action.safe_pure _
  | cons record rest ih =>
    have size := record.size.toNat_lt
    have ending : position + headerSize + record.size.toNat < 0x100000000 := by
      simp only [headerSize]
      omega
    rw [pack]
    by_cases long : limit < position + headerSize + record.size.toNat
    · rw [copyRecord_of_long ending long]
      exact Action.safe_fail _
    · have room := Nat.le_of_not_lt long
      have next : (tryNextOffset position record.size : Attempt StoreError Nat) = _ :=
        tryNextOffset_eq (by omega)
      have aligned := nextOffset_mod position record.size
      have copy := Command.copy_within low even evenLimit room
      rw [copyRecord_of_room ending room, next]
      refine (run_confined mounted fun command member =>
        (copy command member).mono (Nat.le_refl _) high).bind fun _ => ?_
      exact ih (Nat.le_trans low (le_nextOffset _ _)) (by omega) (nextOffset_le_of_room room)

theorem clearSpare_confined (id : SegmentId) :
    (store.clearSpare (store.segment id)).Safe (origin.Confined 0 store.layout.totalSize) := by
  refine Action.safe_observe_bind ?_ ?_
  · exact fun chip confined => (mounted.keeps confined.keeps).isBlank_ne_overflow id
  intro _ blank _ _
  split
  · exact Action.safe_pure _
  · refine (run_confined mounted ?_).bind fun _ => Action.safe_pure _
    simpa using store.eraseCommand_within id

theorem compact_confined : store.compact.Safe (origin.Confined 0 store.layout.totalSize) := by
  refine Action.safe_observe_bind ?_ ?_
  · exact fun chip confined => (mounted.keeps confined.keeps).active_ne_overflow
  intro chip source confined found
  obtain ⟨id, -, rfl⟩ := (mounted.keeps confined.keeps).active_of_eq found
  have placed := mounted.placed id.other
  have even := placed.stopWord
  refine Action.safe_observe_bind ?_ ?_
  · exact fun chip confined => (mounted.keeps confined.keeps).isInUse_ne_overflow _
  intro _ inUse _ _
  split
  · exact Action.safe_fail _
  simp only [segment_id]
  refine (clearSpare_confined mounted id.other).bind fun _ => ?_
  refine Action.safe_observe_bind ?_ ?_
  · exact fun chip confined => (mounted.keeps confined.keeps).logRead_ne_overflow id
  intro _ log _ _
  refine (pack_confined mounted (Nat.zero_le _) (store.segment_stop_le id.other)
    (mounted.firstRecord_even id.other) (by omega) placed.fits
    (Nat.le_add_right_of_le placed.firstRecord_le) _).bind fun _ => ?_
  refine (run_confined mounted ?_).bind fun _ => Action.safe_pure _
  simpa using ⟨mounted.markCommand_within id.other, store.eraseCommand_within id⟩

end Plans

/-- Append the value if the log takes it, or else do `full`. -/
def appendOr (store : Store) (parameter : UInt16) (data : Bytes) (full : Action StoreError Unit) :
    Action StoreError Unit := do
  match ← Action.observe (store.reserve · (.ofNat data.length)) with
  | some log => store.run (Command.append log parameter data)
  | none => full

/-- The write is legal, and the log in `segment` does not take its value, but an empty one would. -/
structure WantsRoom (store : Store) (chip : Chip) (parameter : UInt16) (data : Bytes)
    (segment : Segment) : Prop where
  valid : isValidParameter parameter = true
  short : data.length ≤ maxPayload
  full : store.reserve chip (.ofNat data.length) = .ok none
  active : store.active chip = .ok segment
  room : nextOffset segment.firstRecord (.ofNat data.length) ≤ segment.stop

/-- A write compacts if it wants room and the other segment is free for it. -/
def Compacts (store : Store) (chip : Chip) (parameter : UInt16) (data : Bytes) : Prop :=
  ∃ segment, store.WantsRoom chip parameter data segment ∧
    store.isInUse chip segment.id.other = .ok false

theorem write_eq_appendOr (store : Store) (valid : isValidParameter parameter = true)
    (short : data.length ≤ maxPayload) :
    store.write parameter data = store.appendOr parameter data (do
      store.makeRoom (.ofNat data.length)
      store.appendOr parameter data (.fail .tooLarge)) := by
  rw [write, if_neg (by simp [valid]), if_neg (Nat.not_lt.mpr short)]
  rfl

/-- Both segments can be in use after an interruption. Nothing is compacted then. -/
theorem compact_of_inUse {segment : Segment} (found : store.active chip = .ok segment)
    (inUse : store.isInUse chip segment.id.other = .ok true) :
    store.compact chip = (Action.fail .targetInUse : Action StoreError Migration) chip := by
  rw [compact, Action.observe_bind_eq found]
  simp only [segment_id]
  rw [Action.observe_bind_eq inUse, if_pos rfl]

theorem write_of_wantsRoom {segment : Segment} (mounted : store.Mounted chip)
    (wants : store.WantsRoom chip parameter data segment) :
    store.write parameter data chip = (do
      let _ ← store.compact
      store.appendOr parameter data (.fail .tooLarge) : Action StoreError Unit) chip := by
  obtain ⟨valid, short, full, found, room⟩ := wants
  obtain ⟨id, -, rfl⟩ := mounted.active_of_eq found
  have placed := mounted.placed id
  have moved : store.makeRoom (.ofNat data.length) chip =
      (do let _ ← store.compact : Action StoreError Unit) chip := by
    rw [makeRoom, Action.observe_bind_eq found, Action.observe_bind_eq
      (tryNextOffset_of_short placed.firstRecord_le placed.fits short), if_neg (Nat.not_lt.mpr room)]
  rw [write_eq_appendOr store valid short, appendOr, Action.observe_bind_eq full]
  exact (Action.bind_eq_of_eq moved _).trans (by simp only [bind_assoc, pure_bind])

/-- A write that wants room and finds both segments in use ends before it has begun, whatever faults
the chip has. -/
theorem WantsRoom.refused {segment : Segment} (wants : store.WantsRoom chip parameter data segment)
    (mounted : store.Mounted chip) (inUse : store.isInUse chip segment.id.other = .ok true) :
    store.write parameter data chip = (Action.fail .targetInUse : Action StoreError Unit) chip := by
  rw [write_of_wantsRoom mounted wants]
  exact Action.bind_eq_of_eq (compact_of_inUse wants.active inUse) _

/-- The range covers the log wherever the call may find it. -/
def Covers (store : Store) (origin : Chip) (start stop : Nat) : Prop :=
  ∀ chip log, origin.Confined start stop chip → store.Holds chip.cell log →
    start ≤ log.segment.firstRecord ∧ log.segment.stop ≤ stop

theorem covers_store (store : Store) (origin : Chip) :
    store.Covers origin 0 store.layout.totalSize := by
  intro chip log _ holds
  rw [holds.segment]
  exact ⟨Nat.zero_le _, store.segment_stop_le _⟩

/-- What happens in the log does not decide where it is. -/
theorem Mounted.active_of_confined (mounted : store.Mounted origin)
    (active : store.Active origin.cell id)
    (confined : origin.Confined (store.segment id).firstRecord (store.segment id).stop chip) :
    store.Active chip.cell id := by
  simpa only [Active, mounted.inUse_congr id confined.same] using active

theorem Mounted.covers_log (mounted : store.Mounted origin) (active : store.Active origin.cell id) :
    store.Covers origin (store.segment id).firstRecord (store.segment id).stop := by
  intro chip log confined holds
  rw [holds.segment, holds.active.unique (mounted.active_of_confined active confined)]
  exact ⟨Nat.le_refl _, Nat.le_refl _⟩

theorem makeRoom_confined (mounted : store.Mounted origin) (short : data.length ≤ maxPayload)
    (compaction : ∀ segment, store.active origin = .ok segment →
      nextOffset segment.firstRecord (.ofNat data.length) ≤ segment.stop →
      store.isInUse origin segment.id.other = .ok false →
      store.compact.Safe (origin.Confined start stop)) :
    (store.makeRoom (.ofNat data.length)).StaysIn origin start stop := by
  rcases store.active_or_unused origin.cell with ⟨id, active⟩ | unused
  · have found := mounted.active_eq active
    have placed := mounted.placed id
    apply Action.ensures_observe_bind found
    apply Action.ensures_observe_bind (tryNextOffset_of_short placed.firstRecord_le placed.fits short)
    split
    · exact Action.ensures_fail (.refl origin)
    next room =>
      suffices stays : store.compact.StaysIn origin start stop from
        stays.bind fun _ _ confined => Action.ensures_pure confined
      cases spare : decide (store.InUse origin.cell (store.segment id).id.other) with
      | true =>
        have refused := compact_of_inUse found ((mounted.isInUse_eq _).trans (congrArg _ spare))
        rw [Action.StaysIn, Action.Ensures, refused]
        exact .refl origin
      | false =>
        exact compaction _ found (Nat.le_of_not_lt room)
          ((mounted.isInUse_eq _).trans (congrArg _ spare)) origin (.refl origin)
  · exact Action.ensures_observe_bind_fail (mounted.active_of_unused unused) (.refl origin)

section Calls

variable (mounted : store.Mounted origin) (covers : store.Covers origin start stop)

include mounted covers

theorem appendOr_confined (short : data.length ≤ maxPayload) {full : Action StoreError Unit}
    (confined : origin.Confined start stop chip)
    (otherwise : store.reserve chip (.ofNat data.length) = .ok none →
      full.Ensures chip (fun _ => origin.Confined start stop) fun _ => origin.Confined start stop) :
    (store.appendOr parameter data full).Ensures chip (fun _ => origin.Confined start stop)
      fun _ => origin.Confined start stop := by
  have remounted := mounted.keeps confined.keeps
  rcases remounted.log_cases with ⟨log, holds⟩ | ⟨cause, failed, -⟩
  · obtain ⟨low, high⟩ := covers chip log confined holds
    rcases reserve_spec remounted holds short with ⟨reserved, takes⟩ | ⟨reserved, -⟩
    · apply Action.ensures_observe_bind reserved
      apply run_confined mounted _ chip confined
      intro command member
      exact (holds.append_within remounted short takes parameter command member).mono low high
    · exact Action.ensures_observe_bind reserved (otherwise reserved)
  · have refused : store.reserve chip (.ofNat data.length) = .fail cause := by
      rw [reserve, failed]
      rfl
    exact Action.ensures_observe_bind_fail refused confined

/-- Only a write that compacts reaches as far as a compaction. -/
theorem write_confined
    (compaction : store.Compacts origin parameter data →
      store.compact.Safe (origin.Confined start stop)) :
    (store.write parameter data).StaysIn origin start stop := by
  by_cases valid : isValidParameter parameter = true
  case neg =>
    rw [write, if_pos (by simpa using valid)]
    exact Action.ensures_fail (.refl origin)
  by_cases short : data.length ≤ maxPayload
  case neg =>
    rw [write, if_neg (by simp [valid]), if_pos (Nat.lt_of_not_le short)]
    exact Action.ensures_fail (.refl origin)
  rw [write_eq_appendOr store valid short]
  apply appendOr_confined mounted covers short (.refl origin)
  intro full
  refine (makeRoom_confined mounted short fun segment found room spare =>
    compaction ⟨segment, ⟨valid, short, full, found, room⟩, spare⟩).bind ?_
  intro _ chip confined
  exact appendOr_confined mounted covers short confined fun _ => Action.ensures_fail confined

theorem remove_confined (parameter : UInt16) :
    (store.remove parameter).StaysIn origin start stop := by
  unfold remove
  split
  · exact Action.ensures_fail (.refl origin)
  rcases mounted.log_cases with ⟨log, holds⟩ | ⟨cause, failed, -⟩
  · obtain ⟨low, high⟩ := covers origin log (.refl origin) holds
    apply Action.ensures_observe_bind (mounted.log_eq_ok_iff.mpr holds)
    split
    · exact Action.ensures_fail (.refl origin)
    apply run_confined mounted _ origin (.refl origin)
    intro command member
    obtain ⟨record, copy, rfl⟩ := List.mem_map.mp member
    exact (holds.invalidate_within mounted (Log.mem_copies copy)).mono low high
  · exact Action.ensures_observe_bind_fail failed (.refl origin)

end Calls

/-- Recovery works on the segment that does not count. -/
theorem Mounted.recover_confined (mounted : store.Mounted origin)
    (active : store.Active origin.cell id) :
    store.recover.StaysIn origin (store.segment id.other).start (store.segment id.other).stop := by
  apply (store.recover_ensures mounted active).mono
  · intro found after done
    obtain ⟨-, keeps, cells, -⟩ := done
    exact ⟨keeps, cells ▸ sameOutside_wipe _ _ _⟩
  · exact fun cause after balked => ⟨balked.keeps, balked.state.sameOutside⟩

namespace Mounted

variable (mounted : store.Mounted chip)

include mounted

theorem write_staysIn (parameter : UInt16) (data : Bytes) :
    (store.write parameter data).StaysIn chip 0 store.layout.totalSize :=
  write_confined mounted (store.covers_store chip) fun _ => compact_confined mounted

theorem remove_staysIn (parameter : UInt16) :
    (store.remove parameter).StaysIn chip 0 store.layout.totalSize :=
  remove_confined mounted (store.covers_store chip) parameter

theorem compact_staysIn : store.compact.StaysIn chip 0 store.layout.totalSize :=
  compact_confined mounted chip (.refl chip)

theorem recover_staysIn : store.recover.StaysIn chip 0 store.layout.totalSize := by
  rcases store.active_or_unused chip.cell with ⟨id, active⟩ | unused
  · exact (mounted.recover_confined active).mono (Nat.zero_le _) (store.segment_stop_le _)
  · apply Action.ensures_observe_bind (mounted.isInUse_eq .a)
    apply Action.ensures_observe_bind (mounted.isInUse_eq .b)
    simp only [unused, decide_false]
    exact Action.ensures_pure (.refl chip)

theorem format_staysIn : store.format.StaysIn chip 0 store.layout.totalSize := by
  refine run_confined mounted ?_ chip (.refl chip)
  simpa using ⟨store.eraseCommand_within .a, store.eraseCommand_within .b,
    mounted.markCommand_within .a⟩

end Mounted

/-- The cell belongs to no log. -/
def OutsideLog (store : Store) (chip : Chip) (index : Nat) : Prop :=
  ∀ segment, store.active chip = .ok segment → index < segment.firstRecord ∨ segment.stop ≤ index

theorem Mounted.covered (mounted : store.Mounted chip) {index : Nat}
    (outside : store.OutsideLog chip index) :
    ∃ start stop, store.Covers chip start stop ∧ (index < start ∨ stop ≤ index) := by
  rcases store.active_or_unused chip.cell with ⟨id, active⟩ | unused
  · exact ⟨_, _, mounted.covers_log active, outside _ (mounted.active_eq active)⟩
  · refine ⟨0, 0, fun other log confined holds => ?_, .inr (Nat.zero_le _)⟩
    have same : other.cell = chip.cell := funext fun place => confined.same place (.inr (Nat.zero_le _))
    exact absurd (same ▸ holds.active.1) (unused _)

/-- A value that the log did not take in place has moved it. -/
theorem Stored.active_other {cells new : Nat → UInt8} {grown : Log}
    (stored : store.Stored cells log parameter data new grown) (holds : store.Holds cells log)
    (mounted : store.Mounted chip) (valid : isValidParameter parameter = true)
    (short : data.length ≤ maxPayload) (full : ¬log.Takes cells (.ofNat data.length)) :
    store.Active new log.segment.id.other := by
  obtain ⟨entries, ready, -⟩ := stored.ready holds mounted valid short
  have active := ready.holds.active
  cases stored with
  | inPlace takes => exact absurd takes full
  | moved =>
    have id : ((store.relocated log).append parameter data).segment.id = log.segment.id.other :=
      store.segment_id _
    exact id ▸ active

/-- So has a write that was refused only after the log was compacted. -/
theorem Refused.active_other {cause : StoreError} {after : Chip}
    (refused : store.Refused chip log parameter data cause after) (holds : store.Holds chip.cell log)
    (mounted : store.Mounted chip) (valid : isValidParameter parameter = true)
    (short : data.length ≤ maxPayload)
    (room : nextOffset log.segment.firstRecord (.ofNat data.length) ≤ log.segment.stop)
    (unmarked : ¬store.InUse chip.cell log.segment.id.other) :
    store.Active after.cell log.segment.id.other := by
  cases refused with
  | reserved invalid => simp [valid] at invalid
  | tooLong _ long => exact absurd short (Nat.not_le_of_lt long)
  | hopeless _ _ small => exact absurd room (Nat.not_le_of_lt small)
  | occupied _ _ inUse => exact absurd inUse unmarked
  | crowded _ _ _ _ _ _ _ moved =>
    have id : (store.relocated log).segment.id = log.segment.id.other := store.segment_id _
    rw [moved, ← id]
    exact (holds.ready_compacted mounted).1.holds.active

theorem WantsRoom.holds {segment : Segment} (wants : store.WantsRoom chip parameter data segment)
    (mounted : store.Mounted chip) :
    ∃ log, store.Holds chip.cell log ∧ log.segment = segment ∧
      ¬log.Takes chip.cell (.ofNat data.length) := by
  rcases mounted.log_cases with ⟨log, holds⟩ | ⟨cause, failed, -⟩
  · have found := mounted.active_eq holds.active
    rw [wants.active, ← holds.segment] at found
    refine ⟨log, holds, (Except.ok.inj found).symm, ?_⟩
    rcases reserve_spec mounted holds wants.short with ⟨reserved, -⟩ | ⟨-, full⟩
    · cases wants.full.symm.trans reserved
    · exact full
  · have reserved := wants.full
    rw [reserve, failed] at reserved
    cases reserved

/-- Without faults nothing keeps a write that compacts from moving the log. -/
theorem Compacts.active_other (compacts : store.Compacts chip parameter data)
    (mounted : store.Mounted chip) (faultless : chip.Faultless) {segment : Segment}
    (found : store.active chip = .ok segment) :
    store.active ((store.write parameter data).after chip) =
      .ok (store.segment segment.id.other) := by
  obtain ⟨source, wants, spare⟩ := compacts
  obtain rfl := Except.ok.inj (wants.active.symm.trans found)
  obtain ⟨log, holds, rfl, full⟩ := wants.holds mounted
  have unmarked : ¬store.InUse chip.cell log.segment.id.other := by
    rw [mounted.isInUse_eq] at spare
    simpa using spare
  rcases (write_ensures mounted holds faultless.steady).outcome_cases with
    ⟨_, -, valid, short, keeps, grown, stored⟩ | ⟨cause, -, refused | interrupted⟩
  · exact (mounted.keeps keeps).active_eq (stored.active_other holds mounted valid short full)
  · have keeps := (refused.shows holds mounted).1
    exact (mounted.keeps keeps).active_eq
      (refused.active_other holds mounted wants.valid wants.short wants.room unmarked)
  · exact absurd faultless interrupted.faulty

/-- A write that does not compact leaves the log where it is, with or without faults. -/
theorem active_of_not_compacts (mounted : store.Mounted chip)
    (inPlace : ¬store.Compacts chip parameter data) {segment : Segment}
    (found : store.active chip = .ok segment) :
    store.active ((store.write parameter data).after chip) = .ok segment := by
  obtain ⟨id, active, rfl⟩ := mounted.active_of_eq found
  have confined := (write_confined mounted (mounted.covers_log active)
    fun compacts => absurd compacts inPlace).after
  exact (mounted.keeps confined.keeps).active_eq (mounted.active_of_confined active confined)

/-- How far calls reach. -/
structure Restrained (store : Store) (chip : Chip) : Prop where
  write : ∀ parameter data,
    chip.Confined 0 store.layout.totalSize ((store.write parameter data).after chip)
  remove : ∀ parameter, chip.Confined 0 store.layout.totalSize ((store.remove parameter).after chip)
  compact : chip.Confined 0 store.layout.totalSize (store.compact.after chip)
  recover : chip.Confined 0 store.layout.totalSize (store.recover.after chip)
  format : chip.Confined 0 store.layout.totalSize (store.format.after chip)
  /-- A removal changes the log only. -/
  removal : ∀ parameter index, store.OutsideLog chip index →
    ((store.remove parameter).after chip).cell index = chip.cell index
  /-- So does a write that does not compact. -/
  inPlace : ∀ parameter data, ¬store.Compacts chip parameter data → ∀ index,
    store.OutsideLog chip index →
      ((store.write parameter data).after chip).cell index = chip.cell index
  /-- One that finds no free segment to compact to is refused and changes nothing at all. -/
  refused : ∀ parameter data segment, store.WantsRoom chip parameter data segment →
    store.isInUse chip segment.id.other = .ok true →
      (store.write parameter data).outcome chip = .fail .targetInUse ∧
      (store.write parameter data).after chip = chip
  /-- Without faults, the writes that compact are those after which the log is in the other segment. -/
  compacting : chip.Faultless → ∀ parameter data segment, store.active chip = .ok segment →
    (store.Compacts chip parameter data ↔
      store.active ((store.write parameter data).after chip) =
        .ok (store.segment segment.id.other))
  /-- Recovery leaves the segment alone that counts. -/
  recovery : ∀ segment, store.active chip = .ok segment →
    SameIn chip.cell (store.recover.after chip).cell segment.start segment.stop

/-- Whatever the cells hold and however the chip fails, no call reaches further than it has to. -/
theorem calls_restrained (mounted : store.Mounted chip) : store.Restrained chip where
  write parameter data := (mounted.write_staysIn parameter data).after
  remove parameter := (mounted.remove_staysIn parameter).after
  compact := mounted.compact_staysIn.after
  recover := mounted.recover_staysIn.after
  format := mounted.format_staysIn.after
  removal parameter index outside := by
    obtain ⟨start, stop, covers, away⟩ := mounted.covered outside
    exact (remove_confined mounted covers parameter).after.same index away
  inPlace parameter data inPlace index outside := by
    obtain ⟨start, stop, covers, away⟩ := mounted.covered outside
    exact (write_confined mounted covers fun compacts => absurd compacts inPlace).after.same index away
  refused parameter data segment wants inUse := by
    have run := wants.refused mounted inUse
    constructor
    · rw [Action.outcome, run]
      rfl
    · rw [Action.after, run]
      rfl
  compacting faultless parameter data segment found := by
    refine ⟨fun compacts => compacts.active_other mounted faultless found, fun moved => ?_⟩
    by_contra inPlace
    have same := moved.symm.trans (active_of_not_compacts mounted inPlace found)
    have ids : segment.id.other = segment.id := by
      simpa only [segment_id] using congrArg Segment.id (Except.ok.inj same)
    cases side : segment.id <;> simp [side, SegmentId.other] at ids
  recovery segment found := by
    obtain ⟨id, active, rfl⟩ := mounted.active_of_eq found
    exact (mounted.recover_confined active).after.same.sameIn (store.segments_apart id)

/-- The sample with few mutations left, a protected page, a controller that hangs and a bit flip
due. -/
def frailChip : Chip := sampleChip.withFaults ⟨2, some 3, true, true⟩

/-- Both segments are in use, and the log is full. -/
def twinChip : Chip where
  base := 0
  pageSize := 16
  faults := ⟨2, some 3, true, true⟩
  memory := #[0xA5, 0x5A, 7, 0, 1, 0, 0x11, 0xFF] ++ Array.replicate 8 erasedByte ++
    #[0xA5, 0x5A] ++ Array.replicate 14 erasedByte

theorem twinChip_holds : small.Holds twinChip.cell ⟨small.segment .a, [⟨⟨7, 1⟩, 2⟩], 8⟩ where
  segment := rfl
  active := by decide
  linked := ⟨rfl, ⟨by decide, by decide, by decide, by decide⟩, rfl⟩
  ends := .inr (by decide)

theorem small_wantsRoom (mounted : small.Mounted chip)
    (holds : small.Holds chip.cell ⟨small.segment .a, [⟨⟨7, 1⟩, 2⟩], 8⟩) :
    small.WantsRoom chip 7 [1, 2, 3, 4, 5] (small.segment .a) := by
  have short : ([1, 2, 3, 4, 5] : Bytes).length ≤ maxPayload := by decide
  rcases reserve_spec mounted holds short with ⟨-, takes⟩ | ⟨reserved, -⟩
  · exact absurd takes.fits (by decide)
  · exact ⟨rfl, short, reserved, mounted.active_eq holds.active, by decide⟩

/-- A removal and a write in place on a chip that fails; a write that is refused because both segments
are in use, on a chip that fails; and one that is refused only after it has compacted. -/
theorem calls_restrained_sample :
    (sample.Mounted frailChip ∧ sample.Restrained frailChip ∧
      ((sample.remove 7).after frailChip).cell 34 = 0xDE ∧
      ((sample.write 9 [0x55]).after frailChip).cell 34 = 0xDE) ∧
    (small.Mounted twinChip ∧
      (small.write 7 [1, 2, 3, 4, 5]).outcome twinChip = .fail .targetInUse ∧
      (small.write 7 [1, 2, 3, 4, 5]).after twinChip = twinChip ∧
      ((small.write 7 [1, 2, 3, 4, 5]).after twinChip).cell 16 = 0xA5) ∧
    small.Mounted fullChip ∧ fullChip.Faultless ∧ small.active fullChip = .ok (small.segment .a) ∧
      small.active ((small.write 7 [1, 2, 3, 4, 5]).after fullChip) = .ok (small.segment .b) := by
  have mounted : sample.Mounted frailChip := sample_mounted.withFaults _
  have restrained := calls_restrained mounted
  have outside : sample.OutsideLog frailChip 34 := by
    intro segment found
    cases found.symm.trans (mounted.active_eq sample_holds.active)
    exact .inr (by decide)
  have inPlace : ¬sample.Compacts frailChip 9 [0x55] := by
    rintro ⟨segment, wants, -⟩
    obtain ⟨log, holds, -, full⟩ := wants.holds mounted
    cases (mounted.log_eq_ok_iff.mpr holds).symm.trans (mounted.log_eq_ok_iff.mpr sample_holds)
    have blank : ∀ index < 32, 24 ≤ index → frailChip.cell index = erasedByte := by decide
    exact full ⟨by decide, fun index low high => blank index high low⟩
  have twin : small.Mounted twinChip := ⟨rfl, by decide, rfl, by decide, by decide⟩
  have inUse : small.isInUse twinChip .b = .ok true := rfl
  have wants := small_wantsRoom twin twinChip_holds
  have blocked : ¬small.Compacts twinChip 7 [1, 2, 3, 4, 5] := by
    rintro ⟨segment, other, spare⟩
    cases other.active.symm.trans wants.active
    cases spare.symm.trans inUse
  have away : small.OutsideLog twinChip 16 := by
    intro segment found
    cases found.symm.trans wants.active
    exact .inr (by decide)
  obtain ⟨outcome, after⟩ := (calls_restrained twin).refused _ _ _ wants inUse
  have crowded := small_wantsRoom fullChip_mounted fullChip_holds
  have moved := ((calls_restrained fullChip_mounted).compacting rfl _ _ _ crowded.active).mp
    ⟨_, crowded, rfl⟩
  exact ⟨⟨mounted, restrained, restrained.removal 7 34 outside,
      restrained.inPlace 9 [0x55] inPlace 34 outside⟩,
    ⟨twin, outcome, after, (calls_restrained twin).inPlace _ _ blocked 16 away⟩,
    fullChip_mounted, rfl, crowded.active, moved⟩

end Store

end ParamStore
