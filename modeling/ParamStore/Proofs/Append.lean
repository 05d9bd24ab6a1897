import ParamStore.Proofs.Burial
import ParamStore.Store.Update

/-! Setting a value where there is room for it, and removing one. The new record counts from the moment
its parameter is programmed, and the old ones die after that, so whatever interrupts the plan, the
parameter has its old value or its new one. -/
namespace ParamStore

/-- The log with one record more. -/
def Log.push (log : Log) (record : Record) : Log :=
  { log with records := log.records ++ [record], tail := record.next }

/-- The record that a new value of `parameter` becomes. -/
def Log.fresh (log : Log) (parameter : UInt16) (data : Bytes) : Record :=
  ⟨⟨parameter, .ofNat data.length⟩, log.tail⟩

/-- The cells after `parameter` was given a new value at the tail of the log. -/
def appended (cells : Nat → UInt8) (log : Log) (parameter : UInt16) (data : Bytes) : Nat → UInt8 :=
  clearParameters (inscribe cells (log.fresh parameter data) (padded data)) (log.copies parameter)

/-- The log that it then holds. -/
def Log.append (log : Log) (parameter : UInt16) (data : Bytes) : Log :=
  (log.push (log.fresh parameter data)).kill (log.copies parameter)

theorem Log.mem_copies {log : Log} {parameter : UInt16} {record : Record}
    (member : record ∈ log.copies parameter) : record ∈ log.records := (List.mem_filter.mp member).1

theorem Log.copies_push_fresh (log : Log) (parameter : UInt16) (data : Bytes) :
    (log.push (log.fresh parameter data)).copies parameter =
      log.copies parameter ++ [log.fresh parameter data] := by
  simp [copies, push, fresh]

theorem size_ofNat_toNat {length : Nat} (short : length ≤ maxPayload) :
    (UInt16.ofNat length).toNat = length := by
  simp only [maxPayload] at short
  rw [UInt16.toNat_ofNat']
  omega

theorem take_padded {data : Bytes} : (padded data).take data.length = data :=
  List.take_left

namespace Store

variable {store : Store} {chip : Chip} {cells : Nat → UInt8} {log : Log} {parameter : UInt16}
  {data : Bytes}

/-- A record inscribed at the tail is the last of the log. -/
theorem Ready.push {entries : List Entry} (ready : store.Ready cells log entries)
    (mounted : store.Mounted chip) {record : Record} {bytes : Bytes}
    (start : record.offset = log.tail) (written : record.parameter ≠ erasedHalfword)
    (sized : record.size ≠ erasedHalfword) (room : record.next ≤ log.segment.stop)
    (filled : bytes.length = (record.size.toNat + 1) / 2 * 2) :
    store.Ready (inscribe cells record bytes) (log.push record)
      (entries ++ [⟨record.parameter, bytes.take record.size.toNat⟩]) := by
  obtain ⟨holds, rfl, blank⟩ := ready
  have bounds := holds.tail_le mounted
  have even : record.offset % 2 = 0 := start ▸ (holds.even mounted).1
  have outside : SameOutside cells (inscribe cells record bytes) log.tail record.next := by
    rw [← start]
    exact (sameOutside_inscribe cells record bytes).mono (Nat.le_refl _)
      (record.padded_le_next even filled)
  have before : SameIn cells (inscribe cells record bytes) log.segment.firstRecord log.tail :=
    outside.sameIn (.inl (Nat.le_refl _))
  have behind : Blank (inscribe cells record bytes) record.next log.segment.stop :=
    (blank.mono (by have := record.offset_lt_next; omega) (Nat.le_refl _)).congr
      (outside.sameIn (.inr (Nat.le_refl _)))
  have stands : Stands (inscribe cells record bytes) log.segment.stop record :=
    ⟨headerIn_inscribe cells record bytes, written, sized,
      Nat.le_trans record.dataEnd_le_next room⟩
  refine ⟨⟨holds.segment, holds.active_congr mounted (outside.mono bounds.1 room), ?_,
    behind.endsAt⟩, ?_, behind⟩
  · exact Linked.append.mpr ⟨log.tail, holds.linked.congr before,
      linked_singleton.mpr ⟨start, stands, rfl⟩⟩
  · have payload := payloadIn_inscribe cells record bytes (by omega)
    rw [Log.push, entriesIn_append,
      entriesIn_congr fun other member => holds.linked.payload_congr before member]
    simp only [entriesIn, List.map_cons, List.map_nil, entryIn, payload]

theorem Ready.push_fresh {entries : List Entry} (ready : store.Ready cells log entries)
    (mounted : store.Mounted chip) (valid : isValidParameter parameter = true)
    (short : data.length ≤ maxPayload)
    (room : (log.fresh parameter data).next ≤ log.segment.stop) :
    store.Ready (inscribe cells (log.fresh parameter data) (padded data))
      (log.push (log.fresh parameter data)) (entries ++ [⟨parameter, data⟩]) := by
  have length : (log.fresh parameter data).size.toNat = data.length := size_ofNat_toNat short
  have sized : (log.fresh parameter data).size ≠ erasedHalfword := by
    intro erased
    rw [erased] at length
    simp only [maxPayload] at short
    have : erasedHalfword.toNat = 65535 := rfl
    omega
  have pushed := ready.push mounted rfl (isValidParameter_iff.mp valid).2 sized room
    (show (padded data).length = _ by rw [length, length_padded])
  rwa [length, take_padded] at pushed

/-- The new record lies behind all records of the log. -/
theorem Holds.fresh_not_mem (holds : store.Holds cells log) (parameter : UInt16) (data : Bytes) :
    log.fresh parameter data ∉ log.copies parameter := by
  intro member
  have := (holds.linked.bounds (Log.mem_copies member)).2
  have := (log.fresh parameter data).offset_lt_next
  simp only [Log.fresh, headerSize] at *
  omega

theorem Ready.append {entries : List Entry} (ready : store.Ready cells log entries)
    (mounted : store.Mounted chip) (valid : isValidParameter parameter = true)
    (short : data.length ≤ maxPayload)
    (room : (log.fresh parameter data).next ≤ log.segment.stop) :
    store.Ready (appended cells log parameter data) (log.append parameter data)
      (entries.map (Entry.bury parameter) ++ [⟨parameter, data⟩]) := by
  obtain ⟨holds, listed, blank⟩ := ready.push_fresh mounted valid short room
  have known (record : Record) (member : record ∈ log.copies parameter) :
      record ∈ (log.push (log.fresh parameter data)).records :=
    List.mem_append_left _ (Log.mem_copies member)
  have outside := holds.linked.sameOutside_clear known
  refine ⟨holds.kill mounted known, ?_, blank.congr (outside.sameIn (.inr (Nat.le_refl _)))⟩
  obtain ⟨middle, front, last⟩ := Linked.append.mp holds.linked
  have spared : (log.fresh parameter data).kill (log.copies parameter) = log.fresh parameter data :=
    if_neg (ready.holds.fresh_not_mem parameter data)
  have newest : payloadIn (appended cells log parameter data) (log.fresh parameter data) =
      payloadIn (inscribe cells (log.fresh parameter data) (padded data))
        (log.fresh parameter data) :=
    holds.linked.payload_clear known (by simp [Log.push])
  rw [Log.push, entriesIn_append] at listed
  obtain ⟨old, new⟩ := List.append_inj' listed (by simp [entriesIn])
  have older : entriesIn (appended cells log parameter data)
      (log.records.map (Record.kill (log.copies parameter))) =
        entries.map (Entry.bury parameter) := by
    rw [← old]
    exact front.entriesIn_kill parameter
  simp only [Log.append, Log.kill, Log.push, List.map_append, entriesIn_append, List.map_cons,
    List.map_nil, spared]
  rw [older, ← new]
  simp only [entriesIn, List.map_cons, List.map_nil, entryIn, newest]

/-- Appending changes nothing outside of the log. -/
theorem Holds.sameOutside_appended (holds : store.Holds cells log) (mounted : store.Mounted chip)
    (short : data.length ≤ maxPayload)
    (room : (log.fresh parameter data).next ≤ log.segment.stop) :
    SameOutside cells (appended cells log parameter data) log.segment.firstRecord
      log.segment.stop := by
  have bounds := holds.tail_le mounted
  have even := (holds.even mounted).1
  have length : (log.fresh parameter data).size.toNat = data.length := size_ofNat_toNat short
  have wide := Record.padded_le_next (log.fresh parameter data) even
    (show (padded data).length = _ by rw [length, length_padded])
  have inscribed := (sameOutside_inscribe cells (log.fresh parameter data) (padded data)).mono
    (show log.segment.firstRecord ≤ (log.fresh parameter data).offset from bounds.1)
    (Nat.le_trans wide room)
  refine inscribed.trans fun index away => clearParameters_apart fun record member => ?_
  have := holds.linked.bounds (Log.mem_copies member)
  have := record.offset_lt_next
  simp only [headerSize] at this
  omega

/-- The log without the records of a parameter. -/
theorem Ready.kill {entries : List Entry} (ready : store.Ready cells log entries)
    (mounted : store.Mounted chip) (parameter : UInt16) :
    store.Ready (clearParameters cells (log.copies parameter)) (log.kill (log.copies parameter))
      (entries.map (Entry.bury parameter)) := by
  obtain ⟨holds, rfl, blank⟩ := ready
  have known (record : Record) (member : record ∈ log.copies parameter) : record ∈ log.records :=
    Log.mem_copies member
  have outside := holds.linked.sameOutside_clear known
  exact ⟨holds.kill mounted known, holds.linked.entriesIn_kill parameter,
    blank.congr (outside.sameIn (.inr (Nat.le_refl _)))⟩

/-- While copies of a parameter die one after the other, it has its value until the last is dead. -/
theorem Holds.shows_kill (holds : store.Holds cells log) (mounted : store.Mounted chip)
    {dead alive : List Record} (copies : log.copies parameter = dead ++ alive) :
    store.Shows (clearParameters cells dead)
      (if alive = [] then (valueOf (entriesIn cells log.records)).drop parameter
      else valueOf (entriesIn cells log.records)) := by
  have known (record : Record) (member : record ∈ dead) : record ∈ log.records :=
    Log.mem_copies (copies ▸ List.mem_append_left alive member)
  exact ⟨log.kill dead, holds.kill mounted known, holds.linked.valueOf_kill copies⟩

theorem Holds.invalidate_ensures (holds : store.Holds chip.cell log) (mounted : store.Mounted chip)
    (steady : chip.faults.corruptNext = false) {targets : List Record}
    (known : ∀ record ∈ targets, record ∈ log.records) :
    (store.run (targets.map Command.invalidate)).Ensures chip
      (fun _ after => chip.Keeps after ∧ after.cell = clearParameters chip.cell targets)
      (chip.Interrupted fun cells =>
        ∃ dead alive, targets = dead ++ alive ∧ cells = clearParameters chip.cell dead) := by
  apply Command.invalidate_ensures mounted.onChip steady
  intro record member
  have inside := holds.inside mounted (known record member)
  have := record.offset_lt_next
  simp only [headerSize] at this
  exact ⟨(holds.even mounted).2 record (known record member), by omega⟩

/-- The first part of appending puts the new record behind the log. Interrupted without a wrong bit,
it has not touched the mark of the log's end, unless the controller hangs after the last half-word. -/
theorem inscribe_fresh_cases {entries : List Entry} (mounted : store.Mounted chip)
    (ready : store.Ready chip.cell log entries) (short : data.length ≤ maxPayload)
    (room : (log.fresh parameter data).next ≤ log.segment.stop) :
    (store.run (Command.payload (log.fresh parameter data).dataOffset data ++
      Command.commit (log.fresh parameter data))).Ensures chip
      (fun _ after => chip.Keeps after ∧
        after.cell = inscribe chip.cell (log.fresh parameter data) (padded data))
      (chip.Interrupted fun cells => chip.faults.corruptNext = false →
        SameOutside chip.cell cells (log.tail + 2) log.segment.stop ∨
        (cells = inscribe chip.cell (log.fresh parameter data) (padded data) ∧
          chip.faults.stuckBusy = true)) := by
  have length : (log.fresh parameter data).size.toNat = data.length := size_ofNat_toNat short
  have even := (ready.holds.even mounted).1
  have wide : (log.fresh parameter data).dataOffset + (padded data).length ≤
      (log.fresh parameter data).next :=
    Record.padded_le_next _ even (by rw [length, length_padded])
  have inside := (ready.holds.placed mounted).inside
  have payload : (Command.runAll store.region
      (Command.payload (log.fresh parameter data).dataOffset data)).Ensures chip _ _ :=
    Command.payload_ensures mounted.onChip
      (by simp only [Record.dataOffset, Log.fresh, headerSize]; omega) (by omega)
      (ready.blank.mono (by simp only [Record.dataOffset, Log.fresh]; omega) (by omega))
  apply (Command.inscribe_ensures mounted.onChip even
    (by simp only [Record.dataOffset] at wide; omega)
    (ready.blank.mono (Nat.le_refl _) (by simp only [Record.dataOffset] at wide; omega))
    payload).weaken
  intro cause after interrupted
  refine interrupted.mono fun cells same steady => (same.2 steady).imp_left fun before => ?_
  exact before.mono (Nat.le_refl _) (by omega)

/-- Without a wrong bit, an interruption leaves the old values, or the new ones if the controller
hangs. -/
theorem inscribe_fresh_ensures {entries : List Entry} (mounted : store.Mounted chip)
    (ready : store.Ready chip.cell log entries) (valid : isValidParameter parameter = true)
    (short : data.length ≤ maxPayload)
    (room : (log.fresh parameter data).next ≤ log.segment.stop)
    (steady : chip.faults.corruptNext = false) :
    (store.run (Command.payload (log.fresh parameter data).dataOffset data ++
      Command.commit (log.fresh parameter data))).Ensures chip
      (fun _ after => chip.Keeps after ∧
        after.cell = inscribe chip.cell (log.fresh parameter data) (padded data))
      (chip.Interrupted fun cells => store.Shows cells (valueOf entries) ∨
        (store.Shows cells ((valueOf entries).set parameter data) ∧
          chip.faults.stuckBusy = true)) := by
  have pushed := ready.push_fresh mounted valid short room
  apply (inscribe_fresh_cases mounted ready short room).weaken
  intro cause after interrupted
  refine interrupted.mono fun cells same => ?_
  rcases same steady with before | ⟨inscribed, stuck⟩
  · obtain ⟨holds, listed⟩ := ready.holds.congr_behind mounted before
    exact .inl ⟨log, holds, by rw [listed, ready.entries]⟩
  · rw [inscribed, ← valueOf_snoc _ _ valid]
    exact .inr ⟨pushed.shows, stuck⟩

/-- While the old copies die, the parameter has its new value. -/
theorem Ready.shows_superseded {entries : List Entry} (ready : store.Ready cells log entries)
    (mounted : store.Mounted chip) (valid : isValidParameter parameter = true)
    (short : data.length ≤ maxPayload)
    (room : (log.fresh parameter data).next ≤ log.segment.stop) {dead alive : List Record}
    (copies : log.copies parameter = dead ++ alive) :
    store.Shows (clearParameters (inscribe cells (log.fresh parameter data) (padded data)) dead)
      ((valueOf entries).set parameter data) := by
  have pushed := ready.push_fresh mounted valid short room
  -- The new record is never among the dead ones.
  have split : (log.push (log.fresh parameter data)).copies parameter =
      dead ++ (alive ++ [log.fresh parameter data]) := by
    rw [Log.copies_push_fresh, copies, List.append_assoc]
  have shown := pushed.holds.shows_kill mounted split
  rwa [if_neg (by simp), pushed.entries, valueOf_snoc _ _ valid] at shown

theorem Ready.copies_eq_nil_iff {entries : List Entry} (ready : store.Ready cells log entries)
    (valid : isValidParameter parameter = true) :
    log.copies parameter = [] ↔ valueOf entries parameter = none := by
  rw [← ready.entries, valueOf_entriesIn _ _ valid, Option.map_eq_none_iff,
    List.getLast?_eq_none_iff, Log.copies]

/-- Appending leaves the new log; interrupted, it leaves the old values or the new ones. The new ones
are seen early only while an old value dies, or if the controller hangs. -/
theorem append_ensures {entries : List Entry} (mounted : store.Mounted chip)
    (ready : store.Ready chip.cell log entries) (valid : isValidParameter parameter = true)
    (short : data.length ≤ maxPayload)
    (room : (log.fresh parameter data).next ≤ log.segment.stop)
    (steady : chip.faults.corruptNext = false) :
    (store.run (Command.append log parameter data)).Ensures chip
      (fun _ after => chip.Keeps after ∧ after.cell = appended chip.cell log parameter data)
      (chip.Interrupted fun cells => store.Shows cells (valueOf entries) ∨
        (store.Shows cells ((valueOf entries).set parameter data) ∧
          (chip.faults.stuckBusy = true ∨ valueOf entries parameter ≠ none))) := by
  have pushed := ready.push_fresh mounted valid short room
  apply Command.ensures_append
  · apply (inscribe_fresh_ensures mounted ready valid short room steady).weaken
    intro cause after interrupted
    exact interrupted.mono fun cells shown => shown.imp_right fun new => ⟨new.1, .inl new.2⟩
  · intro middle done
    obtain ⟨keeps, cells⟩ := done
    by_cases none : log.copies parameter = []
    · rw [none]
      refine Action.ensures_pure ⟨keeps, ?_⟩
      rw [cells, appended, none, clearParameters_nil]
    rw [← cells] at pushed
    have known (record : Record) (member : record ∈ log.copies parameter) :
        record ∈ (log.push (log.fresh parameter data)).records :=
      List.mem_append_left _ (Log.mem_copies member)
    apply (pushed.holds.invalidate_ensures (mounted.keeps keeps) (keeps.steady steady) known).mono
    · intro _ after done
      obtain ⟨kept, final⟩ := done
      exact ⟨keeps.trans kept, by rw [final, cells]; rfl⟩
    · intro cause after interrupted
      refine .since keeps (interrupted.mono ?_)
      intro final done
      obtain ⟨dead, alive, copies, rfl⟩ := done
      rw [cells]
      exact .inr ⟨ready.shows_superseded mounted valid short room copies,
        .inr (mt (ready.copies_eq_nil_iff valid).mpr none)⟩

/-- Removing leaves none of the records of a parameter alive; interrupted, it leaves the old values
or the new ones. -/
theorem remove_ensures (mounted : store.Mounted chip) (holds : store.Holds chip.cell log)
    (steady : chip.faults.corruptNext = false) :
    (store.remove parameter).Ensures chip
      (fun _ after => isValidParameter parameter = true ∧ log.copies parameter ≠ [] ∧
        chip.Keeps after ∧ after.cell = clearParameters chip.cell (log.copies parameter))
      (fun cause after =>
        (cause = .invalidParameter ∧ isValidParameter parameter = false ∧ after = chip) ∨
        (cause = .notFound ∧ isValidParameter parameter = true ∧ log.copies parameter = [] ∧
          after = chip) ∨
        chip.Interrupted (fun cells => store.Shows cells (valueOf (entriesIn chip.cell log.records)) ∨
          store.Shows cells ((valueOf (entriesIn chip.cell log.records)).drop parameter))
          cause after) := by
  unfold remove
  by_cases valid : isValidParameter parameter = true
  · rw [if_neg (by simp [valid])]
    apply Action.ensures_observe_bind (mounted.log_eq_ok_iff.mpr holds)
    by_cases none : log.copies parameter = []
    · rw [if_pos (by simp [none])]
      exact Action.ensures_fail (.inr (.inl ⟨rfl, valid, none, rfl⟩))
    · rw [if_neg (by simp [none])]
      apply (holds.invalidate_ensures mounted steady fun _ => Log.mem_copies).mono
      · intro _ after done
        exact ⟨valid, none, done⟩
      · intro cause after interrupted
        refine .inr (.inr (interrupted.mono ?_))
        intro cells done
        obtain ⟨dead, alive, copies, rfl⟩ := done
        have shown := holds.shows_kill mounted copies
        by_cases last : alive = []
        · rw [if_pos last] at shown
          exact .inr shown
        · rw [if_neg last] at shown
          exact .inl shown
  · rw [if_pos (by simp [valid])]
    exact Action.ensures_fail (.inl ⟨rfl, by simpa using valid, rfl⟩)

end Store

end ParamStore
