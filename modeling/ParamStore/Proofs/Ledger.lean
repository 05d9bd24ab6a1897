import ParamStore.Proofs.Atomicity
import ParamStore.Proofs.Refinement

/-! The books of a store. Which segment the log is in, and how much of it is taken up, is not among
the values of a store, but on a chip without faults it follows from the calls as the values do.
A ledger keeps the three together, and every call of the store is one step of its ledger. -/
namespace ParamStore

/-- The values, the segment in use, and the bytes that the log takes up in it. -/
structure Ledger where
  table : Table
  active : SegmentId
  used : Nat
  deriving DecidableEq, Repr

namespace Ledger

def empty : Ledger := ⟨[], .a, magicSize⟩

/-- The value fits behind the log as it is. -/
def Takes (capacity : Nat) (ledger : Ledger) (value : Bytes) : Prop :=
  nextOffset ledger.used (.ofNat value.length) ≤ capacity

instance (capacity : Nat) (ledger : Ledger) (value : Bytes) :
    Decidable (ledger.Takes capacity value) := inferInstanceAs (Decidable (_ ≤ _))

def put (ledger : Ledger) (parameter : UInt16) (value : Bytes) : Ledger :=
  { ledger with
    table := ledger.table.insert parameter value
    used := nextOffset ledger.used (.ofNat value.length) }

/-- Dead records keep their room. -/
def drop (ledger : Ledger) (parameter : UInt16) : Ledger :=
  { ledger with table := ledger.table.erase parameter }

/-- The values are packed in the other segment. -/
def move (ledger : Ledger) : Ledger :=
  ⟨ledger.table, ledger.active.other, packedEnd magicSize ledger.table.sizes⟩

/-- A value that does not fit moves the log first, unless an empty segment would not take it. -/
def write (capacity : Nat) (ledger : Ledger) (parameter : UInt16) (value : Bytes) : Ledger :=
  if isValidParameter parameter = true ∧ value.length ≤ maxPayload then
    if ledger.Takes capacity value then ledger.put parameter value
    else if empty.Takes capacity value then
      if ledger.move.Takes capacity value then ledger.move.put parameter value else ledger.move
    else ledger
  else ledger

def after (capacity : Nat) (ledger : Ledger) : Call → Ledger
  | .write parameter data => ledger.write capacity parameter data
  | .remove parameter => ledger.drop parameter
  | .compact => ledger.move
  | .recover => ledger

/-- The ledger is that of a log with these entries. Of every parameter at most one entry is alive,
so the live entries are the table. -/
structure Lists (ledger : Ledger) (log : Log) (entries : List Entry) : Prop where
  fresh : freshest entries = ledger.table
  alive : entries.filter (·.parameter != tombstone) = ledger.table
  active : log.segment.id = ledger.active
  used : log.used = ledger.used

end Ledger

theorem valid_of_mem_freshest {entries : List Entry} {entry : Entry}
    (member : entry ∈ freshest entries) : isValidParameter entry.parameter = true := by
  induction entries with
  | nil => cases member
  | cons head later ih =>
    rw [freshest] at member
    split at member
    next fresh =>
      rcases List.mem_cons.mp member with rfl | behind
      · exact fresh.1
      · exact ih behind
    next => exact ih member

theorem filter_bury (entries : List Entry) (parameter : UInt16) :
    (entries.map (Entry.bury parameter)).filter (·.parameter != tombstone) =
      (entries.filter (·.parameter != tombstone)).filter (·.parameter != parameter) := by
  induction entries with
  | nil => rfl
  | cons entry later ih =>
    by_cases same : entry.parameter = parameter
    · have dead : (entry.bury parameter).parameter = tombstone := by simp [Entry.bury, same]
      rw [List.map_cons, List.filter_cons_of_neg (by simp [dead]), ih]
      by_cases buried : entry.parameter = tombstone
      · rw [List.filter_cons_of_neg (by simp [buried])]
      · rw [List.filter_cons_of_pos (by simp [buried]), List.filter_cons_of_neg (by simp [same])]
    · have kept : entry.bury parameter = entry := by simp [Entry.bury, same]
      rw [List.map_cons, kept]
      by_cases buried : entry.parameter = tombstone
      · rw [List.filter_cons_of_neg (by simp [buried]), List.filter_cons_of_neg (by simp [buried]),
          ih]
      · rw [List.filter_cons_of_pos (by simp [buried]), List.filter_cons_of_pos (by simp [buried]),
          List.filter_cons_of_pos (by simp [same]), ih]

namespace Store

variable {store : Store} {chip after : Chip} {cells new : Nat → UInt8} {log grown : Log}
  {entries : List Entry} {ledger : Ledger} {parameter : UInt16} {data : Bytes}

/-- The chip works, the ledger is that of its log, and nothing but the log is on it. -/
structure Booked (store : Store) (chip : Chip) (ledger : Ledger) : Prop where
  mounted : store.Mounted chip
  faultless : chip.Faultless
  tidy : ∃ log entries, store.Ready chip.cell log entries ∧ ledger.Lists log entries ∧
    store.SpareBlank chip.cell log

theorem Booked.represents (booked : store.Booked chip ledger) :
    store.Represents chip ledger.table := by
  obtain ⟨mounted, faultless, log, entries, ready, lists, blank⟩ := booked
  exact ⟨mounted, faultless, log, entries, ready, lists.fresh, blank⟩

theorem Booked.valid (booked : store.Booked chip ledger) {entry : Entry}
    (member : entry ∈ ledger.table) : isValidParameter entry.parameter = true := by
  obtain ⟨log, entries, -, lists, -⟩ := booked.tidy
  exact valid_of_mem_freshest (lists.fresh ▸ member)

theorem Holds.tail_eq (holds : store.Holds cells log) (mounted : store.Mounted chip) :
    log.tail = log.segment.start + log.used := by
  have := (holds.tail_le mounted).1
  simp only [Segment.firstRecord] at this
  simp only [Log.used]
  omega

/-- All segments are alike. -/
theorem Mounted.room_iff (mounted : store.Mounted chip) (id : SegmentId) (used : Nat)
    (size : UInt16) :
    nextOffset ((store.segment id).start + used) size ≤ (store.segment id).stop ↔
      nextOffset used size ≤ store.layout.segmentSize := by
  rw [nextOffset_shift (mounted.placed id).startWord, store.segment_stop]
  omega

theorem Ready.takes_iff (ready : store.Ready cells log entries) (mounted : store.Mounted chip)
    (lists : ledger.Lists log entries) (data : Bytes) :
    log.Takes cells (.ofNat data.length) ↔ ledger.Takes store.layout.segmentSize data := by
  have room := mounted.room_iff log.segment.id log.used (.ofNat data.length)
  rw [← ready.holds.segment, ← ready.holds.tail_eq mounted, lists.used] at room
  exact ⟨fun takes => room.mp takes.fits, fun takes => ⟨room.mpr takes, ready.blank⟩⟩

theorem Holds.hopeful_iff (holds : store.Holds cells log) (mounted : store.Mounted chip)
    (data : Bytes) :
    nextOffset log.segment.firstRecord (.ofNat data.length) ≤ log.segment.stop ↔
      Ledger.empty.Takes store.layout.segmentSize data := by
  rw [holds.segment]
  exact mounted.room_iff log.segment.id magicSize _

theorem Ready.lists_append (ready : store.Ready cells log entries) (mounted : store.Mounted chip)
    (lists : ledger.Lists log entries) (valid : isValidParameter parameter = true) :
    (ledger.put parameter data).Lists (log.append parameter data)
      (entries.map (Entry.bury parameter) ++ [⟨parameter, data⟩]) where
  fresh := by
    rw [freshest_snoc _ _ valid, freshest_bury, List.filter_filter, lists.fresh]
    simp [Ledger.put, Table.insert, Table.erase]
  alive := by
    have named := (isValidParameter_iff.mp valid).1
    rw [List.filter_append, filter_bury, lists.alive]
    simp [Ledger.put, Table.insert, Table.erase, named]
  active := lists.active
  used := by
    have start : (log.append parameter data).segment.start = log.segment.start := rfl
    have tail : (log.append parameter data).tail = nextOffset log.tail (.ofNat data.length) := rfl
    rw [Log.used, start, tail, ready.holds.tail_eq mounted,
      nextOffset_shift (ready.holds.placed mounted).startWord, lists.used, Nat.add_sub_cancel_left,
      Ledger.put]

theorem lists_kill (lists : ledger.Lists log entries) (parameter : UInt16) :
    (ledger.drop parameter).Lists (log.kill (log.copies parameter))
      (entries.map (Entry.bury parameter)) where
  fresh := by
    rw [freshest_bury, lists.fresh]
    rfl
  alive := by
    rw [filter_bury, lists.alive]
    rfl
  active := lists.active
  used := lists.used

theorem Ready.lists_relocated (ready : store.Ready cells log entries)
    (mounted : store.Mounted chip) (lists : ledger.Lists log entries) :
    ledger.move.Lists (store.relocated log) (freshest entries) where
  fresh := by rw [freshest_idem, lists.fresh]; rfl
  alive := by
    have named (entry : Entry) (member : entry ∈ freshest entries) :
        (entry.parameter != tombstone) = true := by
      simpa using (isValidParameter_iff.mp (valid_of_mem_freshest member)).1
    rw [List.filter_eq_self.mpr named, lists.fresh]
    rfl
  active := by
    rw [relocated, spare, segment_id, lists.active]
    rfl
  used := by
    rw [Log.used, relocated, spare, Segment.firstRecord,
      packedEnd_shift (mounted.placed log.segment.id.other).startWord, Nat.add_sub_cancel_left,
      ready.holds.survivors_eq, ready.sizes_eq, lists.fresh, Ledger.move]

theorem Booked.keep (booked : store.Booked chip ledger) (keeps : chip.Keeps after)
    (ready : store.Ready after.cell grown entries) {next : Ledger}
    (lists : next.Lists grown entries) (blank : store.SpareBlank after.cell grown) :
    store.Booked after next :=
  ⟨booked.mounted.keeps keeps, keeps.faultless booked.faultless, grown, entries, ready, lists, blank⟩

/-- Compaction moves the books with the log. -/
theorem Booked.moved (booked : store.Booked chip ledger) (ready : store.Ready chip.cell log entries)
    (lists : ledger.Lists log entries) (keeps : chip.Keeps after)
    (cells : after.cell = store.compacted chip.cell log) : store.Booked after ledger.move := by
  have mounted := booked.mounted
  obtain ⟨readyAfter, -, -⟩ := ready.holds.ready_compacted mounted
  have blank := ready.holds.spareBlank_relocated mounted
  rw [ready.entries] at readyAfter
  rw [← cells] at readyAfter blank
  exact booked.keep keeps readyAfter (ready.lists_relocated mounted lists) blank

/-- A value goes behind the log, or behind the log that has moved. -/
theorem Booked.stored (booked : store.Booked chip ledger)
    (ready : store.Ready chip.cell log entries) (lists : ledger.Lists log entries)
    (blank : store.SpareBlank chip.cell log) (keeps : chip.Keeps after)
    (stored : store.Stored chip.cell log parameter data after.cell grown)
    (valid : isValidParameter parameter = true) (short : data.length ≤ maxPayload) :
    store.Booked after (ledger.write store.layout.segmentSize parameter data) := by
  have mounted := booked.mounted
  have spared := stored.spareBlank ready.holds mounted short blank
  have takes := ready.takes_iff mounted lists data
  have fits := stored.fits ready.holds mounted
  generalize new : after.cell = cells at stored spared
  rw [Ledger.write, if_pos ⟨valid, short⟩]
  cases stored with
  | inPlace room =>
    rw [if_pos (takes.mp room)]
    have appended := ready.append mounted valid short room.fits
    rw [← new] at appended spared
    exact booked.keep keeps appended (ready.lists_append mounted lists valid) spared
  | moved full unmarked room =>
    obtain ⟨packed, -, -⟩ := ready.holds.ready_compacted mounted
    rw [ready.entries] at packed
    have moved := ready.lists_relocated mounted lists
    have hopeful : Ledger.empty.Takes store.layout.segmentSize data := by
      apply (ready.holds.hopeful_iff mounted data).mp
      exact Nat.le_trans (nextOffset_mono (le_packedEnd _ _) _) fits
    rw [if_neg fun early => full (takes.mpr early), if_pos hopeful,
      if_pos ((packed.takes_iff mounted moved data).mp ⟨room, packed.blank⟩)]
    have appended := packed.append mounted valid short room
    rw [← new] at appended spared
    exact booked.keep keeps appended (packed.lists_append mounted moved valid) spared

/-- A refused write leaves the books as they were, or moved for nothing. -/
theorem Booked.refused (booked : store.Booked chip ledger)
    (ready : store.Ready chip.cell log entries) (lists : ledger.Lists log entries)
    (blank : store.SpareBlank chip.cell log) {cause : StoreError}
    (refused : store.Refused chip log parameter data cause after) :
    store.Booked after (ledger.write store.layout.segmentSize parameter data) := by
  have mounted := booked.mounted
  have takes := ready.takes_iff mounted lists data
  have hopeful := ready.holds.hopeful_iff mounted data
  rw [Ledger.write]
  cases refused with
  | reserved invalid => rwa [if_neg (by simp [invalid])]
  | tooLong _ long => rwa [if_neg (by omega)]
  | hopeless _ full small =>
    rw [if_neg fun early => full (takes.mpr early),
      if_neg fun room => Nat.not_le_of_lt small (hopeful.mpr room)]
    split <;> exact booked
  | occupied _ _ inUse => exact absurd inUse (blank.unmarked mounted)
  | crowded valid full _ short room packed keeps moved =>
    obtain ⟨compact, -, -⟩ := ready.holds.ready_compacted mounted
    rw [ready.entries] at compact
    have again := compact.takes_iff mounted (ready.lists_relocated mounted lists) data
    rw [if_pos ⟨valid, short⟩, if_neg fun early => full (takes.mpr early),
      if_pos (hopeful.mp room), if_neg fun fits => Nat.not_le_of_lt packed (again.mpr fits).fits]
    exact booked.moved ready lists keeps moved

theorem Booked.write_after (booked : store.Booked chip ledger) (parameter : UInt16) (data : Bytes) :
    store.Booked ((store.write parameter data).after chip)
      (ledger.write store.layout.segmentSize parameter data) := by
  obtain ⟨log, entries, ready, lists, blank⟩ := booked.tidy
  rcases (Store.write_ensures booked.mounted ready.holds booked.faultless.steady).outcome_cases with
    ⟨-, -, valid, short, keeps, grown, stored⟩ | ⟨cause, -, refused | interrupted⟩
  · exact booked.stored ready lists blank keeps stored valid short
  · exact booked.refused ready lists blank refused
  · exact absurd booked.faultless interrupted.faulty

theorem Booked.remove_after (booked : store.Booked chip ledger) (parameter : UInt16) :
    store.Booked ((store.remove parameter).after chip) (ledger.drop parameter) := by
  have mounted := booked.mounted
  obtain ⟨log, entries, ready, lists, blank⟩ := booked.tidy
  -- Nothing is dropped from a table without the parameter.
  have unchanged (missing : ∀ entry ∈ ledger.table, entry.parameter ≠ parameter) :
      ledger.drop parameter = ledger := by
    rw [Ledger.drop, Table.erase, List.filter_eq_self.mpr]
    intro entry member
    simpa using missing entry member
  rcases (Store.remove_ensures mounted ready.holds booked.faultless.steady).outcome_cases with
    ⟨-, -, -, -, keeps, cells⟩ | ⟨cause, -, ⟨-, invalid, same⟩ | ⟨-, -, none, same⟩ | interrupted⟩
  · have outside := ready.holds.linked.sameOutside_clear
      fun record (member : record ∈ log.copies parameter) => Log.mem_copies member
    have spared := blank.congr ready.holds
      (outside.mono (Nat.le_refl _) (ready.holds.tail_le mounted).2)
    have killed := ready.kill mounted parameter
    rw [← cells] at killed spared
    exact booked.keep keeps killed (lists_kill lists parameter) spared
  · rw [same, unchanged]
    · exact booked
    · intro entry member named
      simp [named ▸ booked.valid member] at invalid
  · rw [same, unchanged]
    · exact booked
    · intro entry member named
      have listed : entry ∈ entriesIn chip.cell log.records :=
        ready.entries ▸ (freshest_sublist entries).mem (lists.fresh ▸ member)
      obtain ⟨record, known, rfl⟩ := List.mem_map.mp listed
      have copy : record ∈ log.copies parameter :=
        List.mem_filter.mpr ⟨known, beq_iff_eq.mpr named⟩
      simp [none] at copy
  · exact absurd booked.faultless interrupted.faulty

theorem Booked.compact_after (booked : store.Booked chip ledger) :
    store.Booked (store.compact.after chip) ledger.move := by
  obtain ⟨log, entries, ready, lists, blank⟩ := booked.tidy
  rcases (Store.compact_ensures booked.mounted ready.holds
    booked.faultless.steady).outcome_cases with
    ⟨-, -, -, keeps, cells, -⟩ | ⟨cause, -, ⟨-, inUse, -⟩ | interrupted⟩
  · exact booked.moved ready lists keeps cells
  · exact absurd inUse (blank.unmarked booked.mounted)
  · exact absurd booked.faultless interrupted.faulty

/-- There is nothing to recover. -/
theorem Booked.recover_eq (booked : store.Booked chip ledger) :
    store.recover.outcome chip = .ok .clean ∧ store.recover.after chip = chip := by
  obtain ⟨log, entries, ready, lists, blank⟩ := booked.tidy
  rcases (Store.recover_ensures booked.mounted ready.holds.active).outcome_cases with
    ⟨found, outcome, reports, -, -, untouched⟩ | ⟨cause, -, interrupted⟩
  · cases reports with
    | duplicate inUse => exact absurd inUse (blank.unmarked booked.mounted)
    | clean => exact ⟨outcome, untouched rfl⟩
    | dirty _ remains => exact absurd blank remains
  · exact absurd booked.faultless interrupted.faulty

theorem Ready.countP_alive (ready : store.Ready cells log entries)
    (lists : ledger.Lists log entries) :
    log.records.countP (!·.isTombstone) = ledger.table.length := by
  rw [← lists.alive, ← ready.entries, entriesIn, List.filter_map, List.length_map,
    ← List.countP_eq_length_filter]
  rfl

/-- The numbers that the store tells are those of the ledger. -/
theorem Booked.stats_eq (booked : store.Booked chip ledger)
    (small : store.layout.segmentSize ≤ 0x40000) :
    ∃ tombstoned, store.stats chip = .ok
      { active := ledger.active
        used := ledger.used
        live := ledger.table.length
        tombstoned
        free := store.layout.segmentSize - ledger.used } := by
  have mounted := booked.mounted
  obtain ⟨log, entries, ready, lists, -⟩ := booked.tidy
  have tail := ready.holds.tail_eq mounted
  have bounds := ready.holds.tail_le mounted
  have stop := store.segment_stop log.segment.id
  rw [← ready.holds.segment] at stop
  have free : log.free = store.layout.segmentSize - ledger.used := by
    rw [Log.free, tail, stop, lists.used]
    omega
  refine ⟨log.records.countP (·.isTombstone), ?_⟩
  rw [mounted.stats_of_small ready.holds small, ready.countP_alive lists, lists.active, lists.used, free]

/-- A formatted store has empty books. -/
theorem Mounted.format_booked (mounted : store.Mounted chip) (faultless : chip.Faultless) :
    store.format.outcome chip = .ok () ∧ store.Booked (store.format.after chip) .empty := by
  rcases (Store.format_ensures mounted).outcome_cases with
    ⟨_, outcome, keeps, cells⟩ | ⟨cause, -, interrupted⟩
  · obtain ⟨ready, blank⟩ := Store.ready_formatted mounted chip.cell
    rw [← cells] at ready blank
    refine ⟨outcome, mounted.keeps keeps, keeps.faultless faultless, store.emptyLog, [], ready,
      ⟨rfl, rfl, rfl, ?_⟩, blank⟩
    rw [Log.used, emptyLog, Segment.firstRecord]
    exact Nat.add_sub_cancel_left ..
  · exact absurd faultless interrupted.faulty

end Store

variable {store : Store} {chip : Chip} {ledger : Ledger}

/-- One call is one step of the ledger. -/
theorem Call.booked_after (call : Call) (booked : store.Booked chip ledger) :
    store.Booked ((call.run store).after chip) (ledger.after store.layout.segmentSize call) := by
  cases call with
  | write parameter data => exact booked.write_after parameter data
  | remove parameter => exact booked.remove_after parameter
  | compact =>
    rw [run, Action.after_bind]
    split <;> exact booked.compact_after
  | recover =>
    rw [run, Action.after_bind, booked.recover_eq.2]
    split <;> exact booked

end ParamStore
