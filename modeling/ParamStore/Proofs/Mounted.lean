import ParamStore.Proofs.Entries
import ParamStore.Store.Basic

/-! A store on its chip. `Mounted` collects what a store needs to work at all, and under it each
question that the store asks has an answer, which the cells alone decide. -/
namespace ParamStore

theorem Blank.endsAt {cells : Nat → UInt8} {tail stop : Nat} (blank : Blank cells tail stop) :
    EndsAt cells stop tail := by
  by_cases short : stop < tail + headerSize
  · exact .inl short
  · simp only [headerSize] at short
    exact .inr (blank.halfwordIn (Nat.le_refl _) (by omega))

@[simp] theorem SegmentId.other_other (id : SegmentId) : id.other.other = id := by
  cases id <;> rfl

/-- What a store with these values answers to a read. -/
def Values.read (values : Values) (parameter : UInt16) (capacity : Nat) :
    Attempt StoreError Reading :=
  if isValidParameter parameter then
    match values parameter with
    | none => .fail .notFound
    | some value => .ok ⟨value.take capacity, capacity < value.length⟩
  else .fail .invalidParameter

/-- Occupancy of the segment that a log is in. -/
def Log.stats (log : Log) : Attempt StoreError Stats := do
  let tombstoned ← Attempt.fitHalfword (log.records.countP (·.isTombstone))
  let live ← Attempt.fitHalfword (log.records.countP (!·.isTombstone))
  return ⟨log.segment.id, log.used, live, tombstoned, log.free⟩

namespace Store

variable {store : Store} {chip : Chip} {cells new : Nat → UInt8} {log : Log}

/-- The store was created for such pages, they are of whole words, its region lies on the chip and
starts with it, and no record that the region can hold ends beyond the address range. -/
structure Mounted (store : Store) (chip : Chip) : Prop where
  created : create store.region chip.pageSize store.layout.segmentSize = .ok store
  aligned : chip.pageSize % 4 = 0
  base : chip.base = store.region.base
  within : store.region.length ≤ chip.size
  noWrap : store.region.base + store.region.length + 65542 < 0x100000000

/-- The segment consists of whole pages of the region. -/
structure Placed (segment : Segment) (region : Region) (pageSize : Nat) : Prop where
  startWord : segment.start % 4 = 0
  stopWord : segment.stop % 4 = 0
  startPage : segment.start % pageSize = 0
  stopPage : segment.stop % pageSize = 0
  room : segment.start + pageSize ≤ segment.stop
  word : 4 ≤ pageSize
  inside : segment.stop ≤ region.length
  fits : segment.stop + 65542 < 0x100000000

theorem create_ok {region : Region} {pageSize segmentSize : Nat}
    (created : create region pageSize segmentSize = .ok store) :
    segmentSize ≠ 0 ∧ pageSize ≠ 0 ∧ segmentSize % pageSize = 0 ∧
      segmentSize * 2 ≤ region.length := by
  unfold create Layout.fitting Attempt.fit at created
  by_cases refused : segmentSize = 0 ∨ pageSize = 0 ∨ segmentSize % pageSize ≠ 0
  · rw [if_pos refused] at created
    cases created
  rw [if_neg refused] at created
  by_cases small : Layout.totalSize ⟨segmentSize⟩ < 0x100000000
  · rw [if_pos small] at created
    dsimp only [bind, Except.bind] at created
    by_cases room : region.length < Layout.totalSize ⟨segmentSize⟩
    · rw [if_pos room] at created
      cases created
    · simp only [Layout.totalSize] at room
      omega
  · rw [if_neg small] at created
    cases created

namespace Mounted

theorem onChip (mounted : store.Mounted chip) : store.region.OnChip chip :=
  ⟨mounted.base, mounted.within, by have := mounted.noWrap; omega⟩

theorem keeps {after : Chip} (mounted : store.Mounted chip) (keeps : chip.Keeps after) :
    store.Mounted after :=
  ⟨keeps.pageSize ▸ mounted.created, keeps.pageSize ▸ mounted.aligned,
    keeps.base.trans mounted.base, keeps.size ▸ mounted.within, mounted.noWrap⟩

theorem placed (mounted : store.Mounted chip) (id : SegmentId) :
    Placed (store.segment id) store.region chip.pageSize := by
  obtain ⟨nonempty, paged, whole, room⟩ := create_ok mounted.created
  have noWrap := mounted.noWrap
  have aligned := mounted.aligned
  have words : store.layout.segmentSize % 4 = 0 :=
    Nat.mod_eq_zero_of_dvd
      (Nat.dvd_trans (Nat.dvd_of_mod_eq_zero aligned) (Nat.dvd_of_mod_eq_zero whole))
  have page : chip.pageSize ≤ store.layout.segmentSize :=
    Nat.le_of_dvd (by omega) (Nat.dvd_of_mod_eq_zero whole)
  have double : store.layout.segmentSize * 2 % chip.pageSize = 0 := by
    rw [Nat.mul_mod, whole, Nat.zero_mul, Nat.zero_mod]
  cases id
  · exact ⟨rfl, words, Nat.zero_mod _, whole, by simp [segment, Layout.segment, page], by omega,
      by simp only [segment, Layout.segment]; omega, by simp only [segment, Layout.segment]; omega⟩
  · exact ⟨words, by simp only [segment, Layout.segment, Layout.totalSize]; omega, whole, double,
      by simp only [segment, Layout.segment, Layout.totalSize]; omega, by omega, room,
      by simp only [segment, Layout.segment, Layout.totalSize]; omega⟩

theorem readFlash_eq (mounted : store.Mounted chip) {offset length : Nat}
    (inside : offset + length ≤ store.region.length) :
    store.readFlash chip offset length = .ok (bytesAt chip.cell offset length) := by
  rw [readFlash, mounted.onChip.read_eq inside, Attempt.mapError]

theorem isBlank_spec (mounted : store.Mounted chip) {start stop : Nat} (ordered : start ≤ stop)
    (inside : stop ≤ store.region.length) :
    ∃ blank, store.isBlank chip start (stop - start) = .ok blank ∧
      (blank = true ↔ Blank chip.cell start stop) := by
  obtain ⟨blank, found, correct⟩ := mounted.onChip.isBlank_spec
    (show start + (stop - start) ≤ store.region.length by omega)
  rw [Nat.add_sub_cancel' ordered] at correct
  exact ⟨blank, by rw [isBlank, found, Attempt.mapError], correct⟩

end Mounted

theorem segment_stop (store : Store) (id : SegmentId) :
    (store.segment id).stop = (store.segment id).start + store.layout.segmentSize := by
  cases id <;> simp [segment, Layout.segment, Layout.totalSize]; omega

@[simp] theorem segment_id (store : Store) (id : SegmentId) : (store.segment id).id = id := by
  cases id <;> rfl

theorem segments_apart (store : Store) (id : SegmentId) :
    (store.segment id).stop ≤ (store.segment id.other).start ∨
      (store.segment id.other).stop ≤ (store.segment id).start := by
  cases id <;> simp [segment, Layout.segment, SegmentId.other]

def InUse (store : Store) (cells : Nat → UInt8) (id : SegmentId) : Prop :=
  halfwordIn cells (store.segment id).start = inUseMagic

instance (store : Store) (cells : Nat → UInt8) (id : SegmentId) :
    Decidable (store.InUse cells id) := inferInstanceAs (Decidable (_ = _))

/-- The segment is the one that counts: the second one does only if the first is not in use. -/
def Active (store : Store) (cells : Nat → UInt8) (id : SegmentId) : Prop :=
  store.InUse cells id ∧ (id = .b → ¬store.InUse cells .a)

instance (store : Store) (cells : Nat → UInt8) (id : SegmentId) :
    Decidable (store.Active cells id) := inferInstanceAs (Decidable (_ ∧ (_ → _)))

theorem active_or_unused (store : Store) (cells : Nat → UInt8) :
    (∃ id, store.Active cells id) ∨ ∀ id, ¬store.InUse cells id := by
  by_cases first : store.InUse cells .a
  · exact .inl ⟨.a, first, by simp⟩
  by_cases second : store.InUse cells .b
  · exact .inl ⟨.b, second, fun _ => first⟩
  · refine .inr fun id => ?_
    cases id with
    | a => exact first
    | b => exact second

theorem Active.unique {id other : SegmentId} (first : store.Active cells id)
    (second : store.Active cells other) : id = other := by
  cases id with
  | a =>
    cases other with
    | a => rfl
    | b => exact absurd first.1 (second.2 rfl)
  | b =>
    cases other with
    | a => exact absurd second.1 (first.2 rfl)
    | b => rfl

theorem Mounted.isInUse_eq (mounted : store.Mounted chip) (id : SegmentId) :
    store.isInUse chip id = .ok (decide (store.InUse chip.cell id)) := by
  have placed := mounted.placed id
  have inside : (store.segment id).start + magicSize ≤ store.region.length := by
    have := placed.room
    have := placed.word
    have := placed.inside
    simp only [magicSize]
    omega
  have read := mounted.readFlash_eq inside
  simp only [isInUse, magic, read, bind, Except.bind, pure, Except.pure,
    halfwordOfBytes_bytesAt (Nat.le_refl magicSize), InUse]
  congr 1

theorem Mounted.active_eq (mounted : store.Mounted chip) {id : SegmentId}
    (active : store.Active chip.cell id) : store.active chip = .ok (store.segment id) := by
  simp only [Store.active, mounted.isInUse_eq, bind, Except.bind, pure, Except.pure]
  cases id with
  | a => simp [active.1]
  | b => simp [active.1, active.2 rfl]

theorem Mounted.active_of_eq (mounted : store.Mounted chip) {segment : Segment}
    (found : store.active chip = .ok segment) :
    ∃ id, store.Active chip.cell id ∧ segment = store.segment id := by
  simp only [Store.active, mounted.isInUse_eq, bind, Except.bind, pure, Except.pure] at found
  by_cases first : store.InUse chip.cell .a
  · simp only [first, decide_true, ↓reduceIte, Except.ok.injEq] at found
    exact ⟨.a, ⟨first, by simp⟩, found.symm⟩
  by_cases second : store.InUse chip.cell .b
  · simp only [first, second, decide_true, decide_false, Bool.false_eq_true, ↓reduceIte,
      Except.ok.injEq] at found
    exact ⟨.b, ⟨second, fun _ => first⟩, found.symm⟩
  · simp [first, second, Attempt.fail] at found

theorem Mounted.active_of_unused (mounted : store.Mounted chip)
    (unused : ∀ id, ¬store.InUse chip.cell id) : store.active chip = .fail .noStorage := by
  simp only [Store.active, mounted.isInUse_eq, bind, Except.bind, unused, decide_false,
    Bool.false_eq_true, ↓reduceIte]

/-- Only the first half-word of a segment tells whether it is in use. -/
theorem inUse_congr_magic {id : SegmentId}
    (same : SameIn cells new (store.segment id).start ((store.segment id).start + 2)) :
    store.InUse new id ↔ store.InUse cells id := by
  have magic : halfwordIn new (store.segment id).start = halfwordIn cells (store.segment id).start :=
    halfwordIn_congr (same _ (Nat.le_refl _) (by omega)) (same _ (by omega) (by omega))
  rw [InUse, InUse, magic]

theorem not_inUse_of_blank {id : SegmentId} {stop : Nat}
    (blank : Blank cells (store.segment id).start stop)
    (room : (store.segment id).start + 2 ≤ stop) : ¬store.InUse cells id := by
  rw [InUse, blank.halfwordIn (Nat.le_refl _) room]
  decide

/-- The cells hold the log: its segment counts, and its records stand in it up to the tail. -/
structure Holds (store : Store) (cells : Nat → UInt8) (log : Log) : Prop where
  segment : log.segment = store.segment log.segment.id
  active : store.Active cells log.segment.id
  linked : Linked cells log.segment.stop log.segment.firstRecord log.records log.tail
  ends : EndsAt cells log.segment.stop log.tail

theorem Placed.firstRecord_le {segment : Segment} {region : Region} {pageSize : Nat}
    (placed : Placed segment region pageSize) : segment.firstRecord ≤ segment.stop := by
  have := placed.room
  have := placed.word
  simp only [Segment.firstRecord, magicSize]
  omega

theorem Holds.placed (holds : store.Holds cells log) (mounted : store.Mounted chip) :
    Placed log.segment store.region chip.pageSize := holds.segment ▸ mounted.placed log.segment.id

/-- The other segment is before the log or behind it. -/
theorem Holds.apart (holds : store.Holds cells log) :
    log.segment.stop ≤ (store.segment log.segment.id.other).start ∨
      (store.segment log.segment.id.other).stop ≤ log.segment.start := by
  have apart := store.segments_apart log.segment.id
  rwa [← holds.segment] at apart

theorem Mounted.walk_eq (mounted : store.Mounted chip) (holds : store.Holds chip.cell log) :
    walk store.region chip log.segment.firstRecord log.segment.stop =
      ⟨log.records, .ok log.tail⟩ := by
  have placed := holds.placed mounted
  exact walk_of_linked mounted.onChip placed.inside placed.fits placed.stopWord
    placed.firstRecord_le holds.linked holds.ends

theorem Mounted.logRead_eq (mounted : store.Mounted chip) (holds : store.Holds chip.cell log) :
    Log.read store.region chip log.segment = .ok log := by
  simp only [Log.read, mounted.walk_eq holds, bind, Except.bind, pure, Except.pure]

theorem Mounted.log_eq_ok_iff (mounted : store.Mounted chip) :
    store.log chip = .ok log ↔ store.Holds chip.cell log := by
  constructor
  · intro found
    simp only [Store.log, Log.read, bind, Except.bind, pure, Except.pure] at found
    split at found
    · simp at found
    next segment activeFound =>
      obtain ⟨id, active, rfl⟩ := mounted.active_of_eq activeFound
      split at found
      · simp at found
      next tail ended =>
        have placed := mounted.placed id
        obtain ⟨linked, ends⟩ := linked_of_walk mounted.onChip placed.inside placed.fits
          placed.stopWord placed.firstRecord_le ended
        cases found
        exact ⟨by simp, by simpa using active, linked, ends⟩
  · intro holds
    have found := mounted.active_eq holds.active
    rw [← holds.segment] at found
    simp only [Store.log, found, bind, Except.bind]
    exact mounted.logRead_eq holds

/-- What a store finds on its chip: a log, no segment in use, or records that cannot be walked. -/
inductive Condition (store : Store) (chip : Chip) : Prop
  | works {log : Log} (holds : store.Holds chip.cell log)
  | unused (unused : ∀ id, ¬store.InUse chip.cell id)
  | corrupt {id : SegmentId} (active : store.Active chip.cell id)
    (broken : Log.read store.region chip (store.segment id) = .fail .corrupt)

theorem Mounted.condition (mounted : store.Mounted chip) : store.Condition chip := by
  rcases store.active_or_unused chip.cell with ⟨id, active⟩ | unused
  · have placed := mounted.placed id
    rcases walk_ending_cases mounted.onChip placed.inside placed.fits placed.firstRecord_le with
      ⟨tail, ended⟩ | broken
    · obtain ⟨linked, ends⟩ := linked_of_walk mounted.onChip placed.inside placed.fits
        placed.stopWord placed.firstRecord_le ended
      have holds : store.Holds chip.cell ⟨store.segment id, _, tail⟩ :=
        ⟨by simp, by simpa using active, linked, ends⟩
      exact .works holds
    · refine .corrupt active ?_
      simp only [Log.read, broken, bind, Except.bind, Attempt.fail]
  · exact .unused unused

/-- There is a log, or a cause why there is none, and it is not the flash. -/
theorem Mounted.log_cases (mounted : store.Mounted chip) :
    (∃ log, store.Holds chip.cell log) ∨
      ∃ cause, store.log chip = .fail cause ∧ cause.isHardware = false := by
  cases mounted.condition with
  | works holds => exact .inl ⟨_, holds⟩
  | unused unused =>
    refine .inr ⟨.noStorage, ?_, rfl⟩
    simp only [Store.log, mounted.active_of_unused unused, bind, Except.bind, Attempt.fail]
  | corrupt active broken =>
    refine .inr ⟨.corrupt, ?_, rfl⟩
    simp only [Store.log, mounted.active_eq active, bind, Except.bind, broken]

/-- Only the cells behind its magic decide what is read of a segment. -/
theorem Mounted.logRead_congr {other : Chip} (mounted : store.Mounted chip)
    (otherMounted : store.Mounted other) {id : SegmentId}
    (same : SameIn chip.cell other.cell (store.segment id).firstRecord (store.segment id).stop) :
    Log.read store.region other (store.segment id) =
      Log.read store.region chip (store.segment id) := by
  have headers := mounted.onChip.sameHeaders otherMounted.onChip (mounted.placed id).inside same
  rw [Log.read, Log.read, walk_congr headers]

/-- The value of `parameter`: the payload of its last record. -/
def value? (store : Store) (chip : Chip) (parameter : UInt16) : Option Bytes :=
  if isValidParameter parameter then
    match store.log chip with
    | .ok log => (log.latest? parameter).map (payloadIn chip.cell)
    | .error _ => none
  else none

theorem Mounted.value?_eq (mounted : store.Mounted chip) (holds : store.Holds chip.cell log) :
    store.value? chip = valueOf (entriesIn chip.cell log.records) := by
  funext parameter
  rw [value?, mounted.log_eq_ok_iff.mpr holds]
  by_cases valid : isValidParameter parameter = true
  · rw [if_pos valid, valueOf_entriesIn _ _ valid]
    rfl
  · rw [if_neg valid, valueOf_reserved (by simpa using valid)]

theorem Holds.tail_le (holds : store.Holds cells log) (mounted : store.Mounted chip) :
    log.segment.firstRecord ≤ log.tail ∧ log.tail ≤ log.segment.stop := by
  have placed := holds.placed mounted
  exact ⟨holds.linked.le, holds.linked.tail_le placed.stopWord placed.firstRecord_le⟩

theorem Holds.even (holds : store.Holds cells log) (mounted : store.Mounted chip) :
    log.tail % 2 = 0 ∧ ∀ record ∈ log.records, record.offset % 2 = 0 := by
  have placed := holds.placed mounted
  have := placed.startWord
  exact holds.linked.even (by simp only [Segment.firstRecord, magicSize]; omega)

/-- Every record of the log lies in the region. -/
theorem Holds.inside (holds : store.Holds cells log) (mounted : store.Mounted chip)
    {record : Record} (member : record ∈ log.records) : record.next ≤ store.region.length := by
  have placed := holds.placed mounted
  have := (holds.linked.bounds member).2
  have := (holds.tail_le mounted).2
  have := placed.inside
  omega

/-- A log outlives changes that leave the magics, its records and the mark of its end alone. -/
theorem Holds.congr (holds : store.Holds cells log)
    (magics : ∀ id, store.InUse new id ↔ store.InUse cells id)
    (same : SameIn cells new log.segment.firstRecord log.tail)
    (ends : EndsAt new log.segment.stop log.tail) : store.Holds new log where
  segment := holds.segment
  active := by simpa only [Active, magics] using holds.active
  linked := holds.linked.congr same
  ends := ends

/-- The magics are outside of the segments' logs. -/
theorem Mounted.inUse_congr (mounted : store.Mounted chip) (id : SegmentId)
    (same : SameOutside cells new (store.segment id).firstRecord (store.segment id).stop)
    (other : SegmentId) : store.InUse new other ↔ store.InUse cells other := by
  have room := (mounted.placed .a).room
  have word := (mounted.placed .a).word
  apply inUse_congr_magic
  apply same.sameIn
  cases id <;> cases other <;>
    simp only [segment, Layout.segment, Layout.totalSize, Segment.firstRecord, magicSize] at * <;>
    omega

/-- What happens within a log does not decide which segment counts. -/
theorem Holds.active_congr (holds : store.Holds cells log) (mounted : store.Mounted chip)
    (same : SameOutside cells new log.segment.firstRecord log.segment.stop) :
    store.Active new log.segment.id := by
  rw [holds.segment] at same
  simpa only [Active, mounted.inUse_congr _ same] using holds.active

/-- The store works, and these are its values. -/
def Shows (store : Store) (cells : Nat → UInt8) (values : Values) : Prop :=
  ∃ log, store.Holds cells log ∧ valueOf (entriesIn cells log.records) = values

/-- The segment in use is found, and its records are walked to their end. -/
def Clean (store : Store) (chip : Chip) : Prop := ∃ log, store.log chip = .ok log

theorem Mounted.shows_iff (mounted : store.Mounted chip) {values : Values} :
    store.Shows chip.cell values ↔ store.Clean chip ∧ store.value? chip = values := by
  constructor
  · intro done
    obtain ⟨log, holds, rfl⟩ := done
    exact ⟨⟨log, mounted.log_eq_ok_iff.mpr holds⟩, mounted.value?_eq holds⟩
  · intro done
    obtain ⟨⟨log, found⟩, rfl⟩ := done
    have holds := mounted.log_eq_ok_iff.mp found
    exact ⟨log, holds, (mounted.value?_eq holds).symm⟩

/-- Changing what is behind the mark of the end changes no value. -/
theorem Holds.congr_behind (holds : store.Holds cells log) (mounted : store.Mounted chip)
    (same : SameOutside cells new (log.tail + 2) log.segment.stop) :
    store.Holds new log ∧ entriesIn new log.records = entriesIn cells log.records := by
  have bounds := holds.tail_le mounted
  have before : SameIn cells new log.segment.firstRecord log.tail := same.sameIn (.inl (by omega))
  refine ⟨holds.congr (mounted.inUse_congr log.segment.id ?_) before ?_, ?_⟩
  · rw [← holds.segment]
    exact same.mono (by omega) (Nat.le_refl _)
  · exact holds.ends.congr (same.sameIn (.inl (Nat.le_refl _)))
  · exact entriesIn_congr fun record member => holds.linked.payload_congr before member

/-- The cells hold the log with these entries, and nothing is programmed behind it. -/
structure Ready (store : Store) (cells : Nat → UInt8) (log : Log) (entries : List Entry) : Prop where
  holds : store.Holds cells log
  entries : entriesIn cells log.records = entries
  blank : Blank cells log.tail log.segment.stop

theorem Ready.shows {entries : List Entry} (ready : store.Ready cells log entries) :
    store.Shows cells (valueOf entries) := ⟨log, ready.holds, by rw [ready.entries]⟩

/-- The log lies in its segment, and nothing is programmed behind it; whether the segment counts is
left open. -/
structure Laid (store : Store) (cells : Nat → UInt8) (log : Log) (entries : List Entry) : Prop where
  segment : log.segment = store.segment log.segment.id
  linked : Linked cells log.segment.stop log.segment.firstRecord log.records log.tail
  entries : entriesIn cells log.records = entries
  blank : Blank cells log.tail log.segment.stop

theorem Laid.ready {entries : List Entry} (laid : store.Laid cells log entries)
    (active : store.Active cells log.segment.id) : store.Ready cells log entries :=
  ⟨⟨laid.segment, active, laid.linked, laid.blank.endsAt⟩, laid.entries, laid.blank⟩

theorem Laid.congr {entries : List Entry} (laid : store.Laid cells log entries)
    (mounted : store.Mounted chip)
    (same : SameIn cells new log.segment.firstRecord log.segment.stop) :
    store.Laid new log entries := by
  have placed := mounted.placed log.segment.id
  rw [← laid.segment] at placed
  have bound := laid.linked.tail_le placed.stopWord placed.firstRecord_le
  have before := same.mono (Nat.le_refl _) bound
  exact ⟨laid.segment, laid.linked.congr before,
    laid.entries ▸ entriesIn_congr fun record member => laid.linked.payload_congr before member,
    laid.blank.congr (same.mono laid.linked.le (Nat.le_refl _))⟩

theorem Mounted.contains_eq (mounted : store.Mounted chip) (holds : store.Holds chip.cell log)
    (parameter : UInt16) :
    store.contains chip parameter =
      .ok (valueOf (entriesIn chip.cell log.records) parameter).isSome := by
  unfold contains
  by_cases valid : isValidParameter parameter = true
  · rw [if_neg (by simp [valid]), mounted.log_eq_ok_iff.mpr holds, valueOf_entriesIn _ _ valid,
      Option.isSome_map]
    rfl
  · rw [if_pos (by simp [valid]), valueOf_reserved (by simpa using valid)]
    rfl

theorem Mounted.read_eq (mounted : store.Mounted chip) (holds : store.Holds chip.cell log)
    {parameter : UInt16} (valid : isValidParameter parameter = true) (capacity : Nat) :
    store.read chip parameter capacity =
      match valueOf (entriesIn chip.cell log.records) parameter with
      | none => .fail .notFound
      | some value => .ok ⟨value.take capacity, capacity < value.length⟩ := by
  have latest : valueOf (entriesIn chip.cell log.records) parameter =
      (log.latest? parameter).map (payloadIn chip.cell) := valueOf_entriesIn _ _ valid
  unfold Store.read
  rw [if_neg (by simp [valid]), mounted.log_eq_ok_iff.mpr holds, latest]
  simp only [bind, Except.bind, pure, Except.pure]
  cases found : log.latest? parameter with
  | none => rfl
  | some record =>
    have member := (List.mem_filter.mp (List.mem_of_getLast? found)).1
    have inside := holds.inside mounted member
    have ending := record.dataEnd_le_next
    simp only [Record.dataEnd] at ending
    have read := mounted.readFlash_eq
      (show record.dataOffset + min record.size.toNat capacity ≤ store.region.length by omega)
    have cut : (payloadIn chip.cell record).take capacity =
        bytesAt chip.cell record.dataOffset (min record.size.toNat capacity) := by
      rw [payloadIn, take_bytesAt, Nat.min_comm]
    have truncated : decide (min record.size.toNat capacity < record.size.toNat) =
        decide (capacity < (payloadIn chip.cell record).length) := by
      rw [payloadIn, length_bytesAt, decide_eq_decide]
      omega
    simp only [read, Option.map_some, cut, truncated]

theorem Mounted.stats_eq (mounted : store.Mounted chip) (holds : store.Holds chip.cell log) :
    store.stats chip = log.stats := by
  have found := mounted.active_eq holds.active
  rw [← holds.segment] at found
  have bounds := holds.tail_le mounted
  have above : log.segment.start ≤ log.tail := Nat.le_trans (Nat.le_add_right _ magicSize) bounds.1
  simp only [stats, Log.stats, found, mounted.walk_eq holds, bind, Except.bind, pure, Except.pure,
    Attempt.difference, if_pos above, if_pos bounds.2]
  rfl

/-- A segment of 256 KiB has too few records for a counter to overflow. -/
theorem few_records (store : Store) (chip : Chip) (id : SegmentId)
    (small : store.layout.segmentSize ≤ 0x40000) :
    (walk store.region chip (store.segment id).firstRecord
      (store.segment id).stop).records.length < 0x10000 := by
  have room := walk_length_le store.region chip (store.segment id).firstRecord
    (store.segment id).stop
  have stop := store.segment_stop id
  simp only [Segment.firstRecord, magicSize, headerSize] at room ⊢
  omega

theorem Mounted.stats_of_small (mounted : store.Mounted chip) (holds : store.Holds chip.cell log)
    (small : store.layout.segmentSize ≤ 0x40000) :
    store.stats chip = .ok
      { active := log.segment.id
        used := log.used
        live := log.records.countP (!·.isTombstone)
        tombstoned := log.records.countP (·.isTombstone)
        free := log.free } := by
  have few : log.records.length < 0x10000 := by
    have counted := store.few_records chip log.segment.id small
    rwa [← holds.segment, mounted.walk_eq holds] at counted
  have live : log.records.countP (!·.isTombstone) < 0x10000 :=
    Nat.lt_of_le_of_lt List.countP_le_length few
  have dead : log.records.countP (·.isTombstone) < 0x10000 :=
    Nat.lt_of_le_of_lt List.countP_le_length few
  rw [mounted.stats_eq holds, Log.stats]
  simp only [Attempt.fitHalfword, if_pos live, if_pos dead, bind, Except.bind, pure, Except.pure]

theorem Mounted.live_eq (mounted : store.Mounted chip) (holds : store.Holds chip.cell log) :
    store.live chip = .ok ((survivors log.records).map Record.toHeader) := by
  simp only [live, mounted.log_eq_ok_iff.mpr holds, bind, Except.bind, pure, Except.pure]

/-- Nothing but the values is read. -/
theorem Mounted.read_of_shows (mounted : store.Mounted chip) {values : Values}
    (shows : store.Shows chip.cell values) (parameter : UInt16) (capacity : Nat) :
    store.read chip parameter capacity = values.read parameter capacity := by
  obtain ⟨log, holds, rfl⟩ := shows
  by_cases valid : isValidParameter parameter = true
  · rw [mounted.read_eq holds valid, Values.read, if_pos valid]
  · rw [Store.read, if_pos (by simp [valid]), Values.read, if_neg valid]

/-- A parameter that keeps its value is read as before. -/
theorem Mounted.read_congr {after : Chip} (mounted : store.Mounted chip)
    (still : store.Mounted after) {values others : Values} (shows : store.Shows chip.cell values)
    (shown : store.Shows after.cell others) {parameter : UInt16}
    (same : others parameter = values parameter) (capacity : Nat) :
    store.read after parameter capacity = store.read chip parameter capacity := by
  rw [mounted.read_of_shows shows, still.read_of_shows shown, Values.read, Values.read, same]

/-- A store to try things on, with two pages to a segment. -/
def sample : Store := ⟨⟨0x08000000, 64⟩, ⟨32⟩⟩

/-- An old value, a dead record and the new value in the first segment, remains of something else in
the second. -/
def sampleChip : Chip where
  base := 0x08000000
  pageSize := 16
  memory :=
    #[0xA5, 0x5A, 7, 0, 2, 0, 0x11, 0x22, 0, 0, 1, 0, 0x44, 0xFF, 0xFF, 0xFF,
      7, 0, 1, 0, 0x33, 0xFF, 0xFF, 0xFF] ++ Array.replicate 10 erasedByte ++ #[0xDE, 0xAD] ++
    Array.replicate 28 erasedByte

def sampleLog : Log :=
  ⟨sample.segment .a, [⟨⟨7, 2⟩, 2⟩, ⟨⟨tombstone, 1⟩, 8⟩, ⟨⟨7, 1⟩, 16⟩], 24⟩

theorem sample_mounted : sample.Mounted sampleChip :=
  ⟨rfl, by decide, rfl, by decide, by decide⟩

theorem sample_holds : sample.Holds sampleChip.cell sampleLog where
  segment := rfl
  active := by decide
  linked := ⟨rfl, ⟨by decide, by decide, by decide, by decide⟩, rfl,
    ⟨by decide, by decide, by decide, by decide⟩, rfl,
    ⟨by decide, by decide, by decide, by decide⟩, rfl⟩
  ends := .inr (by decide)

theorem sample_log : sample.log sampleChip = .ok sampleLog :=
  sample_mounted.log_eq_ok_iff.mpr sample_holds

end Store

end ParamStore
