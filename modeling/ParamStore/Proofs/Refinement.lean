import ParamStore.Proofs.Admission
import ParamStore.Proofs.Recovery

/-! A store on a chip without faults is a finite map. The map is a table of entries, each parameter
once and the one set last at the end; the order matters for nothing but the padding, and so for the
question whether one more value fits. -/
namespace ParamStore

inductive Operation where
  | read (parameter : UInt16) (buffer : Bytes)
  | contains (parameter : UInt16)
  | write (parameter : UInt16) (data : Bytes)
  | remove (parameter : UInt16)
  | compact
  | recover
  deriving DecidableEq, Repr

inductive Answer where
  /-- The buffer after a read, the number of bytes put into it, and whether the value has more. -/
  | value (buffer : Bytes) (length : Nat) (truncated : Bool)
  | present (found : Bool)
  | done
  | recovered (found : Recovery)
  deriving DecidableEq, Repr

def Operation.run (store : Store) : Operation → Action StoreError Answer
  | read parameter buffer => do
    let reading ← Action.observe (store.read · parameter buffer.length)
    return .value (reading.fill buffer) reading.bytes.length reading.truncated
  | contains parameter => do
    return .present (← Action.observe (store.contains · parameter))
  | write parameter data => do
    store.write parameter data
    return .done
  | remove parameter => do
    store.remove parameter
    return .done
  | compact => do
    let _ ← store.compact
    return .done
  | recover => do
    return .recovered (← store.recover)

/-- The answers of a store to operations one after the other. -/
def serve (store : Store) : List Operation → Chip → List (Attempt StoreError Answer)
  | [], _ => []
  | operation :: rest, chip =>
    (operation.run store).outcome chip :: serve store rest ((operation.run store).after chip)

/-- A finite map as the list of its entries. -/
abbrev Table := List Entry

namespace Table

def get? (table : Table) (parameter : UInt16) : Option Bytes :=
  (table.find? (·.parameter == parameter)).map Entry.value

def erase (table : Table) (parameter : UInt16) : Table := table.filter (·.parameter != parameter)

def insert (table : Table) (parameter : UInt16) (value : Bytes) : Table :=
  table.erase parameter ++ [⟨parameter, value⟩]

@[simp] theorem get?_erase (table : Table) (parameter asked : UInt16) :
    (table.erase parameter).get? asked = if asked = parameter then none else table.get? asked := by
  rw [get?, erase, List.find?_filter]
  split
  next same => simp [same]
  next other =>
    have condition : (fun entry : Entry => decide ((entry.parameter != parameter) = true ∧
        (entry.parameter == asked) = true)) = (·.parameter == asked) := by
      funext entry
      by_cases named : entry.parameter = asked
      · simp [named, other]
      · simp [named]
    rw [condition, get?]

@[simp] theorem get?_insert (table : Table) (parameter asked : UInt16) (value : Bytes) :
    (table.insert parameter value).get? asked =
      if asked = parameter then some value else table.get? asked := by
  have erased := get?_erase table parameter asked
  simp only [get?] at erased
  simp only [get?, insert, List.find?_append, Option.map_or, erased]
  by_cases same : asked = parameter
  · simp [same]
  · simp [same, Ne.symm same]

def sizes (table : Table) : List UInt16 := table.map fun entry => .ofNat entry.value.length

/-- One more value fits into `capacity` bytes, if all are packed. -/
def Admits (capacity : Nat) (table : Table) (value : Bytes) : Prop :=
  value.length ≤ maxPayload ∧
    nextOffset (packedEnd magicSize table.sizes) (.ofNat value.length) ≤ capacity

instance (capacity : Nat) (table : Table) (value : Bytes) :
    Decidable (table.Admits capacity value) := inferInstanceAs (Decidable (_ ∧ _))

/-- What a map answers, and the map after that. -/
def answer (capacity : Nat) (table : Table) : Operation → Attempt StoreError Answer × Table
  | .read parameter buffer =>
    if isValidParameter parameter then
      match table.get? parameter with
      | none => (.fail .notFound, table)
      | some value =>
        (.ok (.value (value.take buffer.length ++ buffer.drop value.length)
          (min buffer.length value.length) (buffer.length < value.length)), table)
    else (.fail .invalidParameter, table)
  | .contains parameter => (.ok (.present (table.get? parameter).isSome), table)
  | .write parameter data =>
    if isValidParameter parameter then
      if table.Admits capacity data then (.ok .done, table.insert parameter data)
      else (.fail .tooLarge, table)
    else (.fail .invalidParameter, table)
  | .remove parameter =>
    if isValidParameter parameter then
      match table.get? parameter with
      | none => (.fail .notFound, table)
      | some _ => (.ok .done, table.erase parameter)
    else (.fail .invalidParameter, table)
  | .compact => (.ok .done, table)
  | .recover => (.ok (.recovered .clean), table)

def serve (capacity : Nat) : List Operation → Table → List (Attempt StoreError Answer)
  | [], _ => []
  | operation :: rest, table =>
    (table.answer capacity operation).1 :: serve capacity rest (table.answer capacity operation).2

/-- Among the last entries of a log each parameter is found at most once. -/
theorem get?_freshest (entries : List Entry) (parameter : UInt16) :
    get? (freshest entries) parameter = valueOf entries parameter := by
  rw [← valueOf_freshest]
  induction entries with
  | nil => simp [get?, freshest, valueOf]
  | cons entry later ih =>
    rw [freshest]
    split
    next fresh =>
      rw [valueOf_cons, ← ih]
      by_cases same : entry.parameter = parameter
      · have gone : valueOf (freshest later) parameter = none := by
          rw [valueOf_freshest, ← same]
          exact (valueOf_eq_none_iff fresh.1).mpr fresh.2
        rw [ih, gone]
        simp [get?, same, ← same ▸ fresh.1]
      · simp [get?, same]
    next => exact ih

end Table

namespace Store

variable {store : Store} {chip after : Chip} {cells new : Nat → UInt8} {log grown : Log}
  {entries : List Entry} {table : Table} {parameter : UInt16} {data : Bytes}

/-- The segment that the log is not in is erased. -/
def SpareBlank (store : Store) (cells : Nat → UInt8) (log : Log) : Prop :=
  Blank cells (store.spare log).start (store.spare log).stop

/-- The chip works, the log on it has the entries of the table, and nothing else is on it. -/
structure Represents (store : Store) (chip : Chip) (table : Table) : Prop where
  mounted : store.Mounted chip
  faultless : chip.Faultless
  tidy : ∃ log entries, store.Ready chip.cell log entries ∧ freshest entries = table ∧
    store.SpareBlank chip.cell log

theorem SpareBlank.congr (blank : store.SpareBlank cells log) (holds : store.Holds cells log)
    (same : SameOutside cells new log.segment.firstRecord log.segment.stop) :
    store.SpareBlank new log := by
  apply Blank.congr blank
  apply (same.mono (Nat.le_add_right _ magicSize) (Nat.le_refl _)).sameIn
  exact holds.apart.symm

theorem SpareBlank.unmarked (blank : store.SpareBlank cells log) (mounted : store.Mounted chip) :
    ¬store.InUse cells log.segment.id.other :=
  not_inUse_of_blank blank (mounted.placed log.segment.id.other).firstRecord_le

theorem Holds.spareBlank_relocated (holds : store.Holds cells log) (mounted : store.Mounted chip) :
    store.SpareBlank (store.compacted cells log) (store.relocated log) := by
  obtain ⟨-, blank, -⟩ := holds.ready_compacted mounted
  have back : store.spare (store.relocated log) = log.segment := by
    simp only [spare, relocated, segment_id, SegmentId.other_other]
    exact holds.segment.symm
  rw [SpareBlank, back]
  exact blank

theorem Stored.spareBlank (stored : store.Stored cells log parameter data new grown)
    (holds : store.Holds cells log) (mounted : store.Mounted chip)
    (short : data.length ≤ maxPayload) (blank : store.SpareBlank cells log) :
    store.SpareBlank new grown := by
  cases stored with
  | inPlace takes =>
    exact blank.congr holds (holds.sameOutside_appended mounted short takes.fits)
  | moved full unmarked fits =>
    obtain ⟨ready, -, -⟩ := holds.ready_compacted mounted
    exact (holds.spareBlank_relocated mounted).congr ready.holds
      (ready.holds.sameOutside_appended mounted short fits)

theorem Ready.sizes_eq (ready : store.Ready cells log entries) :
    sizesOf log.lasts = Table.sizes (freshest entries) := by
  rw [← ready.holds.survivors_eq, ← ready.entries, ← entriesIn_survivors]
  simp only [sizesOf, Table.sizes, entriesIn, List.map_map]
  apply List.map_congr_left
  intro record _
  simp [entryIn, payloadIn]

/-- The store admits what the table admits. -/
theorem Ready.fits_iff (ready : store.Ready cells log entries) (mounted : store.Mounted chip)
    (size : UInt16) :
    Fits log size ↔ nextOffset (packedEnd magicSize (Table.sizes (freshest entries))) size ≤
      store.layout.segmentSize := by
  have placed := ready.holds.placed mounted
  have stops := store.segment_stop log.segment.id
  rw [← ready.holds.segment] at stops
  rw [Fits, ready.sizes_eq, Segment.firstRecord, packedEnd_shift placed.startWord,
    nextOffset_shift placed.startWord, stops]
  omega

/-- Compaction changes nothing that the table shows. -/
theorem Ready.represents_compacted (ready : store.Ready chip.cell log entries)
    (mounted : store.Mounted chip) (faultless : chip.Faultless) (keeps : chip.Keeps after)
    (moved : after.cell = store.compacted chip.cell log) :
    store.Represents after (freshest entries) := by
  obtain ⟨readyAfter, -, -⟩ := ready.holds.ready_compacted mounted
  have spared := ready.holds.spareBlank_relocated mounted
  rw [← moved] at readyAfter spared
  rw [ready.entries] at readyAfter
  exact ⟨mounted.keeps keeps, keeps.faultless faultless, store.relocated log, freshest entries,
    readyAfter, freshest_idem entries, spared⟩

/-- The store has answered an operation as the table does, and shows what the table has become. -/
structure Agrees (store : Store) (table : Table) (operation : Operation)
    (response : Attempt StoreError Answer) (after : Chip) : Prop where
  answer : (table.answer store.layout.segmentSize operation).1 = response
  left : store.Represents after (table.answer store.layout.segmentSize operation).2

theorem Represents.agrees {operation : Operation} {response : Attempt StoreError Answer}
    {next : Table} (represents : store.Represents after next)
    (known : table.answer store.layout.segmentSize operation = (response, next)) :
    store.Agrees table operation response after :=
  ⟨by rw [known], by rw [known]; exact represents⟩

theorem Represents.write_ensures (represents : store.Represents chip table) (parameter : UInt16)
    (data : Bytes) :
    (store.write parameter data).Ensures chip
      (fun _ => store.Agrees table (.write parameter data) (.ok .done))
      (fun cause => store.Agrees table (.write parameter data) (.fail cause)) := by
  have unchanged := represents
  obtain ⟨mounted, faultless, log, entries, ready, rfl, blank⟩ := represents
  have unmarked := blank.unmarked mounted
  apply (Store.write_ensures mounted ready.holds faultless.steady).mono
  · intro _ after done
    obtain ⟨valid, short, keeps, grown, stored⟩ := done
    have fits := (ready.fits_iff mounted _).mp (stored.fits ready.holds mounted)
    have spared := stored.spareBlank ready.holds mounted short blank
    obtain ⟨appended, readyAfter, listed⟩ := stored.ready ready.holds mounted valid short
    rw [ready.entries] at listed
    have admits : Table.Admits store.layout.segmentSize (freshest entries) data := ⟨short, fits⟩
    have inserted : store.Represents after (Table.insert (freshest entries) parameter data) :=
      ⟨mounted.keeps keeps, keeps.faultless faultless, grown, appended, readyAfter, listed, spared⟩
    exact inserted.agrees (by simp [Table.answer, valid, admits])
  · intro cause after failed
    rcases failed with refused | interrupted
    · have large (valid : isValidParameter parameter = true) :
          ¬Table.Admits store.layout.segmentSize (freshest entries) data := fun admits =>
        (refused.not_fits ready.holds mounted valid admits.1 unmarked).2
          ((ready.fits_iff mounted _).mpr admits.2)
      cases refused with
      | reserved invalid => exact unchanged.agrees (by simp [Table.answer, invalid])
      | tooLong valid => exact unchanged.agrees (by simp [Table.answer, valid, large valid])
      | hopeless valid => exact unchanged.agrees (by simp [Table.answer, valid, large valid])
      | occupied _ _ inUse => exact absurd inUse unmarked
      | crowded valid _ _ _ _ _ keeps moved =>
        exact (ready.represents_compacted mounted faultless keeps moved).agrees
          (by simp [Table.answer, valid, large valid])
    · exact absurd faultless interrupted.faulty

theorem Represents.remove_ensures (represents : store.Represents chip table) (parameter : UInt16) :
    (store.remove parameter).Ensures chip
      (fun _ => store.Agrees table (.remove parameter) (.ok .done))
      (fun cause => store.Agrees table (.remove parameter) (.fail cause)) := by
  have unchanged := represents
  obtain ⟨mounted, faultless, log, entries, ready, rfl, blank⟩ := represents
  have value (valid : isValidParameter parameter = true) :
      Table.get? (freshest entries) parameter =
        (log.copies parameter).getLast?.map (payloadIn chip.cell) := by
    rw [Table.get?_freshest, ← ready.entries, valueOf_entriesIn _ _ valid]
    rfl
  apply (Store.remove_ensures mounted ready.holds faultless.steady).mono
  · intro _ after done
    obtain ⟨valid, found, keeps, cells⟩ := done
    have known (record : Record) (member : record ∈ log.copies parameter) : record ∈ log.records :=
      Log.mem_copies member
    have bounds := ready.holds.tail_le mounted
    have outside := ready.holds.linked.sameOutside_clear known
    have readyAfter := ready.kill mounted parameter
    have spared := blank.congr ready.holds (outside.mono (Nat.le_refl _) bounds.2)
    rw [← cells] at readyAfter spared
    have erased : store.Represents after (Table.erase (freshest entries) parameter) :=
      ⟨mounted.keeps keeps, keeps.faultless faultless, _, _, readyAfter,
        freshest_bury entries parameter, spared⟩
    have last := value valid
    rw [List.getLast?_eq_some_getLast found, Option.map_some] at last
    exact erased.agrees (by simp [Table.answer, valid, last])
  · intro cause after failed
    rcases failed with ⟨rfl, invalid, rfl⟩ | ⟨rfl, valid, none, rfl⟩ | interrupted
    · exact unchanged.agrees (by simp [Table.answer, invalid])
    · exact unchanged.agrees (by simp [Table.answer, valid, value valid, none])
    · exact absurd faultless interrupted.faulty

theorem Represents.compact_ensures (represents : store.Represents chip table) :
    store.compact.Ensures chip (fun _ after => store.Represents after table)
      (fun _ _ => False) := by
  obtain ⟨mounted, faultless, log, entries, ready, rfl, blank⟩ := represents
  apply (Store.compact_ensures mounted ready.holds faultless.steady).mono
  · intro migration after done
    obtain ⟨-, keeps, moved, -⟩ := done
    exact ready.represents_compacted mounted faultless keeps moved
  · intro cause after failed
    rcases failed with ⟨-, inUse, -⟩ | interrupted
    · exact blank.unmarked mounted inUse
    · exact interrupted.faulty faultless

theorem Represents.recover_ensures (represents : store.Represents chip table) :
    store.recover.Ensures chip (fun found after => found = .clean ∧ store.Represents after table)
      (fun _ _ => False) := by
  obtain ⟨mounted, faultless, log, entries, ready, rfl, blank⟩ := represents
  apply (Store.recover_ensures mounted ready.holds.active).mono
  · intro found after done
    obtain ⟨reports, keeps, cells, -⟩ := done
    have same : after.cell = chip.cell := cells.trans (wipe_blank blank)
    refine ⟨?_, mounted.keeps keeps, keeps.faultless faultless, log, entries, ?_⟩
    · cases reports with
      | clean => rfl
      | duplicate inUse => exact absurd inUse (blank.unmarked mounted)
      | dirty _ remains => exact absurd blank remains
    · rw [same]
      exact ⟨ready, rfl, blank⟩
  · exact fun cause after interrupted => interrupted.faulty faultless

theorem Represents.read_ensures (represents : store.Represents chip table) (parameter : UInt16)
    (buffer : Bytes) :
    ((Operation.read parameter buffer).run store).Ensures chip
      (fun answer => store.Agrees table (.read parameter buffer) (.ok answer))
      (fun cause => store.Agrees table (.read parameter buffer) (.fail cause)) := by
  have unchanged := represents
  obtain ⟨mounted, -, log, entries, ready, rfl, -⟩ := represents
  by_cases valid : isValidParameter parameter = true
  · have read := mounted.read_eq ready.holds valid buffer.length
    rw [ready.entries, ← Table.get?_freshest] at read
    cases found : Table.get? (freshest entries) parameter with
    | none =>
      rw [found] at read
      exact Action.ensures_observe_bind_fail read
        (unchanged.agrees (by simp [Table.answer, valid, found]))
    | some value =>
      rw [found] at read
      apply Action.ensures_observe_bind read
      refine Action.ensures_pure (unchanged.agrees ?_)
      have rest : buffer.drop (min buffer.length value.length) = buffer.drop value.length := by
        by_cases short : buffer.length ≤ value.length
        · rw [List.drop_eq_nil_of_le (by omega), List.drop_eq_nil_of_le short]
        · rw [Nat.min_eq_right (by omega)]
      simp [Table.answer, valid, found, Reading.fill, rest]
  · have reserved : store.read chip parameter buffer.length = .fail .invalidParameter := by
      rw [Store.read, if_pos (by simp [valid])]
    exact Action.ensures_observe_bind_fail reserved
      (unchanged.agrees (by simp [Table.answer, valid]))

theorem Represents.contains_ensures (represents : store.Represents chip table)
    (parameter : UInt16) :
    ((Operation.contains parameter).run store).Ensures chip
      (fun answer => store.Agrees table (.contains parameter) (.ok answer))
      (fun cause => store.Agrees table (.contains parameter) (.fail cause)) := by
  have unchanged := represents
  obtain ⟨mounted, -, log, entries, ready, rfl, -⟩ := represents
  have answer := mounted.contains_eq ready.holds parameter
  rw [ready.entries, ← Table.get?_freshest] at answer
  exact Action.ensures_observe_bind answer (Action.ensures_pure (unchanged.agrees rfl))

end Store

variable {store : Store} {chip : Chip} {table : Table}

/-- The answer to one operation is the one of the table, and so is what it leaves. -/
theorem Operation.run_ensures (operation : Operation) (represents : store.Represents chip table) :
    (operation.run store).Ensures chip
      (fun answer => store.Agrees table operation (.ok answer))
      (fun cause => store.Agrees table operation (.fail cause)) := by
  cases operation with
  | read parameter buffer => exact represents.read_ensures parameter buffer
  | contains parameter => exact represents.contains_ensures parameter
  | write parameter data =>
    apply (represents.write_ensures parameter data).bind
    exact fun _ _ agrees => Action.ensures_pure agrees
  | remove parameter =>
    apply (represents.remove_ensures parameter).bind
    exact fun _ _ agrees => Action.ensures_pure agrees
  | compact =>
    apply Action.Ensures.bind
    · exact represents.compact_ensures.weaken fun _ _ => False.elim
    · exact fun _ _ still => Action.ensures_pure (still.agrees rfl)
  | recover =>
    apply Action.Ensures.bind
    · exact represents.recover_ensures.weaken fun _ _ => False.elim
    · intro _ after done
      obtain ⟨rfl, still⟩ := done
      exact Action.ensures_pure (still.agrees rfl)

theorem Operation.step (operation : Operation) (represents : store.Represents chip table) :
    store.Agrees table operation ((operation.run store).outcome chip)
      ((operation.run store).after chip) := by
  rcases (operation.run_ensures represents).outcome_cases with
    ⟨answer, outcome, agrees⟩ | ⟨cause, outcome, agrees⟩
  · exact outcome ▸ agrees
  · exact outcome ▸ agrees

theorem Store.Represents.serve_eq (represents : store.Represents chip table)
    (operations : List Operation) :
    serve store operations chip = Table.serve store.layout.segmentSize operations table := by
  induction operations generalizing chip table with
  | nil => rfl
  | cons operation rest ih =>
    obtain ⟨answer, left⟩ := operation.step represents
    rw [serve, Table.serve, ih left, answer]

/-- A formatted store is an empty table. -/
theorem Store.Mounted.format_ensures (mounted : store.Mounted chip) (faultless : chip.Faultless) :
    store.format.Ensures chip (fun _ after => store.Represents after []) (fun _ _ => False) := by
  apply (Store.format_ensures mounted).mono
  · intro _ after done
    obtain ⟨keeps, cells⟩ := done
    obtain ⟨ready, blank⟩ := Store.ready_formatted mounted chip.cell
    rw [← cells] at ready blank
    exact ⟨mounted.keeps keeps, keeps.faultless faultless, store.emptyLog, [], ready, rfl, blank⟩
  · exact fun cause after interrupted => interrupted.faulty faultless

/-- On a chip without faults, whatever it holds, formatting succeeds, and from then on the store
answers every sequence of operations as a finite map does that is empty at first. -/
theorem serve_after_format_eq (mounted : store.Mounted chip) (faultless : chip.Faultless)
    (operations : List Operation) :
    store.format.outcome chip = .ok () ∧
      serve store operations (store.format.after chip) =
        Table.serve store.layout.segmentSize operations [] := by
  rcases (mounted.format_ensures faultless).outcome_cases with
    ⟨_, outcome, represents⟩ | ⟨_, _, impossible⟩
  · exact ⟨outcome, represents.serve_eq operations⟩
  · exact impossible.elim

/-- The value of twenty bytes fits only because the log is compacted for it. -/
theorem serve_after_format_eq_sample :
    Store.sample.format.outcome Store.sampleChip = .ok () ∧
      serve Store.sample
        [.write 7 [1, 2, 3], .read 7 [0, 0], .write 9 (.replicate 21 0), .write 7 [4],
          .write 9 (.replicate 20 0), .contains 9, .remove 7, .read 7 [0], .recover]
        (Store.sample.format.after Store.sampleChip) =
      [.ok .done, .ok (.value [1, 2] 2 true), .fail .tooLarge, .ok .done, .ok .done,
        .ok (.present true), .ok .done, .fail .notFound, .ok (.recovered .clean)] :=
  serve_after_format_eq Store.sample_mounted rfl
    [.write 7 [1, 2, 3], .read 7 [0, 0], .write 9 (.replicate 21 0), .write 7 [4],
      .write 9 (.replicate 20 0), .contains 9, .remove 7, .read 7 [0], .recover]

end ParamStore
