import ParamStore.Proofs.Levelling
import ParamStore.Proofs.Views
import Mathlib.Data.Set.Card

/-! New records supersede old ones. A log may come to a call with any number of records of one
parameter; a call that succeeds leaves the record that it has written, or none. Since an empty log
has none either, a store that has only seen calls like that never has a record to spare, and the
number of its live records is that of its parameters. -/
namespace ParamStore

variable {log : Log} {parameter : UInt16} {data : Bytes}

theorem Log.copies_kill (log : Log) (dead : List Record)
    (valid : isValidParameter parameter = true) :
    (log.kill dead).copies parameter = (log.copies parameter).filter (· ∉ dead) :=
  filter_kill log.records dead valid

theorem Log.filter_copies (log : Log) (parameter : UInt16) :
    (log.copies parameter).filter (· ∉ log.copies parameter) = [] := by
  rw [List.filter_eq_nil_iff]
  intro record member
  simpa using member

/-- Nothing is left of the records of the parameter but the new one. -/
theorem Log.copies_append (fresh : log.fresh parameter data ∉ log.copies parameter)
    (valid : isValidParameter parameter = true) :
    (log.append parameter data).copies parameter = [log.fresh parameter data] := by
  rw [append, copies_kill _ _ valid, copies_push_fresh, List.filter_append, filter_copies,
    List.nil_append, List.filter_cons_of_pos (by simpa using fresh), List.filter_nil]

theorem Log.getLast?_append (fresh : log.fresh parameter data ∉ log.copies parameter) :
    (log.append parameter data).records.getLast? = some (log.fresh parameter data) := by
  have spared : (log.fresh parameter data).kill (log.copies parameter) = log.fresh parameter data :=
    if_neg fresh
  simp [append, kill, push, spared]

namespace Store

variable {store : Store} {chip after : Chip} {cells new : Nat → UInt8} {grown : Log}
  {entries : List Entry} {ledger : Ledger}

/-- The log has one record of the parameter. It is the last of all and holds the data, and no other
parameter is read differently. -/
structure Superseded (store : Store) (chip after : Chip) (parameter : UInt16) (data : Bytes)
    (log : Log) (record : Record) : Prop where
  walked : store.log after = .ok log
  only : log.copies parameter = [record]
  last : log.records.getLast? = some record
  stored : store.readFlash after record.dataOffset record.size.toNat = .ok data
  others : ∀ other capacity, other ≠ parameter →
    store.read after other capacity = store.read chip other capacity

/-- The log has no record of the parameter, and no other parameter is read differently. -/
structure Withdrawn (store : Store) (chip after : Chip) (parameter : UInt16) (log : Log) :
    Prop where
  walked : store.log after = .ok log
  none : log.copies parameter = []
  others : ∀ other capacity, other ≠ parameter →
    store.read after other capacity = store.read chip other capacity

/-- No parameter has two records, so there are as many live records as parameters. -/
structure Distinct (store : Store) (chip : Chip) (log : Log) : Prop where
  walked : store.log chip = .ok log
  once : ∀ parameter, isValidParameter parameter = true → (log.copies parameter).length ≤ 1
  counted : store.layout.segmentSize ≤ 0x40000 → ∃ stats, store.stats chip = .ok stats ∧
    stats.live = {parameter | store.contains chip parameter = .ok true}.ncard

theorem Ready.payload_fresh (ready : store.Ready cells log entries) (mounted : store.Mounted chip)
    (valid : isValidParameter parameter = true) (short : data.length ≤ maxPayload)
    (room : (log.fresh parameter data).next ≤ log.segment.stop) :
    payloadIn (appended cells log parameter data) (log.fresh parameter data) = data := by
  have listed := congrArg List.getLast? (ready.append mounted valid short room).entries
  rw [entriesIn, List.getLast?_map,
    Log.getLast?_append (ready.holds.fresh_not_mem parameter data)] at listed
  exact congrArg Entry.value (Option.some.inj (listed.trans List.getLast?_concat))

/-- However a value was stored, its record is the only one of its parameter. -/
theorem Stored.newest (stored : store.Stored cells log parameter data new grown)
    (holds : store.Holds cells log) (mounted : store.Mounted chip)
    (valid : isValidParameter parameter = true) (short : data.length ≤ maxPayload) :
    ∃ record, grown.copies parameter = [record] ∧ grown.records.getLast? = some record ∧
      payloadIn new record = data := by
  cases stored with
  | inPlace takes =>
    have ready : store.Ready cells log (entriesIn cells log.records) := ⟨holds, rfl, takes.blank⟩
    have fresh := holds.fresh_not_mem parameter data
    exact ⟨log.fresh parameter data, Log.copies_append fresh valid, Log.getLast?_append fresh,
      ready.payload_fresh mounted valid short takes.fits⟩
  | moved full unmarked fits =>
    obtain ⟨ready, -, -⟩ := holds.ready_compacted mounted
    have fresh := ready.holds.fresh_not_mem parameter data
    exact ⟨(store.relocated log).fresh parameter data, Log.copies_append fresh valid,
      Log.getLast?_append fresh, ready.payload_fresh mounted valid short fits⟩

theorem Stored.superseded (stored : store.Stored chip.cell log parameter data after.cell grown)
    (holds : store.Holds chip.cell log) (mounted : store.Mounted chip) (keeps : chip.Keeps after)
    (valid : isValidParameter parameter = true) (short : data.length ≤ maxPayload) :
    ∃ record, store.Superseded chip after parameter data grown record := by
  have still := mounted.keeps keeps
  obtain ⟨record, only, last, payload⟩ := stored.newest holds mounted valid short
  obtain ⟨entries, ready, -⟩ := stored.ready holds mounted valid short
  have inside := ready.holds.inside still (List.mem_of_getLast? last)
  have ending := record.dataEnd_le_next
  refine ⟨record, still.log_eq_ok_iff.mpr ready.holds, only, last, ?_, ?_⟩
  · rw [still.readFlash_eq (Nat.le_trans ending inside)]
    exact congrArg Except.ok payload
  · intro other capacity differs
    exact mounted.read_congr still ⟨log, holds, rfl⟩ (stored.shows holds mounted valid short)
      (if_neg differs) capacity

theorem Holds.withdrawn (holds : store.Holds chip.cell log) (mounted : store.Mounted chip)
    (keeps : chip.Keeps after) (valid : isValidParameter parameter = true)
    (cells : after.cell = clearParameters chip.cell (log.copies parameter)) :
    store.Withdrawn chip after parameter (log.kill (log.copies parameter)) := by
  have still := mounted.keeps keeps
  have killed := holds.kill mounted fun record (member : record ∈ log.copies parameter) =>
    Log.mem_copies member
  have shown := holds.shows_kill mounted (List.append_nil (log.copies parameter)).symm
  rw [← cells] at killed shown
  rw [if_pos rfl] at shown
  refine ⟨still.log_eq_ok_iff.mpr killed, ?_, ?_⟩
  · rw [log.copies_kill _ valid, log.filter_copies]
  intro other capacity differs
  exact mounted.read_congr still ⟨log, holds, rfl⟩ shown (if_neg differs) capacity

theorem Booked.length_lasts (booked : store.Booked chip ledger) :
    ∃ log, store.Holds chip.cell log ∧
      log.lasts.length = log.records.countP (!·.isTombstone) := by
  obtain ⟨log, entries, ready, lists, -⟩ := booked.tidy
  refine ⟨log, ready.holds, ?_⟩
  have fresh : entriesIn chip.cell log.lasts = ledger.table := by
    rw [← ready.holds.survivors_eq, entriesIn_survivors, ready.entries, lists.fresh]
  rw [ready.countP_alive lists, ← fresh, entriesIn, List.length_map]

/-- If no live record is left out, a parameter has no other record than its last one. -/
theorem Holds.copies_length_le (holds : store.Holds cells log)
    (all : log.lasts.length = log.records.countP (!·.isTombstone))
    (valid : isValidParameter parameter = true) : (log.copies parameter).length ≤ 1 := by
  have named := (isValidParameter_iff.mp valid).1
  have complete : log.lasts = log.records.filter (!·.isTombstone) :=
    log.lasts_sublist.eq_of_length (by rw [all, List.countP_eq_length_filter])
  have copies : log.copies parameter = log.lasts.filter (·.parameter == parameter) := by
    rw [complete, List.filter_filter, Log.copies]
    apply List.filter_congr
    intro record _
    by_cases same : record.parameter = parameter <;> simp [Header.isTombstone, same, named]
  calc (log.copies parameter).length
      = (log.lasts.map (·.parameter)).count parameter := by
        rw [copies, ← List.countP_eq_length_filter, List.count, List.countP_map]
        rfl
    _ ≤ 1 := List.nodup_iff_count_le_one.mp holds.lasts_unique parameter

theorem Mounted.ncard_eq (mounted : store.Mounted chip) (holds : store.Holds chip.cell log) :
    {parameter | store.contains chip parameter = .ok true}.ncard = log.lasts.length := by
  have listed : {parameter | store.contains chip parameter = .ok true} =
      ((log.lasts.map (·.parameter)).toFinset : Set UInt16) := by
    ext parameter
    rw [Set.mem_ofPred_eq, mounted.contains_iff holds, List.coe_toFinset, Set.mem_ofPred_eq]
  rw [listed, Set.ncard_coe_finset, List.toFinset_card_of_nodup holds.lasts_unique,
    List.length_map]

theorem Booked.distinct (booked : store.Booked chip ledger) : ∃ log, store.Distinct chip log := by
  have mounted := booked.mounted
  obtain ⟨log, holds, all⟩ := booked.length_lasts
  refine ⟨log, mounted.log_eq_ok_iff.mpr holds, ?_, ?_⟩
  · intro parameter valid
    exact holds.copies_length_le all valid
  · intro small
    refine ⟨_, mounted.stats_of_small holds small, ?_⟩
    rw [mounted.ncard_eq holds, all]

/-- On a chip without faults, whatever records its log has: a write that succeeds leaves one record
of its parameter, the last of the log, and a removal that succeeds leaves none. So after formatting,
whatever is asked of the store, no parameter has two records. -/
theorem records_superseded (mounted : store.Mounted chip) (faultless : chip.Faultless) :
    (store.Clean chip →
      (∀ parameter data, (store.write parameter data).outcome chip = .ok () →
        ∃ grown record, store.Superseded chip ((store.write parameter data).after chip)
          parameter data grown record) ∧
      ∀ parameter, (store.remove parameter).outcome chip = .ok () →
        ∃ rest, store.Withdrawn chip ((store.remove parameter).after chip) parameter rest) ∧
    ∀ accesses, ∃ log,
      store.Distinct (perform store accesses (store.format.after chip)) log := by
  refine ⟨fun clean => ⟨?_, ?_⟩, ?_⟩
  · intro parameter data succeeded
    obtain ⟨log, found⟩ := clean
    have holds := mounted.log_eq_ok_iff.mp found
    rcases (store.write_ensures mounted holds faultless.steady).outcome_cases with
      ⟨_, -, valid, short, keeps, grown, stored⟩ | ⟨cause, failed, -⟩
    · exact ⟨grown, stored.superseded holds mounted keeps valid short⟩
    · rw [failed] at succeeded
      cases succeeded
  · intro parameter succeeded
    obtain ⟨log, found⟩ := clean
    have holds := mounted.log_eq_ok_iff.mp found
    rcases (store.remove_ensures mounted holds faultless.steady).outcome_cases with
      ⟨_, -, valid, -, keeps, cells⟩ | ⟨cause, failed, -⟩
    · exact ⟨_, holds.withdrawn mounted keeps valid cells⟩
    · rw [failed] at succeeded
      cases succeeded
  · intro accesses
    obtain ⟨ledger, booked⟩ := perform_booked (mounted.format_booked faultless).2 accesses
    exact booked.distinct

theorem records_superseded_sample :
    (∃ grown record, sample.Superseded sampleChip ((sample.write 7 [0x55]).after sampleChip) 7
      [0x55] grown record) ∧
    (∃ rest, sample.Withdrawn sampleChip ((sample.remove 7).after sampleChip) 7 rest) ∧
    ∃ log, sample.Distinct (perform sample
      [.change (.write 7 [1]), .change (.write 9 [2]), .change (.write 7 [3]), .stats]
      (sample.format.after sampleChip)) log := by
  have alone : ¬sample.InUse sampleChip.cell .b := by decide
  have written : (sample.write 7 [0x55]).outcome sampleChip = .ok () :=
    (write_yields sample_mounted rfl sample_holds alone).outcome
  have removed : (sample.remove 7).outcome sampleChip = .ok () :=
    (remove_yields sample_mounted rfl sample_holds).outcome
  obtain ⟨calls, formatted⟩ := records_superseded sample_mounted rfl
  obtain ⟨write, remove⟩ := calls ⟨sampleLog, sample_log⟩
  exact ⟨write 7 [0x55] written, remove 7 removed, formatted _⟩

end Store

end ParamStore
