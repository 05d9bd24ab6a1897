import ParamStore.Proofs.Compaction

/-! The live records of a log, and what compaction makes of them: it moves each to the other segment,
in the order of the log and without gaps, and leaves nothing else. -/
namespace ParamStore

/-- Of every live parameter the record that gives it its value, in the order of the log. -/
def Log.lasts (log : Log) : List Record :=
  log.records.filter fun record => record.isLive && log.latest? record.parameter == some record

/-- A record survives when it is the last of its parameter. -/
theorem survivors_eq_filter {records : List Record} (unique : records.Nodup) :
    survivors records = records.filter fun record => record.isLive &&
      (records.filter (·.parameter == record.parameter)).getLast? == some record := by
  induction records with
  | nil => rfl
  | cons head later ih =>
    obtain ⟨fresh, rest⟩ := List.nodup_cons.mp unique
    -- Records behind the first one do not see it.
    have behind : later.filter (fun record => record.isLive &&
        ((head :: later).filter (·.parameter == record.parameter)).getLast? == some record) =
        survivors later := by
      rw [ih rest]
      apply List.filter_congr
      intro record member
      have found : later.filter (·.parameter == record.parameter) ≠ [] :=
        List.ne_nil_of_mem (List.mem_filter.mpr ⟨member, by simp⟩)
      congr 2
      rw [List.filter_cons]
      split
      · rw [List.getLast?_cons, List.getLast?_eq_some_getLast found]
        rfl
      · rfl
    have last : ((head :: later).filter (·.parameter == head.parameter)).getLast? = some head ↔
        later.all (·.parameter != head.parameter) = true := by
      rw [List.filter_cons_of_pos (by simp), List.getLast?_cons]
      constructor
      · intro final
        by_cases none : later.filter (·.parameter == head.parameter) = []
        · simpa [List.filter_eq_nil_iff] using none
        · rw [List.getLast?_eq_some_getLast none] at final
          have same : (later.filter (·.parameter == head.parameter)).getLast none = head :=
            Option.some.inj final
          have member := (List.mem_filter.mp (List.getLast_mem none)).1
          exact absurd (same ▸ member) fresh
      · intro others
        have none : later.filter (·.parameter == head.parameter) = [] := by
          simpa [List.filter_eq_nil_iff] using others
        rw [none]
        rfl
    rw [survivors, List.filter_cons, behind]
    by_cases kept : head.isLive = true ∧ later.all (·.parameter != head.parameter) = true
    · rw [if_pos kept, if_pos]
      simpa [kept.1] using last.mpr kept.2
    · rw [if_neg kept, if_neg]
      intro chosen
      rw [Bool.and_eq_true, beq_iff_eq] at chosen
      exact kept ⟨chosen.1, last.mp chosen.2⟩

/-- Where every record is alive and no two have the same parameter, all survive. -/
theorem survivors_eq_self {records : List Record} (live : ∀ record ∈ records, record.isLive = true)
    (unique : (records.map (·.parameter)).Nodup) : survivors records = records := by
  induction records with
  | nil => rfl
  | cons record later ih =>
    obtain ⟨fresh, rest⟩ := List.nodup_cons.mp unique
    have others : later.all (·.parameter != record.parameter) = true := by
      rw [List.all_eq_true]
      intro other member
      rw [bne_iff_ne]
      exact fun same => fresh (List.mem_map.mpr ⟨other, member, same⟩)
    rw [survivors, if_pos ⟨live record (by simp), others⟩,
      ih (fun other member => live other (by simp [member])) rest]

theorem Log.isLive_of_mem_lasts {log : Log} {record : Record} (member : record ∈ log.lasts) :
    record.isLive = true ∧ log.latest? record.parameter = some record := by
  simpa using (List.mem_filter.mp member).2

/-- Packing changes nothing but the places. -/
theorem headers_repack (position : Nat) (records : List Record) :
    (repack position records).map Record.toHeader = records.map Record.toHeader := by
  induction records generalizing position with
  | nil => rfl
  | cons record rest ih => exact congrArg (record.toHeader :: ·) (ih _)

namespace Store

variable {store : Store} {chip after : Chip} {cells : Nat → UInt8} {log moved : Log}

theorem Holds.survivors_eq (holds : store.Holds cells log) : survivors log.records = log.lasts :=
  survivors_eq_filter holds.linked.nodup

/-- No parameter has two live records. -/
theorem Holds.lasts_unique (holds : store.Holds cells log) :
    (log.lasts.map (·.parameter)).Nodup := by
  have distinct : log.lasts.Nodup := holds.linked.nodup.filter _
  rw [List.Nodup, List.pairwise_map]
  refine distinct.imp_of_mem fun {first second} left right different same => different ?_
  have one := (Log.isLive_of_mem_lasts left).2
  rw [same, (Log.isLive_of_mem_lasts right).2] at one
  exact (Option.some.inj one).symm

theorem Holds.parameters_relocated (holds : store.Holds cells log) :
    (store.relocated log).records.map (·.parameter) = log.lasts.map (·.parameter) := by
  have mapped := congrArg (List.map Header.parameter)
    (headers_repack (store.spare log).firstRecord log.lasts)
  rw [List.map_map, List.map_map] at mapped
  rw [relocated, holds.survivors_eq]
  exact mapped

theorem Holds.unique_relocated (holds : store.Holds cells log) :
    ((store.relocated log).records.map (·.parameter)).Nodup :=
  holds.parameters_relocated ▸ holds.lasts_unique

theorem Holds.live_relocated (holds : store.Holds cells log) {record : Record}
    (member : record ∈ (store.relocated log).records) : record.isLive = true := by
  have known : record.parameter ∈ log.lasts.map (·.parameter) :=
    holds.parameters_relocated ▸ List.mem_map_of_mem member
  obtain ⟨original, listed, named⟩ := List.mem_map.mp known
  have live := (Log.isLive_of_mem_lasts listed).1
  rwa [Header.isLive, named] at live

/-- The log that a compaction leaves has nothing that another would drop. -/
theorem Holds.survivors_relocated (holds : store.Holds cells log) :
    survivors (store.relocated log).records = (store.relocated log).records :=
  survivors_eq_self (fun _ => holds.live_relocated) holds.unique_relocated

/-- The live records of `log` have moved to the other segment, and nothing else is in either. -/
structure LiveMoved (store : Store) (chip after : Chip) (log moved : Log) : Prop where
  inUse : store.isInUse after log.segment.id.other = .ok true
  released : store.isInUse after log.segment.id = .ok false
  erased : Blank after.cell log.segment.start log.segment.stop
  found : store.log after = .ok moved
  segment : moved.segment = store.segment log.segment.id.other
  /-- Headers and order are kept, and the places are those of packed records. -/
  records : moved.records = repack moved.segment.firstRecord log.lasts
  tail : moved.tail = packedEnd moved.segment.firstRecord (sizesOf log.lasts)
  payloads : moved.records.map (payloadIn after.cell) = log.lasts.map (payloadIn chip.cell)
  live : ∀ record ∈ moved.records, record.isLive = true
  unique : (moved.records.map (·.parameter)).Nodup
  unwritten : Blank after.cell moved.tail moved.segment.stop

theorem Holds.liveMoved (holds : store.Holds chip.cell log) (mounted : store.Mounted chip)
    (keeps : chip.Keeps after) (cells : after.cell = store.compacted chip.cell log) :
    store.LiveMoved chip after log (store.relocated log) := by
  obtain ⟨ready, blank, unmarked⟩ := holds.ready_compacted mounted
  rw [← cells] at ready blank unmarked
  have still := mounted.keeps keeps
  have marked := ready.holds.active.1
  have same := holds.survivors_eq
  have values := congrArg (List.map Entry.value) ready.entries
  rw [← entriesIn_survivors, same] at values
  simp only [entriesIn, List.map_map] at values
  refine ⟨?_, ?_, blank, still.log_eq_ok_iff.mpr ready.holds, rfl, ?_, ?_, values,
    fun _ => holds.live_relocated, holds.unique_relocated, ready.blank⟩
  · rw [still.isInUse_eq]
    simpa [relocated, spare] using marked
  · rw [still.isInUse_eq]
    simpa using unmarked
  · rw [relocated, same]
  · rw [relocated, same]

/-- On a chip without faults, compaction moves the live records of any log to a segment that is not
in use, whatever garbage that holds, and tells how many they were and how much room was won. -/
theorem compact_moves_live (mounted : store.Mounted chip) (faultless : chip.Faultless)
    (found : store.log chip = .ok log)
    (spare : store.isInUse chip log.segment.id.other = .ok false) :
    ∃ moved, store.LiveMoved chip (store.compact.after chip) log moved ∧
      moved.used ≤ log.used ∧
      store.compact.outcome chip = .ok {
        source := log.segment.id
        target := log.segment.id.other
        copied := log.lasts.length
        reclaimed := log.used - moved.used } := by
  have holds := mounted.log_eq_ok_iff.mp found
  have unmarked : ¬store.InUse chip.cell log.segment.id.other := by
    rw [mounted.isInUse_eq] at spare
    simpa using spare
  refine ⟨store.relocated log, ?_⟩
  rcases (store.compact_ensures mounted holds faultless.steady).outcome_cases with
    ⟨migration, outcome, -, keeps, cells, answer⟩ | ⟨cause, -, ⟨-, inUse, -⟩ | interrupted⟩
  · refine ⟨holds.liveMoved mounted keeps cells, (holds.relocated_used mounted).1, ?_⟩
    rw [outcome, answer, holds.survivors_eq]
  · exact absurd inUse unmarked
  · exact absurd faultless interrupted.faulty

theorem compact_moves_live_sample :
    ∃ moved, sample.LiveMoved sampleChip (sample.compact.after sampleChip) sampleLog moved ∧
      moved.used ≤ sampleLog.used ∧
      sample.compact.outcome sampleChip = .ok {
        source := .a, target := .b, copied := 1, reclaimed := sampleLog.used - moved.used } :=
  compact_moves_live sample_mounted rfl sample_log rfl

end Store

end ParamStore
