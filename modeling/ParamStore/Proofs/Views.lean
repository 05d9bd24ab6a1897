import ParamStore.Proofs.Failures
import ParamStore.Proofs.Lookahead

/-! The views of a log. Reading a value, asking for one, counting records and showing the live
parameters to a visitor are walks of their own over the same cells. The last of them walks the log
once for every live record, and calls its visitor before it has come to the end. Still no view
shows what another one does not, and on a log that cannot be walked all of them fail alike: nothing
has been shown by then, since the last record of a parameter is known only at the end. -/
namespace ParamStore

section Visiting

variable {σ : Type} {region : Region} {chip : Chip} {visit : σ → Header → σ} {state : σ}
  {position stop : Nat}

/-- Nothing of a log that cannot be walked is shown. -/
theorem visitLive_of_broken {failure : Failure StoreError} (onChip : region.OnChip chip)
    (inside : stop ≤ region.length) (fits : stop + 65542 < 0x100000000) (aligned : stop % 4 = 0)
    (bound : position ≤ stop)
    (broken : (walk region chip position stop).ending = .error failure) :
    visitLive region chip visit state position stop = (state, .error failure) := by
  fun_induction walk region chip position stop with
  | case1 position record found forward rest ih =>
    have stands := ((recordAt_eq_some_iff onChip inside fits bound).mp found).2
    have next : min record.next stop = record.next :=
      Nat.min_eq_left ((nextOffset_le_iff aligned).mpr stands.inside)
    have behind : (walk region chip record.next stop).ending = .error failure := by
      rwa [← next]
    have failed := ih (by omega) broken
    cases live : record.isLive with
    | false => exact (visitLive_of_dead found live).trans failed
    | true =>
      cases hasLaterCopy_of_broken record.parameter behind with
      | inl seen => exact (visitLive_of_superseded found seen).trans failed
      | inr lost => exact visitLive_of_lost found live lost
  | case2 => cases broken
  | case3 position reported found =>
    cases broken
    exact visitLive_of_failure found

/-- The visitor is shown the records that survive, in their order. -/
theorem visitLive_of_linked {records : List Record} {tail : Nat} (onChip : region.OnChip chip)
    (inside : stop ≤ region.length) (fits : stop + 65542 < 0x100000000) (aligned : stop % 4 = 0)
    (bound : position ≤ stop) (linked : Linked chip.cell stop position records tail)
    (ends : EndsAt chip.cell stop tail) :
    visitLive region chip visit state position stop =
      (((survivors records).map Record.toHeader).foldl visit state, .ok ()) := by
  induction records generalizing position state with
  | nil =>
    obtain rfl : position = tail := linked
    exact visitLive_of_end ((recordAt_eq_none_iff onChip inside fits bound).mpr ends)
  | cons record rest ih =>
    obtain ⟨start, stands, linked⟩ := linked
    have room : record.next ≤ stop := (nextOffset_le_iff aligned).mpr stands.inside
    have found := (recordAt_eq_some_iff onChip inside fits bound).mpr ⟨start, stands⟩
    have ahead := hasLaterCopy_of_linked onChip inside fits aligned room linked ends
      record.parameter
    have later (state : σ) : visitLive region chip visit state (min record.next stop) stop =
        (((survivors rest).map Record.toHeader).foldl visit state, .ok ()) := by
      rw [Nat.min_eq_left room]
      exact ih room linked
    cases live : record.isLive with
    | false =>
      have dropped : survivors (record :: rest) = survivors rest := if_neg (by simp [live])
      rw [dropped, visitLive_of_dead found live, later]
    | true =>
      cases copies : rest.any (·.parameter == record.parameter) with
      | false =>
        have kept : survivors (record :: rest) = record :: survivors rest :=
          if_pos ⟨live, by simpa using copies⟩
        rw [kept, visitLive_of_last found live (ahead.trans (congrArg _ copies)), later]
        rfl
      | true =>
        have dropped : survivors (record :: rest) = survivors rest :=
          if_neg (by simpa [live] using copies)
        rw [dropped, visitLive_of_superseded found (ahead.trans (congrArg _ copies)), later]

end Visiting

theorem Log.ending_of_read {region : Region} {chip : Chip} {segment : Segment}
    {failure : Failure StoreError} (broken : Log.read region chip segment = .error failure) :
    (walk region chip segment.firstRecord segment.stop).ending = .error failure := by
  rw [Log.read] at broken
  cases ended : (walk region chip segment.firstRecord segment.stop).ending with
  | ok tail => simp [ended, bind, Except.bind, pure, Except.pure] at broken
  | error other => simpa [ended, bind, Except.bind] using broken

/-- A live parameter's last record is among the last ones. -/
theorem Log.mem_lasts_of_latest {log : Log} {parameter : UInt16} {record : Record}
    (valid : isValidParameter parameter = true) (latest : log.latest? parameter = some record) :
    record ∈ log.lasts ∧ record.parameter = parameter := by
  obtain ⟨known, named⟩ := List.mem_filter.mp (List.mem_of_getLast? latest)
  have named : record.parameter = parameter := by simpa using named
  refine ⟨List.mem_filter.mpr ⟨known, ?_⟩, named⟩
  simp [Header.isLive, named, valid, latest]

theorem Log.lasts_sublist (log : Log) :
    log.lasts.Sublist (log.records.filter (!·.isTombstone)) := by
  apply List.monotone_filter_right
  intro record chosen
  have live := (Bool.and_eq_true_iff.mp chosen).1
  simpa [Header.isTombstone] using (isValidParameter_iff.mp live).1

namespace Store

variable {store : Store} {chip : Chip} {log : Log} {segment : Segment}

/-- What the views of a log that has been walked show: these live parameters and these numbers. -/
structure Agreement (store : Store) (chip : Chip) (walked : Walk) (headers : List Header)
    (stats : Stats) : Prop where
  listed : store.live chip = .ok headers
  visited : ∀ {σ : Type} (visit : σ → Header → σ) (state : σ),
    store.forEachLive chip visit state = (headers.foldl visit state, .ok ())
  once : (headers.map (·.parameter)).Nodup
  present : ∀ parameter,
    parameter ∈ headers.map (·.parameter) ↔ store.contains chip parameter = .ok true
  sized : ∀ header ∈ headers, ∃ value : Bytes, value.length = header.size.toNat ∧
    ∀ capacity, store.read chip header.parameter capacity =
      .ok ⟨value.take capacity, capacity < value.length⟩
  counted : store.stats chip = .ok stats
  room : stats.used + stats.free = store.layout.segmentSize
  records : stats.live + stats.tombstoned = walked.records.length
  alive : headers.length ≤ stats.live

/-- Every view reports that the log is corrupt, the visitor has been shown nothing, and a change is
given up before it begins. -/
structure Unreadable (store : Store) (chip : Chip) : Prop where
  reads : ∀ parameter capacity, isValidParameter parameter = true →
    store.read chip parameter capacity = .fail .corrupt
  asks : ∀ parameter, isValidParameter parameter = true →
    store.contains chip parameter = .fail .corrupt
  writes : ∀ parameter data, isValidParameter parameter = true → data.length ≤ maxPayload →
    (store.write parameter data).outcome chip = .fail .corrupt ∧
      (store.write parameter data).after chip = chip
  removes : ∀ parameter, isValidParameter parameter = true →
    (store.remove parameter).outcome chip = .fail .corrupt ∧
      (store.remove parameter).after chip = chip
  counts : store.stats chip = .fail .corrupt
  lists : store.live chip = .fail .corrupt
  visits : ∀ {σ : Type} (visit : σ → Header → σ) (state : σ),
    store.forEachLive chip visit state = (state, .fail .corrupt)

theorem value_of_mem_lasts {cells : Nat → UInt8} {record : Record} (member : record ∈ log.lasts) :
    valueOf (entriesIn cells log.records) record.parameter = some (payloadIn cells record) := by
  obtain ⟨live, latest⟩ := Log.isLive_of_mem_lasts member
  rw [valueOf_entriesIn _ _ live]
  exact congrArg (Option.map _) latest

theorem Mounted.contains_iff (mounted : store.Mounted chip) (holds : store.Holds chip.cell log)
    (parameter : UInt16) :
    store.contains chip parameter = .ok true ↔
      parameter ∈ log.lasts.map (·.parameter) := by
  rw [mounted.contains_eq holds, Except.ok.injEq, List.mem_map]
  constructor
  · intro some
    by_cases valid : isValidParameter parameter = true
    · rw [valueOf_entriesIn _ _ valid, Option.isSome_map] at some
      obtain ⟨record, latest⟩ := Option.isSome_iff_exists.mp some
      exact ⟨record, Log.mem_lasts_of_latest valid latest⟩
    · rw [valueOf_reserved (by simpa using valid)] at some
      cases some
  · rintro ⟨record, member, rfl⟩
    rw [value_of_mem_lasts member]
    rfl

theorem Mounted.forEachLive_eq {σ : Type} (mounted : store.Mounted chip)
    (holds : store.Holds chip.cell log) (visit : σ → Header → σ) (state : σ) :
    store.forEachLive chip visit state =
      ((log.lasts.map Record.toHeader).foldl visit state, .ok ()) := by
  have found := mounted.active_eq holds.active
  have placed := holds.placed mounted
  rw [← holds.segment] at found
  rw [forEachLive, found, ← holds.survivors_eq]
  exact visitLive_of_linked mounted.onChip placed.inside placed.fits placed.stopWord
    placed.firstRecord_le holds.linked holds.ends

theorem Mounted.forEachLive_of_broken {σ : Type} (mounted : store.Mounted chip)
    (found : store.active chip = .ok segment)
    (broken : (walk store.region chip segment.firstRecord segment.stop).ending = .fail .corrupt)
    (visit : σ → Header → σ) (state : σ) :
    store.forEachLive chip visit state = (state, .fail .corrupt) := by
  obtain ⟨id, -, rfl⟩ := mounted.active_of_eq found
  have placed := mounted.placed id
  rw [forEachLive, found]
  exact visitLive_of_broken mounted.onChip placed.inside placed.fits placed.stopWord
    placed.firstRecord_le broken

/-- Visiting is to go through the list, on every chip: what cannot be listed is not shown in part. -/
theorem Mounted.forEachLive_eq_foldl {σ : Type} (mounted : store.Mounted chip)
    (visit : σ → Header → σ) (state : σ) :
    store.forEachLive chip visit state =
      (((store.live chip).toOption.getD []).foldl visit state, (store.live chip).map fun _ => ()) := by
  cases mounted.condition with
  | works holds =>
    rw [mounted.forEachLive_eq holds, mounted.live_eq holds, holds.survivors_eq]
    rfl
  | unused unused =>
    simp only [forEachLive, Store.live, Store.log, mounted.active_of_unused unused, bind,
      Except.bind, Attempt.fail]
    rfl
  | corrupt active broken =>
    have found := mounted.active_eq active
    rw [mounted.forEachLive_of_broken found (Log.ending_of_read broken), Store.live, Store.log, found]
    simp only [bind, Except.bind, broken]
    rfl

theorem Mounted.agreement (mounted : store.Mounted chip) (holds : store.Holds chip.cell log)
    (small : store.layout.segmentSize ≤ 0x40000) :
    ∃ headers stats, store.Agreement chip
      (walk store.region chip log.segment.firstRecord log.segment.stop) headers stats := by
  refine ⟨log.lasts.map Record.toHeader, _, ?_, mounted.forEachLive_eq holds, ?_, ?_, ?_,
    mounted.stats_of_small holds small, ?_, ?_, ?_⟩
  · rw [mounted.live_eq holds, holds.survivors_eq]
  · rw [List.map_map]
    exact holds.lasts_unique
  · intro parameter
    rw [mounted.contains_iff holds, List.map_map]
    rfl
  · intro header member
    obtain ⟨record, last, rfl⟩ := List.mem_map.mp member
    refine ⟨payloadIn chip.cell record, length_bytesAt .., fun capacity => ?_⟩
    rw [mounted.read_eq holds (Log.isLive_of_mem_lasts last).1, value_of_mem_lasts last]
  · have stop := store.segment_stop log.segment.id
    have tail := holds.tail_le mounted
    rw [← holds.segment] at stop
    simp only [Log.used, Log.free, Segment.firstRecord] at tail ⊢
    omega
  · have parts := List.length_eq_countP_add_countP (·.isTombstone) (l := log.records)
    rw [mounted.walk_eq holds, parts, Nat.add_comm]
    simp
  · rw [List.length_map, List.countP_eq_length_filter]
    exact log.lasts_sublist.length_le

theorem Mounted.unreadable (mounted : store.Mounted chip) (found : store.active chip = .ok segment)
    (small : store.layout.segmentSize ≤ 0x40000)
    (broken : (walk store.region chip segment.firstRecord segment.stop).ending =
      .fail .corrupt) : store.Unreadable chip := by
  obtain ⟨id, -, rfl⟩ := mounted.active_of_eq found
  have lost : store.log chip = .fail .corrupt := by
    simp only [Store.log, Log.read, found, broken, bind, Except.bind, Attempt.fail]
  refine ⟨?_, ?_, ?_, ?_, ?_, ?_, ?_⟩
  · intro parameter capacity valid
    rw [Store.read, if_neg (by simp [valid]), lost]
    rfl
  · intro parameter valid
    rw [Store.contains, if_neg (by simp [valid]), lost]
    rfl
  · intro parameter data valid short
    have failed : (store.write parameter data).Ensures chip _ _ := write_without_log lost
    rcases failed.outcome_cases with
      ⟨_, -, nothing⟩ | ⟨cause, outcome, same, ⟨-, invalid⟩ | ⟨-, long⟩ | rfl⟩
    · exact nothing.elim
    · rw [valid] at invalid
      cases invalid
    · omega
    · exact ⟨outcome, same⟩
  · intro parameter valid
    rcases (remove_without_log lost).outcome_cases with
      ⟨_, -, nothing⟩ | ⟨cause, outcome, same, ⟨-, invalid⟩ | rfl⟩
    · exact nothing.elim
    · rw [valid] at invalid
      cases invalid
    · exact ⟨outcome, same⟩
  · -- The counters hold what has been walked before the walk fails.
    have few := store.few_records chip id small
    have counted (kind : Record → Bool) : (Attempt.fitHalfword ((walk store.region chip
        (store.segment id).firstRecord (store.segment id).stop).records.countP kind) :
        Attempt StoreError Nat) = .ok _ := if_pos (Nat.lt_of_le_of_lt List.countP_le_length few)
    simp only [stats, found, counted, broken, bind, Except.bind, Attempt.fail]
  · simp only [Store.live, lost, bind, Except.bind, Attempt.fail]
  · exact mounted.forEachLive_of_broken found broken

/-- Whatever the chip holds, the views of a log that can be walked agree, and on one that cannot
they fail alike. -/
theorem views_agree (mounted : store.Mounted chip) (found : store.active chip = .ok segment)
    (small : store.layout.segmentSize ≤ 0x40000) :
    ((walk store.region chip segment.firstRecord segment.stop).ending ≠ .fail .corrupt →
      ∃ headers stats, store.Agreement chip
        (walk store.region chip segment.firstRecord segment.stop) headers stats) ∧
    ((walk store.region chip segment.firstRecord segment.stop).ending = .fail .corrupt →
      store.Unreadable chip) := by
  constructor
  · intro sound
    obtain ⟨id, -, rfl⟩ := mounted.active_of_eq found
    have placed := mounted.placed id
    cases walk_ending_cases mounted.onChip placed.inside placed.fits placed.firstRecord_le with
    | inl ended =>
      obtain ⟨tail, ended⟩ := ended
      have walked : store.log chip = .ok ⟨store.segment id, (walk store.region chip
          (store.segment id).firstRecord (store.segment id).stop).records, tail⟩ := by
        simp only [Store.log, Log.read, found, ended, bind, Except.bind, pure, Except.pure]
      exact mounted.agreement (mounted.log_eq_ok_iff.mp walked) small
    | inr broken => exact absurd broken sound
  · exact mounted.unreadable found small

theorem views_agree_samples :
    (∃ headers stats, sample.Agreement sampleChip (walk sample.region sampleChip
      (sample.segment .a).firstRecord (sample.segment .a).stop) headers stats) ∧
    small.Unreadable tornChip := by
  constructor
  · apply (views_agree sample_mounted (sample_mounted.active_eq sample_holds.active) (by decide)).1
    have walked := sample_mounted.walk_eq sample_holds
    intro broken
    rw [sample_holds.segment] at walked
    rw [walked] at broken
    cases broken
  · have active : small.Active tornChip.cell .a := by decide
    apply (views_agree tornChip_mounted (tornChip_mounted.active_eq active) (by decide)).2
    rw [walk_of_failure rfl]
    rfl

end Store

end ParamStore
