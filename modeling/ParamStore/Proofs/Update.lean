import ParamStore.Proofs.Append
import ParamStore.Proofs.Compaction

/-! Setting a value. The new record goes behind the log if it fits there into erased cells, and behind
the compacted log otherwise; a write says everything that can become of a store, with or without an
interruption. -/
namespace ParamStore

/-- A record of this size can be appended as things are. -/
structure Log.Takes (log : Log) (cells : Nat → UInt8) (size : UInt16) : Prop where
  fits : nextOffset log.tail size ≤ log.segment.stop
  blank : Blank cells log.tail log.segment.stop

namespace Store

variable {store : Store} {chip : Chip} {cells : Nat → UInt8} {log : Log} {parameter : UInt16}
  {data : Bytes}

/-- What a write leaves that has stored its value. -/
inductive Stored (store : Store) (cells : Nat → UInt8) (log : Log) (parameter : UInt16)
    (data : Bytes) : (Nat → UInt8) → Log → Prop
  | inPlace (takes : log.Takes cells (.ofNat data.length)) :
    Stored store cells log parameter data (appended cells log parameter data)
      (log.append parameter data)
  | moved (full : ¬log.Takes cells (.ofNat data.length))
    (unmarked : ¬store.InUse cells log.segment.id.other)
    (fits : nextOffset (store.relocated log).tail (.ofNat data.length) ≤ (store.spare log).stop) :
    Stored store cells log parameter data
      (appended (store.compacted cells log) (store.relocated log) parameter data)
      ((store.relocated log).append parameter data)

/-- Why a write that nothing interrupts stores no value, and what it leaves. -/
inductive Refused (store : Store) (chip : Chip) (log : Log) (parameter : UInt16) (data : Bytes) :
    StoreError → Chip → Prop
  | reserved (invalid : isValidParameter parameter = false) :
    Refused store chip log parameter data .invalidParameter chip
  | tooLong (valid : isValidParameter parameter = true) (long : maxPayload < data.length) :
    Refused store chip log parameter data .tooLarge chip
  /-- Not even an empty segment would take the record. -/
  | hopeless (valid : isValidParameter parameter = true)
    (full : ¬log.Takes chip.cell (.ofNat data.length))
    (small : log.segment.stop < nextOffset log.segment.firstRecord (.ofNat data.length)) :
    Refused store chip log parameter data .tooLarge chip
  | occupied (valid : isValidParameter parameter = true)
    (full : ¬log.Takes chip.cell (.ofNat data.length))
    (inUse : store.InUse chip.cell log.segment.id.other) :
    Refused store chip log parameter data .targetInUse chip
  /-- The compacted log does not take it either. -/
  | crowded (valid : isValidParameter parameter = true)
    (full : ¬log.Takes chip.cell (.ofNat data.length))
    (unmarked : ¬store.InUse chip.cell log.segment.id.other) (short : data.length ≤ maxPayload)
    (hopeful : nextOffset log.segment.firstRecord (.ofNat data.length) ≤ log.segment.stop)
    (packed : (store.spare log).stop < nextOffset (store.relocated log).tail (.ofNat data.length))
    {after : Chip} (keeps : chip.Keeps after)
    (moved : after.cell = store.compacted chip.cell log) :
    Refused store chip log parameter data .tooLarge after

/-- Both ways of storing a value end in a log that is ready for the next one. -/
theorem Stored.ready {new : Nat → UInt8} {grown : Log}
    (stored : store.Stored cells log parameter data new grown) (holds : store.Holds cells log)
    (mounted : store.Mounted chip) (valid : isValidParameter parameter = true)
    (short : data.length ≤ maxPayload) :
    ∃ entries, store.Ready new grown entries ∧
      freshest entries = (freshest (entriesIn cells log.records)).filter (·.parameter != parameter) ++
        [⟨parameter, data⟩] := by
  cases stored with
  | inPlace takes =>
    have ready : store.Ready cells log (entriesIn cells log.records) := ⟨holds, rfl, takes.blank⟩
    refine ⟨_, ready.append mounted valid short takes.fits, ?_⟩
    rw [freshest_snoc _ _ valid, freshest_bury, List.filter_filter]
    simp
  | moved full unmarked fits =>
    obtain ⟨ready, -, -⟩ := holds.ready_compacted mounted
    refine ⟨_, ready.append mounted valid short fits, ?_⟩
    rw [freshest_snoc _ _ valid, freshest_bury, List.filter_filter, freshest_idem]
    simp

theorem Stored.shows {new : Nat → UInt8} {grown : Log}
    (stored : store.Stored cells log parameter data new grown) (holds : store.Holds cells log)
    (mounted : store.Mounted chip) (valid : isValidParameter parameter = true)
    (short : data.length ≤ maxPayload) :
    store.Shows new ((valueOf (entriesIn cells log.records)).set parameter data) := by
  obtain ⟨entries, ready, listed⟩ := stored.ready holds mounted valid short
  rw [← valueOf_freshest (entriesIn cells log.records), ← valueOf_replace _ _ valid, ← listed,
    valueOf_freshest]
  exact ready.shows

/-- A write that is refused changes no value. -/
theorem Refused.shows {cause : StoreError} {after : Chip}
    (refused : store.Refused chip log parameter data cause after)
    (holds : store.Holds chip.cell log) (mounted : store.Mounted chip) :
    chip.Keeps after ∧ store.Shows after.cell (valueOf (entriesIn chip.cell log.records)) := by
  cases refused with
  | reserved | tooLong | hopeless | occupied => exact ⟨.refl chip, log, holds, rfl⟩
  | crowded _ _ _ _ _ _ keeps moved =>
    obtain ⟨ready, -, -⟩ := holds.ready_compacted mounted
    rw [moved, ← valueOf_freshest (entriesIn chip.cell log.records)]
    exact ⟨keeps, ready.shows⟩

theorem tryNextOffset_of_short {ε : Type} {position stop : Nat} (inside : position ≤ stop)
    (fits : stop + 65542 < 0x100000000) (short : data.length ≤ maxPayload) :
    (tryNextOffset position (.ofNat data.length) : Attempt ε Nat) =
      .ok (nextOffset position (.ofNat data.length)) := by
  apply tryNextOffset_eq
  rw [size_ofNat_toNat short]
  simp only [maxPayload] at short
  simp only [headerSize]
  omega

/-- A log is reserved exactly when it takes the record. -/
theorem reserve_spec (mounted : store.Mounted chip) (holds : store.Holds chip.cell log)
    (short : data.length ≤ maxPayload) :
    (store.reserve chip (.ofNat data.length) = .ok (some log) ∧
      log.Takes chip.cell (.ofNat data.length)) ∨
    (store.reserve chip (.ofNat data.length) = .ok none ∧
      ¬log.Takes chip.cell (.ofNat data.length)) := by
  have placed := holds.placed mounted
  have bounds := holds.tail_le mounted
  have next : (tryNextOffset log.tail (.ofNat data.length) : Attempt StoreError Nat) = _ :=
    tryNextOffset_of_short bounds.2 placed.fits short
  obtain ⟨blank, found, correct⟩ := mounted.isBlank_spec bounds.2 placed.inside
  simp only [reserve, mounted.log_eq_ok_iff.mpr holds, next, Log.free, found, bind, Except.bind,
    pure, Except.pure]
  by_cases small : log.segment.stop < nextOffset log.tail (.ofNat data.length)
  · rw [if_pos small]
    exact .inr ⟨rfl, fun takes => Nat.not_le_of_lt small takes.fits⟩
  rw [if_neg small]
  cases blank with
  | true => exact .inl ⟨rfl, Nat.le_of_not_lt small, correct.mp rfl⟩
  | false => exact .inr ⟨rfl, fun takes => Bool.noConfusion (correct.mpr takes.blank)⟩

/-- The values that a write may leave: the old ones, or the ones asked for. -/
abbrev OldOrNew (store : Store) (values : Values) (parameter : UInt16) (data : Bytes)
    (cells : Nat → UInt8) : Prop :=
  store.Shows cells values ∨ store.Shows cells (values.set parameter data)

theorem makeRoom_ensures (mounted : store.Mounted chip) (holds : store.Holds chip.cell log)
    (steady : chip.faults.corruptNext = false) (short : data.length ≤ maxPayload) :
    (store.makeRoom (.ofNat data.length)).Ensures chip
      (fun _ after => ¬store.InUse chip.cell log.segment.id.other ∧
        nextOffset log.segment.firstRecord (.ofNat data.length) ≤ log.segment.stop ∧
        chip.Keeps after ∧ after.cell = store.compacted chip.cell log)
      (fun cause after =>
        (cause = .tooLarge ∧ after = chip ∧
          log.segment.stop < nextOffset log.segment.firstRecord (.ofNat data.length)) ∨
        (cause = .targetInUse ∧ after = chip ∧ store.InUse chip.cell log.segment.id.other) ∨
        chip.Interrupted (store.Shows · (valueOf (entriesIn chip.cell log.records)))
          cause after) := by
  have found := mounted.active_eq holds.active
  have placed := holds.placed mounted
  rw [← holds.segment] at found
  unfold makeRoom
  apply Action.ensures_observe_bind found
  apply Action.ensures_observe_bind (tryNextOffset_of_short placed.firstRecord_le placed.fits short)
  by_cases small : log.segment.stop < nextOffset log.segment.firstRecord (.ofNat data.length)
  · rw [if_pos small]
    exact Action.ensures_fail (.inl ⟨rfl, rfl, small⟩)
  rw [if_neg small]
  apply Action.Ensures.bind
  · apply (store.compact_ensures mounted holds steady).weaken
    intro cause after failed
    rcases failed with ⟨refused, inUse, same⟩ | interrupted
    · exact .inr (.inl ⟨refused, same, inUse⟩)
    · exact .inr (.inr interrupted)
  · intro migration after done
    obtain ⟨unmarked, keeps, cells, -⟩ := done
    exact Action.ensures_pure ⟨unmarked, Nat.le_of_not_lt small, keeps, cells⟩

/-- A write can be seen before it is done: it is on its way to store the value, and has an old one to
kill after that, or a controller that hangs after the last half-word. -/
structure Underway (store : Store) (chip : Chip) (log : Log) (parameter : UInt16) (data : Bytes) :
    Prop where
  stored : ∃ new grown, store.Stored chip.cell log parameter data new grown
  early : chip.faults.stuckBusy = true ∨
    valueOf (entriesIn chip.cell log.records) parameter ≠ none

theorem write_cases (mounted : store.Mounted chip) (holds : store.Holds chip.cell log)
    (steady : chip.faults.corruptNext = false) :
    (store.write parameter data).Ensures chip
      (fun _ after => isValidParameter parameter = true ∧ data.length ≤ maxPayload ∧
        chip.Keeps after ∧ ∃ grown, store.Stored chip.cell log parameter data after.cell grown)
      (fun cause after => store.Refused chip log parameter data cause after ∨
        chip.Interrupted (fun cells =>
          store.Shows cells (valueOf (entriesIn chip.cell log.records)) ∨
          (store.Shows cells ((valueOf (entriesIn chip.cell log.records)).set parameter data) ∧
            store.Underway chip log parameter data)) cause after) := by
  unfold write
  by_cases valid : isValidParameter parameter = true
  case neg =>
    rw [if_pos (by simp [valid])]
    exact Action.ensures_fail (.inl (.reserved (by simpa using valid)))
  rw [if_neg (by simp [valid])]
  by_cases long : maxPayload < data.length
  · rw [if_pos long]
    exact Action.ensures_fail (.inl (.tooLong valid long))
  rw [if_neg long]
  have short := Nat.le_of_not_lt long
  rcases reserve_spec mounted holds short with ⟨reserved, takes⟩ | ⟨reserved, full⟩
  · apply Action.ensures_observe_bind reserved
    have ready : store.Ready chip.cell log (entriesIn chip.cell log.records) :=
      ⟨holds, rfl, takes.blank⟩
    apply (append_ensures mounted ready valid short takes.fits steady).mono
    · intro _ after done
      obtain ⟨keeps, cells⟩ := done
      refine ⟨valid, short, keeps, log.append parameter data, ?_⟩
      rw [cells]
      exact .inPlace takes
    · intro cause after interrupted
      refine .inr (interrupted.mono fun cells shown => shown.imp_right fun new => ?_)
      exact ⟨new.1, ⟨_, _, .inPlace takes⟩, new.2⟩
  · apply Action.ensures_observe_bind reserved
    apply Action.Ensures.bind
    · apply (makeRoom_ensures mounted holds steady short).weaken
      intro cause after failed
      rcases failed with ⟨rfl, rfl, small⟩ | ⟨rfl, rfl, inUse⟩ | interrupted
      · exact .inl (.hopeless valid full small)
      · exact .inl (.occupied valid full inUse)
      · exact .inr (interrupted.mono fun cells shown => .inl shown)
    intro _ middle done
    obtain ⟨unmarked, hopeful, keeps, cells⟩ := done
    obtain ⟨ready, -, -⟩ := holds.ready_compacted mounted
    have kept := mounted.keeps keeps
    rw [← cells] at ready
    rcases reserve_spec kept ready.holds short with ⟨again, room⟩ | ⟨again, crowded⟩
    · apply Action.ensures_observe_bind again
      apply (append_ensures kept ready valid short room.fits (keeps.steady steady)).mono
      · intro _ after done
        obtain ⟨further, final⟩ := done
        refine ⟨valid, short, keeps.trans further, (store.relocated log).append parameter data, ?_⟩
        rw [final, cells]
        exact .moved full unmarked room.fits
      · intro cause after interrupted
        rw [valueOf_freshest] at interrupted
        refine .inr (.since keeps (interrupted.mono fun cells shown => shown.imp_right fun new => ?_))
        exact ⟨new.1, ⟨_, _, .moved full unmarked room.fits⟩, keeps.response ▸ new.2⟩
    · apply Action.ensures_observe_bind again
      refine Action.ensures_fail (.inl (.crowded valid full unmarked short hopeful ?_ keeps cells))
      exact Nat.lt_of_not_le fun fits => crowded ⟨fits, ready.blank⟩

theorem write_ensures (mounted : store.Mounted chip) (holds : store.Holds chip.cell log)
    (steady : chip.faults.corruptNext = false) :
    (store.write parameter data).Ensures chip
      (fun _ after => isValidParameter parameter = true ∧ data.length ≤ maxPayload ∧
        chip.Keeps after ∧ ∃ grown, store.Stored chip.cell log parameter data after.cell grown)
      (fun cause after => store.Refused chip log parameter data cause after ∨
        chip.Interrupted (store.OldOrNew (valueOf (entriesIn chip.cell log.records)) parameter data)
          cause after) := by
  apply (write_cases mounted holds steady).weaken
  intro cause after failed
  exact failed.imp_right fun interrupted =>
    interrupted.mono fun cells shown => shown.imp_right And.left

end Store

end ParamStore
