import ParamStore.Proofs.Update
import ParamStore.Proofs.Recovery

/-! Atomicity. A chip may fail in any way during a call, short of storing a wrong bit, and differently
during the next one; still each call leaves a store that works and has its old values or the ones
that the call was to give it. -/
namespace ParamStore

/-- A call that may change the store. -/
inductive Call where
  | write (parameter : UInt16) (data : Bytes)
  | remove (parameter : UInt16)
  | compact
  | recover
  deriving DecidableEq, Repr

/-- A call, and how the chip misbehaves during it. -/
structure Event where
  faults : Faults
  call : Call
  deriving DecidableEq, Repr

def Call.run (store : Store) : Call → Action StoreError Unit
  | write parameter data => store.write parameter data
  | remove parameter => store.remove parameter
  | compact => do
    let _ ← store.compact
  | recover => do
    let _ ← store.recover

/-- The values that a call is to leave. -/
def Call.effect : Call → Values → Values
  | write parameter data, values => values.set parameter data
  | remove parameter, values => values.drop parameter
  | compact, values => values
  | recover, values => values

def Chip.withFaults (chip : Chip) (faults : Faults) : Chip := { chip with faults }

def Event.outcome (store : Store) (event : Event) (chip : Chip) : Attempt StoreError Unit :=
  (event.call.run store).outcome (chip.withFaults event.faults)

def Event.after (store : Store) (event : Event) (chip : Chip) : Chip :=
  (event.call.run store).after (chip.withFaults event.faults)

def execute (store : Store) : List Event → Chip → Chip
  | [], chip => chip
  | event :: rest, chip => execute store rest (event.after store chip)

variable {store : Store} {chip : Chip} {values : Values} {parameter : UInt16} {data : Bytes}

namespace Store

theorem Shows.write_ensures (shows : store.Shows chip.cell values) (mounted : store.Mounted chip)
    (steady : chip.faults.corruptNext = false) :
    (store.write parameter data).Ensures chip
      (fun _ after => chip.Keeps after ∧ store.Shows after.cell (values.set parameter data))
      (fun _ after => chip.Keeps after ∧ store.OldOrNew values parameter data after.cell) := by
  obtain ⟨log, holds, rfl⟩ := shows
  apply (Store.write_ensures mounted holds steady).mono
  · intro _ after done
    obtain ⟨valid, short, keeps, grown, stored⟩ := done
    exact ⟨keeps, stored.shows holds mounted valid short⟩
  · intro cause after failed
    rcases failed with refused | interrupted
    · obtain ⟨keeps, shown⟩ := refused.shows holds mounted
      exact ⟨keeps, .inl shown⟩
    · exact ⟨interrupted.keeps, interrupted.state⟩

theorem Shows.remove_ensures (shows : store.Shows chip.cell values) (mounted : store.Mounted chip)
    (steady : chip.faults.corruptNext = false) :
    (store.remove parameter).Ensures chip
      (fun _ after => chip.Keeps after ∧ store.Shows after.cell (values.drop parameter))
      (fun _ after => chip.Keeps after ∧
        (store.Shows after.cell values ∨ store.Shows after.cell (values.drop parameter))) := by
  obtain ⟨log, holds, rfl⟩ := shows
  apply (Store.remove_ensures mounted holds steady).mono
  · intro _ after done
    obtain ⟨valid, found, keeps, cells⟩ := done
    refine ⟨keeps, ?_⟩
    rw [cells]
    simpa using holds.shows_kill mounted (List.append_nil (log.copies parameter)).symm
  · intro cause after failed
    rcases failed with ⟨-, -, rfl⟩ | ⟨-, -, -, rfl⟩ | interrupted
    · exact ⟨.refl _, .inl ⟨log, holds, rfl⟩⟩
    · exact ⟨.refl _, .inl ⟨log, holds, rfl⟩⟩
    · exact ⟨interrupted.keeps, interrupted.state⟩

theorem Shows.compact_ensures (shows : store.Shows chip.cell values) (mounted : store.Mounted chip)
    (steady : chip.faults.corruptNext = false) :
    store.compact.Ensures chip
      (fun _ after => chip.Keeps after ∧ store.Shows after.cell values)
      (fun _ after => chip.Keeps after ∧ store.Shows after.cell values) := by
  obtain ⟨log, holds, rfl⟩ := shows
  apply (Store.compact_ensures mounted holds steady).mono
  · intro migration after done
    obtain ⟨-, keeps, cells, -⟩ := done
    obtain ⟨ready, -, -⟩ := holds.ready_compacted mounted
    rw [cells, ← valueOf_freshest]
    exact ⟨keeps, ready.shows⟩
  · intro cause after failed
    rcases failed with ⟨-, -, rfl⟩ | interrupted
    · exact ⟨.refl _, ⟨log, holds, rfl⟩⟩
    · exact ⟨interrupted.keeps, interrupted.state⟩

theorem Shows.recover_ensures (shows : store.Shows chip.cell values)
    (mounted : store.Mounted chip) :
    store.recover.Ensures chip
      (fun _ after => chip.Keeps after ∧ store.Shows after.cell values)
      (fun _ after => chip.Keeps after ∧ store.Shows after.cell values) := by
  obtain ⟨log, holds, rfl⟩ := shows
  have shown (cells : Nat → UInt8)
      (partly : store.PartlyErased log.segment.id.other chip.cell cells) :
      store.Shows cells (valueOf (entriesIn chip.cell log.records)) := by
    obtain ⟨still, listed⟩ := holds.congr_partly mounted partly
    exact ⟨log, still, by rw [listed]⟩
  apply (Store.recover_ensures mounted holds.active).mono
  · intro found after done
    obtain ⟨-, keeps, cells, -⟩ := done
    exact ⟨keeps, shown _ (cells ▸ partlyErased_wipe mounted _ _)⟩
  · intro cause after interrupted
    exact ⟨interrupted.keeps, shown _ interrupted.state⟩

end Store

/-- One call: what is asked for when it succeeds, all or nothing when it fails. -/
theorem Call.run_ensures (call : Call) (mounted : store.Mounted chip)
    (shows : store.Shows chip.cell values) (steady : chip.faults.corruptNext = false) :
    (call.run store).Ensures chip
      (fun _ after => chip.Keeps after ∧ store.Shows after.cell (call.effect values))
      (fun _ after => chip.Keeps after ∧
        (store.Shows after.cell values ∨ store.Shows after.cell (call.effect values))) := by
  cases call with
  | write parameter data => exact shows.write_ensures mounted steady
  | remove parameter => exact shows.remove_ensures mounted steady
  | compact =>
    apply Action.Ensures.bind
    · exact (shows.compact_ensures mounted steady).weaken
        fun _ _ failed => ⟨failed.1, .inl failed.2⟩
    · exact fun _ _ done => Action.ensures_pure done
  | recover =>
    apply Action.Ensures.bind
    · exact (shows.recover_ensures mounted).weaken
        fun _ _ failed => ⟨failed.1, .inl failed.2⟩
    · exact fun _ _ done => Action.ensures_pure done

theorem Store.Mounted.withFaults (mounted : store.Mounted chip) (faults : Faults) :
    store.Mounted (chip.withFaults faults) :=
  ⟨mounted.created, mounted.aligned, mounted.base, mounted.within, mounted.noWrap⟩

/-- What one call leaves of a store. -/
structure Event.Atomic (store : Store) (event : Event) (chip : Chip) : Prop where
  total : event.outcome store chip ≠ .error .overflow
  clean : store.Clean (event.after store chip)
  oldOrNew : store.value? (event.after store chip) = store.value? chip ∨
    store.value? (event.after store chip) = event.call.effect (store.value? chip)
  obeyed : event.outcome store chip = .ok () →
    store.value? (event.after store chip) = event.call.effect (store.value? chip)

theorem Event.step (event : Event) (mounted : store.Mounted chip) (clean : store.Clean chip)
    (steady : event.faults.corruptNext = false) :
    event.Atomic store chip ∧ store.Mounted (event.after store chip) := by
  have armed := mounted.withFaults event.faults
  have shows : store.Shows (chip.withFaults event.faults).cell (store.value? chip) :=
    mounted.shows_iff.mpr ⟨clean, rfl⟩
  rcases (event.call.run_ensures armed shows steady).outcome_cases with
    ⟨answer, outcome, keeps, shown⟩ | ⟨cause, outcome, keeps, shown⟩
  · have mountedAfter := armed.keeps keeps
    obtain ⟨cleanAfter, same⟩ := mountedAfter.shows_iff.mp shown
    refine ⟨⟨?_, cleanAfter, .inr same, fun _ => same⟩, mountedAfter⟩
    rw [Event.outcome, outcome]
    simp
  · have mountedAfter := armed.keeps keeps
    have failed : event.outcome store chip = .fail cause := outcome
    rcases shown with shown | shown
    · obtain ⟨cleanAfter, same⟩ := mountedAfter.shows_iff.mp shown
      exact ⟨⟨by simp [failed, Attempt.fail], cleanAfter, .inl same,
        by simp [failed, Attempt.fail]⟩, mountedAfter⟩
    · obtain ⟨cleanAfter, same⟩ := mountedAfter.shows_iff.mp shown
      exact ⟨⟨by simp [failed, Attempt.fail], cleanAfter, .inr same,
        by simp [failed, Attempt.fail]⟩, mountedAfter⟩

/-- Whatever befalls the calls, the store works after them. -/
theorem execute_clean (mounted : store.Mounted chip) (clean : store.Clean chip) (events : List Event)
    (steady : ∀ event ∈ events, event.faults.corruptNext = false) :
    store.Mounted (execute store events chip) ∧ store.Clean (execute store events chip) := by
  induction events generalizing chip with
  | nil => exact ⟨mounted, clean⟩
  | cons event rest ih =>
    obtain ⟨atomic, mountedAfter⟩ := event.step mounted clean (steady event (by simp))
    exact ih mountedAfter atomic.clean fun other member => steady other (by simp [member])

/-- Every call of every run is atomic, however the chip fails during the calls, as long as it stores
no wrong bit. -/
theorem execute_atomic (mounted : store.Mounted chip) (clean : store.Clean chip)
    (events : List Event) (steady : ∀ event ∈ events, event.faults.corruptNext = false)
    (done : List Event) (event : Event) (rest : List Event)
    (split : events = done ++ event :: rest) :
    event.Atomic store (execute store done chip) := by
  subst split
  obtain ⟨mountedThen, cleanThen⟩ := execute_clean mounted clean done
    fun other member => steady other (by simp [member])
  exact (event.step mountedThen cleanThen (steady event (by simp))).1

/-- A write that loses power half-way, and the removal behind it on a chip with a locked page. -/
theorem execute_atomic_sample :
    Event.Atomic Store.sample ⟨{ writeProtected := 1 }, .remove 7⟩
      (execute Store.sample [⟨{ powerBudget := some 3 }, .write 7 [0x33]⟩] Store.sampleChip) :=
  execute_atomic Store.sample_mounted ⟨_, Store.sample_log⟩
    [⟨{ powerBudget := some 3 }, .write 7 [0x33]⟩, ⟨{ writeProtected := 1 }, .remove 7⟩]
    (by decide) [⟨{ powerBudget := some 3 }, .write 7 [0x33]⟩] _ [] rfl

end ParamStore
