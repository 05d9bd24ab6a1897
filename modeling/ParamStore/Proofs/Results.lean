import ParamStore.Proofs.Admission

/-! What calls come to when nothing interrupts them. The answer of a call and the values after it are a
function of the log and its values, by whatever way the call gets there. -/
namespace ParamStore.Store

variable {store : Store} {chip : Chip} {log : Log} {parameter : UInt16} {data : Bytes} {α : Type}

/-- The call gives this answer and leaves a store with these values. -/
structure Yields (store : Store) (action : Action StoreError α) (chip : Chip)
    (result : Attempt StoreError α × Values) : Prop where
  outcome : action.outcome chip = result.1
  mounted : store.Mounted (action.after chip)
  shows : store.Shows (action.after chip).cell result.2

theorem Mounted.yields {action : Action StoreError α} {result : Attempt StoreError α × Values}
    (mounted : store.Mounted chip)
    (ensured : action.Ensures chip
      (fun answer after => chip.Keeps after ∧
        result.1 = .ok answer ∧ store.Shows after.cell result.2)
      (fun cause after => chip.Keeps after ∧
        result.1 = .fail cause ∧ store.Shows after.cell result.2)) :
    store.Yields action chip result := by
  rcases ensured.outcome_cases with ⟨answer, outcome, keeps, known, shown⟩ |
    ⟨cause, outcome, keeps, known, shown⟩
  · exact ⟨outcome.trans known.symm, mounted.keeps keeps, shown⟩
  · exact ⟨outcome.trans known.symm, mounted.keeps keeps, shown⟩

/-- What a write comes to. -/
def written (log : Log) (values : Values) (parameter : UInt16) (data : Bytes) :
    Attempt StoreError Unit × Values :=
  if isValidParameter parameter then
    if data.length ≤ maxPayload ∧ Fits log (.ofNat data.length) then
      (.ok (), values.set parameter data)
    else (.fail .tooLarge, values)
  else (.fail .invalidParameter, values)

def removed (log : Log) (values : Values) (parameter : UInt16) :
    Attempt StoreError Unit × Values :=
  if isValidParameter parameter then
    if (log.copies parameter).isEmpty then (.fail .notFound, values)
    else (.ok (), values.drop parameter)
  else (.fail .invalidParameter, values)

def migrated (store : Store) (log : Log) (values : Values) :
    Attempt StoreError Migration × Values :=
  (.ok ⟨log.segment.id, log.segment.id.other, (survivors log.records).length,
    log.used - (store.relocated log).used⟩, values)

theorem Refused.written_eq {cause : StoreError} {after : Chip} (values : Values)
    (refused : store.Refused chip log parameter data cause after)
    (holds : store.Holds chip.cell log) (mounted : store.Mounted chip)
    (alone : ¬store.InUse chip.cell log.segment.id.other) :
    written log values parameter data = (.fail cause, values) := by
  have large := refused.not_fits holds mounted
  cases refused with
  | reserved invalid => rw [written, if_neg (by simp [invalid])]
  | tooLong valid long =>
    rw [written, if_pos valid, if_neg fun fits => Nat.not_le_of_lt long fits.1]
  | occupied _ _ inUse => exact absurd inUse alone
  | hopeless valid | crowded valid =>
    rw [written, if_pos valid, if_neg fun fits => (large valid fits.1 alone).2 fits.2]

theorem write_yields (mounted : store.Mounted chip) (faultless : chip.Faultless)
    (holds : store.Holds chip.cell log) (alone : ¬store.InUse chip.cell log.segment.id.other) :
    store.Yields (store.write parameter data) chip
      (written log (valueOf (entriesIn chip.cell log.records)) parameter data) := by
  apply mounted.yields
  apply (store.write_ensures mounted holds faultless.steady).mono
  · intro _ after done
    obtain ⟨valid, short, keeps, grown, stored⟩ := done
    rw [written, if_pos valid, if_pos ⟨short, stored.fits holds mounted⟩]
    exact ⟨keeps, rfl, stored.shows holds mounted valid short⟩
  · intro cause after failed
    rcases failed with refused | interrupted
    · rw [refused.written_eq _ holds mounted alone]
      obtain ⟨keeps, shown⟩ := refused.shows holds mounted
      exact ⟨keeps, rfl, shown⟩
    · exact absurd faultless interrupted.faulty

theorem remove_yields (mounted : store.Mounted chip) (faultless : chip.Faultless)
    (holds : store.Holds chip.cell log) :
    store.Yields (store.remove parameter) chip
      (removed log (valueOf (entriesIn chip.cell log.records)) parameter) := by
  apply mounted.yields
  apply (store.remove_ensures mounted holds faultless.steady).mono
  · intro _ after done
    obtain ⟨valid, present, keeps, cells⟩ := done
    rw [removed, if_pos valid, if_neg (by simp [present]), cells]
    exact ⟨keeps, rfl,
      by simpa using holds.shows_kill mounted (List.append_nil (log.copies parameter)).symm⟩
  · intro cause after failed
    rcases failed with ⟨rfl, invalid, rfl⟩ | ⟨rfl, valid, absent, rfl⟩ | interrupted
    · rw [removed, if_neg (by simp [invalid])]
      exact ⟨.refl _, rfl, log, holds, rfl⟩
    · rw [removed, if_pos valid, if_pos (by simp [absent])]
      exact ⟨.refl _, rfl, log, holds, rfl⟩
    · exact absurd faultless interrupted.faulty

theorem compact_yields (mounted : store.Mounted chip) (faultless : chip.Faultless)
    (holds : store.Holds chip.cell log) (alone : ¬store.InUse chip.cell log.segment.id.other) :
    store.Yields store.compact chip
      (store.migrated log (valueOf (entriesIn chip.cell log.records))) := by
  apply mounted.yields
  apply (store.compact_ensures mounted holds faultless.steady).mono
  · intro migration after done
    obtain ⟨-, keeps, cells, rfl⟩ := done
    obtain ⟨ready, -, -⟩ := holds.ready_compacted mounted
    rw [cells, migrated, ← valueOf_freshest (entriesIn chip.cell log.records)]
    exact ⟨keeps, rfl, ready.shows⟩
  · intro cause after failed
    rcases failed with ⟨-, inUse, -⟩ | interrupted
    · exact absurd inUse alone
    · exact absurd faultless interrupted.faulty

end ParamStore.Store
