import ParamStore.Proofs.Views

/-! No question overflows. Which offsets a question forms is decided by headers that anything may have
been programmed into; but a record is only believed if it ends in its segment, every range is checked
against the region, and a region leaves room behind its end for the longest record that could be tried
there. -/
namespace ParamStore

namespace Action

variable {ε δ α β : Type} {valid : Chip → Prop} {action : Action ε α}

/-- From every chip that is `valid`, the call leads to one that is, and does not overflow. -/
def Safe (valid : Chip → Prop) (action : Action ε α) : Prop :=
  ∀ chip, valid chip → action.Ensures chip (fun _ => valid) (fun _ => valid)

theorem safe_pure (answer : α) : (pure answer : Action ε α).Safe valid :=
  fun _ holds => ensures_pure holds

theorem safe_fail (cause : ε) : (fail cause : Action ε α).Safe valid :=
  fun _ holds => ensures_fail holds

theorem Safe.bind {next : α → Action ε β} (first : action.Safe valid)
    (rest : ∀ answer, (next answer).Safe valid) : (action >>= next).Safe valid :=
  fun chip holds => (first chip holds).bind fun answer after => rest answer after

/-- What follows a question may rely on its answer being one that a valid chip gives. -/
theorem safe_observe_bind {question : Chip → Attempt ε α} {next : α → Action ε β}
    (fits : ∀ chip, valid chip → question chip ≠ .error .overflow)
    (rest : ∀ chip answer, valid chip → question chip = .ok answer → (next answer).Safe valid) :
    (observe question >>= next).Safe valid := by
  intro chip holds
  cases asked : question chip with
  | ok answer => exact ensures_observe_bind asked (rest chip answer holds asked chip holds)
  | error failure =>
    cases failure with
    | error cause => exact ensures_observe_bind_fail asked holds
    | overflow => exact absurd asked (fits chip holds)

theorem Safe.mapError {f : ε → δ} (safe : action.Safe valid) : (action.mapError f).Safe valid :=
  fun chip holds => Ensures.mapError (safe chip holds)

end Action

namespace Store

variable {store : Store} {chip : Chip}

theorem Mounted.address_ne_overflow (mounted : store.Mounted chip) (offset length : Nat) :
    store.region.address offset length ≠ .error .overflow := by
  have := mounted.noWrap
  rw [Region.address]
  split
  · simp [Attempt.fail]
  · rw [Attempt.fit_of_lt (by omega)]
    simp

theorem Mounted.readRegion_ne_overflow (mounted : store.Mounted chip) (offset length : Nat) :
    store.region.read chip offset length ≠ .error .overflow := by
  have known := mounted.address_ne_overflow offset length
  rw [Region.read]
  cases found : store.region.address offset length with
  | ok address => simp [bind, Except.bind, pure, Except.pure]
  | error failure => simpa [bind, Except.bind, found] using known

theorem Mounted.isInUse_ne_overflow (mounted : store.Mounted chip) (id : SegmentId) :
    store.isInUse chip id ≠ .error .overflow := by
  simp [mounted.isInUse_eq]

theorem Mounted.active_ne_overflow (mounted : store.Mounted chip) :
    store.active chip ≠ .error .overflow := by
  rcases store.active_or_unused chip.cell with ⟨id, active⟩ | unused
  · simp [mounted.active_eq active]
  · simp [mounted.active_of_unused unused, Attempt.fail]

theorem Mounted.logRead_ne_overflow (mounted : store.Mounted chip) (id : SegmentId) :
    Log.read store.region chip (store.segment id) ≠ .error .overflow := by
  have placed := mounted.placed id
  rcases walk_ending_cases mounted.onChip placed.inside placed.fits placed.firstRecord_le with
    ⟨tail, ended⟩ | broken
  · simp [Log.read, ended, bind, Except.bind, pure, Except.pure]
  · simp [Log.read, broken, bind, Except.bind, Attempt.fail]

theorem Mounted.read_ne_overflow (mounted : store.Mounted chip) (parameter : UInt16) (capacity : Nat) :
    store.read chip parameter capacity ≠ .error .overflow := by
  rcases mounted.log_cases with ⟨log, holds⟩ | ⟨cause, failed, -⟩
  · rw [mounted.read_of_shows ⟨log, holds, rfl⟩, Values.read]
    split
    · split <;> simp [Attempt.fail]
    · simp [Attempt.fail]
  · rw [Store.read, failed]
    split <;> simp [bind, Except.bind, Attempt.fail]

theorem Mounted.contains_ne_overflow (mounted : store.Mounted chip) (parameter : UInt16) :
    store.contains chip parameter ≠ .error .overflow := by
  rcases mounted.log_cases with ⟨log, holds⟩ | ⟨cause, failed, -⟩
  · simp [mounted.contains_eq holds]
  · rw [contains, failed]
    split <;> simp [bind, Except.bind, Attempt.fail, pure, Except.pure]

theorem Mounted.forEachLive_ne_overflow {σ : Type} (mounted : store.Mounted chip)
    (visit : σ → Header → σ) (state : σ) :
    (store.forEachLive chip visit state).2 ≠ .error .overflow := by
  rw [mounted.forEachLive_eq_foldl]
  rcases mounted.log_cases with ⟨log, holds⟩ | ⟨cause, failed, -⟩
  · simp [mounted.live_eq holds, Except.map]
  · simp [Store.live, failed, bind, Except.bind, Except.map, Attempt.fail]

/-- A segment has to be short enough for its records to be counted by half-words. -/
theorem Mounted.stats_ne_overflow (mounted : store.Mounted chip)
    (small : store.layout.segmentSize ≤ 0x40000) : store.stats chip ≠ .error .overflow := by
  rcases store.active_or_unused chip.cell with ⟨id, active⟩ | unused
  case inr => simp [stats, mounted.active_of_unused unused, bind, Except.bind, Attempt.fail]
  have placed := mounted.placed id
  rcases walk_ending_cases mounted.onChip placed.inside placed.fits placed.firstRecord_le with
    ⟨tail, ended⟩ | broken
  · obtain ⟨linked, ends⟩ := linked_of_walk mounted.onChip placed.inside placed.fits
      placed.stopWord placed.firstRecord_le ended
    have holds : store.Holds chip.cell ⟨store.segment id, _, tail⟩ :=
      ⟨by simp, by simpa using active, linked, ends⟩
    simp [mounted.stats_of_small holds small]
  · simp [(mounted.unreadable (mounted.active_eq active) small broken).counts, Attempt.fail]

theorem Mounted.isBlank_ne_overflow (mounted : store.Mounted chip) (id : SegmentId) :
    store.isBlank chip (store.segment id).start (store.segment id).size ≠ .error .overflow := by
  have placed := mounted.placed id
  have room := placed.room
  obtain ⟨blank, found, -⟩ := mounted.isBlank_spec
    (show (store.segment id).start ≤ (store.segment id).stop by omega) placed.inside
  rw [Segment.size, found]
  simp

end Store

end ParamStore
