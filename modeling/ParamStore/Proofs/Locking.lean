import ParamStore.Proofs.Atomicity
import ParamStore.Proofs.Guarded

/-! The lock of the controller. Nothing can be programmed or erased by mistake while the controller is
locked. Calls unlock it for one half-word or one page at a time and lock it again however that ends, so
between the calls it is locked, and no call ever runs into the lock. -/
namespace ParamStore

namespace Chip

theorem program_lockViolations {chip : Chip} (unlocked : chip.locked = false) (address : Nat)
    (value : UInt16) : (chip.program address value).lockViolations = chip.lockViolations := by
  have same (chip : Chip) (offset : Nat) :
      (programAt value chip offset).lockViolations = chip.lockViolations := by
    unfold programAt
    split <;> rfl
  exact mutate_view lockViolations (by simp [unlocked]) (fun _ => rfl) (fun _ => rfl) same _

theorem erasePage_lockViolations {chip : Chip} (unlocked : chip.locked = false) (address : Nat) :
    (chip.erasePage address).lockViolations = chip.lockViolations := by
  have same (chip : Chip) (offset : Nat) :
      (eraseAt chip offset).lockViolations = chip.lockViolations := by
    unfold eraseAt countErase
    dsimp only
    split <;> rfl
  exact mutate_view lockViolations (by simp [unlocked]) (fun _ => rfl) (fun _ => rfl) same _

theorem pageSize_of_content {chip other : Chip} (same : other.content = chip.content) :
    other.pageSize = chip.pageSize := by
  simpa only [content] using congrArg pageSize same

theorem poke_frame (chip : Chip) (offset : Nat) (bytes : Bytes) :
    (chip.poke offset bytes).locked = chip.locked ∧
      (chip.poke offset bytes).lockViolations = chip.lockViolations := by
  induction bytes generalizing chip offset with
  | nil => exact ⟨rfl, rfl⟩
  | cons byte rest ih => exact ih { chip with memory := chip.memory.setIfInBounds offset byte } _

end Chip

namespace Action

variable {ε δ α β : Type} {action : Action ε α} {chip : Chip}

/-- On chips that hold what this one holds, the call asks its questions and changes nothing. -/
def Looks (action : Action ε α) (chip : Chip) : Prop :=
  ∀ other : Chip, other.content = chip.content →
    action.outcome other = action.outcome chip ∧ action.after other = other

/-- On chips that hold what this one holds, the call locks the controller in the end. -/
def Locks (action : Action ε α) (chip : Chip) : Prop :=
  ∀ other : Chip, other.content = chip.content → (action.after other).locked = true

/-- The call gets as far as to start programming or erasing. A chip that refuses may look as before, but
then there is another that holds the same and does not: a start overwrites the status, whatever it
was. -/
def Reaches (action : Action ε α) (chip : Chip) : Prop :=
  ∃ other : Chip, other.content = chip.content ∧ action.after other ≠ other

theorem Looks.not_reaches (looks : action.Looks chip) : ¬action.Reaches chip := by
  rintro ⟨other, same, changed⟩
  exact changed (looks other same).2

/-- An unlocked chip is changed by being locked. -/
theorem Locks.reaches (locks : action.Locks chip) : action.Reaches chip := by
  refine ⟨chip.unlock, rfl, fun unchanged => ?_⟩
  have locked := locks chip.unlock rfl
  rw [unchanged] at locked
  cases locked

theorem reaches_iff {condition : Prop} (locks : condition → action.Locks chip)
    (looks : ¬condition → action.Looks chip) : action.Reaches chip ↔ condition := by
  by_cases met : condition
  · exact ⟨fun _ => met, fun _ => (locks met).reaches⟩
  · exact ⟨fun reaches => absurd reaches (looks met).not_reaches, fun holds => absurd holds met⟩

theorem reaches_mapError {f : ε → δ} : (action.mapError f).Reaches chip ↔ action.Reaches chip := by
  simp only [Reaches, after_mapError]

theorem looks_fail (cause : ε) (chip : Chip) : (fail cause : Action ε α).Looks chip :=
  fun _ _ => ⟨rfl, rfl⟩

theorem looks_observe {question : Chip → Attempt ε α} (about : Chip.AboutCells question)
    (chip : Chip) : (observe question).Looks chip := by
  intro other same
  rw [outcome_observe, outcome_observe, ← about other, same, about chip, after_observe]
  exact ⟨rfl, rfl⟩

theorem looks_pure (answer : α) (chip : Chip) : (pure answer : Action ε α).Looks chip :=
  fun _ _ => ⟨rfl, rfl⟩

theorem Looks.bind_of_error {next : α → Action ε β} {failure : Failure ε} (looks : action.Looks chip)
    (found : action.outcome chip = .error failure) : (action >>= next).Looks chip := by
  intro other same
  obtain ⟨outcome, after⟩ := looks other same
  rw [outcome_bind, outcome_bind, after_bind, outcome, after, found]
  exact ⟨rfl, rfl⟩

theorem Looks.bind_looks {next : α → Action ε β} {answer : α} (looks : action.Looks chip)
    (found : action.outcome chip = .ok answer) (rest : (next answer).Looks chip) :
    (action >>= next).Looks chip := by
  intro other same
  obtain ⟨outcome, after⟩ := looks other same
  rw [outcome_bind, outcome_bind, after_bind, outcome, after, (looks chip rfl).2, found]
  exact rest other same

theorem Looks.bind_locks {next : α → Action ε β} {answer : α} (looks : action.Looks chip)
    (found : action.outcome chip = .ok answer) (rest : (next answer).Locks chip) :
    (action >>= next).Locks chip := by
  intro other same
  obtain ⟨outcome, after⟩ := looks other same
  rw [after_bind, outcome, after, found]
  exact rest other same

theorem locked_after (either : action.Looks chip ∨ action.Locks chip) (locked : chip.locked = true) :
    (action.after chip).locked = true := by
  rcases either with looks | locks
  · rw [(looks chip rfl).2]
    exact locked
  · exact locks chip rfl

theorem Locks.bind {next : α → Action ε β} (locks : action.Locks chip)
    (rest : ∀ answer chip, (next answer).Looks chip ∨ (next answer).Locks chip) :
    (action >>= next).Locks chip := by
  intro other same
  have locked := locks other same
  rw [after_bind]
  cases action.outcome other with
  | ok answer => exact locked_after (rest answer _) locked
  | error failure => exact locked

theorem looks_get_bind {next : Chip → Action ε β}
    (alike : ∀ other : Chip, other.content = chip.content → next other = next chip)
    (rest : (next chip).Looks chip) : (get >>= next).Looks chip := by
  intro other same
  change (next other).outcome other = (next chip).outcome chip ∧ (next other).after other = other
  rw [alike other same]
  exact rest other same

theorem locks_get_bind {next : Chip → Action ε β}
    (alike : ∀ other : Chip, other.content = chip.content → next other = next chip)
    (rest : (next chip).Locks chip) : (get >>= next).Locks chip := by
  intro other same
  change ((next other).after other).locked = true
  rw [alike other same]
  exact rest other same

theorem Looks.mapError {f : ε → δ} (looks : action.Looks chip) : (action.mapError f).Looks chip := by
  intro other same
  obtain ⟨outcome, after⟩ := looks other same
  rw [outcome_mapError, outcome_mapError, after_mapError, outcome, after]
  exact ⟨rfl, rfl⟩

theorem Locks.mapError {f : ε → δ} (locks : action.Locks chip) : (action.mapError f).Locks chip := by
  intro other same
  rw [after_mapError]
  exact locks other same

theorem locks_unlocked (action : Action ε α) (chip : Chip) : (unlocked action).Locks chip := by
  intro other _
  rw [after_unlocked]
  rfl

end Action

namespace Region

variable (region : Region) {chip : Chip}

theorem programHalfword_leaves_lockViolations (offset : Nat) (value : UInt16) :
    (region.programHalfword offset value).Leaves Chip.lockViolations := by
  unfold programHalfword
  split
  · exact Action.leaves_fail _
  refine (Action.leaves_observe _).bind fun address chip => ?_
  rw [Action.after_unlocked]
  refine (Action.view_bind Chip.lockViolations (fun _ => ?_) _ _).trans
    (Chip.program_lockViolations rfl address value)
  refine (awaitIdle_leaves _ _ _ fun _ => rfl).bind fun _ => Action.leaves_get.bind fun chip => ?_
  split
  · exact Action.leaves_pure _
  · exact Action.leaves_fail _

theorem erasePage_leaves_lockViolations (offset : Nat) :
    (region.erasePage offset).Leaves Chip.lockViolations := by
  refine Action.leaves_get.bind fun chip => (Action.leaves_observe _).bind fun address chip => ?_
  rw [Action.after_unlocked]
  refine (Action.view_bind Chip.lockViolations (fun _ => ?_) _ _).trans
    (Chip.erasePage_lockViolations rfl address)
  refine (awaitIdle_leaves _ _ _ fun _ => rfl).bind fun _ =>
    (Action.leaves_observe _).bind fun erased => ?_
  split
  · exact Action.leaves_pure _
  · exact Action.leaves_fail _

theorem programHalfword_locks {offset address : Nat} (value : UInt16) (even : offset % 2 = 0)
    (found : region.address offset 2 = .ok address) :
    (region.programHalfword offset value).Locks chip := by
  rw [programHalfword, if_neg (not_not_intro even)]
  exact (Action.looks_observe (fun _ => rfl) chip).bind_locks
    ((Action.outcome_observe _ chip).trans found) (Action.locks_unlocked _ chip)

theorem programHalfword_looks {offset : Nat} (value : UInt16)
    (refused : ¬(offset % 2 = 0 ∧ ∃ address, region.address offset 2 = .ok address)) :
    (region.programHalfword offset value).Looks chip := by
  unfold programHalfword
  split
  · exact Action.looks_fail _ chip
  next even =>
    cases found : region.address offset 2 with
    | ok address => exact absurd ⟨by omega, address, found⟩ refused
    | error failure =>
      exact (Action.looks_observe (fun _ => rfl) chip).bind_of_error (Action.outcome_observe _ chip)

theorem erasePage_locks {offset address : Nat}
    (found : region.address (offset - offset % chip.pageSize) chip.pageSize = .ok address) :
    (region.erasePage offset).Locks chip := by
  apply Action.locks_get_bind
  · intro other same
    dsimp only
    rw [Chip.pageSize_of_content same]
  · exact (Action.looks_observe (fun _ => rfl) chip).bind_locks
      ((Action.outcome_observe _ chip).trans found) (Action.locks_unlocked _ chip)

theorem erasePage_looks {offset : Nat} (refused : ¬∃ address,
      region.address (offset - offset % chip.pageSize) chip.pageSize = .ok address) :
    (region.erasePage offset).Looks chip := by
  apply Action.looks_get_bind
  · intro other same
    dsimp only
    rw [Chip.pageSize_of_content same]
  · cases found : region.address (offset - offset % chip.pageSize) chip.pageSize with
    | ok address => exact absurd ⟨address, found⟩ refused
    | error failure =>
      exact (Action.looks_observe (fun _ => rfl) chip).bind_of_error
        ((Action.outcome_observe _ chip).trans found)

theorem programHalfword_reaches_iff (offset : Nat) (value : UInt16) :
    (region.programHalfword offset value).Reaches chip ↔
      offset % 2 = 0 ∧ ∃ address, region.address offset 2 = .ok address := by
  apply Action.reaches_iff
  · rintro ⟨even, address, found⟩
    exact region.programHalfword_locks value even found
  · exact region.programHalfword_looks value

theorem erasePage_reaches_iff (offset : Nat) :
    (region.erasePage offset).Reaches chip ↔ ∃ address,
      region.address (offset - offset % chip.pageSize) chip.pageSize = .ok address := by
  apply Action.reaches_iff
  · rintro ⟨address, found⟩
    exact region.erasePage_locks found
  · exact region.erasePage_looks

end Region

namespace Action.Guarded

variable {ε α : Type} {action : Action ε α}

/-- No call runs into the lock. -/
theorem leaves_lockViolations (guarded : action.Guarded) : action.Leaves Chip.lockViolations := by
  induction guarded with
  | pure answer => exact leaves_pure answer
  | fail cause => exact leaves_fail cause
  | observe => exact leaves_observe _
  | program region offset value => exact region.programHalfword_leaves_lockViolations offset value
  | erasePage region offset => exact region.erasePage_leaves_lockViolations offset
  | bind _ _ first rest => exact first.bind rest
  | mapError _ leaves => exact leaves.mapError

/-- From the first start on the controller gets locked time and again, and until then nothing has
happened to it. -/
theorem looks_or_locks (guarded : action.Guarded) (chip : Chip) :
    action.Looks chip ∨ action.Locks chip := by
  induction guarded generalizing chip with
  | pure answer => exact .inl (looks_pure answer chip)
  | fail cause => exact .inl (looks_fail cause chip)
  | observe about => exact .inl (looks_observe about chip)
  | program region offset value =>
    by_cases accepted : offset % 2 = 0 ∧ ∃ address, region.address offset 2 = .ok address
    · obtain ⟨even, address, found⟩ := accepted
      exact .inr (region.programHalfword_locks value even found)
    · exact .inl (region.programHalfword_looks value accepted)
  | erasePage region offset =>
    by_cases accepted : ∃ address,
        region.address (offset - offset % chip.pageSize) chip.pageSize = .ok address
    · obtain ⟨address, found⟩ := accepted
      exact .inr (region.erasePage_locks found)
    · exact .inl (region.erasePage_looks accepted)
  | bind _ _ first rest =>
    rename_i before next _ _
    rcases first chip with looks | locks
    · cases found : before.outcome chip with
      | error failure => exact .inl (looks.bind_of_error found)
      | ok answer => exact (rest answer chip).imp (looks.bind_looks found) (looks.bind_locks found)
    · exact .inr (locks.bind rest)
  | mapError _ ih => exact (ih chip).imp Looks.mapError Locks.mapError

end Action.Guarded

/-- A call of the store or of the region below it. -/
inductive Use where
  | program (offset : Nat) (value : UInt16)
  | erasePage (offset : Nat)
  | readFlash (offset length : Nat)
  | writeFlash (offset : Nat) (bytes : Bytes)
  | eraseFlash (start stop : Nat)
  | active
  | read (parameter : UInt16) (capacity : Nat)
  | contains (parameter : UInt16)
  | stats
  | live
  | forEachLive {σ : Type} (visit : σ → Header → σ) (state : σ)
  | write (parameter : UInt16) (data : Bytes)
  | remove (parameter : UInt16)
  | format
  | recover
  | compact
  | save {α : Type} [Wire α] (parameter : UInt16) (value : α)
  | load (α : Type) [Wire α] (parameter : UInt16)

namespace Use

/-- The call, its answer left aside. -/
def run (store : Store) : Use → Action StoreError Unit
  | program offset value => (store.region.programHalfword offset value).mapError .flash
  | erasePage offset => (store.region.erasePage offset).mapError .flash
  | readFlash offset length => do
    let _ ← Action.observe (store.readFlash · offset length)
  | writeFlash offset bytes => (store.region.write offset bytes).mapError .flash
  | eraseFlash start stop => (store.region.erase start stop).mapError .flash
  | active => do
    let _ ← Action.observe store.active
  | read parameter capacity => do
    let _ ← Action.observe (store.read · parameter capacity)
  | contains parameter => do
    let _ ← Action.observe (store.contains · parameter)
  | stats => do
    let _ ← Action.observe store.stats
  | live => do
    let _ ← Action.observe store.live
  | forEachLive visit state => do
    let _ ← Action.observe fun chip => (store.forEachLive chip visit state).2
  | write parameter data => store.write parameter data
  | remove parameter => store.remove parameter
  | format => store.format
  | recover => do
    let _ ← store.recover
  | compact => do
    let _ ← store.compact
  | save parameter value => store.save parameter value
  | load α parameter => do
    let _ ← Action.observe fun chip => (store.load chip parameter : Attempt StoreError α)

theorem guarded (store : Store) (use : Use) : (use.run store).Guarded := by
  cases use with
  | program offset value => exact (Action.Guarded.program _ offset value).mapError
  | erasePage offset => exact (Action.Guarded.erasePage _ offset).mapError
  | readFlash offset length => exact (Action.Guarded.observe fun _ => rfl).bind fun _ => .pure ()
  | writeFlash offset bytes => exact (store.region.write_guarded offset bytes).mapError
  | eraseFlash start stop => exact (store.region.erase_guarded start stop).mapError
  | active => exact (Action.Guarded.observe fun _ => rfl).bind fun _ => .pure ()
  | read parameter capacity =>
    exact (Action.Guarded.observe (store.read_aboutCells parameter capacity)).bind fun _ => .pure ()
  | contains parameter =>
    exact (Action.Guarded.observe (store.contains_aboutCells parameter)).bind fun _ => .pure ()
  | stats => exact (Action.Guarded.observe store.stats_aboutCells).bind fun _ => .pure ()
  | live => exact (Action.Guarded.observe store.live_aboutCells).bind fun _ => .pure ()
  | forEachLive visit state =>
    have about : Chip.AboutCells fun chip => (store.forEachLive chip visit state).2 :=
      fun chip => congrArg Prod.snd (store.forEachLive_aboutCells visit state chip)
    exact (Action.Guarded.observe about).bind fun _ => .pure ()
  | write parameter data => exact store.write_guarded parameter data
  | remove parameter => exact store.remove_guarded parameter
  | format => exact Command.runAll_guarded _ _
  | recover => exact store.recover_guarded.bind fun _ => .pure ()
  | compact => exact store.compact_guarded.bind fun _ => .pure ()
  | save parameter value => exact store.save_guarded parameter value
  | load α parameter =>
    exact (Action.Guarded.observe (store.load_aboutCells parameter)).bind fun _ => .pure ()

end Use

/-- A call, and what was done to the chip before it: faults, and cells replaced. -/
structure Episode where
  faults : Faults
  offset : Nat
  bytes : Bytes
  use : Use

namespace Episode

def start (episode : Episode) (chip : Chip) : Chip :=
  (chip.withFaults episode.faults).poke episode.offset episode.bytes

def after (store : Store) (episode : Episode) (chip : Chip) : Chip :=
  (episode.use.run store).after (episode.start chip)

end Episode

/-- The chips after each of the calls. -/
def chronicle (store : Store) : List Episode → Chip → List Chip
  | [], _ => []
  | episode :: rest, chip =>
    episode.after store chip :: chronicle store rest (episode.after store chip)

/-- The controller is unlocked during mutations only. -/
structure Store.KeepsLocked (store : Store) (chip : Chip) : Prop where
  always : chip.locked = true → ∀ episodes, ∀ after ∈ chronicle store episodes chip,
    after.locked = true ∧ after.lockViolations = chip.lockViolations
  /-- If it was unlocked by somebody else, the next mutation puts an end to that. -/
  reaching : ∀ use, (Use.run store use).Reaches chip → ((use.run store).after chip).locked = true
  /-- The two calls that mutate do so if what they are asked for is in place. -/
  programs : ∀ offset value, ((Use.program offset value).run store).Reaches chip ↔
    offset % 2 = 0 ∧ ∃ address, store.region.address offset 2 = .ok address
  erases : ∀ offset, ((Use.erasePage offset).run store).Reaches chip ↔ ∃ address,
    store.region.address (offset - offset % chip.pageSize) chip.pageSize = .ok address

theorem Episode.step (store : Store) (episode : Episode) {chip : Chip} (locked : chip.locked = true) :
    (episode.after store chip).locked = true ∧
      (episode.after store chip).lockViolations = chip.lockViolations := by
  have guarded := episode.use.guarded store
  obtain ⟨same, counted⟩ := (chip.withFaults episode.faults).poke_frame episode.offset episode.bytes
  exact ⟨Action.locked_after (guarded.looks_or_locks _) (same.trans locked),
    (guarded.leaves_lockViolations _).trans counted⟩

theorem chronicle_locked (store : Store) (episodes : List Episode) {chip : Chip}
    (locked : chip.locked = true) : ∀ after ∈ chronicle store episodes chip,
      after.locked = true ∧ after.lockViolations = chip.lockViolations := by
  induction episodes generalizing chip with
  | nil => simp [chronicle]
  | cons episode rest ih =>
    obtain ⟨still, counted⟩ := episode.step store locked
    intro after member
    rcases List.mem_cons.mp member with rfl | member
    · exact ⟨still, counted⟩
    · rw [← counted]
      exact ih still after member

/-- Whatever is called in whatever order, on a chip that fails and changes in any way in between, no call
leaves the controller unlocked that has made use of it. -/
theorem uses_keep_locked (store : Store) (chip : Chip) : store.KeepsLocked chip where
  always locked episodes := chronicle_locked store episodes locked
  reaching use reaches := by
    rcases (use.guarded store).looks_or_locks chip with looks | locks
    · exact absurd reaches looks.not_reaches
    · exact locks chip rfl
  programs offset value :=
    Action.reaches_mapError.trans (store.region.programHalfword_reaches_iff offset value)
  erases offset := Action.reaches_mapError.trans (store.region.erasePage_reaches_iff offset)

end ParamStore
