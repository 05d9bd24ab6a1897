import ParamStore.Proofs.Guarded

/-! The supply. Calls draw power by the mutation and look at nothing else of the supply. So a call
costs what it costs: with that much power or more it goes as on a chip that is always powered, and
the rest is left for the next call. With no power left, a call changes no cell. -/
namespace ParamStore

namespace Chip

theorem withPower_self (chip : Chip) : chip.withPower chip.faults.powerBudget = chip := rfl

/-- A question about the chip that does not look at the supply. -/
def Blind {α : Type} (question : Chip → α) : Prop :=
  ∀ chip left, question (chip.withPower left) = question chip

theorem AboutCells.blind {α : Type} {question : Chip → α} (about : AboutCells question) :
    Blind question := fun chip left => (about (chip.withPower left)).symm.trans (about chip)

end Chip

namespace Action

variable {ε δ α β : Type} {action : Action ε α}

/-- The call draws a power of its own, whatever else the supply has. -/
structure Metered (action : Action ε α) : Prop where
  powered : ∀ chip, chip.faults.powerBudget = none →
    (action.after chip).faults.powerBudget = none
  affordable : ∀ chip, chip.faults.powerBudget = none → ∃ cost, ∀ extra,
    action.outcome (chip.withPower (some (cost + extra))) = action.outcome chip ∧
      action.after (chip.withPower (some (cost + extra))) =
        (action.after chip).withPower (some extra)
  inert : ∀ chip, chip.faults.powerBudget = some 0 →
    (action.after chip).cell = chip.cell ∧ (action.after chip).faults.powerBudget = some 0

theorem metered_of_still (still : ∀ chip, action.after chip = chip)
    (blind : Chip.Blind action.outcome) : action.Metered where
  powered chip unlimited := by rw [still, unlimited]
  affordable chip _ := ⟨0, fun extra => ⟨blind chip _, by rw [still, still, Nat.zero_add]⟩⟩
  inert chip spent := by rw [still, spent]; exact ⟨rfl, rfl⟩

theorem metered_pure (answer : α) : (pure answer : Action ε α).Metered :=
  metered_of_still (fun _ => rfl) fun _ _ => rfl

theorem metered_fail (cause : ε) : (fail cause : Action ε α).Metered :=
  metered_of_still (fun _ => rfl) fun _ _ => rfl

theorem metered_observe {question : Chip → Attempt ε α} (blind : Chip.Blind question) :
    (observe question).Metered :=
  metered_of_still (after_observe question) fun chip left => by
    rw [outcome_observe, outcome_observe, blind]

theorem metered_get_bind {next : Chip → Action ε β} (blind : Chip.Blind next)
    (rest : ∀ chip, (next chip).Metered) : (get >>= next).Metered where
  powered chip unlimited := (rest chip).powered chip unlimited
  affordable chip unlimited := by
    obtain ⟨cost, enough⟩ := (rest chip).affordable chip unlimited
    refine ⟨cost, fun extra => ?_⟩
    change (next (chip.withPower _)).outcome _ = (next chip).outcome chip ∧
      (next (chip.withPower _)).after _ = ((next chip).after chip).withPower _
    rw [blind]
    exact enough extra
  inert chip spent := (rest chip).inert chip spent

theorem Metered.bind {next : α → Action ε β} (first : action.Metered)
    (rest : ∀ answer, (next answer).Metered) : (action >>= next).Metered where
  powered chip unlimited := by
    rw [after_bind]
    split
    · exact (rest _).powered _ (first.powered chip unlimited)
    · exact first.powered chip unlimited
  affordable chip unlimited := by
    obtain ⟨cost, enough⟩ := first.affordable chip unlimited
    cases found : action.outcome chip with
    | ok answer =>
      obtain ⟨more, enoughThen⟩ := (rest answer).affordable _ (first.powered chip unlimited)
      refine ⟨cost + more, fun extra => ?_⟩
      obtain ⟨same, left⟩ := enough (more + extra)
      rw [found] at same
      rw [outcome_bind, outcome_bind, after_bind, after_bind, Nat.add_assoc, same, left, found]
      exact enoughThen extra
    | error failure =>
      refine ⟨cost, fun extra => ?_⟩
      obtain ⟨same, left⟩ := enough extra
      rw [found] at same
      rw [outcome_bind, outcome_bind, after_bind, after_bind, same, found]
      exact ⟨rfl, left⟩
  inert chip spent := by
    obtain ⟨cells, still⟩ := first.inert chip spent
    rw [after_bind]
    split
    · obtain ⟨same, left⟩ := (rest _).inert _ still
      exact ⟨same.trans cells, left⟩
    · exact ⟨cells, still⟩

theorem Metered.mapError {f : ε → δ} (metered : action.Metered) : (action.mapError f).Metered where
  powered chip unlimited := by rw [after_mapError]; exact metered.powered chip unlimited
  affordable chip unlimited := by
    obtain ⟨cost, enough⟩ := metered.affordable chip unlimited
    refine ⟨cost, fun extra => ?_⟩
    obtain ⟨same, left⟩ := enough extra
    simp only [outcome_mapError, after_mapError, same, left, and_self]
  inert chip spent := by rw [after_mapError]; exact metered.inert chip spent

theorem Metered.unlocked (metered : action.Metered) : (unlocked action).Metered where
  powered chip unlimited := by rw [after_unlocked]; exact metered.powered chip.unlock unlimited
  affordable chip unlimited := by
    obtain ⟨cost, enough⟩ := metered.affordable chip.unlock unlimited
    refine ⟨cost, fun extra => ?_⟩
    obtain ⟨same, left⟩ := enough extra
    rw [outcome_unlocked, outcome_unlocked, after_unlocked, after_unlocked]
    exact ⟨same, congrArg Chip.lock left⟩
  inert chip spent := by rw [after_unlocked]; exact metered.inert chip.unlock spent

/-- A change that draws no power and touches no cell. -/
theorem metered_modify {change : Chip → Chip}
    (commutes : ∀ chip left, change (chip.withPower left) = (change chip).withPower left)
    (cells : ∀ chip, (change chip).cell = chip.cell) : (modify change : Action ε Unit).Metered := by
  have supply (chip : Chip) : (change chip).faults.powerBudget = chip.faults.powerBudget := by
    have same := commutes chip chip.faults.powerBudget
    rw [chip.withPower_self] at same
    rw [same]
    rfl
  exact {
    powered := fun chip unlimited => (supply chip).trans unlimited
    affordable := fun chip _ => ⟨0, fun extra => ⟨rfl, by
      rw [Nat.zero_add]
      exact commutes chip (some extra)⟩⟩
    inert := fun chip spent => ⟨cells chip, (supply chip).trans spent⟩ }

/-- The call gives no answer. -/
def Fails (action : Action ε α) (chip : Chip) : Prop := ∀ answer, action.outcome chip ≠ .ok answer

theorem fails_fail (cause : ε) (chip : Chip) : (fail cause : Action ε α).Fails chip := by
  rintro _ ⟨⟩

theorem fails_bind {next : α → Action ε β} {chip : Chip}
    (rest : ∀ answer, action.outcome chip = .ok answer → (next answer).Fails (action.after chip)) :
    (action >>= next).Fails chip := by
  intro answer
  rw [outcome_bind]
  cases found : action.outcome chip with
  | ok middle => exact rest middle found answer
  | error failure => rintro ⟨⟩

theorem Fails.bind {chip : Chip} (fails : action.Fails chip) (next : α → Action ε β) :
    (action >>= next).Fails chip := fails_bind fun answer found => absurd found (fails answer)

theorem Fails.mapError {f : ε → δ} {chip : Chip} (fails : action.Fails chip) :
    (action.mapError f).Fails chip := by
  intro answer
  rw [outcome_mapError]
  cases found : action.outcome chip with
  | ok middle => exact absurd found (fails middle)
  | error failure => rintro ⟨⟩

theorem Fails.unlocked {chip : Chip} (fails : action.Fails chip.unlock) :
    (unlocked action).Fails chip := by
  intro answer
  rw [outcome_unlocked]
  exact fails answer

end Action

namespace Chip

/-- A mutation is denied whatever the supply, or it runs as far as the power goes. -/
theorem mutate_withPower (chip : Chip) (target : Option Nat) (change : Chip → Nat → Chip) :
    (∃ denied : Chip, denied.cell = chip.cell ∧
      ∀ left, (chip.withPower left).mutate target change = denied.withPower left) ∨
    ∃ offset, ∀ left, (chip.withPower left).mutate target change =
      match left with
      | none => change (chip.withPower none) offset
      | some 0 => (chip.withPower (some 0)).refuse
      | some (rest + 1) => change (chip.withPower (some rest)) offset := by
  by_cases locked : chip.locked = true
  · refine .inl ⟨{ chip with lockViolations := chip.lockViolations + 1 }, rfl, fun left => ?_⟩
    exact if_pos locked
  cases target with
  | none => exact .inl ⟨chip.refuse, rfl, fun left => if_neg locked⟩
  | some offset =>
    by_cases protect : chip.isWriteProtected offset = true
    · refine .inl ⟨{ chip with status := { writeProtectError := true } }, rfl, fun left => ?_⟩
      exact (if_neg locked).trans (if_pos protect)
    · refine .inr ⟨offset, fun left => (if_neg locked).trans ((if_neg protect).trans ?_)⟩
      rcases left with _ | _ | _ <;> rfl

/-- A mutation costs one unit if it runs, and nothing if it is denied. -/
theorem metered_mutate {ε : Type} {target : Chip → Option Nat} {change : Chip → Nat → Chip}
    (aims : Blind target)
    (commutes : ∀ chip left offset,
      change (chip.withPower left) offset = (change chip offset).withPower left) :
    (modify fun chip => chip.mutate (target chip) change : Action ε Unit).Metered := by
  have step (chip : Chip) (left : Option Nat) :
      (modify fun chip => chip.mutate (target chip) change : Action ε Unit).after
        (chip.withPower left) = (chip.withPower left).mutate (target chip) change := by
    rw [Action.after_modify, aims]
  refine ⟨fun chip powered => ?_, fun chip powered => ?_, fun chip spent => ?_⟩ <;>
    rcases chip.mutate_withPower (target chip) change with ⟨denied, cells, same⟩ | ⟨offset, same⟩
  · rw [← chip.withPower_self, powered, step, same]
    rfl
  · rw [← chip.withPower_self, powered, step, same, commutes]
    rfl
  · refine ⟨0, fun extra => ⟨rfl, ?_⟩⟩
    rw [Nat.zero_add, step, same, ← chip.withPower_self, powered, step, same]
    rfl
  · refine ⟨1, fun extra => ⟨rfl, ?_⟩⟩
    have whole : (modify fun chip => chip.mutate (target chip) change : Action ε Unit).after chip =
        change (chip.withPower none) offset := by
      conv => lhs; rw [← chip.withPower_self, powered, step, same]
    rw [whole, commutes, Nat.add_comm, step, same]
    exact commutes chip (some extra) offset
  · rw [← chip.withPower_self, spent, step, same]
    exact ⟨cells, rfl⟩
  · rw [← chip.withPower_self, spent, step, same]
    exact ⟨rfl, rfl⟩

theorem programAt_withPower (value : UInt16) (chip : Chip) (left : Option Nat) (offset : Nat) :
    programAt value (chip.withPower left) offset = (programAt value chip offset).withPower left := by
  unfold programAt
  rw [show (chip.withPower left).halfwordAt offset = chip.halfwordAt offset from rfl]
  split <;> rfl

theorem countErase_withPower (chip : Chip) (left : Option Nat) (page : Nat) :
    (chip.withPower left).countErase page = (chip.countErase page).withPower left := by
  unfold countErase
  split <;> rfl

theorem metered_program {ε : Type} (address : Nat) (value : UInt16) :
    (modify (·.program address value) : Action ε Unit).Metered :=
  metered_mutate (fun _ _ => rfl) (programAt_withPower value)

theorem metered_erasePage {ε : Type} (address : Nat) :
    (modify (·.erasePage address) : Action ε Unit).Metered :=
  metered_mutate (fun _ _ => rfl) fun chip left offset =>
    congrArg complete (countErase_withPower (chip.eraseCells _ _) left (offset / chip.pageSize))

/-- A chip out of power refuses, and says so. -/
theorem program_spent (chip : Chip) (unlocked : chip.locked = false)
    (spent : chip.faults.powerBudget = some 0) (address : Nat) (value : UInt16) :
    (chip.program address value).status.writeProtectError = true ∨
      (chip.program address value).status.programError = true := by
  unfold program mutate
  rw [if_neg (by simp [unlocked])]
  split
  · exact .inr rfl
  split
  · exact .inl rfl
  rw [spent]
  exact .inr rfl

end Chip

namespace Region

theorem awaitIdle_metered (protectError programError : FlashError) :
    (awaitIdle protectError programError).Metered := by
  have cleared : (modify Chip.clearStatus : Action FlashError Unit).Metered :=
    Action.metered_modify (fun _ _ => rfl) fun _ => rfl
  refine Action.metered_get_bind (fun _ _ => rfl) fun chip => ?_
  dsimp only
  split
  · exact Action.metered_fail _
  refine cleared.bind fun _ => ?_
  split
  · exact Action.metered_fail _
  split
  · exact Action.metered_fail _
  · exact Action.metered_pure _

theorem programHalfword_metered (region : Region) (offset : Nat) (value : UInt16) :
    (region.programHalfword offset value).Metered := by
  unfold programHalfword
  split
  · exact Action.metered_fail _
  refine (Action.metered_observe fun _ _ => rfl).bind fun address => Action.Metered.unlocked ?_
  refine (Chip.metered_program address value).bind fun _ => ?_
  refine (awaitIdle_metered _ _).bind fun _ =>
    Action.metered_get_bind (fun _ _ => rfl) fun chip => ?_
  split
  · exact Action.metered_pure _
  · exact Action.metered_fail _

theorem erasePage_metered (region : Region) (offset : Nat) : (region.erasePage offset).Metered := by
  refine Action.metered_get_bind (fun _ _ => rfl) fun chip => ?_
  refine (Action.metered_observe fun _ _ => rfl).bind fun address => Action.Metered.unlocked ?_
  refine (Chip.metered_erasePage address).bind fun _ => ?_
  refine (awaitIdle_metered _ _).bind fun _ =>
    (Action.metered_observe fun _ _ => rfl).bind fun erased => ?_
  split
  · exact Action.metered_pure _
  · exact Action.metered_fail _

theorem awaitIdle_fails {chip : Chip} {protectError programError : FlashError}
    (refused : chip.currentStatus.writeProtectError = true ∨
      chip.currentStatus.programError = true) :
    (awaitIdle protectError programError).Fails chip := by
  apply Action.fails_bind
  rintro _ ⟨⟩
  dsimp only
  split
  · exact Action.fails_fail _ _
  apply Action.fails_bind
  rintro _ ⟨⟩
  split
  · exact Action.fails_fail _ _
  next unprotected =>
    rw [if_pos (refused.resolve_left unprotected)]
    exact Action.fails_fail _ _

theorem programHalfword_spent (region : Region) (offset : Nat) (value : UInt16) {chip : Chip}
    (spent : chip.faults.powerBudget = some 0) :
    (region.programHalfword offset value).Fails chip := by
  unfold programHalfword
  split
  · exact Action.fails_fail _ _
  apply Action.fails_bind
  intro address _
  rw [Action.after_observe]
  apply Action.Fails.unlocked
  apply Action.fails_bind
  rintro _ ⟨⟩
  exact (awaitIdle_fails (chip.unlock.program_spent rfl spent address value)).bind _

end Region

namespace Command

/-- Nothing is killed without power. -/
theorem invalidate_spent (region : Region) (record : Record) {chip : Chip}
    (spent : chip.faults.powerBudget = some 0) :
    ((invalidate record).run region).Fails chip := by
  apply Action.Fails.mapError
  unfold Region.write
  split
  · exact Action.fails_fail _ _
  apply Action.fails_bind
  intro _ _
  rw [Action.after_observe]
  exact (region.programHalfword_spent _ _ spent).bind _

end Command

theorem Action.Guarded.metered {ε α : Type} {action : Action ε α} (guarded : action.Guarded) :
    action.Metered := by
  induction guarded with
  | pure answer => exact metered_pure answer
  | fail cause => exact metered_fail cause
  | observe about => exact metered_observe about.blind
  | program region offset value => exact region.programHalfword_metered offset value
  | erasePage region offset => exact region.erasePage_metered offset
  | bind _ _ first rest => exact first.bind rest
  | mapError _ metered => exact metered.mapError

end ParamStore
