import ParamStore.Flash.Chip

/-! Calls on a chip. A call answers or fails, and leaves the chip in some state either way: a
failure does not undo what was programmed before it. -/
namespace ParamStore

abbrev Action (ε α : Type) := EStateM (Failure ε) Chip α

namespace Action

variable {ε δ α β : Type}

def fail (cause : ε) : Action ε α := throw (.error cause)

/-- A question about the chip, which changes nothing. -/
def observe (question : Chip → Attempt ε α) : Action ε α := fun chip =>
  match question chip with
  | .ok answer => .ok answer chip
  | .error failure => .error failure chip

def mapError (f : ε → δ) (action : Action ε α) : Action δ α := fun chip =>
  match action chip with
  | .ok answer after => .ok answer after
  | .error failure after => .error (failure.map f) after

/-- Turn a reported error into an answer. -/
def attempt (action : Action ε α) : Action δ (Except ε α) := fun chip =>
  match action chip with
  | .ok answer after => .ok (.ok answer) after
  | .error (.error cause) after => .ok (.error cause) after
  | .error .overflow after => .error .overflow after

/-- Run with the controller unlocked and lock it afterwards, whatever the outcome. -/
def unlocked (action : Action ε α) : Action ε α := fun chip =>
  match action chip.unlock with
  | .ok answer after => .ok answer after.lock
  | .error failure after => .error failure after.lock

def outcome (action : Action ε α) (chip : Chip) : Attempt ε α :=
  match action chip with
  | .ok answer _ => .ok answer
  | .error failure _ => .error failure

def after (action : Action ε α) (chip : Chip) : Chip :=
  match action chip with
  | .ok _ after => after
  | .error _ after => after

@[simp] theorem outcome_pure (answer : α) (chip : Chip) :
    (pure answer : Action ε α).outcome chip = .ok answer := rfl

@[simp] theorem after_pure (answer : α) (chip : Chip) :
    (pure answer : Action ε α).after chip = chip := rfl

@[simp] theorem outcome_fail (cause : ε) (chip : Chip) :
    (fail cause : Action ε α).outcome chip = .fail cause := rfl

@[simp] theorem after_fail (cause : ε) (chip : Chip) :
    (fail cause : Action ε α).after chip = chip := rfl

@[simp] theorem outcome_get (chip : Chip) : (get : Action ε Chip).outcome chip = .ok chip := rfl

@[simp] theorem after_get (chip : Chip) : (get : Action ε Chip).after chip = chip := rfl

@[simp] theorem outcome_modify (change : Chip → Chip) (chip : Chip) :
    (modify change : Action ε Unit).outcome chip = .ok () := rfl

@[simp] theorem after_modify (change : Chip → Chip) (chip : Chip) :
    (modify change : Action ε Unit).after chip = change chip := rfl

theorem outcome_bind (first : Action ε α) (next : α → Action ε β) (chip : Chip) :
    (first >>= next).outcome chip =
      (first.outcome chip).bind fun answer => (next answer).outcome (first.after chip) := by
  simp only [outcome, after, bind, EStateM.bind, Except.bind]
  cases first chip <;> rfl

theorem after_bind (first : Action ε α) (next : α → Action ε β) (chip : Chip) :
    (first >>= next).after chip =
      match first.outcome chip with
      | .ok answer => (next answer).after (first.after chip)
      | .error _ => first.after chip := by
  simp only [outcome, after, bind, EStateM.bind]
  cases first chip <;> rfl

@[simp] theorem outcome_observe (question : Chip → Attempt ε α) (chip : Chip) :
    (observe question).outcome chip = question chip := by
  simp only [outcome, observe]
  cases question chip <;> rfl

@[simp] theorem after_observe (question : Chip → Attempt ε α) (chip : Chip) :
    (observe question).after chip = chip := by
  simp only [after, observe]
  cases question chip <;> rfl

@[simp] theorem outcome_mapError (f : ε → δ) (action : Action ε α) (chip : Chip) :
    (action.mapError f).outcome chip = (action.outcome chip).mapError f := by
  simp only [outcome, mapError]
  cases action chip <;> rfl

@[simp] theorem after_mapError (f : ε → δ) (action : Action ε α) (chip : Chip) :
    (action.mapError f).after chip = action.after chip := by
  simp only [after, mapError]
  cases action chip <;> rfl

theorem outcome_attempt_of_ok {action : Action ε α} {chip : Chip} {answer : α}
    (done : action.outcome chip = .ok answer) :
    (action.attempt : Action δ (Except ε α)).outcome chip = .ok (.ok answer) := by
  simp only [outcome, attempt] at *
  rcases run : action chip with _ | (_ | _) <;> simp_all

theorem outcome_attempt_of_fail {action : Action ε α} {chip : Chip} {cause : ε}
    (failed : action.outcome chip = .fail cause) :
    (action.attempt : Action δ (Except ε α)).outcome chip = .ok (.error cause) := by
  simp only [outcome, attempt] at *
  rcases run : action chip with _ | (_ | _) <;> simp_all [Attempt.fail]

@[simp] theorem after_attempt (action : Action ε α) (chip : Chip) :
    (action.attempt : Action δ (Except ε α)).after chip = action.after chip := by
  simp only [after, attempt]
  rcases action chip with _ | (_ | _) <;> rfl

@[simp] theorem outcome_unlocked (action : Action ε α) (chip : Chip) :
    (unlocked action).outcome chip = action.outcome chip.unlock := by
  simp only [outcome, unlocked]
  cases action chip.unlock <;> rfl

@[simp] theorem after_unlocked (action : Action ε α) (chip : Chip) :
    (unlocked action).after chip = (action.after chip.unlock).lock := by
  simp only [after, unlocked]
  cases action chip.unlock <;> rfl

end Action

end ParamStore
