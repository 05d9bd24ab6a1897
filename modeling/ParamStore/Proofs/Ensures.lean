import ParamStore.Flash.Action

/-! Guarantees of calls. A call from a given chip either answers or reports a cause, and both ways
leave a chip behind; a guarantee says what is known of each. An interruption is a reported cause, so
the second half is also what holds after a loss of power. -/
namespace ParamStore

theorem eq_ok_of_toOption {ε α : Type} {attempt : Attempt ε α} {answer : α}
    (done : attempt.toOption = some answer) : attempt = .ok answer := by
  cases attempt with
  | ok found => exact congrArg _ (Option.some.inj done)
  | error _ => cases done

namespace Action

variable {ε δ α β : Type}

/-- From `chip` on, `action` answers with `good`, or reports a cause and leaves the chip with `bad`;
it never overflows. -/
def Ensures (action : Action ε α) (chip : Chip) (good : α → Chip → Prop)
    (bad : ε → Chip → Prop) : Prop :=
  match action chip with
  | .ok answer after => good answer after
  | .error (.error cause) after => bad cause after
  | .error .overflow _ => False

variable {action : Action ε α} {chip : Chip} {good good' : α → Chip → Prop}
  {bad bad' : ε → Chip → Prop}

theorem ensures_pure {answer : α} (holds : good answer chip) :
    Ensures (pure answer) chip good bad := holds

theorem ensures_fail {cause : ε} (holds : bad cause chip) :
    Ensures (fail cause) chip good bad := holds

theorem ensures_observe {question : Chip → Attempt ε α} {answer : α}
    (known : question chip = .ok answer) (holds : good answer chip) :
    Ensures (observe question) chip good bad := by
  simpa only [Ensures, observe, known] using holds

theorem Ensures.mono (ensured : Ensures action chip good bad)
    (good_imp : ∀ answer after, good answer after → good' answer after)
    (bad_imp : ∀ cause after, bad cause after → bad' cause after) :
    Ensures action chip good' bad' := by
  unfold Ensures at *
  rcases run : action chip with ⟨answer, after⟩ | ⟨_ | _, after⟩ <;> simp only [run] at ensured
  · exact good_imp _ _ ensured
  · exact bad_imp _ _ ensured

/-- What is known of failures may be put in other terms. -/
theorem Ensures.weaken (ensured : Ensures action chip good bad)
    (bad_imp : ∀ cause after, bad cause after → bad' cause after) :
    Ensures action chip good bad' := ensured.mono (fun _ _ holds => holds) bad_imp

theorem Ensures.bind {next : α → Action ε β} {final : β → Chip → Prop}
    (first : Ensures action chip good bad)
    (rest : ∀ answer after, good answer after → Ensures (next answer) after final bad) :
    Ensures (action >>= next) chip final bad := by
  unfold Ensures at first
  unfold Ensures
  simp only [Bind.bind, EStateM.bind]
  rcases run : action chip with ⟨answer, after⟩ | ⟨_ | _, after⟩
  · simp only [run] at first
    exact rest answer after first
  · simpa only [run] using first
  · simp only [run] at first

/-- How a call goes on matters only for what the call can lead to. -/
theorem Ensures.bind_congr {next other : α → Action ε β} (first : Ensures action chip good bad)
    (same : ∀ answer after, good answer after → next answer after = other answer after) :
    (action >>= next) chip = (action >>= other) chip := by
  unfold Ensures at first
  simp only [Bind.bind, EStateM.bind]
  rcases run : action chip with ⟨answer, after⟩ | ⟨failure, after⟩
  · simp only [run] at first
    exact same answer after first
  · rfl

/-- How a call goes on matters only for the answers that it can give. -/
theorem bind_congr_of_ok {next other : α → Action ε β}
    (same : ∀ chip answer after, action chip = .ok answer after → next answer = other answer) :
    (action >>= next) = (action >>= other) := by
  funext chip
  simp only [bind, EStateM.bind]
  cases run : action chip with
  | ok answer after => exact congrFun (same chip answer after run) after
  | error failure after => rfl

theorem bind_eq_ok {next : α → Action ε β} {after : Chip} {answer : β}
    (run : (action >>= next) chip = .ok answer after) :
    ∃ value middle, action chip = .ok value middle ∧ next value middle = .ok answer after := by
  simp only [bind, EStateM.bind] at run
  cases first : action chip with
  | ok value middle => exact ⟨value, middle, rfl, by simpa only [first] using run⟩
  | error failure middle => simp [first] at run

theorem observe_eq_ok {question : Chip → Attempt ε α} {after : Chip} {answer : α}
    (asked : observe question chip = .ok answer after) : question chip = .ok answer := by
  cases known : question chip with
  | ok value =>
    simp only [observe, known] at asked
    cases asked
    rfl
  | error failure => simp [observe, known] at asked

theorem bind_eq_of_eq {other : Action ε α} (same : action chip = other chip)
    (next : α → Action ε β) : (action >>= next) chip = (other >>= next) chip := by
  simp only [Bind.bind, EStateM.bind, same]

theorem observe_bind_eq {question : Chip → Attempt ε α} {answer : α} {next : α → Action ε β}
    (known : question chip = .ok answer) : (observe question >>= next) chip = next answer chip := by
  simp only [Bind.bind, EStateM.bind, observe, known]

/-- Two calls that ask first have to agree only where there is an answer. -/
theorem observe_bind_congr {question asked : Chip → Attempt ε α} {next other : α → Action ε β}
    (same : question chip = asked chip)
    (rest : ∀ answer, asked chip = .ok answer → next answer chip = other answer chip) :
    (observe question >>= next) chip = (observe asked >>= other) chip := by
  simp only [Bind.bind, EStateM.bind, observe, same]
  cases known : asked chip with
  | ok answer => exact rest answer known
  | error failure => rfl

/-- A question whose answer is known is the same as that answer. -/
theorem ensures_observe_bind {question : Chip → Attempt ε α} {answer : α}
    {next : α → Action ε β} {final : β → Chip → Prop} (known : question chip = .ok answer)
    (rest : Ensures (next answer) chip final bad) :
    Ensures (observe question >>= next) chip final bad := by
  have asked : Ensures (observe question) chip
      (fun found after => found = answer ∧ after = chip) bad := ensures_observe known ⟨rfl, rfl⟩
  apply asked.bind
  intro found after done
  obtain ⟨rfl, rfl⟩ := done
  exact rest

theorem ensures_observe_bind_fail {question : Chip → Attempt ε α} {cause : ε}
    {next : α → Action ε β} {final : β → Chip → Prop} (known : question chip = .fail cause)
    (holds : bad cause chip) : Ensures (observe question >>= next) chip final bad := by
  have asked : Ensures (observe question) chip (fun _ _ => False) bad := by
    simpa only [Ensures, observe, known, Attempt.fail] using holds
  exact asked.bind fun _ _ => False.elim

theorem ensures_get_bind {next : Chip → Action ε β} {final : β → Chip → Prop}
    (rest : Ensures (next chip) chip final bad) : Ensures (get >>= next) chip final bad := rest

theorem ensures_modify_bind {change : Chip → Chip} {next : Unit → Action ε β}
    {final : β → Chip → Prop} (rest : Ensures (next ()) (change chip) final bad) :
    Ensures (modify change >>= next) chip final bad := rest

theorem Ensures.mapError {f : ε → δ} {worse : δ → Chip → Prop}
    (ensured : Ensures action chip good fun cause after => worse (f cause) after) :
    Ensures (action.mapError f) chip good worse := by
  unfold Ensures at *
  unfold Action.mapError
  rcases run : action chip with ⟨answer, after⟩ | ⟨_ | _, after⟩ <;> simp only [run] at ensured
  · exact ensured
  · exact ensured

theorem Ensures.unlocked
    (ensured : Ensures action chip.unlock (fun answer after => good answer after.lock)
      fun cause after => bad cause after.lock) :
    Ensures (unlocked action) chip good bad := by
  unfold Ensures at *
  unfold Action.unlocked
  rcases run : action chip.unlock with ⟨answer, after⟩ | ⟨_ | _, after⟩ <;>
    simp only [run] at ensured
  · exact ensured
  · exact ensured

theorem mapError_bind (f : ε → δ) (action : Action ε α) (next : α → Action ε β) :
    (action >>= next).mapError f = action.mapError f >>= fun answer => (next answer).mapError f := by
  funext chip
  simp only [mapError, bind, EStateM.bind]
  cases action chip <;> rfl

theorem mapError_observe (f : ε → δ) (question : Chip → Attempt ε α) :
    (observe question).mapError f = observe fun chip => (question chip).mapError f := by
  funext chip
  simp only [mapError, observe]
  cases question chip <;> rfl

/-- What is known of the chip after a call may be added to a guarantee. -/
theorem Ensures.and_after (ensured : Ensures action chip good bad) (also : Chip → Prop)
    (known : also (action.after chip)) :
    Ensures action chip (fun answer after => good answer after ∧ also after)
      (fun cause after => bad cause after ∧ also after) := by
  unfold Ensures at *
  unfold Action.after at known
  rcases run : action chip with ⟨answer, after⟩ | ⟨_ | _, after⟩ <;>
    simp only [run] at ensured known
  · exact ⟨ensured, known⟩
  · exact ⟨ensured, known⟩

theorem Ensures.and (first : Ensures action chip good bad)
    (second : Ensures action chip good' bad') :
    Ensures action chip (fun answer after => good answer after ∧ good' answer after)
      (fun cause after => bad cause after ∧ bad' cause after) := by
  unfold Ensures at *
  rcases run : action chip with ⟨answer, after⟩ | ⟨_ | _, after⟩ <;>
    simp only [run] at first second
  · exact ⟨first, second⟩
  · exact ⟨first, second⟩

/-- An attempt answers in any case. -/
theorem Ensures.attempt {final : Except ε α → Chip → Prop} {never : δ → Chip → Prop}
    (ensured : Ensures action chip (fun answer => final (.ok answer))
      fun cause => final (.error cause)) :
    Ensures (action.attempt : Action δ (Except ε α)) chip final never := by
  unfold Ensures at *
  unfold Action.attempt
  rcases run : action chip with ⟨answer, after⟩ | ⟨_ | _, after⟩ <;> simp only [run] at ensured
  · exact ensured
  · exact ensured

theorem ensures_attempt_bind {question : Chip → Attempt ε α} {answer : α}
    {next : Except ε α → Action δ β} {final : β → Chip → Prop} {never : δ → Chip → Prop}
    (known : question chip = .ok answer)
    (rest : Ensures (next (.ok answer)) chip final never) :
    Ensures ((observe question).attempt >>= next) chip final never := by
  unfold Ensures at *
  simpa only [Bind.bind, EStateM.bind, Action.attempt, observe, known] using rest

theorem ensures_attempt_bind_fail {question : Chip → Attempt ε α} {cause : ε}
    {next : Except ε α → Action δ β} {final : β → Chip → Prop} {never : δ → Chip → Prop}
    (known : question chip = .fail cause)
    (rest : Ensures (next (.error cause)) chip final never) :
    Ensures ((observe question).attempt >>= next) chip final never := by
  unfold Ensures at *
  simpa only [Bind.bind, EStateM.bind, Action.attempt, observe, known, Attempt.fail] using rest

theorem Ensures.outcome_cases (ensured : Ensures action chip good bad) :
    (∃ answer, action.outcome chip = .ok answer ∧ good answer (action.after chip)) ∨
    (∃ cause, action.outcome chip = .fail cause ∧ bad cause (action.after chip)) := by
  unfold Ensures at ensured
  unfold outcome after
  rcases run : action chip with ⟨answer, after⟩ | ⟨_ | _, after⟩ <;> simp only [run] at ensured
  · exact .inl ⟨answer, rfl, ensured⟩
  · exact .inr ⟨_, rfl, ensured⟩

theorem Ensures.outcome_ne_overflow (ensured : Ensures action chip good bad) :
    action.outcome chip ≠ .error .overflow := by
  rcases ensured.outcome_cases with ⟨_, outcome, -⟩ | ⟨_, outcome, -⟩ <;>
    simp [outcome, Attempt.fail]

theorem Ensures.of_ok (ensured : Ensures action chip good bad) {answer : α}
    (done : action.outcome chip = .ok answer) : good answer (action.after chip) := by
  rcases ensured.outcome_cases with ⟨given, outcome, holds⟩ | ⟨_, outcome, -⟩
  · rw [outcome] at done
    cases done
    exact holds
  · simp [outcome, Attempt.fail] at done

theorem Ensures.of_fail (ensured : Ensures action chip good bad) {cause : ε}
    (failed : action.outcome chip = .fail cause) : bad cause (action.after chip) := by
  rcases ensured.outcome_cases with ⟨_, outcome, -⟩ | ⟨given, outcome, holds⟩
  · simp [outcome, Attempt.fail] at failed
  · rw [outcome] at failed
    cases failed
    exact holds

/-- What holds of the chip after either outcome holds after the call. -/
theorem Ensures.always (ensured : Ensures action chip good bad) (also : Chip → Prop)
    (good_imp : ∀ answer after, good answer after → also after)
    (bad_imp : ∀ cause after, bad cause after → also after) : also (action.after chip) := by
  rcases ensured.outcome_cases with ⟨_, -, holds⟩ | ⟨_, -, holds⟩
  · exact good_imp _ _ holds
  · exact bad_imp _ _ holds

/-- The call changes nothing of what `view` shows of a chip. -/
def Leaves {σ : Type} (view : Chip → σ) (action : Action ε α) : Prop :=
  ∀ chip, view (action.after chip) = view chip

section Leaves

variable {σ : Type} {view : Chip → σ}

theorem leaves_pure (answer : α) : (pure answer : Action ε α).Leaves view := fun _ => rfl

theorem leaves_fail (cause : ε) : (fail cause : Action ε α).Leaves view := fun _ => rfl

theorem leaves_get : (get : Action ε Chip).Leaves view := fun _ => rfl

theorem leaves_observe (question : Chip → Attempt ε α) : (observe question).Leaves view := by
  intro chip
  rw [after_observe]

theorem leaves_modify {change : Chip → Chip} (same : ∀ chip, view (change chip) = view chip) :
    (modify change : Action ε Unit).Leaves view := same

/-- What comes after a call and leaves the view alone can be left out. -/
theorem view_bind (view : Chip → σ) {next : α → Action ε β}
    (rest : ∀ answer, (next answer).Leaves view) (action : Action ε α) (chip : Chip) :
    view ((action >>= next).after chip) = view (action.after chip) := by
  rw [after_bind]
  cases action.outcome chip with
  | ok answer => exact rest answer _
  | error failure => rfl

theorem Leaves.bind {next : α → Action ε β} (first : action.Leaves view)
    (rest : ∀ answer, (next answer).Leaves view) : (action >>= next).Leaves view := fun chip =>
  (view_bind view rest action chip).trans (first chip)

theorem Leaves.mapError {f : ε → δ} (leaves : action.Leaves view) :
    (action.mapError f).Leaves view := by
  intro chip
  rw [after_mapError]
  exact leaves chip

theorem Leaves.unlocked (lock : ∀ chip, view chip.lock = view chip)
    (unlock : ∀ chip, view chip.unlock = view chip) (leaves : action.Leaves view) :
    (unlocked action).Leaves view := by
  intro chip
  rw [after_unlocked, lock, leaves, unlock]

end Leaves

end Action

end ParamStore
