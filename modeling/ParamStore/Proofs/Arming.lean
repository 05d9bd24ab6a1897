import ParamStore.Proofs.Admission
import ParamStore.Proofs.BootDecision
import ParamStore.Proofs.Restart
import ParamStore.Proofs.Supply

/-! Arming on a failing supply. A write shows its value before it kills the old one. If the supply
fails in between, arming has failed and yet the word is there, and the write that is to forget the
program finds no power either. That is the only way in which a failed arming skips the boot loader,
and wherever an old word is to be killed, there is a supply that fails so. -/
namespace ParamStore

namespace Store

variable {α : Type} {store : Store} {chip : Chip} {log : Log} {values : Values}
  {entries : List Entry} {parameter : UInt16} {data : Bytes}

/-- There is a supply that fails during the call and leaves these values. -/
def Exposes (store : Store) (action : Action StoreError Unit) (chip : Chip) (values : Values) :
    Prop :=
  ∃ budget, action.Fails (chip.withPower (some budget)) ∧
    (action.after (chip.withPower (some budget))).faults.powerBudget = some 0 ∧
    store.Shows (action.after (chip.withPower (some budget))).cell values

/-- The supply that fails later has to last through what comes before. -/
theorem Exposes.later {first : Action StoreError α} {next : α → Action StoreError Unit} {answer : α}
    (metered : first.Metered) (powered : chip.faults.powerBudget = none)
    (done : first.outcome chip = .ok answer)
    (exposes : store.Exposes (next answer) (first.after chip) values) :
    store.Exposes (first >>= next) chip values := by
  obtain ⟨cost, enough⟩ := metered.affordable chip powered
  obtain ⟨budget, fails, spent, shows⟩ := exposes
  obtain ⟨same, left⟩ := enough budget
  rw [done] at same
  refine ⟨cost + budget, Action.fails_bind fun other found => ?_, ?_⟩
  · rw [same, Except.ok.injEq] at found
    rw [← found, left]
    exact fails
  · rw [Action.after_bind, same, left]
    exact ⟨spent, shows⟩

theorem append_exposes (mounted : store.Mounted chip) (faultless : chip.Faultless)
    (ready : store.Ready chip.cell log entries) (valid : isValidParameter parameter = true)
    (short : data.length ≤ maxPayload)
    (room : (log.fresh parameter data).next ≤ log.segment.stop)
    (old : valueOf entries parameter ≠ none) :
    store.Exposes (store.run (Command.append log parameter data)) chip
      ((valueOf entries).set parameter data) := by
  obtain ⟨first, rest, copies⟩ := List.exists_cons_of_ne_nil
    (mt (ready.copies_eq_nil_iff valid).mp old)
  have pushed := (ready.push_fresh mounted valid short room).shows
  rw [valueOf_snoc _ _ valid] at pushed
  rcases (inscribe_fresh_ensures mounted ready valid short room faultless.steady).outcome_cases with
    ⟨_, done, keeps, cells⟩ | ⟨_, -, interrupted⟩
  · rw [run, Command.append, copies, Command.runAll_append]
    apply Exposes.later (Command.runAll_guarded _ _).metered faultless.obedient.powered done
    -- No power is left for the first of the old records.
    obtain ⟨same, spent⟩ := (Command.runAll_guarded store.region
      ((first :: rest).map Command.invalidate)).metered.inert
      (((Command.runAll store.region _).after chip).withPower (some 0)) rfl
    refine ⟨0, (Command.invalidate_spent store.region first rfl).bind _, spent, ?_⟩
    rw [← cells] at pushed
    rw [same]
    exact pushed
  · exact absurd faultless interrupted.faulty

theorem write_exposes (mounted : store.Mounted chip) (faultless : chip.Faultless)
    (holds : store.Holds chip.cell log)
    (done : (store.write parameter data).outcome chip = .ok ())
    (old : valueOf (entriesIn chip.cell log.records) parameter ≠ none) :
    store.Exposes (store.write parameter data) chip
      ((valueOf (entriesIn chip.cell log.records)).set parameter data) := by
  have powered := faultless.obedient.powered
  obtain ⟨valid, short⟩ : isValidParameter parameter = true ∧ data.length ≤ maxPayload := by
    rcases (write_ensures mounted holds faultless.steady).outcome_cases with
      ⟨_, -, valid, short, -⟩ | ⟨_, failed, -⟩
    · exact ⟨valid, short⟩
    · rw [failed] at done
      cases done
  unfold write at done ⊢
  rw [if_neg (by simp [valid]), if_neg (Nat.not_lt.mpr short)] at done ⊢
  rcases reserve_spec mounted holds short with ⟨reserved, takes⟩ | ⟨reserved, full⟩
  · apply Exposes.later (Action.metered_observe (store.reserve_aboutCells _).blind) powered
      ((Action.outcome_observe _ _).trans reserved)
    rw [Action.after_observe]
    exact append_exposes mounted faultless ⟨holds, rfl, takes.blank⟩ valid short takes.fits old
  · apply Exposes.later (Action.metered_observe (store.reserve_aboutCells _).blind) powered
      ((Action.outcome_observe _ _).trans reserved)
    rw [Action.outcome_bind, Action.outcome_observe, reserved, Action.after_observe] at done
    rw [Action.after_observe]
    rcases (makeRoom_ensures mounted holds faultless.steady short).outcome_cases with
      ⟨_, moved, -, -, keeps, cells⟩ | ⟨_, failed, -⟩
    · apply Exposes.later (store.makeRoom_guarded _).metered powered moved
      have kept := mounted.keeps keeps
      have still := keeps.faultless faultless
      obtain ⟨ready, -, -⟩ := holds.ready_compacted mounted
      rw [← cells] at ready
      rcases reserve_spec kept ready.holds short with ⟨again, room⟩ | ⟨again, crowded⟩
      · apply Exposes.later (Action.metered_observe (store.reserve_aboutCells _).blind)
          still.obedient.powered ((Action.outcome_observe _ _).trans again)
        rw [Action.after_observe, ← valueOf_freshest]
        exact append_exposes kept still ready valid short room.fits
          (valueOf_freshest (entriesIn chip.cell log.records) ▸ old)
      · refine absurd done (Action.fails_bind (fun _ _ => Action.fails_bind fun _ found => ?_) ())
        rw [Action.outcome_observe, again] at found
        cases found
        exact Action.fails_fail _ _
    · exact absurd done (Action.fails_bind (fun _ found => by rw [failed] at found; cases found) ())

/-- A value that can be stored is not refused. -/
theorem Stored.not_refused {new : Nat → UInt8} {grown : Log} {cause : StoreError} {after : Chip}
    (stored : store.Stored chip.cell log parameter data new grown) (mounted : store.Mounted chip)
    (holds : store.Holds chip.cell log) (valid : isValidParameter parameter = true)
    (short : data.length ≤ maxPayload) :
    ¬store.Refused chip log parameter data cause after := by
  intro refused
  have fits := stored.fits holds mounted
  cases stored with
  | inPlace takes =>
    cases refused with
    | reserved invalid => simp [invalid] at valid
    | tooLong _ long => exact Nat.not_lt.mpr short long
    | hopeless _ full | occupied _ full | crowded _ full => exact full takes
  | moved full unmarked =>
    exact (refused.not_fits holds mounted valid short unmarked).2 fits

/-- On a chip without faults a write that can store its value does. -/
theorem Stored.write_outcome {new : Nat → UInt8} {grown : Log}
    (stored : store.Stored chip.cell log parameter data new grown) (mounted : store.Mounted chip)
    (faultless : chip.Faultless) (holds : store.Holds chip.cell log)
    (valid : isValidParameter parameter = true) (short : data.length ≤ maxPayload) :
    (store.write parameter data).outcome chip = .ok () := by
  rcases (write_ensures mounted holds faultless.steady).outcome_cases with
    ⟨_, outcome, -⟩ | ⟨_, -, refused | interrupted⟩
  · exact outcome
  · exact absurd refused (stored.not_refused mounted holds valid short)
  · exact absurd faultless interrupted.faulty

end Store

namespace Boot

variable {store : Store} {chip : Chip} {log : Log} {entry : Entry}

theorem Entry.startsUserProgram_true_iff :
    entry.startsUserProgram true = true ↔ entry.vectorTable ≠ 0 ∧ entry.magic = skipMagic := by
  simp [Entry.startsUserProgram]

theorem armReset_outcome_of_ok
    (done : (writeWord store skipParameter skipMagic).outcome chip = .ok ()) :
    (armReset store).outcome chip = .ok () := by
  unfold armReset
  rw [Action.outcome_bind, Action.outcome_attempt_of_ok done]
  rfl

theorem armReset_after_of_ok
    (done : (writeWord store skipParameter skipMagic).outcome chip = .ok ()) :
    (armReset store).after chip = (writeWord store skipParameter skipMagic).after chip := by
  unfold armReset
  rw [Action.after_bind, Action.outcome_attempt_of_ok done, Action.after_attempt]
  rfl

theorem armReset_fails {cause : StoreError}
    (failed : (writeWord store skipParameter skipMagic).outcome chip = .fail cause) :
    (armReset store).Fails chip := by
  apply Action.fails_bind
  intro answer found
  rw [Action.outcome_attempt_of_fail failed, Except.ok.injEq] at found
  rw [← found]
  exact Action.fails_bind fun _ _ => Action.fails_fail _ _

theorem armReset_after_of_fail {cause : StoreError}
    (failed : (writeWord store skipParameter skipMagic).outcome chip = .fail cause) :
    (armReset store).after chip = (writeWord store vectorTableParameter 0).after
      ((writeWord store skipParameter skipMagic).after chip) := by
  unfold armReset
  rw [Action.after_bind, Action.outcome_attempt_of_fail failed, Action.after_attempt]
  dsimp only
  rw [Action.after_bind, Action.after_attempt]
  split <;> rfl

/-- What the next reset finds once power is back. -/
theorem load_restored {left : Entry} {budget : Nat} (mounted : store.Mounted chip)
    (holds : store.Holds chip.cell log) (steady : chip.faults.corruptNext = false)
    (offers : Offers store ((armReset store).after (chip.failPowerAfter budget)).cell left) :
    Entry.load store ((armReset store).after (chip.failPowerAfter budget)).restorePower =
      .ok left := by
  have supplied : store.Mounted (chip.failPowerAfter budget) := mounted.withPower (some budget)
  have keeps : (chip.failPowerAfter budget).Keeps
      ((armReset store).after (chip.failPowerAfter budget)) := by
    rcases (arm_ensures supplied holds steady rfl).outcome_cases with
      ⟨_, -, keeps, -⟩ | ⟨_, -, keeps, -⟩
    · exact keeps
    · exact keeps
  exact load_eq ((supplied.keeps keeps).withPower none) offers

/-- If there is an old word to kill, some supply fails between the two words. -/
theorem arm_exposes (mounted : store.Mounted chip) (faultless : chip.Faultless)
    (holds : store.Holds chip.cell log)
    (known : (valueOf (entriesIn chip.cell log.records)).entry = entry)
    (done : (armReset store).outcome chip = .ok ())
    (old : valueOf (entriesIn chip.cell log.records) skipParameter ≠ none) :
    ∃ budget, (armReset store).Fails (chip.failPowerAfter budget) ∧
      Offers store ((armReset store).after (chip.failPowerAfter budget)).cell
        { entry with magic := skipMagic } := by
  have armed := Values.entry_set_skip (valueOf (entriesIn chip.cell log.records)) skipMagic
  rw [known] at armed
  have written : (writeWord store skipParameter skipMagic).outcome chip = .ok () := by
    rcases (Store.write_ensures mounted holds faultless.steady).outcome_cases with
      ⟨_, outcome, -⟩ | ⟨_, failed, -⟩
    · exact outcome
    · exact absurd done (armReset_fails failed ())
  obtain ⟨budget, fails, spent, shows⟩ := Store.write_exposes mounted faultless holds written old
  refine ⟨budget, ?_⟩
  rcases (Store.write_ensures (mounted.withPower (some budget)) holds
    faultless.steady).outcome_cases with ⟨_, outcome, -⟩ | ⟨cause, failed, -⟩
  · exact absurd outcome (fails _)
  · refine ⟨armReset_fails failed, ?_⟩
    -- Forgetting the program takes power, too.
    obtain ⟨same, -⟩ := (store.write_guarded vectorTableParameter (wordBytes 0)).metered.inert _ spent
    rw [show (armReset store).after (chip.failPowerAfter budget) = _ from
      armReset_after_of_fail failed]
    exact ⟨_, same.symm ▸ shows, armed⟩

/-- Without an old word, or where the write could not succeed anyway, the word of a failed arming
cannot be seen. -/
theorem Botched.magic_eq {left : Entry} {budget : Nat}
    (botched : Botched store (chip.failPowerAfter budget) log entry left)
    (mounted : store.Mounted chip) (faultless : chip.Faultless)
    (holds : store.Holds chip.cell log)
    (safe : valueOf (entriesIn chip.cell log.records) skipParameter = none ∨
      (armReset store).outcome chip ≠ .ok ()) : left.magic = entry.magic := by
  rcases botched.magic with same | ⟨-, underway⟩
  · exact same
  exfalso
  rcases safe with missing | doomed
  · rcases underway.early with stuck | old
    · have responsive : (chip.failPowerAfter budget).faults.stuckBusy = false :=
        faultless.obedient.responsive
      simp [responsive] at stuck
    · exact old missing
  · obtain ⟨new, grown, stored⟩ := underway.stored
    have stored : store.Stored chip.cell log skipParameter (wordBytes skipMagic) new grown := stored
    exact doomed (armReset_outcome_of_ok
      (stored.write_outcome mounted faultless holds (by decide) (by decide)))

/-- A failed arming keeps a reset that asks for the boot loader in it, whenever the supply fails, if
and only if there is no program to start, no old word to kill, or no way to arm at all. -/
theorem failed_arm_stays_iff (mounted : store.Mounted chip) (faultless : chip.Faultless)
    (clean : store.Clean chip) (loaded : Entry.load store chip = .ok entry)
    (unarmed : entry.magic ≠ skipMagic) :
    (∀ budget, (armReset store).outcome (chip.failPowerAfter budget) ≠ .ok () →
      ∃ left, Entry.load store ((armReset store).after (chip.failPowerAfter budget)).restorePower =
          .ok left ∧ left.startsUserProgram true = false) ↔
      entry.vectorTable = 0 ∨ store.contains chip skipParameter = .ok false ∨
        (armReset store).outcome chip ≠ .ok () := by
  obtain ⟨log, found⟩ := clean
  have holds := mounted.log_eq_ok_iff.mp found
  have known : (valueOf (entriesIn chip.cell log.records)).entry = entry := by
    rw [load_eq mounted ⟨_, ⟨log, holds, rfl⟩, rfl⟩, Except.ok.injEq] at loaded
    exact loaded
  have word : store.contains chip skipParameter = .ok false ↔
      valueOf (entriesIn chip.cell log.records) skipParameter = none := by
    rw [mounted.contains_eq holds, Except.ok.injEq, Option.isSome_eq_false_iff,
      Option.isNone_iff_eq_none]
  rw [word]
  constructor
  · intro stays
    by_cases program : entry.vectorTable = 0
    · exact .inl program
    by_cases old : valueOf (entriesIn chip.cell log.records) skipParameter = none
    · exact .inr (.inl old)
    refine .inr (.inr fun done => ?_)
    obtain ⟨budget, fails, offers⟩ := arm_exposes mounted faultless holds known done old
    obtain ⟨left, loadedThen, stay⟩ := stays budget (fails ())
    rw [load_restored mounted holds faultless.steady offers, Except.ok.injEq] at loadedThen
    rw [← loadedThen, Bool.eq_false_iff] at stay
    exact stay (Entry.startsUserProgram_true_iff.mpr ⟨program, rfl⟩)
  · intro safe budget failed
    rcases (arm_ensures (mounted.withPower (some budget)) holds faultless.steady
      known).outcome_cases with ⟨_, outcome, -⟩ | ⟨_, -, -, left, botched, offers⟩
    · exact absurd outcome failed
    refine ⟨left, load_restored mounted holds faultless.steady offers, ?_⟩
    rw [Bool.eq_false_iff, ne_eq, Entry.startsUserProgram_true_iff]
    rintro ⟨program, armed⟩
    rcases safe with missing | safe
    · rcases botched.vectorTable with same | forgotten
      · exact program (same.trans missing)
      · exact program forgotten
    · exact unarmed ((botched.magic_eq mounted faultless holds safe).symm.trans armed)

/-- The records of an installed program and `later` ones. -/
def installedChip (later : Bytes) : Chip where
  base := 0x08000000
  pageSize := 16
  memory := ([0xA5, 0x5A, 0x01, 0x10, 4, 0, 0, 0x20, 0, 0x08, 0xFF, 0xFF] ++ later ++
    List.replicate (52 - later.length) erasedByte).toArray

/-- There was no word before. -/
theorem failed_arm_stays_iff_sample :
    Store.sample.contains (installedChip []) skipParameter = .ok false ∧
      ∀ budget, (armReset Store.sample).outcome ((installedChip []).failPowerAfter budget) ≠ .ok () →
        ∃ left, Entry.load Store.sample ((armReset Store.sample).after
            ((installedChip []).failPowerAfter budget)).restorePower = .ok left ∧
          left.startsUserProgram true = false := by
  have mounted : Store.sample.Mounted (installedChip []) :=
    ⟨rfl, by decide, rfl, by decide, by decide⟩
  have clean : Store.sample.log (installedChip []) =
      .ok ⟨Store.sample.segment .a, [⟨⟨0x1001, 4⟩, 2⟩], 12⟩ := eq_ok_of_toOption (by decide +kernel)
  have loaded : Entry.load Store.sample (installedChip []) = .ok ⟨0x08002000, 0⟩ :=
    eq_ok_of_toOption (by decide +kernel)
  have missing : Store.sample.contains (installedChip []) skipParameter = .ok false :=
    eq_ok_of_toOption (by decide +kernel)
  exact ⟨missing, (failed_arm_stays_iff mounted rfl ⟨_, clean⟩ loaded (by decide)).mpr
    (.inr (.inl missing))⟩

/-- A word was written and consumed. -/
def usedChip : Chip := installedChip [0x02, 0x10, 4, 0, 0, 0, 0, 0]

/-- The record of the old word outlives the supply, which lasts for the new one. -/
theorem failed_arm_starts :
    Store.sample.Mounted usedChip ∧ usedChip.Faultless ∧ Store.sample.Clean usedChip ∧
      Entry.load Store.sample usedChip = .ok ⟨0x08002000, 0⟩ ∧
      (armReset Store.sample).outcome (usedChip.failPowerAfter 4) ≠ .ok () ∧
      ∃ left, Entry.load Store.sample
          ((armReset Store.sample).after (usedChip.failPowerAfter 4)).restorePower = .ok left ∧
        left.startsUserProgram true = true := by
  have clean : Store.sample.log usedChip =
      .ok ⟨Store.sample.segment .a, [⟨⟨0x1001, 4⟩, 2⟩, ⟨⟨0x1002, 4⟩, 12⟩], 20⟩ :=
    eq_ok_of_toOption (by decide +kernel)
  have failed : ((armReset Store.sample).outcome (usedChip.failPowerAfter 4)).toOption = none := by
    decide +kernel
  refine ⟨⟨rfl, by decide, rfl, by decide, by decide⟩, rfl, ⟨_, clean⟩,
    eq_ok_of_toOption (by decide +kernel), fun done => ?_, ⟨0x08002000, skipMagic⟩,
    eq_ok_of_toOption (by decide +kernel), rfl⟩
  rw [done] at failed
  cases failed

end Boot

end ParamStore
