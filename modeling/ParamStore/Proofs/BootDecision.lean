import ParamStore.Boot
import ParamStore.Proofs.Atomicity

/-! The decision of the boot loader. It rests on two words of the store, and every task that changes
them does so by writes that keep the old word or leave the new one. So whatever cuts a task short,
the next reset finds an entry that some task meant to leave, and never a torn word. -/
namespace ParamStore

/-- The word that a parameter stands for; zero if it has no value. -/
def Values.word (values : Values) (parameter : UInt16) : UInt32 :=
  match values parameter with
  | none => 0
  | some value => wordOfBytes value

def Values.entry (values : Values) : Boot.Entry :=
  ⟨values.word Boot.vectorTableParameter, values.word Boot.skipParameter⟩

@[simp] theorem Values.word_set (values : Values) (parameter asked : UInt16) (word : UInt32) :
    (values.set parameter (wordBytes word)).word asked =
      if asked = parameter then word else values.word asked := by
  by_cases same : asked = parameter
  · have spelled := wordOfBytes_wordBytes word []
    rw [List.append_nil] at spelled
    simp [Values.word, Values.set, same, spelled]
  · simp [Values.word, Values.set, same]

theorem Values.entry_set_vectorTable (values : Values) (address : UInt32) :
    (values.set Boot.vectorTableParameter (wordBytes address)).entry =
      { values.entry with vectorTable := address } := by
  simp [Values.entry, Boot.vectorTableParameter, Boot.skipParameter]

theorem Values.entry_set_skip (values : Values) (magic : UInt32) :
    (values.set Boot.skipParameter (wordBytes magic)).entry = { values.entry with magic } := by
  simp [Values.entry, Boot.vectorTableParameter, Boot.skipParameter]

theorem Values.entry_congr {first second : Values}
    (program : first Boot.vectorTableParameter = second Boot.vectorTableParameter)
    (skip : first Boot.skipParameter = second Boot.skipParameter) :
    first.entry = second.entry := by
  simp only [Values.entry, Values.word, program, skip]

/-- The call leaves the entry of the boot loader alone. -/
def Call.Foreign : Call → Prop
  | .write parameter _ | .remove parameter =>
    parameter ≠ Boot.vectorTableParameter ∧ parameter ≠ Boot.skipParameter
  | .compact | .recover => True

theorem Call.Foreign.entry_effect {call : Call} (foreign : call.Foreign) (values : Values) :
    (call.effect values).entry = values.entry := by
  cases call with
  | write parameter data =>
    exact Values.entry_congr (if_neg foreign.1.symm) (if_neg foreign.2.symm)
  | remove parameter =>
    exact Values.entry_congr (if_neg foreign.1.symm) (if_neg foreign.2.symm)
  | compact => rfl
  | recover => rfl

namespace Boot

variable {store : Store} {chip : Chip} {values : Values} {entry : Entry}

/-- What the user of a boot loader does: its own tasks, and upkeep of the store. -/
inductive Task where
  | install (address : UInt32)
  | clear
  | arm
  | consume (given : Entry)
  | maintain (call : Call)
  deriving DecidableEq, Repr

def Task.run (store : Store) : Task → Action BootError Unit
  | install address => setUserProgram store address
  | clear => clearUserProgram store
  | arm => armReset store
  | consume given => do
    let _ ← given.consumeSkip store
  | maintain call => (call.run store).mapError .store

/-- A task, and the faults that begin with it if they change. -/
structure Turn where
  faults : Option Faults
  task : Task
  deriving DecidableEq, Repr

namespace Turn

def start (turn : Turn) (chip : Chip) : Chip :=
  match turn.faults with
  | none => chip
  | some faults => chip.withFaults faults

def outcome (store : Store) (turn : Turn) (chip : Chip) : Attempt BootError Unit :=
  (turn.task.run store).outcome (turn.start chip)

def after (store : Store) (turn : Turn) (chip : Chip) : Chip :=
  (turn.task.run store).after (turn.start chip)

/-- No bit flips, and upkeep is of other parameters. -/
structure Lawful (turn : Turn) : Prop where
  steady : ∀ faults, turn.faults = some faults → faults.corruptNext = false
  foreign : ∀ call, turn.task = .maintain call → call.Foreign

end Turn

def carryOut (store : Store) : List Turn → Chip → Chip
  | [], chip => chip
  | turn :: rest, chip => carryOut store rest (turn.after store chip)

/-- The program lies in the flash of user programs. -/
def InUserFlash (address : UInt32) : Prop := 0x08002000 ≤ address ∧ address ≤ 0x080077FF

/-- There is no program or a possible one, and no word or the one that skips the boot loader. -/
structure Entry.Sound (entry : Entry) : Prop where
  vectorTable : entry.vectorTable = 0 ∨ InUserFlash entry.vectorTable
  magic : entry.magic = 0 ∨ entry.magic = 0x3C65A95A

/-- The entries that a task may leave, done or cut short. -/
inductive Task.Leaves (entry : Entry) : Task → Entry → Prop
  | same (task : Task) : Leaves entry task entry
  | installed {address : UInt32} (inside : InUserFlash address) :
    Leaves entry (.install address) { entry with vectorTable := address }
  | cleared : Leaves entry .clear { entry with vectorTable := 0 }
  | armed : Leaves entry .arm { entry with magic := skipMagic }
  | forgotten : Leaves entry .arm { entry with vectorTable := 0 }
  | both : Leaves entry .arm ⟨0, skipMagic⟩
  | consumed (given : Entry) : Leaves entry (.consume given) { entry with magic := 0 }

theorem Task.Leaves.sound {task : Task} {left : Entry} (leaves : task.Leaves entry left)
    (sound : entry.Sound) : left.Sound := by
  cases leaves with
  | same => exact sound
  | installed inside => exact ⟨.inr inside, sound.magic⟩
  | cleared | forgotten => exact ⟨.inl rfl, sound.magic⟩
  | armed => exact ⟨sound.vectorTable, .inr rfl⟩
  | both => exact ⟨.inl rfl, .inr rfl⟩
  | consumed => exact ⟨sound.vectorTable, .inl rfl⟩

/-- A task that installs a program, if nothing fails. -/
def Task.Installs (task : Task) : Prop := ∃ address, task = .install address ∧ InUserFlash address

/-- Where there is no program, only installing one changes that. -/
theorem Task.Leaves.vectorTable_eq {task : Task} {left : Entry} (leaves : task.Leaves entry left)
    (missing : entry.vectorTable = 0) (other : ¬task.Installs) : left.vectorTable = 0 := by
  cases leaves with
  | same | armed | consumed => exact missing
  | installed inside => exact absurd ⟨_, rfl, inside⟩ other
  | cleared | forgotten | both => rfl

/-- The store works, and this is the entry in it. -/
def Offers (store : Store) (cells : Nat → UInt8) (entry : Entry) : Prop :=
  ∃ values, store.Shows cells values ∧ values.entry = entry

/-- The store works after a write cut short, with the entry before it or the one behind it. -/
def OldOrNew (store : Store) (chip : Chip) (old new : Entry) (after : Chip) : Prop :=
  chip.Keeps after ∧ (Offers store after.cell old ∨ Offers store after.cell new)

theorem readWord_eq (mounted : store.Mounted chip) (shows : store.Shows chip.cell values)
    {parameter : UInt16} (valid : isValidParameter parameter = true) :
    readWord store chip parameter = .ok (values.word parameter) := by
  rw [readWord, mounted.read_of_shows shows, Values.read, if_pos valid, Values.word]
  cases values parameter with
  | none => rfl
  | some value =>
    have cut : wordOfBytes (value.take 4) = wordOfBytes value := by
      simp [wordOfBytes, List.getD_eq_getElem?_getD]
    exact congrArg Except.ok cut

theorem load_eq (mounted : store.Mounted chip) (offers : Offers store chip.cell entry) :
    Entry.load store chip = .ok entry := by
  obtain ⟨values, shows, rfl⟩ := offers
  simp only [Entry.load, readWord_eq mounted shows (show isValidParameter vectorTableParameter = true
    from rfl), readWord_eq mounted shows (show isValidParameter skipParameter = true from rfl)]
  rfl

theorem writeWord_ensures (shows : store.Shows chip.cell values) (mounted : store.Mounted chip)
    (steady : chip.faults.corruptNext = false) (parameter : UInt16) (word : UInt32) :
    (writeWord store parameter word).Ensures chip
      (fun _ after => chip.Keeps after ∧
        Offers store after.cell (values.set parameter (wordBytes word)).entry)
      (fun _ => OldOrNew store chip values.entry (values.set parameter (wordBytes word)).entry) := by
  apply (shows.write_ensures mounted steady).mono
  · exact fun _ after done => ⟨done.1, _, done.2, rfl⟩
  · intro cause after failed
    obtain ⟨keeps, old | new⟩ := failed
    · exact ⟨keeps, .inl ⟨_, old, rfl⟩⟩
    · exact ⟨keeps, .inr ⟨_, new, rfl⟩⟩

theorem writeVectorTable_ensures (offers : Offers store chip.cell entry)
    (mounted : store.Mounted chip) (steady : chip.faults.corruptNext = false) (address : UInt32) :
    (writeWord store vectorTableParameter address).Ensures chip
      (fun _ after => chip.Keeps after ∧
        Offers store after.cell { entry with vectorTable := address })
      (fun _ => OldOrNew store chip entry { entry with vectorTable := address }) := by
  obtain ⟨values, shows, rfl⟩ := offers
  rw [← Values.entry_set_vectorTable]
  exact writeWord_ensures shows mounted steady vectorTableParameter address

theorem writeMagic_ensures (offers : Offers store chip.cell entry)
    (mounted : store.Mounted chip) (steady : chip.faults.corruptNext = false) (magic : UInt32) :
    (writeWord store skipParameter magic).Ensures chip
      (fun _ after => chip.Keeps after ∧ Offers store after.cell { entry with magic })
      (fun _ => OldOrNew store chip entry { entry with magic }) := by
  obtain ⟨values, shows, rfl⟩ := offers
  rw [← Values.entry_set_skip]
  exact writeWord_ensures shows mounted steady skipParameter magic

/-- The store works after the task, and has an entry that the task may leave. -/
def Task.Leads (store : Store) (chip : Chip) (entry : Entry) (task : Task) (after : Chip) : Prop :=
  chip.Keeps after ∧ ∃ left, task.Leaves entry left ∧ Offers store after.cell left

/-- A task that is one write. -/
theorem Task.Leaves.ensures {ε : Type} {task : Task} {new : Entry} {action : Action ε Unit}
    (leaves : task.Leaves entry new)
    (written : action.Ensures chip (fun _ after => chip.Keeps after ∧ Offers store after.cell new)
      (fun _ => OldOrNew store chip entry new)) :
    action.Ensures chip (fun _ => task.Leads store chip entry)
      (fun _ => task.Leads store chip entry) := by
  apply written.mono
  · rintro _ after ⟨keeps, offers⟩
    exact ⟨keeps, new, leaves, offers⟩
  · rintro _ after ⟨keeps, old | offers⟩
    · exact ⟨keeps, entry, .same task, old⟩
    · exact ⟨keeps, new, leaves, offers⟩

theorem clear_ensures (offers : Offers store chip.cell entry) (mounted : store.Mounted chip)
    (steady : chip.faults.corruptNext = false) :
    (clearUserProgram store).Ensures chip
      (fun _ after => chip.Keeps after ∧ Offers store after.cell { entry with vectorTable := 0 })
      (fun _ => OldOrNew store chip entry { entry with vectorTable := 0 }) := by
  have installed : readWord store chip vectorTableParameter = .ok entry.vectorTable := by
    obtain ⟨values, shows, rfl⟩ := offers
    exact readWord_eq mounted shows rfl
  apply Action.Ensures.mapError
  apply Action.ensures_observe_bind installed
  split
  · exact writeVectorTable_ensures offers mounted steady 0
  · next missing =>
    have same : { entry with vectorTable := 0 } = entry := by
      rw [← Decidable.not_not.mp missing]
    rw [same]
    exact Action.ensures_pure ⟨.refl chip, offers⟩

/-- The second half of arming, when the first has failed. -/
theorem forget_ensures (offers : Offers store chip.cell entry) (mounted : store.Mounted chip)
    (steady : chip.faults.corruptNext = false) (cause : StoreError) :
    (do let _ ← Action.attempt (writeWord store vectorTableParameter 0)
        Action.fail (.store cause) : Action BootError Unit).Ensures chip (fun _ _ => False)
      (fun _ => OldOrNew store chip entry { entry with vectorTable := 0 }) := by
  have tried : (writeWord store vectorTableParameter 0).attempt.Ensures chip
      (fun _ => OldOrNew store chip entry { entry with vectorTable := 0 })
      fun _ : BootError => OldOrNew store chip entry { entry with vectorTable := 0 } := by
    apply Action.Ensures.attempt
    apply (writeVectorTable_ensures offers mounted steady 0).mono
    · exact fun _ after done => ⟨done.1, .inr done.2⟩
    · exact fun _ after failed => failed
  exact tried.bind fun _ after left => Action.ensures_fail left

/-- The entry that arming leaves when it fails. The program may be forgotten, and the word may be
there all the same if the write that failed was under way. -/
structure Botched (store : Store) (chip : Chip) (log : Log) (entry left : Entry) : Prop where
  vectorTable : left.vectorTable = entry.vectorTable ∨ left.vectorTable = 0
  magic : left.magic = entry.magic ∨
    (left.magic = skipMagic ∧ store.Underway chip log skipParameter (wordBytes skipMagic))

/-- The first half of arming. -/
theorem writeSkip_ensures {log : Log} (mounted : store.Mounted chip)
    (holds : store.Holds chip.cell log) (steady : chip.faults.corruptNext = false)
    (known : (valueOf (entriesIn chip.cell log.records)).entry = entry) :
    (writeWord store skipParameter skipMagic).Ensures chip
      (fun _ after => chip.Keeps after ∧ Offers store after.cell { entry with magic := skipMagic })
      (fun _ after => chip.Keeps after ∧
        ∃ left, Botched store chip log entry left ∧ Offers store after.cell left) := by
  have armed := Values.entry_set_skip (valueOf (entriesIn chip.cell log.records)) skipMagic
  rw [known] at armed
  apply (Store.write_cases mounted holds steady).mono
  · rintro _ after ⟨valid, short, keeps, grown, stored⟩
    exact ⟨keeps, _, stored.shows holds mounted valid short, armed⟩
  · rintro cause after (refused | interrupted)
    · obtain ⟨keeps, old⟩ := refused.shows holds mounted
      exact ⟨keeps, entry, ⟨.inl rfl, .inl rfl⟩, _, old, known⟩
    · refine ⟨interrupted.keeps, ?_⟩
      rcases interrupted.state with old | ⟨new, underway⟩
      · exact ⟨entry, ⟨.inl rfl, .inl rfl⟩, _, old, known⟩
      · exact ⟨{ entry with magic := skipMagic }, ⟨.inl rfl, .inr ⟨rfl, underway⟩⟩, _, new, armed⟩

theorem arm_ensures {log : Log} (mounted : store.Mounted chip) (holds : store.Holds chip.cell log)
    (steady : chip.faults.corruptNext = false)
    (known : (valueOf (entriesIn chip.cell log.records)).entry = entry) :
    (armReset store).Ensures chip
      (fun _ after => chip.Keeps after ∧ Offers store after.cell { entry with magic := skipMagic })
      (fun _ after => chip.Keeps after ∧
        ∃ left, Botched store chip log entry left ∧ Offers store after.cell left) := by
  have tried : (writeWord store skipParameter skipMagic).attempt.Ensures chip
      (fun answer after => chip.Keeps after ∧
        ((answer = .ok () ∧ Offers store after.cell { entry with magic := skipMagic }) ∨
          ∃ cause left, answer = .error cause ∧ Botched store chip log entry left ∧
            Offers store after.cell left))
      (fun (_ : BootError) after => chip.Keeps after ∧
        ∃ left, Botched store chip log entry left ∧ Offers store after.cell left) := by
    apply Action.Ensures.attempt
    apply (writeSkip_ensures mounted holds steady known).mono
    · exact fun _ after done => ⟨done.1, .inl ⟨rfl, done.2⟩⟩
    · rintro cause after ⟨keeps, left, botched, offers⟩
      exact ⟨keeps, .inr ⟨cause, left, rfl, botched, offers⟩⟩
  apply tried.bind
  rintro answer after ⟨keeps, ⟨rfl, offers⟩ | ⟨cause, left, rfl, botched, offers⟩⟩
  · exact Action.ensures_pure ⟨keeps, offers⟩
  · apply (forget_ensures offers (mounted.keeps keeps) (keeps.steady steady) cause).mono
    · exact fun _ _ => False.elim
    · rintro _ last ⟨kept, same | forgotten⟩
      · exact ⟨keeps.trans kept, left, botched, same⟩
      · exact ⟨keeps.trans kept, { left with vectorTable := 0 }, ⟨.inr rfl, botched.magic⟩,
          forgotten⟩

/-- Whichever of its two words a failed arming has changed. -/
theorem Botched.leaves {log : Log} {left : Entry} (botched : Botched store chip log entry left) :
    Task.arm.Leaves entry left := by
  obtain ⟨program, magic⟩ := left
  obtain ⟨rfl | rfl, rfl | ⟨rfl, -⟩⟩ := botched
  · exact .same _
  · exact .armed
  · exact .forgotten
  · exact .both

theorem consume_ensures (given : Entry) (offers : Offers store chip.cell entry)
    (mounted : store.Mounted chip) (steady : chip.faults.corruptNext = false) :
    (given.consumeSkip store).Ensures chip (fun _ => (Task.consume given).Leads store chip entry)
      (fun _ => (Task.consume given).Leads store chip entry) := by
  unfold Entry.consumeSkip
  split
  · have written := (Task.Leaves.consumed given).ensures
      (writeMagic_ensures offers mounted steady 0)
    apply Action.Ensures.mapError
    exact written.bind fun _ _ done => Action.ensures_pure done
  · exact Action.ensures_pure ⟨.refl chip, entry, .same _, offers⟩

theorem Task.run_ensures (task : Task) (offers : Offers store chip.cell entry)
    (mounted : store.Mounted chip) (steady : chip.faults.corruptNext = false)
    (foreign : ∀ call, task = .maintain call → call.Foreign) :
    (task.run store).Ensures chip (fun _ => task.Leads store chip entry)
      (fun _ => task.Leads store chip entry) := by
  have untouched : task.Leads store chip entry chip := ⟨.refl chip, entry, .same task, offers⟩
  cases task with
  | install address =>
    change (setUserProgram store address).Ensures chip _ _
    unfold setUserProgram
    split
    · next inside =>
      apply Action.Ensures.mapError
      exact (Task.Leaves.installed inside).ensures
        (writeVectorTable_ensures offers mounted steady address)
    · exact Action.ensures_fail untouched
  | clear => exact Task.Leaves.cleared.ensures (clear_ensures offers mounted steady)
  | arm =>
    obtain ⟨values, ⟨log, holds, rfl⟩, known⟩ := offers
    apply (arm_ensures mounted holds steady known).mono
    · exact fun _ after done => ⟨done.1, _, .armed, done.2⟩
    · rintro _ after ⟨keeps, left, botched, offers⟩
      exact ⟨keeps, left, botched.leaves, offers⟩
  | consume given =>
    apply Action.Ensures.bind
    · exact consume_ensures given offers mounted steady
    · exact fun _ _ done => Action.ensures_pure done
  | maintain call =>
    obtain ⟨values, shows, rfl⟩ := offers
    have same := (foreign call rfl).entry_effect values
    apply Action.Ensures.mapError
    apply (call.run_ensures mounted shows steady).mono
    · exact fun _ after done => ⟨done.1, _, .same _, _, done.2, same⟩
    · rintro _ after ⟨keeps, old | new⟩
      · exact ⟨keeps, _, .same _, _, old, rfl⟩
      · exact ⟨keeps, _, .same _, _, new, same⟩

/-- Between tasks: a store that works, with this entry, on a chip that flips no bit. -/
structure Stands (store : Store) (chip : Chip) (entry : Entry) : Prop where
  mounted : store.Mounted chip
  steady : chip.faults.corruptNext = false
  offers : Offers store chip.cell entry

theorem Stands.start (stands : Stands store chip entry) {turn : Turn} (lawful : turn.Lawful) :
    Stands store (turn.start chip) entry := by
  obtain ⟨faults, task⟩ := turn
  cases faults with
  | none => exact stands
  | some faults =>
    exact ⟨stands.mounted.withFaults faults, lawful.steady faults rfl, stands.offers⟩

theorem Stands.step (stands : Stands store chip entry) {turn : Turn} (lawful : turn.Lawful) :
    ∃ left, turn.task.Leaves entry left ∧ Stands store (turn.after store chip) left := by
  have begun := stands.start lawful
  have leads : turn.task.Leads store (turn.start chip) entry (turn.after store chip) := by
    rcases (turn.task.run_ensures begun.offers begun.mounted begun.steady
      lawful.foreign).outcome_cases with ⟨_, -, done⟩ | ⟨_, -, failed⟩
    · exact done
    · exact failed
  obtain ⟨keeps, left, leaves, offers⟩ := leads
  exact ⟨left, leaves, begun.mounted.keeps keeps, keeps.steady begun.steady, offers⟩

/-- What every task of a run keeps of the entry, the run keeps. -/
theorem Stands.carryOut (good : Entry → Prop) (turns : List Turn)
    (lawful : ∀ turn ∈ turns, turn.Lawful)
    (kept : ∀ turn ∈ turns, ∀ before left, turn.task.Leaves before left → good before → good left)
    (stands : Stands store chip entry) (holds : good entry) :
    ∃ left, Stands store (carryOut store turns chip) left ∧ good left := by
  induction turns generalizing chip entry with
  | nil => exact ⟨entry, stands, holds⟩
  | cons turn rest ih =>
    obtain ⟨left, leaves, standsThen⟩ := stands.step (lawful turn (by simp))
    exact ih (fun other member => lawful other (by simp [member]))
      (fun other member => kept other (by simp [member])) standsThen
      (kept turn (by simp) entry left leaves holds)

theorem carryOut_append (first second : List Turn) :
    carryOut store (first ++ second) chip = carryOut store second (carryOut store first chip) := by
  induction first generalizing chip with
  | nil => rfl
  | cons turn rest ih => exact ih

theorem Stands.cleared (stands : Stands store chip entry) {faults : Option Faults}
    (lawful : Turn.Lawful ⟨faults, .clear⟩)
    (done : Turn.outcome store ⟨faults, .clear⟩ chip = .ok ()) :
    Stands store (Turn.after store ⟨faults, .clear⟩ chip) { entry with vectorTable := 0 } := by
  have begun := stands.start lawful
  rcases (clear_ensures begun.offers begun.mounted begun.steady).outcome_cases with
    ⟨_, -, keeps, offers⟩ | ⟨cause, failed, -⟩
  · exact ⟨begun.mounted.keeps keeps, keeps.steady begun.steady, offers⟩
  · rw [show Turn.outcome store ⟨faults, .clear⟩ chip = .fail cause from failed] at done
    cases done

theorem Stands.of_format (mounted : store.Mounted chip) (steady : chip.faults.corruptNext = false)
    (formatted : store.format.outcome chip = .ok ()) :
    Stands store (store.format.after chip) .none := by
  rcases (Store.format_ensures mounted).outcome_cases with
    ⟨_, -, keeps, cells⟩ | ⟨cause, failed, -⟩
  · obtain ⟨ready, -⟩ := Store.ready_formatted mounted chip.cell
    rw [← cells] at ready
    exact ⟨mounted.keeps keeps, keeps.steady steady, _, ready.shows, rfl⟩
  · rw [failed] at formatted
    cases formatted

theorem Entry.startsUserProgram_eq_false (missing : entry.vectorTable = 0) (requested : Bool) :
    entry.startsUserProgram requested = false := by
  simp [Entry.startsUserProgram, missing]

/-- From a formatted store on, through every run of tasks with faults during any of them, the boot
loader finds an entry that is sound. Once the program has been cleared, no reset starts one until
another is installed. -/
theorem load_after_format_sound (mounted : store.Mounted chip)
    (steady : chip.faults.corruptNext = false) (formatted : store.format.outcome chip = .ok ())
    (turns : List Turn) (lawful : ∀ turn ∈ turns, turn.Lawful) :
    ∃ entry, Entry.load store (carryOut store turns (store.format.after chip)) = .ok entry ∧
      entry.Sound ∧
      ∀ before faults later, turns = before ++ ⟨faults, .clear⟩ :: later →
        Turn.outcome store ⟨faults, .clear⟩ (carryOut store before (store.format.after chip)) =
          .ok () →
        (∀ turn ∈ later, ¬turn.task.Installs) →
        ∀ requested, entry.startsUserProgram requested = false := by
  have fresh := Stands.of_format mounted steady formatted
  obtain ⟨entry, stands, sound⟩ := fresh.carryOut Entry.Sound turns lawful
    (fun _ _ _ _ leaves => leaves.sound) ⟨.inl rfl, .inl rfl⟩
  have loaded := load_eq stands.mounted stands.offers
  refine ⟨entry, loaded, sound, ?_⟩
  rintro before faults later rfl done others requested
  -- The run is followed again, this time for the missing program.
  obtain ⟨halfway, standsThen, -⟩ := fresh.carryOut (fun _ => True) before
    (fun turn member => lawful turn (by simp [member])) (fun _ _ _ _ _ => id) trivial
  obtain ⟨left, standsLast, missing⟩ := (standsThen.cleared (lawful _ (by simp)) done).carryOut
    (·.vectorTable = 0) later (fun turn member => lawful turn (by simp [member]))
    (fun turn member _ _ leaves missing => leaves.vectorTable_eq missing (others turn member)) rfl
  have again := load_eq standsLast.mounted standsLast.offers
  rw [carryOut_append, show carryOut store (⟨faults, .clear⟩ :: later) _ = carryOut store later _
    from rfl, again, Except.ok.injEq] at loaded
  exact Entry.startsUserProgram_eq_false (loaded ▸ missing) requested

/-- The supply fails while the reset is armed; the program installed after that is not one. -/
theorem load_after_format_sound_sample :
    ∃ entry, Entry.load Store.sample (carryOut Store.sample
        [⟨none, .install 0x08002000⟩, ⟨none, .clear⟩, ⟨some { powerBudget := some 3 }, .arm⟩,
          ⟨some {}, .install 5⟩]
        (Store.sample.format.after (.erased 0x08000000 64 16))) = .ok entry ∧
      entry.Sound ∧ ∀ requested, entry.startsUserProgram requested = false := by
  have formatted : Store.sample.format.outcome (.erased 0x08000000 64 16) = .ok () :=
    eq_ok_of_toOption (by decide +kernel)
  have cleared : Turn.outcome Store.sample ⟨none, .clear⟩ (carryOut Store.sample
      [⟨none, .install 0x08002000⟩] (Store.sample.format.after (.erased 0x08000000 64 16))) =
      .ok () := eq_ok_of_toOption (by decide +kernel)
  obtain ⟨entry, loaded, sound, stays⟩ := load_after_format_sound
    ⟨rfl, by decide, rfl, by decide, by decide⟩ rfl formatted
    [⟨none, .install 0x08002000⟩, ⟨none, .clear⟩, ⟨some { powerBudget := some 3 }, .arm⟩,
      ⟨some {}, .install 5⟩]
    (fun turn member => ⟨by revert turn; decide, by simp at member; grind⟩)
  refine ⟨entry, loaded, sound, stays [⟨none, .install 0x08002000⟩] none
    [⟨some { powerBudget := some 3 }, .arm⟩, ⟨some {}, .install 5⟩] rfl cleared ?_⟩
  simp [Task.Installs, InUserFlash]

end Boot

end ParamStore
