import ParamStore.Proofs.Ledger
import ParamStore.Proofs.Wear

/-! Wear levelling. After formatting, a segment is erased when the log leaves it and at no other time,
and the log leaves one segment for the other. So the segments take turns, and no page is ever more
than one erase ahead of another. -/
namespace ParamStore

/-- A call of whoever uses a formatted store. -/
inductive Access where
  | read (parameter : UInt16) (capacity : Nat)
  | contains (parameter : UInt16)
  | stats
  | change (call : Call)
  deriving DecidableEq, Repr

def Access.run (store : Store) : Access → Action StoreError Unit
  | read parameter capacity => do
    let _ ← Action.observe (store.read · parameter capacity)
  | contains parameter => do
    let _ ← Action.observe (store.contains · parameter)
  | stats => do
    let _ ← Action.observe store.stats
  | change call => call.run store

/-- The chip after some calls. -/
def perform (store : Store) : List Access → Chip → Chip
  | [], chip => chip
  | access :: rest, chip => perform store rest ((access.run store).after chip)

/-- What a call makes of the ledger. -/
def Ledger.accessed (capacity : Nat) (ledger : Ledger) : Access → Ledger
  | .change call => ledger.after capacity call
  | _ => ledger

/-- The write moves the log: there is no room behind it, but would be in an empty segment. -/
structure Ledger.Moves (capacity : Nat) (ledger : Ledger) (parameter : UInt16) (value : Bytes) :
    Prop where
  valid : isValidParameter parameter = true
  short : value.length ≤ maxPayload
  full : ¬ledger.Takes capacity value
  hopeful : empty.Takes capacity value

theorem Ledger.Moves.active_write {capacity : Nat} {ledger : Ledger} {parameter : UInt16}
    {value : Bytes} (moves : ledger.Moves capacity parameter value) :
    (ledger.write capacity parameter value).active = ledger.active.other := by
  rw [write, if_pos ⟨moves.valid, moves.short⟩, if_neg moves.full, if_pos moves.hopeful]
  split <;> rfl

theorem Ledger.active_write_of_stays {capacity : Nat} {ledger : Ledger} {parameter : UInt16}
    {value : Bytes} (stays : ¬ledger.Moves capacity parameter value) :
    (ledger.write capacity parameter value).active = ledger.active := by
  rw [write]
  split
  next accepted =>
    split
    · rfl
    next full =>
      rw [if_neg fun hopeful => stays ⟨accepted.1, accepted.2, full, hopeful⟩]
  next => rfl

namespace Store

variable {store : Store} {chip : Chip} {log : Log} {ledger : Ledger} {data : Bytes}

/-- Compaction wears the segment that it empties. -/
theorem compact_wear (mounted : store.Mounted chip) (faultless : chip.Faultless)
    (holds : store.Holds chip.cell log) (blank : store.SpareBlank chip.cell log) :
    (store.compact.after chip).eraseCount = log.segment.wear chip.pageSize chip.eraseCount := by
  have ensured : store.compact.Ensures chip
      (fun _ after => after.eraseCount = log.segment.wear chip.pageSize chip.eraseCount)
      (fun _ _ => False) := by
    have found := mounted.active_eq holds.active
    rw [← holds.segment] at found
    have cleared : chip.cell = wipe chip.cell (store.spare log).start (store.spare log).stop :=
      (wipe_blank blank).symm
    unfold compact
    apply Action.ensures_observe_bind found
    apply Action.ensures_observe_bind (mounted.isInUse_eq _)
    simp only [segment_id, decide_eq_true_eq, if_neg (blank.unmarked mounted)]
    apply Action.Ensures.bind
    · apply (store.clearSpare_ensures mounted log.segment.id.other).weaken
      exact fun _ _ balked => balked.faulty faultless
    intro dirty same done
    obtain ⟨-, -, empty, untouched⟩ := done
    obtain rfl := untouched (empty.mpr blank)
    apply Action.ensures_observe_bind (mounted.logRead_eq holds)
    apply Action.Ensures.bind
    · apply ((holds.copy_ensures mounted cleared).and_after
        (·.eraseCounts = same.eraseCounts) (store.pack_gentle _ _ _ _)).weaken
      exact fun _ _ interrupted => interrupted.1.faulty faultless
    intro tail middle done
    obtain ⟨⟨-, keeps, copy⟩, counted⟩ := done
    have unwritten : Blank middle.cell (store.spare log).start (store.spare log).firstRecord :=
      copy ▸ blank_copied mounted same.cell log
    have switching : (store.run [store.markCommand log.segment.id.other,
        store.eraseCommand log.segment.id]).Ensures middle
        (fun _ after => after.eraseCount = log.segment.wear same.pageSize same.eraseCount)
        (fun _ _ => False) := by
      apply Command.ensures_cons
      · apply ((store.markCommand_ensures (mounted.keeps keeps) log.segment.id.other
          unwritten).and_after (·.eraseCounts = middle.eraseCounts)
          (store.markCommand_gentle _ _)).weaken
        exact fun _ _ interrupted => interrupted.1.faulty (keeps.faultless faultless)
      intro both done
      obtain ⟨⟨kept, -⟩, still⟩ := done
      have powered := keeps.trans kept
      apply Command.ensures_cons
      · exact store.eraseCommand_wear (mounted.keeps powered)
          (powered.obedient faultless.obedient) log.segment.id
      intro after done
      obtain ⟨-, -, worn⟩ := done
      rw [Chip.eraseCount_congr (still.trans counted), powered.pageSize, ← holds.segment] at worn
      exact Action.ensures_pure worn
    exact switching.bind fun _ _ worn => Action.ensures_pure worn
  rcases ensured.outcome_cases with ⟨_, -, worn⟩ | ⟨_, -, impossible⟩
  · exact worn
  · exact impossible.elim

theorem makeRoom_wear (mounted : store.Mounted chip) (faultless : chip.Faultless)
    (holds : store.Holds chip.cell log) (blank : store.SpareBlank chip.cell log)
    (short : data.length ≤ maxPayload) :
    ((store.makeRoom (.ofNat data.length)).after chip).eraseCount =
      if nextOffset log.segment.firstRecord (.ofNat data.length) ≤ log.segment.stop then
        log.segment.wear chip.pageSize chip.eraseCount
      else chip.eraseCount := by
  have found := mounted.active_eq holds.active
  rw [← holds.segment] at found
  have placed := holds.placed mounted
  have next : (tryNextOffset log.segment.firstRecord (.ofNat data.length) :
      Attempt StoreError Nat) = _ :=
    tryNextOffset_of_short placed.firstRecord_le placed.fits short
  rw [makeRoom, Action.after_bind]
  simp only [Action.outcome_observe, Action.after_observe, found]
  rw [Action.after_bind]
  simp only [Action.outcome_observe, Action.after_observe, next]
  by_cases room : nextOffset log.segment.firstRecord (.ofNat data.length) ≤ log.segment.stop
  · rw [if_neg (Nat.not_lt.mpr room), if_pos room, ← compact_wear mounted faultless holds blank]
    exact Chip.eraseCount_bind (fun _ => Action.leaves_pure ()) _ _
  · rw [if_pos (Nat.lt_of_not_le room), if_neg room]
    rfl

/-- A write that moves the log wears the segment that it leaves, and no other write wears
anything. -/
theorem Booked.write_wear (booked : store.Booked chip ledger) (parameter : UInt16) (data : Bytes) :
    (ledger.Moves store.layout.segmentSize parameter data →
      ((store.write parameter data).after chip).eraseCount =
        (store.segment ledger.active).wear chip.pageSize chip.eraseCount) ∧
    (¬ledger.Moves store.layout.segmentSize parameter data →
      ((store.write parameter data).after chip).eraseCount = chip.eraseCount) := by
  have mounted := booked.mounted
  obtain ⟨log, entries, ready, lists, blank⟩ := booked.tidy
  have takes := ready.takes_iff mounted lists data
  have hopeful := ready.holds.hopeful_iff mounted data
  have appending (log : Log) : (store.run (Command.append log parameter data)).Gentle :=
    Command.runAll_gentle (Command.append_gentle log parameter data)
  unfold write
  by_cases valid : isValidParameter parameter = true
  case neg =>
    rw [if_pos (by simp [valid])]
    exact ⟨fun moves => absurd moves.valid valid, fun _ => rfl⟩
  rw [if_neg (by simp [valid])]
  by_cases long : maxPayload < data.length
  · rw [if_pos long]
    exact ⟨fun moves => absurd moves.short (Nat.not_le_of_lt long), fun _ => rfl⟩
  have short := Nat.le_of_not_lt long
  rw [if_neg long, Action.after_bind]
  simp only [Action.outcome_observe, Action.after_observe]
  rcases reserve_spec mounted ready.holds short with ⟨reserved, room⟩ | ⟨reserved, full⟩
  · simp only [reserved]
    exact ⟨fun moves => absurd (takes.mp room) moves.full,
      fun _ => Chip.eraseCount_congr (appending log chip)⟩
  · simp only [reserved]
    -- What follows the compaction wears nothing, whether the value is stored or not.
    rw [Chip.eraseCount_bind ?rest _ _,
      makeRoom_wear mounted booked.faultless ready.holds blank short, ready.holds.segment,
      lists.active]
    case rest =>
      refine fun _ => (Action.leaves_observe _).bind fun found => ?_
      cases found with
      | some log => exact appending log
      | none => exact Action.leaves_fail _
    rw [ready.holds.segment, lists.active] at hopeful
    constructor
    · exact fun moves => if_pos (hopeful.mpr moves.hopeful)
    · intro stays
      apply if_neg
      intro room
      exact stays ⟨valid, short, fun room => full (takes.mpr room), hopeful.mp room⟩

theorem remove_gentle (store : Store) (parameter : UInt16) : (store.remove parameter).Gentle := by
  unfold remove
  split
  · exact Action.leaves_fail _
  refine (Action.leaves_observe _).bind fun log => ?_
  split
  · exact Action.leaves_fail _
  · apply Command.runAll_gentle
    intro command member
    obtain ⟨record, -, rfl⟩ := List.mem_map.mp member
    rfl

/-- Formatting wears both segments. -/
theorem format_wear (mounted : store.Mounted chip) (faultless : chip.Faultless) :
    (store.format.after chip).eraseCount =
      (store.segment .b).wear chip.pageSize
        ((store.segment .a).wear chip.pageSize chip.eraseCount) := by
  have ensured : (store.run [store.eraseCommand .a, store.eraseCommand .b]).Ensures chip
      (fun _ after => after.eraseCount = (store.segment .b).wear chip.pageSize
        ((store.segment .a).wear chip.pageSize chip.eraseCount))
      (fun _ _ => False) := by
    apply Command.ensures_cons (store.eraseCommand_wear mounted faultless.obedient .a)
    intro middle done
    obtain ⟨keeps, -, first⟩ := done
    apply Command.ensures_cons (store.eraseCommand_wear (mounted.keeps keeps)
      (keeps.obedient faultless.obedient) .b)
    intro after done
    obtain ⟨-, -, second⟩ := done
    rw [first, keeps.pageSize] at second
    exact Action.ensures_pure second
  have marking : Action.Gentle (Command.runAll store.region [store.markCommand .a]) :=
    Command.runAll_gentle (by simp [markCommand, Command.isGentle])
  have split : store.format = (do
      store.run [store.eraseCommand .a, store.eraseCommand .b]
      store.run [store.markCommand .a]) :=
    Command.runAll_append store.region [_, _] [_]
  rw [split]
  refine (Chip.eraseCount_bind (fun _ => marking) _ _).trans ?_
  rcases ensured.outcome_cases with ⟨_, -, worn⟩ | ⟨_, -, impossible⟩
  · exact worn
  · exact impossible.elim

/-- The whole pages of a segment. -/
def pages (store : Store) (pageSize : Nat) : Nat := store.layout.segmentSize / pageSize

theorem Mounted.wear_eq (mounted : store.Mounted chip) (id : SegmentId) (counts : Nat → Nat) :
    (store.segment id).wear chip.pageSize counts =
      match id with
      | .a => worn counts 0 (store.pages chip.pageSize)
      | .b => worn counts (store.pages chip.pageSize) (2 * store.pages chip.pageSize) := by
  obtain ⟨-, positive, whole, -⟩ := create_ok mounted.created
  have twice : store.layout.segmentSize * 2 / chip.pageSize =
      2 * (store.layout.segmentSize / chip.pageSize) := by
    rw [Nat.mul_comm, Nat.mul_div_assoc _ (Nat.dvd_of_mod_eq_zero whole)]
  cases id with
  | a => simp [Segment.wear, segment, Layout.segment, pages]
  | b => simp [Segment.wear, segment, Layout.segment, Layout.totalSize, pages, twice]

end Store

/-- Erases that the first segment is ahead. -/
def SegmentId.lead : SegmentId → Nat
  | a => 0
  | b => 1

/-- Every page was erased `level` times, and those of the first segment once more while the log is in
the second. -/
def Level (counts : Nat → Nat) (pages : Nat) (active : SegmentId) (level : Nat) : Prop :=
  ∀ page < pages, counts page = level + active.lead ∧ counts (pages + page) = level

variable {store : Store} {chip : Chip} {ledger : Ledger} {level : Nat}

/-- Erasing the segment in use, as the log leaves it, keeps the level. -/
theorem Level.turn (levelled : Level chip.eraseCount (store.pages chip.pageSize) ledger.active level)
    (mounted : store.Mounted chip) (covered : 2 * store.pages chip.pageSize ≤ 32) :
    Level ((store.segment ledger.active).wear chip.pageSize chip.eraseCount)
      (store.pages chip.pageSize) ledger.active.other (level + ledger.active.lead) := by
  intro page inside
  obtain ⟨first, second⟩ := levelled page inside
  rw [mounted.wear_eq]
  cases side : ledger.active with
  | a =>
    rw [side] at first
    simp only [worn, SegmentId.lead, SegmentId.other] at first ⊢
    rw [if_pos (by omega), if_neg (by omega)]
    omega
  | b =>
    rw [side] at first
    simp only [worn, SegmentId.lead, SegmentId.other] at first ⊢
    rw [if_neg (by omega), if_pos (by omega)]
    omega

/-- The books are kept, and the segments take turns. -/
structure Store.Turning (store : Store) (pageSize : Nat) (chip : Chip) (ledger : Ledger) : Prop
    extends store.Booked chip ledger where
  paged : chip.pageSize = pageSize
  level : ∃ level, Level chip.eraseCount (store.pages pageSize) ledger.active level

theorem Store.Booked.shows (booked : store.Booked chip ledger) :
    ∃ values, store.Shows chip.cell values := by
  obtain ⟨log, entries, ready, -, -⟩ := booked.tidy
  exact ⟨_, ready.shows⟩

theorem Call.keeps (call : Call) (booked : store.Booked chip ledger) :
    chip.Keeps ((call.run store).after chip) := by
  obtain ⟨values, shows⟩ := booked.shows
  rcases (call.run_ensures booked.mounted shows booked.faultless.steady).outcome_cases with
    ⟨_, -, keeps, -⟩ | ⟨_, -, keeps, -⟩
  · exact keeps
  · exact keeps

/-- A call that leaves the log where it is wears nothing; one that moves it wears the segment that it
leaves. -/
theorem Call.level_after (call : Call) (booked : store.Booked chip ledger)
    (covered : 2 * store.pages chip.pageSize ≤ 32)
    (levelled : Level chip.eraseCount (store.pages chip.pageSize) ledger.active level) :
    ∃ next, Level ((call.run store).after chip).eraseCount (store.pages chip.pageSize)
      (ledger.after store.layout.segmentSize call).active next := by
  have turned := levelled.turn booked.mounted covered
  cases call with
  | write parameter data =>
    obtain ⟨moved, stayed⟩ := booked.write_wear parameter data
    by_cases moves : ledger.Moves store.layout.segmentSize parameter data
    · refine ⟨level + ledger.active.lead, ?_⟩
      rw [run, moved moves, Ledger.after, moves.active_write]
      exact turned
    · refine ⟨level, ?_⟩
      rw [run, stayed moves, Ledger.after, Ledger.active_write_of_stays moves]
      exact levelled
  | remove parameter =>
    refine ⟨level, ?_⟩
    rw [run, Chip.eraseCount_congr (store.remove_gentle parameter chip)]
    exact levelled
  | compact =>
    refine ⟨level + ledger.active.lead, ?_⟩
    obtain ⟨log, entries, ready, lists, blank⟩ := booked.tidy
    rw [run, Chip.eraseCount_bind (fun _ => Action.leaves_pure ()) _ _,
      Store.compact_wear booked.mounted booked.faultless ready.holds blank, ready.holds.segment,
      lists.active]
    exact turned
  | recover =>
    refine ⟨level, ?_⟩
    rw [run, Chip.eraseCount_bind (fun _ => Action.leaves_pure ()) _ _,
      booked.recover_eq.2]
    exact levelled

theorem Access.after_question {α : Type} (question : Chip → Attempt StoreError α) (chip : Chip) :
    (do let _ ← Action.observe question : Action StoreError Unit).after chip = chip := by
  rw [Action.after_bind, Action.after_observe]
  split <;> rfl

theorem Access.booked_after (access : Access) (booked : store.Booked chip ledger) :
    store.Booked ((access.run store).after chip)
      (ledger.accessed store.layout.segmentSize access) := by
  cases access with
  | read parameter capacity =>
    rw [run, after_question]
    exact booked
  | contains parameter =>
    rw [run, after_question]
    exact booked
  | stats =>
    rw [run, after_question]
    exact booked
  | change call => exact call.booked_after booked

theorem perform_booked (booked : store.Booked chip ledger) (accesses : List Access) :
    ∃ final, store.Booked (perform store accesses chip) final := by
  induction accesses generalizing chip ledger with
  | nil => exact ⟨ledger, booked⟩
  | cons access rest ih => exact ih (access.booked_after booked)

theorem Access.turning_after {pageSize : Nat} (access : Access)
    (turning : store.Turning pageSize chip ledger) (covered : 2 * store.pages pageSize ≤ 32) :
    store.Turning pageSize ((access.run store).after chip)
      (ledger.accessed store.layout.segmentSize access) := by
  obtain ⟨booked, rfl, level, levelled⟩ := turning
  have stepped := access.booked_after booked
  cases access with
  | read parameter capacity =>
    rw [run, after_question] at stepped ⊢
    exact ⟨stepped, rfl, level, levelled⟩
  | contains parameter =>
    rw [run, after_question] at stepped ⊢
    exact ⟨stepped, rfl, level, levelled⟩
  | stats =>
    rw [run, after_question] at stepped ⊢
    exact ⟨stepped, rfl, level, levelled⟩
  | change call =>
    exact ⟨stepped, (call.keeps booked).pageSize, call.level_after booked covered levelled⟩

theorem perform_turning {pageSize : Nat} (turning : store.Turning pageSize chip ledger)
    (covered : 2 * store.pages pageSize ≤ 32) (accesses : List Access) :
    ∃ final, store.Turning pageSize (perform store accesses chip) final := by
  induction accesses generalizing chip ledger with
  | nil => exact ⟨ledger, turning⟩
  | cons access rest ih => exact ih (access.turning_after turning covered)

theorem Access.outcome_ne_overflow (access : Access) (booked : store.Booked chip ledger)
    (small : store.layout.segmentSize ≤ 0x40000) :
    (access.run store).outcome chip ≠ .error .overflow := by
  have mounted := booked.mounted
  obtain ⟨values, shows⟩ := booked.shows
  cases access with
  | read parameter capacity =>
    rw [run, Action.outcome_bind, Action.outcome_observe,
      mounted.read_of_shows shows parameter capacity, Values.read]
    split
    · split <;> simp [Except.bind, Attempt.fail]
    · simp [Except.bind, Attempt.fail]
  | contains parameter =>
    obtain ⟨log, holds, -⟩ := shows
    rw [run, Action.outcome_bind, Action.outcome_observe, mounted.contains_eq holds]
    simp [Except.bind]
  | stats =>
    obtain ⟨tombstoned, told⟩ := booked.stats_eq small
    rw [run, Action.outcome_bind, Action.outcome_observe, told]
    simp [Except.bind]
  | change call =>
    rcases (call.run_ensures mounted shows booked.faultless.steady).outcome_cases with
      ⟨_, outcome, -⟩ | ⟨_, outcome, -⟩
    · simp [run, outcome]
    · simp [run, outcome, Attempt.fail]

theorem Chip.eraseCount_erased (base size pageSize page : Nat) :
    (erased base size pageSize).eraseCount page = 0 := by
  rw [eraseCount, erased, Vector.getElem?_replicate]
  split <;> rfl

theorem Store.Mounted.format_turning (mounted : store.Mounted chip) (faultless : chip.Faultless)
    (fresh : ∀ page, chip.eraseCount page = 0) (covered : 2 * store.pages chip.pageSize ≤ 32) :
    store.Turning chip.pageSize (store.format.after chip) .empty := by
  refine ⟨(mounted.format_booked faultless).2, ?_, 1, ?_⟩
  · rcases (Store.format_ensures mounted).outcome_cases with
      ⟨_, -, keeps, -⟩ | ⟨_, -, interrupted⟩
    · exact keeps.pageSize
    · exact absurd faultless interrupted.faulty
  · intro page inside
    rw [Store.format_wear mounted faultless, mounted.wear_eq .b, mounted.wear_eq .a]
    simp only [worn, fresh, Ledger.empty, SegmentId.lead]
    rw [if_neg (by omega), if_pos (by omega), if_pos (by omega), if_neg (by omega)]
    exact ⟨rfl, rfl⟩

/-- The segment `active` holds the log. The other one is erased, and the pages of the two segments
are erased by turns. -/
structure Store.Levelled (store : Store) (pages : Nat) (chip : Chip) (active : SegmentId) : Prop where
  found : store.active chip = .ok (store.segment active)
  turns : ∀ page < pages,
    chip.eraseCount page = chip.eraseCount (pages + page) + if active = .b then 1 else 0
  first : ∀ page < pages, ∀ other < pages, chip.eraseCount page = chip.eraseCount other
  second : ∀ page < pages, ∀ other < pages,
    chip.eraseCount (pages + page) = chip.eraseCount (pages + other)
  erased : ∀ offset, (store.segment active.other).start ≤ offset →
    offset < (store.segment active.other).stop → chip.cell offset = 0xFF

theorem Store.Turning.levelled {pageSize : Nat} (turning : store.Turning pageSize chip ledger) :
    store.Levelled (store.pages pageSize) chip ledger.active := by
  obtain ⟨level, levelled⟩ := turning.level
  obtain ⟨log, entries, ready, lists, blank⟩ := turning.tidy
  have active := ready.holds.active
  rw [Store.SpareBlank, Store.spare, lists.active] at blank
  rw [lists.active] at active
  refine ⟨turning.mounted.active_eq active, ?_, ?_, ?_, blank⟩
  · intro page inside
    obtain ⟨first, second⟩ := levelled page inside
    rw [first, second]
    cases ledger.active <;> rfl
  · intro page inside other alike
    rw [(levelled page inside).1, (levelled other alike).1]
  · intro page inside other alike
    rw [(levelled page inside).2, (levelled other alike).2]

/-- On a chip that was never erased and has no faults, formatting succeeds. From then on, whatever is
asked of the store, no call overflows, the segments are worn alike and by turns, and the one without
the log is erased. -/
theorem perform_after_format_levelled (mounted : store.Mounted chip) (faultless : chip.Faultless)
    (fresh : ∀ page, chip.eraseCount page = 0)
    (covered : 2 * (store.layout.segmentSize / chip.pageSize) ≤ 32)
    (small : store.layout.segmentSize ≤ 0x40000) (accesses : List Access) :
    store.format.outcome chip = .ok () ∧
      (∃ active, store.Levelled (store.layout.segmentSize / chip.pageSize)
        (perform store accesses (store.format.after chip)) active) ∧
      ∀ access : Access, (access.run store).outcome
        (perform store accesses (store.format.after chip)) ≠ .error .overflow := by
  obtain ⟨ledger, turning⟩ :=
    perform_turning (mounted.format_turning faultless fresh covered) covered accesses
  exact ⟨(mounted.format_booked faultless).1, ⟨ledger.active, turning.levelled⟩,
    fun access => access.outcome_ne_overflow turning.toBooked small⟩

/-- The third write finds no room and moves the log. -/
theorem perform_after_format_levelled_sample :
    Store.sample.format.outcome (.erased 0x08000000 64 16) = .ok () ∧
      (∃ active, Store.sample.Levelled 2 (perform Store.sample
        [.change (.write 7 (.replicate 6 1)), .change (.write 7 (.replicate 6 2)),
          .change (.write 9 (.replicate 5 3)), .stats, .read 7 1, .change .compact,
          .change .recover]
        (Store.sample.format.after (.erased 0x08000000 64 16))) active) ∧
      ∀ access : Access, (access.run Store.sample).outcome (perform Store.sample
        [.change (.write 7 (.replicate 6 1)), .change (.write 7 (.replicate 6 2)),
          .change (.write 9 (.replicate 5 3)), .stats, .read 7 1, .change .compact,
          .change .recover]
        (Store.sample.format.after (.erased 0x08000000 64 16))) ≠ .error .overflow := by
  have mounted : Store.sample.Mounted (.erased 0x08000000 64 16) :=
    ⟨rfl, by decide, rfl, by decide, by decide⟩
  exact perform_after_format_levelled mounted rfl (Chip.eraseCount_erased _ _ _) (by decide)
    (by decide) _

end ParamStore
