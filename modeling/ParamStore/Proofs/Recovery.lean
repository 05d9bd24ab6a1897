import ParamStore.Proofs.Compaction
import ParamStore.Store.Recovery

/-! Setting up a store, and putting it right. Recovery erases at most the segment that does not count,
so it can be interrupted and repeated at will. -/
namespace ParamStore.Store

variable {store : Store} {chip : Chip} {cells new : Nat → UInt8} {log : Log} {id : SegmentId}

theorem partlyErased_wipe (mounted : store.Mounted chip) (id : SegmentId) (cells : Nat → UInt8) :
    store.PartlyErased id cells (wipe cells (store.segment id).start (store.segment id).stop) :=
  .inr ⟨_, (mounted.placed id).firstRecord_le, Nat.le_refl _, rfl⟩

/-- A log stays what it is while the other segment is erased. -/
theorem Holds.congr_partly (holds : store.Holds cells log) (mounted : store.Mounted chip)
    (partly : store.PartlyErased log.segment.id.other cells new) :
    store.Holds new log ∧ entriesIn new log.records = entriesIn cells log.records := by
  apply holds.congr_spare mounted partly.sameOutside
  intro second
  have first := holds.active.2 second
  rw [second] at partly
  rcases partly.eq_or_not_inUse with same | unmarked
  · rwa [same]
  · exact unmarked

/-- What recovery reports of a store in whose segment `id` the log is. -/
inductive Reports (store : Store) (cells : Nat → UInt8) (id : SegmentId) : Recovery → Prop
  | duplicate (inUse : store.InUse cells id.other) : Reports store cells id .duplicateActive
  | clean (unmarked : ¬store.InUse cells id.other)
    (blank : Blank cells (store.segment id.other).start (store.segment id.other).stop) :
    Reports store cells id .clean
  | dirty (unmarked : ¬store.InUse cells id.other)
    (remains : ¬Blank cells (store.segment id.other).start (store.segment id.other).stop) :
    Reports store cells id .dirtyInactive

theorem recoverSpare_ensures (mounted : store.Mounted chip) (id : SegmentId)
    (unmarked : ¬store.InUse chip.cell id.other) :
    (store.recoverSpare id.other).Ensures chip
      (fun found after => store.Reports chip.cell id found ∧ chip.Keeps after ∧
        after.cell = wipe chip.cell (store.segment id.other).start (store.segment id.other).stop ∧
        (found = .clean → after = chip))
      (chip.Balked (store.PartlyErased id.other chip.cell)) := by
  apply (store.clearSpare_ensures mounted id.other).bind
  intro dirty after done
  obtain ⟨keeps, cells, answer, untouched⟩ := done
  cases dirty with
  | false =>
    exact Action.ensures_pure ⟨.clean unmarked (answer.mp rfl), keeps, cells,
      fun _ => untouched rfl⟩
  | true =>
    refine Action.ensures_pure ⟨.dirty unmarked fun blank => ?_, keeps, cells, by simp⟩
    exact Bool.noConfusion (answer.mpr blank)

/-- Recovery leaves the other segment erased and touches nothing else, and a clean store not at
all. -/
theorem recover_ensures (mounted : store.Mounted chip) (active : store.Active chip.cell id) :
    store.recover.Ensures chip
      (fun found after => store.Reports chip.cell id found ∧ chip.Keeps after ∧
        after.cell = wipe chip.cell (store.segment id.other).start (store.segment id.other).stop ∧
        (found = .clean → after = chip))
      (chip.Balked (store.PartlyErased id.other chip.cell)) := by
  unfold recover
  apply Action.ensures_observe_bind (mounted.isInUse_eq .a)
  apply Action.ensures_observe_bind (mounted.isInUse_eq .b)
  cases id with
  | a =>
    by_cases second : store.InUse chip.cell .b
    · simp only [active.1, second, decide_true]
      apply (store.eraseSegment_ensures mounted .b).bind
      intro _ after done
      obtain ⟨keeps, cells⟩ := done
      exact Action.ensures_pure ⟨.duplicate second, keeps, cells, by simp⟩
    · simp only [active.1, second, decide_true, decide_false]
      exact store.recoverSpare_ensures mounted .a second
  | b =>
    have first := active.2 rfl
    simp only [active.1, first, decide_true, decide_false]
    exact store.recoverSpare_ensures mounted .b first

/-- The cells of a formatted store. -/
def formatted (store : Store) (cells : Nat → UInt8) : Nat → UInt8 :=
  overlay (wipe (wipe cells (store.segment .a).start (store.segment .a).stop)
    (store.segment .b).start (store.segment .b).stop) (store.segment .a).start
    (halfwordBytes inUseMagic)

/-- The log of a formatted store. -/
def emptyLog (store : Store) : Log := ⟨store.segment .a, [], (store.segment .a).firstRecord⟩

theorem format_ensures (mounted : store.Mounted chip) :
    store.format.Ensures chip
      (fun _ after => chip.Keeps after ∧ after.cell = store.formatted chip.cell)
      (chip.Interrupted fun cells =>
        SameOutside chip.cell cells (store.segment .a).start (store.segment .b).stop) := by
  have first : (store.segment .a).start ≤ (store.segment .b).start := Nat.zero_le _
  have last : (store.segment .a).stop ≤ (store.segment .b).stop := by
    simp only [segment, Layout.segment, Layout.totalSize]
    omega
  have room := (mounted.placed .a).firstRecord_le
  apply Command.ensures_cons
  · apply (store.eraseCommand_ensures mounted .a).weaken
    intro cause after balked
    exact balked.toInterrupted.mono fun cells partly => partly.sameOutside.mono (Nat.le_refl _) last
  intro middle done
  obtain ⟨keeps, cells⟩ := done
  have erased : SameOutside chip.cell middle.cell (store.segment .a).start (store.segment .b).stop :=
    cells ▸ (sameOutside_wipe _ _ _).mono (Nat.le_refl _) last
  apply Command.ensures_cons
  · apply (store.eraseCommand_ensures (mounted.keeps keeps) .b).weaken
    intro cause after balked
    refine .since keeps (balked.toInterrupted.mono fun final partly => ?_)
    exact erased.trans (partly.sameOutside.mono first (Nat.le_refl _))
  intro blank done
  obtain ⟨further, both⟩ := done
  have twice : SameOutside chip.cell blank.cell (store.segment .a).start (store.segment .b).stop :=
    erased.trans (both ▸ (sameOutside_wipe _ _ _).mono first (Nat.le_refl _))
  have powered := keeps.trans further
  have unwritten : Blank blank.cell (store.segment .a).start (store.segment .a).firstRecord := by
    rw [both, cells]
    exact ((blank_wipe _ _ _).mono (Nat.le_refl _) room).congr
      ((sameOutside_wipe _ _ _).sameIn (.inl room))
  apply Command.ensures_cons
  · apply (store.markCommand_ensures (mounted.keeps powered) .a unwritten).weaken
    intro cause after interrupted
    refine .since powered (interrupted.mono fun final marked => ?_)
    exact twice.trans (marked.1.mono (Nat.le_refl _) (Nat.le_trans room last))
  intro after done
  obtain ⟨kept, final⟩ := done
  refine Action.ensures_pure ⟨powered.trans kept, ?_⟩
  rw [final, both, cells]
  rfl

/-- A formatted store has an empty log in the first segment and nothing in the second. -/
theorem ready_formatted (mounted : store.Mounted chip) (cells : Nat → UInt8) :
    store.Ready (store.formatted cells) store.emptyLog [] ∧
      Blank (store.formatted cells) (store.segment .b).start (store.segment .b).stop := by
  have room := (mounted.placed .a).firstRecord_le
  have apart : (store.segment .a).stop ≤ (store.segment .b).start := Nat.le_refl _
  have marked : SameOutside _ (store.formatted cells) (store.segment .a).start
      (store.segment .a).firstRecord := sameOutside_overlay _ _ _
  have firstBlank := (blank_wipe cells (store.segment .a).start (store.segment .a).stop).congr
    ((sameOutside_wipe _ (store.segment .b).start (store.segment .b).stop).sameIn (.inl apart))
  have laid : store.Laid (store.formatted cells) store.emptyLog [] :=
    ⟨rfl, rfl, rfl, (firstBlank.mono (Nat.le_add_right _ magicSize) (Nat.le_refl _)).congr
      (marked.sameIn (.inr (Nat.le_refl _)))⟩
  have inUse : store.InUse (store.formatted cells) .a := halfwordIn_overlay _ _ _
  exact ⟨laid.ready ⟨inUse, by simp [emptyLog]⟩,
    (blank_wipe _ _ _).congr (marked.sameIn (.inr (Nat.le_trans room apart)))⟩

end ParamStore.Store
