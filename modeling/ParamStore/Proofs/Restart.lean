import ParamStore.Proofs.Recovery

/-! Recovering again. The page with the mark is the first to be erased, so a segment that is half
erased does not count; what an interrupted recovery leaves therefore recovers to the same cells as
what it began with, and the one that runs to its end leaves nothing to recover. -/
namespace ParamStore.Store

variable {store : Store} {chip after : Chip} {cells new : Nat → UInt8} {id : SegmentId}
  {found : Recovery}

/-- The cells that recovery makes of these: the segment that does not count is erased. -/
def recovered (store : Store) (cells : Nat → UInt8) : Nat → UInt8 :=
  if store.InUse cells .a then wipe cells (store.segment .b).start (store.segment .b).stop
  else if store.InUse cells .b then wipe cells (store.segment .a).start (store.segment .a).stop
  else cells

theorem Active.recovered_eq (active : store.Active cells id) : store.recovered cells =
    wipe cells (store.segment id.other).start (store.segment id.other).stop := by
  cases id with
  | a => exact if_pos active.1
  | b =>
    rw [recovered, if_neg (active.2 rfl), if_pos active.1]
    rfl

theorem recovered_of_unused (unused : ∀ id, ¬store.InUse cells id) :
    store.recovered cells = cells := by
  rw [recovered, if_neg (unused .a), if_neg (unused .b)]

/-- Erasing the other segment, or some of it, does not change which one counts. -/
theorem Active.congr_partly (active : store.Active cells id) (mounted : store.Mounted chip)
    (partly : store.PartlyErased id.other cells new) : store.Active new id := by
  have room := (mounted.placed id).firstRecord_le
  have apart := store.segments_apart id
  simp only [Segment.firstRecord, magicSize] at room
  refine ⟨(inUse_congr_magic (partly.sameOutside.sameIn ?_)).mpr active.1, fun second => ?_⟩
  · omega
  · rw [second] at partly
    rcases partly.eq_or_not_inUse with same | unmarked
    · rw [same]
      exact active.2 second
    · exact unmarked

theorem Active.recovered_partly (active : store.Active cells id) (mounted : store.Mounted chip)
    (partly : store.PartlyErased id.other cells new) :
    store.recovered new = store.recovered cells := by
  rw [active.recovered_eq, (active.congr_partly mounted partly).recovered_eq,
    wipe_congr partly.sameOutside]

theorem Reports.provisioned (reports : store.Reports cells id found) :
    found ≠ .unprovisioned := by
  cases reports <;> simp

/-- What a recovery that runs to its end finds and leaves. -/
inductive Settled (store : Store) (chip : Chip) : Recovery → Chip → Prop
  | unused (unused : ∀ id, ¬store.InUse chip.cell id) : Settled store chip .unprovisioned chip
  | active {id : SegmentId} {found : Recovery} {after : Chip} (active : store.Active chip.cell id)
    (reports : store.Reports chip.cell id found) (keeps : chip.Keeps after)
    (erased : after.cell =
      wipe chip.cell (store.segment id.other).start (store.segment id.other).stop)
    (clean : found = .clean → after = chip) : Settled store chip found after

theorem recover_settles (mounted : store.Mounted chip) :
    store.recover.Ensures chip (store.Settled chip)
      (chip.Balked fun cells => store.recovered cells = store.recovered chip.cell) := by
  rcases store.active_or_unused chip.cell with ⟨id, active⟩ | unused
  · apply (store.recover_ensures mounted active).mono
    · intro found after done
      obtain ⟨reports, keeps, erased, clean⟩ := done
      exact .active active reports keeps erased clean
    · intro cause after balked
      exact balked.mono fun cells partly => active.recovered_partly mounted partly
  · unfold recover
    apply Action.ensures_observe_bind (mounted.isInUse_eq .a)
    apply Action.ensures_observe_bind (mounted.isInUse_eq .b)
    simp only [unused, decide_false]
    exact Action.ensures_pure (.unused unused)

/-- A chip that does what it is told does not interrupt a recovery. -/
theorem Mounted.recover_obedient (mounted : store.Mounted chip) (obedient : chip.Obedient) :
    ∃ found, store.recover.outcome chip = .ok found ∧
      store.Settled chip found (store.recover.after chip) := by
  rcases (store.recover_settles mounted).outcome_cases with
    ⟨found, outcome, settled⟩ | ⟨cause, -, balked⟩
  · exact ⟨found, outcome, settled⟩
  · exact absurd obedient balked.disobedient

namespace Settled

theorem keeps (settled : store.Settled chip found after) : chip.Keeps after := by
  cases settled with
  | unused => exact .refl chip
  | active _ _ keeps => exact keeps

theorem cell_eq (settled : store.Settled chip found after) :
    after.cell = store.recovered chip.cell := by
  cases settled with
  | unused unused => exact (recovered_of_unused unused).symm
  | active active _ _ erased => rw [active.recovered_eq, erased]

theorem active_after (settled : store.Settled chip found after) (mounted : store.Mounted chip)
    (active : store.Active chip.cell id) : store.Active after.cell id := by
  rw [settled.cell_eq, active.recovered_eq]
  exact active.congr_partly mounted (partlyErased_wipe mounted _ _)

/-- Which segment counts is the same as before. -/
theorem active_eq (settled : store.Settled chip found after) (mounted : store.Mounted chip) :
    store.active after = store.active chip := by
  cases settled with
  | unused => rfl
  | active active reports keeps erased clean =>
    have still := (Settled.active active reports keeps erased clean).active_after mounted active
    rw [(mounted.keeps keeps).active_eq still, mounted.active_eq active]

/-- A second recovery has nothing to do. -/
theorem again {second : Recovery} {last : Chip} (settled : store.Settled chip found after)
    (mounted : store.Mounted chip) (repeated : store.Settled after second last) :
    second = (if found = .unprovisioned then .unprovisioned else .clean) ∧ last = after := by
  cases settled with
  | unused unused =>
    cases repeated with
    | unused => exact ⟨rfl, rfl⟩
    | active active => exact absurd active.1 (unused _)
  | @active id _ _ active reports keeps erased clean =>
    have still := (Settled.active active reports keeps erased clean).active_after mounted active
    have blank : Blank after.cell (store.segment id.other).start (store.segment id.other).stop :=
      erased ▸ blank_wipe _ _ _
    have unmarked := not_inUse_of_blank blank (mounted.placed id.other).firstRecord_le
    rw [if_neg reports.provisioned]
    cases repeated with
    | unused unused => exact absurd still.1 (unused _)
    | active other answer _ _ untouched =>
      obtain rfl := still.unique other
      cases answer with
      | duplicate inUse => exact absurd inUse unmarked
      | clean => exact ⟨rfl, untouched rfl⟩
      | dirty _ remains => exact absurd blank remains

end Settled

/-- What a recovery promises of the chip it leaves. -/
structure Recovered (store : Store) (chip after : Chip) (found : Recovery) : Prop where
  unprovisioned : found = .unprovisioned ↔ store.active chip = .fail .noStorage
  active : store.active after = store.active chip
  kept : ∀ segment, store.active chip = .ok segment →
    SameIn chip.cell after.cell segment.start segment.stop
  erased : found ≠ .unprovisioned → ∃ segment, store.active chip = .ok segment ∧
    Blank after.cell (store.segment segment.id.other).start (store.segment segment.id.other).stop

theorem Settled.recovered (settled : store.Settled chip found after)
    (mounted : store.Mounted chip) : store.Recovered chip after found := by
  refine ⟨?_, settled.active_eq mounted, fun segment known => ?_, fun provisioned => ?_⟩
  · cases settled with
    | unused unused => simp only [mounted.active_of_unused unused]
    | active active reports =>
      rw [mounted.active_eq active]
      exact ⟨fun none => absurd none reports.provisioned, fun absent => by cases absent⟩
  · obtain ⟨id, active, rfl⟩ := mounted.active_of_eq known
    rw [settled.cell_eq, active.recovered_eq]
    exact (sameOutside_wipe _ _ _).sameIn (store.segments_apart id)
  · cases settled with
    | unused => exact absurd rfl provisioned
    | @active id _ _ active _ _ erased =>
      refine ⟨store.segment id, mounted.active_eq active, ?_⟩
      rw [segment_id, erased]
      exact blank_wipe _ _ _

theorem Mounted.recovered_idem (mounted : store.Mounted chip) (cells : Nat → UInt8) :
    store.recovered (store.recovered cells) = store.recovered cells := by
  rcases store.active_or_unused cells with ⟨id, active⟩ | unused
  · rw [active.recovered_eq]
    exact (active.recovered_partly mounted (partlyErased_wipe mounted _ _)).trans
      active.recovered_eq
  · rw [recovered_of_unused unused, recovered_of_unused unused]

/-- However a recovery ends, the next one is left with the same to do. -/
theorem Mounted.recover_outlasts (mounted : store.Mounted chip) :
    chip.Keeps (store.recover.after chip) ∧
      store.recovered (store.recover.after chip).cell = store.recovered chip.cell := by
  rcases (store.recover_settles mounted).outcome_cases with
    ⟨found, -, settled⟩ | ⟨cause, -, balked⟩
  · refine ⟨settled.keeps, ?_⟩
    rw [settled.cell_eq, mounted.recovered_idem]
  · exact ⟨balked.keeps, balked.state⟩

theorem Mounted.withPower (mounted : store.Mounted chip) (left : Option Nat) :
    store.Mounted (chip.withPower left) :=
  ⟨mounted.created, mounted.aligned, mounted.base, mounted.within, mounted.noWrap⟩

/-- On a chip that hangs nowhere and protects nothing, whatever it holds, a recovery that is not
interrupted keeps the log and erases the rest; a second one has nothing to do; and one that the
supply cuts short, followed by another, leaves what a single one does. -/
theorem recover_restartable (mounted : store.Mounted chip)
    (unprotected : chip.faults.writeProtected = 0) (responsive : chip.faults.stuckBusy = false) :
    ∃ found, store.recover.outcome chip.restorePower = .ok found ∧
      store.Recovered chip (store.recover.after chip.restorePower) found ∧
      store.recover.outcome (store.recover.after chip.restorePower) =
        .ok (if found = .unprovisioned then .unprovisioned else .clean) ∧
      store.recover.after (store.recover.after chip.restorePower) =
        store.recover.after chip.restorePower ∧
      ∀ budget, (store.recover.after
          (store.recover.after (chip.failPowerAfter budget)).restorePower).memory =
        (store.recover.after chip.restorePower).memory := by
  have powered : store.Mounted chip.restorePower := mounted.withPower none
  have obedient : chip.restorePower.Obedient := ⟨unprotected, rfl, responsive⟩
  obtain ⟨found, outcome, settled⟩ := powered.recover_obedient obedient
  obtain ⟨second, answer, repeated⟩ :=
    (powered.keeps settled.keeps).recover_obedient (settled.keeps.obedient obedient)
  obtain ⟨clean, untouched⟩ := settled.again powered repeated
  have kept := settled.recovered powered
  refine ⟨found, outcome, ⟨kept.unprovisioned, kept.active, kept.kept, kept.erased⟩, ?_,
    untouched, fun budget => ?_⟩
  · rw [answer, clean]
  · have supplied : store.Mounted (chip.failPowerAfter budget) := mounted.withPower (some budget)
    obtain ⟨keeps, left⟩ := supplied.recover_outlasts
    have restored : (store.recover.after (chip.failPowerAfter budget)).restorePower.Obedient :=
      ⟨keeps.protection.trans unprotected, rfl, keeps.response.trans responsive⟩
    obtain ⟨_, -, finished⟩ :=
      ((supplied.keeps keeps).withPower none).recover_obedient restored
    apply Chip.memory_eq_of_cell
    · exact finished.keeps.size.trans (keeps.size.trans settled.keeps.size.symm)
    · exact finished.cell_eq.trans (left.trans settled.cell_eq.symm)

/-- The second segment has two pages and remains in the first of them. -/
theorem recover_restartable_sample :
    sampleChip.cell 34 = 0xDE ∧
      sample.recover.outcome sampleChip.restorePower = .ok .dirtyInactive ∧
      Blank (sample.recover.after sampleChip.restorePower).cell 32 64 ∧
      SameIn sampleChip.cell (sample.recover.after sampleChip.restorePower).cell 0 32 ∧
      sample.recover.outcome (sample.recover.after sampleChip.restorePower) = .ok .clean ∧
      ∀ budget, (sample.recover.after
          (sample.recover.after (sampleChip.failPowerAfter budget)).restorePower).memory =
        (sample.recover.after sampleChip.restorePower).memory := by
  have active : sample.Active sampleChip.cell .a := sample_holds.active
  obtain ⟨found, outcome, recovered, again, -, cut⟩ := recover_restartable sample_mounted rfl rfl
  obtain rfl : found = .dirtyInactive := by
    have reports := (recover_ensures (sample_mounted.withPower none) active).of_ok outcome
    cases reports.1 with
    | duplicate inUse => exact absurd inUse (by decide)
    | clean _ blank => exact absurd (blank 34 (by decide) (by decide)) (by decide)
    | dirty => rfl
  obtain ⟨segment, known, erased⟩ := recovered.erased (by decide)
  cases known.symm.trans (sample_mounted.active_eq active)
  exact ⟨rfl, outcome, erased, recovered.kept _ known, again, cut⟩

end ParamStore.Store
