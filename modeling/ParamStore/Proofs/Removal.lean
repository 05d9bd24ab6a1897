import ParamStore.Proofs.BitFlip
import ParamStore.Proofs.Failures

/-! Removals that go wrong. A record is killed in place, by clearing its parameter. Whatever
interrupts that, the records of other parameters are not touched, but a wrong bit in the cleared
parameter makes the record one of another: of the single parameter that differs from the tombstone in
that bit. Verification notices, yet nobody writes the half-word again, and from then on that parameter
has the value of the record unless a record of its own comes later in the log. -/
namespace ParamStore

/-- What a tombstone becomes by a wrong bit. -/
def misprint : UInt16 := tombstone ^^^ 1

/-- The record with such a tombstone. -/
def Record.misprinted (record : Record) : Record := { record with parameter := misprint }

/-- Behind the first record of the parameter stands one of `misprint`. -/
def Log.Shields (log : Log) (parameter : UInt16) : Prop :=
  ∀ first, (log.copies parameter).head? = some first →
    ∃ record ∈ log.copies misprint, first.offset < record.offset

variable {cells : Nat → UInt8} {stop position tail : Nat} {before behind : List Record}
  {first : Record} {parameter other : UInt16}

/-- The other parameters do not see the misprint, and `misprint` sees it unless a record of its own
comes later. -/
theorem valueOf_misprint (older later : List Entry) (value : Bytes) (differs : other ≠ parameter) :
    valueOf (older ++ ⟨misprint, value⟩ :: later) other =
      if other = misprint ∧ valueOf later misprint = none then some value
      else valueOf (older ++ ⟨parameter, value⟩ :: later) other := by
  have valid : isValidParameter misprint = true := by decide
  have unseen : valueOf (older ++ ⟨parameter, value⟩ :: later) other =
      (valueOf later other).or (valueOf older other) := by
    rw [valueOf_append, valueOf_cons, if_neg fun own => differs own.1.symm, Option.or_none]
  rw [unseen, valueOf_append, valueOf_cons]
  by_cases named : other = misprint
  · subst named
    cases valueOf later misprint <;> simp [valid]
  · rw [if_neg fun own => named own.1.symm, if_neg fun own => named own.1, Option.or_none]

/-- A log with a misprint is a log. -/
theorem Linked.misprinted (linked : Linked cells stop position (before ++ first :: behind) tail) :
    Linked (overlay cells first.offset (halfwordBytes misprint)) stop position
        (before ++ first.misprinted :: behind) tail ∧
      entriesIn (overlay cells first.offset (halfwordBytes misprint))
          (before ++ first.misprinted :: behind) =
        entriesIn cells before ++ ⟨misprint, payloadIn cells first⟩ :: entriesIn cells behind := by
  obtain ⟨middle, front, rfl, stands, back⟩ := Linked.append.mp linked
  have outside := sameOutside_overlay cells first.offset (halfwordBytes misprint)
  have size := congrArg Header.size stands.header
  have named := halfwordIn_overlay cells first.offset misprint
  have far := first.offset_lt_next
  rw [length_halfwordBytes] at outside
  generalize overlay cells first.offset (halfwordBytes misprint) = new at outside named ⊢
  simp only [headerSize] at far
  have sameFront : SameIn cells new position first.offset := outside.sameIn (.inl (Nat.le_refl _))
  have sameBack : SameIn cells new first.next tail := outside.sameIn (.inr (by omega))
  have sized : halfwordIn new (first.offset + 2) = first.size := by
    rw [← size]
    exact halfwordIn_congr (outside _ (by omega)) (outside _ (by omega))
  have payload : payloadIn new first.misprinted = payloadIn cells first :=
    bytesAt_congr (outside.sameIn (.inr (show first.offset + 2 ≤ first.offset + 4 by omega)))
  constructor
  · refine Linked.append.mpr ⟨first.offset, front.congr sameFront, rfl, ⟨?_, ?_, ?_, ?_⟩, ?_⟩
    · simp only [headerIn, Record.misprinted, named, sized]
    · exact (by decide : misprint ≠ erasedHalfword)
    · exact stands.sized
    · exact stands.inside
    · exact back.congr sameBack
  · rw [entriesIn_append, entriesIn_congr fun record member => front.payload_congr sameFront member]
    have later := entriesIn_congr fun record member => back.payload_congr sameBack member
    simp only [entriesIn, List.map_cons] at later ⊢
    rw [later, entryIn, payload]
    rfl

namespace Store

variable {store : Store} {chip after : Chip} {log : Log} {records : List Record}

theorem Holds.misprinted (holds : store.Holds cells log) (mounted : store.Mounted chip)
    (split : log.records = before ++ first :: behind) :
    store.Shows (overlay cells first.offset (halfwordBytes misprint))
      (valueOf (entriesIn cells before ++ ⟨misprint, payloadIn cells first⟩ ::
        entriesIn cells behind)) := by
  have bounds := holds.tail_le mounted
  have place := holds.linked.bounds (show first ∈ log.records by simp [split])
  have linked := holds.linked
  rw [split] at linked
  obtain ⟨renamed, entries⟩ := linked.misprinted
  have outside := sameOutside_overlay cells first.offset (halfwordBytes misprint)
  have far := first.offset_lt_next
  simp only [length_halfwordBytes, headerSize] at outside far
  refine ⟨{ log with records := before ++ first.misprinted :: behind },
    ⟨holds.segment, ?_, renamed, ?_⟩, by rw [entries]⟩
  · exact holds.active_congr mounted (outside.mono place.1 (by omega))
  · exact holds.ends.congr (outside.sameIn (.inr (by omega)))

/-- With a bit flip due, nothing but the first record can change, whatever else is wrong. -/
theorem remove_flips (mounted : store.Mounted chip) (holds : store.Holds chip.cell log)
    (due : chip.faults.corruptNext = true) :
    (store.remove parameter).Ensures chip (fun _ _ => False)
      (fun _ after => chip.Keeps after ∧ (after.cell = chip.cell ∨
        ∃ first, (log.copies parameter).head? = some first ∧
          after.cell = overlay chip.cell first.offset (halfwordBytes misprint))) := by
  unfold remove
  by_cases valid : isValidParameter parameter = true
  case neg =>
    rw [if_pos (by simp [valid])]
    exact Action.ensures_fail ⟨.refl chip, .inl rfl⟩
  rw [if_neg (by simp [valid])]
  apply Action.ensures_observe_bind (mounted.log_eq_ok_iff.mpr holds)
  cases copies : log.copies parameter with
  | nil => exact Action.ensures_fail ⟨.refl chip, .inl rfl⟩
  | cons first rest =>
    have known : first ∈ log.records := Log.mem_copies (by rw [copies]; exact List.mem_cons_self)
    have inside := holds.inside mounted known
    have far := first.offset_lt_next
    simp only [headerSize] at far
    apply Command.ensures_cons
    · apply (Command.write_halfword_flips mounted.onChip due ((holds.even mounted).2 first known)
        (show first.offset + 2 ≤ store.region.length by omega) (.inr rfl)).weaken
      intro cause after failed
      rcases failed with ⟨keeps, ⟨same, -⟩ | ⟨changed, -⟩⟩
      · exact ⟨keeps, .inl same⟩
      · exact ⟨keeps, .inr ⟨first, rfl, changed⟩⟩
    · exact fun _ => False.elim

/-- A record that comes later than another is behind it. -/
theorem Holds.mem_behind (holds : store.Holds cells log)
    (split : log.records = before ++ first :: behind) {record : Record}
    (member : record ∈ log.records) (later : first.offset < record.offset) : record ∈ behind := by
  have apart := holds.linked.apart
  rw [split] at apart member
  have ordered := (List.pairwise_append.mp apart).2.2
  rcases List.mem_append.mp member with early | late
  · have := ordered record early first List.mem_cons_self
    have := record.offset_lt_next
    omega
  · rcases List.mem_cons.mp late with rfl | found
    · omega
    · exact found

/-- What a misprint does to what is read. -/
theorem Holds.read_misprinted (holds : store.Holds chip.cell log) (mounted : store.Mounted chip)
    (keeps : chip.Keeps after) (named : (log.copies parameter).head? = some first)
    (changed : after.cell = overlay chip.cell first.offset (halfwordBytes misprint))
    (differs : other ≠ parameter) :
    (∀ capacity, store.read after other capacity = store.read chip other capacity) ∨
      (other = misprint ∧ ¬log.Shields parameter ∧ ∃ value,
        store.readFlash chip first.dataOffset first.size.toNat = .ok value ∧
        ∀ capacity, store.read after misprint capacity =
          .ok ⟨value.take capacity, capacity < value.length⟩) := by
  have still := mounted.keeps keeps
  obtain ⟨known, own⟩ := List.mem_filter.mp (List.mem_of_mem_head? named)
  have own : first.parameter = parameter := by simpa using own
  obtain ⟨before, behind, split⟩ := List.append_of_mem known
  have shown := holds.misprinted mounted split
  have listed : entriesIn chip.cell log.records = entriesIn chip.cell before ++
      ⟨parameter, payloadIn chip.cell first⟩ :: entriesIn chip.cell behind := by
    rw [split, entriesIn_append, ← own]
    rfl
  have value := valueOf_misprint (entriesIn chip.cell before) (entriesIn chip.cell behind)
    (payloadIn chip.cell first) differs
  rw [← listed] at value
  rw [← changed] at shown
  by_cases seen : other = misprint ∧ valueOf (entriesIn chip.cell behind) misprint = none
  · rw [if_pos seen] at value
    obtain ⟨rfl, none⟩ := seen
    have valid : isValidParameter misprint = true := by decide
    have inside := Nat.le_trans first.dataEnd_le_next (holds.inside mounted known)
    refine .inr ⟨rfl, fun shields => ?_, payloadIn chip.cell first, mounted.readFlash_eq inside, ?_⟩
    · obtain ⟨record, member, later⟩ := shields first named
      obtain ⟨listed, same⟩ := List.mem_filter.mp member
      have found := holds.mem_behind split listed later
      rw [valueOf_eq_none_iff valid, List.all_eq_true] at none
      have absent := none (entryIn chip.cell record) (List.mem_map_of_mem found)
      simp [entryIn] at absent same
      exact absent same
    · intro capacity
      rw [still.read_of_shows shown, Values.read, if_pos valid, value]
  · rw [if_neg seen] at value
    exact .inl fun capacity => mounted.read_congr still ⟨log, holds, rfl⟩ shown value capacity

/-- Whatever faults the chip has, a removal leaves what is read of other parameters as it was. The
one exception is `misprint` while a bit flip is due and no record of `misprint` stands behind the
first of the removed parameter: then the removal fails, and `misprint` may be read as that record. -/
theorem remove_spares_others (mounted : store.Mounted chip) (found : store.log chip = .ok log)
    (parameter : UInt16) :
    (∀ other capacity, other ≠ parameter →
      (other = misprint → chip.faults.corruptNext = false ∨ log.Shields parameter) →
      store.read ((store.remove parameter).after chip) other capacity =
        store.read chip other capacity) ∧
    (chip.faults.corruptNext = true → parameter ≠ misprint →
      (∃ cause, (store.remove parameter).outcome chip = .fail cause) ∧
      ((∀ capacity, store.read ((store.remove parameter).after chip) misprint capacity =
          store.read chip misprint capacity) ∨
        ∃ first value, (log.copies parameter).head? = some first ∧
          store.readFlash chip first.dataOffset first.size.toNat = .ok value ∧
          ∀ capacity, store.read ((store.remove parameter).after chip) misprint capacity =
            .ok ⟨value.take capacity, capacity < value.length⟩)) := by
  have holds := mounted.log_eq_ok_iff.mp found
  have shows : store.Shows chip.cell _ := ⟨log, holds, rfl⟩
  cases due : chip.faults.corruptNext with
  | false =>
    refine ⟨fun other capacity differs _ => ?_, by simp⟩
    have dropped (values : Values) : values.drop parameter other = values other := if_neg differs
    rcases (shows.remove_ensures mounted due).outcome_cases with
      ⟨_, -, keeps, shown⟩ | ⟨_, -, keeps, shown | shown⟩
    · exact mounted.read_congr (mounted.keeps keeps) shows shown (dropped _) capacity
    · exact mounted.read_congr (mounted.keeps keeps) shows shown rfl capacity
    · exact mounted.read_congr (mounted.keeps keeps) shows shown (dropped _) capacity
  | true =>
    rcases (remove_flips mounted holds due).outcome_cases with
      ⟨_, -, impossible⟩ | ⟨cause, outcome, keeps, same | ⟨first, named, changed⟩⟩
    · exact impossible.elim
    · have unchanged (other : UInt16) (capacity : Nat) :
          store.read ((store.remove parameter).after chip) other capacity =
            store.read chip other capacity := by
        refine mounted.read_congr (mounted.keeps keeps) shows ⟨log, ?_, rfl⟩ ?_ capacity
        · rwa [same]
        · rw [same]
      exact ⟨fun other capacity _ _ => unchanged other capacity,
        fun _ _ => ⟨⟨cause, outcome⟩, .inl (unchanged misprint)⟩⟩
    · constructor
      · intro other capacity differs shielded
        rcases holds.read_misprinted mounted keeps named changed differs with
          kept | ⟨rfl, exposed, -⟩
        · exact kept capacity
        · exact absurd ((shielded rfl).resolve_left (by simp)) exposed
      · intro _ differs
        refine ⟨⟨cause, outcome⟩, ?_⟩
        rcases holds.read_misprinted mounted keeps named changed differs.symm with
          kept | ⟨-, -, value, stored, read⟩
        · exact .inl kept
        · exact .inr ⟨first, value, named, stored, read⟩

/-- Parameter 7 has the only record, so nothing shields 1. -/
theorem remove_spares_others_small :
    small.read ((small.remove 7).after (fullChip.withFaults { corruptNext := true })) 9 1 =
      small.read (fullChip.withFaults { corruptNext := true }) 9 1 ∧
    ∃ cause, (small.remove 7).outcome (fullChip.withFaults { corruptNext := true }) =
      .fail cause := by
  have mounted := fullChip_mounted.withFaults { corruptNext := true }
  have found := mounted.log_eq_ok_iff.mpr fullChip_holds
  obtain ⟨others, flipped⟩ := remove_spares_others mounted found 7
  exact ⟨others 9 1 (by decide) fun named => absurd named (by decide),
    (flipped rfl (by decide)).1⟩

/-- A parameter that had no value has one after another one was removed. -/
theorem remove_misprints :
    small.Mounted (fullChip.withFaults { corruptNext := true }) ∧
    small.Clean (fullChip.withFaults { corruptNext := true }) ∧
    small.read (fullChip.withFaults { corruptNext := true }) 1 1 = .fail .notFound ∧
    small.read ((small.remove 7).after (fullChip.withFaults { corruptNext := true })) 1 1 =
      .ok ⟨[0x11], false⟩ := by
  have mounted := fullChip_mounted.withFaults { corruptNext := true }
  refine ⟨mounted, ⟨_, mounted.log_eq_ok_iff.mpr fullChip_holds⟩, ?_, ?_⟩
  · exact mounted.read_eq fullChip_holds (by decide) 1
  · exact eq_ok_of_toOption (by decide +kernel)

end Store

end ParamStore
