import ParamStore.Proofs.Plan

/-! Killing records in place. The records of a parameter are killed from the first to the last, so
that one which is interrupted keeps the value: the record that counts dies at the end. -/
namespace ParamStore

/-- The cells with the parameters of `dead` cleared. -/
def clearParameters (cells : Nat → UInt8) (dead : List Record) : Nat → UInt8 := fun index =>
  if dead.any fun record => record.offset ≤ index ∧ index < record.offset + 2 then 0
  else cells index

/-- The record after `dead` were killed. -/
def Record.kill (dead : List Record) (record : Record) : Record :=
  if record ∈ dead then { record with parameter := tombstone } else record

variable {cells new : Nat → UInt8} {dead alive records : List Record} {record : Record}
  {stop position tail : Nat} {parameter : UInt16}

@[simp] theorem Record.kill_offset (dead : List Record) (record : Record) :
    (record.kill dead).offset = record.offset := by
  unfold kill; split <;> rfl

@[simp] theorem Record.kill_size (dead : List Record) (record : Record) :
    (record.kill dead).size = record.size := by
  unfold kill; split <;> rfl

theorem payloadIn_kill (cells : Nat → UInt8) (dead : List Record) (record : Record) :
    payloadIn cells (record.kill dead) = payloadIn cells record := by
  simp [payloadIn, Record.dataOffset]

theorem clearParameters_apart {index : Nat}
    (apart : ∀ record ∈ dead, index < record.offset ∨ record.offset + 2 ≤ index) :
    clearParameters cells dead index = cells index := by
  apply if_neg
  simp only [List.any_eq_true, decide_eq_true_eq, not_exists, not_and]
  intro record member
  have := apart record member
  omega

@[simp] theorem clearParameters_nil : clearParameters cells [] = cells := by
  funext index
  exact clearParameters_apart (by simp)

theorem clearParameters_cons (record : Record) (dead : List Record) :
    clearParameters cells (record :: dead) =
      clearParameters (overlay cells record.offset (halfwordBytes tombstone)) dead := by
  funext index
  simp only [clearParameters, List.any_cons, Bool.or_eq_true, decide_eq_true_eq]
  by_cases others : (dead.any fun record => record.offset ≤ index ∧ index < record.offset + 2) = true
  · rw [if_pos (.inr others), if_pos others]
  rw [if_neg others]
  by_cases here : record.offset ≤ index ∧ index < record.offset + 2
  · obtain ⟨place, rfl⟩ := Nat.exists_eq_add_of_le here.1
    have bound : place < (halfwordBytes tombstone).length := by
      rw [length_halfwordBytes]; omega
    rw [if_pos (.inl here), overlay_at bound]
    rcases (show place = 0 ∨ place = 1 by omega) with rfl | rfl <;> rfl
  · rw [if_neg (not_or.mpr ⟨here, others⟩), overlay_apart (by rw [length_halfwordBytes]; omega)]

/-- Killing records one after the other; an interruption leaves the first of them dead. -/
theorem Command.invalidate_ensures {region : Region} {chip : Chip} {targets : List Record}
    (onChip : region.OnChip chip) (steady : chip.faults.corruptNext = false)
    (placed : ∀ record ∈ targets,
      record.offset % 2 = 0 ∧ record.offset + 2 ≤ region.length) :
    (runAll region (targets.map invalidate)).Ensures chip
      (fun _ after => chip.Keeps after ∧ after.cell = clearParameters chip.cell targets)
      (chip.Interrupted fun cells =>
        ∃ dead alive, targets = dead ++ alive ∧ cells = clearParameters chip.cell dead) := by
  induction targets generalizing chip with
  | nil => exact Action.ensures_pure ⟨.refl chip, by simp⟩
  | cons record rest ih =>
    obtain ⟨even, inside⟩ := placed record (by simp)
    apply ensures_cons
    · apply (write_halfword_ensures tombstone onChip even inside (.inr rfl)).weaken
      intro cause after interrupted
      refine interrupted.mono fun cells same => ?_
      rcases same.2 steady with before | ⟨behind, -⟩
      · exact ⟨[], record :: rest, rfl, by simp [before]⟩
      · exact ⟨[record], rest, rfl, by rw [behind, clearParameters_cons, clearParameters_nil]⟩
    · intro middle done
      obtain ⟨keeps, cells⟩ := done
      apply (ih (onChip.keeps keeps) (keeps.steady steady)
        fun other member => placed other (by simp [member])).mono
      · intro _ after done
        obtain ⟨kept, final⟩ := done
        exact ⟨keeps.trans kept, by rw [final, cells, clearParameters_cons]⟩
      · intro cause after interrupted
        refine .since keeps (interrupted.mono ?_)
        intro final done
        obtain ⟨dead, alive, rfl, same⟩ := done
        exact ⟨record :: dead, alive, rfl, by rw [same, cells, clearParameters_cons]⟩

theorem Linked.header_kill (linked : Linked cells stop position records tail)
    (known : ∀ record ∈ dead, record ∈ records) (member : record ∈ records) :
    headerIn (clearParameters cells dead) record.offset = (record.kill dead).toHeader := by
  have header := (linked.stands member).header
  have sizeKept : halfwordIn (clearParameters cells dead) (record.offset + 2) = record.size := by
    have untouched (place : Nat) (low : 2 ≤ place) (high : place < headerSize) :
        clearParameters cells dead (record.offset + place) = cells (record.offset + place) := by
      apply clearParameters_apart
      intro other inDead
      have := record.offset_lt_next
      have := other.offset_lt_next
      rcases linked.eq_or_apart member (known other inDead) with rfl | before | behind <;>
        simp only [headerSize] at * <;> omega
    have size : halfwordIn cells (record.offset + 2) = record.size := congrArg Header.size header
    rw [← size]
    exact halfwordIn_congr (untouched 2 (by decide) (by decide)) (untouched 3 (by decide) (by decide))
  unfold Record.kill headerIn
  rw [sizeKept]
  split
  next killed =>
    have zero (place : Nat) (bound : place < 2) :
        clearParameters cells dead (record.offset + place) = 0 := by
      apply if_pos
      simp only [List.any_eq_true, decide_eq_true_eq]
      exact ⟨record, killed, by omega⟩
    have cleared : halfwordIn (clearParameters cells dead) record.offset = tombstone := by
      rw [halfwordIn, zero 1 (by decide), ← Nat.add_zero record.offset, zero 0 (by decide)]
      rfl
    rw [cleared]
  next spared =>
    have untouched (place : Nat) (bound : place < 2) :
        clearParameters cells dead (record.offset + place) = cells (record.offset + place) := by
      apply clearParameters_apart
      intro other inDead
      have := record.offset_lt_next
      have := other.offset_lt_next
      rcases linked.eq_or_apart member (known other inDead) with rfl | before | behind
      · exact absurd inDead spared
      · simp only [headerSize] at *; omega
      · simp only [headerSize] at *; omega
    have kept : halfwordIn (clearParameters cells dead) record.offset =
        halfwordIn cells record.offset :=
      halfwordIn_congr (untouched 0 (by decide)) (untouched 1 (by decide))
    rw [kept, show halfwordIn cells record.offset = record.parameter from
      congrArg Header.parameter header]

theorem Linked.kill (linked : Linked cells stop position records tail)
    (known : ∀ record ∈ dead, record ∈ records) :
    Linked (clearParameters cells dead) stop position (records.map (Record.kill dead)) tail := by
  refine linked.map (fun record _ => ⟨record.kill_offset dead, record.kill_size dead⟩)
    (fun record member => ?_) fun record member => linked.header_kill known member
  unfold Record.kill
  split
  · exact (by decide : tombstone ≠ erasedHalfword)
  · exact (linked.stands member).written

theorem Linked.sameOutside_clear (linked : Linked cells stop position records tail)
    (known : ∀ record ∈ dead, record ∈ records) :
    SameOutside cells (clearParameters cells dead) position tail := by
  intro index away
  apply clearParameters_apart
  intro record member
  have := linked.bounds (known record member)
  have := record.offset_lt_next
  simp only [headerSize] at this
  omega

theorem Linked.payload_clear (linked : Linked cells stop position records tail)
    (known : ∀ record ∈ dead, record ∈ records) (member : record ∈ records) :
    payloadIn (clearParameters cells dead) record = payloadIn cells record := by
  apply bytesAt_congr
  intro index above below
  apply clearParameters_apart
  intro other inDead
  have := record.dataEnd_le_next
  have := other.offset_lt_next
  simp only [Record.dataEnd, Record.dataOffset, headerSize] at *
  rcases linked.eq_or_apart member (known other inDead) with rfl | before | behind <;> omega

/-- What is left of a parameter's records. -/
theorem filter_kill (records dead : List Record) (valid : isValidParameter parameter = true) :
    (records.map (Record.kill dead)).filter (·.parameter == parameter) =
      (records.filter (·.parameter == parameter)).filter (· ∉ dead) := by
  have named := (isValidParameter_iff.mp valid).1
  induction records with
  | nil => rfl
  | cons record rest ih =>
    by_cases killed : record ∈ dead
    · have cleared : (record.kill dead).parameter = tombstone := by simp [Record.kill, killed]
      rw [List.map_cons, List.filter_cons_of_neg (by simp [cleared, Ne.symm named]), ih,
        List.filter_filter, List.filter_filter, List.filter_cons_of_neg (by simp [killed])]
    · have spared : record.kill dead = record := by simp [Record.kill, killed]
      rw [List.map_cons, spared, List.filter_cons, List.filter_cons]
      split
      · rw [List.filter_cons_of_pos (by simp [killed]), ih]
      · exact ih

/-- A parameter keeps its value until the last of its records is dead, and no other loses one. -/
theorem Linked.valueOf_kill (linked : Linked cells stop position records tail)
    (copies : records.filter (·.parameter == parameter) = dead ++ alive) :
    valueOf (entriesIn (clearParameters cells dead) (records.map (Record.kill dead))) =
      if alive = [] then (valueOf (entriesIn cells records)).drop parameter
      else valueOf (entriesIn cells records) := by
  have inCopies (record : Record) (member : record ∈ dead) :
      record ∈ records ∧ record.parameter = parameter := by
    have found : record ∈ records.filter (·.parameter == parameter) := by
      rw [copies]; simp [member]
    simpa using List.mem_filter.mp found
  funext asked
  by_cases reserved : isValidParameter asked = false
  · split <;> simp [Values.drop, valueOf_reserved reserved]
  have named : isValidParameter asked = true := by simpa using reserved
  have last (list : List Record)
      (sub : ∀ record ∈ list, record ∈ records.filter (·.parameter == asked)) :
      list.getLast?.map (payloadIn (clearParameters cells dead)) =
        list.getLast?.map (payloadIn cells) := by
    apply Option.map_congr
    intro record found
    exact linked.payload_clear (fun other inDead => (inCopies other inDead).1)
      (List.mem_filter.mp (sub record (List.mem_of_getLast? found))).1
  rw [valueOf_entriesIn _ _ named, filter_kill _ _ named,
    last _ fun record member => (List.mem_filter.mp member).1]
  by_cases same : asked = parameter
  · subst same
    have unique : (dead ++ alive).Nodup := copies ▸ linked.nodup.filter _
    have rest : (dead ++ alive).filter (· ∉ dead) = alive := by
      rw [List.filter_append, List.filter_eq_nil_iff.mpr (by simp), List.nil_append,
        List.filter_eq_self]
      intro record member
      simpa using fun inDead => (List.nodup_append.mp unique).2.2 record inDead record member rfl
    rw [copies, rest]
    by_cases none : alive = []
    · simp [none, Values.drop]
    · obtain ⟨record, found⟩ : ∃ record, alive.getLast? = some record :=
        ⟨alive.getLast none, List.getLast?_eq_some_getLast none⟩
      rw [if_neg none, valueOf_entriesIn _ _ named, copies, List.getLast?_append, found]
      rfl
  · have kept : (records.filter (·.parameter == asked)).filter (· ∉ dead) =
        records.filter (·.parameter == asked) := by
      rw [List.filter_eq_self]
      intro record member
      have parameterAsked : record.parameter = asked := by simpa using (List.mem_filter.mp member).2
      simpa using fun inDead => same (parameterAsked ▸ (inCopies record inDead).2)
    rw [kept]
    split <;> simp [Values.drop, same, valueOf_entriesIn _ _ named]

/-- Once all records of a parameter are dead, its entries are buried. -/
theorem Linked.entriesIn_kill (linked : Linked cells stop position records tail)
    (parameter : UInt16) :
    entriesIn (clearParameters cells (records.filter (·.parameter == parameter)))
        (records.map (Record.kill (records.filter (·.parameter == parameter)))) =
      (entriesIn cells records).map (Entry.bury parameter) := by
  simp only [entriesIn, List.map_map]
  apply List.map_congr_left
  intro record member
  have known (other : Record) (inDead : other ∈ records.filter (·.parameter == parameter)) :
      other ∈ records := (List.mem_filter.mp inDead).1
  have payload := linked.payload_clear known member
  rw [Function.comp_apply, Function.comp_apply, entryIn, payloadIn_kill, payload]
  by_cases same : record.parameter = parameter
  · simp [Record.kill, Entry.bury, entryIn, member, same]
  · simp [Record.kill, Entry.bury, entryIn, same]

/-- The log with some of its records dead. -/
def Log.kill (log : Log) (dead : List Record) : Log :=
  { log with records := log.records.map (Record.kill dead) }

theorem Store.Holds.kill {store : Store} {chip : Chip} {log : Log}
    (holds : store.Holds cells log) (mounted : store.Mounted chip)
    (known : ∀ record ∈ dead, record ∈ log.records) :
    store.Holds (clearParameters cells dead) (log.kill dead) := by
  have outside := holds.linked.sameOutside_clear known
  have bounds := holds.tail_le mounted
  exact ⟨holds.segment,
    holds.active_congr mounted (outside.mono (Nat.le_refl _) bounds.2),
    holds.linked.kill known, holds.ends.congr (outside.sameIn (.inr (Nat.le_refl _)))⟩

end ParamStore
