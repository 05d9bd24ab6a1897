import ParamStore.Proofs.Compaction
import ParamStore.Store.Update

/-! Wear. A page wears by being erased and by nothing else: programming counts nothing, whatever goes
wrong with it, and erasing a segment counts once for each of its pages. -/
namespace ParamStore

/-- The call wears no page. -/
abbrev Action.Gentle {ε α : Type} (action : Action ε α) : Prop := action.Leaves Chip.eraseCounts

/-- Erase counts after the pages from `first` up to, not including, `last` were erased. Only 32 pages
are counted. -/
def worn (counts : Nat → Nat) (first last : Nat) : Nat → Nat := fun page =>
  if first ≤ page ∧ page < last ∧ page < 32 then counts page + 1 else counts page

@[simp] theorem worn_self (counts : Nat → Nat) (first : Nat) : worn counts first first = counts := by
  funext page
  exact if_neg (by omega)

theorem worn_worn {counts : Nat → Nat} {first middle last : Nat} (low : first ≤ middle)
    (high : middle ≤ last) : worn (worn counts first middle) middle last = worn counts first last := by
  funext page
  simp only [worn]
  by_cases early : page < middle
  · rw [if_neg (by omega)]
    by_cases inside : first ≤ page ∧ page < 32
    · rw [if_pos (by omega), if_pos (by omega)]
    · rw [if_neg (by omega), if_neg (by omega)]
  · rw [if_neg (show ¬(first ≤ page ∧ page < middle ∧ page < 32) by omega)]
    by_cases inside : page < last ∧ page < 32
    · rw [if_pos (by omega), if_pos (by omega)]
    · rw [if_neg (by omega), if_neg (by omega)]

namespace Chip

theorem eraseCount_congr {first second : Chip} (same : second.eraseCounts = first.eraseCounts) :
    second.eraseCount = first.eraseCount := by
  funext page
  rw [eraseCount, same, eraseCount]

/-- What comes after a call and wears nothing is not counted. -/
theorem eraseCount_bind {ε α β : Type} {next : α → Action ε β}
    (gentle : ∀ answer, (next answer).Gentle) (action : Action ε α) (chip : Chip) :
    ((action >>= next).after chip).eraseCount = (action.after chip).eraseCount :=
  eraseCount_congr (Action.view_bind Chip.eraseCounts gentle action chip)

theorem eraseCount_countErase (chip : Chip) (page : Nat) :
    (chip.countErase page).eraseCount = worn chip.eraseCount page (page + 1) := by
  funext other
  unfold countErase eraseCount worn
  split
  next covered =>
    simp only [Vector.getElem?_set]
    by_cases same : page = other
    · subst same
      simp [covered]
    · rw [if_neg same, if_neg (by omega)]
  next => rw [if_neg (by omega)]

theorem program_eraseCounts (chip : Chip) (address : Nat) (value : UInt16) :
    (chip.program address value).eraseCounts = chip.eraseCounts := by
  have programAt_same (chip : Chip) (offset : Nat) :
      (programAt value chip offset).eraseCounts = chip.eraseCounts := by
    unfold programAt
    split <;> rfl
  exact mutate_view eraseCounts (fun _ => rfl) (fun _ => rfl) (fun _ => rfl) programAt_same _

/-- A chip that does what it is told erases the page and counts it. -/
theorem Obedient.eraseCount_erase {chip : Chip} (obedient : chip.Obedient)
    (unlocked : chip.locked = false) (offset : Nat) : (chip.mutate (some offset) eraseAt).eraseCount =
      worn chip.eraseCount (offset / chip.pageSize) (offset / chip.pageSize + 1) := by
  rcases mutate_cases chip offset eraseAt unlocked with
    ⟨-, protect⟩ | ⟨-, spent⟩ | ⟨left, changed, -⟩
  · simp [obedient.not_protected] at protect
  · simp [obedient.powered] at spent
  · rw [changed]
    exact eraseCount_countErase ((chip.withPower left).eraseCells _ _) (offset / chip.pageSize)

end Chip

namespace Region

variable {region : Region} {chip : Chip} {offset : Nat}

theorem programHalfword_gentle (region : Region) (offset : Nat) (value : UInt16) :
    (region.programHalfword offset value).Gentle := by
  unfold programHalfword
  split
  · exact Action.leaves_fail _
  refine (Action.leaves_observe _).bind fun address =>
    Action.Leaves.unlocked (fun _ => rfl) (fun _ => rfl) ?_
  refine (Action.leaves_modify fun chip => chip.program_eraseCounts address value).bind fun _ => ?_
  refine (awaitIdle_leaves Chip.eraseCounts _ _ fun _ => rfl).bind fun _ =>
    Action.leaves_get.bind fun chip => ?_
  split
  · exact Action.leaves_pure _
  · exact Action.leaves_fail _

theorem programAll_gentle (region : Region) (offset : Nat) (bytes : Bytes) :
    (region.programAll offset bytes).Gentle := by
  fun_induction programAll region offset bytes with
  | case1 offset low high rest ih =>
    exact (region.programHalfword_gentle offset _).bind fun _ => ih
  | case2 => exact Action.leaves_pure _

theorem write_gentle (region : Region) (offset : Nat) (bytes : Bytes) :
    (region.write offset bytes).Gentle := by
  unfold Region.write
  split
  · exact Action.leaves_fail _
  · exact (Action.leaves_observe _).bind fun _ => region.programAll_gentle offset bytes

theorem erasePage_wear (onChip : region.OnChip chip) (obedient : chip.Obedient)
    (positive : 0 < chip.pageSize) (aligned : offset % chip.pageSize = 0)
    (inside : offset + chip.pageSize ≤ region.length) :
    ((region.erasePage offset).after chip).eraseCount =
      worn chip.eraseCount (offset / chip.pageSize) (offset / chip.pageSize + 1) := by
  have unlocked : region.OnChip chip.unlock := ⟨onChip.base, onChip.within, onChip.noWrap⟩
  have obeys : chip.unlock.Obedient := obedient
  rw [← show chip.unlock.eraseCount = chip.eraseCount from rfl,
    ← show chip.unlock.pageSize = chip.pageSize from rfl, ← obeys.eraseCount_erase rfl offset,
    ← unlocked.erasePage_eq (by omega)]
  apply Chip.eraseCount_congr
  unfold erasePage
  rw [Action.after_bind]
  simp only [Action.outcome_get, Action.after_get, aligned, Nat.sub_zero]
  rw [Action.after_bind]
  simp only [Action.outcome_observe, Action.after_observe, onChip.address_eq inside]
  rw [Action.after_unlocked, Action.after_bind]
  simp only [Action.outcome_modify, Action.after_modify]
  -- Once the page is erased, waiting and verifying count nothing.
  refine (awaitIdle_leaves Chip.eraseCounts _ _ fun _ => rfl).bind
    (fun _ => (Action.leaves_observe _).bind fun erased => ?_) _
  split
  · exact Action.leaves_pure _
  · exact Action.leaves_fail _

theorem erasePages_wear {pageSize count : Nat} (onChip : region.OnChip chip)
    (obedient : chip.Obedient) (paged : chip.pageSize = pageSize) (positive : 0 < pageSize)
    (aligned : offset % pageSize = 0) (inside : offset + count * pageSize ≤ region.length) :
    (region.erasePages pageSize offset count).Ensures chip
      (fun _ after => after.eraseCount =
        worn chip.eraseCount (offset / pageSize) (offset / pageSize + count))
      (fun _ _ => False) := by
  induction count generalizing chip offset with
  | zero => exact Action.ensures_pure (worn_self _ _).symm
  | succ count ih =>
    rw [Nat.add_mul] at inside
    have next : (offset + pageSize) / pageSize = offset / pageSize + 1 :=
      Nat.add_div_right offset positive
    subst paged
    apply Action.Ensures.bind
    · apply ((erasePage_ensures onChip positive aligned (by omega)).and_after
        (·.eraseCount = worn chip.eraseCount (offset / chip.pageSize) (offset / chip.pageSize + 1))
        (erasePage_wear onChip obedient positive aligned (by omega))).weaken
      intro _ after failed
      exact failed.1.2.1 obedient
    · intro _ middle done
      obtain ⟨⟨keeps, -⟩, counted⟩ := done
      apply (ih (onChip.keeps keeps) (keeps.obedient obedient) keeps.pageSize
        (by rw [Nat.add_mod_right]; exact aligned) (by omega)).mono
      · intro _ after more
        rw [more, counted, next, worn_worn (Nat.le_add_right _ 1) (Nat.le_add_right _ count)]
        congr 1
        omega
      · exact fun _ _ => id

theorem erase_wear {start stop : Nat} (onChip : region.OnChip chip) (obedient : chip.Obedient)
    (positive : 0 < chip.pageSize) (first : start % chip.pageSize = 0)
    (last : stop % chip.pageSize = 0) (ordered : start ≤ stop) (inside : stop ≤ region.length) :
    (region.erase start stop).Ensures chip
      (fun _ after => after.eraseCount =
        worn chip.eraseCount (start / chip.pageSize) (stop / chip.pageSize))
      (fun _ _ => False) := by
  have reach : start / chip.pageSize + (stop - start) / chip.pageSize = stop / chip.pageSize := by
    obtain ⟨low, atStart⟩ := Nat.dvd_of_mod_eq_zero first
    obtain ⟨high, atStop⟩ := Nat.dvd_of_mod_eq_zero last
    have upward : low ≤ high := Nat.le_of_mul_le_mul_left (atStart ▸ atStop ▸ ordered) positive
    rw [atStart, atStop, ← Nat.mul_sub, Nat.mul_div_cancel_left _ positive,
      Nat.mul_div_cancel_left _ positive, Nat.mul_div_cancel_left _ positive]
    omega
  have whole : (stop - start) / chip.pageSize * chip.pageSize = stop - start :=
    Nat.div_mul_cancel (Nat.dvd_sub (Nat.dvd_of_mod_eq_zero last) (Nat.dvd_of_mod_eq_zero first))
  unfold erase
  apply Action.ensures_get_bind
  simp only [first, last, ne_eq, not_true_eq_false, false_or, Nat.not_lt.mpr ordered,
    Nat.not_lt.mpr inside, ↓reduceIte]
  rw [← reach]
  exact erasePages_wear onChip obedient rfl positive first (by omega)

end Region

namespace Command

variable {region : Region}

/-- The command leaves the erasing to others. -/
def isGentle : Command → Bool
  | erase _ _ => false
  | _ => true

theorem run_gentle {command : Command} (gentle : command.isGentle = true) :
    (command.run region).Gentle := by
  cases command with
  | write offset bytes => exact (region.write_gentle offset bytes).mapError
  | transfer source target length =>
    exact Action.Leaves.mapError
      ((Action.leaves_observe _).bind fun bytes => region.write_gentle target bytes)
  | erase => cases gentle

theorem runAll_gentle {commands : List Command}
    (gentle : ∀ command ∈ commands, command.isGentle = true) : (runAll region commands).Gentle := by
  induction commands with
  | nil => exact Action.leaves_pure ()
  | cons command rest ih =>
    refine (run_gentle (gentle command (by simp))).bind fun _ => ?_
    exact ih fun other member => gentle other (by simp [member])

theorem transfers_gentle (source target length : Nat) :
    ∀ command ∈ transfers source target length, command.isGentle = true := by
  fun_induction transfers source target length with
  | case1 source target length positive chunk ih =>
    intro command member
    rcases List.mem_cons.mp member with rfl | member
    · rfl
    · exact ih command member
  | case2 => simp

theorem append_gentle (log : Log) (parameter : UInt16) (data : Bytes) :
    ∀ command ∈ append log parameter data, command.isGentle = true := by
  have body : ∀ offset, ∀ command ∈ payload offset data, command.isGentle = true := by
    intro offset
    unfold payload
    dsimp only
    split <;> simp [isGentle]
  intro command member
  simp only [append, List.mem_append, List.mem_map] at member
  rcases member with (member | member) | ⟨record, -, rfl⟩
  · exact body _ command member
  · simp only [commit, List.mem_cons, List.not_mem_nil, or_false] at member
    rcases member with rfl | rfl <;> rfl
  · rfl

end Command

/-- Erase counts after the pages of a segment were erased. -/
def Segment.wear (segment : Segment) (pageSize : Nat) (counts : Nat → Nat) : Nat → Nat :=
  worn counts (segment.start / pageSize) (segment.stop / pageSize)

namespace Store

variable {store : Store} {chip : Chip}

theorem copyRecord_gentle (store : Store) (stop : Nat) (record : Record) (position : Nat) :
    (store.copyRecord stop record position).Gentle := by
  refine (Action.leaves_observe _).bind fun dataEnd => ?_
  split
  · exact Action.leaves_fail _
  · apply Command.runAll_gentle
    intro command member
    rcases List.mem_append.mp member with body | header
    · exact Command.transfers_gentle _ _ _ command body
    · simp only [Command.commit, List.mem_cons, List.not_mem_nil, or_false] at header
      rcases header with rfl | rfl <;> rfl

theorem pack_gentle (store : Store) (stop : Nat) (records : List Record) (position : Nat) :
    (store.pack stop records position).Gentle := by
  induction records generalizing position with
  | nil => exact Action.leaves_pure position
  | cons record rest ih =>
    exact (store.copyRecord_gentle stop record position).bind fun _ =>
      (Action.leaves_observe _).bind fun next => ih next

theorem markCommand_gentle (store : Store) (id : SegmentId) :
    ((store.markCommand id).run store.region).Gentle := Command.run_gentle rfl

theorem eraseCommand_wear (mounted : store.Mounted chip) (obedient : chip.Obedient)
    (id : SegmentId) :
    ((store.eraseCommand id).run store.region).Ensures chip
      (fun _ after => chip.Keeps after ∧
        after.cell = wipe chip.cell (store.segment id).start (store.segment id).stop ∧
        after.eraseCount = (store.segment id).wear chip.pageSize chip.eraseCount)
      (fun _ _ => False) := by
  have placed := mounted.placed id
  have room := placed.room
  have word := placed.word
  have worn := Region.erase_wear mounted.onChip obedient (by omega) placed.startPage placed.stopPage
    (by omega) placed.inside
  apply ((store.eraseCommand_ensures mounted id).and
    (worn.weaken fun _ _ => False.elim).mapError).mono
  · intro _ after done
    obtain ⟨⟨keeps, cells⟩, counted⟩ := done
    exact ⟨keeps, cells, counted⟩
  · exact fun _ _ failed => failed.2

end Store

end ParamStore
