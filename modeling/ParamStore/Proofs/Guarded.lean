import ParamStore.Proofs.Linked
import ParamStore.Store.Recovery
import ParamStore.Store.Typed

/-! How calls use the chip. All that a call ever asks of it is what its cells hold, and all that it ever
does to it is to program a half-word or to erase a page. What is true of these two steps and lasts from
one step to the next is true of every call, whatever it is asked for. -/
namespace ParamStore

/-- A chip in working order that holds the same. -/
def Chip.content (chip : Chip) : Chip :=
  { base := chip.base, pageSize := chip.pageSize, memory := chip.memory }

/-- A question about the cells of a chip, and nothing else of it. -/
def Chip.AboutCells {α : Type} (question : Chip → α) : Prop :=
  ∀ chip : Chip, question chip.content = question chip

/-- The call asks about the cells, and works through programming and erasing alone. -/
inductive Action.Guarded : {ε α : Type} → Action ε α → Prop
  | pure {ε α : Type} (answer : α) : Guarded (pure answer : Action ε α)
  | fail {ε α : Type} (cause : ε) : Guarded (.fail cause : Action ε α)
  | observe {ε α : Type} {question : Chip → Attempt ε α} (about : Chip.AboutCells question) :
    Guarded (.observe question)
  | program (region : Region) (offset : Nat) (value : UInt16) :
    Guarded (region.programHalfword offset value)
  | erasePage (region : Region) (offset : Nat) : Guarded (region.erasePage offset)
  | bind {ε α β : Type} {action : Action ε α} {next : α → Action ε β} (first : Guarded action)
    (rest : ∀ answer, Guarded (next answer)) : Guarded (action >>= next)
  | mapError {ε δ α : Type} {f : ε → δ} {action : Action ε α} (guarded : Guarded action) :
    Guarded (action.mapError f)

theorem walk_aboutCells (region : Region) (position stop : Nat) :
    Chip.AboutCells (walk region · position stop) :=
  fun _ => walk_congr fun _ _ _ => rfl

theorem hasLaterCopy_aboutCells (region : Region) (parameter : UInt16) (position stop : Nat) :
    Chip.AboutCells (hasLaterCopy region · parameter position stop) := by
  intro chip
  have walked := walk_aboutCells region position stop chip
  dsimp only at walked
  simp only [hasLaterCopy_eq, walked]

theorem visitLive_aboutCells {σ : Type} (region : Region) (visit : σ → Header → σ) (state : σ)
    (position stop : Nat) : Chip.AboutCells (visitLive region · visit state position stop) := by
  intro chip
  have ahead (record : Record) := hasLaterCopy_aboutCells region record.parameter record.next stop chip
  dsimp only at ahead ⊢
  fun_induction visitLive region chip visit state position stop with
  | case1 state position failure found => exact visitLive_of_failure found
  | case2 state position found => exact visitLive_of_end found
  | case3 state position record found forward next dead ih =>
    have found : recordAt region chip.content position stop = .ok (some record) := found
    exact (visitLive_of_dead found (by simpa using dead)).trans ih
  | case4 state position record found forward live failure lost =>
    exact visitLive_of_lost found (by simpa using live) ((ahead record).trans lost)
  | case5 state position record found forward next live later ih =>
    have found : recordAt region chip.content position stop = .ok (some record) := found
    exact (visitLive_of_superseded found ((ahead record).trans later)).trans ih
  | case6 state position record found forward next live last ih =>
    have found : recordAt region chip.content position stop = .ok (some record) := found
    exact (visitLive_of_last found (by simpa using live) ((ahead record).trans last)).trans ih

theorem Log.read_aboutCells (region : Region) (segment : Segment) :
    Chip.AboutCells (Log.read region · segment) := by
  intro chip
  have walked := walk_aboutCells region segment.firstRecord segment.stop chip
  dsimp only at walked
  simp only [Log.read, walked]

namespace Store

variable (store : Store)

theorem log_aboutCells : Chip.AboutCells store.log := by
  intro chip
  have same (segment : Segment) := Log.read_aboutCells store.region segment chip
  dsimp only at same
  simp only [log, same]
  rfl

theorem read_aboutCells (parameter : UInt16) (capacity : Nat) :
    Chip.AboutCells (store.read · parameter capacity) := by
  intro chip
  simp only [Store.read, store.log_aboutCells chip]
  rfl

theorem contains_aboutCells (parameter : UInt16) : Chip.AboutCells (store.contains · parameter) := by
  intro chip
  simp only [contains, store.log_aboutCells chip]

theorem stats_aboutCells : Chip.AboutCells store.stats := by
  intro chip
  have walked (segment : Segment) :=
    walk_aboutCells store.region segment.firstRecord segment.stop chip
  dsimp only at walked
  simp only [stats, walked]
  rfl

theorem live_aboutCells : Chip.AboutCells store.live := by
  intro chip
  simp only [live, store.log_aboutCells chip]

theorem forEachLive_aboutCells {σ : Type} (visit : σ → Header → σ) (state : σ) :
    Chip.AboutCells (store.forEachLive · visit state) := by
  intro chip
  have same (segment : Segment) := visitLive_aboutCells store.region visit state
    segment.firstRecord segment.stop chip
  dsimp only at same
  simp only [forEachLive, same]
  rfl

theorem reserve_aboutCells (size : UInt16) : Chip.AboutCells (store.reserve · size) := by
  intro chip
  simp only [reserve, store.log_aboutCells chip]
  rfl

theorem load_aboutCells {α : Type} [Wire α] (parameter : UInt16) :
    Chip.AboutCells fun chip => (store.load chip parameter : Attempt StoreError α) := by
  intro chip
  have same := store.read_aboutCells parameter maxEncoded chip
  dsimp only at same
  simp only [load, same]

end Store

namespace Region

variable (region : Region)

theorem programAll_guarded (offset : Nat) (bytes : Bytes) :
    (region.programAll offset bytes).Guarded := by
  fun_induction programAll region offset bytes with
  | case1 offset low high rest ih => exact (Action.Guarded.program region offset _).bind fun _ => ih
  | case2 => exact .pure ()

theorem write_guarded (offset : Nat) (bytes : Bytes) : (region.write offset bytes).Guarded := by
  unfold Region.write
  split
  · exact .fail _
  · exact (Action.Guarded.observe fun _ => rfl).bind fun _ => region.programAll_guarded offset bytes

theorem erasePages_guarded (pageSize page count : Nat) :
    (region.erasePages pageSize page count).Guarded := by
  induction count generalizing page with
  | zero => exact .pure ()
  | succ count ih => exact (Action.Guarded.erasePage region page).bind fun _ => ih (page + pageSize)

theorem erase_guarded (start stop : Nat) : (region.erase start stop).Guarded := by
  have rest (pageSize : Nat) : (if start % pageSize ≠ 0 ∨ stop % pageSize ≠ 0 ∨ stop < start then
      .fail .unaligned
      else if region.length < stop then .fail .outOfBounds
      else region.erasePages pageSize start ((stop - start) / pageSize)).Guarded := by
    split
    · exact .fail _
    split
    · exact .fail _
    · exact region.erasePages_guarded _ _ _
  have asked : (Action.observe fun chip => .ok chip.pageSize : Action FlashError Nat).Guarded :=
    .observe fun _ => rfl
  exact asked.bind rest

end Region

theorem Command.run_guarded (region : Region) (command : Command) : (command.run region).Guarded := by
  cases command with
  | write offset bytes => exact (region.write_guarded offset bytes).mapError
  | transfer source target length =>
    have asked : Chip.AboutCells fun chip => region.read chip source length := fun _ => rfl
    exact ((Action.Guarded.observe asked).bind fun bytes => region.write_guarded target bytes).mapError
  | erase start stop => exact (region.erase_guarded start stop).mapError

theorem Command.runAll_guarded (region : Region) (commands : List Command) :
    (runAll region commands).Guarded := by
  induction commands with
  | nil => exact .pure ()
  | cons command rest ih => exact (command.run_guarded region).bind fun _ => ih

namespace Store

variable (store : Store)

theorem copyRecord_guarded (stop : Nat) (record : Record) (position : Nat) :
    (store.copyRecord stop record position).Guarded := by
  refine (Action.Guarded.observe fun _ => rfl).bind fun dataEnd => ?_
  split
  · exact .fail _
  · exact Command.runAll_guarded _ _

theorem pack_guarded (stop : Nat) (records : List Record) (position : Nat) :
    (store.pack stop records position).Guarded := by
  induction records generalizing position with
  | nil => exact .pure position
  | cons record rest ih =>
    exact (store.copyRecord_guarded stop record position).bind fun _ =>
      (Action.Guarded.observe fun _ => rfl).bind fun next => ih next

theorem clearSpare_guarded (spare : Segment) : (store.clearSpare spare).Guarded := by
  refine (Action.Guarded.observe fun _ => rfl).bind fun blank => ?_
  split
  · exact .pure _
  · exact (Command.runAll_guarded _ _).bind fun _ => .pure _

theorem compact_guarded : store.compact.Guarded := by
  refine (Action.Guarded.observe fun _ => rfl).bind fun source => ?_
  refine (Action.Guarded.observe fun _ => rfl).bind fun inUse => ?_
  split
  · exact .fail _
  refine (store.clearSpare_guarded _).bind fun _ => ?_
  refine (Action.Guarded.observe (Log.read_aboutCells store.region source)).bind fun log => ?_
  refine (store.pack_guarded _ _ _).bind fun tail => ?_
  exact (Command.runAll_guarded _ _).bind fun _ => .pure _

theorem makeRoom_guarded (size : UInt16) : (store.makeRoom size).Guarded := by
  refine (Action.Guarded.observe fun _ => rfl).bind fun segment => ?_
  refine (Action.Guarded.observe fun _ => rfl).bind fun next => ?_
  split
  · exact .fail _
  · exact store.compact_guarded.bind fun _ => .pure _

theorem write_guarded (parameter : UInt16) (data : Bytes) :
    (store.write parameter data).Guarded := by
  unfold write
  split
  · exact .fail _
  split
  · exact .fail _
  refine (Action.Guarded.observe (store.reserve_aboutCells _)).bind fun reserved => ?_
  cases reserved with
  | some log => exact Command.runAll_guarded _ _
  | none =>
    refine (store.makeRoom_guarded _).bind fun _ => ?_
    refine (Action.Guarded.observe (store.reserve_aboutCells _)).bind fun again => ?_
    cases again with
    | some log => exact Command.runAll_guarded _ _
    | none => exact .fail _

theorem remove_guarded (parameter : UInt16) : (store.remove parameter).Guarded := by
  unfold remove
  split
  · exact .fail _
  refine (Action.Guarded.observe store.log_aboutCells).bind fun log => ?_
  split
  · exact .fail _
  · exact Command.runAll_guarded _ _

theorem recoverSpare_guarded (spare : SegmentId) : (store.recoverSpare spare).Guarded := by
  refine (store.clearSpare_guarded _).bind fun dirty => ?_
  split <;> exact .pure _

theorem recover_guarded : store.recover.Guarded := by
  refine (Action.Guarded.observe fun _ => rfl).bind fun first => ?_
  refine (Action.Guarded.observe fun _ => rfl).bind fun second => ?_
  cases first <;> cases second
  · exact .pure _
  · exact store.recoverSpare_guarded .a
  · exact store.recoverSpare_guarded .b
  · exact (Command.runAll_guarded _ _).bind fun _ => .pure _

theorem save_guarded {α : Type} [Wire α] (parameter : UInt16) (value : α) :
    (store.save parameter value).Guarded := by
  unfold save
  dsimp only
  split
  · exact .fail _
  · exact store.write_guarded parameter _

end Store

end ParamStore
