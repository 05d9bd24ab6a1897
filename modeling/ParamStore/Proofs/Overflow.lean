import ParamStore.Proofs.Registers
import ParamStore.Proofs.Confinement

/-! No register overflows. The calls of a store are written out again with every sum, difference,
counter and slice checked, and with the loops that a device runs: it kills old records while it walks
over them and copies live ones while it looks for later copies. On a mounted store, whatever the chip
holds and however it fails, each comes to what the call itself comes to, and no call overflows. -/
namespace ParamStore

namespace Device

open ParamStore.Action (compute)

/-- Kill the records of `parameter` between `position` and `limit`, on the way of a walk. -/
def invalidateBefore (region : Region) (parameter : UInt16) (position limit : Nat) :
    Action StoreError Unit := fun chip =>
  match found : recordAt region chip position limit with
  | .error failure => .error failure chip
  | .ok none => .ok () chip
  | .ok (some record) =>
    have := position_lt_min_next found
    let rest : Action StoreError Unit :=
      invalidateBefore region parameter (min record.next limit) limit
    if record.parameter == parameter then (do invalidate region record; rest) chip else rest chip
termination_by limit - position

variable (store : Store)

def isBlank (chip : Chip) (offset length : Nat) : Attempt StoreError Bool :=
  (allErased (store.region.read chip) offset length 0).mapError .flash

def eraseSegment (id : SegmentId) : Action StoreError Unit :=
  erase store.region (store.segment id).start (store.segment id).stop

def markInUse (id : SegmentId) : Action StoreError Unit :=
  put store.region (store.segment id).start (halfwordBytes inUseMagic)

def log (chip : Chip) : Attempt StoreError Log := do
  let segment ← store.active chip
  let walked := walk store.region chip (← segment.tryFirstRecord) segment.stop
  return ⟨segment, walked.records, ← walked.ending⟩

def read (chip : Chip) (parameter : UInt16) (capacity : Nat) : Attempt StoreError Reading := do
  if !isValidParameter parameter then .fail .invalidParameter
  else match (← log store chip).latest? parameter with
    | none => .fail .notFound
    | some record =>
      let length := min record.size.toNat capacity
      let start ← Attempt.fit record.dataOffset
      Attempt.slice length capacity
      return ⟨← store.readFlash chip start length, length < record.size.toNat⟩

def contains (chip : Chip) (parameter : UInt16) : Attempt StoreError Bool := do
  if !isValidParameter parameter then return false
  else return ((← log store chip).latest? parameter).isSome

def stats (chip : Chip) : Attempt StoreError Stats := do
  let segment ← store.active chip
  let walked := walk store.region chip (← segment.tryFirstRecord) segment.stop
  let tombstoned ← Attempt.fitHalfword (walked.records.countP (·.isTombstone))
  let live ← Attempt.fitHalfword (walked.records.countP (!·.isTombstone))
  let tail ← walked.ending
  return {
    active := segment.id
    used := ← Attempt.difference tail segment.start
    live, tombstoned
    free := ← Attempt.difference segment.stop tail }

def forEachLive {σ : Type} (chip : Chip) (visit : σ → Header → σ) (state : σ) :
    σ × Attempt StoreError Unit :=
  match store.active chip with
  | .error failure => (state, .error failure)
  | .ok segment =>
    match segment.tryFirstRecord with
    | .error failure => (state, .error failure)
    | .ok first => visitLive store.region chip visit state first segment.stop

def clearSpare (spare : Segment) : Action StoreError Bool := do
  let size ← compute spare.trySize
  if ← Action.observe (isBlank store · spare.start size) then return false
  else
    eraseSegment store spare.id
    return true

def compact : Action StoreError Migration := do
  let source ← Action.observe store.active
  let target := store.segment source.id.other
  if ← Action.observe (store.isInUse · target.id) then .fail .targetInUse
  else
    let _ ← clearSpare store target
    let first ← compute source.tryFirstRecord
    let writeAt ← compute target.tryFirstRecord
    let done ← migrate store.region (copyRecord store.region target.stop) source ⟨first, writeAt, 0⟩
    markInUse store target.id
    eraseSegment store source.id
    let before ← compute (.difference done.position source.start)
    let behind ← compute (.difference done.writeAt target.start)
    return {
      source := source.id
      target := target.id
      copied := done.copied
      reclaimed := before - behind }

def reserve (chip : Chip) (size : UInt16) : Attempt StoreError (Option Log) := do
  let log ← log store chip
  let next ← tryNextOffset log.tail size
  if log.segment.stop < next then return none
  else
    let room ← Attempt.difference log.segment.stop log.tail
    if ← isBlank store chip log.tail room then return some log
    else return none

def makeRoom (size : UInt16) : Action StoreError Unit := do
  let segment ← Action.observe store.active
  let first ← compute segment.tryFirstRecord
  let next ← compute (tryNextOffset first size)
  if segment.stop < next then .fail .tooLarge
  else
    let _ ← compact store
    return ()

def append (log : Log) (parameter : UInt16) (data : Bytes) : Action StoreError Unit := do
  payload store.region (log.fresh parameter data) data
  commit store.region (log.fresh parameter data)
  if (log.latest? parameter).isSome then
    let first ← compute log.segment.tryFirstRecord
    invalidateBefore store.region parameter first log.tail
  else pure ()

def write (parameter : UInt16) (data : Bytes) : Action StoreError Unit := do
  if !isValidParameter parameter then .fail .invalidParameter
  else if maxPayload < data.length then .fail .tooLarge
  else
    let size := .ofNat data.length
    match ← Action.observe (reserve store · size) with
    | some log => append store log parameter data
    | none =>
      makeRoom store size
      match ← Action.observe (reserve store · size) with
      | some log => append store log parameter data
      | none => .fail .tooLarge

def remove (parameter : UInt16) : Action StoreError Unit := do
  if !isValidParameter parameter then .fail .invalidParameter
  else
    let log ← Action.observe (log store)
    if (log.latest? parameter).isNone then .fail .notFound
    else
      let first ← compute log.segment.tryFirstRecord
      invalidateBefore store.region parameter first log.tail

def recoverSpare (spare : SegmentId) : Action StoreError Recovery := do
  if ← clearSpare store (store.segment spare) then return .dirtyInactive else return .clean

def recover : Action StoreError Recovery := do
  let first ← Action.observe (store.isInUse · .a)
  let second ← Action.observe (store.isInUse · .b)
  match first, second with
  | false, false => return .unprovisioned
  | true, true =>
    eraseSegment store .b
    return .duplicateActive
  | true, false => recoverSpare store .b
  | false, true => recoverSpare store .a

def format : Action StoreError Unit := do
  eraseSegment store .a
  eraseSegment store .b
  markInUse store .a

section Equalities

variable {store : Store} {region : Region} {chip : Chip} {log : Log} {parameter : UInt16}
  {data : Bytes}

theorem isBlank_eq {offset length : Nat} (fits : offset + length < 0x100000000) (chip : Chip) :
    isBlank store chip offset length = store.isBlank chip offset length := by
  rw [isBlank, allErased_eq _ fits]
  rfl

theorem eraseSegment_eq (mounted : store.Mounted chip) (id : SegmentId) :
    eraseSegment store id = store.eraseSegment id := by
  rw [eraseSegment, erase_eq mounted.onChip.noWrap]
  exact (bind_pure_unit).symm

theorem markInUse_eq (mounted : store.Mounted chip) (id : SegmentId) :
    markInUse store id = store.markInUse id := by
  rw [markInUse, put_eq mounted.onChip.noWrap]
  exact (bind_pure_unit).symm

theorem firstRecord_eq {ε : Type} {segment : Segment} {pageSize : Nat}
    (placed : Store.Placed segment region pageSize) :
    (segment.tryFirstRecord : Attempt ε Nat) = .ok segment.firstRecord := by
  have first := placed.firstRecord_le
  have fits := placed.fits
  exact Attempt.fit_of_lt (by omega)

theorem log_eq (mounted : store.Mounted chip) : Device.log store chip = store.log chip := by
  rw [Device.log, Store.log]
  cases found : store.active chip with
  | error failure => rfl
  | ok segment =>
    obtain ⟨id, -, rfl⟩ := mounted.active_of_eq found
    simp only [firstRecord_eq (mounted.placed id), bind, Except.bind]
    rfl

theorem read_eq (mounted : store.Mounted chip) (capacity : Nat) :
    Device.read store chip parameter capacity = store.read chip parameter capacity := by
  rw [Device.read, Store.read, log_eq mounted]
  split
  · rfl
  cases found : store.log chip with
  | error failure => rfl
  | ok log =>
    have holds := mounted.log_eq_ok_iff.mp found
    simp only [bind, Except.bind]
    cases latest : log.latest? parameter with
    | none => rfl
    | some record =>
      have inside := holds.inside mounted (Log.mem_copies (List.mem_of_getLast? latest))
      have ahead := record.offset_lt_next
      have noWrap := mounted.onChip.noWrap
      have start : record.dataOffset < 0x100000000 := by
        simp only [Record.dataOffset]
        omega
      simp only [Attempt.fit_of_lt start, Attempt.slice_of_le (Nat.min_le_right _ capacity)]

theorem contains_eq (mounted : store.Mounted chip) :
    Device.contains store chip parameter = store.contains chip parameter := by
  rw [Device.contains, Store.contains, log_eq mounted]

theorem stats_eq (mounted : store.Mounted chip) : Device.stats store chip = store.stats chip := by
  rw [Device.stats, Store.stats]
  cases found : store.active chip with
  | error failure => rfl
  | ok segment =>
    obtain ⟨id, -, rfl⟩ := mounted.active_of_eq found
    simp only [firstRecord_eq (mounted.placed id), bind, Except.bind]

theorem forEachLive_eq {σ : Type} (mounted : store.Mounted chip) (visit : σ → Header → σ)
    (state : σ) : Device.forEachLive store chip visit state = store.forEachLive chip visit state := by
  rw [Device.forEachLive, Store.forEachLive]
  cases found : store.active chip with
  | error failure => rfl
  | ok segment =>
    obtain ⟨id, -, rfl⟩ := mounted.active_of_eq found
    simp only [firstRecord_eq (mounted.placed id)]

theorem clearSpare_eq (mounted : store.Mounted chip) (id : SegmentId) :
    clearSpare store (store.segment id) = store.clearSpare (store.segment id) := by
  have placed := mounted.placed id
  have room := placed.room
  have fits := placed.fits
  have size : ((store.segment id).trySize : Attempt StoreError Nat) = .ok (store.segment id).size :=
    Attempt.difference_of_le (by omega)
  have blank (other : Chip) : isBlank store other (store.segment id).start (store.segment id).size =
      store.isBlank other (store.segment id).start (store.segment id).size :=
    isBlank_eq (by simp only [Segment.size]; omega) other
  simp only [clearSpare, Store.clearSpare, size, Action.compute_ok_bind, blank,
    eraseSegment_eq mounted]

theorem reserve_eq (mounted : store.Mounted chip) (size : UInt16) :
    Device.reserve store chip size = store.reserve chip size := by
  rw [Device.reserve, Store.reserve, log_eq mounted]
  cases found : store.log chip with
  | error failure => rfl
  | ok log =>
    have holds := mounted.log_eq_ok_iff.mp found
    have bounds := holds.tail_le mounted
    have fits := (holds.placed mounted).fits
    simp (disch := omega) only [Attempt.difference_of_le, isBlank_eq, Log.free, bind, Except.bind]

section Migration

variable {source target : Segment} {progress : Progress} {record : Record}

/-- What is copied next begins at most the padding of one record behind the target. -/
theorem migrate_eq (noWrap : store.region.base + store.region.length < 0x100000000)
    (sourceFits : source.stop + 65542 < 0x100000000)
    (targetFits : target.stop + 65542 < 0x100000000)
    (bound : progress.writeAt ≤ target.stop + 3) :
    migrate store.region (copyRecord store.region target.stop) source progress =
      migrate store.region (store.copyRecord target.stop) source progress := by
  induction gap : source.stop - progress.position using Nat.strongRecOn generalizing progress with
  | ind left ih =>
    funext chip
    rcases found : recordAt store.region chip progress.position source.stop with
      failure | (_ | record)
    · rw [migrate_of_failure found, migrate_of_failure found]
    · rw [migrate_of_end found, migrate_of_end found]
    rw [migrate_step found, migrate_step found]
    have forward := position_lt_min_next found
    obtain ⟨start, room⟩ := recordAt_bounds found
    have four : headerSize = 4 := rfl
    have size := record.size.toNat_lt
    have step {writeAt : Nat} (copied : Nat) (below : writeAt ≤ target.stop + 3) :
        migrate store.region (copyRecord store.region target.stop) source
            ⟨min record.next source.stop, writeAt, copied⟩ =
          migrate store.region (store.copyRecord target.stop) source
            ⟨min record.next source.stop, writeAt, copied⟩ :=
      ih (source.stop - min record.next source.stop) (by omega) below rfl
    have copy := copyRecord_eq noWrap targetFits bound
      (show record.dataOffset + 65536 < 0x100000000 by simp only [Record.dataOffset]; omega)
    simp only [step progress.copied bound, copy]
    by_cases long : target.stop < progress.writeAt + headerSize + record.size.toNat
    · rw [Store.copyRecord_of_long (by omega) long]
      rfl
    · have next : (tryNextOffset progress.writeAt record.size : Attempt StoreError Nat) = _ :=
        tryNextOffset_eq (by omega)
      simp only [next, Action.compute_ok_bind,
        step _ (Store.nextOffset_le_of_room (Nat.le_of_not_lt long))]

theorem le_of_tryNextOffset {offset next : Nat} {size : UInt16}
    (found : (tryNextOffset offset size : Attempt StoreError Nat) = .ok next) : offset ≤ next := by
  by_cases fits : offset + headerSize + size.toNat + 4 < 0x100000000
  · rw [tryNextOffset_eq fits] at found
    cases found
    exact le_nextOffset offset size
  · simp [tryNextOffset, Attempt.fit, fits, bind, Except.bind] at found

/-- Migration never goes back. -/
theorem migrate_forward {copy : Record → Nat → Action StoreError Unit} {done : Progress}
    {after : Chip} (run : migrate region copy source progress chip = .ok done after) :
    progress.position ≤ done.position ∧ progress.writeAt ≤ done.writeAt := by
  induction gap : source.stop - progress.position using Nat.strongRecOn
    generalizing chip progress with
  | ind left ih =>
    rcases found : recordAt region chip progress.position source.stop with
      failure | (_ | record)
    · rw [migrate_of_failure found] at run
      cases run
    · rw [migrate_of_end found] at run
      cases run
      exact ⟨Nat.le_refl _, Nat.le_refl _⟩
    have forward := position_lt_min_next found
    have step {writeAt copied : Nat} {middle : Chip}
        (run : migrate region copy source ⟨min record.next source.stop, writeAt, copied⟩ middle =
          .ok done after) : progress.position ≤ done.position ∧ writeAt ≤ done.writeAt := by
      have later := ih (source.stop - min record.next source.stop) (by omega) run rfl
      exact ⟨Nat.le_trans (Nat.le_of_lt forward) later.1, later.2⟩
    rw [migrate_of_record found] at run
    split at run
    · split at run
      · exact step run
      · obtain ⟨_, _, -, run⟩ := Action.bind_eq_ok run
        obtain ⟨writeAt, _, placed, run⟩ := Action.bind_eq_ok run
        obtain ⟨copied, _, -, run⟩ := Action.bind_eq_ok run
        have ahead := le_of_tryNextOffset (Action.observe_eq_ok placed)
        exact ⟨(step run).1, Nat.le_trans ahead (step run).2⟩
      · cases run
    · exact step run

end Migration

theorem compact_eq (mounted : store.Mounted chip) :
    Device.compact store chip = store.compact chip := by
  rw [← Store.compactByRecord_eq mounted]
  refine Action.observe_bind_congr rfl fun source found => ?_
  obtain ⟨id, -, rfl⟩ := mounted.active_of_eq found
  have here := mounted.placed id
  have there := mounted.placed id.other
  refine congrFun (bind_congr fun inUse => ?_) chip
  simp only [Store.segment_id]
  split
  · rfl
  rw [clearSpare_eq mounted]
  refine bind_congr fun _ => ?_
  rw [firstRecord_eq here, firstRecord_eq there, Action.compute_ok_bind, Action.compute_ok_bind,
    migrate_eq mounted.onChip.noWrap here.fits there.fits
      (Nat.le_add_right_of_le there.firstRecord_le)]
  apply Action.bind_congr_of_ok
  intro before done after run
  obtain ⟨read, written⟩ := migrate_forward run
  have room : (store.segment id).start ≤ done.position :=
    Nat.le_trans (Nat.le_add_right _ magicSize) read
  have rest : (store.segment id.other).start ≤ done.writeAt :=
    Nat.le_trans (Nat.le_add_right _ magicSize) written
  rw [markInUse_eq mounted, eraseSegment_eq mounted, Attempt.difference_of_le room,
    Attempt.difference_of_le rest]
  simp only [Store.markInUse, Store.eraseSegment, Store.run, Command.runAll, bind_assoc, pure_bind,
    Action.compute_ok_bind]

theorem makeRoom_eq (mounted : store.Mounted chip) (size : UInt16) :
    Device.makeRoom store size chip = store.makeRoom size chip := by
  refine Action.observe_bind_congr rfl fun segment found => ?_
  obtain ⟨id, -, rfl⟩ := mounted.active_of_eq found
  rw [firstRecord_eq (mounted.placed id), Action.compute_ok_bind]
  refine Action.observe_bind_congr rfl fun next _ => ?_
  split
  · rfl
  · exact Action.bind_eq_of_eq (compact_eq mounted) _

section Burial

variable {position limit : Nat} {records : List Record} {record : Record}

theorem invalidateBefore_of_end (found : recordAt region chip position limit = .ok none) :
    invalidateBefore region parameter position limit chip = .ok () chip := by
  rw [invalidateBefore]
  grind

theorem invalidateBefore_of_record
    (found : recordAt region chip position limit = .ok (some record)) :
    invalidateBefore region parameter position limit chip =
      if record.parameter == parameter then
        (do
          invalidate region record
          invalidateBefore region parameter (min record.next limit) limit) chip
      else invalidateBefore region parameter (min record.next limit) limit chip := by
  rw [invalidateBefore]
  split
  · simp_all
  · simp_all
  next other same =>
    obtain rfl : other = record := by simpa [found] using same.symm
    rfl

/-- Killing a record leaves those behind it to be walked, so they may be killed on the way. -/
theorem invalidateBefore_eq (onChip : region.OnChip chip) (inside : limit ≤ region.length)
    (fits : limit + 65542 < 0x100000000) (even : position % 2 = 0)
    (linked : Linked chip.cell limit position records limit) :
    invalidateBefore region parameter position limit chip =
      Command.runAll region ((records.filter (·.parameter == parameter)).map Command.invalidate)
        chip := by
  have bound := linked.le
  induction records generalizing chip position with
  | nil =>
    obtain rfl : position = limit := linked
    exact invalidateBefore_of_end ((recordAt_eq_none_iff onChip inside fits bound).mpr
      (.inl (by simp only [headerSize]; omega)))
  | cons record rest ih =>
    obtain ⟨rfl, stands, linked⟩ := linked
    have found := (recordAt_eq_some_iff onChip inside fits bound).mpr ⟨rfl, stands⟩
    have next := record.offset_lt_next
    have aligned := nextOffset_mod record.offset record.size
    have later := linked.le
    simp only [headerSize] at next
    have evenNext : record.next % 2 = 0 := by
      simp only [Record.next]
      omega
    rw [invalidateBefore_of_record found, Nat.min_eq_left later]
    by_cases same : (record.parameter == parameter) = true
    case neg =>
      rw [if_neg same, List.filter_cons_of_neg (by simpa using same)]
      exact ih onChip evenNext linked later
    rw [if_pos same, List.filter_cons_of_pos (by simpa using same),
      invalidate_eq onChip.noWrap (by omega)]
    apply (Command.write_halfword_ensures tombstone onChip even (by omega) (.inr rfl)).bind_congr
    intro _ middle done
    obtain ⟨keeps, cells⟩ := done
    have behind : SameIn chip.cell middle.cell record.next limit :=
      (cells ▸ sameOutside_overlay chip.cell record.offset (halfwordBytes tombstone)).sameIn
        (.inr (by simp only [length_halfwordBytes]; omega))
    exact ih (onChip.keeps keeps) evenNext (linked.congr behind) later

end Burial

/-- The records of a log may be killed on the way of a walk up to its tail. -/
theorem bury_eq (mounted : store.Mounted chip) {cells : Nat → UInt8}
    (holds : store.Holds cells log) (same : SameIn cells chip.cell log.segment.firstRecord log.tail) :
    invalidateBefore store.region parameter log.segment.firstRecord log.tail chip =
      store.run ((log.copies parameter).map Command.invalidate) chip := by
  have placed := holds.placed mounted
  have bounds := holds.tail_le mounted
  have inside := placed.inside
  have fits := placed.fits
  have even := mounted.firstRecord_even log.segment.id
  rw [← holds.segment] at even
  exact invalidateBefore_eq mounted.onChip (by omega) (by omega) even
    (holds.linked.before_tail.congr same)

theorem append_eq (mounted : store.Mounted chip) (holds : store.Holds chip.cell log)
    (short : data.length ≤ maxPayload) (takes : log.Takes chip.cell (.ofNat data.length)) :
    Device.append store log parameter data chip =
      store.run (Command.append log parameter data) chip := by
  have noWrap := mounted.onChip.noWrap
  have placed := holds.placed mounted
  have bounds := holds.tail_le mounted
  have fits := placed.fits
  have start : (log.fresh parameter data).dataOffset + data.length < 0x100000000 := by
    simp only [maxPayload] at short
    simp only [Record.dataOffset, Log.fresh, headerSize]
    omega
  have field : (log.fresh parameter data).offset + 2 < 0x100000000 := by
    simp only [Log.fresh]
    omega
  have inscribed : (do
      payload store.region (log.fresh parameter data) data
      commit store.region (log.fresh parameter data)) =
      store.run (Command.payload (log.fresh parameter data).dataOffset data ++
        Command.commit (log.fresh parameter data)) := by
    rw [payload_eq noWrap start, commit_eq noWrap field, Store.run, Command.runAll_append]
  have plan : store.run (Command.append log parameter data) = (do
      store.run (Command.payload (log.fresh parameter data).dataOffset data ++
        Command.commit (log.fresh parameter data))
      store.run ((log.copies parameter).map Command.invalidate)) :=
    Command.runAll_append store.region _ _
  have ready : store.Ready chip.cell log (entriesIn chip.cell log.records) :=
    ⟨holds, rfl, takes.blank⟩
  rw [Device.append, ← bind_assoc, inscribed, plan, firstRecord_eq placed, Action.compute_ok_bind]
  apply (Store.inscribe_fresh_cases mounted ready short takes.fits).bind_congr
  intro _ middle done
  obtain ⟨keeps, cells⟩ := done
  have before : SameIn chip.cell middle.cell log.segment.firstRecord log.tail :=
    (cells ▸ sameOutside_inscribe chip.cell (log.fresh parameter data) (padded data)).sameIn
      (.inl (Nat.le_refl _))
  split
  · exact bury_eq (mounted.keeps keeps) holds before
  next absent =>
    have none : log.copies parameter = [] := by simpa [Log.latest?] using absent
    rw [none]
    rfl

theorem remove_eq (mounted : store.Mounted chip) :
    Device.remove store parameter chip = store.remove parameter chip := by
  rw [Device.remove, Store.remove]
  split
  · rfl
  refine Action.observe_bind_congr (log_eq mounted) fun log found => ?_
  have holds := mounted.log_eq_ok_iff.mp found
  have none : (log.latest? parameter).isNone = (log.copies parameter).isEmpty := by
    rw [Log.latest?]
    cases log.copies parameter <;> simp
  rw [none]
  split
  · rfl
  · rw [firstRecord_eq (holds.placed mounted), Action.compute_ok_bind]
    exact bury_eq mounted holds fun _ _ _ => rfl

/-- Where a record may go, it goes in the same way. -/
theorem append_reserved_eq (mounted : store.Mounted chip) (short : data.length ≤ maxPayload)
    (reserved : store.reserve chip (.ofNat data.length) = .ok (some log)) :
    Device.append store log parameter data chip =
      store.run (Command.append log parameter data) chip := by
  rcases mounted.log_cases with ⟨known, holds⟩ | ⟨cause, failed, -⟩
  · rcases Store.reserve_spec mounted holds short with ⟨found, takes⟩ | ⟨found, -⟩
    · obtain rfl : known = log := by simpa [reserved] using found.symm
      exact append_eq mounted holds short takes
    · simp [reserved] at found
  · simp [Store.reserve, failed, bind, Except.bind, Attempt.fail] at reserved

/-- Both reserve the same room, and have to agree on what they do without. -/
theorem reserved_eq (mounted : store.Mounted chip) (short : data.length ≤ maxPayload)
    {next other : Option Log → Action StoreError Unit}
    (appends : ∀ log, next (some log) = Device.append store log parameter data)
    (plans : ∀ log, other (some log) = store.run (Command.append log parameter data))
    (full : next none chip = other none chip) :
    (Action.observe (Device.reserve store · (.ofNat data.length)) >>= next) chip =
      (Action.observe (store.reserve · (.ofNat data.length)) >>= other) chip := by
  refine Action.observe_bind_congr (reserve_eq mounted _) fun answer reserved => ?_
  cases answer with
  | none => exact full
  | some log =>
    rw [appends, plans]
    exact append_reserved_eq mounted short reserved

theorem write_eq (mounted : store.Mounted chip) :
    Device.write store parameter data chip = store.write parameter data chip := by
  rw [Device.write, Store.write]
  split
  · rfl
  split
  · rfl
  next notLong =>
    have short := Nat.le_of_not_lt notLong
    refine reserved_eq mounted short (fun _ => rfl) (fun _ => rfl) ?_
    refine (Action.bind_eq_of_eq (makeRoom_eq mounted _) _).trans ?_
    have room := Store.makeRoom_confined mounted short fun _ _ _ _ => Store.compact_confined mounted
    apply Action.Ensures.bind_congr room
    intro _ middle confined
    exact reserved_eq (mounted.keeps confined.keeps) short (fun _ => rfl) (fun _ => rfl) rfl

theorem recoverSpare_eq (mounted : store.Mounted chip) (id : SegmentId) :
    Device.recoverSpare store id = store.recoverSpare id := by
  rw [Device.recoverSpare, Store.recoverSpare, clearSpare_eq mounted]

theorem recover_eq (mounted : store.Mounted chip) : Device.recover store = store.recover := by
  refine bind_congr fun first => bind_congr fun second => ?_
  cases first with
  | false =>
    cases second with
    | false => rfl
    | true => exact recoverSpare_eq mounted .a
  | true =>
    cases second with
    | false => exact recoverSpare_eq mounted .b
    | true => exact congrArg (· >>= _) (eraseSegment_eq mounted .b)

theorem format_eq (mounted : store.Mounted chip) : Device.format store = store.format := by
  simp [Device.format, Store.format, eraseSegment_eq mounted, markInUse_eq mounted, Store.run,
    Store.markInUse, Store.eraseSegment, Command.runAll]

end Equalities

end Device

namespace Store

variable {store : Store} {chip : Chip} {α : Type}

/-- With all registers checked the call comes to what it comes to without, no check fails, and the
store stays mounted. -/
structure FitsRegisters (store : Store) (checked action : Action StoreError α) (chip : Chip) :
    Prop where
  same : checked chip = action chip
  fits : checked.outcome chip ≠ .error .overflow
  mounted : store.Mounted (checked.after chip)

theorem Mounted.fitsRegisters {checked action : Action StoreError α} (mounted : store.Mounted chip)
    (stays : action.StaysIn chip 0 store.layout.totalSize) (same : checked chip = action chip) :
    store.FitsRegisters checked action chip := by
  have outcome : checked.outcome chip = action.outcome chip := by
    simp only [Action.outcome, same]
  have after : checked.after chip = action.after chip := by
    simp only [Action.after, same]
  exact ⟨same, outcome ▸ Action.Ensures.outcome_ne_overflow stays,
    after ▸ mounted.keeps stays.after.keeps⟩

theorem Mounted.fitsRegisters_observe {checked question : Chip → Attempt StoreError α}
    (mounted : store.Mounted chip) (fits : question chip ≠ .error .overflow)
    (same : checked chip = question chip) :
    store.FitsRegisters (.observe checked) (.observe question) chip := by
  refine ⟨by simp only [Action.observe, same], ?_, ?_⟩
  · rwa [Action.outcome_observe, same]
  · rwa [Action.after_observe]

/-- All calls fit the registers, whatever they are asked for. Only to count records, segments must not
be longer than 256 KiB. -/
structure OverflowFree (store : Store) (chip : Chip) : Prop where
  read : ∀ parameter capacity, store.FitsRegisters (.observe (Device.read store · parameter capacity))
    (.observe (store.read · parameter capacity)) chip
  contains : ∀ parameter, store.FitsRegisters (.observe (Device.contains store · parameter))
    (.observe (store.contains · parameter)) chip
  write : ∀ parameter data,
    store.FitsRegisters (Device.write store parameter data) (store.write parameter data) chip
  remove : ∀ parameter,
    store.FitsRegisters (Device.remove store parameter) (store.remove parameter) chip
  visit : ∀ {σ : Type} (visit : σ → Header → σ) (state : σ),
    Device.forEachLive store chip visit state = store.forEachLive chip visit state ∧
      (Device.forEachLive store chip visit state).2 ≠ .error .overflow
  compact : store.FitsRegisters (Device.compact store) store.compact chip
  recover : store.FitsRegisters (Device.recover store) store.recover chip
  format : store.FitsRegisters (Device.format store) store.format chip
  stats : store.layout.segmentSize ≤ 0x40000 →
    store.FitsRegisters (.observe (Device.stats store)) (.observe store.stats) chip

/-- With anything in the cells of its chip and any faults of it, a mounted store is free of overflow.
In particular the half-word that counts what a compaction has copied suffices for any segment. -/
theorem mounted_overflowFree (mounted : store.Mounted chip) : store.OverflowFree chip where
  read parameter capacity := mounted.fitsRegisters_observe
    (mounted.read_ne_overflow parameter capacity) (Device.read_eq mounted capacity)
  contains parameter := mounted.fitsRegisters_observe (mounted.contains_ne_overflow parameter)
    (Device.contains_eq mounted)
  write parameter data := mounted.fitsRegisters (mounted.write_staysIn parameter data)
    (Device.write_eq mounted)
  remove parameter := mounted.fitsRegisters (mounted.remove_staysIn parameter)
    (Device.remove_eq mounted)
  visit visit state := by
    have same := Device.forEachLive_eq mounted visit state
    exact ⟨same, same ▸ mounted.forEachLive_ne_overflow visit state⟩
  compact := mounted.fitsRegisters mounted.compact_staysIn (Device.compact_eq mounted)
  recover := mounted.fitsRegisters mounted.recover_staysIn (congrFun (Device.recover_eq mounted) chip)
  format := mounted.fitsRegisters mounted.format_staysIn (congrFun (Device.format_eq mounted) chip)
  stats small := mounted.fitsRegisters_observe (mounted.stats_ne_overflow small)
    (Device.stats_eq mounted)

/-- The last place for a store, of which the longest record would still end below the last address. -/
def brink : Store := ⟨⟨0xFFFEFFB9, 64⟩, ⟨32⟩⟩

/-- A header that promises the longest record, in a segment that has no room for it, and a chip with
every fault. -/
def brinkChip : Chip where
  base := 0xFFFEFFB9
  pageSize := 16
  memory := #[0xA5, 0x5A, 7, 0, 1, 0, 0x11, 0xFF, 9, 0, 0xFE, 0xFF] ++ Array.replicate 52 7
  faults := { writeProtected := 2, powerBudget := some 3, stuckBusy := true, corruptNext := true }

theorem mounted_overflowFree_brink : brink.Mounted brinkChip ∧ brink.OverflowFree brinkChip := by
  have mounted : brink.Mounted brinkChip := ⟨rfl, by decide, rfl, by decide, by decide⟩
  exact ⟨mounted, mounted_overflowFree mounted⟩

end Store

end ParamStore
