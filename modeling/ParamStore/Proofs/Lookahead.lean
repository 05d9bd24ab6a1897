import ParamStore.Proofs.LiveRecords
import ParamStore.Proofs.Restart
import Mathlib.Data.Fintype.Card

/-! Compaction record by record. A device has no room for a list of records: it walks the log once,
looks ahead from each live record for a later one of its parameter, and copies the record before it
walks on. Looking ahead stops at the first later record, so it may miss that the log is corrupt
behind that one; yet nothing of a corrupt log is copied, since the last record of any parameter is
copied only after the rest has been walked. Nor does copying disturb what is still to be walked.
So this comes to the same as reading the whole log first. -/
namespace ParamStore

/-- How far a compaction has come: what it reads next, where it writes, and what it has copied. -/
structure Progress where
  position : Nat
  writeAt : Nat
  copied : Nat
  deriving DecidableEq, Repr

/-- Copy the records from `progress.position` on that have no later copy, each by `copy` to where the
one before it ended. -/
def migrate (region : Region) (copy : Record → Nat → Action StoreError Unit) (source : Segment)
    (progress : Progress) : Action StoreError Progress := fun chip =>
  match found : recordAt region chip progress.position source.stop with
  | .error failure => .error failure chip
  | .ok none => .ok progress chip
  | .ok (some record) =>
    have := position_lt_min_next found
    let position := min record.next source.stop
    let passed : Action StoreError Progress := migrate region copy source { progress with position }
    let superseded (chip : Chip) : Attempt StoreError Bool :=
      hasLaterCopy region chip record.parameter record.next source.stop
    let action : Action StoreError Progress := do
      if !record.isLive then passed
      else if ← Action.observe superseded then passed
      else
        copy record progress.writeAt
        let writeAt ← Action.observe fun _ => tryNextOffset progress.writeAt record.size
        let copied ← Action.observe fun _ => .fitHalfword (progress.copied + 1)
        migrate region copy source ⟨position, writeAt, copied⟩
    action chip
termination_by source.stop - progress.position

def Store.compactByRecord (store : Store) : Action StoreError Migration := do
  let source ← Action.observe store.active
  let target := store.segment source.id.other
  if ← Action.observe (store.isInUse · target.id) then .fail .targetInUse
  else
    let _ ← store.clearSpare target
    let done ← migrate store.region (store.copyRecord target.stop) source
      ⟨source.firstRecord, target.firstRecord, 0⟩
    store.run [store.markCommand target.id, store.eraseCommand source.id]
    return {
      source := source.id
      target := target.id
      copied := done.copied
      reclaimed := done.position - source.start - (done.writeAt - target.start) }

variable {region : Region} {chip : Chip} {parameter : UInt16} {position stop : Nat}

/-- Looking ahead on a log that cannot be walked finds a later copy or meets what is broken. -/
theorem hasLaterCopy_of_broken {failure : Failure StoreError} (parameter : UInt16)
    (broken : (walk region chip position stop).ending = .error failure) :
    hasLaterCopy region chip parameter position stop = .ok true ∨
      hasLaterCopy region chip parameter position stop = .error failure := by
  rw [hasLaterCopy_eq]
  split
  · exact .inl rfl
  · rw [broken]
    exact .inr rfl

theorem hasLaterCopy_of_linked {records : List Record} {tail : Nat}
    (onChip : region.OnChip chip) (inside : stop ≤ region.length)
    (fits : stop + 65542 < 0x100000000) (aligned : stop % 4 = 0) (bound : position ≤ stop)
    (linked : Linked chip.cell stop position records tail) (ends : EndsAt chip.cell stop tail)
    (parameter : UInt16) :
    hasLaterCopy region chip parameter position stop =
      .ok (records.any (·.parameter == parameter)) := by
  rw [hasLaterCopy_eq, walk_of_linked onChip inside fits aligned bound linked ends]
  cases records.any (·.parameter == parameter) <;> rfl

section Migration

variable {copy : Record → Nat → Action StoreError Unit} {source : Segment} {progress : Progress}
  {record : Record}

theorem migrate_of_end (found : recordAt region chip progress.position source.stop = .ok none) :
    migrate region copy source progress chip = .ok progress chip := by
  rw [migrate]
  grind

theorem migrate_of_failure {failure : Failure StoreError}
    (found : recordAt region chip progress.position source.stop = .error failure) :
    migrate region copy source progress chip = .error failure chip := by
  rw [migrate]
  grind

/-- What is done with a record that was found. -/
theorem migrate_step
    (found : recordAt region chip progress.position source.stop = .ok (some record)) :
    migrate region copy source progress chip =
      (do
        if !record.isLive then
          migrate region copy source { progress with position := min record.next source.stop }
        else if ← Action.observe fun chip =>
            hasLaterCopy region chip record.parameter record.next source.stop then
          migrate region copy source { progress with position := min record.next source.stop }
        else
          copy record progress.writeAt
          let writeAt ← Action.observe fun _ => tryNextOffset progress.writeAt record.size
          let copied ← Action.observe fun _ => .fitHalfword (progress.copied + 1)
          migrate region copy source ⟨min record.next source.stop, writeAt, copied⟩ :
            Action StoreError Progress) chip := by
  rw [migrate]
  split
  · simp_all
  · simp_all
  next other same =>
    obtain rfl : other = record := by simpa [found] using same.symm
    rfl

theorem migrate_of_record
    (found : recordAt region chip progress.position source.stop = .ok (some record)) :
    migrate region copy source progress chip =
      if record.isLive then
        match hasLaterCopy region chip record.parameter record.next source.stop with
        | .ok true =>
          migrate region copy source { progress with position := min record.next source.stop } chip
        | .ok false =>
          (do
            copy record progress.writeAt
            let writeAt ← Action.observe fun _ => tryNextOffset progress.writeAt record.size
            let copied ← Action.observe fun _ => .fitHalfword (progress.copied + 1)
            migrate region copy source ⟨min record.next source.stop, writeAt, copied⟩ :
              Action StoreError Progress) chip
        | .error failure => .error failure chip
      else
        migrate region copy source { progress with position := min record.next source.stop }
          chip := by
  rw [migrate_step found]
  cases record.isLive with
  | false => rfl
  | true =>
    simp only [Bool.not_true, Bool.false_eq_true, if_false, if_true, bind, EStateM.bind,
      Action.observe]
    rcases hasLaterCopy region chip record.parameter record.next source.stop with
      _ | (_ | _) <;> rfl

/-- Nothing is copied out of a log that cannot be walked. -/
theorem migrate_of_broken {failure : Failure StoreError} (onChip : region.OnChip chip)
    (inside : source.stop ≤ region.length) (fits : source.stop + 65542 < 0x100000000)
    (aligned : source.stop % 4 = 0) (bound : position ≤ source.stop) (writeAt copied : Nat)
    (broken : (walk region chip position source.stop).ending = .error failure) :
    migrate region copy source ⟨position, writeAt, copied⟩ chip = .error failure chip := by
  fun_induction walk region chip position source.stop with
  | case1 position record found forward rest ih =>
    have stands := ((recordAt_eq_some_iff onChip inside fits bound).mp found).2
    have next : min record.next source.stop = record.next :=
      Nat.min_eq_left ((nextOffset_le_iff aligned).mpr stands.inside)
    have failed := ih (by omega) broken
    have behind : (walk region chip record.next source.stop).ending = .error failure := by
      rwa [← next]
    have ahead := hasLaterCopy_of_broken record.parameter behind
    rw [migrate_of_record found]
    cases record.isLive with
    | false => exact failed
    | true =>
      rw [if_pos rfl]
      rcases ahead with seen | reported
      · rw [seen]
        exact failed
      · rw [reported]
  | case2 position found => cases broken
  | case3 position reported found =>
    cases broken
    exact migrate_of_failure found

end Migration

namespace Store

variable {store : Store} {source target : Segment} {progress : Progress}

/-- The records are still to be read, and there is erased room for those that are to be copied, away
from what is still to be read. -/
structure Pending (store : Store) (source target : Segment) (chip : Chip) (progress : Progress)
    (records : List Record) (tail : Nat) : Prop where
  onChip : store.region.OnChip chip
  linked : Linked chip.cell source.stop progress.position records tail
  ends : EndsAt chip.cell source.stop tail
  even : progress.position % 2 = 0 ∧ progress.writeAt % 2 = 0
  bound : progress.position ≤ source.stop
  apart : source.stop ≤ progress.writeAt ∨ target.stop ≤ progress.position
  room : packedEnd progress.writeAt (sizesOf (survivors records)) ≤ target.stop
  blank : Blank chip.cell progress.writeAt target.stop
  counted : progress.copied + (survivors records).length < 0x10000

variable {pageSize tail : Nat} {record : Record} {records rest : List Record}

theorem Pending.next_le (pending : store.Pending source target chip progress (record :: rest) tail)
    (aligned : source.stop % 4 = 0) :
    progress.position ≤ record.next ∧ record.next ≤ source.stop ∧ record.next % 2 = 0 := by
  obtain ⟨start, stands, -⟩ := pending.linked
  have := record.offset_lt_next
  have := nextOffset_mod record.offset record.size
  refine ⟨by omega, (nextOffset_le_iff aligned).mpr stands.inside, ?_⟩
  simp only [Record.next]
  omega

theorem Pending.pass (pending : store.Pending source target chip progress (record :: rest) tail)
    (aligned : source.stop % 4 = 0) (dropped : survivors (record :: rest) = survivors rest) :
    store.Pending source target chip { progress with position := record.next } rest tail := by
  obtain ⟨forward, bound, even⟩ := pending.next_le aligned
  have apart := pending.apart
  exact ⟨pending.onChip, pending.linked.2.2, pending.ends, ⟨even, pending.even.2⟩, bound,
    by simp only; omega, dropped ▸ pending.room, pending.blank, dropped ▸ pending.counted⟩

theorem Pending.copy {middle : Chip}
    (pending : store.Pending source target chip progress (record :: rest) tail)
    (aligned : source.stop % 4 = 0) (kept : survivors (record :: rest) = record :: survivors rest)
    (keeps : chip.Keeps middle) (outside : SameOutside chip.cell middle.cell progress.writeAt
      (nextOffset progress.writeAt record.size)) :
    store.Pending source target middle
      ⟨record.next, nextOffset progress.writeAt record.size, progress.copied + 1⟩ rest tail := by
  obtain ⟨forward, bound, even⟩ := pending.next_le aligned
  have apart := pending.apart
  have room : packedEnd (nextOffset progress.writeAt record.size) (sizesOf (survivors rest)) ≤
      target.stop := by
    have whole := pending.room
    rwa [kept] at whole
  have first := Nat.le_trans (le_packedEnd _ _) room
  have ahead := le_nextOffset progress.writeAt record.size
  have unread : SameIn chip.cell middle.cell record.next source.stop := outside.sameIn (by omega)
  have linked := pending.linked.2.2
  have last := linked.tail_le aligned bound
  refine ⟨pending.onChip.keeps keeps, linked.congr (unread.mono (Nat.le_refl _) last),
    pending.ends.congr_within (unread.mono linked.le (Nat.min_le_right _ _)), ⟨even, ?_⟩, bound,
    by simp only; omega, room, ?_, ?_⟩
  · have := nextOffset_mod progress.writeAt record.size
    simp only
    omega
  · exact (pending.blank.mono ahead (Nat.le_refl _)).congr (outside.sameIn (.inr (Nat.le_refl _)))
  · have counted := pending.counted
    rw [kept, List.length_cons] at counted
    simp only
    omega

/-- Going from record to record comes to the same as packing the records that survive. -/
theorem Pending.migrate_eq (pending : store.Pending source target chip progress records tail)
    (here : Placed source store.region pageSize) (there : Placed target store.region pageSize) :
    migrate store.region (store.copyRecord target.stop) source progress chip =
      (do
        let ending ← store.pack target.stop (survivors records) progress.writeAt
        return ⟨tail, ending, progress.copied + (survivors records).length⟩ :
          Action StoreError Progress) chip := by
  induction records generalizing chip progress with
  | nil =>
    obtain rfl : progress.position = tail := pending.linked
    exact migrate_of_end ((recordAt_eq_none_iff pending.onChip here.inside here.fits
      pending.bound).mpr pending.ends)
  | cons record rest ih =>
    obtain ⟨start, stands, linked⟩ := pending.linked
    obtain ⟨forward, bound, -⟩ := pending.next_le here.stopWord
    have found := (recordAt_eq_some_iff pending.onChip here.inside here.fits pending.bound).mpr
      ⟨start, stands⟩
    have ahead := hasLaterCopy_of_linked pending.onChip here.inside here.fits here.stopWord bound
      linked pending.ends record.parameter
    rw [migrate_of_record found, Nat.min_eq_left bound, ahead]
    by_cases kept : record.isLive = true ∧ rest.all (·.parameter != record.parameter) = true
    · have survives : survivors (record :: rest) = record :: survivors rest := if_pos kept
      have fresh : rest.any (·.parameter == record.parameter) = false := by
        simpa using kept.2
      rw [if_pos kept.1, fresh, survives]
      have apart := pending.apart
      have inside := here.inside
      have even := pending.even
      have room : nextOffset progress.writeAt record.size ≤ target.stop := by
        have whole := pending.room
        rw [survives] at whole
        exact Nat.le_trans (le_packedEnd _ (sizesOf (survivors rest))) whole
      have small := dataEnd_le_nextOffset progress.writeAt record.size
      have counted := pending.counted
      have fits := there.fits
      rw [survives, List.length_cons] at counted
      simp only [pack, bind_assoc]
      apply (copyRecord_ensures pending.onChip even.2 there.inside fits room
        (pending.blank.mono (Nat.le_refl _) room) (by omega) (by omega) (by omega)).bind_congr
      intro _ middle done
      obtain ⟨keeps, cells⟩ := done
      have outside : SameOutside chip.cell middle.cell progress.writeAt
          (nextOffset progress.writeAt record.size) := cells ▸ sameOutside_copy chip.cell record even.2
      have next : (tryNextOffset progress.writeAt record.size : Attempt StoreError Nat) = _ :=
        tryNextOffset_eq (by omega)
      have count : (.fitHalfword (progress.copied + 1) : Attempt StoreError Nat) = _ :=
        if_pos (by omega)
      refine (Action.observe_bind_eq next).trans ?_
      refine (Action.observe_bind_eq count).trans (Eq.trans ?_ (Action.observe_bind_eq next).symm)
      rw [ih (pending.copy here.stopWord survives keeps outside)]
      simp only [List.length_cons, Nat.add_assoc, Nat.add_comm 1]
    · have dropped : survivors (record :: rest) = survivors rest := if_neg kept
      have passed := ih (pending.pass here.stopWord dropped)
      rw [dropped]
      cases live : record.isLive with
      | false => exact passed
      | true =>
        have seen : rest.any (·.parameter == record.parameter) = true := by
          simpa [live] using kept
        rw [seen]
        exact passed

/-- There are not more live records than ids, so a half-word counts them. -/
theorem Holds.length_survivors {cells : Nat → UInt8} {log : Log} (holds : store.Holds cells log) :
    (survivors log.records).length < 0x10000 := by
  have reserved : tombstone ∉ log.lasts.map (·.parameter) := by
    intro member
    obtain ⟨record, kept, dead⟩ := List.mem_map.mp member
    have live := (Log.isLive_of_mem_lasts kept).1
    simp [Header.isLive, isValidParameter, dead] at live
  have distinct := (List.nodup_cons.mpr ⟨reserved, holds.lasts_unique⟩).map
    (f := UInt16.toFin) fun _ _ same => UInt16.toFin_inj.mp same
  have bound := distinct.length_le_card
  simp only [List.length_map, List.length_cons, Fintype.card_fin, UInt16.size] at bound
  rw [holds.survivors_eq]
  omega

/-- Once the other segment is erased, the log may be read while it is copied. -/
theorem Holds.pending {log : Log} (holds : store.Holds chip.cell log)
    (mounted : store.Mounted chip)
    (blank : Blank chip.cell (store.spare log).start (store.spare log).stop) :
    store.Pending log.segment (store.spare log) chip
      ⟨log.segment.firstRecord, (store.spare log).firstRecord, 0⟩ log.records log.tail := by
  have here := holds.placed mounted
  have apart := holds.apart
  obtain ⟨-, -, room⟩ := holds.relocated_used mounted
  have even := mounted.firstRecord_even log.segment.id
  have start : (store.spare log).start ≤ (store.spare log).firstRecord := Nat.le_add_right _ _
  rw [← holds.segment] at even
  refine ⟨mounted.onChip, holds.linked, holds.ends, ⟨even, mounted.firstRecord_even _⟩,
    here.firstRecord_le, ?_, room, blank.mono start (Nat.le_refl _), ?_⟩
  · simp only [spare, Segment.firstRecord] at apart ⊢
    omega
  · simpa using holds.length_survivors

/-- Whatever the chip holds and however it fails, both ways to compact come to the same. -/
theorem compactByRecord_eq (mounted : store.Mounted chip) :
    store.compactByRecord chip = store.compact chip := by
  rcases store.active_or_unused chip.cell with ⟨id, active⟩ | unused
  case inr =>
    have lost := mounted.active_of_unused unused
    simp only [compactByRecord, compact, bind, EStateM.bind, Action.observe, lost, Attempt.fail]
  have found := mounted.active_eq active
  refine (Action.observe_bind_eq found).trans (Eq.trans ?_ (Action.observe_bind_eq found).symm)
  have marked := mounted.isInUse_eq (store.segment (store.segment id).id.other).id
  refine (Action.observe_bind_eq marked).trans (Eq.trans ?_ (Action.observe_bind_eq marked).symm)
  simp only [segment_id]
  split
  · rfl
  apply (store.clearSpare_ensures mounted id.other).bind_congr
  intro dirty cleared done
  obtain ⟨keeps, erased, -, -⟩ := done
  have still := mounted.keeps keeps
  have placed := still.placed id
  rcases walk_ending_cases still.onChip placed.inside placed.fits placed.firstRecord_le with
    ⟨tail, ended⟩ | broken
  · obtain ⟨linked, ends⟩ := linked_of_walk still.onChip placed.inside placed.fits placed.stopWord
      placed.firstRecord_le ended
    have counts := active.congr_partly mounted (erased ▸ partlyErased_wipe mounted _ _)
    have holds : store.Holds cleared.cell ⟨store.segment id, _, tail⟩ :=
      ⟨by simp, by simpa using counts, linked, ends⟩
    have blank : Blank cleared.cell (store.segment id.other).start (store.segment id.other).stop :=
      erased ▸ blank_wipe _ _ _
    have pending := holds.pending still (by simpa [spare] using blank)
    have stepped := pending.migrate_eq placed (still.placed _)
    refine Eq.trans ?_ (Action.observe_bind_eq (still.logRead_eq holds)).symm
    simp only [spare, segment_id] at stepped
    refine (Action.bind_eq_of_eq stepped _).trans ?_
    simp only [bind_assoc, pure_bind, Nat.zero_add]
    rfl
  · have stopped : migrate store.region (store.copyRecord (store.segment id.other).stop)
        (store.segment id) ⟨_, (store.segment id.other).firstRecord, 0⟩ cleared =
          .error (.error .corrupt) cleared :=
      migrate_of_broken still.onChip placed.inside placed.fits placed.stopWord
        placed.firstRecord_le _ _ broken
    have unread : Log.read store.region cleared (store.segment id) = .fail .corrupt := by
      simp only [Log.read, broken, bind, Except.bind, Attempt.fail]
    simp only [bind, EStateM.bind, stopped, Action.observe, unread, Attempt.fail]

end Store

end ParamStore
