import Mathlib.Data.List.Chain
import ParamStore.Proofs.Linked

/-! A cursor that is called again and again. How far a call goes is told by bytes that nothing vouches
for, so it rests on the checks of each single call that a walk comes to an end and stays in its bounds.
The flash may be another at every call, as it is where records are killed while they are walked over. -/
namespace ParamStore

variable {region other : Region} {chip memory : Chip} {flash memories : Nat → Chip}
  {position start stop call : Nat} {record : Record} {records : List Record}

theorem Spaced.chain (spaced : Spaced stop position records) :
    records.IsChain fun previous next => next.offset = previous.next := by
  induction records generalizing position with
  | nil => exact .nil
  | cons head rest ih =>
    obtain ⟨-, -, spaced⟩ := spaced
    cases rest with
    | nil => exact .singleton head
    | cons second rest => exact .cons_cons spaced.1 (ih spaced)

theorem Spaced.aligned (spaced : Spaced stop position records) (aligned : position % 4 = 0)
    (member : record ∈ records) : record.offset % 4 = 0 := by
  induction records generalizing position with
  | nil => simp at member
  | cons head rest ih =>
    obtain ⟨rfl, -, spaced⟩ := spaced
    rcases List.mem_cons.mp member with rfl | member
    · exact aligned
    · exact ih spaced (nextOffset_mod _ _) member

theorem Spaced.tail_aligned (spaced : Spaced stop position records) :
    ∀ record ∈ records.tail, record.offset % 4 = 0 := by
  intro record member
  cases records with
  | nil => simp at member
  | cons head rest => exact spaced.2.2.aligned (nextOffset_mod _ _) member

theorem Record.Sound.room (sound : record.Sound stop) : record.offset + headerSize ≤ stop := by
  have inside := sound.inside
  simp only [Record.dataEnd, Record.dataOffset] at inside
  omega

/-- Records take up at least their headers. -/
theorem Spaced.length_le (spaced : Spaced stop position records) :
    headerSize * records.length ≤ stop - position := by
  induction records generalizing position with
  | nil => exact Nat.zero_le _
  | cons head rest ih =>
    obtain ⟨rfl, sound, spaced⟩ := spaced
    have behind := ih spaced
    have forward := head.offset_lt_next
    have room := sound.room
    rw [List.length_cons, Nat.mul_succ]
    omega

/-- No record starts at the end, so none follows one whose padding is cut off. -/
theorem Spaced.of_min (spaced : Spaced stop (min position stop) records) :
    Spaced stop position records := by
  cases records with
  | nil => trivial
  | cons head rest =>
    obtain ⟨place, sound, spaced⟩ := spaced
    have room := sound.room
    simp only [headerSize] at room
    exact ⟨by omega, sound, spaced⟩

namespace Cursor

variable {cursor next : Cursor}

theorem advance_of_done (done : cursor.done = true) :
    cursor.advance region chip = (.ok none, cursor) := if_pos done

theorem advance_of_record (found : recordAt region chip position stop = .ok (some record)) :
    advance ⟨position, stop, false⟩ region chip =
      (.ok (some record), ⟨min record.next stop, stop, false⟩) := by
  simp [advance, found]

theorem advance_of_end (ended : recordAt region chip position stop = .ok none ∨
      recordAt region chip position stop = .fail .corrupt) :
    advance ⟨position, stop, false⟩ region chip =
      (recordAt region chip position stop, ⟨position, stop, true⟩) := by
  rcases ended with ended | ended <;> simp [advance, ended, Attempt.fail]

/-- The cursor stands somewhere from `start` to `stop`, where it has to end. -/
structure Between (cursor : Cursor) (start stop : Nat) : Prop where
  stop_eq : cursor.stop = stop
  start_le : start ≤ cursor.position
  le_stop : cursor.position ≤ stop

theorem Between.advance (between : cursor.Between start stop) (region : Region) (chip : Chip) :
    (cursor.advance region chip).2.Between start stop := by
  obtain ⟨rfl, above, below⟩ := between
  simp only [Cursor.advance]
  split
  next => exact ⟨rfl, above, below⟩
  next =>
    split
    next record found =>
      have forward := position_lt_min_next found
      exact ⟨rfl, by simp only; omega, Nat.min_le_right _ _⟩
    all_goals exact ⟨rfl, above, below⟩

theorem Between.advance_congr (between : cursor.Between start stop)
    (same : SameHeaders region other chip memory start stop) :
    cursor.advance other memory = cursor.advance region chip := by
  obtain ⟨rfl, above, -⟩ := between
  simp only [Cursor.advance, recordAt_congr (same cursor.position above)]

/-- The cursor after so many calls, of which each finds the flash as it is then. -/
def after (cursor : Cursor) (region : Region) (flash : Nat → Chip) : Nat → Cursor
  | 0 => cursor
  | call + 1 => ((cursor.after region flash call).advance region (flash call)).2

/-- What a call returns; the first has number zero. -/
def answer (cursor : Cursor) (region : Region) (flash : Nat → Chip) (call : Nat) :
    Attempt StoreError (Option Record) :=
  ((cursor.after region flash call).advance region (flash call)).1

theorem Between.after (between : cursor.Between start stop) (region : Region) (flash : Nat → Chip)
    (call : Nat) : (cursor.after region flash call).Between start stop := by
  induction call with
  | zero => exact between
  | succ call ih => exact ih.advance region (flash call)

theorem Between.after_congr (between : cursor.Between start stop)
    (same : ∀ call, SameHeaders region other (flash call) (memories call) start stop)
    (call : Nat) : cursor.after other memories call = cursor.after region flash call := by
  induction call with
  | zero => rfl
  | succ call ih =>
    rw [Cursor.after, ih, (between.after region flash call).advance_congr (same call)]
    rfl

theorem Between.answer_congr (between : cursor.Between start stop)
    (same : ∀ call, SameHeaders region other (flash call) (memories call) start stop)
    (call : Nat) : cursor.answer other memories call = cursor.answer region flash call := by
  rw [answer, between.after_congr same,
    (between.after region flash call).advance_congr (same call)]
  rfl

theorem after_succ (cursor : Cursor) (region : Region) (flash : Nat → Chip) (call : Nat) :
    cursor.after region flash (call + 1) =
      (cursor.advance region (flash 0)).2.after region (fun later => flash (later + 1)) call := by
  induction call with
  | zero => rfl
  | succ call ih =>
    rw [after, ih]
    rfl

theorem answer_succ (cursor : Cursor) (region : Region) (flash : Nat → Chip) (call : Nat) :
    cursor.answer region flash (call + 1) =
      (cursor.advance region (flash 0)).2.answer region (fun later => flash (later + 1)) call := by
  rw [answer, after_succ]
  rfl

theorem after_of_done (done : cursor.done = true) : cursor.after region flash call = cursor := by
  induction call with
  | zero => rfl
  | succ call ih => rw [after, ih, advance_of_done done]

theorem answer_of_done (done : cursor.done = true) :
    cursor.answer region flash call = .ok none := by
  rw [answer, after_of_done done, advance_of_done done]

/-- The calls return these records, then the end of the log or of what can be trusted of it, and
nothing from then on. -/
structure Exhausts (cursor : Cursor) (region : Region) (flash : Nat → Chip)
    (records : List Record) : Prop where
  found : ∀ call record, records[call]? = some record →
    cursor.answer region flash call = .ok (some record)
  ended : cursor.answer region flash records.length = .ok none ∨
    cursor.answer region flash records.length = .fail .corrupt
  silent : ∀ call, records.length < call → cursor.answer region flash call = .ok none
  rests : ∀ call, records.length ≤ call →
    (cursor.after region flash call).position =
      (cursor.after region flash records.length).position

theorem Exhausts.nil (ended : recordAt region (flash 0) start stop = .ok none ∨
      recordAt region (flash 0) start stop = .fail .corrupt) :
    Exhausts ⟨start, stop, false⟩ region flash [] := by
  have last := advance_of_end ended
  constructor
  case found => simp
  case ended =>
    rw [List.length_nil, answer, after, last]
    exact ended
  case silent =>
    intro call later
    cases call with
    | zero => exact absurd later (Nat.lt_irrefl _)
    | succ call => rw [answer_succ, last, answer_of_done rfl]
  case rests =>
    intro call _
    cases call with
    | zero => rfl
    | succ call =>
      rw [after_succ, last, after_of_done rfl]
      rfl

theorem Exhausts.cons (first : cursor.advance region (flash 0) = (.ok (some record), next))
    (rest : next.Exhausts region (fun later => flash (later + 1)) records) :
    cursor.Exhausts region flash (record :: records) := by
  constructor
  case found =>
    intro call other found
    cases call with
    | zero =>
      obtain rfl : record = other := by simpa using found
      rw [answer, after, first]
    | succ call =>
      rw [answer_succ, first]
      exact rest.found call other (by simpa using found)
  case ended =>
    rw [List.length_cons, answer_succ, first]
    exact rest.ended
  case silent =>
    intro call later
    cases call with
    | zero => exact absurd later (Nat.not_lt_zero _)
    | succ call =>
      rw [answer_succ, first]
      exact rest.silent call (Nat.lt_of_succ_lt_succ later)
  case rests =>
    intro call later
    cases call with
    | zero => exact absurd later (Nat.not_succ_le_zero _)
    | succ call =>
      rw [List.length_cons, after_succ, after_succ, first]
      exact rest.rests call (Nat.le_of_succ_le_succ later)

/-- On a flash that stays as it is, the calls make up a walk. -/
def Walks (cursor : Cursor) (region : Region) (flash : Nat → Chip) (records : List Record) : Prop :=
  ∀ chip, (∀ call, flash call = chip) →
    walk region chip cursor.position cursor.stop =
      ⟨records, (cursor.answer region flash records.length).map fun _ =>
        (cursor.after region flash records.length).position⟩

theorem Walks.nil (ended : recordAt region (flash 0) start stop = .ok none ∨
      recordAt region (flash 0) start stop = .fail .corrupt) :
    Walks ⟨start, stop, false⟩ region flash [] := by
  intro chip still
  have last := advance_of_end ended
  rw [List.length_nil, answer, after, last]
  rw [still 0] at ended ⊢
  rcases ended with ended | ended
  · rw [ended]
    exact walk_of_end ended
  · rw [ended]
    exact walk_of_failure ended

theorem Walks.cons (found : recordAt region (flash 0) start stop = .ok (some record))
    (rest : Walks ⟨min record.next stop, stop, false⟩ region (fun later => flash (later + 1)) records) :
    Walks ⟨start, stop, false⟩ region flash (record :: records) := by
  intro chip still
  have behind := rest chip fun call => still (call + 1)
  rw [List.length_cons, answer_succ, after_succ, advance_of_record found]
  rw [still 0] at found
  rw [walk_of_record found, behind]

theorem exists_exhausts (noWrap : region.base + region.length < 0x100000000)
    (inside : stop ≤ region.length) (fits : stop + 65542 < 0x100000000) (ordered : start ≤ stop)
    (flash : Nat → Chip) :
    ∃ records, Spaced stop start records ∧ Exhausts ⟨start, stop, false⟩ region flash records ∧
      Walks ⟨start, stop, false⟩ region flash records := by
  -- Each record leaves less between the cursor and its end.
  induction left : stop - start using Nat.strongRecOn generalizing start flash with
  | ind left ih =>
    rcases recordAt_cases noWrap inside fits ordered (flash 0) with
      ⟨record, found, place, sound⟩ | ended
    · have forward := position_lt_min_next found
      obtain ⟨records, spaced, exhausts, walks⟩ := ih (stop - min record.next stop) (by omega)
        (Nat.min_le_right _ _) (fun later => flash (later + 1)) rfl
      exact ⟨record :: records, ⟨place, sound, spaced.of_min⟩,
        exhausts.cons (advance_of_record found), walks.cons found⟩
    · exact ⟨[], trivial, .nil ended, .nil ended⟩

/-- What holds of a cursor from `start` to `stop` that has come upon these records. -/
structure Traversal (region : Region) (flash : Nat → Chip) (start stop : Nat)
    (records : List Record) : Prop where
  few : records.length ≤ (stop - start) / 4
  calls : Exhausts ⟨start, stop, false⟩ region flash records
  position : ∀ call, start ≤ (after ⟨start, stop, false⟩ region flash call).position ∧
    (after ⟨start, stop, false⟩ region flash call).position ≤ stop
  sound : ∀ record ∈ records, start ≤ record.offset ∧ record.Sound stop
  next : records.IsChain fun previous next =>
    next.offset = nextOffset previous.offset previous.size
  apart : records.Pairwise fun earlier later =>
    earlier.offset < later.offset ∧ earlier.dataEnd ≤ later.offset
  aligned : ∀ record ∈ records.tail, record.offset % 4 = 0
  /-- Any flash that gives the same headers from `start` to `stop` gives the same calls, whatever it
  holds elsewhere and even if nothing can be read there. -/
  reads : ∀ (other : Region) (memories : Nat → Chip),
    (∀ call, SameHeaders region other (flash call) (memories call) start stop) →
    ∀ call, answer ⟨start, stop, false⟩ other memories call =
        answer ⟨start, stop, false⟩ region flash call ∧
      after ⟨start, stop, false⟩ other memories call = after ⟨start, stop, false⟩ region flash call
  walks : Walks ⟨start, stop, false⟩ region flash records

/-- Whatever the flash holds, a cursor returns no more records than there is room for and then has come
to an end for good. -/
theorem calls_bounded (noWrap : region.base + region.length < 0x100000000)
    (inside : stop ≤ region.length) (fits : stop + 65542 < 0x100000000) (ordered : start ≤ stop)
    (flash : Nat → Chip) : ∃ records, Traversal region flash start stop records := by
  obtain ⟨records, spaced, exhausts, walks⟩ := exists_exhausts noWrap inside fits ordered flash
  have between : Between ⟨start, stop, false⟩ start stop := ⟨rfl, Nat.le_refl _, ordered⟩
  refine ⟨records, ?_⟩
  constructor
  case few =>
    have length := spaced.length_le
    simp only [headerSize] at length
    omega
  case calls => exact exhausts
  case position =>
    intro call
    have there := between.after region flash call
    exact ⟨there.start_le, there.le_stop⟩
  case sound => exact fun record member => spaced.bounds member
  case next => exact spaced.chain
  case apart =>
    refine spaced.apart.imp ?_
    intro earlier later behind
    have forward := earlier.offset_lt_next
    simp only [headerSize] at forward
    exact ⟨by omega, Nat.le_trans earlier.dataEnd_le_next behind⟩
  case aligned => exact spaced.tail_aligned
  case reads =>
    intro other memories same call
    exact ⟨between.answer_congr same call, between.after_congr same call⟩
  case walks => exact walks

/-- Two records, of which the second is killed when the first has been returned, in a region whose end
cuts off the padding of the second. -/
def ragged : Region := ⟨0x08001000, 23⟩

def raggedFlash (call : Nat) : Chip where
  base := 0x08001000
  pageSize := 32
  memory := #[0xA5, 0x5A, 7, 0, 3, 0, 0x11, 0x22, 0x33, 0xFF, 0xFF, 0xFF, if call = 0 then 9 else 0, 0,
    5, 0, 0x44, 0x55, 0x66, 0x77, 0x88, 0xFF, 0xFF, 0xFF]

theorem calls_bounded_ragged :
    (answer ⟨2, 23, false⟩ ragged raggedFlash 0 = .ok (some ⟨⟨7, 3⟩, 2⟩) ∧
      answer ⟨2, 23, false⟩ ragged raggedFlash 1 = .ok (some ⟨⟨0, 5⟩, 12⟩) ∧
      answer ⟨2, 23, false⟩ ragged raggedFlash 2 = .ok none ∧
      (after ⟨2, 23, false⟩ ragged raggedFlash 2).position = 23) ∧
    ∃ records, Traversal ragged raggedFlash 2 23 records :=
  ⟨⟨rfl, rfl, rfl, rfl⟩, calls_bounded (by decide) (by decide) (by decide) (by decide) raggedFlash⟩

end Cursor

end ParamStore
