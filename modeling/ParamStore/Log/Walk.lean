import ParamStore.Flash.Region
import ParamStore.Log.Record

/-! Walking a log record by record. The walk trusts nothing past the first unwritten header, and
checks that a record lies in its segment before it goes on to the next. To look for a later record of
a parameter and to show the live ones to a visitor are such walks as well. -/
namespace ParamStore

/-- The record at `position`, or nothing if the log ends there. -/
def recordAt (region : Region) (chip : Chip) (position stop : Nat) :
    Attempt StoreError (Option Record) := do
  if stop < (← Attempt.fit (position + headerSize)) then return none
  else
    let header := Header.ofBytes (← (region.read chip position headerSize).mapError .flash)
    let record : Record := { header with offset := position }
    if header.isErased then return none
    else if header.size = erasedHalfword then .fail .corrupt
    else if stop < (← Attempt.fit record.dataEnd) then .fail .corrupt
    else
      let _ ← tryNextOffset record.offset record.size
      return some record

/-- A position in a log that ends before `stop`. -/
structure Cursor where
  position : Nat
  stop : Nat
  done : Bool := false
  deriving DecidableEq, Repr

/-- Read the next record. The end of the log and a corrupt header are final; after a failed read
the same position is tried again. -/
def Cursor.advance (cursor : Cursor) (region : Region) (chip : Chip) :
    Attempt StoreError (Option Record) × Cursor :=
  if cursor.done then (.ok none, cursor)
  else
    let found := recordAt region chip cursor.position cursor.stop
    match found with
    | .ok (some record) => (found, { cursor with position := min record.next cursor.stop })
    | .ok none | .error (.error .corrupt) => (found, { cursor with done := true })
    | .error _ => (found, cursor)

/-- All records from a position on, and where or why the walk ended. -/
structure Walk where
  records : List Record
  ending : Attempt StoreError Nat
  deriving Repr

theorem recordAt_bounds {region : Region} {chip : Chip} {position stop : Nat} {record : Record}
    (found : recordAt region chip position stop = .ok (some record)) :
    record.offset = position ∧ position + headerSize ≤ stop := by
  simp only [recordAt, Attempt.fit, bind, Except.bind, pure, Except.pure] at found
  grind [Attempt.fail]

theorem position_lt_min_next {region : Region} {chip : Chip} {position stop : Nat}
    {record : Record} (found : recordAt region chip position stop = .ok (some record)) :
    position < min record.next stop := by
  obtain ⟨rfl, bound⟩ := recordAt_bounds found
  simp only [Record.next, nextOffset, headerSize] at *
  omega

def walk (region : Region) (chip : Chip) (position stop : Nat) : Walk :=
  match found : recordAt region chip position stop with
  | .ok (some record) =>
    have := position_lt_min_next found
    let rest := walk region chip (min record.next stop) stop
    ⟨record :: rest.records, rest.ending⟩
  | .ok none => ⟨[], .ok position⟩
  | .error failure => ⟨[], .error failure⟩
termination_by stop - position

theorem walk_of_record {region : Region} {chip : Chip} {position stop : Nat} {record : Record}
    (found : recordAt region chip position stop = .ok (some record)) :
    walk region chip position stop =
      ⟨record :: (walk region chip (min record.next stop) stop).records,
        (walk region chip (min record.next stop) stop).ending⟩ := by
  rw [walk]
  grind

theorem walk_of_end {region : Region} {chip : Chip} {position stop : Nat}
    (found : recordAt region chip position stop = .ok none) :
    walk region chip position stop = ⟨[], .ok position⟩ := by
  rw [walk]
  grind

theorem walk_of_failure {region : Region} {chip : Chip} {position stop : Nat}
    {failure : Failure StoreError} (found : recordAt region chip position stop = .error failure) :
    walk region chip position stop = ⟨[], .error failure⟩ := by
  rw [walk]
  grind

/-- Whether a record of `parameter` is found on a walk from `position` on. -/
def hasLaterCopy (region : Region) (chip : Chip) (parameter : UInt16) (position stop : Nat) :
    Attempt StoreError Bool :=
  match found : recordAt region chip position stop with
  | .ok (some record) =>
    have := position_lt_min_next found
    if record.parameter == parameter then .ok true
    else hasLaterCopy region chip parameter (min record.next stop) stop
  | .ok none => .ok false
  | .error failure => .error failure
termination_by stop - position

theorem hasLaterCopy_eq (region : Region) (chip : Chip) (parameter : UInt16) (position stop : Nat) :
    hasLaterCopy region chip parameter position stop =
      if (walk region chip position stop).records.any (·.parameter == parameter) then .ok true
      else (walk region chip position stop).ending.map fun _ => false := by
  fun_induction hasLaterCopy region chip parameter position stop with
  | case1 position record found _ same =>
    rw [walk_of_record found, List.any_cons, same]
    rfl
  | case2 position record found _ differs ih =>
    rw [walk_of_record found, List.any_cons, Bool.not_eq_true _ |>.mp differs, Bool.false_or, ih]
  | case3 position found =>
    rw [walk_of_end found]
    rfl
  | case4 position failure found =>
    rw [walk_of_failure found]
    rfl

/-- Show the live records from `position` on that have no later copy to a visitor. What it has seen
before a failure stays seen. -/
def visitLive {σ : Type} (region : Region) (chip : Chip) (visit : σ → Header → σ) (state : σ)
    (position stop : Nat) : σ × Attempt StoreError Unit :=
  match found : recordAt region chip position stop with
  | .error failure => (state, .error failure)
  | .ok none => (state, .ok ())
  | .ok (some record) =>
    have := position_lt_min_next found
    let next := min record.next stop
    if !record.isLive then visitLive region chip visit state next stop
    else match hasLaterCopy region chip record.parameter record.next stop with
      | .error failure => (state, .error failure)
      | .ok true => visitLive region chip visit state next stop
      | .ok false => visitLive region chip visit (visit state record.toHeader) next stop
termination_by stop - position

section Visiting

variable {σ : Type} {region : Region} {chip : Chip} {visit : σ → Header → σ} {state : σ}
  {position stop : Nat} {record : Record}

theorem visitLive_of_end (found : recordAt region chip position stop = .ok none) :
    visitLive region chip visit state position stop = (state, .ok ()) := by
  rw [visitLive]
  grind

theorem visitLive_of_failure {failure : Failure StoreError}
    (found : recordAt region chip position stop = .error failure) :
    visitLive region chip visit state position stop = (state, .error failure) := by
  rw [visitLive]
  grind

theorem visitLive_of_dead (found : recordAt region chip position stop = .ok (some record))
    (dead : record.isLive = false) :
    visitLive region chip visit state position stop =
      visitLive region chip visit state (min record.next stop) stop := by
  rw [visitLive]
  grind

theorem visitLive_of_superseded (found : recordAt region chip position stop = .ok (some record))
    (later : hasLaterCopy region chip record.parameter record.next stop = .ok true) :
    visitLive region chip visit state position stop =
      visitLive region chip visit state (min record.next stop) stop := by
  rw [visitLive]
  grind

theorem visitLive_of_last (found : recordAt region chip position stop = .ok (some record))
    (live : record.isLive = true)
    (last : hasLaterCopy region chip record.parameter record.next stop = .ok false) :
    visitLive region chip visit state position stop =
      visitLive region chip visit (visit state record.toHeader) (min record.next stop) stop := by
  rw [visitLive]
  grind

theorem visitLive_of_lost {failure : Failure StoreError}
    (found : recordAt region chip position stop = .ok (some record)) (live : record.isLive = true)
    (lost : hasLaterCopy region chip record.parameter record.next stop = .error failure) :
    visitLive region chip visit state position stop = (state, .error failure) := by
  rw [visitLive]
  grind

end Visiting

end ParamStore
