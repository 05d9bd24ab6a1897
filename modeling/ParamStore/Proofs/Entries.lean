import ParamStore.Proofs.Linked

/-! Logs as lists of entries, without their places. What a store answers depends on nothing else: the
value of a parameter is that of its last entry. `freshest` keeps those entries, and says what each
change of a log does to them. -/
namespace ParamStore

structure Entry where
  parameter : UInt16
  value : Bytes
  deriving DecidableEq, Repr

def entryIn (cells : Nat → UInt8) (record : Record) : Entry :=
  ⟨record.parameter, payloadIn cells record⟩

def entriesIn (cells : Nat → UInt8) (records : List Record) : List Entry :=
  records.map (entryIn cells)

/-- What each parameter stands for. -/
abbrev Values := UInt16 → Option Bytes

def Values.set (values : Values) (parameter : UInt16) (value : Bytes) : Values := fun asked =>
  if asked = parameter then some value else values asked

def Values.drop (values : Values) (parameter : UInt16) : Values := fun asked =>
  if asked = parameter then none else values asked

/-- The values that a log gives: those of the last entries. -/
def valueOf (entries : List Entry) : Values := fun parameter =>
  if isValidParameter parameter then
    ((entries.filter (·.parameter == parameter)).getLast?).map Entry.value
  else none

/-- Of every parameter the last entry, in the order of the log. -/
def freshest : List Entry → List Entry
  | [] => []
  | entry :: later =>
    if isValidParameter entry.parameter ∧ later.all (·.parameter != entry.parameter) then
      entry :: freshest later
    else freshest later

/-- The entry after its parameter was removed. -/
def Entry.bury (parameter : UInt16) (entry : Entry) : Entry :=
  if entry.parameter = parameter then { entry with parameter := tombstone } else entry

variable {parameter : UInt16} {entries : List Entry} {cells new : Nat → UInt8}
  {records : List Record}

theorem isValidParameter_iff :
    isValidParameter parameter = true ↔ parameter ≠ tombstone ∧ parameter ≠ erasedHalfword := by
  simp [isValidParameter]

theorem entriesIn_append (cells : Nat → UInt8) (first second : List Record) :
    entriesIn cells (first ++ second) = entriesIn cells first ++ entriesIn cells second :=
  List.map_append

theorem entriesIn_congr (same : ∀ record ∈ records, payloadIn new record = payloadIn cells record) :
    entriesIn new records = entriesIn cells records := by
  apply List.map_congr_left
  intro record member
  rw [entryIn, same record member, entryIn]

theorem entriesIn_survivors (cells : Nat → UInt8) (records : List Record) :
    entriesIn cells (survivors records) = freshest (entriesIn cells records) := by
  induction records with
  | nil => rfl
  | cons record later ih =>
    have condition : (entriesIn cells later).all (·.parameter != record.parameter) =
        later.all (·.parameter != record.parameter) := by
      simp only [entriesIn, List.all_map]
      rfl
    have unfolded : freshest (entriesIn cells (record :: later)) =
        if record.isLive ∧ (entriesIn cells later).all (·.parameter != record.parameter) then
          entryIn cells record :: freshest (entriesIn cells later)
        else freshest (entriesIn cells later) := rfl
    rw [unfolded, condition, ← ih, survivors]
    by_cases fresh : record.isLive = true ∧ later.all (·.parameter != record.parameter) = true
    · rw [if_pos fresh, if_pos fresh]
      rfl
    · rw [if_neg fresh, if_neg fresh]

theorem valueOf_entriesIn (cells : Nat → UInt8) (records : List Record)
    (valid : isValidParameter parameter = true) :
    valueOf (entriesIn cells records) parameter =
      ((records.filter (·.parameter == parameter)).getLast?).map (payloadIn cells) := by
  rw [valueOf, if_pos valid, entriesIn, List.filter_map, List.getLast?_map, Option.map_map]
  rfl

theorem valueOf_reserved (reserved : isValidParameter parameter = false) :
    valueOf entries parameter = none := by
  simp [valueOf, reserved]

theorem valueOf_cons (entry : Entry) (later : List Entry) (parameter : UInt16) :
    valueOf (entry :: later) parameter = (valueOf later parameter).or
      (if entry.parameter = parameter ∧ isValidParameter parameter = true then some entry.value
      else none) := by
  by_cases valid : isValidParameter parameter = true
  · by_cases same : entry.parameter = parameter
    · simp only [valueOf, valid, same, List.filter_cons, beq_self_eq_true, List.getLast?_cons,
        and_self, ↓reduceIte]
      cases (later.filter (·.parameter == parameter)).getLast? <;> rfl
    · simp [valueOf, valid, same]
  · simp [valueOf, valid]

theorem valueOf_eq_none_iff (valid : isValidParameter parameter = true) :
    valueOf entries parameter = none ↔ entries.all (·.parameter != parameter) = true := by
  simp [valueOf, valid]

theorem valueOf_append (first second : List Entry) (parameter : UInt16) :
    valueOf (first ++ second) parameter =
      (valueOf second parameter).or (valueOf first parameter) := by
  by_cases valid : isValidParameter parameter = true
  · simp only [valueOf, valid, ↓reduceIte, List.filter_append, List.getLast?_append,
      Option.map_or]
  · simp [valueOf, valid]

theorem valueOf_snoc (entries : List Entry) (value : Bytes)
    (valid : isValidParameter parameter = true) :
    valueOf (entries ++ [⟨parameter, value⟩]) = (valueOf entries).set parameter value := by
  funext asked
  rw [valueOf_append, valueOf_cons, Values.set]
  by_cases same : asked = parameter
  · subst same
    simp [valid, valueOf]
  · simp [valueOf, same, Ne.symm same]

theorem valueOf_freshest (entries : List Entry) : valueOf (freshest entries) = valueOf entries := by
  funext parameter
  induction entries with
  | nil => rfl
  | cons entry later ih =>
    rw [freshest, valueOf_cons]
    split
    next => rw [valueOf_cons, ih]
    next stale =>
      rw [ih]
      by_cases same : entry.parameter = parameter ∧ isValidParameter parameter = true
      · obtain ⟨rfl, valid⟩ := same
        -- A later entry of the same parameter takes precedence.
        have later_some : valueOf later entry.parameter ≠ none := by
          intro missing
          exact stale ⟨valid, (valueOf_eq_none_iff valid).mp missing⟩
        obtain ⟨value, found⟩ := Option.ne_none_iff_exists'.mp later_some
        simp [found]
      · simp [same]

theorem freshest_sublist (entries : List Entry) : (freshest entries).Sublist entries := by
  induction entries with
  | nil => exact .slnil
  | cons entry later ih =>
    rw [freshest]
    split
    · exact ih.cons_cons entry
    · exact ih.cons entry

theorem freshest_idem (entries : List Entry) : freshest (freshest entries) = freshest entries := by
  induction entries with
  | nil => rfl
  | cons entry later ih =>
    by_cases fresh : isValidParameter entry.parameter ∧
        later.all (·.parameter != entry.parameter)
    · have still : (freshest later).all (·.parameter != entry.parameter) = true := by
        rw [List.all_eq_true] at fresh ⊢
        exact fun other member => fresh.2 other ((freshest_sublist later).mem member)
      rw [freshest, if_pos fresh, freshest, if_pos ⟨fresh.1, still⟩, ih]
    · rw [freshest, if_neg fresh, ih]

theorem freshest_snoc (entries : List Entry) (value : Bytes)
    (valid : isValidParameter parameter = true) :
    freshest (entries ++ [⟨parameter, value⟩]) =
      (freshest entries).filter (·.parameter != parameter) ++ [⟨parameter, value⟩] := by
  induction entries with
  | nil => simp [freshest, valid]
  | cons entry later ih =>
    rw [List.cons_append, freshest, freshest, ih]
    by_cases same : entry.parameter = parameter
    · rw [if_neg (by simp [same])]
      split <;> simp [same]
    · have condition : (later ++ [(⟨parameter, value⟩ : Entry)]).all (·.parameter != entry.parameter) =
          later.all (·.parameter != entry.parameter) := by
        simp [Ne.symm same]
      rw [condition]
      split <;> simp [same]

theorem bury_parameter_ne_iff {other : Entry} {asked : UInt16} (valid : asked ≠ tombstone)
    (different : asked ≠ parameter) :
    (other.bury parameter).parameter = asked ↔ other.parameter = asked := by
  unfold Entry.bury
  split
  next buried =>
    simp only [buried]
    exact ⟨fun same => absurd same.symm valid, fun same => absurd same.symm different⟩
  next => rfl

theorem freshest_bury (entries : List Entry) (parameter : UInt16) :
    freshest (entries.map (Entry.bury parameter)) =
      (freshest entries).filter (·.parameter != parameter) := by
  induction entries with
  | nil => rfl
  | cons entry later ih =>
    rw [List.map_cons, freshest, freshest, ih]
    by_cases same : entry.parameter = parameter
    · have dead : (entry.bury parameter).parameter = tombstone := by simp [Entry.bury, same]
      rw [dead, if_neg (by simp [isValidParameter])]
      split <;> simp [same]
    · have kept : entry.bury parameter = entry := by simp [Entry.bury, same]
      rw [kept]
      by_cases named : isValidParameter entry.parameter = true
      · have condition : (later.map (Entry.bury parameter)).all
            (·.parameter != entry.parameter) = later.all (·.parameter != entry.parameter) := by
          rw [List.all_map, Bool.eq_iff_iff, List.all_eq_true, List.all_eq_true]
          apply forall_congr'
          intro other
          simp [bury_parameter_ne_iff (isValidParameter_iff.mp named).1 same]
        rw [condition]
        split <;> simp [same]
      · rw [if_neg (by simp [named]), if_neg (by simp [named])]

theorem valueOf_filter_ne (entries : List Entry) (parameter : UInt16) :
    valueOf (entries.filter (·.parameter != parameter)) = (valueOf entries).drop parameter := by
  funext asked
  have narrowed : (entries.filter (·.parameter != parameter)).filter (·.parameter == asked) =
      if asked = parameter then [] else entries.filter (·.parameter == asked) := by
    rw [List.filter_filter]
    split
    next same =>
      rw [List.filter_eq_nil_iff]
      simp [same]
    next different =>
      apply List.filter_congr
      intro entry _
      by_cases same : entry.parameter = asked
      · simp [same, different]
      · simp [same]
  simp only [valueOf, narrowed, Values.drop]
  split <;> split <;> rfl

/-- Replacing an entry sets its parameter. -/
theorem valueOf_replace (entries : List Entry) (value : Bytes)
    (valid : isValidParameter parameter = true) :
    valueOf (entries.filter (·.parameter != parameter) ++ [⟨parameter, value⟩]) =
      (valueOf entries).set parameter value := by
  rw [valueOf_snoc _ _ valid, valueOf_filter_ne]
  funext asked
  by_cases same : asked = parameter
  · simp [Values.set, same]
  · simp [Values.set, Values.drop, same]

end ParamStore
