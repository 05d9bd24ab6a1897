import ParamStore.Log.Record
import ParamStore.Flash.Region

/-! Cells of the flash as a function of their offset. What the store asks of the flash is a question
about a range of cells, and what it does to the flash replaces a range of them, so the theory of the
log is one of such functions and of the ranges in which two of them agree. -/
namespace ParamStore

variable {cells new : Nat → UInt8} {offset length start stop : Nat}

def bytesAt (cells : Nat → UInt8) (offset length : Nat) : Bytes :=
  (List.range' offset length).map cells

def halfwordIn (cells : Nat → UInt8) (offset : Nat) : UInt16 :=
  halfword (cells offset) (cells (offset + 1))

def headerIn (cells : Nat → UInt8) (offset : Nat) : Header :=
  ⟨halfwordIn cells offset, halfwordIn cells (offset + 2)⟩

/-- The cells with `bytes` from `offset` on. -/
def overlay (cells : Nat → UInt8) (offset : Nat) (bytes : Bytes) : Nat → UInt8 := fun index =>
  if offset ≤ index then (bytes[index - offset]?).getD (cells index) else cells index

/-- The cells with those from `start` to `stop` erased. -/
def wipe (cells : Nat → UInt8) (start stop : Nat) : Nat → UInt8 := fun index =>
  if start ≤ index ∧ index < stop then erasedByte else cells index

def Blank (cells : Nat → UInt8) (start stop : Nat) : Prop :=
  ∀ index, start ≤ index → index < stop → cells index = erasedByte

def SameIn (old new : Nat → UInt8) (start stop : Nat) : Prop :=
  ∀ index, start ≤ index → index < stop → new index = old index

/-- Nothing but the cells from `start` to `stop` has changed. -/
def SameOutside (old new : Nat → UInt8) (start stop : Nat) : Prop :=
  ∀ index, index < start ∨ stop ≤ index → new index = old index

@[simp] theorem length_bytesAt : (bytesAt cells offset length).length = length := by
  simp [bytesAt]

theorem bytesAt_congr (same : SameIn cells new offset (offset + length)) :
    bytesAt new offset length = bytesAt cells offset length := by
  apply List.map_congr_left
  intro index member
  obtain ⟨low, high⟩ := List.mem_range'_1.mp member
  exact same index low high

theorem bytesAt_add (cells : Nat → UInt8) (offset first second : Nat) :
    bytesAt cells offset (first + second) =
      bytesAt cells offset first ++ bytesAt cells (offset + first) second := by
  simp only [bytesAt, ← List.map_append]
  rw [List.range'_append_1]

theorem take_bytesAt (count : Nat) :
    (bytesAt cells offset length).take count = bytesAt cells offset (min count length) := by
  apply List.ext_getElem
  · simp
  · intro index _ _
    simp [bytesAt]

theorem bytesAt_shift (cells : Nat → UInt8) (base offset length : Nat) :
    bytesAt (fun index => cells (index - base)) (base + offset) length =
      bytesAt cells offset length := by
  simp only [bytesAt, ← List.map_add_range', List.map_map]
  apply List.map_congr_left
  intro index _
  simp

theorem bytesAt_two (cells : Nat → UInt8) (offset : Nat) :
    bytesAt cells offset 2 = [cells offset, cells (offset + 1)] := rfl

theorem halfwordOfBytes_bytesAt (bound : 2 ≤ length) :
    halfwordOfBytes (bytesAt cells offset length) = halfwordIn cells offset := by
  obtain ⟨rest, rfl⟩ := Nat.exists_eq_add_of_le bound
  rw [bytesAt_add, bytesAt_two]
  rfl

theorem header_ofBytes_bytesAt (cells : Nat → UInt8) (offset : Nat) :
    Header.ofBytes (bytesAt cells offset headerSize) = headerIn cells offset := rfl

theorem halfwordIn_congr (low : new offset = cells offset)
    (high : new (offset + 1) = cells (offset + 1)) :
    halfwordIn new offset = halfwordIn cells offset := by
  rw [halfwordIn, low, high, halfwordIn]

theorem headerIn_congr (same : SameIn cells new offset (offset + headerSize)) :
    headerIn new offset = headerIn cells offset := by
  have at' (k : Nat) (bound : k < headerSize) : new (offset + k) = cells (offset + k) :=
    same _ (by omega) (by omega)
  simp only [headerIn, Header.mk.injEq]
  exact ⟨halfwordIn_congr (at' 0 (by decide)) (at' 1 (by decide)),
    halfwordIn_congr (at' 2 (by decide)) (at' 3 (by decide))⟩

theorem halfwordBytes_halfwordIn (cells : Nat → UInt8) (offset : Nat) :
    halfwordBytes (halfwordIn cells offset) = [cells offset, cells (offset + 1)] :=
  halfwordBytes_halfword _ _

/-- A half-word is erased when both of its cells are. -/
theorem halfwordIn_eq_erased_iff :
    halfwordIn cells offset = erasedHalfword ↔
      cells offset = erasedByte ∧ cells (offset + 1) = erasedByte := by
  constructor
  · intro erased
    have bytes := halfwordBytes_halfwordIn cells offset
    rw [erased] at bytes
    exact ⟨(List.cons.inj bytes).1.symm, (List.cons.inj (List.cons.inj bytes).2).1.symm⟩
  · intro done
    obtain ⟨low, high⟩ := done
    rw [halfwordIn, low, high]
    rfl

theorem Blank.halfwordIn (blank : Blank cells start stop) (low : start ≤ offset)
    (high : offset + 2 ≤ stop) : halfwordIn cells offset = erasedHalfword :=
  halfwordIn_eq_erased_iff.mpr
    ⟨blank _ low (by omega), blank _ (by omega) (by omega)⟩

theorem Blank.mono {start' stop' : Nat} (blank : Blank cells start stop) (low : start ≤ start')
    (high : stop' ≤ stop) : Blank cells start' stop' :=
  fun index above below => blank index (by omega) (by omega)

theorem Blank.congr (blank : Blank cells start stop) (same : SameIn cells new start stop) :
    Blank new start stop :=
  fun index above below => (same index above below).trans (blank index above below)

theorem SameOutside.rfl : SameOutside cells cells start stop := fun _ _ => Eq.refl _

theorem SameOutside.trans {third : Nat → UInt8} (first : SameOutside cells new start stop)
    (second : SameOutside new third start stop) : SameOutside cells third start stop :=
  fun index away => (second index away).trans (first index away)

theorem SameOutside.mono {start' stop' : Nat} (same : SameOutside cells new start stop)
    (low : start' ≤ start) (high : stop ≤ stop') : SameOutside cells new start' stop' :=
  fun index away => same index (by omega)

theorem SameOutside.sameIn {start' stop' : Nat} (same : SameOutside cells new start stop)
    (apart : stop' ≤ start ∨ stop ≤ start') : SameIn cells new start' stop' :=
  fun index above below => same index (by omega)

theorem SameIn.mono {start' stop' : Nat} (same : SameIn cells new start stop)
    (low : start ≤ start') (high : stop' ≤ stop) : SameIn cells new start' stop' :=
  fun index above below => same index (by omega) (by omega)

theorem overlay_apart {bytes : Bytes} {index : Nat}
    (apart : index < offset ∨ offset + bytes.length ≤ index) :
    overlay cells offset bytes index = cells index := by
  unfold overlay
  split
  · rw [List.getElem?_eq_none (by omega)]
    rfl
  · rfl

theorem overlay_at {bytes : Bytes} {index : Nat} (bound : index < bytes.length) :
    overlay cells offset bytes (offset + index) = bytes[index] := by
  simp [overlay, bound]

theorem sameOutside_overlay (cells : Nat → UInt8) (offset : Nat) (bytes : Bytes) :
    SameOutside cells (overlay cells offset bytes) offset (offset + bytes.length) :=
  fun _ away => overlay_apart away

@[simp] theorem overlay_nil : overlay cells offset [] = cells := by
  funext index
  simp [overlay]

theorem overlay_append (cells : Nat → UInt8) (offset : Nat) (first second : Bytes) :
    overlay cells offset (first ++ second) =
      overlay (overlay cells offset first) (offset + first.length) second := by
  funext index
  by_cases early : index < offset + first.length
  · have away : overlay (overlay cells offset first) (offset + first.length) second index =
        overlay cells offset first index := overlay_apart (.inl early)
    rw [away]
    simp only [overlay]
    split
    · rw [List.getElem?_append_left (by omega)]
    · rfl
  · simp only [overlay]
    rw [if_pos (by omega), if_pos (by omega), List.getElem?_append_right (by omega),
      if_pos (by omega), List.getElem?_eq_none (l := first) (by omega), Nat.sub_sub]
    rfl

theorem overlay_congr {bytes : Bytes} {index : Nat}
    (same : (offset ≤ index ∧ index < offset + bytes.length) ∨ new index = cells index) :
    overlay new offset bytes index = overlay cells offset bytes index := by
  unfold overlay
  rcases same with ⟨above, below⟩ | same
  · rw [if_pos above, if_pos above, List.getElem?_eq_getElem (by omega)]
    rfl
  · rw [same]

/-- Overlays that are apart can be put on in any order. -/
theorem overlay_comm {first second : Bytes} {place : Nat}
    (apart : offset + first.length ≤ place ∨ place + second.length ≤ offset) :
    overlay (overlay cells offset first) place second =
      overlay (overlay cells place second) offset first := by
  funext index
  by_cases inFirst : offset ≤ index ∧ index < offset + first.length
  · rw [overlay_apart (by omega), overlay_congr (.inl inFirst)]
  · have out : index < offset ∨ offset + first.length ≤ index := by omega
    have away : overlay (overlay cells place second) offset first index =
        overlay cells place second index := overlay_apart out
    rw [away, overlay_congr (.inr (overlay_apart out))]

theorem bytesAt_overlay (cells : Nat → UInt8) (offset : Nat) (bytes : Bytes) :
    bytesAt (overlay cells offset bytes) offset bytes.length = bytes := by
  apply List.ext_getElem
  · simp
  · intro index _ bound
    simp only [bytesAt, List.getElem_map, List.getElem_range', Nat.one_mul]
    exact overlay_at bound

@[simp] theorem length_halfwordBytes (value : UInt16) : (halfwordBytes value).length = 2 := rfl

theorem halfwordIn_overlay (cells : Nat → UInt8) (offset : Nat) (value : UInt16) :
    halfwordIn (overlay cells offset (halfwordBytes value)) offset = value := by
  have bytes := bytesAt_overlay cells offset (halfwordBytes value)
  rw [← halfwordOfBytes_bytesAt (Nat.le_refl 2)]
  rw [length_halfwordBytes] at bytes
  rw [bytes]
  exact halfwordOfBytes_halfwordBytes value []

theorem blank_wipe (cells : Nat → UInt8) (start stop : Nat) : Blank (wipe cells start stop) start stop :=
  fun _ above below => if_pos ⟨above, below⟩

theorem sameOutside_wipe (cells : Nat → UInt8) (start stop : Nat) :
    SameOutside cells (wipe cells start stop) start stop :=
  fun index away => if_neg (by omega)

@[simp] theorem wipe_self : wipe cells start start = cells := by
  funext index
  exact if_neg (by omega)

theorem wipe_blank (blank : Blank cells start stop) : wipe cells start stop = cells := by
  funext index
  by_cases within : start ≤ index ∧ index < stop
  · rw [wipe, if_pos within, blank index within.1 within.2]
  · exact if_neg within

theorem wipe_congr (same : SameOutside cells new start stop) :
    wipe new start stop = wipe cells start stop := by
  funext index
  by_cases within : start ≤ index ∧ index < stop
  · rw [wipe, wipe, if_pos within, if_pos within]
  · rw [wipe, wipe, if_neg within, if_neg within, same index (by omega)]

theorem wipe_wipe {middle : Nat} (first : start ≤ middle) (second : middle ≤ stop) :
    wipe (wipe cells start middle) middle stop = wipe cells start stop := by
  funext index
  simp only [wipe]
  split <;> split <;> first | rfl | (split <;> first | rfl | omega) | omega

end ParamStore
