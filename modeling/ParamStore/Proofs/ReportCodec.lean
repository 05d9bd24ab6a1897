import ParamStore.Host.Report

/-! Reports as bytes. A report is its sixteen words one behind the other, each of four bytes, so that
reports and strings of 64 bytes correspond one to one, and a word that is set in a report is found again
in its bytes and nowhere else. Of the vectors that reports are sent in, it is assumed only that they
take a slice whole or not at all. -/
namespace ParamStore

variable {bytes : Bytes} {values : List UInt32} {value : UInt32} {index place : Nat}

@[simp] theorem length_wordBytes (value : UInt32) : (wordBytes value).length = 4 := rfl

theorem length_flatMap_wordBytes (values : List UInt32) :
    (values.flatMap wordBytes).length = 4 * values.length := by
  induction values with
  | nil => rfl
  | cons value rest ih =>
    rw [List.flatMap_cons, List.length_append, ih, length_wordBytes, List.length_cons]
    omega

/-- Each byte is one of the word that stands there. -/
theorem getElem?_flatMap_wordBytes (found : values[index]? = some value) (small : place < 4) :
    (values.flatMap wordBytes)[4 * index + place]? = (wordBytes value)[place]? := by
  induction values generalizing index with
  | nil => simp at found
  | cons head rest ih =>
    rw [List.flatMap_cons]
    cases index with
    | zero =>
      obtain rfl : head = value := by simpa using found
      rw [Nat.mul_zero, Nat.zero_add, List.getElem?_append_left small]
    | succ index =>
      rw [List.getElem?_append_right (by rw [length_wordBytes]; omega), length_wordBytes,
        show 4 * (index + 1) + place - 4 = 4 * index + place by omega]
      exact ih (by simpa using found)

theorem wordAt_flatMap_wordBytes (found : values[index]? = some value) :
    Report.wordAt (values.flatMap wordBytes) index = value := by
  have spelled : Report.wordAt (values.flatMap wordBytes) index = wordOfBytes (wordBytes value ++ []) := by
    simp only [Report.wordAt, wordOfBytes, List.append_nil, List.getD_eq_getElem?_getD,
      List.getElem?_drop]
    rw [getElem?_flatMap_wordBytes found (by decide), getElem?_flatMap_wordBytes found (by decide),
      getElem?_flatMap_wordBytes found (by decide), getElem?_flatMap_wordBytes found (by decide)]
  rw [spelled, wordOfBytes_wordBytes]

theorem getElem?_wordBytes (value : UInt32) (small : place < 4) :
    (wordBytes value)[place]? = some (.ofNat (value.toNat / Nat.pow 256 place % 256)) := by
  have bound := value.toNat_lt
  obtain rfl | rfl | rfl | rfl : place = 0 ∨ place = 1 ∨ place = 2 ∨ place = 3 := by omega
  · simp [wordBytes]
  · simp [wordBytes]
  · simp [wordBytes]
  · have whole : value.toNat / 16777216 % 256 = value.toNat / 16777216 := by omega
    simp [wordBytes, whole]

/-- A word that is read from bytes has these bytes. -/
theorem getElem?_wordBytes_wordAt (inside : 4 * index + 4 ≤ bytes.length) (small : place < 4) :
    (wordBytes (Report.wordAt bytes index))[place]? = bytes[4 * index + place]? := by
  have present : bytes[4 * index + place]? = some ((bytes[4 * index + place]?).getD 0) := by
    rw [List.getElem?_eq_getElem (by omega)]
    rfl
  rw [Report.wordAt, wordOfBytes, wordBytes_word, present]
  simp only [List.getD_eq_getElem?_getD, List.getElem?_drop]
  obtain rfl | rfl | rfl | rfl : place = 0 ∨ place = 1 ∨ place = 2 ∨ place = 3 := by omega
  all_goals rfl

/-- What is asked of a vector: a slice that fits is appended, any other is refused and leaves the
vector as it is. -/
structure Extend.Whole (extend : Extend) : Prop where
  fits : ∀ capacity held slice, held.length + slice.length ≤ capacity →
    extend capacity held slice = (.ok (), held ++ slice)
  full : ∀ capacity held slice, capacity < held.length + slice.length →
    extend capacity held slice = (.error (), held)

theorem extendWithin_whole : Extend.Whole extendWithin where
  fits _ _ _ room := if_pos room
  full _ _ _ crowded := if_neg (Nat.not_le_of_lt crowded)

namespace Report

variable {report : Report} {extend : Extend}

@[simp] theorem length_words (report : Report) : report.words.length = 16 := by
  simp [words]

@[simp] theorem length_toBytes (report : Report) : report.toBytes.length = 64 := by
  rw [toBytes, length_flatMap_wordBytes, length_words]

theorem getElem?_toBytes (report : Report) (inside : place < 64) :
    report.toBytes[place]? = (wordBytes (report.words.getD (place / 4) 0))[place % 4]? := by
  have found : report.words[place / 4]? = some (report.words.getD (place / 4) 0) := by
    rw [List.getD_eq_getElem?_getD, List.getElem?_eq_getElem (by rw [length_words]; omega)]
    rfl
  rw [← getElem?_flatMap_wordBytes found (by omega), Nat.div_add_mod]
  rfl

/-- Where the bytes of a report belong, lowest byte of a word first. -/
def layoutSpec (report : Report) : Vector UInt8 64 := .ofFn fun index =>
  .ofNat ((report.words.getD (index / 4) 0).toNat / Nat.pow 256 (index % 4) % 256)

theorem toBytes_eq_layoutSpec (report : Report) : report.toBytes = report.layoutSpec.toList := by
  apply List.ext_getElem?
  intro place
  by_cases inside : place < 64
  · rw [report.getElem?_toBytes inside, getElem?_wordBytes _ (by omega)]
    simp [layoutSpec, inside]
  · rw [List.getElem?_eq_none (by simpa using inside), List.getElem?_eq_none (by simpa using inside)]

theorem extend_toBytes (whole : extend.Whole) (report : Report) :
    extend 64 [] report.toBytes = (.ok (), report.toBytes) :=
  whole.fits 64 [] report.toBytes (by simp)

theorem words_succ (report : Report) (index : Fin 15) :
    report.words[index.val + 1]? = some (report.parameters.get index) := by
  simp [words, Vector.get]

theorem ofBytes?_toBytes (report : Report) : ofBytes? report.toBytes = some report := by
  have command : wordAt report.toBytes 0 = report.command := wordAt_flatMap_wordBytes rfl
  have parameters : Vector.ofFn (fun index : Fin 15 => wordAt report.toBytes (index + 1)) =
      report.parameters := by
    apply Vector.ext
    intro index inside
    rw [Vector.getElem_ofFn]
    exact wordAt_flatMap_wordBytes (report.words_succ ⟨index, inside⟩)
  rw [ofBytes?, if_pos report.length_toBytes, command, parameters]

theorem length_of_ofBytes? (found : ofBytes? bytes = some report) : bytes.length = 64 := by
  unfold ofBytes? at found
  split at found
  next length => exact length
  next => cases found

theorem words_of_ofBytes? (found : ofBytes? bytes = some report) {index : Nat} (inside : index < 16) :
    report.words.getD index 0 = wordAt bytes index := by
  rw [ofBytes?, if_pos (length_of_ofBytes? found)] at found
  cases found
  cases index with
  | zero => rfl
  | succ index => simp [words, Nat.lt_of_succ_lt_succ inside]

theorem toBytes_of_ofBytes? (found : ofBytes? bytes = some report) : report.toBytes = bytes := by
  have length := length_of_ofBytes? found
  apply List.ext_getElem?
  intro place
  by_cases inside : place < 64
  · rw [report.getElem?_toBytes inside, words_of_ofBytes? found (by omega),
      getElem?_wordBytes_wordAt (by omega) (by omega), Nat.div_add_mod]
  · rw [List.getElem?_eq_none (by simpa using inside), List.getElem?_eq_none (by omega)]

/-- What becomes of a report when one status is set. -/
structure Marked (report : Report) (index : Fin 15) (code : Int32) (after : Report) : Prop where
  status : after.status index = code
  command : after.command = report.command
  others : ∀ other, other ≠ index → after.parameters.get other = report.parameters.get other

theorem marked_setStatus (report : Report) (index : Fin 15) (code : Int32) :
    report.Marked index code (report.setStatus index code) where
  status := by simp [status, setStatus]
  command := rfl
  others other different := by
    have apart : index.val ≠ other.val := fun same => different (Fin.ext same.symm)
    exact Vector.getElem_set_ne index.isLt other.isLt apart

/-- Writing and reading of reports are inverse to each other, and 64 bytes are a report whatever they
are; a vector takes a report whole. What is set in one word does not show in the others, before the
report is sent or after. -/
theorem codec_bijective :
    (∀ report : Report, report.toBytes = report.layoutSpec.toList) ∧
    (∀ extend : Extend, extend.Whole → ∀ report : Report,
      (extend 64 [] report.toBytes).1 = .ok () ∧ report.encodeToVec extend = report.toBytes) ∧
    (∀ bytes report, ofBytes? bytes = some report ↔ report.toBytes = bytes) ∧
    (∀ bytes, (ofBytes? bytes).isSome ↔ bytes.length = 64) ∧
    ∀ (report : Report) index code, report.Marked index code (report.setStatus index code) ∧
      ∃ received, ofBytes? (report.setStatus index code).toBytes = some received ∧
        report.Marked index code received := by
  refine ⟨toBytes_eq_layoutSpec, fun extend whole report => ?_, fun bytes report => ?_,
    fun bytes => ?_, fun report index code => ?_⟩
  · have taken := report.extend_toBytes whole
    exact ⟨congrArg Prod.fst taken, congrArg Prod.snd taken⟩
  · exact ⟨toBytes_of_ofBytes?, fun same => same ▸ report.ofBytes?_toBytes⟩
  · rw [ofBytes?]
    split <;> simp [*]
  · have marked := report.marked_setStatus index code
    exact ⟨marked, _, ofBytes?_toBytes _, marked⟩

/-- A negative status in the last word. -/
theorem codec_bijective_negative :
    extendWithin.Whole ∧
      ((ofCommand 0x01020304).setStatus 14 (-2)).encodeToVec extendWithin =
        [4, 3, 2, 1] ++ .replicate 56 0 ++ [0xFE, 0xFF, 0xFF, 0xFF] ∧
      ofBytes? ([4, 3, 2, 1] ++ .replicate 56 0 ++ [0xFE, 0xFF, 0xFF, 0xFF]) =
        some ((ofCommand 0x01020304).setStatus 14 (-2)) ∧
      ((ofCommand 0x01020304).setStatus 14 (-2)).status 14 = -2 := by
  obtain ⟨-, sent, read, -, set⟩ := codec_bijective
  have spelled : ((ofCommand 0x01020304).setStatus 14 (-2)).toBytes =
      [4, 3, 2, 1] ++ .replicate 56 0 ++ [0xFE, 0xFF, 0xFF, 0xFF] := by decide
  exact ⟨extendWithin_whole, (sent _ extendWithin_whole _).2.trans spelled, (read _ _).mpr spelled,
    (set (ofCommand 0x01020304) 14 (-2)).1.status⟩

end Report

end ParamStore
