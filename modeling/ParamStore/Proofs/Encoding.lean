import Mathlib.Data.Nat.Digits.Defs
import ParamStore.Wire.Basic

/-! The byte form of typed values. `Spells` gives the format as rules on the bytes, type by type, without
saying how they are come by; each value has one form that keeps them, which is the one written, and
reading it back from the front of any bytes gives the value and leaves what follows. -/
namespace ParamStore

namespace Varint

/-- The bytes are `number` in groups of seven bits, least significant first. The high bit tells that
more groups follow, and there are no more of them than needed. -/
structure Leb128 (number : Nat) (bytes : Bytes) : Prop where
  digits : Nat.ofDigits 128 (bytes.map (·.toNat % 128)) = number
  continued : ∀ byte ∈ bytes.dropLast, 128 ≤ byte.toNat
  final : ∃ byte, bytes.getLast? = some byte ∧ byte.toNat < 128
  shortest : bytes = [0] ∨ bytes.getLast? ≠ some 0

theorem encode_of_small {value : Nat} (small : value < 128) : encode value = [.ofNat value] := by
  rw [encode, if_pos small]

theorem encode_of_large {value : Nat} (large : 128 ≤ value) :
    encode value = .ofNat (128 + value % 128) :: encode (value / 128) := by
  rw [encode, if_neg (by omega)]

theorem toNat_low {value : Nat} (small : value < 128) : (UInt8.ofNat value).toNat = value := by
  rw [UInt8.toNat_ofNat']
  omega

theorem toNat_high (value : Nat) :
    (UInt8.ofNat (128 + value % 128)).toNat = 128 + value % 128 := by
  rw [UInt8.toNat_ofNat']
  omega

theorem getLast?_more {bytes : Bytes} (more : bytes ≠ []) (byte : UInt8) :
    (byte :: bytes).getLast? = bytes.getLast? := by
  rw [List.getLast?_cons, List.getLast?_eq_some_getLast more]
  rfl

/-- A group in front of others. -/
theorem Leb128.cons {number : Nat} {bytes : Bytes} (spelled : Leb128 number bytes)
    (positive : 0 < number) (byte : UInt8) (high : 128 ≤ byte.toNat) :
    Leb128 (byte.toNat % 128 + 128 * number) (byte :: bytes) := by
  obtain ⟨last, found, low⟩ := spelled.final
  have more : bytes ≠ [] := by
    rintro rfl
    cases found
  refine ⟨?_, ?_, ⟨last, ?_, low⟩, .inr ?_⟩
  · rw [List.map_cons, Nat.ofDigits_cons, spelled.digits]
  · intro other member
    rw [List.dropLast_cons_of_ne_nil more] at member
    rcases List.mem_cons.mp member with rfl | later
    · exact high
    · exact spelled.continued other later
  · rw [getLast?_more more, found]
  · rw [getLast?_more more]
    rcases spelled.shortest with rfl | nonzero
    · simp [← spelled.digits] at positive
    · exact nonzero

theorem leb128_encode (value : Nat) : Leb128 value (encode value) := by
  fun_induction encode value with
  | case1 value small =>
    have low := toNat_low small
    refine ⟨by simp [low, Nat.mod_eq_of_lt small], by simp, ⟨.ofNat value, rfl, by omega⟩,
      ?_⟩
    by_cases zero : value = 0
    · exact .inl (by rw [zero]; rfl)
    · refine .inr fun last => zero ?_
      have same : UInt8.ofNat value = 0 := by simpa using last
      rw [← low, same]
      rfl
  | case2 value large ih =>
    have high := toNat_high value
    have spelled := ih.cons (by omega) (.ofNat (128 + value % 128)) (by omega)
    rw [high] at spelled
    have number : (128 + value % 128) % 128 + 128 * (value / 128) = value := by omega
    rwa [number] at spelled

/-- There is no other way to write a number. -/
theorem Leb128.eq_encode {number : Nat} {bytes : Bytes} (spelled : Leb128 number bytes) :
    bytes = encode number := by
  induction bytes generalizing number with
  | nil =>
    obtain ⟨last, found, -⟩ := spelled.final
    cases found
  | cons byte later ih =>
    have digits := spelled.digits
    rw [List.map_cons, Nat.ofDigits_cons] at digits
    by_cases single : later = []
    · subst single
      obtain ⟨last, found, low⟩ := spelled.final
      obtain rfl : byte = last := Option.some.inj found
      have value : byte.toNat = number := by simpa [Nat.mod_eq_of_lt low] using digits
      rw [encode_of_small (value ▸ low), ← value, UInt8.ofNat_toNat]
    · have ends := getLast?_more single byte
      have nonzero : later.getLast? ≠ some 0 := by
        rcases spelled.shortest with zero | nonzero
        · exact absurd (List.cons.inj zero).2 single
        · rwa [← ends]
      have continued := spelled.continued
      rw [List.dropLast_cons_of_ne_nil single] at continued
      have high := continued byte (by simp)
      have rest : later = encode (Nat.ofDigits 128 (later.map (·.toNat % 128))) :=
        ih ⟨rfl, fun other member => continued other (by simp [member]), ends ▸ spelled.final,
          .inr nonzero⟩
      -- A number of more than one group is not below the first power of the base.
      have positive : Nat.ofDigits 128 (later.map (·.toNat % 128)) ≠ 0 := by
        intro zero
        rw [zero] at rest
        exact nonzero (by rw [rest, encode_of_small (by decide)]; rfl)
      have bound := byte.toNat_lt
      have quotient : number / 128 = Nat.ofDigits 128 (later.map (·.toNat % 128)) := by omega
      have group : 128 + number % 128 = byte.toNat := by omega
      rw [encode_of_large (by omega), quotient, ← rest, group, UInt8.ofNat_toNat]

/-- With `left` groups before it, a last group of up to `last` is read. -/
theorem decodeGroups_encode {last left value : Nat} (narrow : last < 128)
    (small : value < Nat.pow 128 left * (last + 1)) (rest : Bytes) :
    decodeGroups last (left + 1) (encode value ++ rest) = some (value, rest) := by
  induction left generalizing value with
  | zero =>
    have bound : value < last + 1 := by simpa using small
    have low := toNat_low (show value < 128 by omega)
    have below : UInt8.ofNat value < 128 := UInt8.lt_iff_toNat_lt.mpr
      (show (UInt8.ofNat value).toNat < 128 by omega)
    rw [encode_of_small (by omega)]
    simp only [List.singleton_append, decodeGroups, if_pos below, low]
    rw [if_neg (by omega)]
  | succ left ih =>
    by_cases single : value < 128
    · have low := toNat_low single
      have below : UInt8.ofNat value < 128 := UInt8.lt_iff_toNat_lt.mpr
        (show (UInt8.ofNat value).toNat < 128 by omega)
      rw [encode_of_small single]
      simp [decodeGroups, below, low]
    · have high := toNat_high value
      have above : ¬UInt8.ofNat (128 + value % 128) < 128 := by
        rw [UInt8.lt_iff_toNat_lt, high]
        simp
      have smaller : value / 128 < Nat.pow 128 left * (last + 1) := by
        apply Nat.div_lt_of_lt_mul
        calc value < Nat.pow 128 left * 128 * (last + 1) := small
          _ = 128 * (Nat.pow 128 left * (last + 1)) := by
            rw [Nat.mul_comm (Nat.pow 128 left) 128, Nat.mul_assoc]
      rw [encode_of_large (by omega), List.cons_append, decodeGroups, if_neg above, ih smaller]
      simp only [high, Option.bind_eq_bind, Option.bind_some, Option.pure_def, Option.some.injEq,
        Prod.mk.injEq, and_true]
      omega

theorem pow_groups (full last : Nat) :
    Nat.pow 2 (7 * full + last) = Nat.pow 128 full * Nat.pow 2 last :=
  calc Nat.pow 2 (7 * full + last)
    _ = Nat.pow 2 (7 * full) * Nat.pow 2 last := Nat.pow_add 2 (7 * full) last
    _ = Nat.pow 128 full * Nat.pow 2 last := congrArg (· * Nat.pow 2 last) (Nat.pow_mul 2 7 full)

/-- A number is read back by a reader that expects as many bits. -/
theorem decode_encode {bits value : Nat} (positive : 0 < bits) (small : value < Nat.pow 2 bits)
    (rest : Bytes) : decode bits (encode value ++ rest) = some (value, rest) := by
  obtain ⟨full, last, narrow, rfl⟩ : ∃ full last, last < 7 ∧ bits = 7 * full + (last + 1) :=
    ⟨(bits - 1) / 7, (bits - 1) % 7, by omega, by omega⟩
  have count : groups (7 * full + (last + 1)) = full + 1 := by
    simp only [groups]
    omega
  have most : Nat.pow 2 (last + 1) ≤ Nat.pow 2 7 := Nat.pow_le_pow_right (by decide) narrow
  have least : 0 < Nat.pow 2 (last + 1) := Nat.two_pow_pos (last + 1)
  rw [pow_groups] at small
  rw [decode, lastGroup, count, Nat.add_sub_cancel, Nat.add_sub_cancel_left]
  apply decodeGroups_encode
  · exact Nat.lt_of_lt_of_le (Nat.sub_one_lt_of_lt least) most
  · rwa [Nat.sub_add_cancel least]

theorem unzigzag_zigzag (value : Int) : unzigzag (zigzag value) = value := by
  unfold zigzag unzigzag
  split <;> split <;> omega

theorem zigzag_lt {value : Int} {bound : Nat} (above : -(bound : Int) ≤ value)
    (below : value < bound) : zigzag value < bound * 2 := by
  unfold zigzag
  split <;> omega

/-- The sign goes to the lowest bit. -/
theorem zigzag_eq (value : Int) :
    (zigzag value : Int) = if 0 ≤ value then 2 * value else -2 * value - 1 := by
  unfold zigzag
  split <;> omega

end Varint

namespace Decoder

variable {α β : Type}

theorem bind_eq {first : Decoder α} {next : α → Decoder β} {input rest : Bytes} {value : α}
    (read : first input = some (value, rest)) : (first >>= next) input = next value rest := by
  simp only [bind, StateT.bind, read, Option.bind]

theorem map_eq {first : Decoder α} {f : α → β} {input rest : Bytes} {value : α}
    (read : first input = some (value, rest)) :
    (do return f (← first) : Decoder β) input = some (f value, rest) := bind_eq read

theorem lift_eq {found : Option α} {value : α} (known : found = some value) (rest : Bytes) :
    (liftM found : Decoder α) rest = some (value, rest) := by
  subst known
  rfl

theorem bytes_eq (read rest : Bytes) : bytes read.length (read ++ rest) = some (read, rest) := by
  simp [bytes]

theorem varint_eq {bits value : Nat} (positive : 0 < bits) (small : value < Nat.pow 2 bits)
    (rest : Bytes) : varint bits (Varint.encode value ++ rest) = some (value, rest) :=
  Varint.decode_encode positive small rest

theorem length_eq {count : Nat} (small : count < 0x10000000000000000) (rest : Bytes) :
    length (Varint.encode count ++ rest) = some (count, rest) := varint_eq (by decide) small rest

theorem items_eq {item : Decoder α} {encode : α → Bytes} {values : List α}
    (read : ∀ value ∈ values, ∀ rest, item (encode value ++ rest) = some (value, rest))
    (rest : Bytes) : items item values.length (values.flatMap encode ++ rest) = some (values, rest) := by
  induction values with
  | nil => rfl
  | cons value later ih =>
    have others := ih fun other member => read other (by simp [member])
    rw [List.length_cons, items, List.flatMap_cons, List.append_assoc,
      bind_eq (read value (by simp) _), bind_eq others]
    rfl

theorem text_eq (value : String) (rest : Bytes) :
    text value.utf8ByteSize (value.toUTF8.data.toList ++ rest) = some (value, rest) := by
  have read := bytes_eq value.toUTF8.data.toList rest
  have size : value.toUTF8.data.toList.length = value.utf8ByteSize := rfl
  rw [size] at read
  have valid : String.fromUTF8? value.toUTF8 = some value := by
    simp only [String.fromUTF8?, String.toUTF8_eq_toByteArray, dif_pos value.isValidUTF8]
    rfl
  rw [text, bind_eq read, Array.toArray_toList]
  exact lift_eq valid rest

end Decoder

namespace Wire

variable {α : Type}

/-- A value is read back whatever follows it, unless a length needs more than 64 bits. -/
def Lawful (α : Type) [Wire α] : Prop :=
  ∀ (value : α) (rest : Bytes), (encode value).length < 0x10000000000000000 →
    (decode : Decoder α) (encode value ++ rest) = some (value, rest)

theorem lawful_bool : Lawful Bool := by
  intro value rest _
  cases value <;> rfl

theorem lawful_uint8 : Lawful UInt8 := fun _ _ _ => rfl

theorem lawful_int8 : Lawful Int8 := fun _ _ _ => rfl

/-- Types that are written as a number of so many bits. -/
theorem lawful_of_varint [Wire α] {bits : Nat} (positive : 0 < bits) {code : α → Nat}
    {ofCode : Nat → α} (written : ∀ value, encode value = Varint.encode (code value))
    (read : (decode : Decoder α) = do return ofCode (← Decoder.varint bits))
    (small : ∀ value, code value < Nat.pow 2 bits) (back : ∀ value, ofCode (code value) = value) :
    Lawful α := by
  intro value rest _
  rw [read, written, Decoder.map_eq (Decoder.varint_eq positive (small value) rest), back]

theorem lawful_uint16 : Lawful UInt16 :=
  lawful_of_varint (by decide) (fun _ => rfl) rfl (fun value => value.toNat_lt) fun value =>
    UInt16.ofNat_toNat

theorem lawful_uint32 : Lawful UInt32 :=
  lawful_of_varint (by decide) (fun _ => rfl) rfl (fun value => value.toNat_lt) fun value =>
    UInt32.ofNat_toNat

theorem lawful_uint64 : Lawful UInt64 :=
  lawful_of_varint (by decide) (fun _ => rfl) rfl (fun value => value.toNat_lt) fun value =>
    UInt64.ofNat_toNat

/-- Signed numbers of so many bits. -/
theorem lawful_of_zigzag [Wire α] {bits : Nat} {toInt : α → Int} {ofInt : Int → α}
    (written : ∀ value, encode value = Varint.encode (Varint.zigzag (toInt value)))
    (read : (decode : Decoder α) = do return ofInt (Varint.unzigzag (← Decoder.varint (bits + 1))))
    (bounds : ∀ value, -(Nat.pow 2 bits : Int) ≤ toInt value ∧ toInt value < Nat.pow 2 bits)
    (back : ∀ value, ofInt (toInt value) = value) : Lawful α := by
  refine lawful_of_varint (Nat.succ_pos bits) written read (fun value => ?_) fun value => ?_
  · exact Varint.zigzag_lt (bounds value).1 (bounds value).2
  · rw [Varint.unzigzag_zigzag, back]

theorem lawful_int16 : Lawful Int16 :=
  lawful_of_zigzag (fun _ => rfl) rfl (fun value => ⟨value.le_toInt, value.toInt_lt⟩)
    Int16.ofInt_toInt

theorem lawful_int32 : Lawful Int32 :=
  lawful_of_zigzag (fun _ => rfl) rfl (fun value => ⟨value.le_toInt, value.toInt_lt⟩)
    Int32.ofInt_toInt

theorem lawful_int64 : Lawful Int64 :=
  lawful_of_zigzag (fun _ => rfl) rfl (fun value => ⟨value.le_toInt, value.toInt_lt⟩)
    Int64.ofInt_toInt

theorem lawful_binary32 : Lawful Binary32 := by
  intro value rest _
  have read := Decoder.bytes_eq (wordBytes value.bits) rest
  have bits := wordOfBytes_wordBytes value.bits []
  rw [List.append_nil] at bits
  exact (Decoder.map_eq read).trans (by rw [bits])

theorem lawful_string : Lawful String := by
  intro value rest bounded
  have total : (encode value).length =
    (Varint.encode value.utf8ByteSize).length + value.utf8ByteSize := List.length_append
  calc (decode : Decoder String) (encode value ++ rest)
    _ = (Decoder.length >>= Decoder.text)
        (Varint.encode value.utf8ByteSize ++ (value.toUTF8.data.toList ++ rest)) := by
      rw [← List.append_assoc]
      rfl
    _ = Decoder.text value.utf8ByteSize (value.toUTF8.data.toList ++ rest) :=
      Decoder.bind_eq (Decoder.length_eq (by omega) _)
    _ = some (value, rest) := Decoder.text_eq value rest

theorem lawful_char : Lawful Char := by
  intro value rest _
  have size : value.toString.utf8ByteSize = value.utf8Size := by simp [Char.toString_eq_singleton]
  have short := value.utf8Size_le_four
  have first : value.toString.toList.head? = some value := by simp
  have counted : Decoder.length (encode value ++ rest) =
      some (value.toString.utf8ByteSize, value.toString.toUTF8.data.toList ++ rest) := by
    rw [← Decoder.length_eq (by omega) (value.toString.toUTF8.data.toList ++ rest),
      ← List.append_assoc]
    rfl
  refine (Decoder.bind_eq counted).trans ?_
  rw [if_neg (by omega)]
  exact (Decoder.bind_eq (Decoder.text_eq value.toString rest)).trans (Decoder.lift_eq first rest)

theorem encode_bytes (value : Bytes) : encode value = Varint.encode value.length ++ value :=
  congrArg (Varint.encode value.length ++ ·) (List.flatMap_singleton' value)

theorem lawful_bytes : Lawful Bytes := by
  intro value rest bounded
  rw [encode_bytes, List.length_append] at bounded
  calc (decode : Decoder Bytes) (encode value ++ rest)
    _ = (Decoder.length >>= Decoder.items decode)
        (Varint.encode value.length ++ (encodeList value ++ rest)) := by
      rw [← List.append_assoc]
      rfl
    _ = Decoder.items decode value.length (encodeList value ++ rest) :=
      Decoder.bind_eq (Decoder.length_eq (by omega) _)
    _ = some (value, rest) := Decoder.items_eq (fun _ _ _ => rfl) rest

theorem lawful_option [Wire α] (item : Lawful α) : Lawful (Option α) := by
  intro value rest bounded
  cases value with
  | none => rfl
  | some content =>
    have shorter : (encode content).length < 0x10000000000000000 := by
      simp only [encode, List.length_cons] at bounded
      omega
    exact Decoder.map_eq (item content rest shorter)

end Wire

inductive WireType where
  | bool | uint8 | uint16 | uint32 | uint64 | int8 | int16 | int32 | int64
  | binary32 | string | char | bytes
  | option (item : WireType)
  deriving DecidableEq, Repr

namespace WireType

abbrev Value : WireType → Type
  | bool => Bool
  | uint8 => UInt8
  | uint16 => UInt16
  | uint32 => UInt32
  | uint64 => UInt64
  | int8 => Int8
  | int16 => Int16
  | int32 => Int32
  | int64 => Int64
  | binary32 => Binary32
  | string => String
  | char => Char
  | bytes => Bytes
  | option item => Option item.Value

instance wire : (type : WireType) → Wire type.Value
  | bool => inferInstanceAs (Wire Bool)
  | uint8 => inferInstanceAs (Wire UInt8)
  | uint16 => inferInstanceAs (Wire UInt16)
  | uint32 => inferInstanceAs (Wire UInt32)
  | uint64 => inferInstanceAs (Wire UInt64)
  | int8 => inferInstanceAs (Wire Int8)
  | int16 => inferInstanceAs (Wire Int16)
  | int32 => inferInstanceAs (Wire Int32)
  | int64 => inferInstanceAs (Wire Int64)
  | binary32 => inferInstanceAs (Wire Binary32)
  | string => inferInstanceAs (Wire String)
  | char => inferInstanceAs (Wire Char)
  | bytes => inferInstanceAs (Wire Bytes)
  | option item => letI := item.wire; inferInstanceAs (Wire (Option item.Value))

/-- The bytes are the length of `content` and `content`. -/
def Counted (content bytes : Bytes) : Prop :=
  ∃ count, Varint.Leb128 content.length count ∧ bytes = count ++ content

/-- The bytes are a number with its sign in the lowest bit. -/
def Signed (value : Int) (bytes : Bytes) : Prop :=
  ∃ code : Nat, Varint.Leb128 code bytes ∧ (code : Int) = if 0 ≤ value then 2 * value else -2 * value - 1

/-- The bytes are the four of a word, least significant first. -/
def FourBytes (word : UInt32) (bytes : Bytes) : Prop :=
  ∃ first second third fourth : UInt8, bytes = [first, second, third, fourth] ∧
    word.toNat = first.toNat + 0x100 * second.toNat + 0x10000 * third.toNat +
      0x1000000 * fourth.toNat

/-- The bytes are the value in the format of its type. -/
def Spells : (type : WireType) → type.Value → Bytes → Prop
  | bool, value, text => text = [if value then 1 else 0]
  | uint8, value, text => text = [value]
  | int8, value, text => text = [value.toUInt8]
  | uint16, value, text => Varint.Leb128 value.toNat text
  | uint32, value, text => Varint.Leb128 value.toNat text
  | uint64, value, text => Varint.Leb128 value.toNat text
  | int16, value, text => Signed value.toInt text
  | int32, value, text => Signed value.toInt text
  | int64, value, text => Signed value.toInt text
  | binary32, value, text => FourBytes value.bits text
  | string, value, text => Counted value.toUTF8.data.toList text
  | char, value, text => Counted (String.singleton value).toUTF8.data.toList text
  | bytes, value, text => Counted value text
  | option item, value, text =>
    (value = none ∧ text = [0]) ∨
      ∃ content rest, value = some content ∧ text = 1 :: rest ∧ item.Spells content rest

theorem counted_iff {content text : Bytes} :
    Counted content text ↔ text = Varint.encode content.length ++ content := by
  constructor
  · intro spelled
    obtain ⟨count, number, rfl⟩ := spelled
    rw [number.eq_encode]
  · intro same
    exact ⟨_, Varint.leb128_encode _, same⟩

theorem leb128_iff {number : Nat} {text : Bytes} :
    Varint.Leb128 number text ↔ text = Varint.encode number :=
  ⟨Varint.Leb128.eq_encode, fun same => same ▸ Varint.leb128_encode number⟩

theorem signed_iff {value : Int} {text : Bytes} :
    Signed value text ↔ text = Varint.encode (Varint.zigzag value) := by
  rw [← leb128_iff, Signed, ← Varint.zigzag_eq]
  constructor
  · intro spelled
    obtain ⟨code, number, same⟩ := spelled
    rwa [Int.ofNat_inj.mp same] at number
  · exact fun number => ⟨_, number, rfl⟩

theorem fourBytes_iff {word : UInt32} {text : Bytes} :
    FourBytes word text ↔ text = wordBytes word := by
  have bound := word.toNat_lt
  constructor
  · rintro ⟨first, second, third, fourth, rfl, value⟩
    have := first.toNat_lt
    have := second.toNat_lt
    have := third.toNat_lt
    have := fourth.toNat_lt
    simp only [wordBytes, List.cons.injEq, and_true, ← UInt8.toNat_inj, UInt8.toNat_ofNat']
    omega
  · rintro rfl
    refine ⟨_, _, _, _, rfl, ?_⟩
    simp only [UInt8.toNat_ofNat']
    omega

/-- The format leaves no choice, and what is written is in it. -/
theorem spells_iff (type : WireType) {value : type.Value} {text : Bytes} :
    type.Spells value text ↔ text = Wire.encode value := by
  induction type generalizing text with
  | bool => cases value <;> rfl
  | uint8 | int8 => rfl
  | uint16 | uint32 | uint64 => exact leb128_iff
  | int16 | int32 | int64 => exact signed_iff
  | binary32 => exact fourBytes_iff
  | string => exact counted_iff
  | char => exact counted_iff
  | bytes => exact counted_iff.trans (by rw [← Wire.encode_bytes])
  | option item ih =>
    cases value with
    | none => simp [Spells, Wire.encode]
    | some content => simp [Spells, ih, Wire.encode]

theorem lawful (type : WireType) : Wire.Lawful type.Value := by
  induction type with
  | bool => exact Wire.lawful_bool
  | uint8 => exact Wire.lawful_uint8
  | uint16 => exact Wire.lawful_uint16
  | uint32 => exact Wire.lawful_uint32
  | uint64 => exact Wire.lawful_uint64
  | int8 => exact Wire.lawful_int8
  | int16 => exact Wire.lawful_int16
  | int32 => exact Wire.lawful_int32
  | int64 => exact Wire.lawful_int64
  | binary32 => exact Wire.lawful_binary32
  | string => exact Wire.lawful_string
  | char => exact Wire.lawful_char
  | bytes => exact Wire.lawful_bytes
  | option item ih => exact Wire.lawful_option ih

end WireType

end ParamStore
