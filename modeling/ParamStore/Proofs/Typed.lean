import ParamStore.Proofs.Encoding
import ParamStore.Proofs.Update
import ParamStore.Store.Typed

/-! Typed values through the store. Saving is a write of the one form that the format gives a value,
unless that is longer than a typed value may be; what was saved is loaded again, also where the write
had to compact the log first. -/
namespace ParamStore.Store

variable {α : Type} [Wire α] {store : Store} {chip : Chip} {log : Log} {values : Values}
  {parameter : UInt16} {value : α} {stored : Bytes}

theorem save_of_short (short : (Wire.encode value).length ≤ maxEncoded) :
    store.save parameter value = store.write parameter (Wire.encode value) :=
  if_neg (Nat.not_lt.mpr short)

theorem save_of_long (long : maxEncoded < (Wire.encode value).length) :
    store.save parameter value = .fail .serialize := if_pos long

/-- A value that was written in the form of its type is loaded. -/
theorem load_of_encoded (mounted : store.Mounted chip) (shows : store.Shows chip.cell values)
    (valid : isValidParameter parameter = true) (lawful : Wire.Lawful α)
    (short : (Wire.encode value).length ≤ maxEncoded)
    (found : values parameter = some (Wire.encode value)) :
    store.load chip parameter = .ok value := by
  have decoded := lawful value [] (by simp only [maxEncoded] at short; omega)
  rw [List.append_nil] at decoded
  simp only [load, mounted.read_of_shows shows, Values.read, if_pos valid, found, bind, Except.bind,
    List.take_of_length_le short, Nat.not_lt.mpr short, decide_false, Bool.false_eq_true,
    ↓reduceIte, decoded, pure, Except.pure]

/-- A value that is too long for any type is not loaded. -/
theorem load_of_long (mounted : store.Mounted chip) (shows : store.Shows chip.cell values)
    (valid : isValidParameter parameter = true) (long : maxEncoded < stored.length)
    (found : values parameter = some stored) :
    (store.load chip parameter : Attempt StoreError α) = .fail .deserialize := by
  simp only [load, mounted.read_of_shows shows, Values.read, if_pos valid, found, bind, Except.bind,
    long, decide_true, ↓reduceIte]

theorem load_of_saved (mounted : store.Mounted chip) (steady : chip.faults.corruptNext = false)
    (holds : store.Holds chip.cell log) (lawful : Wire.Lawful α)
    (short : (Wire.encode value).length ≤ maxEncoded)
    (done : (store.write parameter (Wire.encode value)).outcome chip = .ok ()) :
    store.load ((store.write parameter (Wire.encode value)).after chip) parameter = .ok value := by
  have guarantee : (store.write parameter (Wire.encode value)).Ensures chip _ _ :=
    write_ensures mounted holds steady
  rcases guarantee.outcome_cases with ⟨_, -, valid, fits, keeps, grown, stored⟩ | ⟨cause, failed, -⟩
  · refine load_of_encoded (mounted.keeps keeps) (stored.shows holds mounted valid fits) valid lawful
      short ?_
    simp [Values.set]
  · rw [failed] at done
    cases done

/-- On a chip without faults and with a clean log: the format gives a value one form. If that has at
most 64 bytes, saving the value does what writing the form does, and once it is done the value is
loaded. If it has more, saving is refused and nothing happens. From what is longer than 64 bytes, a
value of no type is loaded. -/
theorem saved_value_loads (mounted : store.Mounted chip) (faultless : chip.Faultless)
    (clean : store.Clean chip) (valid : isValidParameter parameter = true) (type : WireType)
    (value : type.Value) :
    (∃ form, (∀ text, type.Spells value text ↔ text = form) ∧
      (form.length ≤ 64 →
        (store.save parameter value).outcome chip = (store.write parameter form).outcome chip ∧
        (store.save parameter value).after chip = (store.write parameter form).after chip ∧
        ((store.save parameter value).outcome chip = .ok () →
          store.load ((store.save parameter value).after chip) parameter = .ok value)) ∧
      (64 < form.length →
        (store.save parameter value).outcome chip = .fail .serialize ∧
        (store.save parameter value).after chip = chip)) ∧
    ∀ stored, store.value? chip parameter = some stored → 64 < stored.length →
      (store.load chip parameter : Attempt StoreError type.Value) = .fail .deserialize := by
  obtain ⟨log, found⟩ := clean
  have holds := mounted.log_eq_ok_iff.mp found
  refine ⟨⟨Wire.encode value, fun text => type.spells_iff, ?_, ?_⟩, ?_⟩
  · intro short
    rw [save_of_short short]
    exact ⟨rfl, rfl, load_of_saved mounted faultless.steady holds type.lawful short⟩
  · intro long
    rw [save_of_long long]
    exact ⟨rfl, rfl⟩
  · intro stored known long
    rw [mounted.value?_eq holds] at known
    exact load_of_long mounted ⟨log, holds, rfl⟩ valid long known

/-- A negative number, which takes two groups. -/
theorem saved_value_loads_sample :
    sample.Mounted sampleChip ∧ sampleChip.Faultless ∧ sample.Clean sampleChip ∧
      (sample.save 7 (-300 : Int16)).outcome sampleChip =
        (sample.write 7 [0xD7, 0x04]).outcome sampleChip ∧
      (sample.save 7 (-300 : Int16)).outcome sampleChip = .ok () ∧
      sample.load ((sample.save 7 (-300 : Int16)).after sampleChip) 7 = .ok (-300 : Int16) := by
  have clean : sample.Clean sampleChip := ⟨sampleLog, sample_log⟩
  have spelled : Wire.encode (-300 : Int16) = [0xD7, 0x04] :=
    calc Wire.encode (-300 : Int16)
      _ = Varint.encode 599 := rfl
      _ = [0xD7, 0x04] := by
        rw [Varint.encode_of_large (by decide), Varint.encode_of_small (by decide)]
        rfl
  obtain ⟨⟨form, unique, fits, -⟩, -⟩ :=
    saved_value_loads sample_mounted rfl clean (show isValidParameter 7 = true by decide) .int16 (-300)
  obtain rfl : [0xD7, 0x04] = form := (unique _).mp ((WireType.spells_iff .int16).mpr spelled.symm)
  obtain ⟨written, -, loads⟩ := fits (by decide)
  have done : (sample.write 7 [0xD7, 0x04]).outcome sampleChip = .ok () :=
    eq_ok_of_toOption (by decide +kernel)
  exact ⟨sample_mounted, rfl, clean, written, written.trans done, loads (written.trans done)⟩

end ParamStore.Store
