/-! Half-words and words as byte sequences, least significant byte first. -/
namespace ParamStore

abbrev Bytes := List UInt8

/-- What every cell holds after an erase. -/
def erasedByte : UInt8 := 0xFF

def erasedHalfword : UInt16 := 0xFFFF

def halfword (low high : UInt8) : UInt16 :=
  .ofNat (low.toNat + 256 * high.toNat)

def halfwordBytes (value : UInt16) : Bytes :=
  [.ofNat (value.toNat % 256), .ofNat (value.toNat / 256)]

theorem halfwordBytes_halfword (low high : UInt8) :
    halfwordBytes (halfword low high) = [low, high] := by
  have lowBound := low.toNat_lt
  have highBound := high.toNat_lt
  simp only [halfwordBytes, halfword, UInt16.toNat_ofNat', List.cons.injEq, and_true]
  constructor
  · apply UInt8.toNat_inj.1
    simp
  · apply UInt8.toNat_inj.1
    simp
    omega

theorem halfword_low_high (value : UInt16) :
    halfword (.ofNat (value.toNat % 256)) (.ofNat (value.toNat / 256)) = value := by
  have bound := value.toNat_lt
  apply UInt16.toNat_inj.1
  simp [halfword]
  omega

/-- The half-word that the first two bytes spell; missing bytes count as zero. -/
def halfwordOfBytes (bytes : Bytes) : UInt16 := halfword (bytes.getD 0 0) (bytes.getD 1 0)

def word (b₀ b₁ b₂ b₃ : UInt8) : UInt32 :=
  .ofNat (b₀.toNat + 256 * (b₁.toNat + 256 * (b₂.toNat + 256 * b₃.toNat)))

def wordBytes (value : UInt32) : Bytes :=
  [.ofNat (value.toNat % 256), .ofNat (value.toNat / 256 % 256),
   .ofNat (value.toNat / 65536 % 256), .ofNat (value.toNat / 16777216)]

/-- The word that the first four bytes spell; missing bytes count as zero. -/
def wordOfBytes (bytes : Bytes) : UInt32 :=
  word (bytes.getD 0 0) (bytes.getD 1 0) (bytes.getD 2 0) (bytes.getD 3 0)

theorem halfwordOfBytes_halfwordBytes (value : UInt16) (rest : Bytes) :
    halfwordOfBytes (halfwordBytes value ++ rest) = value := by
  simpa [halfwordOfBytes, halfwordBytes] using halfword_low_high value

theorem wordBytes_word (b₀ b₁ b₂ b₃ : UInt8) : wordBytes (word b₀ b₁ b₂ b₃) = [b₀, b₁, b₂, b₃] := by
  have := b₀.toNat_lt
  have := b₁.toNat_lt
  have := b₂.toNat_lt
  have := b₃.toNat_lt
  simp only [wordBytes, word, UInt32.toNat_ofNat', List.cons.injEq, and_true]
  refine ⟨?_, ?_, ?_, ?_⟩ <;> apply UInt8.toNat_inj.1 <;> simp <;> omega

theorem wordOfBytes_wordBytes (value : UInt32) (rest : Bytes) :
    wordOfBytes (wordBytes value ++ rest) = value := by
  have bound := value.toNat_lt
  apply UInt32.toNat_inj.1
  simp [wordOfBytes, wordBytes, word]
  omega

end ParamStore
