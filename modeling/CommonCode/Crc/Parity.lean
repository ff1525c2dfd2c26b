import CommonCode.Crc.Detection

/-!
# Errors of odd weight

A generator with an even number of terms has the root one, and so has every
multiple of it.  Two messages of one length and one CRC value differ by such a
multiple, so they differ in an even number of bits.  Every 8-bit and 16-bit
preset of the code has such a generator.
-/

noncomputable section

open Polynomial

namespace CommonCode.Crc

open CommonCode.Lib.Bits
open CommonCode.Lib.BinaryPoly

variable {width : Nat}

/-! ## Presets and differing bits -/

def crc8Presets : List CRC_8 :=
  [crc_8, crc_8_ITU, crc_8_ROHC, crc_8_MAXIM]

def crc16Presets : List CRC_16 :=
  [crc_16_IBM, crc_16_MAXIM, crc_16_USB, crc_16_MODBUS, crc_16_CCITT,
    crc_16_CCITT_FALSE, crc_16_X5, crc_16_XMODEM, crc_16_DNP]

/-- The number of bits in which two messages differ. -/
def bitDistance (left right : List Byte) : Nat :=
  ((bytesBits left).zipWith (· ^^ ·) (bytesBits right)).count true

/-- The number of bits that are set in a register. -/
def weight (register : BitVec width) : Nat :=
  (bitsOfRegister register).count true

/-! ## The order of the bits does not matter -/

theorem count_processingBits (inputReverse : BitVec 8) (byte : Byte) :
    (processingBits inputReverse byte).count true =
      (bitsOfRegister byte).count true := by
  unfold processingBits
  split
  · exact List.count_reverse
  · rfl

theorem count_messageBits (inputReverse : BitVec 8) (message : List Byte) :
    (messageBits inputReverse message).count true =
      (bytesBits message).count true := by
  induction message with
  | nil => rfl
  | cons byte rest induction =>
      rw [messageBits, List.flatMap_cons, List.count_append,
        count_processingBits, ← messageBits, induction, bytesBits_cons,
        List.count_append]

/-- At one the messages differ by the parity of their differing bits. -/
theorem eval_one_difference
    (inputReverse : BitVec 8) {left right : List Byte}
    (sameLength : left.length = right.length) :
    (bitsPoly (messageBits inputReverse left) +
        bitsPoly (messageBits inputReverse right)).eval 1 =
      (bitDistance left right : ZMod 2) := by
  have bitLength : (bytesBits left).length = (bytesBits right).length := by
    rw [length_bytesBits, length_bytesBits, sameLength]
  have distance :
      (bitDistance left right : ZMod 2) =
        (bitsPoly (bytesBits left) + bitsPoly (bytesBits right)).eval 1 := by
    rw [← bitsPoly_zipWith_xor bitLength, eval_one_bitsPoly, bitDistance]
  rw [distance, eval_add, eval_add, eval_one_bitsPoly, eval_one_bitsPoly,
    eval_one_bitsPoly, eval_one_bitsPoly, count_messageBits,
    count_messageBits]

/-! ## Generators with an even number of terms -/

/-- Together with the leading term the generator has an even number of terms. -/
def EvenTerms (poly : BitVec width) : Prop :=
  Even (1 + weight poly)

theorem eval_one_generator {poly : BitVec width} (even : EvenTerms poly) :
    (generator poly).eval 1 = 0 := by
  have terms : ((1 + weight poly : Nat) : ZMod 2) = 0 :=
    (ZMod.natCast_eq_zero_iff_even).mpr even
  rw [generator, eval_add, eval_pow, eval_X, one_pow,
    ← bitsPoly_bitsOfRegister, eval_one_bitsPoly]
  exact_mod_cast terms

/-- A polynomial CRC with such a generator detects every error of odd weight. -/
theorem IsPolynomialCrc.ne_of_odd
    {type : CrcType width} {left right : List Byte}
    {leftValue rightValue : BitVec width}
    (leftCrc : IsPolynomialCrc type left leftValue)
    (rightCrc : IsPolynomialCrc type right rightValue)
    (even : EvenTerms type.poly)
    (sameLength : left.length = right.length)
    (odd : Odd (bitDistance left right)) :
    leftValue ≠ rightValue := by
  rintro rfl
  rcases generator_dvd_difference sameLength
      (leftCrc.remainder_eq rightCrc) with ⟨quotient, multiple⟩
  have root := congrArg (eval 1) multiple
  rw [eval_mul, eval_mul, eval_one_difference _ sameLength, eval_pow,
    eval_X, one_pow, mul_one, eval_one_generator even, zero_mul,
    ZMod.natCast_eq_zero_iff_even] at root
  exact Nat.not_even_iff_odd.mpr odd root

/-! ## The presets -/

theorem evenTerms_crc8Presets :
    ∀ type ∈ crc8Presets, EvenTerms type.poly := by
  unfold EvenTerms
  decide

theorem evenTerms_crc16Presets :
    ∀ type ∈ crc16Presets, EvenTerms type.poly := by
  unfold EvenTerms
  decide

/--
Two messages of one length that differ in an odd number of bits have different
CRC values under every 8-bit and every 16-bit preset.
-/
theorem presets_detect_odd_errors
    (left right : List Byte) (sameLength : left.length = right.length)
    (odd : Odd (bitDistance left right)) :
    (∀ type ∈ crc8Presets, crc8 left type ≠ crc8 right type) ∧
      ∀ type ∈ crc16Presets, crc16 left type ≠ crc16 right type := by
  constructor
  · intro type member
    exact
      (crc8_isPolynomialCrc type left).ne_of_odd
        (crc8_isPolynomialCrc type right)
        (evenTerms_crc8Presets type member) sameLength odd
  · intro type member
    exact
      (crc16_isPolynomialCrc type left).ne_of_odd
        (crc16_isPolynomialCrc type right)
        (evenTerms_crc16Presets type member) sameLength odd

theorem presets_detect_odd_errors_three_bits :
    (∀ type ∈ crc8Presets,
        crc8 [0x00, 0x41] type ≠ crc8 [0x80, 0x00] type) ∧
      ∀ type ∈ crc16Presets,
        crc16 [0x00, 0x41] type ≠ crc16 [0x80, 0x00] type :=
  presets_detect_odd_errors [0x00, 0x41] [0x80, 0x00] rfl (by decide)

end CommonCode.Crc

end
