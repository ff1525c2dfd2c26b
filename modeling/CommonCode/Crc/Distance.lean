import CommonCode.Crc.Parity

/-!
# Errors of two bits

An error in two bits is the polynomial `X ^ distance + 1` times a power of `X`.
A generator with a constant term divides it exactly if `X ^ distance` is one
modulo the generator, and that is what the inner loop computes when it shifts a
register that holds one `distance` times.
-/

noncomputable section

open Polynomial

namespace CommonCode.Crc

open CommonCode.Lib.Bits
open CommonCode.Lib.BinaryPoly

variable {width : Nat}

/-! ## Two differing bits -/

/-- Two strings of bits differ in exactly two places, `distance` apart. -/
def DifferTwice (distance : Nat) (left right : List Bool) : Prop :=
  ∃ front middle back first second,
    left = front ++ first :: (middle ++ second :: back) ∧
      right = front ++ (!first) :: (middle ++ (!second) :: back) ∧
      middle.length + 1 = distance

theorem bitCoeff_not (bit : Bool) :
    bitCoeff bit + bitCoeff (!bit) = 1 := by
  cases bit <;> rfl

theorem DifferTwice.difference {distance : Nat} {left right : List Bool}
    (differ : DifferTwice distance left right) :
    ∃ exponent,
      bitsPoly left + bitsPoly right = (X ^ distance + 1) * X ^ exponent := by
  rcases differ with ⟨front, middle, back, first, second, rfl, rfl, rfl⟩
  refine ⟨back.length, ?_⟩
  have one (bit : Bool) :
      (C (bitCoeff bit) + C (bitCoeff (!bit)) : (ZMod 2)[X]) = 1 := by
    rw [← C_add, bitCoeff_not, C_1]
  simp only [bitsPoly_append, bitsPoly, List.length_append, List.length_cons]
  linear_combination
    X ^ (middle.length + (back.length + 1)) * one first +
      X ^ back.length * one second +
      add_self_gf2 (bitsPoly front *
        X ^ (middle.length + (back.length + 1) + 1)) +
      add_self_gf2 (bitsPoly middle * X ^ (back.length + 1)) +
      add_self_gf2 (bitsPoly back)

/-! ## Equal values -/

/-- Two messages of one length have one value exactly if the generator divides
their difference. -/
theorem IsPolynomialCrc.eq_iff_dvd
    {type : CrcType width} {left right : List Byte}
    {leftValue rightValue : BitVec width}
    (leftCrc : IsPolynomialCrc type left leftValue)
    (rightCrc : IsPolynomialCrc type right rightValue)
    (sameLength : left.length = right.length) :
    leftValue = rightValue ↔
      generator type.poly ∣
        (bitsPoly (messageBits type.inputReverse left) +
          bitsPoly (messageBits type.inputReverse right)) * X ^ width := by
  constructor
  · rintro rfl
    exact generator_dvd_difference sameLength (leftCrc.remainder_eq rightCrc)
  · intro divides
    have congruent :
        generator type.poly ∣
          crcDividend type left - crcDividend type right := by
      refine divides.trans (dvd_of_eq ?_)
      rw [sub_eq_add_gf2, crcDividend, crcDividend, sameLength]
      linear_combination
        - add_self_gf2 (toPoly type.initValue * X ^ (8 * right.length))
    have remainders : crcRemainder type left = crcRemainder type right := by
      rw [← modByMonic_eq_zero_iff_dvd (generator_monic type.poly),
        sub_modByMonic, sub_eq_zero] at congruent
      exact congruent
    rcases leftCrc with ⟨leftRemainder, leftPoly, rfl⟩
    rcases rightCrc with ⟨rightRemainder, rightPoly, rfl⟩
    have same : leftRemainder = rightRemainder := by
      apply toPoly_injective
      rw [leftPoly, rightPoly, remainders]
    rw [same]

/-! ## Powers of `X` -/

theorem toPoly_one (positive : 0 < width) :
    toPoly (1 : BitVec width) = 1 := by
  ext i
  rw [coeff_toPoly, coeff_one]
  have bit : (1 : BitVec width).getLsbD i = decide (i = 0) := by
    simp [BitVec.getLsbD_one, positive]
  rw [bit]
  by_cases first : i = 0 <;> simp [first]

/-- The inner loop finds the powers of `X` that are one. -/
theorem dvd_X_pow_add_one_iff {mask : BitVec width}
    (top : SelectsTopBit mask) (positive : 0 < width)
    (poly : BitVec width) (distance : Nat) :
    generator poly ∣ X ^ distance + 1 ↔
      (crcShift mask poly)^[distance] 1 = 1 := by
  have shifted := crcShift_iterate_congruent top poly 1 distance
  rw [toPoly_one positive, one_mul] at shifted
  constructor
  · intro divides
    have sum := dvd_add shifted divides
    have congruent :
        generator poly ∣
          toPoly ((crcShift mask poly)^[distance] 1) + 1 := by
      refine sum.trans (dvd_of_eq ?_)
      linear_combination add_self_gf2 (X ^ distance)
    have small (register : BitVec width) :
        (toPoly register).degree < (generator poly).degree := by
      rw [degree_generator]
      exact degree_toPoly_lt register
    have zero : generator poly ∣ toPoly (1 : BitVec width) + 1 := by
      rw [toPoly_one positive, add_self_gf2]
      exact dvd_zero _
    apply toPoly_injective
    rw [eq_modByMonic_of_dvd (generator_monic poly) (small _) congruent,
      eq_modByMonic_of_dvd (generator_monic poly) (small _) zero]
  · intro returns
    rwa [returns, toPoly_one positive, add_comm] at shifted

/-- An error of two bits is missed exactly at the distances at which the shifts
of the inner loop return to one. -/
theorem IsPolynomialCrc.eq_iff_returns
    {type : CrcType width} {left right : List Byte}
    {leftValue rightValue mask : BitVec width} {distance : Nat}
    (leftCrc : IsPolynomialCrc type left leftValue)
    (rightCrc : IsPolynomialCrc type right rightValue)
    (top : SelectsTopBit mask) (positive : 0 < width)
    (odd : type.poly.getLsbD 0 = true)
    (sameLength : left.length = right.length)
    (differ :
      DifferTwice distance (messageBits type.inputReverse left)
        (messageBits type.inputReverse right)) :
    leftValue = rightValue ↔
      (crcShift mask type.poly)^[distance] 1 = 1 := by
  have constant : (generator type.poly).coeff 0 = 1 := by
    rw [generator, coeff_add, coeff_X_pow, coeff_toPoly, odd]
    simp [positive.ne]
  rcases differ.difference with ⟨exponent, difference⟩
  rw [leftCrc.eq_iff_dvd rightCrc sameLength, difference, mul_assoc,
    ← pow_add, ← dvd_X_pow_add_one_iff top positive]
  have coprime := isCoprime_X_pow_of_coeff_zero constant (exponent + width)
  exact ⟨coprime.dvd_of_dvd_mul_right, fun divides => divides.mul_right _⟩

/-! ## The functions -/

/--
For every two messages of one length that differ in exactly two bits and every
odd polynomial, `crc8`, `crc16` and `crc32` miss the error exactly if the inner
loop, shifting a register that holds one as often as the bits are apart, returns
to one.
-/
theorem crc_functions_two_bits (left right : List Byte)
    (sameLength : left.length = right.length) (distance : Nat) :
    (∀ type : CRC_8,
      type.poly.getLsbD 0 = true →
        DifferTwice distance (messageBits type.inputReverse left)
          (messageBits type.inputReverse right) →
        (crc8 left type = crc8 right type ↔
          (crcShift 0x80#8 type.poly)^[distance] 1 = 1)) ∧
      (∀ type : CRC_16,
        type.poly.getLsbD 0 = true →
          DifferTwice distance (messageBits type.inputReverse left)
            (messageBits type.inputReverse right) →
          (crc16 left type = crc16 right type ↔
            (crcShift 0x8000#16 type.poly)^[distance] 1 = 1)) ∧
      (∀ type : CRC_32,
        type.poly.getLsbD 0 = true →
          DifferTwice distance (messageBits type.inputReverse left)
            (messageBits type.inputReverse right) →
          (crc32 left type = crc32 right type ↔
            (crcShift 0x80000000#32 type.poly)^[distance] 1 = 1)) :=
  ⟨fun type odd differ =>
      (crc8_isPolynomialCrc type left).eq_iff_returns
        (crc8_isPolynomialCrc type right) crc8_mask_selectsTopBit (by decide)
        odd sameLength differ,
    fun type odd differ =>
      (crc16_isPolynomialCrc type left).eq_iff_returns
        (crc16_isPolynomialCrc type right) crc16_mask_selectsTopBit
        (by decide) odd sameLength differ,
    fun type odd differ =>
      (crc32_isPolynomialCrc type left).eq_iff_returns
        (crc32_isPolynomialCrc type right) crc32_mask_selectsTopBit
        (by decide) odd sameLength differ⟩

/-- The bits are in different bytes. -/
theorem crc_functions_two_bits_two_bytes :
    (crc8 [0x12, 0x34, 0x56, 0x78] crc_8 =
        crc8 [0x12, 0x35, 0x56, 0xF8] crc_8 ↔
      (crcShift 0x80#8 crc_8.poly)^[9] 1 = 1) ∧
      (crc32 [0x12, 0x34, 0x56, 0x78] crc_32 =
          crc32 [0x12, 0x35, 0x56, 0xF8] crc_32 ↔
        (crcShift 0x80000000#32 crc_32.poly)^[23] 1 = 1) := by
  have differ :
      DifferTwice 9 (messageBits crc_8.inputReverse [0x12, 0x34, 0x56, 0x78])
        (messageBits crc_8.inputReverse [0x12, 0x35, 0x56, 0xF8]) :=
    ⟨(messageBits 0 [0x12, 0x34]).take 15, messageBits 0 [0x56],
      (messageBits 0 [0x78]).drop 1, false, false, by decide, by decide, rfl⟩
  have reversed :
      DifferTwice 23
        (messageBits crc_32.inputReverse [0x12, 0x34, 0x56, 0x78])
        (messageBits crc_32.inputReverse [0x12, 0x35, 0x56, 0xF8]) :=
    ⟨messageBits 1 [0x12], (messageBits 1 [0x34, 0x56, 0x78]).tail.take 22,
      [], false, false, by decide, by decide, by decide⟩
  exact
    ⟨(crc_functions_two_bits [0x12, 0x34, 0x56, 0x78]
        [0x12, 0x35, 0x56, 0xF8] rfl 9).1 crc_8 (by decide) differ,
      (crc_functions_two_bits [0x12, 0x34, 0x56, 0x78]
        [0x12, 0x35, 0x56, 0xF8] rfl 23).2.2 crc_32 (by decide) reversed⟩

/-! ## The 8-bit presets -/

/-- The first 126 powers of `X` differ from one, and the next one does not. -/
theorem crc8Presets_return :
    ∀ type ∈ crc8Presets,
      (∀ distance ∈ List.range 126,
        (crcShift 0x80#8 type.poly)^[distance + 1] 1 ≠ 1) ∧
        (crcShift 0x80#8 type.poly)^[127] 1 = 1 := by
  decide +kernel

/-- The 8-bit presets detect two bits that are less than 127 apart, and miss
two bits that are 127 apart. -/
theorem crc8Presets_two_bits {left right : List Byte} {distance : Nat}
    (sameLength : left.length = right.length) {type : CRC_8}
    (preset : type ∈ crc8Presets)
    (differ :
      DifferTwice distance (messageBits type.inputReverse left)
        (messageBits type.inputReverse right)) :
    (distance < 127 → crc8 left type ≠ crc8 right type) ∧
      (distance = 127 → crc8 left type = crc8 right type) := by
  have odd : ∀ type ∈ crc8Presets, type.poly.getLsbD 0 = true := by decide
  have missed :=
    (crc8_isPolynomialCrc type left).eq_iff_returns
      (crc8_isPolynomialCrc type right) crc8_mask_selectsTopBit (by decide)
      (odd type preset) sameLength differ
  rcases crc8Presets_return type preset with ⟨apart, returns⟩
  constructor
  · intro near same
    rcases differ with ⟨-, middle, -, -, -, -, -, rfl⟩
    exact apart middle.length (List.mem_range.mpr (by omega))
      (missed.mp same)
  · rintro rfl
    exact missed.mpr returns

end CommonCode.Crc

end
