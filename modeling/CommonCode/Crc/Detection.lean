import CommonCode.Crc.Polynomial

/-!
# Error detection and the receiver's check

Both results of this module compare two runs of the register loop through the
remainders they compute.

* Two messages whose difference is a burst no longer than the register have
  different CRC values as soon as the generator has a constant term: the
  difference is a power of `X` times a polynomial of smaller degree than the
  generator, and `X` is invertible modulo the generator.
* Appending the CRC bytes of a message makes the register forget the message:
  the appended bits cancel the remainder and leave only the final constant.
-/

noncomputable section

open Polynomial

namespace CommonCode.Crc

open CommonCode.Lib.Bits
open CommonCode.Lib.BinaryPoly

variable {width : Nat}

/-! ## Messages and their bits -/

theorem bitsOfRegister_injective :
    Function.Injective
      (bitsOfRegister : BitVec width → List Bool) := by
  intro left right equal
  apply toPoly_injective
  rw [← bitsPoly_bitsOfRegister, ← bitsPoly_bitsOfRegister, equal]

theorem processingBits_injective (inputReverse : BitVec 8) :
    Function.Injective (processingBits inputReverse) := by
  intro left right equal
  unfold processingBits at equal
  split at equal
  · exact bitsOfRegister_injective (List.reverse_injective equal)
  · exact bitsOfRegister_injective equal

theorem messageBits_injective_of_length_eq
    (inputReverse : BitVec 8) {left right : List Byte}
    (sameLength : left.length = right.length)
    (equal :
      messageBits inputReverse left = messageBits inputReverse right) :
    left = right := by
  induction left generalizing right with
  | nil =>
      cases right with
      | nil => rfl
      | cons byte rest => simp at sameLength
  | cons byte rest induction =>
      cases right with
      | nil => simp at sameLength
      | cons rightByte rightRest =>
          simp only [messageBits, List.flatMap_cons] at equal
          have parts := List.append_inj equal (by simp)
          have headEqual := processingBits_injective inputReverse parts.1
          have tailEqual :=
            induction (by simpa using sameLength) parts.2
          rw [headEqual, tailEqual]

/-! ## Burst errors -/

/--
All positions at which two bit strings differ lie in a window of `count`
consecutive positions.
-/
def DifferWithin (count : Nat) (left right : List Bool) : Prop :=
  ∃ start : Nat, ∀ i : Nat,
    left[i]? ≠ right[i]? → start ≤ i ∧ i < start + count

/-- Between a common beginning and a common end two strings may differ. -/
theorem differWithin_of_between
    {count : Nat} {front left right back : List Bool}
    (same : left.length = right.length) (short : left.length ≤ count) :
    DifferWithin count (front ++ (left ++ back)) (front ++ (right ++ back)) := by
  refine ⟨front.length, fun i differ => ?_⟩
  by_contra outside
  apply differ
  rcases Nat.lt_or_ge i front.length with before | behind
  · rw [List.getElem?_append_left before, List.getElem?_append_left before]
  · rw [List.getElem?_append_right behind, List.getElem?_append_right behind,
      List.getElem?_append_right (by omega),
      List.getElem?_append_right (by omega), same]

/-- Outside the window the two strings agree. -/
theorem DifferWithin.split
    {count : Nat} {left right : List Bool}
    (within : DifferWithin count left right) :
    ∃ start : Nat,
      left.take start = right.take start ∧
        left.drop (start + count) = right.drop (start + count) := by
  rcases within with ⟨start, window⟩
  refine ⟨start, ?_, ?_⟩
  · apply List.ext_getElem?
    intro i
    rw [List.getElem?_take, List.getElem?_take]
    split
    · rename_i before
      by_contra differ
      exact absurd (window i differ).1 (Nat.not_le.mpr before)
    · rfl
  · apply List.ext_getElem?
    intro i
    rw [List.getElem?_drop, List.getElem?_drop]
    by_contra differ
    have position := (window _ differ).2
    omega

/-- The difference of two strings that differ in a window, as a polynomial. -/
theorem DifferWithin.difference
    {count : Nat} {left right : List Bool}
    (sameLength : left.length = right.length)
    (within : DifferWithin count left right) :
    ∃ (burst : (ZMod 2)[X]) (exponent : Nat),
      burst.degree < count ∧
        bitsPoly left + bitsPoly right = burst * X ^ exponent := by
  rcases within.split with ⟨start, frontEqual, backEqual⟩
  let middle (bits : List Bool) := (bits.drop start).take count
  have partition (bits : List Bool) :
      bitsPoly bits =
        bitsPoly (bits.take start) *
            X ^ (bits.drop start).length +
          (bitsPoly (middle bits) *
              X ^ (bits.drop (start + count)).length +
            bitsPoly (bits.drop (start + count))) := by
    have tailSplit :
        bitsPoly (bits.drop start) =
          bitsPoly (middle bits) *
              X ^ (bits.drop (start + count)).length +
            bitsPoly (bits.drop (start + count)) := by
      rw [← List.drop_drop, ← bitsPoly_append, List.take_append_drop]
    rw [← tailSplit, ← bitsPoly_append, List.take_append_drop]
  have middleDegree (bits : List Bool) :
      (bitsPoly (middle bits)).degree < count := by
    refine (degree_bitsPoly_lt _).trans_le ?_
    exact_mod_cast List.length_take_le count (bits.drop start)
  refine
    ⟨bitsPoly (middle left) + bitsPoly (middle right),
      (right.drop (start + count)).length, ?_, ?_⟩
  · exact (degree_add_le _ _).trans_lt
      (max_lt (middleDegree left) (middleDegree right))
  · rw [partition left, partition right, frontEqual, backEqual]
    have tailLength :
        (left.drop start).length = (right.drop start).length := by
      simp [sameLength]
    rw [tailLength]
    linear_combination
      add_self_gf2
          (bitsPoly (right.take start) *
            X ^ (right.drop start).length) +
        add_self_gf2 (bitsPoly (right.drop (start + count)))

/-- Equal CRC values come from equal remainders. -/
theorem IsPolynomialCrc.remainder_eq
    {type : CrcType width} {left right : List Byte}
    {value : BitVec width}
    (leftCrc : IsPolynomialCrc type left value)
    (rightCrc : IsPolynomialCrc type right value) :
    crcRemainder type left = crcRemainder type right := by
  rcases leftCrc with ⟨leftRemainder, leftPoly, leftValue⟩
  rcases rightCrc with ⟨rightRemainder, rightPoly, rightValue⟩
  rw [leftValue, BitVec.xor_left_inj] at rightValue
  have remainderEqual : leftRemainder = rightRemainder := by
    split at rightValue
    · rw [← BitVec.reverse_reverse_eq (x := leftRemainder), rightValue,
        BitVec.reverse_reverse_eq]
    · exact rightValue
  rw [← leftPoly, ← rightPoly, remainderEqual]

/-- Equal remainders make the generator divide the difference of the messages. -/
theorem generator_dvd_difference
    {type : CrcType width} {left right : List Byte}
    (sameLength : left.length = right.length)
    (equal : crcRemainder type left = crcRemainder type right) :
    generator type.poly ∣
      (bitsPoly (messageBits type.inputReverse left) +
        bitsPoly (messageBits type.inputReverse right)) * X ^ width := by
  have congruent :
      generator type.poly ∣
        crcDividend type left - crcDividend type right := by
    rw [← modByMonic_eq_zero_iff_dvd (generator_monic type.poly),
      sub_modByMonic, sub_eq_zero]
    exact equal
  refine congruent.trans (dvd_of_eq ?_)
  rw [sub_eq_add_gf2, crcDividend, crcDividend, sameLength]
  linear_combination
    add_self_gf2 (toPoly type.initValue * X ^ (8 * right.length))

/-- A polynomial CRC with an odd generator detects every burst. -/
theorem IsPolynomialCrc.ne_of_burst
    {type : CrcType width} {left right : List Byte}
    {leftValue rightValue : BitVec width}
    (leftCrc : IsPolynomialCrc type left leftValue)
    (rightCrc : IsPolynomialCrc type right rightValue)
    (positive : 0 < width)
    (odd : type.poly.getLsbD 0 = true)
    (sameLength : left.length = right.length)
    (differ : left ≠ right)
    (within :
      DifferWithin width
        (messageBits type.inputReverse left)
        (messageBits type.inputReverse right)) :
    leftValue ≠ rightValue := by
  rintro rfl
  have bitLength :
      (messageBits type.inputReverse left).length =
        (messageBits type.inputReverse right).length := by
    simp [sameLength]
  rcases within.difference bitLength with
    ⟨burst, exponent, burstDegree, difference⟩
  have divides :=
    generator_dvd_difference sameLength (leftCrc.remainder_eq rightCrc)
  rw [difference, mul_assoc, ← pow_add] at divides
  have constant : (generator type.poly).coeff 0 = 1 := by
    rw [generator, coeff_add, coeff_X_pow, coeff_toPoly, odd]
    simp [positive.ne]
  have burstZero : burst = 0 := by
    refine eq_zero_of_dvd_mul_X_pow constant ?_ divides
    rwa [degree_generator]
  rw [burstZero, zero_mul, ← sub_eq_add_gf2, sub_eq_zero] at difference
  exact differ
    (messageBits_injective_of_length_eq type.inputReverse sameLength
      (bitsPoly_injective_of_length_eq bitLength difference))

/--
Every burst error of at most eight, sixteen or thirty-two bits is detected by
`crc8`, `crc16` and `crc32` when the polynomial is odd.
-/
theorem crc_functions_detect_bursts
    (left right : List Byte)
    (sameLength : left.length = right.length)
    (differ : left ≠ right) :
    (∀ type : CRC_8,
        type.poly.getLsbD 0 = true →
        DifferWithin 8
          (messageBits type.inputReverse left)
          (messageBits type.inputReverse right) →
        crc8 left type ≠ crc8 right type) ∧
      (∀ type : CRC_16,
        type.poly.getLsbD 0 = true →
        DifferWithin 16
          (messageBits type.inputReverse left)
          (messageBits type.inputReverse right) →
        crc16 left type ≠ crc16 right type) ∧
      (∀ type : CRC_32,
        type.poly.getLsbD 0 = true →
        DifferWithin 32
          (messageBits type.inputReverse left)
          (messageBits type.inputReverse right) →
        crc32 left type ≠ crc32 right type) := by
  refine
    ⟨fun type odd within => ?_, fun type odd within => ?_,
      fun type odd within => ?_⟩
  · exact
      (crc8_isPolynomialCrc type left).ne_of_burst
        (crc8_isPolynomialCrc type right)
        (by decide) odd sameLength differ within
  · exact
      (crc16_isPolynomialCrc type left).ne_of_burst
        (crc16_isPolynomialCrc type right)
        (by decide) odd sameLength differ within
  · exact
      (crc32_isPolynomialCrc type left).ne_of_burst
        (crc32_isPolynomialCrc type right)
        (by decide) odd sameLength differ within

/-- The difference lies in two bytes, in messages of four. -/
theorem crc_functions_detect_bursts_two_bytes :
    crc8 [0x12, 0x34, 0x56, 0x78] crc_8 ≠
        crc8 [0x12, 0x35, 0xD6, 0x78] crc_8 ∧
      crc16 [0x12, 0x34, 0x56, 0x78] crc_16_IBM ≠
        crc16 [0x12, 0x35, 0xD6, 0x78] crc_16_IBM ∧
      crc32 [0x12, 0x34, 0x56, 0x78] crc_32 ≠
        crc32 [0x12, 0x35, 0xD6, 0x78] crc_32 := by
  have detected :=
    crc_functions_detect_bursts [0x12, 0x34, 0x56, 0x78]
      [0x12, 0x35, 0xD6, 0x78] rfl (by decide)
  have between (count : Nat) (large : 16 ≤ count) :
      DifferWithin count (messageBits 1 [0x12, 0x34, 0x56, 0x78])
        (messageBits 1 [0x12, 0x35, 0xD6, 0x78]) :=
    @differWithin_of_between count (messageBits 1 [0x12])
      (messageBits 1 [0x34, 0x56]) (messageBits 1 [0x35, 0xD6])
      (messageBits 1 [0x78]) rfl large
  have neighbours :
      DifferWithin 8 (messageBits 0 [0x12, 0x34, 0x56, 0x78])
        (messageBits 0 [0x12, 0x35, 0xD6, 0x78]) :=
    @differWithin_of_between 8 ((messageBits 0 [0x12, 0x34]).take 15)
      [false, false] [true, true] ((messageBits 0 [0x56, 0x78]).drop 1)
      rfl (by decide)
  exact
    ⟨detected.1 crc_8 (by decide) neighbours,
      detected.2.1 crc_16_IBM (by decide) (between 16 (by decide)),
      detected.2.2 crc_32 (by decide) (between 32 (by decide))⟩

/-! ## The receiver's check -/

/--
The bytes of a CRC value in the order in which they follow the message: most
significant first, or least significant first for a reversed CRC.
-/
def crcBytes (outputReverse : BitVec 8) (count : Nat)
    (value : BitVec width) : List Byte :=
  if outputReverse = 1 then (bytesMsbFirst count value).reverse
  else bytesMsbFirst count value

@[simp]
theorem length_crcBytes (outputReverse : BitVec 8) (count : Nat)
    (value : BitVec width) :
    (crcBytes outputReverse count value).length = count := by
  unfold crcBytes
  split <;> simp

/-- The final constant as the register loop sees it. -/
def registerXor (type : CrcType width) : BitVec width :=
  if type.outputReverse = 1 then type.xor.reverse else type.xor

/--
When the two reflections agree, the appended bytes bring the bits of the
remainder plus the final constant back into the register.
-/
theorem messageBits_crcBytes
    {count : Nat} (whole : 8 * count = width)
    {type : CrcType width}
    (sameReverse : type.inputReverse = type.outputReverse)
    (crc : BitVec width) :
    messageBits type.inputReverse
        (crcBytes type.outputReverse count
          ((if type.outputReverse = 1 then crc.reverse else crc) ^^^
            type.xor)) =
      bitsOfRegister (crc ^^^ registerXor type) := by
  unfold crcBytes registerXor messageBits
  rw [sameReverse]
  by_cases reversed : type.outputReverse = 1
  · have reversedBits :
        processingBits type.outputReverse =
          List.reverse ∘ bitsOfRegister := by
      funext byte
      exact if_pos reversed
    rw [if_pos reversed, if_pos reversed, if_pos reversed, reversedBits,
      ← List.reverse_flatMap, ← bytesBits,
      bytesBits_bytesMsbFirst whole,
      ← bitsOfRegister_reverse, reverse_xor, BitVec.reverse_reverse_eq]
  · have plainBits :
        processingBits type.outputReverse = bitsOfRegister := by
      funext byte
      exact if_neg reversed
    rw [if_neg reversed, if_neg reversed, if_neg reversed, plainBits,
      ← bytesBits, bytesBits_bytesMsbFirst whole]

/-- After the appended bytes the register no longer depends on the message. -/
theorem toPoly_foldl_crcBytes
    {mask : BitVec width} (top : SelectsTopBit mask)
    {shift : Nat} (aligned : 8 + shift = width)
    {count : Nat} (whole : 8 * count = width)
    {type : CrcType width}
    (sameReverse : type.inputReverse = type.outputReverse)
    (crc : BitVec width) :
    toPoly
        ((crcBytes type.outputReverse count
            ((if type.outputReverse = 1 then crc.reverse else crc) ^^^
              type.xor)).foldl
          (crcByte shift mask type) crc) =
      toPoly (registerXor type) * X ^ width %ₘ generator type.poly := by
  apply eq_modByMonic_of_dvd (generator_monic type.poly)
  · rw [degree_generator]
    exact degree_toPoly_lt _
  · have congruent :=
      foldl_crcByte_congruent top aligned type
        (crcBytes type.outputReverse count
          ((if type.outputReverse = 1 then crc.reverse else crc) ^^^
            type.xor)) crc
    rw [messageBits_crcBytes whole sameReverse, length_crcBytes, whole,
      bitsPoly_bitsOfRegister, toPoly_xor] at congruent
    refine congruent.trans (dvd_of_eq ?_)
    linear_combination X ^ width * add_self_gf2 (toPoly crc)

/--
A value returned for every message followed by its own CRC, equal to zero when
the record has no final constant.
-/
def HasResidue (type : CrcType width) (count : Nat)
    (crc : List Byte → BitVec width) : Prop :=
  ∃ residue : BitVec width,
    (∀ message : List Byte,
      crc (message ++ crcBytes type.outputReverse count (crc message)) =
        residue) ∧
      (type.xor = 0 → residue = 0)

theorem crcWith_hasResidue
    {mask : BitVec width} (top : SelectsTopBit mask)
    {shift : Nat} (aligned : 8 + shift = width)
    {count : Nat} (whole : 8 * count = width)
    {type : CrcType width}
    (sameReverse : type.inputReverse = type.outputReverse) :
    HasResidue type count fun message =>
      crcWith shift mask reverseLoop message type := by
  let register (message : List Byte) : BitVec width :=
    message.foldl (crcByte shift mask type) type.initValue
  let output (crc : BitVec width) : BitVec width :=
    (if type.outputReverse = 1 then crc.reverse else crc) ^^^ type.xor
  let appended (crc : BitVec width) : BitVec width :=
    (crcBytes type.outputReverse count (output crc)).foldl
      (crcByte shift mask type) crc
  have appendedPoly (crc : BitVec width) :
      toPoly (appended crc) =
        toPoly (registerXor type) * X ^ width %ₘ generator type.poly :=
    toPoly_foldl_crcBytes top aligned whole sameReverse crc
  have run (message : List Byte) :
      crcWith shift mask reverseLoop
          (message ++
            crcBytes type.outputReverse count
              (crcWith shift mask reverseLoop message type)) type =
        output (appended (register message)) := by
    simp only [crcWith, reverseLoop_eq_reverse, List.foldl_append,
      output, appended, register]
  refine ⟨output (appended 0), fun message => ?_, fun noXor => ?_⟩
  · have sameRegister : appended (register message) = appended 0 := by
      apply toPoly_injective
      rw [appendedPoly, appendedPoly]
    exact (run message).trans (congrArg output sameRegister)
  · have noRegisterXor : registerXor type = 0 := by
      simp [registerXor, noXor, BitVec.reverse_eq_zero_iff]
    have cleared : appended 0 = 0 := by
      apply toPoly_injective
      rw [appendedPoly, noRegisterXor]
      simp
    have zeroReverse : (0 : BitVec width).reverse = 0 :=
      BitVec.reverse_eq_zero_iff.mpr rfl
    simp only [output, cleared, noXor, zeroReverse, ite_self,
      BitVec.xor_self]
    rfl

/--
For every record whose two reflections agree there is one residue that the
three functions return for every message followed by its own CRC bytes.
-/
theorem crc_functions_have_residue :
    (∀ type : CRC_8, type.inputReverse = type.outputReverse →
        HasResidue type 1 fun message => crc8 message type) ∧
      (∀ type : CRC_16, type.inputReverse = type.outputReverse →
        HasResidue type 2 fun message => crc16 message type) ∧
      (∀ type : CRC_32, type.inputReverse = type.outputReverse →
        HasResidue type 4 fun message => crc32 message type) := by
  refine
    ⟨fun type sameReverse => ?_, fun type sameReverse => ?_,
      fun type sameReverse => ?_⟩
  · exact crcWith_hasResidue crc8_mask_selectsTopBit rfl rfl sameReverse
  · exact crcWith_hasResidue crc16_mask_selectsTopBit rfl rfl sameReverse
  · exact crcWith_hasResidue crc32_mask_selectsTopBit rfl rfl sameReverse

theorem crc_functions_have_residue_presets :
    HasResidue crc_8_ROHC 1 (fun message => crc8 message crc_8_ROHC) ∧
      HasResidue crc_16_X5 2 (fun message => crc16 message crc_16_X5) ∧
      HasResidue crc_32 4 (fun message => crc32 message crc_32) :=
  ⟨crc_functions_have_residue.1 crc_8_ROHC rfl,
    crc_functions_have_residue.2.1 crc_16_X5 rfl,
    crc_functions_have_residue.2.2 crc_32 rfl⟩

end CommonCode.Crc

end
