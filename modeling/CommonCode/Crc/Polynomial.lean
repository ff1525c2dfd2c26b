import CommonCode.Lib.BinaryPoly
import CommonCode.Crc.Code

/-!
# The register loop is polynomial division

The abstract CRC of a message is the remainder of a polynomial over GF(2)
modulo the generator `X ^ width + poly`.  The register of the code holds, after
every byte, the remainder of the initial value and of the message read so far.
The invariant is stated as a divisibility, so that the inner loop contributes
multiplication by `X ^ 8` and the message byte one term of degree at least the
register's width.
-/

noncomputable section

open Polynomial

namespace CommonCode.Crc

open CommonCode.Lib.Bits
open CommonCode.Lib.BinaryPoly

/-! ## The abstract CRC -/

/-- The bits of a byte in the order in which the register takes them. -/
def processingBits (inputReverse : BitVec 8) (byte : Byte) : List Bool :=
  if inputReverse = 1 then (bitsOfRegister byte).reverse
  else bitsOfRegister byte

/-- The bits of a message in processing order. -/
def messageBits (inputReverse : BitVec 8) (message : List Byte) :
    List Bool :=
  message.flatMap (processingBits inputReverse)

/-- The generator polynomial `X ^ width + poly`. -/
def generator {width : Nat} (poly : BitVec width) : (ZMod 2)[X] :=
  X ^ width + toPoly poly

/-- The dividend: the initial value before the message, `width` zeros after. -/
def crcDividend {width : Nat} (type : CrcType width)
    (message : List Byte) : (ZMod 2)[X] :=
  toPoly type.initValue * X ^ (8 * message.length) +
    bitsPoly (messageBits type.inputReverse message) * X ^ width

/-- The remainder that the register holds after the last byte. -/
def crcRemainder {width : Nat} (type : CrcType width)
    (message : List Byte) : (ZMod 2)[X] :=
  crcDividend type message %ₘ generator type.poly

/--
A value is the polynomial CRC of a message: the remainder, reversed on
request, plus the final constant.
-/
def IsPolynomialCrc {width : Nat} (type : CrcType width)
    (message : List Byte) (value : BitVec width) : Prop :=
  ∃ remainder : BitVec width,
    toPoly remainder = crcRemainder type message ∧
      value =
        (if type.outputReverse = 1 then remainder.reverse else remainder) ^^^
          type.xor

/-! ## The generator -/

variable {width : Nat}

theorem generator_monic (poly : BitVec width) : (generator poly).Monic :=
  monic_X_pow_add (degree_toPoly_lt poly)

theorem degree_generator (poly : BitVec width) :
    (generator poly).degree = width := by
  have small : (toPoly poly).degree < (X ^ width : (ZMod 2)[X]).degree := by
    rw [degree_X_pow]
    exact degree_toPoly_lt poly
  rw [generator, degree_add_eq_left_of_degree_lt small, degree_X_pow]

/-! ## Reversal -/

theorem getLsbD_reverseStep
    (data temp : BitVec width) {i j : Nat} (inside : j < width) :
    (reverseStep data temp i).getLsbD j =
      (temp.getLsbD j || (decide (j = width - 1 - i) && data.getLsbD i)) := by
  rcases Nat.lt_trichotomy j (width - 1 - i) with below | equal | above
  · simp [reverseStep, below, Nat.ne_of_lt below]
  · subst equal
    simp [reverseStep, inside]
  · have apart : j - (width - 1 - i) ≠ 0 := by omega
    simp [reverseStep, inside, Nat.ne_of_gt above, apart]

/-- After `count` iterations exactly the low `count` bits are mirrored. -/
theorem getLsbD_reverse_foldl
    (data : BitVec width) (count : Nat) {j : Nat}
    (inside : j < width) (bounded : count ≤ width) :
    ((List.range count).foldl (reverseStep data) (BitVec.ofNat width 0)).getLsbD j =
      (decide (width - 1 - j < count) && data.getMsbD j) := by
  induction count with
  | zero => simp
  | succ count induction =>
      rw [List.range_succ, List.foldl_append, List.foldl_cons,
        List.foldl_nil, getLsbD_reverseStep _ _ inside,
        induction (Nat.le_of_succ_le bounded)]
      by_cases current : width - 1 - j = count
      · have position : j = width - 1 - count := by omega
        have mirrored : data.getMsbD j = data.getLsbD count := by
          rw [BitVec.getMsbD_eq_getLsbD, current]
          simp [inside]
        simp only [current, mirrored, lt_irrefl, decide_false,
          Bool.false_and, Bool.false_or, Nat.lt_succ_self,
          decide_true, Bool.true_and, decide_eq_true position]
      · have other : j ≠ width - 1 - count := by omega
        have sameBound :
            (width - 1 - j < count + 1) ↔ (width - 1 - j < count) := by
          omega
        simp [other, sameBound]

/-- The reversal loop of the source is bit reversal. -/
theorem reverseLoop_eq_reverse (data : BitVec width) :
    reverseLoop data = data.reverse := by
  apply BitVec.eq_of_getLsbD_eq
  intro j inside
  rw [reverseLoop, getLsbD_reverse_foldl data width inside le_rfl,
    BitVec.getLsbD_reverse]
  have below : width - 1 - j < width := by omega
  simp [below]

/-- The byte added to the register has the bits of the byte in processing order. -/
theorem bitsOfRegister_inputByte (inputReverse : BitVec 8) (byte : Byte) :
    bitsOfRegister (if inputReverse = 1 then reverse8 byte else byte) =
      processingBits inputReverse byte := by
  unfold processingBits
  split
  · rw [reverse8, reverseLoop_eq_reverse, bitsOfRegister_reverse]
  · rfl

@[simp]
theorem length_processingBits (inputReverse : BitVec 8) (byte : Byte) :
    (processingBits inputReverse byte).length = 8 := by
  unfold processingBits
  split <;> simp

@[simp]
theorem length_messageBits (inputReverse : BitVec 8)
    (message : List Byte) :
    (messageBits inputReverse message).length = 8 * message.length := by
  induction message with
  | nil => rfl
  | cons byte rest induction =>
      rw [messageBits, List.flatMap_cons, List.length_append,
        length_processingBits, ← messageBits, induction,
        List.length_cons]
      ring

/-! ## One shift, one byte, the whole message -/

/-- The mask selects the top bit of the register. -/
def SelectsTopBit (mask : BitVec width) : Prop :=
  ∀ crc : BitVec width, crc &&& mask ≠ 0 ↔ crc.msb = true

theorem selectsTopBit_twoPow (positive : 0 < width) :
    SelectsTopBit (BitVec.twoPow width (width - 1)) := by
  intro crc
  have last : width - 1 < width := by omega
  have nonzero : BitVec.twoPow width (width - 1) ≠ 0 := by
    intro zero
    have bit := congrArg (fun mask => mask.getLsbD (width - 1)) zero
    simp [last] at bit
  rw [BitVec.and_twoPow, BitVec.msb_eq_getLsbD_last]
  split <;> simp_all

theorem crc8_mask_selectsTopBit : SelectsTopBit 0x80#8 :=
  selectsTopBit_twoPow (by decide)

theorem crc16_mask_selectsTopBit : SelectsTopBit 0x8000#16 :=
  selectsTopBit_twoPow (by decide)

theorem crc32_mask_selectsTopBit : SelectsTopBit 0x80000000#32 :=
  selectsTopBit_twoPow (by decide)

theorem crcShift_eq
    {mask : BitVec width} (top : SelectsTopBit mask)
    (poly crc : BitVec width) :
    crcShift mask poly crc =
      if crc.msb then (crc <<< 1) ^^^ poly else crc <<< 1 := by
  simp only [crcShift, top crc]

/-- One shift multiplies the register by `X` modulo the generator. -/
theorem crcShift_congruent
    {mask : BitVec width} (top : SelectsTopBit mask)
    (poly crc : BitVec width) :
    generator poly ∣
      toPoly (crcShift mask poly crc) + toPoly crc * X := by
  rw [crcShift_eq top, ← toPoly_shiftLeft_one]
  cases crc.msb with
  | false => simp
  | true =>
      refine ⟨1, ?_⟩
      simp only [if_true, toPoly_xor, bitCoeff_true, C_1, one_mul,
        mul_one, generator]
      linear_combination add_self_gf2 (toPoly (crc <<< 1))

theorem crcShift_iterate_congruent
    {mask : BitVec width} (top : SelectsTopBit mask)
    (poly crc : BitVec width) (count : Nat) :
    generator poly ∣
      toPoly ((crcShift mask poly)^[count] crc) +
        toPoly crc * X ^ count := by
  induction count with
  | zero => simp
  | succ count induction =>
      rw [Function.iterate_succ_apply']
      have step :=
        crcShift_congruent top poly ((crcShift mask poly)^[count] crc)
      have carried := induction.mul_right X
      have total := dvd_add step carried
      rw [add_mul, ← add_assoc, add_assoc (toPoly (crcShift _ _ _)),
        add_self_gf2, add_zero, mul_assoc, ← pow_succ] at total
      exact total

/-- One byte of the message enters the dividend eight places further up. -/
theorem crcByte_congruent
    {mask : BitVec width} (top : SelectsTopBit mask)
    {shift : Nat} (aligned : 8 + shift = width)
    (type : CrcType width) (crc : BitVec width) (byte : Byte) :
    generator type.poly ∣
      toPoly (crcByte shift mask type crc byte) +
        (toPoly crc * X ^ 8 +
          bitsPoly (processingBits type.inputReverse byte) *
            X ^ width) := by
  have shifted :=
    crcShift_iterate_congruent top type.poly
      (crc ^^^
        ((if type.inputReverse = 1 then reverse8 byte else byte).setWidth
          width <<< shift)) 8
  have inputByte :
      toPoly (if type.inputReverse = 1 then reverse8 byte else byte) =
        bitsPoly (processingBits type.inputReverse byte) := by
    rw [← bitsPoly_bitsOfRegister, bitsOfRegister_inputByte]
  rw [toPoly_xor, toPoly_shiftLeft_setWidth _ aligned.le, inputByte,
    add_mul, mul_assoc, ← pow_add, Nat.add_comm shift 8, aligned]
    at shifted
  exact shifted

/-- The register loop from any register value, as a congruence. -/
theorem foldl_crcByte_congruent
    {mask : BitVec width} (top : SelectsTopBit mask)
    {shift : Nat} (aligned : 8 + shift = width)
    (type : CrcType width) (message : List Byte) (crc : BitVec width) :
    generator type.poly ∣
      toPoly (message.foldl (crcByte shift mask type) crc) +
        (toPoly crc * X ^ (8 * message.length) +
          bitsPoly (messageBits type.inputReverse message) *
            X ^ width) := by
  induction message generalizing crc with
  | nil => simp [messageBits]
  | cons byte rest induction =>
      have head := crcByte_congruent top aligned type crc byte
      have carried := head.mul_right (X ^ (8 * rest.length))
      have tail := induction (crcByte shift mask type crc byte)
      have split :
          bitsPoly (messageBits type.inputReverse (byte :: rest)) =
            bitsPoly (processingBits type.inputReverse byte) *
                X ^ (8 * rest.length) +
              bitsPoly (messageBits type.inputReverse rest) := by
        rw [messageBits, List.flatMap_cons, bitsPoly_append,
          ← messageBits, length_messageBits]
      have exponent :
          8 * (byte :: rest).length = 8 + 8 * rest.length := by
        rw [List.length_cons]
        ring
      have total := dvd_add tail carried
      rw [List.foldl_cons, split, exponent, pow_add]
      refine total.trans (dvd_of_eq ?_)
      linear_combination
        X ^ (8 * rest.length) *
          add_self_gf2 (toPoly (crcByte shift mask type crc byte))

/-- The register after the last byte is the remainder of the dividend. -/
theorem toPoly_foldl_crcByte
    {mask : BitVec width} (top : SelectsTopBit mask)
    {shift : Nat} (aligned : 8 + shift = width)
    (type : CrcType width) (message : List Byte) :
    toPoly (message.foldl (crcByte shift mask type) type.initValue) =
      crcRemainder type message := by
  apply eq_modByMonic_of_dvd (generator_monic type.poly)
  · rw [degree_generator]
    exact degree_toPoly_lt _
  · exact foldl_crcByte_congruent top aligned type message type.initValue

theorem crcWith_isPolynomialCrc
    {mask : BitVec width} (top : SelectsTopBit mask)
    {shift : Nat} (aligned : 8 + shift = width)
    (type : CrcType width) (message : List Byte) :
    IsPolynomialCrc type message
      (crcWith shift mask reverseLoop message type) := by
  refine ⟨_, toPoly_foldl_crcByte top aligned type message, ?_⟩
  simp only [crcWith, reverseLoop_eq_reverse]

theorem crc8_isPolynomialCrc (type : CRC_8) (message : List Byte) :
    IsPolynomialCrc type message (crc8 message type) :=
  crcWith_isPolynomialCrc crc8_mask_selectsTopBit rfl type message

theorem crc16_isPolynomialCrc (type : CRC_16) (message : List Byte) :
    IsPolynomialCrc type message (crc16 message type) :=
  crcWith_isPolynomialCrc crc16_mask_selectsTopBit rfl type message

theorem crc32_isPolynomialCrc (type : CRC_32) (message : List Byte) :
    IsPolynomialCrc type message (crc32 message type) :=
  crcWith_isPolynomialCrc crc32_mask_selectsTopBit rfl type message

/--
For every message and every parameter record the three functions return the
polynomial CRC of their width.
-/
theorem crc_functions_are_polynomial_crcs (message : List Byte) :
    (∀ type : CRC_8, IsPolynomialCrc type message (crc8 message type)) ∧
      (∀ type : CRC_16,
        IsPolynomialCrc type message (crc16 message type)) ∧
      (∀ type : CRC_32,
        IsPolynomialCrc type message (crc32 message type)) :=
  ⟨fun type => crc8_isPolynomialCrc type message,
    fun type => crc16_isPolynomialCrc type message,
    fun type => crc32_isPolynomialCrc type message⟩

end CommonCode.Crc

end
