import CommonCode.Crc.Polynomial

/-!
# Reflected CRCs shift to the right

A CRC with both reversals is usually computed by a register that takes the
bytes as they are into its low end, shifts to the right and adds the reversed
polynomial.  The code reverses the bytes and the final value and shifts to the
left.  Its register is, after every byte, the mirror image of the register that
shifts to the right.
-/

namespace CommonCode.Crc

open CommonCode.Lib.Bits

variable {width : Nat}

/-! ## The register that shifts to the right -/

/-- One shift: the polynomial is added when the bit shifted out is one. -/
def lsbShift (poly crc : BitVec width) : BitVec width :=
  if crc.getLsbD 0 then (crc >>> 1) ^^^ poly else crc >>> 1

/-- One byte is added to the low end of the register and shifted out. -/
def lsbByte (poly crc : BitVec width) (byte : Byte) : BitVec width :=
  (lsbShift poly)^[8] (crc ^^^ byte.setWidth width)

/--
The LSB-first algorithm of a record: the initial value and the polynomial
reversed, the bytes of the message as they are, the final constant as it is.
-/
def lsbCrc (type : CrcType width) (message : List Byte) : BitVec width :=
  message.foldl (lsbByte type.poly.reverse) type.initValue.reverse ^^^
    type.xor

/-! ## The mirror image of the register -/

/-- The mirror turns one shift of the code into one shift to the right. -/
theorem semiconj_crcShift
    {mask : BitVec width} (top : SelectsTopBit mask)
    (poly : BitVec width) :
    Function.Semiconj BitVec.reverse (crcShift mask poly)
      (lsbShift poly.reverse) := by
  intro crc
  rw [crcShift_eq top, lsbShift, BitVec.getLsbD_reverse, BitVec.msb]
  split
  · rw [reverse_xor, reverse_shiftLeft_one]
  · rw [reverse_shiftLeft_one]

/-- A reversed byte at the top of the register is the byte at the low end. -/
theorem reverse_crcByte
    {mask : BitVec width} (top : SelectsTopBit mask)
    {shift : Nat} (aligned : 8 + shift = width)
    {type : CrcType width} (inputReversed : type.inputReverse = 1)
    (crc : BitVec width) (byte : Byte) :
    (crcByte shift mask type crc byte).reverse =
      lsbByte type.poly.reverse crc.reverse byte := by
  have mirrored :
      ((reverse8 byte).setWidth width <<< shift).reverse =
        byte.setWidth width := by
    rw [reverse_setWidth_shiftLeft aligned, reverse8,
      reverseLoop_eq_reverse, BitVec.reverse_reverse_eq]
  have shifts := (semiconj_crcShift top type.poly).iterate_right 8
  simp only [crcByte, if_pos inputReversed]
  rw [shifts.eq, reverse_xor, mirrored, lsbByte]

/-- The register after the last byte is the mirror image of the other one. -/
theorem reverse_foldl_crcByte
    {mask : BitVec width} (top : SelectsTopBit mask)
    {shift : Nat} (aligned : 8 + shift = width)
    {type : CrcType width} (inputReversed : type.inputReverse = 1)
    (message : List Byte) (crc : BitVec width) :
    (message.foldl (crcByte shift mask type) crc).reverse =
      message.foldl (lsbByte type.poly.reverse) crc.reverse := by
  induction message generalizing crc with
  | nil => rfl
  | cons byte rest induction =>
      rw [List.foldl_cons, List.foldl_cons, induction,
        reverse_crcByte top aligned inputReversed]

theorem crcWith_eq_lsbCrc
    {mask : BitVec width} (top : SelectsTopBit mask)
    {shift : Nat} (aligned : 8 + shift = width)
    {type : CrcType width} (inputReversed : type.inputReverse = 1)
    (outputReversed : type.outputReverse = 1) (message : List Byte) :
    crcWith shift mask reverseLoop message type = lsbCrc type message := by
  have register :=
    reverse_foldl_crcByte top aligned inputReversed message type.initValue
  simp only [crcWith, if_pos outputReversed, reverseLoop_eq_reverse]
  rw [register, lsbCrc]

/--
For every message and every record with both reversals the three functions
return the value of the LSB-first algorithm of their width.
-/
theorem crc_functions_eq_lsbCrc (message : List Byte) :
    (∀ type : CRC_8,
        type.inputReverse = 1 → type.outputReverse = 1 →
          crc8 message type = lsbCrc type message) ∧
      (∀ type : CRC_16,
        type.inputReverse = 1 → type.outputReverse = 1 →
          crc16 message type = lsbCrc type message) ∧
      (∀ type : CRC_32,
        type.inputReverse = 1 → type.outputReverse = 1 →
          crc32 message type = lsbCrc type message) := by
  constructor
  · intro type inputReversed outputReversed
    exact crcWith_eq_lsbCrc crc8_mask_selectsTopBit rfl inputReversed
      outputReversed message
  constructor
  · intro type inputReversed outputReversed
    exact crcWith_eq_lsbCrc crc16_mask_selectsTopBit rfl inputReversed
      outputReversed message
  · intro type inputReversed outputReversed
    exact crcWith_eq_lsbCrc crc32_mask_selectsTopBit rfl inputReversed
      outputReversed message

theorem crc_functions_eq_lsbCrc_presets :
    crc8 [0x31, 0x32] crc_8_MAXIM = lsbCrc crc_8_MAXIM [0x31, 0x32] ∧
      crc16 [0x31, 0x32] crc_16_MODBUS =
        lsbCrc crc_16_MODBUS [0x31, 0x32] ∧
      crc32 [0x31, 0x32] crc_32 = lsbCrc crc_32 [0x31, 0x32] := by
  have reflected := crc_functions_eq_lsbCrc [0x31, 0x32]
  exact
    ⟨reflected.1 crc_8_MAXIM rfl rfl,
      reflected.2.1 crc_16_MODBUS rfl rfl,
      reflected.2.2 crc_32 rfl rfl⟩

end CommonCode.Crc
