import CommonCode.Lib.Bits

/-!
# The CRC functions of `crccheck/crc16.c`

The three functions `crc8`, `crc16` and `crc32` are copies of one another at
register widths 8, 16 and 32.  `crcWith` is their common body; the position of
the message byte in the register, the mask of the bit about to be shifted out
and the reversal function are its parameters, and each source function is
`crcWith` at the constants it is written with.

The pair `addr`, `num` of the source is the list of the `num` bytes at `addr`.
All arithmetic of the source is carried out in `int` or `uint32_t` and
truncated on assignment to `crc`, which is the arithmetic of bit vectors of the
register's width.
-/

namespace CommonCode.Crc

open CommonCode.Lib.Bits

/--
The parameter records `CRC_8`, `CRC_16` and `CRC_32`.  The two flags are of
type `unsigned char` and are compared with `true`, that is with one.
-/
structure CrcType (width : Nat) where
  poly : BitVec width
  initValue : BitVec width
  xor : BitVec width
  inputReverse : BitVec 8
  outputReverse : BitVec 8
deriving DecidableEq, Repr

abbrev CRC_8 := CrcType 8
abbrev CRC_16 := CrcType 16
abbrev CRC_32 := CrcType 32

/-! ## Presets -/

def crc_8 : CRC_8 := ⟨0x07, 0x00, 0x00, 0, 0⟩
def crc_8_ITU : CRC_8 := ⟨0x07, 0x00, 0x55, 0, 0⟩
def crc_8_ROHC : CRC_8 := ⟨0x07, 0xff, 0x00, 1, 1⟩
def crc_8_MAXIM : CRC_8 := ⟨0x31, 0x00, 0x00, 1, 1⟩

def crc_16_IBM : CRC_16 := ⟨0x8005, 0x0000, 0x0000, 1, 1⟩
def crc_16_MAXIM : CRC_16 := ⟨0x8005, 0x0000, 0xffff, 1, 1⟩
def crc_16_USB : CRC_16 := ⟨0x8005, 0xffff, 0xffff, 1, 1⟩
def crc_16_MODBUS : CRC_16 := ⟨0x8005, 0xffff, 0x0000, 1, 1⟩
def crc_16_CCITT : CRC_16 := ⟨0x1021, 0x0000, 0x0000, 1, 1⟩
def crc_16_CCITT_FALSE : CRC_16 := ⟨0x1021, 0xffff, 0x0000, 0, 0⟩
def crc_16_X5 : CRC_16 := ⟨0x1021, 0xffff, 0xffff, 1, 1⟩
def crc_16_XMODEM : CRC_16 := ⟨0x1021, 0x0000, 0x0000, 0, 0⟩
def crc_16_DNP : CRC_16 := ⟨0x3d65, 0x0000, 0xffff, 1, 1⟩

def crc_32 : CRC_32 := ⟨0x04c11db7, 0xffffffff, 0xffffffff, 1, 1⟩
def crc_32_MPEG2 : CRC_32 := ⟨0x04c11db7, 0xffffffff, 0x00000000, 0, 0⟩

/-! ## Bit reversal -/

/-- The body of one iteration `i` of the reversal loops. -/
def reverseStep {width : Nat} (data temp : BitVec width) (i : Nat) :
    BitVec width :=
  temp ||| (((data >>> i) &&& BitVec.ofNat width 1) <<< (width - 1 - i))

/-- The loop shared by `reverse8`, `reverse16` and `reverse32`. -/
def reverseLoop {width : Nat} (data : BitVec width) : BitVec width :=
  (List.range width).foldl (reverseStep data) (BitVec.ofNat width 0)

def reverse8 (data : BitVec 8) : BitVec 8 := reverseLoop data
def reverse16 (data : BitVec 16) : BitVec 16 := reverseLoop data
def reverse32 (data : BitVec 32) : BitVec 32 := reverseLoop data

/-! ## The register loop -/

/--
One iteration of the inner loop: shift the register left and, when `mask`
selects a set bit before the shift, add the polynomial.
-/
def crcShift {width : Nat} (mask poly crc : BitVec width) : BitVec width :=
  if crc &&& mask ≠ 0 then (crc <<< 1) ^^^ poly else crc <<< 1

/-- One iteration of the outer loop: add a byte and shift eight times. -/
def crcByte {width : Nat} (shift : Nat) (mask : BitVec width)
    (type : CrcType width) (crc : BitVec width) (addr : Byte) :
    BitVec width :=
  let data := if type.inputReverse = 1 then reverse8 addr else addr
  (crcShift mask type.poly)^[8]
    (crc ^^^ (data.setWidth width <<< shift))

/-- The common body of the three functions. -/
def crcWith {width : Nat} (shift : Nat) (mask : BitVec width)
    (reverse : BitVec width → BitVec width)
    (addr : List Byte) (type : CrcType width) : BitVec width :=
  let crc := addr.foldl (crcByte shift mask type) type.initValue
  let crc := if type.outputReverse = 1 then reverse crc else crc
  crc ^^^ type.xor

def crc8 (addr : List Byte) (type : CRC_8) : BitVec 8 :=
  crcWith 0 0x80#8 reverse8 addr type

def crc16 (addr : List Byte) (type : CRC_16) : BitVec 16 :=
  crcWith 8 0x8000#16 reverse16 addr type

def crc32 (addr : List Byte) (type : CRC_32) : BitVec 32 :=
  crcWith 24 0x80000000#32 reverse32 addr type

end CommonCode.Crc
