import Mathlib

/-!
# Registers, bytes and bit strings

A register is a bit vector; its bit string lists the bits most significant
first.  A byte string is read as the concatenation of the bit strings of its
bytes, so that taking or dropping whole bytes is taking or dropping eight bits
for each of them.  The bytes of a register, most significant first, have the
bit string of the register.
-/

namespace CommonCode.Lib.Bits

abbrev Byte := BitVec 8

/-- Membership of a byte in a list is decided by comparing bit vectors. -/
instance instLawfulBEqByte : LawfulBEq Byte := inferInstance

variable {width : Nat}

/-! ## Bit strings of registers -/

/-- The bits of a register, most significant first. -/
def bitsOfRegister (register : BitVec width) : List Bool :=
  (List.range width).map fun i => register.getMsbD i

@[simp]
theorem length_bitsOfRegister (register : BitVec width) :
    (bitsOfRegister register).length = width := by
  simp [bitsOfRegister]

theorem getElem_bitsOfRegister
    (register : BitVec width) {i : Nat}
    (inside : i < (bitsOfRegister register).length) :
    (bitsOfRegister register)[i] = register.getLsbD (width - 1 - i) := by
  have bound : i < width := by simpa using inside
  simp only [bitsOfRegister, List.getElem_map, List.getElem_range,
    BitVec.getMsbD_eq_getLsbD, bound, decide_true, Bool.true_and]

/-- The register of a bit string, its first bit the most significant one. -/
def registerOfBits (width : Nat) (bits : List Bool) : BitVec width :=
  BitVec.ofNat width
    (bits.foldl (fun value bit => 2 * value + bit.toNat) 0)

/-! ## Byte strings -/

/-- The bits of a byte string. -/
def bytesBits (bytes : List Byte) : List Bool :=
  bytes.flatMap bitsOfRegister

@[simp]
theorem bytesBits_nil : bytesBits [] = [] := rfl

@[simp]
theorem bytesBits_cons (byte : Byte) (rest : List Byte) :
    bytesBits (byte :: rest) = bitsOfRegister byte ++ bytesBits rest :=
  rfl

@[simp]
theorem bytesBits_append (front back : List Byte) :
    bytesBits (front ++ back) = bytesBits front ++ bytesBits back :=
  List.flatMap_append

@[simp]
theorem length_bytesBits (bytes : List Byte) :
    (bytesBits bytes).length = 8 * bytes.length := by
  induction bytes with
  | nil => rfl
  | cons byte rest induction =>
      rw [bytesBits_cons, List.length_append, length_bitsOfRegister,
        induction, List.length_cons]
      ring

theorem take_bytesBits (count : Nat) (bytes : List Byte) :
    (bytesBits bytes).take (8 * count) = bytesBits (bytes.take count) := by
  induction bytes generalizing count with
  | nil => simp
  | cons byte rest induction =>
      cases count with
      | zero => simp
      | succ count =>
          rw [List.take_succ_cons, bytesBits_cons, bytesBits_cons,
            ← induction count, Nat.mul_succ, Nat.add_comm (8 * count) 8,
            List.take_append, length_bitsOfRegister,
            List.take_of_length_le (by simp), Nat.add_sub_cancel_left]

theorem drop_bytesBits (count : Nat) (bytes : List Byte) :
    (bytesBits bytes).drop (8 * count) = bytesBits (bytes.drop count) := by
  induction bytes generalizing count with
  | nil => simp
  | cons byte rest induction =>
      cases count with
      | zero => simp
      | succ count =>
          rw [List.drop_succ_cons, bytesBits_cons, ← induction count,
            Nat.mul_succ, Nat.add_comm (8 * count) 8, List.drop_append,
            length_bitsOfRegister, List.drop_of_length_le (by simp),
            Nat.add_sub_cancel_left, List.nil_append]

/-! ## The bytes of a register -/

/-- The `count` bytes of a register, most significant byte first. -/
def bytesMsbFirst (count : Nat) (value : BitVec width) : List Byte :=
  (List.range count).map fun i =>
    (value >>> (8 * (count - 1 - i))).setWidth 8

@[simp]
theorem length_bytesMsbFirst (count : Nat) (value : BitVec width) :
    (bytesMsbFirst count value).length = count := by
  simp [bytesMsbFirst]

/-- Byte `i` of a register is the `i`-th group of eight of its bits. -/
theorem bitsOfRegister_byte
    {count : Nat} (whole : 8 * count = width) (value : BitVec width)
    {i : Nat} (inside : i < count) :
    bitsOfRegister ((value >>> (8 * (count - 1 - i))).setWidth 8) =
      ((bitsOfRegister value).drop (8 * i)).take 8 := by
  apply List.ext_getElem
  · simp only [length_bitsOfRegister, List.length_take, List.length_drop]
    omega
  · intro j insideByte insideValue
    have small : j < 8 := by simpa using insideByte
    have position :
        8 * (count - 1 - i) + (8 - 1 - j) = width - 1 - (8 * i + j) := by
      omega
    have low : 8 - 1 - j < 8 := by omega
    rw [getElem_bitsOfRegister, List.getElem_take, List.getElem_drop,
      getElem_bitsOfRegister, BitVec.getLsbD_setWidth,
      BitVec.getLsbD_ushiftRight, position]
    simp [low]

/-- The bytes of a register hold its bits in order. -/
theorem bytesBits_bytesMsbFirst
    {count : Nat} (whole : 8 * count = width) (value : BitVec width) :
    bytesBits (bytesMsbFirst count value) = bitsOfRegister value := by
  have leading (taken : Nat) (bounded : taken ≤ count) :
      bytesBits ((List.range taken).map fun i =>
          (value >>> (8 * (count - 1 - i))).setWidth 8) =
        (bitsOfRegister value).take (8 * taken) := by
    induction taken with
    | zero => simp
    | succ taken induction =>
        rw [List.range_succ, List.map_append, bytesBits_append,
          induction (Nat.le_of_succ_le bounded), Nat.mul_succ,
          List.take_add]
        simp [bitsOfRegister_byte whole value bounded]
  rw [bytesMsbFirst, leading count (Nat.le_refl count), whole]
  exact List.take_of_length_le (by simp)

/-! ## Reversal -/

theorem bitsOfRegister_reverse (register : BitVec width) :
    bitsOfRegister register.reverse = (bitsOfRegister register).reverse := by
  apply List.ext_getElem (by simp)
  intro i insideLeft insideRight
  have inside : i < width := by simpa using insideLeft
  have mirrored : width - 1 - (width - 1 - i) = i := by omega
  have front : width - 1 - i < width := by omega
  rw [List.getElem_reverse, getElem_bitsOfRegister,
    getElem_bitsOfRegister, length_bitsOfRegister, mirrored,
    BitVec.getLsbD_reverse, BitVec.getMsbD_eq_getLsbD, mirrored]
  simp [front]

theorem reverse_xor (left right : BitVec width) :
    (left ^^^ right).reverse = left.reverse ^^^ right.reverse := by
  apply BitVec.eq_of_getLsbD_eq
  intro i _
  simp only [BitVec.getLsbD_reverse, BitVec.getLsbD_xor,
    BitVec.getMsbD_xor]

/-- In the mirror a shift to the left is a shift to the right. -/
theorem reverse_shiftLeft_one (register : BitVec width) :
    (register <<< 1).reverse = register.reverse >>> 1 := by
  apply BitVec.eq_of_getLsbD_eq
  intro i inside
  rw [BitVec.getLsbD_reverse, BitVec.getMsbD_shiftLeft,
    BitVec.getLsbD_ushiftRight, BitVec.getLsbD_reverse, Nat.add_comm]

/-- In the mirror a field at the top of a register is at its low end. -/
theorem reverse_setWidth_shiftLeft
    {narrow shift : Nat} (aligned : narrow + shift = width)
    (field : BitVec narrow) :
    (field.setWidth width <<< shift).reverse =
      field.reverse.setWidth width := by
  subst aligned
  apply BitVec.eq_of_getLsbD_eq
  intro i inside
  have position : i + shift + narrow - (narrow + shift) = i := by omega
  rw [BitVec.getLsbD_reverse, BitVec.getMsbD_shiftLeft,
    BitVec.getMsbD_setWidth, position, BitVec.getLsbD_setWidth,
    BitVec.getLsbD_reverse]
  simp [inside]

/-! ## Big-endian words -/

/-- The 32-bit word of four bytes, the first the most significant. -/
def bigEndian (b0 b1 b2 b3 : Byte) : BitVec 32 :=
  b0 ++ b1 ++ b2 ++ b3

/-- A word assembled from shifted bytes. -/
theorem bigEndian_eq_shifts (b0 b1 b2 b3 : Byte) :
    bigEndian b0 b1 b2 b3 =
      b0.setWidth 32 <<< 24 ||| b1.setWidth 32 <<< 16 |||
        b2.setWidth 32 <<< 8 ||| b3.setWidth 32 := by
  unfold bigEndian
  ext i inside
  simp
  grind

theorem bytesMsbFirst_bigEndian (b0 b1 b2 b3 : Byte) :
    bytesMsbFirst 4 (bigEndian b0 b1 b2 b3) = [b0, b1, b2, b3] := by
  have byte (i : Nat) (small : i < 4) :
      (bigEndian b0 b1 b2 b3 >>> (8 * (4 - 1 - i))).setWidth 8 =
        [b0, b1, b2, b3].getD i 0 := by
    unfold bigEndian
    interval_cases i <;>
      · ext j inside
        simp
        grind
  simp only [bytesMsbFirst, List.range, List.range.loop, List.map]
  rw [byte 0 (by decide), byte 1 (by decide), byte 2 (by decide),
    byte 3 (by decide)]
  rfl

theorem bytesBits_four (b0 b1 b2 b3 : Byte) :
    bytesBits [b0, b1, b2, b3] =
      bitsOfRegister (bigEndian b0 b1 b2 b3) := by
  rw [← bytesMsbFirst_bigEndian, bytesBits_bytesMsbFirst rfl]

/-! ## Reading a register back -/

/-- The number read from a bit string that starts with the bits of a register. -/
theorem foldl_bits_getLsbD
    (bits : List Bool) (value i : Nat) :
    (bits.foldl (fun value bit => 2 * value + bit.toNat) value).testBit i =
      if i < bits.length then bits.reverse.getD i false
      else value.testBit (i - bits.length) := by
  induction bits generalizing value with
  | nil => simp
  | cons bit rest induction =>
      rw [List.foldl_cons, induction, List.reverse_cons, List.length_cons]
      have folded :
          2 * value + bit.toNat = Nat.bit bit value := by
        cases bit <;> simp [Nat.bit]
      rcases Nat.lt_trichotomy i rest.length with below | rfl | above
      · rw [if_pos below, if_pos (by omega)]
        simp [List.getD, List.getElem?_append_left, below]
      · rw [if_neg (Nat.lt_irrefl _), if_pos (by omega), folded]
        simp [List.getD]
      · rw [if_neg (by omega), if_neg (by omega), folded]
        obtain ⟨excess, rfl⟩ : ∃ excess, i = rest.length + 1 + excess :=
          ⟨i - (rest.length + 1), by omega⟩
        have shifted :
            rest.length + 1 + excess - rest.length = excess + 1 := by
          omega
        rw [shifted, Nat.add_sub_cancel_left, Nat.testBit_bit_succ]

@[simp]
theorem registerOfBits_bitsOfRegister (register : BitVec width) :
    registerOfBits width (bitsOfRegister register) = register := by
  apply BitVec.eq_of_getLsbD_eq
  intro i inside
  have position : i < (bitsOfRegister register).reverse.length := by
    simpa using inside
  have mirrored : width - 1 - (width - 1 - i) = i := by omega
  rw [registerOfBits, BitVec.getLsbD_ofNat, foldl_bits_getLsbD,
    if_pos (by simpa using inside), List.getD_eq_getElem _ _ position,
    List.getElem_reverse, getElem_bitsOfRegister]
  simp [inside, mirrored]

end CommonCode.Lib.Bits
