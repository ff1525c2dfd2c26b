import CommonCode.Lib.Bits
import CommonCode.Lib.CArray
import CommonCode.Lib.FourBranch

/-!
# SM4 as GM/T 0002-2012 defines it

The definition works on 32-bit words throughout.  The S-box and the parameters
`FK` and `CK` are arguments, so that the code can be compared with the standard
at the tables the code uses.

Encryption runs a four-branch Feistel sequence over the words of the block and
outputs its last four words in reverse order.  Decryption is the same function
with the round keys in reverse order; that it inverts encryption holds for
every choice of round keys, by reading the sequence backwards.
-/

namespace CommonCode.Sm4.Standard

open CommonCode.Lib
open CommonCode.Lib.Bits
open CommonCode.Lib.FourBranch

abbrev Word := BitVec 32
abbrev Block := CArray Byte 16

variable (sbox : Byte → Byte)

/-! ## Round functions -/

/-- Byte `i` of a word, the most significant byte first. -/
def wordByte (a : Word) (i : Nat) : Byte :=
  (a >>> (8 * (3 - i))).setWidth 8

/-- The nonlinear substitution on the four bytes of a word. -/
def tau (a : Word) : Word :=
  bigEndian (sbox (wordByte a 0)) (sbox (wordByte a 1))
    (sbox (wordByte a 2)) (sbox (wordByte a 3))

/-- The linear substitution of the rounds. -/
def linear (b : Word) : Word :=
  b ^^^ b.rotateLeft 2 ^^^ b.rotateLeft 10 ^^^ b.rotateLeft 18 ^^^
    b.rotateLeft 24

/-- The linear substitution of the key expansion. -/
def linearKey (b : Word) : Word :=
  b ^^^ b.rotateLeft 13 ^^^ b.rotateLeft 23

/-- The mixing functions of the rounds with round keys `rk`. -/
def roundMixing (rk : Nat → Word) : Mixing 32 := fun i a b c =>
  linear (tau sbox (a ^^^ b ^^^ c ^^^ rk i))

/-- The mixing functions of the key expansion with parameters `ck`. -/
def keyMixing (ck : Nat → Word) : Mixing 32 := fun i a b c =>
  linearKey (tau sbox (a ^^^ b ^^^ c ^^^ ck i))

/-! ## Blocks -/

/-- Word `i` of a block. -/
def blockWord (block : Block) (i : Nat) : Word :=
  bigEndian (block.read (4 * i)) (block.read (4 * i + 1))
    (block.read (4 * i + 2)) (block.read (4 * i + 3))

/-- The block with the given four words. -/
def blockOfWords (word : Nat → Word) : Block :=
  Vector.ofFn fun i => wordByte (word (i.val / 4)) (i.val % 4)

theorem read_blockOfWords (word : Nat → Word) {i : Nat} (inside : i < 16) :
    (blockOfWords word).read i = wordByte (word (i / 4)) (i % 4) := by
  simp [blockOfWords, CArray.read, inside, Vector.get_eq_getElem]

theorem bigEndian_wordBytes (a : Word) :
    bigEndian (wordByte a 0) (wordByte a 1) (wordByte a 2)
      (wordByte a 3) = a := by
  unfold bigEndian wordByte
  ext i inside
  simp
  grind

theorem wordByte_bigEndian (b0 b1 b2 b3 : Byte) :
    wordByte (bigEndian b0 b1 b2 b3) 0 = b0 ∧
      wordByte (bigEndian b0 b1 b2 b3) 1 = b1 ∧
      wordByte (bigEndian b0 b1 b2 b3) 2 = b2 ∧
      wordByte (bigEndian b0 b1 b2 b3) 3 = b3 := by
  have bytes := bytesMsbFirst_bigEndian b0 b1 b2 b3
  simpa [bytesMsbFirst, List.range, List.range.loop, wordByte] using bytes

@[simp]
theorem blockWord_blockOfWords
    (word : Nat → Word) {i : Nat} (inside : i < 4) :
    blockWord (blockOfWords word) i = word i := by
  have byte (j : Nat) (small : j < 4) :
      (blockOfWords word).read (4 * i + j) = wordByte (word i) j := by
    rw [read_blockOfWords word (by omega)]
    have quotient : (4 * i + j) / 4 = i := by omega
    have remainder : (4 * i + j) % 4 = j := by omega
    rw [quotient, remainder]
  have first := byte 0 (by decide)
  rw [Nat.add_zero] at first
  rw [blockWord, first, byte 1 (by decide), byte 2 (by decide),
    byte 3 (by decide), bigEndian_wordBytes]

/-- A block is the block of its four words. -/
theorem blockOfWords_blockWord
    {word : Nat → Word} {block : Block}
    (words : ∀ i < 4, word i = blockWord block i) :
    blockOfWords word = block := by
  apply CArray.ext_read
  intro i inside
  rw [read_blockOfWords word inside, words (i / 4) (by omega), blockWord]
  have bytes :=
    wordByte_bigEndian (block.read (4 * (i / 4)))
      (block.read (4 * (i / 4) + 1)) (block.read (4 * (i / 4) + 2))
      (block.read (4 * (i / 4) + 3))
  have position : i = 4 * (i / 4) + i % 4 := by omega
  have small : i % 4 < 4 := Nat.mod_lt i (by decide)
  conv_rhs => rw [position]
  generalize i % 4 = j at small
  interval_cases j
  · exact bytes.1
  · exact bytes.2.1
  · exact bytes.2.2.1
  · exact bytes.2.2.2

/-! ## The cipher -/

/-- The words of the thirty-two rounds. -/
def roundWords (rk : Nat → Word) (input : Block) : Nat → Word :=
  sequence (roundMixing sbox rk) (blockWord input 0) (blockWord input 1)
    (blockWord input 2) (blockWord input 3)

/-- Thirty-two rounds and the final reversal. -/
def crypt (rk : Nat → Word) (input : Block) : Block :=
  blockOfWords fun i => roundWords sbox rk input (35 - i)

/-- The words of the key expansion. -/
def keyWords (fk ck : Nat → Word) (key : Block) : Nat → Word :=
  sequence (keyMixing sbox ck) (blockWord key 0 ^^^ fk 0)
    (blockWord key 1 ^^^ fk 1) (blockWord key 2 ^^^ fk 2)
    (blockWord key 3 ^^^ fk 3)

/-- Encryption of one block. -/
def encrypt (fk ck : Nat → Word) (key input : Block) : Block :=
  crypt sbox (fun i => keyWords sbox fk ck key (i + 4)) input

/-! ## Decryption inverts encryption -/

theorem roundMixing_symmetric (rk : Nat → Word) :
    Symmetric (roundMixing sbox rk) := by
  intro i a b c
  have swapped : a ^^^ b ^^^ c ^^^ rk i = c ^^^ b ^^^ a ^^^ rk i := by
    ac_rfl
  rw [roundMixing, swapped]
  rfl

theorem roundWords_isSequence (rk : Nat → Word) (input : Block) :
    IsSequence (roundMixing sbox rk) 32 (roundWords sbox rk input) :=
  sequence_isSequence _ _ _ _ _ 32

theorem roundWords_initial (rk : Nat → Word) (input : Block) :
    ∀ i < 4, roundWords sbox rk input i = blockWord input i := by
  intro i inside
  interval_cases i <;> rfl

/-- The rounds with reversed keys undo the rounds. -/
theorem crypt_crypt
    {rk reversed : Nat → Word}
    (keys : ∀ i < 32, reversed i = rk (31 - i)) (input : Block) :
    crypt sbox reversed (crypt sbox rk input) = input := by
  have forward := roundWords_isSequence sbox rk input
  have backward :=
    roundWords_isSequence sbox reversed (crypt sbox rk input)
  have mirrored :
      IsSequence (roundMixing sbox reversed) 32
        (fun i => roundWords sbox rk input (35 - i)) := by
    intro i bound
    have step :=
      forward.reverse (roundMixing_symmetric sbox rk) i bound
    simp only [roundMixing, keys i bound] at step ⊢
    exact step
  have agree :=
    backward.eq mirrored (fun i small => by
      rw [roundWords_initial sbox reversed _ i small, crypt,
        blockWord_blockOfWords _ small])
  rw [crypt]
  apply blockOfWords_blockWord
  intro i small
  have position : 35 - (35 - i) = i := by omega
  rw [agree (35 - i) (by omega), position,
    roundWords_initial sbox rk input i small]

end CommonCode.Sm4.Standard
