import CommonCode.Sm4.Code
import CommonCode.Sm4.Standard

/-!
# The 64-bit code computes the 32-bit cipher

The bits above bit 31 that `ROTL` leaves in a word are never observed: every
operation of the cipher commutes with truncation to the low 32 bits, and the
two places where a word leaves the 64-bit world, the split into S-box indices
and the output bytes, read only those bits.  The simulation relation is
equality of the low halves, carried along both loops by the uniqueness of
four-branch sequences.
-/

namespace CommonCode.Sm4

open CommonCode.Lib
open CommonCode.Lib.Bits
open CommonCode.Lib.FourBranch
open CommonCode.Sm4.Standard (Word wordByte blockWord blockOfWords)

/-- The low 32 bits of an `unsigned long`. -/
def low (x : ULong) : Word := x.setWidth 32

@[simp]
theorem low_xor (x y : ULong) : low (x ^^^ y) = low x ^^^ low y := by
  simp [low]

/-- A byte of the low half is a byte of the word. -/
theorem setWidth_ushiftRight_eq_wordByte
    (n : ULong) {i : Nat} (inside : i < 4) :
    (n >>> (8 * (3 - i))).setWidth 8 = wordByte (low n) i := by
  apply BitVec.eq_of_getLsbD_eq
  intro j bound
  have position : 8 * (3 - i) + j < 32 := by omega
  simp [wordByte, low, position]

/-! ## The macros -/

theorem getUlongBE_eq {size : Nat} (b : CArray Byte size) (i : Nat) :
    getUlongBE b i =
      (bigEndian (b.read i) (b.read (i + 1)) (b.read (i + 2))
        (b.read (i + 3))).setWidth 64 := by
  unfold getUlongBE bigEndian
  ext j inside
  simp
  grind

theorem low_setWidth (w : Word) : low (w.setWidth 64) = w := by
  simp [low]

theorem read_putUlongBE
    {size : Nat} (n : ULong) (b : CArray Byte size) {i : Nat}
    (inside : i + 3 < size) (j : Nat) :
    (putUlongBE n b i).read j =
      if i ≤ j ∧ j < i + 4 then wordByte (low n) (j - i)
      else b.read j := by
  have byte0 := setWidth_ushiftRight_eq_wordByte n (i := 0) (by decide)
  have byte1 := setWidth_ushiftRight_eq_wordByte n (i := 1) (by decide)
  have byte2 := setWidth_ushiftRight_eq_wordByte n (i := 2) (by decide)
  have byte3 := setWidth_ushiftRight_eq_wordByte n (i := 3) (by decide)
  simp only [Nat.reduceSub, Nat.reduceMul, BitVec.ushiftRight_zero]
    at byte0 byte1 byte2 byte3
  simp only [putUlongBE, byte0, byte1, byte2, byte3]
  rw [CArray.read_write _ inside, CArray.read_write _ (by omega),
    CArray.read_write _ (by omega), CArray.read_write _ (by omega)]
  by_cases within : i ≤ j ∧ j < i + 4
  · obtain ⟨offset, small, rfl⟩ : ∃ offset, offset < 4 ∧ j = i + offset :=
      ⟨j - i, by omega, by omega⟩
    rw [if_pos within, Nat.add_sub_cancel_left]
    interval_cases offset <;> simp
  · rw [if_neg within, if_neg (by omega), if_neg (by omega),
      if_neg (by omega), if_neg (by omega)]

/-- `ROTL` of a word without high bits rotates its low half. -/
theorem low_rotl (w : Word) {n : Nat} (small : n < 32) :
    low (rotl (w.setWidth 64) n) = w.rotateLeft n := by
  have mask : ∀ i < 32, (0xFFFFFFFF#64).getLsbD i = true := by decide
  apply BitVec.eq_of_getLsbD_eq
  intro i inside
  rw [BitVec.rotateLeft_def, Nat.mod_eq_of_lt small]
  simp only [low, rotl, shl, BitVec.getLsbD_setWidth, BitVec.getLsbD_or,
    BitVec.getLsbD_shiftLeft, BitVec.getLsbD_and,
    BitVec.getLsbD_ushiftRight, mask (i - n) (by omega)]
  have wide : i < 64 := by omega
  have shifted : i - n < 64 := by omega
  by_cases below : 32 - n + i < 64
  · simp [inside, wide, shifted, below]
  · omega

/-! ## The round functions -/

theorem read_sboxIndices (ka : ULong) {i : Nat} (inside : i < 4) :
    (sboxIndices ka).read i = wordByte (low ka) i := by
  rw [sboxIndices, read_putUlongBE _ _ (by decide), if_pos (by omega),
    Nat.sub_zero]

theorem substitute_eq (ka : ULong) :
    substitute ka = (Standard.tau sm4Sbox (low ka)).setWidth 64 := by
  simp only [substitute, getUlongBE_eq, Nat.zero_add]
  rw [Standard.tau, read_sboxIndices ka (by decide),
    read_sboxIndices ka (by decide), read_sboxIndices ka (by decide),
    read_sboxIndices ka (by decide)]
  simp [CArray.read_write]

theorem low_sm4Lt (ka : ULong) :
    low (sm4Lt ka) = Standard.linear (Standard.tau sm4Sbox (low ka)) := by
  simp only [sm4Lt, substitute_eq, low_xor, low_setWidth,
    low_rotl _ (by decide : 2 < 32), low_rotl _ (by decide : 10 < 32),
    low_rotl _ (by decide : 18 < 32), low_rotl _ (by decide : 24 < 32),
    Standard.linear]

theorem low_sm4CalciRK (ka : ULong) :
    low (sm4CalciRK ka) =
      Standard.linearKey (Standard.tau sm4Sbox (low ka)) := by
  simp only [sm4CalciRK, substitute_eq, low_xor, low_setWidth,
    low_rotl _ (by decide : 13 < 32), low_rotl _ (by decide : 23 < 32),
    Standard.linearKey]

/-! ## The loops -/

/-- The mixing functions of the key loop. -/
def keyMixing64 : Mixing 64 := fun i a b c =>
  sm4CalciRK (a ^^^ b ^^^ c ^^^ ck.getD i 0)

/-- The mixing functions of the round loop. -/
def roundMixing64 (sk : CArray ULong 32) : Mixing 64 := fun i a b c =>
  sm4Lt (a ^^^ b ^^^ c ^^^ sk.read i)

/-- The array `k` after the first `count` iterations of the key loop. -/
theorem keyLoop_words
    (sk : CArray ULong 32) (key : Block) (count : Nat)
    (bounded : count ≤ 32) :
    ((List.range count).foldl
        (fun (state : CArray ULong 36 × CArray ULong 32) i =>
          let k := state.1.write (i + 4) (nextKeyWord state.1 i)
          (k, state.2.write i (k.read (i + 4))))
        (initialKeyWords key, sk)).1 =
      (List.range count).foldl
        (fun k i => k.write (i + 4) (nextKeyWord k i))
        (initialKeyWords key) ∧
    ∀ i < count,
      ((List.range count).foldl
          (fun (state : CArray ULong 36 × CArray ULong 32) i =>
            let k := state.1.write (i + 4) (nextKeyWord state.1 i)
            (k, state.2.write i (k.read (i + 4))))
          (initialKeyWords key, sk)).2.read i =
        ((List.range count).foldl
          (fun k i => k.write (i + 4) (nextKeyWord k i))
          (initialKeyWords key)).read (i + 4) := by
  induction count with
  | zero => simp
  | succ count induction =>
      rcases induction (by omega) with ⟨words, keys⟩
      simp only [List.range_succ, List.foldl_append, List.foldl_cons,
        List.foldl_nil]
      refine ⟨by rw [words], fun i below => ?_⟩
      rw [CArray.read_write _ (by omega), words]
      by_cases last : i = count
      · rw [if_pos last, last]
      · rw [if_neg last, keys i (by omega),
          CArray.read_write_of_ne _ (by omega) _ (by omega)]

theorem keyLoop_isSequence (sk : CArray ULong 32) (key : Block) :
    IsSequence keyMixing64 32 (keyLoop sk key).1.read ∧
      ∀ i < 4,
        (keyLoop sk key).1.read i =
          getUlongBE key (4 * i) ^^^ fk.getD i 0 := by
  have dependence :
      ∀ (i : Nat) (left right : CArray ULong 36),
        (∀ j < i + 4, left.read j = right.read j) →
          nextKeyWord left i = nextKeyWord right i := by
    intro i left right equal
    simp only [nextKeyWord, equal i (by omega), equal (i + 1) (by omega),
      equal (i + 2) (by omega), equal (i + 3) (by omega)]
  rw [keyLoop, (keyLoop_words sk key 32 le_rfl).1]
  rcases CArray.foldl_extend 4 nextKeyWord dependence 32 (by decide)
      (initialKeyWords key) with
    ⟨equations, kept⟩
  refine ⟨equations, fun i small => ?_⟩
  rw [kept i small]
  interval_cases i <;> simp [initialKeyWords, CArray.read_write]

/-- The key array holds the words of the key loop from the fifth on. -/
theorem read_sm4SetKey
    (sk : CArray ULong 32) (key : Block) {i : Nat} (inside : i < 32) :
    (sm4SetKey sk key).read i = (keyLoop sk key).1.read (i + 4) := by
  rcases keyLoop_words sk key 32 le_rfl with ⟨words, keys⟩
  rw [sm4SetKey, keyLoop, keys i inside, words]

theorem roundLoop_isSequence (sk : CArray ULong 32) (input : Block) :
    IsSequence (roundMixing64 sk) 32 (roundLoop sk input).read ∧
      ∀ i < 4,
        (roundLoop sk input).read i = getUlongBE input (4 * i) := by
  have dependence :
      ∀ (i : Nat) (left right : CArray ULong 36),
        (∀ j < i + 4, left.read j = right.read j) →
          sm4F (left.read i) (left.read (i + 1)) (left.read (i + 2))
              (left.read (i + 3)) (sk.read i) =
            sm4F (right.read i) (right.read (i + 1)) (right.read (i + 2))
              (right.read (i + 3)) (sk.read i) := by
    intro i left right equal
    rw [equal i (by omega), equal (i + 1) (by omega),
      equal (i + 2) (by omega), equal (i + 3) (by omega)]
  rcases CArray.foldl_extend 4 _ dependence 32 (by decide)
      (initialRoundWords input) with
    ⟨equations, kept⟩
  refine ⟨equations, fun i small => ?_⟩
  rw [roundLoop, kept i small]
  interval_cases i <;> simp [initialRoundWords, CArray.read_write]

/-! ## The simulation -/

/-- The parameters of the source, truncated to words. -/
def fkWord (i : Nat) : Word := low (fk.getD i 0)

def ckWord (i : Nat) : Word := low (ck.getD i 0)

theorem low_getUlongBE_block (block : Block) (i : Nat) :
    low (getUlongBE block (4 * i)) = blockWord block i := by
  rw [getUlongBE_eq, low_setWidth, blockWord]

/-- The low halves of the key words are the key words of the standard. -/
theorem low_keyLoop
    (sk : CArray ULong 32) (key : Block) :
    ∀ i < 36,
      low ((keyLoop sk key).1.read i) =
        Standard.keyWords sm4Sbox fkWord ckWord key i := by
  rcases keyLoop_isSequence sk key with ⟨wide, initial⟩
  have narrow :
      IsSequence (Standard.keyMixing sm4Sbox ckWord) 32
        (Standard.keyWords sm4Sbox fkWord ckWord key) :=
    sequence_isSequence _ _ _ _ _ 32
  refine wide.map_eq low low_xor ?_ narrow ?_
  · intro i _ a b c
    simp only [keyMixing64, low_sm4CalciRK, low_xor,
      Standard.keyMixing, ckWord]
  · intro i small
    rw [initial i small, low_xor, low_getUlongBE_block]
    interval_cases i <;> rfl

/-- The low halves of the round words are the round words of the standard. -/
theorem low_roundLoop
    (sk : CArray ULong 32) (rk : Nat → Word)
    (keys : ∀ i < 32, low (sk.read i) = rk i) (input : Block) :
    ∀ i < 36,
      low ((roundLoop sk input).read i) =
        Standard.roundWords sm4Sbox rk input i := by
  rcases roundLoop_isSequence sk input with ⟨wide, initial⟩
  refine
    wide.map_eq low low_xor ?_
      (Standard.roundWords_isSequence sm4Sbox rk input) ?_
  · intro i bound a b c
    simp only [roundMixing64, low_sm4Lt, low_xor, keys i bound,
      Standard.roundMixing]
  · intro i small
    rw [initial i small, low_getUlongBE_block,
      Standard.roundWords_initial sm4Sbox rk input i small]

/-- One block of the code is one block of the standard. -/
theorem sm4OneRound_eq_crypt
    (sk : CArray ULong 32) (rk : Nat → Word)
    (keys : ∀ i < 32, low (sk.read i) = rk i) (input : Block) :
    sm4OneRound sk input = Standard.crypt sm4Sbox rk input := by
  have words := low_roundLoop sk rk keys input
  apply CArray.ext_read
  intro i inside
  rw [Standard.crypt, Standard.read_blockOfWords _ inside]
  simp only [sm4OneRound]
  rw [read_putUlongBE _ _ (by decide), read_putUlongBE _ _ (by decide),
    read_putUlongBE _ _ (by decide), read_putUlongBE _ _ (by decide),
    words 35 (by decide), words 34 (by decide), words 33 (by decide),
    words 32 (by decide)]
  interval_cases i <;> rfl

theorem low_sm4SetKey
    (sk : CArray ULong 32) (key : Block) :
    ∀ i < 32,
      low ((sm4SetKey sk key).read i) =
        Standard.keyWords sm4Sbox fkWord ckWord key (i + 4) := by
  intro i inside
  rw [read_sm4SetKey sk key inside,
    low_keyLoop sk key (i + 4) (by omega)]

/--
On a 64-bit target the code encrypts every block under every key exactly as
the 32-bit cipher does, and every S-box index of both loops is the index of the
32-bit cipher: the bits above bit 31 never reach either.
-/
theorem sm4_high_bits_unobservable
    (ctx : Sm4Context) (key input : Block) :
    let sk := (sm4SetKeyEnc ctx key).sk
    let k := (keyLoop ctx.sk key).1
    let keyWord := Standard.keyWords sm4Sbox fkWord ckWord key
    let ulbuf := roundLoop sk input
    let roundWord :=
      Standard.roundWords sm4Sbox (fun i => keyWord (i + 4)) input
    sm4OneRound sk input =
        Standard.encrypt sm4Sbox fkWord ckWord key input ∧
      (∀ i < 32, ∀ j < 4,
        (sboxIndices
            (k.read (i + 1) ^^^ k.read (i + 2) ^^^ k.read (i + 3) ^^^
              ck.getD i 0)).read j =
          wordByte
            (keyWord (i + 1) ^^^ keyWord (i + 2) ^^^ keyWord (i + 3) ^^^
              ckWord i) j) ∧
      (∀ i < 32, ∀ j < 4,
        (sboxIndices
            (ulbuf.read (i + 1) ^^^ ulbuf.read (i + 2) ^^^
              ulbuf.read (i + 3) ^^^ sk.read i)).read j =
          wordByte
            (roundWord (i + 1) ^^^ roundWord (i + 2) ^^^
              roundWord (i + 3) ^^^ keyWord (i + 4)) j) := by
  intro sk k keyWord ulbuf roundWord
  have keys : ∀ i < 32, low (sk.read i) = keyWord (i + 4) :=
    low_sm4SetKey ctx.sk key
  have keyWords : ∀ i < 36, low (k.read i) = keyWord i :=
    low_keyLoop ctx.sk key
  have roundWords : ∀ i < 36, low (ulbuf.read i) = roundWord i :=
    low_roundLoop sk _ keys input
  refine ⟨sm4OneRound_eq_crypt sk _ keys input, ?_, ?_⟩
  · intro i bound j small
    rw [read_sboxIndices _ small, low_xor, low_xor, low_xor,
      keyWords (i + 1) (by omega), keyWords (i + 2) (by omega),
      keyWords (i + 3) (by omega)]
    rfl
  · intro i bound j small
    rw [read_sboxIndices _ small, low_xor, low_xor, low_xor,
      roundWords (i + 1) (by omega), roundWords (i + 2) (by omega),
      roundWords (i + 3) (by omega), keys i bound]

end CommonCode.Sm4
