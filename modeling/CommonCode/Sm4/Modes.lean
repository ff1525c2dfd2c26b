import CommonCode.Sm4.Refinement

/-!
# Round trips of the block modes

A decryption context holds the round keys of the encryption context in reverse
order, so one block under one context undoes one block under the other.  The
block modes follow by induction on the number of blocks.  A length that is not
a multiple of sixteen counts as the next multiple, as in the source.
-/

namespace CommonCode.Sm4

open CommonCode.Lib
open CommonCode.Lib.Bits
open CommonCode.Sm4.Standard (Word)

/-! ## The key order of a decryption context -/

theorem read_swap
    (sk : CArray ULong 32) {i j : Nat} (left : i < 32) (right : j < 32)
    (p : Nat) :
    (swap sk i j).read p =
      if p = j then sk.read i
      else if p = i then sk.read j
      else sk.read p := by
  simp only [swap]
  rw [CArray.read_write _ right, CArray.read_write _ left]

/-- The swap loop mirrors the outer elements, one pair in every iteration. -/
theorem read_swapLoop
    (sk : CArray ULong 32) (count : Nat) (bounded : count ≤ 16)
    {p : Nat} (inside : p < 32) :
    ((List.range count).foldl (fun sk i => swap sk i (31 - i)) sk).read p =
      if p < count ∨ 31 - p < count then sk.read (31 - p)
      else sk.read p := by
  induction count generalizing p with
  | zero => simp
  | succ count induction =>
      rw [List.range_succ, List.foldl_append, List.foldl_cons,
        List.foldl_nil, read_swap _ (by omega) (by omega)]
      by_cases upper : p = 31 - count
      · have mirrored : 31 - p = count := by omega
        rw [if_pos upper, if_pos (by omega), mirrored,
          induction (by omega) (by omega), if_neg (by omega)]
      · rw [if_neg upper]
        by_cases lower : p = count
        · rw [if_pos lower, if_pos (by omega), lower,
            induction (by omega) (by omega), if_neg (by omega)]
        · rw [if_neg lower, induction (by omega) inside]
          congr 1
          simp only [eq_iff_iff]
          omega

/-- The two contexts of a key undo each other on every block. -/
def Inverse (left right : Sm4Context) : Prop :=
  ∀ block : Block,
    sm4OneRound right.sk (sm4OneRound left.sk block) = block

theorem low_sm4SetKeyDec (ctx : Sm4Context) (key : Block) :
    ∀ i < 32,
      low ((sm4SetKeyDec ctx key).sk.read i) =
        Standard.keyWords sm4Sbox fkWord ckWord key (31 - i + 4) := by
  intro i inside
  have mirrored :
      (sm4SetKeyDec ctx key).sk.read i =
        (sm4SetKey ctx.sk key).read (31 - i) := by
    rw [sm4SetKeyDec, read_swapLoop _ 16 le_rfl inside,
      if_pos (by omega)]
  rw [mirrored, low_sm4SetKey ctx.sk key (31 - i) (by omega)]

theorem low_sm4SetKeyEnc (ctx : Sm4Context) (key : Block) :
    ∀ i < 32,
      low ((sm4SetKeyEnc ctx key).sk.read i) =
        Standard.keyWords sm4Sbox fkWord ckWord key (i + 4) :=
  low_sm4SetKey ctx.sk key

theorem inverse_enc_dec (encCtx decCtx : Sm4Context) (key : Block) :
    Inverse (sm4SetKeyEnc encCtx key) (sm4SetKeyDec decCtx key) := by
  intro block
  rw [sm4OneRound_eq_crypt _ _ (low_sm4SetKeyDec decCtx key),
    sm4OneRound_eq_crypt _ _ (low_sm4SetKeyEnc encCtx key)]
  apply Standard.crypt_crypt sm4Sbox
  intro i _
  rfl

theorem inverse_dec_enc (encCtx decCtx : Sm4Context) (key : Block) :
    Inverse (sm4SetKeyDec decCtx key) (sm4SetKeyEnc encCtx key) := by
  intro block
  rw [sm4OneRound_eq_crypt _ _ (low_sm4SetKeyEnc encCtx key),
    sm4OneRound_eq_crypt _ _ (low_sm4SetKeyDec decCtx key)]
  apply Standard.crypt_crypt sm4Sbox
  intro i bound
  have position : 31 - (31 - i) = i := by omega
  rw [position]

/-! ## Blocks in a buffer -/

theorem read_loadBlock (input : List Byte) {i : Nat} (inside : i < 16) :
    (loadBlock input).read i = input.getD i 0 := by
  simp [loadBlock, CArray.read, inside, Vector.get_eq_getElem]

theorem loadBlock_append (block : Block) (rest : List Byte) :
    loadBlock (block.toList ++ rest) = block := by
  apply CArray.ext_read
  intro i inside
  rw [read_loadBlock _ inside,
    List.getD_append _ _ _ _ (by simpa using inside),
    List.getD_eq_getElem _ _ (by simpa using inside)]
  simp [CArray.read, inside, Vector.get_eq_getElem]

theorem drop_block_append (block : Block) (rest : List Byte) :
    (block.toList ++ rest).drop 16 = rest := by
  have size : block.toList.length = 16 := by simp
  exact List.drop_left' size

theorem toList_loadBlock {input : List Byte} (enough : 16 ≤ input.length) :
    (loadBlock input).toList = input.take 16 := by
  apply List.ext_getElem
  · simp [enough]
  · intro i inside _
    have small : i < 16 := by simpa using inside
    have bound : i < input.length := by omega
    simp [loadBlock, bound]

theorem loadBlock_append_drop
    {input : List Byte} (enough : 16 ≤ input.length) :
    (loadBlock input).toList ++ input.drop 16 = input := by
  rw [toList_loadBlock enough, List.take_append_drop]

theorem read_xorBlock (a b : Block) {i : Nat} (inside : i < 16) :
    (xorBlock a b).read i = a.read i ^^^ b.read i := by
  simp [xorBlock, CArray.read, inside, Vector.get_eq_getElem]

theorem xorBlock_xorBlock (a b : Block) :
    xorBlock (xorBlock a b) b = a := by
  apply CArray.ext_read
  intro i inside
  rw [read_xorBlock _ _ inside, read_xorBlock _ _ inside,
    BitVec.xor_assoc, BitVec.xor_self, BitVec.xor_zero]

/-! ## Lengths that cover a number of blocks -/

/-- The loops run `count` times for this length. -/
def Covers (count : Nat) (length : Int) : Prop :=
  16 * ((count : Int) - 1) < length ∧ length ≤ 16 * count

theorem Covers.not_pos {length : Int} (covers : Covers 0 length) :
    ¬ length > 0 := by
  have upper := covers.2
  omega

theorem Covers.pos {count : Nat} {length : Int}
    (covers : Covers (count + 1) length) :
    length > 0 := by
  have lower := covers.1
  omega

theorem Covers.step {count : Nat} {length : Int}
    (covers : Covers (count + 1) length) :
    Covers count (length - 16) := by
  unfold Covers at *
  omega

/-! ## One iteration of the loops -/

theorem sm4CryptEcb_done
    (ctx : Sm4Context) (mode : Int) {length : Int} (input : List Byte)
    (covers : Covers 0 length) :
    sm4CryptEcb ctx mode length input = [] := by
  rw [sm4CryptEcb, if_neg covers.not_pos]

theorem sm4CryptEcb_step
    (ctx : Sm4Context) (mode : Int) {length : Int} (input : List Byte)
    {count : Nat} (covers : Covers (count + 1) length) :
    sm4CryptEcb ctx mode length input =
      (sm4OneRound ctx.sk (loadBlock input)).toList ++
        sm4CryptEcb ctx mode (length - 16) (input.drop 16) := by
  rw [sm4CryptEcb, if_pos covers.pos]

theorem cbcEncrypt_done
    (ctx : Sm4Context) {length : Int} (iv : Block) (input : List Byte)
    (covers : Covers 0 length) :
    cbcEncrypt ctx length iv input = ([], iv) := by
  rw [cbcEncrypt, if_neg covers.not_pos]

theorem cbcEncrypt_step
    (ctx : Sm4Context) {length : Int} (iv : Block) (input : List Byte)
    {count : Nat} (covers : Covers (count + 1) length) :
    cbcEncrypt ctx length iv input =
      let output := sm4OneRound ctx.sk (xorBlock (loadBlock input) iv)
      let rest := cbcEncrypt ctx (length - 16) output (input.drop 16)
      (output.toList ++ rest.1, rest.2) := by
  rw [cbcEncrypt, if_pos covers.pos]

theorem cbcDecrypt_done
    (ctx : Sm4Context) {length : Int} (iv : Block) (input : List Byte)
    (covers : Covers 0 length) :
    cbcDecrypt ctx length iv input = ([], iv) := by
  rw [cbcDecrypt, if_neg covers.not_pos]

theorem cbcDecrypt_step
    (ctx : Sm4Context) {length : Int} (iv : Block) (input : List Byte)
    {count : Nat} (covers : Covers (count + 1) length) :
    cbcDecrypt ctx length iv input =
      let output :=
        xorBlock (sm4OneRound ctx.sk (loadBlock input)) iv
      let rest :=
        cbcDecrypt ctx (length - 16) (loadBlock input) (input.drop 16)
      (output.toList ++ rest.1, rest.2) := by
  rw [cbcDecrypt, if_pos covers.pos]

/-! ## Round trips -/

theorem sm4CryptEcb_roundTrip
    {left right : Sm4Context} (inverse : Inverse left right)
    (leftMode rightMode : Int) {count : Nat} {length : Int}
    (covers : Covers count length) {data : List Byte}
    (blocks : data.length = 16 * count) :
    sm4CryptEcb right rightMode length
        (sm4CryptEcb left leftMode length data) =
      data := by
  induction count generalizing length data with
  | zero =>
      rw [sm4CryptEcb_done _ _ _ covers]
      exact (List.length_eq_zero_iff.mp blocks).symm
  | succ count induction =>
      have tail :=
        induction covers.step
          (by simp only [List.length_drop]; omega :
            (data.drop 16).length = 16 * count)
      rw [sm4CryptEcb_step left _ _ covers,
        sm4CryptEcb_step right _ _ covers, loadBlock_append,
        drop_block_append, tail, inverse]
      exact loadBlock_append_drop (by omega)

theorem cbcDecrypt_cbcEncrypt
    {enc dec : Sm4Context} (inverse : Inverse enc dec)
    {count : Nat} {length : Int} (covers : Covers count length)
    (iv : Block) {data : List Byte}
    (blocks : data.length = 16 * count) :
    (cbcDecrypt dec length iv (cbcEncrypt enc length iv data).1).1 =
      data := by
  induction count generalizing length iv data with
  | zero =>
      rw [cbcDecrypt_done _ _ _ covers]
      exact (List.length_eq_zero_iff.mp blocks).symm
  | succ count induction =>
      have tail :=
        induction covers.step
          (sm4OneRound enc.sk (xorBlock (loadBlock data) iv))
          (by simp only [List.length_drop]; omega :
            (data.drop 16).length = 16 * count)
      rw [cbcEncrypt_step enc _ _ covers, cbcDecrypt_step dec _ _ covers]
      simp only [loadBlock_append, drop_block_append, tail, inverse _,
        xorBlock_xorBlock]
      exact loadBlock_append_drop (by omega)

theorem cbcEncrypt_cbcDecrypt
    {enc dec : Sm4Context} (inverse : Inverse dec enc)
    {count : Nat} {length : Int} (covers : Covers count length)
    (iv : Block) {data : List Byte}
    (blocks : data.length = 16 * count) :
    (cbcEncrypt enc length iv (cbcDecrypt dec length iv data).1).1 =
      data := by
  induction count generalizing length iv data with
  | zero =>
      rw [cbcEncrypt_done _ _ _ covers]
      exact (List.length_eq_zero_iff.mp blocks).symm
  | succ count induction =>
      have tail :=
        induction covers.step (loadBlock data)
          (by simp only [List.length_drop]; omega :
            (data.drop 16).length = 16 * count)
      rw [cbcDecrypt_step dec _ _ covers, cbcEncrypt_step enc _ _ covers]
      simp only [loadBlock_append, drop_block_append, xorBlock_xorBlock,
        inverse _, tail]
      exact loadBlock_append_drop (by omega)

/-! ## The initialisation vector left behind -/

/-- The last of `count` blocks in a buffer. -/
def lastBlock (count : Nat) (data : List Byte) : Block :=
  loadBlock (data.drop (16 * (count - 1)))

theorem lastBlock_append
    {count : Nat} (positive : 0 < count) (block : Block)
    (rest : List Byte) :
    lastBlock (count + 1) (block.toList ++ rest) = lastBlock count rest := by
  have position : 16 * (count + 1 - 1) = 16 + 16 * (count - 1) := by omega
  rw [lastBlock, position, ← List.drop_drop, drop_block_append, lastBlock]

theorem cbcEncrypt_iv
    (ctx : Sm4Context) {count : Nat} {length : Int}
    (covers : Covers (count + 1) length) (iv : Block) (data : List Byte) :
    (cbcEncrypt ctx length iv data).2 =
      lastBlock (count + 1) (cbcEncrypt ctx length iv data).1 := by
  induction count generalizing length iv data with
  | zero =>
      rw [cbcEncrypt_step ctx _ _ covers]
      simp only [cbcEncrypt_done ctx _ _ covers.step, lastBlock]
      exact (loadBlock_append _ _).symm
  | succ count induction =>
      rw [cbcEncrypt_step ctx _ _ covers]
      simp only [lastBlock_append (Nat.succ_pos count)]
      exact induction covers.step _ _

theorem cbcDecrypt_iv
    (ctx : Sm4Context) {count : Nat} {length : Int}
    (covers : Covers (count + 1) length) (iv : Block) (data : List Byte) :
    (cbcDecrypt ctx length iv data).2 = lastBlock (count + 1) data := by
  induction count generalizing length iv data with
  | zero =>
      rw [cbcDecrypt_step ctx _ _ covers]
      simp only [cbcDecrypt_done ctx _ _ covers.step, lastBlock]
      rfl
  | succ count induction =>
      have position : 16 * (count + 1 + 1 - 1) = 16 + 16 * (count + 1 - 1) := by
        omega
      rw [cbcDecrypt_step ctx _ _ covers, lastBlock, position,
        ← List.drop_drop]
      exact induction covers.step _ _

/--
For every key, initialisation vector and data of `count` blocks, and for every
length that covers them, the two contexts of the key undo each other in both
block modes and in both orders, and both chaining calls leave the last
ciphertext block in the initialisation vector.
-/
theorem sm4_modes_round_trip
    (encCtx decCtx : Sm4Context) (key iv : Block)
    (ecbMode ecbMode' : Int) (count : Nat) (length : Int)
    (lower : 16 * ((count : Int) - 1) < length)
    (upper : length ≤ 16 * count)
    (data : List Byte) (blocks : data.length = 16 * count) :
    let enc := sm4SetKeyEnc encCtx key
    let dec := sm4SetKeyDec decCtx key
    let encrypted := sm4CryptCbc enc SM4_ENCRYPT length iv data
    let decrypted := sm4CryptCbc dec SM4_DECRYPT length iv data
    (sm4CryptCbc dec SM4_DECRYPT length iv encrypted.1).1 = data ∧
      (sm4CryptCbc enc SM4_ENCRYPT length iv decrypted.1).1 = data ∧
      sm4CryptEcb dec ecbMode length
          (sm4CryptEcb enc ecbMode' length data) = data ∧
      sm4CryptEcb enc ecbMode length
          (sm4CryptEcb dec ecbMode' length data) = data ∧
      (1 ≤ count →
        encrypted.2 = lastBlock count encrypted.1 ∧
          (sm4CryptCbc dec SM4_DECRYPT length iv encrypted.1).2 =
            lastBlock count encrypted.1 ∧
          decrypted.2 = lastBlock count data) := by
  intro enc dec encrypted decrypted
  have covers : Covers count length := ⟨lower, upper⟩
  have encDec : Inverse enc dec := inverse_enc_dec encCtx decCtx key
  have decEnc : Inverse dec enc := inverse_dec_enc encCtx decCtx key
  have encryptMode (ctx : Sm4Context) (input : List Byte) :
      sm4CryptCbc ctx SM4_ENCRYPT length iv input =
        cbcEncrypt ctx length iv input :=
    if_pos rfl
  have decryptMode (ctx : Sm4Context) (input : List Byte) :
      sm4CryptCbc ctx SM4_DECRYPT length iv input =
        cbcDecrypt ctx length iv input :=
    if_neg (by decide)
  simp only [encrypted, decrypted, encryptMode, decryptMode]
  refine ⟨?_, ?_, ?_, ?_, ?_⟩
  · exact cbcDecrypt_cbcEncrypt encDec covers iv blocks
  · exact cbcEncrypt_cbcDecrypt decEnc covers iv blocks
  · exact sm4CryptEcb_roundTrip encDec ecbMode' ecbMode covers blocks
  · exact sm4CryptEcb_roundTrip decEnc ecbMode' ecbMode covers blocks
  · intro positive
    obtain ⟨previous, rfl⟩ : ∃ previous, count = previous + 1 :=
      ⟨count - 1, by omega⟩
    exact
      ⟨cbcEncrypt_iv enc covers iv data,
        cbcDecrypt_iv dec covers iv _,
        cbcDecrypt_iv dec covers iv data⟩

theorem sm4_modes_round_trip_two_blocks :
    let ctx : Sm4Context := ⟨0, Vector.replicate 32 0⟩
    let key : Block := Vector.replicate 16 0x11
    let iv : Block := Vector.replicate 16 0x22
    let data : List Byte := List.replicate 32 0x33
    (sm4CryptCbc (sm4SetKeyDec ctx key) SM4_DECRYPT 20 iv
        (sm4CryptCbc (sm4SetKeyEnc ctx key) SM4_ENCRYPT 20 iv data).1).1 =
      data := by
  intro ctx key iv data
  exact
    (sm4_modes_round_trip ctx ctx key iv SM4_ENCRYPT SM4_DECRYPT 2 20
      (by decide) (by decide) data (by decide)).1

end CommonCode.Sm4
