import CommonCode.Sm4.Streaming

/-!
# How far a changed block reaches

A block of the ciphertext that arrives changed spoils its own block of the
plaintext, adds the same change to the next one and does nothing else, since
decryption hands on the ciphertext that it has read.  A changed block of the
plaintext changes every block of the ciphertext from there on, since encryption
hands on what it has written and one block under a key is a bijection.
-/

namespace CommonCode.Sm4

open CommonCode.Lib
open CommonCode.Lib.Bits
open CommonCode.Lib.Chaining

/-! ## Blocks -/

/-- One block under a context that another one undoes is a bijection. -/
theorem Inverse.injective {left right : Sm4Context}
    (inverse : Inverse left right) :
    Function.Injective (sm4OneRound left.sk) := by
  intro block other same
  rw [← inverse block, same, inverse other]

theorem xorBlock_left_injective (iv : Block) :
    Function.Injective fun block => xorBlock block iv := by
  intro block other same
  rw [← xorBlock_xorBlock block iv, show xorBlock block iv = _ from same,
    xorBlock_xorBlock]

theorem xorBlock_right_injective (block : Block) :
    Function.Injective (xorBlock block) := by
  intro iv other same
  apply CArray.ext_read
  intro i inside
  have byte := congrArg (CArray.read · i) same
  rw [read_xorBlock _ _ inside, read_xorBlock _ _ inside] at byte
  exact (BitVec.xor_right_inj _).mp byte

/-- A change of the second argument is the same change of the result. -/
theorem xorBlock_change (block iv other : Block) :
    xorBlock block other =
      xorBlock (xorBlock block iv) (xorBlock iv other) := by
  apply CArray.ext_read
  intro i inside
  simp only [read_xorBlock _ _ inside]
  rw [BitVec.xor_assoc, ← BitVec.xor_assoc (iv.read i), BitVec.xor_self,
    BitVec.zero_xor]

/-! ## Calls on whole blocks -/

theorem blocksOf_bytesOf (blocks : List Block) (behind : List Byte) :
    blocksOf blocks.length (bytesOf blocks ++ behind) = blocks := by
  induction blocks with
  | nil => rfl
  | cons block rest induction =>
      rw [List.length_cons, blocksOf, bytesOf_cons, List.append_assoc,
        loadBlock_append, drop_block_append, induction]

theorem sm4CryptCbc_bytesOf (ctx : Sm4Context) (mode : Int) (iv : Block)
    (behind : List Byte) {length : Int} {blocks : List Block}
    (whole : length = ((16 * blocks.length : Nat) : Int)) :
    sm4CryptCbc ctx mode length iv (bytesOf blocks ++ behind) =
      (bytesOf (chain (cbcStep ctx mode) iv blocks).1,
        (chain (cbcStep ctx mode) iv blocks).2) := by
  rw [whole, sm4CryptCbc_eq_runBlocks, blockCount_blocks, runBlocks,
    blocksOf_bytesOf]

/-! ## Decryption -/

theorem forgets_decryptStep (ctx : Sm4Context) :
    Forgets (decryptStep ctx) id :=
  fun _ _ => rfl

/--
For every key, initialisation vector and ciphertext of which one block arrives
changed: the plaintext differs in that block, exactly if the ciphertext does,
and in the same bits of the next block as the ciphertext, and all blocks before
and after and the initialisation vector left behind are the same.
-/
theorem cbcDecrypt_changed (decCtx : Sm4Context) (key iv : Block) {mode : Int}
    (decrypts : mode ≠ SM4_ENCRYPT) (front back : List Block)
    (block other next : Block) (behind : List Byte) :
    let ctx := sm4SetKeyDec decCtx key
    let length : Int :=
      ((16 * (front ++ block :: next :: back).length : Nat) : Int)
    let sent := sm4CryptCbc ctx mode length iv
      (bytesOf (front ++ block :: next :: back) ++ behind)
    let changed := sm4CryptCbc ctx mode length iv
      (bytesOf (front ++ other :: next :: back) ++ behind)
    ∃ before first wrong second after,
      sent.1 = bytesOf (before ++ first :: second :: after) ∧
        changed.1 =
          bytesOf (before ++ wrong ::
            xorBlock second (xorBlock block other) :: after) ∧
        before.length = front.length ∧ (first = wrong ↔ block = other) ∧
        sent.2 = changed.2 := by
  intro ctx length sent changed
  have step : cbcStep ctx mode = decryptStep ctx := if_neg decrypts
  have sameLength :
      length =
        ((16 * (front ++ other :: next :: back).length : Nat) : Int) := by
    simp only [length, List.length_append, List.length_cons]
  let state := (chain (decryptStep ctx) iv front).2
  let later := chain (decryptStep ctx) next back
  have run (block : Block) :
      chain (decryptStep ctx) iv (front ++ block :: next :: back) =
        ((chain (decryptStep ctx) iv front).1 ++
          xorBlock (sm4OneRound ctx.sk block) state ::
            xorBlock (sm4OneRound ctx.sk next) block :: later.1,
          later.2) := by
    rw [chain_append, (forgets_decryptStep ctx).rest,
      (forgets_decryptStep ctx).rest]
    rfl
  have sends : sent = _ := sm4CryptCbc_bytesOf ctx mode iv behind rfl
  have changes : changed = _ :=
    sm4CryptCbc_bytesOf ctx mode iv behind sameLength
  rw [step, run] at sends changes
  rw [sends, changes]
  refine ⟨(chain (decryptStep ctx) iv front).1,
    xorBlock (sm4OneRound ctx.sk block) state,
    xorBlock (sm4OneRound ctx.sk other) state,
    xorBlock (sm4OneRound ctx.sk next) block, later.1, rfl, ?_,
    length_chain iv front, ?_, rfl⟩
  · rw [← xorBlock_change]
  · exact (xorBlock_left_injective state).eq_iff.trans
      (inverse_dec_enc decCtx decCtx key).injective.eq_iff

theorem cbcDecrypt_changed_two_blocks :
    let ctx :=
      sm4SetKeyDec ⟨0, Vector.replicate 32 0⟩ (Vector.replicate 16 0x11)
    let iv : Block := Vector.replicate 16 0x22
    let block : Block := Vector.replicate 16 0x33
    let other : Block := Vector.replicate 16 0x44
    let next : Block := Vector.replicate 16 0x55
    let length : Int := ((16 * ([] ++ block :: next :: []).length : Nat) : Int)
    let sent := sm4CryptCbc ctx SM4_DECRYPT length iv
      (bytesOf ([] ++ block :: next :: []) ++ [])
    let changed := sm4CryptCbc ctx SM4_DECRYPT length iv
      (bytesOf ([] ++ other :: next :: []) ++ [])
    ∃ before first wrong second after,
      sent.1 = bytesOf (before ++ first :: second :: after) ∧
        changed.1 =
          bytesOf (before ++ wrong ::
            xorBlock second (xorBlock block other) :: after) ∧
        before.length = ([] : List Block).length ∧
        (first = wrong ↔ block = other) ∧ sent.2 = changed.2 := by
  intro ctx iv block other next
  exact cbcDecrypt_changed ⟨0, Vector.replicate 32 0⟩ _ iv (by decide) [] []
    block other next []

/-! ## Encryption -/

/-- A change of the initialisation vector is never lost under a key. -/
theorem separates_encryptStep {ctx : Sm4Context}
    (injective : Function.Injective (sm4OneRound ctx.sk)) :
    Separates (encryptStep ctx) := by
  intro iv other apart block
  have outputs :
      sm4OneRound ctx.sk (xorBlock block iv) ≠
        sm4OneRound ctx.sk (xorBlock block other) :=
    (injective.comp (xorBlock_right_injective block)).ne apart
  exact ⟨outputs, outputs⟩

/--
For every key, initialisation vector and plaintext of which one block is
changed: the blocks of the ciphertext before it are the same, and every block
from there on differs, as does the initialisation vector left behind.
-/
theorem cbcEncrypt_changed (encCtx : Sm4Context) (key iv : Block)
    (front back : List Block) {block other : Block} (apart : block ≠ other)
    (behind : List Byte) :
    let ctx := sm4SetKeyEnc encCtx key
    let length : Int := ((16 * (front ++ block :: back).length : Nat) : Int)
    let sent := sm4CryptCbc ctx SM4_ENCRYPT length iv
      (bytesOf (front ++ block :: back) ++ behind)
    let changed := sm4CryptCbc ctx SM4_ENCRYPT length iv
      (bytesOf (front ++ other :: back) ++ behind)
    ∃ before after wrong,
      sent.1 = bytesOf (before ++ after) ∧
        changed.1 = bytesOf (before ++ wrong) ∧
        before.length = front.length ∧
        after.length = back.length + 1 ∧
        List.Forall₂ (· ≠ ·) after wrong ∧ sent.2 ≠ changed.2 := by
  intro ctx length sent changed
  have step : cbcStep ctx SM4_ENCRYPT = encryptStep ctx := if_pos rfl
  have sameLength :
      length = ((16 * (front ++ other :: back).length : Nat) : Int) := by
    simp only [length, List.length_append, List.length_cons]
  have injective := (inverse_enc_dec encCtx encCtx key).injective
  let state := (chain (encryptStep ctx) iv front).2
  let output (block : Block) := sm4OneRound ctx.sk (xorBlock block state)
  let later (block : Block) := chain (encryptStep ctx) (output block) back
  have run (block : Block) :
      chain (encryptStep ctx) iv (front ++ block :: back) =
        ((chain (encryptStep ctx) iv front).1 ++
          output block :: (later block).1, (later block).2) := by
    rw [chain_append, chain_cons]
    rfl
  have outputs : output block ≠ output other := fun same =>
    apart (xorBlock_left_injective state (injective same))
  rcases (separates_encryptStep injective).outputs outputs back with
    ⟨others, ends⟩
  have sends : sent = _ := sm4CryptCbc_bytesOf ctx SM4_ENCRYPT iv behind rfl
  have changes : changed = _ :=
    sm4CryptCbc_bytesOf ctx SM4_ENCRYPT iv behind sameLength
  rw [step, run] at sends changes
  rw [sends, changes]
  refine ⟨(chain (encryptStep ctx) iv front).1,
    output block :: (later block).1, output other :: (later other).1, rfl, rfl,
    length_chain iv front, ?_, .cons outputs others, ends⟩
  rw [List.length_cons, length_chain]

theorem cbcEncrypt_changed_two_blocks :
    let ctx :=
      sm4SetKeyEnc ⟨0, Vector.replicate 32 0⟩ (Vector.replicate 16 0x11)
    let iv : Block := Vector.replicate 16 0x22
    let block : Block := Vector.replicate 16 0x33
    let other : Block := Vector.replicate 16 0x44
    let next : Block := Vector.replicate 16 0x55
    let length : Int := ((16 * ([] ++ block :: [next]).length : Nat) : Int)
    let sent := sm4CryptCbc ctx SM4_ENCRYPT length iv
      (bytesOf ([] ++ block :: [next]) ++ [])
    let changed := sm4CryptCbc ctx SM4_ENCRYPT length iv
      (bytesOf ([] ++ other :: [next]) ++ [])
    ∃ before after wrong,
      sent.1 = bytesOf (before ++ after) ∧
        changed.1 = bytesOf (before ++ wrong) ∧
        before.length = ([] : List Block).length ∧
        after.length = [next].length + 1 ∧
        List.Forall₂ (· ≠ ·) after wrong ∧ sent.2 ≠ changed.2 := by
  intro ctx iv block other next
  have apart : block ≠ other := by decide
  exact cbcEncrypt_changed ⟨0, Vector.replicate 32 0⟩ _ iv [] [next] apart []

end CommonCode.Sm4
