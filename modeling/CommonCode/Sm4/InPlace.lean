import CommonCode.Lib.Memory
import CommonCode.Sm4.Streaming

/-!
# The block modes in one memory

The functions of `Sm4.Code` take the bytes behind `input` and return the bytes
written to `output`.  Here `input`, `output` and `iv` are addresses in one
memory of bytes, read and written in the order of the source, so that the
buffers may be the same.  The round keys and the local arrays `ulbuf` and
`temp` are objects of their own, which no pointer of the caller reaches.

The output may start at the input's address or in a region of its own: in both
cases a call stores the result of the list functions at `output` and at `iv`
and changes nothing else.
-/

namespace CommonCode.Sm4

open CommonCode.Lib
open CommonCode.Lib.Bits
open CommonCode.Lib.Memory
open CommonCode.Lib.Chaining

/-! ## The functions on addresses -/

/-- The sixteen bytes at an address. -/
def blockAt (memory : Memory Byte) (address : Nat) : Block :=
  Vector.ofFn fun i => memory (address + i)

/-- The memory after `PUT_ULONG_BE(n, b, i)`. -/
def putUlongAt (n : ULong) (memory : Memory Byte) (b i : Nat) :
    Memory Byte :=
  let memory := Function.update memory (b + i) ((n >>> 24).setWidth 8)
  let memory := Function.update memory (b + i + 1) ((n >>> 16).setWidth 8)
  let memory := Function.update memory (b + i + 2) ((n >>> 8).setWidth 8)
  Function.update memory (b + i + 3) (n.setWidth 8)

/--
The memory after `sm4_one_round(sk, input, output)`: the words of the input
are read into `ulbuf` before the first byte of the output is written.
-/
def sm4OneRoundAt (sk : CArray ULong 32) (input output : Nat)
    (memory : Memory Byte) : Memory Byte :=
  let ulbuf := roundLoop sk (blockAt memory input)
  let memory := putUlongAt (ulbuf.read 35) memory output 0
  let memory := putUlongAt (ulbuf.read 34) memory output 4
  let memory := putUlongAt (ulbuf.read 33) memory output 8
  putUlongAt (ulbuf.read 32) memory output 12

/-- The loop `output[i] = a[i] ^ b[i]` over sixteen bytes. -/
def xorAt (a b output : Nat) (memory : Memory Byte) : Memory Byte :=
  (List.range 16).foldl
    (fun memory i =>
      Function.update memory (output + i) (memory (a + i) ^^^ memory (b + i)))
    memory

/-- `memcpy(address, block, 16)`. -/
def memcpyBlock (memory : Memory Byte) (address : Nat) (block : Block) :
    Memory Byte :=
  store memory address block.toList

/-- The loop control of the block modes: the body and three steps of sixteen. -/
def blockLoop (body : Nat → Nat → Memory Byte → Memory Byte)
    (length : Int) (input output : Nat) (memory : Memory Byte) :
    Memory Byte :=
  if length > 0 then
    blockLoop body (length - 16) (input + 16) (output + 16)
      (body input output memory)
  else memory
termination_by length.toNat
decreasing_by omega

/-- The memory after `sm4_crypt_ecb(ctx, mode, length, input, output)`. -/
def sm4CryptEcbAt (ctx : Sm4Context) (_mode length : Int)
    (input output : Nat) (memory : Memory Byte) : Memory Byte :=
  blockLoop (sm4OneRoundAt ctx.sk) length input output memory

/-- The body of the encrypting loop of `sm4_crypt_cbc`. -/
def cbcEncryptBody (ctx : Sm4Context) (iv input output : Nat)
    (memory : Memory Byte) : Memory Byte :=
  let memory := xorAt input iv output memory
  let memory := sm4OneRoundAt ctx.sk output output memory
  memcpyBlock memory iv (blockAt memory output)

/-- The body of the decrypting loop of `sm4_crypt_cbc`. -/
def cbcDecryptBody (ctx : Sm4Context) (iv input output : Nat)
    (memory : Memory Byte) : Memory Byte :=
  let temp := blockAt memory input
  let memory := sm4OneRoundAt ctx.sk input output memory
  let memory := xorAt output iv output memory
  memcpyBlock memory iv temp

/-- The memory after `sm4_crypt_cbc(ctx, mode, length, iv, input, output)`. -/
def sm4CryptCbcAt (ctx : Sm4Context) (mode length : Int)
    (iv input output : Nat) (memory : Memory Byte) : Memory Byte :=
  if mode = SM4_ENCRYPT then
    blockLoop (cbcEncryptBody ctx iv) length input output memory
  else blockLoop (cbcDecryptBody ctx iv) length input output memory

/-! ## Blocks in memory -/

theorem toList_blockAt (memory : Memory Byte) (address : Nat) :
    (blockAt memory address).toList = load memory address 16 := by
  apply List.ext_getElem (by simp)
  intro i inside _
  simp [blockAt, load]

theorem read_blockAt (memory : Memory Byte) (address : Nat) {i : Nat}
    (inside : i < 16) :
    (blockAt memory address).read i = memory (address + i) := by
  simp [blockAt, CArray.read, inside, Vector.get_eq_getElem]

theorem toList_injective {left right : Block}
    (same : left.toList = right.toList) : left = right :=
  Vector.toList_inj.mp same

@[simp]
theorem length_toList_block (block : Block) : block.toList.length = 16 :=
  Vector.length_toList

theorem blockAt_store_self (memory : Memory Byte) (address : Nat)
    (block : Block) :
    blockAt (store memory address block.toList) address = block := by
  apply toList_injective
  rw [toList_blockAt, load_store_self _ _ (length_toList_block block)]

theorem blockAt_store_of_disjoint (memory : Memory Byte)
    {address other : Nat} (block : Block)
    (apart : Disjoint (region address 16) (region other 16)) :
    blockAt (store memory other block.toList) address =
      blockAt memory address := by
  apply toList_injective
  rw [toList_blockAt, toList_blockAt, load_store_of_disjoint memory]
  rwa [length_toList_block]

/-! ## One block -/

/-- The four bytes that `PUT_ULONG_BE` writes. -/
def ulongBytes (n : ULong) : List Byte :=
  [(n >>> 24).setWidth 8, (n >>> 16).setWidth 8, (n >>> 8).setWidth 8,
    n.setWidth 8]

@[simp]
theorem length_ulongBytes (n : ULong) : (ulongBytes n).length = 4 := rfl

theorem putUlongAt_eq_store (n : ULong) (memory : Memory Byte) (b i : Nat) :
    putUlongAt n memory b i = store memory (b + i) (ulongBytes n) := by
  rw [ulongBytes, store_cons, store_cons, store_cons, store_cons, store_nil]
  rfl

theorem toList_putUlongBE (n : ULong) (b : Block) (i : Nat) :
    (putUlongBE n b i).toList =
      (((b.toList.set i ((n >>> 24).setWidth 8)).set (i + 1)
        ((n >>> 16).setWidth 8)).set (i + 2) ((n >>> 8).setWidth 8)).set
          (i + 3) (n.setWidth 8) := by
  simp only [putUlongBE, CArray.write, Vector.toList_setIfInBounds]

/-- The output block is stored whatever the two addresses are. -/
theorem sm4OneRoundAt_eq_store
    (sk : CArray ULong 32) (input output : Nat) (memory : Memory Byte) :
    sm4OneRoundAt sk input output memory =
      store memory output
        (sm4OneRound sk (blockAt memory input)).toList := by
  have written (a b c d : ULong) :
      (putUlongBE d
          (putUlongBE c
            (putUlongBE b (putUlongBE a (Vector.replicate 16 0) 0) 4) 8)
          12).toList =
        ulongBytes a ++ (ulongBytes b ++ (ulongBytes c ++ ulongBytes d)) := by
    simp only [toList_putUlongBE, Vector.toList_replicate, List.replicate]
    rfl
  simp only [sm4OneRoundAt, sm4OneRound, putUlongAt_eq_store, written,
    store_append, length_ulongBytes, Nat.add_zero, Nat.add_assoc,
    Nat.reduceAdd]

/-- The exclusive or of two blocks may be written over the first of them. -/
theorem xorAt_eq_store {a b output : Nat} (memory : Memory Byte)
    (first : a = output ∨ Disjoint (region a 16) (region output 16))
    (second : Disjoint (region b 16) (region output 16)) :
    xorAt a b output memory =
      store memory output
        (xorBlock (blockAt memory a) (blockAt memory b)).toList := by
  have bytes :
      (xorBlock (blockAt memory a) (blockAt memory b)).toList =
        (List.range 16).map fun i => memory (a + i) ^^^ memory (b + i) := by
    apply List.ext_getElem (by simp)
    intro i inside _
    simp [xorBlock, read_blockAt]
  rw [bytes]
  apply foldl_update_eq_store
    (fun memory i => memory (a + i) ^^^ memory (b + i))
  intro i below now agree
  rw [disjoint_region] at first second
  rw [agree (a + i) (by rw [mem_region]; omega),
    agree (b + i) (by rw [mem_region]; omega)]

/-! ## Placing the buffers -/

/--
The buffers of a call on `count` blocks: the output starts where the input
starts or in a region of its own, and neither of them meets the
initialisation vector.
-/
structure Placed (count iv input output : Nat) : Prop where
  overlay :
    input = output ∨
      Disjoint (region input (16 * count)) (region output (16 * count))
  ivInput : Disjoint (region iv 16) (region input (16 * count))
  ivOutput : Disjoint (region iv 16) (region output (16 * count))

variable {count iv input output : Nat}

/-- The first block of the buffers. -/
theorem Placed.first (placed : Placed (count + 1) iv input output) :
    Placed 1 iv input output := by
  rcases placed with ⟨overlay, ivInput, ivOutput⟩
  rw [disjoint_region] at overlay ivInput ivOutput
  constructor <;> rw [disjoint_region] <;> omega

/-- The blocks behind the first one. -/
theorem Placed.rest (placed : Placed (count + 1) iv input output) :
    Placed count iv (input + 16) (output + 16) := by
  rcases placed with ⟨overlay, ivInput, ivOutput⟩
  rw [disjoint_region] at overlay ivInput ivOutput
  constructor <;> rw [disjoint_region] <;> omega

/-- The output of the first block does not reach the input of the others. -/
theorem Placed.input_rest (placed : Placed (count + 1) iv input output) :
    Disjoint (region (input + 16) (16 * count)) (region output 16) := by
  have overlay := placed.overlay
  rw [disjoint_region] at overlay ⊢
  omega

/-! ## The bodies of the loops -/

/-- A body stores what one step of a chain computes. -/
def Performs (body : Nat → Nat → Memory Byte → Memory Byte)
    (step : Block → Block → Block × Block) (iv : Nat) : Prop :=
  ∀ (input output : Nat) (memory : Memory Byte),
    Placed 1 iv input output →
      body input output memory =
        store
          (store memory output
            (step (blockAt memory iv) (blockAt memory input)).1.toList)
          iv (step (blockAt memory iv) (blockAt memory input)).2.toList

theorem performs_sm4OneRoundAt (ctx : Sm4Context) (iv : Nat) :
    Performs (sm4OneRoundAt ctx.sk) (ecbStep ctx) iv := by
  intro input output memory placed
  have untouched :
      blockAt memory iv =
        blockAt
          (store memory output
            (sm4OneRound ctx.sk (blockAt memory input)).toList) iv :=
    (blockAt_store_of_disjoint memory _ placed.ivOutput).symm
  simp only [ecbStep]
  rw [sm4OneRoundAt_eq_store, untouched, toList_blockAt, store_load]

theorem performs_cbcEncryptBody (ctx : Sm4Context) (iv : Nat) :
    Performs (cbcEncryptBody ctx iv) (encryptStep ctx) iv := by
  intro input output memory placed
  simp only [cbcEncryptBody, encryptStep, memcpyBlock]
  rw [xorAt_eq_store memory placed.overlay placed.ivOutput,
    sm4OneRoundAt_eq_store, blockAt_store_self, store_store,
    blockAt_store_self]
  rw [length_toList_block, length_toList_block]

theorem performs_cbcDecryptBody (ctx : Sm4Context) (iv : Nat) :
    Performs (cbcDecryptBody ctx iv) (decryptStep ctx) iv := by
  intro input output memory placed
  simp only [cbcDecryptBody, decryptStep, memcpyBlock]
  rw [sm4OneRoundAt_eq_store,
    xorAt_eq_store _ (Or.inl rfl) placed.ivOutput, blockAt_store_self,
    blockAt_store_of_disjoint memory _ placed.ivOutput, store_store]
  rw [length_toList_block, length_toList_block]

/-! ## The loops -/

theorem loadBlock_load (memory : Memory Byte) (address : Nat) {size : Nat}
    (enough : 16 ≤ size) :
    loadBlock (load memory address size) = blockAt memory address := by
  apply CArray.ext_read
  intro i inside
  have bound : i < (load memory address size).length := by
    rw [length_load]
    omega
  rw [read_loadBlock _ inside, read_blockAt _ _ inside,
    List.getD_eq_getElem _ _ bound, getElem_load]

@[simp]
theorem length_bytesOf (blocks : List Block) :
    (bytesOf blocks).length = 16 * blocks.length := by
  induction blocks with
  | nil => rfl
  | cons block rest induction =>
      rw [bytesOf_cons, List.length_append, length_toList_block, induction,
        List.length_cons]
      omega

@[simp]
theorem length_runBlocks (step : Block → Block → Block × Block)
    (count : Nat) (iv : Block) (input : List Byte) :
    (runBlocks step count iv input).1.length = 16 * count := by
  rw [runBlocks, length_bytesOf, length_chain, length_blocksOf]

/-- Store what a mode writes and the initialisation vector it leaves. -/
def storeResult (memory : Memory Byte) (iv output : Nat)
    (result : List Byte × Block) : Memory Byte :=
  store (store memory output result.1) iv result.2.toList

/-- A loop whose body performs a step stores what the chain computes. -/
theorem Performs.blockLoop_eq
    {body : Nat → Nat → Memory Byte → Memory Byte}
    {step : Block → Block → Block × Block}
    (performs : Performs body step iv) (length : Int)
    (memory : Memory Byte)
    (placed : Placed (blockCount length) iv input output) :
    blockLoop body length input output memory =
      storeResult memory iv output
        (runBlocks step (blockCount length) (blockAt memory iv)
          (load memory input (16 * blockCount length))) := by
  revert input output memory
  apply blockCount_induction fun length count =>
    ∀ {input output} memory, Placed count iv input output →
      blockLoop body length input output memory =
        storeResult memory iv output
          (runBlocks step count (blockAt memory iv)
            (load memory input (16 * count)))
  · intro length stopped input output memory placed
    rw [blockLoop, if_neg stopped, storeResult]
    change _ = store (store memory output []) iv (blockAt memory iv).toList
    rw [store_nil, toList_blockAt, store_load]
  · intro length later positive induction input output memory placed
    have size : 16 * (later + 1) - 16 = 16 * later := by omega
    rw [blockLoop, if_pos positive, performs _ _ _ placed.first,
      induction _ placed.rest, runBlocks_succ, loadBlock_load _ _ (by omega),
      drop_load, size]
    generalize step (blockAt memory iv) (blockAt memory input) = first
    have seen :
        load (store (store memory output first.1.toList) iv first.2.toList)
            (input + 16) (16 * later) =
          load memory (input + 16) (16 * later) := by
      rw [load_store_of_disjoint, load_store_of_disjoint]
      · rw [length_toList_block]
        exact placed.input_rest
      · rw [length_toList_block]
        exact placed.rest.ivInput.symm
    rw [seen, blockAt_store_self]
    simp only [storeResult, store_append, length_toList_block]
    generalize result :
      runBlocks step later first.2 (load memory (input + 16) (16 * later)) =
        rest
    have behind :
        Disjoint (region iv first.2.toList.length)
          (region (output + 16) rest.1.length) := by
      rw [length_toList_block, ← result, length_runBlocks]
      exact placed.rest.ivOutput
    have sameSize : first.2.toList.length = rest.2.toList.length := by
      rw [length_toList_block, length_toList_block]
    rw [store_comm _ behind, store_store _ _ sameSize]

/-! ## The functions on addresses store the results of the list functions -/

theorem sm4CryptCbcAt_eq_store
    (ctx : Sm4Context) (mode length : Int) (memory : Memory Byte)
    (placed : Placed (blockCount length) iv input output) :
    sm4CryptCbcAt ctx mode length iv input output memory =
      storeResult memory iv output
        (sm4CryptCbc ctx mode length (blockAt memory iv)
          (load memory input (16 * blockCount length))) := by
  rw [sm4CryptCbc_eq_runBlocks, sm4CryptCbcAt, cbcStep]
  split
  · exact (performs_cbcEncryptBody ctx iv).blockLoop_eq length memory placed
  · exact (performs_cbcDecryptBody ctx iv).blockLoop_eq length memory placed

theorem runBlocks_ecbStep_iv
    (ctx : Sm4Context) (count : Nat) (iv : Block) (input : List Byte) :
    (runBlocks (ecbStep ctx) count iv input).2 = iv := by
  induction count generalizing input with
  | zero => rfl
  | succ count induction =>
      rw [runBlocks_succ]
      exact induction (input.drop 16)

/-- The codebook mode stores its output and nothing else. -/
theorem sm4CryptEcbAt_eq_store
    (ctx : Sm4Context) (mode length : Int) (memory : Memory Byte)
    (overlay :
      input = output ∨
        Disjoint (region input (16 * blockCount length))
          (region output (16 * blockCount length))) :
    sm4CryptEcbAt ctx mode length input output memory =
      store memory output
        (sm4CryptEcb ctx mode length
          (load memory input (16 * blockCount length))) := by
  -- An address behind both buffers stands in for the missing vector.
  let spare := input + output + 16 * blockCount length
  have placed : Placed (blockCount length) spare input output := by
    refine ⟨overlay, ?_, ?_⟩ <;> rw [disjoint_region] <;> omega
  rw [sm4CryptEcb_eq_runBlocks ctx mode length (blockAt memory spare),
    sm4CryptEcbAt,
    (performs_sm4OneRoundAt ctx spare).blockLoop_eq length memory placed,
    storeResult, runBlocks_ecbStep_iv]
  have apart :
      Disjoint (region spare 16)
        (region output
          (runBlocks (ecbStep ctx) (blockCount length)
            (blockAt memory spare)
            (load memory input (16 * blockCount length))).1.length) := by
    rw [length_runBlocks]
    exact placed.ivOutput
  rw [toList_blockAt, ← load_store_of_disjoint memory apart, store_load]

/-! ## Working in place -/

theorem length_sm4CryptEcb (ctx : Sm4Context) (mode length : Int)
    (input : List Byte) :
    (sm4CryptEcb ctx mode length input).length = 16 * blockCount length := by
  rw [sm4CryptEcb_eq_runBlocks ctx mode length (Vector.replicate 16 0),
    length_runBlocks]

theorem length_sm4CryptCbc (ctx : Sm4Context) (mode length : Int)
    (iv : Block) (input : List Byte) :
    (sm4CryptCbc ctx mode length iv input).1.length =
      16 * blockCount length := by
  rw [sm4CryptCbc_eq_runBlocks, length_runBlocks]

/-- What a stored result leaves at the output, at the vector and elsewhere. -/
theorem storeResult_spec (memory : Memory Byte)
    {size : Nat} {result : List Byte × Block}
    (same : result.1.length = size)
    (apart : Disjoint (region iv 16) (region output size)) :
    load (storeResult memory iv output result) output size = result.1 ∧
      load (storeResult memory iv output result) iv 16 =
        result.2.toList ∧
      ∀ p, p ∉ region output size → p ∉ region iv 16 →
        storeResult memory iv output result p = memory p := by
  have block := length_toList_block result.2
  refine ⟨?_, load_store_self _ iv block, ?_⟩
  · rw [storeResult, load_store_of_disjoint _ (by rw [block]; exact apart.symm),
      load_store_self memory output same]
  · intro p outsideOutput outsideIv
    rw [storeResult, store_of_notMem _ (by rwa [block]),
      store_of_notMem _ (by rwa [same])]

/--
For every context, mode and number of blocks: the block modes called with the
output at the address of the input leave there the bytes that the same call
with separate buffers writes, leave in the initialisation vector the value
that it leaves, and change nothing else.
-/
theorem sm4_modes_in_place
    (ctx : Sm4Context) (mode : Int) (count : Nat)
    (memory : Memory Byte) (buffer iv : Nat)
    (ivBuffer : Disjoint (region iv 16) (region buffer (16 * count)))
    (other : Memory Byte) (input output otherIv : Nat)
    (separate :
      Disjoint (region input (16 * count)) (region output (16 * count)))
    (ivInput : Disjoint (region otherIv 16) (region input (16 * count)))
    (ivOutput : Disjoint (region otherIv 16) (region output (16 * count)))
    (sameData :
      load other input (16 * count) = load memory buffer (16 * count))
    (sameIv : load other otherIv 16 = load memory iv 16) :
    let length : Int := (16 * count : Nat)
    let ecb := sm4CryptEcbAt ctx mode length buffer buffer memory
    let otherEcb := sm4CryptEcbAt ctx mode length input output other
    let cbc := sm4CryptCbcAt ctx mode length iv buffer buffer memory
    let otherCbc := sm4CryptCbcAt ctx mode length otherIv input output other
    (load ecb buffer (16 * count) = load otherEcb output (16 * count) ∧
        ∀ p, p ∉ region buffer (16 * count) → ecb p = memory p) ∧
      load cbc buffer (16 * count) = load otherCbc output (16 * count) ∧
        load cbc iv 16 = load otherCbc otherIv 16 ∧
        ∀ p, p ∉ region buffer (16 * count) → p ∉ region iv 16 →
          cbc p = memory p := by
  intro length ecb otherEcb cbc otherCbc
  have blocks : blockCount length = count := blockCount_blocks count
  have vector : blockAt other otherIv = blockAt memory iv := by
    apply toList_injective
    rw [toList_blockAt, toList_blockAt, sameIv]
  constructor
  · have stored :
        ecb =
          store memory buffer
            (sm4CryptEcb ctx mode length
              (load memory buffer (16 * count))) := by
      rw [← blocks]
      exact sm4CryptEcbAt_eq_store ctx mode length memory (Or.inl rfl)
    have otherStored :
        otherEcb =
          store other output
            (sm4CryptEcb ctx mode length
              (load memory buffer (16 * count))) := by
      rw [← sameData, ← blocks]
      exact sm4CryptEcbAt_eq_store ctx mode length other
        (Or.inr (by rwa [blocks]))
    have size :
        (sm4CryptEcb ctx mode length
          (load memory buffer (16 * count))).length = 16 * count := by
      rw [length_sm4CryptEcb, blocks]
    rw [stored, otherStored, load_store_self _ _ size,
      load_store_self _ _ size]
    refine ⟨rfl, ?_⟩
    intro p outside
    exact store_of_notMem memory (by rwa [size])
  · have stored :
        cbc =
          storeResult memory iv buffer
            (sm4CryptCbc ctx mode length (blockAt memory iv)
              (load memory buffer (16 * count))) := by
      rw [← blocks]
      apply sm4CryptCbcAt_eq_store
      rw [blocks]
      exact ⟨Or.inl rfl, ivBuffer, ivBuffer⟩
    have otherStored :
        otherCbc =
          storeResult other otherIv output
            (sm4CryptCbc ctx mode length (blockAt memory iv)
              (load memory buffer (16 * count))) := by
      rw [← vector, ← sameData, ← blocks]
      apply sm4CryptCbcAt_eq_store
      rw [blocks]
      exact ⟨Or.inr separate, ivInput, ivOutput⟩
    have size :
        (sm4CryptCbc ctx mode length (blockAt memory iv)
          (load memory buffer (16 * count))).1.length = 16 * count := by
      rw [length_sm4CryptCbc, blocks]
    rcases storeResult_spec memory size ivBuffer with ⟨bytes, left, kept⟩
    rcases storeResult_spec other size ivOutput with
      ⟨otherBytes, otherLeft, -⟩
    rw [stored, otherStored]
    exact ⟨bytes.trans otherBytes.symm, left.trans otherLeft.symm, kept⟩

theorem sm4_modes_in_place_two_blocks :
    let ctx : Sm4Context := ⟨0, Vector.replicate 32 0x01020304⟩
    let memory : Memory Byte := fun p => BitVec.ofNat 8 p
    load (sm4CryptCbcAt ctx SM4_DECRYPT 32 0 100 100 memory) 100 32 =
      load (sm4CryptCbcAt ctx SM4_DECRYPT 32 0 100 200 memory) 200 32 := by
  intro ctx memory
  exact
    (sm4_modes_in_place ctx SM4_DECRYPT 2 memory 100 0
      (disjoint_region.mpr (by decide)) memory 100 200 0
      (disjoint_region.mpr (by decide)) (disjoint_region.mpr (by decide))
      (disjoint_region.mpr (by decide)) rfl rfl).2.1

end CommonCode.Sm4
