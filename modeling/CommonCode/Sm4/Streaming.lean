import CommonCode.Lib.Chaining
import CommonCode.Sm4.Modes

/-!
# The block modes as chains of blocks

Each block mode handles one block after another and hands the initialisation
vector on: encryption hands on the block it wrote, decryption the block it
read, and the codebook mode leaves it alone.  A call on two inputs one after
the other is therefore two calls, the second with the initialisation vector
that the first one left.
-/

namespace CommonCode.Sm4

open CommonCode.Lib
open CommonCode.Lib.Bits
open CommonCode.Lib.Chaining

/-! ## One block of each mode -/

def ecbStep (ctx : Sm4Context) (iv block : Block) : Block × Block :=
  (sm4OneRound ctx.sk block, iv)

/-- Encryption adds the initialisation vector before the rounds. -/
def encryptStep (ctx : Sm4Context) (iv block : Block) : Block × Block :=
  let output := sm4OneRound ctx.sk (xorBlock block iv)
  (output, output)

/-- Decryption adds the initialisation vector after the rounds. -/
def decryptStep (ctx : Sm4Context) (iv block : Block) : Block × Block :=
  (xorBlock (sm4OneRound ctx.sk block) iv, block)

def cbcStep (ctx : Sm4Context) (mode : Int) : Block → Block → Block × Block :=
  if mode = SM4_ENCRYPT then encryptStep ctx else decryptStep ctx

/-! ## Buffers as lists of blocks -/

/-- How often the loops of the modes run for a length. -/
def blockCount (length : Int) : Nat :=
  ((length + 15) / 16).toNat

theorem blockCount_of_not_pos {length : Int} (done : ¬ length > 0) :
    blockCount length = 0 := by
  unfold blockCount
  omega

theorem blockCount_of_pos {length : Int} (more : length > 0) :
    blockCount length = blockCount (length - 16) + 1 := by
  unfold blockCount
  omega

/-- Whole blocks before the rest of a length count one by one. -/
theorem blockCount_add (count rest : Nat) :
    blockCount ((16 * count + rest : Nat) : Int) =
      count + blockCount rest := by
  unfold blockCount
  omega

theorem blockCount_blocks (count : Nat) :
    blockCount ((16 * count : Nat) : Int) = count := by
  unfold blockCount
  omega

/--
A fact about every length and its number of blocks is proved like the loops
run: it holds where they stop, and it is carried over one block.
-/
theorem blockCount_induction (Holds : Int → Nat → Prop)
    (done : ∀ {length : Int}, ¬ length > 0 → Holds length 0)
    (more :
      ∀ {length : Int} {later : Nat}, length > 0 →
        Holds (length - 16) later → Holds length (later + 1))
    (length : Int) :
    Holds length (blockCount length) := by
  induction count : blockCount length generalizing length with
  | zero =>
      apply done
      intro positive
      rw [blockCount_of_pos positive] at count
      contradiction
  | succ later induction =>
      have positive : length > 0 := by
        by_contra stopped
        rw [blockCount_of_not_pos stopped] at count
        contradiction
      apply more positive
      apply induction
      rw [blockCount_of_pos positive] at count
      exact Nat.succ.inj count

/-- The first blocks of a buffer. -/
def blocksOf : Nat → List Byte → List Block
  | 0, _ => []
  | count + 1, input => loadBlock input :: blocksOf count (input.drop 16)

/-- The bytes of blocks stored one after the other. -/
def bytesOf (blocks : List Block) : List Byte :=
  blocks.flatMap fun block => block.toList

@[simp]
theorem bytesOf_nil : bytesOf [] = [] := rfl

theorem bytesOf_cons (block : Block) (rest : List Block) :
    bytesOf (block :: rest) = block.toList ++ bytesOf rest := rfl

theorem bytesOf_append (front back : List Block) :
    bytesOf (front ++ back) = bytesOf front ++ bytesOf back :=
  List.flatMap_append

@[simp]
theorem length_blocksOf (count : Nat) (input : List Byte) :
    (blocksOf count input).length = count := by
  induction count generalizing input with
  | zero => rfl
  | succ count induction =>
      rw [blocksOf, List.length_cons, induction]

/-- Blocks that lie in the front of a buffer do not depend on what follows. -/
theorem loadBlock_append_left {front : List Byte} (rest : List Byte)
    (enough : 16 ≤ front.length) :
    loadBlock (front ++ rest) = loadBlock front := by
  apply CArray.ext_read
  intro i inside
  rw [read_loadBlock _ inside, read_loadBlock _ inside,
    List.getD_append _ _ _ _ (by omega)]

theorem blocksOf_append_left
    {count : Nat} {front : List Byte} (rest : List Byte)
    (enough : 16 * count ≤ front.length) :
    blocksOf count (front ++ rest) = blocksOf count front := by
  induction count generalizing front with
  | zero => rfl
  | succ count induction =>
      have first : 16 ≤ front.length := by omega
      have others : 16 * count ≤ (front.drop 16).length := by
        rw [List.length_drop]
        omega
      rw [blocksOf, blocksOf, loadBlock_append_left rest first,
        List.drop_append_of_le_length first, induction others]

/-- The blocks of a buffer that starts with whole blocks. -/
theorem blocksOf_add
    {count : Nat} {front : List Byte} (later : Nat) (rest : List Byte)
    (whole : front.length = 16 * count) :
    blocksOf (count + later) (front ++ rest) =
      blocksOf count front ++ blocksOf later rest := by
  induction count generalizing front with
  | zero =>
      rw [List.eq_nil_of_length_eq_zero whole, Nat.zero_add]
      rfl
  | succ count induction =>
      have first : 16 ≤ front.length := by omega
      have others : (front.drop 16).length = 16 * count := by
        rw [List.length_drop]
        omega
      have position : count + 1 + later = count + later + 1 := by omega
      rw [position, blocksOf, blocksOf, loadBlock_append_left rest first,
        List.drop_append_of_le_length first, induction others]
      rfl

/-! ## The loops are chains -/

/-- What a chain over the first blocks of a buffer writes and hands on. -/
def runBlocks (step : Block → Block → Block × Block) (count : Nat)
    (iv : Block) (input : List Byte) : List Byte × Block :=
  let result := chain step iv (blocksOf count input)
  (bytesOf result.1, result.2)

theorem runBlocks_succ
    (step : Block → Block → Block × Block) (count : Nat) (iv : Block)
    (input : List Byte) :
    runBlocks step (count + 1) iv input =
      let first := step iv (loadBlock input)
      let rest := runBlocks step count first.2 (input.drop 16)
      (first.1.toList ++ rest.1, rest.2) :=
  rfl

theorem sm4CryptEcb_eq_runBlocks
    (ctx : Sm4Context) (mode length : Int) (iv : Block)
    (input : List Byte) :
    sm4CryptEcb ctx mode length input =
      (runBlocks (ecbStep ctx) (blockCount length) iv input).1 := by
  revert input
  apply blockCount_induction fun length count =>
    ∀ input, sm4CryptEcb ctx mode length input =
      (runBlocks (ecbStep ctx) count iv input).1
  · intro length stopped input
    rw [sm4CryptEcb, if_neg stopped]
    rfl
  · intro length later positive induction input
    rw [sm4CryptEcb, if_pos positive, runBlocks_succ, induction]
    rfl

theorem cbcEncrypt_eq_runBlocks
    (ctx : Sm4Context) (length : Int) (iv : Block) (input : List Byte) :
    cbcEncrypt ctx length iv input =
      runBlocks (encryptStep ctx) (blockCount length) iv input := by
  revert iv input
  apply blockCount_induction fun length count =>
    ∀ iv input, cbcEncrypt ctx length iv input =
      runBlocks (encryptStep ctx) count iv input
  · intro length stopped iv input
    rw [cbcEncrypt, if_neg stopped]
    rfl
  · intro length later positive induction iv input
    rw [cbcEncrypt, if_pos positive, runBlocks_succ]
    simp only [induction]
    rfl

theorem cbcDecrypt_eq_runBlocks
    (ctx : Sm4Context) (length : Int) (iv : Block) (input : List Byte) :
    cbcDecrypt ctx length iv input =
      runBlocks (decryptStep ctx) (blockCount length) iv input := by
  revert iv input
  apply blockCount_induction fun length count =>
    ∀ iv input, cbcDecrypt ctx length iv input =
      runBlocks (decryptStep ctx) count iv input
  · intro length stopped iv input
    rw [cbcDecrypt, if_neg stopped]
    rfl
  · intro length later positive induction iv input
    rw [cbcDecrypt, if_pos positive, runBlocks_succ]
    simp only [induction]
    rfl

theorem sm4CryptCbc_eq_runBlocks
    (ctx : Sm4Context) (mode length : Int) (iv : Block)
    (input : List Byte) :
    sm4CryptCbc ctx mode length iv input =
      runBlocks (cbcStep ctx mode) (blockCount length) iv input := by
  rw [sm4CryptCbc, cbcStep]
  split
  · exact cbcEncrypt_eq_runBlocks ctx length iv input
  · exact cbcDecrypt_eq_runBlocks ctx length iv input

/-! ## Streaming -/

/-- A chain over whole blocks and a rest may be interrupted between them. -/
theorem runBlocks_add
    (step : Block → Block → Block × Block) {count : Nat} (later : Nat)
    (iv : Block) {front : List Byte} (between rest : List Byte)
    (whole : front.length = 16 * count) :
    runBlocks step (count + later) iv (front ++ rest) =
      let one := runBlocks step count iv (front ++ between)
      let two := runBlocks step later one.2 rest
      (one.1 ++ two.1, two.2) := by
  have same : blocksOf count (front ++ between) = blocksOf count front :=
    blocksOf_append_left between whole.ge
  simp only [runBlocks, same, blocksOf_add later rest whole, chain_append,
    bytesOf_append]

/--
For every context, mode and initialisation vector, and for every two inputs of
which the first consists of whole blocks: a call on the first and then one on
the second, with the initialisation vector that the first call left, write what
one call on both writes and leave the initialisation vector that it leaves.
The bytes `between` and `behind` are those that follow the inputs in memory.
-/
theorem sm4CryptCbc_append
    (ctx : Sm4Context) (mode : Int) (iv : Block)
    (first second between behind : List Byte)
    (whole : first.length % 16 = 0) :
    let one := sm4CryptCbc ctx mode first.length iv (first ++ between)
    let two := sm4CryptCbc ctx mode second.length one.2 (second ++ behind)
    sm4CryptCbc ctx mode (first ++ second).length iv
        (first ++ second ++ behind) =
      (one.1 ++ two.1, two.2) := by
  intro one two
  rcases Nat.dvd_of_mod_eq_zero whole with ⟨count, blocks⟩
  have length :
      blockCount ((first ++ second).length : Int) =
        count + blockCount (second.length : Int) := by
    rw [List.length_append, blocks]
    exact blockCount_add count second.length
  have start : blockCount (first.length : Int) = count := by
    rw [blocks]
    exact blockCount_blocks count
  simp only [one, two, sm4CryptCbc_eq_runBlocks, length, start]
  rw [List.append_assoc]
  exact runBlocks_add (cbcStep ctx mode) _ iv between _ blocks

theorem sm4CryptCbc_append_two_calls :
    let ctx : Sm4Context := ⟨0, Vector.replicate 32 0x01020304⟩
    let iv : Block := Vector.replicate 16 0x22
    let first : List Byte := List.replicate 32 0x33
    let second : List Byte := List.replicate 16 0x44
    let one := sm4CryptCbc ctx SM4_DECRYPT 32 iv (first ++ [])
    let two := sm4CryptCbc ctx SM4_DECRYPT 16 one.2 (second ++ [])
    sm4CryptCbc ctx SM4_DECRYPT 48 iv (first ++ second ++ []) =
      (one.1 ++ two.1, two.2) := by
  intro ctx iv first second
  exact sm4CryptCbc_append ctx SM4_DECRYPT iv first second [] []
    (by decide)

end CommonCode.Sm4
