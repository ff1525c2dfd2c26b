import CommonCode.Sha256.Padding

/-!
# `sha256` computes the SHA-256 digest

Each loop of the code is compared with the corresponding step of the standard:
the word-assembly loop with the parsing of a block, the schedule loop with the
message schedule, the round loop with the rounds and the chunk loop with the
iteration over blocks.  The comparison holds for arbitrary initial contents of
the two local arrays.
-/

namespace CommonCode.Sha256

open CommonCode.Lib
open CommonCode.Lib.Bits

/-! ## Word assembly -/

/-- Word `j` of the chunk that starts at `base`, read in big-endian order. -/
def chunkWord (buf : Int → Byte) (base : Int) (j : Nat) : Word :=
  bigEndian (buf (base + (4 * j : Nat)))
    (buf (base + (4 * j + 1 : Nat)))
    (buf (base + (4 * j + 2 : Nat)))
    (buf (base + (4 * j + 3 : Nat)))

/-- The shift counts of the loop repeat 24, 16, 8, 0. -/
theorem shlMod32_count (x : Word) (j : Nat) {i : Nat} (small : i < 4) :
    shlMod32 x (8 * (3 - ((4 * j + i : Nat) : Int))) =
      x <<< (8 * (3 - i)) := by
  have count :
      (8 * (3 - ((4 * j + i : Nat) : Int)) % 32).toNat = 8 * (3 - i) := by
    omega
  rw [shlMod32, count]

/-- The word that four iterations of the loop build out of their bytes. -/
def assembledWord (shl : Word → Int → Word) (buf : Int → Byte) (idx j : Nat) :
    Word :=
  let shifted (i : Nat) : Word :=
    shl ((buf (chunkOffset idx + (4 * j + i : Nat))).setWidth 32)
      (8 * (3 - ((4 * j + i : Nat) : Int)))
  shifted 0 ||| shifted 1 ||| shifted 2 ||| shifted 3

/-- Four iterations assemble one word. -/
theorem assembleStep_four
    (shl : Word → Int → Word) (buf : Int → Byte) (idx : Nat)
    (w : CArray Word 64) (j : Nat) :
    [4 * j, 4 * j + 1, 4 * j + 2, 4 * j + 3].foldl
        (assembleStep shl buf idx) (0, w) =
      (0, w.write j (assembledWord shl buf idx j)) := by
  have first : 4 * j % 4 ≠ 3 := by omega
  have second : (4 * j + 1) % 4 ≠ 3 := by omega
  have third : (4 * j + 2) % 4 ≠ 3 := by omega
  have fourth : (4 * j + 3) % 4 = 3 := by omega
  have position : (4 * j + 3) / 4 = j := by omega
  have initial (x : Word) : 0 ||| x = x := BitVec.zero_or
  simp only [List.foldl_cons, List.foldl_nil, assembleStep, if_neg first,
    if_neg second, if_neg third, if_pos fourth, position, assembledWord,
    Nat.add_zero, initial]

/-- The word-assembly loop builds the sixteen words of the chunk. -/
theorem assemble_spec
    (shl : Word → Int → Word) (buf : Int → Byte) (idx : Nat)
    (w : CArray Word 64) (count : Nat) (bounded : count ≤ 16) :
    ∃ w' : CArray Word 64,
      (List.range (4 * count)).foldl
          (assembleStep shl buf idx) (0, w) = (0, w') ∧
        ∀ j < count, w'.read j = assembledWord shl buf idx j := by
  induction count with
  | zero => exact ⟨w, rfl, by simp⟩
  | succ count induction =>
      rcases induction (by omega) with ⟨before, run, words⟩
      refine
        ⟨before.write count (assembledWord shl buf idx count),
          ?_, ?_⟩
      · have split :
            List.range (4 * (count + 1)) =
              List.range (4 * count) ++
                [4 * count, 4 * count + 1, 4 * count + 2,
                  4 * count + 3] := by
          rw [Nat.mul_succ]
          simp [List.range_succ]
        rw [split, List.foldl_append, run, assembleStep_four]
      · intro j below
        rw [CArray.read_write _ (by omega)]
        by_cases last : j = count
        · rw [if_pos last, last]
        · rw [if_neg last]
          exact words j (by omega)

/-- With counts taken modulo 32 the loop reads the words in big-endian order. -/
theorem assembledWord_shlMod32 (buf : Int → Byte) (idx j : Nat) :
    assembledWord shlMod32 buf idx j =
      chunkWord buf (chunkOffset idx) j := by
  simp only [assembledWord, shlMod32_count _ j (i := 0) (by decide),
    shlMod32_count _ j (i := 1) (by decide),
    shlMod32_count _ j (i := 2) (by decide),
    shlMod32_count _ j (i := 3) (by decide)]
  rw [chunkWord, bigEndian_eq_shifts]
  simp

/-! ## The schedule and the rounds -/

theorem rightrotate_eq (w : Word) (n : Nat) (small : n < 32) :
    rightrotate w n = w.rotateRight n := by
  rw [BitVec.rotateRight_def, Nat.mod_eq_of_lt small, rightrotate]

theorem schedule_of_lt (message : Nat → Word) {t : Nat} (small : t < 16) :
    Fips.schedule message t = message t := by
  rw [Fips.schedule, if_pos small]

theorem schedule_of_ge (message : Nat → Word) {t : Nat} (large : 16 ≤ t) :
    Fips.schedule message t =
      Fips.smallSigma1 (Fips.schedule message (t - 2)) +
          Fips.schedule message (t - 7) +
        Fips.smallSigma0 (Fips.schedule message (t - 15)) +
        Fips.schedule message (t - 16) := by
  rw [Fips.schedule, if_neg (by omega)]

theorem extendSchedule_read
    (message : Nat → Word) (w : CArray Word 64)
    (words : ∀ j < 16, w.read j = message j) :
    ∀ t < 64, (extendSchedule w).read t = Fips.schedule message t := by
  apply CArray.foldl_write scheduleWord (Fips.schedule message) 16 48
  · decide
  · intro array i above _ earlier
    simp only [scheduleWord, schedule_of_ge message above,
      earlier (i - 15) (by omega), earlier (i - 2) (by omega),
      earlier (i - 16) (by omega), earlier (i - 7) (by omega),
      Fips.smallSigma0, Fips.smallSigma1,
      rightrotate_eq _ 7 (by decide), rightrotate_eq _ 18 (by decide),
      rightrotate_eq _ 17 (by decide), rightrotate_eq _ 19 (by decide)]
    ac_rfl
  · intro j small
    rw [words j small, schedule_of_lt message small]

/-- The registers of the code as a hash value of the standard. -/
def Registers.toHash (v : Registers) : Fips.Hash :=
  ⟨v.a, v.b, v.c, v.d, v.e, v.f, v.g, v.h⟩

theorem roundStep_toHash
    (message : Nat → Word) (w : CArray Word 64) (v : Registers)
    {i : Nat} (word : w.read i = Fips.schedule message i) :
    (roundStep w v i).toHash =
      Fips.round (Fips.schedule message) v.toHash i := by
  simp only [roundStep, Fips.round, Registers.toHash, Fips.bigSigma0,
    Fips.bigSigma1, Fips.ch, Fips.maj, word,
    rightrotate_eq _ 6 (by decide), rightrotate_eq _ 11 (by decide),
    rightrotate_eq _ 25 (by decide), rightrotate_eq _ 2 (by decide),
    rightrotate_eq _ 13 (by decide), rightrotate_eq _ 22 (by decide)]
  rfl

theorem rounds_toHash
    (message : Nat → Word) (w : CArray Word 64) (v : Registers)
    (words : ∀ t < 64, w.read t = Fips.schedule message t)
    (count : Nat) (bounded : count ≤ 64) :
    ((List.range count).foldl (roundStep w) v).toHash =
      (List.range count).foldl
        (Fips.round (Fips.schedule message)) v.toHash := by
  induction count with
  | zero => rfl
  | succ count induction =>
      rw [List.range_succ, List.foldl_append, List.foldl_append,
        List.foldl_cons, List.foldl_nil, List.foldl_cons,
        List.foldl_nil, ← induction (by omega)]
      exact roundStep_toHash message w _ (words count (by omega))

/-! ## The chunk loop -/

/-- One chunk is one compression, whatever the array `w` held before. -/
theorem chunkStep_toHash
    (buf : Int → Byte) (state : Registers × CArray Word 64) (idx : Nat) :
    (chunkStep shlMod32 buf state idx).1.toHash =
      Fips.compress state.1.toHash
        (chunkWord buf (chunkOffset idx)) := by
  rcases assemble_spec shlMod32 buf idx state.2 16 le_rfl with
    ⟨assembled, run, words⟩
  have schedule :=
    extendSchedule_read (chunkWord buf (chunkOffset idx)) assembled
      fun j below =>
        (words j below).trans (assembledWord_shlMod32 buf idx j)
  have rounds := rounds_toHash _ _ state.1 schedule 64 le_rfl
  have unfolded :
      chunkStep shlMod32 buf state idx =
        (state.1.add
            ((List.range 64).foldl
              (roundStep (extendSchedule assembled)) state.1),
          extendSchedule assembled) := by
    simp only [chunkStep]
    rw [show List.range 64 = List.range (4 * 16) from rfl, run]
  rw [unfolded, Fips.compress, ← rounds]
  simp only [Registers.add, Registers.toHash, Fips.Hash.mk.injEq]
  refine ⟨?_, ?_, ?_, ?_, ?_, ?_, ?_, ?_⟩ <;> exact BitVec.add_comm _ _

/-- Chunk offsets do not overflow as long as the buffer has at most 2^31 bytes. -/
theorem chunkOffset_eq {idx : Nat} (small : idx < 2 ^ 25) :
    chunkOffset idx = ((64 * idx : Nat) : Int) := by
  have product :
      (BitVec.ofNat 32 idx * 64#32).toNat = 64 * idx := by
    simp only [BitVec.toNat_mul, BitVec.toNat_ofNat]
    omega
  rw [chunkOffset, BitVec.toInt_eq_toNat_cond, product]
  exact if_pos (by omega)

/-- The bytes the loop reads are the bits the standard parses. -/
theorem chunkWord_paddedBuf
    (stack : Int → Byte) (data : List Byte) {idx j : Nat}
    (small : idx < 2 ^ 25) (word : j < 16)
    (inside : 64 * idx + 64 ≤ (paddedBytes data).length) :
    chunkWord (paddedBuf stack data) (chunkOffset idx) j =
      Fips.messageWord (Fips.pad (bytesBits data)) idx j := by
  let start := 64 * idx + 4 * j
  have byte (i : Nat) (fits : i < 4) :
      paddedBuf stack data (chunkOffset idx + (4 * j + i : Nat)) =
        (paddedBytes data).getD (start + i) 0 := by
    rw [chunkOffset_eq small, ← Nat.cast_add, ← Nat.add_assoc]
    exact paddedBuf_eq stack data _ (by omega)
  have four :
      ((paddedBytes data).drop start).take 4 =
        [(paddedBytes data).getD start 0,
          (paddedBytes data).getD (start + 1) 0,
          (paddedBytes data).getD (start + 2) 0,
          (paddedBytes data).getD (start + 3) 0] := by
    apply List.ext_getElem
    · simp only [List.length_take, List.length_drop, List.length_cons,
        List.length_nil]
      omega
    · intro i _ fits
      have bound : i < 4 := by simpa using fits
      rw [List.getElem_take, List.getElem_drop,
        ← List.getD_eq_getElem _ 0]
      interval_cases i <;> rfl
  have position : 512 * idx + 32 * j = 8 * start := by omega
  have parsed :
      ((Fips.pad (bytesBits data)).drop (512 * idx + 32 * j)).take 32 =
        bitsOfRegister
          (chunkWord (paddedBuf stack data) (chunkOffset idx) j) := by
    have taken := take_bytesBits 4 ((paddedBytes data).drop start)
    rw [← bytesBits_paddedBytes, position, drop_bytesBits, taken, four,
      bytesBits_four, chunkWord, byte 1 (by decide), byte 2 (by decide),
      byte 3 (by decide)]
    exact
      congrArg (fun first => bitsOfRegister (bigEndian first _ _ _))
        (byte 0 (by decide)).symm
  rw [Fips.messageWord, parsed, registerOfBits_bitsOfRegister]

theorem schedule_congr
    {left right : Nat → Word} (equal : ∀ j < 16, left j = right j)
    (t : Nat) :
    Fips.schedule left t = Fips.schedule right t := by
  induction t using Nat.strong_induction_on with
  | h t induction =>
      by_cases small : t < 16
      · rw [schedule_of_lt left small, schedule_of_lt right small,
          equal t small]
      · rw [schedule_of_ge left (by omega),
          schedule_of_ge right (by omega),
          induction (t - 2) (by omega), induction (t - 7) (by omega),
          induction (t - 15) (by omega), induction (t - 16) (by omega)]

theorem compress_congr
    (hash : Fips.Hash) {left right : Nat → Word}
    (equal : ∀ j < 16, left j = right j) :
    Fips.compress hash left = Fips.compress hash right := by
  have schedules : Fips.schedule left = Fips.schedule right := by
    funext t
    exact schedule_congr equal t
  rw [Fips.compress, Fips.compress, schedules]

/-- The chunk loop iterates the compression over the blocks. -/
theorem chunks_toHash
    (stack : Int → Byte) (data : List Byte)
    (state : Registers × CArray Word 64) (count : Nat)
    (small : count ≤ 2 ^ 25)
    (inside : 64 * count ≤ (paddedBytes data).length) :
    ((List.range count).foldl
        (chunkStep shlMod32 (paddedBuf stack data)) state).1.toHash =
      (List.range count).foldl
        (fun hash i =>
          Fips.compress hash
            (Fips.messageWord (Fips.pad (bytesBits data)) i))
        state.1.toHash := by
  induction count with
  | zero => rfl
  | succ count induction =>
      rw [List.range_succ, List.foldl_append, List.foldl_append,
        List.foldl_cons, List.foldl_nil, List.foldl_cons,
        List.foldl_nil, ← induction (by omega) (by omega),
        chunkStep_toHash]
      apply compress_congr
      intro j word
      exact chunkWord_paddedBuf stack data (by omega) word (by omega)

theorem finalRegisters_toHash
    (stack : Int → Byte) (w : CArray Word 64) (data : List Byte)
    (fits : (Fips.pad (bytesBits data)).length ≤ 8 * 2 ^ 31) :
    (finalRegisters shlMod32 stack w data).toHash =
      Fips.hashValue (bytesBits data) := by
  have bits : (Fips.pad (bytesBits data)).length =
      8 * (paddedBytes data).length := by
    rw [← bytesBits_paddedBytes, length_bytesBits]
  have whole := length_paddedBytes_mod data
  have size : newLen data.length = (paddedBytes data).length := by
    have length := length_paddedBytes data
    rw [newLen, ← length]
    omega
  have blocks :
      (Fips.pad (bytesBits data)).length / 512 =
        newLen data.length / 64 := by
    omega
  rw [finalRegisters, Fips.hashValue, blocks]
  exact chunks_toHash stack data _ _ (by omega) (by omega)

/-! ## Output -/

/-- A store writes the four bytes of the word, the low one first. -/
theorem read_storeUint32
    (out : CArray Byte 32) {offset : Nat} (inside : offset < 8)
    (val : Word) (p : Nat) :
    (storeUint32 out (4 * offset) val).read p =
      if p / 4 = offset then (val >>> (8 * (p % 4))).setWidth 8
      else out.read p := by
  simp only [storeUint32, List.range, List.range.loop, List.foldl_cons,
    List.foldl_nil]
  rw [CArray.read_write _ (by omega), CArray.read_write _ (by omega),
    CArray.read_write _ (by omega), CArray.read_write _ (by omega)]
  by_cases same : p / 4 = offset
  · obtain ⟨i, small, rfl⟩ : ∃ i, i < 4 ∧ p = 4 * offset + i :=
      ⟨p % 4, by omega, by omega⟩
    have quotient : (4 * offset + i) % 4 = i := by omega
    rw [if_pos same, quotient]
    interval_cases i <;> simp
  · rw [if_neg same, if_neg (by omega), if_neg (by omega),
      if_neg (by omega), if_neg (by omega)]

theorem bswap32_byte (val : Word) {i : Nat} (small : i < 4) :
    (bswap32 val >>> (8 * i)).setWidth 8 =
      (val >>> (8 * (4 - 1 - i))).setWidth 8 := by
  have mask :
      ∀ j < 32, (0xff00#32).getLsbD j = decide (8 ≤ j ∧ j < 16) := by
    decide
  apply BitVec.eq_of_getLsbD_eq
  intro j inside
  interval_cases i <;> simp [bswap32] <;> grind

theorem read_copyUint32
    (out : CArray Byte 32) {offset : Nat} (inside : offset < 8)
    (val : Word) (p : Nat) :
    (copyUint32 out offset val).read p =
      if p / 4 = offset then (val >>> (8 * (4 - 1 - p % 4))).setWidth 8
      else out.read p := by
  rw [copyUint32, read_storeUint32 out inside,
    bswap32_byte val (Nat.mod_lt p (by decide))]

/-- The eight stores write the hash value, each word big-endian. -/
theorem read_sha256
    (shl : Word → Int → Word) (stack : Int → Byte) (w : CArray Word 64)
    (data : List Byte) (out : CArray Byte 32) {i p : Nat}
    (word : i < 8) (position : p / 4 = i) :
    (sha256 shl stack w data out).read p =
      (((finalRegisters shl stack w data).toHash.words.getD i 0) >>>
        (8 * (4 - 1 - p % 4))).setWidth 8 := by
  simp only [sha256]
  rw [read_copyUint32 _ (by decide), read_copyUint32 _ (by decide),
    read_copyUint32 _ (by decide), read_copyUint32 _ (by decide),
    read_copyUint32 _ (by decide), read_copyUint32 _ (by decide),
    read_copyUint32 _ (by decide), read_copyUint32 _ (by decide),
    position]
  interval_cases i <;> rfl

theorem toList_eq_flatMap_bytes
    (out : CArray Byte 32) (words : List Word)
    (count : words.length = 8)
    (bytes :
      ∀ i < 8, ∀ p, p / 4 = i →
        out.read p =
          ((words.getD i 0) >>> (8 * (4 - 1 - p % 4))).setWidth 8) :
    out.toList = words.flatMap (bytesMsbFirst 4) := by
  have chunked :
      words.flatMap (bytesMsbFirst 4) =
        (List.range 8).flatMap fun i => bytesMsbFirst 4 (words.getD i 0) := by
    obtain ⟨a, b, c, d, e, f, g, h, rfl⟩ :
        ∃ a b c d e f g h, words = [a, b, c, d, e, f, g, h] := by
      match words, count with
      | [a, b, c, d, e, f, g, h], _ =>
          exact ⟨a, b, c, d, e, f, g, h, rfl⟩
    rfl
  have elements :
      out.toList = (List.range 32).map out.read := by
    apply List.ext_getElem (by simp)
    intro p _ inside
    have bound : p < 32 := by simpa using inside
    simp [CArray.read, bound, Vector.get_eq_getElem]
  have grouped :
      (List.range 32).map out.read =
        (List.range 8).flatMap fun i =>
          (List.range 4).map fun q => out.read (4 * i + q) :=
    rfl
  rw [elements, grouped, chunked]
  apply List.flatMap_congr
  intro i member
  have small : i < 8 := List.mem_range.mp member
  rw [bytesMsbFirst]
  apply List.map_congr_left
  intro q within
  have low : q < 4 := List.mem_range.mp within
  have quotient : (4 * i + q) / 4 = i := by omega
  have remainder : (4 * i + q) % 4 = q := by omega
  rw [bytes i small _ quotient, remainder]

/--
For every message whose padded length is at most `2 ^ 31` bytes, the 32 bytes
written to `out` are the SHA-256 digest of the message, on a target that takes
the count of a 32-bit left shift modulo 32 and whatever the uninitialised
memory held.
-/
theorem sha256_eq_fips_digest
    (stack : Int → Byte) (w : CArray Word 64)
    (data : List Byte) (out : CArray Byte 32)
    (fits : (Fips.pad (bytesBits data)).length ≤ 8 * 2 ^ 31) :
    bytesBits (sha256 shlMod32 stack w data out).toList =
      Fips.sha256 (bytesBits data) := by
  have bytes :=
    toList_eq_flatMap_bytes (sha256 shlMod32 stack w data out)
      (finalRegisters shlMod32 stack w data).toHash.words rfl
      (fun i word p position =>
        read_sha256 shlMod32 stack w data out word position)
  have whole : 8 * 4 = 32 := rfl
  have words (value : Word) :
      bytesBits (bytesMsbFirst 4 value) = bitsOfRegister value :=
    bytesBits_bytesMsbFirst whole value
  rw [bytes, finalRegisters_toHash stack w data fits, Fips.sha256,
    bytesBits, List.flatMap_assoc]
  exact List.flatMap_congr fun value _ => words value

theorem sha256_eq_fips_digest_abc :
    bytesBits
        (sha256 shlMod32 (fun _ => 0) (Vector.replicate 64 0)
          [0x61, 0x62, 0x63] (Vector.replicate 32 0)).toList =
      Fips.sha256 (bytesBits [0x61, 0x62, 0x63]) := by
  apply sha256_eq_fips_digest
  rw [← bytesBits_paddedBytes, length_bytesBits, length_paddedBytes]
  decide

end CommonCode.Sha256
