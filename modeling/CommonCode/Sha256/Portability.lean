import CommonCode.Sha256.Correctness

/-!
# `sha256` across targets

The word-assembly loop of `sha256` shifts by `8 * (3 - i)`, and C leaves open
what a shift by a count outside `0..31` computes.  `Interpretation` collects
what targets do: the count is taken modulo 32, or all bits are shifted out.  A
target may do the one for some counts and the other for others.

Only the first four bytes of a chunk are shifted by a count in range.  The
digest is the same on all targets when the other sixty are zero in every chunk,
since a zero byte contributes nothing whatever the count.  When one of them is
not zero, two targets already disagree on a word of that chunk.
-/

namespace CommonCode.Sha256

open CommonCode.Lib
open CommonCode.Lib.Bits

/-! ## Interpretations of a shift -/

/-- A 32-bit left shift that moves all bits out for a count out of range. -/
def shlDrop (x : Word) (count : Int) : Word :=
  if 0 ≤ count ∧ count < 32 then x <<< count.toNat else 0

/-- What a target may compute for a 32-bit left shift. -/
structure Interpretation (shl : Word → Int → Word) : Prop where
  inRange :
    ∀ (x : Word) (count : Int), 0 ≤ count → count < 32 →
      shl x count = x <<< count.toNat
  outOfRange :
    ∀ (x : Word) (count : Int), ¬(0 ≤ count ∧ count < 32) →
      shl x count = shlMod32 x count ∨ shl x count = 0

theorem interpretation_shlMod32 : Interpretation shlMod32 where
  inRange x count lower upper := by
    rw [shlMod32, Int.emod_eq_of_lt lower upper]
  outOfRange _ _ _ := Or.inl rfl

theorem interpretation_shlDrop : Interpretation shlDrop where
  inRange _ _ lower upper := if_pos ⟨lower, upper⟩
  outOfRange _ _ outside := Or.inr (if_neg outside)

/-- No interpretation makes a one out of a zero. -/
theorem Interpretation.zero
    {shl : Word → Int → Word} (target : Interpretation shl) (count : Int) :
    shl 0 count = 0 := by
  by_cases inside : 0 ≤ count ∧ count < 32
  · rw [target.inRange 0 count inside.1 inside.2]
    exact BitVec.zero_shiftLeft _
  · rcases target.outOfRange 0 count inside with modulo | dropped
    · rw [modulo]
      exact BitVec.zero_shiftLeft _
    · exact dropped

/-! ## Chunks with one occupied word -/

/--
Every chunk of the padded message is zero behind its first four bytes.
-/
def OneWordChunks (stack : Int → Byte) (data : List Byte) : Prop :=
  ∀ idx < newLen data.length / 64, ∀ i, 4 ≤ i → i < 64 →
    paddedBuf stack data (chunkOffset idx + (i : Nat)) = 0

/-- Two targets agree on an iteration that reads a zero or shifts in range. -/
theorem assembleStep_congr
    {left right : Word → Int → Word}
    (leftTarget : Interpretation left) (rightTarget : Interpretation right)
    (buf : Int → Byte) (idx i : Nat)
    (clear : 4 ≤ i → buf (chunkOffset idx + (i : Nat)) = 0)
    (state : Word × CArray Word 64) :
    assembleStep left buf idx state i =
      assembleStep right buf idx state i := by
  have shifted :
      left ((buf (chunkOffset idx + i)).setWidth 32)
          (8 * (3 - (i : Int))) =
        right ((buf (chunkOffset idx + i)).setWidth 32)
          (8 * (3 - (i : Int))) := by
    by_cases first : i < 4
    · rw [leftTarget.inRange _ _ (by omega) (by omega),
        rightTarget.inRange _ _ (by omega) (by omega)]
    · have none :
          (buf (chunkOffset idx + i)).setWidth 32 = (0 : Word) := by
        rw [clear (by omega)]
        rfl
      rw [none, leftTarget.zero, rightTarget.zero]
  simp only [assembleStep, shifted]

theorem chunkStep_congr
    {left right : Word → Int → Word}
    (leftTarget : Interpretation left) (rightTarget : Interpretation right)
    (buf : Int → Byte) (idx : Nat)
    (clear :
      ∀ i, 4 ≤ i → i < 64 → buf (chunkOffset idx + (i : Nat)) = 0)
    (state : Registers × CArray Word 64) :
    chunkStep left buf state idx = chunkStep right buf state idx := by
  have assembled :
      (List.range 64).foldl (assembleStep left buf idx) (0, state.2) =
        (List.range 64).foldl (assembleStep right buf idx) (0, state.2) := by
    apply List.foldl_ext
    intro reached i member
    exact
      assembleStep_congr leftTarget rightTarget buf idx i
        (fun behind => clear i behind (List.mem_range.mp member)) reached
  simp only [chunkStep, assembled]

/-- The registers after the last chunk are the same on all targets. -/
theorem finalRegisters_congr
    {left right : Word → Int → Word}
    (leftTarget : Interpretation left) (rightTarget : Interpretation right)
    (stack : Int → Byte) (w : CArray Word 64) (data : List Byte)
    (clear : OneWordChunks stack data) :
    finalRegisters left stack w data = finalRegisters right stack w data := by
  have chunks :
      (List.range (newLen data.length / 64)).foldl
          (chunkStep left (paddedBuf stack data))
          (initialRegisters, bzeroSchedule w) =
        (List.range (newLen data.length / 64)).foldl
          (chunkStep right (paddedBuf stack data))
          (initialRegisters, bzeroSchedule w) := by
    apply List.foldl_ext
    intro reached idx member
    exact
      chunkStep_congr leftTarget rightTarget _ idx
        (clear idx (List.mem_range.mp member)) reached
  rw [finalRegisters, finalRegisters, chunks]

/-! ## Chunks with a further word -/

/-- Behind the first word of a chunk nothing survives a dropping shift. -/
theorem assembledWord_shlDrop
    (buf : Int → Byte) (idx : Nat) {j : Nat} (behind : 0 < j) :
    assembledWord shlDrop buf idx j = 0 := by
  have dropped (x : Word) (i : Nat) :
      shlDrop x (8 * (3 - ((4 * j + i : Nat) : Int))) = 0 := by
    rw [shlDrop, if_neg (by omega)]
  simp only [assembledWord, dropped]
  rfl

/-- A big-endian word is zero only when its bytes are. -/
theorem eq_zero_of_bigEndian
    {bytes : Nat → Byte}
    (zero : bigEndian (bytes 0) (bytes 1) (bytes 2) (bytes 3) = 0)
    {i : Nat} (small : i < 4) :
    bytes i = 0 := by
  have listed :
      [bytes 0, bytes 1, bytes 2, bytes 3] = [0, 0, 0, 0] := by
    rw [← bytesMsbFirst_bigEndian, zero]
    rfl
  simp only [List.cons.injEq, and_true] at listed
  rcases listed with ⟨first, second, third, fourth⟩
  interval_cases i <;> assumption

/-- A nonzero byte behind the first four separates two targets. -/
theorem assembledWord_ne
    {buf : Int → Byte} {idx i : Nat} (behind : 4 ≤ i)
    (occupied : buf (chunkOffset idx + (i : Nat)) ≠ 0) :
    assembledWord shlMod32 buf idx (i / 4) ≠
      assembledWord shlDrop buf idx (i / 4) := by
  intro equal
  rw [assembledWord_shlDrop buf idx (by omega), assembledWord_shlMod32]
    at equal
  apply occupied
  have byte :=
    @eq_zero_of_bigEndian
      (fun q => buf (chunkOffset idx + (4 * (i / 4) + q : Nat)))
      equal _ (Nat.mod_lt i (by decide))
  simpa only [Nat.div_add_mod] using byte

/-- The array that enters the schedule then differs as well. -/
theorem assemble_ne
    {buf : Int → Byte} {idx i : Nat} (behind : 4 ≤ i) (inside : i < 64)
    (occupied : buf (chunkOffset idx + (i : Nat)) ≠ 0)
    (w : CArray Word 64) :
    ((List.range 64).foldl (assembleStep shlMod32 buf idx) (0, w)).2 ≠
      ((List.range 64).foldl (assembleStep shlDrop buf idx) (0, w)).2 := by
  rcases assemble_spec shlMod32 buf idx w 16 le_rfl with
    ⟨modulo, moduloRun, moduloWords⟩
  rcases assemble_spec shlDrop buf idx w 16 le_rfl with
    ⟨dropped, droppedRun, droppedWords⟩
  rw [show List.range 64 = List.range (4 * 16) from rfl, moduloRun,
    droppedRun]
  intro equal
  apply assembledWord_ne behind occupied
  rw [← moduloWords (i / 4) (by omega), ← droppedWords (i / 4) (by omega)]
  exact congrArg (fun array : CArray Word 64 => array.read (i / 4)) equal

/-! ## The digest -/

/-- The length field of a padded message. -/
theorem getD_paddedBytes_length
    (data : List Byte) {i : Nat} (inside : i < 8) :
    (paddedBytes data).getD (data.length + append data.length + i) 0 =
      (bytesMsbFirst 8 (BitVec.ofNat 64 (8 * data.length))).getD i 0 := by
  have positive := append_pos data.length
  have front :
      (data ++ 0x80 ::
          List.replicate (append data.length - 1) (0 : Byte)).length =
        data.length + append data.length := by
    simp only [List.length_append, List.length_cons, List.length_replicate]
    omega
  rw [paddedBytes, List.getD_append_right _ _ _ _ (by omega), front,
    Nat.add_sub_cancel_left]

/-- A register whose bytes are zero is zero. -/
theorem eq_zero_of_bytesMsbFirst
    (value : BitVec 64)
    (zeros : ∀ i < 8, (bytesMsbFirst 8 value).getD i 0 = 0) :
    value = 0 := by
  have bytes : bytesMsbFirst 8 value = bytesMsbFirst 8 (0 : BitVec 64) := by
    apply List.ext_getElem (by simp)
    intro i inside _
    have small : i < 8 := by simpa using inside
    have zero : ∀ i < 8, (bytesMsbFirst 8 (0 : BitVec 64)).getD i 0 = 0 := by
      decide
    rw [← List.getD_eq_getElem _ 0 inside, zeros i small,
      ← List.getD_eq_getElem _ 0, zero i small]
  have bits := congrArg bytesBits bytes
  rw [bytesBits_bytesMsbFirst rfl, bytesBits_bytesMsbFirst rfl] at bits
  rw [← registerOfBits_bitsOfRegister value, bits,
    registerOfBits_bitsOfRegister]

/--
The chunks have one occupied word only when the message is empty, as long as
the offsets of the chunks do not overflow: otherwise the length field at the
end of the last chunk is not zero.
-/
theorem oneWordChunks_iff
    (stack : Int → Byte) (data : List Byte)
    (fits : (paddedBytes data).length ≤ 2 ^ 31) :
    OneWordChunks stack data ↔ data = [] := by
  have whole := length_paddedBytes_mod data
  have length := length_paddedBytes data
  have positive := append_pos data.length
  have size : newLen data.length = (paddedBytes data).length := by
    rw [newLen, ← length]
    omega
  constructor
  · intro clear
    have last := clear (newLen data.length / 64 - 1) (by omega)
    rw [chunkOffset_eq (by omega)] at last
    have field :
        ∀ i < 8, (bytesMsbFirst 8
          (BitVec.ofNat 64 (8 * data.length))).getD i 0 = 0 := by
      intro i inside
      have position :
          ((64 * (newLen data.length / 64 - 1) : Nat) : Int) +
              ((56 + i : Nat) : Int) =
            ((data.length + append data.length + i : Nat) : Int) := by
        omega
      rw [← getD_paddedBytes_length data inside,
        ← paddedBuf_eq stack data _ (by omega), ← position]
      exact last (56 + i) (by omega) (by omega)
    have zero := congrArg BitVec.toNat (eq_zero_of_bytesMsbFirst _ field)
    rw [BitVec.toNat_ofNat, Nat.mod_eq_of_lt (by omega)] at zero
    have empty : 8 * data.length = 0 := zero
    exact List.eq_nil_of_length_eq_zero (by omega)
  · rintro rfl idx below i behind inside
    have single : newLen ([] : List Byte).length / 64 = 1 := by decide
    obtain rfl : idx = 0 := by omega
    rw [chunkOffset_eq (by decide), Nat.mul_zero, Nat.cast_zero,
      Int.zero_add, paddedBuf_eq stack [] i (by omega)]
    have zeros :
        ∀ i < 64, 4 ≤ i → (paddedBytes []).getD i 0 = 0 := by
      decide
    exact zeros i inside behind

/--
A digest is the same under any two interpretations of the shifts out of range
when every chunk of the padded message is zero behind its first four bytes.  In
every other message there is a chunk for which the array entering the schedule
differs between a target that takes counts modulo 32 and one that drops the
bits.
-/
theorem sha256_portable
    (stack : Int → Byte) (w : CArray Word 64)
    (data : List Byte) (out : CArray Byte 32) :
    (OneWordChunks stack data →
        ∀ left right : Word → Int → Word,
          Interpretation left → Interpretation right →
            sha256 left stack w data out = sha256 right stack w data out) ∧
      (¬OneWordChunks stack data →
        ∃ idx < newLen data.length / 64, ∀ before : CArray Word 64,
          ((List.range 64).foldl
              (assembleStep shlMod32 (paddedBuf stack data) idx)
              (0, before)).2 ≠
            ((List.range 64).foldl
              (assembleStep shlDrop (paddedBuf stack data) idx)
              (0, before)).2) := by
  constructor
  · intro clear left right leftTarget rightTarget
    have registers :=
      finalRegisters_congr leftTarget rightTarget stack w data clear
    simp only [sha256, registers]
  · intro occupied
    simp only [OneWordChunks, not_forall] at occupied
    rcases occupied with ⟨idx, below, i, behind, inside, nonzero⟩
    exact ⟨idx, below, assemble_ne behind inside nonzero⟩

theorem sha256_portable_empty :
    sha256 shlMod32 (fun _ => 0) (Vector.replicate 64 0) []
        (Vector.replicate 32 0) =
      sha256 shlDrop (fun _ => 0) (Vector.replicate 64 0) []
        (Vector.replicate 32 0) := by
  apply (sha256_portable (fun _ => 0) (Vector.replicate 64 0) []
    (Vector.replicate 32 0)).1
  · exact (oneWordChunks_iff (fun _ => 0) [] (by decide)).mpr rfl
  · exact interpretation_shlMod32
  · exact interpretation_shlDrop

set_option maxRecDepth 100000 in
/-- The message `a` has two digests. -/
theorem sha256_differs_a :
    Interpretation shlMod32 ∧ Interpretation shlDrop ∧
      sha256 shlMod32 (fun _ => 0) (Vector.replicate 64 0) [0x61]
          (Vector.replicate 32 0) ≠
        sha256 shlDrop (fun _ => 0) (Vector.replicate 64 0) [0x61]
          (Vector.replicate 32 0) :=
  ⟨interpretation_shlMod32, interpretation_shlDrop, by decide⟩

end CommonCode.Sha256
