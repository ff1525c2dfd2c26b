import CommonCode.Sha256.Code
import CommonCode.Sha256.Fips

/-!
# The padding of `sha256`

The code pads in place: it clears `append` bytes behind the message, writes
`0x80` over the first of them and the length behind them.  `paddedBytes` is the
resulting byte string; its bits are the padded message of the standard, and its
length is the local `new_len`.
-/

namespace CommonCode.Sha256

open CommonCode.Lib
open CommonCode.Lib.Bits

/-! ## Lengths -/

theorem append_pos (len : Nat) : 0 < append len := by
  unfold append remainderBits
  split <;> omega

/-- The code appends the one bit and the zero bits of the standard. -/
theorem zeroBits_eq (len : Nat) :
    Fips.zeroBits (8 * len) + 1 = 8 * append len := by
  have least : Fips.zeroBits (8 * len) = 8 * append len - 1 := by
    rw [Fips.zeroBits, Nat.find_eq_iff]
    unfold append remainderBits
    constructor
    · split <;> omega
    · intro candidate below
      split at below <;> omega
  have positive := append_pos len
  omega

/-- The contents of `buf` as a byte string. -/
def paddedBytes (data : List Byte) : List Byte :=
  data ++ 0x80 :: List.replicate (append data.length - 1) 0 ++
    bytesMsbFirst 8 (BitVec.ofNat 64 (8 * data.length))

theorem length_paddedBytes (data : List Byte) :
    (paddedBytes data).length = data.length + append data.length + 8 := by
  have positive := append_pos data.length
  simp only [paddedBytes, List.length_append, List.length_cons,
    List.length_replicate, length_bytesMsbFirst]
  omega

theorem length_paddedBytes_mod (data : List Byte) :
    (paddedBytes data).length % 64 = 0 := by
  rw [length_paddedBytes]
  unfold append remainderBits
  split <;> omega

/-! ## The padded message of the standard -/

theorem bitsOfRegister_marker :
    bitsOfRegister (0x80 : Byte) = true :: List.replicate 7 false := by
  decide

theorem bytesBits_zeros (count : Nat) :
    bytesBits (List.replicate count 0) =
      List.replicate (8 * count) false := by
  induction count with
  | zero => rfl
  | succ count induction =>
      have zero : bitsOfRegister (0 : Byte) = List.replicate 8 false := by
        decide
      rw [List.replicate_succ, bytesBits_cons, induction, zero,
        List.replicate_append_replicate]
      congr 1
      ring

theorem bytesBits_paddedBytes (data : List Byte) :
    bytesBits (paddedBytes data) = Fips.pad (bytesBits data) := by
  have zeros :
      Fips.zeroBits (8 * data.length) =
        7 + 8 * (append data.length - 1) := by
    have equation := zeroBits_eq data.length
    have positive := append_pos data.length
    omega
  rw [paddedBytes, Fips.pad, bytesBits_append, bytesBits_append,
    bytesBits_cons, bitsOfRegister_marker, bytesBits_zeros,
    bytesBits_bytesMsbFirst rfl, length_bytesBits, zeros,
    ← List.replicate_append_replicate]
  rfl

/-! ## The buffer -/

theorem lengthByte_eq (bitsLen : BitVec 64) (i : Nat) :
    lengthByte bitsLen i = (bitsLen >>> (8 * (8 - 1 - i))).setWidth 8 := by
  have mask : ∀ j < 8, (0xff#64).getLsbD j = true := by decide
  apply BitVec.eq_of_getLsbD_eq
  intro j inside
  rw [lengthByte, Nat.mul_comm (7 - i) 8, BitVec.getLsbD_setWidth,
    BitVec.getLsbD_setWidth, BitVec.getLsbD_and, mask j inside,
    Bool.and_true]

/-- The loop that writes the length bytes. -/
theorem foldl_lengthBytes
    (buf : Int → Byte) (start : Nat) (value : Nat → Byte)
    (count p : Nat) :
    ((List.range count).foldl
        (fun buf (i : Nat) =>
          Function.update buf ((start + i : Nat) : Int) (value i))
        buf) p =
      if start ≤ p ∧ p < start + count then value (p - start)
      else buf p := by
  induction count with
  | zero => simp
  | succ count induction =>
      rw [List.range_succ, List.foldl_append, List.foldl_cons,
        List.foldl_nil, Function.update_apply, induction]
      by_cases last : p = start + count
      · subst last
        simp
      · have other : (p : Int) ≠ ((start + count : Nat) : Int) := by
          exact_mod_cast last
        rw [if_neg other]
        congr 1
        simp only [eq_iff_iff]
        omega

theorem paddedBuf_eq
    (stack : Int → Byte) (data : List Byte) (p : Nat)
    (inside : p < (paddedBytes data).length) :
    paddedBuf stack data p = (paddedBytes data).getD p 0 := by
  have positive := append_pos data.length
  rw [length_paddedBytes] at inside
  simp only [paddedBuf, foldl_lengthBytes, paddedBytes]
  by_cases tail : data.length + append data.length ≤ p
  · have front :
        (data ++ 0x80 ::
            List.replicate (append data.length - 1) (0 : Byte)).length =
          data.length + append data.length := by
      simp only [List.length_append, List.length_cons,
        List.length_replicate]
      omega
    have offset : p - (data.length + append data.length) < 8 := by omega
    rw [if_pos ⟨tail, by omega⟩, List.getD_append_right _ _ _ _ (by omega),
      front, lengthByte_eq, Nat.mul_comm data.length 8]
    simp [bytesMsbFirst, List.getD, offset]
  · have before :
        p < (data ++ 0x80 ::
            List.replicate (append data.length - 1) (0 : Byte)).length := by
      simp only [List.length_append, List.length_cons,
        List.length_replicate]
      omega
    rw [if_neg (by omega), List.getD_append _ _ _ _ before]
    rcases Nat.lt_trichotomy p data.length with message | marker | zero
    · have apart : (p : Int) ≠ (data.length : Int) := by omega
      rw [Function.update_of_ne apart, if_pos (by omega),
        List.getD_append _ _ _ _ message, memcpy, if_pos (by omega),
        Int.toNat_natCast]
    · subst marker
      simp [List.getD]
    · have apart : (p : Int) ≠ (data.length : Int) := by omega
      have cleared : bzero stack data.length (append data.length) p = 0 :=
        if_pos (by omega)
      have zeroByte :
          (data ++ 0x80 ::
            List.replicate (append data.length - 1) (0 : Byte)).getD p 0 =
              0 := by
        obtain ⟨offset, rfl⟩ : ∃ offset, p = data.length + (offset + 1) :=
          ⟨p - data.length - 1, by omega⟩
        rw [List.getD_append_right _ _ _ _ (by omega),
          Nat.add_sub_cancel_left, List.getD_cons_succ]
        simp [List.getD, List.getElem?_replicate]
        split <;> rfl
      rw [Function.update_of_ne apart, zeroByte]
      split
      · rw [memcpy, if_neg (by omega), cleared]
      · exact cleared

end CommonCode.Sha256
