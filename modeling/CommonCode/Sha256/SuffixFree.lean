import CommonCode.Sha256.Padding

/-!
# Padded messages determine their messages

The code extends a message of `len` bytes to the least multiple of sixty-four
bytes that leaves room for the marker `0x80` and the eight length bytes.  The
length bytes come last, so a padded message that is a suffix of another one has
the same length field, hence the same length, and is equal to it.
-/

namespace CommonCode.Sha256

open CommonCode.Lib
open CommonCode.Lib.Bits

/-! ## Lengths -/

theorem append_le (len : Nat) : append len ≤ 64 := by
  unfold append remainderBits
  split <;> omega

/-- The lengths that leave room for the marker and the length bytes. -/
def Sufficient (len : Nat) : Set Nat :=
  { size | 64 ∣ size ∧ len + 9 ≤ size }

theorem newLen_eq {len : Nat} (fits : 8 * len < 2 ^ 64) :
    newLen len = len + append len + 8 := by
  have bound := append_le len
  rw [newLen, Nat.mod_eq_of_lt (by omega)]

theorem isLeast_newLen {len : Nat} (fits : 8 * len < 2 ^ 64) :
    IsLeast (Sufficient len) (newLen len) := by
  rw [newLen_eq fits]
  constructor
  · constructor
    · unfold append remainderBits
      split <;> omega
    · have positive := append_pos len
      omega
  · rintro size ⟨multiple, room⟩
    unfold append remainderBits
    split <;> omega

theorem length_paddedBytes_eq_newLen {data : List Byte}
    (fits : 8 * data.length < 2 ^ 64) :
    (paddedBytes data).length = newLen data.length := by
  rw [length_paddedBytes, newLen_eq fits]

/-! ## The buffer -/

/-- The bytes of `buf` when the chunk loop starts. -/
def paddedBuffer (stack : Int → Byte) (data : List Byte) : List Byte :=
  (List.range (newLen data.length)).map fun (p : Nat) =>
    paddedBuf stack data (p : Int)

theorem paddedBuffer_eq (stack : Int → Byte) {data : List Byte}
    (fits : 8 * data.length < 2 ^ 64) :
    paddedBuffer stack data = paddedBytes data := by
  have size := length_paddedBytes_eq_newLen fits
  apply List.ext_getElem
  · rw [paddedBuffer, List.length_map, List.length_range, size]
  · intro p _ inside
    simp only [paddedBuffer, List.getElem_map, List.getElem_range]
    rw [paddedBuf_eq stack data p inside, List.getD_eq_getElem _ _ inside]

theorem getElem_paddedBytes_marker (data : List Byte)
    (inside : data.length < (paddedBytes data).length) :
    (paddedBytes data)[data.length] = 0x80 := by
  simp [paddedBytes]

/-- No length byte is written over the marker. -/
theorem paddedBuf_marker (stack : Int → Byte) (data : List Byte) :
    paddedBuf stack data data.length = 0x80 := by
  have inside : data.length < (paddedBytes data).length := by
    rw [length_paddedBytes]
    omega
  rw [paddedBuf_eq stack data _ inside, List.getD_eq_getElem _ _ inside,
    getElem_paddedBytes_marker data inside]

/-! ## The length field -/

theorem bytesMsbFirst_injective {count width : Nat}
    (whole : 8 * count = width) :
    Function.Injective
      (bytesMsbFirst count : BitVec width → List Byte) := by
  intro left right same
  rw [← registerOfBits_bitsOfRegister left,
    ← bytesBits_bytesMsbFirst whole, same, bytesBits_bytesMsbFirst whole,
    registerOfBits_bitsOfRegister]

/-- A padded message that ends another one has its length. -/
theorem length_eq_of_suffix {data other : List Byte}
    (fits : 8 * data.length < 2 ^ 64) (otherFits : 8 * other.length < 2 ^ 64)
    (suffix : paddedBytes data <:+ paddedBytes other) :
    data.length = other.length := by
  rcases suffix with ⟨front, appended⟩
  rw [paddedBytes, paddedBytes, ← List.append_assoc] at appended
  have fields :=
    bytesMsbFirst_injective rfl
      (List.append_inj_right' appended
        (by rw [length_bytesMsbFirst, length_bytesMsbFirst]))
  have values := congrArg BitVec.toNat fields
  rw [BitVec.toNat_ofNat, BitVec.toNat_ofNat, Nat.mod_eq_of_lt fits,
    Nat.mod_eq_of_lt otherFits] at values
  omega

theorem eq_of_suffix {data other : List Byte}
    (fits : 8 * data.length < 2 ^ 64) (otherFits : 8 * other.length < 2 ^ 64)
    (suffix : paddedBytes data <:+ paddedBytes other) :
    data = other := by
  have sameLength := length_eq_of_suffix fits otherFits suffix
  have same : paddedBytes data = paddedBytes other := by
    apply suffix.eq_of_length
    rw [length_paddedBytes, length_paddedBytes, sameLength]
  rw [paddedBytes, paddedBytes, List.append_assoc, List.append_assoc] at same
  exact List.append_inj_left same sameLength

/--
The padding of every message whose length in bits fits into 64 bits: `append`
is between 1 and 64, `new_len` is the least sufficient length, the marker is in
place, and the buffer does not depend on what was on the stack.  Two messages
with one padded buffer are equal, and no padded buffer is a proper suffix of
another one.
-/
theorem sha256_padding
    (stack : Int → Byte) (data : List Byte)
    (fits : 8 * data.length < 2 ^ 64) :
    (1 ≤ append data.length ∧ append data.length ≤ 64) ∧
      IsLeast (Sufficient data.length) (newLen data.length) ∧
      paddedBuf stack data data.length = 0x80 ∧
      (∀ (other : Int → Byte) (p : Nat), p < newLen data.length →
        paddedBuf stack data p = paddedBuf other data p) ∧
      ∀ (otherStack : Int → Byte) (other : List Byte),
        8 * other.length < 2 ^ 64 →
          (paddedBuffer stack data = paddedBuffer otherStack other →
              data = other) ∧
            (paddedBuffer stack data <:+ paddedBuffer otherStack other →
              paddedBuffer stack data = paddedBuffer otherStack other) := by
  refine
    ⟨⟨append_pos _, append_le _⟩, isLeast_newLen fits,
      paddedBuf_marker stack data, ?_, ?_⟩
  · intro other p inside
    rw [← length_paddedBytes_eq_newLen fits] at inside
    rw [paddedBuf_eq stack data p inside, paddedBuf_eq other data p inside]
  · intro otherStack other otherFits
    rw [paddedBuffer_eq stack fits, paddedBuffer_eq otherStack otherFits]
    constructor
    · intro same
      exact eq_of_suffix fits otherFits (same ▸ List.suffix_rfl)
    · intro suffix
      rw [eq_of_suffix fits otherFits suffix]

theorem sha256_padding_abc :
    IsLeast (Sufficient 3) (newLen 3) ∧
      paddedBuf (fun _ => 0xff) [0x61, 0x62, 0x63] 3 = 0x80 :=
  ⟨(sha256_padding (fun _ => 0xff) [0x61, 0x62, 0x63] (by decide)).2.1,
    (sha256_padding (fun _ => 0xff) [0x61, 0x62, 0x63] (by decide)).2.2.1⟩

end CommonCode.Sha256
