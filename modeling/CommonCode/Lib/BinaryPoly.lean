import CommonCode.Lib.Bits

/-!
# Bit vectors and bit strings as polynomials over GF(2)

A register of `width` bits is read as the polynomial whose coefficient of
`X ^ i` is bit `i`.  A bit string is read most significant bit first, so that
its first element is the coefficient of the highest power.  Exclusive or is
then addition, and a left shift is multiplication by `X` up to the bit that
falls out of the register.

The second half of the module is about the ring of remainders modulo a monic
polynomial: two residues are compared by divisibility of their difference, and
a polynomial with a nonzero constant coefficient is coprime to every power of
`X`.
-/

noncomputable section

open Polynomial

namespace CommonCode.Lib.BinaryPoly

open CommonCode.Lib.Bits

/-! ## Single bits -/

/-- The GF(2) element of a bit. -/
def bitCoeff (bit : Bool) : ZMod 2 :=
  if bit then 1 else 0

@[simp]
theorem bitCoeff_false : bitCoeff false = 0 := rfl

@[simp]
theorem bitCoeff_true : bitCoeff true = 1 := rfl

@[simp]
theorem bitCoeff_xor (left right : Bool) :
    bitCoeff (left ^^ right) = bitCoeff left + bitCoeff right := by
  cases left <;> cases right <;> decide

theorem bitCoeff_injective : Function.Injective bitCoeff := by
  intro left right equal
  cases left <;> cases right <;> simp_all [bitCoeff]

/-! ## Registers -/

/-- The polynomial of a register: bit `i` is the coefficient of `X ^ i`. -/
def toPoly {width : Nat} (register : BitVec width) : (ZMod 2)[X] :=
  ∑ i ∈ Finset.range width, C (bitCoeff (register.getLsbD i)) * X ^ i

@[simp]
theorem coeff_toPoly {width : Nat} (register : BitVec width) (i : Nat) :
    (toPoly register).coeff i = bitCoeff (register.getLsbD i) := by
  simp only [toPoly, finsetSum_coeff, coeff_C_mul, coeff_X_pow]
  by_cases inside : i < width
  · simp [inside]
  · have outside : register.getLsbD i = false :=
      BitVec.getLsbD_of_ge register i (Nat.le_of_not_lt inside)
    simp [inside, outside]

theorem toPoly_injective {width : Nat} :
    Function.Injective (toPoly : BitVec width → (ZMod 2)[X]) := by
  intro left right equal
  apply BitVec.eq_of_getLsbD_eq
  intro i _
  apply bitCoeff_injective
  rw [← coeff_toPoly, ← coeff_toPoly, equal]

theorem degree_toPoly_lt {width : Nat} (register : BitVec width) :
    (toPoly register).degree < width := by
  rw [degree_lt_iff_coeff_zero]
  intro i above
  rw [coeff_toPoly, BitVec.getLsbD_of_ge register i above]
  rfl

@[simp]
theorem toPoly_zero {width : Nat} : toPoly (BitVec.ofNat width 0) = 0 := by
  ext i
  simp

@[simp]
theorem toPoly_xor {width : Nat} (left right : BitVec width) :
    toPoly (left ^^^ right) = toPoly left + toPoly right := by
  ext i
  simp

/-- A left shift that moves no bit out of the register. -/
theorem toPoly_shiftLeft_setWidth
    {narrow width shift : Nat}
    (register : BitVec narrow)
    (room : narrow + shift ≤ width) :
    toPoly (register.setWidth width <<< shift) =
      toPoly register * X ^ shift := by
  ext i
  rw [coeff_toPoly, coeff_mul_X_pow', BitVec.getLsbD_shiftLeft,
    BitVec.getLsbD_setWidth]
  by_cases low : i < shift
  · simp [low, Nat.not_le.mpr low]
  · have high : shift ≤ i := Nat.le_of_not_lt low
    rw [if_pos high, coeff_toPoly]
    by_cases inside : i < width
    · have shiftedInside : i - shift < width := by omega
      simp [low, inside, shiftedInside]
    · have outside : register.getLsbD (i - shift) = false :=
        BitVec.getLsbD_of_ge register (i - shift) (by omega)
      simp [inside, outside]

/-- A one-bit left shift loses exactly the top bit of the register. -/
theorem toPoly_shiftLeft_one
    {width : Nat} (register : BitVec width) :
    toPoly (register <<< 1) +
        C (bitCoeff register.msb) * X ^ width =
      toPoly register * X := by
  ext i
  rw [coeff_add, coeff_toPoly, coeff_C_mul_X_pow,
    BitVec.getLsbD_shiftLeft]
  cases i with
  | zero =>
      rw [coeff_mul_X_zero]
      cases width with
      | zero =>
          have outside : register.msb = false := by
            simp [BitVec.msb]
          simp [outside]
      | succ bound => simp
  | succ i =>
      rw [coeff_mul_X, coeff_toPoly]
      rcases Nat.lt_trichotomy (i + 1) width with below | exact | above
      · have apart : i + 1 ≠ width := Nat.ne_of_lt below
        simp [below, apart]
      · subst exact
        simp [BitVec.msb_eq_getLsbD_last]
      · have apart : i + 1 ≠ width := Nat.ne_of_gt above
        have outside : register.getLsbD i = false :=
          BitVec.getLsbD_of_ge register i (by omega)
        simp [apart, outside, Nat.not_lt.mpr above.le]

/-! ## Bit strings -/

/-- The polynomial of a bit string, its first bit the highest power. -/
def bitsPoly : List Bool → (ZMod 2)[X]
  | [] => 0
  | bit :: rest => C (bitCoeff bit) * X ^ rest.length + bitsPoly rest

@[simp]
theorem bitsPoly_nil : bitsPoly [] = 0 := rfl

theorem bitsPoly_append (front back : List Bool) :
    bitsPoly (front ++ back) =
      bitsPoly front * X ^ back.length + bitsPoly back := by
  induction front with
  | nil => simp
  | cons bit rest induction =>
      simp only [List.cons_append, bitsPoly, induction,
        List.length_append]
      ring

/-- The bit at position `i` of a string is the coefficient `i` from the end. -/
theorem coeff_bitsPoly (bits : List Bool) (i : Nat) :
    (bitsPoly bits).coeff i =
      bitCoeff (bits.reverse.getD i false) := by
  induction bits generalizing i with
  | nil => simp
  | cons bit rest induction =>
      rw [bitsPoly, coeff_add, coeff_C_mul_X_pow, induction,
        List.reverse_cons]
      rcases Nat.lt_trichotomy i rest.length with below | rfl | above
      · simp [List.getD, List.getElem?_append_left, below,
          Nat.ne_of_lt below]
      · simp [List.getD]
      · have outside : ([bit] : List Bool)[i - rest.length]? = none := by
          simp
          omega
        simp [List.getD, List.getElem?_append_right, above.le,
          Nat.ne_of_gt above, outside]

theorem bitsPoly_injective_of_length_eq
    {left right : List Bool}
    (sameLength : left.length = right.length)
    (equal : bitsPoly left = bitsPoly right) :
    left = right := by
  rw [← List.reverse_inj]
  apply List.ext_getElem (by simpa using sameLength)
  intro i insideLeft insideRight
  have bitEqual :
      bitCoeff (left.reverse.getD i false) =
        bitCoeff (right.reverse.getD i false) := by
    rw [← coeff_bitsPoly, ← coeff_bitsPoly, equal]
  have valueEqual := bitCoeff_injective bitEqual
  rwa [List.getD_eq_getElem _ _ insideLeft,
    List.getD_eq_getElem _ _ insideRight] at valueEqual

theorem degree_bitsPoly_lt (bits : List Bool) :
    (bitsPoly bits).degree < bits.length := by
  rw [degree_lt_iff_coeff_zero]
  intro i above
  have outside : bits.reverse.getD i false = false := by
    rw [List.getD_eq_default]
    simpa using above
  rw [coeff_bitsPoly, outside]
  rfl

@[simp]
theorem bitsPoly_bitsOfRegister {width : Nat} (register : BitVec width) :
    bitsPoly (bitsOfRegister register) = toPoly register := by
  ext i
  rw [coeff_bitsPoly, coeff_toPoly]
  by_cases inside : i < width
  · have position : i < (bitsOfRegister register).reverse.length := by
      simpa using inside
    have mirrored : width - 1 - (width - 1 - i) = i := by omega
    rw [List.getD_eq_getElem _ _ position, List.getElem_reverse,
      getElem_bitsOfRegister, length_bitsOfRegister, mirrored]
  · rw [List.getD_eq_default _ _ (by simpa using inside),
      BitVec.getLsbD_of_ge register i (Nat.le_of_not_lt inside)]

/-- The bitwise difference of two strings of one length is their sum. -/
theorem bitsPoly_zipWith_xor
    {left right : List Bool} (sameLength : left.length = right.length) :
    bitsPoly (left.zipWith (· ^^ ·) right) =
      bitsPoly left + bitsPoly right := by
  induction left generalizing right with
  | nil =>
      rw [List.eq_nil_of_length_eq_zero sameLength.symm]
      simp
  | cons bit rest induction =>
      cases right with
      | nil => simp at sameLength
      | cons other others =>
          have restLength : rest.length = others.length := by
            simpa using sameLength
          have zipLength :
              (rest.zipWith (· ^^ ·) others).length = rest.length := by
            rw [List.length_zipWith, ← restLength, min_self]
          rw [List.zipWith_cons_cons, bitsPoly, bitsPoly, bitsPoly,
            induction restLength, zipLength, ← restLength, bitCoeff_xor,
            C_add]
          ring

/-! ## Parity -/

/-- At one a bit string has the parity of its number of ones. -/
theorem eval_one_bitsPoly (bits : List Bool) :
    (bitsPoly bits).eval 1 = (bits.count true : ZMod 2) := by
  induction bits with
  | nil => simp
  | cons bit rest induction =>
      rw [bitsPoly, eval_add, induction]
      cases bit <;> simp [add_comm]

/-! ## Remainders modulo a monic polynomial -/

/-- In characteristic two a difference is a sum. -/
theorem sub_eq_add_gf2 (left right : (ZMod 2)[X]) :
    left - right = left + right := by
  rw [sub_eq_add_neg, CharTwo.neg_eq]

@[simp]
theorem add_self_gf2 (value : (ZMod 2)[X]) : value + value = 0 :=
  CharTwo.add_self_eq_zero value

/-- A representative of low degree is the remainder of its class. -/
theorem eq_modByMonic_of_dvd
    {modulus residue value : (ZMod 2)[X]}
    (monic : modulus.Monic)
    (small : residue.degree < modulus.degree)
    (congruent : modulus ∣ residue + value) :
    residue = value %ₘ modulus := by
  rw [← modByMonic_eq_of_dvd_sub monic
      (by rwa [sub_eq_add_gf2] : modulus ∣ residue - value)]
  exact ((modByMonic_eq_self_iff monic).mpr small).symm

/-- A polynomial with constant coefficient one is coprime to `X ^ exponent`. -/
theorem isCoprime_X_pow_of_coeff_zero
    {modulus : (ZMod 2)[X]}
    (constant : modulus.coeff 0 = 1)
    (exponent : Nat) :
    IsCoprime modulus (X ^ exponent) := by
  apply IsCoprime.pow_right
  refine ⟨1, -modulus.divX, ?_⟩
  have split := divX_mul_X_add modulus
  rw [constant, C_1] at split
  calc
    1 * modulus + -modulus.divX * X
        = modulus - modulus.divX * X := by ring
    _ = (modulus.divX * X + 1) - modulus.divX * X := by rw [split]
    _ = 1 := by ring

/--
A multiple of the modulus that is a shifted polynomial of smaller degree is
zero.  This is the algebraic heart of burst detection.
-/
theorem eq_zero_of_dvd_mul_X_pow
    {modulus value : (ZMod 2)[X]} {exponent : Nat}
    (constant : modulus.coeff 0 = 1)
    (small : value.degree < modulus.degree)
    (divides : modulus ∣ value * X ^ exponent) :
    value = 0 := by
  have coprime := isCoprime_X_pow_of_coeff_zero constant exponent
  have dividesValue : modulus ∣ value :=
    coprime.dvd_of_dvd_mul_right divides
  by_contra nonzero
  exact absurd (degree_le_of_dvd dividesValue nonzero) (not_le.mpr small)

end CommonCode.Lib.BinaryPoly

end
