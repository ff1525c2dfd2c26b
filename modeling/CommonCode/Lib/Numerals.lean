import CommonCode.Lib.CScan

/-!
# Texts of digits

The value of a text of decimal digits, with any number of zeros in front, and
how the number conversions of the C library read such a text in front of
another one.
-/

namespace CommonCode.Lib.Numerals

open CommonCode.Lib.Bits
open CommonCode.Lib.CString
open CommonCode.Lib.CScan

/-- All bytes are digits. -/
def AllDigits (text : List Byte) : Prop := ∀ byte ∈ text, isDigit byte = true

instance (text : List Byte) : Decidable (AllDigits text) :=
  inferInstanceAs (Decidable (∀ byte ∈ text, isDigit byte = true))

/-- The text does not continue a number in front of it. -/
def Stops (text : List Byte) : Prop :=
  ∀ byte, text.head? = some byte → isDigit byte = false

/-- The value of a text of digits. -/
def numeral (text : List Byte) : Nat :=
  text.foldl (fun value digit => 10 * value + (digit.toNat - 48)) 0

section Texts

variable {text rest : List Byte}

theorem takeWhile_digits (digits : AllDigits text) (stops : Stops rest) :
    (text ++ rest).takeWhile isDigit = text := by
  rw [List.takeWhile_append_of_pos digits]
  cases rest with
  | nil => simp
  | cons byte rest =>
      rw [List.takeWhile_cons_of_neg (by simp [stops byte rfl]),
        List.append_nil]

theorem dropWhile_digits (digits : AllDigits text) (stops : Stops rest) :
    (text ++ rest).dropWhile isDigit = rest := by
  rw [List.dropWhile_append_of_pos digits]
  cases rest with
  | nil => rfl
  | cons byte rest =>
      rw [List.dropWhile_cons_of_neg (by simp [stops byte rfl])]

theorem allDigits_append_iff :
    AllDigits (text ++ rest) ↔ AllDigits text ∧ AllDigits rest :=
  List.forall_mem_append

theorem numeral_concat (text : List Byte) (digit : Byte) :
    numeral (text ++ [digit]) = 10 * numeral text + (digit.toNat - 48) := by
  rw [numeral, List.foldl_append]
  rfl

theorem numeral_lt (digits : AllDigits text) :
    numeral text < 10 ^ text.length := by
  induction text using List.reverseRecOn with
  | nil => decide
  | append_singleton text digit induction =>
      rw [allDigits_append_iff] at digits
      have last : isDigit digit = true :=
        digits.2 digit (List.mem_singleton_self digit)
      have bound := induction digits.1
      rw [isDigit, Bool.and_eq_true, decide_eq_true_eq, decide_eq_true_eq]
        at last
      rw [numeral_concat, List.length_append, List.length_singleton,
        Nat.pow_succ]
      omega

/-- A digit is neither white space nor a sign. -/
theorem not_isSpace_of_isDigit {byte : Byte} (digit : isDigit byte = true) :
    isSpace byte = false ∧ byte ≠ char '-' ∧ byte ≠ char '+' := by
  revert digit
  revert byte
  decide

/-- Digits are read from the first one on. -/
theorem scanSign_digits (digits : AllDigits text) (nonempty : text ≠ []) :
    scanSign ((text ++ rest).dropWhile isSpace) = (false, text ++ rest) := by
  obtain ⟨first, more, rfl⟩ := List.exists_cons_of_ne_nil nonempty
  have digit := digits first (List.mem_cons_self ..)
  rcases not_isSpace_of_isDigit digit with ⟨visible, notMinus, notPlus⟩
  rw [List.cons_append, List.dropWhile_cons_of_neg (by simp [visible]),
    scanSign, if_neg notMinus, if_neg notPlus]

/-- The conversion `%d` of a text of digits. -/
theorem scanInt_digits (digits : AllDigits text) (nonempty : text ≠ [])
    (stops : Stops rest) :
    scanInt (text ++ rest) =
      some (BitVec.ofInt 32 (saturate (numeral text)), rest) := by
  rw [scanInt]
  simp only [scanSign_digits digits nonempty, takeWhile_digits digits stops,
    dropWhile_digits digits stops, if_neg nonempty]
  rfl

/-- A number that fits is read exactly. -/
theorem scanInt_small (digits : AllDigits text) (nonempty : text ≠ [])
    (stops : Stops rest) (small : numeral text < 2 ^ 31) :
    scanInt (text ++ rest) = some (BitVec.ofNat 32 (numeral text), rest) := by
  have exact : saturate (numeral text) = numeral text := by
    rw [saturate]
    omega
  rw [scanInt_digits digits nonempty stops, exact]
  rfl

end Texts

/-! ## Printed numbers -/

theorem digitsValue_decimal (n : Nat) :
    digitsValue 0 ((decimal n).map fun byte => byte.toNat - 48) = n := by
  rw [decimal]
  split
  · next zero =>
      rw [zero]
      rfl
  · have digits :
        ((Nat.digits 10 n).reverse.map fun digit =>
            (BitVec.ofNat 8 (48 + digit) : Byte)).map
              (fun byte => byte.toNat - 48) =
          (Nat.digits 10 n).reverse := by
      rw [List.map_map]
      refine (List.map_congr_left ?_).trans (List.map_id _)
      intro digit member
      have small : digit < 10 :=
        Nat.digits_lt_base (by omega) (List.mem_reverse.mp member)
      simp only [Function.comp_apply, BitVec.toNat_ofNat, id_eq]
      omega
    rw [digits, digitsValue_digits]

theorem numeral_decimal (n : Nat) : numeral (decimal n) = n := by
  have value := digitsValue_decimal n
  rw [digitsValue, List.foldl_map] at value
  rw [numeral]
  refine Eq.trans ?_ value
  congr 1
  funext value digit
  omega

theorem allDigits_decimal (n : Nat) : AllDigits (decimal n) := by
  intro byte member
  have bounds := mem_decimal member
  rw [isDigit, Bool.and_eq_true, decide_eq_true_eq, decide_eq_true_eq]
  omega

/-- Only the text of zero starts with a zero. -/
theorem head_decimal_ne {n : Nat} (positive : n ≠ 0) :
    (decimal n).head? ≠ some (char '0') := by
  have nonempty : Nat.digits 10 n ≠ [] :=
    Nat.digits_ne_nil_iff_ne_zero.mpr positive
  have last := Nat.getLast_digit_ne_zero 10 positive
  have small : (Nat.digits 10 n).getLast nonempty < 10 :=
    Nat.digits_lt_base (by omega) (List.getLast_mem nonempty)
  rw [decimal, if_neg positive, List.head?_map, List.head?_reverse,
    List.getLast?_eq_some_getLast nonempty, Option.map_some, ne_eq,
    Option.some.injEq]
  intro same
  have value := congrArg BitVec.toNat same
  change (BitVec.ofNat 8 _).toNat = 48 at value
  rw [BitVec.toNat_ofNat] at value
  omega

/-! ## Numbers in memory -/

/--
`atoi` of a pointer.  The conversion reads up to the first byte behind the
digits, which must lie inside the array.
-/
def atoi (memory : List Byte) : Except Fault (BitVec 32) :=
  let signed := scanSign (memory.dropWhile isSpace)
  let digits := signed.2.takeWhile isDigit
  let value : Int := if signed.1 then -numeral digits else numeral digits
  if signed.2.all isDigit then .error .outOfBounds
  else .ok (BitVec.ofInt 32 (saturate value))

/-- `atoi` reads on into what stands behind the digits of a number. -/
theorem atoi_digits {text : List Byte} (digits : AllDigits text)
    (nonempty : text ≠ []) (rest : List Byte) :
    atoi (text ++ rest) =
      if rest.all isDigit then .error .outOfBounds
      else
        .ok (BitVec.ofInt 32
          (saturate (numeral (text ++ rest.takeWhile isDigit)))) := by
  have all : (text ++ rest).all isDigit = rest.all isDigit := by
    rw [List.all_append, List.all_eq_true.mpr digits, Bool.true_and]
  rw [atoi]
  simp only [scanSign_digits digits nonempty, all,
    List.takeWhile_append_of_pos digits]
  rfl

end CommonCode.Lib.Numerals
