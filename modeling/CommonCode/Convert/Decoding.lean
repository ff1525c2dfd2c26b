import CommonCode.Convert.DataFormat

/-!
# Decoding hexadecimal digits

`StringToHex` decodes a digit by one expression for digits of either case.  For
a lower-case letter the expression is 32 too large, which the mask of a pair of
digits removes.  A last digit without a partner is not masked, so a lower-case
letter there is decoded to a wrong value.
-/

namespace CommonCode.Convert

open CommonCode.Lib.Bits
open CommonCode.Lib.CString

/-! ## Digits -/

/-- A hexadecimal digit of either case. -/
def IsHexDigit (c : Byte) : Prop :=
  (48 ≤ c.toNat ∧ c.toNat ≤ 57) ∨ (65 ≤ c.toNat ∧ c.toNat ≤ 70) ∨
    (97 ≤ c.toNat ∧ c.toNat ≤ 102)

instance (c : Byte) : Decidable (IsHexDigit c) :=
  inferInstanceAs (Decidable (_ ∨ _))

/-- The value of a hexadecimal digit. -/
def digitValue (c : Byte) : Nat :=
  if c.toNat ≤ 57 then c.toNat - 48
  else if c.toNat ≤ 70 then c.toNat - 55
  else c.toNat - 87

/-- A lower-case letter. -/
def IsLower (c : Byte) : Prop := 97 ≤ c.toNat ∧ c.toNat ≤ 122

instance (c : Byte) : Decidable (IsLower c) :=
  inferInstanceAs (Decidable (_ ∧ _))

/-- The upper-case form of a character. -/
def toUpper (c : Byte) : Byte := if IsLower c then c - 32 else c

/-- The upper-case digit of a value. -/
def upperDigit (value : Nat) : Byte := hexEncode.getD value 0

theorem decodeDigit_masked :
    ∀ c : Byte, IsHexDigit c →
      BitVec.ofInt 8 (decodeDigit c) &&& 0x0f =
        BitVec.ofNat 8 (digitValue c) := by
  decide

theorem decodeDigit_exact_iff :
    ∀ c : Byte, IsHexDigit c →
      (BitVec.ofInt 8 (decodeDigit c) = BitVec.ofNat 8 (digitValue c) ↔
        ¬ IsLower c) := by
  decide

theorem digitValue_lt : ∀ c : Byte, IsHexDigit c → digitValue c < 16 := by
  decide

theorem upperDigit_digitValue :
    ∀ c : Byte, IsHexDigit c → upperDigit (digitValue c) = toUpper c := by
  decide

theorem digitValue_upperDigit :
    ∀ value < 16, IsHexDigit (upperDigit value) ∧
      ¬ IsLower (upperDigit value) ∧ digitValue (upperDigit value) = value ∧
      upperDigit value ≠ 0 := by
  decide

theorem nonzero_of_isHexDigit : ∀ c : Byte, IsHexDigit c → c ≠ 0 := by
  decide

/-- A pair of digits as a byte. -/
def pairByte (first second : Byte) : Byte :=
  BitVec.ofNat 8 (16 * digitValue first + digitValue second)

theorem joinNibbles_eq :
    ∀ high low : Fin 16,
      (BitVec.ofNat 8 high.val <<< 4 ||| BitVec.ofNat 8 low.val) =
        BitVec.ofNat 8 (16 * high.val + low.val) := by
  decide

theorem joinNibbles_decodeDigit
    {first second : Byte} (one : IsHexDigit first) (two : IsHexDigit second) :
    joinNibbles (BitVec.ofInt 8 (decodeDigit first))
        (BitVec.ofInt 8 (decodeDigit second)) = pairByte first second := by
  rw [joinNibbles, decodeDigit_masked first one, decodeDigit_masked second two]
  exact joinNibbles_eq ⟨_, digitValue_lt first one⟩
    ⟨_, digitValue_lt second two⟩

/-! ## The loop -/

/-- The bytes of complete pairs of digits. -/
def pairBytes : List Byte → List Byte
  | [] => []
  | [_] => []
  | first :: second :: rest => pairByte first second :: pairBytes rest

theorem length_pairBytes (digits : List Byte) :
    (pairBytes digits).length = digits.length / 2 := by
  fun_induction pairBytes digits with
  | case1 => rfl
  | case2 => simp
  | case3 first second rest induction =>
      rw [List.length_cons, induction]
      simp only [List.length_cons]
      omega

/-- The byte at the end of a front part. -/
theorem load_append (front : List Byte) (byte : Byte) (rest : List Byte) :
    load (front ++ byte :: rest) front.length = .ok byte := by
  simp [load]

theorem storeByte_eq
    {memory : List Byte} {offset : Nat} (inside : offset < memory.length)
    (byte : Byte) :
    storeByte memory offset byte = .ok (store memory offset [byte]) :=
  if_pos inside

/-- The loop stores the bytes of the pairs one after the other. -/
theorem stringToHexLoop_eq
    {front digits rest out : List Byte} {cnt : Nat}
    (valid : ∀ c ∈ digits, IsHexDigit c)
    (room : cnt + digits.length / 2 ≤ out.length) :
    stringToHexLoop (front ++ digits ++ rest) (digits.length / 2)
        front.length cnt out =
      .ok (front.length + 2 * (digits.length / 2), cnt + digits.length / 2,
        store out cnt (pairBytes digits)) := by
  induction digits using pairBytes.induct generalizing front cnt out with
  | case1 =>
      simp [stringToHexLoop, pairBytes, store]
  | case2 digit =>
      simp [stringToHexLoop, pairBytes, store]
  | case3 first second digits induction =>
      rw [List.forall_mem_cons, List.forall_mem_cons] at valid
      obtain ⟨one, two, others⟩ := valid
      have rounds :
          (first :: second :: digits).length / 2 = digits.length / 2 + 1 := by
        simp only [List.length_cons]
        omega
      have moved :
          front ++ (first :: second :: digits) ++ rest =
            (front ++ [first, second]) ++ digits ++ rest := by
        simp
      have loadFirst :
          load (front ++ [first, second] ++ digits ++ rest) front.length =
            .ok first := by
        rw [← moved, List.append_assoc]
        exact load_append front first _
      have loadSecond :
          load (front ++ [first, second] ++ digits ++ rest)
              (front.length + 1) = .ok second := by
        have shifted := load_append (front ++ [first]) second (digits ++ rest)
        rw [List.length_append, List.length_singleton] at shifted
        simpa using shifted
      rw [rounds] at room
      have size :
          (store out cnt [pairByte first second]).length = out.length :=
        length_store (by rw [List.length_singleton]; omega)
      have later :=
        @induction (front ++ [first, second])
          (store out cnt [pairByte first second]) (cnt + 1) others (by omega)
      have behind :
          store (store out cnt [pairByte first second]) (cnt + 1)
              (pairBytes digits) =
            store out cnt (pairByte first second :: pairBytes digits) :=
        store_behind (by omega)
      rw [List.length_append] at later
      rw [rounds, moved, stringToHexLoop, loadFirst]
      simp only [bind, Except.bind]
      rw [loadSecond]
      simp only
      rw [joinNibbles_decodeDigit one two, storeByte_eq (by omega)]
      simp only
      rw [show front.length + 2 = front.length + [first, second].length
        from rfl, later, behind, pairBytes]
      simp only [List.length_cons, List.length_nil, Except.ok.injEq,
        Prod.mk.injEq, and_true]
      omega

/-! ## The function -/

/-- The digits behind the complete pairs. -/
def unpaired (digits : List Byte) : List Byte :=
  digits.drop (2 * (digits.length / 2))

theorem unpaired_of_even {digits : List Byte} (even : digits.length % 2 = 0) :
    unpaired digits = [] :=
  List.drop_eq_nil_of_le (by omega)

theorem unpaired_of_odd {digits : List Byte} (odd : digits.length % 2 = 1) :
    ∃ front last, digits = front ++ [last] ∧
      front.length = 2 * (digits.length / 2) ∧ unpaired digits = [last] := by
  rcases List.eq_nil_or_concat digits with rfl | ⟨front, last, rfl⟩
  · exact absurd odd (by decide)
  · rw [List.concat_eq_append, List.length_append, List.length_singleton]
      at odd
    have even : front.length = 2 * ((front ++ [last]).length / 2) := by
      rw [List.length_append, List.length_singleton]
      omega
    refine ⟨front, last, List.concat_eq_append .., ?_, ?_⟩
    · rwa [List.concat_eq_append]
    · rw [List.concat_eq_append, unpaired, ← even, List.drop_left]

theorem toInt_ofNat_of_lt {length : Nat} (small : length < 2 ^ 31) :
    (BitVec.ofNat 32 length).toInt = length := by
  have whole : (BitVec.ofNat 32 length).toNat = length :=
    Nat.mod_eq_of_lt (by omega)
  rw [BitVec.toInt_eq_toNat_of_lt (by rw [whole]; omega), whole]

/-- What the function leaves for every string of digits. -/
theorem stringToHex_eq
    {digits rest out : List Byte} {outlen : Option Int}
    (valid : ∀ c ∈ digits, IsHexDigit c) (small : digits.length < 2 ^ 31)
    (room : (digits.length + 1) / 2 ≤ out.length) :
    stringToHex (digits ++ 0 :: rest) out outlen =
      .ok (((digits.length + 1) / 2 : Nat),
        store out 0 (pairBytes digits ++
          (unpaired digits).map fun c => BitVec.ofInt 8 (decodeDigit c)),
        outlen.map fun _ => (((digits.length + 1) / 2 : Nat) : Int)) := by
  have nulFree : 0 ∉ digits := fun member =>
    nonzero_of_isHexDigit 0 (valid 0 member) rfl
  have loop :=
    @stringToHexLoop_eq [] digits (0 :: rest) out 0 valid (by omega)
  have quotient : (digits.length : Int).tdiv 2 = (digits.length : Int) / 2 :=
    Int.tdiv_eq_ediv_of_nonneg (Int.natCast_nonneg _)
  have remainder : (digits.length : Int).tmod 2 = (digits.length : Int) % 2 :=
    Int.tmod_eq_emod_of_nonneg (Int.natCast_nonneg _)
  have half : ((digits.length : Int) / 2).toNat = digits.length / 2 := by
    omega
  have total :
      (digits.length : Int) / 2 + (digits.length : Int) % 2 =
        (((digits.length + 1) / 2 : Nat) : Int) := by
    omega
  rw [stringToHex, cString_append_nul nulFree]
  simp only [bind, Except.bind, toInt_ofNat_of_lt small, quotient, remainder,
    half, total]
  rw [List.nil_append, List.length_nil, Nat.zero_add, Nat.zero_add] at loop
  rw [loop]
  simp only
  rcases Nat.mod_two_eq_zero_or_one digits.length with even | odd
  · rw [if_neg (by omega), unpaired_of_even even, List.map_nil,
      List.append_nil]
    rfl
  · obtain ⟨front, last, shape, size, single⟩ := unpaired_of_odd odd
    have position : load (digits ++ 0 :: rest) (2 * (digits.length / 2)) =
        .ok last := by
      rw [← size, shape, List.append_assoc]
      exact load_append front last _
    have count := length_pairBytes digits
    have stored :
        (store out 0 (pairBytes digits)).length = out.length :=
      length_store (by omega)
    have behind :
        store (store out 0 (pairBytes digits)) (digits.length / 2)
            [BitVec.ofInt 8 (decodeDigit last)] =
          store out 0
            (pairBytes digits ++ [BitVec.ofInt 8 (decodeDigit last)]) := by
      have joined :=
        @store_behind out (pairBytes digits)
          [BitVec.ofInt 8 (decodeDigit last)] 0 (Nat.zero_le _)
      rwa [count, Nat.zero_add] at joined
    rw [if_pos (by omega), position]
    simp only
    rw [storeByte_eq (by omega), behind, single]
    rfl

/-- The returned value for a string of any length. -/
theorem returned_of_stringToHex
    {text rest out after : List Byte} {outlen left : Option Int}
    {returned : Int} (nulFree : 0 ∉ text)
    (run : stringToHex (text ++ 0 :: rest) out outlen =
      .ok (returned, after, left)) :
    returned =
      (BitVec.ofNat 32 text.length).toInt.tdiv 2 +
        (BitVec.ofNat 32 text.length).toInt.tmod 2 := by
  rw [stringToHex, cString_append_nul nulFree] at run
  rw [bind_eq_ok_iff] at run
  obtain ⟨text', same, run⟩ := run
  cases same
  rw [bind_eq_ok_iff] at run
  obtain ⟨⟨p, cnt, out⟩, -, run⟩ := run
  dsimp only at run
  split at run
  · rw [bind_eq_ok_iff] at run
    obtain ⟨last, -, run⟩ := run
    rw [bind_eq_ok_iff] at run
    obtain ⟨written, -, run⟩ := run
    exact (congrArg Prod.fst (Except.ok.inj run)).symm
  · exact (congrArg Prod.fst (Except.ok.inj run)).symm

theorem tdiv_add_tmod_nonpos {value : Int} (negative : value ≤ 0) :
    value.tdiv 2 + value.tmod 2 ≤ 0 := by
  have positive : 0 ≤ -value := by omega
  rw [← Int.neg_neg value, Int.neg_tdiv, Int.neg_tmod,
    Int.tdiv_eq_ediv_of_nonneg positive, Int.tmod_eq_emod_of_nonneg positive]
  omega

/-- A length that does not fit an `int` is not returned. -/
theorem length_lt_of_computed
    {length : Nat}
    (same :
      (((length + 1) / 2 : Nat) : Int) =
        (BitVec.ofNat 32 length).toInt.tdiv 2 +
          (BitVec.ofNat 32 length).toInt.tmod 2) :
    length < 2 ^ 31 := by
  by_contra large
  have whole : (BitVec.ofNat 32 length).toNat = length % 2 ^ 32 := rfl
  rcases lt_or_ge (BitVec.ofNat 32 length).toInt 0 with negative | positive
  · have below := tdiv_add_tmod_nonpos negative.le
    omega
  · rw [Int.tdiv_eq_ediv_of_nonneg positive, Int.tmod_eq_emod_of_nonneg positive,
      BitVec.toInt_eq_toNat_cond, whole] at same
    split at same
    · omega
    · omega

/-! ## Every string of digits -/

/-- The bytes that a string of digits stands for. -/
def hexBytes : List Byte → List Byte
  | [] => []
  | [digit] => [BitVec.ofNat 8 (digitValue digit)]
  | first :: second :: rest => pairByte first second :: hexBytes rest

theorem hexBytes_eq (digits : List Byte) :
    hexBytes digits =
      pairBytes digits ++
        (unpaired digits).map fun c => BitVec.ofNat 8 (digitValue c) := by
  induction digits using pairBytes.induct with
  | case1 => rfl
  | case2 digit => simp [hexBytes, pairBytes, unpaired]
  | case3 first second rest induction =>
      have position :
          2 * ((first :: second :: rest).length / 2) =
            2 * (rest.length / 2) + 2 := by
        simp only [List.length_cons]
        omega
      have same : unpaired (first :: second :: rest) = unpaired rest := by
        rw [unpaired, position]
        rfl
      rw [hexBytes, induction, pairBytes, same, List.cons_append]

theorem take_store_zero
    {memory bytes : List Byte} {count : Nat} (size : bytes.length = count) :
    (store memory 0 bytes).take count = bytes := by
  rw [store, List.take_zero, List.nil_append, List.take_left' size]

/--
`StringToHex` returns and stores the number of bytes and leaves the bytes that
the digits stand for in `out`.
-/
def Decodes (digits rest out : List Byte) (outlen : Option Int) : Prop :=
  ∃ after,
    stringToHex (digits ++ 0 :: rest) out outlen =
        .ok (((digits.length + 1) / 2 : Nat), after,
          outlen.map fun _ => (((digits.length + 1) / 2 : Nat) : Int)) ∧
      after.take ((digits.length + 1) / 2) = hexBytes digits

/--
Digits are decoded exactly if their number fits an `int` and no lower-case
letter is left without a partner.
-/
theorem decodes_iff
    (digits rest out : List Byte) (outlen : Option Int)
    (valid : ∀ c ∈ digits, IsHexDigit c)
    (room : (digits.length + 1) / 2 ≤ out.length) :
    Decodes digits rest out outlen ↔
      digits.length < 2 ^ 31 ∧
        (digits.length % 2 = 1 → ∀ last ∈ digits.getLast?, ¬ IsLower last) := by
  have nulFree : 0 ∉ digits := fun member =>
    nonzero_of_isHexDigit 0 (valid 0 member) rfl
  by_cases small : digits.length < 2 ^ 31
  · have size :
        (pairBytes digits ++ (unpaired digits).map fun c =>
          BitVec.ofInt 8 (decodeDigit c)).length = (digits.length + 1) / 2 := by
      rw [List.length_append, length_pairBytes, List.length_map, unpaired,
        List.length_drop]
      omega
    rw [Decodes, stringToHex_eq valid small room]
    simp only [Except.ok.injEq, Prod.mk.injEq, true_and, and_true, small,
      exists_eq_left', take_store_zero size, hexBytes_eq,
      List.append_cancel_left_eq]
    rcases Nat.mod_two_eq_zero_or_one digits.length with even | odd
    · simp [unpaired_of_even even, even]
    · obtain ⟨front, last, shape, -, single⟩ := unpaired_of_odd odd
      have digit : IsHexDigit last := valid last (by rw [shape]; simp)
      have ends : digits.getLast? = some last := by
        rw [shape]
        simp
      rw [single, ends]
      simpa [odd] using decodeDigit_exact_iff last digit
  · constructor
    · rintro ⟨after, run, -⟩
      have computed := returned_of_stringToHex nulFree run
      exact absurd (length_lt_of_computed computed) small
    · rintro ⟨short, -⟩
      exact absurd short small

/-- Three upper-case digits. -/
theorem decodes_iff_three :
    (∀ c ∈ ascii "1AF", IsHexDigit c) ∧
      Decodes (ascii "1AF") [] [0, 0] (some 0) :=
  ⟨by decide,
    (decodes_iff (ascii "1AF") [] [0, 0] (some 0) (by decide)
      (by decide)).mpr (by decide)⟩

/-- A single lower-case letter is decoded to 42 instead of 10. -/
theorem lowerA_not_decodes :
    stringToHex (ascii "a" ++ [0]) [0] (some 0) = .ok (1, [0x2a], some 1) ∧
      ¬ Decodes (ascii "a") [] [0] (some 0) := by
  have run : stringToHex (ascii "a" ++ [0]) [0] (some 0) =
      .ok (1, [0x2a], some 1) := by decide
  refine ⟨run, ?_⟩
  rintro ⟨after, result, bytes⟩
  rw [run] at result
  have same : [0x2a] = after :=
    congrArg (fun step => step.2.1) (Except.ok.inj result)
  rw [← same] at bytes
  exact absurd bytes (by decide)

/-! ## Encoding and decoding -/

/-- The digits of a byte. -/
def upperPair (byte : Byte) : List Byte :=
  [upperDigit (byte >>> 4).toNat, upperDigit (byte &&& 0xf).toNat]

/-- The digits of bytes. -/
def hexText (bytes : List Byte) : List Byte := bytes.flatMap upperPair

theorem length_hexText (bytes : List Byte) :
    (hexText bytes).length = 2 * bytes.length := by
  induction bytes with
  | nil => rfl
  | cons byte bytes induction =>
      rw [hexText, List.flatMap_cons, List.length_append, ← hexText,
        induction, List.length_cons, upperPair]
      simp only [List.length_cons, List.length_nil]
      omega

theorem load_hexEncode :
    ∀ byte : Byte,
      load hexEncode ((byte >>> 4) &&& 0xf).toNat =
          .ok (upperDigit (byte >>> 4).toNat) ∧
        load hexEncode (byte &&& 0xf).toNat =
          .ok (upperDigit (byte &&& 0xf).toNat) := by
  decide

theorem hex2strLoop_eq
    {bytes output : List Byte} {j : Nat}
    (room : j + 2 * bytes.length ≤ output.length) :
    hex2strLoop bytes j output = .ok (store output j (hexText bytes)) := by
  induction bytes generalizing j output with
  | nil => simp [hex2strLoop, hexText, store]
  | cons byte bytes induction =>
      rw [List.length_cons] at room
      obtain ⟨high, low⟩ := load_hexEncode byte
      have size (digit : Byte) :
          (store output j [digit]).length = output.length :=
        length_store (by rw [List.length_singleton]; omega)
      have pair (first second : Byte) :
          store (store output j [first]) (j + 1) [second] =
            store output j [first, second] :=
        store_behind (by omega)
      have stored (first second : Byte) :
          (store output j [first, second]).length = output.length :=
        length_store (by simp only [List.length_cons, List.length_nil]; omega)
      have behind :
          store (store output j (upperPair byte)) (j + 2) (hexText bytes) =
            store output j (upperPair byte ++ hexText bytes) :=
        store_behind (by omega)
      rw [hex2strLoop, high]
      simp only [bind, Except.bind]
      rw [storeByte_eq (by omega), low]
      simp only
      rw [storeByte_eq (by rw [size]; omega), pair]
      simp only
      rw [induction (by rw [stored]; omega), ← upperPair, behind]
      rfl

/-- What `hex2str` leaves for every array of at most 65535 bytes. -/
theorem hex2str_eq
    {bytes output : List Byte} (short : bytes.length ≤ 65535)
    (room : 2 * bytes.length ≤ output.length) :
    hex2str bytes (BitVec.ofNat 16 bytes.length) output =
      .ok (store output 0 (hexText bytes)) := by
  have length : (BitVec.ofNat 16 bytes.length).toNat = bytes.length :=
    Nat.mod_eq_of_lt (by omega)
  rw [hex2str, length, if_pos (le_refl _), List.take_length,
    hex2strLoop_eq (by omega)]

theorem pairByte_upperPair :
    ∀ byte : Byte,
      pairByte (upperDigit (byte >>> 4).toNat)
        (upperDigit (byte &&& 0xf).toNat) = byte := by
  decide

theorem isHexDigit_upperPair (byte : Byte) :
    ∀ c ∈ upperPair byte, IsHexDigit c := by
  have high : (byte >>> 4).toNat < 16 := by
    rw [BitVec.toNat_ushiftRight, Nat.shiftRight_eq_div_pow]
    have bound := byte.isLt
    omega
  have low : (byte &&& 0xf).toNat < 16 := by
    rw [BitVec.toNat_and]
    exact Nat.lt_succ_of_le Nat.and_le_right
  intro c member
  rw [upperPair, List.mem_cons, List.mem_singleton] at member
  rcases member with rfl | rfl
  · exact (digitValue_upperDigit _ high).1
  · exact (digitValue_upperDigit _ low).1

theorem isHexDigit_hexText (bytes : List Byte) :
    ∀ c ∈ hexText bytes, IsHexDigit c := by
  intro c member
  obtain ⟨byte, -, digit⟩ := List.mem_flatMap.mp member
  exact isHexDigit_upperPair byte c digit

theorem pairBytes_hexText (bytes : List Byte) :
    pairBytes (hexText bytes) = bytes := by
  induction bytes with
  | nil => rfl
  | cons byte bytes induction =>
      change pairByte _ _ :: pairBytes (hexText bytes) = _
      rw [induction, pairByte_upperPair]

theorem upperPair_pairByte
    {first second : Byte} (one : IsHexDigit first) (two : IsHexDigit second) :
    upperPair (pairByte first second) = [toUpper first, toUpper second] := by
  have values :
      ∀ high low : Fin 16,
        upperPair (BitVec.ofNat 8 (16 * high.val + low.val)) =
          [upperDigit high.val, upperDigit low.val] := by
    decide
  rw [pairByte, values ⟨_, digitValue_lt first one⟩
    ⟨_, digitValue_lt second two⟩, upperDigit_digitValue first one,
    upperDigit_digitValue second two]

theorem hexText_pairBytes
    {digits : List Byte} (valid : ∀ c ∈ digits, IsHexDigit c)
    (even : digits.length % 2 = 0) :
    hexText (pairBytes digits) = digits.map toUpper := by
  induction digits using pairBytes.induct with
  | case1 => rfl
  | case2 digit => exact absurd even (by simp)
  | case3 first second rest induction =>
      rw [List.forall_mem_cons, List.forall_mem_cons] at valid
      have evenRest : rest.length % 2 = 0 := by
        simp only [List.length_cons] at even
        omega
      have rest' := induction valid.2.2 evenRest
      rw [pairBytes, hexText, List.flatMap_cons, ← hexText, rest',
        upperPair_pairByte valid.1 valid.2.1]
      rfl

/--
Decoding the digits of bytes returns the bytes, and encoding the bytes of an
even number of digits returns the digits in upper case.
-/
theorem hex_round_trip :
    (∀ bytes output rest out : List Byte, ∀ outlen : Option Int,
      bytes.length ≤ 65535 → 2 * bytes.length ≤ output.length →
      bytes.length ≤ out.length →
        ∃ text after,
          hex2str bytes (BitVec.ofNat 16 bytes.length) output = .ok text ∧
          stringToHex (text.take (2 * bytes.length) ++ 0 :: rest) out outlen =
            .ok (bytes.length, after,
              outlen.map fun _ => (bytes.length : Int)) ∧
          after.take bytes.length = bytes) ∧
    (∀ digits rest out output : List Byte, ∀ outlen : Option Int,
      (∀ c ∈ digits, IsHexDigit c) → digits.length % 2 = 0 →
      digits.length ≤ 131070 → digits.length / 2 ≤ out.length →
      digits.length ≤ output.length →
        ∃ after text,
          stringToHex (digits ++ 0 :: rest) out outlen =
            .ok ((digits.length / 2 : Nat), after,
              outlen.map fun _ => ((digits.length / 2 : Nat) : Int)) ∧
          hex2str (after.take (digits.length / 2))
              (BitVec.ofNat 16 (digits.length / 2)) output = .ok text ∧
          text.take digits.length = digits.map toUpper) := by
  constructor
  · intro bytes output rest out outlen short room space
    have size := length_hexText bytes
    have half : ((hexText bytes).length + 1) / 2 = bytes.length := by omega
    have decoded :=
      @stringToHex_eq (hexText bytes) rest out outlen
        (isHexDigit_hexText bytes) (by omega) (by omega)
    rw [unpaired_of_even (by omega), List.map_nil, List.append_nil,
      pairBytes_hexText, half] at decoded
    refine
      ⟨_, store out 0 bytes, hex2str_eq short room, ?_, take_store_zero rfl⟩
    rw [take_store_zero size]
    exact decoded
  · intro digits rest out output outlen valid even short space room
    have half : (digits.length + 1) / 2 = digits.length / 2 := by omega
    have decoded :=
      @stringToHex_eq digits rest out outlen valid (by omega) (by omega)
    rw [unpaired_of_even even, List.map_nil, List.append_nil, half] at decoded
    have count := length_pairBytes digits
    have encoded :=
      @hex2str_eq (pairBytes digits) output (by omega) (by omega)
    rw [hexText_pairBytes valid even, count] at encoded
    refine
      ⟨_, store output 0 (digits.map toUpper), decoded, ?_,
        take_store_zero (List.length_map ..)⟩
    rw [take_store_zero count]
    exact encoded

/-- The two bytes `0x1f 0xa0`. -/
theorem hex_round_trip_two_bytes :
    ∃ text after,
      hex2str [0x1f, 0xa0] 2 (List.replicate 4 0) = .ok text ∧
      stringToHex (text.take 4 ++ 0 :: []) [0, 0] none = .ok (2, after, none) ∧
      after.take 2 = [0x1f, 0xa0] :=
  hex_round_trip.1 [0x1f, 0xa0] (List.replicate 4 0) [] [0, 0] none (by decide)
    (by decide) (by decide)

end CommonCode.Convert
