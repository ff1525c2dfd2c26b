import CommonCode.Lib.CString

/-!
# Scanning and splitting strings of C

The conversion `%d` of `sscanf`, the bytes of an `int` in memory, and
`strtok`, which ends each token by overwriting the delimiter behind it.
-/

namespace CommonCode.Lib.CScan

open CommonCode.Lib.Bits
open CommonCode.Lib.CString

/-! ## Numbers -/

/-- `isspace` in the C locale. -/
def isSpace (byte : Byte) : Bool :=
  byte = char ' ' || (9 ≤ byte.toNat && byte.toNat ≤ 13)

/-- `isdigit`. -/
def isDigit (byte : Byte) : Bool := 48 ≤ byte.toNat && byte.toNat ≤ 57

/-- The optional sign in front of a number: whether it is a minus. -/
def scanSign : List Byte → Bool × List Byte
  | [] => (false, [])
  | byte :: rest =>
      if byte = char '-' then (true, rest)
      else if byte = char '+' then (false, rest)
      else (false, byte :: rest)

/-- `strtol` saturates at the range of a 64-bit `long`. -/
def saturate (value : Int) : Int := max (-2 ^ 63) (min (2 ^ 63 - 1) value)

/--
The conversion `%d` of `sscanf`: the stored `int` and the text behind it, or
`none` when there is no number.  Out-of-range numbers are converted as by
`strtol` and truncated.
-/
def scanInt (text : List Byte) : Option (BitVec 32 × List Byte) :=
  let signed := scanSign (text.dropWhile isSpace)
  let digits := signed.2.takeWhile isDigit
  let magnitude : Nat :=
    digits.foldl (fun value digit => 10 * value + (digit.toNat - 48)) 0
  let value : Int := if signed.1 then -magnitude else magnitude
  if digits = [] then none
  else some (BitVec.ofInt 32 (saturate value), signed.2.dropWhile isDigit)

/-- The bytes of an `int` in memory, least significant first. -/
def intBytes (value : BitVec 32) : List Byte := (bytesMsbFirst 4 value).reverse

/-- The `int` at an offset. -/
def loadInt (memory : List Byte) (offset : Nat) : BitVec 32 :=
  bigEndian (memory.getD (offset + 3) 0) (memory.getD (offset + 2) 0)
    (memory.getD (offset + 1) 0) (memory.getD offset 0)

/-! ## Tokens -/

/--
One call of `strtok` that continues at `position`: the start of the token, if
there is one, the memory and the position at which the next call continues.
-/
def strtok (delimiters memory : List Byte) (position : Nat) :
    Except Fault (Option Nat × List Byte × Nat) := do
  let text ← cString (memory.drop position)
  let skipped := text.takeWhile (· ∈ delimiters)
  let token :=
    (text.dropWhile (· ∈ delimiters)).takeWhile (· ∉ delimiters)
  let start := position + skipped.length
  let stop := start + token.length
  if token = [] then return (none, memory, start)
  else if stop = position + text.length then
    return (some start, memory, stop)
  else return (some start, store memory stop [0], stop + 1)

/-- A found token moves the position on, and nothing is written outside. -/
theorem strtok_advances
    {delimiters memory after : List Byte} {position start next : Nat}
    (found : strtok delimiters memory position = .ok (some start, after, next)) :
    after.length = memory.length ∧ position < next := by
  rw [strtok] at found
  cases string : cString (memory.drop position) with
  | error fault => simp [string, bind, Except.bind] at found
  | ok text =>
      obtain ⟨rest, shape⟩ := eq_append_nul_of_cString string
      have inside : position + text.length < memory.length := by
        have total := congrArg List.length shape
        rw [List.length_drop, List.length_append, List.length_cons] at total
        omega
      simp only [string, bind, Except.bind] at found
      generalize shapeSkipped : text.takeWhile (· ∈ delimiters) = skipped at found
      generalize shapeToken :
        (text.dropWhile (· ∈ delimiters)).takeWhile (· ∉ delimiters) =
          token at found
      have bounded : skipped.length + token.length ≤ text.length := by
        rw [← shapeSkipped, ← shapeToken]
        calc
          _ ≤ (text.takeWhile (· ∈ delimiters)).length +
                (text.dropWhile (· ∈ delimiters)).length :=
              Nat.add_le_add_left (List.takeWhile_prefix _).length_le _
          _ = text.length := by
              rw [← List.length_append, List.takeWhile_append_dropWhile]
      split at found
      · simp [pure, Except.pure] at found
      · next nonempty =>
          have positive : 0 < token.length :=
            List.length_pos_iff.mpr nonempty
          split at found
          · simp only [pure, Except.pure, Except.ok.injEq, Prod.mk.injEq]
              at found
            obtain ⟨-, rfl, rfl⟩ := found
            exact ⟨rfl, by omega⟩
          · simp only [pure, Except.pure, Except.ok.injEq, Prod.mk.injEq]
              at found
            obtain ⟨-, rfl, rfl⟩ := found
            refine ⟨length_store ?_, by omega⟩
            rw [List.length_singleton]
            omega

/-! ## The tokens of a text -/

/-- The maximal parts of a text without delimiters. -/
def tokens (delimiters text : List Byte) : List (List Byte) :=
  (text.splitOnP (· ∈ delimiters)).filter (· ≠ [])

/--
A text after all calls of `strtok`: the delimiter behind each token is
overwritten.  `inside` says whether the text starts inside a token.
-/
def cut (delimiters : List Byte) : Bool → List Byte → List Byte
  | _, [] => []
  | inside, byte :: rest =>
      if byte ∈ delimiters then
        (if inside then 0 else byte) :: cut delimiters false rest
      else byte :: cut delimiters true rest

section Tokens

variable {delimiters : List Byte}

/-- What one call of `strtok` finds: nothing, a last token or another one. -/
theorem token_cases (delimiters text : List Byte) :
    (∀ byte ∈ text, byte ∈ delimiters) ∨
      ∃ skipped token rest,
        text = skipped ++ token ++ rest ∧
        (∀ byte ∈ skipped, byte ∈ delimiters) ∧ token ≠ [] ∧
        (∀ byte ∈ token, byte ∉ delimiters) ∧
        (rest = [] ∨ ∃ delimiter more, delimiter ∈ delimiters ∧
          rest = delimiter :: more) := by
  induction text with
  | nil => exact Or.inl (by simp)
  | cons byte text induction =>
      by_cases delimiter : byte ∈ delimiters
      · rcases induction with none | found
        · exact Or.inl (List.forall_mem_cons.mpr ⟨delimiter, none⟩)
        · obtain ⟨skipped, token, rest, shape, skip, more⟩ := found
          refine Or.inr ⟨byte :: skipped, token, rest, ?_, ?_, more⟩
          · rw [shape, List.cons_append, List.cons_append]
          · exact List.forall_mem_cons.mpr ⟨delimiter, skip⟩
      · refine Or.inr ⟨[], ?_⟩
        rcases induction with none | found
        · cases text with
          | nil =>
              refine ⟨[byte], [], by simp, by simp, by simp, ?_, Or.inl rfl⟩
              simpa using delimiter
          | cons next text =>
              rw [List.forall_mem_cons] at none
              refine ⟨[byte], next :: text, by simp, by simp, by simp, ?_,
                Or.inr ⟨next, text, none.1, rfl⟩⟩
              simpa using delimiter
        · obtain ⟨skipped, token, rest, shape, skip, nonempty, plain, end'⟩ :=
            found
          cases skipped with
          | nil =>
              refine ⟨byte :: token, rest, by simp [shape], by simp, by simp,
                ?_, end'⟩
              exact List.forall_mem_cons.mpr ⟨delimiter, plain⟩
          | cons next skipped =>
              rw [List.forall_mem_cons] at skip
              refine ⟨[byte], next :: (skipped ++ token ++ rest),
                by simp [shape], by simp, by simp, ?_,
                Or.inr ⟨next, _, skip.1, rfl⟩⟩
              simpa using delimiter

theorem tokens_skip {skipped : List Byte}
    (skip : ∀ byte ∈ skipped, byte ∈ delimiters) (text : List Byte) :
    tokens delimiters (skipped ++ text) = tokens delimiters text := by
  induction skipped with
  | nil => rfl
  | cons byte skipped induction =>
      rw [List.forall_mem_cons] at skip
      rw [← induction skip.2, tokens, tokens, List.cons_append,
        List.splitOnP_cons_eq_if_modifyHead]
      simp [skip.1]

theorem tokens_of_delimiters {text : List Byte}
    (only : ∀ byte ∈ text, byte ∈ delimiters) :
    tokens delimiters text = [] := by
  have skipped := tokens_skip only []
  rwa [List.append_nil] at skipped

theorem tokens_last {token : List Byte} (nonempty : token ≠ [])
    (plain : ∀ byte ∈ token, byte ∉ delimiters) :
    tokens delimiters token = [token] := by
  rw [tokens, List.splitOnP_eq_singleton (by simpa using plain)]
  simp [nonempty]

theorem tokens_cons {token : List Byte} (nonempty : token ≠ [])
    (plain : ∀ byte ∈ token, byte ∉ delimiters) {delimiter : Byte}
    (stop : delimiter ∈ delimiters) (rest : List Byte) :
    tokens delimiters (token ++ delimiter :: rest) =
      token :: tokens delimiters rest := by
  rw [tokens, List.splitOnP_append_cons_of_forall_mem (by simpa using plain)
    delimiter (by simpa using stop)]
  simp [nonempty, tokens]

/-- A token consists of bytes of the text, and none of them is a delimiter. -/
theorem of_mem_tokens {text token : List Byte}
    (member : token ∈ tokens delimiters text) :
    token ⊆ text ∧ ∀ byte ∈ token, byte ∉ delimiters := by
  induction size : text.length using Nat.strong_induction_on
    generalizing text with
  | h length induction =>
      rcases token_cases delimiters text with
        only | ⟨skipped, first, rest, rfl, skip, nonempty, plain, ends⟩
      · rw [tokens_of_delimiters only] at member
        cases member
      · rcases ends with rfl | ⟨delimiter, more, stop, rfl⟩
        · rw [List.append_nil, tokens_skip skip,
            tokens_last nonempty plain, List.mem_singleton] at member
          subst member
          exact ⟨fun byte inside => by simp [inside], plain⟩
        · rw [List.append_assoc, tokens_skip skip,
            tokens_cons nonempty plain stop, List.mem_cons] at member
          rcases member with rfl | later
          · exact ⟨fun byte inside => by simp [inside], plain⟩
          · have shorter : more.length < length := by
              rw [← size]
              simp only [List.length_append, List.length_cons]
              omega
            obtain ⟨inside, plain'⟩ :=
              induction more.length shorter later rfl
            exact ⟨fun byte there => by simp [inside there], plain'⟩

theorem cut_skip {skipped : List Byte}
    (skip : ∀ byte ∈ skipped, byte ∈ delimiters) (text : List Byte) :
    cut delimiters false (skipped ++ text) =
      skipped ++ cut delimiters false text := by
  induction skipped with
  | nil => rfl
  | cons byte skipped induction =>
      rw [List.forall_mem_cons] at skip
      rw [List.cons_append, cut, if_pos skip.1, induction skip.2]
      rfl

theorem cut_token {token : List Byte} (nonempty : token ≠ [])
    (plain : ∀ byte ∈ token, byte ∉ delimiters) (inside : Bool)
    (text : List Byte) :
    cut delimiters inside (token ++ text) =
      token ++ cut delimiters true text := by
  induction token generalizing inside with
  | nil => exact absurd rfl nonempty
  | cons byte token induction =>
      rw [List.forall_mem_cons] at plain
      rw [List.cons_append, cut, if_neg plain.1]
      cases token with
      | nil => rfl
      | cons next token =>
          rw [induction (by simp) plain.2]
          rfl

theorem length_cut (inside : Bool) (text : List Byte) :
    (cut delimiters inside text).length = text.length := by
  induction text generalizing inside with
  | nil => rfl
  | cons byte text induction =>
      rw [cut]
      split <;> simp [induction]

/-- A text keeps its bytes exactly if no delimiter stands behind a token. -/
theorem cut_eq_self_iff (zero : 0 ∉ delimiters) (text : List Byte) :
    cut delimiters false text = text ↔
      ∀ byte ∈ text.dropWhile (· ∈ delimiters), byte ∉ delimiters := by
  rcases token_cases delimiters text with
    only | ⟨skipped, token, rest, rfl, skip, nonempty, plain, ends⟩
  · have kept := cut_skip only []
    rw [List.append_nil, cut, List.append_nil] at kept
    have left : text.dropWhile (· ∈ delimiters) = [] :=
      List.dropWhile_eq_nil_iff.mpr (by simpa using only)
    simp [kept, left]
  · have left :
        (skipped ++ token ++ rest).dropWhile (· ∈ delimiters) =
          token ++ rest := by
      obtain ⟨first, token, rfl⟩ := List.exists_cons_of_ne_nil nonempty
      have start : first ∉ delimiters := plain first (List.mem_cons_self ..)
      rw [List.append_assoc,
        List.dropWhile_append_of_pos (by simpa using skip), List.cons_append,
        List.dropWhile_cons_of_neg (by simpa using start)]
    rw [left, List.append_assoc, cut_skip skip, cut_token nonempty plain,
      List.append_right_inj, List.append_right_inj]
    rcases ends with rfl | ⟨delimiter, more, stop, rfl⟩
    · simpa [cut] using plain
    · have apart : ¬ (0 : Byte) = delimiter := by
        rintro rfl
        exact zero stop
      constructor
      · intro same
        rw [cut, if_pos stop] at same
        exact absurd (List.cons.inj same).1 apart
      · intro none
        exact absurd stop (none delimiter (by simp))

/-- The two scans of `strtok`. -/
theorem scan_token {skipped token rest : List Byte}
    (skip : ∀ byte ∈ skipped, byte ∈ delimiters) (nonempty : token ≠ [])
    (plain : ∀ byte ∈ token, byte ∉ delimiters)
    (ends : rest = [] ∨ ∃ delimiter more, delimiter ∈ delimiters ∧
      rest = delimiter :: more) :
    (skipped ++ token ++ rest).takeWhile (· ∈ delimiters) = skipped ∧
      ((skipped ++ token ++ rest).dropWhile (· ∈ delimiters)).takeWhile
        (· ∉ delimiters) = token := by
  have skips : ∀ byte ∈ skipped, decide (byte ∈ delimiters) = true := by
    simpa using skip
  have plains : ∀ byte ∈ token, decide (byte ∉ delimiters) = true := by
    simpa using plain
  have behind : rest.takeWhile (fun byte => decide (byte ∉ delimiters)) = [] := by
    rcases ends with rfl | ⟨delimiter, more, stop, rfl⟩
    · rfl
    · exact List.takeWhile_cons_of_neg (by simpa using stop)
  obtain ⟨first, token, rfl⟩ := List.exists_cons_of_ne_nil nonempty
  have start : first ∉ delimiters := plain first (List.mem_cons_self ..)
  constructor
  · rw [List.append_assoc, List.takeWhile_append_of_pos skips,
      List.cons_append, List.takeWhile_cons_of_neg (by simpa using start),
      List.append_nil]
  · rw [List.append_assoc, List.dropWhile_append_of_pos skips,
      List.cons_append, List.dropWhile_cons_of_neg (by simpa using start),
      ← List.cons_append, List.takeWhile_append_of_pos plains, behind,
      List.append_nil]

variable {front text behind : List Byte}

theorem cString_inside (nulFree : 0 ∉ text) :
    cString ((front ++ (text ++ 0 :: behind)).drop front.length) =
      .ok text := by
  rw [List.drop_left, cString_append_nul nulFree]

/-- Without a token left `strtok` returns a null pointer. -/
theorem strtok_none (nulFree : 0 ∉ text)
    (only : ∀ byte ∈ text, byte ∈ delimiters) :
    strtok delimiters (front ++ (text ++ 0 :: behind)) front.length =
      .ok (none, front ++ (text ++ 0 :: behind),
        front.length + text.length) := by
  have all : text.takeWhile (· ∈ delimiters) = text :=
    List.takeWhile_eq_self_iff.mpr (by simpa using only)
  have left : text.dropWhile (· ∈ delimiters) = [] :=
    List.dropWhile_eq_nil_iff.mpr (by simpa using only)
  rw [strtok, cString_inside nulFree]
  simp only [bind, Except.bind, all, left, List.takeWhile_nil, if_pos]
  rfl

/-- The last token ends with the text, and nothing is written. -/
theorem strtok_last {skipped token : List Byte}
    (nulFree : 0 ∉ skipped ++ token)
    (skip : ∀ byte ∈ skipped, byte ∈ delimiters) (nonempty : token ≠ [])
    (plain : ∀ byte ∈ token, byte ∉ delimiters) :
    strtok delimiters (front ++ (skipped ++ token ++ 0 :: behind))
        front.length =
      .ok (some (front.length + skipped.length),
        front ++ (skipped ++ token ++ 0 :: behind),
        front.length + (skipped ++ token).length) := by
  have none : ([] : List Byte) = [] := rfl
  have scans := scan_token skip nonempty plain (Or.inl none)
  rw [List.append_nil] at scans
  rw [strtok, cString_inside nulFree]
  simp only [bind, Except.bind, scans.1, scans.2]
  rw [if_neg nonempty, if_pos (by rw [List.length_append]; omega),
    List.length_append, Nat.add_assoc]
  rfl

/-- Behind another token the delimiter is overwritten. -/
theorem strtok_cut {skipped token rest : List Byte} {delimiter : Byte}
    (nulFree : 0 ∉ skipped ++ token ++ delimiter :: rest)
    (skip : ∀ byte ∈ skipped, byte ∈ delimiters) (nonempty : token ≠ [])
    (plain : ∀ byte ∈ token, byte ∉ delimiters)
    (stop : delimiter ∈ delimiters) :
    strtok delimiters
        (front ++ (skipped ++ token ++ delimiter :: rest ++ 0 :: behind))
        front.length =
      .ok (some (front.length + skipped.length),
        (front ++ skipped ++ token ++ [0]) ++ (rest ++ 0 :: behind),
        (front ++ skipped ++ token ++ [0]).length) := by
  have scans :=
    scan_token skip nonempty plain (Or.inr ⟨delimiter, rest, stop, rfl⟩)
  have more :
      front.length + skipped.length + token.length ≠
        front.length + (skipped ++ token ++ delimiter :: rest).length := by
    simp only [List.length_append, List.length_cons]
    omega
  have written :
      store (front ++ (skipped ++ token ++ delimiter :: rest ++ 0 :: behind))
          (front.length + skipped.length + token.length) [0] =
        (front ++ skipped ++ token ++ [0]) ++ (rest ++ 0 :: behind) := by
    have split :
        front ++ (skipped ++ token ++ delimiter :: rest ++ 0 :: behind) =
          (front ++ skipped ++ token) ++ [delimiter] ++
            (rest ++ 0 :: behind) := by
      simp
    have place :
        front.length + skipped.length + token.length =
          (front ++ skipped ++ token).length + 0 := by
      simp [Nat.add_assoc]
    rw [split, place, store_middle (by simp)]
    simp [store]
  rw [strtok, cString_inside nulFree]
  simp only [bind, Except.bind, scans.1, scans.2]
  rw [if_neg nonempty, if_neg more, written]
  simp only [List.length_append, List.length_singleton, pure, Except.pure]

end Tokens

/-! ## An integer in memory -/

/-- A register put together from its bytes. -/
theorem bigEndian_bytes (value : BitVec 32) {b0 b1 b2 b3 : Byte}
    (bytes : bytesMsbFirst 4 value = [b0, b1, b2, b3]) :
    bigEndian b0 b1 b2 b3 = value := by
  have bits : bitsOfRegister (bigEndian b0 b1 b2 b3) = bitsOfRegister value := by
    rw [← bytesBits_four, ← bytes, bytesBits_bytesMsbFirst rfl]
  rw [← registerOfBits_bitsOfRegister (bigEndian b0 b1 b2 b3), bits,
    registerOfBits_bitsOfRegister]

/-- A stored integer is read back. -/
theorem loadInt_append (front behind : List Byte) (value : BitVec 32) :
    loadInt (front ++ (intBytes value ++ behind)) front.length = value := by
  obtain ⟨b0, b1, b2, b3, bytes⟩ :
      ∃ b0 b1 b2 b3, bytesMsbFirst 4 value = [b0, b1, b2, b3] :=
    ⟨_, _, _, _, rfl⟩
  have stored (i : Nat) :
      (front ++ (intBytes value ++ behind)).getD (front.length + i) 0 =
        (intBytes value ++ behind).getD i 0 := by
    rw [List.getD_append_right _ _ _ _ (Nat.le_add_right ..),
      Nat.add_sub_cancel_left]
  have first := stored 0
  rw [Nat.add_zero] at first
  rw [loadInt, stored, stored, stored, first, intBytes, bytes]
  exact bigEndian_bytes value bytes

/-- An integer is read from its four bytes. -/
theorem loadInt_of_slice
    {before after : List Byte} {offset : Nat}
    (same : (after.drop offset).take 4 = (before.drop offset).take 4) :
    loadInt after offset = loadInt before offset := by
  have byte (memory : List Byte) (i : Nat) (low : i < 4) :
      memory.getD (offset + i) 0 = ((memory.drop offset).take 4).getD i 0 := by
    simp [List.getD_eq_getElem?_getD, List.getElem?_take_of_lt low]
  have agree (i : Nat) (low : i < 4) :
      after.getD (offset + i) 0 = before.getD (offset + i) 0 := by
    rw [byte after i low, byte before i low, same]
  have first := agree 0 (by omega)
  rw [Nat.add_zero] at first
  rw [loadInt, loadInt, agree 3 (by omega), agree 2 (by omega),
    agree 1 (by omega), first]

theorem length_intBytes (value : BitVec 32) : (intBytes value).length = 4 := by
  rw [intBytes, List.length_reverse, length_bytesMsbFirst]

end CommonCode.Lib.CScan
