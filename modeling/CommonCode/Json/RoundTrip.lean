import CommonCode.Json.Parse

/-!
# Printed trees are parsed back

`parse_value` reads from a printed tree, and whatever follows it, the tree and
stops behind it.  The trees are those that the program can build: their strings
are strings of C and their numbers come from an `int`.
-/

namespace CommonCode.Json

open CommonCode.Lib.Bits
open CommonCode.Lib.CString
open CommonCode.Lib.CScan

/-! ## Strings -/

theorem hexValue_hexDigit {digit : Nat} (small : digit < 16) :
    hexValue (hexDigit digit) = some digit := by
  interval_cases digit <;> rfl

theorem parseHex4_hex4 (token : Byte) (rest : List Byte) :
    parseHex4 (hex4 token ++ rest) = token.toNat := by
  have bound := token.isLt
  have digit (number : Nat) :
      hexValue (hexDigit (number % 16)) = some (number % 16) :=
    hexValue_hexDigit (Nat.mod_lt _ (by omega))
  simp only [parseHex4, hex4, byteAt, List.cons_append, List.nil_append,
    List.drop_succ_cons, List.drop_zero, List.headD_cons, digit]
  omega

theorem utf8_of_lt {token : Byte} (small : token.toNat < 0x80) :
    utf8 token.toNat = [token] := by
  simp [utf8, small, firstByteMark, continuation]

theorem parseEscape_hex4 {token : Byte} (nonzero : token ≠ 0)
    (control : token.toNat ≤ 31) (rest : List Byte) :
    parseEscape (char 'u' :: hex4 token ++ rest) =
      ([token], hexDigit (token.toNat % 16) :: rest) := by
  have code := parseHex4_hex4 token rest
  have positive : token.toNat ≠ 0 := fun zero =>
    nonzero (BitVec.eq_of_toNat_eq zero)
  have low : ¬ (0xDC00 ≤ token.toNat ∧ token.toNat ≤ 0xDFFF ∨
      token.toNat = 0) := by
    omega
  have single : ¬ (0xD800 ≤ token.toNat ∧ token.toNat ≤ 0xDBFF) := by
    omega
  have head : byteAt (char 'u' :: hex4 token ++ rest) = char 'u' := rfl
  have last : (char 'u' :: hex4 token ++ rest).drop 4 =
      hexDigit (token.toNat % 16) :: rest := rfl
  simp only [parseEscape, head, last]
  rw [if_neg (by decide), if_neg (by decide), if_neg (by decide),
    if_neg (by decide), if_neg (by decide), if_pos trivial]
  simp only [List.cons_append, List.drop_succ_cons, List.drop_zero, code]
  rw [if_neg low, if_neg single, utf8_of_lt (by omega)]

/-- The sequences that `print_string_ptr` writes. -/
theorem parseEscape_escape {token : Byte} (nonzero : token ≠ 0)
    (special : token.toNat ≤ 31 ∨ token = char '"' ∨ token = char '\\')
    (rest : List Byte) :
    ∃ code last, escape token = char '\\' :: code ∧
      parseEscape (code ++ rest) = ([token], last :: rest) := by
  have guarded :
      ¬ (31 < token.toNat && token ≠ char '"' && token ≠ char '\\') := by
    rcases special with small | rfl | rfl
    · simp [Nat.not_lt.mpr small]
    · simp
    · simp
  rw [escape, if_neg guarded]
  by_cases backslash : token = char '\\'
  · subst backslash
    exact ⟨_, char '\\', rfl, rfl⟩
  by_cases quote : token = char '"'
  · subst quote
    exact ⟨_, char '"', rfl, rfl⟩
  by_cases named : token ∈ ([8, 12, 10, 13, 9] : List Byte)
  · fin_cases named
    · exact ⟨_, char 'b', rfl, rfl⟩
    · exact ⟨_, char 'f', rfl, rfl⟩
    · exact ⟨_, char 'n', rfl, rfl⟩
    · exact ⟨_, char 'r', rfl, rfl⟩
    · exact ⟨_, char 't', rfl, rfl⟩
  · simp only [List.mem_cons, List.not_mem_nil, or_false, not_or] at named
    rcases named with ⟨notB, notF, notN, notR, notT⟩
    have control : token.toNat ≤ 31 := by
      rcases special with small | same | same
      · exact small
      · exact absurd same quote
      · exact absurd same backslash
    rw [if_neg backslash, if_neg quote, if_neg notB, if_neg notF,
      if_neg notN, if_neg notR, if_neg notT]
    exact ⟨_, _, rfl, parseEscape_hex4 nonzero control rest⟩

/-- A byte of a printed string is read back. -/
theorem parseChars_escape {token : Byte} (nonzero : token ≠ 0)
    (rest : List Byte) :
    parseChars (escape token ++ rest) =
      (token :: (parseChars rest).1, (parseChars rest).2) := by
  by_cases special :
      token.toNat ≤ 31 ∨ token = char '"' ∨ token = char '\\'
  · rcases parseEscape_escape nonzero special rest
      with ⟨code, last, escaped, parsed⟩
    have start : ¬ (char '\\' = char '"' ∨ char '\\' = 0) := by decide
    rw [escaped, List.cons_append, parseChars, if_neg start, if_neg (by simp),
      parsed]
    rfl
  · simp only [not_or, Nat.not_le] at special
    rcases special with ⟨large, notQuote, notBackslash⟩
    have plain : escape token = [token] := by
      simp [escape, large, notQuote, notBackslash]
    rw [plain, List.singleton_append, parseChars,
      if_neg (not_or.mpr ⟨notQuote, nonzero⟩), if_pos notBackslash]

theorem parseChars_flatMap_escape {text : List Byte} (nulFree : 0 ∉ text)
    (rest : List Byte) :
    parseChars (text.flatMap escape ++ char '"' :: rest) =
      (text, char '"' :: rest) := by
  induction text with
  | nil =>
      rw [List.flatMap_nil, List.nil_append, parseChars, if_pos (Or.inl rfl)]
  | cons token text ih =>
      rw [List.mem_cons, not_or] at nulFree
      rw [List.flatMap_cons, List.append_assoc,
        parseChars_escape (Ne.symm nulFree.1), ih nulFree.2]

/-- Bytes that are not flagged stand for themselves. -/
theorem escape_of_not_flagged :
    ∀ token : Byte, token ≠ 0 → flagged token = false →
      escape token = [token] := by
  decide

/-- Both paths of `print_string_ptr` write the same. -/
theorem printStringPtr_eq {text : List Byte} (nulFree : 0 ∉ text) :
    printStringPtr text =
      char '"' :: (text.flatMap escape ++ [char '"']) := by
  rw [printStringPtr]
  split
  · rfl
  · rename_i clear
    have same : text.flatMap escape = text := by
      calc text.flatMap escape = text.flatMap (fun token => [token]) := by
            refine List.flatMap_congr fun token member => ?_
            apply escape_of_not_flagged
            · exact fun zero => nulFree (zero ▸ member)
            · simpa using fun flag => clear
                (List.any_eq_true.mpr ⟨token, member, flag⟩)
        _ = text := List.flatMap_singleton' text
    rw [same]

theorem parseString_printStringPtr {text : List Byte} (nulFree : 0 ∉ text)
    (rest : List Byte) :
    parseString (printStringPtr text ++ rest) = .ok (text, rest) := by
  rw [printStringPtr_eq nulFree]
  simp only [List.cons_append, List.append_assoc, List.nil_append]
  rw [parseString, if_neg (by simp [byteAt]), List.tail_cons,
    parseChars_flatMap_escape nulFree]
  simp [byteAt]

/-! ## Numbers -/

/-- What follows a number does not continue it. -/
structure Ends (rest : List Byte) : Prop where
  digit : isDigit (byteAt rest) = false
  point : byteAt rest ≠ char '.'
  lower : byteAt rest ≠ char 'e'
  upper : byteAt rest ≠ char 'E'

section Numbers

variable {Double : Type} {arithmetic : Arithmetic Double}

/-- The byte of a decimal digit. -/
def digitByte (digit : Nat) : Byte := BitVec.ofNat 8 (48 + digit)

theorem toNat_digitByte {digit : Nat} (small : digit < 10) :
    (digitByte digit).toNat = 48 + digit := by
  rw [digitByte, BitVec.toNat_ofNat]
  omega

theorem isDigit_digitByte {digit : Nat} (small : digit < 10) :
    isDigit (digitByte digit) = true := by
  simp only [isDigit, toNat_digitByte small, Bool.and_eq_true,
    decide_eq_true_eq]
  omega

theorem le_digitsValue (value : Nat) (digits : List Nat) :
    value ≤ digitsValue value digits := by
  induction digits generalizing value with
  | nil => exact Nat.le_refl value
  | cons digit digits ih =>
      have step := ih (value * 10 + digit)
      rw [digitsValue, List.foldl_cons, ← digitsValue]
      omega

/-- The loop over the digits computes their value without rounding. -/
theorem parseDigits_map (exact : arithmetic.Exact) {digits : List Nat}
    (small : ∀ digit ∈ digits, digit < 10) {value : Nat}
    (bound : digitsValue value digits ≤ 2 ^ 53) {rest : List Byte}
    (ends : Ends rest) :
    parseDigits arithmetic (arithmetic.ofInt value)
        (digits.map digitByte ++ rest) =
      (arithmetic.ofInt (digitsValue value digits), rest) := by
  induction digits generalizing value with
  | nil =>
      cases rest with
      | nil => rfl
      | cons byte rest =>
          have stop : isDigit byte = false := ends.digit
          simp [parseDigits, stop, digitsValue]
  | cons digit digits ih =>
      have next : digitsValue value (digit :: digits) =
          digitsValue (value * 10 + digit) digits := rfl
      have least := le_digitsValue (value * 10 + digit) digits
      have decimal : digit < 10 := small digit (List.mem_cons_self ..)
      have product : arithmetic.mul (arithmetic.ofInt value)
          (arithmetic.ofInt 10) = arithmetic.ofInt (value * 10) := by
        apply exact.mul
        · rw [Small]
          omega
        · rw [Small]
          omega
        · rw [Small]
          omega
        · omega
      have sum : arithmetic.add (arithmetic.ofInt (value * 10))
          (arithmetic.ofInt digit) =
            arithmetic.ofInt (value * 10 + digit : Nat) := by
        have exactly := exact.add (value * 10) digit (by rw [Small]; omega)
          (by rw [Small]; omega) (by rw [Small]; omega)
        rw [exactly]
        norm_cast
      have numeral :
          ((digitByte digit).toNat : Int) - 48 = digit := by
        rw [toNat_digitByte decimal]
        omega
      rw [List.map_cons, List.cons_append, parseDigits,
        if_pos (isDigit_digitByte decimal), product, numeral, sum, next]
      exact ih (fun digit member => small digit
        (List.mem_cons_of_mem _ member)) (next ▸ bound)

/-- The text of a positive number starts with a digit other than zero. -/
theorem decimal_of_pos {number : Nat} (positive : number ≠ 0) :
    ∃ digit digits, decimal number = (digit :: digits).map digitByte ∧
      (Nat.digits 10 number).reverse = digit :: digits ∧
      0 < digit ∧ digit < 10 := by
  have nonempty : Nat.digits 10 number ≠ [] :=
    Nat.digits_ne_nil_iff_ne_zero.mpr positive
  have text : decimal number =
      (Nat.digits 10 number).reverse.map digitByte := by
    rw [decimal, if_neg positive]
    rfl
  cases digits : (Nat.digits 10 number).reverse with
  | nil => exact absurd (List.reverse_eq_nil_iff.mp digits) nonempty
  | cons digit tail =>
      have last : (Nat.digits 10 number).getLast nonempty = digit := by
        have reversed := List.head_reverse
          (List.reverse_ne_nil_iff.mpr nonempty)
        simp only [digits, List.head_cons] at reversed
        exact reversed.symm
      refine ⟨digit, tail, by rw [text, digits], rfl, ?_, ?_⟩
      · rw [← last]
        exact Nat.pos_of_ne_zero (Nat.getLast_digit_ne_zero 10 positive)
      · rw [← last]
        exact Nat.digits_lt_base (by omega) (List.getLast_mem nonempty)

theorem decimal_head (number : Nat) :
    ∃ byte more, decimal number = byte :: more ∧ isDigit byte = true := by
  by_cases zero : number = 0
  · subst zero
    exact ⟨_, _, rfl, rfl⟩
  · rcases decimal_of_pos zero with ⟨digit, digits, text, -, -, high⟩
    exact ⟨_, _, text, isDigit_digitByte high⟩

/-- The text of a number starts with a sign or a digit. -/
theorem formatInt_head (value : Int) :
    ∃ byte more, formatInt value = byte :: more ∧
      (byte = char '-' ∨ isDigit byte = true) := by
  rw [formatInt]
  split
  · exact ⟨_, _, rfl, Or.inl rfl⟩
  · rcases decimal_head value.toNat with ⟨byte, more, text, digit⟩
    exact ⟨byte, more, text, Or.inr digit⟩

/-- The part of `parse_number` before the fraction. -/
theorem parseDigits_decimal (exact : arithmetic.Exact) (number : Nat)
    (bound : number ≤ 2 ^ 53) {rest num : List Byte} (ends : Ends rest)
    (stripped : num = if byteAt (decimal number ++ rest) = char '0' then
      (decimal number ++ rest).tail else decimal number ++ rest) :
    (if isDigit (byteAt num) ∧ byteAt num ≠ char '0' then
      parseDigits arithmetic (arithmetic.ofInt 0) num
    else (arithmetic.ofInt 0, num)) = (arithmetic.ofInt number, rest) := by
  by_cases zero : number = 0
  · subst zero
    have here : num = rest := stripped.trans (if_pos rfl)
    rw [here, if_neg (by simp [ends.digit])]
    rfl
  · rcases decimal_of_pos zero with ⟨digit, digits, text, all, low, high⟩
    have first : byteAt (decimal number ++ rest) = digitByte digit := by
      rw [text]
      rfl
    have other : digitByte digit ≠ char '0' := by
      intro same
      have value := congrArg BitVec.toNat same
      rw [toNat_digitByte high] at value
      have code : (char '0').toNat = 48 := rfl
      omega
    rw [first, if_neg other] at stripped
    rw [stripped, first, if_pos ⟨isDigit_digitByte high, other⟩, text,
      ← all]
    have value := digitsValue_digits number
    have digitsSmall : ∀ digit ∈ (Nat.digits 10 number).reverse,
        digit < 10 := fun digit member =>
      Nat.digits_lt_base (by omega) (List.mem_reverse.mp member)
    have run := parseDigits_map exact digitsSmall
      (by rw [value]; exact bound) ends
    rw [value] at run
    exact run

/-- A number that comes from an `int` is printed with `%d`. -/
theorem printNumber_ofInt (exact : arithmetic.Exact) (value : BitVec 32) :
    printNumber arithmetic (arithmetic.ofInt value.toInt) value =
      formatInt value.toInt := by
  have small := small_toInt value
  have upper := value.toInt_lt
  have lower := value.le_toInt
  rw [printNumber]
  simp only [exact.eq_zero _ small, decide_eq_true_eq]
  split
  · rename_i zero
    rw [zero]
    rfl
  · have difference : arithmetic.sub (arithmetic.ofInt value.toInt)
        (arithmetic.ofInt value.toInt) = arithmetic.ofInt 0 := by
      have exactly := exact.sub value.toInt value.toInt small small
        (by simp [Small])
      rwa [Int.sub_self] at exactly
    have below : arithmetic.le (arithmetic.ofInt value.toInt)
        (arithmetic.ofInt (2 ^ 31 - 1)) = true := by
      rw [exact.le _ _ small (by simp [Small]), decide_eq_true_eq]
      omega
    have above : arithmetic.le (arithmetic.ofInt (-2 ^ 31))
        (arithmetic.ofInt value.toInt) = true := by
      rw [exact.le _ _ (by simp [Small]) small, decide_eq_true_eq]
      omega
    rw [difference, exact.fabs_zero, exact.zero_le_epsilon, below, above]
    rfl

/-- The number that `%d` prints is read back without rounding. -/
theorem parseNumber_formatInt (exact : arithmetic.Exact)
    (value : BitVec 32) {rest : List Byte} (ends : Ends rest) :
    parseNumber arithmetic (formatInt value.toInt ++ rest) =
      (.number (arithmetic.ofInt value.toInt) value, rest) := by
  have upper := value.toInt_lt
  have lower := value.le_toInt
  have scale : arithmetic.pow (arithmetic.ofInt 10)
      (arithmetic.add (arithmetic.ofInt 0)
        (arithmetic.ofInt (0 * 1 : BitVec 32).toInt)) =
      arithmetic.ofInt 1 := by
    have zero := exact.add 0 0 (by simp [Small]) (by simp [Small])
      (by simp [Small])
    have none : (0 * 1 : BitVec 32).toInt = 0 := rfl
    rw [none, zero]
    exact exact.pow_zero
  have once {number : Int} (small : Small number) :
      arithmetic.mul (arithmetic.ofInt number) (arithmetic.ofInt 1) =
        arithmetic.ofInt number := by
    have product := exact.mul number 1 small (by simp [Small])
      (by simpa using small) (by omega)
    simpa using product
  have noFraction : ¬ (byteAt rest = char '.' ∧ isDigit (byteAt rest.tail)) :=
    fun fraction => ends.point fraction.1
  have noExponent : ¬ (byteAt rest = char 'e' ∨ byteAt rest = char 'E') :=
    not_or.mpr ⟨ends.lower, ends.upper⟩
  by_cases negative : value.toInt < 0
  · have text : formatInt value.toInt =
        char '-' :: decimal value.toInt.natAbs := if_pos negative
    have head : byteAt (char '-' :: (decimal value.toInt.natAbs ++ rest)) =
        char '-' := rfl
    have digits := parseDigits_decimal exact value.toInt.natAbs (by omega)
      ends rfl
    have signed : arithmetic.mul (arithmetic.ofInt (-1))
        (arithmetic.ofInt value.toInt.natAbs) =
        arithmetic.ofInt value.toInt := by
      have product := exact.mul (-1) value.toInt.natAbs (by simp [Small])
        (by rw [Small]; omega) (by rw [Small]; omega) (by omega)
      rw [product]
      congr 1
      omega
    simp only [parseNumber, text, List.cons_append, head, if_true,
      List.tail_cons, digits, if_neg noFraction, if_neg noExponent, scale,
      signed, once (small_toInt value), exact.toInt]
  · have text : formatInt value.toInt = decimal value.toInt.toNat :=
      if_neg negative
    have head : byteAt (decimal value.toInt.toNat ++ rest) ≠ char '-' := by
      rcases decimal_head value.toInt.toNat with ⟨byte, more, digits, digit⟩
      rw [digits]
      rintro rfl
      exact absurd digit (by decide)
    have digits := parseDigits_decimal exact value.toInt.toNat (by omega)
      ends rfl
    have signed : arithmetic.mul (arithmetic.ofInt 1)
        (arithmetic.ofInt value.toInt.toNat) =
        arithmetic.ofInt value.toInt := by
      have product := exact.mul 1 value.toInt.toNat (by simp [Small])
        (by rw [Small]; omega) (by rw [Small]; omega) (by omega)
      rw [product]
      congr 1
      omega
    simp only [parseNumber, text, if_neg head, digits, if_neg noFraction,
      if_neg noExponent, scale, signed, once (small_toInt value),
      exact.toInt]

end Numbers

/-! ## Sequences -/

theorem skip_append_of_blank {space : List Byte}
    (blanks : ∀ byte ∈ space, blank byte = true) (rest : List Byte) :
    skip (space ++ rest) = skip rest := by
  rw [skip, List.dropWhile_append_of_pos blanks, skip]

theorem skip_cons_of_not_blank {byte : Byte} (visible : blank byte = false)
    (rest : List Byte) : skip (byte :: rest) = byte :: rest :=
  List.dropWhile_cons_of_neg (by simp [visible])

theorem skip_skip (text : List Byte) : skip (skip text) = skip text := by
  rw [skip, skip]
  exact List.dropWhile_idempotent _ _

theorem blank_format {fmt : Bool} {space : List Byte}
    (blanks : ∀ byte ∈ space, blank byte = true) :
    ∀ byte ∈ format fmt space, blank byte = true := by
  cases fmt with
  | false => simp [format]
  | true => exact blanks

theorem blank_tabs (count : Nat) : ∀ byte ∈ tabs count, blank byte = true := by
  intro byte member
  rw [List.eq_of_mem_replicate member]
  rfl

theorem ends_cons {byte : Byte} (rest : List Byte)
    (other : byte ∈ [char ',', char ']', char '}', char '\n', 0]) :
    Ends (byte :: rest) := by
  have apart : ∀ stop ∈ ([char ',', char ']', char '}', char '\n', 0] :
      List Byte), isDigit stop = false ∧ stop ≠ char '.' ∧
        stop ≠ char 'e' ∧ stop ≠ char 'E' := by
    decide
  rcases apart byte other with ⟨digit, point, lower, upper⟩
  exact ⟨digit, point, lower, upper⟩

section Sequences

variable {α : Type}
  {element : List Byte → Except (List Byte) (α × List Byte)}

/-- The text of an element is read up to what ends a number. -/
def Reads (element : List Byte → Except (List Byte) (α × List Byte))
    (text : List Byte) (child : α) : Prop :=
  ∀ rest, Ends rest → element (text ++ rest) = .ok (child, skip rest)

variable {body : α → List Byte} {closing : List Byte}

theorem ends_flatMap (children : List α) (ends : Ends closing) :
    Ends (children.flatMap (fun child => char ',' :: body child) ++
      closing) := by
  cases children with
  | nil => exact ends
  | cons child children => exact ends_cons _ (by simp)

theorem length_le_length_flatMap (body : α → List Byte)
    (children : List α) :
    children.length ≤
      (children.flatMap fun child => char ',' :: body child).length := by
  induction children with
  | nil => exact Nat.le_refl _
  | cons child children ih =>
      rw [List.flatMap_cons, List.length_append, List.length_cons,
        List.length_cons]
      omega

theorem parseMore_flatMap {children : List α}
    (reads : ∀ child ∈ children, Reads element (body child) child)
    (ends : Ends closing) (stops : byteAt (skip closing) ≠ char ',')
    {fuel : Nat} (enough : children.length ≤ fuel) :
    parseMore element fuel
        (skip (children.flatMap (fun child => char ',' :: body child) ++
          closing)) =
      .ok (children, skip closing) := by
  induction children generalizing fuel with
  | nil =>
      rw [List.flatMap_nil, List.nil_append]
      cases fuel with
      | zero => rfl
      | succ fuel => rw [parseMore, if_neg stops]
  | cons child children ih =>
      cases fuel with
      | zero => exact absurd enough (by simp)
      | succ fuel =>
          have first := reads child (List.mem_cons_self ..)
            (children.flatMap (fun child => char ',' :: body child) ++
              closing) (ends_flatMap children ends)
          have others := ih
            (fun child member => reads child (List.mem_cons_of_mem _ member))
            (Nat.le_of_succ_le_succ enough)
          rw [List.flatMap_cons, List.cons_append, List.cons_append,
            List.append_assoc, skip_cons_of_not_blank rfl, parseMore,
            byteAt_cons, if_pos rfl, List.tail_cons, first]
          change (parseMore element fuel _ >>= fun more => _) = _
          rw [others]
          rfl

/-- A bracketed sequence. -/
theorem parseSequence_flatMap (opening : Byte) {close : Byte}
    (skips : ∀ value, element (skip value) = element value)
    {head : List Byte} {child : α} {children : List α}
    (first : Reads element head child)
    (reads : ∀ child ∈ children, Reads element (body child) child)
    (ends : Ends closing) {rest : List Byte}
    (closed : skip closing = close :: rest) (notComma : close ≠ char ',')
    (starts : ∀ rest, byteAt (skip (head ++ rest)) ≠ close) :
    parseSequence element opening close
        (opening :: (head ++
          (children.flatMap (fun child => char ',' :: body child) ++
            closing))) =
      .ok (child :: children, rest) := by
  have stops : byteAt (skip closing) ≠ char ',' := by
    rw [closed]
    exact notComma
  have enough : children.length ≤
      (skip (children.flatMap (fun child => char ',' :: body child) ++
        closing)).length := by
    cases children with
    | nil => exact Nat.zero_le _
    | cons child children =>
        have more := length_le_length_flatMap body children
        rw [List.flatMap_cons, List.cons_append, List.cons_append,
          skip_cons_of_not_blank rfl]
        simp only [List.length_cons, List.length_append]
        omega
  rw [parseSequence, if_neg (by simp [byteAt]), List.tail_cons,
    if_neg (starts _), skips, first _ (ends_flatMap children ends)]
  change (parseMore element _ _ >>= fun more => _) = _
  rw [parseMore_flatMap reads ends stops enough]
  simp [bind, Except.bind, closed, byteAt, pure, Except.pure]

end Sequences

/-! ## Printed arrays and objects -/

theorem composeItems_cons (fmt : Bool) (entry : List Byte)
    (entries : List (List Byte)) :
    composeItems fmt (entry :: entries) =
      entry ++ entries.flatMap fun entry =>
        char ',' :: (format fmt [char ' '] ++ entry) := by
  induction entries generalizing entry with
  | nil => simp [composeItems]
  | cons next entries ih =>
      rw [composeItems, ih, if_neg (by simp), List.flatMap_cons]
      simp

/-- The name and the entry in a line of an object. -/
def memberLine (fmt : Bool) (depth : Nat) (member : List Byte × List Byte) :
    List Byte :=
  format fmt [char '\n'] ++ format fmt (tabs depth) ++ member.1 ++
    char ':' :: (format fmt [char '\t'] ++ member.2)

theorem composeMembers_cons (fmt : Bool) (depth : Nat)
    (member : List Byte × List Byte)
    (entries : List (List Byte × List Byte)) :
    format fmt [char '\n'] ++ composeMembers fmt depth (member :: entries) =
      memberLine fmt depth member ++
        ((entries.flatMap fun member =>
          char ',' :: memberLine fmt depth member) ++
          format fmt [char '\n']) := by
  induction entries generalizing member with
  | nil => simp [composeMembers, memberLine]
  | cons next entries ih =>
      rw [composeMembers, if_neg (by simp), List.flatMap_cons]
      have rest := ih next
      simp only [List.append_assoc, List.cons_append, memberLine,
        List.nil_append] at rest ⊢
      rw [rest]

/-- An array with entries, as a sequence. -/
theorem printArray_cons (fmt : Bool) (entry : List Byte)
    (entries : List (List Byte)) :
    printArray fmt (entry :: entries) =
      char '[' :: (entry ++
        ((entries.flatMap fun entry =>
          char ',' :: (format fmt [char ' '] ++ entry)) ++ [char ']'])) := by
  rw [printArray, if_neg (by simp), composeItems_cons, List.append_assoc]

/-- An object with members, as a sequence. -/
theorem printObject_cons (fmt : Bool) (depth : Nat)
    (member : List Byte × List Byte)
    (entries : List (List Byte × List Byte)) :
    printObject fmt depth (member :: entries) =
      char '{' :: (memberLine fmt (depth + 1) member ++
        ((entries.flatMap fun member =>
          char ',' :: memberLine fmt (depth + 1) member) ++
          (format fmt [char '\n'] ++
            (format fmt (tabs depth) ++ [char '}'])))) := by
  rw [printObject, if_neg (by simp), List.cons_append, composeMembers_cons]
  simp only [List.cons_append, List.append_assoc]

theorem skip_memberLine (fmt : Bool) (depth : Nat) {name : List Byte}
    (nulFree : 0 ∉ name) (text rest : List Byte) :
    skip (memberLine fmt depth (printStringPtr name, text) ++ rest) =
      printStringPtr name ++ char ':' ::
        (format fmt [char '\t'] ++ (text ++ rest)) := by
  simp only [memberLine, List.append_assoc, List.cons_append]
  rw [skip_append_of_blank (blank_format (by decide)),
    skip_append_of_blank (blank_format (blank_tabs depth)),
    printStringPtr_eq nulFree, List.cons_append, skip_cons_of_not_blank rfl]

/-! ## Values -/

section Values

variable {Double : Type} (arithmetic : Arithmetic Double)

/-- The trees that can be built from strings of C and `int`s. -/
inductive Printable : CJson Double → Prop where
  | null : Printable .null
  | bool (value : Bool) : Printable (.bool value)
  | number (valueint : BitVec 32) :
      Printable (.number (arithmetic.ofInt valueint.toInt) valueint)
  | string {valuestring : List Byte} (nulFree : 0 ∉ valuestring) :
      Printable (.string valuestring)
  | array {child : List (CJson Double)}
      (items : ∀ item ∈ child, Printable item) : Printable (.array child)
  | object {child : List (List Byte × CJson Double)}
      (names : ∀ member ∈ child, 0 ∉ member.1)
      (values : ∀ member ∈ child, Printable member.2) :
      Printable (.object child)

variable {arithmetic} {fmt : Bool}

/-- A printed value starts with a byte that is neither blank nor a bracket
that ends an array. -/
theorem Printable.head (exact : arithmetic.Exact) {tree : CJson Double}
    (printable : Printable arithmetic tree) (fmt : Bool) (depth : Nat) :
    ∃ byte more, printValue arithmetic fmt depth tree = byte :: more ∧
      blank byte = false ∧ byte ≠ char ']' := by
  cases printable with
  | null => exact ⟨_, _, rfl, rfl, by decide⟩
  | bool value => cases value <;> exact ⟨_, _, rfl, rfl, by decide⟩
  | number valueint =>
      rw [printValue, printNumber_ofInt exact]
      rcases formatInt_head valueint.toInt with ⟨byte, more, text, head⟩
      refine ⟨byte, more, text, ?_⟩
      rcases head with rfl | digit
      · decide
      · have visible : ∀ byte : Byte, isDigit byte = true →
            blank byte = false ∧ byte ≠ char ']' := by
          decide
        exact visible byte digit
  | string nulFree =>
      rw [printValue, printStringPtr_eq nulFree]
      exact ⟨_, _, rfl, rfl, by decide⟩
  | array items =>
      rw [printValue, printArray]
      split <;> exact ⟨_, _, rfl, rfl, by decide⟩
  | object names values =>
      rw [printValue, printObject]
      split <;> exact ⟨_, _, rfl, rfl, by decide⟩

theorem strncmp_ne_zero_of_head {byte first : Byte} (apart : byte ≠ first)
    (more literal : List Byte) (count : Nat) :
    strncmp (byte :: more) (first :: literal) (count + 1) ≠ 0 := by
  have values : byte.toNat ≠ first.toNat := fun same =>
    apart (BitVec.eq_of_toNat_eq same)
  rw [strncmp, if_neg apart]
  omega

/-- The choice of `parse_value` by the first byte. -/
theorem parseValue_cons {byte : Byte}
    (other : byte ∉ [char 'n', char 'f', char 't']) (more : List Byte)
    (fuel : Nat) :
    parseValue arithmetic (fuel + 1) (byte :: more) =
      if byte = char '"' then do
        let (valuestring, value) ← parseString (byte :: more)
        return (.string valuestring, value)
      else if byte = char '-' ∨ isDigit byte then
        .ok (parseNumber arithmetic (byte :: more))
      else if byte = char '[' then
        parseArray (parseValue arithmetic fuel) (byte :: more)
      else if byte = char '{' then
        parseObject (parseValue arithmetic fuel) (byte :: more)
      else .error (byte :: more) := by
  simp only [List.mem_cons, List.not_mem_nil, or_false, not_or] at other
  rcases other with ⟨notN, notF, notT⟩
  have null : strncmp (byte :: more) (ascii "null") 4 ≠ 0 :=
    strncmp_ne_zero_of_head notN _ _ _
  have no : strncmp (byte :: more) (ascii "false") 5 ≠ 0 :=
    strncmp_ne_zero_of_head notF _ _ _
  have yes : strncmp (byte :: more) (ascii "true") 4 ≠ 0 :=
    strncmp_ne_zero_of_head notT _ _ _
  rw [parseValue, if_neg null, if_neg no, if_neg yes]
  rfl

/-- The value is read from its text. -/
def Parses (arithmetic : Arithmetic Double) (fuel : Nat) (text : List Byte)
    (tree : CJson Double) : Prop :=
  ∀ rest, Ends rest →
    parseValue arithmetic fuel (text ++ rest) = .ok (tree, rest)

/-- An item, after white space. -/
theorem Parses.reads_item {fuel : Nat} {text : List Byte}
    {item : CJson Double} (parses : Parses arithmetic fuel text item)
    (visible : ∃ byte more, text = byte :: more ∧ blank byte = false)
    {space : List Byte} (blanks : ∀ byte ∈ space, blank byte = true) :
    Reads (parseItem (parseValue arithmetic fuel)) (space ++ text) item := by
  intro rest ends
  rcases visible with ⟨byte, more, rfl, visible⟩
  rw [parseItem, List.append_assoc, skip_append_of_blank blanks,
    List.cons_append, skip_cons_of_not_blank visible, ← List.cons_append,
    parses rest ends]
  rfl

/-- A member, after white space. -/
theorem Parses.reads_member {fuel depth : Nat} {text name : List Byte}
    {item : CJson Double} (parses : Parses arithmetic fuel text item)
    (visible : ∃ byte more, text = byte :: more ∧ blank byte = false)
    (nulFree : 0 ∉ name) :
    Reads (parseMember (parseValue arithmetic fuel))
      (memberLine fmt depth (printStringPtr name, text)) (name, item) := by
  intro rest ends
  rcases visible with ⟨byte, more, rfl, visible⟩
  have colon : skip (char ':' ::
      (format fmt [char '\t'] ++ (byte :: more ++ rest))) =
      char ':' :: (format fmt [char '\t'] ++ (byte :: more ++ rest)) :=
    skip_cons_of_not_blank rfl _
  have value : skip (format fmt [char '\t'] ++ (byte :: more ++ rest)) =
      byte :: more ++ rest := by
    rw [skip_append_of_blank (blank_format (by decide)), List.cons_append,
      skip_cons_of_not_blank visible]
  rw [parseMember, skip_memberLine fmt depth nulFree,
    parseString_printStringPtr nulFree]
  simp only [bind, Except.bind, colon, byteAt_cons, ne_eq,
    not_true_eq_false, if_false, List.tail_cons, value, parses rest ends]
  rfl

/-- An element of a sequence may follow white space. -/
theorem parseItem_skip (fuel : Nat) (value : List Byte) :
    parseItem (parseValue arithmetic fuel) (skip value) =
      parseItem (parseValue arithmetic fuel) value := by
  rw [parseItem, parseItem, skip_skip]

theorem parseMember_skip (fuel : Nat) (value : List Byte) :
    parseMember (parseValue arithmetic fuel) (skip value) =
      parseMember (parseValue arithmetic fuel) value := by
  rw [parseMember, parseMember, skip_skip]

theorem parseValue_bracket (fuel : Nat) (more : List Byte) :
    parseValue arithmetic (fuel + 1) (char '[' :: more) =
      parseArray (parseValue arithmetic fuel) (char '[' :: more) :=
  parseValue_cons (by decide) more fuel

theorem parseValue_brace (fuel : Nat) (more : List Byte) :
    parseValue arithmetic (fuel + 1) (char '{' :: more) =
      parseObject (parseValue arithmetic fuel) (char '{' :: more) :=
  parseValue_cons (by decide) more fuel

theorem parses_array (exact : arithmetic.Exact) {fuel depth : Nat}
    {child : List (CJson Double)}
    (items : ∀ item ∈ child, Printable arithmetic item)
    (parses : ∀ item ∈ child,
      Parses arithmetic fuel (printValue arithmetic fmt (depth + 1) item)
        item) :
    Parses arithmetic (fuel + 1)
      (printValue arithmetic fmt depth (.array child)) (.array child) := by
  intro rest ends
  rw [printValue, printItems_eq_map]
  cases child with
  | nil => exact parseValue_bracket fuel (char ']' :: rest)
  | cons item child =>
      have visible (other : CJson Double) (member : other ∈ item :: child) :
          ∃ byte more,
            printValue arithmetic fmt (depth + 1) other = byte :: more ∧
              blank byte = false ∧ byte ≠ char ']' :=
        (items other member).head exact fmt (depth + 1)
      have reads (other : CJson Double) (member : other ∈ item :: child)
          {space : List Byte} (blanks : ∀ byte ∈ space, blank byte = true) :
          Reads (parseItem (parseValue arithmetic fuel))
            (space ++ printValue arithmetic fmt (depth + 1) other) other := by
        rcases visible other member with ⟨byte, more, text, shown, -⟩
        exact (parses other member).reads_item ⟨byte, more, text, shown⟩
          blanks
      have space : ∀ byte ∈ format fmt [char ' '], blank byte = true :=
        blank_format (by decide)
      have ended : Ends (char ']' :: rest) := ends_cons rest (by simp)
      have closed : skip (char ']' :: rest) = char ']' :: rest :=
        skip_cons_of_not_blank rfl rest
      have sequence := parseSequence_flatMap (char '[') (parseItem_skip fuel)
        (reads item (List.mem_cons_self ..) (List.forall_mem_nil _))
        (fun other member =>
          reads other (List.mem_cons_of_mem _ member) space)
        ended closed (by decide) fun more => by
          rcases visible item (List.mem_cons_self ..)
            with ⟨byte, tail, shown, seen, apart⟩
          rw [shown, List.nil_append, List.cons_append,
            skip_cons_of_not_blank seen]
          exact apart
      rw [List.map_cons, printArray_cons, List.flatMap_map]
      simp only [List.cons_append, List.append_assoc, List.nil_append]
        at sequence ⊢
      rw [parseValue_bracket, parseArray, sequence]
      rfl

theorem parses_object (exact : arithmetic.Exact) {fuel depth : Nat}
    {child : List (List Byte × CJson Double)}
    (names : ∀ member ∈ child, 0 ∉ member.1)
    (values : ∀ member ∈ child, Printable arithmetic member.2)
    (parses : ∀ member ∈ child,
      Parses arithmetic fuel
        (printValue arithmetic fmt (depth + 1) member.2) member.2) :
    Parses arithmetic (fuel + 1)
      (printValue arithmetic fmt depth (.object child)) (.object child) := by
  intro rest ends
  rw [printValue, printMembers_eq_map]
  cases child with
  | nil =>
      have blanks : ∀ byte ∈ format fmt (char '\n' :: tabs (depth - 1)),
          blank byte = true := by
        apply blank_format
        rw [List.forall_mem_cons]
        exact ⟨rfl, blank_tabs _⟩
      rw [List.map_nil, printObject, if_pos rfl, List.cons_append,
        List.cons_append, parseValue_brace, parseObject, parseSequence,
        if_neg (by simp), List.tail_cons, List.append_assoc,
        skip_append_of_blank blanks]
      rfl
  | cons member child =>
      have reads (other : List Byte × CJson Double)
          (inside : other ∈ member :: child) :
          Reads (parseMember (parseValue arithmetic fuel))
            (memberLine fmt (depth + 1) (printStringPtr other.1,
              printValue arithmetic fmt (depth + 1) other.2)) other := by
        rcases (values other inside).head exact fmt (depth + 1)
          with ⟨byte, more, text, shown, -⟩
        exact (parses other inside).reads_member ⟨byte, more, text, shown⟩
          (names other inside)
      have closed : skip (format fmt [char '\n'] ++
          (format fmt (tabs depth) ++ char '}' :: rest)) =
          char '}' :: rest := by
        rw [skip_append_of_blank (blank_format (by decide)),
          skip_append_of_blank (blank_format (blank_tabs depth)),
          skip_cons_of_not_blank rfl]
      have ended : Ends (format fmt [char '\n'] ++
          (format fmt (tabs depth) ++ char '}' :: rest)) := by
        cases fmt <;> exact ends_cons _ (by simp)
      have sequence := parseSequence_flatMap (char '{')
        (parseMember_skip fuel) (reads member (List.mem_cons_self ..))
        (fun other inside => reads other (List.mem_cons_of_mem _ inside))
        ended closed (by decide) fun more => by
          rw [skip_memberLine fmt (depth + 1)
            (names member (List.mem_cons_self ..)),
            printStringPtr_eq (names member (List.mem_cons_self ..)),
            List.cons_append, byteAt_cons]
          decide
      rw [List.map_cons, printObject_cons, List.flatMap_map]
      simp only [List.cons_append, List.append_assoc, List.nil_append]
        at sequence ⊢
      rw [parseValue_brace, parseObject, sequence]
      rfl

theorem length_le_composeItems (fmt : Bool) {entries : List (List Byte)}
    {entry : List Byte} (member : entry ∈ entries) :
    entry.length ≤ (composeItems fmt entries).length := by
  induction entries with
  | nil => exact absurd member List.not_mem_nil
  | cons first entries ih =>
      rw [composeItems, List.length_append, List.length_append]
      rcases List.mem_cons.mp member with rfl | later
      · omega
      · have shorter := ih later
        omega

theorem length_le_composeMembers (fmt : Bool) (depth : Nat)
    {entries : List (List Byte × List Byte)}
    {entry : List Byte × List Byte} (member : entry ∈ entries) :
    entry.2.length ≤ (composeMembers fmt depth entries).length := by
  induction entries with
  | nil => exact absurd member List.not_mem_nil
  | cons first entries ih =>
      simp only [composeMembers, List.length_append, List.length_cons]
      rcases List.mem_cons.mp member with rfl | later
      · omega
      · have shorter := ih later
        omega

/-- The texts of the items are shorter than the text of the array. -/
theorem length_item_lt (arithmetic : Arithmetic Double) (fmt : Bool)
    (depth : Nat) {child : List (CJson Double)}
    {item : CJson Double} (member : item ∈ child) :
    (printValue arithmetic fmt (depth + 1) item).length <
      (printValue arithmetic fmt depth (.array child)).length := by
  have entry : printValue arithmetic fmt (depth + 1) item ∈
      printItems arithmetic fmt (depth + 1) child := by
    rw [printItems_eq_map]
    exact List.mem_map_of_mem member
  have shorter := length_le_composeItems fmt entry
  rw [printValue, printArray, if_neg (List.ne_nil_of_mem entry)]
  simp only [List.length_cons, List.length_append]
  omega

/-- The texts of the values are shorter than the text of the object. -/
theorem length_member_lt (arithmetic : Arithmetic Double) (fmt : Bool)
    (depth : Nat)
    {child : List (List Byte × CJson Double)}
    {inside : List Byte × CJson Double} (member : inside ∈ child) :
    (printValue arithmetic fmt (depth + 1) inside.2).length <
      (printValue arithmetic fmt depth (.object child)).length := by
  have entry : (printStringPtr inside.1,
      printValue arithmetic fmt (depth + 1) inside.2) ∈
      printMembers arithmetic fmt (depth + 1) child := by
    rw [printMembers_eq_map]
    exact List.mem_map.mpr ⟨inside, member, rfl⟩
  have shorter := length_le_composeMembers fmt (depth + 1) entry
  rw [printValue, printObject, if_neg (List.ne_nil_of_mem entry)]
  simp only [List.length_cons, List.length_append] at shorter ⊢
  omega

theorem parses_null (depth fuel : Nat) :
    Parses arithmetic (fuel + 1) (printValue arithmetic fmt depth .null)
      .null := by
  intro rest _
  have same : strncmp (ascii "null" ++ rest) (ascii "null") 4 = 0 :=
    (strncmp_eq_zero_iff (by decide) _).mpr (List.prefix_append _ _)
  rw [printValue, parseValue, if_pos same]
  rfl

theorem parses_bool (value : Bool) (depth fuel : Nat) :
    Parses arithmetic (fuel + 1)
      (printValue arithmetic fmt depth (.bool value)) (.bool value) := by
  intro rest _
  cases value with
  | false =>
      have null : strncmp (ascii "false" ++ rest) (ascii "null") 4 ≠ 0 :=
        strncmp_ne_zero_of_head (by decide) _ _ _
      have same : strncmp (ascii "false" ++ rest) (ascii "false") 5 = 0 :=
        (strncmp_eq_zero_iff (by decide) _).mpr (List.prefix_append _ _)
      rw [printValue, parseValue, if_neg null, if_pos same]
      rfl
  | true =>
      have null : strncmp (ascii "true" ++ rest) (ascii "null") 4 ≠ 0 :=
        strncmp_ne_zero_of_head (by decide) _ _ _
      have no : strncmp (ascii "true" ++ rest) (ascii "false") 5 ≠ 0 :=
        strncmp_ne_zero_of_head (by decide) _ _ _
      have same : strncmp (ascii "true" ++ rest) (ascii "true") 4 = 0 :=
        (strncmp_eq_zero_iff (by decide) _).mpr (List.prefix_append _ _)
      rw [printValue, parseValue, if_neg null, if_neg no, if_pos same]
      rfl

theorem parses_number (exact : arithmetic.Exact) (valueint : BitVec 32)
    (depth fuel : Nat) :
    Parses arithmetic (fuel + 1)
      (printValue arithmetic fmt depth
        (.number (arithmetic.ofInt valueint.toInt) valueint))
      (.number (arithmetic.ofInt valueint.toInt) valueint) := by
  intro rest ends
  rw [printValue, printNumber_ofInt exact]
  rcases formatInt_head valueint.toInt with ⟨byte, more, text, head⟩
  have classes : ∀ byte : Byte, byte = char '-' ∨ isDigit byte = true →
      byte ∉ [char 'n', char 'f', char 't'] ∧ byte ≠ char '"' := by
    decide
  rcases classes byte head with ⟨other, notQuote⟩
  rw [text, List.cons_append, parseValue_cons other, if_neg notQuote,
    if_pos head, ← List.cons_append, ← text,
    parseNumber_formatInt exact valueint ends]

theorem parses_string {valuestring : List Byte} (nulFree : 0 ∉ valuestring)
    (depth fuel : Nat) :
    Parses arithmetic (fuel + 1)
      (printValue arithmetic fmt depth (.string valuestring))
      (.string valuestring) := by
  intro rest _
  have parsed := parseString_printStringPtr nulFree rest
  rw [printValue]
  rw [printStringPtr_eq nulFree, List.cons_append] at parsed ⊢
  rw [parseValue_cons (by decide), if_pos rfl, parsed]
  rfl

/-- A printed tree is parsed back, whatever follows it. -/
theorem Printable.parses (exact : arithmetic.Exact) {tree : CJson Double}
    (printable : Printable arithmetic tree) {depth fuel : Nat}
    (enough : (printValue arithmetic fmt depth tree).length < fuel) :
    Parses arithmetic fuel (printValue arithmetic fmt depth tree) tree := by
  induction printable generalizing depth fuel with
  | null =>
      rcases Nat.exists_eq_succ_of_ne_zero (Nat.ne_zero_of_lt enough)
        with ⟨fuel, rfl⟩
      exact parses_null depth fuel
  | bool value =>
      rcases Nat.exists_eq_succ_of_ne_zero (Nat.ne_zero_of_lt enough)
        with ⟨fuel, rfl⟩
      exact parses_bool value depth fuel
  | number valueint =>
      rcases Nat.exists_eq_succ_of_ne_zero (Nat.ne_zero_of_lt enough)
        with ⟨fuel, rfl⟩
      exact parses_number exact valueint depth fuel
  | string nulFree =>
      rcases Nat.exists_eq_succ_of_ne_zero (Nat.ne_zero_of_lt enough)
        with ⟨fuel, rfl⟩
      exact parses_string nulFree depth fuel
  | array items ih =>
      rcases Nat.exists_eq_succ_of_ne_zero (Nat.ne_zero_of_lt enough)
        with ⟨fuel, rfl⟩
      refine parses_array exact items fun item member => ?_
      have shorter := length_item_lt arithmetic fmt depth member
      exact ih item member (by omega)
  | object names values ih =>
      rcases Nat.exists_eq_succ_of_ne_zero (Nat.ne_zero_of_lt enough)
        with ⟨fuel, rfl⟩
      refine parses_object exact names values fun inside member => ?_
      have shorter := length_member_lt arithmetic fmt depth member
      exact ih inside member (by omega)

/-- The text of a tree, formatted or not, parses to the tree. -/
theorem cJsonParse_printValue (exact : arithmetic.Exact)
    {tree : CJson Double} (printable : Printable arithmetic tree)
    (rest : List Byte) :
    cJsonParse arithmetic (printValue arithmetic fmt 0 tree ++ 0 :: rest) =
      .ok tree := by
  have enough : (printValue arithmetic fmt 0 tree).length <
      (printValue arithmetic fmt 0 tree ++ 0 :: rest).length + 1 := by
    rw [List.length_append]
    omega
  have parses := printable.parses exact enough (0 :: rest)
    (ends_cons rest (by simp))
  rcases printable.head exact fmt 0
    with ⟨byte, more, text, visible, -⟩
  have start : skip (printValue arithmetic fmt 0 tree ++ 0 :: rest) =
      printValue arithmetic fmt 0 tree ++ 0 :: rest := by
    rw [text, List.cons_append, skip_cons_of_not_blank visible]
  rw [cJsonParse, start, parses]
  rfl

/-- `cJSON_Parse` reads the tree from its text in front of a terminator. -/
theorem cJsonParse_cJsonPrint (exact : arithmetic.Exact)
    {tree : CJson Double} (printable : Printable arithmetic tree)
    (rest : List Byte) :
    cJsonParse arithmetic (cJsonPrint arithmetic tree ++ 0 :: rest) =
      .ok tree :=
  cJsonParse_printValue exact printable rest

end Values

end CommonCode.Json
