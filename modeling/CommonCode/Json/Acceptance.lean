import CommonCode.Json.Minify
import CommonCode.Json.Reading
import CommonCode.Json.Validity
import CommonCode.Lib.JsonGrammar

/-!
# Every JSON text is accepted

`cJSON_Parse` reads every text that the grammar of JSON derives, and
`cJSON_Minify` leaves a text of the grammar without white space between its
tokens that is read as the same tree.  It makes the text of
`cJSON_PrintUnformatted` out of that of `cJSON_Print`.
-/

namespace CommonCode.Json

open CommonCode.Lib.Bits
open CommonCode.Lib.CScan
open CommonCode.Lib.CString
open CommonCode.Lib.JsonGrammar

variable {Double : Type} {arithmetic : Arithmetic Double}

/-! ## Numbers -/

section Numbers

variable {digits rest : List Byte}

theorem parseDigits_append (number : ∀ byte ∈ digits, isDigit byte = true)
    (stops : isDigit (byteAt rest) = false) (n : Double) :
    parseDigits arithmetic n (digits ++ rest) =
      ((parseDigits arithmetic n digits).1, rest) := by
  induction digits generalizing n with
  | nil =>
      cases rest with
      | nil => rfl
      | cons byte rest =>
          rw [byteAt_cons] at stops
          simp [parseDigits, stops]
  | cons byte digits induction =>
      rw [List.forall_mem_cons] at number
      rw [List.cons_append, parseDigits, parseDigits, if_pos number.1,
        if_pos number.1, induction number.2]

theorem parseFraction_append (number : ∀ byte ∈ digits, isDigit byte = true)
    (stops : isDigit (byteAt rest) = false) (n scale : Double) :
    parseFraction arithmetic n scale (digits ++ rest) =
      ((parseFraction arithmetic n scale digits).1,
        (parseFraction arithmetic n scale digits).2.1, rest) := by
  induction digits generalizing n scale with
  | nil =>
      cases rest with
      | nil => rfl
      | cons byte rest =>
          rw [byteAt_cons] at stops
          simp [parseFraction, stops]
  | cons byte digits induction =>
      rw [List.forall_mem_cons] at number
      rw [List.cons_append, parseFraction, parseFraction, if_pos number.1,
        if_pos number.1, induction number.2]

theorem parseExponent_append (number : ∀ byte ∈ digits, isDigit byte = true)
    (stops : isDigit (byteAt rest) = false) (subscale : BitVec 32) :
    parseExponent subscale (digits ++ rest) =
      ((parseExponent subscale digits).1, rest) := by
  induction digits generalizing subscale with
  | nil =>
      cases rest with
      | nil => rfl
      | cons byte rest =>
          rw [byteAt_cons] at stops
          simp [parseExponent, stops]
  | cons byte digits induction =>
      rw [List.forall_mem_cons] at number
      rw [List.cons_append, parseExponent, parseExponent, if_pos number.1,
        if_pos number.1, induction number.2]

variable (arithmetic) (num : List Byte)

/-- The digits before the point, of which `parse_number` skips a first zero. -/
def integerPart : Double × List Byte :=
  let num := if byteAt num = char '0' then num.tail else num
  if isDigit (byteAt num) ∧ byteAt num ≠ char '0' then
    parseDigits arithmetic (arithmetic.ofInt 0) num
  else (arithmetic.ofInt 0, num)

/-- The digits behind the point. -/
def fractionPart (n : Double) : Double × Double × List Byte :=
  if byteAt num = char '.' ∧ isDigit (byteAt num.tail) then
    parseFraction arithmetic n (arithmetic.ofInt 0) num.tail
  else (n, arithmetic.ofInt 0, num)

/-- The exponent, and its sign. -/
def exponentPart : BitVec 32 × BitVec 32 × List Byte :=
  if byteAt num = char 'e' ∨ byteAt num = char 'E' then
    let num := num.tail
    let signsubscale : BitVec 32 :=
      if byteAt num = char '-' then -1 else 1
    let num :=
      if byteAt num = char '+' ∨ byteAt num = char '-' then num.tail
      else num
    let (subscale, num) := parseExponent 0 num
    (subscale, signsubscale, num)
  else (0, 1, num)

/-- The number with the given parts. -/
def numberOf (sign : Int) (n scale : Double)
    (exponent : BitVec 32) : CJson Double :=
  let value :=
    arithmetic.mul (arithmetic.mul (arithmetic.ofInt sign) n)
      (arithmetic.pow (arithmetic.ofInt 10)
        (arithmetic.add scale (arithmetic.ofInt exponent.toInt)))
  .number value (arithmetic.toInt value)

/-- A number is read part by part. -/
theorem parseNumber_parts {unsigned more rest behind : List Byte}
    {n m scale : Double} {subscale signsubscale : BitVec 32}
    (sign : (if byteAt num = char '-' then num.tail else num) = unsigned)
    (integer : integerPart arithmetic unsigned = (n, more))
    (fraction : fractionPart arithmetic more n = (m, scale, rest))
    (exponent : exponentPart rest = (subscale, signsubscale, behind)) :
    parseNumber arithmetic num =
      (numberOf arithmetic (if byteAt num = char '-' then -1 else 1) m scale
        (subscale * signsubscale), behind) := by
  simp only [integerPart] at integer
  simp only [fractionPart] at fraction
  simp only [exponentPart] at exponent
  simp only [parseNumber, sign, integer, fraction, exponent, numberOf]

theorem integerPart_read {integer : List Byte} (whole : Integer integer) :
    ∃ n, ∀ more, isDigit (byteAt more) = false →
      integerPart arithmetic (integer ++ more) = (n, more) := by
  rcases whole with rfl | ⟨⟨nonempty, number⟩, head⟩
  · refine ⟨arithmetic.ofInt 0, fun more stops => ?_⟩
    simp [integerPart, byteAt_cons, stops]
  · cases integer with
    | nil => exact absurd rfl nonempty
    | cons byte digits =>
        have notZero : byte ≠ char '0' := fun same =>
          head (congrArg some same)
        have digit := number byte (List.mem_cons_self ..)
        refine ⟨(parseDigits arithmetic (arithmetic.ofInt 0)
          (byte :: digits)).1, fun more stops => ?_⟩
        have start : byteAt (byte :: digits ++ more) = byte := rfl
        rw [integerPart, start, if_neg notZero, start,
          if_pos ⟨digit, notZero⟩, parseDigits_append number stops]

theorem fractionPart_read {fraction : List Byte}
    (fractional : Fraction fraction) (n : Double) :
    ∃ m scale, ∀ more, isDigit (byteAt more) = false →
      byteAt more ≠ char '.' →
        fractionPart arithmetic (fraction ++ more) n = (m, scale, more) := by
  rcases fractional with rfl | ⟨digits, ⟨nonempty, number⟩, rfl⟩
  · refine ⟨n, arithmetic.ofInt 0, fun more _ point => ?_⟩
    exact if_neg fun both => point both.1
  · cases digits with
    | nil => exact absurd rfl nonempty
    | cons byte digits =>
        refine ⟨(parseFraction arithmetic n (arithmetic.ofInt 0)
          (byte :: digits)).1, (parseFraction arithmetic n (arithmetic.ofInt 0)
          (byte :: digits)).2.1, fun more stops _ => ?_⟩
        rw [fractionPart, List.cons_append, List.tail_cons,
          if_pos ⟨rfl, number byte (List.mem_cons_self ..)⟩,
          parseFraction_append number stops]

theorem exponentPart_read {exponent : List Byte}
    (scaled : Exponent exponent) :
    ∃ subscale signsubscale, ∀ more, isDigit (byteAt more) = false →
      byteAt more ≠ char 'e' → byteAt more ≠ char 'E' →
        exponentPart (exponent ++ more) =
          (subscale, signsubscale, more) := by
  rcases scaled with rfl | ⟨mark, sign, digits, marked, signed,
    ⟨nonempty, number⟩, rfl⟩
  · refine ⟨0, 1, fun more _ lower upper => ?_⟩
    exact if_neg fun either => either.elim lower upper
  · have marks : mark = char 'e' ∨ mark = char 'E' := by
      simpa using marked
    cases digits with
    | nil => exact absurd rfl nonempty
    | cons byte digits =>
        have digit := number byte (List.mem_cons_self ..)
        have unsigned : byte ≠ char '+' ∧ byte ≠ char '-' := by
          constructor <;>
          · rintro rfl
            exact absurd digit (by decide)
        simp only [List.mem_cons, List.not_mem_nil, or_false] at signed
        have read (more : List Byte) (stops : isDigit (byteAt more) = false) :=
          parseExponent_append number stops 0
        rcases signed with rfl | rfl | rfl
        · refine ⟨(parseExponent 0 (byte :: digits)).1, 1,
            fun more stops _ _ => ?_⟩
          rw [List.nil_append, exponentPart, List.cons_append, byteAt_cons,
            if_pos marks, List.tail_cons]
          have next : byteAt (byte :: digits ++ more) = byte := rfl
          simp only [next, if_neg unsigned.2,
            if_neg (not_or.mpr unsigned), read more stops]
        · refine ⟨(parseExponent 0 (byte :: digits)).1, -1,
            fun more stops _ _ => ?_⟩
          rw [exponentPart, List.cons_append, byteAt_cons, if_pos marks,
            List.tail_cons]
          have next :
              byteAt ([char '-'] ++ byte :: digits ++ more) = char '-' :=
            rfl
          simp only [next, if_true, or_true]
          rw [List.append_assoc, List.singleton_append, List.tail_cons,
            read more stops]
        · refine ⟨(parseExponent 0 (byte :: digits)).1, 1,
            fun more stops _ _ => ?_⟩
          rw [exponentPart, List.cons_append, byteAt_cons, if_pos marks,
            List.tail_cons]
          have next :
              byteAt ([char '+'] ++ byte :: digits ++ more) = char '+' :=
            rfl
          have other : char '+' ≠ char '-' := by decide
          simp only [next, if_neg other, true_or, if_true]
          rw [List.append_assoc, List.singleton_append, List.tail_cons,
            read more stops]

/-- The first byte of an integer is a digit. -/
theorem integer_head {integer : List Byte} (whole : Integer integer) :
    ∃ byte more, integer = byte :: more ∧ isDigit byte = true := by
  rcases whole with rfl | ⟨⟨nonempty, number⟩, -⟩
  · exact ⟨char '0', [], rfl, rfl⟩
  · cases integer with
    | nil => exact absurd rfl nonempty
    | cons byte more =>
        exact ⟨byte, more, rfl, number byte (List.mem_cons_self ..)⟩

theorem parseNumber_read {text : List Byte} (number : Number text) :
    ∃ tree, ∀ rest, Ends rest →
      parseNumber arithmetic (text ++ rest) = (tree, rest) := by
  rcases number with ⟨signed, whole, fractional, scaled⟩
  rename_i sign integer fraction exponent
  rcases integerPart_read arithmetic whole with ⟨n, readInteger⟩
  rcases fractionPart_read arithmetic fractional n with
    ⟨m, scale, readFraction⟩
  rcases exponentPart_read scaled with ⟨subscale, signsubscale, readExponent⟩
  rcases integer_head whole with ⟨byte, others, start, digit⟩
  have notSign : byte ≠ char '-' := by
    rintro rfl
    exact absurd digit (by decide)
  have scaledHead (rest : List Byte) (ends : Ends rest) :
      isDigit (byteAt (exponent ++ rest)) = false ∧
        byteAt (exponent ++ rest) ≠ char '.' := by
    rcases scaled with rfl | ⟨mark, sign, digits, marked, -, -, rfl⟩
    · exact ⟨ends.digit, ends.point⟩
    · rw [List.cons_append, byteAt_cons]
      have both : ∀ mark ∈ [char 'e', char 'E'],
          isDigit mark = false ∧ mark ≠ char '.' := by
        decide
      exact both mark marked
  have fractionHead (rest : List Byte) (ends : Ends rest) :
      isDigit (byteAt (fraction ++ (exponent ++ rest))) = false := by
    rcases fractional with rfl | ⟨digits, -, rfl⟩
    · exact (scaledHead rest ends).1
    · rfl
  have parts (rest : List Byte) (ends : Ends rest) :=
    And.intro (readInteger (fraction ++ (exponent ++ rest))
        (fractionHead rest ends))
      (And.intro
        (readFraction (exponent ++ rest) (scaledHead rest ends).1
          (scaledHead rest ends).2)
        (readExponent rest ends.digit ends.lower ends.upper))
  simp only [List.mem_cons, List.not_mem_nil, or_false] at signed
  rcases signed with rfl | rfl
  · refine ⟨numberOf arithmetic 1 m scale (subscale * signsubscale),
      fun rest ends => ?_⟩
    rcases parts rest ends with ⟨first, second, third⟩
    have unsigned :
        byteAt ([] ++ integer ++ fraction ++ exponent ++ rest) ≠ char '-' := by
      rw [start]
      exact notSign
    have read := parseNumber_parts arithmetic
      ([] ++ integer ++ fraction ++ exponent ++ rest)
      (by rw [if_neg unsigned]; simp) first second third
    rw [if_neg unsigned] at read
    exact read
  · refine ⟨numberOf arithmetic (-1) m scale (subscale * signsubscale),
      fun rest ends => ?_⟩
    rcases parts rest ends with ⟨first, second, third⟩
    have signed :
        byteAt ([char '-'] ++ integer ++ fraction ++ exponent ++ rest) =
          char '-' :=
      rfl
    have read := parseNumber_parts arithmetic
      ([char '-'] ++ integer ++ fraction ++ exponent ++ rest)
      (by rw [if_pos signed]; simp) first second third
    rw [if_pos signed] at read
    exact read

end Numbers

/-! ## Strings -/

section Strings

/-- A first half of a pair is read with a second half behind it. -/
theorem parseEscape_unicode (a b c d : Byte) :
    (∃ out, ∀ rest,
      parseEscape (char 'u' :: a :: b :: c :: d :: rest) = (out, d :: rest)) ∨
    (∀ rest, (byteAt rest ≠ char '\\' ∨ byteAt (rest.drop 1) ≠ char 'u') →
      parseEscape (char 'u' :: a :: b :: c :: d :: rest) = ([], d :: rest)) ∧
    ∀ a' b' c' d', ∃ out, ∀ rest,
      parseEscape (char 'u' :: a :: b :: c :: d :: char '\\' :: char 'u' ::
          a' :: b' :: c' :: d' :: rest) =
        (out, d' :: rest) := by
  simp only [parseEscape_cons]
  by_cases invalid :
      0xDC00 ≤ parseHex4 [a, b, c, d] ∧ parseHex4 [a, b, c, d] ≤ 0xDFFF ∨
        parseHex4 [a, b, c, d] = 0
  · exact Or.inl ⟨[], fun rest => if_pos invalid⟩
  · by_cases first :
        0xD800 ≤ parseHex4 [a, b, c, d] ∧ parseHex4 [a, b, c, d] ≤ 0xDBFF
    · refine Or.inr ⟨fun rest single => ?_, fun a' b' c' d' => ?_⟩
      · rw [if_neg invalid, if_pos first, if_pos single]
      · by_cases second :
            parseHex4 [a', b', c', d'] < 0xDC00 ∨
              0xDFFF < parseHex4 [a', b', c', d']
        · refine ⟨[], fun rest => ?_⟩
          rw [if_neg invalid, if_pos first, if_neg (by simp [byteAt])]
          exact if_pos second
        · refine ⟨utf8 (0x10000 + ((parseHex4 [a, b, c, d] &&& 0x3FF) <<< 10 |||
            parseHex4 [a', b', c', d'] &&& 0x3FF)), fun rest => ?_⟩
          rw [if_neg invalid, if_pos first, if_neg (by simp [byteAt])]
          exact if_neg second
    · refine Or.inl ⟨utf8 (parseHex4 [a, b, c, d]), fun rest => ?_⟩
      rw [if_neg invalid, if_neg first]

/-- The other sequences give one byte each. -/
theorem parseEscape_short {byte : Byte} (short : byte ∈ ascii "\"\\/bfnrt") :
    ∃ out, ∀ rest, parseEscape (byte :: rest) = (out, byte :: rest) := by
  have notU : byte ≠ char 'u' := by
    rintro rfl
    exact absurd short (by decide)
  by_cases b : byte = char 'b'
  · exact ⟨[8], fun rest => by rw [parseEscape, byteAt_cons, if_pos b]⟩
  by_cases f : byte = char 'f'
  · exact ⟨[12], fun rest => by
      rw [parseEscape, byteAt_cons, if_neg b, if_pos f]⟩
  by_cases n : byte = char 'n'
  · exact ⟨[10], fun rest => by
      rw [parseEscape, byteAt_cons, if_neg b, if_neg f, if_pos n]⟩
  by_cases r : byte = char 'r'
  · exact ⟨[13], fun rest => by
      rw [parseEscape, byteAt_cons, if_neg b, if_neg f, if_neg n, if_pos r]⟩
  by_cases t : byte = char 't'
  · exact ⟨[9], fun rest => by
      rw [parseEscape, byteAt_cons, if_neg b, if_neg f, if_neg n, if_neg r,
        if_pos t]⟩
  · exact ⟨[byte], fun rest => by
      rw [parseEscape, byteAt_cons, if_neg b, if_neg f, if_neg n, if_neg r,
        if_neg t, if_neg notU]⟩

theorem parseChars_backslash (rest : List Byte) :
    parseChars (char '\\' :: rest) =
      ((parseEscape rest).1 ++
          (parseChars ((parseEscape rest).2.drop 1)).1,
        (parseChars ((parseEscape rest).2.drop 1)).2) := by
  rw [parseChars, if_neg (by decide), if_neg (by decide)]

theorem parseChars_read (characters : List (List Byte))
    (each : ∀ character ∈ characters, Character character) :
    ∃ out, ∀ rest,
      parseChars (characters.flatten ++ char '"' :: rest) =
        (out, char '"' :: rest) := by
  match characters with
  | [] =>
      refine ⟨[], fun rest => ?_⟩
      rw [List.flatten_nil, List.nil_append, parseChars, if_pos (Or.inl rfl)]
  | character :: others =>
      rw [List.forall_mem_cons] at each
      rcases parseChars_read others each.2 with ⟨out, read⟩
      cases each.1 with
      | @plain byte printable notQuote notBackslash =>
          refine ⟨byte :: out, fun rest => ?_⟩
          have visible : ¬(byte = char '"' ∨ byte = 0) := by
            rintro (quote | zero)
            · exact notQuote quote
            · rw [zero] at printable
              exact absurd printable (by decide)
          rw [List.flatten_cons, List.append_assoc, List.singleton_append,
            parseChars, if_neg visible, if_pos notBackslash, read]
      | @escaped byte short =>
          rcases parseEscape_short short with ⟨single, escape⟩
          refine ⟨single ++ out, fun rest => ?_⟩
          rw [List.flatten_cons, List.append_assoc, List.cons_append,
            List.singleton_append, parseChars_backslash, escape,
            List.drop_succ_cons, List.drop_zero, read]
      | @unicode a b c d digits =>
          rcases parseEscape_unicode a b c d with ⟨single, escape⟩ |
            ⟨single, pair⟩
          · refine ⟨single ++ out, fun rest => ?_⟩
            rw [List.flatten_cons, List.append_assoc]
            simp only [List.cons_append, List.nil_append,
              parseChars_backslash, escape, List.drop_succ_cons,
              List.drop_zero, read]
          · by_cases paired : ∃ a' b' c' d' more,
              others = [char '\\', char 'u', a', b', c', d'] :: more
            · rcases paired with ⟨a', b', c', d', more, rfl⟩
              rw [List.forall_mem_cons] at each
              rcases parseChars_read more each.2.2 with ⟨later, read⟩
              rcases pair a' b' c' d' with ⟨both, escape⟩
              refine ⟨both ++ later, fun rest => ?_⟩
              rw [List.flatten_cons, List.flatten_cons, List.append_assoc,
                List.append_assoc]
              simp only [List.cons_append, List.nil_append,
                parseChars_backslash, escape, List.drop_succ_cons,
                List.drop_zero, read]
            · refine ⟨out, fun rest => ?_⟩
              have alone :
                  byteAt (others.flatten ++ char '"' :: rest) ≠ char '\\' ∨
                    byteAt ((others.flatten ++ char '"' :: rest).drop 1) ≠
                      char 'u' := by
                cases others with
                | nil =>
                    have quote : char '"' ≠ char '\\' := by decide
                    exact Or.inl quote
                | cons next more =>
                    rw [List.forall_mem_cons] at each
                    cases each.2.1 with
                    | plain _ _ notBackslash => exact Or.inl notBackslash
                    | @escaped byte short =>
                        refine Or.inr fun same => ?_
                        have letter : byte = char 'u' := same
                        rw [letter] at short
                        exact absurd short (by decide)
                    | @unicode a' b' c' d' digits =>
                        exact absurd ⟨a', b', c', d', more, rfl⟩ paired
              rw [List.flatten_cons, List.append_assoc]
              simp only [List.cons_append, List.nil_append,
                parseChars_backslash, single _ alone, List.drop_succ_cons,
                List.drop_zero, read]
termination_by characters.length

theorem parseString_read {text : List Byte} (string : Str text) :
    ∃ out, ∀ rest, parseString (text ++ rest) = .ok (out, rest) := by
  rcases string with ⟨each⟩
  rename_i characters
  rcases parseChars_read characters each with ⟨out, read⟩
  refine ⟨out, fun rest => ?_⟩
  rw [parseString, List.cons_append, if_neg (by simp [byteAt]),
    List.tail_cons, List.append_assoc, List.singleton_append, read]
  rfl

end Strings

/-! ## Sequences -/

section Sequences

variable {α : Type}
  {element : List Byte → Except (List Byte) (α × List Byte)}

/-- The texts of elements, each after a comma. -/
def behindCommas (pieces : List (List Byte × α)) : List Byte :=
  pieces.flatMap fun piece => char ',' :: piece.1

variable {pieces : List (List Byte × α)} {closing : List Byte}

theorem ends_behindCommas (ends : Ends closing) :
    Ends (behindCommas pieces ++ closing) := by
  cases pieces with
  | nil => exact ends
  | cons piece pieces => exact ends_cons _ (by simp)

theorem length_behindCommas :
    pieces.length ≤ (behindCommas pieces).length := by
  induction pieces with
  | nil => exact Nat.le_refl _
  | cons piece pieces induction =>
      rw [behindCommas, List.flatMap_cons, List.length_append,
        List.length_cons, List.length_cons]
      rw [behindCommas] at induction
      omega

theorem parseMore_pieces
    (reads : ∀ piece ∈ pieces, Reads element piece.1 piece.2)
    (ends : Ends closing) (stops : byteAt (skip closing) ≠ char ',')
    {fuel : Nat} (enough : pieces.length ≤ fuel) :
    parseMore element fuel (skip (behindCommas pieces ++ closing)) =
      .ok (pieces.map Prod.snd, skip closing) := by
  induction pieces generalizing fuel with
  | nil =>
      cases fuel with
      | zero => rfl
      | succ fuel =>
          change parseMore element (fuel + 1) (skip closing) = _
          rw [parseMore, if_neg stops]
          rfl
  | cons piece pieces induction =>
      cases fuel with
      | zero => exact absurd enough (Nat.not_succ_le_zero _)
      | succ fuel =>
          rw [List.forall_mem_cons] at reads
          have first := reads.1 (behindCommas pieces ++ closing)
            (ends_behindCommas ends)
          have others := induction reads.2 (Nat.le_of_succ_le_succ enough)
          have start : behindCommas (piece :: pieces) ++ closing =
              char ',' :: (piece.1 ++ (behindCommas pieces ++ closing)) := by
            simp [behindCommas]
          rw [start, skip_cons_of_not_blank rfl, parseMore, byteAt_cons,
            if_pos rfl, List.tail_cons, first]
          change Except.bind (parseMore element fuel _) _ = _
          rw [others]
          rfl

/-- A bracketed sequence of elements. -/
theorem parseSequence_pieces (opening : Byte) {close : Byte}
    (skips : ∀ value, element (skip value) = element value)
    {piece : List Byte × α} (first : Reads element piece.1 piece.2)
    (reads : ∀ piece ∈ pieces, Reads element piece.1 piece.2)
    (ends : Ends closing) {rest : List Byte}
    (closed : skip closing = close :: rest) (notComma : close ≠ char ',')
    (starts : ∀ rest, byteAt (skip (piece.1 ++ rest)) ≠ close) :
    parseSequence element opening close
        (opening :: (piece.1 ++ (behindCommas pieces ++ closing))) =
      .ok (piece.2 :: pieces.map Prod.snd, rest) := by
  have stops : byteAt (skip closing) ≠ char ',' := by
    rw [closed]
    exact notComma
  have enough :
      pieces.length ≤ (skip (behindCommas pieces ++ closing)).length := by
    cases pieces with
    | nil => exact Nat.zero_le _
    | cons next pieces =>
        have more :
            (next :: pieces).length ≤ (behindCommas (next :: pieces)).length :=
          length_behindCommas
        have start : skip (behindCommas (next :: pieces) ++ closing) =
            behindCommas (next :: pieces) ++ closing :=
          skip_cons_of_not_blank rfl _
        rw [start, List.length_append]
        omega
  rw [parseSequence, if_neg (by simp [byteAt]), List.tail_cons,
    if_neg (starts _), skips, first _ (ends_behindCommas ends)]
  change Except.bind (parseMore element _ _) _ = _
  rw [parseMore_pieces reads ends stops enough]
  simp [Except.bind, closed, byteAt, pure, Except.pure]

end Sequences

/-! ## White space -/

section Spaces

variable {space rest : List Byte}

theorem blank_of_ws (spaced : Ws space) :
    ∀ byte ∈ space, blank byte = true := by
  have each : ∀ byte ∈ [char ' ', char '\t', char '\n', char '\r'],
      blank byte = true := by
    decide
  exact fun byte member => each byte (spaced byte member)

theorem ends_ws (spaced : Ws space) (ends : Ends rest) :
    Ends (space ++ rest) := by
  cases space with
  | nil => exact ends
  | cons byte space =>
      have each : ∀ byte ∈ [char ' ', char '\t', char '\n', char '\r'],
          isDigit byte = false ∧ byte ≠ char '.' ∧ byte ≠ char 'e' ∧
            byte ≠ char 'E' := by
        decide
      rcases each byte (spaced byte (List.mem_cons_self ..)) with
        ⟨digit, point, lower, upper⟩
      exact ⟨digit, point, lower, upper⟩

theorem skip_ws (spaced : Ws space) (rest : List Byte) :
    skip (space ++ rest) = skip rest :=
  skip_append_of_blank (blank_of_ws spaced) rest

/-- White space behind an element is skipped with it. -/
theorem Reads.spaced {α : Type}
    {element : List Byte → Except (List Byte) (α × List Byte)}
    {text : List Byte} {child : α} (reads : Reads element text child)
    (spaced : Ws space) : Reads element (text ++ space) child := by
  intro rest ends
  rw [List.append_assoc, reads _ (ends_ws spaced ends), skip_ws spaced]

end Spaces

/-! ## What is kept of a text -/

/-- The automaton keeps the short text of a text, whatever follows. -/
def Keeps (text short : List Byte) : Prop :=
  ∀ more,
    Mode.plain.keeps (text ++ more) = (Mode.plain.keeps more).map (short ++ ·)

section Keeps

variable {text short front back : List Byte}

theorem keeps_nil : Keeps [] [] :=
  fun _ => Option.map_id'.symm

theorem Keeps.append (left : Keeps front short) {other : List Byte}
    (right : Keeps back other) : Keeps (front ++ back) (short ++ other) := by
  intro more
  rw [List.append_assoc, left, right, Option.map_map]
  congr 1
  funext ending
  exact (List.append_assoc ..).symm

theorem keeps_ws (spaced : Ws text) : Keeps text [] := by
  induction text with
  | nil => exact keeps_nil
  | cons byte text induction =>
      intro more
      have each : ∀ byte ∈ [char ' ', char '\t', char '\n', char '\r'],
          isSpace byte = true := by
        decide
      rw [List.cons_append,
        keeps_space (each byte (spaced byte (List.mem_cons_self ..)))]
      exact induction
        (fun byte member => spaced byte (List.mem_cons_of_mem _ member)) more

/-- A byte that stands for itself outside strings. -/
def isToken (byte : Byte) : Bool :=
  !isSpace byte && byte != char '/' && byte != char '"' && byte != 0

theorem keeps_tokens (tokens : ∀ byte ∈ text, isToken byte = true) :
    Keeps text text := by
  induction text with
  | nil => exact keeps_nil
  | cons byte text induction =>
      intro more
      rw [List.forall_mem_cons] at tokens
      have first := tokens.1
      simp only [isToken, Bool.and_eq_true, Bool.not_eq_true', bne_iff_ne]
        at first
      rw [List.cons_append, keeps_plain (by simp [first.1.1.1]) first.1.1.2
        first.1.2, induction tokens.2, Option.map_map]
      rfl

/-- A character stays in a string. -/
theorem keeps_character {character : List Byte}
    (is : Character character) (more : List Byte) :
    Mode.string.keeps (character ++ more) =
      (Mode.string.keeps more).map (character ++ ·) := by
  have inner {byte : Byte} (notQuote : byte ≠ char '"')
      (notBackslash : byte ≠ char '\\') (more : List Byte) :
      Mode.string.keeps (byte :: more) =
        (Mode.string.keeps more).map ([byte] ++ ·) := by
    rw [Mode.keeps, Mode.step, if_neg notQuote, if_neg notBackslash]
  have escaped (byte : Byte) (more : List Byte) :
      Mode.string.keeps (char '\\' :: byte :: more) =
        (Mode.string.keeps more).map ([char '\\', byte] ++ ·) :=
    Option.map_map ..
  cases is with
  | plain printable notQuote notBackslash =>
      exact inner notQuote notBackslash more
  | escaped short => exact escaped _ more
  | @unicode a b c d digits =>
      have plain : ∀ digit : Byte, isHexDigit digit = true →
          digit ≠ char '"' ∧ digit ≠ char '\\' := by
        decide
      have each (digit : Byte) (member : digit ∈ [a, b, c, d])
          (more : List Byte) :=
        inner (plain digit (digits digit member)).1
          (plain digit (digits digit member)).2 more
      simp only [List.cons_append, List.nil_append]
      rw [escaped, each a (by simp), each b (by simp), each c (by simp),
        each d (by simp)]
      simp only [Option.map_map]
      rfl

theorem keeps_str (string : Str text) : Keeps text text := by
  rcases string with ⟨each⟩
  rename_i characters
  have inside (more : List Byte) :
      Mode.string.keeps (characters.flatten ++ char '"' :: more) =
        (Mode.plain.keeps more).map
          ((characters.flatten ++ [char '"']) ++ ·) := by
    induction characters with
    | nil => rfl
    | cons character characters induction =>
        rw [List.forall_mem_cons] at each
        rw [List.flatten_cons, List.append_assoc, keeps_character each.1,
          induction each.2, Option.map_map]
        congr 1
        funext ending
        simp
  intro more
  have start :
      char '"' :: (characters.flatten ++ [char '"']) ++ more =
        char '"' :: (characters.flatten ++ char '"' :: more) := by
    simp
  have opened :
      Mode.plain.keeps (char '"' :: (characters.flatten ++ char '"' :: more)) =
        (Mode.string.keeps (characters.flatten ++ char '"' :: more)).map
          ([char '"'] ++ ·) :=
    rfl
  rw [start, opened, inside, Option.map_map]
  rfl

/-- A byte of a number. -/
def isNumberByte (byte : Byte) : Bool :=
  isDigit byte || byte ∈ ascii "+-.eE"

theorem bytes_digits (digits : ∀ byte ∈ text, isDigit byte = true) :
    ∀ byte ∈ text, isNumberByte byte = true :=
  fun byte member => Bool.or_eq_true_iff.mpr (Or.inl (digits byte member))

theorem bytes_number (number : Number text) :
    ∀ byte ∈ text, isNumberByte byte = true := by
  rcases number with ⟨signed, whole, fractional, scaled⟩
  rename_i sign integer fraction exponent
  have signs : ∀ sign ∈ [[], [char '-'], [char '+']],
      ∀ byte ∈ sign, isNumberByte byte = true := by
    decide
  have integers : ∀ byte ∈ integer, isNumberByte byte = true := by
    rcases whole with rfl | ⟨⟨-, digits⟩, -⟩
    · decide
    · exact bytes_digits digits
  have fractions : ∀ byte ∈ fraction, isNumberByte byte = true := by
    rcases fractional with rfl | ⟨digits, ⟨-, each⟩, rfl⟩
    · exact List.forall_mem_nil _
    · exact List.forall_mem_cons.mpr ⟨by decide, bytes_digits each⟩
  have exponents : ∀ byte ∈ exponent, isNumberByte byte = true := by
    rcases scaled with rfl | ⟨mark, sign, digits, marked, signed,
      ⟨-, each⟩, rfl⟩
    · exact List.forall_mem_nil _
    · have marks : ∀ mark ∈ [char 'e', char 'E'],
          isNumberByte mark = true := by
        decide
      rw [List.forall_mem_cons, List.forall_mem_append]
      exact ⟨marks mark marked, signs sign signed, bytes_digits each⟩
  rw [List.forall_mem_append, List.forall_mem_append, List.forall_mem_append]
  refine ⟨⟨⟨signs sign ?_, integers⟩, fractions⟩, exponents⟩
  simp only [List.mem_cons, List.not_mem_nil, or_false] at signed ⊢
  exact signed.imp_right Or.inl

theorem tokens_number (number : Number text) :
    ∀ byte ∈ text, isToken byte = true := by
  have each : ∀ byte : Byte, isNumberByte byte = true →
      isToken byte = true := by
    decide +kernel
  exact fun byte member => each byte (bytes_number number byte member)

end Keeps

/-! ## Values -/

/-- A text that starts with no white space and does not close an array. -/
def Visible (text : List Byte) : Prop :=
  ∃ byte more, text = byte :: more ∧ blank byte = false ∧ byte ≠ char ']'

/-- A value is read from a text and from what is kept of it. -/
structure Reduces (arithmetic : Arithmetic Double) (text short : List Byte)
    (tree : CJson Double) : Prop where
  value : Value short
  long :
    ∀ fuel, text.length < fuel → Parses arithmetic fuel text tree
  again :
    ∀ fuel, short.length < fuel → Parses arithmetic fuel short tree
  keeps : Keeps text short
  kept : Keeps short short
  start : Visible text
  head : Visible short

section Values

variable {text : List Byte} {tree : CJson Double} {fuel : Nat}

theorem reduces_same (value : Value text)
    (parses : ∀ fuel, text.length < fuel → Parses arithmetic fuel text tree)
    (keeps : Keeps text text) (visible : Visible text) :
    Reduces arithmetic text text tree :=
  ⟨value, parses, parses, keeps, keeps, visible, visible⟩

theorem reduces_null :
    Reduces arithmetic (ascii "null") (ascii "null") .null := by
  refine reduces_same .null (fun fuel enough => ?_)
    (keeps_tokens (by decide)) ⟨_, _, rfl, by decide, by decide⟩
  rcases Nat.exists_eq_succ_of_ne_zero (Nat.ne_zero_of_lt enough) with
    ⟨fuel, rfl⟩
  exact (parses_null 0 fuel :
    Parses arithmetic (fuel + 1) (printValue arithmetic false 0 .null) .null)

theorem reduces_false :
    Reduces arithmetic (ascii "false") (ascii "false") (.bool false) := by
  refine reduces_same .false (fun fuel enough => ?_)
    (keeps_tokens (by decide)) ⟨_, _, rfl, by decide, by decide⟩
  rcases Nat.exists_eq_succ_of_ne_zero (Nat.ne_zero_of_lt enough) with
    ⟨fuel, rfl⟩
  exact (parses_bool false 0 fuel :
    Parses arithmetic (fuel + 1) (printValue arithmetic false 0 (.bool false))
      (.bool false))

theorem reduces_true :
    Reduces arithmetic (ascii "true") (ascii "true") (.bool true) := by
  refine reduces_same .true (fun fuel enough => ?_)
    (keeps_tokens (by decide)) ⟨_, _, rfl, by decide, by decide⟩
  rcases Nat.exists_eq_succ_of_ne_zero (Nat.ne_zero_of_lt enough) with
    ⟨fuel, rfl⟩
  exact (parses_bool true 0 fuel :
    Parses arithmetic (fuel + 1) (printValue arithmetic false 0 (.bool true))
      (.bool true))

theorem number_head (number : Number text) :
    ∃ byte more, text = byte :: more ∧
      (byte = char '-' ∨ isDigit byte = true) := by
  rcases number with ⟨signed, whole, -, -⟩
  rename_i sign integer fraction exponent
  rcases integer_head whole with ⟨byte, more, rfl, digit⟩
  simp only [List.mem_cons, List.not_mem_nil, or_false] at signed
  rcases signed with rfl | rfl
  · exact ⟨byte, more ++ fraction ++ exponent, by simp, Or.inr digit⟩
  · exact ⟨char '-', byte :: (more ++ fraction ++ exponent), by simp,
      Or.inl rfl⟩

theorem reduces_number (number : Number text) :
    ∃ tree, Reduces arithmetic text text tree := by
  rcases parseNumber_read arithmetic number with ⟨tree, read⟩
  rcases number_head number with ⟨byte, more, rfl, first⟩
  have classes : ∀ byte : Byte, byte = char '-' ∨ isDigit byte = true →
      byte ∉ [char 'n', char 'f', char 't'] ∧ byte ≠ char '"' ∧
        blank byte = false ∧ byte ≠ char ']' := by
    decide
  rcases classes byte first with ⟨other, notQuote, visible, notClosing⟩
  refine ⟨tree, reduces_same (.number number) (fun fuel enough => ?_)
    (keeps_tokens (tokens_number number))
    ⟨byte, more, rfl, visible, notClosing⟩⟩
  rcases Nat.exists_eq_succ_of_ne_zero (Nat.ne_zero_of_lt enough) with
    ⟨fuel, rfl⟩
  intro rest ends
  rw [List.cons_append, parseValue_cons other, if_neg notQuote,
    if_pos first, ← List.cons_append, read rest ends]

theorem str_head (string : Str text) : ∃ more, text = char '"' :: more := by
  rcases string with ⟨each⟩
  exact ⟨_, rfl⟩

theorem reduces_string (string : Str text) :
    ∃ tree, Reduces arithmetic text text tree := by
  rcases parseString_read string with ⟨out, read⟩
  rcases str_head string with ⟨more, rfl⟩
  refine ⟨.string out, reduces_same (.string string) (fun fuel enough => ?_)
    (keeps_str string) ⟨_, _, rfl, by decide, by decide⟩⟩
  rcases Nat.exists_eq_succ_of_ne_zero (Nat.ne_zero_of_lt enough) with
    ⟨fuel, rfl⟩
  intro rest _
  rw [List.cons_append, parseValue_cons (by decide), if_pos rfl,
    ← List.cons_append, read rest]
  rfl

/-! ### Sequences -/

theorem closed_ws {space : List Byte} (spaced : Ws space) {close : Byte}
    (visible : blank close = false) (rest : List Byte) :
    skip (space ++ [close] ++ rest) = close :: rest := by
  rw [List.append_assoc, skip_ws spaced, List.singleton_append,
    skip_cons_of_not_blank visible]

theorem ends_closed {space : List Byte} (spaced : Ws space) {close : Byte}
    (closes : close ∈ [char ',', char ']', char '}', char '\n', 0])
    (rest : List Byte) : Ends (space ++ [close] ++ rest) := by
  rw [List.append_assoc]
  exact ends_ws spaced (ends_cons rest closes)

/-- A sequence in brackets, as the grammar derives it. -/
def bracketed (opening close : Byte) (first : List Byte)
    (rest : List (List Byte)) (space : List Byte) : List Byte :=
  opening :: (commas first rest ++ (space ++ [close]))

section Bracketed

variable {α ι : Type}
  {element : List Byte → Except (List Byte) (α × List Byte)}
  {first : ι} {rest : List ι} {space : List Byte}

/-- The elements of a sequence in brackets are read one after the other. -/
theorem parseSequence_bracketed (opening : Byte) {close : Byte}
    (skips : ∀ value, element (skip value) = element value)
    (text : ι → List Byte) (made : ι → α)
    (reads : ∀ index ∈ first :: rest,
      Reads element (text index) (made index))
    (starts : ∀ more, byteAt (skip (text first ++ more)) ≠ close)
    (closing : Ws space) (closes : close ∈ [char ']', char '}'])
    (behind : List Byte) :
    parseSequence element opening close
        (bracketed opening close (text first) (rest.map text) space ++
          behind) =
      .ok (made first :: rest.map made, behind) := by
  have kinds : ∀ close ∈ [char ']', char '}'],
      blank close = false ∧ close ≠ char ',' ∧
        close ∈ [char ',', char ']', char '}', char '\n', 0] := by
    decide
  rcases kinds close closes with ⟨visible, notComma, ends⟩
  have others : ∀ piece ∈ rest.map fun index => (text index, made index),
      Reads element piece.1 piece.2 := by
    rw [List.forall_mem_map]
    exact fun index member => reads index (List.mem_cons_of_mem _ member)
  have sequence := parseSequence_pieces opening skips
    (show Reads element (text first, made first).1 (text first, made first).2
      from reads first (List.mem_cons_self ..))
    others (ends_closed closing ends behind)
    (closed_ws closing visible behind) notComma starts
  rw [behindCommas, List.flatMap_map, List.map_map] at sequence
  rw [bracketed, commas, List.flatMap_map]
  simp only [List.cons_append, List.append_assoc] at sequence ⊢
  exact sequence

theorem length_le_commas (text : ι → List Byte) {item : ι}
    (member : item ∈ first :: rest) :
    (text item).length ≤ (commas (text first) (rest.map text)).length := by
  rw [commas, List.length_append, List.flatMap_map]
  rcases List.mem_cons.mp member with rfl | inside
  · exact Nat.le_add_right _ _
  · rcases List.append_of_mem inside with ⟨front, back, rfl⟩
    simp only [List.flatMap_append, List.flatMap_cons, List.length_append,
      List.length_cons]
    omega

theorem length_lt_bracketed (opening close : Byte) (text : ι → List Byte)
    (space : List Byte) {item : ι} (member : item ∈ first :: rest) :
    (text item).length <
      (bracketed opening close (text first) (rest.map text)
        space).length := by
  have inner := length_le_commas text member
  rw [bracketed, List.length_cons, List.length_append]
  omega

theorem keeps_flatMap {items : List ι} {long short : ι → List Byte}
    (each : ∀ item ∈ items, Keeps (long item) (short item)) :
    Keeps (items.flatMap fun item => char ',' :: long item)
      (items.flatMap fun item => char ',' :: short item) := by
  have comma : Keeps [char ','] [char ','] := keeps_tokens (by decide)
  induction items with
  | nil => exact keeps_nil
  | cons item items induction =>
      rw [List.forall_mem_cons] at each
      rw [List.flatMap_cons, List.flatMap_cons]
      exact (comma.append each.1).append (induction each.2)

theorem keeps_bracketed {opening close : Byte} {long short : ι → List Byte}
    (opens : isToken opening = true) (closes : isToken close = true)
    (each : ∀ item ∈ first :: rest, Keeps (long item) (short item))
    (spaced : Ws space) :
    Keeps (bracketed opening close (long first) (rest.map long) space)
      (bracketed opening close (short first) (rest.map short) []) := by
  rw [List.forall_mem_cons] at each
  have start : Keeps [opening] [opening] := keeps_tokens (by simpa using opens)
  have ending : Keeps [close] [close] := keeps_tokens (by simpa using closes)
  rw [bracketed, bracketed, commas, commas, List.flatMap_map,
    List.flatMap_map]
  exact start.append ((each.1.append (keeps_flatMap each.2)).append
    ((keeps_ws spaced).append ending))

end Bracketed

/-! ### Arrays -/

/-- A value with white space around it is an item of an array. -/
theorem reads_piece {piece : Piece} (spaced : piece.Spaced)
    (parses : Parses arithmetic fuel piece.text tree)
    (visible : Visible piece.text) :
    Reads (parseItem (parseValue arithmetic fuel)) piece.bytes tree := by
  rcases visible with ⟨byte, more, start, seen, -⟩
  exact (parses.reads_item ⟨byte, more, start, seen⟩
    (blank_of_ws spaced.1)).spaced spaced.2

theorem starts_piece {piece : Piece} (spaced : piece.Spaced)
    (visible : Visible piece.text) (rest : List Byte) :
    byteAt (skip (piece.bytes ++ rest)) ≠ char ']' := by
  rcases visible with ⟨byte, more, start, seen, notClosing⟩
  rw [Piece.bytes, List.append_assoc, List.append_assoc, skip_ws spaced.1,
    start, List.cons_append, skip_cons_of_not_blank seen]
  exact notClosing

theorem length_text_le (piece : Piece) :
    piece.text.length ≤ piece.bytes.length := by
  rw [Piece.bytes, List.length_append, List.length_append]
  omega

/-- An array is read if its items are. -/
theorem parses_bracket {ι : Type} {first : ι} {rest : List ι}
    {space : List Byte} (piece : ι → Piece) (made : ι → CJson Double)
    (spaced : ∀ index ∈ first :: rest, (piece index).Spaced)
    (parses : ∀ index ∈ first :: rest, ∀ fuel,
      (piece index).text.length < fuel →
        Parses arithmetic fuel (piece index).text (made index))
    (visible : ∀ index ∈ first :: rest, Visible (piece index).text)
    (closing : Ws space)
    (enough :
      (bracketed (char '[') (char ']') (piece first).bytes
        (rest.map fun index => (piece index).bytes) space).length < fuel) :
    Parses arithmetic fuel
      (bracketed (char '[') (char ']') (piece first).bytes
        (rest.map fun index => (piece index).bytes) space)
      (.array (made first :: rest.map made)) := by
  rcases Nat.exists_eq_succ_of_ne_zero (Nat.ne_zero_of_lt enough) with
    ⟨fuel, rfl⟩
  intro behind _
  have here : first ∈ first :: rest := List.mem_cons_self ..
  have reads (index : ι) (member : index ∈ first :: rest) :
      Reads (parseItem (parseValue arithmetic fuel)) (piece index).bytes
        (made index) := by
    refine reads_piece (spaced index member)
      (parses index member fuel ?_) (visible index member)
    have inner := length_text_le (piece index)
    have outer := length_lt_bracketed (char '[') (char ']')
      (fun index => (piece index).bytes) space member
    omega
  have sequence := parseSequence_bracketed (char '[') (parseItem_skip fuel)
    (fun index => (piece index).bytes) made reads
    (starts_piece (spaced first here) (visible first here)) closing
    (List.mem_cons_self ..) behind
  rw [bracketed, List.cons_append, parseValue_bracket, parseArray]
  rw [bracketed, List.cons_append] at sequence
  rw [sequence]
  rfl

/-- Every element of a list has a partner. -/
theorem exists_partners {α β : Type} {items : List α} {related : α → β → Prop}
    (each : ∀ item ∈ items, ∃ partner, related item partner) :
    ∃ pairs : List (α × β),
      pairs.map Prod.fst = items ∧
        ∀ pair ∈ pairs, related pair.1 pair.2 := by
  induction items with
  | nil => exact ⟨[], rfl, List.forall_mem_nil _⟩
  | cons item items induction =>
      rw [List.forall_mem_cons] at each
      rcases each.1 with ⟨partner, first⟩
      rcases induction each.2 with ⟨pairs, same, others⟩
      exact ⟨(item, partner) :: pairs, congrArg _ same,
        List.forall_mem_cons.mpr ⟨first, others⟩⟩

theorem Keeps.spaced {piece : Piece} {short : List Byte}
    (keeps : Keeps piece.text short) (spaced : piece.Spaced) :
    Keeps piece.bytes short := by
  have around := ((keeps_ws spaced.1).append keeps).append (keeps_ws spaced.2)
  rwa [List.nil_append, List.append_nil] at around

/-- A text without white space around it. -/
def bare (text : List Byte) : Piece := ⟨[], text, []⟩

theorem spaced_bare (text : List Byte) : (bare text).Spaced :=
  ⟨ws_nil, ws_nil⟩

theorem bytes_bare (text : List Byte) : (bare text).bytes = text := by
  simp [bare, Piece.bytes]

/-- An array of values, without white space. -/
theorem value_bracket {ι : Type} {first : ι} {rest : List ι}
    {short : ι → List Byte}
    (values : ∀ index ∈ first :: rest, Value (short index)) :
    Value (bracketed (char '[') (char ']') (bare (short first)).bytes
      (rest.map fun index => (bare (short index)).bytes) []) := by
  have array :
      Value (bracketed (char '[') (char ']') (bare (short first)).bytes
        ((rest.map fun index => bare (short index)).map Piece.bytes) []) := by
    rw [List.forall_mem_cons] at values
    refine Value.array ?_ ?_ ws_nil
    · rw [List.forall_mem_cons, List.forall_mem_map]
      exact ⟨spaced_bare _, fun index _ => spaced_bare _⟩
    · rw [List.forall_mem_cons, List.forall_mem_map]
      exact values
  rwa [List.map_map] at array

theorem reduces_array {first : Piece} {rest : List Piece} {space : List Byte}
    (spaced : ∀ piece ∈ first :: rest, piece.Spaced) (closing : Ws space)
    (each : ∀ piece ∈ first :: rest,
      ∃ made : List Byte × CJson Double,
        Reduces arithmetic piece.text made.1 made.2) :
    ∃ short tree,
      Reduces arithmetic
        (bracketed (char '[') (char ']') first.bytes (rest.map Piece.bytes)
          space) short tree := by
  rcases exists_partners each with ⟨pairs, same, reduced⟩
  cases pairs with
  | nil => cases same
  | cons pair pairs =>
      rw [List.map_cons, List.cons.injEq] at same
      rcases same with ⟨rfl, rfl⟩
      rw [← List.map_cons, List.forall_mem_map] at spaced
      rw [List.map_map]
      let short (pair : Piece × List Byte × CJson Double) : Piece :=
        bare pair.2.1
      have keeps : ∀ piece ∈ pair :: pairs,
          Keeps piece.1.bytes (short piece).bytes := by
        intro piece member
        rw [bytes_bare]
        exact (reduced piece member).keeps.spaced (spaced piece member)
      have kept : ∀ piece ∈ pair :: pairs,
          Keeps (short piece).bytes (short piece).bytes := by
        intro piece member
        rw [bytes_bare]
        exact (reduced piece member).kept
      refine ⟨bracketed (char '[') (char ']') (short pair).bytes
          (pairs.map fun piece => (short piece).bytes) [],
        .array (pair.2.2 :: pairs.map fun piece => piece.2.2),
        ?_, ?_, ?_, ?_, ?_,
        ⟨_, _, rfl, by decide, by decide⟩, ⟨_, _, rfl, by decide, by decide⟩⟩
      · exact value_bracket fun piece member => (reduced piece member).value
      · exact fun fuel => parses_bracket Prod.fst (fun piece => piece.2.2)
          spaced (fun piece member => (reduced piece member).long)
          (fun piece member => (reduced piece member).start) closing
      · exact fun fuel => parses_bracket short (fun piece => piece.2.2)
          (fun piece _ => spaced_bare _)
          (fun piece member => (reduced piece member).again)
          (fun piece member => (reduced piece member).head) ws_nil
      · exact keeps_bracketed (by decide) (by decide) keeps closing
      · exact keeps_bracketed (by decide) (by decide) kept ws_nil

/-- `[]` and `{}` with white space inside. -/
theorem reduces_empty {space : List Byte} (closing : Ws space) :
    Reduces arithmetic (char '[' :: (space ++ [char ']'])) (ascii "[]")
        (.array []) ∧
      Reduces arithmetic (char '{' :: (space ++ [char '}'])) (ascii "{}")
        (.object []) := by
  have parses (space : List Byte) (closing : Ws space) (fuel : Nat)
      (enough : 0 < fuel) :
      Parses arithmetic fuel (char '[' :: (space ++ [char ']']))
          (.array []) ∧
        Parses arithmetic fuel (char '{' :: (space ++ [char '}']))
          (.object []) := by
    rcases Nat.exists_eq_succ_of_ne_zero (Nat.ne_zero_of_lt enough) with
      ⟨fuel, rfl⟩
    constructor
    · intro behind _
      rw [List.cons_append, parseValue_bracket, parseArray, parseSequence,
        if_neg (by simp), List.tail_cons, closed_ws closing rfl]
      rfl
    · intro behind _
      rw [List.cons_append, parseValue_brace, parseObject, parseSequence,
        if_neg (by simp), List.tail_cons, closed_ws closing rfl]
      rfl
  have keeps (opening close : Byte) (opens : isToken opening = true)
      (closes : isToken close = true) :
      Keeps (opening :: (space ++ [close])) [opening, close] := by
    have start : Keeps [opening] [opening] :=
      keeps_tokens (by simpa using opens)
    have ending : Keeps [close] [close] := keeps_tokens (by simpa using closes)
    exact start.append ((keeps_ws closing).append ending)
  constructor
  · exact ⟨.emptyArray ws_nil,
      fun fuel enough =>
        (parses space closing fuel (Nat.zero_lt_of_lt enough)).1,
      fun fuel enough => (parses [] ws_nil fuel (Nat.zero_lt_of_lt enough)).1,
      keeps _ _ (by decide) (by decide), keeps_tokens (by decide),
      ⟨_, _, rfl, by decide, by decide⟩, ⟨_, _, rfl, by decide, by decide⟩⟩
  · exact ⟨.emptyObject ws_nil,
      fun fuel enough =>
        (parses space closing fuel (Nat.zero_lt_of_lt enough)).2,
      fun fuel enough => (parses [] ws_nil fuel (Nat.zero_lt_of_lt enough)).2,
      keeps _ _ (by decide) (by decide), keeps_tokens (by decide),
      ⟨_, _, rfl, by decide, by decide⟩, ⟨_, _, rfl, by decide, by decide⟩⟩

/-! ### Objects -/

/-- The name of a member stands for some bytes. -/
def Named (text name : List Byte) : Prop :=
  Str text ∧ ∀ rest, parseString (text ++ rest) = .ok (name, rest)

theorem exists_named {text : List Byte} (string : Str text) :
    ∃ name, Named text name := by
  rcases parseString_read string with ⟨name, read⟩
  exact ⟨name, string, read⟩

/-- A name and a value with white space around them are a member. -/
theorem reads_entry {entry : Entry} {name : List Byte}
    (spaced : entry.name.Spaced ∧ entry.value.Spaced)
    (named : Named entry.name.text name)
    (parses : Parses arithmetic fuel entry.value.text tree)
    (visible : Visible entry.value.text) :
    Reads (parseMember (parseValue arithmetic fuel)) entry.bytes
      (name, tree) := by
  intro rest ends
  rcases visible with ⟨byte, more, start, seen, -⟩
  rcases str_head named.1 with ⟨inner, quoted⟩
  have bytes :
      entry.bytes ++ rest =
        entry.name.before ++ (entry.name.text ++ (entry.name.after ++
          char ':' :: (entry.value.before ++ (entry.value.text ++
            (entry.value.after ++ rest))))) := by
    simp [Entry.bytes, Piece.bytes]
  have quote (behind : List Byte) :
      skip (entry.name.text ++ behind) = entry.name.text ++ behind := by
    rw [quoted, List.cons_append, skip_cons_of_not_blank rfl]
  have shown (behind : List Byte) :
      skip (entry.value.text ++ behind) = entry.value.text ++ behind := by
    rw [start, List.cons_append, skip_cons_of_not_blank seen]
  have value := parses (entry.value.after ++ rest)
    (ends_ws spaced.2.2 ends)
  have colon (behind : List Byte) :
      skip (char ':' :: behind) = char ':' :: behind :=
    skip_cons_of_not_blank rfl behind
  rw [parseMember, bytes, skip_ws spaced.1.1, quote, named.2]
  simp only [bind, Except.bind, skip_ws spaced.1.2, colon, byteAt_cons, ne_eq,
    not_true_eq_false, if_false, List.tail_cons, skip_ws spaced.2.1, shown,
    value, skip_ws spaced.2.2]
  rfl

theorem starts_entry {entry : Entry} (spaced : entry.name.Spaced)
    (string : Str entry.name.text) (rest : List Byte) :
    byteAt (skip (entry.bytes ++ rest)) ≠ char '}' := by
  rcases str_head string with ⟨inner, quoted⟩
  have other : char '"' ≠ char '}' := by decide
  rw [Entry.bytes, Piece.bytes]
  simp only [List.append_assoc]
  rw [skip_ws spaced.1, quoted, List.cons_append, skip_cons_of_not_blank rfl]
  exact other

theorem length_value_le (entry : Entry) :
    entry.value.text.length ≤ entry.bytes.length := by
  have inner := length_text_le entry.value
  rw [Entry.bytes, List.length_append, List.length_cons]
  omega

/-- An object is read if its members are. -/
theorem parses_brace {ι : Type} {first : ι} {rest : List ι}
    {space : List Byte} (entry : ι → Entry) (name : ι → List Byte)
    (made : ι → CJson Double)
    (spaced : ∀ index ∈ first :: rest,
      (entry index).name.Spaced ∧ (entry index).value.Spaced)
    (named : ∀ index ∈ first :: rest,
      Named (entry index).name.text (name index))
    (parses : ∀ index ∈ first :: rest, ∀ fuel,
      (entry index).value.text.length < fuel →
        Parses arithmetic fuel (entry index).value.text (made index))
    (visible : ∀ index ∈ first :: rest, Visible (entry index).value.text)
    (closing : Ws space)
    (enough :
      (bracketed (char '{') (char '}') (entry first).bytes
        (rest.map fun index => (entry index).bytes) space).length < fuel) :
    Parses arithmetic fuel
      (bracketed (char '{') (char '}') (entry first).bytes
        (rest.map fun index => (entry index).bytes) space)
      (.object ((name first, made first) ::
        rest.map fun index => (name index, made index))) := by
  rcases Nat.exists_eq_succ_of_ne_zero (Nat.ne_zero_of_lt enough) with
    ⟨fuel, rfl⟩
  intro behind _
  have here : first ∈ first :: rest := List.mem_cons_self ..
  have reads (index : ι) (member : index ∈ first :: rest) :
      Reads (parseMember (parseValue arithmetic fuel)) (entry index).bytes
        (name index, made index) := by
    refine reads_entry (spaced index member) (named index member)
      (parses index member fuel ?_) (visible index member)
    have inner := length_value_le (entry index)
    have outer := length_lt_bracketed (char '{') (char '}')
      (fun index => (entry index).bytes) space member
    omega
  have sequence := parseSequence_bracketed (char '{') (parseMember_skip fuel)
    (fun index => (entry index).bytes)
    (fun index => (name index, made index)) reads
    (starts_entry (spaced first here).1 (named first here).1) closing
    (List.mem_cons_of_mem _ (List.mem_cons_self ..)) behind
  rw [bracketed, List.cons_append, parseValue_brace, parseObject]
  rw [bracketed, List.cons_append] at sequence
  rw [sequence]
  rfl

/-- A member without white space. -/
def tight (name value : List Byte) : Entry := ⟨bare name, bare value⟩

theorem bytes_tight (name value : List Byte) :
    (tight name value).bytes = name ++ char ':' :: value := by
  rw [tight, Entry.bytes, bytes_bare, bytes_bare]

/-- An object of values, without white space. -/
theorem value_brace {ι : Type} {first : ι} {rest : List ι}
    {name short : ι → List Byte}
    (names : ∀ index ∈ first :: rest, Str (name index))
    (values : ∀ index ∈ first :: rest, Value (short index)) :
    Value (bracketed (char '{') (char '}')
      (tight (name first) (short first)).bytes
      (rest.map fun index => (tight (name index) (short index)).bytes)
      []) := by
  have object :
      Value (bracketed (char '{') (char '}')
        (tight (name first) (short first)).bytes
        ((rest.map fun index => tight (name index) (short index)).map
          Entry.bytes) []) := by
    rw [List.forall_mem_cons] at names values
    refine Value.object ?_ ?_ ?_ ws_nil
    · rw [List.forall_mem_cons, List.forall_mem_map]
      exact ⟨⟨spaced_bare _, spaced_bare _⟩,
        fun index _ => ⟨spaced_bare _, spaced_bare _⟩⟩
    · rw [List.forall_mem_cons, List.forall_mem_map]
      exact names
    · rw [List.forall_mem_cons, List.forall_mem_map]
      exact values
  rwa [List.map_map] at object

theorem Keeps.entry {entry : Entry} {short : List Byte}
    (spaced : entry.name.Spaced ∧ entry.value.Spaced)
    (string : Str entry.name.text) (keeps : Keeps entry.value.text short) :
    Keeps entry.bytes (tight entry.name.text short).bytes := by
  have colon : Keeps [char ':'] [char ':'] := keeps_tokens (by decide)
  rw [bytes_tight, Entry.bytes]
  exact ((keeps_str string).spaced spaced.1).append
    (colon.append (keeps.spaced spaced.2))

theorem reduces_object {first : Entry} {rest : List Entry}
    {space : List Byte}
    (spaced : ∀ entry ∈ first :: rest,
      entry.name.Spaced ∧ entry.value.Spaced)
    (names : ∀ entry ∈ first :: rest, Str entry.name.text)
    (closing : Ws space)
    (each : ∀ entry ∈ first :: rest,
      ∃ made : List Byte × CJson Double,
        Reduces arithmetic entry.value.text made.1 made.2) :
    ∃ short tree,
      Reduces arithmetic
        (bracketed (char '{') (char '}') first.bytes (rest.map Entry.bytes)
          space) short tree := by
  have both : ∀ entry ∈ first :: rest,
      ∃ made : List Byte × List Byte × CJson Double,
        Named entry.name.text made.1 ∧
          Reduces arithmetic entry.value.text made.2.1 made.2.2 := by
    intro entry member
    rcases exists_named (names entry member) with ⟨name, named⟩
    rcases each entry member with ⟨made, reduces⟩
    exact ⟨(name, made), named, reduces⟩
  rcases exists_partners both with ⟨pairs, same, reduced⟩
  cases pairs with
  | nil => cases same
  | cons pair pairs =>
      rw [List.map_cons, List.cons.injEq] at same
      rcases same with ⟨rfl, rfl⟩
      rw [← List.map_cons, List.forall_mem_map] at spaced
      rw [List.map_map]
      let short (pair : Entry × List Byte × List Byte × CJson Double) :
          Entry :=
        tight pair.1.name.text pair.2.2.1
      have tightened (pair : Entry × List Byte × List Byte × CJson Double) :
          (short pair).name.Spaced ∧ (short pair).value.Spaced :=
        ⟨spaced_bare _, spaced_bare _⟩
      have keeps : ∀ entry ∈ pair :: pairs,
          Keeps entry.1.bytes (short entry).bytes :=
        fun entry member => (reduced entry member).2.keeps.entry
          (spaced entry member) (reduced entry member).1.1
      have kept : ∀ entry ∈ pair :: pairs,
          Keeps (short entry).bytes (short entry).bytes :=
        fun entry member => (show Keeps (short entry).value.text _ from
          (reduced entry member).2.kept).entry (tightened entry)
          (reduced entry member).1.1
      refine ⟨bracketed (char '{') (char '}') (short pair).bytes
          (pairs.map fun entry => (short entry).bytes) [],
        .object ((pair.2.1, pair.2.2.2) ::
          pairs.map fun entry => (entry.2.1, entry.2.2.2)),
        ?_, ?_, ?_, ?_, ?_,
        ⟨_, _, rfl, by decide, by decide⟩, ⟨_, _, rfl, by decide, by decide⟩⟩
      · exact value_brace (fun entry member => (reduced entry member).1.1)
          fun entry member => (reduced entry member).2.value
      · exact fun fuel => parses_brace Prod.fst (fun entry => entry.2.1)
          (fun entry => entry.2.2.2) spaced
          (fun entry member => (reduced entry member).1)
          (fun entry member => (reduced entry member).2.long)
          (fun entry member => (reduced entry member).2.start) closing
      · exact fun fuel => parses_brace short (fun entry => entry.2.1)
          (fun entry => entry.2.2.2) (fun entry _ => tightened entry)
          (fun entry member => (reduced entry member).1)
          (fun entry member => (reduced entry member).2.again)
          (fun entry member => (reduced entry member).2.head) ws_nil
      · exact keeps_bracketed (by decide) (by decide) keeps closing
      · exact keeps_bracketed (by decide) (by decide) kept ws_nil

/-- Every value is read, and what is kept of it is a value read the same. -/
theorem exists_reduces (arithmetic : Arithmetic Double)
    (value : Value text) :
    ∃ made : List Byte × CJson Double,
      Reduces arithmetic text made.1 made.2 := by
  induction value with
  | null => exact ⟨(_, _), reduces_null⟩
  | false => exact ⟨(_, _), reduces_false⟩
  | true => exact ⟨(_, _), reduces_true⟩
  | number number =>
      rcases reduces_number number with ⟨tree, reduces⟩
      exact ⟨(_, tree), reduces⟩
  | string string =>
      rcases reduces_string string with ⟨tree, reduces⟩
      exact ⟨(_, tree), reduces⟩
  | emptyArray spaced => exact ⟨(_, _), (reduces_empty spaced).1⟩
  | emptyObject spaced => exact ⟨(_, _), (reduces_empty spaced).2⟩
  | array spaced values closing induction =>
      rcases reduces_array spaced closing induction with
        ⟨short, tree, reduces⟩
      exact ⟨(short, tree), reduces⟩
  | object spaced names values closing induction =>
      rcases reduces_object spaced names closing induction with
        ⟨short, tree, reduces⟩
      exact ⟨(short, tree), reduces⟩

end Values

/-! ## No terminator inside -/

section NulFree

variable {text : List Byte}

theorem nulFree_tokens (tokens : ∀ byte ∈ text, isToken byte = true) :
    0 ∉ text :=
  fun zero => absurd (tokens 0 zero) (by decide)

theorem nulFree_ws (spaced : Ws text) : 0 ∉ text :=
  fun zero => absurd (spaced 0 zero) (by decide)

theorem nulFree_str (string : Str text) : 0 ∉ text := by
  rcases string with ⟨each⟩
  rename_i characters
  have inside : ∀ character ∈ characters, 0 ∉ character := by
    intro character member
    cases each character member with
    | plain printable _ _ =>
        intro zero
        rw [← List.mem_singleton.mp zero] at printable
        exact absurd printable (by decide)
    | escaped short =>
        intro zero
        simp only [List.mem_cons, List.not_mem_nil, or_false] at zero
        rcases zero with backslash | letter
        · exact absurd backslash (by decide)
        · rw [← letter] at short
          exact absurd short (by decide)
    | @unicode a b c d digits =>
        intro zero
        have digit : (0 : Byte) ∈ [a, b, c, d] := by
          rw [List.mem_cons, List.mem_cons] at zero
          rcases zero with backslash | letter | digit
          · exact absurd backslash (by decide)
          · exact absurd letter (by decide)
          · exact digit
        exact absurd (digits 0 digit) (by decide)
  rw [List.mem_cons, List.mem_append, List.mem_singleton, List.mem_flatten]
  rintro (quote | ⟨character, member, zero⟩ | quote)
  · exact absurd quote (by decide)
  · exact inside character member zero
  · exact absurd quote (by decide)

theorem nulFree_piece {piece : Piece} (spaced : piece.Spaced)
    (inside : 0 ∉ piece.text) : 0 ∉ piece.bytes := by
  rw [Piece.bytes, List.mem_append, List.mem_append]
  rintro ((before | text) | after)
  · exact nulFree_ws spaced.1 before
  · exact inside text
  · exact nulFree_ws spaced.2 after

theorem nulFree_bracketed {first : List Byte} {rest : List (List Byte)}
    {space : List Byte} {opening close : Byte} (opens : 0 ≠ opening)
    (closes : 0 ≠ close) (each : ∀ text ∈ first :: rest, 0 ∉ text)
    (spaced : Ws space) : 0 ∉ bracketed opening close first rest space := by
  rw [List.forall_mem_cons] at each
  rw [bracketed, commas, List.mem_cons, List.mem_append, List.mem_append,
    List.mem_append, List.mem_flatMap, List.mem_singleton]
  rintro (same | (inside | ⟨text, member, inside⟩) | blank | same)
  · exact opens same
  · exact each.1 inside
  · rcases List.mem_cons.mp inside with comma | inside
    · exact absurd comma (by decide)
    · exact each.2 text member inside
  · exact nulFree_ws spaced blank
  · exact closes same

theorem nulFree_value (value : Value text) : 0 ∉ text := by
  induction value with
  | null => decide
  | false => decide
  | true => decide
  | number number => exact nulFree_tokens (tokens_number number)
  | string string => exact nulFree_str string
  | emptyArray spaced =>
      rw [List.mem_cons, List.mem_append, List.mem_singleton]
      rintro (same | blank | same)
      · exact absurd same (by decide)
      · exact nulFree_ws spaced blank
      · exact absurd same (by decide)
  | emptyObject spaced =>
      rw [List.mem_cons, List.mem_append, List.mem_singleton]
      rintro (same | blank | same)
      · exact absurd same (by decide)
      · exact nulFree_ws spaced blank
      · exact absurd same (by decide)
  | array spaced _ closing induction =>
      refine nulFree_bracketed (by decide) (by decide) ?_ closing
      rw [← List.map_cons, List.forall_mem_map]
      exact fun piece member =>
        nulFree_piece (spaced piece member) (induction piece member)
  | object spaced names _ closing induction =>
      refine nulFree_bracketed (by decide) (by decide) ?_ closing
      rw [← List.map_cons, List.forall_mem_map]
      intro entry member
      rw [Entry.bytes, List.mem_append, List.mem_cons]
      rintro (name | colon | inside)
      · exact nulFree_piece (spaced entry member).1
          (nulFree_str (names entry member)) name
      · exact absurd colon (by decide)
      · exact nulFree_piece (spaced entry member).2 (induction entry member)
          inside

end NulFree

/-! ## Texts -/

section Texts

variable {tree : CJson Double}

/-- The tree is read from the text, also if nothing may follow the value. -/
def Accepts (arithmetic : Arithmetic Double) (text : List Byte)
    (tree : CJson Double) : Prop :=
  ∀ behind,
    cJsonParse arithmetic (text ++ 0 :: behind) = .ok tree ∧
      Linked.readWithOpts arithmetic (text ++ 0 :: behind) true =
        .ok (tree, 0 :: behind)

theorem accepts_piece {piece : Piece} (spaced : piece.Spaced)
    (parses : ∀ fuel, piece.text.length < fuel →
      Parses arithmetic fuel piece.text tree)
    (visible : Visible piece.text) : Accepts arithmetic piece.bytes tree := by
  intro behind
  have enough :
      piece.text.length < (piece.bytes ++ 0 :: behind).length + 1 := by
    have inner := length_text_le piece
    rw [List.length_append]
    omega
  have read := parses _ enough (piece.after ++ 0 :: behind)
    (ends_ws spaced.2 (ends_cons behind (by simp)))
  have start :
      skip (piece.bytes ++ 0 :: behind) =
        piece.text ++ (piece.after ++ 0 :: behind) := by
    rcases visible with ⟨byte, more, shown, seen, -⟩
    rw [Piece.bytes, List.append_assoc, List.append_assoc, skip_ws spaced.1,
      shown, List.cons_append, skip_cons_of_not_blank seen]
  have ended : skip (piece.after ++ 0 :: behind) = 0 :: behind := by
    rw [skip_ws spaced.2, skip_cons_of_not_blank rfl]
  constructor
  · rw [cJsonParse, start, read]
    rfl
  · rw [Linked.readWithOpts, start, read]
    simp only [bind, Except.bind, if_true, ended]
    rfl

/--
Every JSON text is read, and what `cJSON_Minify` leaves of it is a value of the
grammar, is read as the same tree and is left as it is by a second call.
-/
theorem document_minified (arithmetic : Arithmetic Double) {text : List Byte}
    (document : Document text) :
    ∃ short tree,
      Accepts arithmetic text tree ∧ Value short ∧
        Accepts arithmetic short tree ∧
        ∀ behind,
          cJsonMinify (text ++ 0 :: behind) =
              some (short ++ 0 ::
                (text ++ 0 :: behind).drop (short.length + 1)) ∧
            cJsonMinify (short ++ 0 :: behind) =
              some (short ++ 0 :: behind) := by
  rcases document with ⟨spaced, value⟩
  rename_i piece
  rcases exists_reduces arithmetic value with
    ⟨⟨short, tree⟩, reduces⟩
  have whole (text : List Byte) (keeps : Keeps text short) :
      minified text = some short := by
    have ended := keeps []
    rw [List.append_nil] at ended
    rw [minified, ended]
    exact congrArg some (List.append_nil short)
  have bared : (bare short).bytes = short := bytes_bare short
  refine ⟨short, tree, accepts_piece spaced reduces.long reduces.start,
    reduces.value, ?_, fun behind => ⟨?_, ?_⟩⟩
  · rw [← bared]
    exact accepts_piece (spaced_bare short) reduces.again reduces.head
  · exact cJsonMinify_eq (nulFree_piece spaced (nulFree_value value))
      (whole _ (reduces.keeps.spaced spaced)) behind
  · have again := cJsonMinify_eq (nulFree_value reduces.value)
      (whole _ reduces.kept) behind
    rw [again, List.drop_append, List.drop_of_length_le (Nat.le_succ _),
      Nat.add_sub_cancel_left]
    rfl

/-- An object with an array of a number and a string with an escape. -/
theorem document_nested :
    Document (ascii " \x7b \"a\" : [ 1 , \"\\n\" ] \x7d ") := by
  have blank : Ws (ascii " ") := by decide
  have spaced (text : List Byte) :
      (Piece.mk (ascii " ") text (ascii " ")).Spaced :=
    ⟨blank, blank⟩
  have name : Str (ascii "\"a\"") :=
    @Str.quoted [ascii "a"] fun character member => by
      rw [List.mem_singleton.mp member]
      exact .plain (by decide) (by decide) (by decide)
  have text : Str (ascii "\"\\n\"") :=
    @Str.quoted [ascii "\\n"] fun character member => by
      rw [List.mem_singleton.mp member]
      exact .escaped (by decide)
  have one : Value (ascii "1") :=
    .number (@Number.parts [] (ascii "1") [] [] (by simp)
      (Or.inr ⟨⟨by decide, by decide⟩, by decide⟩) (Or.inl rfl) (Or.inl rfl))
  have array : Value (ascii "[ 1 , \"\\n\" ]") :=
    @Value.array ⟨ascii " ", ascii "1", ascii " "⟩
      [⟨ascii " ", ascii "\"\\n\"", ascii " "⟩] []
      (fun piece member => by
        rcases List.mem_cons.mp member with rfl | member
        · exact spaced _
        · rw [List.mem_singleton.mp member]
          exact spaced _)
      (fun piece member => by
        rcases List.mem_cons.mp member with rfl | member
        · exact one
        · rw [List.mem_singleton.mp member]
          exact .string text)
      ws_nil
  have object : Value (ascii "\x7b \"a\" : [ 1 , \"\\n\" ] \x7d") :=
    @Value.object
      ⟨⟨ascii " ", ascii "\"a\"", ascii " "⟩,
        ⟨ascii " ", ascii "[ 1 , \"\\n\" ]", ascii " "⟩⟩ [] []
      (fun entry member => by
        rw [List.mem_singleton.mp member]
        exact ⟨spaced _, spaced _⟩)
      (fun entry member => by
        rw [List.mem_singleton.mp member]
        exact name)
      (fun entry member => by
        rw [List.mem_singleton.mp member]
        exact array)
      ws_nil
  exact @Document.mk ⟨ascii " ", _, ascii " "⟩ (spaced _) object

theorem document_minified_nested :
    ∃ short tree,
      Accepts rational (ascii " \x7b \"a\" : [ 1 , \"\\n\" ] \x7d ") tree ∧
        Value short ∧ Accepts rational short tree ∧
        ∀ behind,
          cJsonMinify
                (ascii " \x7b \"a\" : [ 1 , \"\\n\" ] \x7d " ++
                  0 :: behind) =
              some (short ++ 0 ::
                (ascii " \x7b \"a\" : [ 1 , \"\\n\" ] \x7d " ++
                  0 :: behind).drop (short.length + 1)) ∧
            cJsonMinify (short ++ 0 :: behind) =
              some (short ++ 0 :: behind) :=
  document_minified rational document_nested

end Texts

/-! ## Printed texts -/

section Printed

variable {fmt : Bool}

/-- Formatting is removed from a line of an object. -/
theorem keeps_memberLine (fmt : Bool) {name long short : List Byte}
    (nulFree : 0 ∉ name) (keeps : Keeps long short) (depth other : Nat) :
    Keeps (memberLine fmt depth (printStringPtr name, long))
      (memberLine false other (printStringPtr name, short)) := by
  have feed : Ws (format fmt [char '\n']) := ws_format (by decide)
  have indent : Ws (format fmt (tabs depth)) := ws_format (ws_tabs depth)
  have gap : Ws (format fmt [char '\t']) := ws_format (by decide)
  have colon : Keeps [char ':'] [char ':'] := keeps_tokens (by decide)
  exact (((keeps_ws feed).append (keeps_ws indent)).append
    (keeps_str (str_printStringPtr nulFree))).append
      (colon.append ((keeps_ws gap).append keeps))

/-- What is kept of a printed array is the array printed without formatting. -/
theorem keeps_printArray {ι : Type} {items : List ι}
    {long short : ι → List Byte}
    (each : ∀ item ∈ items, Keeps (long item) (short item)) :
    Keeps (printArray fmt (items.map long))
      (printArray false (items.map short)) := by
  have opens : Keeps [char '['] [char '['] := keeps_tokens (by decide)
  have closes : Keeps [char ']'] [char ']'] := keeps_tokens (by decide)
  have gap : Ws (format fmt [char ' ']) := ws_format (by decide)
  cases items with
  | nil =>
      have empty : Keeps (ascii "[]") (ascii "[]") := keeps_tokens (by decide)
      exact empty
  | cons item items =>
      rw [List.forall_mem_cons] at each
      have others := keeps_flatMap fun item member =>
        (keeps_ws gap).append (each.2 item member)
      rw [List.map_cons, List.map_cons, printArray_cons, printArray_cons,
        List.flatMap_map, List.flatMap_map]
      exact opens.append (each.1.append (others.append closes))

theorem keeps_printObject {ι : Type} {members : List ι}
    {name long short : ι → List Byte}
    (names : ∀ member ∈ members, 0 ∉ name member)
    (each : ∀ member ∈ members, Keeps (long member) (short member))
    (depth other : Nat) :
    Keeps
      (printObject fmt depth
        (members.map fun member =>
          (printStringPtr (name member), long member)))
      (printObject false other
        (members.map fun member =>
          (printStringPtr (name member), short member))) := by
  have opens : Keeps [char '{'] [char '{'] := keeps_tokens (by decide)
  have closes : Keeps [char '}'] [char '}'] := keeps_tokens (by decide)
  have feed : Ws (format fmt [char '\n']) := ws_format (by decide)
  cases members with
  | nil =>
      have line : Ws [char '\n'] := by decide
      have inside : Ws (format fmt (char '\n' :: tabs (depth - 1))) :=
        ws_format (line.append (ws_tabs (depth - 1)))
      exact opens.append ((keeps_ws inside).append closes)
  | cons member members =>
      rw [List.forall_mem_cons] at names each
      have others := keeps_flatMap fun member inside =>
        keeps_memberLine fmt (names.2 member inside)
          (each.2 member inside) (depth + 1) (other + 1)
      have indent : Ws (format fmt (tabs depth)) := ws_format (ws_tabs depth)
      rw [List.map_cons, List.map_cons, printObject_cons, printObject_cons,
        List.flatMap_map, List.flatMap_map]
      exact opens.append
        ((keeps_memberLine fmt names.1 each.1 (depth + 1) (other + 1)).append
          (others.append ((keeps_ws feed).append
            ((keeps_ws indent).append closes))))

/-- What is kept of a printed tree is the tree printed without formatting. -/
theorem Printable.keeps (exact : arithmetic.Exact) {tree : CJson Double}
    (printable : Printable arithmetic tree) (depth other : Nat) :
    Keeps (printValue arithmetic fmt depth tree)
      (printValue arithmetic false other tree) := by
  have words : Keeps (ascii "null") (ascii "null") ∧
      Keeps (ascii "false") (ascii "false") ∧
        Keeps (ascii "true") (ascii "true") :=
    ⟨keeps_tokens (by decide), keeps_tokens (by decide),
      keeps_tokens (by decide)⟩
  induction printable generalizing depth other with
  | null => exact words.1
  | bool value =>
      cases value with
      | false => exact words.2.1
      | true => exact words.2.2
  | number valueint =>
      rw [printValue, printValue, printNumber_ofInt exact]
      exact keeps_tokens (tokens_number (number_formatInt _))
  | string nulFree => exact keeps_str (str_printStringPtr nulFree)
  | array items induction =>
      rw [printValue, printValue, printItems_eq_map, printItems_eq_map]
      exact keeps_printArray fun item member =>
        induction item member (depth + 1) (other + 1)
  | object names values induction =>
      rw [printValue, printValue, printMembers_eq_map, printMembers_eq_map]
      exact keeps_printObject names
        (fun member inside => induction member inside (depth + 1) (other + 1))
        depth other

/--
`cJSON_Minify` leaves of the text of `cJSON_Print` exactly the text of
`cJSON_PrintUnformatted`.
-/
theorem minify_print (exact : arithmetic.Exact) {tree : CJson Double}
    (printable : Printable arithmetic tree) (behind : List Byte) :
    cJsonMinify (cJsonPrint arithmetic tree ++ 0 :: behind) =
      some (printValue arithmetic false 0 tree ++ 0 ::
        (cJsonPrint arithmetic tree ++ 0 :: behind).drop
          ((printValue arithmetic false 0 tree).length + 1)) := by
  have keeps :
      Keeps (cJsonPrint arithmetic tree)
        (printValue arithmetic false 0 tree) :=
    printable.keeps exact 0 0
  have nulFree : 0 ∉ cJsonPrint arithmetic tree :=
    nulFree_value (printable.value exact true 0)
  have ended := keeps []
  rw [List.append_nil] at ended
  refine cJsonMinify_eq nulFree ?_ behind
  rw [minified, ended]
  exact congrArg some (List.append_nil _)

/-- An object with an array, which is printed on several lines. -/
def nestedTree : CJson ℚ :=
  .object [(ascii "a b", .array [.null, .bool true]), (ascii "c", .string [])]

theorem minify_print_nested :
    cJsonMinify (cJsonPrint rational nestedTree ++ 0 :: []) =
      some (printValue rational false 0 nestedTree ++ 0 ::
        (cJsonPrint rational nestedTree ++ 0 :: []).drop
          ((printValue rational false 0 nestedTree).length + 1)) := by
  have array : Printable rational (.array [.null, .bool true]) := by
    refine .array fun item member => ?_
    rcases List.mem_cons.mp member with rfl | member
    · exact .null
    · rw [List.mem_singleton.mp member]
      exact .bool true
  refine minify_print exact_rational (.object ?names ?values) []
  case names => decide
  case values =>
    intro entry member
    rcases List.mem_cons.mp member with rfl | member
    · exact array
    · rw [List.mem_singleton.mp member]
      exact .string List.not_mem_nil

end Printed

end CommonCode.Json
