import CommonCode.Json.Parse

/-!
# The buffer of a parsed string

`parse_string` counts the bytes of a string in a first loop, where an escape is
one, and allocates one more; a second loop decodes the string into the buffer.
The second loop takes four bytes for the digits behind `\u`, whatever they are,
and with them the quote at the end of the string if it comes too early: what it
writes then has no bound.

If every escape is whole, the string fits.  The parser goes on in the text that
it got, so what is demanded of the strings of a text holds wherever it comes.
-/

namespace CommonCode.Json

open CommonCode.Lib.Bits
open CommonCode.Lib.CString
open CommonCode.Lib.CScan

/-! ## The length -/

/-- `len` behind the first loop of `parse_string`. -/
def stringLength : List Byte → Nat
  | [] => 0
  | byte :: rest =>
      if byte = char '"' ∨ byte = 0 then 0
      else if byte ≠ char '\\' then stringLength rest + 1
      else
        match rest with
        | [] => 1
        | _ :: more => stringLength more + 1

/-- Four hexadecimal digits come first. -/
def fourDigits : List Byte → Bool
  | a :: b :: c :: d :: _ =>
      (hexValue a).isSome && (hexValue b).isSome && (hexValue c).isSome &&
        (hexValue d).isSome
  | _ => false

/--
Up to the quote, no backslash is the last byte, and the letter `u` behind one is
followed by four digits.
-/
def wholeEscapes : List Byte → Bool
  | [] => true
  | byte :: rest =>
      if byte = char '"' ∨ byte = 0 then true
      else if byte ≠ char '\\' then wholeEscapes rest
      else
        match rest with
        | [] => false
        | token :: more =>
            token != 0 && (token != char 'u' || fourDigits more) &&
              wholeEscapes more

/-- The escapes are whole behind every quote of a text. -/
def WholeStrings (text : List Byte) : Prop :=
  ∀ rest ∈ text.tails, byteAt rest = char '"' → wholeEscapes rest.tail = true

instance (text : List Byte) : Decidable (WholeStrings text) :=
  inferInstanceAs (Decidable (∀ rest ∈ text.tails, _ → _))

theorem WholeStrings.suffix {text rest : List Byte}
    (whole : WholeStrings text) (behind : rest <:+ text) :
    WholeStrings rest := by
  intro later inside
  rw [List.mem_tails] at inside
  exact whole later ((List.mem_tails ..).mpr (inside.trans behind))

section Lengths

variable {byte : Byte} {rest : List Byte}

/-- A byte that is neither the end of a string nor a backslash. -/
def Ordinary (byte : Byte) : Prop :=
  ¬ (byte = char '"' ∨ byte = 0) ∧ byte ≠ char '\\'

instance (byte : Byte) : Decidable (Ordinary byte) :=
  inferInstanceAs (Decidable (_ ∧ _))

theorem stringLength_ordinary (ordinary : Ordinary byte) :
    stringLength (byte :: rest) = stringLength rest + 1 := by
  rw [stringLength.eq_def]
  exact (if_neg ordinary.1).trans (if_pos ordinary.2)

theorem wholeEscapes_ordinary (ordinary : Ordinary byte) :
    wholeEscapes (byte :: rest) = wholeEscapes rest := by
  rw [wholeEscapes.eq_def]
  exact (if_neg ordinary.1).trans (if_pos ordinary.2)

/-- Nothing is demanded behind the end of a string. -/
theorem wholeEscapes_quote (rest : List Byte) :
    wholeEscapes (char '"' :: rest) = true := by
  rw [wholeEscapes.eq_def]
  exact if_pos (Or.inl rfl)

theorem ordinary_digit (digit : (hexValue byte).isSome) : Ordinary byte := by
  constructor
  · rintro (rfl | rfl)
    · exact absurd digit (by decide)
    · exact absurd digit (by decide)
  · rintro rfl
    exact absurd digit (by decide)

/-- The digits are part of the string. -/
theorem exists_fourDigits (digits : fourDigits rest = true) :
    ∃ a b c d more,
      rest = a :: b :: c :: d :: more ∧
        wholeEscapes rest = wholeEscapes more ∧
        stringLength rest = stringLength more + 4 := by
  match rest, digits with
  | a :: b :: c :: d :: more, digits =>
      rw [fourDigits, Bool.and_eq_true, Bool.and_eq_true, Bool.and_eq_true]
        at digits
      rcases digits with ⟨⟨⟨first, second⟩, third⟩, fourth⟩
      refine ⟨a, b, c, d, more, rfl, ?_, ?_⟩
      · rw [wholeEscapes_ordinary (ordinary_digit first),
          wholeEscapes_ordinary (ordinary_digit second),
          wholeEscapes_ordinary (ordinary_digit third),
          wholeEscapes_ordinary (ordinary_digit fourth)]
      · rw [stringLength_ordinary (ordinary_digit first),
          stringLength_ordinary (ordinary_digit second),
          stringLength_ordinary (ordinary_digit third),
          stringLength_ordinary (ordinary_digit fourth)]

theorem wholeEscapes_backslash
    (whole : wholeEscapes (char '\\' :: rest) = true) :
    ∃ token more,
      rest = token :: more ∧ (token = char 'u' → fourDigits more = true) ∧
        wholeEscapes more = true := by
  cases rest with
  | nil => cases whole
  | cons token more =>
      rw [wholeEscapes, if_neg (by decide), if_neg (by decide)] at whole
      simp only [Bool.and_eq_true, bne_iff_ne, Bool.or_eq_true] at whole
      exact ⟨token, more, rfl, whole.1.2.resolve_left ∘ not_not_intro,
        whole.2⟩

theorem stringLength_backslash (token : Byte) (more : List Byte) :
    stringLength (char '\\' :: token :: more) = stringLength more + 1 := by
  rw [stringLength, if_neg (by decide), if_neg (by decide)]

theorem length_continuation (count uc : Nat) :
    (continuation count uc).length = count := by
  induction count generalizing uc with
  | zero => rfl
  | succ count induction => rw [continuation, List.length_append, induction,
      List.length_singleton]

theorem length_utf8_le (uc : Nat) : (utf8 uc).length ≤ 4 := by
  rw [utf8, List.length_cons, length_continuation]
  split_ifs <;> decide

theorem exists_tail {text : List Byte} (here : byteAt text = byte)
    (nonzero : byte ≠ 0) :
    ∃ more, text = byte :: more := by
  cases text with
  | nil => exact absurd here.symm nonzero
  | cons first more => exact ⟨more, congrArg (· :: more) here⟩

theorem parseEscape_cons (a b c d : Byte) (rest : List Byte) :
    parseEscape (char 'u' :: a :: b :: c :: d :: rest) =
      let uc := parseHex4 [a, b, c, d]
      if 0xDC00 ≤ uc ∧ uc ≤ 0xDFFF ∨ uc = 0 then ([], d :: rest)
      else if 0xD800 ≤ uc ∧ uc ≤ 0xDBFF then
        if byteAt rest ≠ char '\\' ∨ byteAt (rest.drop 1) ≠ char 'u' then
          ([], d :: rest)
        else
          let uc2 := parseHex4 (rest.drop 2)
          if uc2 < 0xDC00 ∨ 0xDFFF < uc2 then ([], rest.drop 5)
          else
            (utf8 (0x10000 + ((uc &&& 0x3FF) <<< 10 ||| uc2 &&& 0x3FF)),
              rest.drop 5)
      else (utf8 uc, d :: rest) := by
  have token (short : Char) (other : char 'u' ≠ char short) :
      byteAt (char 'u' :: a :: b :: c :: d :: rest) ≠ char short :=
    other
  rw [parseEscape, if_neg (token 'b' (by decide)),
    if_neg (token 'f' (by decide)), if_neg (token 'n' (by decide)),
    if_neg (token 'r' (by decide)), if_neg (token 't' (by decide)),
    if_pos (byteAt_cons ..)]
  rfl

/-- The digits are taken, and with a first surrogate also the second one. -/
theorem parseEscape_digits (a b c d : Byte) (behind : List Byte) :
    ∃ out, out.length ≤ 4 ∧
      (parseEscape (char 'u' :: a :: b :: c :: d :: behind) =
          (out, d :: behind) ∨
        ∃ low,
          behind = char '\\' :: char 'u' :: low ∧
            parseEscape (char 'u' :: a :: b :: c :: d :: behind) =
              (out, low.drop 3)) := by
  have paired
      (second :
        ¬ (byteAt behind ≠ char '\\' ∨ byteAt (behind.drop 1) ≠ char 'u')) :
      ∃ low, behind = char '\\' :: char 'u' :: low := by
    rw [not_or, not_not, not_not] at second
    rcases exists_tail second.1 (by decide) with ⟨more, rfl⟩
    rcases exists_tail second.2 (by decide) with ⟨low, same⟩
    exact ⟨low, congrArg _ same⟩
  simp only [parseEscape_cons]
  split_ifs with invalid surrogate alone second
  · exact ⟨[], Nat.zero_le _, Or.inl rfl⟩
  · exact ⟨[], Nat.zero_le _, Or.inl rfl⟩
  · rcases paired alone with ⟨low, rfl⟩
    exact ⟨[], Nat.zero_le _, Or.inr ⟨low, rfl, rfl⟩⟩
  · rcases paired alone with ⟨low, rfl⟩
    exact ⟨_, length_utf8_le _, Or.inr ⟨low, rfl, rfl⟩⟩
  · exact ⟨_, length_utf8_le _, Or.inl rfl⟩

/-- Any other letter stands for one byte. -/
theorem parseEscape_letter {token : Byte} (other : token ≠ char 'u')
    (more : List Byte) :
    ∃ out, out.length = 1 ∧
      parseEscape (token :: more) = (out, token :: more) := by
  simp only [parseEscape, byteAt_cons]
  split_ifs
  all_goals exact ⟨_, rfl, rfl⟩

/-- The string is as whole behind an escape, and has room for it. -/
theorem parseEscape_fits (whole : wholeEscapes (char '\\' :: rest) = true) :
    wholeEscapes ((parseEscape rest).2.drop 1) = true ∧
      (parseEscape rest).1.length +
          stringLength ((parseEscape rest).2.drop 1) ≤
        stringLength (char '\\' :: rest) := by
  rcases wholeEscapes_backslash whole with
    ⟨token, more, rfl, digits, remaining⟩
  rw [stringLength_backslash]
  by_cases unicode : token = char 'u'
  · subst unicode
    rcases exists_fourDigits (digits rfl) with
      ⟨a, b, c, d, behind, rfl, same, length⟩
    rw [same] at remaining
    rw [length]
    rcases parseEscape_digits a b c d behind with
      ⟨out, few, single | ⟨low, rfl, pair⟩⟩
    · rw [single]
      exact ⟨remaining, by
        show out.length + stringLength behind ≤ _
        omega⟩
    · rcases wholeEscapes_backslash remaining with
        ⟨_, _, ⟨⟩, lowDigits, remaining⟩
      rcases exists_fourDigits (lowDigits rfl) with
        ⟨_, _, _, _, last, rfl, same, length⟩
      rw [same] at remaining
      rw [pair, stringLength_backslash, length]
      exact ⟨remaining, by
        show out.length + stringLength last ≤ _
        omega⟩
  · rcases parseEscape_letter unicode more with ⟨out, one, escaped⟩
    rw [escaped, one, Nat.add_comm]
    exact ⟨remaining, le_rfl⟩

/-- What is written into the buffer, without the terminator. -/
theorem length_parseChars_le (text : List Byte)
    (whole : wholeEscapes text = true) :
    (parseChars text).1.length ≤ stringLength text := by
  fun_induction parseChars text with
  | case1 => exact Nat.zero_le _
  | case2 => exact Nat.zero_le _
  | case3 byte rest inside plain out ptr parsed induction =>
      rw [wholeEscapes_ordinary ⟨inside, plain⟩] at whole
      rw [stringLength_ordinary ⟨inside, plain⟩, List.length_cons]
      rw [parsed] at induction
      exact Nat.succ_le_succ (induction whole)
  | case4 byte rest _ backslash escaped out ptr parsed induction =>
      rw [not_not.mp backslash] at whole ⊢
      rcases parseEscape_fits whole with ⟨remaining, fits⟩
      rw [parsed] at induction
      rw [List.length_append]
      exact (Nat.add_le_add_left (induction remaining) _).trans fits

/-- A string with whole escapes fits into its buffer. -/
theorem length_parseString_le {str out ptr : List Byte}
    (parsed : parseString str = .ok (out, ptr)) (whole : WholeStrings str) :
    out.length ≤ stringLength str.tail := by
  rw [parseString] at parsed
  split at parsed
  · cases parsed
  case isFalse quoted =>
    cases parsed
    apply length_parseChars_le
    exact whole str ((List.mem_tails ..).mpr (List.suffix_refl _))
      (not_not.mp quoted)

end Lengths

/-! ## The text behind -/

/-- What a parser leaves is the end of what it has got. -/
def Consumes {α : Type}
    (parse : List Byte → Except (List Byte) (α × List Byte)) : Prop :=
  ∀ ⦃text : List Byte⦄ ⦃value : α⦄ ⦃rest : List Byte⦄,
    parse text = .ok (value, rest) → rest <:+ text

theorem skip_suffix (text : List Byte) : skip text <:+ text :=
  List.dropWhile_suffix _

theorem parseEscape_suffix (ptr : List Byte) :
    (parseEscape ptr).2 <:+ ptr := by
  simp only [parseEscape]
  split_ifs
  all_goals first
    | exact List.suffix_refl _
    | exact List.drop_suffix ..
    | exact (List.drop_suffix ..).trans (List.drop_suffix ..)

theorem parseChars_suffix (text : List Byte) :
    (parseChars text).2 <:+ text := by
  fun_induction parseChars text with
  | case1 => exact List.suffix_refl _
  | case2 => exact List.suffix_refl _
  | case3 byte rest _ _ out ptr parsed induction =>
      rw [parsed] at induction
      exact induction.trans (List.suffix_cons ..)
  | case4 byte rest _ _ escaped out ptr parsed induction =>
      rw [parsed] at induction
      exact induction.trans ((List.drop_suffix ..).trans
        ((parseEscape_suffix rest).trans (List.suffix_cons ..)))

theorem consumes_string : Consumes parseString := by
  intro text value rest parsed
  rw [parseString] at parsed
  split at parsed
  · cases parsed
  · have inner := parseChars_suffix text.tail
    cases parsed
    split_ifs
    · exact (List.tail_suffix _).trans (inner.trans (List.tail_suffix _))
    · exact inner.trans (List.tail_suffix _)

section Numbers

variable {Double : Type} (arithmetic : Arithmetic Double)

theorem parseDigits_suffix (n : Double) (text : List Byte) :
    (parseDigits arithmetic n text).2 <:+ text := by
  induction text generalizing n with
  | nil => exact List.suffix_refl _
  | cons byte rest induction =>
      rw [parseDigits]
      split_ifs
      · exact (induction _).trans (List.suffix_cons ..)
      · exact List.suffix_refl _

theorem parseFraction_suffix (n scale : Double) (text : List Byte) :
    (parseFraction arithmetic n scale text).2.2 <:+ text := by
  induction text generalizing n scale with
  | nil => exact List.suffix_refl _
  | cons byte rest induction =>
      rw [parseFraction]
      split_ifs
      · exact (induction _ _).trans (List.suffix_cons ..)
      · exact List.suffix_refl _

theorem parseExponent_suffix (subscale : BitVec 32) (text : List Byte) :
    (parseExponent subscale text).2 <:+ text := by
  induction text generalizing subscale with
  | nil => exact List.suffix_refl _
  | cons byte rest induction =>
      rw [parseExponent]
      split_ifs
      · exact (induction _).trans (List.suffix_cons ..)
      · exact List.suffix_refl _

/-- A sign, or another byte, that may be left out. -/
theorem tail_suffix_of (condition : Prop) [Decidable condition]
    (text : List Byte) :
    (if condition then text.tail else text) <:+ text := by
  split_ifs
  · exact List.tail_suffix _
  · exact List.suffix_refl _

theorem parseNumber_suffix (text : List Byte) :
    (parseNumber arithmetic text).2 <:+ text := by
  rw [parseNumber]
  have unsigned := tail_suffix_of (byteAt text = char '-') text
  generalize (if byteAt text = char '-' then text.tail else text) = digits
    at *
  have later := tail_suffix_of (byteAt digits = char '0') digits
  generalize (if byteAt digits = char '0' then digits.tail else digits) = num
    at *
  refine List.IsSuffix.trans ?_ (later.trans unsigned)
  have whole :
      (if isDigit (byteAt num) ∧ byteAt num ≠ char '0' then
        parseDigits arithmetic (arithmetic.ofInt 0) num
      else (arithmetic.ofInt 0, num)).2 <:+ num := by
    split_ifs
    · exact parseDigits_suffix ..
    · exact List.suffix_refl _
  generalize (if isDigit (byteAt num) ∧ byteAt num ≠ char '0' then
    parseDigits arithmetic (arithmetic.ofInt 0) num
    else (arithmetic.ofInt 0, num)) = result at *
  rcases result with ⟨n, num⟩
  refine List.IsSuffix.trans ?_ whole
  dsimp only
  have fraction :
      (if byteAt num = char '.' ∧ isDigit (byteAt num.tail) then
        parseFraction arithmetic n (arithmetic.ofInt 0) num.tail
      else (n, arithmetic.ofInt 0, num)).2.2 <:+ num := by
    split_ifs
    · exact (parseFraction_suffix ..).trans (List.tail_suffix _)
    · exact List.suffix_refl _
  generalize (if byteAt num = char '.' ∧ isDigit (byteAt num.tail) then
    parseFraction arithmetic n (arithmetic.ofInt 0) num.tail
    else (n, arithmetic.ofInt 0, num)) = result at *
  refine List.IsSuffix.trans ?_ fraction
  have signed := tail_suffix_of
    (byteAt result.2.2.tail = char '+' ∨ byteAt result.2.2.tail = char '-')
    result.2.2.tail
  by_cases exponent :
      byteAt result.2.2 = char 'e' ∨ byteAt result.2.2 = char 'E'
  · rw [if_pos exponent]
    exact (parseExponent_suffix ..).trans (signed.trans (List.tail_suffix _))
  · rw [if_neg exponent]

end Numbers

section Sequences

variable {α : Type}
variable {element : List Byte → Except (List Byte) (α × List Byte)}

theorem Consumes.more (consumes : Consumes element) (fuel : Nat) :
    Consumes (parseMore element fuel) := by
  induction fuel with
  | zero =>
      intro text value rest parsed
      cases parsed
      exact List.suffix_refl _
  | succ fuel induction =>
      intro text values rest parsed
      rw [parseMore] at parsed
      split at parsed
      · cases first : element text.tail with
        | error ep =>
            rw [first] at parsed
            cases parsed
        | ok result =>
            rw [first] at parsed
            change Except.bind (parseMore element fuel result.2) _ = _ at parsed
            cases later : parseMore element fuel result.2 with
            | error ep =>
                rw [later] at parsed
                cases parsed
            | ok results =>
                rw [later] at parsed
                cases parsed
                exact (induction later).trans
                  ((consumes first).trans (List.tail_suffix _))
      · cases parsed
        exact List.suffix_refl _

theorem Consumes.sequence (consumes : Consumes element)
    (opening closing : Byte) :
    Consumes (parseSequence element opening closing) := by
  intro text values rest parsed
  rw [parseSequence] at parsed
  have inside : skip text.tail <:+ text :=
    (skip_suffix _).trans (List.tail_suffix _)
  split at parsed
  · cases parsed
  dsimp only at parsed
  split at parsed
  · cases parsed
    exact (List.tail_suffix _).trans inside
  cases first : element (skip text.tail) with
  | error ep =>
      rw [first] at parsed
      cases parsed
  | ok result =>
      rw [first] at parsed
      change Except.bind (parseMore element _ result.2) _ = _ at parsed
      cases later : parseMore element result.2.length result.2 with
      | error ep =>
          rw [later] at parsed
          cases parsed
      | ok results =>
          rw [later] at parsed
          change (if _ then _ else _) = _ at parsed
          split at parsed
          · cases parsed
            exact (List.tail_suffix _).trans ((consumes.more _ later).trans
              ((consumes first).trans inside))
          · cases parsed

end Sequences

section Values

variable {Double : Type}
variable {parse : List Byte → Except (List Byte) (CJson Double × List Byte)}

theorem Consumes.item (consumes : Consumes parse) :
    Consumes (parseItem parse) := by
  intro text value rest parsed
  rw [parseItem] at parsed
  cases inner : parse (skip text) with
  | error ep =>
      rw [inner] at parsed
      cases parsed
  | ok result =>
      rw [inner] at parsed
      cases parsed
      exact (skip_suffix _).trans ((consumes inner).trans (skip_suffix _))

theorem Consumes.member (consumes : Consumes parse) :
    Consumes (parseMember parse) := by
  intro text value rest parsed
  rw [parseMember] at parsed
  cases named : parseString (skip text) with
  | error ep =>
      rw [named] at parsed
      cases parsed
  | ok name =>
      rw [named] at parsed
      change (if _ then _ else _) = _ at parsed
      split at parsed
      · cases parsed
      · cases inner : parse (skip (skip name.2).tail) with
        | error ep =>
            rw [inner] at parsed
            cases parsed
        | ok result =>
            rw [inner] at parsed
            cases parsed
            exact (skip_suffix _).trans ((consumes inner).trans
              ((skip_suffix _).trans ((List.tail_suffix _).trans
                ((skip_suffix _).trans ((consumes_string named).trans
                  (skip_suffix _))))))

/-- A tree is made of the values; the text behind is the same. -/
theorem Consumes.map {α β : Type}
    {parse : List Byte → Except (List Byte) (α × List Byte)}
    (consumes : Consumes parse) (use : α → β) :
    Consumes fun text => do
      let (value, rest) ← parse text
      return (use value, rest) := by
  intro text value rest parsed
  dsimp only at parsed
  cases inner : parse text with
  | error ep =>
      rw [inner] at parsed
      cases parsed
  | ok result =>
      rw [inner] at parsed
      cases parsed
      exact consumes inner

theorem consumes_value (arithmetic : Arithmetic Double) (fuel : Nat) :
    Consumes (parseValue arithmetic fuel) := by
  induction fuel with
  | zero =>
      intro text value rest parsed
      cases parsed
  | succ fuel induction =>
      intro text value rest parsed
      rw [parseValue] at parsed
      split_ifs at parsed
      · cases parsed
        exact List.drop_suffix ..
      · cases parsed
        exact List.drop_suffix ..
      · cases parsed
        exact List.drop_suffix ..
      · exact consumes_string.map CJson.string parsed
      · rw [Except.ok.injEq] at parsed
        have behind := parseNumber_suffix arithmetic text
        rw [parsed] at behind
        exact behind
      · exact (induction.item.sequence _ _).map CJson.array parsed
      · exact (induction.member.sequence _ _).map CJson.object parsed

end Values

end CommonCode.Json
