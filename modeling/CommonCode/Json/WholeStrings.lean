import CommonCode.Json.Acceptance

/-!
# The strings of JSON texts are whole

The parser on the heap asks of a text that the escapes behind its quotes are
whole, as a string may overrun its buffer otherwise.  Every text of the grammar
of JSON meets this, in front of its terminator and whatever it nests.

What is shown of a part of a text is that it keeps this condition of the text
behind it; such parts may be put together.
-/

namespace CommonCode.Json

open CommonCode.Lib.Bits
open CommonCode.Lib.CScan
open CommonCode.Lib.CString
open CommonCode.Lib.JsonGrammar

/-! ## Parts of a text -/

section Sound

variable {text front : List Byte} {byte : Byte}

/-- In front of whole strings the text leaves all strings whole. -/
def Sound (text : List Byte) : Prop :=
  ∀ ⦃rest : List Byte⦄, WholeStrings rest → wholeEscapes rest = true →
    WholeStrings (text ++ rest) ∧ wholeEscapes (text ++ rest) = true

theorem sound_nil : Sound [] :=
  fun _ whole escapes => ⟨whole, escapes⟩

theorem Sound.append (left : Sound front) (right : Sound text) :
    Sound (front ++ text) := by
  intro rest whole escapes
  rw [List.append_assoc]
  exact left (right whole escapes).1 (right whole escapes).2

/-- Another byte in front concerns the strings only if it is a quote. -/
theorem wholeStrings_cons (quoted : byte = char '"' → wholeEscapes text = true)
    (whole : WholeStrings text) : WholeStrings (byte :: text) := by
  rw [WholeStrings, List.tails_cons, List.forall_mem_cons]
  exact ⟨quoted, whole⟩

theorem wholeStrings_ordinary (ordinary : Ordinary byte)
    (whole : WholeStrings text) : WholeStrings (byte :: text) :=
  wholeStrings_cons (fun quote => absurd (Or.inl quote) ordinary.1) whole

theorem sound_ordinary (ordinary : ∀ byte ∈ text, Ordinary byte) :
    Sound text := by
  intro rest whole escapes
  induction text with
  | nil => exact ⟨whole, escapes⟩
  | cons byte text induction =>
      rw [List.forall_mem_cons] at ordinary
      rcases induction ordinary.2 with ⟨strings, inside⟩
      rw [List.cons_append]
      exact ⟨wholeStrings_ordinary ordinary.1 strings,
        (wholeEscapes_ordinary ordinary.1).trans inside⟩

/-- An escape is whole if four digits come behind the letter `u`. -/
theorem wholeEscapes_escape (nonzero : byte ≠ 0)
    (digits : byte = char 'u' → fourDigits text = true)
    (whole : wholeEscapes text = true) :
    wholeEscapes (char '\\' :: byte :: text) = true := by
  rw [wholeEscapes, if_neg (by decide), if_neg (by decide), whole]
  simp only [Bool.and_true, Bool.and_eq_true, bne_iff_ne, Bool.or_eq_true]
  exact ⟨nonzero, (em (byte = char 'u')).symm.imp_right digits⟩

theorem sound_character {character : List Byte}
    (is : Character character) : Sound character := by
  intro rest whole escapes
  have backslash : char '\\' ≠ char '"' := by decide
  cases is with
  | @plain byte printable notQuote notBackslash =>
      have nonzero : byte ≠ 0 := by
        rintro rfl
        exact absurd printable (by decide)
      have ordinary : ∀ other ∈ [byte], Ordinary other := by
        intro other member
        rw [List.mem_singleton.mp member]
        exact ⟨not_or.mpr ⟨notQuote, nonzero⟩, notBackslash⟩
      exact sound_ordinary ordinary whole escapes
  | @escaped byte short =>
      have letters : ∀ byte ∈ ascii "\"\\/bfnrt",
          byte ≠ 0 ∧ byte ≠ char 'u' := by
        decide
      have letter := letters byte short
      refine ⟨wholeStrings_cons (absurd · backslash)
        (wholeStrings_cons (fun _ => escapes) whole), ?_⟩
      exact wholeEscapes_escape letter.1 (absurd · letter.2) escapes
  | @unicode a b c d digits =>
      have values : ∀ digit : Byte, isHexDigit digit = true →
          (hexValue digit).isSome = true := by
        decide +kernel
      have each : ∀ digit ∈ [a, b, c, d], Ordinary digit :=
        fun digit member => ordinary_digit (values digit (digits digit member))
      rcases sound_ordinary each whole escapes with ⟨strings, inside⟩
      have four : fourDigits ([a, b, c, d] ++ rest) = true := by
        rw [List.cons_append, List.cons_append, List.cons_append,
          List.cons_append, fourDigits, values a (digits a (by simp)),
          values b (digits b (by simp)), values c (digits c (by simp)),
          values d (digits d (by simp))]
        rfl
      refine ⟨wholeStrings_cons (absurd · backslash)
        (wholeStrings_cons (absurd · (by decide)) strings), ?_⟩
      exact wholeEscapes_escape (by decide) (fun _ => four) inside

theorem sound_flatten {texts : List (List Byte)}
    (each : ∀ text ∈ texts, Sound text) : Sound texts.flatten := by
  induction texts with
  | nil => exact sound_nil
  | cons text texts induction =>
      rw [List.forall_mem_cons] at each
      exact each.1.append (induction each.2)

/-! ## Tokens -/

/-- A string ends with a quote, behind which the text may go on. -/
theorem sound_str (string : Str text) : Sound text := by
  rcases string with ⟨each⟩
  rename_i characters
  intro rest whole escapes
  have inside := sound_flatten
    (fun character member => sound_character (each character member))
    (wholeStrings_cons (fun _ => escapes) whole) (wholeEscapes_quote rest)
  rw [List.cons_append, List.append_assoc]
  exact ⟨wholeStrings_cons (fun _ => inside.2) inside.1, wholeEscapes_quote _⟩

theorem sound_ws (spaced : Ws text) : Sound text := by
  have each : ∀ byte ∈ [char ' ', char '\t', char '\n', char '\r'],
      Ordinary byte := by
    decide
  exact sound_ordinary fun byte member => each byte (spaced byte member)

theorem sound_number (number : Number text) : Sound text := by
  have each : ∀ byte : Byte, isNumberByte byte = true → Ordinary byte := by
    decide +kernel
  exact sound_ordinary fun byte member =>
    each byte (bytes_number number byte member)

/-- A byte that is part of the structure of a text. -/
theorem sound_byte (ordinary : Ordinary byte) : Sound [byte] :=
  sound_ordinary fun other member => by rwa [List.mem_singleton.mp member]

/-! ## Values -/

theorem sound_piece {piece : Piece} (spaced : piece.Spaced)
    (inside : Sound piece.text) : Sound piece.bytes :=
  ((sound_ws spaced.1).append inside).append (sound_ws spaced.2)

theorem sound_bracketed {first : List Byte} {rest : List (List Byte)}
    {space : List Byte} {opening close : Byte} (opens : Ordinary opening)
    (closes : Ordinary close) (each : ∀ text ∈ first :: rest, Sound text)
    (spaced : Ws space) : Sound (bracketed opening close first rest space) := by
  rw [List.forall_mem_cons] at each
  have comma : Sound [char ','] := sound_byte (by decide)
  have behind : Sound (rest.map (char ',' :: ·)).flatten := by
    refine sound_flatten fun text member => ?_
    rcases List.mem_map.mp member with ⟨text, listed, rfl⟩
    exact comma.append (each.2 text listed)
  have elements : Sound (commas first rest) := by
    rw [commas, List.flatMap_def]
    exact each.1.append behind
  exact (sound_byte opens).append
    (elements.append ((sound_ws spaced).append (sound_byte closes)))

theorem sound_value (value : Value text) : Sound text := by
  have letters : ∀ text ∈ [ascii "null", ascii "false", ascii "true"],
      ∀ byte ∈ text, Ordinary byte := by
    decide
  induction value with
  | null => exact sound_ordinary (letters _ (by simp))
  | false => exact sound_ordinary (letters _ (by simp))
  | true => exact sound_ordinary (letters _ (by simp))
  | number number => exact sound_number number
  | string string => exact sound_str string
  | emptyArray spaced =>
      exact (@sound_byte (char '[') (by decide)).append
        ((sound_ws spaced).append (@sound_byte (char ']') (by decide)))
  | emptyObject spaced =>
      exact (@sound_byte (char '{') (by decide)).append
        ((sound_ws spaced).append (@sound_byte (char '}') (by decide)))
  | array spaced _ closing induction =>
      refine sound_bracketed (by decide) (by decide) ?_ closing
      rw [← List.map_cons, List.forall_mem_map]
      exact fun piece member =>
        sound_piece (spaced piece member) (induction piece member)
  | object spaced names _ closing induction =>
      refine sound_bracketed (by decide) (by decide) ?_ closing
      rw [← List.map_cons, List.forall_mem_map]
      intro entry member
      have name := sound_piece (spaced entry member).1
        (sound_str (names entry member))
      have value := sound_piece (spaced entry member).2
        (induction entry member)
      exact name.append ((@sound_byte (char ':') (by decide)).append value)

/-- The strings of every JSON text are whole, with its terminator or without. -/
theorem wholeStrings_document (document : Document text) :
    WholeStrings text ∧ WholeStrings (text ++ [0]) := by
  rcases document with ⟨spaced, value⟩
  have sound := sound_piece spaced (sound_value value)
  have nothing : WholeStrings [] := by decide
  have terminator : WholeStrings [0] := by decide
  refine ⟨?_, (sound terminator rfl).1⟩
  rw [← List.append_nil (Piece.bytes _)]
  exact (sound nothing rfl).1

end Sound

end CommonCode.Json
