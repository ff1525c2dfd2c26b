import CommonCode.Lib.Numerals

/-!
# Formats of `sscanf`

A format is a list of directives.  Reading stops at the first directive that
does not match, and what has been converted until then is stored.  Words are
the parts of a text between white space, as `%s` reads them.
-/

namespace CommonCode.Lib.Sscanf

open CommonCode.Lib.Bits
open CommonCode.Lib.CString
open CommonCode.Lib.CScan
open CommonCode.Lib.Numerals

/-! ## Words -/

/-- The bytes for which `isspace` holds. -/
def spaces : List Byte := [32, 9, 10, 11, 12, 13]

/-- The first word of a text, empty if there is none. -/
def nextWord (text : List Byte) : List Byte :=
  (text.dropWhile isSpace).takeWhile fun byte => !isSpace byte

/-- The text behind the first word. -/
def behindWord (text : List Byte) : List Byte :=
  (text.dropWhile isSpace).dropWhile fun byte => !isSpace byte

/-- The words of a text. -/
def words (text : List Byte) : List (List Byte) := tokens spaces text

/-- A text of white space. -/
def Blank (text : List Byte) : Prop := ∀ byte ∈ text, isSpace byte = true

/-- A text without white space. -/
def Visible (text : List Byte) : Prop := ∀ byte ∈ text, isSpace byte = false

/-- What may follow a word: nothing, or white space. -/
def EndsWord (text : List Byte) : Prop :=
  ∀ byte, text.head? = some byte → isSpace byte = true

theorem isSpace_iff (byte : Byte) : isSpace byte = true ↔ byte ∈ spaces := by
  revert byte
  decide

section Words

variable {text blank word rest : List Byte}

theorem behindWord_suffix (text : List Byte) : behindWord text <:+ text :=
  (List.dropWhile_suffix _).trans (List.dropWhile_suffix _)

theorem dropWhile_blank (white : Blank blank) (text : List Byte) :
    (blank ++ text).dropWhile isSpace = text.dropWhile isSpace :=
  List.dropWhile_append_of_pos white

theorem dropWhile_visible {byte : Byte} (visible : isSpace byte = false)
    (text : List Byte) :
    (byte :: text).dropWhile isSpace = byte :: text :=
  List.dropWhile_cons_of_neg (by simp [visible])

/-- The first word and what is behind it. -/
theorem nextWord_append (white : Blank blank) (visible : Visible word)
    (nonempty : word ≠ []) (ends : EndsWord rest) :
    nextWord (blank ++ word ++ rest) = word ∧
      behindWord (blank ++ word ++ rest) = rest := by
  obtain ⟨first, more, rfl⟩ := List.exists_cons_of_ne_nil nonempty
  have start : (blank ++ (first :: more) ++ rest).dropWhile isSpace =
      first :: more ++ rest := by
    rw [List.append_assoc, dropWhile_blank white]
    exact dropWhile_visible (visible first (List.mem_cons_self ..)) _
  have inside : ∀ byte ∈ first :: more, (!isSpace byte) = true := by
    intro byte member
    rw [visible byte member]
    rfl
  rw [nextWord, behindWord, start, List.takeWhile_append_of_pos inside,
    List.dropWhile_append_of_pos inside]
  cases rest with
  | nil => simp
  | cons byte rest => simp [ends byte rfl]

/-- A text without words, or with a first word. -/
theorem word_cases (text : List Byte) :
    Blank text ∨
      ∃ blank word rest, text = blank ++ word ++ rest ∧ Blank blank ∧
        Visible word ∧ word ≠ [] ∧ EndsWord rest := by
  rcases token_cases spaces text with
    only | ⟨blank, word, rest, shape, skip, nonempty, plain, ends⟩
  · exact Or.inl fun byte member => (isSpace_iff byte).mpr (only byte member)
  · refine Or.inr ⟨blank, word, rest, shape,
      fun byte member => (isSpace_iff byte).mpr (skip byte member),
      fun byte member => ?_, nonempty, ?_⟩
    · rw [← Bool.not_eq_true, isSpace_iff]
      exact plain byte member
    · rcases ends with rfl | ⟨delimiter, more, stop, rfl⟩
      · intro byte first
        cases first
      · intro byte first
        cases first
        exact (isSpace_iff delimiter).mpr stop

theorem nextWord_blank (white : Blank text) :
    nextWord text = [] ∧ behindWord text = [] := by
  have nothing : text.dropWhile isSpace = [] :=
    List.dropWhile_eq_nil_iff.mpr white
  rw [nextWord, behindWord, nothing]
  exact ⟨rfl, rfl⟩

theorem words_blank (white : Blank text) : words text = [] :=
  tokens_of_delimiters fun byte member =>
    (isSpace_iff byte).mp (white byte member)

/-- Every text but white space has a first word. -/
theorem words_append (white : Blank blank) (visible : Visible word)
    (nonempty : word ≠ []) (ends : EndsWord rest) :
    words (blank ++ word ++ rest) = word :: words rest := by
  have plain : ∀ byte ∈ word, byte ∉ spaces := by
    intro byte member
    rw [← isSpace_iff, visible byte member]
    exact Bool.false_ne_true
  rw [words, List.append_assoc,
    tokens_skip fun byte member => (isSpace_iff byte).mp (white byte member)]
  cases rest with
  | nil =>
      rw [List.append_nil, tokens_last nonempty plain]
      rfl
  | cons byte rest =>
      have space := (isSpace_iff byte).mp (ends byte rfl)
      have skipped : tokens spaces ([byte] ++ rest) = tokens spaces rest :=
        tokens_skip (by simpa using space) rest
      rw [tokens_cons nonempty plain space, ← skipped]
      rfl

/-- A text with something behind its first word. -/
theorem words_of_behindWord (more : behindWord text ≠ []) :
    words text = nextWord text :: words (behindWord text) := by
  rcases word_cases text with
    white | ⟨blank, word, rest, rfl, white, visible, nonempty, ends⟩
  · exact absurd (nextWord_blank white).2 more
  · have split := nextWord_append white visible nonempty ends
    rw [split.1, split.2, words_append white visible nonempty ends]

/-- The first of several words. -/
theorem nextWord_of_words {others : List (List Byte)}
    (several : words text = word :: others) :
    nextWord text = word ∧ words (behindWord text) = others := by
  rcases word_cases text with
    white | ⟨blank, first, rest, rfl, white, visible, nonempty, ends⟩
  · rw [words_blank white] at several
    cases several
  · have split := nextWord_append white visible nonempty ends
    rw [words_append white visible nonempty ends, List.cons.injEq] at several
    rw [split.1, split.2]
    exact several

theorem blank_of_words (none : words text = []) : Blank text := by
  rcases word_cases text with
    white | ⟨blank, word, rest, rfl, white, visible, nonempty, ends⟩
  · exact white
  · rw [words_append white visible nonempty ends] at none
    cases none

/-- White space at the end of a text is behind each of its words. -/
theorem getLast?_behindWord {byte : Byte} (occupied : words text ≠ [])
    (last : text.getLast? = some byte) (white : isSpace byte = true) :
    (behindWord text).getLast? = some byte := by
  rcases word_cases text with
    nothing | ⟨blank, word, rest, rfl, skipped, visible, nonempty, ends⟩
  · exact absurd (words_blank nothing) occupied
  · rw [(nextWord_append skipped visible nonempty ends).2]
    rcases eq_or_ne rest [] with rfl | more
    · rw [List.append_nil, List.getLast?_append_of_ne_nil _ nonempty] at last
      rw [visible byte (List.mem_of_getLast? last)] at white
      cases white
    · rwa [List.getLast?_append_of_ne_nil _ more] at last

/-- Text behind the end of a word belongs to what is behind the word. -/
theorem nextWord_append_left (more : behindWord text ≠ [])
    (behind : List Byte) :
    nextWord (text ++ behind) = nextWord text ∧
      behindWord (text ++ behind) = behindWord text ++ behind := by
  rcases word_cases text with
    white | ⟨blank, word, rest, rfl, white, visible, nonempty, ends⟩
  · exact absurd (nextWord_blank white).2 more
  · have split := nextWord_append white visible nonempty ends
    rw [split.2] at more
    have still : EndsWord (rest ++ behind) := by
      intro byte first
      rw [List.head?_append_of_ne_nil _ more] at first
      exact ends byte first
    have whole := nextWord_append white visible nonempty still
    rw [← List.append_assoc] at whole
    rw [split.1, split.2]
    exact whole

/-- A visible byte behind a text without further words continues its word. -/
theorem behindWord_append_right (last : behindWord text = []) {byte : Byte}
    (visible : isSpace byte = false) (behind : List Byte) :
    behindWord (text ++ byte :: behind) <:+ behind := by
  have start : (text ++ byte :: behind).dropWhile isSpace =
      text.dropWhile isSpace ++ byte :: behind := by
    rw [List.dropWhile_append]
    split
    · next white =>
      rw [List.isEmpty_iff.mp white]
      exact dropWhile_visible visible behind
    · rfl
  rw [behindWord, List.dropWhile_eq_nil_iff] at last
  rw [behindWord, start, List.dropWhile_append_of_pos last,
    List.dropWhile_cons_of_pos (by simp [visible])]
  exact List.dropWhile_suffix _

end Words

/-! ## Directives -/

/--
A conversion `%d`, a conversion `%s` into an array of the given size, white
space, and a byte that has to match.
-/
inductive Directive where
  | int
  | string (size : Nat)
  | space
  | literal (byte : Byte)

/-- `sscanf`: the integers that are stored.  A word that is too long is a
fault. -/
def sscanf : List Directive → List Byte → Except Fault (List (BitVec 32))
  | [], _ => .ok []
  | .space :: format, text => sscanf format (text.dropWhile isSpace)
  | .literal byte :: format, text =>
      if text.head? = some byte then sscanf format text.tail else .ok []
  | .int :: format, text =>
      match scanInt text with
      | none => .ok []
      | some (value, rest) => (sscanf format rest).map (value :: ·)
  | .string size :: format, text =>
      if nextWord text = [] then .ok []
      else if (nextWord text).length < size then
        sscanf format (behindWord text)
      else .error .outOfBounds

section Format

variable {format : List Directive} {text : List Byte}

/-- A word with white space in front of it. -/
theorem sscanf_word (size : Nat) (ends : sscanf format [] = .ok []) :
    sscanf (.space :: .string (size + 1) :: format) text =
      if (nextWord text).length < size + 1 then
        sscanf format (behindWord text)
      else .error .outOfBounds := by
  have same : nextWord (text.dropWhile isSpace) = nextWord text := by
    rw [nextWord, List.dropWhile_idempotent, ← nextWord]
  have behind : behindWord (text.dropWhile isSpace) = behindWord text := by
    rw [behindWord, List.dropWhile_idempotent, ← behindWord]
  rw [sscanf, sscanf, same, behind]
  split
  · next none =>
    have white : Blank text := by
      rcases word_cases text with
        white | ⟨blank, word, rest, rfl, white, visible, nonempty, finish⟩
      · exact white
      · rw [(nextWord_append white visible nonempty finish).1] at none
        exact absurd none nonempty
    rw [none, (nextWord_blank white).2, ends, List.length_nil,
      if_pos (Nat.succ_pos size)]
  · rfl

/-- A byte that does not match ends the reading. -/
theorem sscanf_mismatch {byte : Byte}
    (apart : (text.dropWhile isSpace).head? ≠ some byte) :
    sscanf (.space :: .literal byte :: format) text = .ok [] := by
  rw [sscanf, sscanf, if_neg apart]

theorem sscanf_match {blank : List Byte} {byte : Byte}
    (white : Blank blank) (visible : isSpace byte = false)
    (rest : List Byte) :
    sscanf (.space :: .literal byte :: format) (blank ++ byte :: rest) =
      sscanf format rest := by
  rw [sscanf, dropWhile_blank white, dropWhile_visible visible, sscanf,
    List.head?_cons, if_pos rfl, List.tail_cons]

/-- A number that fits. -/
theorem sscanf_int {digits rest : List Byte} (all : AllDigits digits)
    (nonempty : digits ≠ []) (stops : Stops rest)
    (small : numeral digits < 2 ^ 31) :
    sscanf (.int :: format) (digits ++ rest) =
      (sscanf format rest).map (BitVec.ofNat 32 (numeral digits) :: ·) := by
  rw [sscanf, scanInt_small all nonempty stops small]

end Format

/-- Integers with commas between them. -/
def commaInts : Nat → List Directive
  | 0 => [.int]
  | count + 1 => .int :: .literal (char ',') :: commaInts count

/-- Texts with commas between them. -/
def joined (first : List Byte) : List (List Byte) → List Byte
  | [] => first
  | next :: rest => first ++ char ',' :: joined next rest

theorem mem_joined {first : List Byte} {rest : List (List Byte)} {byte : Byte}
    (member : byte ∈ joined first rest) :
    byte = char ',' ∨ ∃ text ∈ first :: rest, byte ∈ text := by
  induction rest generalizing first with
  | nil => exact Or.inr ⟨first, List.mem_singleton_self first, member⟩
  | cons next rest induction =>
      rw [joined, List.mem_append, List.mem_cons] at member
      rcases member with inside | comma | later
      · exact Or.inr ⟨first, List.mem_cons_self .., inside⟩
      · exact Or.inl comma
      · rcases induction later with comma | ⟨text, listed, inside⟩
        · exact Or.inl comma
        · exact Or.inr ⟨text, List.mem_cons_of_mem _ listed, inside⟩

/-- A list of numbers is read number by number. -/
theorem sscanf_commaInts {format : List Directive} {rest : List Byte}
    (stops : Stops rest) (first : List Byte) (more : List (List Byte))
    (numbers : ∀ digits ∈ first :: more,
      AllDigits digits ∧ digits ≠ [] ∧ numeral digits < 2 ^ 31) :
    sscanf (commaInts more.length ++ format) (joined first more ++ rest) =
      (sscanf format rest).map
        (((first :: more).map fun digits =>
          BitVec.ofNat 32 (numeral digits)) ++ ·) := by
  induction more generalizing first with
  | nil =>
      rw [List.forall_mem_cons] at numbers
      rcases numbers.1 with ⟨all, nonempty, small⟩
      exact sscanf_int all nonempty stops small
  | cons next more induction =>
      rw [List.forall_mem_cons] at numbers
      rcases numbers.1 with ⟨all, nonempty, small⟩
      have comma : Stops (char ',' :: (joined next more ++ rest)) := by
        intro byte start
        cases start
        decide
      rw [List.length_cons, commaInts, joined, List.append_assoc,
        List.cons_append, List.cons_append, List.cons_append,
        sscanf_int all nonempty comma small, sscanf, List.head?_cons,
        if_pos rfl, List.tail_cons, induction next numbers.2]
      cases sscanf format rest with
      | error fault => rfl
      | ok values => rfl

end CommonCode.Lib.Sscanf
