import CommonCode.Lib.CScan

/-!
# Lines of ini files

`iniparser_line` tells empty lines, comments, sections and entries apart, with
one format of `sscanf` for each way to write an entry.  The lines that
`iniparser_dump_ini` and `iniparser_dumpsection_ini` write are read back as the
section or as the key and the value that they were written for, whatever the
value, if it stays on its line.
-/

namespace CommonCode.IniParser

open CommonCode.Lib.Bits
open CommonCode.Lib.CString
open CommonCode.Lib.CScan

/-! ## Strings -/

/-- `tolower` in the C locale. -/
def toLower (byte : Byte) : Byte :=
  if 65 ≤ byte.toNat ∧ byte.toNat ≤ 90 then byte + 32 else byte

/-- At most `len - 1` bytes are converted, and the rest is cut off. -/
def strlwc (text : List Byte) (len : Nat) : List Byte :=
  if len = 0 then text else (text.take (len - 1)).map toLower

/-- Without the blanks at the beginning and at the end. -/
def strstrip (s : List Byte) : List Byte :=
  ((s.dropWhile isSpace).reverse.dropWhile isSpace).reverse

def escapeValue (value : List Byte) : List Byte :=
  value.flatMap fun c =>
    if c = char '\\' ∨ c = char '"' then [char '\\', c] else [c]

/-- The loop of `parse_quoted_value`; `esc` holds behind a backslash. -/
def parseQuoted (quote : Byte) : Bool → List Byte → List Byte
  | _, [] => []
  | esc, c :: rest =>
      if !esc && c = char '\\' then parseQuoted quote true rest
      else if !esc && c = quote then []
      else c :: parseQuoted quote false rest

def parseQuotedValue (value : List Byte) (quote : Byte) : List Byte :=
  parseQuoted quote false value

/-! ## Formats -/

/-- A set of bytes in a format, such as `%[^=]`. -/
def scanSet (member : Byte → Bool) (text : List Byte) :
    Option (List Byte × List Byte) :=
  if text.takeWhile member = [] then none
  else some (text.takeWhile member, text.dropWhile member)

/-- A byte of the format. -/
def scanByte (byte : Byte) : List Byte → Option (List Byte)
  | [] => none
  | first :: rest => if first = byte then some rest else none

/-- `%[^=] = `, the bytes that open a value, and the set of its bytes. -/
def scanPair (opening : List Byte) (member : Byte → Bool)
    (line : List Byte) : Option (List Byte × List Byte) := do
  let (key, rest) ← scanSet (· != char '=') line
  let rest ← scanByte (char '=') (rest.dropWhile isSpace)
  let rest ←
    opening.foldlM (fun rest byte => scanByte byte rest)
      (rest.dropWhile isSpace)
  let (value, _) ← scanSet member rest
  return (key, value)

/-- `%[^=] %[=]` -/
def scanBare (line : List Byte) : Option (List Byte) := do
  let (key, rest) ← scanSet (· != char '=') line
  let _ ← scanSet (· == char '=') (rest.dropWhile isSpace)
  return key

/-! ## Lines -/

inductive LineStatus where
  | empty
  | comment
  | opened (name : List Byte)
  | value (key value : List Byte)
  | error
deriving DecidableEq

/-- The name of a section, if no byte in front of its buffer is read; a line
break behind the bracket leaves the buffer as it was. -/
def sectionName (old line : List Byte) : Option (List Byte) :=
  let name := ((scanSet (· != char '\n') line.tail).map Prod.fst).getD old
  let len := name.length
  if len = 0 then none
  else
    let name := if name.getLast? = some (char ']') then name.dropLast else name
    some (strlwc (strstrip name) len)

/-- `iniparser_line`, with what the buffer of the section has held before. -/
def iniparserLine (old inputLine : List Byte) : Option LineStatus :=
  let line := strstrip inputLine
  let len := line.length
  if len < 1 then some .empty
  else if line.head? = some (char '#') ∨ line.head? = some (char ';') then
    some .comment
  else if line.head? = some (char '[') ∧ line.getLast? = some (char ']') then
    (sectionName old line).map .opened
  else
    match scanPair [char '"'] (· != char '\n') line with
    | some (key, value) =>
        some (.value (strlwc (strstrip key) len)
          (parseQuotedValue value (char '"')))
    | none =>
      match scanPair [39] (· != char '\n') line with
      | some (key, value) =>
          some (.value (strlwc (strstrip key) len) (parseQuotedValue value 39))
      | none =>
        match scanPair [] (fun c => c != char ';' && c != char '#') line with
        | some (key, value) =>
            let value := strstrip value
            some (.value (strlwc (strstrip key) len)
              (if value = ascii "\"\"" ∨ value = [39, 39] then [] else value))
        | none =>
          match
            ((scanPair [] (fun c => c == char ';' || c == char '#')
              line).map Prod.fst).or (scanBare line) with
          | some key => some (.value (strlwc (strstrip key) len) [])
          | none => some .error

/-- A line that is written for an entry, with the key padded as by
`%-30s`, or by `%s` if `pad` is zero. -/
def keyLine (pad : Nat) (key value : List Byte) : List Byte :=
  key ++ List.replicate (pad - key.length) (char ' ') ++ ascii " = \"" ++
    escapeValue value ++ ascii "\"\n"

/-- The line that opens a section. -/
def sectionLine (name : List Byte) : List Byte :=
  char '[' :: (name ++ ascii "]\n")

/-! ## Values -/

theorem parseQuoted_escapeValue (value rest : List Byte) :
    parseQuoted (char '"') false (escapeValue value ++ char '"' :: rest) =
      value := by
  induction value with
  | nil => rfl
  | cons c value induction =>
      rw [escapeValue, List.flatMap_cons, ← escapeValue]
      by_cases special : c = char '\\' ∨ c = char '"'
      · rw [if_pos special]
        simp only [List.cons_append, List.nil_append, parseQuoted]
        rw [induction]
        rfl
      · rw [if_neg special]
        rw [not_or] at special
        simp only [List.cons_append, List.nil_append, parseQuoted, special.1,
          special.2, decide_false, Bool.and_false, Bool.false_eq_true,
          if_false, induction]

theorem not_mem_escapeValue {value : List Byte}
    (single : char '\n' ∉ value) : char '\n' ∉ escapeValue value := by
  rw [escapeValue, List.mem_flatMap]
  rintro ⟨c, member, inside⟩
  split at inside
  · simp only [List.mem_cons, List.not_mem_nil, or_false] at inside
    rcases inside with backslash | same
    · exact absurd backslash (by decide)
    · exact single (same ▸ member)
  · exact single (List.mem_singleton.mp inside ▸ member)

/-! ## Stripping -/

/-- A text that is empty or has no blank at either end. -/
def Stripped (text : List Byte) : Prop :=
  (∀ byte, text.head? = some byte → isSpace byte = false) ∧
    ∀ byte, text.getLast? = some byte → isSpace byte = false

theorem dropWhile_of_head {text : List Byte}
    (visible : ∀ byte, text.head? = some byte → isSpace byte = false) :
    text.dropWhile isSpace = text := by
  cases text with
  | nil => rfl
  | cons byte text =>
      exact List.dropWhile_cons_of_neg (by simp [visible byte rfl])

/-- Blanks behind a text are removed from it. -/
theorem strstrip_append {text blank : List Byte} (stripped : Stripped text)
    (nonempty : text ≠ []) (blanks : ∀ byte ∈ blank, isSpace byte = true) :
    strstrip (text ++ blank) = text := by
  have start : (text ++ blank).dropWhile isSpace = text ++ blank := by
    apply dropWhile_of_head
    rw [List.head?_append_of_ne_nil _ nonempty]
    exact stripped.1
  have ending : text.reverse.dropWhile isSpace = text.reverse := by
    apply dropWhile_of_head
    rw [List.head?_reverse]
    exact stripped.2
  have white : ∀ byte ∈ blank.reverse, isSpace byte = true :=
    fun byte member => blanks byte (List.mem_reverse.mp member)
  rw [strstrip, start, List.reverse_append, List.dropWhile_append_of_pos white,
    ending, List.reverse_reverse]

theorem strstrip_eq {text : List Byte} (stripped : Stripped text) :
    strstrip text = text := by
  by_cases nonempty : text = []
  · rw [nonempty]
    rfl
  · have same := strstrip_append stripped nonempty (List.forall_mem_nil _)
    rwa [List.append_nil] at same

/-- A buffer that holds the text is long enough. -/
theorem strlwc_eq {text : List Byte} {len : Nat}
    (lower : text.map toLower = text) (fits : text.length < len) :
    strlwc text len = text := by
  rw [strlwc, if_neg (Nat.ne_zero_of_lt fits),
    List.take_of_length_le (Nat.le_sub_one_of_lt fits), lower]

/-! ## Scanning -/

section Scanning

variable {member : Byte → Bool} {run : List Byte}

theorem scanSet_append (rest : List Byte)
    (members : ∀ byte ∈ run, member byte = true) (nonempty : run ≠ [])
    (stops : ∀ byte, rest.head? = some byte → member byte = false) :
    scanSet member (run ++ rest) = some (run, rest) := by
  have ended : rest.takeWhile member = [] ∧ rest.dropWhile member = rest := by
    cases rest with
    | nil => exact ⟨rfl, rfl⟩
    | cons byte rest =>
        have stop : ¬member byte = true := by simp [stops byte rfl]
        exact ⟨List.takeWhile_cons_of_neg stop,
          List.dropWhile_cons_of_neg stop⟩
  rw [scanSet, List.takeWhile_append_of_pos members,
    List.dropWhile_append_of_pos members, ended.1, ended.2, List.append_nil,
    if_neg nonempty]

end Scanning

/-! ## Lines that are read back -/

/-- A key that a line can hold. -/
structure KeyText (key : List Byte) : Prop where
  nonempty : key ≠ []
  stripped : Stripped key
  lower : key.map toLower = key
  noEquals : char '=' ∉ key
  noComment : key.head? ≠ some (char '#') ∧ key.head? ≠ some (char ';')

/-- A name of a section that a line can hold. -/
structure SectionText (name : List Byte) : Prop where
  stripped : Stripped name
  lower : name.map toLower = name
  single : char '\n' ∉ name

theorem scanPair_keyLine {key value : List Byte} (text : KeyText key)
    (single : char '\n' ∉ value) (count : Nat) :
    scanPair [char '"'] (· != char '\n')
        (key ++ List.replicate count (char ' ') ++ ascii " = \"" ++
          escapeValue value ++ [char '"']) =
      some (key ++ List.replicate (count + 1) (char ' '),
        escapeValue value ++ [char '"']) := by
  have shape :
      key ++ List.replicate count (char ' ') ++ ascii " = \"" ++
          escapeValue value ++ [char '"'] =
        (key ++ List.replicate (count + 1) (char ' ')) ++
          (char '=' :: char ' ' :: char '"' ::
            (escapeValue value ++ [char '"'])) := by
    have opening :
        ascii " = \"" = [char ' ', char '=', char ' ', char '"'] :=
      rfl
    rw [opening, List.replicate_succ']
    simp
  have keys :
      ∀ byte ∈ key ++ List.replicate (count + 1) (char ' '),
        (byte != char '=') = true := by
    intro byte inside
    rw [bne_iff_ne]
    rintro rfl
    rcases List.mem_append.mp inside with named | padded
    · exact text.noEquals named
    · exact absurd (List.eq_of_mem_replicate padded) (by decide)
  have values :
      ∀ byte ∈ escapeValue value ++ [char '"'],
        (byte != char '\n') = true := by
    intro byte inside
    rw [bne_iff_ne]
    rintro rfl
    rcases List.mem_append.mp inside with written | quote
    · exact not_mem_escapeValue single written
    · exact absurd (List.mem_singleton.mp quote) (by decide)
  have first :=
    scanSet_append
      (char '=' :: char ' ' :: char '"' :: (escapeValue value ++ [char '"']))
      keys (by simp [text.nonempty]) (by simp)
  have second := scanSet_append [] values (by simp) (by simp)
  rw [List.append_nil] at second
  rw [shape, scanPair, first]
  dsimp only [Option.bind_eq_bind, Option.bind_some]
  have equals :
      scanByte (char '=')
          ((char '=' :: char ' ' :: char '"' ::
            (escapeValue value ++ [char '"'])).dropWhile isSpace) =
        some (char ' ' :: char '"' :: (escapeValue value ++ [char '"'])) :=
    rfl
  have opened :
      [char '"'].foldlM (fun rest byte => scanByte byte rest)
          ((char ' ' :: char '"' ::
            (escapeValue value ++ [char '"'])).dropWhile isSpace) =
        some (escapeValue value ++ [char '"']) :=
    rfl
  rw [equals, Option.bind_some, opened, Option.bind_some, second]
  rfl

theorem stripped_concat {text : List Byte} {byte : Byte}
    (nonempty : text ≠ [])
    (first : ∀ byte, text.head? = some byte → isSpace byte = false)
    (visible : isSpace byte = false) : Stripped (text ++ [byte]) := by
  constructor
  · rwa [List.head?_append_of_ne_nil _ nonempty]
  · rw [List.getLast?_concat]
    rintro _ ⟨⟩
    exact visible

theorem iniparserLine_keyLine (old : List Byte) {key value : List Byte}
    (text : KeyText key) (single : char '\n' ∉ value) (pad : Nat) :
    iniparserLine old (keyLine pad key value) = some (.value key value) := by
  let front :=
    key ++ List.replicate (pad - key.length) (char ' ') ++ ascii " = \"" ++
      escapeValue value
  have shape : keyLine pad key value = front ++ [char '"'] ++ [char '\n'] := by
    have ending : ascii "\"\n" = [char '"'] ++ [char '\n'] := rfl
    rw [keyLine, ending, ← List.append_assoc]
  have head : front.head? = key.head? := by
    simp only [front, List.append_assoc]
    exact List.head?_append_of_ne_nil _ text.nonempty
  have some_front : front ≠ [] := by simp [front, text.nonempty]
  have stripped : Stripped (front ++ [char '"']) := by
    refine stripped_concat some_front ?_ (by decide)
    rw [head]
    exact text.stripped.1
  have line :
      strstrip (front ++ [char '"'] ++ [char '\n']) = front ++ [char '"'] :=
    strstrip_append stripped (by simp) (by decide)
  have first : (front ++ [char '"']).head? = key.head? := by
    rw [List.head?_append_of_ne_nil _ some_front, head]
  have last : (front ++ [char '"']).getLast? ≠ some (char ']') := by
    rw [List.getLast?_concat]
    decide
  have long : key.length < (front ++ [char '"']).length := by
    simp only [front, List.length_append, List.length_singleton]
    omega
  have blanks :
      ∀ byte ∈ List.replicate (pad - key.length + 1) (char ' '),
        isSpace byte = true := by
    intro byte padded
    rw [List.eq_of_mem_replicate padded]
    rfl
  have scanned := scanPair_keyLine text single (pad - key.length)
  rw [iniparserLine, shape, line]
  dsimp only
  rw [if_neg (by omega), first, if_neg (not_or.mpr text.noComment),
    if_neg (fun both => last both.2), scanned]
  dsimp only
  rw [strstrip_append text.stripped text.nonempty blanks,
    strlwc_eq text.lower long, parseQuotedValue, parseQuoted_escapeValue]

theorem iniparserLine_sectionLine (old : List Byte) {name : List Byte}
    (text : SectionText name) :
    iniparserLine old (sectionLine name) = some (.opened name) := by
  let line := char '[' :: name ++ [char ']']
  have shape : sectionLine name = line ++ [char '\n'] := by
    have ending : ascii "]\n" = [char ']'] ++ [char '\n'] := rfl
    simp [sectionLine, line, ending]
  have stripped : Stripped line := by
    refine stripped_concat (List.cons_ne_nil _ _) ?_ (by decide)
    rintro _ ⟨⟩
    rfl
  have strips : strstrip (line ++ [char '\n']) = line :=
    strstrip_append stripped (by simp [line]) (by decide)
  have last : line.getLast? = some (char ']') := List.getLast?_concat ..
  have inside : ∀ byte ∈ name ++ [char ']'], (byte != char '\n') = true := by
    intro byte member
    rw [bne_iff_ne]
    rintro rfl
    rcases List.mem_append.mp member with named | closing
    · exact text.single named
    · exact absurd (List.mem_singleton.mp closing) (by decide)
  have scanned :
      scanSet (· != char '\n') line.tail = some (name ++ [char ']'], []) := by
    have all := scanSet_append [] inside (by simp) (by simp)
    rwa [List.append_nil] at all
  have named : sectionName old line = some name := by
    have nonzero : (name ++ [char ']']).length ≠ 0 := by simp
    rw [sectionName, scanned]
    dsimp only [Option.map_some, Option.getD_some]
    rw [if_neg nonzero, if_pos List.getLast?_concat, List.dropLast_concat,
      strstrip_eq text.stripped, strlwc_eq text.lower (by simp)]
  rw [iniparserLine, shape, strips]
  dsimp only
  have first : line.head? = some (char '[') := rfl
  rw [if_neg (by simp [line]), first, if_neg (by decide),
    if_pos ⟨rfl, last⟩, named]
  rfl

/--
Every line that the output functions write for a key and a value, padded or
not, and for a section is read back as what it was written for.
-/
theorem iniparserLine_dumped (old : List Byte) :
    (∀ key value pad,
      KeyText key → char '\n' ∉ value →
        iniparserLine old (keyLine pad key value) =
          some (.value key value)) ∧
      ∀ name,
        SectionText name →
          iniparserLine old (sectionLine name) = some (.opened name) :=
  ⟨fun _ _ pad text single => iniparserLine_keyLine old text single pad,
    fun _ text => iniparserLine_sectionLine old text⟩

theorem iniparserLine_dumped_quotes :
    iniparserLine [] (keyLine 30 (ascii "key") (ascii "a\"\\ ")) =
        some (.value (ascii "key") (ascii "a\"\\ ")) ∧
      iniparserLine [] (sectionLine (ascii "main")) =
        some (.opened (ascii "main")) := by
  have key : KeyText (ascii "key") :=
    ⟨by decide, ⟨by decide, by decide⟩, by decide, by decide, by decide⟩
  have name : SectionText (ascii "main") :=
    ⟨⟨by decide, by decide⟩, by decide, by decide⟩
  exact ⟨(iniparserLine_dumped []).1 _ _ 30 key (by decide),
    (iniparserLine_dumped []).2 _ name⟩

end CommonCode.IniParser
