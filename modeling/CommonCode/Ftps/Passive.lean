import CommonCode.Lib.CArray
import CommonCode.Lib.Sscanf

/-!
# The port in the answer to `PASV`

`establish_data_connection` of `ftp_client.c` reads the numbers behind the
parenthesis.  `FtpsOpenPasvSockConn` of `ftps_client.c` matches the whole line
against a format with three words in front of the parenthesis, and takes the
port 0 when the line has another wording.  What a word of the format takes may
include the parenthesis.
-/

namespace CommonCode.Ftps

open CommonCode.Lib
open CommonCode.Lib.Bits
open CommonCode.Lib.CString
open CommonCode.Lib.CScan
open CommonCode.Lib.Numerals
open CommonCode.Lib.Sscanf

/-! ## The two functions -/

/-- `"%d %s %s %s (%d,%d,%d,%d,%d,%d)."` with words of 32 bytes. -/
def pasvFormat : List Directive :=
  [.int, .space, .string 32, .space, .string 32, .space, .string 32, .space,
    .literal (char '('), .int, .literal (char ','), .int,
    .literal (char ','), .int, .literal (char ','), .int,
    .literal (char ','), .int, .literal (char ','), .int,
    .literal (char ')'), .literal (char '.')]

/-- `"%d,%d,%d,%d,%d,%d"` -/
def responseFormat : List Directive :=
  [.int, .literal (char ','), .int, .literal (char ','), .int,
    .literal (char ','), .int, .literal (char ','), .int,
    .literal (char ','), .int]

/--
`FtpsOpenPasvSockConn` up to the port, for a reply that `SSL_read` returns at
once; `none` is the return of an error.
-/
def ftpsOpenPasvPort (reply : List Byte) : Except Fault (Option (BitVec 32)) := do
  let buff := store (List.replicate 512 0) 0 (reply.take 512)
  let buff ← cString buff
  match strchr buff (char '(') with
  | none => return none
  | some _ =>
      let v ← sscanf pasvFormat buff
      return some (v.getD 5 0 * 256 + v.getD 6 0)

/--
`receive_ftp_response` for a response that `recv` returns at once: the array
with a terminator behind what was received.
-/
def receiveFtpResponse (response : List Byte) (reply : List Byte) :
    Except Fault (List Byte) :=
  let received := reply.take response.length
  let response := store response 0 received
  if received.length > 0 then
    if received.length < response.length then
      .ok (store response received.length [0])
    else .error .outOfBounds
  else .ok response

/--
`establish_data_connection` up to the port; `response` and `numbers` hold what
was on the stack before.
-/
def dataPort (response : CArray Byte 1024) (numbers : CArray (BitVec 32) 6)
    (reply : List Byte) : Except Fault (BitVec 32) := do
  let response ← receiveFtpResponse response.toList reply
  let response ← cString response
  match strchr response (char '(') with
  | none => .error .nullPointer
  | some position =>
      let port ← sscanf responseFormat (response.drop (position + 1))
      return port.getD 4 (numbers.read 4) * 256 +
        port.getD 5 (numbers.read 5)

/-! ## Replies -/

/-- A number from 0 to 255 with any number of zeros in front. -/
structure Number where
  text : List Byte
  digits : AllDigits text
  nonempty : text ≠ []
  small : numeral text ≤ 255

/-- A reply `227 T(h1,h2,h3,h4,p1,p2)R`. -/
structure PasvReply where
  wording : List Byte
  h1 : Number
  h2 : Number
  h3 : Number
  h4 : Number
  p1 : Number
  p2 : Number
  rest : List Byte
  printable : ∀ byte ∈ wording ++ rest, 32 ≤ byte.toNat ∧ byte.toNat ≤ 126
  plain : char '(' ∉ wording
  short : ∀ word ∈ words wording, word.length < 32

namespace PasvReply

variable (reply : PasvReply)

/-- The numbers in front of the closing parenthesis. -/
def numbers : List Number :=
  [reply.h1, reply.h2, reply.h3, reply.h4, reply.p1, reply.p2]

/-- The numbers with the commas between them. -/
def list : List Byte :=
  joined reply.h1.text
    [reply.h2.text, reply.h3.text, reply.h4.text, reply.p1.text,
      reply.p2.text]

/-- What is behind the opening parenthesis. -/
def tail : List Byte := reply.list ++ char ')' :: reply.rest

/-- What is behind the code. -/
def line : List Byte := reply.wording ++ char '(' :: reply.tail

def bytes : List Byte := ascii "227 " ++ reply.line

def port : BitVec 32 :=
  BitVec.ofNat 32 (numeral reply.p1.text * 256 + numeral reply.p2.text)

/-- Both functions find the port. -/
def Agree : Prop :=
  ftpsOpenPasvPort reply.bytes = .ok (some reply.port) ∧
    ∀ response numbers, dataPort response numbers reply.bytes = .ok reply.port

end PasvReply

/-! ## Words in front of the parenthesis -/

/-- The directives behind the three words. -/
def addressFormat : List Directive :=
  .space :: .literal (char '(') ::
    (commaInts 5 ++ [.literal (char ')'), .literal (char '.')])

/-- The port that the directives behind the words read from a text. -/
def announced (text : List Byte) : Except Fault (BitVec 32) := do
  let values ← sscanf addressFormat text
  return values.getD 4 0 * 256 + values.getD 5 0

/-- The text behind the third word. -/
def behindWords (text : List Byte) : List Byte :=
  behindWord (behindWord (behindWord text))

/-- The first three words fit into the arrays for them. -/
def ShortWords (text : List Byte) : Prop :=
  (nextWord text).length < 32 ∧ (nextWord (behindWord text)).length < 32 ∧
    (nextWord (behindWord (behindWord text))).length < 32

instance (text : List Byte) : Decidable (ShortWords text) :=
  inferInstanceAs (Decidable (_ ∧ _ ∧ _))

/-- The text consists of three words and ends with a space. -/
def ThreeWords (text : List Byte) : Prop :=
  (words text).length = 3 ∧ text.getLast? = some (char ' ')

theorem sscanf_closing (text : List Byte) :
    sscanf [.literal (char ')'), .literal (char '.')] text = .ok [] := by
  rw [sscanf]
  split
  · rw [sscanf]
    split
    · rfl
    · rfl
  · rfl

/-- A line is read word by word. -/
theorem sscanf_pasvFormat (line : List Byte) :
    sscanf pasvFormat (ascii "227 " ++ line) =
      if ShortWords line then
        (sscanf addressFormat (behindWords line)).map (227 :: ·)
      else .error .outOfBounds := by
  have stops : Stops (char ' ' :: line) := by
    intro byte first
    cases first
    decide
  have code : sscanf pasvFormat (ascii "227" ++ char ' ' :: line) = _ :=
    sscanf_int (by decide) (by decide) stops (by decide)
  have blank : Blank [char ' '] := by
    intro byte member
    rw [List.mem_singleton.mp member]
    decide
  have first : nextWord (char ' ' :: line) = nextWord line ∧
      behindWord (char ' ' :: line) = behindWord line := by
    have skipped := dropWhile_blank blank line
    rw [nextWord, behindWord, ← List.singleton_append, skipped]
    exact ⟨rfl, rfl⟩
  have words : sscanf pasvFormat.tail (char ' ' :: line) =
      if ShortWords line then sscanf addressFormat (behindWords line)
      else .error .outOfBounds := by
    change sscanf (.space :: .string 32 :: .space :: .string 32 :: .space ::
      .string 32 :: addressFormat) (char ' ' :: line) = _
    rw [sscanf_word 31 rfl, sscanf_word 31 rfl, sscanf_word 31 rfl, first.1,
      first.2]
    rw [← ite_and, ← ite_and]
    exact if_congr and_assoc rfl rfl
  have value : BitVec.ofNat 32 (numeral (ascii "227")) = 227 := by decide
  change sscanf pasvFormat (ascii "227" ++ char ' ' :: line) = _
  rw [code, value]
  change (sscanf pasvFormat.tail (char ' ' :: line)).map (227 :: ·) = _
  rw [words]
  split
  · rfl
  · rfl

/-! ## The numbers -/

section Numbers

variable (reply : PasvReply)

theorem sscanf_list (format : List Directive) :
    sscanf (commaInts 5 ++ format) reply.tail =
      (sscanf format (char ')' :: reply.rest)).map
        ((reply.numbers.map fun number =>
          BitVec.ofNat 32 (numeral number.text)) ++ ·) := by
  have stops : Stops (char ')' :: reply.rest) := by
    intro byte first
    cases first
    decide
  have small : ∀ number ∈ reply.numbers,
      AllDigits number.text ∧ number.text ≠ [] ∧
        numeral number.text < 2 ^ 31 := by
    intro number _
    have bound := number.small
    exact ⟨number.digits, number.nonempty, by omega⟩
  refine sscanf_commaInts stops reply.h1.text
    [reply.h2.text, reply.h3.text, reply.h4.text, reply.p1.text,
      reply.p2.text] ?_
  intro digits member
  have listed : digits ∈ reply.numbers.map Number.text := member
  obtain ⟨number, inside, rfl⟩ := List.mem_map.mp listed
  exact small number inside

theorem port_eq :
    BitVec.ofNat 32 (numeral reply.p1.text) * 256 +
      BitVec.ofNat 32 (numeral reply.p2.text) = reply.port := by
  rw [PasvReply.port, BitVec.ofNat_add, BitVec.ofNat_mul]
  rfl

/-- The list in parentheses announces the port. -/
theorem announced_list {blank : List Byte} (white : Blank blank) :
    announced (blank ++ char '(' :: reply.tail) = .ok reply.port := by
  rw [announced, addressFormat, sscanf_match white (by decide),
    sscanf_list, sscanf_closing]
  exact congrArg Except.ok (port_eq reply)

/-- A text that does not go on with a parenthesis announces nothing. -/
theorem announced_nothing {text : List Byte}
    (apart : (text.dropWhile isSpace).head? ≠ some (char '(')) :
    announced text = .ok 0 := by
  rw [announced, addressFormat, sscanf_mismatch apart]
  rfl

end Numbers

/-! ## The wording -/

section Wording

variable {wording : List Byte}

/-- Three words and a space are read as the format expects. -/
theorem ThreeWords.behind (three : ThreeWords wording) :
    behindWords wording ≠ [] ∧ Blank (behindWords wording) := by
  rcases three with ⟨count, last⟩
  obtain ⟨first, second, third, listed⟩ := List.length_eq_three.mp count
  have one := nextWord_of_words listed
  have two := nextWord_of_words one.2
  have three := nextWord_of_words two.2
  have white : isSpace (char ' ') = true := by decide
  have last := getLast?_behindWord (by simp [listed]) last white
  have last := getLast?_behindWord (by simp [one.2]) last white
  have last := getLast?_behindWord (by simp [two.2]) last white
  refine ⟨?_, blank_of_words three.2⟩
  intro nothing
  rw [← behindWords, nothing] at last
  cases last

theorem ThreeWords.short (three : ThreeWords wording)
    (short : ∀ word ∈ words wording, word.length < 32) :
    ShortWords wording := by
  obtain ⟨first, second, third, listed⟩ := List.length_eq_three.mp three.1
  have one := nextWord_of_words listed
  have two := nextWord_of_words one.2
  have three := nextWord_of_words two.2
  rw [ShortWords, one.1, two.1, three.1]
  rw [listed] at short
  exact ⟨short first (by simp), short second (by simp),
    short third (by simp)⟩

/-- Nothing else is read that way. -/
theorem threeWords_of_behind
    (printable : ∀ byte ∈ wording, 32 ≤ byte.toNat ∧ byte.toNat ≤ 126)
    (more : behindWords wording ≠ []) (white : Blank (behindWords wording)) :
    ThreeWords wording := by
  have two : behindWord (behindWord wording) ≠ [] := by
    intro nothing
    rw [behindWords, nothing] at more
    exact more rfl
  have one : behindWord wording ≠ [] := by
    intro nothing
    rw [nothing] at two
    exact two rfl
  refine ⟨?_, ?_⟩
  · rw [words_of_behindWord one, words_of_behindWord two,
      words_of_behindWord more, ← behindWords, words_blank white]
    rfl
  · obtain ⟨front, split⟩ : behindWords wording <:+ wording :=
      (behindWord_suffix _).trans
        ((behindWord_suffix _).trans (behindWord_suffix _))
    have last := List.getLast?_append_of_ne_nil front more
    rw [split, List.getLast?_eq_some_getLast more] at last
    have only : ∀ byte : Byte,
        isSpace byte = true → 32 ≤ byte.toNat → byte = char ' ' := by
      decide
    rw [last, only _ (white _ (List.getLast_mem more))
      (printable _ (List.mem_of_getLast? last)).1]

/-- Behind three words of the wording the line goes on as the wording does. -/
theorem words_line (more : behindWords wording ≠ []) (behind : List Byte) :
    (ShortWords (wording ++ behind) ↔ ShortWords wording) ∧
      behindWords (wording ++ behind) = behindWords wording ++ behind := by
  have two : behindWord (behindWord wording) ≠ [] := by
    intro nothing
    rw [behindWords, nothing] at more
    exact more rfl
  have one : behindWord wording ≠ [] := by
    intro nothing
    rw [nothing] at two
    exact two rfl
  have first := nextWord_append_left one behind
  have second := nextWord_append_left two behind
  have third := nextWord_append_left more behind
  rw [ShortWords, behindWords, first.1, first.2, second.1, second.2, third.1,
    third.2]
  exact ⟨Iff.rfl, rfl⟩

/-- Otherwise one of the three words takes the parenthesis. -/
theorem behindWords_suffix (few : behindWords wording = [])
    (behind : List Byte) :
    behindWords (wording ++ char '(' :: behind) <:+ behind := by
  have visible : isSpace (char '(') = false := by decide
  rw [behindWords] at few ⊢
  by_cases one : behindWord wording = []
  · exact ((behindWord_suffix _).trans (behindWord_suffix _)).trans
      (behindWord_append_right one visible behind)
  · rw [(nextWord_append_left one _).2]
    by_cases two : behindWord (behindWord wording) = []
    · exact (behindWord_suffix _).trans
        (behindWord_append_right two visible behind)
    · rw [(nextWord_append_left two _).2]
      exact behindWord_append_right few visible behind

end Wording

/-! ## Both functions -/

section Functions

variable (reply : PasvReply)

theorem mem_list {byte : Byte} (member : byte ∈ reply.list) :
    byte = char ',' ∨ isDigit byte = true := by
  rcases mem_joined member with comma | ⟨text, listed, inside⟩
  · exact Or.inl comma
  · have member : text ∈ reply.numbers.map Number.text := listed
    obtain ⟨number, -, rfl⟩ := List.mem_map.mp member
    exact Or.inr (number.digits byte inside)

theorem not_mem_tail {byte : Byte} (apart : byte ∉ ascii ",)")
    (notDigit : isDigit byte = false) (absent : byte ∉ reply.rest) :
    byte ∉ reply.tail := by
  intro member
  rw [PasvReply.tail, List.mem_append, List.mem_cons] at member
  rcases member with listed | closing | behind
  · rcases mem_list reply listed with comma | digit
    · exact apart (by rw [comma]; decide)
    · rw [notDigit] at digit
      cases digit
  · exact apart (by rw [closing]; decide)
  · exact absent behind

theorem nulFree_bytes : 0 ∉ reply.bytes := by
  have printable : 0 ∉ reply.wording ++ reply.rest := by
    intro zero
    exact absurd (reply.printable 0 zero).1 (by decide)
  rw [List.mem_append, not_or] at printable
  have behind : 0 ∉ reply.tail :=
    not_mem_tail reply (by decide) (by decide) printable.2
  exact List.not_mem_append (by decide)
    (List.not_mem_append printable.1
      (List.not_mem_cons_of_ne_of_not_mem (by decide) behind))

/-- With another wording and no further parenthesis the port is 0. -/
theorem announced_other (plain : char '(' ∉ reply.rest)
    (other : ¬ ThreeWords reply.wording) :
    announced (behindWords reply.line) = .ok 0 := by
  refine announced_nothing ?_
  by_cases few : behindWords reply.wording = []
  · intro first
    have inside :=
      (List.dropWhile_suffix _).subset (List.mem_of_head? first)
    have behind := (behindWords_suffix few reply.tail).subset inside
    exact not_mem_tail reply (by decide) (by decide) plain behind
  · have inside : behindWords reply.wording <:+ reply.wording :=
      (behindWord_suffix _).trans
        ((behindWord_suffix _).trans (behindWord_suffix _))
    have visible :
        (behindWords reply.wording).dropWhile isSpace ≠ [] := by
      rw [ne_eq, List.dropWhile_eq_nil_iff]
      intro white
      refine other (threeWords_of_behind (fun byte member => ?_) few white)
      exact reply.printable byte (List.mem_append_left _ member)
    rw [PasvReply.line, (words_line few _).2, List.dropWhile_append,
      if_neg (by simpa using visible),
      List.head?_append_of_ne_nil _ visible]
    intro first
    exact reply.plain (inside.subset
      ((List.dropWhile_suffix _).subset (List.mem_of_head? first)))

theorem open_mem_bytes : char '(' ∈ reply.bytes :=
  List.mem_append_right _ (List.mem_append_right _ (List.mem_cons_self ..))

/-- A zeroed array holds a text with a terminator if it is larger. -/
theorem cString_received {text : List Byte} (nulFree : 0 ∉ text)
    (size : Nat) :
    cString (store (List.replicate size 0) 0 (text.take size)) =
      if text.length < size then .ok text else .error .outOfBounds := by
  by_cases fits : text.length < size
  · have copied := memcpy_zeros fits
    rw [memcpy, if_pos (by simp; omega), Except.ok.injEq] at copied
    rw [if_pos fits, List.take_of_length_le fits.le, copied,
      cString_append_nul nulFree]
  · have full : store (List.replicate size 0) 0 (text.take size) =
        text.take size := by
      simp [store]
      omega
    rw [if_neg fits, full, cString, if_neg]
    exact fun zero => nulFree (List.mem_of_mem_take zero)

/-- What the first function does with a reply. -/
theorem ftpsOpenPasvPort_eq :
    ftpsOpenPasvPort reply.bytes =
      if reply.bytes.length < 512 ∧ ShortWords reply.line then
        (announced (behindWords reply.line)).map some
      else .error .outOfBounds := by
  rw [ftpsOpenPasvPort, cString_received (nulFree_bytes reply)]
  by_cases fits : reply.bytes.length < 512
  · obtain ⟨position, found⟩ := exists_strchr_iff.mpr (open_mem_bytes reply)
    rw [if_pos fits]
    change (match strchr reply.bytes (char '(') with
      | none => Except.ok none
      | some _ => sscanf pasvFormat reply.bytes >>= fun v =>
          Except.ok (some (v.getD 5 0 * 256 + v.getD 6 0))) = _
    rw [found]
    dsimp only
    rw [PasvReply.bytes, sscanf_pasvFormat]
    by_cases short : ShortWords reply.line
    · rw [if_pos short, if_pos ⟨fits, short⟩, announced]
      cases sscanf addressFormat (behindWords reply.line) with
      | error fault => rfl
      | ok values => rfl
    · rw [if_neg short, if_neg fun both => short both.2]
      rfl
  · rw [if_neg fits, if_neg fun both => fits both.1]
    rfl

/-- The second function always finds the port, if the reply fits. -/
theorem dataPort_eq (fits : reply.bytes.length < 1024)
    (response : CArray Byte 1024) (numbers : CArray (BitVec 32) 6) :
    dataPort response numbers reply.bytes = .ok reply.port := by
  have size : response.toList.length = 1024 := by simp
  have occupied : 0 < reply.bytes.length := by
    simp [PasvReply.bytes, ascii]
  have received : receiveFtpResponse response.toList reply.bytes =
      .ok (reply.bytes ++
        0 :: response.toList.drop (reply.bytes.length + 1)) := by
    have whole : reply.bytes.take response.toList.length = reply.bytes :=
      List.take_of_length_le (by omega)
    have same : (store response.toList 0 reply.bytes).length = 1024 :=
      (length_store (by omega)).trans size
    rw [receiveFtpResponse, whole, if_pos occupied, if_pos (by omega)]
    simp [store]
  have front : char '(' ∉ ascii "227 " ++ reply.wording :=
    List.not_mem_append (by decide) reply.plain
  have shape : reply.bytes =
      (ascii "227 " ++ reply.wording) ++ char '(' :: reply.tail := by
    rw [PasvReply.bytes, PasvReply.line, List.append_assoc]
  have behind : reply.bytes.drop
      ((ascii "227 " ++ reply.wording).length + 1) = reply.tail := by
    rw [shape, ← List.drop_drop, List.drop_left]
    rfl
  have found := strchr_append front reply.tail
  rw [← shape] at found
  have values : sscanf responseFormat reply.tail =
      .ok ((reply.numbers.map fun number =>
        BitVec.ofNat 32 (numeral number.text)) ++ []) :=
    sscanf_list reply []
  rw [dataPort, received]
  change (cString (reply.bytes ++ 0 :: _) >>= _) = _
  rw [cString_append_nul (nulFree_bytes reply)]
  change (match strchr reply.bytes (char '(') with
    | none => Except.error Fault.nullPointer
    | some position => sscanf responseFormat
        (reply.bytes.drop (position + 1)) >>= _) = _
  rw [found]
  dsimp only
  rw [behind, values]
  exact congrArg Except.ok (port_eq reply)

/--
Both functions find the port exactly if the reply fits into the smaller buffer
and either its text consists of three words and ends with a space, or the first
three words behind the code fit and the text behind them announces the same
port.  Without another parenthesis such a text announces the port 0; with
another group of six numbers there it announces the port of that group.
-/
theorem agree_iff :
    (reply.Agree ↔
      reply.bytes.length < 512 ∧
        (ThreeWords reply.wording ∨
          ShortWords reply.line ∧
            announced (behindWords reply.line) = .ok reply.port)) ∧
      (char '(' ∉ reply.rest → ¬ ThreeWords reply.wording →
        (announced (behindWords reply.line) = .ok reply.port ↔
          numeral reply.p1.text = 0 ∧ numeral reply.p2.text = 0)) ∧
      ∀ (second : PasvReply) (blank : List Byte),
        Blank blank →
        behindWords reply.line = blank ++ char '(' :: second.tail →
        (announced (behindWords reply.line) = .ok reply.port ↔
          second.port = reply.port) := by
  refine ⟨?_, fun plain other => ?_, fun second blank white group => ?_⟩
  · rw [PasvReply.Agree, ftpsOpenPasvPort_eq]
    constructor
    · rintro ⟨found, -⟩
      by_cases both : reply.bytes.length < 512 ∧ ShortWords reply.line
      · rw [if_pos both] at found
        refine ⟨both.1, Or.inr ⟨both.2, ?_⟩⟩
        cases result : announced (behindWords reply.line) with
        | error fault =>
            rw [result] at found
            cases found
        | ok port =>
            rw [result] at found
            cases found
            rfl
      · rw [if_neg both] at found
        cases found
    · rintro ⟨fits, wording⟩
      refine ⟨?_, fun response numbers =>
        dataPort_eq reply (by omega) response numbers⟩
      rcases wording with three | ⟨short, same⟩
      · have line := words_line three.behind.1 (char '(' :: reply.tail)
        have short := line.1.mpr (three.short reply.short)
        rw [← PasvReply.line] at short
        rw [if_pos ⟨fits, short⟩, PasvReply.line, line.2,
          announced_list reply three.behind.2]
        rfl
      · rw [if_pos ⟨fits, short⟩, same]
        rfl
  · have first := reply.p1.small
    have second := reply.p2.small
    rw [announced_other reply plain other, Except.ok.injEq, PasvReply.port]
    constructor
    · intro zero
      have value := congrArg BitVec.toNat zero
      rw [BitVec.toNat_ofNat] at value
      change 0 = _ at value
      omega
    · rintro ⟨high, low⟩
      rw [high, low]
      rfl
  · rw [group, announced_list second white, Except.ok.injEq]

end Functions

/-- The answer of many servers, without the space behind its words. -/
def closeParenthesis : PasvReply where
  wording := ascii "Entering Passive Mode"
  h1 := ⟨ascii "1", by decide, by decide, by decide⟩
  h2 := ⟨ascii "2", by decide, by decide, by decide⟩
  h3 := ⟨ascii "3", by decide, by decide, by decide⟩
  h4 := ⟨ascii "4", by decide, by decide, by decide⟩
  p1 := ⟨ascii "5", by decide, by decide, by decide⟩
  p2 := ⟨ascii "6", by decide, by decide, by decide⟩
  rest := ascii "."
  printable := by decide
  plain := by decide
  short := by decide

theorem not_agree_closeParenthesis : ¬ closeParenthesis.Agree := by
  rintro ⟨found, -⟩
  revert found
  decide

end CommonCode.Ftps
