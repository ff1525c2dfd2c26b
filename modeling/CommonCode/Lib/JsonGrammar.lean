import CommonCode.Lib.CScan

/-!
# The grammar of JSON

The texts that the standard for JSON derives, as predicates on bytes.  Bytes
from 0x80 on belong to characters outside ASCII and are allowed in strings
without a look at their encoding.  A sequence in brackets or braces is given by
its pieces, each with the white space around it.
-/

namespace CommonCode.Lib.JsonGrammar

open CommonCode.Lib.Bits
open CommonCode.Lib.CString
open CommonCode.Lib.CScan

/-! ## Leaves -/

/-- Insignificant white space. -/
def Ws (text : List Byte) : Prop :=
  ∀ byte ∈ text, byte ∈ [char ' ', char '\t', char '\n', char '\r']

instance (text : List Byte) : Decidable (Ws text) :=
  inferInstanceAs (Decidable
    (∀ byte ∈ text, byte ∈ [char ' ', char '\t', char '\n', char '\r']))

/-- A digit of a `\u` escape. -/
def isHexDigit (byte : Byte) : Bool :=
  isDigit byte || (65 ≤ byte.toNat && byte.toNat ≤ 70) ||
    (97 ≤ byte.toNat && byte.toNat ≤ 102)

/-- One character of a string. -/
inductive Character : List Byte → Prop where
  | plain {byte : Byte} (printable : 32 ≤ byte.toNat)
      (notQuote : byte ≠ char '"') (notBackslash : byte ≠ char '\\') :
      Character [byte]
  | escaped {byte : Byte} (short : byte ∈ ascii "\"\\/bfnrt") :
      Character [char '\\', byte]
  | unicode {a b c d : Byte}
      (digits : ∀ digit ∈ [a, b, c, d], isHexDigit digit = true) :
      Character [char '\\', char 'u', a, b, c, d]

/-- A string with its quotation marks. -/
inductive Str : List Byte → Prop where
  | quoted {characters : List (List Byte)}
      (each : ∀ character ∈ characters, Character character) :
      Str (char '"' :: (characters.flatten ++ [char '"']))

def Digits (text : List Byte) : Prop :=
  text ≠ [] ∧ ∀ byte ∈ text, isDigit byte = true

/-- An integer without superfluous zeros. -/
def Integer (text : List Byte) : Prop :=
  text = [char '0'] ∨ Digits text ∧ text.head? ≠ some (char '0')

def Fraction (text : List Byte) : Prop :=
  text = [] ∨ ∃ digits, Digits digits ∧ text = char '.' :: digits

def Exponent (text : List Byte) : Prop :=
  text = [] ∨ ∃ mark sign digits,
    mark ∈ [char 'e', char 'E'] ∧ sign ∈ [[], [char '-'], [char '+']] ∧
      Digits digits ∧ text = mark :: (sign ++ digits)

inductive Number : List Byte → Prop where
  | parts {sign integer fraction exponent : List Byte}
      (signed : sign ∈ [[], [char '-']]) (whole : Integer integer)
      (fractional : Fraction fraction) (scaled : Exponent exponent) :
      Number (sign ++ integer ++ fraction ++ exponent)

/-! ## Values -/

/-- A text with the white space around it. -/
structure Piece where
  before : List Byte
  text : List Byte
  after : List Byte

def Piece.bytes (piece : Piece) : List Byte :=
  piece.before ++ piece.text ++ piece.after

def Piece.Spaced (piece : Piece) : Prop := Ws piece.before ∧ Ws piece.after

/-- A name and a value, with the white space around them. -/
structure Entry where
  name : Piece
  value : Piece

def Entry.bytes (entry : Entry) : List Byte :=
  entry.name.bytes ++ char ':' :: entry.value.bytes

/-- Texts with commas between them. -/
def commas (first : List Byte) (rest : List (List Byte)) : List Byte :=
  first ++ rest.flatMap (char ',' :: ·)

inductive Value : List Byte → Prop where
  | null : Value (ascii "null")
  | false : Value (ascii "false")
  | true : Value (ascii "true")
  | number {text : List Byte} (number : Number text) : Value text
  | string {text : List Byte} (string : Str text) : Value text
  | emptyArray {space : List Byte} (spaced : Ws space) :
      Value (char '[' :: (space ++ [char ']']))
  | array {first : Piece} {rest : List Piece} {space : List Byte}
      (spaced : ∀ piece ∈ first :: rest, piece.Spaced)
      (values : ∀ piece ∈ first :: rest, Value piece.text)
      (closing : Ws space) :
      Value (char '[' ::
        (commas first.bytes (rest.map Piece.bytes) ++ (space ++ [char ']'])))
  | emptyObject {space : List Byte} (spaced : Ws space) :
      Value (char '{' :: (space ++ [char '}']))
  | object {first : Entry} {rest : List Entry} {space : List Byte}
      (spaced : ∀ entry ∈ first :: rest,
        entry.name.Spaced ∧ entry.value.Spaced)
      (names : ∀ entry ∈ first :: rest, Str entry.name.text)
      (values : ∀ entry ∈ first :: rest, Value entry.value.text)
      (closing : Ws space) :
      Value (char '{' ::
        (commas first.bytes (rest.map Entry.bytes) ++ (space ++ [char '}'])))

/-- A JSON text: a value with white space around it. -/
inductive Document : List Byte → Prop where
  | mk {piece : Piece} (spaced : piece.Spaced) (value : Value piece.text) :
      Document piece.bytes

/-! ## White space -/

theorem ws_nil : Ws [] := by
  intro byte member
  cases member

theorem Ws.append {front back : List Byte} (left : Ws front)
    (right : Ws back) : Ws (front ++ back) := by
  intro byte member
  rcases List.mem_append.mp member with inside | inside
  · exact left byte inside
  · exact right byte inside

/-- A value by itself is a JSON text. -/
theorem Value.document {text : List Byte} (value : Value text) :
    Document text := by
  have alone : text = (Piece.mk [] text []).bytes := by
    simp [Piece.bytes]
  rw [alone]
  exact .mk ⟨ws_nil, ws_nil⟩ value

end CommonCode.Lib.JsonGrammar
