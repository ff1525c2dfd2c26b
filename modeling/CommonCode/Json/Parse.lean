import CommonCode.Json.Print
import CommonCode.Lib.CScan

/-!
# The parser of cJSON

A text is the memory from a pointer on, and memory behind its end reads as
zero.  A function of the parser returns what it has parsed and the text behind
it, or the text at which it has failed, which the source leaves in `ep`.

The functions for arrays and objects call `parse_value`; here they get it as an
argument.  The nesting of values, and the number of elements in a sequence, are
bounded by the length of the text, which bounds the recursion.
-/

namespace CommonCode.Json

open CommonCode.Lib.Bits
open CommonCode.Lib.CString
open CommonCode.Lib.CScan

/-- The byte at a pointer. -/
def byteAt (text : List Byte) : Byte := text.headD 0

@[simp]
theorem byteAt_cons (byte : Byte) (rest : List Byte) :
    byteAt (byte :: rest) = byte :=
  rfl

/-- White space for `skip`. -/
def blank (byte : Byte) : Bool := byte ≠ 0 && byte.toNat ≤ 32

def skip (text : List Byte) : List Byte := text.dropWhile blank

/-! ## Strings -/

/-- The value of a hexadecimal digit. -/
def hexValue (byte : Byte) : Option Nat :=
  if 48 ≤ byte.toNat ∧ byte.toNat ≤ 57 then some (byte.toNat - 48)
  else if 65 ≤ byte.toNat ∧ byte.toNat ≤ 70 then some (byte.toNat - 55)
  else if 97 ≤ byte.toNat ∧ byte.toNat ≤ 102 then some (byte.toNat - 87)
  else none

def parseHex4 (str : List Byte) : Nat :=
  match hexValue (byteAt str), hexValue (byteAt (str.drop 1)),
      hexValue (byteAt (str.drop 2)), hexValue (byteAt (str.drop 3)) with
  | some a, some b, some c, some d => ((a * 16 + b) * 16 + c) * 16 + d
  | _, _, _, _ => 0

def firstByteMark : List Nat := [0x00, 0x00, 0xC0, 0xE0, 0xF0, 0xF8, 0xFC]

/-- The bytes of a character behind the first, the last `count` of them. -/
def continuation : Nat → Nat → List Byte
  | 0, _ => []
  | count + 1, uc =>
      continuation count (uc >>> 6) ++
        [BitVec.ofNat 8 ((uc ||| 0x80) &&& 0xBF)]

/-- The UTF-8 encoding of a character. -/
def utf8 (uc : Nat) : List Byte :=
  let len :=
    if uc < 0x80 then 1
    else if uc < 0x800 then 2
    else if uc < 0x10000 then 3
    else 4
  BitVec.ofNat 8 (uc >>> (6 * (len - 1)) ||| firstByteMark.getD len 0) ::
    continuation (len - 1) uc

/--
An escape sequence, from the byte behind the backslash: what it stands for and
the text from its last byte on.
-/
def parseEscape (ptr : List Byte) : List Byte × List Byte :=
  let token := byteAt ptr
  if token = char 'b' then ([8], ptr)
  else if token = char 'f' then ([12], ptr)
  else if token = char 'n' then ([10], ptr)
  else if token = char 'r' then ([13], ptr)
  else if token = char 't' then ([9], ptr)
  else if token = char 'u' then
    let uc := parseHex4 (ptr.drop 1)
    let ptr := ptr.drop 4
    if 0xDC00 ≤ uc ∧ uc ≤ 0xDFFF ∨ uc = 0 then ([], ptr)
    else if 0xD800 ≤ uc ∧ uc ≤ 0xDBFF then
      if byteAt (ptr.drop 1) ≠ char '\\' ∨ byteAt (ptr.drop 2) ≠ char 'u' then
        ([], ptr)
      else
        let uc2 := parseHex4 (ptr.drop 3)
        let ptr := ptr.drop 6
        if uc2 < 0xDC00 ∨ 0xDFFF < uc2 then ([], ptr)
        else
          (utf8 (0x10000 + ((uc &&& 0x3FF) <<< 10 ||| uc2 &&& 0x3FF)), ptr)
    else (utf8 uc, ptr)
  else ([token], ptr)

theorem length_parseEscape (ptr : List Byte) :
    (parseEscape ptr).2.length ≤ ptr.length := by
  simp only [parseEscape]
  repeat' split
  all_goals simp

/-- The bytes of a string up to the quote, and the text from there. -/
def parseChars : List Byte → List Byte × List Byte
  | [] => ([], [])
  | byte :: rest =>
      if byte = char '"' ∨ byte = 0 then ([], byte :: rest)
      else if byte ≠ char '\\' then
        let (out, ptr) := parseChars rest
        (byte :: out, ptr)
      else
        let escaped := parseEscape rest
        let (out, ptr) := parseChars (escaped.2.drop 1)
        (escaped.1 ++ out, ptr)
termination_by text => text.length
decreasing_by
  · simp
  · have bound := length_parseEscape rest
    simp only [List.length_drop, List.length_cons]
    omega

def parseString (str : List Byte) :
    Except (List Byte) (List Byte × List Byte) :=
  if byteAt str ≠ char '"' then .error str
  else
    let (out, ptr) := parseChars str.tail
    .ok (out, if byteAt ptr = char '"' then ptr.tail else ptr)

/-! ## Numbers -/

section Numbers

variable {Double : Type} (arithmetic : Arithmetic Double)

/-- `n*10.0 + digit` for each digit. -/
def parseDigits (n : Double) : List Byte → Double × List Byte
  | [] => (n, [])
  | byte :: rest =>
      if isDigit byte then
        parseDigits
          (arithmetic.add (arithmetic.mul n (arithmetic.ofInt 10))
            (arithmetic.ofInt (byte.toNat - 48))) rest
      else (n, byte :: rest)

/-- The digits of the fraction also count in the scale. -/
def parseFraction (n scale : Double) :
    List Byte → Double × Double × List Byte
  | [] => (n, scale, [])
  | byte :: rest =>
      if isDigit byte then
        parseFraction
          (arithmetic.add (arithmetic.mul n (arithmetic.ofInt 10))
            (arithmetic.ofInt (byte.toNat - 48)))
          (arithmetic.sub scale (arithmetic.ofInt 1)) rest
      else (n, scale, byte :: rest)

/-- The digits of the exponent. -/
def parseExponent (subscale : BitVec 32) :
    List Byte → BitVec 32 × List Byte
  | [] => (subscale, [])
  | byte :: rest =>
      if isDigit byte then
        parseExponent (subscale * 10 + BitVec.ofNat 32 (byte.toNat - 48)) rest
      else (subscale, byte :: rest)

def parseNumber (num : List Byte) : CJson Double × List Byte :=
  let sign : Int := if byteAt num = char '-' then -1 else 1
  let num := if byteAt num = char '-' then num.tail else num
  let num := if byteAt num = char '0' then num.tail else num
  let (n, num) :=
    if isDigit (byteAt num) ∧ byteAt num ≠ char '0' then
      parseDigits arithmetic (arithmetic.ofInt 0) num
    else (arithmetic.ofInt 0, num)
  let (n, scale, num) :=
    if byteAt num = char '.' ∧ isDigit (byteAt num.tail) then
      parseFraction arithmetic n (arithmetic.ofInt 0) num.tail
    else (n, arithmetic.ofInt 0, num)
  let (subscale, signsubscale, num) : BitVec 32 × BitVec 32 × List Byte :=
    if byteAt num = char 'e' ∨ byteAt num = char 'E' then
      let num := num.tail
      let signsubscale : BitVec 32 :=
        if byteAt num = char '-' then -1 else 1
      let num :=
        if byteAt num = char '+' ∨ byteAt num = char '-' then num.tail
        else num
      let (subscale, num) := parseExponent 0 num
      (subscale, signsubscale, num)
    else (0, 1, num)
  let n :=
    arithmetic.mul (arithmetic.mul (arithmetic.ofInt sign) n)
      (arithmetic.pow (arithmetic.ofInt 10)
        (arithmetic.add scale
          (arithmetic.ofInt (subscale * signsubscale).toInt)))
  (.number n (arithmetic.toInt n), num)

end Numbers

/-! ## Arrays and objects -/

section Sequences

variable {α : Type}
  (element : List Byte → Except (List Byte) (α × List Byte))

/-- The elements behind the first, each after a comma. -/
def parseMore :
    Nat → List Byte → Except (List Byte) (List α × List Byte)
  | 0, value => .ok ([], value)
  | fuel + 1, value =>
      if byteAt value = char ',' then do
        let (child, value) ← element value.tail
        let (children, value) ← parseMore fuel value
        return (child :: children, value)
      else .ok ([], value)

/--
The common body of `parse_array` and `parse_object`, which differ in their
brackets and in the elements.  An element ends with `skip`.
-/
def parseSequence (opening closing : Byte) (value : List Byte) :
    Except (List Byte) (List α × List Byte) :=
  if byteAt value ≠ opening then .error value
  else
    let value := skip value.tail
    if byteAt value = closing then .ok ([], value.tail)
    else do
      let (child, value) ← element value
      let (children, value) ← parseMore element value.length value
      if byteAt value = closing then return (child :: children, value.tail)
      else .error value

end Sequences

section Elements

variable {Double : Type}
  (parseValue : List Byte → Except (List Byte) (CJson Double × List Byte))

/-- An item of an array. -/
def parseItem (value : List Byte) :
    Except (List Byte) (CJson Double × List Byte) := do
  let (item, value) ← parseValue (skip value)
  return (item, skip value)

/-- A name and its value in an object. -/
def parseMember (value : List Byte) :
    Except (List Byte) ((List Byte × CJson Double) × List Byte) := do
  let (string, value) ← parseString (skip value)
  let value := skip value
  if byteAt value ≠ char ':' then .error value
  else do
    let (item, value) ← parseValue (skip value.tail)
    return ((string, item), skip value)

def parseArray (value : List Byte) :
    Except (List Byte) (CJson Double × List Byte) := do
  let (child, value) ←
    parseSequence (parseItem parseValue) (char '[') (char ']') value
  return (.array child, value)

def parseObject (value : List Byte) :
    Except (List Byte) (CJson Double × List Byte) := do
  let (child, value) ←
    parseSequence (parseMember parseValue) (char '{') (char '}') value
  return (.object child, value)

end Elements

/-! ## Values -/

section Values

variable {Double : Type} (arithmetic : Arithmetic Double)

/-- `parse_value`, with a bound on the nesting. -/
def parseValue :
    Nat → List Byte → Except (List Byte) (CJson Double × List Byte)
  | 0, value => .error value
  | fuel + 1, value =>
      if strncmp value (ascii "null") 4 = 0 then .ok (.null, value.drop 4)
      else if strncmp value (ascii "false") 5 = 0 then
        .ok (.bool false, value.drop 5)
      else if strncmp value (ascii "true") 4 = 0 then
        .ok (.bool true, value.drop 4)
      else if byteAt value = char '"' then do
        let (valuestring, value) ← parseString value
        return (.string valuestring, value)
      else if byteAt value = char '-' ∨ isDigit (byteAt value) then
        .ok (parseNumber arithmetic value)
      else if byteAt value = char '[' then
        parseArray (parseValue fuel) value
      else if byteAt value = char '{' then
        parseObject (parseValue fuel) value
      else .error value

/-- `cJSON_Parse`: what follows the first value is not looked at. -/
def cJsonParse (value : List Byte) : Except (List Byte) (CJson Double) := do
  let (item, _) ← parseValue arithmetic (value.length + 1) (skip value)
  return item

end Values

end CommonCode.Json
