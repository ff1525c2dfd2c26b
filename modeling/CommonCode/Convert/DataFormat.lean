import CommonCode.Lib.CString

/-!
# Hexadecimal conversions

`data_format_convertion.c` converts between bytes and hexadecimal digits:
`StringToHex` decodes digits, `hex2str` encodes bytes with upper-case digits
and `str2hex` with lower-case ones.  Plain `char` is signed, as on x86.  An
`int` that holds a length is converted from `size_t` and may wrap around.  An
access outside of an array is a fault.
-/

namespace CommonCode.Convert

open CommonCode.Lib.Bits
open CommonCode.Lib.CString

/-! ## Memory -/

/-- The byte at an offset. -/
def load (memory : List Byte) (offset : Nat) : Except Fault Byte :=
  match memory[offset]? with
  | none => .error .outOfBounds
  | some byte => .ok byte

/-- Overwrite the byte at an offset. -/
def storeByte (memory : List Byte) (offset : Nat) (byte : Byte) :
    Except Fault (List Byte) :=
  if offset < memory.length then .ok (store memory offset [byte])
  else .error .outOfBounds

/-! ## `StringToHex` -/

/-- `((*p > '9') && ((*p <= 'F') || (*p <= 'f'))) ? *p - 48 - 7 : *p - 48` -/
def decodeDigit (c : Byte) : Int :=
  if c.toInt > 57 ∧ (c.toInt ≤ 70 ∨ c.toInt ≤ 102) then c.toInt - 48 - 7
  else c.toInt - 48

/-- `(high & 0x0f) << 4 | (low & 0x0f)` -/
def joinNibbles (high low : Byte) : Byte :=
  ((high &&& 0x0f) <<< 4) ||| (low &&& 0x0f)

/-- Rounds of the loop: `p`, `cnt` and the array `out` at its end. -/
def stringToHexLoop (str : List Byte) :
    Nat → Nat → Nat → List Byte → Except Fault (Nat × Nat × List Byte)
  | 0, p, cnt, out => .ok (p, cnt, out)
  | rounds + 1, p, cnt, out => do
      let high := BitVec.ofInt 8 (decodeDigit (← load str p))
      let low := BitVec.ofInt 8 (decodeDigit (← load str (p + 1)))
      let out ← storeByte out cnt (joinNibbles high low)
      stringToHexLoop str rounds (p + 2) (cnt + 1) out

/--
`StringToHex(str, out, outlen)`: the returned value, the array `out` and the
integer at `outlen`, which may be a null pointer.
-/
def stringToHex (str out : List Byte) (outlen : Option Int) :
    Except Fault (Int × List Byte × Option Int) := do
  let text ← cString str
  let tmplen := (BitVec.ofNat 32 text.length).toInt
  let (p, cnt, out) ←
    stringToHexLoop str (tmplen.tdiv 2).toNat 0 0 out
  let out ←
    if tmplen.tmod 2 ≠ 0 then do
      storeByte out cnt (BitVec.ofInt 8 (decodeDigit (← load str p)))
    else pure out
  let length := tmplen.tdiv 2 + tmplen.tmod 2
  return (length, out, outlen.map fun _ => length)

/-! ## `hex2str` -/

/-- The table `hexEncode` -/
def hexEncode : List Byte := ascii "0123456789ABCDEF"

/-- The loop of `hex2str` over the bytes that are left, from index `j` on. -/
def hex2strLoop : List Byte → Nat → List Byte → Except Fault (List Byte)
  | [], _, output => .ok output
  | byte :: input, j, output => do
      let output ←
        storeByte output j (← load hexEncode ((byte >>> 4) &&& 0xf).toNat)
      let output ←
        storeByte output (j + 1) (← load hexEncode (byte &&& 0xf).toNat)
      hex2strLoop input (j + 2) output

/-- `hex2str(input, input_len, output)`: the array `output`. -/
def hex2str (input : List Byte) (inputLen : BitVec 16) (output : List Byte) :
    Except Fault (List Byte) :=
  if inputLen.toNat ≤ input.length then
    hex2strLoop (input.take inputLen.toNat) 0 output
  else .error .outOfBounds

/-! ## `str2hex` -/

/-- The digits of `%x`, most significant first, with leading zeros. -/
def nibbles (value : BitVec 32) : List Nat :=
  (List.range 8).map fun i => ((value >>> (4 * (7 - i))) &&& 0xf).toNat

/-- A digit of `%x`. -/
def lowerDigit (value : Nat) : Byte :=
  (ascii "0123456789abcdef").getD value 0

/-- The conversion `%02x`: at least two digits, without other leading zeros. -/
def format02x (value : BitVec 32) : List Byte :=
  let digits := (nibbles value).dropWhile (· = 0)
  (List.replicate (2 - digits.length) 0 ++ digits).map lowerDigit

/-- The loop of `str2hex` over the elements that are left. -/
def str2hexLoop :
    List Byte → Nat → List Byte → Except Fault (List Byte × Nat)
  | [], j, dest => .ok (dest, j)
  | c :: src, j, dest => do
      let dest ← sprintf dest j (format02x (c.signExtend 32))
      str2hexLoop src (j + 2) dest

/-- `str2hex(dest, src, len)` for an array of `len` elements. -/
def str2hex (dest src : List Byte) : Except Fault (List Byte) := do
  let (dest, j) ← str2hexLoop src 0 dest
  storeByte dest j 0

end CommonCode.Convert
