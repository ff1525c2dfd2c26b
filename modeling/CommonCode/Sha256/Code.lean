import CommonCode.Lib.Bits
import CommonCode.Lib.CArray

/-!
# `sha256` of `encode_decode/sha256.c`

The embedding follows the C function statement by statement, on a little-endian
target.  The variable-length array `buf` is the function from offsets to bytes,
and `w` and `out` are arrays of 64 words and 32 bytes.  The initial contents of
`buf` and `w` are arguments, since the function leaves parts of both
uninitialised for a while.

Three details of the source are kept:

* the word-assembly loop shifts a promoted byte left by `8 * (3 - i)`, a count
  that is negative from `i = 4` on.  What the target computes for a left shift
  is the argument `shl`, and `shlMod32` is the x86 behaviour;
* the offset `idx * 64` into `buf` is a product of 32-bit integers;
* the macro `copy_uint32` casts before it adds, so its offset counts words.
-/

namespace CommonCode.Sha256

open CommonCode.Lib
open CommonCode.Lib.Bits

abbrev Word := BitVec 32

/-- A 32-bit left shift by a count taken modulo 32. -/
def shlMod32 (x : Word) (count : Int) : Word :=
  x <<< (count % 32).toNat

/-- The macro `rightrotate`. -/
def rightrotate (w : Word) (n : Nat) : Word :=
  (w >>> n) ||| (w <<< (32 - n))

/-- The round constants. -/
def k : List Word :=
  [0x428a2f98, 0x71374491, 0xb5c0fbcf, 0xe9b5dba5,
   0x3956c25b, 0x59f111f1, 0x923f82a4, 0xab1c5ed5,
   0xd807aa98, 0x12835b01, 0x243185be, 0x550c7dc3,
   0x72be5d74, 0x80deb1fe, 0x9bdc06a7, 0xc19bf174,
   0xe49b69c1, 0xefbe4786, 0x0fc19dc6, 0x240ca1cc,
   0x2de92c6f, 0x4a7484aa, 0x5cb0a9dc, 0x76f988da,
   0x983e5152, 0xa831c66d, 0xb00327c8, 0xbf597fc7,
   0xc6e00bf3, 0xd5a79147, 0x06ca6351, 0x14292967,
   0x27b70a85, 0x2e1b2138, 0x4d2c6dfc, 0x53380d13,
   0x650a7354, 0x766a0abb, 0x81c2c92e, 0x92722c85,
   0xa2bfe8a1, 0xa81a664b, 0xc24b8b70, 0xc76c51a3,
   0xd192e819, 0xd6990624, 0xf40e3585, 0x106aa070,
   0x19a4c116, 0x1e376c08, 0x2748774c, 0x34b0bcb5,
   0x391c0cb3, 0x4ed8aa4a, 0x5b9cca4f, 0x682e6ff3,
   0x748f82ee, 0x78a5636f, 0x84c87814, 0x8cc70208,
   0x90befffa, 0xa4506ceb, 0xbef9a3f7, 0xc67178f2]

/-! ## Padding -/

/-- The local `r`, in bits. -/
def remainderBits (len : Nat) : Nat := len * 8 % 2 ^ 64 % 512

/-- The local `append`, in bytes. -/
def append (len : Nat) : Nat :=
  (if remainderBits len < 448 then 448 - remainderBits len
    else 448 + 512 - remainderBits len) / 8

def newLen (len : Nat) : Nat := (len + append len + 8) % 2 ^ 64

/-- `bzero(buf + start, count)`. -/
def bzero (buf : Int → Byte) (start count : Nat) : Int → Byte :=
  fun p => if start ≤ p ∧ p < start + count then 0 else buf p

/-- `memcpy(buf, data, len)`. -/
def memcpy (buf : Int → Byte) (data : List Byte) : Int → Byte :=
  fun p => if 0 ≤ p ∧ p < data.length then data.getD p.toNat 0 else buf p

/-- The `i`-th of the eight length bytes. -/
def lengthByte (bitsLen : BitVec 64) (i : Nat) : Byte :=
  ((bitsLen >>> ((7 - i) * 8)) &&& 0xff#64).setWidth 8

/-- The contents of `buf` when the chunk loop starts. -/
def paddedBuf (stack : Int → Byte) (data : List Byte) : Int → Byte :=
  let len := data.length
  let buf := bzero stack len (append len)
  let buf := if len > 0 then memcpy buf data else buf
  let buf := Function.update buf len 0x80
  let bitsLen := BitVec.ofNat 64 (len * 8)
  (List.range 8).foldl
    (fun buf (i : Nat) =>
      Function.update buf ((len + append len + i : Nat) : Int)
        (lengthByte bitsLen i))
    buf

/-! ## One chunk -/

/-- The offset `idx * 64` of a chunk, computed in `int`. -/
def chunkOffset (idx : Nat) : Int :=
  (BitVec.ofNat 32 idx * 64#32).toInt

/-- One iteration of the word-assembly loop on `val` and `w`. -/
def assembleStep (shl : Word → Int → Word) (buf : Int → Byte) (idx : Nat)
    (state : Word × CArray Word 64) (i : Nat) : Word × CArray Word 64 :=
  let val :=
    state.1 |||
      shl ((buf (chunkOffset idx + i)).setWidth 32) (8 * (3 - (i : Int)))
  if i % 4 = 3 then (0, state.2.write (i / 4) val)
  else (val, state.2)

/-- The word that iteration `i` of the schedule loop computes. -/
def scheduleWord (w : CArray Word 64) (i : Nat) : Word :=
  let s0 :=
    rightrotate (w.read (i - 15)) 7 ^^^ rightrotate (w.read (i - 15)) 18 ^^^
      (w.read (i - 15) >>> 3)
  let s1 :=
    rightrotate (w.read (i - 2)) 17 ^^^ rightrotate (w.read (i - 2)) 19 ^^^
      (w.read (i - 2) >>> 10)
  w.read (i - 16) + s0 + w.read (i - 7) + s1

/-- The schedule loop. -/
def extendSchedule (w : CArray Word 64) : CArray Word 64 :=
  (List.range' 16 48).foldl (fun w i => w.write i (scheduleWord w i)) w

/-- The locals `a` to `h`, and likewise `h0` to `h7`. -/
structure Registers where
  a : Word
  b : Word
  c : Word
  d : Word
  e : Word
  f : Word
  g : Word
  h : Word
deriving DecidableEq, Repr

def initialRegisters : Registers where
  a := 0x6a09e667
  b := 0xbb67ae85
  c := 0x3c6ef372
  d := 0xa54ff53a
  e := 0x510e527f
  f := 0x9b05688c
  g := 0x1f83d9ab
  h := 0x5be0cd19

/-- One iteration of the round loop. -/
def roundStep (w : CArray Word 64) (v : Registers) (i : Nat) : Registers :=
  let s_1 := rightrotate v.e 6 ^^^ rightrotate v.e 11 ^^^ rightrotate v.e 25
  let ch := (v.e &&& v.f) ^^^ (~~~v.e &&& v.g)
  let temp1 := v.h + s_1 + ch + k.getD i 0 + w.read i
  let s_0 := rightrotate v.a 2 ^^^ rightrotate v.a 13 ^^^ rightrotate v.a 22
  let maj := (v.a &&& v.b) ^^^ (v.a &&& v.c) ^^^ (v.b &&& v.c)
  let temp2 := s_0 + maj
  { h := v.g, g := v.f, f := v.e, e := v.d + temp1,
    d := v.c, c := v.b, b := v.a, a := temp1 + temp2 }

def Registers.add (left right : Registers) : Registers where
  a := left.a + right.a
  b := left.b + right.b
  c := left.c + right.c
  d := left.d + right.d
  e := left.e + right.e
  f := left.f + right.f
  g := left.g + right.g
  h := left.h + right.h

/-- One iteration of the chunk loop on `h0`..`h7` and `w`. -/
def chunkStep (shl : Word → Int → Word) (buf : Int → Byte)
    (state : Registers × CArray Word 64) (idx : Nat) :
    Registers × CArray Word 64 :=
  let w := ((List.range 64).foldl (assembleStep shl buf idx) (0, state.2)).2
  let w := extendSchedule w
  let v := (List.range 64).foldl (roundStep w) state.1
  (state.1.add v, w)

/-! ## Output -/

/-- A 32-bit store on a little-endian target. -/
def storeUint32 (out : CArray Byte 32) (address : Nat) (val : Word) :
    CArray Byte 32 :=
  (List.range 4).foldl
    (fun out i => out.write (address + i) ((val >>> (8 * i)).setWidth 8))
    out

/-- The builtin `__builtin_bswap32`. -/
def bswap32 (val : Word) : Word :=
  (val <<< 24) ||| ((val &&& 0xff00#32) <<< 8) |||
    ((val >>> 8) &&& 0xff00#32) ||| (val >>> 24)

/-- The macro `copy_uint32(out + offset, val)`; the offset counts words. -/
def copyUint32 (out : CArray Byte 32) (offset : Nat) (val : Word) :
    CArray Byte 32 :=
  storeUint32 out (4 * offset) (bswap32 val)

/-- `bzero(w, 64)`, which clears sixteen of the sixty-four words. -/
def bzeroSchedule (w : CArray Word 64) : CArray Word 64 :=
  (List.range 16).foldl (fun w i => w.write i 0) w

/-- The registers `h0` to `h7` after the last chunk. -/
def finalRegisters (shl : Word → Int → Word) (stack : Int → Byte)
    (w : CArray Word 64) (data : List Byte) : Registers :=
  ((List.range (newLen data.length / 64)).foldl
    (chunkStep shl (paddedBuf stack data))
    (initialRegisters, bzeroSchedule w)).1

/-- The function `sha256(data, len, out)` with `len` the length of `data`. -/
def sha256 (shl : Word → Int → Word) (stack : Int → Byte)
    (w : CArray Word 64) (data : List Byte) (out : CArray Byte 32) :
    CArray Byte 32 :=
  let v := finalRegisters shl stack w data
  let out := copyUint32 out 0 v.a
  let out := copyUint32 out 1 v.b
  let out := copyUint32 out 2 v.c
  let out := copyUint32 out 3 v.d
  let out := copyUint32 out 4 v.e
  let out := copyUint32 out 5 v.f
  let out := copyUint32 out 6 v.g
  copyUint32 out 7 v.h

end CommonCode.Sha256
