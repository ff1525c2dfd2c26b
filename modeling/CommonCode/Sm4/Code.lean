import CommonCode.Lib.Bits
import CommonCode.Lib.CArray

/-!
# `encode_decode/sm4.c` on a target with 64-bit `unsigned long`

All words of the cipher are declared `unsigned long` and hold 64 bits.  The
macro `ROTL` masks only its left half, so that words carry bits above bit 31
from one round to the next; the embedding keeps them.

A sixteen-byte array is a vector.  The pointers `input` and `output` of the
block-mode functions are the list of the bytes that follow `input` and the list
of the bytes written from `output` on.  Every element of the local arrays `MK`,
`k`, `a` and `b` is written before it is read, so their initial contents are
immaterial and set to zero here.
-/

namespace CommonCode.Sm4

open CommonCode.Lib
open CommonCode.Lib.Bits

/-- The type `unsigned long` of an LP64 target. -/
abbrev ULong := BitVec 64

/-- An array of sixteen bytes: a key, an initialisation vector or a block. -/
abbrev Block := CArray Byte 16

/-! ## Macros -/

/-- The value that `GET_ULONG_BE(n, b, i)` assigns to `n`. -/
def getUlongBE {size : Nat} (b : CArray Byte size) (i : Nat) : ULong :=
  ((b.read i).setWidth 64 <<< 24) ||| ((b.read (i + 1)).setWidth 64 <<< 16) |||
    ((b.read (i + 2)).setWidth 64 <<< 8) ||| (b.read (i + 3)).setWidth 64

/-- The array `b` after `PUT_ULONG_BE(n, b, i)`. -/
def putUlongBE {size : Nat} (n : ULong) (b : CArray Byte size) (i : Nat) :
    CArray Byte size :=
  let b := b.write i ((n >>> 24).setWidth 8)
  let b := b.write (i + 1) ((n >>> 16).setWidth 8)
  let b := b.write (i + 2) ((n >>> 8).setWidth 8)
  b.write (i + 3) (n.setWidth 8)

def shl (x : ULong) (n : Nat) : ULong := (x &&& 0xFFFFFFFF#64) <<< n

def rotl (x : ULong) (n : Nat) : ULong := shl x n ||| (x >>> (32 - n))

/-! ## Tables -/

def sboxTable : List (List Byte) :=
  [[0xd6, 0x90, 0xe9, 0xfe, 0xcc, 0xe1, 0x3d, 0xb7,
    0x16, 0xb6, 0x14, 0xc2, 0x28, 0xfb, 0x2c, 0x05],
   [0x2b, 0x67, 0x9a, 0x76, 0x2a, 0xbe, 0x04, 0xc3,
    0xaa, 0x44, 0x13, 0x26, 0x49, 0x86, 0x06, 0x99],
   [0x9c, 0x42, 0x50, 0xf4, 0x91, 0xef, 0x98, 0x7a,
    0x33, 0x54, 0x0b, 0x43, 0xed, 0xcf, 0xac, 0x62],
   [0xe4, 0xb3, 0x1c, 0xa9, 0xc9, 0x08, 0xe8, 0x95,
    0x80, 0xdf, 0x94, 0xfa, 0x75, 0x8f, 0x3f, 0xa6],
   [0x47, 0x07, 0xa7, 0xfc, 0xf3, 0x73, 0x17, 0xba,
    0x83, 0x59, 0x3c, 0x19, 0xe6, 0x85, 0x4f, 0xa8],
   [0x68, 0x6b, 0x81, 0xb2, 0x71, 0x64, 0xda, 0x8b,
    0xf8, 0xeb, 0x0f, 0x4b, 0x70, 0x56, 0x9d, 0x35],
   [0x1e, 0x24, 0x0e, 0x5e, 0x63, 0x58, 0xd1, 0xa2,
    0x25, 0x22, 0x7c, 0x3b, 0x01, 0x21, 0x78, 0x87],
   [0xd4, 0x00, 0x46, 0x57, 0x9f, 0xd3, 0x27, 0x52,
    0x4c, 0x36, 0x02, 0xe7, 0xa0, 0xc4, 0xc8, 0x9e],
   [0xea, 0xbf, 0x8a, 0xd2, 0x40, 0xc7, 0x38, 0xb5,
    0xa3, 0xf7, 0xf2, 0xce, 0xf9, 0x61, 0x15, 0xa1],
   [0xe0, 0xae, 0x5d, 0xa4, 0x9b, 0x34, 0x1a, 0x55,
    0xad, 0x93, 0x32, 0x30, 0xf5, 0x8c, 0xb1, 0xe3],
   [0x1d, 0xf6, 0xe2, 0x2e, 0x82, 0x66, 0xca, 0x60,
    0xc0, 0x29, 0x23, 0xab, 0x0d, 0x53, 0x4e, 0x6f],
   [0xd5, 0xdb, 0x37, 0x45, 0xde, 0xfd, 0x8e, 0x2f,
    0x03, 0xff, 0x6a, 0x72, 0x6d, 0x6c, 0x5b, 0x51],
   [0x8d, 0x1b, 0xaf, 0x92, 0xbb, 0xdd, 0xbc, 0x7f,
    0x11, 0xd9, 0x5c, 0x41, 0x1f, 0x10, 0x5a, 0xd8],
   [0x0a, 0xc1, 0x31, 0x88, 0xa5, 0xcd, 0x7b, 0xbd,
    0x2d, 0x74, 0xd0, 0x12, 0xb8, 0xe5, 0xb4, 0xb0],
   [0x89, 0x69, 0x97, 0x4a, 0x0c, 0x96, 0x77, 0x7e,
    0x65, 0xb9, 0xf1, 0x09, 0xc5, 0x6e, 0xc6, 0x84],
   [0x18, 0xf0, 0x7d, 0xec, 0x3a, 0xdc, 0x4d, 0x20,
    0x79, 0xee, 0x5f, 0x3e, 0xd7, 0xcb, 0x39, 0x48]]

def fk : List ULong := [0xa3b1bac6, 0x56aa3350, 0x677d9197, 0xb27022dc]

def ck : List ULong :=
  [0x00070e15, 0x1c232a31, 0x383f464d, 0x545b6269,
   0x70777e85, 0x8c939aa1, 0xa8afb6bd, 0xc4cbd2d9,
   0xe0e7eef5, 0xfc030a11, 0x181f262d, 0x343b4249,
   0x50575e65, 0x6c737a81, 0x888f969d, 0xa4abb2b9,
   0xc0c7ced5, 0xdce3eaf1, 0xf8ff060d, 0x141b2229,
   0x30373e45, 0x4c535a61, 0x686f767d, 0x848b9299,
   0xa0a7aeb5, 0xbcc3cad1, 0xd8dfe6ed, 0xf4fb0209,
   0x10171e25, 0x2c333a41, 0x484f565d, 0x646b7279]

/-! ## Round functions -/

/-- Table lookup through a pointer to the first row. -/
def sm4Sbox (inch : Byte) : Byte := sboxTable.flatten.getD inch.toNat 0

/-- The array `a` of S-box indices that a word is split into. -/
def sboxIndices (ka : ULong) : CArray Byte 4 :=
  putUlongBE ka (Vector.replicate 4 0) 0

/-- The common first half of `sm4Lt` and `sm4CalciRK`, up to `bb`. -/
def substitute (ka : ULong) : ULong :=
  let a := sboxIndices ka
  let b : CArray Byte 4 := Vector.replicate 4 0
  let b := b.write 0 (sm4Sbox (a.read 0))
  let b := b.write 1 (sm4Sbox (a.read 1))
  let b := b.write 2 (sm4Sbox (a.read 2))
  let b := b.write 3 (sm4Sbox (a.read 3))
  getUlongBE b 0

def sm4Lt (ka : ULong) : ULong :=
  let bb := substitute ka
  bb ^^^ rotl bb 2 ^^^ rotl bb 10 ^^^ rotl bb 18 ^^^ rotl bb 24

def sm4F (x0 x1 x2 x3 rk : ULong) : ULong :=
  x0 ^^^ sm4Lt (x1 ^^^ x2 ^^^ x3 ^^^ rk)

def sm4CalciRK (ka : ULong) : ULong :=
  let bb := substitute ka
  bb ^^^ rotl bb 13 ^^^ rotl bb 23

/-! ## Key schedule -/

/-- The first four elements of the array `k`. -/
def initialKeyWords (key : Block) : CArray ULong 36 :=
  let k : CArray ULong 36 := Vector.replicate 36 0
  let k := k.write 0 (getUlongBE key 0 ^^^ fk.getD 0 0)
  let k := k.write 1 (getUlongBE key 4 ^^^ fk.getD 1 0)
  let k := k.write 2 (getUlongBE key 8 ^^^ fk.getD 2 0)
  k.write 3 (getUlongBE key 12 ^^^ fk.getD 3 0)

/-- The value that iteration `i` of the key loop assigns to `k[i+4]`. -/
def nextKeyWord (k : CArray ULong 36) (i : Nat) : ULong :=
  k.read i ^^^
    sm4CalciRK
      (k.read (i + 1) ^^^ k.read (i + 2) ^^^ k.read (i + 3) ^^^ ck.getD i 0)

/-- The key loop on the arrays `k` and `SK`. -/
def keyLoop (sk : CArray ULong 32) (key : Block) :
    CArray ULong 36 × CArray ULong 32 :=
  (List.range 32).foldl
    (fun state i =>
      let k := state.1.write (i + 4) (nextKeyWord state.1 i)
      (k, state.2.write i (k.read (i + 4))))
    (initialKeyWords key, sk)

def sm4SetKey (sk : CArray ULong 32) (key : Block) : CArray ULong 32 :=
  (keyLoop sk key).2

/-! ## One block -/

/-- The array `ulbuf` with the words of the input block. -/
def initialRoundWords (input : Block) : CArray ULong 36 :=
  let ulbuf : CArray ULong 36 := Vector.replicate 36 0
  let ulbuf := ulbuf.write 0 (getUlongBE input 0)
  let ulbuf := ulbuf.write 1 (getUlongBE input 4)
  let ulbuf := ulbuf.write 2 (getUlongBE input 8)
  ulbuf.write 3 (getUlongBE input 12)

/-- The array `ulbuf` after the thirty-two rounds. -/
def roundLoop (sk : CArray ULong 32) (input : Block) : CArray ULong 36 :=
  (List.range 32).foldl
    (fun ulbuf i =>
      ulbuf.write (i + 4)
        (sm4F (ulbuf.read i) (ulbuf.read (i + 1)) (ulbuf.read (i + 2))
          (ulbuf.read (i + 3)) (sk.read i)))
    (initialRoundWords input)

/-- The block that `sm4_one_round(sk, input, output)` writes to `output`. -/
def sm4OneRound (sk : CArray ULong 32) (input : Block) : Block :=
  let ulbuf := roundLoop sk input
  let output : Block := Vector.replicate 16 0
  let output := putUlongBE (ulbuf.read 35) output 0
  let output := putUlongBE (ulbuf.read 34) output 4
  let output := putUlongBE (ulbuf.read 33) output 8
  putUlongBE (ulbuf.read 32) output 12

/-! ## Contexts -/

def SM4_ENCRYPT : Int := 1
def SM4_DECRYPT : Int := 0

structure Sm4Context where
  mode : Int
  sk : CArray ULong 32

def sm4SetKeyEnc (ctx : Sm4Context) (key : Block) : Sm4Context where
  mode := SM4_ENCRYPT
  sk := sm4SetKey ctx.sk key

/-- The macro `SWAP` on two elements of the key array. -/
def swap (sk : CArray ULong 32) (i j : Nat) : CArray ULong 32 :=
  let t := sk.read i
  let sk := sk.write i (sk.read j)
  sk.write j t

/-- The decryption context keeps the mode `SM4_ENCRYPT`, as the source does. -/
def sm4SetKeyDec (ctx : Sm4Context) (key : Block) : Sm4Context where
  mode := SM4_ENCRYPT
  sk :=
    (List.range 16).foldl (fun sk i => swap sk i (31 - i))
      (sm4SetKey ctx.sk key)

/-! ## Block modes -/

/-- The sixteen bytes at `input`. -/
def loadBlock (input : List Byte) : Block :=
  Vector.ofFn fun i => input.getD i 0

/-- The loop `output[i] = a[i] ^ b[i]` over sixteen bytes. -/
def xorBlock (a b : Block) : Block :=
  Vector.ofFn fun i => a.read i ^^^ b.read i

/-- The bytes that `sm4_crypt_ecb` writes from `output` on. -/
def sm4CryptEcb (ctx : Sm4Context) (mode length : Int)
    (input : List Byte) : List Byte :=
  if length > 0 then
    let output := sm4OneRound ctx.sk (loadBlock input)
    output.toList ++ sm4CryptEcb ctx mode (length - 16) (input.drop 16)
  else []
termination_by length.toNat
decreasing_by omega

/-- The encrypting loop of `sm4_crypt_cbc`: the bytes written and the `iv` left. -/
def cbcEncrypt (ctx : Sm4Context) (length : Int) (iv : Block)
    (input : List Byte) : List Byte × Block :=
  if length > 0 then
    let output := xorBlock (loadBlock input) iv
    let output := sm4OneRound ctx.sk output
    let rest := cbcEncrypt ctx (length - 16) output (input.drop 16)
    (output.toList ++ rest.1, rest.2)
  else ([], iv)
termination_by length.toNat
decreasing_by omega

/-- The decrypting loop of `sm4_crypt_cbc`. -/
def cbcDecrypt (ctx : Sm4Context) (length : Int) (iv : Block)
    (input : List Byte) : List Byte × Block :=
  if length > 0 then
    let temp := loadBlock input
    let output := sm4OneRound ctx.sk (loadBlock input)
    let output := xorBlock output iv
    let rest := cbcDecrypt ctx (length - 16) temp (input.drop 16)
    (output.toList ++ rest.1, rest.2)
  else ([], iv)
termination_by length.toNat
decreasing_by omega

/-- The bytes that `sm4_crypt_cbc` writes and the contents of `iv` after it. -/
def sm4CryptCbc (ctx : Sm4Context) (mode length : Int) (iv : Block)
    (input : List Byte) : List Byte × Block :=
  if mode = SM4_ENCRYPT then cbcEncrypt ctx length iv input
  else cbcDecrypt ctx length iv input

end CommonCode.Sm4
