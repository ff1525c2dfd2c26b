import CommonCode.Lib.Bits

/-!
# SHA-256 as FIPS 180-4 defines it

The specification works on bit strings: a message is padded to a multiple of
512 bits, parsed into blocks of sixteen 32-bit words, expanded by the message
schedule and compressed in 64 rounds.  Nothing here refers to the C code.

The constants are given as the tables of the standard.  The standard describes
them as the first 32 bits of the fractional parts of the square and cube roots
of the first primes; `constant_isRootBits` and `initialHash_isRootBits` check
the tables against that description.
-/

namespace CommonCode.Sha256.Fips

open CommonCode.Lib.Bits

abbrev Word := BitVec 32

/-! ## Functions on words (4.1.2) -/

def ch (x y z : Word) : Word := (x &&& y) ^^^ (~~~x &&& z)

def maj (x y z : Word) : Word := (x &&& y) ^^^ (x &&& z) ^^^ (y &&& z)

def bigSigma0 (x : Word) : Word :=
  x.rotateRight 2 ^^^ x.rotateRight 13 ^^^ x.rotateRight 22

def bigSigma1 (x : Word) : Word :=
  x.rotateRight 6 ^^^ x.rotateRight 11 ^^^ x.rotateRight 25

def smallSigma0 (x : Word) : Word :=
  x.rotateRight 7 ^^^ x.rotateRight 18 ^^^ x >>> 3

def smallSigma1 (x : Word) : Word :=
  x.rotateRight 17 ^^^ x.rotateRight 19 ^^^ x >>> 10

/-! ## Constants (4.2.2 and 5.3.3) -/

def constants : List Word :=
  [0x428a2f98, 0x71374491, 0xb5c0fbcf, 0xe9b5dba5,
   0x3956c25b, 0x59f111f1, 0x923f82a4, 0xab1c5ed5,
   0xd807aa98, 0x12835b01, 0x243185be, 0x550c7dc3,
   0x72be5d74, 0x80deb1fe, 0x9bdc06a7, 0xc19bf174,
   0xe49b69c1, 0xefbe4786, 0x0fc19dc6, 0x240ca1cc,
   0x2de92c6f, 0x4a7484aa, 0x5cb0a9dc, 0x76f988da,
   0x983e5152, 0xa831c66d, 0xb00327c8, 0xbf597fc7,
   0xc6e00bf3, 0xd5a79147, 0x06ca6351, 0x14292967,
   0x27b70a85, 0x2e1b2138, 0x4d2c6dfc, 0x53380d13,
   0x650a7354, 0x766a0abb, 0x81c2c92e, 0x92722c85,
   0xa2bfe8a1, 0xa81a664b, 0xc24b8b70, 0xc76c51a3,
   0xd192e819, 0xd6990624, 0xf40e3585, 0x106aa070,
   0x19a4c116, 0x1e376c08, 0x2748774c, 0x34b0bcb5,
   0x391c0cb3, 0x4ed8aa4a, 0x5b9cca4f, 0x682e6ff3,
   0x748f82ee, 0x78a5636f, 0x84c87814, 0x8cc70208,
   0x90befffa, 0xa4506ceb, 0xbef9a3f7, 0xc67178f2]

def constant (t : Nat) : Word := constants.getD t 0

/-- A hash value, and the eight working variables of the compression. -/
@[ext]
structure Hash where
  a : Word
  b : Word
  c : Word
  d : Word
  e : Word
  f : Word
  g : Word
  h : Word
deriving DecidableEq, Repr

def initialHash : Hash where
  a := 0x6a09e667
  b := 0xbb67ae85
  c := 0x3c6ef372
  d := 0xa54ff53a
  e := 0x510e527f
  f := 0x9b05688c
  g := 0x1f83d9ab
  h := 0x5be0cd19

def Hash.words (hash : Hash) : List Word :=
  [hash.a, hash.b, hash.c, hash.d, hash.e, hash.f, hash.g, hash.h]

/-- A number with no divisor between one and itself. -/
def isPrime (n : Nat) : Bool :=
  2 ≤ n && (List.range' 2 (n - 2)).all fun divisor => n % divisor ≠ 0

/-- The first sixty-four primes. -/
def primes : List Nat :=
  (List.range 312).filter isPrime

/--
A word holds the first 32 bits of the fractional part of the root of the given
degree of a number: with some integral part in front, it is the integral part
of the root scaled by `2 ^ 32`.
-/
def IsRootBits (degree number : Nat) (word : Word) : Prop :=
  ∃ whole : Nat,
    (whole * 2 ^ 32 + word.toNat) ^ degree ≤ number * 2 ^ (32 * degree) ∧
      number * 2 ^ (32 * degree) <
        (whole * 2 ^ 32 + word.toNat + 1) ^ degree

/-! ## Padding and parsing (5.1.1 and 5.2.1) -/

theorem exists_zeroBits (length : Nat) :
    ∃ k : Nat, (length + 1 + k) % 512 = 448 :=
  ⟨(448 + 512 * (length + 1) - (length + 1)), by omega⟩

/-- The least `k` with `length + 1 + k` congruent to 448 modulo 512. -/
def zeroBits (length : Nat) : Nat :=
  Nat.find (exists_zeroBits length)

/-- One bit, `k` zero bits and the 64-bit message length. -/
def pad (message : List Bool) : List Bool :=
  message ++ true :: List.replicate (zeroBits message.length) false ++
    bitsOfRegister (BitVec.ofNat 64 message.length)

/-- Word `j` of block `i` of a padded message. -/
def messageWord (padded : List Bool) (i j : Nat) : Word :=
  registerOfBits 32 ((padded.drop (512 * i + 32 * j)).take 32)

/-! ## Hash computation (6.2.2) -/

/-- The message schedule of a block. -/
def schedule (message : Nat → Word) (t : Nat) : Word :=
  if t < 16 then message t
  else
    smallSigma1 (schedule message (t - 2)) + schedule message (t - 7) +
      smallSigma0 (schedule message (t - 15)) + schedule message (t - 16)
termination_by t
decreasing_by all_goals omega

/-- One round of the compression. -/
def round (w : Nat → Word) (v : Hash) (t : Nat) : Hash :=
  let t1 := v.h + bigSigma1 v.e + ch v.e v.f v.g + constant t + w t
  let t2 := bigSigma0 v.a + maj v.a v.b v.c
  { a := t1 + t2, b := v.a, c := v.b, d := v.c,
    e := v.d + t1, f := v.e, g := v.f, h := v.g }

/-- The intermediate hash value after one block. -/
def compress (hash : Hash) (message : Nat → Word) : Hash :=
  let v := (List.range 64).foldl (round (schedule message)) hash
  { a := v.a + hash.a, b := v.b + hash.b, c := v.c + hash.c,
    d := v.d + hash.d, e := v.e + hash.e, f := v.f + hash.f,
    g := v.g + hash.g, h := v.h + hash.h }

/-- The final hash value of a message. -/
def hashValue (message : List Bool) : Hash :=
  let padded := pad message
  (List.range (padded.length / 512)).foldl
    (fun hash i => compress hash (messageWord padded i)) initialHash

/-- The message digest, 256 bits. -/
def sha256 (message : List Bool) : List Bool :=
  (hashValue message).words.flatMap bitsOfRegister

/-! ## The constants are what the standard says they are -/

theorem isRootBits_of_bounded
    {degree number : Nat} {word : Word}
    (bounded : ∃ whole < 7,
      (whole * 2 ^ 32 + word.toNat) ^ degree ≤
          number * 2 ^ (32 * degree) ∧
        number * 2 ^ (32 * degree) <
          (whole * 2 ^ 32 + word.toNat + 1) ^ degree) :
    IsRootBits degree number word := by
  rcases bounded with ⟨whole, _, lower, upper⟩
  exact ⟨whole, lower, upper⟩

theorem primes_eq :
    primes =
      [2, 3, 5, 7, 11, 13, 17, 19, 23, 29, 31, 37, 41, 43, 47, 53, 59,
       61, 67, 71, 73, 79, 83, 89, 97, 101, 103, 107, 109, 113, 127, 131,
       137, 139, 149, 151, 157, 163, 167, 173, 179, 181, 191, 193, 197,
       199, 211, 223, 227, 229, 233, 239, 241, 251, 257, 263, 269, 271,
       277, 281, 283, 293, 307, 311] := by
  decide +kernel

theorem initialHash_isRootBits :
    ∀ i < 8,
      IsRootBits 2 (primes.getD i 0) (initialHash.words.getD i 0) := by
  intro i inside
  apply isRootBits_of_bounded
  rw [primes_eq]
  revert i
  decide

theorem constant_isRootBits :
    ∀ t < 64, IsRootBits 3 (primes.getD t 0) (constant t) := by
  intro t inside
  apply isRootBits_of_bounded
  rw [primes_eq]
  revert t
  decide

end CommonCode.Sha256.Fips
