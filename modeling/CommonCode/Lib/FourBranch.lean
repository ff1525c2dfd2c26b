import Mathlib

/-!
# Four-branch Feistel sequences

A generalised Feistel network with four branches produces a sequence of words
in which every word is determined by the four words before it: the oldest one,
changed by exclusive or with a mixing function of the other three.  The mixing
function may be different in every step and need not be invertible.

Three facts carry every use of such a network: a sequence is determined by its
first four words, also through a map between two kinds of words (`map_eq`);
read backwards it is a sequence of the same shape (`reverse`); and it can be
computed by rotating a window of four words (`sequence_isSequence`).
-/

namespace CommonCode.Lib.FourBranch

variable {width : Nat}

/-- The mixing functions of the steps, on the three younger words. -/
abbrev Mixing (width : Nat) :=
  Nat → BitVec width → BitVec width → BitVec width → BitVec width

/-- The first `count` steps of a sequence follow the mixing functions. -/
def IsSequence (mix : Mixing width) (count : Nat)
    (x : Nat → BitVec width) : Prop :=
  ∀ i < count,
    x (i + 4) = x i ^^^ mix i (x (i + 1)) (x (i + 2)) (x (i + 3))

/--
Two sequences whose first four words correspond under a map correspond
throughout, provided the map commutes with exclusive or and with mixing.
-/
theorem IsSequence.map_eq
    {narrow : Nat} {mix : Mixing width} {mixNarrow : Mixing narrow}
    {count : Nat} {x : Nat → BitVec width} {y : Nat → BitVec narrow}
    (map : BitVec width → BitVec narrow)
    (map_xor : ∀ a b, map (a ^^^ b) = map a ^^^ map b)
    (map_mix :
      ∀ i < count, ∀ a b c,
        map (mix i a b c) = mixNarrow i (map a) (map b) (map c))
    (wide : IsSequence mix count x)
    (small : IsSequence mixNarrow count y)
    (initial : ∀ i < 4, map (x i) = y i) :
    ∀ i < count + 4, map (x i) = y i := by
  intro i
  induction i using Nat.strong_induction_on with
  | h i induction =>
      intro bound
      by_cases first : i < 4
      · exact initial i first
      · obtain ⟨step, rfl⟩ : ∃ step, i = step + 4 :=
          ⟨i - 4, by omega⟩
        have stepBound : step < count := by omega
        rw [wide step stepBound, small step stepBound, map_xor,
          map_mix step stepBound,
          induction step (by omega) (by omega),
          induction (step + 1) (by omega) (by omega),
          induction (step + 2) (by omega) (by omega),
          induction (step + 3) (by omega) (by omega)]

/-- A sequence is determined by its first four words. -/
theorem IsSequence.eq
    {mix : Mixing width} {count : Nat} {x y : Nat → BitVec width}
    (left : IsSequence mix count x) (right : IsSequence mix count y)
    (initial : ∀ i < 4, x i = y i) :
    ∀ i < count + 4, x i = y i := by
  have mixing :
      ∀ i < count, ∀ a b c,
        id (mix i a b c) = mix i (id a) (id b) (id c) :=
    fun _ _ _ _ _ => rfl
  exact left.map_eq id (fun _ _ => rfl) mixing right initial

/-- A mixing function that reads its three words in either direction. -/
def Symmetric (mix : Mixing width) : Prop :=
  ∀ i a b c, mix i a b c = mix i c b a

/--
Read from the last word to the first, a sequence follows the mixing functions
in the opposite order.
-/
theorem IsSequence.reverse
    {mix : Mixing width} {count : Nat} {x : Nat → BitVec width}
    (symmetric : Symmetric mix) (sequence : IsSequence mix count x) :
    IsSequence (fun i => mix (count - 1 - i)) count
      (fun i => x (count + 3 - i)) := by
  intro i bound
  obtain ⟨rest, rfl⟩ : ∃ rest, count = i + 1 + rest :=
    ⟨count - (i + 1), by omega⟩
  have step := sequence rest (by omega)
  have word (j : Nat) (small : j ≤ 4) :
      i + 1 + rest + 3 - (i + j) = rest + (4 - j) := by
    omega
  have first : i + 1 + rest + 3 - i = rest + 4 := by omega
  have index : i + 1 + rest - 1 - i = rest := by omega
  simp only [first, index, word 1 (by decide), word 2 (by decide),
    word 3 (by decide), word 4 (by decide)]
  rw [step, symmetric rest (x (rest + (4 - 1))), BitVec.xor_assoc,
    BitVec.xor_self, BitVec.xor_zero]
  rfl

/-! ## Computing a sequence -/

/-- The window of four words after `count` steps. -/
def window (mix : Mixing width) (x0 x1 x2 x3 : BitVec width) :
    Nat → BitVec width × BitVec width × BitVec width × BitVec width
  | 0 => (x0, x1, x2, x3)
  | count + 1 =>
      let (a, b, c, d) := window mix x0 x1 x2 x3 count
      (b, c, d, a ^^^ mix count b c d)

/-- The sequence of oldest words of the window. -/
def sequence (mix : Mixing width) (x0 x1 x2 x3 : BitVec width)
    (i : Nat) : BitVec width :=
  (window mix x0 x1 x2 x3 i).1

theorem sequence_isSequence
    (mix : Mixing width) (x0 x1 x2 x3 : BitVec width) (count : Nat) :
    IsSequence mix count (sequence mix x0 x1 x2 x3) := by
  intro i _
  rfl

end CommonCode.Lib.FourBranch
