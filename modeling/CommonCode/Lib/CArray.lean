import Mathlib

/-!
# Fixed-size arrays

An array of the source with a constant number of elements is a vector.  Reads
and writes take a natural index; `read_write` is the only fact about the pair
that later proofs use, together with the rules `foldl_write` and `foldl_extend`
for loops that fill consecutive elements from the elements already present.
-/

namespace CommonCode.Lib

/-- An array of `size` elements. -/
abbrev CArray (α : Type) (size : Nat) := Vector α size

namespace CArray

variable {α : Type} [Zero α] {size : Nat}

/-- Read an element; an index outside the array reads as zero. -/
def read (array : CArray α size) (i : Nat) : α :=
  if inside : i < size then array.get ⟨i, inside⟩ else 0

/-- Write an element; an index outside the array changes nothing. -/
def write (array : CArray α size) (i : Nat) (value : α) : CArray α size :=
  Vector.setIfInBounds array i value

theorem read_write
    (array : CArray α size) {i : Nat} (inside : i < size)
    (value : α) (j : Nat) :
    (array.write i value).read j = if j = i then value else array.read j := by
  unfold read write
  by_cases bound : j < size
  · rw [dif_pos bound, dif_pos bound]
    simp only [Vector.get_eq_getElem, Vector.getElem_setIfInBounds]
    by_cases same : i = j
    · rw [if_pos same, if_pos same.symm]
    · rw [if_neg same, if_neg (Ne.symm same)]
  · rw [dif_neg bound, dif_neg bound, if_neg (by omega)]

@[simp]
theorem read_write_self
    (array : CArray α size) {i : Nat} (inside : i < size) (value : α) :
    (array.write i value).read i = value := by
  rw [read_write array inside, if_pos rfl]

theorem read_write_of_ne
    (array : CArray α size) {i j : Nat} (inside : i < size)
    (value : α) (apart : j ≠ i) :
    (array.write i value).read j = array.read j := by
  rw [read_write array inside, if_neg apart]

theorem ext_read
    {left right : CArray α size}
    (equal : ∀ i < size, left.read i = right.read i) :
    left = right := by
  apply Vector.ext
  intro i inside
  have element := equal i inside
  simpa only [read, dif_pos inside, Vector.get_eq_getElem] using element

/--
A loop that writes element `start + i` in iteration `i`, from a value computed
out of the array it finds: if every written value is the intended one whenever
all elements before it are, the loop produces the intended elements.
-/
theorem foldl_write
    (body : CArray α size → Nat → α) (intended : Nat → α)
    (start count : Nat) (bounded : start + count ≤ size)
    (step :
      ∀ (array : CArray α size) (i : Nat), start ≤ i → i < start + count →
        (∀ j < i, array.read j = intended j) → body array i = intended i)
    (array : CArray α size)
    (initial : ∀ j < start, array.read j = intended j) :
    ∀ j < start + count,
      ((List.range' start count).foldl
        (fun array i => array.write i (body array i)) array).read j =
          intended j := by
  induction count with
  | zero => simpa using initial
  | succ count induction =>
      have earlier :=
        induction (by omega)
          (fun array i above below =>
            step array i above (by omega))
      intro j below
      rw [List.range'_concat, List.foldl_append, List.foldl_cons,
        List.foldl_nil, Nat.one_mul, read_write _ (by omega)]
      by_cases last : j = start + count
      · rw [if_pos last, last]
        exact step _ _ (by omega) (by omega) earlier
      · rw [if_neg last]
        exact earlier j (by omega)

/--
A loop that extends the array by one element in every iteration, each a
function of the elements before it: the finished array satisfies the equations
of the loop body, and keeps the elements the loop started from.
-/
theorem foldl_extend
    (offset : Nat) (body : CArray α size → Nat → α)
    (dependence :
      ∀ (i : Nat) (left right : CArray α size),
        (∀ j < i + offset, left.read j = right.read j) →
          body left i = body right i)
    (count : Nat) (bounded : count + offset ≤ size)
    (array : CArray α size) :
    (∀ i < count,
        ((List.range count).foldl
            (fun array i => array.write (i + offset) (body array i))
            array).read (i + offset) =
          body
            ((List.range count).foldl
              (fun array i => array.write (i + offset) (body array i))
              array) i) ∧
      ∀ j < offset,
        ((List.range count).foldl
            (fun array i => array.write (i + offset) (body array i))
            array).read j =
          array.read j := by
  induction count with
  | zero => simp
  | succ count induction =>
      rcases induction (by omega) with ⟨equations, kept⟩
      rw [List.range_succ, List.foldl_append, List.foldl_cons,
        List.foldl_nil]
      generalize
        (List.range count).foldl
          (fun array i => array.write (i + offset) (body array i))
          array = before at equations kept ⊢
      have unchanged :
          ∀ j < count + offset,
            (before.write (count + offset) (body before count)).read j =
              before.read j :=
        fun j below =>
          read_write_of_ne before (by omega) _ (Nat.ne_of_lt below)
      constructor
      · intro i below
        have sameBody :
            body (before.write (count + offset) (body before count)) i =
              body before i :=
          dependence i _ _ fun j earlier => unchanged j (by omega)
        rw [sameBody]
        by_cases last : i = count
        · rw [last, read_write_self before (by omega)]
        · rw [unchanged (i + offset) (by omega)]
          exact equations i (by omega)
      · intro j below
        rw [unchanged j (by omega), kept j below]

end CArray

end CommonCode.Lib
