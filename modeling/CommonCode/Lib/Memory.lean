import Mathlib

/-!
# A memory of cells

Memory is one cell at every address.  A store writes consecutive cells and a
load reads them back.  Stores to disjoint regions commute, a later store to the
same region hides an earlier one, and a load sees neither a store elsewhere nor
anything but the last store to its region.  A loop that writes one cell after
another is a store when no cell it computes depends on the cells it has written
before.
-/

namespace CommonCode.Lib

/-- A cell at every address. -/
abbrev Memory (Cell : Type*) := Nat → Cell

namespace Memory

variable {Cell : Type*}

/-- The addresses of `size` cells from `start` on. -/
def region (start size : Nat) : Set Nat :=
  Set.Ico start (start + size)

theorem mem_region {start size p : Nat} :
    p ∈ region start size ↔ start ≤ p ∧ p < start + size :=
  Set.mem_Ico

theorem disjoint_region {a m b n : Nat} :
    Disjoint (region a m) (region b n) ↔
      m = 0 ∨ n = 0 ∨ a + m ≤ b ∨ b + n ≤ a := by
  rw [region, region, Set.Ico_disjoint_Ico]
  omega

/-- Write consecutive cells. -/
def store (memory : Memory Cell) (start : Nat) (cells : List Cell) :
    Memory Cell :=
  fun p => if start ≤ p then cells.getD (p - start) (memory p) else memory p

/-- Read consecutive cells. -/
def load (memory : Memory Cell) (start size : Nat) : List Cell :=
  (List.range size).map fun i => memory (start + i)

@[simp]
theorem length_load (memory : Memory Cell) (start size : Nat) :
    (load memory start size).length = size := by
  rw [load, List.length_map, List.length_range]

@[simp]
theorem getElem_load (memory : Memory Cell) (start size : Nat) {i : Nat}
    (inside : i < (load memory start size).length) :
    (load memory start size)[i] = memory (start + i) := by
  simp [load]

theorem drop_load (memory : Memory Cell) (start size count : Nat) :
    (load memory start size).drop count =
      load memory (start + count) (size - count) := by
  apply List.ext_getElem (by simp)
  intro i _ _
  rw [List.getElem_drop, getElem_load, getElem_load, Nat.add_assoc]

/-! ## Cells of a store -/

theorem store_add (memory : Memory Cell) (start : Nat) {cells : List Cell}
    {i : Nat} (inside : i < cells.length) :
    store memory start cells (start + i) = cells[i] := by
  rw [store, if_pos (Nat.le_add_right _ _), Nat.add_sub_cancel_left,
    List.getD_eq_getElem _ _ inside]

theorem store_of_notMem (memory : Memory Cell) {start : Nat}
    {cells : List Cell} {p : Nat}
    (outside : p ∉ region start cells.length) :
    store memory start cells p = memory p := by
  rw [mem_region] at outside
  rw [store]
  split
  · exact List.getD_eq_default _ _ (by omega)
  · rfl

/-- A store is determined by the cells inside and outside its region. -/
theorem eq_store {memory other : Memory Cell} {start : Nat}
    {cells : List Cell}
    (inside : ∀ (i : Nat) (bound : i < cells.length),
      other (start + i) = cells[i])
    (outside : ∀ p ∉ region start cells.length, other p = memory p) :
    other = store memory start cells := by
  funext p
  by_cases member : p ∈ region start cells.length
  · rcases mem_region.mp member with ⟨lower, upper⟩
    obtain ⟨i, rfl⟩ := Nat.exists_eq_add_of_le lower
    have bound : i < cells.length := by omega
    rw [inside i bound, store_add memory start bound]
  · rw [outside p member, store_of_notMem memory member]

/-! ## Rules of stores and loads -/

@[simp]
theorem store_nil (memory : Memory Cell) (start : Nat) :
    store memory start [] = memory := by
  funext p
  exact store_of_notMem memory (by rw [mem_region]; simp)

theorem store_cons (memory : Memory Cell) (start : Nat) (cell : Cell)
    (cells : List Cell) :
    store memory start (cell :: cells) =
      store (Function.update memory start cell) (start + 1) cells := by
  symm
  apply eq_store
  · intro i bound
    cases i with
    | zero =>
        have before : start ∉ region (start + 1) cells.length := by
          rw [mem_region]
          omega
        change store _ (start + 1) cells start = cell
        rw [store_of_notMem _ before, Function.update_self]
    | succ i =>
        have shifted : start + (i + 1) = start + 1 + i := by omega
        rw [shifted, store_add _ _ (by simpa using bound)]
        rfl
  · intro p outside
    rw [mem_region, List.length_cons] at outside
    rw [store_of_notMem _ (by rw [mem_region]; omega),
      Function.update_of_ne (by omega)]

theorem store_append (memory : Memory Cell) (start : Nat)
    (front back : List Cell) :
    store memory start (front ++ back) =
      store (store memory start front) (start + front.length) back := by
  induction front generalizing memory start with
  | nil => simp
  | cons cell rest induction =>
      have position :
          start + 1 + rest.length = start + (cell :: rest).length := by
        rw [List.length_cons]
        omega
      rw [List.cons_append, store_cons, store_cons, induction, position]

theorem store_comm (memory : Memory Cell) {a b : Nat} {x y : List Cell}
    (apart : Disjoint (region a x.length) (region b y.length)) :
    store (store memory a x) b y = store (store memory b y) a x := by
  apply eq_store
  · intro i bound
    have inside : a + i ∈ region a x.length := by
      rw [mem_region]
      omega
    rw [store_of_notMem _ (Set.disjoint_left.mp apart inside),
      store_add memory a bound]
  · intro p outside
    by_cases inside : p ∈ region b y.length
    · rcases mem_region.mp inside with ⟨lower, upper⟩
      obtain ⟨i, rfl⟩ := Nat.exists_eq_add_of_le lower
      rw [store_add _ _ (by omega), store_add _ _ (by omega)]
    · rw [store_of_notMem _ inside, store_of_notMem _ inside,
        store_of_notMem _ outside]

/-- A later store of the same size hides an earlier one. -/
theorem store_store (memory : Memory Cell) (start : Nat)
    {first second : List Cell} (same : first.length = second.length) :
    store (store memory start first) start second =
      store memory start second := by
  apply eq_store
  · intro i bound
    exact store_add _ _ bound
  · intro p outside
    rw [store_of_notMem _ outside, store_of_notMem _ (by rwa [same])]

/-- A load sees the store to its region. -/
theorem load_store_self (memory : Memory Cell) (start : Nat)
    {size : Nat} {cells : List Cell} (same : cells.length = size) :
    load (store memory start cells) start size = cells := by
  subst same
  apply List.ext_getElem (length_load _ _ _)
  intro i _ bound
  rw [getElem_load, store_add _ _ bound]

/-- A load of one region does not see a store to another one. -/
theorem load_store_of_disjoint (memory : Memory Cell)
    {start size other : Nat} {cells : List Cell}
    (apart : Disjoint (region start size) (region other cells.length)) :
    load (store memory other cells) start size = load memory start size := by
  rw [load, load]
  apply List.map_congr_left
  intro i bound
  have inside : start + i ∈ region start size := by
    rw [mem_region]
    have below := List.mem_range.mp bound
    omega
  exact store_of_notMem _ (Set.disjoint_left.mp apart inside)

/-- Storing what is there changes nothing. -/
theorem store_load (memory : Memory Cell) (start size : Nat) :
    store memory start (load memory start size) = memory := by
  symm
  apply eq_store
  · intro i bound
    rw [getElem_load]
  · intro p _
    rfl

/--
A loop that writes the cells of a region one after the other is a store, if the
cell it computes in iteration `i` is the same in every memory that agrees with
the first one outside the cells written before.
-/
theorem foldl_update_eq_store
    (body : Memory Cell → Nat → Cell) (cells : Nat → Cell)
    (memory : Memory Cell) (start count : Nat)
    (independent :
      ∀ i < count, ∀ now : Memory Cell,
        (∀ p ∉ region start i, now p = memory p) → body now i = cells i) :
    (List.range count).foldl
        (fun now i => Function.update now (start + i) (body now i)) memory =
      store memory start ((List.range count).map cells) := by
  induction count with
  | zero => simp
  | succ count induction =>
      have earlier :=
        induction fun i below => independent i (Nat.lt_succ_of_lt below)
      have size : ((List.range count).map cells).length = count := by
        rw [List.length_map, List.length_range]
      have cell :
          body (store memory start ((List.range count).map cells)) count =
            cells count := by
        apply independent count (Nat.lt_succ_self count)
        intro p outside
        exact store_of_notMem memory (by rwa [size])
      rw [List.range_succ, List.foldl_append, earlier, List.map_append,
        store_append, size, List.foldl_cons, List.foldl_nil, cell,
        List.map_cons, List.map_nil, store_cons, store_nil]

end Memory

end CommonCode.Lib
