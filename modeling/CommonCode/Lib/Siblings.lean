import Mathlib

/-!
# Trees of doubly linked siblings on a heap

The children of a node are a doubly linked list: every cell points to the next
sibling, to the previous one and to the first child.  A forest is a list of
trees, described by its first tree: the children of its root, and the trees
behind it.  A heap stores a forest between two pointers if the cells of the
forest are linked in that way.

The pointer of a cell whose data says that it shares its children is free: it
may lead to children of another cell, but nothing here demands that it does.
-/

namespace CommonCode.Lib.Siblings

variable {Data : Type*}

/-! ## Heaps -/

structure Cell (Data : Type*) where
  next : Nat
  prev : Nat
  child : Nat
  data : Data
deriving DecidableEq

/-- A heap has cells at the addresses that are allocated. -/
abbrev Heap (Data : Type*) := Nat → Option (Cell Data)

namespace Heap

variable (heap : Heap Data)

/-- The heap with a cell changed. -/
def modify (address : Nat) (change : Cell Data → Cell Data) : Heap Data :=
  Function.update heap address ((heap address).map change)

def setNext (address next : Nat) : Heap Data :=
  heap.modify address fun cell => { cell with next := next }

def setPrev (address prev : Nat) : Heap Data :=
  heap.modify address fun cell => { cell with prev := prev }

def setChild (address child : Nat) : Heap Data :=
  heap.modify address fun cell => { cell with child := child }

/-- Two cells made neighbours; there is no cell at the null pointer. -/
def link (left right : Nat) : Heap Data :=
  let heap := if left = 0 then heap else heap.setNext left right
  if right = 0 then heap else heap.setPrev right left

/-- The heap without the cells at some addresses. -/
def erase (addresses : List Nat) : Heap Data :=
  fun address => if address ∈ addresses then none else heap address

theorem modify_self (address : Nat) (change : Cell Data → Cell Data) :
    heap.modify address change address = (heap address).map change :=
  Function.update_self ..

theorem modify_of_ne {address other : Nat} (apart : other ≠ address)
    (change : Cell Data → Cell Data) :
    heap.modify address change other = heap other :=
  Function.update_of_ne apart ..

theorem isSome_modify (address other : Nat)
    (change : Cell Data → Cell Data) :
    (heap.modify address change other).isSome = (heap other).isSome := by
  by_cases same : other = address
  · rw [same, modify_self, Option.isSome_map]
  · rw [modify_of_ne heap same]

section Fields

variable {address other : Nat} (value : Nat)

theorem setNext_of_ne (apart : other ≠ address) :
    heap.setNext address value other = heap other :=
  heap.modify_of_ne apart _

theorem setPrev_of_ne (apart : other ≠ address) :
    heap.setPrev address value other = heap other :=
  heap.modify_of_ne apart _

theorem setChild_of_ne (apart : other ≠ address) :
    heap.setChild address value other = heap other :=
  heap.modify_of_ne apart _

theorem setNext_self {cell : Cell Data} (held : heap address = some cell) :
    heap.setNext address value address = some { cell with next := value } := by
  rw [setNext, modify_self, held]
  rfl

theorem setPrev_self {cell : Cell Data} (held : heap address = some cell) :
    heap.setPrev address value address = some { cell with prev := value } := by
  rw [setPrev, modify_self, held]
  rfl

@[simp]
theorem isSome_setNext :
    (heap.setNext address value other).isSome = (heap other).isSome :=
  heap.isSome_modify ..

@[simp]
theorem isSome_setPrev :
    (heap.setPrev address value other).isSome = (heap other).isSome :=
  heap.isSome_modify ..

@[simp]
theorem isSome_setChild :
    (heap.setChild address value other).isSome = (heap other).isSome :=
  heap.isSome_modify ..

end Fields

theorem link_of_ne {left right other : Nat}
    (apartLeft : left ≠ 0 → other ≠ left)
    (apartRight : right ≠ 0 → other ≠ right) :
    heap.link left right other = heap other := by
  rw [link]
  by_cases leftNull : left = 0 <;> by_cases rightNull : right = 0
  · rw [if_pos leftNull, if_pos rightNull]
  · rw [if_pos leftNull, if_neg rightNull]
    exact modify_of_ne _ (apartRight rightNull) _
  · rw [if_neg leftNull, if_pos rightNull]
    exact modify_of_ne _ (apartLeft leftNull) _
  · rw [if_neg leftNull, if_neg rightNull]
    exact (modify_of_ne _ (apartRight rightNull) _).trans
      (modify_of_ne _ (apartLeft leftNull) _)

theorem isSome_link (left right other : Nat) :
    (heap.link left right other).isSome = (heap other).isSome := by
  rw [link]
  split <;> split <;> simp only [setPrev, setNext, isSome_modify]

theorem erase_of_notMem {addresses : List Nat} {address : Nat}
    (outside : address ∉ addresses) :
    heap.erase addresses address = heap address :=
  if_neg outside

theorem erase_of_mem {addresses : List Nat} {address : Nat}
    (inside : address ∈ addresses) :
    heap.erase addresses address = none :=
  if_pos inside

theorem erase_append (front back : List Nat) :
    (heap.erase front).erase back = heap.erase (front ++ back) := by
  funext address
  simp only [erase, List.mem_append]
  split <;> split <;> simp_all

theorem erase_congr {front back : List Nat}
    (same : ∀ address, address ∈ front ↔ address ∈ back) :
    heap.erase front = heap.erase back := by
  funext address
  simp only [erase, same]

theorem erase_modify {addresses : List Nat} {address : Nat}
    (inside : address ∈ addresses) (change : Cell Data → Cell Data) :
    (heap.modify address change).erase addresses = heap.erase addresses := by
  funext other
  by_cases held : other ∈ addresses
  · rw [erase_of_mem _ held, erase_of_mem _ held]
  · rw [erase_of_notMem _ held, erase_of_notMem _ held, modify_of_ne]
    rintro rfl
    exact held inside

theorem modify_of_none {address : Nat} (free : heap address = none)
    (change : Cell Data → Cell Data) :
    heap.modify address change = heap := by
  rw [modify, free, Option.map_none, ← free, Function.update_eq_self]

/-- A write commutes with an erasure. -/
theorem erase_modify_comm (addresses : List Nat) (address : Nat)
    (change : Cell Data → Cell Data) :
    (heap.modify address change).erase addresses =
      (heap.erase addresses).modify address change := by
  by_cases inside : address ∈ addresses
  · rw [erase_modify _ inside, modify_of_none _ (erase_of_mem _ inside)]
  · funext other
    by_cases held : other ∈ addresses
    · rw [erase_of_mem _ held, modify_of_ne, erase_of_mem _ held]
      rintro rfl
      exact inside held
    · rw [erase_of_notMem _ held]
      by_cases same : other = address
      · subst same
        rw [modify_self, modify_self, erase_of_notMem _ held]
      · rw [modify_of_ne _ same, modify_of_ne _ same,
          erase_of_notMem _ held]

/-! Writes to different fields commute. -/

theorem modify_comm {address other : Nat}
    {change exchange : Cell Data → Cell Data}
    (fields : ∀ cell, change (exchange cell) = exchange (change cell)) :
    (heap.modify other exchange).modify address change =
      (heap.modify address change).modify other exchange := by
  by_cases same : address = other
  · subst same
    simp only [modify, Function.update_self, Function.update_idem,
      Option.map_map]
    congr 2
    funext cell
    exact fields cell
  · simp only [modify, Function.update_of_ne same,
      Function.update_of_ne (Ne.symm same)]
    exact (Function.update_comm same ..).symm

theorem setNext_setPrev (address next other prev : Nat) :
    (heap.setPrev other prev).setNext address next =
      (heap.setNext address next).setPrev other prev :=
  heap.modify_comm fun _ => rfl

theorem setNext_setChild (address next other child : Nat) :
    (heap.setChild other child).setNext address next =
      (heap.setNext address next).setChild other child :=
  heap.modify_comm fun _ => rfl

theorem setPrev_setChild (address prev other child : Nat) :
    (heap.setChild other child).setPrev address prev =
      (heap.setPrev address prev).setChild other child :=
  heap.modify_comm fun _ => rfl

theorem setNext_comm {address other : Nat} (apart : address ≠ other)
    (next behind : Nat) :
    (heap.setNext other behind).setNext address next =
      (heap.setNext address next).setNext other behind := by
  simp only [setNext, modify, Function.update_of_ne apart,
    Function.update_of_ne (Ne.symm apart)]
  exact (Function.update_comm apart ..).symm

/-- A write of what a cell holds. -/
theorem modify_eq_self {address : Nat} {cell : Cell Data}
    {change : Cell Data → Cell Data} (held : heap address = some cell)
    (same : change cell = cell) :
    heap.modify address change = heap := by
  rw [modify, held, Option.map_some, same, ← held, Function.update_eq_self]

theorem setNext_eq_self {address next : Nat} {cell : Cell Data}
    (held : heap address = some cell) (same : cell.next = next) :
    heap.setNext address next = heap :=
  heap.modify_eq_self held (by rw [← same])

theorem setPrev_eq_self {address prev : Nat} {cell : Cell Data}
    (held : heap address = some cell) (same : cell.prev = prev) :
    heap.setPrev address prev = heap :=
  heap.modify_eq_self held (by rw [← same])

theorem setChild_eq_self {address child : Nat} {cell : Cell Data}
    (held : heap address = some cell) (same : cell.child = child) :
    heap.setChild address child = heap :=
  heap.modify_eq_self held (by rw [← same])

theorem link_eq {left right : Nat} (leftCell : left ≠ 0)
    (rightCell : right ≠ 0) :
    heap.link left right = (heap.setNext left right).setPrev right left := by
  rw [link, if_neg leftCell, if_neg rightCell]

theorem link_null_left {right : Nat} (nonnull : right ≠ 0) :
    heap.link 0 right = heap.setPrev right 0 := by
  rw [link, if_pos rfl, if_neg nonnull]

theorem link_null_right {left : Nat} (nonnull : left ≠ 0) :
    heap.link left 0 = heap.setNext left 0 := by
  rw [link, if_neg nonnull, if_pos rfl]

/-- The cell on the left of a link. -/
theorem link_left {left right : Nat} {cell : Cell Data}
    (apart : left ≠ right) (nonnull : left ≠ 0)
    (held : heap left = some cell) :
    heap.link left right left = some { cell with next := right } := by
  rw [link, if_neg nonnull]
  split
  · exact heap.setNext_self right held
  · rw [setPrev_of_ne _ _ apart]
    exact heap.setNext_self right held

/-- A link commutes with a write to another cell. -/
theorem setNext_link {left right other : Nat} (apart : other ≠ left)
    (next : Nat) :
    (heap.link left right).setNext other next =
      (heap.setNext other next).link left right := by
  rw [link, link]
  split <;> split
  · rfl
  · exact setNext_comm _ apart ..
  · exact setNext_setPrev ..
  · rw [setNext_setPrev, setNext_comm _ apart]

/-- The cell on the right of a link. -/
theorem link_right {left right : Nat} {cell : Cell Data}
    (apart : right ≠ left) (nonnull : right ≠ 0)
    (held : heap right = some cell) :
    heap.link left right right = some { cell with prev := left } := by
  rw [link, if_neg nonnull]
  split
  · rw [setPrev, modify_self, held]
    rfl
  · rw [setPrev, modify_self, setNext, modify_of_ne _ apart, held]
    rfl

end Heap

/-! ## Forests -/

inductive Forest (Data : Type*) where
  | nil
  | node (address : Nat) (data : Data) (child next : Forest Data)
deriving DecidableEq

namespace Forest

/-- The first address, or where there is none the given pointer. -/
def first (close : Nat) : Forest Data → Nat
  | nil => close
  | node address .. => address

/-- The address of the last root, or where there is none the given pointer. -/
def last (before : Nat) : Forest Data → Nat
  | nil => before
  | node address _ _ next => next.last address

@[simp]
theorem first_nil (close : Nat) : (nil : Forest Data).first close = close :=
  rfl

@[simp]
theorem first_node (close address : Nat) (data : Data)
    (child next : Forest Data) :
    (node address data child next).first close = address :=
  rfl

@[simp]
theorem last_nil (before : Nat) : (nil : Forest Data).last before = before :=
  rfl

@[simp]
theorem last_node (before address : Nat) (data : Data)
    (child next : Forest Data) :
    (node address data child next).last before = next.last address :=
  rfl

theorem first_of_ne_nil {forest : Forest Data} (nonempty : forest ≠ nil)
    (close other : Nat) :
    forest.first close = forest.first other := by
  cases forest with
  | nil => exact absurd rfl nonempty
  | node => rfl

def append : Forest Data → Forest Data → Forest Data
  | nil, back => back
  | node address data child next, back =>
      node address data child (next.append back)

/-- The number of trees. -/
def length : Forest Data → Nat
  | nil => 0
  | node _ _ _ next => next.length + 1

/-- The trees before a position. -/
def take : Nat → Forest Data → Forest Data
  | 0, _ => nil
  | _ + 1, nil => nil
  | count + 1, node address data child next =>
      node address data child (next.take count)

/-- The trees from a position on. -/
def drop : Nat → Forest Data → Forest Data
  | 0, forest => forest
  | _ + 1, nil => nil
  | count + 1, node _ _ _ next => next.drop count

/-- The addresses of all cells. -/
def addresses : Forest Data → List Nat
  | nil => []
  | node address _ child next =>
      address :: (child.addresses ++ next.addresses)

/-- The children of the node at an address. -/
def childrenAt (wanted : Nat) : Forest Data → Forest Data
  | nil => nil
  | node address _ child next =>
      if address = wanted then child
      else if wanted ∈ child.addresses then child.childrenAt wanted
      else next.childrenAt wanted

/-- The forest with other children for the node at an address. -/
def setChildren (wanted : Nat) : Forest Data → Forest Data → Forest Data
  | nil, _ => nil
  | node address data child next, children =>
      if address = wanted then node address data children next
      else
        node address data (child.setChildren wanted children)
          (next.setChildren wanted children)

/-- The data of the node at an address. -/
def dataAt (wanted : Nat) : Forest Data → Option Data
  | nil => none
  | node address data child next =>
      if address = wanted then some data
      else (child.dataAt wanted).or (next.dataAt wanted)

section Shape

variable (front back : Forest Data)

@[simp]
theorem addresses_append :
    (front.append back).addresses = front.addresses ++ back.addresses := by
  induction front with
  | nil => rfl
  | node address data child next _ induction =>
      simp [append, addresses, induction]

theorem append_nil : front.append nil = front := by
  induction front with
  | nil => rfl
  | node address data child next _ induction =>
      rw [append, induction]

theorem append_assoc (behind : Forest Data) :
    (front.append back).append behind =
      front.append (back.append behind) := by
  induction front with
  | nil => rfl
  | node address data child next _ induction =>
      rw [append, append, append, induction]

theorem append_ne_nil {front back : Forest Data} (nonempty : front ≠ nil) :
    front.append back ≠ nil := by
  cases front with
  | nil => exact absurd rfl nonempty
  | node => simp [append]

theorem last_of_ne_nil {forest : Forest Data} (nonempty : forest ≠ nil)
    (before other : Nat) :
    forest.last before = forest.last other := by
  cases forest with
  | nil => exact absurd rfl nonempty
  | node => rfl

theorem first_append (close : Nat) :
    (front.append back).first close = front.first (back.first close) := by
  cases front with
  | nil => rfl
  | node => rfl

theorem last_append (before : Nat) :
    (front.append back).last before = back.last (front.last before) := by
  induction front generalizing before with
  | nil => rfl
  | node address data child next _ induction => exact induction address

theorem take_append_drop (count : Nat) (forest : Forest Data) :
    (forest.take count).append (forest.drop count) = forest := by
  induction forest generalizing count with
  | nil => cases count <;> rfl
  | node address data child next _ induction =>
      cases count with
      | zero => rfl
      | succ count => rw [take, drop, append, induction]

theorem drop_succ {count : Nat} {forest : Forest Data} {address : Nat}
    {data : Data} {child next : Forest Data}
    (split : forest.drop count = node address data child next) :
    forest.drop (count + 1) = next := by
  induction forest generalizing count with
  | nil => cases count <;> cases split
  | node first _ _ rest _ induction =>
      cases count with
      | zero =>
          cases split
          rfl
      | succ count => exact induction split

theorem drop_eq_nil_iff (count : Nat) (forest : Forest Data) :
    forest.drop count = nil ↔ forest.length ≤ count := by
  induction forest generalizing count with
  | nil => cases count <;> simp [drop, length]
  | node address data child next _ induction =>
      cases count with
      | zero => simp [drop, length]
      | succ count =>
          rw [drop, length, induction, Nat.add_le_add_iff_right]

theorem take_eq_nil_iff (count : Nat) (forest : Forest Data) :
    forest.take count = nil ↔ count = 0 ∨ forest = nil := by
  cases count with
  | zero => simp [take]
  | succ count => cases forest <;> simp [take]

theorem length_append :
    (front.append back).length = front.length + back.length := by
  induction front with
  | nil => exact (Nat.zero_add _).symm
  | node address data child next _ induction =>
      rw [append, length, length, induction]
      omega

theorem last_mem {forest : Forest Data} (nonempty : forest ≠ nil)
    (before : Nat) :
    forest.last before ∈ forest.addresses := by
  induction forest generalizing before with
  | nil => exact absurd rfl nonempty
  | node address data child next _ induction =>
      rw [last, addresses]
      by_cases single : next = nil
      · rw [single]
        exact List.mem_cons_self ..
      · exact List.mem_cons_of_mem _
          (List.mem_append_right _ (induction single address))

theorem first_mem {forest : Forest Data} (nonempty : forest ≠ nil)
    (close : Nat) :
    forest.first close ∈ forest.addresses := by
  cases forest with
  | nil => exact absurd rfl nonempty
  | node => exact List.mem_cons_self ..

end Shape

/-! ## Other children for one node -/

section Children

variable {wanted : Nat} {forest : Forest Data}

theorem setChildren_of_notMem (outside : wanted ∉ forest.addresses)
    (children : Forest Data) :
    forest.setChildren wanted children = forest := by
  induction forest with
  | nil => rfl
  | node address data child next childInduction nextInduction =>
      rw [addresses, List.mem_cons, List.mem_append, not_or, not_or] at outside
      rw [setChildren, if_neg (Ne.symm outside.1), childInduction outside.2.1,
        nextInduction outside.2.2]

theorem isSome_dataAt :
    (forest.dataAt wanted).isSome ↔ wanted ∈ forest.addresses := by
  induction forest with
  | nil => simp [dataAt, addresses]
  | node address data child next childInduction nextInduction =>
      rw [dataAt, addresses, List.mem_cons, List.mem_append]
      split
      · simp [*]
      · rw [Option.isSome_or, Bool.or_eq_true, childInduction, nextInduction]
        exact ⟨Or.inr, fun held => held.resolve_left (by tauto)⟩

theorem dataAt_eq_none :
    forest.dataAt wanted = none ↔ wanted ∉ forest.addresses := by
  rw [← isSome_dataAt, Bool.not_eq_true, Option.isSome_eq_false_iff,
    Option.isNone_iff_eq_none]

theorem addresses_childrenAt {address : Nat}
    (member : address ∈ (forest.childrenAt wanted).addresses) :
    address ∈ forest.addresses := by
  induction forest with
  | nil => exact member
  | node first data child next childInduction nextInduction =>
      rw [childrenAt] at member
      rw [addresses, List.mem_cons, List.mem_append]
      split at member
      · exact Or.inr (Or.inl member)
      · split at member
        · exact Or.inr (Or.inl (childInduction member))
        · exact Or.inr (Or.inr (nextInduction member))

theorem setChildren_childrenAt (nodup : forest.addresses.Nodup) :
    forest.setChildren wanted (forest.childrenAt wanted) = forest := by
  induction forest with
  | nil => rfl
  | node address data child next childInduction nextInduction =>
      rw [addresses, List.nodup_cons, List.nodup_append] at nodup
      rcases nodup with ⟨-, childNodup, nextNodup, disjoint⟩
      rw [setChildren, childrenAt]
      by_cases here : address = wanted
      · rw [if_pos here, if_pos here]
      · rw [if_neg here, if_neg here]
        by_cases deeper : wanted ∈ child.addresses
        · have outside : wanted ∉ next.addresses := fun held =>
            disjoint wanted deeper wanted held rfl
          rw [if_pos deeper, childInduction childNodup,
            setChildren_of_notMem outside]
        · rw [if_neg deeper, nextInduction nextNodup,
            setChildren_of_notMem deeper]

theorem first_setChildren (children : Forest Data) (close : Nat) :
    (forest.setChildren wanted children).first close =
      forest.first close := by
  cases forest with
  | nil => rfl
  | node =>
      rw [setChildren]
      split <;> rfl

/-- The other addresses stay when a node is given other children. -/
theorem exists_rest (inside : wanted ∈ forest.addresses)
    (nodup : forest.addresses.Nodup) :
    ∃ rest,
      forest.addresses.Perm ((forest.childrenAt wanted).addresses ++ rest) ∧
        wanted ∈ rest ∧
        ∀ children,
          (forest.setChildren wanted children).addresses.Perm
            (children.addresses ++ rest) := by
  induction forest with
  | nil => cases inside
  | node address data child next childInduction nextInduction =>
      rw [addresses, List.nodup_cons, List.nodup_append] at nodup
      rcases nodup with ⟨-, childNodup, nextNodup, disjoint⟩
      by_cases here : address = wanted
      · refine ⟨address :: next.addresses, ?_, ?_, ?_⟩
        · rw [childrenAt, if_pos here, addresses]
          exact List.perm_middle.symm
        · rw [here]
          exact List.mem_cons_self ..
        · intro children
          rw [setChildren, if_pos here, addresses]
          exact List.perm_middle.symm
      · rw [addresses, List.mem_cons, List.mem_append] at inside
        have below := inside.resolve_left (Ne.symm here)
        by_cases isChild : wanted ∈ child.addresses
        · have outside : wanted ∉ next.addresses := fun held =>
            disjoint wanted isChild wanted held rfl
          rcases childInduction isChild childNodup with
            ⟨rest, perm, kept, others⟩
          refine ⟨address :: (rest ++ next.addresses), ?_, ?_, ?_⟩
          · rw [childrenAt, if_neg here, if_pos isChild, addresses]
            refine List.Perm.trans ?_ List.perm_middle.symm
            rw [← List.append_assoc]
            exact (perm.append_right _).cons address
          · exact List.mem_cons_of_mem _ (List.mem_append_left _ kept)
          · intro children
            rw [setChildren, if_neg here, addresses,
              setChildren_of_notMem outside]
            refine List.Perm.trans ?_ List.perm_middle.symm
            rw [← List.append_assoc]
            exact ((others children).append_right _).cons address
        · have isNext := below.resolve_left isChild
          rcases nextInduction isNext nextNodup with
            ⟨rest, perm, kept, others⟩
          refine ⟨address :: (child.addresses ++ rest), ?_, ?_, ?_⟩
          · rw [childrenAt, if_neg here, if_neg isChild, addresses]
            refine List.Perm.trans ?_ List.perm_middle.symm
            refine ((perm.append_left child.addresses).trans ?_).cons address
            rw [← List.append_assoc, ← List.append_assoc]
            exact List.perm_append_comm.append_right rest
          · exact List.mem_cons_of_mem _ (List.mem_append_right _ kept)
          · intro children
            rw [setChildren, if_neg here, addresses,
              setChildren_of_notMem isChild]
            refine List.Perm.trans ?_ List.perm_middle.symm
            refine (((others children).append_left child.addresses).trans
              ?_).cons address
            rw [← List.append_assoc, ← List.append_assoc]
            exact List.perm_append_comm.append_right rest

end Children

end Forest

/-! ## Forests on a heap -/

section Stored

variable (shares : Data → Bool)

/--
The cells of a forest, from a pointer before the first root to one behind the
last.
-/
def Stored (heap : Heap Data) (prev close : Nat) : Forest Data → Prop
  | .nil => True
  | .node address data child next =>
      address ≠ 0 ∧
        (∃ pointer,
          heap address = some ⟨next.first close, prev, pointer, data⟩ ∧
            (if shares data then child = .nil else pointer = child.first 0)) ∧
        Stored heap 0 0 child ∧ Stored heap address close next

variable {shares} {heap other : Heap Data} {prev close : Nat}
variable {forest front back : Forest Data}

/-- A forest is stored as long as its cells are not touched. -/
theorem Stored.congr (stored : Stored shares heap prev close forest)
    (agree : ∀ address ∈ forest.addresses, other address = heap address) :
    Stored shares other prev close forest := by
  induction forest generalizing prev close with
  | nil => trivial
  | node address data child next childInduction nextInduction =>
      rcases stored with ⟨nonzero, ⟨pointer, cell, owned⟩, children, behind⟩
      have here := agree address (List.mem_cons_self ..)
      refine ⟨nonzero, ⟨pointer, here.trans cell, owned⟩,
        childInduction children ?_, nextInduction behind ?_⟩
      · intro other member
        exact agree other
          (List.mem_cons_of_mem _ (List.mem_append_left _ member))
      · intro other member
        exact agree other
          (List.mem_cons_of_mem _ (List.mem_append_right _ member))

theorem stored_append :
    Stored shares heap prev close (front.append back) ↔
      Stored shares heap prev (back.first close) front ∧
        Stored shares heap (front.last prev) close back := by
  induction front generalizing prev with
  | nil => exact ⟨fun stored => ⟨trivial, stored⟩, And.right⟩
  | node address data child next _ induction =>
      rw [Forest.append, Stored, Stored, induction, Forest.first_append,
        Forest.last]
      tauto

theorem Stored.ne_zero (stored : Stored shares heap prev close forest)
    {address : Nat} (member : address ∈ forest.addresses) :
    address ≠ 0 := by
  induction forest generalizing prev close with
  | nil => cases member
  | node first data child next childInduction nextInduction =>
      rcases stored with ⟨nonzero, -, children, behind⟩
      rw [Forest.addresses, List.mem_cons, List.mem_append] at member
      rcases member with rfl | inside | later
      · exact nonzero
      · exact childInduction children inside
      · exact nextInduction behind later

theorem Stored.isSome (stored : Stored shares heap prev close forest)
    {address : Nat} (member : address ∈ forest.addresses) :
    (heap address).isSome := by
  induction forest generalizing prev close with
  | nil => cases member
  | node first data child next childInduction nextInduction =>
      rcases stored with ⟨-, ⟨pointer, cell, -⟩, children, behind⟩
      rw [Forest.addresses, List.mem_cons, List.mem_append] at member
      rcases member with rfl | inside | later
      · rw [cell]
        rfl
      · exact childInduction children inside
      · exact nextInduction behind later

theorem Stored.first_eq_zero_iff
    (stored : Stored shares heap prev close forest) :
    forest.first 0 = 0 ↔ forest = .nil := by
  cases forest with
  | nil => exact iff_of_true rfl rfl
  | node => exact iff_of_false stored.1 (by simp)

/-- Another pointer behind the last root. -/
theorem Stored.reclose (stored : Stored shares heap prev close forest)
    (nonempty : forest ≠ .nil) (nodup : forest.addresses.Nodup)
    (behind : Nat) :
    Stored shares (heap.setNext (forest.last 0) behind) prev behind
      forest := by
  induction forest generalizing prev with
  | nil => exact absurd rfl nonempty
  | node address data child next _ induction =>
      rcases stored with ⟨nonzero, ⟨pointer, cell, owned⟩, children, later⟩
      rw [Forest.addresses, List.nodup_cons, List.mem_append, not_or,
        List.nodup_append] at nodup
      rcases nodup with ⟨⟨notChild, notNext⟩, -, nextNodup, disjoint⟩
      by_cases single : next = .nil
      · subst single
        refine ⟨nonzero, ⟨pointer, ?_, owned⟩, ?_, trivial⟩
        · rw [Forest.last, Forest.last, Heap.setNext, Heap.modify_self, cell]
          rfl
        · apply children.congr
          intro other member
          apply Heap.modify_of_ne
          rintro rfl
          exact notChild member
      · have lastNext : (Forest.node address data child next).last 0 =
            next.last 0 := by
          cases next with
          | nil => exact absurd rfl single
          | node => rfl
        have member := Forest.last_mem single 0
        rw [lastNext]
        refine ⟨nonzero, ⟨pointer, ?_, owned⟩, ?_,
          induction later single nextNodup⟩
        · rw [Heap.setNext, Heap.modify_of_ne, cell]
          · cases next with
            | nil => exact absurd rfl single
            | node => rfl
          · rintro rfl
            exact notNext member
        · apply children.congr
          intro other inside
          apply Heap.modify_of_ne
          rintro rfl
          exact disjoint _ inside _ member rfl

/-- Another pointer before the first root. -/
theorem Stored.reopen (stored : Stored shares heap prev close forest)
    (nonempty : forest ≠ .nil) (nodup : forest.addresses.Nodup)
    (before : Nat) :
    Stored shares (heap.setPrev (forest.first 0) before) before close
      forest := by
  cases forest with
  | nil => exact absurd rfl nonempty
  | node address data child next =>
      rcases stored with ⟨nonzero, ⟨pointer, cell, owned⟩, children, later⟩
      rw [Forest.addresses, List.nodup_cons, List.mem_append, not_or] at nodup
      refine ⟨nonzero, ⟨pointer, ?_, owned⟩, ?_, ?_⟩
      · rw [Forest.first, Heap.setPrev, Heap.modify_self, cell]
        rfl
      · apply children.congr
        intro other member
        apply Heap.modify_of_ne
        rintro rfl
        exact nodup.1.1 member
      · apply later.congr
        intro other member
        apply Heap.modify_of_ne
        rintro rfl
        exact nodup.1.2 member

/-- Two neighbours are the only cells that are touched. -/
theorem link_outside {address : Nat} (notFront : address ∉ front.addresses)
    (notBack : address ∉ back.addresses) :
    heap.link (front.last 0) (back.first 0) address = heap address := by
  apply Heap.link_of_ne
  · rintro nonnull rfl
    have nonempty : front ≠ .nil := by
      rintro rfl
      exact nonnull rfl
    exact notFront (Forest.last_mem nonempty 0)
  · rintro nonnull rfl
    have nonempty : back ≠ .nil := by
      rintro rfl
      exact nonnull rfl
    exact notBack (Forest.first_mem nonempty 0)

/-- Two forests become one when their ends are made neighbours. -/
theorem Stored.join {leftEnd rightStart : Nat}
    (left : Stored shares heap 0 leftEnd front)
    (right : Stored shares heap rightStart 0 back)
    (nodup : (front.append back).addresses.Nodup) :
    Stored shares (heap.link (front.last 0) (back.first 0)) 0 0
      (front.append back) := by
  rw [Forest.addresses_append, List.nodup_append] at nodup
  rcases nodup with ⟨frontNodup, backNodup, disjoint⟩
  have frontZero : front.last 0 = 0 ↔ front = .nil := by
    constructor
    · intro zero
      by_contra nonempty
      exact left.ne_zero (Forest.last_mem nonempty 0) zero
    · rintro rfl
      rfl
  have backZero := right.first_eq_zero_iff
  rw [stored_append]
  by_cases frontEmpty : front = .nil
  · refine ⟨frontEmpty ▸ trivial, ?_⟩
    rw [Heap.link, if_pos (frontZero.mpr frontEmpty)]
    by_cases backEmpty : back = .nil
    · exact backEmpty ▸ trivial
    · rw [if_neg (backZero.not.mpr backEmpty)]
      exact right.reopen backEmpty backNodup _
  · have lastFront := Forest.last_mem frontEmpty 0
    have closed := left.reclose frontEmpty frontNodup (back.first 0)
    rw [Heap.link, if_neg (frontZero.not.mpr frontEmpty)]
    by_cases backEmpty : back = .nil
    · rw [if_pos (backZero.mpr backEmpty)]
      exact ⟨closed, backEmpty ▸ trivial⟩
    · have firstBack := Forest.first_mem backEmpty 0
      rw [if_neg (backZero.not.mpr backEmpty)]
      constructor
      · apply closed.congr
        intro other member
        apply Heap.modify_of_ne
        rintro rfl
        exact disjoint _ member _ firstBack rfl
      · have kept :
            Stored shares (heap.setNext (front.last 0) (back.first 0))
              rightStart 0 back := by
          apply right.congr
          intro other member
          apply Heap.modify_of_ne
          rintro rfl
          exact disjoint _ lastFront _ member rfl
        exact kept.reopen backEmpty backNodup _

/-- A forest comes between two others. -/
theorem Stored.join_middle {middle : Forest Data}
    {frontEnd middleStart backStart : Nat}
    (left : Stored shares heap 0 frontEnd front)
    (inner : Stored shares heap middleStart 0 middle)
    (right : Stored shares heap backStart 0 back)
    (nodup : (front.append (middle.append back)).addresses.Nodup)
    (nonempty : middle ≠ .nil) :
    Stored shares
      ((heap.link (front.last 0) (middle.first 0)).link (middle.last 0)
        (back.first 0)) 0 0
      (front.append (middle.append back)) := by
  rw [← Forest.append_assoc] at nodup ⊢
  have parts := nodup
  rw [Forest.addresses_append, List.nodup_append] at parts
  rcases parts with ⟨joined, -, disjoint⟩
  have kept :
      Stored shares (heap.link (front.last 0) (middle.first 0)) backStart 0
        back := by
    apply right.congr
    intro address member
    rw [Forest.addresses_append] at disjoint
    apply link_outside
    · exact fun held => disjoint address
        (List.mem_append_left _ held) address member rfl
    · exact fun held => disjoint address
        (List.mem_append_right _ held) address member rfl
  have ends : (front.append middle).last 0 = middle.last 0 := by
    rw [Forest.last_append]
    exact Forest.last_of_ne_nil nonempty ..
  rw [← ends]
  exact (left.join inner joined).join kept nodup

/-- A cell without neighbours. -/
def Heap.isolate (heap : Heap Data) (address : Nat) : Heap Data :=
  (heap.setNext address 0).setPrev address 0

theorem isolate_of_ne {address wanted : Nat} (apart : wanted ≠ address) :
    heap.isolate address wanted = heap wanted :=
  (Heap.modify_of_ne _ apart _).trans (Heap.modify_of_ne _ apart _)

theorem isSome_isolate (address wanted : Nat) :
    (heap.isolate address wanted).isSome = (heap wanted).isSome := by
  rw [Heap.isolate, Heap.setPrev, Heap.isSome_modify, Heap.setNext,
    Heap.isSome_modify]

theorem erase_isolate {addresses : List Nat} {address : Nat}
    (inside : address ∈ addresses) :
    (heap.isolate address).erase addresses = heap.erase addresses :=
  (Heap.erase_modify _ inside _).trans (Heap.erase_modify _ inside _)

/-- A tree apart from its siblings. -/
theorem Stored.isolate {address : Nat} {data : Data} {child : Forest Data}
    (stored :
      Stored shares heap prev close (.node address data child .nil))
    (outside : address ∉ child.addresses) :
    Stored shares (heap.isolate address) 0 0
      (.node address data child .nil) := by
  rcases stored with ⟨nonzero, ⟨pointer, cell, owned⟩, children, -⟩
  refine ⟨nonzero, ⟨pointer, ?_, owned⟩, ?_, trivial⟩
  · rw [Heap.isolate, Heap.setPrev, Heap.modify_self, Heap.setNext,
      Heap.modify_self, cell]
    rfl
  · apply children.congr
    intro other member
    apply isolate_of_ne
    rintro rfl
    exact outside member

/-! ## The children of one node -/

/-- A node that owns its children, and the children on the heap. -/
theorem Stored.childrenAt (stored : Stored shares heap prev close forest)
    {wanted : Nat} {data : Data} (found : forest.dataAt wanted = some data)
    (owns : shares data = false) :
    ∃ cell,
      heap wanted = some cell ∧
        cell.child = (forest.childrenAt wanted).first 0 ∧
        cell.data = data ∧
        Stored shares heap 0 0 (forest.childrenAt wanted) := by
  induction forest generalizing prev close with
  | nil => cases found
  | node address inner child next childInduction nextInduction =>
      rcases stored with ⟨nonzero, ⟨pointer, cell, owned⟩, children, later⟩
      rw [Forest.childrenAt]
      by_cases here : address = wanted
      · rw [Forest.dataAt, if_pos here, Option.some.injEq] at found
        subst here
        subst found
        rw [owns, if_neg Bool.false_ne_true] at owned
        rw [if_pos rfl]
        exact ⟨_, cell, owned, rfl, children⟩
      · rw [Forest.dataAt, if_neg here] at found
        rw [if_neg here]
        by_cases isChild : wanted ∈ child.addresses
        · rw [if_pos isChild]
          rcases Option.isSome_iff_exists.mp
            (Forest.isSome_dataAt.mpr isChild) with ⟨value, inside⟩
          rw [inside, Option.some_or] at found
          exact childInduction children (inside.trans found)
        · rw [if_neg isChild]
          rw [Forest.dataAt_eq_none.mpr isChild, Option.none_or] at found
          exact nextInduction later found

/-- The cell of a node has its data. -/
theorem Stored.dataAt (stored : Stored shares heap prev close forest)
    {wanted : Nat} {data : Data} (found : forest.dataAt wanted = some data) :
    ∃ cell, heap wanted = some cell ∧ cell.data = data := by
  induction forest generalizing prev close with
  | nil => cases found
  | node address inner child next childInduction nextInduction =>
      rcases stored with ⟨-, ⟨pointer, cell, -⟩, children, later⟩
      rw [Forest.dataAt] at found
      split at found
      · subst_vars
        exact ⟨_, cell, Option.some.inj found⟩
      · rcases Option.or_eq_some_iff.mp found with inside | ⟨-, behind⟩
        · exact childInduction children inside
        · exact nextInduction later behind

/-- A node is given other children, and nothing but them is touched. -/
theorem Stored.setChildren (stored : Stored shares heap prev close forest)
    {wanted : Nat} {data : Data} (found : forest.dataAt wanted = some data)
    (owns : shares data = false) (nodup : forest.addresses.Nodup)
    {children : Forest Data}
    (cell :
      other wanted =
        (heap wanted).map fun cell =>
          { cell with child := children.first 0 })
    (agree :
      ∀ address ∈ forest.addresses, address ≠ wanted →
        address ∉ (forest.childrenAt wanted).addresses →
          other address = heap address)
    (kept : Stored shares other 0 0 children) :
    Stored shares other prev close (forest.setChildren wanted children) := by
  induction forest generalizing prev close with
  | nil => cases found
  | node address inner child next childInduction nextInduction =>
      rcases stored with ⟨nonzero, ⟨pointer, first, owned⟩, below, later⟩
      rw [Forest.addresses, List.nodup_cons, List.mem_append, not_or,
        List.nodup_append] at nodup
      rcases nodup with ⟨⟨notChild, notNext⟩, childNodup, nextNodup, disjoint⟩
      have isNext {a : Nat} (member : a ∈ next.addresses) :
          a ∈ (Forest.node address inner child next).addresses :=
        List.mem_cons_of_mem _ (List.mem_append_right _ member)
      have isChild {a : Nat} (member : a ∈ child.addresses) :
          a ∈ (Forest.node address inner child next).addresses :=
        List.mem_cons_of_mem _ (List.mem_append_left _ member)
      rw [Forest.childrenAt] at agree
      rw [Forest.setChildren]
      by_cases here : address = wanted
      · rw [Forest.dataAt, if_pos here, Option.some.injEq] at found
        subst here
        subst found
        rw [if_pos rfl] at agree ⊢
        refine ⟨nonzero, ⟨children.first 0, ?_, ?_⟩, kept, ?_⟩
        · rw [cell, first]
          rfl
        · rw [owns, if_neg Bool.false_ne_true]
        · apply later.congr
          intro a member
          apply agree a (isNext member)
          · rintro rfl
            exact notNext member
          · exact fun held => disjoint a held a member rfl
      · rw [Forest.dataAt, if_neg here] at found
        rw [if_neg here] at agree ⊢
        by_cases deeper : wanted ∈ child.addresses
        · have outside : wanted ∉ next.addresses := fun held =>
            disjoint wanted deeper wanted held rfl
          rcases Option.isSome_iff_exists.mp
            (Forest.isSome_dataAt.mpr deeper) with ⟨value, inside⟩
          rw [inside, Option.some_or] at found
          rw [if_pos deeper] at agree
          have within {a : Nat}
              (member : a ∈ (child.childrenAt wanted).addresses) :
              a ∈ child.addresses := Forest.addresses_childrenAt member
          rw [Forest.setChildren_of_notMem outside]
          refine ⟨nonzero, ⟨pointer, ?_, ?_⟩, ?_, ?_⟩
          · rw [agree address (List.mem_cons_self ..) here, first]
            exact fun held => notChild (within held)
          · rw [Forest.first_setChildren]
            split at owned
            · rw [owned] at deeper
              cases deeper
            · exact if_neg ‹_› ▸ owned
          · exact childInduction below (inside.trans found) childNodup
              fun a member => agree a (isChild member)
          · apply later.congr
            intro a member
            apply agree a (isNext member)
            · rintro rfl
              exact outside member
            · exact fun held => disjoint a (within held) a member rfl
        · rw [Forest.dataAt_eq_none.mpr deeper, Option.none_or] at found
          have held : wanted ∈ next.addresses :=
            Forest.isSome_dataAt.mp (found ▸ rfl)
          have within {a : Nat}
              (member : a ∈ (next.childrenAt wanted).addresses) :
              a ∈ next.addresses := Forest.addresses_childrenAt member
          rw [if_neg deeper] at agree
          rw [Forest.setChildren_of_notMem deeper]
          refine ⟨nonzero, ⟨pointer, ?_, owned⟩, ?_, ?_⟩
          · rw [agree address (List.mem_cons_self ..) here, first,
              Forest.first_setChildren]
            exact fun held => notNext (within held)
          · apply below.congr
            intro a member
            apply agree a (isChild member)
            · rintro rfl
              exact deeper member
            · exact fun held => disjoint a member a (within held) rfl
          · exact nextInduction later found nextNodup
              fun a member => agree a (isNext member)

end Stored

end CommonCode.Lib.Siblings
