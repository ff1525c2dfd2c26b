import CommonCode.Lib.Siblings

/-!
# Heaps that hold exactly some trees

A heap holds some trees if it stores each of them apart from the others and has
no other cell: nothing is shared, lost or dangling.  The rules say how a heap
that holds some trees comes to hold others: by a new cell, by another list of
children for one node, and by the erasure of a whole tree.
-/

namespace CommonCode.Lib.Siblings

variable {Data : Type*}

/-! ## Some trees -/

section Roots

variable (roots : List (Forest Data)) (wanted : Nat)

/-- The addresses of all cells. -/
def cells : List Nat := roots.flatMap Forest.addresses

/-- The data of a node. -/
def dataOf : Option Data := roots.findSome? fun tree => tree.dataAt wanted

/-- The children of a node. -/
def childrenOf : Forest Data :=
  (roots.find? fun tree => wanted ∈ tree.addresses).elim .nil fun tree =>
    tree.childrenAt wanted

/-- The trees with other children for a node. -/
def rechild (children : Forest Data) : List (Forest Data) :=
  roots.map fun tree => tree.setChildren wanted children

/-- The tree with a given root. -/
def rootAt : Option (Forest Data) :=
  roots.find? fun tree => tree.first 0 = wanted

/-- The trees with other roots. -/
def without : List (Forest Data) :=
  roots.filter fun tree => tree.first 0 ≠ wanted

end Roots

/-! ## What a heap holds -/

section Holds

variable (shares : Data → Bool)

structure Holds (heap : Heap Data) (roots : List (Forest Data)) : Prop where
  stored :
    ∀ tree ∈ roots, Stored shares heap 0 0 tree ∧ tree.length = 1
  separate : (cells roots).Nodup
  allocated : ∀ address, (heap address).isSome ↔ address ∈ cells roots

variable {shares} {heap after : Heap Data}
variable {roots others changed : List (Forest Data)}
variable {tree children : Forest Data} {wanted : Nat} {data : Data}

theorem cells_cons :
    cells (tree :: roots) = tree.addresses ++ cells roots :=
  List.flatMap_cons

theorem Holds.perm (holds : Holds shares heap roots)
    (perm : roots.Perm others) :
    Holds shares heap others where
  stored tree member := holds.stored tree (perm.mem_iff.mpr member)
  separate := (perm.flatMap_right _).nodup_iff.mp holds.separate
  allocated address := by
    rw [holds.allocated]
    exact (perm.flatMap_right _).mem_iff

theorem holds_nil : Holds shares (fun _ => none) [] where
  stored _ member := absurd member List.not_mem_nil
  separate := List.nodup_nil
  allocated _ := by simp [cells]

theorem exists_node_of_length (single : tree.length = 1) :
    ∃ address data child, tree = .node address data child .nil := by
  cases tree with
  | nil => cases single
  | node address data child next =>
      cases next with
      | nil => exact ⟨address, data, child, rfl⟩
      | node => simp [Forest.length] at single

/-- A new cell without neighbours. -/
theorem Holds.insert (holds : Holds shares heap roots) {address : Nat}
    (nonzero : address ≠ 0) (free : heap address = none)
    (pointer : Nat) (alone : shares data = false → pointer = 0) :
    Holds shares
      (Function.update heap address (some ⟨0, 0, pointer, data⟩))
      (.node address data .nil .nil :: roots) := by
  have fresh : address ∉ cells roots := by
    rw [← holds.allocated, free]
    exact Bool.false_ne_true
  constructor
  · intro tree member
    rcases List.mem_cons.mp member with rfl | old
    · refine ⟨⟨nonzero, ⟨pointer, Function.update_self .., ?_⟩, trivial,
        trivial⟩, rfl⟩
      cases shared : shares data with
      | true => rfl
      | false => exact alone shared
    · refine ⟨(holds.stored tree old).1.congr ?_, (holds.stored tree old).2⟩
      intro other inside
      apply Function.update_of_ne
      rintro rfl
      exact fresh (List.mem_flatMap.mpr ⟨tree, old, inside⟩)
  · rw [cells_cons]
    exact List.nodup_cons.mpr ⟨fresh, holds.separate⟩
  · intro other
    rw [cells_cons]
    by_cases same : other = address
    · simp [same, Forest.addresses]
    · rw [Function.update_of_ne same, holds.allocated]
      simp [Forest.addresses, same]

/-- Other data for a root that shares as much as before. -/
theorem Holds.relabel {address : Nat} {child : Forest Data}
    (holds : Holds shares heap (.node address data child .nil :: roots))
    {change : Data → Data} (same : shares (change data) = shares data) :
    Holds shares
      (heap.modify address fun cell => { cell with data := change cell.data })
      (.node address (change data) child .nil :: roots) := by
  have separate := holds.separate
  rw [cells_cons, List.nodup_append] at separate
  rcases separate with ⟨nodup, -, disjoint⟩
  rw [Forest.addresses, List.nodup_cons, List.mem_append, not_or] at nodup
  rcases (holds.stored _ (List.mem_cons_self ..)).1 with
    ⟨nonzero, ⟨pointer, cell, owned⟩, children, -⟩
  constructor
  · intro tree member
    rcases List.mem_cons.mp member with rfl | later
    · refine ⟨⟨nonzero, ⟨pointer, ?_, ?_⟩, ?_, trivial⟩, rfl⟩
      · rw [Heap.modify_self, cell]
        rfl
      · rw [same]
        exact owned
      · apply children.congr
        intro other inside
        apply Heap.modify_of_ne
        rintro rfl
        exact nodup.1.1 inside
    · have kept := holds.stored tree (List.mem_cons_of_mem _ later)
      refine ⟨kept.1.congr ?_, kept.2⟩
      intro other inside
      apply Heap.modify_of_ne
      rintro rfl
      exact disjoint other (List.mem_cons_self ..) other
        (List.mem_flatMap.mpr ⟨tree, later, inside⟩) rfl
  · exact holds.separate
  · intro other
    rw [Heap.isSome_modify]
    exact holds.allocated other

/-- A whole tree is erased. -/
theorem Holds.erase (holds : Holds shares heap (tree :: roots)) :
    Holds shares (heap.erase tree.addresses) roots := by
  have separate := holds.separate
  rw [cells_cons, List.nodup_append] at separate
  rcases separate with ⟨-, nodup, disjoint⟩
  constructor
  · intro other member
    have stored := holds.stored other (List.mem_cons_of_mem _ member)
    refine ⟨stored.1.congr ?_, stored.2⟩
    intro address inside
    apply Heap.erase_of_notMem
    intro held
    exact disjoint address held address
      (List.mem_flatMap.mpr ⟨other, member, inside⟩) rfl
  · exact nodup
  · intro address
    have allocated := holds.allocated address
    rw [cells_cons, List.mem_append] at allocated
    by_cases held : address ∈ tree.addresses
    · rw [Heap.erase_of_mem _ held]
      exact iff_of_false Bool.false_ne_true
        fun inside => disjoint address held address inside rfl
    · rw [Heap.erase_of_notMem _ held, allocated]
      exact or_iff_right held

/-- The second of two trees is erased. -/
theorem Holds.eraseSecond {first : Forest Data}
    (holds : Holds shares heap (first :: tree :: roots)) :
    Holds shares (heap.erase tree.addresses) (first :: roots) :=
  (holds.perm (List.Perm.swap ..)).erase

/--
A node is given other children.  The cells of the children and of the other
trees are only moved between them, and no other cell is touched.
-/
theorem Holds.setChildren (holds : Holds shares heap (tree :: others))
    (found : tree.dataAt wanted = some data) (owns : shares data = false)
    (moved :
      (children.addresses ++ cells changed).Perm
        ((tree.childrenAt wanted).addresses ++ cells others))
    (cell :
      after wanted =
        (heap wanted).map fun cell =>
          { cell with child := children.first 0 })
    (agree :
      ∀ address, address ≠ wanted →
        address ∉ (tree.childrenAt wanted).addresses →
          address ∉ cells others → after address = heap address)
    (allocated : ∀ address, (after address).isSome = (heap address).isSome)
    (kept : Stored shares after 0 0 children)
    (rest : ∀ tree ∈ changed, Stored shares after 0 0 tree ∧ tree.length = 1) :
    Holds shares after (tree.setChildren wanted children :: changed) := by
  have separate := holds.separate
  rw [cells_cons, List.nodup_append] at separate
  rcases separate with ⟨nodup, -, disjoint⟩
  have inside : wanted ∈ tree.addresses :=
    Forest.isSome_dataAt.mp (found ▸ rfl)
  have top := holds.stored tree (List.mem_cons_self ..)
  rcases Forest.exists_rest inside nodup with ⟨outer, perm, -, exchanged⟩
  have total :
      (cells (tree.setChildren wanted children :: changed)).Perm
        (cells (tree :: others)) := by
    rw [cells_cons, cells_cons]
    calc
      List.Perm
          ((tree.setChildren wanted children).addresses ++ cells changed)
          ((children.addresses ++ outer) ++ cells changed) :=
        (exchanged children).append_right _
      List.Perm _ (outer ++ (children.addresses ++ cells changed)) := by
        rw [← List.append_assoc]
        exact List.perm_append_comm.append_right _
      List.Perm _
          (outer ++ ((tree.childrenAt wanted).addresses ++ cells others)) :=
        moved.append_left _
      List.Perm _
          (((tree.childrenAt wanted).addresses ++ outer) ++ cells others) := by
        rw [← List.append_assoc]
        exact List.perm_append_comm.append_right _
      List.Perm _ (tree.addresses ++ cells others) :=
        perm.symm.append_right _
  constructor
  · intro other member
    rcases List.mem_cons.mp member with rfl | later
    · constructor
      · apply top.1.setChildren found owns nodup cell _ kept
        intro address held apart outside
        apply agree address apart outside
        exact fun member => disjoint address held address member rfl
      · rcases exists_node_of_length top.2 with ⟨address, data, child, rfl⟩
        rw [Forest.setChildren]
        split <;> rfl
    · exact rest other later
  · exact total.nodup_iff.mpr holds.separate
  · intro address
    rw [allocated, holds.allocated]
    exact total.mem_iff.symm

/-! ## Where the nodes are -/

theorem rechild_of_notMem (outside : wanted ∉ cells roots) :
    rechild roots wanted children = roots := by
  have same : ∀ tree ∈ roots, tree.setChildren wanted children = id tree := by
    intro tree member
    apply Forest.setChildren_of_notMem
    exact fun held => outside (List.mem_flatMap.mpr ⟨tree, member, held⟩)
  exact (List.map_congr_left same).trans (List.map_id roots)

/-- The tree of a node, and the others. -/
theorem locate (separate : (cells roots).Nodup)
    (found : dataOf roots wanted = some data) :
    ∃ tree others,
      roots.Perm (tree :: others) ∧ tree.dataAt wanted = some data ∧
        childrenOf roots wanted = tree.childrenAt wanted ∧
        ∀ children,
          (rechild roots wanted children).Perm
            (tree.setChildren wanted children :: others) := by
  induction roots with
  | nil => cases found
  | cons first rest induction =>
      rw [cells_cons, List.nodup_append] at separate
      rcases separate with ⟨-, nodup, disjoint⟩
      rw [dataOf, List.findSome?_cons] at found
      cases here : first.dataAt wanted with
      | some value =>
          rw [here] at found
          have inside : wanted ∈ first.addresses :=
            Forest.isSome_dataAt.mp (here ▸ rfl)
          refine ⟨first, rest, List.Perm.refl _, here.trans found, ?_, ?_⟩
          · rw [childrenOf, List.find?_cons_of_pos (by simpa using inside)]
            rfl
          · intro children
            have same : rechild rest wanted children = rest :=
              rechild_of_notMem fun held =>
                disjoint wanted inside wanted held rfl
            rw [rechild, List.map_cons]
            exact List.Perm.of_eq (congrArg _ same)
      | none =>
          rw [here] at found
          have outside : wanted ∉ first.addresses :=
            Forest.dataAt_eq_none.mp here
          rcases induction nodup found with
            ⟨tree, others, perm, inside, below, exchanged⟩
          refine ⟨tree, first :: others,
            (perm.cons first).trans (List.Perm.swap ..), inside, ?_, ?_⟩
          · rw [← below, childrenOf, childrenOf,
              List.find?_cons_of_neg (by simpa using outside)]
          · intro children
            rw [rechild, List.map_cons,
              Forest.setChildren_of_notMem outside]
            exact ((exchanged children).cons first).trans
              (List.Perm.swap ..)

/-- The tree of a root, and the others. -/
theorem Holds.uproot (holds : Holds shares heap roots)
    (found : rootAt roots wanted = some tree) :
    roots.Perm (tree :: without roots wanted) ∧
      ∃ data child, tree = .node wanted data child .nil := by
  have member : tree ∈ roots := List.mem_of_find?_eq_some found
  have root : tree.first 0 = wanted := by
    simpa using List.find?_some found
  rcases exists_node_of_length (holds.stored tree member).2 with
    ⟨address, data, child, rfl⟩
  rw [Forest.first] at root
  subst root
  refine ⟨?_, data, child, rfl⟩
  rcases List.append_of_mem member with ⟨front, back, rfl⟩
  have separate := (holds.perm List.perm_middle).separate
  rw [cells_cons, List.nodup_append] at separate
  have apart : ∀ other ∈ front ++ back, other.first 0 ≠ address := by
    intro other inside same
    have node : other ≠ .nil := by
      rintro rfl
      have nonzero := (holds.stored _ member).1.1
      exact nonzero same.symm
    have held : address ∈ other.addresses := same ▸ Forest.first_mem node 0
    exact separate.2.2 address (List.mem_cons_self ..) address
      (List.mem_flatMap.mpr ⟨other, inside, held⟩) rfl
  have rest :
      without (front ++ .node address data child .nil :: back) address =
        front ++ back := by
    rw [without, List.filter_append,
      List.filter_cons_of_neg (by simp [Forest.first]), ← List.filter_append,
      List.filter_eq_self]
    exact fun other inside => by simpa using apart other inside
  rw [rest]
  exact List.perm_middle

/-- The tree of a root, and the tree of a node that is not in it. -/
theorem Holds.meet (holds : Holds shares heap roots) {item : Nat}
    (root : rootAt roots item = some tree)
    (found : dataOf (without roots item) wanted = some data) :
    ∃ owner others,
      Holds shares heap (owner :: tree :: others) ∧
        owner.dataAt wanted = some data ∧
        childrenOf (without roots item) wanted = owner.childrenAt wanted ∧
        ∀ children,
          (rechild (without roots item) wanted children).Perm
            (owner.setChildren wanted children :: others) := by
  have perm := (holds.uproot root).1
  have separate := (holds.perm perm).separate
  rw [cells_cons] at separate
  rcases locate (List.nodup_append.mp separate).2.1 found with
    ⟨owner, others, split, inside, below, exchanged⟩
  refine ⟨owner, others, holds.perm ?_, inside, below, exchanged⟩
  exact (perm.trans (split.cons tree)).trans (List.Perm.swap ..)

/-- The cell of a node has its data. -/
theorem Holds.dataOf (holds : Holds shares heap roots)
    (found : dataOf roots wanted = some data) :
    ∃ cell, heap wanted = some cell ∧ cell.data = data := by
  rcases locate holds.separate found with ⟨tree, others, perm, inside, -⟩
  have member : tree ∈ roots := perm.mem_iff.mpr (List.mem_cons_self ..)
  exact (holds.stored tree member).1.dataAt inside

theorem exists_dataOf (inside : wanted ∈ cells roots) :
    ∃ data, Siblings.dataOf roots wanted = some data := by
  rcases List.mem_flatMap.mp inside with ⟨tree, member, held⟩
  have found : (Siblings.dataOf roots wanted).isSome := by
    rw [Siblings.dataOf, List.findSome?_isSome_iff]
    exact ⟨tree, member, Forest.isSome_dataAt.mpr held⟩
  exact Option.isSome_iff_exists.mp found

theorem Holds.first_ne_zero (holds : Holds shares heap roots)
    (member : tree ∈ roots) :
    tree.first 0 ≠ 0 := by
  have stored := holds.stored tree member
  apply stored.1.ne_zero (Forest.first_mem _ 0)
  rintro rfl
  cases stored.2

/-- There is no root at the null pointer. -/
theorem Holds.rootAt_zero (holds : Holds shares heap roots) :
    rootAt roots 0 = none := by
  rw [rootAt, List.find?_eq_none]
  intro tree member
  simpa using holds.first_ne_zero member

theorem Holds.without_zero (holds : Holds shares heap roots) :
    without roots 0 = roots := by
  rw [without, List.filter_eq_self]
  intro tree member
  simpa using holds.first_ne_zero member

/-- A new root is the only one at its address. -/
theorem Holds.without_cons (holds : Holds shares heap roots)
    (fresh : wanted ∉ cells roots) {child next : Forest Data} :
    without (.node wanted data child next :: roots) wanted = roots := by
  rw [without, List.filter_cons_of_neg (by simp), List.filter_eq_self]
  intro tree member
  have nonempty : tree ≠ .nil := by
    rintro rfl
    cases (holds.stored _ member).2
  rw [decide_eq_true_eq]
  rintro rfl
  exact fresh (List.mem_flatMap.mpr
    ⟨tree, member, Forest.first_mem nonempty 0⟩)

/-! ## Lists of children -/

/-- A node, its children and the other trees are apart. -/
theorem Holds.nodup_family (holds : Holds shares heap (tree :: others))
    (found : tree.dataAt wanted = some data) :
    (wanted :: ((tree.childrenAt wanted).addresses ++ cells others)).Nodup := by
  have separate := holds.separate
  have inside : wanted ∈ tree.addresses :=
    Forest.isSome_dataAt.mp (found ▸ rfl)
  rw [cells_cons] at separate
  rcases Forest.exists_rest inside (List.nodup_append.mp separate).1 with
    ⟨outer, perm, isOuter, -⟩
  rcases List.append_of_mem isOuter with ⟨above, below, rfl⟩
  have total := (perm.append_right (cells others)).nodup_iff.mp separate
  have arranged :
      List.Perm
        ((tree.childrenAt wanted).addresses ++ (above ++ wanted :: below) ++
          cells others)
        ((wanted :: ((tree.childrenAt wanted).addresses ++ cells others)) ++
          (above ++ below)) := by
    simp only [← Multiset.coe_eq_coe, ← Multiset.coe_add,
      ← Multiset.cons_coe, ← Multiset.singleton_add]
    abel
  exact (List.nodup_append.mp (arranged.nodup_iff.mp total)).1

theorem Holds.nodup_children (holds : Holds shares heap (tree :: others))
    (found : tree.dataAt wanted = some data) :
    ((tree.childrenAt wanted).addresses ++ cells others).Nodup :=
  (List.nodup_cons.mp (holds.nodup_family found)).2

/-- The cells of the children that a node is given. -/
theorem mem_cells_setChildren (separate : (cells (tree :: others)).Nodup)
    (found : tree.dataAt wanted = some data) {address : Nat}
    (member : address ∈ children.addresses) :
    address ∈ cells (tree.setChildren wanted children :: others) := by
  rw [cells_cons] at separate ⊢
  have inside : wanted ∈ tree.addresses :=
    Forest.isSome_dataAt.mp (found ▸ rfl)
  rcases Forest.exists_rest inside (List.nodup_append.mp separate).1 with
    ⟨outer, -, -, exchanged⟩
  apply List.mem_append_left
  rw [(exchanged children).mem_iff]
  exact List.mem_append_left _ member

/-- What becomes of the children of a node, up to the pointer to the first. -/
theorem Holds.splice (holds : Holds shares heap (tree :: others))
    (found : tree.dataAt wanted = some data) (owns : shares data = false)
    {relinked : Heap Data}
    (moved :
      (children.addresses ++ cells changed).Perm
        ((tree.childrenAt wanted).addresses ++ cells others))
    (agree :
      ∀ address, address ∉ (tree.childrenAt wanted).addresses →
        address ∉ cells others → relinked address = heap address)
    (allocated :
      ∀ address, (relinked address).isSome = (heap address).isSome)
    (kept : Stored shares relinked 0 0 children)
    (rest :
      ∀ tree ∈ changed, Stored shares relinked 0 0 tree ∧ tree.length = 1) :
    Holds shares (relinked.setChild wanted (children.first 0))
      (tree.setChildren wanted children :: changed) := by
  have family := (List.nodup_cons.mp (holds.nodup_family found)).1
  have outside := fun held => family (List.mem_append_left _ held)
  have apart := fun held => family (List.mem_append_right _ held)
  have unmoved : wanted ∉ children.addresses ++ cells changed := by
    rw [moved.mem_iff]
    exact family
  rw [List.mem_append, not_or] at unmoved
  apply holds.setChildren found owns moved
  · rw [Heap.setChild, Heap.modify_self, agree wanted outside apart]
  · intro address other notChild notOther
    rw [Heap.setChild, Heap.modify_of_ne _ other]
    exact agree address notChild notOther
  · intro address
    rw [Heap.setChild, Heap.isSome_modify, allocated]
  · apply kept.congr
    intro address member
    apply Heap.modify_of_ne
    rintro rfl
    exact unmoved.1 member
  · intro other member
    refine ⟨(rest other member).1.congr ?_, (rest other member).2⟩
    intro address held
    apply Heap.modify_of_ne
    rintro rfl
    exact unmoved.2 (List.mem_flatMap.mpr ⟨other, member, held⟩)

/-- The trees that are not touched stay on a heap. -/
theorem Holds.keep (holds : Holds shares heap roots)
    {relinked : Heap Data}
    (agree : ∀ address ∈ cells roots, relinked address = heap address) :
    ∀ tree ∈ roots, Stored shares relinked 0 0 tree ∧ tree.length = 1 := by
  intro tree member
  refine ⟨(holds.stored tree member).1.congr ?_, (holds.stored tree member).2⟩
  intro address held
  exact agree address (List.mem_flatMap.mpr ⟨tree, member, held⟩)

theorem Holds.tail (holds : Holds shares heap (tree :: roots)) :
    ∀ other ∈ roots, Stored shares heap 0 0 other ∧ other.length = 1 :=
  fun other member => holds.stored other (List.mem_cons_of_mem _ member)

section Splices

variable {item front back middle : Forest Data}

/-- A tree becomes a child between two others. -/
theorem Holds.insertChild
    (holds : Holds shares heap (tree :: item :: others))
    (found : tree.dataAt wanted = some data) (owns : shares data = false)
    (split : tree.childrenAt wanted = front.append back)
    (stored : Stored shares heap 0 0 (tree.childrenAt wanted)) :
    Holds shares
      (((heap.link (front.last 0) (item.first 0)).link (item.last 0)
        (back.first 0)).setChild wanted
          ((front.append (item.append back)).first 0))
      (tree.setChildren wanted (front.append (item.append back)) ::
        others) := by
  have nodup := holds.nodup_children found
  rw [split, stored_append] at stored
  rw [split, Forest.addresses_append, cells_cons] at nodup
  have alone := holds.tail item (List.mem_cons_self ..)
  have nonempty : item ≠ .nil := by
    rintro rfl
    cases alone.2
  have moved :
      ((front.append (item.append back)).addresses ++ cells others).Perm
        ((front.addresses ++ back.addresses) ++
          (item.addresses ++ cells others)) := by
    simp only [Forest.addresses_append, ← Multiset.coe_eq_coe,
      ← Multiset.coe_add]
    abel
  have total := List.nodup_append.mp (moved.nodup_iff.mpr nodup)
  have outside {address : Nat} (notFront : address ∉ front.addresses)
      (notItem : address ∉ item.addresses)
      (notBack : address ∉ back.addresses) :
      (heap.link (front.last 0) (item.first 0)).link (item.last 0)
        (back.first 0) address = heap address :=
    (link_outside notItem notBack).trans (link_outside notFront notItem)
  apply holds.splice found owns
  · rw [split, Forest.addresses_append front back, cells_cons]
    exact moved
  · intro address notChild notOther
    rw [split, Forest.addresses_append, List.mem_append, not_or] at notChild
    rw [cells_cons, List.mem_append, not_or] at notOther
    exact outside notChild.1 notOther.1 notChild.2
  · intro address
    rw [Heap.isSome_link, Heap.isSome_link]
  · exact stored.1.join_middle alone.1 stored.2 total.1 nonempty
  · intro other member
    have kept := holds.tail other (List.mem_cons_of_mem _ member)
    refine ⟨kept.1.congr ?_, kept.2⟩
    intro address inside
    have apart : address ∉ (front.append (item.append back)).addresses :=
      fun held => total.2.2 address held address
        (List.mem_flatMap.mpr ⟨other, member, inside⟩) rfl
    simp only [Forest.addresses_append, List.mem_append, not_or] at apart
    exact outside apart.1 apart.2.1 apart.2.2

section Middle

variable {address : Nat} {value : Data} {child : Forest Data}

/-- The child that is taken out, and the children around it. -/
theorem Stored.around
    (stored :
      Stored shares heap 0 0 (front.append (.node address value child back)))
    (nodup :
      (front.append (.node address value child back)).addresses.Nodup) :
    Stored shares heap 0 address front ∧ Stored shares heap address 0 back ∧
      Stored shares heap (front.last 0) (back.first 0)
        (.node address value child .nil) ∧
      (front.append back).addresses.Nodup ∧
      (address :: child.addresses).Nodup ∧
      ∀ inner ∈ address :: child.addresses,
        inner ∉ front.addresses ∧ inner ∉ back.addresses := by
  rw [stored_append] at stored
  rcases stored with ⟨before, nonzero, cell, children, behind⟩
  rw [Forest.addresses_append, Forest.addresses, List.nodup_append] at nodup
  rcases nodup with ⟨frontNodup, inner, disjoint⟩
  rw [← List.cons_append] at inner disjoint
  rw [List.nodup_append] at inner
  rcases inner with ⟨own, backNodup, apart⟩
  refine ⟨before, behind, ⟨nonzero, cell, children, trivial⟩, ?_, own, ?_⟩
  · rw [Forest.addresses_append, List.nodup_append]
    refine ⟨frontNodup, backNodup, ?_⟩
    intro a inFront b inBack
    exact disjoint a inFront b (List.mem_append_right _ inBack)
  · intro a held
    constructor
    · exact fun inFront =>
        disjoint a inFront a (List.mem_append_left _ held) rfl
    · exact fun inBack => apart a held a inBack rfl

/-- A child is taken from between two others. -/
theorem Holds.removeChild
    (holds : Holds shares heap (tree :: others))
    (found : tree.dataAt wanted = some data) (owns : shares data = false)
    (split :
      tree.childrenAt wanted =
        front.append (.node address value child back))
    (stored : Stored shares heap 0 0 (tree.childrenAt wanted)) :
    Holds shares
      (((heap.link (front.last 0) (back.first 0)).isolate address).setChild
        wanted ((front.append back).first 0))
      (tree.setChildren wanted (front.append back) ::
        .node address value child .nil :: others) := by
  have nodup := holds.nodup_children found
  have parts := List.nodup_append.mp nodup
  rw [split] at stored parts
  rcases stored.around parts.1 with
    ⟨before, behind, alone, joined, own, apart⟩
  have moved :
      ((front.append back).addresses ++
          cells (.node address value child .nil :: others)).Perm
        ((front.append (.node address value child back)).addresses ++
          cells others) := by
    simp only [cells_cons, Forest.addresses_append, Forest.addresses,
      List.append_nil, ← Multiset.coe_eq_coe, ← Multiset.coe_add,
      ← Multiset.cons_coe, ← Multiset.singleton_add]
    abel
  have touched {a : Nat} (other : a ≠ address)
      (notFront : a ∉ front.addresses) (notBack : a ∉ back.addresses) :
      (heap.link (front.last 0) (back.first 0)).isolate address a =
        heap a :=
    (isolate_of_ne other).trans (link_outside notFront notBack)
  apply holds.splice found owns
  · rw [split]
    exact moved
  · intro a notChild notOther
    rw [split] at notChild
    simp only [Forest.addresses_append, Forest.addresses, List.mem_append,
      List.mem_cons, not_or] at notChild
    exact touched notChild.2.1 notChild.1 notChild.2.2.2
  · intro a
    rw [isSome_isolate, Heap.isSome_link]
  · apply (before.join behind joined).congr
    intro a member
    apply isolate_of_ne
    rintro rfl
    have away := apart a (List.mem_cons_self ..)
    rw [Forest.addresses_append, List.mem_append] at member
    exact member.elim away.1 away.2
  · intro other member
    rcases List.mem_cons.mp member with rfl | rest
    · refine ⟨Stored.isolate (alone.congr ?_) (List.nodup_cons.mp own).1,
        rfl⟩
      intro a held
      rw [Forest.addresses, Forest.addresses, List.append_nil] at held
      exact link_outside (apart a held).1 (apart a held).2
    · have kept := holds.tail other rest
      refine ⟨kept.1.congr ?_, kept.2⟩
      intro a inside
      have away := fun held => parts.2.2 a held a
        (List.mem_flatMap.mpr ⟨other, rest, inside⟩) rfl
      simp only [Forest.addresses_append, Forest.addresses, List.mem_append,
        List.mem_cons] at away
      apply touched
      · exact fun same => away (Or.inr (Or.inl same))
      · exact fun held => away (Or.inl held)
      · exact fun held => away (Or.inr (Or.inr (Or.inr held)))

/-- A tree takes the place of a child. -/
theorem Holds.replaceChild
    (holds : Holds shares heap (tree :: item :: others))
    (found : tree.dataAt wanted = some data) (owns : shares data = false)
    (split :
      tree.childrenAt wanted =
        front.append (.node address value child back))
    (stored : Stored shares heap 0 0 (tree.childrenAt wanted)) :
    Holds shares
      ((((heap.link (front.last 0) (item.first 0)).link (item.last 0)
        (back.first 0)).isolate address).setChild wanted
          ((front.append (item.append back)).first 0))
      (tree.setChildren wanted (front.append (item.append back)) ::
        .node address value child .nil :: others) := by
  have nodup := holds.nodup_children found
  rw [split] at stored nodup
  have parts := List.nodup_append.mp nodup
  rcases stored.around parts.1 with
    ⟨before, behind, alone, joined, own, apart⟩
  have single := holds.tail item (List.mem_cons_self ..)
  have nonempty : item ≠ .nil := by
    rintro rfl
    cases single.2
  have moved :
      ((front.append (item.append back)).addresses ++
          cells (.node address value child .nil :: others)).Perm
        ((front.append (.node address value child back)).addresses ++
          cells (item :: others)) := by
    simp only [cells_cons, Forest.addresses_append, Forest.addresses,
      List.append_nil, ← Multiset.coe_eq_coe, ← Multiset.coe_add,
      ← Multiset.cons_coe, ← Multiset.singleton_add]
    abel
  have total := List.nodup_append.mp (moved.nodup_iff.mpr nodup)
  have touched {a : Nat} (other : a ≠ address)
      (notFront : a ∉ front.addresses) (notItem : a ∉ item.addresses)
      (notBack : a ∉ back.addresses) :
      ((heap.link (front.last 0) (item.first 0)).link (item.last 0)
        (back.first 0)).isolate address a = heap a :=
    (isolate_of_ne other).trans
      ((link_outside notItem notBack).trans (link_outside notFront notItem))
  apply holds.splice found owns
  · rw [split]
    exact moved
  · intro a notChild notOther
    rw [split] at notChild
    rw [cells_cons, List.mem_append, not_or] at notOther
    simp only [Forest.addresses_append, Forest.addresses, List.mem_append,
      List.mem_cons, not_or] at notChild
    exact touched notChild.2.1 notChild.1 notOther.1 notChild.2.2.2
  · intro a
    rw [isSome_isolate, Heap.isSome_link, Heap.isSome_link]
  · apply (before.join_middle single.1 behind total.1 nonempty).congr
    intro a member
    apply isolate_of_ne
    rintro rfl
    refine total.2.2 a member a ?_ rfl
    rw [cells_cons]
    exact List.mem_append_left _ (List.mem_cons_self ..)
  · intro other member
    rcases List.mem_cons.mp member with rfl | rest
    · refine ⟨Stored.isolate (alone.congr ?_) (List.nodup_cons.mp own).1,
        rfl⟩
      intro a held
      have notItem : a ∉ item.addresses := by
        intro inItem
        refine total.2.2 a ?_ a ?_ rfl
        · simp only [Forest.addresses_append, List.mem_append]
          exact Or.inr (Or.inl inItem)
        · rw [cells_cons]
          exact List.mem_append_left _ held
      rw [Forest.addresses, Forest.addresses, List.append_nil] at held
      exact (link_outside notItem (apart a held).2).trans
        (link_outside (apart a held).1 notItem)
    · have kept := holds.tail other (List.mem_cons_of_mem _ rest)
      refine ⟨kept.1.congr ?_, kept.2⟩
      intro a inside
      have held : a ∈ cells others :=
        List.mem_flatMap.mpr ⟨other, rest, inside⟩
      have away := fun inner => total.2.2 a inner a
        (cells_cons ▸ List.mem_append_right _ held) rfl
      simp only [Forest.addresses_append, List.mem_append] at away
      apply touched
      · rintro rfl
        refine parts.2.2 a ?_ a ?_ rfl
        · rw [Forest.addresses_append]
          exact List.mem_append_right _ (List.mem_cons_self ..)
        · rw [cells_cons]
          exact List.mem_append_right _ held
      · exact fun inner => away (Or.inl inner)
      · exact fun inner => away (Or.inr (Or.inl inner))
      · exact fun inner => away (Or.inr (Or.inr inner))

end Middle

end Splices

end Holds

end CommonCode.Lib.Siblings
