import CommonCode.Json.Linked

/-!
# The trees of cJSON keep their shape

Every function that builds or changes a tree of items leaves a heap that holds
exactly the trees that its effect on lists of children says: no item is lost,
shared, freed twice or read after it is freed.  An item that is detached has to
be the first one of its array, and an item that is deleted from an array the
first or the last one; the pointers of other items are not cleared.
-/

namespace CommonCode.Json.Linked

open CommonCode.Lib.Bits
open CommonCode.Lib.Siblings

variable {Double : Type}

/-! ## Accesses to items that are there -/

section Accesses

variable {items : Items Double} {address : Nat}

theorem writeNext_eq (held : (items address).isSome) (next : Nat) :
    writeNext items address next = some (items.setNext address next) := by
  rcases Option.isSome_iff_exists.mp held with ⟨cell, here⟩
  rw [writeNext, here]
  rfl

theorem writePrev_eq (held : (items address).isSome) (prev : Nat) :
    writePrev items address prev = some (items.setPrev address prev) := by
  rcases Option.isSome_iff_exists.mp held with ⟨cell, here⟩
  rw [writePrev, here]
  rfl

theorem writeChild_eq (held : (items address).isSome) (child : Nat) :
    writeChild items address child = some (items.setChild address child) := by
  rcases Option.isSome_iff_exists.mp held with ⟨cell, here⟩
  rw [writeChild, here]
  rfl

end Accesses

/-- With enough turns a call returns, and the heap then holds the trees. -/
def Leads (run : Nat → Option (Items Double))
    (roots : List (Forest (Item Double))) : Prop :=
  ∃ items, (∃ bound, ∀ fuel, bound ≤ fuel → run fuel = some items) ∧
    Holds Item.isReference items roots

/-- A whole tree is freed. -/
theorem delete_root {items : Items Double} {tree : Forest (Item Double)}
    {others : List (Forest (Item Double))}
    (holds : Holds Item.isReference items (tree :: others)) {fuel : Nat}
    (enough : tree.addresses.length < fuel) :
    cJsonDelete fuel items (tree.first 0) =
      some (items.erase tree.addresses) := by
  have separate := holds.separate
  rw [cells_cons, List.nodup_append] at separate
  exact cJsonDelete_eq (holds.stored tree (List.mem_cons_self ..)).1
    separate.1 enough

/-! ## The functions for arrays -/

section Arrays

variable {items : Items Double} {others : List (Forest (Item Double))}
variable {owner tree : Forest (Item Double)} {array item : Nat}
variable {data : Item Double}

/-- A node, a child of it and the root of another tree are apart. -/
theorem apart_of_holds
    (holds : Holds Item.isReference items (owner :: tree :: others))
    (found : owner.dataAt array = some data) {child : Nat}
    (below : child ∈ (owner.childrenAt array).addresses)
    (root : item ∈ tree.addresses) :
    array ≠ child ∧ array ≠ item ∧ child ≠ item := by
  have family := holds.nodup_family found
  rw [List.nodup_cons, List.mem_append, not_or, cells_cons] at family
  have inner : item ∈ tree.addresses ++ cells others :=
    List.mem_append_left _ root
  refine ⟨?_, ?_, ?_⟩
  · rintro rfl
    exact family.1.1 below
  · rintro rfl
    exact family.1.2 inner
  · exact (List.nodup_append.mp family.2).2.2 child below item inner

/-- The writes that put an item behind the last child. -/
theorem append_writes
    (holds : Holds Item.isReference items (owner :: tree :: others))
    (found : owner.dataAt array = some data)
    (owns : data.isReference = false) (root : tree.first 0 = item) :
    ∃ after,
      (if (owner.childrenAt array).first 0 = 0 then
          writeChild items array item
        else suffixObject items ((owner.childrenAt array).last 0) item) =
        some after ∧
      Holds Item.isReference after
        (owner.setChildren array ((owner.childrenAt array).append tree) ::
          others) := by
  have top := holds.stored owner (List.mem_cons_self ..)
  have alone := holds.tail tree (List.mem_cons_self ..)
  rcases exists_node_of_length alone.2 with ⟨address, value, below, rfl⟩
  rw [Forest.first] at root
  subst root
  rcases alone.1 with ⟨nonzero, ⟨pointer, itemCell, -⟩, -, -⟩
  rw [Forest.first_nil] at itemCell
  rcases top.1.childrenAt found owns with ⟨cell, arrayCell, first, -, stored⟩
  have canonical := holds.insertChild found owns
    (Forest.append_nil (owner.childrenAt array)).symm stored
  rw [Forest.append_nil, Forest.first_append] at canonical
  refine ⟨_, ?_, canonical⟩
  by_cases childless : owner.childrenAt array = .nil
  · have prev : items.setPrev address 0 = items :=
      Heap.setPrev_eq_self _ itemCell rfl
    have next : items.setNext address 0 = items :=
      Heap.setNext_eq_self _ itemCell rfl
    have same : (items.link 0 address).link address 0 = items := by
      rw [Heap.link_null_right _ nonzero, Heap.link_null_left _ nonzero, prev,
        next]
    rw [childless, if_pos (Forest.first_nil 0),
      writeChild_eq (by rw [arrayCell]; rfl)]
    exact congrArg some (congrArg (Heap.setChild · array address) same.symm)
  · have member := Forest.last_mem childless 0
    have nonnull := stored.ne_zero member
    rcases apart_of_holds holds found member 
      (List.mem_cons_self ..) with ⟨notChild, notItem, other⟩
    have kept : (items.link ((owner.childrenAt array).last 0) address) array =
        some cell := by
      rw [Heap.link_of_ne _ (fun _ => notChild) (fun _ => notItem), arrayCell]
    have next :
        (items.link ((owner.childrenAt array).last 0) address).setNext
          address 0 = items.link ((owner.childrenAt array).last 0) address :=
      Heap.setNext_eq_self _
        (items.link_right (Ne.symm other) nonzero itemCell) rfl
    have same :
        ((items.link ((owner.childrenAt array).last 0) address).link address
          0).setChild array ((owner.childrenAt array).first address) =
          items.link ((owner.childrenAt array).last 0) address := by
      rw [Heap.link_null_right _ nonzero, next, Heap.setChild_eq_self _ kept]
      rw [first, Forest.first_of_ne_nil childless]
    rw [if_neg (stored.first_eq_zero_iff.not.mpr childless), suffixObject,
      writeNext_eq (stored.isSome member)]
    dsimp only [Option.bind_eq_bind, Option.bind_some]
    rw [writePrev_eq]
    · exact congrArg some
        ((Heap.link_eq _ nonnull nonzero).symm.trans same.symm)
    · rw [Heap.setNext, Heap.isSome_modify, itemCell]
      rfl

theorem leads_addItemToArray
    (holds : Holds Item.isReference items (owner :: tree :: others))
    (found : owner.dataAt array = some data)
    (owns : data.isReference = false) (root : tree.first 0 = item) :
    Leads (fun fuel => cJsonAddItemToArray fuel items array item)
      (owner.setChildren array ((owner.childrenAt array).append tree) ::
        others) := by
  have top := holds.stored owner (List.mem_cons_self ..)
  rcases top.1.childrenAt found owns with ⟨cell, arrayCell, first, -, stored⟩
  have nonzero : item ≠ 0 :=
    root ▸ holds.first_ne_zero (List.mem_cons_of_mem _ (List.mem_cons_self ..))
  rcases append_writes holds found owns root with ⟨after, written, kept⟩
  refine ⟨after, ⟨(owner.childrenAt array).length, fun fuel enough => ?_⟩,
    kept⟩
  change cJsonAddItemToArray fuel items array item = _
  rw [cJsonAddItemToArray, arrayCell]
  dsimp only [Option.bind_eq_bind, Option.bind_some]
  rw [if_neg nonzero, first, ← written]
  split_ifs with null
  · rfl
  · rw [lastSibling_eq stored (stored.first_eq_zero_iff.not.mp null) enough]
    rfl

/-- The cell of the first tree of a forest. -/
theorem exists_first {forest : Forest (Item Double)} {prev close : Nat}
    (stored : Stored Item.isReference items prev close forest)
    (nonempty : forest ≠ .nil) :
    ∃ next pointer value,
      items (forest.first 0) = some ⟨next, prev, pointer, value⟩ := by
  cases forest with
  | nil => exact absurd rfl nonempty
  | node address data child next =>
      rcases stored with ⟨-, ⟨pointer, cell, -⟩, -, -⟩
      exact ⟨_, pointer, data, cell⟩

/-- A node is the first child exactly if there are none before it. -/
theorem first_eq_iff {front back : Forest (Item Double)}
    (nodup : (front.append back).addresses.Nodup) (nonempty : back ≠ .nil) :
    back.first 0 = (front.append back).first 0 ↔ front = .nil := by
  rw [Forest.addresses_append, List.nodup_append] at nodup
  constructor
  · intro same
    by_contra before
    rw [Forest.first_append, Forest.first_of_ne_nil before _ 0] at same
    exact nodup.2.2 _ (Forest.first_mem before 0) _
      (Forest.first_mem nonempty 0) same.symm
  · rintro rfl
    rfl

/-- The writes of `cJSON_InsertItemInArray` before an item that is there. -/
theorem insert_before {front back : Forest (Item Double)}
    (holds : Holds Item.isReference items (owner :: tree :: others))
    (found : owner.dataAt array = some data)
    (owns : data.isReference = false) (root : tree.first 0 = item)
    (split : owner.childrenAt array = front.append back)
    (nonempty : back ≠ .nil) {which : Int}
    (place : (owner.childrenAt array).drop which.toNat = back) (fuel : Nat) :
    cJsonInsertItemInArray fuel items array which item =
      some (((items.link (front.last 0) item).link item
        (back.first 0)).setChild array (front.first item)) := by
  have top := holds.stored owner (List.mem_cons_self ..)
  have alone := holds.tail tree (List.mem_cons_self ..)
  rcases exists_node_of_length alone.2 with ⟨address, value, below, rfl⟩
  rw [Forest.first_node] at root
  subst root
  rcases alone.1 with ⟨nonzero, ⟨pointer, itemCell, -⟩, -, -⟩
  rcases top.1.childrenAt found owns with ⟨cell, arrayCell, first, -, stored⟩
  have walked := siblingAt_eq stored which.toNat
  have nodup := holds.nodup_children found
  rw [split] at stored nodup
  have inBack := Forest.first_mem nonempty 0
  have inside : back.first 0 ∈ (owner.childrenAt array).addresses := by
    rw [split, Forest.addresses_append]
    exact List.mem_append_right _ inBack
  rcases apart_of_holds holds found inside
    (List.mem_cons_self ..) with ⟨notBack, notItem, other⟩
  have parts := stored_append.mp stored
  have exact := first_eq_iff (List.nodup_append.mp nodup).1 nonempty
  have nonnull := parts.2.ne_zero inBack
  rcases exists_first parts.2 nonempty with ⟨next, child, inner, backCell⟩
  have held : (items address).isSome := by
    rw [itemCell]
    rfl
  have next₁ := items.setNext_self (back.first 0) itemCell
  rw [cJsonInsertItemInArray, arrayCell]
  dsimp only [Option.bind_eq_bind, Option.bind_some]
  rw [first, walked, place, Option.bind_some, if_neg nonnull,
    writeNext_eq held, Option.bind_some, Heap.setNext_of_ne _ _ other,
    backCell, Option.bind_some, writePrev_eq (by simpa using held),
    Option.bind_some,
    writePrev_eq (by simp [backCell]), Option.bind_some,
    Heap.setPrev_of_ne _ _ notBack, Heap.setPrev_of_ne _ _ notItem,
    Heap.setNext_of_ne _ _ notItem, arrayCell, Option.bind_some, first, split]
  by_cases before : front = .nil
  · rw [if_pos (exact.mpr before), writeChild_eq (by simp [arrayCell])]
    subst before
    rw [Forest.first_nil, Forest.last_nil, Heap.link_null_left _ nonzero,
      Heap.link_eq _ nonzero nonnull, Heap.setNext_setPrev]
  · have inFront := Forest.last_mem before 0
    have leftNull := parts.1.ne_zero inFront
    rcases apart_of_holds holds found
      (show front.last 0 ∈ (owner.childrenAt array).addresses by
        rw [split, Forest.addresses_append]
        exact List.mem_append_left _ inFront)
      (List.mem_cons_self ..) with ⟨notFront, -, leftOther⟩
    have kept :
        (items.link (front.last 0) address).link address (back.first 0)
          array = some cell := by
      rw [Heap.link_of_ne _ (fun _ => notItem) (fun _ => notBack),
        Heap.link_of_ne _ (fun _ => notFront) (fun _ => notItem), arrayCell]
    have same : cell.child = front.first address := by
      rw [first, split, Forest.first_append,
        Forest.first_of_ne_nil before _ address]
    rw [if_neg (exact.not.mpr before),
      Heap.setPrev_of_ne _ _ (Ne.symm other), Heap.setPrev_self _ _ next₁,
      Option.bind_some,
      writeNext_eq (by simpa using parts.1.isSome inFront),
      Heap.setChild_eq_self _ kept same, Heap.link_eq _ nonzero nonnull,
      Heap.link_eq _ leftNull nonzero]
    simp only [Heap.setNext_setPrev]
    rw [Heap.setNext_comm _ leftOther]

/-- The item becomes the item at the position, or the last one. -/
theorem leads_insertItemInArray
    (holds : Holds Item.isReference items (owner :: tree :: others))
    (found : owner.dataAt array = some data)
    (owns : data.isReference = false) (root : tree.first 0 = item)
    (which : Int) :
    Leads (fun fuel => cJsonInsertItemInArray fuel items array which item)
      (owner.setChildren array
        (((owner.childrenAt array).take which.toNat).append
          (tree.append ((owner.childrenAt array).drop which.toNat))) ::
        others) := by
  have top := holds.stored owner (List.mem_cons_self ..)
  rcases top.1.childrenAt found owns with ⟨cell, arrayCell, first, -, stored⟩
  have split := (owner.childrenAt array).take_append_drop which.toNat
  by_cases behind : (owner.childrenAt array).drop which.toNat = .nil
  · have appended := leads_addItemToArray holds found owns root
    rw [behind, Forest.append_nil] at split
    rw [behind, Forest.append_nil, split]
    have same (fuel : Nat) :
        cJsonInsertItemInArray fuel items array which item =
          cJsonAddItemToArray fuel items array item := by
      rw [cJsonInsertItemInArray, arrayCell]
      dsimp only [Option.bind_eq_bind, Option.bind_some]
      rw [first, siblingAt_eq stored, behind, Option.bind_some]
      exact if_pos rfl
    simpa only [same] using appended
  · have canonical := holds.insertChild found owns split.symm stored
    refine ⟨_, ⟨0, fun fuel _ => ?_⟩, canonical⟩
    have written := insert_before holds found owns root split.symm behind rfl
      fuel
    have alone := holds.tail tree (List.mem_cons_self ..)
    rcases exists_node_of_length alone.2 with ⟨address, value, below, rfl⟩
    rw [Forest.first_node] at root
    subst root
    rw [Forest.first_append]
    exact written

section Taken

variable {front back below : Forest (Item Double)} {address : Nat}
variable {value : Item Double} {which : Int}

/-- The cell of an item between others. -/
theorem exists_cell
    (stored :
      Stored Item.isReference items 0 0
        (front.append (.node address value below back))) :
    address ≠ 0 ∧
      ∃ pointer,
        items address = some ⟨back.first 0, front.last 0, pointer, value⟩ := by
  rcases (stored_append.mp stored).2 with ⟨nonzero, ⟨pointer, cell, -⟩, -, -⟩
  exact ⟨nonzero, pointer, cell⟩

/-- The two writes that leave an item out make its neighbours neighbours. -/
theorem link_writes {left right : Nat} {cell : Cell (Item Double)}
    (here : items address = some cell) (prev : cell.prev = left)
    (next : cell.next = right) (apart : address ≠ left)
    (before : left ≠ 0 → (items left).isSome)
    (behind : right ≠ 0 → (items right).isSome)
    {Result : Type} (rest : Items Double → Option Result) :
    ((if cell.prev = 0 then some items
      else writeNext items cell.prev cell.next).bind fun items =>
        (items address).bind fun cell =>
          (if cell.next = 0 then some items
            else writePrev items cell.next cell.prev).bind rest) =
      rest (items.link left right) := by
  rw [prev, next, Heap.link]
  by_cases leftNull : left = 0
  · rw [if_pos leftNull, if_pos leftNull, Option.bind_some, here,
      Option.bind_some, prev, next]
    by_cases rightNull : right = 0
    · rw [if_pos rightNull, if_pos rightNull, Option.bind_some]
    · rw [if_neg rightNull, if_neg rightNull,
        writePrev_eq (behind rightNull), Option.bind_some]
  · rw [if_neg leftNull, if_neg leftNull, writeNext_eq (before leftNull),
      Option.bind_some, Heap.setNext_of_ne _ _ apart, here, Option.bind_some,
      prev, next]
    by_cases rightNull : right = 0
    · rw [if_pos rightNull, if_pos rightNull, Option.bind_some]
    · rw [if_neg rightNull, if_neg rightNull,
        writePrev_eq (by simpa using behind rightNull), Option.bind_some]

theorem detach_eq
    (holds : Holds Item.isReference items (owner :: others))
    (found : owner.dataAt array = some data)
    (owns : data.isReference = false)
    (split :
      owner.childrenAt array = front.append (.node address value below back))
    (place :
      (owner.childrenAt array).drop which.toNat =
        .node address value below back) :
    cJsonDetachItemFromArray items array which =
      some (address,
        if address = (owner.childrenAt array).first 0 then
          ((items.link (front.last 0) (back.first 0)).isolate
            address).setChild array (back.first 0)
        else items.link (front.last 0) (back.first 0)) := by
  have top := holds.stored owner (List.mem_cons_self ..)
  rcases top.1.childrenAt found owns with ⟨cell, arrayCell, first, -, stored⟩
  have walked := siblingAt_eq stored which.toNat
  have family := holds.nodup_family found
  rw [List.nodup_cons, List.mem_append, not_or, List.nodup_append] at family
  rw [split] at stored family
  rcases exists_cell stored with ⟨nonzero, pointer, here⟩
  rcases stored.around family.2.1 with ⟨before, behind, -, -, -, apart⟩
  have away := apart address (List.mem_cons_self ..)
  have notArray := family.1.1
  rw [Forest.addresses_append, List.mem_append, not_or, Forest.addresses,
    List.mem_cons, not_or, List.mem_append, not_or] at notArray
  have ends {forest : Forest (Item Double)} {prev close : Nat}
      (held : Stored Item.isReference items prev close forest)
      {wanted : Nat} (member : wanted ≠ 0 → wanted ∈ forest.addresses) :
      wanted ≠ 0 → (items wanted).isSome := fun nonnull =>
    held.isSome (member nonnull)
  have inFront : front.last 0 ≠ 0 → front.last 0 ∈ front.addresses := by
    intro nonnull
    apply Forest.last_mem
    rintro rfl
    exact nonnull rfl
  have inBack : back.first 0 ≠ 0 → back.first 0 ∈ back.addresses := by
    intro nonnull
    apply Forest.first_mem
    rintro rfl
    exact nonnull rfl
  have notLeft : address ≠ front.last 0 := by
    intro same
    exact away.1 (same ▸ inFront (same ▸ nonzero))
  have untouched {other : Nat} (notFront : other ∉ front.addresses)
      (notBack : other ∉ back.addresses) :
      items.link (front.last 0) (back.first 0) other = items other :=
    link_outside notFront notBack
  rw [cJsonDetachItemFromArray, arrayCell]
  dsimp only [Option.bind_eq_bind, Option.bind_some]
  rw [first, walked, place, Option.bind_some, Forest.first_node,
    if_neg nonzero, here, Option.bind_some,
    link_writes here rfl rfl notLeft (ends before inFront)
      (ends behind inBack),
    untouched notArray.1 notArray.2.2.2, arrayCell, Option.bind_some,
    untouched away.1 away.2, here, Option.bind_some, first]
  split_ifs
  · rw [writeChild_eq (by rw [Heap.isSome_link, arrayCell]; rfl),
      Option.bind_some, writeNext_eq, Option.bind_some, writePrev_eq,
      Option.bind_some, Heap.setNext_setChild, Heap.setPrev_setChild,
      Heap.isolate]
    · rw [Heap.isSome_setNext, Heap.isSome_setChild, Heap.isSome_link, here]
      rfl
    · rw [Heap.isSome_setChild, Heap.isSome_link, here]
      rfl
  · rfl

end Taken

/-- The first tree of a forest alone, if there is one. -/
def firstTree : Forest (Item Double) → List (Forest (Item Double))
  | .nil => []
  | .node address value below _ => [.node address value below .nil]

/-- The children without the one at a position. -/
def dropAt (forest : Forest (Item Double)) (which : Nat) :
    Forest (Item Double) :=
  (forest.take which).append (forest.drop (which + 1))

/-- The children and the pointers at a position that is not taken. -/
theorem dropAt_of_le {forest : Forest (Item Double)} {which : Nat}
    (beyond : forest.drop which = .nil) :
    dropAt forest which = forest := by
  have split := forest.take_append_drop which
  rw [beyond, Forest.append_nil] at split
  have further : forest.drop (which + 1) = .nil := by
    rw [Forest.drop_eq_nil_iff] at beyond ⊢
    omega
  rw [dropAt, further, Forest.append_nil, split]

/-- The first item becomes a tree of its own. -/
theorem holds_detach
    (holds : Holds Item.isReference items (owner :: others))
    (found : owner.dataAt array = some data)
    (owns : data.isReference = false) {which : Int}
    (clean :
      which.toNat = 0 ∨ (owner.childrenAt array).drop which.toNat = .nil) :
    ∃ after,
      cJsonDetachItemFromArray items array which =
        some (((owner.childrenAt array).drop which.toNat).first 0, after) ∧
      Holds Item.isReference after
        (owner.setChildren array
            (dropAt (owner.childrenAt array) which.toNat) ::
          (firstTree ((owner.childrenAt array).drop which.toNat) ++
            others)) := by
  have top := holds.stored owner (List.mem_cons_self ..)
  rcases top.1.childrenAt found owns with ⟨cell, arrayCell, first, -, stored⟩
  have whole := holds.separate
  rw [cells_cons, List.nodup_append] at whole
  cases place : (owner.childrenAt array).drop which.toNat with
  | nil =>
      rw [dropAt_of_le place, Forest.setChildren_childrenAt whole.1]
      refine ⟨items, ?_, holds⟩
      rw [cJsonDetachItemFromArray, arrayCell]
      dsimp only [Option.bind_eq_bind, Option.bind_some]
      rw [first, siblingAt_eq stored, place, Option.bind_some]
      exact if_pos rfl
  | node address value below back =>
      have zero : which.toNat = 0 := clean.resolve_right (by simp [place])
      rw [dropAt, Forest.drop_succ place, zero, Forest.take, Forest.append]
      have split : owner.childrenAt array =
          Forest.nil.append (.node address value below back) := by
        rw [← place, zero]
        rfl
      refine ⟨_, detach_eq holds found owns split place, ?_⟩
      rw [if_pos (by rw [split]; rfl)]
      exact holds.removeChild found owns split stored

/-- An item is freed if it is the first or the last one. -/
theorem leads_deleteItemFromArray
    (holds : Holds Item.isReference items (owner :: others))
    (found : owner.dataAt array = some data)
    (owns : data.isReference = false) {which : Int}
    (clean :
      which.toNat = 0 ∨
        (owner.childrenAt array).drop (which.toNat + 1) = .nil) :
    Leads (fun fuel => cJsonDeleteItemFromArray fuel items array which)
      (owner.setChildren array
          (dropAt (owner.childrenAt array) which.toNat) :: others) := by
  have top := holds.stored owner (List.mem_cons_self ..)
  rcases top.1.childrenAt found owns with ⟨cell, arrayCell, first, -, stored⟩
  cases place : (owner.childrenAt array).drop which.toNat with
  | nil =>
      rcases holds_detach holds found owns (Or.inr place) with
        ⟨after, detached, kept⟩
      rw [place] at detached kept
      refine ⟨after, ⟨1, fun fuel enough => ?_⟩, kept⟩
      change cJsonDeleteItemFromArray fuel items array which = _
      rw [cJsonDeleteItemFromArray, detached]
      cases fuel with
      | zero => cases enough
      | succ fuel => rfl
  | node address value below back =>
      have split := (owner.childrenAt array).take_append_drop which.toNat
      rw [place] at split
      rw [Forest.drop_succ place] at clean
      rw [dropAt, Forest.drop_succ place]
      generalize front_eq : (owner.childrenAt array).take which.toNat = front
        at split ⊢
      have detached := detach_eq holds found owns split.symm place
      have family := holds.nodup_family found
      have canonical :=
        (holds.removeChild found owns split.symm stored).eraseSecond
      rw [List.nodup_cons, List.mem_append, not_or, List.nodup_append,
        ← split] at family
      rw [← split] at stored detached
      rcases stored.around family.2.1 with ⟨-, -, alone, -, own, apart⟩
      have nodup :
          (Forest.node address value below .nil).addresses.Nodup := by
        rw [Forest.addresses, Forest.addresses, List.append_nil]
        exact own
      have kept : Stored Item.isReference
          (items.link (front.last 0) (back.first 0)) (front.last 0)
          (back.first 0) (.node address value below .nil) := by
        apply alone.congr
        intro other member
        rw [Forest.addresses, Forest.addresses, List.append_nil] at member
        exact link_outside (apart other member).1 (apart other member).2
      refine ⟨_, ⟨(Forest.node address value below .nil).addresses.length + 1,
        fun fuel enough => ?_⟩, canonical⟩
      change cJsonDeleteItemFromArray fuel items array which = _
      rw [cJsonDeleteItemFromArray, detached]
      dsimp only [Option.bind_eq_bind, Option.bind_some]
      have isFirst := first_eq_iff family.2.1 (by simp)
      rw [Forest.first_node] at isFirst
      by_cases before : front = .nil
      · rw [if_pos (isFirst.mpr before)]
        subst before
        have held := (holds.removeChild found owns split.symm
          (split ▸ stored)).tail _ (List.mem_cons_self ..)
        exact cJsonDelete_eq held.1 nodup enough
      · have last : back = .nil := by
          refine clean.resolve_left fun zero => before ?_
          rw [← front_eq, zero]
          rfl
        subst last
        rw [if_neg (isFirst.not.mpr before)]
        refine (cJsonDelete_eq kept nodup enough).trans (congrArg some ?_)
        have notArray := family.1.1
        rw [Forest.addresses_append, List.mem_append, not_or,
          Forest.addresses, List.mem_cons, not_or, List.mem_append,
          not_or] at notArray
        rw [Forest.first_nil, Forest.append_nil]
        have unmoved :
            (items.link (front.last 0) 0).isolate address array =
              some cell := by
          rw [isolate_of_ne notArray.2.1, ← arrayCell]
          exact link_outside notArray.1 notArray.2.2.2
        have same :
            ((items.link (front.last 0) 0).isolate address).setChild array
              (front.first 0) = (items.link (front.last 0) 0).isolate
                address := by
          apply Heap.setChild_eq_self _ unmoved
          rw [first, ← split, Forest.first_append]
          exact Forest.first_of_ne_nil before ..
        rw [same]
        exact (erase_isolate (List.mem_cons_self ..)).symm

/-- The writes of `cJSON_ReplaceItemInArray` at an item that is there. -/
theorem replace_writes {front back below : Forest (Item Double)}
    {address : Nat} {value : Item Double} {which : Int}
    (holds : Holds Item.isReference items (owner :: tree :: others))
    (found : owner.dataAt array = some data)
    (owns : data.isReference = false) (root : tree.first 0 = item)
    (split :
      owner.childrenAt array = front.append (.node address value below back))
    (place :
      (owner.childrenAt array).drop which.toNat =
        .node address value below back) (fuel : Nat) :
    cJsonReplaceItemInArray fuel items array which item =
      cJsonDelete fuel
        ((((items.link (front.last 0) item).link item (back.first 0)).isolate
          address).setChild array (front.first item)) address := by
  have top := holds.stored owner (List.mem_cons_self ..)
  have alone := holds.tail tree (List.mem_cons_self ..)
  rcases exists_node_of_length alone.2 with ⟨fresh, new, inner, rfl⟩
  rw [Forest.first_node] at root
  subst root
  rcases alone.1 with ⟨nonzero, ⟨pointer, itemCell, -⟩, -, -⟩
  rcases top.1.childrenAt found owns with ⟨cell, arrayCell, first, -, stored⟩
  have walked := siblingAt_eq stored which.toNat
  have nodup := (List.nodup_append.mp (holds.nodup_children found)).1
  have apart {child : Nat} (member : child ∈ (owner.childrenAt array).addresses)
      : array ≠ child ∧ array ≠ fresh ∧ child ≠ fresh :=
    apart_of_holds holds found member (List.mem_cons_self ..)
  rw [split] at stored nodup apart
  rcases exists_cell stored with ⟨addressNonzero, child, here⟩
  rcases stored.around nodup with ⟨before, behind, -, -, -, away⟩
  rw [Forest.addresses_append] at apart
  have inner {other : Nat} (member : other ∈ back.addresses) :
      array ≠ other ∧ array ≠ fresh ∧ other ≠ fresh :=
    apart (List.mem_append_right _
      (List.mem_cons_of_mem _ (List.mem_append_right _ member)))
  rcases apart (List.mem_append_right _ (List.mem_cons_self ..)) with
    ⟨notAddress, notFresh, other⟩
  have inBack : back.first 0 ≠ 0 → back.first 0 ∈ back.addresses := by
    intro nonnull
    apply Forest.first_mem
    rintro rfl
    exact nonnull rfl
  have rightFresh : fresh ≠ back.first 0 := by
    intro same
    exact (inner (inBack (same ▸ nonzero))).2.2 same.symm
  have held : (items fresh).isSome := by
    rw [itemCell]
    rfl
  have next₁ := items.setNext_self (back.first 0) itemCell
  have third :
      (if back.first 0 = 0 then
          some ((items.setNext fresh (back.first 0)).setPrev fresh
            (front.last 0))
        else
          writePrev ((items.setNext fresh (back.first 0)).setPrev fresh
            (front.last 0)) (back.first 0) fresh) =
        some ((items.setPrev fresh (front.last 0)).link fresh
          (back.first 0)) := by
    rw [Heap.link, if_neg nonzero, Heap.setNext_setPrev]
    by_cases null : back.first 0 = 0
    · rw [if_pos null, if_pos null]
    · rw [if_neg null, if_neg null, writePrev_eq]
      rw [Heap.isSome_setPrev, Heap.isSome_setNext]
      exact behind.isSome (inBack null)
  have owned :
      (items.setPrev fresh (front.last 0)).link fresh (back.first 0) array =
        some cell := by
    rw [Heap.link_of_ne _ (fun _ => notFresh)
        (fun null => (inner (inBack null)).1),
      Heap.setPrev_of_ne _ _ notFresh, arrayCell]
  have placed :=
    (items.setPrev fresh (front.last 0)).link_left rightFresh nonzero
      (items.setPrev_self (front.last 0) itemCell)
  have isFirst := first_eq_iff nodup (by simp)
  rw [Forest.first_node] at isFirst
  rw [cJsonReplaceItemInArray, arrayCell]
  dsimp only [Option.bind_eq_bind, Option.bind_some]
  rw [first, walked, place, Option.bind_some, Forest.first_node,
    if_neg addressNonzero, here, Option.bind_some, writeNext_eq held,
    Option.bind_some, Heap.setNext_of_ne _ _ other, here, Option.bind_some,
    writePrev_eq (by simpa using held), Option.bind_some,
    Heap.setPrev_self _ _ next₁, Option.bind_some]
  dsimp only
  rw [third, Option.bind_some, owned, Option.bind_some, placed,
    Option.bind_some, first, split]
  dsimp only
  have still :
      ((items.setPrev fresh (front.last 0)).link fresh (back.first 0)
        address).isSome := by
    rw [Heap.isSome_link, Heap.isSome_setPrev, here]
    rfl
  by_cases none : front = .nil
  · subst none
    rw [if_pos (isFirst.mpr rfl), writeChild_eq (by rw [owned]; rfl),
      Option.bind_some, writePrev_eq (by simpa using still),
      Option.bind_some, writeNext_eq (by simpa using still),
      Option.bind_some, Forest.last_nil, Forest.first_nil,
      Heap.link_null_left _ nonzero, Heap.isolate, Heap.setNext_setPrev,
      Heap.setNext_setChild, Heap.setPrev_setChild]
  · have inFront := Forest.last_mem none 0
    have leftNonzero := before.ne_zero inFront
    rcases apart (List.mem_append_left _ inFront) with
      ⟨notLeft, -, leftFresh⟩
    have relinked :
        ((items.setPrev fresh (front.last 0)).link fresh
          (back.first 0)).setNext (front.last 0) fresh =
          (items.link (front.last 0) fresh).link fresh (back.first 0) := by
      rw [Heap.setNext_link _ leftFresh, Heap.setNext_setPrev,
        Heap.link_eq _ leftNonzero nonzero]
    have unmoved :
        ((items.link (front.last 0) fresh).link fresh
          (back.first 0)).isolate address array = some cell := by
      rw [isolate_of_ne notAddress, ← relinked,
        Heap.setNext_of_ne _ _ notLeft, owned]
    have same : cell.child = front.first fresh := by
      rw [first, split, Forest.first_append]
      exact Forest.first_of_ne_nil none ..
    rw [if_neg (isFirst.not.mpr none), writeNext_eq, Option.bind_some,
      relinked, writePrev_eq, Option.bind_some, writeNext_eq,
      Option.bind_some, Heap.setNext_setPrev, ← Heap.isolate,
      Heap.setChild_eq_self _ unmoved same]
    · rw [Heap.isSome_setPrev, Heap.isSome_link, Heap.isSome_link, here]
      rfl
    · rw [Heap.isSome_link, Heap.isSome_link, here]
      rfl
    · rw [Heap.isSome_link, Heap.isSome_setPrev]
      exact before.isSome inFront

/-- The item takes the place of the one at a position, which is freed. -/
theorem leads_replaceItemInArray
    (holds : Holds Item.isReference items (owner :: tree :: others))
    (found : owner.dataAt array = some data)
    (owns : data.isReference = false) (root : tree.first 0 = item)
    {which : Int}
    (inside : (owner.childrenAt array).drop which.toNat ≠ .nil) :
    Leads (fun fuel => cJsonReplaceItemInArray fuel items array which item)
      (owner.setChildren array
        (((owner.childrenAt array).take which.toNat).append
          (tree.append
            ((owner.childrenAt array).drop (which.toNat + 1)))) ::
        others) := by
  have top := holds.stored owner (List.mem_cons_self ..)
  rcases top.1.childrenAt found owns with ⟨cell, arrayCell, first, -, stored⟩
  cases place : (owner.childrenAt array).drop which.toNat with
  | nil => exact absurd place inside
  | node address value below back =>
      have split := (owner.childrenAt array).take_append_drop which.toNat
      rw [place] at split
      have writes (fuel : Nat) :=
        replace_writes holds found owns root split.symm place fuel
      have alone := holds.tail tree (List.mem_cons_self ..)
      rcases exists_node_of_length alone.2 with ⟨fresh, new, inner, rfl⟩
      rw [Forest.first_node] at root
      subst root
      have canonical := holds.replaceChild found owns split.symm stored
      rw [Forest.first_append] at canonical
      have held := canonical.tail _ (List.mem_cons_self ..)
      have nodup := (canonical.perm (List.Perm.swap ..)).separate
      rw [cells_cons, List.nodup_append] at nodup
      rw [Forest.drop_succ place]
      refine ⟨_, ⟨(Forest.node address value below .nil).addresses.length + 1,
        fun fuel enough => ?_⟩, canonical.eraseSecond⟩
      exact (writes fuel).trans (cJsonDelete_eq held.1 nodup.1 enough)

end Arrays

end CommonCode.Json.Linked
