import CommonCode.Json.Ownership

/-!
# Duplicates of items

`cJSON_Duplicate` copies an item with its strings and its children.  The
duplicate is a tree of its own, in the order in which `malloc` has given the
items, and nothing else is touched; if `malloc` fails in between, for an item or
for a string, the part that has been copied is freed, and the heap is as before.
-/

namespace CommonCode.Json.Linked

open CommonCode.Lib.CString
open CommonCode.Lib.Siblings

variable {Double : Type}

/-! ## The function -/

/-- The fields that a duplicate gets; the strings are copied. -/
def Item.duplicate (item : Item Double) : Item Double :=
  { item with
    type := item.type &&& ~~~cJsonIsReference
    string := item.string.map fun name => .copied name.text }

/-- `cJSON_strdup` of a string that is there; a failure frees the new item. -/
def duplicateString {String : Type} (fuel : Nat) (items : Items Double)
    (supply : List Nat) (newitem : Nat) (string : Option String)
    (next : List Nat → Option (Nat × Items Double × List Nat)) :
    Option (Nat × Items Double × List Nat) :=
  match string with
  | none => next supply
  | some _ =>
      if supply.headD 0 = 0 then do
        let items ← cJsonDelete fuel items newitem
        some (0, items, supply.tail)
      else next supply.tail

mutual

/-- `cJSON_Duplicate`, with the pointers that `malloc` returns. -/
def cJsonDuplicate : Nat → Items Double → List Nat → Nat → Bool →
    Option (Nat × Items Double × List Nat)
  | 0, _, _, _, _ => none
  | fuel + 1, items, supply, item, recurse =>
      if item = 0 then some (0, items, supply)
      else if supply.headD 0 = 0 then some (0, items, supply.tail)
      else do
        let cell ← items item
        let (newitem, items) :=
          cJsonNewItem items cell.data.duplicate (supply.headD 0)
        duplicateString fuel items supply.tail newitem cell.data.valuestring
          fun supply =>
            duplicateString fuel items supply newitem cell.data.string
              fun supply =>
                if !recurse then some (newitem, items, supply)
                else do
                  let cell ← items item
                  duplicateChildren fuel items supply newitem 0 cell.child

/-- The loop along the children. -/
def duplicateChildren : Nat → Items Double → List Nat → Nat → Nat → Nat →
    Option (Nat × Items Double × List Nat)
  | 0, _, _, _, _, _ => none
  | fuel + 1, items, supply, newitem, nptr, cptr =>
      if cptr = 0 then some (newitem, items, supply)
      else do
        let (newchild, items, supply) ←
          cJsonDuplicate fuel items supply cptr true
        if newchild = 0 then do
          let items ← cJsonDelete fuel items newitem
          some (0, items, supply)
        else do
          let items ←
            (if nptr = 0 then writeChild items newitem newchild
            else suffixObject items nptr newchild)
          let cell ← items cptr
          duplicateChildren fuel items supply newitem newchild cell.next

end

/-! ## Its effect -/

/-- The pointers that are left if `malloc` succeeds a number of times. -/
def drawn : Nat → List Nat → Option (List Nat)
  | 0, supply => some supply
  | count + 1, supply =>
      if supply.headD 0 = 0 then none else drawn count supply.tail

/-- The strings of an item that are copied. -/
def Item.strings (item : Item Double) : Nat :=
  item.valuestring.toList.length + item.string.toList.length

/-- The duplicates of some trees, and the pointers that are left. -/
def copyTrees : Forest (Item Double) → List Nat →
    Option (Forest (Item Double) × List Nat)
  | .nil, supply => some (.nil, supply)
  | .node _ data child next, supply => do
      let rest ← drawn (data.strings + 1) supply
      let (child, rest) ← copyTrees child rest
      let (next, rest) ← copyTrees next rest
      some (.node (supply.headD 0) data.duplicate child next, rest)

/-- The pointers that the duplicates of some trees need. -/
def cost : Forest (Item Double) → Nat
  | .nil => 0
  | .node _ data child next => data.strings + 1 + cost child + cost next

/--
No item shares the children of another one, or has a name with the flag
`cJSON_StringIsConst`: the copy of such a name would never be freed.
-/
def Plain : Forest (Item Double) → Prop
  | .nil => True
  | .node _ data child next =>
      data.isReference = false ∧ data.stringIsConst = false ∧ Plain child ∧
        Plain next

/-- What `malloc` may return: null pointers and pointers that are not in use. -/
structure Supply (supply : List Nat) (roots : List (Forest (Item Double))) :
    Prop where
  fresh : ∀ address ∈ supply, address ∉ cells roots
  distinct :
    supply.Pairwise fun first later => first ≠ 0 → first ≠ later

/-- The duplicate is a tree beside the others, or nothing has changed. -/
def Copied (result : Option (Nat × Items Double × List Nat))
    (copy : Option (Forest (Item Double) × List Nat))
    (roots : List (Forest (Item Double))) : Prop :=
  copy.elim
    (∃ items rest,
      result = some (0, items, rest) ∧ Holds Item.isReference items roots)
    fun (tree, rest) =>
      ∃ items,
        result = some (tree.first 0, items, rest) ∧
          Holds Item.isReference items (tree :: roots)

/-- The trees are stored wherever the roots are held, among others. -/
def Within (roots : List (Forest (Item Double))) (prev close : Nat)
    (forest : Forest (Item Double)) : Prop :=
  ∀ (extra : List (Forest (Item Double))) {items : Items Double},
    Holds Item.isReference items (extra ++ roots) →
      Stored Item.isReference items prev close forest

/-- A node has the children wherever the roots are held, among others. -/
def Above (roots : List (Forest (Item Double))) (address : Nat)
    (data : Item Double) (child : Forest (Item Double)) : Prop :=
  ∀ (extra : List (Forest (Item Double))) {items : Items Double},
    Holds Item.isReference items (extra ++ roots) →
      (∃ cell,
        items address = some cell ∧ cell.child = child.first 0 ∧
          cell.data = data) ∧
        Stored Item.isReference items 0 0 child

section Within

variable {roots extra : List (Forest (Item Double))} {prev close : Nat}
variable {address : Nat} {data : Item Double}
variable {child next : Forest (Item Double)}

theorem Within.above
    (within : Within roots prev close (.node address data child next))
    (owns : data.isReference = false) :
    Above roots address data child := by
  intro extra items holds
  rcases within extra holds with ⟨-, ⟨pointer, cell, owned⟩, children, -⟩
  rw [owns, if_neg Bool.false_ne_true] at owned
  exact ⟨⟨_, cell, owned, rfl⟩, children⟩

theorem Within.behind
    (within : Within roots prev close (.node address data child next)) :
    Within roots address close next :=
  fun extra _ holds => (within extra holds).2.2.2

end Within

/-! ## Pointers in use -/

section Supplies

variable {roots : List (Forest (Item Double))} {supply rest : List Nat}
variable {forest copy : Forest (Item Double)}

theorem drawn_add (count more : Nat) (supply : List Nat) :
    drawn (count + more) supply =
      (drawn count supply).bind fun rest => drawn more rest := by
  induction count generalizing supply with
  | zero =>
      rw [Nat.zero_add]
      rfl
  | succ count induction =>
      rw [Nat.add_right_comm, drawn, drawn]
      by_cases null : supply.headD 0 = 0
      · rw [if_pos null, if_pos null]
        rfl
      · rw [if_neg null, if_neg null]
        exact induction supply.tail

/-- The pointers are taken in their order, and none of them is null. -/
theorem drawn_eq_some_iff {count : Nat} :
    drawn count supply = some rest ↔
      ∃ used, supply = used ++ rest ∧ used.length = count ∧ 0 ∉ used := by
  induction count generalizing supply with
  | zero =>
      constructor
      · rintro ⟨⟩
        exact ⟨[], rfl, rfl, List.not_mem_nil⟩
      · rintro ⟨used, rfl, length, -⟩
        rw [List.eq_nil_of_length_eq_zero length]
        rfl
  | succ count induction =>
      rw [drawn, Option.ite_none_left_eq_some, induction]
      constructor
      · rintro ⟨nonnull, used, split, length, nonzero⟩
        cases supply with
        | nil => exact absurd rfl nonnull
        | cons head tail =>
            rw [List.tail_cons] at split
            refine ⟨head :: used, congrArg _ split, congrArg _ length, ?_⟩
            rw [List.mem_cons, not_or]
            exact ⟨Ne.symm nonnull, nonzero⟩
      · rintro ⟨used, rfl, length, nonzero⟩
        cases used with
        | nil => cases length
        | cons head tail =>
            rw [List.mem_cons, not_or] at nonzero
            exact ⟨Ne.symm nonzero.1, tail, rfl, Nat.succ.inj length,
              nonzero.2⟩

theorem isSome_drawn (count : Nat) (supply : List Nat) :
    (drawn count supply).isSome ↔
      count ≤ supply.length ∧ 0 ∉ supply.take count := by
  rw [Option.isSome_iff_exists]
  constructor
  · rintro ⟨rest, taken⟩
    rcases drawn_eq_some_iff.mp taken with ⟨used, rfl, rfl, nonzero⟩
    rw [List.take_left, List.length_append]
    exact ⟨Nat.le_add_right .., nonzero⟩
  · rintro ⟨enough, nonzero⟩
    exact ⟨supply.drop count, drawn_eq_some_iff.mpr ⟨supply.take count,
      (List.take_append_drop ..).symm, List.length_take_of_le enough,
      nonzero⟩⟩

/-- A node is duplicated with its children before the nodes behind it. -/
theorem copyTrees_node_iff {address : Nat} {data : Item Double}
    {child next : Forest (Item Double)} :
    copyTrees (.node address data child next) supply = some (copy, rest) ↔
      ∃ first below between behind,
        drawn (data.strings + 1) supply = some first ∧
        copyTrees child first = some (below, between) ∧
        copyTrees next between = some (behind, rest) ∧
        copy = .node (supply.headD 0) data.duplicate below behind := by
  rw [copyTrees]
  simp only [Option.bind_eq_bind, Option.bind_eq_some_iff, Prod.exists,
    Option.some.injEq, Prod.mk.injEq]
  constructor
  · rintro ⟨first, start, below, between, middle, behind, _, last, rfl, rfl⟩
    exact ⟨first, below, between, behind, start, middle, last, rfl⟩
  · rintro ⟨first, below, between, behind, start, middle, last, rfl⟩
    exact ⟨first, start, below, between, middle, behind, rest, last, rfl, rfl⟩

/-- A duplicate needs a pointer for every item and every string. -/
theorem map_copyTrees (forest : Forest (Item Double)) (supply : List Nat) :
    (copyTrees forest supply).map Prod.snd = drawn (cost forest) supply := by
  induction forest generalizing supply with
  | nil => rfl
  | node address data child next childInduction nextInduction =>
      rw [cost, drawn_add, drawn_add, copyTrees]
      cases drawn (data.strings + 1) supply with
      | none => rfl
      | some first =>
          rw [Option.bind_some, ← childInduction]
          simp only [Option.bind_eq_bind, Option.bind_some]
          cases copyTrees child first with
          | none => rfl
          | some below =>
              rw [Option.map_some, Option.bind_some, Option.bind_some,
                ← nextInduction]
              cases copyTrees next below.2 <;> rfl

/-- The items of a duplicate are at the pointers that have been taken. -/
theorem copyTrees_supply
    (copied : copyTrees forest supply = some (copy, rest)) :
    ∃ used,
      supply = used ++ rest ∧ 0 ∉ used ∧ copy.addresses.Sublist used := by
  induction forest generalizing supply rest copy with
  | nil =>
      cases copied
      exact ⟨[], rfl, List.not_mem_nil, List.Sublist.refl _⟩
  | node address data child next childInduction nextInduction =>
      rcases copyTrees_node_iff.mp copied with
        ⟨first, below, between, behind, start, middle, last, rfl⟩
      rcases drawn_eq_some_iff.mp start with ⟨own, rfl, length, ownNull⟩
      rcases childInduction middle with ⟨inner, rfl, innerNull, belowIn⟩
      rcases nextInduction last with ⟨outer, rfl, outerNull, behindIn⟩
      cases own with
      | nil => cases length
      | cons head tail =>
          refine ⟨head :: tail ++ (inner ++ outer), by simp, ?_, ?_⟩
          · simp only [List.mem_append, not_or]
            exact ⟨ownNull, innerNull, outerNull⟩
          · exact (belowIn.append behindIn).trans
              (List.sublist_append_right ..) |>.cons_cons head

/-- What is left of the pointers is not in use. -/
theorem Supply.left {others : List (Forest (Item Double))}
    (given : Supply supply roots)
    (copied : copyTrees forest supply = some (copy, rest))
    (used :
      ∀ address ∈ cells others,
        address ∈ copy.addresses ∨ address ∈ cells roots) :
    Supply rest others := by
  rcases copyTrees_supply copied with ⟨taken, rfl, nonnull, inside⟩
  have distinct := List.pairwise_append.mp given.distinct
  refine ⟨fun address member held => ?_, distinct.2.1⟩
  rcases used address held with new | old
  · refine distinct.2.2 address (inside.subset new) address member ?_ rfl
    rintro rfl
    exact nonnull (inside.subset new)
  · exact given.fresh address (List.mem_append_right _ member) old

/-- Some pointers are taken for strings. -/
theorem Supply.strings {count : Nat} (given : Supply supply roots)
    (taken : drawn count supply = some rest) : Supply rest roots := by
  rcases drawn_eq_some_iff.mp taken with ⟨used, rfl, -, -⟩
  exact ⟨fun address member =>
      given.fresh address (List.mem_append_right _ member),
    (List.pairwise_append.mp given.distinct).2.1⟩

/-- The first pointer is taken for a new item. -/
theorem Supply.tail (given : Supply supply roots) (data : Item Double)
    (nonnull : supply.headD 0 ≠ 0) :
    supply.headD 0 ∉ cells roots ∧
      Supply supply.tail
        (.node (supply.headD 0) data .nil .nil :: roots) := by
  cases supply with
  | nil => exact absurd rfl nonnull
  | cons head tail =>
      have distinct := List.pairwise_cons.mp given.distinct
      refine ⟨given.fresh head (List.mem_cons_self ..),
        ⟨fun address member held => ?_, distinct.2⟩⟩
      rw [cells_cons, List.mem_append] at held
      rcases held with new | old
      · simp [Forest.addresses] at new
        exact distinct.1 address member nonnull new.symm
      · exact given.fresh address (List.mem_cons_of_mem _ member) old

end Supplies

/-! ## The duplicate of an item -/

section Duplicates

variable {roots : List (Forest (Item Double))} {items : Items Double}
variable {supply : List Nat}

theorem isReference_duplicate (data : Item Double) :
    data.duplicate.isReference = false := by
  have flag :
      data.type &&& ~~~cJsonIsReference &&& cJsonIsReference = 0#32 := by
    rw [BitVec.and_assoc, BitVec.and_comm (~~~cJsonIsReference),
      BitVec.and_not_self]
    exact BitVec.and_zero
  rw [Item.isReference, Item.duplicate, flag]
  rfl

/-- The duplicate of one tree. -/
theorem copyTrees_single (address : Nat) (data : Item Double)
    (child : Forest (Item Double)) :
    copyTrees (.node address data child .nil) supply =
      (drawn (data.strings + 1) supply).bind fun rest =>
        (copyTrees child rest).map fun result =>
          (.node (supply.headD 0) data.duplicate result.1 .nil, result.2) := by
  rw [copyTrees]
  cases drawn (data.strings + 1) supply with
  | none => rfl
  | some rest =>
      simp only [Option.bind_eq_bind, Option.bind_some]
      cases copyTrees child rest <;> rfl

/-- The duplicate of a tree comes before the ones of the trees behind it. -/
theorem copyTrees_cons (address : Nat) (data : Item Double)
    (child next : Forest (Item Double)) :
    copyTrees (.node address data child next) supply =
      (copyTrees (.node address data child .nil) supply).bind fun result =>
        (copyTrees next result.2).map fun behind =>
          (result.1.append behind.1, behind.2) := by
  rw [copyTrees_single, copyTrees]
  cases drawn (data.strings + 1) supply with
  | none => rfl
  | some rest =>
      simp only [Option.bind_eq_bind, Option.bind_some]
      cases copyTrees child rest with
      | none => rfl
      | some below =>
          simp only [Option.bind_some, Option.map_some]
          cases copyTrees next below.2 <;> rfl

/-- A duplicate has as many items. -/
theorem copyTrees_length {forest copy : Forest (Item Double)}
    {rest : List Nat} (copied : copyTrees forest supply = some (copy, rest)) :
    copy.addresses.length = forest.addresses.length := by
  induction forest generalizing supply rest copy with
  | nil =>
      cases copied
      rfl
  | node address data child next childInduction nextInduction =>
      rcases copyTrees_node_iff.mp copied with
        ⟨_, below, between, behind, -, middle, last, rfl⟩
      rw [Forest.addresses, Forest.addresses, List.length_cons,
        List.length_cons, List.length_append, List.length_append,
        childInduction middle, nextInduction last]

theorem copyTrees_last {address before : Nat} {data : Item Double}
    {child copy : Forest (Item Double)} {rest : List Nat}
    (copied :
      copyTrees (.node address data child .nil) supply = some (copy, rest)) :
    copy.last before = copy.first 0 := by
  rcases copyTrees_node_iff.mp copied with
    ⟨_, below, between, behind, -, -, last, rfl⟩
  cases last
  rfl

/-- The turns that are enough for the loop along the children. -/
def turns (done forest : Forest (Item Double)) : Nat :=
  done.addresses.length + 2 * forest.addresses.length + 3

/-- The loop makes the duplicates of some siblings the last children. -/
def LoopCopies (roots : List (Forest (Item Double)))
    (forest : Forest (Item Double)) : Prop :=
  ∀ (extra : List (Forest (Item Double))) (done : Forest (Item Double))
    (fuel : Nat) {items : Items Double} {supply : List Nat}
    {newitem prev : Nat} {data : Item Double},
    Within roots prev 0 forest → Plain forest →
    Holds Item.isReference items
      (.node newitem data done .nil :: (extra ++ roots)) →
    data.isReference = false →
    Supply supply (.node newitem data done .nil :: (extra ++ roots)) →
    turns done forest ≤ fuel →
    Copied
      (duplicateChildren fuel items supply newitem (done.last 0)
        (forest.first 0))
      ((copyTrees forest supply).map fun result =>
        (.node newitem data (done.append result.1) .nil, result.2))
      (extra ++ roots)

/-- A copy of a string succeeds with the next pointer, or frees the new item. -/
theorem copied_string {String : Type} {string : Option String} {fuel : Nat}
    {newitem : Nat} {data : Item Double}
    {next : List Nat → Option (Nat × Items Double × List Nat)}
    {copy : List Nat → Option (Forest (Item Double) × List Nat)}
    (holds :
      Holds Item.isReference items (.node newitem data .nil .nil :: roots))
    (enough : 1 < fuel)
    (later :
      ∀ rest, drawn string.toList.length supply = some rest →
        Copied (next rest) (copy rest) roots) :
    Copied (duplicateString fuel items supply newitem string next)
      ((drawn string.toList.length supply).bind copy) roots := by
  cases string with
  | none => exact later supply rfl
  | some string =>
      rw [Option.toList_some, List.length_singleton] at later ⊢
      rw [duplicateString]
      by_cases null : supply.headD 0 = 0
      · have freed := delete_root holds (show _ < fuel from enough)
        rw [Forest.first_node] at freed
        rw [if_pos null, drawn, if_pos null]
        refine ⟨_, supply.tail, ?_, holds.erase⟩
        simp only [freed, Option.bind_eq_bind, Option.bind_some]
      · have taken : drawn 1 supply = some supply.tail := by
          rw [drawn, if_neg null]
          rfl
        rw [if_neg null, taken, Option.bind_some]
        exact later _ taken

/-- A new item gets copies of the strings, and is freed if one of them fails. -/
theorem copied_item {fuel address : Nat} {cell : Cell (Item Double)}
    {recurse : Bool}
    {copy : List Nat → Option (Forest (Item Double) × List Nat)}
    (nonzero : address ≠ 0) (held : items address = some cell)
    (holds : Holds Item.isReference items roots) (given : Supply supply roots)
    (enough : 1 < fuel)
    (later :
      ∀ (after : Items Double) (rest : List Nat),
        Holds Item.isReference after
          (.node (supply.headD 0) cell.data.duplicate .nil .nil :: roots) →
        Supply rest
          (.node (supply.headD 0) cell.data.duplicate .nil .nil :: roots) →
        Copied
          (if !recurse then some (supply.headD 0, after, rest)
          else do
            let cell ← after address
            duplicateChildren fuel after rest (supply.headD 0) 0 cell.child)
          (copy rest) roots) :
    Copied (cJsonDuplicate (fuel + 1) items supply address recurse)
      ((drawn (cell.data.strings + 1) supply).bind copy) roots := by
  rw [cJsonDuplicate, if_neg nonzero, drawn]
  by_cases null : supply.headD 0 = 0
  · rw [if_pos null, if_pos null]
    exact ⟨items, supply.tail, rfl, holds⟩
  · rcases given.tail cell.data.duplicate null with ⟨fresh, left⟩
    have inserted := holds.insert null
      (Option.not_isSome_iff_eq_none.mp ((holds.allocated _).not.mpr fresh))
      0 fun _ : cell.data.duplicate.isReference = false => rfl
    simp only [if_neg null, held, cJsonNewItem, Option.bind_eq_bind,
      Option.bind_some, Item.strings, drawn_add, Option.bind_assoc]
    refine copied_string inserted enough fun between taken => ?_
    refine copied_string inserted enough fun rest again => ?_
    exact later _ rest inserted ((left.strings taken).strings again)

/-- An item is duplicated with its children. -/
theorem copied_duplicate (extra : List (Forest (Item Double)))
    (fuel : Nat) {address : Nat} {data : Item Double}
    {child : Forest (Item Double)} (loop : LoopCopies roots child)
    (nonzero : address ≠ 0) (above : Above roots address data child)
    (plain : Plain child)
    (holds : Holds Item.isReference items (extra ++ roots))
    (given : Supply supply (extra ++ roots))
    (enough : turns .nil child < fuel) :
    Copied (cJsonDuplicate fuel items supply address true)
      (copyTrees (.node address data child .nil) supply) (extra ++ roots) := by
  rcases above extra holds with ⟨⟨cell, held, -, rfl⟩, -⟩
  cases fuel with
  | zero => cases enough
  | succ fuel =>
      have few : 1 < fuel := by
        rw [turns] at enough
        omega
      rw [copyTrees_single]
      refine copied_item nonzero held holds given few
        fun after rest inserted left => ?_
      rcases above (_ :: extra) inserted with ⟨⟨again, kept, first, -⟩, -⟩
      simp only [Bool.not_true, Bool.false_eq_true, if_false, kept, first,
        Option.bind_eq_bind, Option.bind_some]
      exact loop extra .nil fuel (fun extra _ holds => (above extra holds).2)
        plain inserted (isReference_duplicate _) left
        (Nat.le_of_lt_succ enough)

/-- A tree becomes the last child of a new item. -/
theorem hang_copy {others : List (Forest (Item Double))}
    {copy done : Forest (Item Double)} {newitem : Nat} {data : Item Double}
    (holds :
      Holds Item.isReference items
        (copy :: .node newitem data done .nil :: others))
    (owns : data.isReference = false) :
    ∃ after,
      (if done.last 0 = 0 then writeChild items newitem (copy.first 0)
        else suffixObject items (done.last 0) (copy.first 0)) = some after ∧
      Holds Item.isReference after
        (.node newitem data (done.append copy) .nil :: others) := by
  have turned := holds.perm (List.Perm.swap ..)
  have found :
      (Forest.node newitem data done .nil).dataAt newitem = some data :=
    if_pos rfl
  have below : (Forest.node newitem data done .nil).childrenAt newitem = done :=
    if_pos rfl
  have kept := append_writes turned found owns rfl
  rw [below, Forest.setChildren, if_pos rfl] at kept
  have stored := (turned.stored _ (List.mem_cons_self ..)).1.2.2.1
  have same : done.first 0 = 0 ↔ done.last 0 = 0 := by
    cases done with
    | nil => exact Iff.rfl
    | node address value child next =>
        have nonempty : Forest.node address value child next ≠ .nil := by
          simp
        exact iff_of_false (stored.ne_zero (Forest.first_mem nonempty 0))
          (stored.ne_zero (Forest.last_mem nonempty 0))
  simpa only [same] using kept

theorem loop_copies (forest : Forest (Item Double)) :
    LoopCopies roots forest := by
  induction forest with
  | nil =>
      intro extra done fuel items supply newitem prev data within plain holds
        owns given enough
      cases fuel with
      | zero => exact absurd enough (Nat.not_succ_le_zero _)
      | succ fuel =>
          refine ⟨items, rfl, ?_⟩
          rw [Forest.append_nil]
          exact holds
  | node address value child next childInduction nextInduction =>
      intro extra done fuel items supply newitem prev data within plain holds
        owns given enough
      rw [turns, Forest.addresses, List.length_cons, List.length_append]
        at enough
      cases fuel with
      | zero => omega
      | succ fuel =>
          rcases within (_ :: extra) holds with
            ⟨nonzero, ⟨pointer, cell, -⟩, -, -⟩
          have copied := copied_duplicate (_ :: extra) fuel childInduction
            nonzero (within.above plain.1) plain.2.2.1 holds given
            (by rw [turns, Forest.addresses]; simp; omega)
          rw [Forest.first_node, duplicateChildren, if_neg nonzero,
            copyTrees_cons]
          cases made : copyTrees (.node address value child .nil) supply with
          | none =>
              rw [made] at copied
              rcases copied with ⟨after, rest, failed, kept⟩
              have freed :=
                delete_root kept
                  (show _ < fuel by simp [Forest.addresses]; omega)
              rw [Forest.first_node] at freed
              refine ⟨_, rest, ?_, kept.erase⟩
              simp only [failed, Option.bind_eq_bind, Option.bind_some,
                if_true, freed]
          | some result =>
              rw [made] at copied
              rcases copied with ⟨after, returned, kept⟩
              rcases result with ⟨copy, rest⟩
              rcases hang_copy kept owns with ⟨hung, written, holding⟩
              rcases within (_ :: extra) holding with
                ⟨-, ⟨behind, again, -⟩, -, -⟩
              have nonnull := kept.first_ne_zero (List.mem_cons_self ..)
              have count := copyTrees_length made
              simp only [Forest.addresses, List.length_cons, List.append_nil]
                at count
              have left :
                  Supply rest
                    (.node newitem data (done.append copy) .nil ::
                      (extra ++ roots)) :=
                given.left made
                  (by simp [cells_cons, Forest.addresses]; tauto)
              have later := nextInduction extra _ fuel within.behind plain.2.2.2
                holding owns left (by rw [turns]; simp; omega)
              rw [Forest.last_append, copyTrees_last made] at later
              simp only [returned, Option.bind_eq_bind, Option.bind_some,
                if_neg nonnull, written, again]
              rw [Option.map_map]
              simp only [Forest.append_assoc] at later
              exact later

/-- A duplicate is made if there are enough pointers that are not null. -/
theorem isSome_copyTrees (forest : Forest (Item Double))
    (supply : List Nat) :
    (copyTrees forest supply).isSome ↔
      cost forest ≤ supply.length ∧ 0 ∉ supply.take (cost forest) := by
  rw [← isSome_drawn, ← map_copyTrees, Option.isSome_map]

/-- The items that are duplicated. -/
def selected (roots : List (Forest (Item Double))) (wanted : Nat)
    (data : Item Double) (recurse : Bool) : Forest (Item Double) :=
  .node wanted data (if recurse then childrenOf roots wanted else .nil) .nil

/--
`cJSON_Duplicate` of any item makes a tree of its own beside the trees that
are there, or, if `malloc` fails for one of the items or strings, leaves them as
they are.
-/
theorem duplicate_all_or_nothing {wanted : Nat} {data : Item Double}
    (recurse : Bool) (holds : Holds Item.isReference items roots)
    (found : dataOf roots wanted = some data)
    (plain : Plain (selected roots wanted data recurse))
    (given : Supply supply roots) :
    ((copyTrees (selected roots wanted data recurse) supply).isSome ↔
        cost (selected roots wanted data recurse) ≤ supply.length ∧
          0 ∉ supply.take (cost (selected roots wanted data recurse))) ∧
      ∃ bound, ∀ fuel, bound ≤ fuel →
        Copied (cJsonDuplicate fuel items supply wanted recurse)
          (copyTrees (selected roots wanted data recurse) supply) roots := by
  rcases plain with ⟨owns, -, plain, -⟩
  rcases locate holds.separate found with
    ⟨tree, others, perm, inside, below, -⟩
  have above : Above roots wanted data (childrenOf roots wanted) := by
    intro extra items holds
    have together := holds.perm (perm.append_left extra)
    have stored := together.stored tree (by simp)
    rcases stored.1.childrenAt inside owns with
      ⟨cell, held, first, same, children⟩
    rw [below]
    exact ⟨⟨cell, held, first, same⟩, children⟩
  have nonzero : wanted ≠ 0 :=
    (holds.stored tree (perm.mem_iff.mpr (List.mem_cons_self ..))).1.ne_zero
      (Forest.isSome_dataAt.mp (inside ▸ rfl))
  refine ⟨isSome_copyTrees .., turns .nil (childrenOf roots wanted) + 1,
    fun fuel enough => ?_⟩
  cases recurse with
  | true =>
      exact copied_duplicate [] fuel (loop_copies _) nonzero above plain
        holds given enough
  | false =>
      cases fuel with
      | zero => cases enough
      | succ fuel =>
          rcases above [] holds with ⟨⟨cell, held, -, rfl⟩, -⟩
          have few : 1 < fuel := by
            rw [turns] at enough
            omega
          rw [selected, copyTrees_single]
          exact copied_item nonzero held holds given few
            fun after rest inserted _ => ⟨after, rfl, inserted⟩

/-- An object with one member, whose value is a string. -/
def oneMember : List (Forest (Item ℚ)) :=
  [.node 1 (Kind.object.item rational)
    (.node 2
      { (Kind.text (ascii "b")).item rational with
        string := some (.copied (ascii "a")) } .nil .nil) .nil]

theorem exists_oneMember :
    ∃ items, Holds Item.isReference items oneMember := by
  have legal : LegalRun rational []
      [.create .object 1, .create (.text (ascii "b")) 2,
        .addItemToObject 1 (ascii "a") 2] :=
    ⟨List.not_mem_nil,
      by simp [Call.Legal, Call.effect, cells, Forest.addresses],
      Or.inr ⟨⟨rfl, ⟨_, rfl, rfl⟩⟩, fun _ found => by cases found; rfl⟩,
      trivial⟩
  rcases runCalls_holds holds_nil legal with ⟨items, -, holds⟩
  exact ⟨items, holds⟩

theorem duplicate_all_or_nothing_member :
    ∃ items after : Items ℚ, ∃ fuel,
      cJsonDuplicate fuel items [4, 5, 6, 7] 1 true = some (4, after, []) ∧
        Holds Item.isReference after
          (.node 4 (Kind.object.item rational)
            (.node 5
              { (Kind.text (ascii "b")).item rational with
                string := some (.copied (ascii "a")) } .nil .nil) .nil ::
            oneMember) := by
  rcases exists_oneMember with ⟨items, holds⟩
  have given : Supply [4, 5, 6, 7] oneMember :=
    ⟨by simp [oneMember, cells, Forest.addresses], by decide⟩
  have plain : Plain
      (selected oneMember 1 (Kind.object.item rational) true) :=
    ⟨rfl, rfl, ⟨rfl, rfl, trivial, trivial⟩, trivial⟩
  rcases (duplicate_all_or_nothing true holds rfl plain given).2 with
    ⟨fuel, returns⟩
  rcases returns fuel le_rfl with ⟨after, returned, holds⟩
  exact ⟨items, after, fuel, returned, holds⟩

end Duplicates

end CommonCode.Json.Linked
