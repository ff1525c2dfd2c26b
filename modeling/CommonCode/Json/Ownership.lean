import CommonCode.Json.Trees

/-!
# Runs of the functions on items

A sequence of calls is described by its effect on lists of children.  If every
call gets items that it may get, the calls return, and the heap holds exactly
the trees of the description: no call reads an item that has been freed, and
every item that is allocated is in one of the trees.

What a call may get says which items are roots and which nodes own their
children, that an item does not become a child of itself, and which items may
be detached or deleted.  The last condition is exact.
-/

namespace CommonCode.Json.Linked

open CommonCode.Lib.Bits
open CommonCode.Lib.Siblings

variable {Double : Type}

/-! ## Calls -/

inductive Call (Double : Type) where
  | create (kind : Kind Double) (fresh : Nat)
  | addItemToArray (array item : Nat)
  | addItemToObject (object : Nat) (string : List Byte) (item : Nat)
  | addItemToObjectCS (object : Nat) (string : List Byte) (item : Nat)
  | addItemReferenceToArray (array item fresh : Nat)
  | addItemReferenceToObject (object : Nat) (string : List Byte)
      (item fresh : Nat)
  | insertItemInArray (array : Nat) (which : Int) (newitem : Nat)
  | detachItemFromArray (array : Nat) (which : Int)
  | detachItemFromObject (object : Nat) (string : List Byte)
  | deleteItemFromArray (array : Nat) (which : Int)
  | deleteItemFromObject (object : Nat) (string : List Byte)
  | replaceItemInArray (array : Nat) (which : Int) (newitem : Nat)
  | replaceItemInObject (object : Nat) (string : List Byte) (newitem : Nat)
  | delete (c : Nat)

/-- A call, with the pointer it returns; a function without a result gives the
null pointer. -/
def Call.run (arithmetic : Arithmetic Double) (fuel : Nat)
    (items : Items Double) : Call Double → Option (Nat × Items Double)
  | .create kind fresh => some (cJsonNewItem items (kind.item arithmetic) fresh)
  | .addItemToArray array item =>
      (cJsonAddItemToArray fuel items array item).map (Prod.mk 0)
  | .addItemToObject object string item =>
      (cJsonAddItemToObject fuel items object string item).map (Prod.mk 0)
  | .addItemToObjectCS object string item =>
      (cJsonAddItemToObjectCS fuel items object string item).map (Prod.mk 0)
  | .addItemReferenceToArray array item fresh =>
      (cJsonAddItemReferenceToArray fuel items array item fresh).map
        (Prod.mk 0)
  | .addItemReferenceToObject object string item fresh =>
      (cJsonAddItemReferenceToObject fuel items object string item
        fresh).map (Prod.mk 0)
  | .insertItemInArray array which newitem =>
      (cJsonInsertItemInArray fuel items array which newitem).map (Prod.mk 0)
  | .detachItemFromArray array which =>
      cJsonDetachItemFromArray items array which
  | .detachItemFromObject object string =>
      cJsonDetachItemFromObject fuel items object string
  | .deleteItemFromArray array which =>
      (cJsonDeleteItemFromArray fuel items array which).map (Prod.mk 0)
  | .deleteItemFromObject object string =>
      (cJsonDeleteItemFromObject fuel items object string).map (Prod.mk 0)
  | .replaceItemInArray array which newitem =>
      (cJsonReplaceItemInArray fuel items array which newitem).map (Prod.mk 0)
  | .replaceItemInObject object string newitem =>
      (cJsonReplaceItemInObject fuel items object string newitem).map
        (Prod.mk 0)
  | .delete c => (cJsonDelete fuel items c).map (Prod.mk 0)

/-! ## Effects -/

section Effects

variable (roots : List (Forest (Item Double)))

/-- A node that owns its children. -/
def Owns (array : Nat) : Prop :=
  ∃ data, dataOf roots array = some data ∧ data.isReference = false

/-- An item that is a root may come under a node that it is not above. -/
def Attachable (array item : Nat) : Prop :=
  (rootAt roots item).isSome ∧ Owns (without roots item) array

/-- The root of a tree with other data. -/
def relabel (change : Item Double → Item Double) :
    Forest (Item Double) → Forest (Item Double)
  | .nil => .nil
  | .node address data child next => .node address (change data) child next

/-- A root comes under a node. -/
def attach (array item : Nat) (change : Item Double → Item Double)
    (place :
      Forest (Item Double) → Forest (Item Double) → Forest (Item Double)) :
    List (Forest (Item Double)) :=
  (rootAt roots item).elim roots fun tree =>
    rechild (without roots item) array
      (place (childrenOf (without roots item) array) (relabel change tree))

/-- The name of the item, if it has one, may be freed. -/
def Renamable (item : Nat) : Prop :=
  ∀ data, dataOf roots item = some data → data.hasConstantName = false

/-- The item behind the others. -/
def atEnd (children tree : Forest (Item Double)) : Forest (Item Double) :=
  children.append tree

/-- The item at a position, before the ones from there on. -/
def before (which : Nat) (children tree : Forest (Item Double)) :
    Forest (Item Double) :=
  (children.take which).append (tree.append (children.drop which))

/-- The item at a position, instead of the one there, if there is one. -/
def inPlace (which : Nat) (children tree : Forest (Item Double)) :
    Forest (Item Double) :=
  (children.take which).append (tree.append (children.drop (which + 1)))

/-- The trees with a child taken out. -/
def takeOut (array which : Nat) : List (Forest (Item Double)) :=
  rechild roots array (dropAt (childrenOf roots array) which)

/-- The child that is taken out. -/
def taken (array which : Nat) : List (Forest (Item Double)) :=
  firstTree ((childrenOf roots array).drop which)

def Item.rename (string : List Byte) (item : Item Double) : Item Double :=
  { item with string := some (.copied string) }

def Item.renameConst (string : List Byte) (item : Item Double) :
    Item Double :=
  { item with
    string := some (.constant string)
    type := item.type ||| cJsonStringIsConst }

def Item.refer (item : Item Double) : Item Double :=
  { item with
    type := item.type ||| cJsonIsReference
    string := none }

/-- The trees with a reference to a node. -/
def refer (item fresh : Nat) : List (Forest (Item Double)) :=
  (dataOf roots item).elim roots fun data =>
    .node fresh data.refer .nil .nil :: roots

end Effects

/-- What a call does to the trees. -/
def Call.effect (arithmetic : Arithmetic Double)
    (roots : List (Forest (Item Double))) :
    Call Double → List (Forest (Item Double))
  | .create kind fresh =>
      if fresh = 0 then roots
      else .node fresh (kind.item arithmetic) .nil .nil :: roots
  | .addItemToArray array item => attach roots array item id atEnd
  | .addItemToObject object string item =>
      attach roots object item (Item.rename string) atEnd
  | .addItemToObjectCS object string item =>
      attach roots object item (Item.renameConst string) atEnd
  | .addItemReferenceToArray array item fresh =>
      if fresh = 0 then roots
      else attach (refer roots item fresh) array fresh id atEnd
  | .addItemReferenceToObject object string item fresh =>
      if fresh = 0 then roots
      else
        attach (refer roots item fresh) object fresh (Item.rename string) atEnd
  | .insertItemInArray array which newitem =>
      attach roots array newitem id (before which.toNat)
  | .detachItemFromArray array which =>
      takeOut roots array which.toNat ++ taken roots array which.toNat
  | .detachItemFromObject object string =>
      let which := position string (childrenOf roots object)
      takeOut roots object which ++ taken roots object which
  | .deleteItemFromArray array which => takeOut roots array which.toNat
  | .deleteItemFromObject object string =>
      takeOut roots object (position string (childrenOf roots object))
  | .replaceItemInArray array which newitem =>
      if (childrenOf (without roots newitem) array).length ≤ which.toNat then
        roots
      else attach roots array newitem id (inPlace which.toNat)
  | .replaceItemInObject object string newitem =>
      let children := childrenOf (without roots newitem) object
      let which := position string children
      if children.length ≤ which then roots
      else
        attach roots object newitem (Item.rename string) (inPlace which)
  | .delete c => without roots c

/-- The pointer that a call returns. -/
def Call.result (roots : List (Forest (Item Double))) : Call Double → Nat
  | .create _ fresh => fresh
  | .detachItemFromArray array which =>
      ((childrenOf roots array).drop which.toNat).first 0
  | .detachItemFromObject object string =>
      let children := childrenOf roots object
      (children.drop (position string children)).first 0
  | _ => 0

/-- What a call may get. -/
def Call.Legal (roots : List (Forest (Item Double))) : Call Double → Prop
  | .create _ fresh => fresh ∉ cells roots
  | .addItemToArray array item =>
      item = 0 ∧ array ∈ cells roots ∨ Attachable roots array item
  | .addItemToObject object _ item =>
      item = 0 ∨ Attachable roots object item ∧ Renamable roots item
  | .addItemToObjectCS object _ item =>
      item = 0 ∨ Attachable roots object item
  | .addItemReferenceToArray array item fresh =>
      item ∈ cells roots ∧ fresh ∉ cells roots ∧ Owns roots array
  | .addItemReferenceToObject object _ item fresh =>
      item ∈ cells roots ∧ fresh ∉ cells roots ∧ Owns roots object
  | .insertItemInArray array _ newitem => Attachable roots array newitem
  | .detachItemFromArray array which =>
      Owns roots array ∧
        (which.toNat = 0 ∨ (childrenOf roots array).length ≤ which.toNat)
  | .detachItemFromObject object string =>
      Owns roots object ∧
        (position string (childrenOf roots object) = 0 ∨
          (childrenOf roots object).length ≤
            position string (childrenOf roots object))
  | .deleteItemFromArray array which =>
      Owns roots array ∧
        (which.toNat = 0 ∨
          (childrenOf roots array).length ≤ which.toNat + 1)
  | .deleteItemFromObject object string =>
      Owns roots object ∧
        (position string (childrenOf roots object) = 0 ∨
          (childrenOf roots object).length ≤
            position string (childrenOf roots object) + 1)
  | .replaceItemInArray array _ newitem => Attachable roots array newitem
  | .replaceItemInObject object _ newitem => Attachable roots object newitem
  | .delete c => c = 0 ∨ (rootAt roots c).isSome

/-! ## What one call keeps -/

/-- With enough turns a call returns the pointer and leaves the trees. -/
def Gives (run : Nat → Option (Nat × Items Double)) (result : Nat)
    (roots : List (Forest (Item Double))) : Prop :=
  ∃ items,
    (∃ bound, ∀ fuel, bound ≤ fuel → run fuel = some (result, items)) ∧
      Holds Item.isReference items roots

theorem Leads.gives {run : Nat → Option (Items Double)}
    {roots others : List (Forest (Item Double))} (leads : Leads run roots)
    (perm : roots.Perm others) :
    Gives (fun fuel => (run fuel).map (Prod.mk 0)) 0 others := by
  rcases leads with ⟨items, ⟨bound, returns⟩, holds⟩
  refine ⟨items, ⟨bound, fun fuel enough => ?_⟩, holds.perm perm⟩
  exact congrArg (Option.map _) (returns fuel enough)

section Keeps

variable {items : Items Double} {roots : List (Forest (Item Double))}
variable {array item : Nat}

/-- The functions that put a root under a node. -/
theorem gives_attach
    (holds : Holds Item.isReference items roots)
    (legal : Attachable roots array item)
    {change : Item Double → Item Double}
    {place :
      Forest (Item Double) → Forest (Item Double) → Forest (Item Double)}
    {call : Nat → Option (Items Double)}
    (leads :
      ∀ {owner tree others data},
        Holds Item.isReference items (owner :: tree :: others) →
          owner.dataAt array = some data → data.isReference = false →
            tree.first 0 = item →
              childrenOf (without roots item) array =
                owner.childrenAt array →
              Leads call
                (owner.setChildren array
                  (place (owner.childrenAt array) (relabel change tree)) ::
                    others)) :
    Gives (fun fuel => (call fuel).map (Prod.mk 0)) 0
      (attach roots array item change place) := by
  rcases legal with ⟨root, data, found, owns⟩
  rcases Option.isSome_iff_exists.mp root with ⟨tree, root⟩
  rcases holds.meet root found with
    ⟨owner, others, together, inside, below, exchanged⟩
  rcases (holds.uproot root).2 with ⟨value, child, rfl⟩
  rw [Linked.attach, root]
  refine (leads together inside owns rfl below).gives ?_
  rw [Option.elim_some, below]
  exact (exchanged _).symm

theorem relabel_id (tree : Forest (Item Double)) : relabel id tree = tree := by
  cases tree with
  | nil => rfl
  | node => rfl

theorem isReference_rename (string : List Byte) (data : Item Double) :
    (data.rename string).isReference = data.isReference :=
  rfl

theorem isReference_renameConst (string : List Byte) (data : Item Double) :
    (data.renameConst string).isReference = data.isReference := by
  have same :
      (data.type ||| cJsonStringIsConst) &&& cJsonIsReference =
        data.type &&& cJsonIsReference := by
    have apart : cJsonStringIsConst &&& cJsonIsReference = 0#32 := by decide
    rw [BitVec.and_or_distrib_right, apart, BitVec.or_zero]
  rw [Item.isReference, Item.renameConst, same]
  rfl

theorem isReference_refer (data : Item Double) :
    data.refer.isReference = true := by
  have flag :
      (data.type ||| cJsonIsReference) &&& cJsonIsReference =
        cJsonIsReference := by
    apply BitVec.eq_of_getLsbD_eq
    intro i _
    rw [BitVec.getLsbD_and, BitVec.getLsbD_or]
    cases cJsonIsReference.getLsbD i with
    | false => exact Bool.and_false _
    | true => rw [Bool.or_true, Bool.and_true]
  rw [Item.isReference, Item.refer, flag]
  decide

/-- The second of two roots gets other data. -/
theorem holds_rename {owner tree : Forest (Item Double)}
    {others : List (Forest (Item Double))}
    (holds : Holds Item.isReference items (owner :: tree :: others))
    (root : tree.first 0 = item) {change : Item Double → Item Double}
    (same : ∀ data, (change data).isReference = data.isReference) :
    ∃ after,
      writeData items item change = some after ∧
        Holds Item.isReference after (owner :: relabel change tree :: others) ∧
        (relabel change tree).first 0 = item := by
  have alone := holds.tail tree (List.mem_cons_self ..)
  rcases exists_node_of_length alone.2 with ⟨fresh, value, child, rfl⟩
  rw [Forest.first_node] at root
  subst root
  rcases alone.1 with ⟨-, ⟨pointer, cell, -⟩, -, -⟩
  refine ⟨_, ?_, ((holds.perm (List.Perm.swap ..)).relabel
    (same value)).perm (List.Perm.swap ..), rfl⟩
  rw [writeData, cell]
  rfl

/-- The name of the item may be freed. -/
theorem exists_renamable (holds : Holds Item.isReference items roots)
    (root : (rootAt roots item).isSome) (free : Renamable roots item) :
    ∃ cell, items item = some cell ∧ cell.data.hasConstantName = false := by
  rcases Option.isSome_iff_exists.mp root with ⟨tree, root⟩
  rcases holds.uproot root with ⟨perm, value, child, rfl⟩
  have held : item ∈ cells roots := by
    refine (perm.flatMap_right _).mem_iff.mpr ?_
    simp [Forest.addresses]
  rcases exists_dataOf held with ⟨data, found⟩
  rcases holds.dataOf found with ⟨cell, here, same⟩
  exact ⟨cell, here, same ▸ free data found⟩

/-- An item is given a name and becomes the last child. -/
theorem leads_rename {owner tree : Forest (Item Double)}
    {others : List (Forest (Item Double))} {data : Item Double}
    (holds : Holds Item.isReference items (owner :: tree :: others))
    (found : owner.dataAt array = some data)
    (owns : data.isReference = false) (root : tree.first 0 = item)
    {change : Item Double → Item Double}
    (same : ∀ data, (change data).isReference = data.isReference) :
    Leads
      (fun fuel => do
        let items ← writeData items item change
        cJsonAddItemToArray fuel items array item)
      (owner.setChildren array
          ((owner.childrenAt array).append (relabel change tree)) ::
        others) := by
  rcases holds_rename holds root same with ⟨after, written, kept, renamed⟩
  simp only [written, Option.bind_eq_bind, Option.bind_some]
  exact leads_addItemToArray kept found owns renamed

end Keeps

/-! ## Objects -/

section Objects

variable {items : Items Double} {owner : Forest (Item Double)}
variable {others : List (Forest (Item Double))}
variable {object : Nat} {data : Item Double}

/-- Where a name is found an item is at its position. -/
theorem namedSibling_owner
    (holds : Holds Item.isReference items (owner :: others))
    (found : owner.dataAt object = some data)
    (owns : data.isReference = false) (string : List Byte) {fuel : Nat}
    (enough : (owner.childrenAt object).length < fuel) :
    ∃ cell,
      items object = some cell ∧
      namedSibling items string fuel 0 cell.child =
        some (position string (owner.childrenAt object),
          ((owner.childrenAt object).drop
            (position string (owner.childrenAt object))).first 0) ∧
      cJsonGetArrayItem items object
          (position string (owner.childrenAt object)) =
        some (((owner.childrenAt object).drop
          (position string (owner.childrenAt object))).first 0) := by
  have top := holds.stored owner (List.mem_cons_self ..)
  rcases top.1.childrenAt found owns with ⟨cell, objectCell, first, -, stored⟩
  refine ⟨cell, objectCell, ?_, ?_⟩
  · rw [first, namedSibling_eq stored string 0 enough, Nat.zero_add]
  · rw [cJsonGetArrayItem, objectCell]
    dsimp only [Option.bind_eq_bind, Option.bind_some]
    rw [first]
    exact siblingAt_eq stored _

/-- A position without an item leaves the items as they are. -/
theorem detach_beyond {which : Int} (none :
      cJsonGetArrayItem items object which = some 0) :
    cJsonDetachItemFromArray items object which = some (0, items) := by
  rw [cJsonGetArrayItem, Option.bind_eq_bind, Option.bind_eq_some_iff] at none
  rcases none with ⟨cell, objectCell, walked⟩
  rw [cJsonDetachItemFromArray, objectCell]
  dsimp only [Option.bind_eq_bind, Option.bind_some]
  rw [walked]
  rfl

theorem detachItemFromObject_eq
    (holds : Holds Item.isReference items (owner :: others))
    (found : owner.dataAt object = some data)
    (owns : data.isReference = false) (string : List Byte) {fuel : Nat}
    (enough : (owner.childrenAt object).length < fuel) :
    cJsonDetachItemFromObject fuel items object string =
      cJsonDetachItemFromArray items object
        (position string (owner.childrenAt object)) := by
  rcases namedSibling_owner holds found owns string enough with
    ⟨cell, objectCell, named, placed⟩
  rw [cJsonDetachItemFromObject, objectCell]
  dsimp only [Option.bind_eq_bind, Option.bind_some]
  rw [named, Option.bind_some]
  dsimp only
  split_ifs with absent
  · rw [absent] at placed
    exact (detach_beyond placed).symm
  · rfl

theorem deleteItemFromObject_eq
    (holds : Holds Item.isReference items (owner :: others))
    (found : owner.dataAt object = some data)
    (owns : data.isReference = false) (string : List Byte) {fuel : Nat}
    (enough : (owner.childrenAt object).length < fuel) :
    cJsonDeleteItemFromObject fuel items object string =
      cJsonDeleteItemFromArray fuel items object
        (position string (owner.childrenAt object)) := by
  rw [cJsonDeleteItemFromObject, cJsonDeleteItemFromArray,
    detachItemFromObject_eq holds found owns string enough]

end Objects

/-! ## What one call keeps -/

section Calls

variable {items : Items Double} {roots : List (Forest (Item Double))}
variable {array item fresh : Nat} {arithmetic : Arithmetic Double}

/-- A node that owns its children, in the tree where it is. -/
theorem Owns.locate (owns : Owns roots array)
    (holds : Holds Item.isReference items roots) :
    ∃ owner others data,
      Holds Item.isReference items (owner :: others) ∧
        owner.dataAt array = some data ∧ data.isReference = false ∧
        childrenOf roots array = owner.childrenAt array ∧
        ∀ children,
          (rechild roots array children).Perm
            (owner.setChildren array children :: others) := by
  rcases owns with ⟨data, found, own⟩
  rcases Lib.Siblings.locate holds.separate found with
    ⟨owner, others, perm, inside, below, exchanged⟩
  exact ⟨owner, others, data, holds.perm perm, inside, own, below, exchanged⟩

theorem gives_detach (holds : Holds Item.isReference items roots)
    (owns : Owns roots array) (which : Int)
    (clean :
      which.toNat = 0 ∨ (childrenOf roots array).length ≤ which.toNat) :
    ∃ after,
      cJsonDetachItemFromArray items array which =
        some (((childrenOf roots array).drop which.toNat).first 0, after) ∧
      Holds Item.isReference after
        (takeOut roots array which.toNat ++ taken roots array which.toNat) := by
  rcases owns.locate holds with
    ⟨owner, others, data, together, found, own, below, exchanged⟩
  rw [takeOut, taken, below]
  rw [below, ← Forest.drop_eq_nil_iff] at clean
  rcases holds_detach together found own clean with ⟨after, detached, kept⟩
  refine ⟨after, detached, kept.perm ?_⟩
  refine List.Perm.trans ?_ ((exchanged _).symm.append_right _)
  exact (List.perm_append_comm).cons _

theorem gives_deleteItem (holds : Holds Item.isReference items roots)
    (owns : Owns roots array) (which : Int)
    (clean :
      which.toNat = 0 ∨ (childrenOf roots array).length ≤ which.toNat + 1) :
    Gives
      (fun fuel =>
        (cJsonDeleteItemFromArray fuel items array which).map (Prod.mk 0)) 0
      (takeOut roots array which.toNat) := by
  rcases owns.locate holds with
    ⟨owner, others, data, together, found, own, below, exchanged⟩
  rw [takeOut, below]
  rw [below, ← Forest.drop_eq_nil_iff] at clean
  exact (leads_deleteItemFromArray together found own clean).gives
    (exchanged _).symm

/-- A reference to a node is a new root. -/
theorem holds_refer (holds : Holds Item.isReference items roots)
    (target : item ∈ cells roots) (nonnull : fresh ≠ 0)
    (free : fresh ∉ cells roots) :
    ∃ after,
      createReference items item fresh = some (fresh, after) ∧
        Holds Item.isReference after (refer roots item fresh) ∧
        (∃ cell, after fresh = some cell ∧ cell.data.string = none) ∧
        rootAt (refer roots item fresh) fresh ≠ none ∧
        without (refer roots item fresh) fresh = roots := by
  rcases exists_dataOf target with ⟨data, found⟩
  rcases holds.dataOf found with ⟨cell, held, same⟩
  have empty : items fresh = none := by
    rw [← Option.not_isSome_iff_eq_none, holds.allocated]
    exact free
  rw [refer, found, Option.elim_some]
  refine ⟨_, ?_, holds.insert nonnull empty cell.child ?_,
    ⟨_, Function.update_self .., rfl⟩, ?_, holds.without_cons free⟩
  · rw [createReference, if_neg nonnull, held]
    exact congrArg some (congrArg (Prod.mk fresh)
      (congrArg (Function.update items fresh) (by rw [← same]; rfl)))
  · intro owned
    rw [isReference_refer] at owned
    cases owned
  · rw [rootAt, List.find?_cons_of_pos (by simp)]
    exact Option.some_ne_none _

/-- A new reference comes under a node. -/
theorem gives_reference (holds : Holds Item.isReference items roots)
    (target : item ∈ cells roots) (nonnull : fresh ≠ 0)
    (free : fresh ∉ cells roots) (owns : Owns roots array)
    (change : Item Double → Item Double)
    (call : Items Double → Nat → Nat → Option (Items Double))
    (leads :
      ∀ {items owner tree others data},
        Holds Item.isReference items (owner :: tree :: others) →
          owner.dataAt array = some data → data.isReference = false →
            tree.first 0 = fresh →
            (∃ cell, items fresh = some cell ∧ cell.data.string = none) →
              Leads (fun fuel => call items fuel fresh)
                (owner.setChildren array
                  (atEnd (owner.childrenAt array) (relabel change tree)) ::
                    others)) :
    Gives
      (fun fuel =>
        ((createReference items item fresh).bind fun (ref, items) =>
          call items fuel ref).map (Prod.mk 0)) 0
      (attach (refer roots item fresh) array fresh change atEnd) := by
  rcases holds_refer holds target nonnull free with
    ⟨after, created, kept, unnamed, root, rest⟩
  rw [created]
  simp only [Option.bind_some]
  apply gives_attach kept _
    fun together found own root _ => leads together found own root unnamed
  refine ⟨Option.isSome_iff_ne_none.mpr root, ?_⟩
  rw [rest]
  exact owns

/-- There is nothing to replace behind the last item. -/
theorem replace_beyond (holds : Holds Item.isReference items roots)
    (legal : Attachable roots array item) {which : Int}
    (beyond :
      (childrenOf (without roots item) array).length ≤ which.toNat)
    (fuel : Nat) :
    cJsonReplaceItemInArray fuel items array which item = some items := by
  rcases legal with ⟨root, data, found, owns⟩
  rcases Option.isSome_iff_exists.mp root with ⟨tree, root⟩
  rcases holds.meet root found with
    ⟨owner, others, together, inside, below, -⟩
  have top := together.stored owner (List.mem_cons_self ..)
  rcases top.1.childrenAt inside owns with
    ⟨cell, arrayCell, first, -, stored⟩
  rw [below, ← Forest.drop_eq_nil_iff] at beyond
  rw [cJsonReplaceItemInArray, arrayCell]
  dsimp only [Option.bind_eq_bind, Option.bind_some]
  rw [first, siblingAt_eq stored, beyond]
  rfl

theorem replaceInObject_beyond (holds : Holds Item.isReference items roots)
    {object : Nat} {string : List Byte}
    (legal : Attachable roots object item)
    (beyond :
      (childrenOf (without roots item) object).length ≤
        position string (childrenOf (without roots item) object))
    {fuel : Nat}
    (enough : (childrenOf (without roots item) object).length < fuel) :
    cJsonReplaceItemInObject fuel items object string item = some items := by
  rcases legal with ⟨root, data, found, owns⟩
  rcases Option.isSome_iff_exists.mp root with ⟨tree, root⟩
  rcases holds.meet root found with
    ⟨owner, others, together, inside, below, -⟩
  rw [below] at beyond enough
  rw [← Forest.drop_eq_nil_iff] at beyond
  rcases namedSibling_owner together inside owns string enough with
    ⟨cell, objectCell, named, -⟩
  rw [cJsonReplaceItemInObject, objectCell]
  dsimp only [Option.bind_eq_bind, Option.bind_some]
  rw [named, beyond]
  rfl

/-- An item of a name is replaced by one that gets the name. -/
theorem leads_replaceItemInObject {owner tree : Forest (Item Double)}
    {others : List (Forest (Item Double))} {data : Item Double}
    {object : Nat} {string : List Byte}
    (holds : Holds Item.isReference items (owner :: tree :: others))
    (found : owner.dataAt object = some data)
    (owns : data.isReference = false) (root : tree.first 0 = item)
    (inside :
      position string (owner.childrenAt object) <
        (owner.childrenAt object).length) :
    Leads (fun fuel => cJsonReplaceItemInObject fuel items object string item)
      (owner.setChildren object
        (inPlace (position string (owner.childrenAt object))
          (owner.childrenAt object) (relabel (Item.rename string) tree)) ::
        others) := by
  rcases holds_rename holds root (isReference_rename string) with
    ⟨after, written, kept, renamed⟩
  have there :
      (owner.childrenAt object).drop
        (position string (owner.childrenAt object) : Int).toNat ≠ .nil := by
    rw [Ne, Forest.drop_eq_nil_iff, Int.toNat_natCast]
    omega
  rcases leads_replaceItemInArray kept found owns renamed there with
    ⟨final, ⟨bound, replaced⟩, leads⟩
  refine ⟨final, ⟨max bound ((owner.childrenAt object).length + 1),
    fun fuel enough => ?_⟩, leads⟩
  rw [max_le_iff] at enough
  have top := holds.stored owner (List.mem_cons_self ..)
  rcases top.1.childrenAt found owns with ⟨-, -, -, -, stored⟩
  have nonnull :
      ((owner.childrenAt object).drop
        (position string (owner.childrenAt object))).first 0 ≠ 0 := by
    rw [← Forest.take_append_drop
      (position string (owner.childrenAt object))
      (owner.childrenAt object)] at stored
    exact (stored_append.mp stored).2.ne_zero (Forest.first_mem there 0)
  rcases namedSibling_owner holds found owns string enough.2 with
    ⟨cell, objectCell, named, -⟩
  have given :
      (writeData items item fun data =>
          { data with string := some (.copied string) }) =
        some after := written
  change cJsonReplaceItemInObject fuel items object string item = _
  rw [cJsonReplaceItemInObject, objectCell]
  dsimp only [Option.bind_eq_bind, Option.bind_some]
  rw [named, Option.bind_some]
  dsimp only
  rw [if_neg nonnull, given]
  exact replaced fuel enough.1

/-- A call that gets what it may get returns and has its effect. -/
theorem Call.gives {call : Call Double} (legal : call.Legal roots)
    (holds : Holds Item.isReference items roots) :
    Gives (fun fuel => call.run arithmetic fuel items) (call.result roots)
      (call.effect arithmetic roots) := by
  have nonzero {item : Nat} (root : (rootAt roots item).isSome) :
      item ≠ 0 := by
    rintro rfl
    rw [holds.rootAt_zero] at root
    cases root
  have nothing {array : Nat} {change : Item Double → Item Double} :
      attach roots array 0 change atEnd = roots := by
    rw [attach, holds.rootAt_zero]
    rfl
  cases call with
  | create kind fresh =>
      rw [Call.effect]
      split_ifs with null
      · refine ⟨items, ⟨0, fun fuel _ => ?_⟩, holds⟩
        change some (cJsonNewItem items (kind.item arithmetic) fresh) = _
        rw [cJsonNewItem, if_pos null, null]
        rfl
      · have empty : items fresh = none := by
          rw [← Option.not_isSome_iff_eq_none, holds.allocated]
          exact legal
        refine ⟨_, ⟨0, fun fuel _ => ?_⟩,
          holds.insert null empty 0 (fun _ => rfl)⟩
        exact congrArg some (if_neg null)
  | addItemToArray array item =>
      rcases legal with ⟨rfl, held⟩ | legal
      · rcases Option.isSome_iff_exists.mp
          ((holds.allocated array).mpr held) with ⟨cell, arrayCell⟩
        rw [Call.effect, nothing]
        refine ⟨items, ⟨0, fun fuel _ => ?_⟩, holds⟩
        change (cJsonAddItemToArray fuel items array 0).map _ = _
        rw [cJsonAddItemToArray, arrayCell]
        rfl
      · apply gives_attach holds legal
        intro owner tree others data together found owns root _
        rw [relabel_id]
        exact leads_addItemToArray together found owns root
  | addItemToObject object string item =>
      rcases legal with rfl | ⟨legal, free⟩
      · rw [Call.effect, nothing]
        exact ⟨items, ⟨0, fun fuel _ => rfl⟩, holds⟩
      · rcases exists_renamable holds legal.1 free with ⟨cell, here, copied⟩
        apply gives_attach holds legal
        intro owner tree others data together found owns root _
        simp only [cJsonAddItemToObject, if_neg (nonzero legal.1), here,
          Option.bind_eq_bind, Option.bind_some, copied,
          Bool.false_eq_true, if_false]
        exact leads_rename together found owns root
          (isReference_rename string)
  | addItemToObjectCS object string item =>
      rcases legal with rfl | legal
      · rw [Call.effect, nothing]
        exact ⟨items, ⟨0, fun fuel _ => rfl⟩, holds⟩
      · apply gives_attach holds legal
        intro owner tree others data together found owns root _
        simp only [cJsonAddItemToObjectCS, if_neg (nonzero legal.1)]
        exact leads_rename together found owns root
          (isReference_renameConst string)
  | addItemReferenceToArray array item fresh =>
      rcases legal with ⟨target, free, owns⟩
      rw [Call.effect]
      split_ifs with null
      · rcases owns.locate holds with
          ⟨owner, others, data, together, found, own, -, -⟩
        have top := together.stored owner (List.mem_cons_self ..)
        rcases top.1.childrenAt found own with ⟨cell, arrayCell, -⟩
        refine ⟨items, ⟨0, fun fuel _ => ?_⟩, holds⟩
        change (cJsonAddItemReferenceToArray fuel items array item
          fresh).map _ = _
        rw [cJsonAddItemReferenceToArray, createReference, if_pos null]
        dsimp only [Option.bind_eq_bind, Option.bind_some]
        rw [cJsonAddItemToArray, arrayCell]
        rfl
      · apply gives_reference holds target null free owns id
          fun items fuel ref => cJsonAddItemToArray fuel items array ref
        intro items owner tree others data together found owns root _
        rw [relabel_id]
        exact leads_addItemToArray together found owns root
  | addItemReferenceToObject object string item fresh =>
      rcases legal with ⟨target, free, owns⟩
      rw [Call.effect]
      split_ifs with null
      · refine ⟨items, ⟨0, fun fuel _ => ?_⟩, holds⟩
        change (cJsonAddItemReferenceToObject fuel items object string item
          fresh).map _ = _
        rw [cJsonAddItemReferenceToObject, createReference, if_pos null]
        rfl
      · apply gives_reference holds target null free owns (Item.rename string)
          fun items fuel ref =>
            cJsonAddItemToObject fuel items object string ref
        intro items owner tree others data together found owns root unnamed
        rcases unnamed with ⟨cell, here, none⟩
        have copied : cell.data.hasConstantName = false := by
          rw [Item.hasConstantName, none]
        simp only [cJsonAddItemToObject, if_neg null, here,
          Option.bind_eq_bind, Option.bind_some, copied,
          Bool.false_eq_true, if_false]
        exact leads_rename together found owns root
          (isReference_rename string)
  | insertItemInArray array which newitem =>
      apply gives_attach holds legal
      intro owner tree others data together found owns root _
      rw [relabel_id]
      exact leads_insertItemInArray together found owns root which
  | detachItemFromArray array which =>
      rcases gives_detach holds legal.1 which legal.2 with ⟨after, detached, kept⟩
      exact ⟨after, ⟨0, fun fuel _ => detached⟩, kept⟩
  | detachItemFromObject object string =>
      rcases legal with ⟨owns, clean⟩
      rcases gives_detach holds owns
        (position string (childrenOf roots object)) clean with
        ⟨after, detached, kept⟩
      rcases owns.locate holds with
        ⟨owner, others, data, together, found, own, below, -⟩
      refine ⟨after, ⟨(owner.childrenAt object).length + 1,
        fun fuel enough => ?_⟩, kept⟩
      refine (detachItemFromObject_eq together found own string enough).trans ?_
      rw [← below]
      exact detached
  | deleteItemFromArray array which =>
      exact gives_deleteItem holds legal.1 which legal.2
  | deleteItemFromObject object string =>
      rcases legal with ⟨owns, clean⟩
      rcases gives_deleteItem holds owns
        (position string (childrenOf roots object)) clean with
        ⟨after, ⟨bound, deleted⟩, kept⟩
      rcases owns.locate holds with
        ⟨owner, others, data, together, found, own, below, -⟩
      refine ⟨after, ⟨max bound ((owner.childrenAt object).length + 1),
        fun fuel enough => ?_⟩, kept⟩
      rw [max_le_iff] at enough
      change (cJsonDeleteItemFromObject fuel items object string).map _ = _
      rw [deleteItemFromObject_eq together found own string enough.2, ← below]
      exact deleted fuel enough.1
  | replaceItemInArray array which newitem =>
      rw [Call.effect]
      split_ifs with beyond
      · refine ⟨items, ⟨0, fun fuel _ => ?_⟩, holds⟩
        exact congrArg (Option.map _)
          (replace_beyond holds legal beyond fuel)
      · apply gives_attach holds legal
        intro owner tree others data together found owns root below
        rw [below, ← Forest.drop_eq_nil_iff] at beyond
        rw [relabel_id]
        exact leads_replaceItemInArray together found owns root beyond
  | replaceItemInObject object string newitem =>
      rw [Call.effect]
      split_ifs with beyond
      · refine ⟨items, ⟨(childrenOf (without roots newitem) object).length + 1,
          fun fuel enough => ?_⟩, holds⟩
        exact congrArg (Option.map _)
          (replaceInObject_beyond holds legal beyond enough)
      · apply gives_attach holds legal
        intro owner tree others data together found owns root below
        rw [below] at beyond ⊢
        exact leads_replaceItemInObject together found owns root
          (Nat.lt_of_not_le beyond)
  | delete c =>
      rcases legal with rfl | root
      · rw [Call.effect, holds.without_zero]
        exact ⟨items, ⟨1, fun fuel enough => by
          cases fuel with
          | zero => cases enough
          | succ fuel => rfl⟩, holds⟩
      · rcases Option.isSome_iff_exists.mp root with ⟨tree, root⟩
        rcases holds.uproot root with ⟨perm, data, child, rfl⟩
        have together := holds.perm perm
        refine ⟨_, ⟨(Forest.node c data child .nil).addresses.length + 1,
          fun fuel enough => ?_⟩, together.erase⟩
        exact congrArg (Option.map _) (delete_root together enough)

end Calls

/-! ## Names that are constants -/

section Names

/-- A name that may not be freed has the flag that `cJSON_Delete` tests. -/
def Item.Flagged (item : Item Double) : Prop :=
  item.hasConstantName = true → item.stringIsConst = true

/-- No item has a constant name without the flag. -/
def NamesFlagged (items : Items Double) : Prop :=
  ∀ address cell, items address = some cell → cell.data.Flagged

/-- What a function returns, if it returns. -/
def Yields {α : Type} (good : α → Prop) (run : Option α) : Prop :=
  ∀ result, run = some result → good result

section Rules

variable {α β : Type} {good : α → Prop} {better : β → Prop}

theorem Yields.some {value : α} (holds : good value) :
    Yields good (some value) := by
  rintro _ ⟨⟩
  exact holds

theorem Yields.none : Yields good (none : Option α) := by
  rintro _ ⟨⟩

theorem Yields.bind {run : Option α} {next : α → Option β}
    (first : Yields good run)
    (second : ∀ value, good value → Yields better (next value)) :
    Yields better (run >>= next) := by
  intro result returned
  rcases Option.bind_eq_some_iff.mp returned with ⟨value, found, rest⟩
  exact second value (first value found) result rest

/-- What a read gives does not matter. -/
theorem Yields.read {run : Option α} {next : α → Option β}
    (rest : ∀ value, Yields better (next value)) :
    Yields better (run >>= next) :=
  Yields.bind (fun _ _ => trivial : Yields (fun _ => True) run)
    fun value _ => rest value

theorem Yields.ite {condition : Prop} [Decidable condition]
    {yes no : Option α} (first : Yields good yes) (second : Yields good no) :
    Yields good (if condition then yes else no) := by
  split
  · exact first
  · exact second

theorem Yields.map {run : Option α} {change : α → β}
    (first : Yields (fun value => better (change value)) run) :
    Yields better (run.map change) := by
  intro result returned
  rcases Option.map_eq_some_iff.mp returned with ⟨value, found, rfl⟩
  exact first value found

end Rules

variable {items : Items Double} {address : Nat}

theorem flagged_rename (string : List Byte) (item : Item Double) :
    (item.rename string).Flagged :=
  fun named => Bool.noConfusion named

theorem flagged_renameConst (string : List Byte) (item : Item Double) :
    (item.renameConst string).Flagged := by
  intro _
  have flag :
      (item.type ||| cJsonStringIsConst) &&& cJsonStringIsConst =
        cJsonStringIsConst := by
    apply BitVec.eq_of_getLsbD_eq
    intro i _
    rw [BitVec.getLsbD_and, BitVec.getLsbD_or]
    cases cJsonStringIsConst.getLsbD i with
    | false => exact Bool.and_false _
    | true => rw [Bool.or_true, Bool.and_true]
  rw [Item.stringIsConst, Item.renameConst, flag]
  decide

theorem flagged_of_unnamed {item : Item Double} (unnamed : item.string = none) :
    item.Flagged := by
  intro named
  rw [Item.hasConstantName, unnamed] at named
  cases named

variable (flagged : NamesFlagged items)

include flagged

theorem NamesFlagged.modify
    {change : Cell (Item Double) → Cell (Item Double)}
    (same : ∀ cell, cell.data.Flagged → (change cell).data.Flagged) :
    NamesFlagged (items.modify address change) := by
  intro other cell held
  by_cases here : other = address
  · subst here
    rw [Heap.modify_self, Option.map_eq_some_iff] at held
    rcases held with ⟨old, held, rfl⟩
    exact same old (flagged other old held)
  · rw [Heap.modify_of_ne _ here] at held
    exact flagged other cell held

theorem yields_writeNext (next : Nat) :
    Yields NamesFlagged (writeNext items address next) :=
  Yields.map fun _ _ => flagged.modify fun _ old => old

theorem yields_writePrev (prev : Nat) :
    Yields NamesFlagged (writePrev items address prev) :=
  Yields.map fun _ _ => flagged.modify fun _ old => old

theorem yields_writeChild (child : Nat) :
    Yields NamesFlagged (writeChild items address child) :=
  Yields.map fun _ _ => flagged.modify fun _ old => old

theorem yields_writeData {change : Item Double → Item Double}
    (same : ∀ data, (change data).Flagged) :
    Yields NamesFlagged (writeData items address change) :=
  Yields.map fun _ _ => flagged.modify fun cell _ => same cell.data

theorem NamesFlagged.insert {cell : Cell (Item Double)}
    (new : cell.data.Flagged) :
    NamesFlagged (Function.update items address (some cell)) := by
  intro other found held
  by_cases here : other = address
  · subst here
    rw [Function.update_self, Option.some.injEq] at held
    exact held ▸ new
  · rw [Function.update_of_ne here] at held
    exact flagged other found held

theorem NamesFlagged.erase (addresses : List Nat) :
    NamesFlagged (items.erase addresses) := by
  intro other cell held
  by_cases gone : other ∈ addresses
  · rw [Heap.erase_of_mem _ gone] at held
    cases held
  · rw [Heap.erase_of_notMem _ gone] at held
    exact flagged other cell held

theorem yields_delete (fuel c : Nat) :
    Yields NamesFlagged (cJsonDelete fuel items c) := by
  induction fuel generalizing items c with
  | zero => exact Yields.none
  | succ fuel induction =>
      refine Yields.ite (Yields.some flagged) (Yields.read fun cell => ?_)
      refine Yields.bind
        (Yields.ite (induction flagged _) (Yields.some flagged))
        fun items flagged => ?_
      exact Yields.read fun _ => induction (flagged.erase _) _

theorem yields_suffixObject (prev item : Nat) :
    Yields NamesFlagged (suffixObject items prev item) :=
  Yields.bind (yields_writeNext flagged _) fun _ flagged =>
    yields_writePrev flagged _

theorem yields_createReference (item fresh : Nat) :
    Yields (fun result => NamesFlagged result.2)
      (createReference items item fresh) := by
  refine Yields.ite (Yields.some flagged) (Yields.read fun cell => ?_)
  exact Yields.some (flagged.insert (flagged_of_unnamed rfl))

theorem yields_addItemToArray (fuel array item : Nat) :
    Yields NamesFlagged (cJsonAddItemToArray fuel items array item) := by
  refine Yields.read fun owner => Yields.ite (Yields.some flagged) ?_
  refine Yields.ite (yields_writeChild flagged _) (Yields.read fun c => ?_)
  exact yields_suffixObject flagged c item

theorem yields_addItemToObject (fuel object : Nat) (string : List Byte)
    (item : Nat) :
    Yields NamesFlagged
      (cJsonAddItemToObject fuel items object string item) := by
  refine Yields.ite (Yields.some flagged) (Yields.read fun cell => ?_)
  refine Yields.ite Yields.none ?_
  exact Yields.bind (yields_writeData flagged (flagged_rename string))
    fun _ flagged => yields_addItemToArray flagged _ _ _

theorem yields_detachItemFromArray (array : Nat) (which : Int) :
    Yields (fun result => NamesFlagged result.2)
      (cJsonDetachItemFromArray items array which) := by
  refine Yields.read fun owner => Yields.read fun c => ?_
  refine Yields.ite (Yields.some flagged) (Yields.read fun cell => ?_)
  refine Yields.bind
    (Yields.ite (Yields.some flagged) (yields_writeNext flagged _))
    fun items flagged => Yields.read fun cell => ?_
  refine Yields.bind
    (Yields.ite (Yields.some flagged) (yields_writePrev flagged _))
    fun items flagged => Yields.read fun owner => ?_
  refine Yields.ite (Yields.read fun cell => ?_) (Yields.some flagged)
  refine Yields.bind (yields_writeChild flagged _) fun items flagged => ?_
  refine Yields.bind (yields_writeNext flagged _) fun items flagged => ?_
  exact Yields.bind (yields_writePrev flagged _) fun items flagged =>
    Yields.some flagged

theorem yields_detachItemFromObject (fuel object : Nat)
    (string : List Byte) :
    Yields (fun result => NamesFlagged result.2)
      (cJsonDetachItemFromObject fuel items object string) := by
  refine Yields.read fun owner => Yields.read fun found => ?_
  exact Yields.ite (Yields.some flagged)
    (yields_detachItemFromArray flagged _ _)

theorem yields_insertItemInArray (fuel array : Nat) (which : Int)
    (newitem : Nat) :
    Yields NamesFlagged
      (cJsonInsertItemInArray fuel items array which newitem) := by
  refine Yields.read fun owner => Yields.read fun c => ?_
  refine Yields.ite (yields_addItemToArray flagged _ _ _) ?_
  refine Yields.bind (yields_writeNext flagged _) fun items flagged => ?_
  refine Yields.read fun cell => ?_
  refine Yields.bind (yields_writePrev flagged _) fun items flagged => ?_
  refine Yields.bind (yields_writePrev flagged _) fun items flagged => ?_
  refine Yields.read fun owner => Yields.ite (yields_writeChild flagged _) ?_
  exact Yields.read fun new => yields_writeNext flagged _

theorem yields_replaceItemInArray (fuel array : Nat) (which : Int)
    (newitem : Nat) :
    Yields NamesFlagged
      (cJsonReplaceItemInArray fuel items array which newitem) := by
  refine Yields.read fun owner => Yields.read fun c => ?_
  refine Yields.ite (Yields.some flagged) (Yields.read fun cell => ?_)
  refine Yields.bind (yields_writeNext flagged _) fun items flagged => ?_
  refine Yields.read fun cell => ?_
  refine Yields.bind (yields_writePrev flagged _) fun items flagged => ?_
  refine Yields.read fun new => ?_
  refine Yields.bind
    (Yields.ite (Yields.some flagged) (yields_writePrev flagged _))
    fun items flagged => ?_
  refine Yields.read fun owner => Yields.read fun new => ?_
  refine Yields.bind
    (Yields.ite (yields_writeChild flagged _) (yields_writeNext flagged _))
    fun items flagged => ?_
  refine Yields.bind (yields_writePrev flagged _) fun items flagged => ?_
  exact Yields.bind (yields_writeNext flagged _) fun items flagged =>
    yields_delete flagged _ _

/-- Every call keeps the flags of constant names. -/
theorem yields_run (arithmetic : Arithmetic Double) (fuel : Nat)
    (call : Call Double) :
    Yields (fun result => NamesFlagged result.2)
      (call.run arithmetic fuel items) := by
  cases call with
  | create kind fresh =>
      refine Yields.some ?_
      rw [cJsonNewItem]
      split
      · exact flagged
      · refine flagged.insert (flagged_of_unnamed ?_)
        cases kind <;> rfl
  | addItemToArray array item =>
      exact Yields.map (yields_addItemToArray flagged _ _ _)
  | addItemToObject object string item =>
      exact Yields.map (yields_addItemToObject flagged _ _ _ _)
  | addItemToObjectCS object string item =>
      refine Yields.map (Yields.ite (Yields.some flagged) ?_)
      exact Yields.bind (yields_writeData flagged (flagged_renameConst string))
        fun _ flagged => yields_addItemToArray flagged _ _ _
  | addItemReferenceToArray array item fresh =>
      exact Yields.map (Yields.bind (yields_createReference flagged _ _)
        fun _ flagged => yields_addItemToArray flagged _ _ _)
  | addItemReferenceToObject object string item fresh =>
      exact Yields.map (Yields.bind (yields_createReference flagged _ _)
        fun _ flagged => yields_addItemToObject flagged _ _ _ _)
  | insertItemInArray array which newitem =>
      exact Yields.map (yields_insertItemInArray flagged _ _ _ _)
  | detachItemFromArray array which =>
      exact yields_detachItemFromArray flagged _ _
  | detachItemFromObject object string =>
      exact yields_detachItemFromObject flagged _ _ _
  | deleteItemFromArray array which =>
      exact Yields.map (Yields.bind (yields_detachItemFromArray flagged _ _)
        fun _ flagged => yields_delete flagged _ _)
  | deleteItemFromObject object string =>
      exact Yields.map (Yields.bind (yields_detachItemFromObject flagged _ _ _)
        fun _ flagged => yields_delete flagged _ _)
  | replaceItemInArray array which newitem =>
      exact Yields.map (yields_replaceItemInArray flagged _ _ _ _)
  | replaceItemInObject object string newitem =>
      refine Yields.map (Yields.read fun owner => Yields.read fun found => ?_)
      refine Yields.ite (Yields.some flagged) ?_
      exact Yields.bind (yields_writeData flagged (flagged_rename string))
        fun _ flagged => yields_replaceItemInArray flagged _ _ _ _
  | delete c => exact Yields.map (yields_delete flagged _ _)

end Names

/-! ## Whole runs -/

section Runs

variable (arithmetic : Arithmetic Double)

/-- A sequence of calls, one after the other. -/
def runCalls (fuel : Nat) :
    Items Double → List (Call Double) → Option (Items Double)
  | items, [] => some items
  | items, call :: rest => do
      let (_, items) ← call.run arithmetic fuel items
      runCalls fuel items rest

/-- The trees after a sequence of calls. -/
def effects (roots : List (Forest (Item Double)))
    (calls : List (Call Double)) : List (Forest (Item Double)) :=
  calls.foldl (Call.effect arithmetic) roots

/-- Every call gets what it may get after the calls before it. -/
def LegalRun : List (Forest (Item Double)) → List (Call Double) → Prop
  | _, [] => True
  | roots, call :: rest =>
      call.Legal roots ∧ LegalRun (call.effect arithmetic roots) rest

variable {arithmetic} {items : Items Double}
variable {roots : List (Forest (Item Double))} {calls : List (Call Double)}

theorem runCalls_holds (holds : Holds Item.isReference items roots)
    (legal : LegalRun arithmetic roots calls) :
    Leads (fun fuel => runCalls arithmetic fuel items calls)
      (effects arithmetic roots calls) := by
  induction calls generalizing items roots with
  | nil => exact ⟨items, ⟨0, fun fuel _ => rfl⟩, holds⟩
  | cons call rest induction =>
      have given : Gives (fun fuel => call.run arithmetic fuel items)
          (call.result roots) (call.effect arithmetic roots) :=
        Call.gives legal.1 holds
      rcases given with ⟨after, ⟨first, returns⟩, kept⟩
      rcases induction kept legal.2 with ⟨final, ⟨last, rested⟩, held⟩
      refine ⟨final, ⟨max first last, fun fuel enough => ?_⟩, held⟩
      rw [max_le_iff] at enough
      change runCalls arithmetic fuel items (call :: rest) = _
      rw [runCalls]
      have step : call.run arithmetic fuel items = _ := returns fuel enough.1
      rw [step]
      exact rested fuel enough.2

/-- A run keeps the flags of constant names. -/
theorem yields_runCalls (flagged : NamesFlagged items) (fuel : Nat) :
    Yields NamesFlagged (runCalls arithmetic fuel items calls) := by
  induction calls generalizing items with
  | nil => exact Yields.some flagged
  | cons call rest induction =>
      exact Yields.bind (yields_run flagged arithmetic fuel call)
        fun _ flagged => induction flagged

/-- What the functions that only read tell about a node. -/
def Tells (items : Items Double) (roots : List (Forest (Item Double))) :
    Prop :=
  ∀ array, Owns roots array →
    (∀ fuel, (childrenOf roots array).length < fuel →
      cJsonGetArraySize fuel items array =
        some (childrenOf roots array).length ∧
      ∀ string,
        cJsonGetObjectItem fuel items array string =
          some (((childrenOf roots array).drop
            (position string (childrenOf roots array))).first 0)) ∧
    ∀ item : Int,
      cJsonGetArrayItem items array item =
        some (((childrenOf roots array).drop item.toNat).first 0)

theorem tells_of_holds (holds : Holds Item.isReference items roots) :
    Tells items roots := by
  intro array owns
  rcases owns.locate holds with
    ⟨owner, others, data, together, found, own, below, -⟩
  have top := together.stored owner (List.mem_cons_self ..)
  rcases top.1.childrenAt found own with ⟨cell, arrayCell, first, -, stored⟩
  rw [below]
  refine ⟨fun fuel enough => ⟨?_, fun string => ?_⟩, fun item => ?_⟩
  · rw [cJsonGetArraySize, arrayCell]
    dsimp only [Option.bind_eq_bind, Option.bind_some]
    rw [first]
    exact countSiblings_eq stored enough
  · rw [cJsonGetObjectItem, arrayCell]
    dsimp only [Option.bind_eq_bind, Option.bind_some]
    rw [first, namedSibling_eq stored string 0 enough]
    rfl
  · rw [cJsonGetArrayItem, arrayCell]
    dsimp only [Option.bind_eq_bind, Option.bind_some]
    rw [first]
    exact siblingAt_eq stored _

/--
A sequence of calls on an empty heap, each of which gets what it may get,
returns; the heap then holds exactly the trees that the calls describe, every
constant name has its flag, and the functions that read a node which owns its
children tell them.
-/
theorem calls_keep_trees (legal : LegalRun arithmetic [] calls) :
    ∃ items,
      (∃ bound, ∀ fuel, bound ≤ fuel →
        runCalls arithmetic fuel (fun _ => none) calls = some items) ∧
      Holds Item.isReference items (effects arithmetic [] calls) ∧
      NamesFlagged items ∧ Tells items (effects arithmetic [] calls) := by
  rcases runCalls_holds holds_nil legal with ⟨items, returns, holds⟩
  refine ⟨items, returns, holds, ?_, tells_of_holds holds⟩
  rcases returns with ⟨bound, returns⟩
  have empty : NamesFlagged (fun _ => none : Items Double) := by
    rintro _ _ ⟨⟩
  exact yields_runCalls empty bound items (returns bound le_rfl)

theorem calls_keep_trees_array :
    ∃ items,
      (∃ bound, ∀ fuel, bound ≤ fuel →
        runCalls rational fuel (fun _ => none)
            [.create .array 1, .create .null 2, .addItemToArray 1 2] =
          some items) ∧
      Holds Item.isReference items
        [.node 1 (Kind.array.item rational)
          (.node 2 (Kind.null.item rational) .nil .nil) .nil] ∧
      NamesFlagged items ∧
      Tells items
        [.node 1 (Kind.array.item rational)
          (.node 2 (Kind.null.item rational) .nil .nil) .nil] :=
  calls_keep_trees
    ⟨List.not_mem_nil, by simp [Call.Legal, Call.effect, cells,
      Forest.addresses], Or.inr ⟨rfl, ⟨_, rfl, rfl⟩⟩, trivial⟩

end Runs

/-! ## The condition for detached and deleted items is exact -/

section Exact

/-- A cell is there, or not, whatever its pointers are. -/
theorem setPrev_cases (items : Items Double) (address prev c : Nat) :
    items.setPrev address prev c = none ∧ items c = none ∨
      ∃ cell other,
        items c = some cell ∧
          items.setPrev address prev c = some { cell with prev := other } := by
  cases here : items c with
  | none =>
      refine Or.inl ⟨?_, rfl⟩
      have held : (items.setPrev address prev c).isSome = (items c).isSome :=
        Heap.isSome_setPrev ..
      rw [here] at held
      exact Option.not_isSome_iff_eq_none.mp (by rw [held]; simp)
  | some cell =>
      by_cases same : c = address
      · subst same
        exact Or.inr ⟨cell, prev, rfl, Heap.setPrev_self _ _ here⟩
      · refine Or.inr ⟨cell, cell.prev, rfl, ?_⟩
        rw [Heap.setPrev_of_ne _ _ same, here]

/-- Items are freed without a look at their pointers to previous items. -/
theorem cJsonDelete_setPrev (items : Items Double) (address prev : Nat)
    (fuel c : Nat) :
    cJsonDelete fuel (items.setPrev address prev) c =
      (cJsonDelete fuel items c).map fun after =>
        after.setPrev address prev := by
  induction fuel generalizing items c with
  | zero => rfl
  | succ fuel induction =>
      rw [cJsonDelete, cJsonDelete]
      by_cases null : c = 0
      · rw [if_pos null, if_pos null]
        rfl
      rw [if_neg null, if_neg null]
      rcases setPrev_cases items address prev c with
        ⟨missing, here⟩ | ⟨cell, other, here, changed⟩
      · rw [missing, here]
        rfl
      have children :
          (if !cell.data.isReference && cell.child != 0 then
              cJsonDelete fuel (items.setPrev address prev) cell.child
            else some (items.setPrev address prev)) =
            (if !cell.data.isReference && cell.child != 0 then
              cJsonDelete fuel items cell.child
            else some items).map fun after =>
              after.setPrev address prev := by
        split
        · exact induction items cell.child
        · rfl
      rw [changed, here]
      dsimp only [Option.bind_eq_bind, Option.bind_some]
      rw [children, Option.bind_map, Option.map_bind]
      congr 1
      funext after
      dsimp only [Function.comp]
      rcases setPrev_cases after address prev c with
        ⟨missing, here⟩ | ⟨cell, other, here, changed⟩
      · rw [missing, here]
        rfl
      · rw [changed, here, Option.bind_some, Option.bind_some, Heap.setPrev,
          Heap.erase_modify_comm]
        exact induction ..

variable {items : Items Double} {owner : Forest (Item Double)}
variable {others : List (Forest (Item Double))} {data value : Item Double}
variable {front back below : Forest (Item Double)} {array address : Nat}
variable {which : Int}

/-- An item that is not the first one is left with its pointers. -/
theorem detach_later
    (holds : Holds Item.isReference items (owner :: others))
    (found : owner.dataAt array = some data)
    (owns : data.isReference = false)
    (split :
      owner.childrenAt array = front.append (.node address value below back))
    (place :
      (owner.childrenAt array).drop which.toNat =
        .node address value below back)
    (later : front ≠ .nil) :
    ∃ pointer,
      cJsonDetachItemFromArray items array which =
          some (address, items.link (front.last 0) (back.first 0)) ∧
        items.link (front.last 0) (back.first 0) address =
          some ⟨back.first 0, front.last 0, pointer, value⟩ ∧
        front.last 0 ≠ 0 := by
  have detached := detach_eq holds found owns split place
  have top := holds.stored owner (List.mem_cons_self ..)
  rcases top.1.childrenAt found owns with ⟨-, -, -, -, stored⟩
  have nodup := (List.nodup_append.mp (holds.nodup_children found)).1
  rw [split] at detached stored nodup
  have apart : address ≠
      (front.append (.node address value below back)).first 0 :=
    (first_eq_iff nodup (by simp)).not.mpr later
  rcases exists_cell stored with ⟨-, pointer, cell⟩
  rcases stored.around nodup with ⟨before, -, -, -, -, away⟩
  rw [if_neg apart] at detached
  refine ⟨pointer, detached, ?_, before.ne_zero (Forest.last_mem later 0)⟩
  rw [link_outside (away address (List.mem_cons_self ..)).1
    (away address (List.mem_cons_self ..)).2, cell]

/--
With an item between others all items behind it are freed, and the item in
front of it is linked to the first of them.
-/
theorem delete_middle
    (holds : Holds Item.isReference items (owner :: others))
    (found : owner.dataAt array = some data)
    (owns : data.isReference = false)
    (split :
      owner.childrenAt array = front.append (.node address value below back))
    (place :
      (owner.childrenAt array).drop which.toNat =
        .node address value below back)
    (later : front ≠ .nil) (more : back ≠ .nil) :
    ∃ after,
      (∃ bound, ∀ fuel, bound ≤ fuel →
        cJsonDeleteItemFromArray fuel items array which = some after) ∧
      (∀ other ∈ back.addresses, after other = none) ∧
      ∃ cell, after (front.last 0) = some cell ∧ cell.next = back.first 0 := by
  rcases detach_later holds found owns split place later with
    ⟨pointer, detached, -, -⟩
  have top := holds.stored owner (List.mem_cons_self ..)
  rcases top.1.childrenAt found owns with ⟨-, -, -, -, stored⟩
  have nodup := (List.nodup_append.mp (holds.nodup_children found)).1
  rw [split] at stored nodup
  rcases stored.around nodup with ⟨before, behind, -, -, -, away⟩
  rcases Option.isSome_iff_exists.mp
      (before.isSome (Forest.last_mem later 0)) with ⟨neighbour, frontCell⟩
  have tail := (stored_append.mp stored).2
  rw [Forest.addresses_append, List.nodup_append] at nodup
  rcases exists_first behind more with ⟨next, child, inner, backCell⟩
  have inBack := Forest.first_mem more 0
  have apart {other : Nat}
      (member : other ∈ (Forest.node address value below back).addresses) :
      other ≠ front.last 0 := fun same =>
    nodup.2.2 _ (Forest.last_mem later 0) _ member same.symm
  have isBack : back.first 0 ∈
      (Forest.node address value below back).addresses :=
    List.mem_cons_of_mem _ (List.mem_append_right _ inBack)
  -- with the pointer to the item put back, its list of siblings is complete
  have whole : Stored Item.isReference
      ((items.link (front.last 0) (back.first 0)).setPrev (back.first 0)
        address) (front.last 0) 0 (.node address value below back) := by
    apply tail.congr
    intro other member
    by_cases same : other = back.first 0
    · rw [same, backCell]
      exact Heap.setPrev_self _ _
        (items.link_right (apart isBack) (behind.ne_zero inBack) backCell)
    · rw [Heap.setPrev_of_ne _ _ same]
      exact Heap.link_of_ne _ (fun _ => apart member) (fun _ => same)
  refine ⟨((items.link (front.last 0) (back.first 0)).setPrev (back.first 0)
      address).erase (Forest.node address value below back).addresses,
    ⟨(Forest.node address value below back).addresses.length + 1,
      fun fuel enough => ?_⟩, ?_⟩
  case refine_2 =>
    constructor
    · intro other member
      apply Heap.erase_of_mem
      exact List.mem_cons_of_mem _ (List.mem_append_right _ member)
    · have linked := items.link_left (apart isBack).symm
        (before.ne_zero (Forest.last_mem later 0)) frontCell
      refine ⟨{ neighbour with next := back.first 0 }, ?_, rfl⟩
      rw [Heap.erase_of_notMem _ fun member => apart member rfl,
        Heap.setPrev_of_ne _ _ (apart isBack).symm, linked]
  have deleted := cJsonDelete_eq whole nodup.2.1 enough
  rw [Forest.first_node, cJsonDelete_setPrev,
    Option.map_eq_some_iff] at deleted
  rcases deleted with ⟨after, returns, same⟩
  have freed : after (back.first 0) = none := by
    have gone := congrFun same (back.first 0)
    rw [Heap.erase_of_mem _ isBack, Heap.setPrev, Heap.modify_self,
      Option.map_eq_none_iff] at gone
    exact gone
  rw [cJsonDeleteItemFromArray, detached]
  dsimp only [Option.bind_eq_bind, Option.bind_some]
  rw [returns, ← same]
  exact congrArg some (Heap.modify_of_none _ freed _).symm

variable {roots : List (Forest (Item Double))}

/--
For an item that is there, the pointers of a detached item are clean exactly if
it was the first one.  The items that are left after a deletion are the
description's exactly if the deleted item was the first or the last one; unless
it was the first one, all items behind it are freed, and the item in front of it
is linked to the first of them.
-/
theorem clean_iff (holds : Holds Item.isReference items roots)
    (owns : Owns roots array)
    (inside : which.toNat < (childrenOf roots array).length) :
    (∃ after,
      cJsonDetachItemFromArray items array which =
        some (((childrenOf roots array).drop which.toNat).first 0, after) ∧
      (Holds Item.isReference after
          (takeOut roots array which.toNat ++
            taken roots array which.toNat) ↔ which.toNat = 0)) ∧
    ∃ after,
      (∃ bound, ∀ fuel, bound ≤ fuel →
        cJsonDeleteItemFromArray fuel items array which = some after) ∧
      (Holds Item.isReference after (takeOut roots array which.toNat) ↔
        which.toNat = 0 ∨
          which.toNat + 1 = (childrenOf roots array).length) ∧
      (which.toNat ≠ 0 →
        ∀ address ∈
            ((childrenOf roots array).drop (which.toNat + 1)).addresses,
          after address = none) ∧
      (which.toNat ≠ 0 →
        which.toNat + 1 ≠ (childrenOf roots array).length →
        ∃ cell,
          after (((childrenOf roots array).take which.toNat).last 0) =
              some cell ∧
            cell.next =
              ((childrenOf roots array).drop (which.toNat + 1)).first 0) := by
  have located := owns.locate holds
  rcases located with
    ⟨owner, others, data, together, found, own, below, exchanged⟩
  have split := (owner.childrenAt array).take_append_drop which.toNat
  cases place : (owner.childrenAt array).drop which.toNat with
  | nil =>
      rw [Forest.drop_eq_nil_iff, ← below] at place
      omega
  | node address value child back =>
      rw [place] at split
      have next := Forest.drop_succ place
      have lengths :
          which.toNat + 1 = (childrenOf roots array).length ↔ back = .nil := by
        rw [← next, Forest.drop_eq_nil_iff, ← below]
        omega
      have first : (owner.childrenAt array).take which.toNat = .nil ↔
          which.toNat = 0 := by
        rw [Forest.take_eq_nil_iff]
        refine or_iff_left ?_
        intro empty
        rw [below, empty] at inside
        cases inside
      have here := below.symm ▸ place
      have behind := below.symm ▸ next
      rw [here, behind, Forest.first_node, Ne, Ne, lengths]
      constructor
      · by_cases zero : which.toNat = 0
        · rcases gives_detach holds owns which (Or.inl zero) with
            ⟨after, detached, kept⟩
          rw [here, Forest.first_node] at detached
          exact ⟨after, detached, iff_of_true kept zero⟩
        · rcases detach_later together found own split.symm place
            (first.not.mpr zero) with ⟨pointer, detached, cell, nonnull⟩
          refine ⟨_, detached, iff_of_false (fun kept => ?_) zero⟩
          have alone := kept.stored (.node address value child .nil) (by
            rw [taken, here]
            exact List.mem_append_right _ (List.mem_cons_self ..))
          rcases alone.1 with ⟨-, ⟨other, clean, -⟩, -, -⟩
          rw [cell, Option.some.injEq, Cell.mk.injEq] at clean
          exact nonnull clean.2.1
      · by_cases ends : which.toNat = 0 ∨ back = .nil
        · have clean : which.toNat = 0 ∨
              (childrenOf roots array).length ≤ which.toNat + 1 :=
            ends.imp_right fun last => (lengths.mpr last).ge
          rcases gives_deleteItem holds owns which clean with
            ⟨after, ⟨bound, deleted⟩, kept⟩
          refine ⟨after, ⟨bound, fun fuel enough => ?_⟩,
            iff_of_true kept ends, ?_,
            fun nonzero more => absurd ends (not_or.mpr ⟨nonzero, more⟩)⟩
          · rcases Option.map_eq_some_iff.mp (deleted fuel enough) with
              ⟨final, returns, same⟩
            cases same
            exact returns
          · intro nonzero other member
            rw [ends.resolve_left nonzero] at member
            cases member
        · rw [not_or] at ends
          rcases delete_middle together found own split.symm place
            (first.not.mpr ends.1) ends.2 with
            ⟨after, deleted, freed, linked⟩
          rw [← below] at linked
          refine ⟨after, deleted, iff_of_false (fun kept => ?_)
            (not_or.mpr ends), fun _ => freed, fun _ _ => linked⟩
          have member := Forest.first_mem ends.2 0
          have allocated : (after (back.first 0)).isSome := by
            rw [kept.allocated, takeOut, below]
            refine ((exchanged _).flatMap_right _).mem_iff.mpr
              (mem_cells_setChildren together.separate found ?_)
            rw [dropAt, next, Forest.addresses_append]
            exact List.mem_append_right _ member
          rw [freed _ member] at allocated
          cases allocated

/-- An array of two items. -/
def twoItems : List (Forest (Item ℚ)) :=
  [.node 1 (Kind.array.item rational)
    (.node 2 (Kind.null.item rational) .nil
      (.node 3 (Kind.null.item rational) .nil .nil)) .nil]

theorem exists_twoItems :
    ∃ items, Holds Item.isReference items twoItems := by
  have legal : LegalRun rational []
      [.create .array 1, .create .null 2, .create .null 3,
        .addItemToArray 1 2, .addItemToArray 1 3] :=
    ⟨List.not_mem_nil,
      by simp [Call.Legal, Call.effect, cells, Forest.addresses],
      by simp [Call.Legal, Call.effect, cells, Forest.addresses],
      Or.inr ⟨rfl, ⟨_, rfl, rfl⟩⟩, Or.inr ⟨rfl, ⟨_, rfl, rfl⟩⟩, trivial⟩
  rcases runCalls_holds holds_nil legal with ⟨items, -, holds⟩
  exact ⟨items, holds⟩

theorem clean_iff_second :
    ∃ items after,
      cJsonDetachItemFromArray items 1 1 = some (3, after) ∧
        ¬ Holds Item.isReference after
          (takeOut twoItems 1 1 ++ taken twoItems 1 1) := by
  rcases exists_twoItems with ⟨items, holds⟩
  have owns : Owns twoItems 1 := ⟨_, rfl, rfl⟩
  rcases (clean_iff holds owns (show (1 : Int).toNat < _ by decide)).1 with
    ⟨after, detached, exact⟩
  exact ⟨items, after, detached, exact.not.mpr (by decide)⟩

end Exact

end CommonCode.Json.Linked
