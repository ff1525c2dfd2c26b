import CommonCode.Json.Builders
import CommonCode.Lib.Holding

/-!
# The items of cJSON on the heap

The functions that build and change trees of items through the pointers `next`,
`prev` and `child`.  An access to an item that is not allocated fails.  What
`malloc` returns for a new item is an argument, with the null pointer for a
failure; the strings of an item are part of it, and their copies succeed.

A name is a copy of the function's own or, behind `cJSON_AddItemToObjectCS`,
a constant of the caller, which `cJSON_free` must not get.  The frees of a name
behind a test of `cJSON_StringIsConst` get none, as every constant name has the
flag; `cJSON_AddItemToObject` frees without the test, and fails here on a
constant name.

Loops along the siblings of an item end after a number of turns that is an
argument, as nothing in the source keeps the siblings from being cyclic.
-/

namespace CommonCode.Json.Linked

open CommonCode.Lib.Bits
open CommonCode.Lib.Siblings

variable {Double : Type}

/-! ## Items -/

/-- A name, with where it comes from: `cJSON_strdup` or the caller. -/
inductive Name where
  | copied (text : List Byte)
  | constant (text : List Byte)
deriving DecidableEq

def Name.text : Name → List Byte
  | copied text => text
  | constant text => text

/-- The fields of the structure `cJSON` that are no pointers to items. -/
structure Item (Double : Type) where
  type : BitVec 32
  valuestring : Option (List Byte)
  valueint : BitVec 32
  valuedouble : Double
  string : Option Name

abbrev Items (Double : Type) := Heap (Item Double)

/-- The constant `cJSON_IsReference`. -/
def cJsonIsReference : BitVec 32 := 256

/-- The constant `cJSON_StringIsConst`. -/
def cJsonStringIsConst : BitVec 32 := 512

def Item.isReference (item : Item Double) : Bool :=
  item.type &&& cJsonIsReference != 0

def Item.stringIsConst (item : Item Double) : Bool :=
  item.type &&& cJsonStringIsConst != 0

/-- The name is none that `cJSON_free` may get. -/
def Item.hasConstantName (item : Item Double) : Bool :=
  match item.string with
  | some (.constant _) => true
  | _ => false

/-- The items that the functions `cJSON_Create...` make. -/
inductive Kind (Double : Type) where
  | null
  | bool (value : Bool)
  | number (num : Double)
  | text (string : List Byte)
  | array
  | object

def Kind.item (arithmetic : Arithmetic Double) : Kind Double → Item Double
  | .null => ⟨2, none, 0, arithmetic.ofInt 0, none⟩
  | .bool value => ⟨if value then 1 else 0, none, 0, arithmetic.ofInt 0, none⟩
  | .number num => ⟨3, none, arithmetic.toInt num, num, none⟩
  | .text string => ⟨4, some string, 0, arithmetic.ofInt 0, none⟩
  | .array => ⟨5, none, 0, arithmetic.ofInt 0, none⟩
  | .object => ⟨6, none, 0, arithmetic.ofInt 0, none⟩

/-! ## Accesses -/

section Accesses

variable (items : Items Double)

def writeNext (address next : Nat) : Option (Items Double) :=
  (items address).map fun _ => items.setNext address next

def writePrev (address prev : Nat) : Option (Items Double) :=
  (items address).map fun _ => items.setPrev address prev

def writeChild (address child : Nat) : Option (Items Double) :=
  (items address).map fun _ => items.setChild address child

def writeData (address : Nat) (change : Item Double → Item Double) :
    Option (Items Double) :=
  (items address).map fun _ =>
    items.modify address fun cell => { cell with data := change cell.data }

/-- `while (c && which>0) c=c->next,which--;` -/
def siblingAt : Nat → Nat → Option Nat
  | 0, c => some c
  | which + 1, c =>
      if c = 0 then some 0
      else do
        let cell ← items c
        siblingAt which cell.next

/-- `while (c && c->next) c=c->next;` -/
def lastSibling : Nat → Nat → Option Nat
  | 0, _ => none
  | fuel + 1, c =>
      if c = 0 then some 0
      else do
        let cell ← items c
        if cell.next = 0 then some c else lastSibling fuel cell.next

/-- `while (c && cJSON_strcasecmp(c->string,string)) i++,c=c->next;` -/
def namedSibling (string : List Byte) : Nat → Nat → Nat → Option (Nat × Nat)
  | 0, _, _ => none
  | fuel + 1, i, c =>
      if c = 0 then some (i, 0)
      else do
        let cell ← items c
        if cell.data.string.elim false fun name =>
            cJsonStrcasecmp name.text string = 0 then some (i, c)
        else namedSibling string fuel (i + 1) cell.next

/-- `while(c)i++,c=c->next;` -/
def countSiblings : Nat → Nat → Option Nat
  | 0, _ => none
  | fuel + 1, c =>
      if c = 0 then some 0
      else do
        let cell ← items c
        let count ← countSiblings fuel cell.next
        some (count + 1)

end Accesses

/-! ## The functions -/

section Functions

/-- `cJSON_New_Item`, with the fields that its caller fills in. -/
def cJsonNewItem (items : Items Double) (item : Item Double) (fresh : Nat) :
    Nat × Items Double :=
  if fresh = 0 then (0, items)
  else (fresh, Function.update items fresh (some ⟨0, 0, 0, item⟩))

/--
The items behind an item are freed with it, and the strings of each with it:
`valuestring` unless the item is a reference, `string` unless the flag
`cJSON_StringIsConst` is set.
-/
def cJsonDelete : Nat → Items Double → Nat → Option (Items Double)
  | 0, _, _ => none
  | fuel + 1, items, c =>
      if c = 0 then some items
      else do
        let cell ← items c
        let items ←
          (if !cell.data.isReference && cell.child != 0 then
            cJsonDelete fuel items cell.child
          else some items)
        let _ ← items c
        cJsonDelete fuel (items.erase [c]) cell.next

def suffixObject (items : Items Double) (prev item : Nat) :
    Option (Items Double) := do
  let items ← writeNext items prev item
  writePrev items item prev

def createReference (items : Items Double) (item fresh : Nat) :
    Option (Nat × Items Double) :=
  if fresh = 0 then some (0, items)
  else do
    let cell ← items item
    some (fresh, Function.update items fresh
      (some ⟨0, 0, cell.child, { cell.data with
        type := cell.data.type ||| cJsonIsReference
        string := none }⟩))

variable (fuel : Nat) (items : Items Double)

def cJsonGetArraySize (array : Nat) : Option Nat := do
  let owner ← items array
  countSiblings items fuel owner.child

def cJsonGetArrayItem (array : Nat) (item : Int) : Option Nat := do
  let owner ← items array
  siblingAt items item.toNat owner.child

def cJsonGetObjectItem (object : Nat) (string : List Byte) : Option Nat := do
  let owner ← items object
  let found ← namedSibling items string fuel 0 owner.child
  some found.2

def cJsonAddItemToArray (array item : Nat) : Option (Items Double) := do
  let owner ← items array
  if item = 0 then some items
  else if owner.child = 0 then writeChild items array item
  else do
    let c ← lastSibling items fuel owner.child
    suffixObject items c item

def cJsonAddItemToObject (object : Nat) (string : List Byte) (item : Nat) :
    Option (Items Double) :=
  if item = 0 then some items
  else do
    let cell ← items item
    if cell.data.hasConstantName then none
    else do
      let items ← writeData items item fun data =>
        { data with string := some (.copied string) }
      cJsonAddItemToArray fuel items object item

def cJsonAddItemToObjectCS (object : Nat) (string : List Byte) (item : Nat) :
    Option (Items Double) :=
  if item = 0 then some items
  else do
    let items ← writeData items item fun data =>
      { data with
        string := some (.constant string)
        type := data.type ||| cJsonStringIsConst }
    cJsonAddItemToArray fuel items object item

def cJsonAddItemReferenceToArray (array item fresh : Nat) :
    Option (Items Double) := do
  let (ref, items) ← createReference items item fresh
  cJsonAddItemToArray fuel items array ref

def cJsonAddItemReferenceToObject (object : Nat) (string : List Byte)
    (item fresh : Nat) : Option (Items Double) := do
  let (ref, items) ← createReference items item fresh
  cJsonAddItemToObject fuel items object string ref

/-- Only the first item of an array is cut off from its neighbours. -/
def cJsonDetachItemFromArray (array : Nat) (which : Int) :
    Option (Nat × Items Double) := do
  let owner ← items array
  let c ← siblingAt items which.toNat owner.child
  if c = 0 then some (0, items)
  else do
    let cell ← items c
    let items ←
      (if cell.prev = 0 then some items
      else writeNext items cell.prev cell.next)
    let cell ← items c
    let items ←
      (if cell.next = 0 then some items
      else writePrev items cell.next cell.prev)
    let owner ← items array
    if c = owner.child then do
      let cell ← items c
      let items ← writeChild items array cell.next
      let items ← writeNext items c 0
      let items ← writePrev items c 0
      some (c, items)
    else some (c, items)

def cJsonDeleteItemFromArray (array : Nat) (which : Int) :
    Option (Items Double) := do
  let (c, items) ← cJsonDetachItemFromArray items array which
  cJsonDelete fuel items c

def cJsonDetachItemFromObject (object : Nat) (string : List Byte) :
    Option (Nat × Items Double) := do
  let owner ← items object
  let (i, c) ← namedSibling items string fuel 0 owner.child
  if c = 0 then some (0, items)
  else cJsonDetachItemFromArray items object i

def cJsonDeleteItemFromObject (object : Nat) (string : List Byte) :
    Option (Items Double) := do
  let (c, items) ← cJsonDetachItemFromObject fuel items object string
  cJsonDelete fuel items c

def cJsonInsertItemInArray (array : Nat) (which : Int) (newitem : Nat) :
    Option (Items Double) := do
  let owner ← items array
  let c ← siblingAt items which.toNat owner.child
  if c = 0 then cJsonAddItemToArray fuel items array newitem
  else do
    let items ← writeNext items newitem c
    let cell ← items c
    let items ← writePrev items newitem cell.prev
    let items ← writePrev items c newitem
    let owner ← items array
    if c = owner.child then writeChild items array newitem
    else do
      let new ← items newitem
      writeNext items new.prev newitem

def cJsonReplaceItemInArray (array : Nat) (which : Int) (newitem : Nat) :
    Option (Items Double) := do
  let owner ← items array
  let c ← siblingAt items which.toNat owner.child
  if c = 0 then some items
  else do
    let cell ← items c
    let items ← writeNext items newitem cell.next
    let cell ← items c
    let items ← writePrev items newitem cell.prev
    let new ← items newitem
    let items ←
      (if new.next = 0 then some items
      else writePrev items new.next newitem)
    let owner ← items array
    let new ← items newitem
    let items ←
      (if c = owner.child then writeChild items array newitem
      else writeNext items new.prev newitem)
    let items ← writePrev items c 0
    let items ← writeNext items c 0
    cJsonDelete fuel items c

def cJsonReplaceItemInObject (object : Nat) (string : List Byte)
    (newitem : Nat) : Option (Items Double) := do
  let owner ← items object
  let (i, c) ← namedSibling items string fuel 0 owner.child
  if c = 0 then some items
  else do
    let items ← writeData items newitem fun data =>
      { data with string := some (.copied string) }
    cJsonReplaceItemInArray fuel items object i newitem

end Functions

/-! ## Loops along the siblings -/

section Loops

variable {items : Items Double} {prev : Nat} {forest : Forest (Item Double)}

theorem siblingAt_eq
    (stored : Stored Item.isReference items prev 0 forest) (which : Nat) :
    siblingAt items which (forest.first 0) =
      some ((forest.drop which).first 0) := by
  induction which generalizing prev forest with
  | zero => cases forest <;> rfl
  | succ which induction =>
      cases forest with
      | nil => rfl
      | node address data child next =>
          rcases stored with ⟨nonzero, ⟨pointer, cell, -⟩, -, later⟩
          rw [Forest.first, siblingAt, if_neg nonzero, cell]
          exact induction later

theorem lastSibling_eq
    (stored : Stored Item.isReference items prev 0 forest)
    (nonempty : forest ≠ .nil) {fuel : Nat} (enough : forest.length ≤ fuel) :
    lastSibling items fuel (forest.first 0) = some (forest.last 0) := by
  induction forest generalizing prev fuel with
  | nil => exact absurd rfl nonempty
  | node address data child next _ induction =>
      rcases stored with ⟨nonzero, ⟨pointer, cell, -⟩, -, later⟩
      cases fuel with
      | zero => simp [Forest.length] at enough
      | succ fuel =>
          rw [Forest.first, lastSibling, if_neg nonzero, cell]
          by_cases single : next = .nil
          · subst single
            rfl
          · have continues : next.first 0 ≠ 0 :=
              later.first_eq_zero_iff.not.mpr single
            have after := induction later single
              (Nat.le_of_succ_le_succ enough)
            cases next with
            | nil => exact absurd rfl single
            | node =>
                exact (if_neg continues).trans after

theorem countSiblings_eq
    (stored : Stored Item.isReference items prev 0 forest) {fuel : Nat}
    (enough : forest.length < fuel) :
    countSiblings items fuel (forest.first 0) = some forest.length := by
  induction forest generalizing prev fuel with
  | nil =>
      cases fuel with
      | zero => cases enough
      | succ fuel => rfl
  | node address data child next _ induction =>
      rcases stored with ⟨nonzero, ⟨pointer, cell, -⟩, -, later⟩
      cases fuel with
      | zero => cases enough
      | succ fuel =>
          have after := induction later (Nat.lt_of_succ_lt_succ enough)
          rw [Forest.first, countSiblings, if_neg nonzero, cell]
          simp only [Option.bind_eq_bind, Option.bind_some, after]
          rfl

/-- The item has a name that the search accepts. -/
def Item.named (string : List Byte) (item : Item Double) : Bool :=
  item.string.elim false fun name => cJsonStrcasecmp name.text string = 0

/-- The position of the first item of a name, or the number of items. -/
def position (string : List Byte) : Forest (Item Double) → Nat
  | .nil => 0
  | .node _ data _ next =>
      if data.named string then 0 else position string next + 1

theorem namedSibling_eq
    (stored : Stored Item.isReference items prev 0 forest)
    (string : List Byte) (i : Nat) {fuel : Nat}
    (enough : forest.length < fuel) :
    namedSibling items string fuel i (forest.first 0) =
      some (i + position string forest,
        (forest.drop (position string forest)).first 0) := by
  induction forest generalizing prev fuel i with
  | nil =>
      cases fuel with
      | zero => cases enough
      | succ fuel => rfl
  | node address data child next _ induction =>
      rcases stored with ⟨nonzero, ⟨pointer, cell, -⟩, -, later⟩
      cases fuel with
      | zero => cases enough
      | succ fuel =>
          have after := induction later (i + 1)
            (Nat.lt_of_succ_lt_succ enough)
          rw [Forest.first, namedSibling, if_neg nonzero, cell, position]
          dsimp only [Option.bind_eq_bind, Option.bind_some]
          change (if data.named string then _ else _) = _
          by_cases named : data.named string = true
          · rw [if_pos named, if_pos named]
            rfl
          · rw [if_neg named, if_neg named, after, Forest.drop]
            congr 2
            omega

/-- An item is freed with its children and with all items behind it. -/
theorem cJsonDelete_eq
    (stored : Stored Item.isReference items prev 0 forest)
    (nodup : forest.addresses.Nodup) {fuel : Nat}
    (enough : forest.addresses.length < fuel) :
    cJsonDelete fuel items (forest.first 0) =
      some (items.erase forest.addresses) := by
  induction forest generalizing prev fuel items with
  | nil =>
      cases fuel with
      | zero => cases enough
      | succ fuel => rfl
  | node address data child next childInduction nextInduction =>
      rcases stored with ⟨nonzero, ⟨pointer, cell, owned⟩, children, later⟩
      rw [Forest.addresses, List.nodup_cons, List.mem_append, not_or,
        List.nodup_append] at nodup
      rcases nodup with ⟨⟨notChild, notNext⟩, childNodup, nextNodup, disjoint⟩
      rw [Forest.addresses, List.length_cons, List.length_append] at enough
      cases fuel with
      | zero => cases enough
      | succ fuel =>
          have freed :
              (if !data.isReference && pointer != 0 then
                cJsonDelete fuel items pointer else some items) =
                some (items.erase child.addresses) := by
            cases shared : data.isReference with
            | true =>
                rw [shared, if_pos rfl] at owned
                rw [owned]
                rfl
            | false =>
                rw [shared, if_neg Bool.false_ne_true] at owned
                rw [owned]
                by_cases childless : child = .nil
                · rw [childless]
                  rfl
                · have nonnull : child.first 0 ≠ 0 :=
                    children.first_eq_zero_iff.not.mpr childless
                  rw [if_pos (by simpa using nonnull)]
                  exact childInduction children childNodup (by omega)
          have behind :
              Stored Item.isReference
                ((items.erase child.addresses).erase [address]) address 0
                next := by
            apply later.congr
            intro other member
            rw [Heap.erase_append]
            apply Heap.erase_of_notMem
            rw [List.mem_append, List.mem_singleton]
            rintro (inside | rfl)
            · exact disjoint other inside other member rfl
            · exact notNext member
          have kept : items.erase child.addresses address = _ :=
            (Heap.erase_of_notMem _ notChild).trans cell
          have rest := nextInduction behind nextNodup
            (show next.addresses.length < fuel by omega)
          rw [Forest.first, cJsonDelete, if_neg nonzero, cell]
          dsimp only [Option.bind_eq_bind, Option.bind_some]
          rw [freed, Option.bind_some, kept, Option.bind_some, rest,
            Heap.erase_append, Heap.erase_append, Forest.addresses]
          congr 1
          apply Heap.erase_congr
          intro other
          simp only [List.mem_append, List.mem_cons, List.not_mem_nil]
          tauto

end Loops

end CommonCode.Json.Linked
