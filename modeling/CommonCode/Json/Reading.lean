import CommonCode.Json.Duplicate
import CommonCode.Json.StringBuffer

/-!
# The parser on the heap

`parse_value` fills an item that has been allocated; the children of an array
or an object are allocated and linked while they are parsed.  A failure leaves
the items that are there, and `cJSON_ParseWithOpts` frees them with the root.

The parser finds on the heap what it finds without memory: the tree that is
built shows the value of the text, unless `malloc` fails.  The escapes of the
text have to be whole, as a string may not fit into its buffer otherwise.
-/

namespace CommonCode.Json.Linked

open CommonCode.Lib.Bits
open CommonCode.Lib.CScan
open CommonCode.Lib.CString
open CommonCode.Lib.Siblings

variable {Double : Type}

/-! ## The functions -/

/-- The items, and the pointers that `malloc` will return. -/
structure Memory (Double : Type) where
  items : Items Double
  supply : List Nat

/--
The text behind what has been parsed, or what a failure has left in `ep`:
nothing if memory is missing.
-/
abbrev Parsed := Except (Option (List Byte)) (List Byte)

/-- What `cJSON_New_Item` puts into an item. -/
def blankItem (arithmetic : Arithmetic Double) : Item Double :=
  ⟨0, none, 0, arithmetic.ofInt 0, none⟩

/-- The fields that the parser sets for a value. -/
def Item.fill (item : Item Double) : CJson Double → Item Double
  | .null => { item with type := 2 }
  | .bool false => { item with type := 0 }
  | .bool true => { item with type := 1, valueint := 1 }
  | .number valuedouble valueint =>
      { item with
        valuedouble := valuedouble
        valueint := valueint
        type := 3 }
  | .string valuestring =>
      { item with valuestring := some valuestring, type := 4 }
  | .array _ => { item with type := 5 }
  | .object _ => { item with type := 6 }

section Functions

/-- The function goes on behind what has been parsed. -/
def andThen (parsed : Parsed × Memory Double)
    (next : List Byte → Memory Double → Option (Parsed × Memory Double)) :
    Option (Parsed × Memory Double) :=
  match parsed with
  | (.error ep, memory) => some (.error ep, memory)
  | (.ok value, memory) => next value memory

def fillItem (memory : Memory Double) (item : Nat) (value : CJson Double)
    (rest : List Byte) : Option (Parsed × Memory Double) := do
  let items ← writeData memory.items item fun data => data.fill value
  some (.ok rest, { memory with items })

/-- A string with more bytes than its buffer has overruns it, and fails. -/
def parseString (memory : Memory Double) (item : Nat) (str : List Byte) :
    Option (Parsed × Memory Double) :=
  match Json.parseString str with
  | .error ep => some (.error (some ep), memory)
  | .ok (out, ptr) =>
      let supply := memory.supply.tail
      let len := stringLength str.tail
      if memory.supply.headD 0 = 0 then
        some (.error none, { memory with supply })
      else if len + 1 < out.length + 1 then none
      else fillItem { memory with supply } item (.string out) ptr

variable (arithmetic : Arithmetic Double)

section Sequences

variable
  (element :
    Memory Double → Nat → List Byte → Option (Parsed × Memory Double))

/-- The elements behind the first, each after a comma. -/
def parseMore : Nat → Memory Double → Nat → List Byte →
    Option (Parsed × Memory Double)
  | 0, memory, _, value => some (.ok value, memory)
  | fuel + 1, memory, child, value =>
      if byteAt value = char ',' then
        let supply := memory.supply.tail
        let (newItem, items) :=
          cJsonNewItem memory.items (blankItem arithmetic)
            (memory.supply.headD 0)
        if newItem = 0 then some (.error none, ⟨items, supply⟩)
        else do
          let items ← suffixObject items child newItem
          let parsed ← element ⟨items, supply⟩ newItem value.tail
          andThen parsed fun value memory =>
            parseMore fuel memory newItem value
      else some (.ok value, memory)

/-- The common body of `parse_array` and `parse_object`. -/
def parseSequence (kind : CJson Double) (opening closing : Byte)
    (memory : Memory Double) (item : Nat) (value : List Byte) :
    Option (Parsed × Memory Double) :=
  if byteAt value ≠ opening then some (.error (some value), memory)
  else do
    let items ← writeData memory.items item fun data => data.fill kind
    let value := skip value.tail
    if byteAt value = closing then
      some (.ok value.tail, { memory with items })
    else do
      let supply := memory.supply.tail
      let (child, items) :=
        cJsonNewItem items (blankItem arithmetic) (memory.supply.headD 0)
      let items ← writeChild items item child
      if child = 0 then some (.error none, ⟨items, supply⟩)
      else do
        let parsed ← element ⟨items, supply⟩ child value
        andThen parsed fun value memory => do
          let parsed ←
            parseMore arithmetic element value.length memory child value
          andThen parsed fun value memory =>
            if byteAt value = closing then some (.ok value.tail, memory)
            else some (.error (some value), memory)

end Sequences

section Elements

variable
  (parseValue :
    Memory Double → Nat → List Byte → Option (Parsed × Memory Double))

/-- An item of an array. -/
def parseItem (memory : Memory Double) (child : Nat) (value : List Byte) :
    Option (Parsed × Memory Double) := do
  let parsed ← parseValue memory child (skip value)
  andThen parsed fun value memory => some (.ok (skip value), memory)

/-- A name and its value in an object. -/
def parseMember (memory : Memory Double) (child : Nat) (value : List Byte) :
    Option (Parsed × Memory Double) := do
  let parsed ← parseString memory child (skip value)
  andThen parsed fun value memory => do
    let value := skip value
    let items ← writeData memory.items child fun data =>
      { data with
        string := data.valuestring.map .copied
        valuestring := none }
    if byteAt value ≠ char ':' then
      some (.error (some value), { memory with items })
    else do
      let parsed ← parseValue { memory with items } child (skip value.tail)
      andThen parsed fun value memory => some (.ok (skip value), memory)

def parseArray : Memory Double → Nat → List Byte →
    Option (Parsed × Memory Double) :=
  parseSequence arithmetic (parseItem parseValue) (.array []) (char '[')
    (char ']')

def parseObject : Memory Double → Nat → List Byte →
    Option (Parsed × Memory Double) :=
  parseSequence arithmetic (parseMember parseValue) (.object []) (char '{')
    (char '}')

end Elements

/-- `parse_value`, with a bound on the nesting. -/
def parseValue : Nat → Memory Double → Nat → List Byte →
    Option (Parsed × Memory Double)
  | 0, memory, _, value => some (.error (some value), memory)
  | fuel + 1, memory, item, value =>
      if strncmp value (ascii "null") 4 = 0 then
        fillItem memory item .null (value.drop 4)
      else if strncmp value (ascii "false") 5 = 0 then
        fillItem memory item (.bool false) (value.drop 5)
      else if strncmp value (ascii "true") 4 = 0 then
        fillItem memory item (.bool true) (value.drop 4)
      else if byteAt value = char '"' then parseString memory item value
      else if byteAt value = char '-' ∨ isDigit (byteAt value) then
        let (number, value) := parseNumber arithmetic value
        fillItem memory item number value
      else if byteAt value = char '[' then
        parseArray arithmetic (parseValue fuel) memory item value
      else if byteAt value = char '{' then
        parseObject arithmetic (parseValue fuel) memory item value
      else some (.error (some value), memory)

/--
`cJSON_ParseWithOpts`: the item and the text behind it, or what is left in
`ep`.
-/
def cJsonParseWithOpts (fuel : Nat) (memory : Memory Double)
    (value : List Byte) (requireNullTerminated : Bool) :
    Option (Except (Option (List Byte)) (Nat × List Byte) ×
      Memory Double) :=
  let supply := memory.supply.tail
  let (c, items) :=
    cJsonNewItem memory.items (blankItem arithmetic) (memory.supply.headD 0)
  if c = 0 then some (.error none, ⟨items, supply⟩)
  else do
    let parsed ←
      parseValue arithmetic (value.length + 1) ⟨items, supply⟩ c (skip value)
    match parsed with
    | (.error ep, memory) => do
        let items ← cJsonDelete fuel memory.items c
        some (.error ep, { memory with items })
    | (.ok behind, memory) =>
        let behind := if requireNullTerminated then skip behind else behind
        if requireNullTerminated && byteAt behind != 0 then do
          let items ← cJsonDelete fuel memory.items c
          some (.error (some behind), { memory with items })
        else some (.ok (c, behind), memory)

end Functions

/-! ## Values of trees -/

/-- The value of an item whose children have the names and values. -/
def Item.value (item : Item Double)
    (child : List (Option (List Byte) × CJson Double)) : CJson Double :=
  let type := item.type &&& 255
  if type = 0 then .bool false
  else if type = 1 then .bool true
  else if type = 2 then .null
  else if type = 3 then .number item.valuedouble item.valueint
  else if type = 4 then .string (item.valuestring.getD [])
  else if type = 5 then .array (child.map Prod.snd)
  else .object (child.map fun member => (member.1.getD [], member.2))

/-- The names and values of some trees. -/
def members :
    Forest (Item Double) → List (Option (List Byte) × CJson Double)
  | .nil => []
  | .node _ data child next =>
      (data.string.map Name.text, data.value (members child)) :: members next

theorem members_append (front back : Forest (Item Double)) :
    members (front.append back) = members front ++ members back := by
  induction front with
  | nil => rfl
  | node address data child next _ induction =>
      rw [Forest.append, members, members, induction]
      rfl

/-! ## Allocation -/

/--
What a function has taken from the supply: pointers that are not null, with
some for new items, and a null pointer last if memory was missing.  Behind its
end the supply has no memory.
-/
def Draws (before after : List Nat) (failed : Bool)
    (addresses : List Nat) : Prop :=
  ∃ used, before = used ++ after ∧ (∀ address ∈ addresses, address ∈ used) ∧
    if failed then 0 ∈ used ∨ after = [] else 0 ∉ used

/-- The pointers that `malloc` will return are not in use. -/
structure Ready (memory : Memory Double) : Prop where
  free : ∀ address ∈ memory.supply, memory.items address = none
  distinct :
    memory.supply.Pairwise fun first later => first ≠ 0 → first ≠ later

section Allocation

variable {before between after : List Nat} {failed : Bool}
variable {addresses others : List Nat}

theorem draws_nothing : Draws before before false [] :=
  ⟨[], rfl, fun _ member => absurd member List.not_mem_nil,
    List.not_mem_nil⟩

theorem draws_null (null : before.headD 0 = 0) :
    Draws before before.tail true [] := by
  cases before with
  | nil =>
      exact ⟨[], rfl, fun _ member => absurd member List.not_mem_nil,
        Or.inr rfl⟩
  | cons head tail =>
      refine ⟨[head], rfl, fun _ member => absurd member List.not_mem_nil,
        Or.inl ?_⟩
      rw [← null]
      exact List.mem_singleton_self head

theorem draws_one (nonnull : before.headD 0 ≠ 0) :
    Draws before before.tail false [before.headD 0] := by
  cases before with
  | nil => exact absurd rfl nonnull
  | cons head tail =>
      refine ⟨[head], rfl, fun _ member => member, fun zero => nonnull ?_⟩
      exact (List.mem_singleton.mp zero).symm

theorem Draws.trans (first : Draws before between false addresses)
    (second : Draws between after failed others) :
    Draws before after failed (addresses ++ others) := by
  rcases first with ⟨used, rfl, held, nonnull⟩
  rcases second with ⟨more, rfl, further, last⟩
  refine ⟨used ++ more, (List.append_assoc ..).symm, ?_, ?_⟩
  · intro address member
    rw [List.mem_append] at member ⊢
    exact member.imp (held address) (further address)
  · cases failed with
    | true => exact last.imp_left (List.mem_append_right _)
    | false =>
        intro zero
        exact (List.mem_append.mp zero).elim nonnull last

theorem Draws.unused (draws : Draws before after failed addresses) :
    Draws before after failed [] := by
  rcases draws with ⟨used, split, -, last⟩
  exact ⟨used, split, fun _ member => absurd member List.not_mem_nil, last⟩

theorem Draws.mono (draws : Draws before after failed addresses)
    (fewer : ∀ address ∈ others, address ∈ addresses) :
    Draws before after failed others := by
  rcases draws with ⟨used, split, held, last⟩
  exact ⟨used, split, fun address member => held address (fewer address member),
    last⟩

/-- Nothing that `malloc` has not returned is allocated. -/
theorem Ready.kept {memory later : Memory Double} (ready : Ready memory)
    (draws : Draws memory.supply later.supply failed addresses)
    (nonzero : 0 ∉ addresses)
    (kept :
      ∀ address, memory.items address = none → address ∉ addresses →
        later.items address = none) :
    Ready later := by
  rcases draws with ⟨used, split, held, -⟩
  have distinct := ready.distinct
  rw [split] at distinct
  have parts := List.pairwise_append.mp distinct
  refine ⟨fun address member => kept address ?_ fun inside => ?_, parts.2.1⟩
  · apply ready.free
    rw [split]
    exact List.mem_append_right _ member
  · refine parts.2.2 address (held address inside) address member ?_ rfl
    rintro rfl
    exact nonzero inside

theorem Ready.fresh {memory : Memory Double} (ready : Ready memory)
    (draws : Draws memory.supply after failed addresses) :
    ∀ address ∈ addresses, memory.items address = none := by
  rcases draws with ⟨used, split, held, -⟩
  intro address member
  apply ready.free
  rw [split]
  exact List.mem_append_left _ (held address member)

end Allocation

/-! ## What the parser leaves -/

/-- An item has been filled, and its children are new. -/
structure Grown (before after : Memory Double) (item : Nat)
    (data : Item Double) (child : Forest (Item Double)) (failed : Bool) :
    Prop where
  cell :
    after.items item =
      (before.items item).map fun cell =>
        { cell with child := child.first 0, data := data }
  stored : Stored Item.isReference after.items 0 0 child
  nodup : child.addresses.Nodup
  frame :
    ∀ address, address ≠ item → address ∉ child.addresses →
      after.items address = before.items address
  draws : Draws before.supply after.supply failed child.addresses

/-- Memory was missing. -/
def missing : Parsed → Bool
  | .error none => true
  | _ => false

/-- The parser has come to the result that the text has without memory. -/
def Agrees {β : Type} (parsed : Parsed)
    (result : Except (List Byte) (β × List Byte)) (built : β → Prop) : Prop :=
  match parsed with
  | .error none => True
  | .error (some ep) => result = .error ep
  | .ok rest => ∃ value, result = .ok (value, rest) ∧ built value

/--
A function fills a new item as a function without memory says, for a text with
whole escapes; `named` gives the name and the value that the item then has.
-/
def Fills {β : Type}
    (run : Memory Double → Nat → List Byte → Option (Parsed × Memory Double))
    (plain : List Byte → Except (List Byte) (β × List Byte))
    (named : Item Double → β → Option (List Byte) × CJson Double) : Prop :=
  ∀ ⦃memory : Memory Double⦄ ⦃item : Nat⦄ ⦃cell : Cell (Item Double)⦄,
    Ready memory → memory.items item = some cell → cell.child = 0 →
      cell.data.isReference = false →
        ∀ value, WholeStrings value → ∃ parsed after data child,
          run memory item value = some (parsed, after) ∧
            Grown memory after item data child (missing parsed) ∧
            data.isReference = false ∧
            Agrees parsed (plain value) fun result =>
              (data.string.map Name.text, data.value (members child)) =
                named cell.data result

theorem Agrees.imp {β : Type} {parsed : Parsed}
    {result : Except (List Byte) (β × List Byte)} {built other : β → Prop}
    (agrees : Agrees parsed result built)
    (implies : ∀ value, built value → other value) :
    Agrees parsed result other := by
  match parsed, agrees with
  | .error none, _ => trivial
  | .error (some ep), same => exact same
  | .ok rest, ⟨value, same, holds⟩ => exact ⟨value, same, implies value holds⟩

/-- The result is used in another one, and the text behind it is the same. -/
theorem Agrees.map {β γ : Type} {parsed : Parsed}
    {result : Except (List Byte) (β × List Byte)} {built : β → Prop}
    {other : γ → Prop} (agrees : Agrees parsed result built) (use : β → γ)
    (implies : ∀ value, built value → other (use value)) :
    Agrees parsed
      (do
        let (value, rest) ← result
        return (use value, rest)) other := by
  match parsed, agrees with
  | .error none, _ => trivial
  | .error (some ep), same =>
      change result = _ at same
      rw [same]
      rfl
  | .ok rest, ⟨value, same, holds⟩ =>
      refine ⟨use value, ?_, implies value holds⟩
      rw [same]
      rfl

section Grown

variable {memory between after : Memory Double} {item : Nat}
variable {cell : Cell (Item Double)} {data value : Item Double}
variable {child : Forest (Item Double)} {failed : Bool}

theorem grown_same (held : memory.items item = some cell)
    (childless : cell.child = 0) {supply : List Nat}
    (draws : Draws memory.supply supply failed []) :
    Grown memory { memory with supply } item cell.data .nil failed where
  cell := by
    rw [held]
    rcases cell with ⟨next, prev, pointer, data⟩
    cases childless
    rfl
  stored := trivial
  nodup := List.nodup_nil
  frame _ _ _ := rfl
  draws := draws

theorem grown_write (held : memory.items item = some cell)
    (childless : cell.child = 0) (change : Item Double → Item Double) :
    ∃ items,
      writeData memory.items item change = some items ∧
        items item = some { cell with data := change cell.data } ∧
        Grown memory { memory with items } item (change cell.data) .nil
          false := by
  have written :
      memory.items.modify item
          (fun cell => { cell with data := change cell.data }) item =
        some { cell with data := change cell.data } := by
    rw [Heap.modify_self, held]
    rfl
  refine ⟨_, ?_, written, ⟨?_, trivial, List.nodup_nil, ?_, draws_nothing⟩⟩
  · rw [writeData, held]
    rfl
  · refine written.trans ?_
    rw [held]
    rcases cell with ⟨next, prev, pointer, data⟩
    cases childless
    rfl
  · exact fun address apart _ => Heap.modify_of_ne _ apart _

theorem Grown.trans (first : Grown memory between item data .nil false)
    (second : Grown between after item value child failed) :
    Grown memory after item value child failed where
  cell := by
    rw [second.cell, first.cell, Option.map_map]
    rfl
  stored := second.stored
  nodup := second.nodup
  frame address apart outside :=
    (second.frame address apart outside).trans
      (first.frame address apart List.not_mem_nil)
  draws := first.draws.trans second.draws

theorem Grown.ready (grown : Grown memory after item data child failed)
    (ready : Ready memory) (held : memory.items item = some cell) :
    Ready after := by
  refine ready.kept grown.draws
    (fun zero => grown.stored.ne_zero zero rfl) ?_
  intro address free outside
  rw [grown.frame address ?_ outside, free]
  rintro rfl
  rw [held] at free
  cases free

end Grown

/-! ## Items without children -/

section Leaves

variable {memory : Memory Double} {item : Nat}
variable {cell : Cell (Item Double)}

theorem isReference_fill (data : Item Double) (value : CJson Double) :
    (data.fill value).isReference = false := by
  cases value with
  | bool value =>
      cases value <;> simp [Item.fill, Item.isReference, cJsonIsReference]
  | null => simp [Item.fill, Item.isReference, cJsonIsReference]
  | number => simp [Item.fill, Item.isReference, cJsonIsReference]
  | string => simp [Item.fill, Item.isReference, cJsonIsReference]
  | array => simp [Item.fill, Item.isReference, cJsonIsReference]
  | object => simp [Item.fill, Item.isReference, cJsonIsReference]

theorem isReference_blank {arithmetic : Arithmetic Double} :
    (blankItem arithmetic).isReference = false := by
  simp [blankItem, Item.isReference]

theorem string_fill (data : Item Double) (value : CJson Double) :
    (data.fill value).string = data.string := by
  cases value with
  | bool value => cases value <;> rfl
  | null => rfl
  | number => rfl
  | string => rfl
  | array => rfl
  | object => rfl

theorem fillItem_grown (held : memory.items item = some cell)
    (childless : cell.child = 0) (value : CJson Double)
    (rest : List Byte) :
    ∃ after,
      fillItem memory item value rest = some (.ok rest, after) ∧
        Grown memory after item (cell.data.fill value) .nil false := by
  rcases grown_write held childless fun data => data.fill value with
    ⟨items, written, -, grown⟩
  refine ⟨_, ?_, grown⟩
  rw [fillItem, written]
  rfl

/-- A string is put into an item, or memory is missing for it. -/
theorem parseString_grown (held : memory.items item = some cell)
    (childless : cell.child = 0) (str : List Byte)
    (whole : WholeStrings str) :
    ∃ parsed after data,
      parseString memory item str = some (parsed, after) ∧
        Grown memory after item data .nil (missing parsed) ∧
        (data = cell.data ∨ ∃ out, data = cell.data.fill (.string out)) ∧
        Agrees parsed (Json.parseString str) fun out =>
          data = cell.data.fill (.string out) := by
  rw [parseString]
  cases found : Json.parseString str with
  | error ep =>
      exact ⟨_, memory, cell.data, rfl,
        grown_same held childless draws_nothing, Or.inl rfl, rfl⟩
  | ok result =>
      rcases result with ⟨out, ptr⟩
      by_cases null : memory.supply.headD 0 = 0
      · exact ⟨_, _, cell.data, if_pos null,
          grown_same held childless (draws_null null), Or.inl rfl, trivial⟩
      · have taken := grown_same held childless (draws_one null).unused
        rcases fillItem_grown
          (show Memory.items ⟨memory.items, memory.supply.tail⟩ item = _
            from held) childless (.string out) ptr with
          ⟨after, filled, grown⟩
        have fits := Nat.not_lt.mpr
          (Nat.succ_le_succ (length_parseString_le found whole))
        exact ⟨_, after, _, (if_neg null).trans ((if_neg fits).trans filled),
          taken.trans grown, Or.inr ⟨out, rfl⟩, out, rfl, rfl⟩

end Leaves

/-! ## Arrays and objects -/

section Sequences

variable {β : Type} {arithmetic : Arithmetic Double}
variable {element :
  Memory Double → Nat → List Byte → Option (Parsed × Memory Double)}
variable {plain : List Byte → Except (List Byte) (β × List Byte)}
variable {named : Item Double → β → Option (List Byte) × CJson Double}
variable {memory : Memory Double}

/-- An element is put into an item that has been allocated for it. -/
theorem Fills.fresh (fills : Fills element plain named) (ready : Ready memory)
    {new : Nat} (head : memory.supply.headD 0 = new) (nonnull : new ≠ 0)
    (items : Items Double) {prev : Nat}
    (made : items new = some ⟨0, prev, 0, blankItem arithmetic⟩)
    (same :
      ∀ address, address ≠ new → memory.items address = none →
        items address = none)
    (value : List Byte) (whole : WholeStrings value) :
    ∃ parsed after tree,
      element ⟨items, memory.supply.tail⟩ new value = some (parsed, after) ∧
        tree.first 0 = new ∧ tree.last 0 = new ∧ tree.addresses.Nodup ∧
        Stored Item.isReference after.items prev 0 tree ∧
        (∀ address, address ∉ tree.addresses →
          after.items address = items address) ∧
        Draws memory.supply after.supply (missing parsed) tree.addresses ∧
        Ready after ∧
        Agrees parsed (plain value) fun result =>
          members tree = [named (blankItem arithmetic) result] := by
  subst head
  have first := draws_one nonnull
  have started : Ready ⟨items, memory.supply.tail⟩ := by
    refine ready.kept first ?_ ?_
    · simpa using Ne.symm nonnull
    · intro address free outside
      exact same address (by simpa using outside) free
  rcases fills started made rfl isReference_blank value whole with
    ⟨parsed, after, data, child, returned, grown, owns, agrees⟩
  have notChild : memory.supply.headD 0 ∉ child.addresses := by
    intro inside
    cases made.symm.trans (started.fresh grown.draws _ inside)
  have cell := grown.cell.trans (congrArg (Option.map _) made)
  refine ⟨parsed, after, .node (memory.supply.headD 0) data child .nil,
    returned, rfl, rfl, ?_, ?_, ?_, ?_, grown.ready started made, ?_⟩
  · rw [Forest.addresses, Forest.addresses, List.append_nil]
    exact List.nodup_cons.mpr ⟨notChild, grown.nodup⟩
  · refine ⟨nonnull, ⟨child.first 0, cell, ?_⟩, grown.stored, trivial⟩
    rw [owns]
    rfl
  · intro address outside
    rw [Forest.addresses, List.mem_cons, List.mem_append, not_or, not_or]
      at outside
    exact grown.frame address outside.1 outside.2.1
  · apply (first.trans grown.draws).mono
    simp [Forest.addresses]
  · refine agrees.imp fun result same => ?_
    rw [members, members, same]

/-- The last children of an item are new. -/
structure Extends (before after : Memory Double)
    (done more : Forest (Item Double)) (failed : Bool) : Prop where
  stored : Stored Item.isReference after.items 0 0 (done.append more)
  nodup : (done.append more).addresses.Nodup
  frame :
    ∀ address, address ∉ (done.append more).addresses →
      after.items address = before.items address
  draws : Draws before.supply after.supply failed more.addresses

theorem Extends.trans {before between after : Memory Double}
    {done more others : Forest (Item Double)} {failed : Bool}
    (first : Extends before between done more false)
    (second : Extends between after (done.append more) others failed) :
    Extends before after done (more.append others) failed := by
  rcases second with ⟨stored, nodup, frame, draws⟩
  rw [Forest.append_assoc] at stored nodup
  refine ⟨stored, nodup, fun address outside => ?_, ?_⟩
  · rw [frame address (by rwa [Forest.append_assoc])]
    apply first.frame
    intro inside
    rw [← Forest.append_assoc, Forest.addresses_append] at outside
    exact outside (List.mem_append_left _ inside)
  · rw [Forest.addresses_append]
    exact first.draws.trans draws

section Siblings

variable {done : Forest (Item Double)}

theorem extends_nil (stored : Stored Item.isReference memory.items 0 0 done)
    (nodup : done.addresses.Nodup) :
    Extends memory memory done .nil false := by
  refine ⟨?_, ?_, fun _ _ => rfl, draws_nothing⟩
  · rwa [Forest.append_nil]
  · rwa [Forest.append_nil]

theorem extends_null (stored : Stored Item.isReference memory.items 0 0 done)
    (nodup : done.addresses.Nodup) (null : memory.supply.headD 0 = 0) :
    Extends memory ⟨memory.items, memory.supply.tail⟩ done .nil true := by
  refine ⟨?_, ?_, fun _ _ => rfl, draws_null null⟩
  · rwa [Forest.append_nil]
  · rwa [Forest.append_nil]

variable (arithmetic) in
/-- An item is put behind the last one, and filled. -/
theorem Fills.sibling (fills : Fills element plain named)
    (ready : Ready memory) (nonnull : memory.supply.headD 0 ≠ 0)
    (stored : Stored Item.isReference memory.items 0 0 done)
    (nonempty : done ≠ .nil) (nodup : done.addresses.Nodup)
    (value : List Byte) (whole : WholeStrings value) :
    ∃ items parsed after tree,
      suffixObject
          (Function.update memory.items (memory.supply.headD 0)
            (some ⟨0, 0, 0, blankItem arithmetic⟩))
          (done.last 0) (memory.supply.headD 0) = some items ∧
        element ⟨items, memory.supply.tail⟩ (memory.supply.headD 0) value =
          some (parsed, after) ∧
        tree ≠ .nil ∧ tree.last 0 = memory.supply.headD 0 ∧
        Extends memory after done tree (missing parsed) ∧ Ready after ∧
        Agrees parsed (plain value) fun result =>
          members tree = [named (blankItem arithmetic) result] := by
  have inside := Forest.last_mem nonempty 0
  have free : memory.items (memory.supply.headD 0) = none :=
    ready.fresh (draws_one nonnull) _ (List.mem_singleton_self _)
  have apart : memory.supply.headD 0 ∉ done.addresses := by
    intro member
    have held := stored.isSome member
    rw [free] at held
    cases held
  generalize head : memory.supply.headD 0 = new at *
  have other : done.last 0 ≠ new := by
    rintro same
    exact apart (same ▸ inside)
  have fresh :
      Function.update memory.items new
          (some ⟨0, 0, 0, blankItem arithmetic⟩) new =
        some ⟨0, 0, 0, blankItem arithmetic⟩ :=
    Function.update_self ..
  rcases (⟨_, rfl⟩ :
    ∃ items : Items Double,
      Function.update memory.items new
        (some ⟨0, 0, 0, blankItem arithmetic⟩) = items) with
    ⟨items, allocated⟩
  rw [allocated] at fresh ⊢
  have untouched {address : Nat} (notNew : address ≠ new) :
      items address = memory.items address := by
    rw [← allocated, Function.update_of_ne notNew]
  have kept : Stored Item.isReference items 0 0 done := by
    refine stored.congr fun address member => untouched ?_
    rintro rfl
    exact apart member
  have linked {address : Nat} (notNew : address ≠ new)
      (notLast : address ≠ done.last 0) :
      (items.setNext (done.last 0) new).setPrev new (done.last 0) address =
        memory.items address := by
    rw [Heap.setPrev_of_ne _ _ notNew, Heap.setNext_of_ne _ _ notLast,
      untouched notNew]
  rcases fills.fresh ready head nonnull
    ((items.setNext (done.last 0) new).setPrev new (done.last 0))
    (Heap.setPrev_self _ _
      ((Heap.setNext_of_ne _ _ (Ne.symm other)).trans fresh))
    (fun address notNew missing => by
      rw [linked notNew ?_, missing]
      rintro rfl
      have held := stored.isSome inside
      rw [missing] at held
      cases held) value whole with
    ⟨parsed, after, tree, returned, first, last, own, alone, frame, draws,
      next, agrees⟩
  have nonnil : tree ≠ .nil := by
    rintro rfl
    exact nonnull first.symm
  have unused := ready.fresh draws
  have separate : ∀ address ∈ done.addresses, address ∉ tree.addresses := by
    intro address member inTree
    have held := stored.isSome member
    rw [unused address inTree] at held
    cases held
  refine ⟨_, parsed, after, tree, ?_, returned, nonnil, last,
    ⟨?_, ?_, ?_, draws⟩, next, agrees⟩
  · rw [suffixObject, writeNext_eq (kept.isSome inside)]
    dsimp only [Option.bind_eq_bind, Option.bind_some]
    rw [writePrev_eq]
    rw [Heap.isSome_setNext, fresh]
    rfl
  · rw [stored_append, first]
    refine ⟨?_, alone⟩
    apply (kept.reclose nonempty nodup new).congr
    intro address member
    rw [frame address (separate address member), Heap.setPrev_of_ne]
    rintro rfl
    exact apart member
  · rw [Forest.addresses_append, List.nodup_append]
    refine ⟨nodup, own, ?_⟩
    rintro address member _ inTree rfl
    exact separate address member inTree
  · intro address outside
    rw [Forest.addresses_append, List.mem_append, not_or] at outside
    rw [frame address outside.2]
    apply linked
    · rintro rfl
      exact outside.2 (first ▸ Forest.first_mem nonnil 0)
    · rintro rfl
      exact outside.1 inside

end Siblings

variable (arithmetic) in
/-- The other children are put behind the ones that are there. -/
theorem Fills.more (fills : Fills element plain named)
    (consumes : Consumes plain) (fuel : Nat) :
    ∀ (memory : Memory Double) (done : Forest (Item Double))
      (value : List Byte),
      WholeStrings value → Ready memory →
        Stored Item.isReference memory.items 0 0 done →
        done ≠ .nil → done.addresses.Nodup →
          ∃ parsed after more,
            parseMore arithmetic element fuel memory (done.last 0) value =
              some (parsed, after) ∧
              Extends memory after done more (missing parsed) ∧
              Agrees parsed (Json.parseMore plain fuel value) fun results =>
                members more = results.map (named (blankItem arithmetic)) := by
  induction fuel with
  | zero =>
      intro memory done value whole ready stored nonempty nodup
      refine ⟨.ok value, memory, .nil, rfl, ?_, [], rfl, rfl⟩
      exact extends_nil stored nodup
  | succ fuel induction =>
      intro memory done value whole ready stored nonempty nodup
      by_cases comma : byteAt value = char ','
      · rw [parseMore, if_pos comma]
        by_cases null : memory.supply.headD 0 = 0
        · refine ⟨.error none, ⟨memory.items, memory.supply.tail⟩, .nil, ?_,
            extends_null stored nodup null, trivial⟩
          rw [cJsonNewItem, if_pos null]
          rfl
        · rcases fills.sibling arithmetic ready null stored nonempty nodup
            value.tail (whole.suffix (List.tail_suffix _)) with
            ⟨items, parsed, after, tree, linked, returned, nonnil, last,
              extends₁, next, agrees⟩
          rw [cJsonNewItem, if_neg null, Json.parseMore, if_pos comma]
          dsimp only
          rw [if_neg null, linked]
          dsimp only [Option.bind_eq_bind, Option.bind_some]
          rw [returned]
          dsimp only [Option.bind_some]
          cases parsed with
          | error ep =>
              refine ⟨.error ep, after, tree, rfl, extends₁, ?_⟩
              cases ep with
              | none => trivial
              | some text =>
                  change plain value.tail = .error text at agrees
                  rw [agrees]
                  rfl
          | ok rest =>
              rcases agrees with ⟨result, found, built⟩
              have behind := (consumes found).trans (List.tail_suffix _)
              rcases induction after _ rest (whole.suffix behind) next
                extends₁.stored
                (Forest.append_ne_nil nonempty) extends₁.nodup with
                ⟨parsed, later, more, parsedMore, extends₂, agrees⟩
              rw [Forest.last_append, Forest.last_of_ne_nil nonnil _ 0, last]
                at parsedMore
              refine ⟨parsed, later, tree.append more, parsedMore,
                extends₁.trans extends₂, ?_⟩
              rw [found]
              refine agrees.map (result :: ·) fun results more => ?_
              rw [members_append, built, more]
              rfl
      · rw [parseMore, if_neg comma]
        refine ⟨.ok value, memory, .nil, rfl, extends_nil stored nodup, [],
          ?_, rfl⟩
        rw [Json.parseMore, if_neg comma]

section Children

variable {item : Nat} {cell : Cell (Item Double)}

/-- The first child is put into an item, and filled. -/
theorem Fills.child (fills : Fills element plain named) (ready : Ready memory)
    (held : memory.items item = some cell)
    (nonnull : memory.supply.headD 0 ≠ 0) (value : List Byte)
    (whole : WholeStrings value) :
    ∃ items parsed after tree,
      writeChild
          (Function.update memory.items (memory.supply.headD 0)
            (some ⟨0, 0, 0, blankItem arithmetic⟩))
          item (memory.supply.headD 0) = some items ∧
        element ⟨items, memory.supply.tail⟩ (memory.supply.headD 0) value =
          some (parsed, after) ∧
        tree ≠ .nil ∧ tree.last 0 = memory.supply.headD 0 ∧
        Grown memory after item cell.data tree (missing parsed) ∧
        Ready after ∧
        Agrees parsed (plain value) fun result =>
          members tree = [named (blankItem arithmetic) result] := by
  have free : memory.items (memory.supply.headD 0) = none :=
    ready.fresh (draws_one nonnull) _ (List.mem_singleton_self _)
  generalize head : memory.supply.headD 0 = new at *
  have notNew : item ≠ new := by
    rintro rfl
    cases held.symm.trans free
  have fresh :
      Function.update memory.items new
          (some ⟨0, 0, 0, blankItem arithmetic⟩) new =
        some ⟨0, 0, 0, blankItem arithmetic⟩ :=
    Function.update_self ..
  rcases (⟨_, rfl⟩ :
    ∃ items : Items Double,
      Function.update memory.items new
        (some ⟨0, 0, 0, blankItem arithmetic⟩) = items) with
    ⟨items, allocated⟩
  have untouched {address : Nat} (apart : address ≠ new) :
      items address = memory.items address := by
    rw [← allocated, Function.update_of_ne apart]
  have kept : items item = some cell := (untouched notNew).trans held
  have touched {address : Nat} (notItem : address ≠ item)
      (apart : address ≠ new) :
      items.setChild item new address = memory.items address := by
    rw [Heap.setChild_of_ne _ _ notItem, untouched apart]
  rw [allocated] at fresh ⊢
  rcases fills.fresh ready head nonnull (items.setChild item new)
    ((Heap.setChild_of_ne _ _ (Ne.symm notNew)).trans fresh)
    (fun address apart missing => by
      rw [touched ?_ apart, missing]
      rintro rfl
      cases held.symm.trans missing) value whole with
    ⟨parsed, after, tree, returned, first, last, nodup, stored, frame, draws,
      next, agrees⟩
  have nonnil : tree ≠ .nil := by
    rintro rfl
    exact nonnull first.symm
  have outside : item ∉ tree.addresses := fun inside => by
    cases held.symm.trans (ready.fresh draws item inside)
  refine ⟨_, parsed, after, tree, writeChild_eq (by rw [kept]; rfl) new,
    returned, nonnil, last, ⟨?_, stored, nodup, ?_, draws⟩, next, agrees⟩
  · rw [frame item outside, Heap.setChild, Heap.modify_self, kept, held,
      first]
    rfl
  · intro address apart notTree
    rw [frame address notTree]
    apply touched apart
    rintro rfl
    exact notTree (first ▸ Forest.first_mem nonnil 0)

/-- More children come behind the ones of an item. -/
theorem Grown.extend {between after : Memory Double} {data : Item Double}
    {done more : Forest (Item Double)} {failed : Bool}
    (grown : Grown memory between item data done false)
    (ready : Ready memory) (held : memory.items item = some cell)
    (nonempty : done ≠ .nil)
    (extended : Extends between after done more failed) :
    Grown memory after item data (done.append more) failed := by
  have draws := grown.draws.trans extended.draws
  rw [← Forest.addresses_append] at draws
  have outside : item ∉ (done.append more).addresses := fun inside => by
    cases held.symm.trans (ready.fresh draws item inside)
  refine ⟨?_, extended.stored, extended.nodup, ?_, draws⟩
  · rw [extended.frame item outside, grown.cell, Forest.first_append,
      Forest.first_of_ne_nil nonempty]
  · intro address apart notChild
    rw [extended.frame address notChild]
    apply grown.frame address apart
    intro inside
    rw [Forest.addresses_append] at notChild
    exact notChild (List.mem_append_left _ inside)

end Children

/-- An array or an object is filled. -/
theorem Fills.sequence (fills : Fills element plain named)
    (consumes : Consumes plain) (kind : CJson Double)
    (opening closing : Byte) :
    Fills (parseSequence arithmetic element kind opening closing)
      (Json.parseSequence plain opening closing)
      fun item results =>
        (item.string.map Name.text, (item.fill kind).value
          (results.map (named (blankItem arithmetic)))) := by
  intro memory item cell ready held childless owns value whole
  rw [parseSequence, Json.parseSequence]
  have inside : skip value.tail <:+ value :=
    (skip_suffix _).trans (List.tail_suffix _)
  by_cases opens : byteAt value ≠ opening
  · rw [if_pos opens, if_pos opens]
    exact ⟨_, memory, cell.data, .nil, rfl,
      grown_same held childless draws_nothing, owns, rfl⟩
  · rw [if_neg opens, if_neg opens]
    rcases grown_write held childless fun data => data.fill kind with
      ⟨items, written, filled, grown⟩
    have string := string_fill cell.data kind
    have owner := isReference_fill cell.data kind
    have ready₁ := grown.ready ready held
    rw [written]
    dsimp only [Option.bind_eq_bind, Option.bind_some]
    by_cases closes : byteAt (skip value.tail) = closing
    · rw [if_pos closes, if_pos closes]
      exact ⟨_, _, _, .nil, rfl, grown, owner, [], rfl,
        Prod.ext (congrArg (Option.map Name.text) string) rfl⟩
    · rw [if_neg closes, if_neg closes]
      by_cases null : memory.supply.headD 0 = 0
      · have same : items.setChild item 0 = items :=
          Heap.setChild_eq_self _ filled childless
        rw [cJsonNewItem, if_pos null]
        dsimp only
        rw [writeChild_eq (by rw [filled]; rfl), same, Option.bind_some,
          if_pos rfl]
        have lost :=
          grown_same (show Memory.items ⟨items, memory.supply⟩ item = _
            from filled) childless (draws_null null)
        exact ⟨.error none, _, _, .nil, rfl, grown.trans lost, owner,
          trivial⟩
      · rcases fills.child ready₁ filled null (skip value.tail)
          (whole.suffix inside) with
          ⟨hung, parsed, after, tree, linked, returned, nonnil, last,
            grown₁, next, agrees⟩
        rw [cJsonNewItem, if_neg null]
        dsimp only
        rw [linked, Option.bind_some, if_neg null, returned, Option.bind_some]
        cases parsed with
        | error ep =>
            refine ⟨.error ep, after, _, tree, rfl, grown.trans grown₁, owner,
              ?_⟩
            cases ep with
            | none => trivial
            | some text =>
                change plain (skip value.tail) = .error text at agrees
                rw [agrees]
                rfl
        | ok rest =>
            rcases agrees with ⟨result, found, built⟩
            rcases fills.more arithmetic consumes rest.length after tree rest
              (whole.suffix ((consumes found).trans inside)) next
              grown₁.stored nonnil grown₁.nodup with
              ⟨parsed, later, more, parsedMore, extended, agrees⟩
            have total := grown.trans
              (grown₁.extend ready₁ filled nonnil extended)
            rw [last] at parsedMore
            dsimp only [andThen]
            rw [parsedMore, Option.bind_some, found]
            cases parsed with
            | error ep =>
                refine ⟨.error ep, later, _, _, rfl, total, owner, ?_⟩
                cases ep with
                | none => trivial
                | some text =>
                    change Json.parseMore plain rest.length rest =
                      .error text at agrees
                    change Except.bind (Json.parseMore plain rest.length rest)
                      _ = _
                    rw [agrees]
                    rfl
            | ok behind =>
                rcases agrees with ⟨results, others, more⟩
                by_cases ends : byteAt behind = closing
                · refine ⟨.ok behind.tail, later, _, _, if_pos ends, total,
                    owner, result :: results, ?_, ?_⟩
                  · change Except.bind
                      (Json.parseMore plain rest.length rest) _ = _
                    rw [others]
                    exact if_pos ends
                  · rw [members_append, built, more]
                    exact Prod.ext (congrArg (Option.map Name.text) string) rfl
                · refine ⟨.error (some behind), later, _, _, if_neg ends, total,
                    owner, ?_⟩
                  change Except.bind (Json.parseMore plain rest.length rest)
                    _ = _
                  rw [others]
                  exact if_neg ends

end Sequences

/-! ## Values -/

section Values

/-- The name of an item stays, and its value is parsed. -/
def titled (item : Item Double) (value : CJson Double) :
    Option (List Byte) × CJson Double :=
  (item.string.map Name.text, value)

section Leaves

variable (item : Item Double)
variable (child : List (Option (List Byte) × CJson Double))

theorem value_fill_null : (item.fill .null).value child = .null := by
  simp [Item.fill, Item.value]

theorem value_fill_bool (value : Bool) :
    (item.fill (.bool value)).value child = .bool value := by
  cases value <;> simp [Item.fill, Item.value]

theorem value_fill_number (valuedouble : Double) (valueint : BitVec 32) :
    (item.fill (.number valuedouble valueint)).value child =
      .number valuedouble valueint := by
  simp [Item.fill, Item.value]

theorem value_fill_string (valuestring : List Byte) :
    (item.fill (.string valuestring)).value child = .string valuestring := by
  simp [Item.fill, Item.value]

theorem value_fill_array (others : List (CJson Double)) :
    (item.fill (.array others)).value child = .array (child.map Prod.snd) := by
  simp [Item.fill, Item.value]

theorem value_fill_object (others : List (List Byte × CJson Double)) :
    (item.fill (.object others)).value child =
      .object (child.map fun member => (member.1.getD [], member.2)) := by
  simp [Item.fill, Item.value]

end Leaves

variable {β γ : Type}
variable {run :
  Memory Double → Nat → List Byte → Option (Parsed × Memory Double)}
variable {plain : List Byte → Except (List Byte) (β × List Byte)}
variable {named : Item Double → β → Option (List Byte) × CJson Double}
variable {other : Item Double → γ → Option (List Byte) × CJson Double}

theorem Fills.map (fills : Fills run plain named) (use : β → γ)
    (same : ∀ item value, named item value = other item (use value)) :
    Fills run
      (fun text => do
        let (value, rest) ← plain text
        return (use value, rest)) other := by
  intro memory item cell ready held childless owns value whole
  rcases fills ready held childless owns value whole with
    ⟨parsed, after, data, child, returned, grown, owned, agrees⟩
  refine ⟨parsed, after, data, child, returned, grown, owned, ?_⟩
  exact agrees.map use fun result built => built.trans (same _ _)

/-- White space around an element is skipped. -/
theorem Fills.item {plain : List Byte → Except (List Byte)
      (CJson Double × List Byte)}
    (fills : Fills run plain titled) :
    Fills (parseItem run) (Json.parseItem plain) titled := by
  intro memory item cell ready held childless owns value whole
  rcases fills ready held childless owns (skip value)
    (whole.suffix (skip_suffix _)) with
    ⟨parsed, after, data, child, returned, grown, owned, agrees⟩
  rw [parseItem, returned, Json.parseItem]
  cases parsed with
  | error ep =>
      refine ⟨.error ep, after, data, child, rfl, grown, owned, ?_⟩
      cases ep with
      | none => trivial
      | some text =>
          change plain (skip value) = .error text at agrees
          rw [agrees]
          rfl
  | ok rest =>
      rcases agrees with ⟨result, found, built⟩
      refine ⟨.ok (skip rest), after, data, child, rfl, grown, owned, result,
        ?_, built⟩
      rw [found]
      rfl

theorem Fills.member {plain : List Byte → Except (List Byte)
      (CJson Double × List Byte)}
    (fills : Fills run plain titled) :
    Fills (parseMember run) (Json.parseMember plain)
      fun _ member => (some member.1, member.2) := by
  intro memory item cell ready held childless owns value whole
  rcases parseString_grown held childless (skip value)
    (whole.suffix (skip_suffix _)) with
    ⟨parsed, named, title, returned, grown, which, agrees⟩
  rw [parseMember, returned, Json.parseMember]
  have owned : title.isReference = false := by
    rcases which with rfl | ⟨out, rfl⟩
    · exact owns
    · exact isReference_fill _ _
  cases parsed with
  | error ep =>
      refine ⟨.error ep, named, title, .nil, rfl, grown, owned, ?_⟩
      cases ep with
      | none => trivial
      | some text =>
          change Json.parseString (skip value) = .error text at agrees
          rw [agrees]
          rfl
  | ok rest =>
      rcases agrees with ⟨string, found, rfl⟩
      have kept := grown.cell.trans (congrArg (Option.map _) held)
      rcases grown_write kept rfl fun data =>
        { data with
          string := data.valuestring.map .copied
          valuestring := none } with
        ⟨items, written, again, grown₁⟩
      rw [found]
      dsimp only [Option.bind_eq_bind, Option.bind_some, andThen]
      rw [written, Option.bind_some]
      have together := grown.trans grown₁
      have behind : skip (skip rest).tail <:+ value :=
        (skip_suffix _).trans ((List.tail_suffix _).trans
          ((skip_suffix _).trans ((consumes_string found).trans
            (skip_suffix _))))
      by_cases colon : byteAt (skip rest) ≠ char ':'
      · refine ⟨.error (some (skip rest)), _, _, .nil, if_pos colon, together,
          owned, if_pos colon⟩
      · rw [if_neg colon]
        rcases fills (together.ready ready held) again rfl owned
          (skip (skip rest).tail) (whole.suffix behind) with
          ⟨parsed, after, data, child, returned, filled, owned, agrees⟩
        rw [returned]
        cases parsed with
        | error ep =>
            refine ⟨.error ep, after, data, child, rfl, together.trans filled,
              owned, ?_⟩
            cases ep with
            | none => trivial
            | some text =>
                change plain (skip (skip rest).tail) = .error text at agrees
                refine (if_neg colon).trans ?_
                change Except.bind (plain (skip (skip rest).tail)) _ = _
                rw [agrees]
                rfl
        | ok behind =>
            rcases agrees with ⟨result, valued, built⟩
            refine ⟨.ok (skip behind), after, data, child, rfl,
              together.trans filled, owned, (string, result), ?_, built⟩
            refine (if_neg colon).trans ?_
            change Except.bind (plain (skip (skip rest).tail)) _ = _
            rw [valued]
            rfl

variable (arithmetic : Arithmetic Double)

theorem fills_value (fuel : Nat) :
    Fills (parseValue arithmetic fuel) (Json.parseValue arithmetic fuel)
      titled := by
  induction fuel with
  | zero =>
      intro memory item cell ready held childless owns value whole
      exact ⟨_, memory, cell.data, .nil, rfl,
        grown_same held childless draws_nothing, owns, rfl⟩
  | succ fuel induction =>
      have consumes := consumes_value arithmetic fuel
      have array :
          Fills (parseArray arithmetic (parseValue arithmetic fuel))
            (Json.parseArray (Json.parseValue arithmetic fuel)) titled := by
        refine (induction.item.sequence consumes.item (.array []) (char '[')
          (char ']')).map CJson.array fun item results => ?_
        rw [value_fill_array, List.map_map]
        exact congrArg (fun child => titled item (CJson.array child))
          (List.map_id results)
      have object :
          Fills (parseObject arithmetic (parseValue arithmetic fuel))
            (Json.parseObject (Json.parseValue arithmetic fuel)) titled := by
        refine (induction.member.sequence consumes.member (.object [])
          (char '{') (char '}')).map CJson.object fun item results => ?_
        rw [value_fill_object, List.map_map]
        exact congrArg (fun child => titled item (CJson.object child))
          (List.map_id results)
      intro memory item cell ready held childless owns value whole
      have leaf (result : CJson Double) (rest : List Byte)
          (valued : ∀ child, (cell.data.fill result).value child = result) :
          ∃ parsed after data child,
            fillItem memory item result rest = some (parsed, after) ∧
              Grown memory after item data child (missing parsed) ∧
              data.isReference = false ∧
              Agrees parsed (.ok (result, rest)) fun result =>
                (data.string.map Name.text, data.value (members child)) =
                  titled cell.data result := by
        rcases fillItem_grown held childless result rest with
          ⟨after, filled, grown⟩
        have same := congrArg (Option.map Name.text)
          (string_fill cell.data result)
        exact ⟨_, after, _, .nil, filled, grown, isReference_fill _ _, result,
          rfl, Prod.ext same (valued _)⟩
      rw [parseValue, Json.parseValue]
      split_ifs
      · exact leaf _ _ (value_fill_null _)
      · exact leaf _ _ fun child => value_fill_bool _ child false
      · exact leaf _ _ fun child => value_fill_bool _ child true
      · rcases parseString_grown held childless value whole with
          ⟨parsed, after, data, returned, grown, which, agrees⟩
        refine ⟨parsed, after, data, .nil, returned, grown, ?_, ?_⟩
        · rcases which with rfl | ⟨out, rfl⟩
          · exact owns
          · exact isReference_fill _ _
        · refine agrees.map CJson.string fun out same => ?_
          rw [same]
          exact Prod.ext (congrArg (Option.map Name.text) (string_fill _ _))
            (value_fill_string _ _ _)
      · exact leaf _ _ fun child => value_fill_number _ child _ _
      · exact array ready held childless owns value whole
      · exact object ready held childless owns value whole
      · exact ⟨_, memory, cell.data, .nil, rfl,
          grown_same held childless draws_nothing, owns, rfl⟩

end Values

/-! ## Whole texts -/

section Texts

variable {memory : Memory Double} {roots : List (Forest (Item Double))}

/-- The item is a root, and the other trees are as before. -/
theorem Grown.holds {before after : Memory Double} {item : Nat}
    {old data : Item Double} {child : Forest (Item Double)} {failed : Bool}
    (grown : Grown before after item data child failed)
    (holds :
      Holds Item.isReference before.items (.node item old .nil .nil :: roots))
    (ready : Ready before) (owns : data.isReference = false) :
    Holds Item.isReference after.items
      (.node item data child .nil :: roots) := by
  have top := (holds.stored _ (List.mem_cons_self ..)).1
  rcases top with ⟨nonzero, ⟨pointer, cell, -⟩, -, -⟩
  have separate := holds.separate
  rw [cells_cons, List.nodup_append] at separate
  rcases separate with ⟨-, nodup, disjoint⟩
  have free := ready.fresh grown.draws
  have notItem : item ∉ child.addresses := fun inside => by
    cases cell.symm.trans (free item inside)
  have apart : ∀ address ∈ cells roots,
      address ≠ item ∧ address ∉ child.addresses := by
    intro address member
    have held := (holds.allocated address).mpr
      (cells_cons ▸ List.mem_append_right _ member)
    constructor
    · rintro rfl
      exact disjoint _ (List.mem_cons_self ..) _ member rfl
    · intro inside
      rw [free address inside] at held
      cases held
  constructor
  · intro tree member
    rcases List.mem_cons.mp member with rfl | later
    · refine ⟨⟨nonzero, ⟨child.first 0, ?_, ?_⟩, grown.stored, trivial⟩, rfl⟩
      · exact grown.cell.trans (congrArg (Option.map _) cell)
      · rw [owns]
        rfl
    · have kept := holds.tail tree later
      refine ⟨kept.1.congr fun address inside => ?_, kept.2⟩
      have away := apart address
        (List.mem_flatMap.mpr ⟨tree, later, inside⟩)
      exact grown.frame address away.1 away.2
  · rw [cells_cons, Forest.addresses, Forest.addresses, List.append_nil,
      List.cons_append, List.nodup_cons, List.mem_append, not_or,
      List.nodup_append]
    refine ⟨⟨notItem, fun member => (apart item member).1 rfl⟩, grown.nodup,
      nodup, ?_⟩
    rintro address inside _ member rfl
    exact (apart address member).2 inside
  · intro address
    rw [cells_cons, Forest.addresses, Forest.addresses, List.append_nil,
      List.mem_append, List.mem_cons]
    by_cases inside : address ∈ child.addresses
    · exact iff_of_true (grown.stored.isSome inside) (by simp [inside])
    · by_cases same : address = item
      · rw [same, grown.cell, cell]
        simp
      · rw [grown.frame address same inside, holds.allocated, cells_cons]
        simp [Forest.addresses, same, inside]

variable (arithmetic : Arithmetic Double)

/-- `cJSON_ParseWithOpts`, without memory. -/
def readWithOpts (value : List Byte) (requireNullTerminated : Bool) :
    Except (List Byte) (CJson Double × List Byte) := do
  let (item, behind) ←
    Json.parseValue arithmetic (value.length + 1) (skip value)
  let behind := if requireNullTerminated then skip behind else behind
  if requireNullTerminated && byteAt behind != 0 then .error behind
  else return (item, behind)

/--
The trees are as before, beside a tree with the value of the text if there is
one.  Memory is missing only if `malloc` has said so.
-/
def Settled (before after : Memory Double)
    (roots : List (Forest (Item Double)))
    (plain : Except (List Byte) (CJson Double × List Byte)) :
    Except (Option (List Byte)) (Nat × List Byte) → Prop
  | .error none =>
      Holds Item.isReference after.items roots ∧
        Draws before.supply after.supply true []
  | .error (some ep) =>
      Holds Item.isReference after.items roots ∧
        Draws before.supply after.supply false [] ∧ plain = .error ep
  | .ok (c, behind) =>
      ∃ tree value,
        tree.first 0 = c ∧ members tree = [(none, value)] ∧
          Holds Item.isReference after.items (tree :: roots) ∧
          Draws before.supply after.supply false [] ∧
          plain = .ok (value, behind)

/--
The parser builds on the heap the tree that the text has, and where it fails it
frees all items that it has allocated, for every text with whole escapes.
-/
theorem parse_keeps_trees
    (holds : Holds Item.isReference memory.items roots)
    (given : Supply memory.supply roots) (value : List Byte)
    (requireNullTerminated : Bool) (whole : WholeStrings value) :
    ∃ result after,
      (∃ bound, ∀ fuel, bound ≤ fuel →
        cJsonParseWithOpts arithmetic fuel memory value
          requireNullTerminated = some (result, after)) ∧
      Settled memory after roots
        (readWithOpts arithmetic value requireNullTerminated) result := by
  have ready : Ready memory := by
    refine ⟨fun address member => ?_, given.distinct⟩
    exact Option.not_isSome_iff_eq_none.mp
      ((holds.allocated address).not.mpr (given.fresh address member))
  by_cases null : memory.supply.headD 0 = 0
  · refine ⟨.error none, ⟨memory.items, memory.supply.tail⟩,
      ⟨0, fun fuel _ => ?_⟩, holds, draws_null null⟩
    rw [cJsonParseWithOpts, cJsonNewItem, if_pos null]
    rfl
  · have first := draws_one null
    have free := ready.fresh first _ (List.mem_singleton_self _)
    generalize head : memory.supply.headD 0 = c at *
    have inserted := holds.insert null free 0
      fun _ : (blankItem arithmetic).isReference = false => rfl
    have started :
        Ready ⟨Function.update memory.items c
          (some ⟨0, 0, 0, blankItem arithmetic⟩), memory.supply.tail⟩ := by
      refine ready.kept first (by simpa using Ne.symm null) ?_
      intro address unused outside
      exact (Function.update_of_ne (by simpa using outside) ..).trans unused
    rcases fills_value arithmetic (value.length + 1) started
      (Function.update_self ..) rfl isReference_blank (skip value)
      (whole.suffix (skip_suffix _)) with
      ⟨parsed, after, data, child, returned, grown, owns, agrees⟩
    have kept := grown.holds inserted started owns
    have draws := (first.trans grown.draws).unused
    have deleted :
        ∃ gone bound,
          (∀ fuel, bound ≤ fuel →
            cJsonDelete fuel after.items c = some gone) ∧
            Holds Item.isReference gone roots :=
      ⟨_, _ + 1, fun _ enough => delete_root kept enough, kept.erase⟩
    rcases deleted with ⟨gone, bound, freed, erased⟩
    have start (fuel : Nat) :
        cJsonParseWithOpts arithmetic fuel memory value
            requireNullTerminated =
          match (parsed, after) with
          | (.error ep, memory) => do
              let items ← cJsonDelete fuel memory.items c
              some (.error ep, { memory with items })
          | (.ok behind, memory) =>
              let behind :=
                if requireNullTerminated then skip behind else behind
              if requireNullTerminated && byteAt behind != 0 then do
                let items ← cJsonDelete fuel memory.items c
                some (.error (some behind), { memory with items })
              else some (.ok (c, behind), memory) := by
      rw [cJsonParseWithOpts, head, cJsonNewItem, if_neg null]
      dsimp only
      rw [if_neg null, returned]
      rfl
    cases parsed with
    | error ep =>
        refine ⟨.error ep, ⟨gone, after.supply⟩,
          ⟨bound, fun fuel enough => ?_⟩, ?_⟩
        · rw [start]
          dsimp only
          rw [freed fuel enough]
          rfl
        · cases ep with
          | none => exact ⟨erased, draws⟩
          | some ep =>
              refine ⟨erased, draws, ?_⟩
              change Json.parseValue arithmetic (value.length + 1)
                (skip value) = .error ep at agrees
              rw [readWithOpts, agrees]
              rfl
    | ok rest =>
        rcases agrees with ⟨result, found, built⟩
        rw [readWithOpts, found]
        generalize ends :
          (if requireNullTerminated then skip rest else rest) = behind
        by_cases more :
            (requireNullTerminated && byteAt behind != 0) = true
        · refine ⟨.error (some behind), ⟨gone, after.supply⟩,
            ⟨bound, fun fuel enough => ?_⟩, erased, draws, ?_⟩
          · rw [start]
            dsimp only
            rw [ends, if_pos more, freed fuel enough]
            rfl
          · change (if _ then _ else _) = _
            rw [ends]
            exact if_pos more
        · refine ⟨.ok (c, behind), after, ⟨0, fun fuel _ => ?_⟩,
            .node c data child .nil, result, rfl, ?_, kept, draws, ?_⟩
          · rw [start]
            dsimp only
            rw [ends, if_neg more]
          · exact congrArg (fun member => [member]) built
          · change (if _ then _ else _) = _
            rw [ends]
            exact if_neg more

theorem parse_keeps_trees_object :
    ∃ result after,
      (∃ bound, ∀ fuel, bound ≤ fuel →
        cJsonParseWithOpts rational fuel ⟨fun _ => none, [1, 2, 3, 4]⟩
          (ascii "\x7b\"\\u0041\":\"\\n\"\x7d") true = some (result, after)) ∧
      Settled ⟨fun _ => none, [1, 2, 3, 4]⟩ after []
        (readWithOpts rational (ascii "\x7b\"\\u0041\":\"\\n\"\x7d") true)
        result :=
  parse_keeps_trees rational holds_nil
    ⟨fun _ _ => List.not_mem_nil, by decide⟩ _ _ (by decide +kernel)

end Texts

end CommonCode.Json.Linked
