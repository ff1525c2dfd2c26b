import CommonCode.Lib.CString
import CommonCode.Lib.Slots
import CommonCode.Lib.Transition

/-!
# The dictionary of string variables

The store of `dictionary.c`: three arrays of the same size, read here as one
list of slots, and the number of its entries.  A lookup goes through all slots
and compares the hash before it compares the key; a new key is put in the first
empty slot at position `n` or behind it, and the arrays are doubled when all
slots are counted.

Over every sequence of calls the dictionary is a finite map from keys to
values, some of them `NULL`, and the search for an empty slot always ends.  The
calls to `malloc` and `calloc` behind a call may fail; what the failures do to
the map and to the number of entries is part of the result.
-/

namespace CommonCode.IniParser

open CommonCode.Lib.Bits
open CommonCode.Lib.CString
open CommonCode.Lib.Slots
open CommonCode.Lib.Transition

/-! ## The data -/

/-- The entries of the arrays `key`, `val` and `hash` at one position. -/
structure Slot where
  key : Option (List Byte)
  val : Option (List Byte)
  hash : BitVec 32
deriving DecidableEq

/-- What `calloc` leaves in a slot. -/
def Slot.empty : Slot := ⟨none, none, 0⟩

/-- The structure `dictionary`; its `size` is the length of the arrays. -/
structure Dictionary where
  n : BitVec 32
  slots : List Slot
deriving DecidableEq

def Dictionary.size (d : Dictionary) : Nat := d.slots.length

/-- The constant `DICTMINSZ`. -/
def dictMinSz : Nat := 128

def dictionaryNew (size : Nat) : Dictionary where
  n := 0
  slots := List.replicate (if size < dictMinSz then dictMinSz else size)
    Slot.empty

/-! ## The functions -/

/-- One turn of the loop of `dictionary_hash`; a character is signed. -/
def hashByte (hash : BitVec 32) (byte : Byte) : BitVec 32 :=
  let sum := hash + byte.signExtend 32
  let mixed := sum + (sum <<< 10)
  mixed ^^^ (mixed >>> 6)

def dictionaryHash (key : List Byte) : BitVec 32 :=
  let hash := key.foldl hashByte 0
  let sum := hash + (hash <<< 3)
  let mixed := sum ^^^ (sum >>> 11)
  mixed + (mixed <<< 15)

/-- The comparison in the loops over the slots. -/
def Slot.matches (slot : Slot) (hash : BitVec 32) (key : List Byte) : Bool :=
  slot.key.isSome && (hash == slot.hash && slot.key == some key)

/-- The loop that locates a key. -/
def Dictionary.find (d : Dictionary) (key : List Byte) : Option Nat :=
  d.slots.findIdx? fun slot => slot.matches (dictionaryHash key) key

def dictionaryGet (d : Dictionary) (key : List Byte)
    (default : Option (List Byte)) : Option (List Byte) :=
  match d.find key with
  | none => default
  | some i => (d.slots[i]?.getD Slot.empty).val

/-- Which of the calls to `calloc` and `malloc` succeed. -/
structure Allocated where
  grow : Bool
  key : Bool
  val : Bool

def xstrdup (allocated : Bool) (s : Option (List Byte)) :
    Option (List Byte) :=
  if allocated then s else none

def dictionaryGrow (d : Dictionary) (allocated : Bool) : Option Dictionary :=
  if allocated then
    some { d with slots := d.slots ++ List.replicate d.size Slot.empty }
  else none

/-- The search for an empty slot; `none` stands for a loop without end. -/
def Dictionary.emptySlot (d : Dictionary) : Option Nat :=
  probe Slot.key d.slots d.size d.n.toNat

/-- `dictionary_set`, with its result; `none` if it does not return. -/
def dictionarySet (d : Dictionary) (key : List Byte)
    (val : Option (List Byte)) (allocated : Allocated) :
    Option (Int × Dictionary) :=
  match if 0 < d.n then d.find key else none with
  | some i =>
      some (0, { d with
        slots := d.slots.modify i fun slot =>
          { slot with val := xstrdup allocated.val val } })
  | none =>
      match
        if d.n.toNat = d.size then dictionaryGrow d allocated.grow
        else some d with
      | none => some (-1, d)
      | some d =>
          d.emptySlot.map fun i =>
            (0, { n := d.n + 1
                  slots := d.slots.set i
                    { key := xstrdup allocated.key (some key)
                      val := xstrdup allocated.val val
                      hash := dictionaryHash key } })

def dictionaryUnset (d : Dictionary) (key : List Byte) : Dictionary :=
  match d.find key with
  | none => d
  | some i => { n := d.n - 1, slots := d.slots.set i Slot.empty }

/-- The text of `"%20s\t[%s]\n"`. -/
def dumpLine (key : List Byte) (val : Option (List Byte)) : List Byte :=
  List.replicate (20 - key.length) (char ' ') ++ key ++ ascii "\t[" ++
    val.getD (ascii "UNDEF") ++ ascii "]\n"

def dictionaryDump (d : Dictionary) : List Byte :=
  if d.n < 1 then ascii "empty dictionary\n"
  else
    d.slots.flatMap fun slot =>
      slot.key.elim [] fun key => dumpLine key slot.val

/-! ## Runs -/

/-- The calls that change a dictionary. -/
inductive Call where
  | set (key : List Byte) (val : Option (List Byte)) (allocated : Allocated)
      (result : Int)
  | unset (key : List Byte)

/-- A call that returns. -/
def Step (before : Dictionary) (call : Call) (after : Dictionary) : Prop :=
  match call with
  | .set key val allocated result =>
      dictionarySet before key val allocated = some (result, after)
  | .unset key => dictionaryUnset before key = after

/-- The counter is below `UINT_MAX` before an entry is set. -/
def Countable (before : Dictionary) (call : Call) : Prop :=
  match call with
  | .set .. => before.n.toNat + 1 < 2 ^ 32
  | .unset _ => True

/-! ## The abstract dictionary -/

/--
The values of the keys, and the number of keys that were counted although their
copy could not be allocated.
-/
structure Contents where
  value : List Byte → Option (Option (List Byte))
  lost : Nat

def Contents.empty : Contents := ⟨fun _ => none, 0⟩

/-- What a call does to the abstract dictionary. -/
def Contents.apply (contents : Contents) : Call → Contents
  | .set key val allocated result =>
      let updated :=
        Function.update contents.value key (some (xstrdup allocated.val val))
      if (contents.value key).isSome then
        { contents with value := updated }
      else if result ≠ 0 then contents
      else if allocated.key then { contents with value := updated }
      else { contents with lost := contents.lost + 1 }
  | .unset key =>
      { contents with value := Function.update contents.value key none }

/-- The contents after a sequence of calls. -/
def contents (calls : List Call) : Contents :=
  calls.foldl Contents.apply Contents.empty

/-! ## The representation -/

/-- A dictionary that holds exactly the keys and values of the contents. -/
structure Represents (d : Dictionary) (contents : Contents) : Prop where
  distinct : Distinct Slot.key d.slots
  hashed :
    ∀ slot ∈ d.slots, ∀ key ∈ slot.key, slot.hash = dictionaryHash key
  counted : (keys Slot.key d.slots).length + contents.lost = d.n.toNat
  bounded : d.n.toNat ≤ d.size
  allocated : 0 < d.size
  agrees :
    ∀ key, (lookup Slot.key d.slots key).map Slot.val = contents.value key

section Find

variable {d : Dictionary} {contents : Contents} {key : List Byte}

/-- The loop finds the slot that holds the key. -/
theorem find_some
    {i : Nat} (found : d.find key = some i) :
    ∃ front slot back,
      d.slots = front ++ slot :: back ∧ front.length = i ∧
        slot.key = some key := by
  rw [Dictionary.find, List.findIdx?_eq_some_iff_getElem] at found
  rcases found with ⟨inside, equal, -⟩
  rcases exists_split (List.getElem?_eq_getElem inside) with
    ⟨front, back, split, place⟩
  refine ⟨front, d.slots[i], back, split, place, ?_⟩
  simp only [Slot.matches, Bool.and_eq_true, beq_iff_eq] at equal
  exact equal.2.2

/-- The loop misses no key, as every hash is that of the key. -/
theorem Represents.find_none (represents : Represents d contents)
    (missed : d.find key = none) :
    key ∉ keys Slot.key d.slots := by
  intro held
  rcases List.mem_filterMap.mp held with ⟨slot, member, holds⟩
  rw [Dictionary.find, List.findIdx?_eq_none_iff] at missed
  have unequal := missed slot member
  rw [Slot.matches, represents.hashed slot member key holds, holds] at unequal
  simp at unequal

theorem Represents.value_eq_none_iff (represents : Represents d contents) :
    contents.value key = none ↔ key ∉ keys Slot.key d.slots := by
  rw [← represents.agrees key, Option.map_eq_none_iff, lookup_eq_none_iff]

/-- Only an entry that is counted can be found. -/
theorem Represents.pos_of_find (represents : Represents d contents)
    {i : Nat} (found : d.find key = some i) :
    0 < d.n := by
  rcases find_some found with ⟨front, slot, back, split, -, holds⟩
  have counted := represents.counted
  rw [split, keys_middle, holds] at counted
  rw [BitVec.lt_def, ← counted]
  simp

/-- The guard on the number of entries skips no entry. -/
theorem Represents.guarded_find (represents : Represents d contents) :
    (if 0 < d.n then d.find key else none) = d.find key := by
  cases found : d.find key with
  | none => exact ite_self none
  | some i => exact if_pos (represents.pos_of_find found)

end Find

/-! ## What one call preserves -/

section Calls

variable {d : Dictionary} {contents : Contents} {key : List Byte}

theorem keys_replicate_empty (count : Nat) :
    keys Slot.key (List.replicate count Slot.empty) = [] := by
  rw [keys, List.filterMap_replicate]
  rfl

theorem represents_new (size : Nat) :
    Represents (dictionaryNew size) Contents.empty where
  distinct := by
    rw [dictionaryNew, Distinct, keys_replicate_empty]
    exact List.nodup_nil
  hashed slot member key holds := by
    rw [List.eq_of_mem_replicate member] at holds
    cases holds
  counted := by
    rw [dictionaryNew, keys_replicate_empty]
    rfl
  bounded := Nat.zero_le _
  allocated := by
    rw [Dictionary.size, dictionaryNew, List.length_replicate, dictMinSz]
    split <;> omega
  agrees key := by
    rw [lookup_eq_none_iff.mpr]
    · rfl
    · rw [dictionaryNew, keys_replicate_empty]
      exact List.not_mem_nil

/-- Growing adds empty slots behind the others. -/
theorem Represents.grow (represents : Represents d contents) :
    Represents
      { d with slots := d.slots ++ List.replicate d.size Slot.empty }
      contents := by
  have same (slots : List Slot) (count : Nat) :
      keys Slot.key (slots ++ List.replicate count Slot.empty) =
        keys Slot.key slots := by
    rw [keys, List.filterMap_append]
    exact (congrArg _ (keys_replicate_empty count)).trans (List.append_nil _)
  constructor
  · rw [Distinct, same]
    exact represents.distinct
  · intro slot member key holds
    rcases List.mem_append.mp member with old | added
    · exact represents.hashed slot old key holds
    · rw [List.eq_of_mem_replicate added] at holds
      cases holds
  · rw [same]
    exact represents.counted
  · apply represents.bounded.trans
    simp [Dictionary.size]
  · apply represents.allocated.trans_le
    simp [Dictionary.size]
  · intro key
    rw [← represents.agrees key, lookup, lookup, List.find?_append]
    cases d.slots.find? _ with
    | some slot => rfl
    | none =>
        have nothing :
            lookup Slot.key (List.replicate d.size Slot.empty) key = none := by
          rw [lookup_eq_none_iff, keys_replicate_empty]
          exact List.not_mem_nil
        rw [lookup] at nothing
        rw [nothing]
        rfl

section Exchange

variable {front back : List Slot} {slot new : Slot}

/-- One slot is exchanged. -/
theorem Represents.exchange (represents : Represents d contents)
    (split : d.slots = front ++ slot :: back)
    (hashed : ∀ key ∈ new.key, new.hash = dictionaryHash key)
    {n : BitVec 32} {after : Contents}
    (distinct : Distinct Slot.key (front ++ new :: back))
    (counted :
      (keys Slot.key (front ++ new :: back)).length + after.lost = n.toNat)
    (bounded : n.toNat ≤ d.size)
    (agrees :
      ∀ key, (lookup Slot.key (front ++ new :: back) key).map Slot.val =
        after.value key) :
    Represents ⟨n, front ++ new :: back⟩ after where
  distinct := distinct
  hashed other member wanted holds := by
    have before := represents.hashed
    rw [split] at before
    simp only [List.mem_append, List.mem_cons] at before member
    rcases member with earlier | rfl | later
    · exact before other (Or.inl earlier) wanted holds
    · exact hashed wanted holds
    · exact before other (Or.inr (Or.inr later)) wanted holds
  counted := counted
  bounded := by
    rw [Dictionary.size, split] at bounded
    rw [Dictionary.size]
    simpa using bounded
  allocated := by
    rw [Dictionary.size]
    simp
  agrees := agrees

/-- The slot that is exchanged holds the given key or none. -/
theorem Represents.agrees_update (represents : Represents d contents)
    (split : d.slots = front ++ slot :: back)
    (before : ∀ other ∈ slot.key, other = key)
    (after : ∀ other ∈ new.key, other = key)
    {value : Option (Option (List Byte))}
    (here :
      (lookup Slot.key (front ++ new :: back) key).map Slot.val = value)
    (wanted : List Byte) :
    (lookup Slot.key (front ++ new :: back) wanted).map Slot.val =
      Function.update contents.value key value wanted := by
  by_cases equal : wanted = key
  · subst equal
    rw [here, Function.update_self]
  · rw [Function.update_of_ne equal, ← represents.agrees wanted, split,
      lookup_other]
    · exact fun holds => equal (before wanted holds)
    · exact fun holds => equal (after wanted holds)

/-- Another value for a key that is held. -/
theorem Represents.revalue (represents : Represents d contents)
    (split : d.slots = front ++ slot :: back) (holds : slot.key = some key)
    (kept : new.key = some key) (hashed : new.hash = dictionaryHash key) :
    Represents
      { d with slots := front ++ new :: back }
      { contents with
        value := Function.update contents.value key (some new.val) } := by
  have same : keys Slot.key (front ++ new :: back) = keys Slot.key d.slots := by
    rw [split]
    exact keys_exchange (kept.trans holds.symm)
  have distinct : Distinct Slot.key (front ++ new :: back) := by
    rw [Distinct, same]
    exact represents.distinct
  apply represents.exchange split
  · intro other member
    rw [kept, Option.mem_some] at member
    rw [hashed, member]
  · exact distinct
  · rw [same]
    exact represents.counted
  · exact represents.bounded
  · apply represents.agrees_update split
    · intro other member
      rw [holds, Option.mem_some] at member
      exact member.symm
    · intro other member
      rw [kept, Option.mem_some] at member
      exact member.symm
    · rw [lookup_self distinct kept]
      rfl

/-- A new entry is counted. -/
theorem toNat_succ (bound : d.n.toNat + 1 < 2 ^ 32) :
    (d.n + 1).toNat = d.n.toNat + 1 := by
  rw [BitVec.toNat_add]
  exact Nat.mod_eq_of_lt bound

/-- A new key in a free slot. -/
theorem Represents.fill (represents : Represents d contents)
    (split : d.slots = front ++ slot :: back) (free : slot.key = none)
    (unknown : contents.value key = none)
    (copied : new.key = some key) (hashed : new.hash = dictionaryHash key)
    (bound : d.n.toNat + 1 < 2 ^ 32) (room : d.n.toNat < d.size) :
    Represents
      { n := d.n + 1, slots := front ++ new :: back }
      { contents with
        value := Function.update contents.value key (some new.val) } := by
  have absent : key ∉ keys Slot.key (front ++ slot :: back) := by
    rw [← split]
    exact represents.value_eq_none_iff.mp unknown
  have old := represents.distinct
  rw [split] at old
  have distinct : Distinct Slot.key (front ++ new :: back) :=
    old.fill free copied absent
  have only : ∀ other ∈ new.key, other = key := by
    intro other member
    rw [copied, Option.mem_some] at member
    exact member.symm
  apply represents.exchange split
  · intro other member
    rw [hashed, only other member]
  · exact distinct
  · have counted := represents.counted
    rw [split] at counted
    rw [length_keys_fill free copied, toNat_succ bound, ← counted]
    exact Nat.add_right_comm _ _ _
  · rw [toNat_succ bound]
    exact room
  · apply represents.agrees_update split _ only
    · rw [lookup_self distinct copied]
      rfl
    · rw [free]
      exact fun other member => absurd member (Option.not_mem_none other)

/-- A key that is counted but not copied leaves its slot free. -/
theorem Represents.lose (represents : Represents d contents)
    (split : d.slots = front ++ slot :: back) (free : slot.key = none)
    (missing : new.key = none)
    (bound : d.n.toNat + 1 < 2 ^ 32) (room : d.n.toNat < d.size) :
    Represents
      { n := d.n + 1, slots := front ++ new :: back }
      { contents with lost := contents.lost + 1 } := by
  have same :
      keys Slot.key (front ++ new :: back) = keys Slot.key d.slots := by
    rw [split]
    exact keys_exchange (missing.trans free.symm)
  apply represents.exchange split
  · rw [missing]
    exact fun other member => absurd member (Option.not_mem_none other)
  · rw [Distinct, same]
    exact represents.distinct
  · rw [same, toNat_succ bound, ← represents.counted]
    exact (Nat.add_assoc _ _ _).symm
  · rw [toNat_succ bound]
    exact room
  · intro wanted
    rw [← represents.agrees wanted, split, lookup_other]
    · rw [free]
      exact Option.some_ne_none _ ∘ Eq.symm
    · rw [missing]
      exact Option.some_ne_none _ ∘ Eq.symm

/-- A key whose slot is emptied. -/
theorem Represents.clear (represents : Represents d contents)
    (split : d.slots = front ++ slot :: back) (holds : slot.key = some key) :
    Represents
      { n := d.n - 1, slots := front ++ Slot.empty :: back }
      { contents with value := Function.update contents.value key none } := by
  have old := represents.distinct
  rw [split] at old
  have counted := represents.counted
  have emptied : Slot.key Slot.empty = none := rfl
  rw [split, ← length_keys_clear holds emptied] at counted
  have previous : (d.n - 1).toNat = d.n.toNat - 1 := by
    apply BitVec.toNat_sub_of_le
    rw [BitVec.le_def, ← counted]
    simp
    omega
  apply represents.exchange split
  · exact fun other member => absurd member (Option.not_mem_none other)
  · exact old.clear rfl
  · dsimp only
    omega
  · have bounded := represents.bounded
    omega
  · apply represents.agrees_update split
    · intro other member
      rw [holds, Option.mem_some] at member
      exact member.symm
    · exact fun other member => absurd member (Option.not_mem_none other)
    · rw [lookup_cleared old holds rfl]
      rfl

end Exchange

/-- There is room for an entry, unless the arrays could not be doubled. -/
theorem Represents.make_room (represents : Represents d contents)
    {grow : Bool} {room : Dictionary}
    (made :
      (if d.n.toNat = d.size then dictionaryGrow d grow else some d) =
        some room) :
    room.n = d.n ∧ Represents room contents ∧ room.n.toNat < room.size := by
  have bounded := represents.bounded
  have allocated := represents.allocated
  split at made
  · rw [dictionaryGrow, Option.ite_none_right_eq_some,
      Option.some.injEq] at made
    rcases made with ⟨-, rfl⟩
    refine ⟨rfl, represents.grow, bounded.trans_lt ?_⟩
    simpa [Dictionary.size] using allocated
  · cases made
    refine ⟨rfl, represents, ?_⟩
    omega

/-- Where there is room the search for an empty slot ends. -/
theorem Represents.emptySlot (represents : Represents d contents)
    (room : d.n.toNat < d.size) :
    ∃ front slot back,
      d.emptySlot = some front.length ∧ d.slots = front ++ slot :: back ∧
        slot.key = none := by
  have counted := represents.counted
  have free : (keys Slot.key d.slots).length < d.slots.length := by
    rw [Dictionary.size] at room
    omega
  rcases exists_probe free room with ⟨i, slot, found, place, isFree⟩
  rcases exists_split place with ⟨front, back, split, rfl⟩
  exact ⟨front, slot, back, found, split, isFree⟩

/-- A key that is in the dictionary is given its value. -/
theorem Represents.set_known (represents : Represents d contents)
    {val : Option (List Byte)} {allocated : Allocated} {i : Nat}
    (found : d.find key = some i) :
    ∃ after,
      dictionarySet d key val allocated = some (0, after) ∧
        Represents after (contents.apply (.set key val allocated 0)) := by
  rcases find_some found with ⟨front, slot, back, split, place, holds⟩
  have member : slot ∈ d.slots := by
    rw [split]
    simp
  have known : (contents.value key).isSome := by
    rw [← represents.agrees key,
      (lookup_eq_some_iff represents.distinct).mpr ⟨member, holds⟩]
    rfl
  rw [dictionarySet, represents.guarded_find, found, Contents.apply,
    if_pos known]
  refine ⟨_, rfl, ?_⟩
  rw [split, ← place, modify_middle]
  exact represents.revalue split holds holds
    (represents.hashed slot member key holds)

/-- A key that is not in the dictionary is added, if memory allows. -/
theorem Represents.set_unknown (represents : Represents d contents)
    {val : Option (List Byte)} {allocated : Allocated}
    (missed : d.find key = none) (countable : d.n.toNat + 1 < 2 ^ 32) :
    ∃ result after,
      dictionarySet d key val allocated = some (result, after) ∧
        Represents after
          (contents.apply (.set key val allocated result)) := by
  have unknown : contents.value key = none :=
    represents.value_eq_none_iff.mpr (represents.find_none missed)
  have apart : ¬ (contents.value key).isSome := by
    rw [unknown]
    exact Bool.false_ne_true
  have effect (result : Int) :
      contents.apply (.set key val allocated result) = _ := if_neg apart
  simp only [effect]
  rw [dictionarySet, represents.guarded_find, missed]
  dsimp only
  rcases made : (if d.n.toNat = d.size then dictionaryGrow d allocated.grow
      else some d) with _ | room
  · exact ⟨-1, d, rfl, represents⟩
  · rcases represents.make_room made with ⟨same, grown, space⟩
    rcases grown.emptySlot space with ⟨front, slot, back, here, split, free⟩
    rw [← same] at countable
    dsimp only
    rw [here, split]
    refine ⟨0, _, rfl, ?_⟩
    rw [set_middle, if_neg (by decide)]
    cases copied : allocated.key with
    | true => exact grown.fill split free unknown rfl rfl countable space
    | false => exact grown.lose split free rfl countable space

/-- `dictionary_set` returns, and keeps the representation. -/
theorem Represents.set (represents : Represents d contents)
    {val : Option (List Byte)} {allocated : Allocated}
    (countable : d.n.toNat + 1 < 2 ^ 32) :
    ∃ result after,
      dictionarySet d key val allocated = some (result, after) ∧
        Represents after
          (contents.apply (.set key val allocated result)) := by
  cases found : d.find key with
  | some i => exact ⟨0, represents.set_known found⟩
  | none => exact represents.set_unknown found countable

theorem Represents.unset (represents : Represents d contents) :
    Represents (dictionaryUnset d key) (contents.apply (.unset key)) := by
  rw [dictionaryUnset, Contents.apply]
  cases found : d.find key with
  | some i =>
      rcases find_some found with ⟨front, slot, back, split, place, holds⟩
      dsimp only
      rw [split, ← place, set_middle]
      exact represents.clear split holds
  | none =>
      have absent : contents.value key = none :=
        represents.value_eq_none_iff.mpr (represents.find_none found)
      rw [← absent, Function.update_eq_self]
      exact represents

end Calls

/-! ## Whole runs -/

theorem Represents.step {before after : Dictionary} {contents : Contents}
    {call : Call} (represents : Represents before contents)
    (countable : Countable before call) (step : Step before call after) :
    Represents after (contents.apply call) := by
  cases call with
  | set key val allocated result =>
      rcases represents.set countable with ⟨other, next, returns, kept⟩
      rw [Step] at step
      rw [step, Option.some.injEq, Prod.mk.injEq] at returns
      rcases returns with ⟨rfl, rfl⟩
      exact kept
  | unset key =>
      rw [Step] at step
      exact step ▸ represents.unset

theorem Represents.run {first last : Dictionary} {initial : Contents}
    {calls : List Call} (represents : Represents first initial)
    (run : Run (Under Countable Step) first calls last) :
    Represents last (calls.foldl Contents.apply initial) := by
  induction run generalizing initial with
  | nil state => exact represents
  | cons taken rest induction =>
      exact induction (represents.step taken.1 taken.2)

/-! ## What a dictionary tells -/

section Observation

variable {d : Dictionary} {contents : Contents}

theorem Represents.get (represents : Represents d contents)
    (key : List Byte) (default : Option (List Byte)) :
    dictionaryGet d key default = (contents.value key).getD default := by
  rw [dictionaryGet]
  cases found : d.find key with
  | some i =>
      rcases find_some found with ⟨front, slot, back, split, rfl, holds⟩
      have member : slot ∈ d.slots := by
        rw [split]
        simp
      rw [← represents.agrees key,
        (lookup_eq_some_iff represents.distinct).mpr ⟨member, holds⟩, split]
      simp
  | none =>
      rw [represents.value_eq_none_iff.mpr (represents.find_none found)]
      rfl

/-- The keys and values of the slots in use. -/
def Dictionary.entries (d : Dictionary) :
    List (List Byte × Option (List Byte)) :=
  d.slots.filterMap fun slot => slot.key.map fun key => (key, slot.val)

theorem map_fst_entries (d : Dictionary) :
    d.entries.map Prod.fst = keys Slot.key d.slots := by
  rw [Dictionary.entries, keys, List.map_filterMap]
  congr 1
  funext slot
  rw [Option.map_map]
  exact congrFun Option.map_id slot.key

theorem Represents.mem_entries (represents : Represents d contents)
    (key : List Byte) (val : Option (List Byte)) :
    (key, val) ∈ d.entries ↔ contents.value key = some val := by
  rw [← represents.agrees key, Option.map_eq_some_iff]
  simp only [lookup_eq_some_iff represents.distinct, Dictionary.entries,
    List.mem_filterMap, Option.map_eq_some_iff, Prod.mk.injEq]
  constructor
  · rintro ⟨slot, member, other, holds, rfl, rfl⟩
    exact ⟨slot, ⟨member, holds⟩, rfl⟩
  · rintro ⟨slot, ⟨member, holds⟩, rfl⟩
    exact ⟨slot, member, key, holds, rfl, rfl⟩

theorem dictionaryDump_eq (d : Dictionary) :
    dictionaryDump d =
      if d.n = 0 then ascii "empty dictionary
"
      else d.entries.flatMap fun entry => dumpLine entry.1 entry.2 := by
  have zero : d.n < 1 ↔ d.n = 0 := by
    rw [BitVec.lt_def, ← BitVec.toNat_inj]
    exact Nat.lt_one_iff
  have lines :
      (d.slots.flatMap fun slot =>
        slot.key.elim [] fun key => dumpLine key slot.val) =
        d.entries.flatMap fun entry => dumpLine entry.1 entry.2 := by
    rw [Dictionary.entries, List.filterMap_eq_flatMap_toList,
      List.flatMap_assoc]
    congr 1
    funext slot
    cases slot.key with
    | none => rfl
    | some key => exact (List.append_nil _).symm
  rw [dictionaryDump, lines]
  simp only [zero]

end Observation

/--
After any sequence of calls on a new dictionary, the dictionary tells of every
key what the abstract dictionary holds, prints each of its entries once, counts
its entries and the keys that could not be copied, and the next call returns.
-/
theorem dictionary_refines {size : Nat} {calls : List Call} {d : Dictionary}
    (run : Run (Under Countable Step) (dictionaryNew size) calls d) :
    (∀ key default,
      dictionaryGet d key default =
        ((contents calls).value key).getD default) ∧
    (∃ entries : List (List Byte × Option (List Byte)),
      (entries.map Prod.fst).Nodup ∧
      (∀ key val,
        (key, val) ∈ entries ↔ (contents calls).value key = some val) ∧
      d.n.toNat = entries.length + (contents calls).lost ∧
      dictionaryDump d =
        if entries.length + (contents calls).lost = 0 then
          ascii "empty dictionary
"
        else entries.flatMap fun entry => dumpLine entry.1 entry.2) ∧
    (d.n.toNat + 1 < 2 ^ 32 →
      ∀ key val allocated,
        ∃ result after,
          dictionarySet d key val allocated = some (result, after)) := by
  have represents : Represents d (contents calls) :=
    (represents_new size).run run
  have counted :
      d.n.toNat = d.entries.length + (contents calls).lost := by
    rw [← represents.counted, ← map_fst_entries, List.length_map]
  refine ⟨represents.get, ⟨d.entries, ?_, represents.mem_entries, counted, ?_⟩,
    ?_⟩
  · rw [map_fst_entries]
    exact represents.distinct
  · rw [dictionaryDump_eq, ← counted]
    simp only [← BitVec.toNat_inj]
    rfl
  · intro countable key val allocated
    rcases represents.set countable with ⟨result, after, returns, -⟩
    exact ⟨result, after, returns⟩

/-- A call, if the counter allows it and it has its result. -/
def nextDictionary (before : Dictionary) : Call → Option Dictionary
  | .set key val allocated result =>
      if before.n.toNat + 1 < 2 ^ 32 then
        (dictionarySet before key val allocated).bind fun returned =>
          if returned.1 = result then some returned.2 else none
      else none
  | .unset key => some (dictionaryUnset before key)

theorem step_of_nextDictionary {before after : Dictionary} {call : Call}
    (taken : nextDictionary before call = some after) :
    Under Countable Step before call after := by
  cases call with
  | set key val allocated result =>
      rw [nextDictionary, Option.ite_none_right_eq_some] at taken
      rcases taken with ⟨countable, taken⟩
      rcases Option.bind_eq_some_iff.mp taken with
        ⟨⟨code, later⟩, returned, taken⟩
      rw [Option.ite_none_right_eq_some] at taken
      rcases taken with ⟨rfl, ⟨⟩⟩
      exact ⟨countable, returned⟩
  | unset key => exact ⟨trivial, Option.some.inj taken⟩

/--
An entry is removed, a key cannot be copied, a value is replaced by `NULL`, and
the slot of the lost key is filled.
-/
def someCalls : List Call :=
  let all : Allocated := ⟨true, true, true⟩
  [.set (ascii "a") (some (ascii "1")) all 0,
    .set (ascii "b") (some (ascii "2")) all 0, .unset (ascii "a"),
    .set (ascii "c") (some (ascii "3")) ⟨true, false, true⟩ 0,
    .set (ascii "b") none all 0, .set (ascii "d") (some (ascii "4")) all 0]

def someDictionary : Dictionary where
  n := 3
  slots :=
    Slot.empty :: ⟨some (ascii "b"), none, dictionaryHash (ascii "b")⟩ ::
      ⟨some (ascii "d"), some (ascii "4"), dictionaryHash (ascii "d")⟩ ::
        List.replicate 125 Slot.empty

theorem dictionary_refines_some :
    dictionaryGet someDictionary (ascii "a") (some []) = some [] ∧
      dictionaryGet someDictionary (ascii "b") (some []) = none ∧
      dictionaryGet someDictionary (ascii "d") (some []) =
        some (ascii "4") ∧
      ∃ result after,
        dictionarySet someDictionary (ascii "a") none ⟨true, true, true⟩ =
          some (result, after) := by
  have run : Run (Under Countable Step) (dictionaryNew 0) someCalls
      someDictionary :=
    run_of_execute step_of_nextDictionary (by decide +kernel)
  rcases dictionary_refines run with ⟨gets, -, returns⟩
  exact ⟨gets _ _, gets _ _, gets _ _,
    returns (by decide) (ascii "a") none ⟨true, true, true⟩⟩

end CommonCode.IniParser
