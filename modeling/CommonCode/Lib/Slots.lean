import Mathlib

/-!
# Tables of slots

A table is a list of slots, each of which holds a key or is free.  Where no key
is held twice, what the table says about a key changes only with the slot that
holds it.  A free slot is found by a cyclic search from any position, unless
every slot is in use.
-/

namespace CommonCode.Lib.Slots

variable {Slot Key : Type*}

/-! ## The keys of a table -/

/-- The keys that the slots hold, in their order. -/
def keys (key : Slot → Option Key) (slots : List Slot) : List Key :=
  slots.filterMap key

/-- No key is held twice. -/
def Distinct (key : Slot → Option Key) (slots : List Slot) : Prop :=
  (keys key slots).Nodup

/-- The first slot that holds a key. -/
def lookup [DecidableEq Key] (key : Slot → Option Key) (slots : List Slot)
    (wanted : Key) : Option Slot :=
  slots.find? fun slot => key slot = some wanted

theorem exists_split {slots : List Slot} {i : Nat} {slot : Slot}
    (place : slots[i]? = some slot) :
    ∃ front back, slots = front ++ slot :: back ∧ front.length = i := by
  rcases List.getElem?_eq_some_iff.mp place with ⟨inside, rfl⟩
  refine ⟨slots.take i, slots.drop (i + 1), ?_, ?_⟩
  · rw [List.cons_getElem_drop_succ, List.take_append_drop]
  · exact List.length_take_of_le inside.le

@[simp]
theorem modify_middle (front back : List Slot) (slot : Slot)
    (change : Slot → Slot) :
    (front ++ slot :: back).modify front.length change =
      front ++ change slot :: back := by
  induction front with
  | nil => rfl
  | cons first rest induction => simpa using induction

@[simp]
theorem set_middle (front back : List Slot) (slot new : Slot) :
    (front ++ slot :: back).set front.length new = front ++ new :: back := by
  simp

section Replacement

variable {key : Slot → Option Key} {front back : List Slot} {old new : Slot}

theorem keys_middle (slot : Slot) :
    keys key (front ++ slot :: back) =
      keys key front ++ ((key slot).toList ++ keys key back) := by
  rw [keys, List.filterMap_append, List.filterMap_cons]
  cases held : key slot with
  | none => rfl
  | some _ => rfl

/-- A slot may be exchanged for one with the same key. -/
theorem keys_exchange (same : key new = key old) :
    keys key (front ++ new :: back) = keys key (front ++ old :: back) := by
  rw [keys_middle, keys_middle, same]

/-- A key that no slot holds may be put in a free slot. -/
theorem Distinct.fill {added : Key}
    (distinct : Distinct key (front ++ old :: back))
    (free : key old = none) (holds : key new = some added)
    (absent : added ∉ keys key (front ++ old :: back)) :
    Distinct key (front ++ new :: back) := by
  rw [Distinct, keys_middle, free] at distinct
  rw [keys_middle, free] at absent
  rw [Distinct, keys_middle, holds]
  exact (List.nodup_middle (a := added)).mpr
    (List.nodup_cons.mpr ⟨absent, distinct⟩)

/-- A slot may be freed. -/
theorem Distinct.clear (distinct : Distinct key (front ++ old :: back))
    (freed : key new = none) :
    Distinct key (front ++ new :: back) := by
  rw [Distinct, keys_middle] at distinct ⊢
  rw [freed]
  refine distinct.sublist (List.Sublist.append_left ?_ _)
  exact List.sublist_append_right _ _

theorem length_keys_fill {added : Key}
    (free : key old = none) (holds : key new = some added) :
    (keys key (front ++ new :: back)).length =
      (keys key (front ++ old :: back)).length + 1 := by
  rw [keys_middle, keys_middle, free, holds]
  simp [Nat.add_assoc]

theorem length_keys_clear {removed : Key}
    (held : key old = some removed) (freed : key new = none) :
    (keys key (front ++ new :: back)).length + 1 =
      (keys key (front ++ old :: back)).length :=
  (length_keys_fill freed held).symm

end Replacement

/-! ## Lookup -/

section Lookup

variable [DecidableEq Key] {key : Slot → Option Key} {slots : List Slot}
variable {front back : List Slot} {old new : Slot} {wanted : Key}

theorem lookup_eq_none_iff :
    lookup key slots wanted = none ↔ wanted ∉ keys key slots := by
  simp [lookup, keys, List.find?_eq_none]

/-- A key that is not held twice is looked up in the slot that holds it. -/
theorem lookup_eq_some_iff (distinct : Distinct key slots) {slot : Slot} :
    lookup key slots wanted = some slot ↔
      slot ∈ slots ∧ key slot = some wanted := by
  constructor
  · intro found
    rw [lookup] at found
    exact ⟨List.mem_of_find?_eq_some found,
      by simpa using List.find?_some found⟩
  · rintro ⟨member, holds⟩
    rcases List.append_of_mem member with ⟨front, back, rfl⟩
    rw [Distinct, keys_middle, holds] at distinct
    have before : lookup key front wanted = none := by
      rw [lookup_eq_none_iff]
      intro held
      exact (List.nodup_append.mp distinct).2.2 wanted held wanted
        (List.mem_cons_self ..) rfl
    rw [lookup] at before ⊢
    rw [List.find?_append, before, List.find?_cons_of_pos (by simpa using holds)]
    rfl

theorem lookup_self (distinct : Distinct key (front ++ new :: back))
    (holds : key new = some wanted) :
    lookup key (front ++ new :: back) wanted = some new :=
  (lookup_eq_some_iff distinct).mpr ⟨by simp, holds⟩

/-- A key of neither slot is looked up as before. -/
theorem lookup_other (before : key old ≠ some wanted)
    (after : key new ≠ some wanted) :
    lookup key (front ++ new :: back) wanted =
      lookup key (front ++ old :: back) wanted := by
  simp only [lookup, List.find?_append]
  rw [List.find?_cons_of_neg (by simpa using after),
    List.find?_cons_of_neg (by simpa using before)]

/-- The key of a slot that is freed is not found any more. -/
theorem lookup_cleared (distinct : Distinct key (front ++ old :: back))
    (held : key old = some wanted) (freed : key new = none) :
    lookup key (front ++ new :: back) wanted = none := by
  rw [lookup_eq_none_iff, keys_middle, freed]
  rw [Distinct, keys_middle, held] at distinct
  exact (List.nodup_cons.mp (List.nodup_middle.mp distinct)).1

end Lookup

/-! ## The search for a free slot -/

section Probe

variable {key : Slot → Option Key} {slots : List Slot}

/--
The first free slot at a position or behind it, going on at the first slot
behind the last one; it gives up after a number of steps.
-/
def probe (key : Slot → Option Key) (slots : List Slot) :
    Nat → Nat → Option Nat
  | 0, _ => none
  | steps + 1, i =>
      match slots[i]? with
      | none => none
      | some slot =>
          if (key slot).isSome then
            probe key slots steps (if i + 1 = slots.length then 0 else i + 1)
          else some i

/-- The number of steps of the search from one position to another. -/
def distance (size start goal : Nat) : Nat :=
  if start ≤ goal then goal - start else goal + size - start

theorem probe_of_distance {goal : Nat} {free : Slot}
    (place : slots[goal]? = some free) (isFree : key free = none)
    {steps start : Nat} (inside : start < slots.length)
    (near : distance slots.length start goal < steps) :
    ∃ i slot,
      probe key slots steps start = some i ∧ slots[i]? = some slot ∧
        key slot = none := by
  have bound : goal < slots.length := (List.getElem?_eq_some_iff.mp place).1
  induction steps generalizing start with
  | zero => exact absurd near (Nat.not_lt_zero _)
  | succ steps induction =>
      have here : slots[start]? = some slots[start] :=
        List.getElem?_eq_getElem inside
      rw [probe, here]
      cases held : key slots[start] with
      | none => exact ⟨start, slots[start], by simp [held], here, held⟩
      | some used =>
          -- the goal is another slot, and the next position is nearer to it
          have apart : start ≠ goal := by
            rintro rfl
            rw [here, Option.some.injEq] at place
            rw [place, isFree] at held
            cases held
          simp only [held, Option.isSome_some, if_true]
          apply induction
          · split <;> omega
          · rw [distance] at near ⊢
            split at near <;> split <;> split <;> omega

/-- The search succeeds within as many steps as there are slots. -/
theorem exists_probe (room : (keys key slots).length < slots.length)
    {start : Nat} (inside : start < slots.length) :
    ∃ i slot,
      probe key slots slots.length start = some i ∧ slots[i]? = some slot ∧
        key slot = none := by
  have free : ∃ slot ∈ slots, key slot = none := by
    by_contra full
    push Not at full
    have all : (keys key slots).length = slots.length := by
      rw [keys, List.filterMap_length_eq_length]
      intro slot member
      exact Option.isSome_iff_ne_none.mpr (full slot member)
    omega
  rcases free with ⟨slot, member, isFree⟩
  rcases List.mem_iff_getElem?.mp member with ⟨goal, place⟩
  have bound : goal < slots.length := (List.getElem?_eq_some_iff.mp place).1
  apply probe_of_distance place isFree inside
  rw [distance]
  split <;> omega

end Probe

end CommonCode.Lib.Slots
