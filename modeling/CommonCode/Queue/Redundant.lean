import CommonCode.Queue.Ownership

/-!
# Releases of arbitrary pointers

`queue_release` does nothing for a pointer that the queue does not know.  For
the address of a block that is free already it still moves `tail`, and from
then on `head` and `tail` do not tell how many blocks are in use.
-/

namespace CommonCode.Queue

variable {Address : Type*} {size : Nat}

/-! ## The blocks in use -/

/-- The blocks in use. -/
def ImageQueue.used (queue : ImageQueue Address size) : Finset (Fin size) :=
  Finset.univ.filter fun i => (queue.elements i).inUse = true

/-- The cursors tell the number of blocks in use, modulo the capacity. -/
def ImageQueue.Balanced (queue : ImageQueue Address size) : Prop :=
  (queue.used.card : Int) ≡
    (queue.head.val : Int) - queue.tail.val [ZMOD size]

/-- The address of a block of the queue with the given status. -/
def ImageQueue.Known (queue : ImageQueue Address size) (addr : Address)
    (inUse : Bool) : Prop :=
  ∃ i, (queue.elements i).address = addr ∧
    (queue.elements i).inUse = inUse

section Used

variable {queue : ImageQueue Address size} {i : Fin size}

@[simp]
theorem mem_used : i ∈ queue.used ↔ (queue.elements i).inUse = true := by
  simp [ImageQueue.used]

theorem used_mark_true :
    (queue.mark i true).used = insert i queue.used := by
  ext j
  by_cases same : j = i
  · simp [same]
  · simp [same, mark_inUse_of_ne same]

theorem used_mark_false :
    (queue.mark i false).used = queue.used.erase i := by
  ext j
  by_cases same : j = i
  · simp [same]
  · simp [same, mark_inUse_of_ne same]

/-- Marking a free block as free changes nothing. -/
theorem mark_false_of_unused (unused : (queue.elements i).inUse = false) :
    queue.mark i false = queue := by
  have same : { queue.elements i with inUse := false } = queue.elements i := by
    rw [← unused]
  rw [ImageQueue.mark, same, Function.update_eq_self]

theorem balanced_init [NeZero size] (address : Fin size → Address) :
    (queueInit address).Balanced := by
  have none : (queueInit address).used = ∅ := by
    ext i
    simp [queueInit]
  rw [ImageQueue.Balanced, none]
  rfl

variable [DecidableEq Address]

/-- The search finds a block with the address, if there is one. -/
theorem search_spec (queue : ImageQueue Address size) (addr : Address) :
    (queue.search addr = none ∧ ∀ i, (queue.elements i).address ≠ addr) ∨
      ∃ i, queue.search addr = some i ∧
        (queue.elements i).address = addr := by
  cases found : queue.search addr with
  | none =>
      left
      refine ⟨rfl, fun i same => ?_⟩
      have none := List.find?_eq_none.mp found i (List.mem_finRange i)
      exact none (decide_eq_true same)
  | some i =>
      right
      have address := List.find?_some found
      exact ⟨i, rfl, of_decide_eq_true address⟩

end Used

/-! ## Calls -/

variable [NeZero size]

/-- A call of one of the two functions. -/
inductive Call (Address : Type*) where
  | allocate
  | release (addr : Address)

variable [DecidableEq Address]

/--
The queue after a call.  An allocation that has to wait does not change it; it
goes on as an allocation later.
-/
def ImageQueue.call (queue : ImageQueue Address size) :
    Call Address → ImageQueue Address size
  | .allocate => (queueAllocate queue).elim queue Prod.snd
  | .release addr => queueRelease queue addr

/-- The queue after a sequence of calls. -/
def afterCalls (address : Fin size → Address) (calls : List (Call Address)) :
    ImageQueue Address size :=
  calls.foldl ImageQueue.call (queueInit address)

/-! ## What a call does -/

section Calls

variable {queue : ImageQueue Address size} {i : Fin size}

theorem val_succ (i : Fin size) : (i + 1).val = (i.val + 1) % size := by
  have one : (1 : Fin size).val = 1 % size := rfl
  rw [Fin.val_add, one, Nat.add_mod_mod]

theorem val_succ_modEq (i : Fin size) :
    ((i + 1).val : Int) ≡ i.val + 1 [ZMOD size] := by
  rw [val_succ, Int.ModEq]
  push_cast
  exact Int.emod_emod_of_dvd _ (dvd_refl _)

/-- The addresses never change. -/
theorem address_call (call : Call Address) (i : Fin size) :
    ((queue.call call).elements i).address = (queue.elements i).address := by
  cases call with
  | allocate =>
      rw [ImageQueue.call, queueAllocate]
      split
      · rfl
      · exact mark_address
  | release addr =>
      rw [ImageQueue.call, queueRelease]
      split
      · rfl
      · exact mark_address

/-- An allocation keeps the cursors in step. -/
theorem ImageQueue.Balanced.allocate (balanced : queue.Balanced) :
    (queue.call .allocate).Balanced := by
  rw [ImageQueue.call, queueAllocate]
  by_cases occupied : (queue.elements queue.head).inUse = true
  · rw [if_pos occupied]
    exact balanced
  · rw [if_neg occupied]
    have fresh : queue.head ∉ queue.used := by
      rw [mem_used]
      exact occupied
    change (((queue.mark queue.head true).used.card : Nat) : Int) ≡
      ((queue.head + 1).val : Int) - queue.tail.val [ZMOD size]
    rw [used_mark_true, Finset.card_insert_of_notMem fresh]
    have moved := (val_succ_modEq queue.head).sub_right queue.tail.val
    have counted := balanced.add_right 1
    push_cast
    refine counted.trans (Int.ModEq.trans ?_ moved.symm)
    rw [show (queue.head.val : Int) - queue.tail.val + 1 =
      queue.head.val + 1 - queue.tail.val by omega]

/-- So does a release, unless it is of a free block. -/
theorem ImageQueue.Balanced.release {addr : Address}
    (balanced : queue.Balanced) (proper : ¬ queue.Known addr false) :
    (queue.call (.release addr)).Balanced := by
  rw [ImageQueue.call, queueRelease]
  rcases search_spec queue addr with ⟨none, -⟩ | ⟨i, found, same⟩
  · rw [none]
    exact balanced
  · rw [found]
    have used : i ∈ queue.used := by
      rw [mem_used, ← Bool.not_eq_false]
      intro unused
      exact proper ⟨i, same, unused⟩
    change (((queue.mark i false).used.card : Nat) : Int) ≡
      (queue.head.val : Int) - (queue.tail + 1).val [ZMOD size]
    rw [used_mark_false, Finset.card_erase_of_mem used]
    have positive : 0 < queue.used.card := Finset.card_pos.mpr ⟨i, used⟩
    have moved := (val_succ_modEq queue.tail).sub_left queue.head.val
    have counted := balanced.sub_right 1
    rw [Nat.cast_sub positive]
    refine counted.trans (Int.ModEq.trans ?_ moved.symm)
    rw [show (queue.head.val : Int) - queue.tail.val - 1 =
      queue.head.val - (queue.tail.val + 1) by omega]

/-- A release of a free block moves `tail` and nothing else. -/
theorem release_of_known_free {addr : Address}
    (unused : ¬ queue.Known addr true) (known : queue.Known addr false) :
    queue.call (.release addr) = { queue with tail := queue.tail + 1 } := by
  rcases search_spec queue addr with ⟨-, absent⟩ | ⟨i, found, same⟩
  · obtain ⟨i, same, -⟩ := known
    exact absurd same (absent i)
  · have free : (queue.elements i).inUse = false := by
      rw [← Bool.not_eq_true]
      exact fun used => unused ⟨i, same, used⟩
    rw [ImageQueue.call, queueRelease, found]
    simp only [mark_false_of_unused free]

theorem release_of_unknown {addr : Address}
    (unused : ¬ queue.Known addr true) (unknown : ¬ queue.Known addr false) :
    queue.call (.release addr) = queue := by
  rcases search_spec queue addr with ⟨none, -⟩ | ⟨i, found, same⟩
  · rw [ImageQueue.call, queueRelease, none]
  · cases status : (queue.elements i).inUse with
    | false => exact absurd ⟨i, same, status⟩ unknown
    | true => exact absurd ⟨i, same, status⟩ unused

end Calls

/-! ## Sequences of calls -/

section Sequences

variable {address : Fin size → Address}

theorem address_afterCalls (calls : List (Call Address)) (i : Fin size) :
    ((afterCalls address calls).elements i).address = address i := by
  induction calls using List.reverseRecOn with
  | nil => rfl
  | append_singleton calls call induction =>
      rw [afterCalls, List.foldl_append, List.foldl_cons, List.foldl_nil,
        address_call]
      exact induction

/-- A release that is not of a block in use changes nothing. -/
def Harmless (queue : ImageQueue Address size) : Call Address → Prop
  | .allocate => True
  | .release addr =>
      ¬ queue.Known addr true → queue.call (.release addr) = queue

/-- The call is not a release of a block that is free. -/
def Proper (queue : ImageQueue Address size) : Call Address → Prop
  | .allocate => True
  | .release addr => ¬ queue.Known addr false

theorem ImageQueue.Balanced.call {queue : ImageQueue Address size}
    (balanced : queue.Balanced) {call : Call Address}
    (proper : Proper queue call) : (queue.call call).Balanced := by
  cases call with
  | allocate => exact balanced.allocate
  | release addr => exact balanced.release proper

/-- Proper calls keep the cursors in step. -/
theorem balanced_of_proper {calls : List (Call Address)}
    (proper : ∀ count call, calls[count]? = some call →
      Proper (afterCalls address (calls.take count)) call) (count : Nat) :
    (afterCalls address (calls.take count)).Balanced := by
  induction count with
  | zero => exact balanced_init address
  | succ count induction =>
      cases next : calls[count]? with
      | none =>
          rw [List.getElem?_eq_none_iff] at next
          rw [List.take_of_length_le (by omega)]
          rwa [List.take_of_length_le next] at induction
      | some call =>
          rw [List.take_add_one, next, afterCalls, List.foldl_append]
          exact induction.call (proper count call next)

/--
Releases of pointers that are not blocks in use are harmless throughout a
sequence of calls, and the cursors always tell the number of blocks in use,
exactly if there is a single block or no free block is released.
-/
theorem harmless_iff (distinct : Function.Injective address)
    (calls : List (Call Address)) :
    ((∀ count, (afterCalls address (calls.take count)).Balanced) ∧
      ∀ count call, calls[count]? = some call →
        Harmless (afterCalls address (calls.take count)) call) ↔
      size = 1 ∨ ∀ count call, calls[count]? = some call →
        Proper (afterCalls address (calls.take count)) call := by
  constructor
  · rintro ⟨-, harmless⟩
    refine or_iff_not_imp_left.mpr fun several count call next => ?_
    cases call with
    | allocate => trivial
    | release addr =>
        intro known
        have unused :
            ¬ (afterCalls address (calls.take count)).Known addr true := by
          obtain ⟨i, same, free⟩ := known
          rintro ⟨j, equal, used⟩
          rw [address_afterCalls] at same equal
          rw [distinct (same.trans equal.symm), used] at free
          cases free
        have unchanged := harmless count _ next unused
        rw [release_of_known_free unused known] at unchanged
        have tail := congrArg (fun queue => queue.tail.val) unchanged
        have bound := (afterCalls address (calls.take count)).tail.isLt
        change (_ + 1 : Fin size).val = _ at tail
        rw [val_succ] at tail
        rcases Nat.lt_or_ge ((afterCalls address (calls.take count)).tail.val + 1)
          size with less | last
        · rw [Nat.mod_eq_of_lt less] at tail
          omega
        · have wraps :
              (afterCalls address (calls.take count)).tail.val + 1 = size := by
            omega
          rw [wraps, Nat.mod_self] at tail
          omega
  · rintro (one | proper)
    · refine ⟨fun count => ?_, fun count call next => ?_⟩
      · refine Int.modEq_iff_dvd.mpr ?_
        rw [show (size : Int) = 1 by rw [one]; rfl]
        exact one_dvd _
      · cases call with
        | allocate => trivial
        | release addr =>
            intro unused
            by_cases known :
                (afterCalls address (calls.take count)).Known addr false
            · have still :
                  (afterCalls address (calls.take count)).tail + 1 =
                    (afterCalls address (calls.take count)).tail := by
                subst one
                exact Subsingleton.elim _ _
              rw [release_of_known_free unused known, still]
            · exact release_of_unknown unused known
    · refine ⟨balanced_of_proper proper, fun count call next => ?_⟩
      cases call with
      | allocate => trivial
      | release addr =>
          intro unused
          exact release_of_unknown unused (proper count _ next)

/-- A block taken, given back, and a pointer that is none of the blocks. -/
theorem harmless_foreign :
    Function.Injective (fun i : Fin 2 => i.val) ∧
      ((∀ count, (afterCalls (fun i : Fin 2 => i.val) (List.take count
          [.allocate, .release 0, .release 5])).Balanced) ∧
        ∀ count call,
          [Call.allocate, .release 0, .release 5][count]? = some call →
          Harmless (afterCalls (fun i : Fin 2 => i.val) (List.take count
            [.allocate, .release 0, .release 5])) call) := by
  refine ⟨Fin.val_injective,
    (harmless_iff Fin.val_injective _).mpr (Or.inr fun count call next => ?_)⟩
  rcases count with _ | _ | _ | count
  · cases next
    trivial
  · cases next
    rintro ⟨i, same, free⟩
    revert i
    decide
  · cases next
    rintro ⟨i, same, free⟩
    revert i
    decide
  · cases next

/-- The second release of one of two blocks moves `tail` alone. -/
theorem not_harmless_twice :
    ¬ ((∀ count, (afterCalls (fun i : Fin 2 => i.val) (List.take count
          [.allocate, .release 0, .release 0])).Balanced) ∧
        ∀ count call,
          [Call.allocate, .release 0, .release 0][count]? = some call →
          Harmless (afterCalls (fun i : Fin 2 => i.val) (List.take count
            [.allocate, .release 0, .release 0])) call) := by
  rintro ⟨-, harmless⟩
  have unused : ¬ (afterCalls (fun i : Fin 2 => i.val)
      [.allocate, .release 0]).Known 0 true := by
    rintro ⟨i, same, used⟩
    revert i
    decide
  have unchanged := harmless 2 (.release 0) rfl unused
  have tail := congrArg ImageQueue.tail unchanged
  revert tail
  decide

end Sequences

end CommonCode.Queue
