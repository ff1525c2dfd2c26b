import CommonCode.Queue.ImageQueue

/-!
# Exclusive ownership of the blocks

The blocks are handed out in turn, and each one is in use exactly while a
thread holds it.  The owners may release their blocks in any order.
-/

namespace CommonCode.Queue

open CommonCode.Lib.Transition

variable {Address Thread : Type*} {size : Nat}

/-! ## What the operations do -/

section Operations

variable {queue : ImageQueue Address size} {i j : Fin size} {inUse : Bool}

@[simp]
theorem mark_address :
    ((queue.mark i inUse).elements j).address =
      (queue.elements j).address := by
  by_cases same : j = i
  · rw [same]
    simp [ImageQueue.mark]
  · simp [ImageQueue.mark, same]

@[simp]
theorem mark_inUse_self : ((queue.mark i inUse).elements i).inUse = inUse := by
  simp [ImageQueue.mark]

theorem mark_inUse_of_ne (apart : j ≠ i) :
    ((queue.mark i inUse).elements j).inUse = (queue.elements j).inUse := by
  simp [ImageQueue.mark, apart]

theorem ofNat_succ [NeZero size] (count : Nat) :
    Fin.ofNat size (count + 1) = Fin.ofNat size count + 1 := by
  apply Fin.ext
  simp [Fin.val_add]

variable [DecidableEq Address] {addr : Address}

/-- The search finds the block with the address. -/
theorem search_eq_some {address : Fin size → Address}
    (distinct : Function.Injective address)
    (same : ∀ i, (queue.elements i).address = address i) :
    queue.search (address i) = some i := by
  rw [ImageQueue.search, List.find?_eq_some_iff_getElem]
  refine ⟨by simp [same], i, by simp, by simp, ?_⟩
  intro k less
  simp only [List.getElem_finRange, same, Bool.not_eq_true',
    decide_eq_false_iff_not]
  intro equal
  have index := distinct equal
  exact absurd (congrArg Fin.val index) (Nat.ne_of_lt (by simpa using less))

variable [DecidableEq Thread] {held : List (Thread × Address)}

/-- The blocks that remain when a held block is given back. -/
theorem map_snd_erase {thread : Thread}
    (nodup : (held.map Prod.snd).Nodup) (member : (thread, addr) ∈ held) :
    (held.erase (thread, addr)).map Prod.snd =
      (held.map Prod.snd).erase addr := by
  induction held with
  | nil => cases member
  | cons first held induction =>
      rw [List.map_cons, List.nodup_cons] at nodup
      by_cases same : first = (thread, addr)
      · rw [same, List.erase_cons_head, List.map_cons, List.erase_cons_head]
      · have later : (thread, addr) ∈ held :=
          (List.mem_cons.mp member).resolve_left fun equal => same equal.symm
        have apart : first.2 ≠ addr := by
          intro equal
          rw [equal] at nodup
          exact nodup.1 (List.mem_map.mpr ⟨(thread, addr), later, rfl⟩)
        rw [List.erase_cons_tail (by simpa using same), List.map_cons,
          List.map_cons, List.erase_cons_tail (by simpa using apart),
          induction nodup.2 later]

end Operations

/-! ## The invariant -/

variable [NeZero size]

/--
The addresses do not change, a block is in use exactly while a thread holds it,
and the blocks are handed out in turn.
-/
structure Owned (address : Fin size → Address)
    (state : State Thread Address size) : Prop where
  blocks : ∀ i, (state.queue.elements i).address = address i
  nodup : (state.held.map Prod.snd).Nodup
  inUse :
    ∀ addr, addr ∈ state.held.map Prod.snd ↔
      ∃ i, address i = addr ∧ (state.queue.elements i).inUse = true
  allocated :
    state.allocated =
      (List.range state.allocated.length).map fun k =>
        address (Fin.ofNat size k)
  head : state.queue.head = Fin.ofNat size state.allocated.length
  tail : state.queue.tail = Fin.ofNat size state.releases

section Steps

variable {address : Fin size → Address}
variable {before after : State Thread Address size}

theorem owned_start (address : Fin size → Address) :
    Owned address (State.start address : State Thread Address size) where
  blocks _ := rfl
  nodup := List.nodup_nil
  inUse addr := by simp [State.start, queueInit]
  allocated := rfl
  head := rfl
  tail := rfl

/-- The wait set and the signalled threads do not matter. -/
theorem Owned.of_eq (owned : Owned address before)
    (queue : after.queue = before.queue) (held : after.held = before.held)
    (allocated : after.allocated = before.allocated)
    (releases : after.releases = before.releases) :
    Owned address after := by
  rcases owned with ⟨same, nodup, inUse, turn, head, tail⟩
  constructor
  · rwa [queue]
  · rwa [held]
  · rwa [queue, held]
  · rwa [allocated]
  · rwa [queue, allocated]
  · rwa [queue, releases]

variable [DecidableEq Thread] {thread : Thread}

theorem Owned.attempt (owned : Owned address before)
    (distinct : Function.Injective address) :
    Owned address (before.attempt thread) := by
  rw [State.attempt, queueAllocate]
  by_cases occupied :
      (before.queue.elements before.queue.head).inUse = true
  · rw [if_pos occupied]
    exact owned.of_eq rfl rfl rfl rfl
  · rw [if_neg occupied]
    have free : address before.queue.head ∉ before.held.map Prod.snd := by
      rw [owned.inUse]
      rintro ⟨i, equal, used⟩
      rw [distinct equal] at used
      exact occupied used
    refine ⟨?_, ?_, ?_, ?_, ?_, owned.tail⟩
    · intro i
      exact mark_address.trans (owned.blocks i)
    · rw [List.map_cons, List.nodup_cons, owned.blocks]
      exact ⟨free, owned.nodup⟩
    · intro addr
      rw [List.map_cons, List.mem_cons, owned.inUse, owned.blocks]
      constructor
      · rintro (rfl | ⟨i, rfl, used⟩)
        · exact ⟨before.queue.head, rfl, mark_inUse_self⟩
        · have apart : i ≠ before.queue.head := by
            rintro rfl
            exact occupied used
          exact ⟨i, rfl, (mark_inUse_of_ne apart).trans used⟩
      · rintro ⟨i, rfl, used⟩
        by_cases same : i = before.queue.head
        · exact Or.inl (congrArg address same)
        · exact Or.inr ⟨i, rfl, (mark_inUse_of_ne same).symm.trans used⟩
    · rw [List.length_append, List.length_singleton, List.range_succ,
        List.map_append, ← owned.allocated, List.map_singleton,
        owned.blocks, owned.head]
    · rw [List.length_append, List.length_singleton, ofNat_succ, ← owned.head]

variable [DecidableEq Address] {addr : Address}
variable {event : Event Thread Address}

theorem Owned.giveBack (owned : Owned address before)
    (distinct : Function.Injective address)
    (holds : (thread, addr) ∈ before.held) :
    Owned address (before.giveBack thread addr) := by
  have member : addr ∈ before.held.map Prod.snd :=
    List.mem_map.mpr ⟨(thread, addr), holds, rfl⟩
  rcases (owned.inUse addr).mp member with ⟨i, rfl, used⟩
  have found : queueRelease before.queue (address i) =
      { before.queue.mark i false with tail := before.queue.tail + 1 } := by
    rw [queueRelease, search_eq_some distinct owned.blocks]
  have rest : (before.held.erase (thread, address i)).map Prod.snd =
      (before.held.map Prod.snd).erase (address i) :=
    map_snd_erase owned.nodup holds
  refine ⟨?_, ?_, ?_, owned.allocated, ?_, ?_⟩
  · intro j
    rw [State.giveBack, found]
    exact mark_address.trans (owned.blocks j)
  · rw [State.giveBack, rest]
    exact owned.nodup.erase _
  · intro other
    rw [State.giveBack, found, rest, owned.nodup.mem_erase_iff, owned.inUse]
    constructor
    · rintro ⟨apart, j, rfl, busy⟩
      have distant : j ≠ i := by
        rintro rfl
        exact apart rfl
      exact ⟨j, rfl, (mark_inUse_of_ne distant).trans busy⟩
    · rintro ⟨j, rfl, busy⟩
      by_cases same : j = i
      · rw [same] at busy
        exact absurd (mark_inUse_self.symm.trans busy) (by rintro ⟨⟩)
      · refine ⟨fun equal => same (distinct equal), j, rfl, ?_⟩
        exact (mark_inUse_of_ne same).symm.trans busy
  · rw [State.giveBack, found]
    exact owned.head
  · rw [State.giveBack, found, ofNat_succ, ← owned.tail]

theorem Owned.step (distinct : Function.Injective address)
    (taken : Step before event after) (owned : Owned address before) :
    Owned address after := by
  cases event with
  | allocate thread =>
      rw [Step, State.next] at taken
      split at taken
      · cases taken
        exact owned.attempt distinct
      · cases taken
  | resume thread =>
      rw [Step, State.next] at taken
      split at taken
      · cases taken
        have resumed : Owned address
            { before with signalled := before.signalled.erase thread } :=
          owned.of_eq rfl rfl rfl rfl
        exact resumed.attempt distinct
      · cases taken
  | release thread addr woken =>
      rw [Step, State.next] at taken
      split at taken
      · next enabled =>
        cases taken
        have returned := owned.giveBack distinct enabled.2.1
        cases woken with
        | none => exact returned
        | some woken => exact returned.of_eq rfl rfl rfl rfl
      · cases taken

end Steps

/-! ## Runs -/

/--
In every reachable state the held blocks are pairwise distinct and are those
that are in use, the `k`-th allocation returned block `k` modulo the capacity,
and `head` and `tail` count the allocations and the releases modulo the
capacity.
-/
theorem exclusive_ownership [DecidableEq Address] [DecidableEq Thread]
    {address : Fin size → Address} (distinct : Function.Injective address)
    {events : List (Event Thread Address)}
    {state : State Thread Address size}
    (run : Run Step (State.start address) events state) :
    (state.held.map Prod.snd).Nodup ∧
      (∀ addr, addr ∈ state.held.map Prod.snd ↔
        ∃ i, (state.queue.elements i).address = addr ∧
          (state.queue.elements i).inUse = true) ∧
      (∀ k addr, state.allocated[k]? = some addr →
        addr = address (Fin.ofNat size k)) ∧
      state.queue.head = Fin.ofNat size state.allocated.length ∧
      state.queue.tail = Fin.ofNat size state.releases := by
  have owned : Owned address state :=
    run.invariant (Owned.step distinct) (owned_start address)
  refine ⟨owned.nodup, ?_, ?_, owned.head, owned.tail⟩
  · intro addr
    rw [owned.inUse]
    simp only [owned.blocks]
  · intro k addr result
    rw [owned.allocated, List.getElem?_map, Option.map_eq_some_iff] at result
    rcases result with ⟨index, counted, rfl⟩
    rcases List.getElem?_eq_some_iff.mp counted with ⟨bound, value⟩
    rw [List.getElem_range] at value
    rw [value]

/-- The second of two threads releases its block first. -/
theorem exclusive_ownership_two_threads :
    ∃ state : State Nat Nat 5,
      Run Step (State.start fun i : Fin 5 => 16 * i.val)
        [.allocate 0, .allocate 1, .allocate 0, .release 1 16 none] state ∧
      (state.held.map Prod.snd).Nodup ∧
      state.held = [(0, 32), (0, 0)] := by
  have distinct : Function.Injective fun i : Fin 5 => 16 * i.val := by
    intro i j equal
    exact Fin.ext (Nat.eq_of_mul_eq_mul_left (by decide) equal)
  have reached : ∃ state : State Nat Nat 5,
      Run Step (State.start fun i : Fin 5 => 16 * i.val)
        [.allocate 0, .allocate 1, .allocate 0, .release 1 16 none] state ∧
      state.held = [(0, 32), (0, 0)] := by
    exact ⟨_, run_of_execute id rfl, rfl⟩
  rcases reached with ⟨state, run, held⟩
  exact ⟨state, run, (exclusive_ownership distinct run).1, held⟩

end CommonCode.Queue
