import CommonCode.Queue.Wakeup

/-!
# Blocking at the head of the queue

`queue_allocate` tests the block at `head` only.  As long as the blocks are
released in the order in which they were allocated, the blocks in use are in a
row up to `head`, and the block at `head` is free whenever any block is.  After
a release out of order this is lost at the latest when `head` comes up to the
block that was passed over, however many other blocks are free.
-/

namespace CommonCode.Queue

open CommonCode.Lib.Transition

variable {Address Thread : Type*} {size : Nat} [NeZero size]

/-! ## Blocks in use in a row -/

/-- The blocks that come up first are free, and the others are in use. -/
def ImageQueue.InTurn (queue : ImageQueue Address size) : Prop :=
  ∃ free ≤ size, ∀ offset < size,
    (queue.elements (queue.upcoming offset)).inUse = decide (free ≤ offset)

/-- Every block comes up. -/
theorem exists_upcoming (queue : ImageQueue Address size) (i : Fin size) :
    ∃ offset < size, queue.upcoming offset = i := by
  refine ⟨(i - queue.head).val, (i - queue.head).isLt, ?_⟩
  rw [ImageQueue.upcoming, Fin.ofNat_eq_cast, Fin.cast_val_eq_self,
    add_sub_cancel]

theorem inTurn_init (address : Fin size → Address) :
    (queueInit address).InTurn := by
  refine ⟨size, le_refl size, ?_⟩
  intro offset inside
  change false = _
  rw [decide_eq_false (Nat.not_le.mpr inside)]

/-- Then the block at `head` is free if any block is. -/
theorem ImageQueue.InTurn.head_free {queue : ImageQueue Address size}
    (inTurn : queue.InTurn) {i : Fin size}
    (unused : (queue.elements i).inUse = false) :
    (queue.elements queue.head).inUse = false := by
  obtain ⟨free, -, status⟩ := inTurn
  obtain ⟨offset, inside, rfl⟩ := exists_upcoming queue i
  have positive : 0 < size := Nat.pos_of_ne_zero (NeZero.ne size)
  rw [status offset inside, decide_eq_false_iff_not] at unused
  have first := status 0 positive
  rw [upcoming_zero] at first
  rw [first, decide_eq_false_iff_not]
  omega

/-- An allocation takes the first free block. -/
theorem ImageQueue.InTurn.take {queue : ImageQueue Address size}
    (inTurn : queue.InTurn)
    (unused : (queue.elements queue.head).inUse = false) :
    queue.take.InTurn := by
  obtain ⟨free, bound, status⟩ := inTurn
  have positive : 0 < size := Nat.pos_of_ne_zero (NeZero.ne size)
  have first := status 0 positive
  rw [upcoming_zero, unused, eq_comm, decide_eq_false_iff_not] at first
  refine ⟨free - 1, by omega, ?_⟩
  intro offset inside
  rw [upcoming_take]
  rcases Nat.lt_or_ge (offset + 1) size with less | last
  · have apart : queue.upcoming (offset + 1) ≠ queue.head := by
      intro same
      rw [← upcoming_zero] at same
      exact absurd (upcoming_injective less positive same)
        (Nat.succ_ne_zero offset)
    change ((queue.mark queue.head true).elements _).inUse = _
    rw [mark_inUse_of_ne apart, status (offset + 1) less]
    exact decide_eq_decide.mpr (by omega)
  · have wraps : offset + 1 = size := by omega
    rw [wraps, upcoming_size]
    change ((queue.mark queue.head true).elements queue.head).inUse = _
    rw [mark_inUse_self, eq_comm, decide_eq_true_iff]
    omega

/-- The first block in use in front of a block that is not the first. -/
theorem exists_passed {queue : ImageQueue Address size} {count : Nat}
    (busy : ¬ queue.FreeFor count) :
    ∃ passed < count, queue.FreeFor passed ∧
      (queue.elements (queue.upcoming passed)).inUse = true := by
  induction count with
  | zero => exact absurd (fun offset less => absurd less (Nat.not_lt_zero _)) busy
  | succ count induction =>
      by_cases free : queue.FreeFor count
      · refine ⟨count, Nat.lt_succ_self count, free, ?_⟩
        rw [← Bool.not_eq_false]
        intro unused
        refine busy fun offset less => ?_
        rcases Nat.lt_succ_iff_lt_or_eq.mp less with before | rfl
        · exact free offset before
        · exact unused
      · obtain ⟨passed, less, found⟩ := induction free
        exact ⟨passed, less.trans (Nat.lt_succ_self count), found⟩

/-! ## Releases in order -/

/-- Some block is free only if the block at `head` is. -/
def State.Prompt (state : State Thread Address size) : Prop :=
  (∃ i, (state.queue.elements i).inUse = false) →
    (state.queue.elements state.queue.head).inUse = false

/--
The released block is the one that was allocated first of those in use: no
block that comes up before it is in use.
-/
def InOrder (state : State Thread Address size) :
    Event Thread Address → Prop
  | .release _ addr _ =>
      ∃ offset < size, state.queue.FreeFor offset ∧
        (state.queue.elements (state.queue.upcoming offset)).address = addr
  | _ => True

/-- A call of `queue_allocate`. -/
def Allocates (_ : State Thread Address size) : Event Thread Address → Prop
  | .allocate _ => True
  | _ => False

section Steps

variable [DecidableEq Thread] {before after : State Thread Address size}

theorem inTurn_attempt {thread : Thread} (inTurn : before.queue.InTurn) :
    (before.attempt thread).queue.InTurn := by
  cases status : (before.queue.elements before.queue.head).inUse with
  | false =>
      rw [attempt_of_free status]
      exact inTurn.take status
  | true =>
      rw [attempt_of_occupied status]
      exact inTurn

variable [DecidableEq Address] {address : Fin size → Address}

/-- A release of the first block in use. -/
theorem ImageQueue.InTurn.release {queue : ImageQueue Address size}
    (distinct : Function.Injective address)
    (blocks : ∀ i, (queue.elements i).address = address i)
    (inTurn : queue.InTurn) {offset : Nat} (inside : offset < size)
    (first : queue.FreeFor offset)
    (used : (queue.elements (queue.upcoming offset)).inUse = true) :
    (queueRelease queue (address (queue.upcoming offset))).InTurn := by
  obtain ⟨free, bound, status⟩ := inTurn
  have here := status offset inside
  rw [used, eq_comm, decide_eq_true_iff] at here
  have least : offset ≤ free := by
    by_contra later
    have unused := first free (by omega)
    rw [status free (by omega), decide_eq_false_iff_not] at unused
    exact unused (le_refl free)
  refine ⟨free + 1, by omega, ?_⟩
  rw [queueRelease, search_eq_some distinct blocks]
  intro other inside'
  change ((queue.mark (queue.upcoming offset) false).elements
    (queue.upcoming other)).inUse = _
  by_cases same : queue.upcoming other = queue.upcoming offset
  · have equal := upcoming_injective inside' inside same
    rw [same, mark_inUse_self, eq_comm, decide_eq_false_iff_not]
    omega
  · have apart : other ≠ offset := fun equal => same (by rw [equal])
    rw [mark_inUse_of_ne same, status other inside']
    exact decide_eq_decide.mpr (by omega)

/-- Steps in order keep the blocks in use in a row. -/
theorem inTurn_step {event : Event Thread Address}
    (distinct : Function.Injective address) (owned : Owned address before)
    (inTurn : before.queue.InTurn) (taken : Step before event after)
    (inOrder : InOrder before event) : after.queue.InTurn := by
  cases event with
  | allocate thread =>
      rw [Step, State.next] at taken
      split at taken
      · cases taken
        exact inTurn_attempt inTurn
      · cases taken
  | resume thread =>
      rw [Step, State.next] at taken
      split at taken
      · cases taken
        exact inTurn_attempt inTurn
      · cases taken
  | release thread addr woken =>
      rw [Step, State.next] at taken
      split at taken
      · next enabled =>
        cases taken
        obtain ⟨offset, inside, first, same⟩ := inOrder
        have member : addr ∈ before.held.map Prod.snd :=
          List.mem_map.mpr ⟨(thread, addr), enabled.2.1, rfl⟩
        obtain ⟨i, equal, used⟩ := (owned.inUse addr).mp member
        rw [owned.blocks, ← equal] at same
        rw [← distinct same] at used equal
        have released :=
          inTurn.release distinct owned.blocks inside first used
        rw [equal] at released
        cases woken with
        | none => exact released
        | some woken => exact released
      · cases taken

/-- An idle thread takes the blocks that are free in a row. -/
theorem exists_allocations {thread : Thread} (idle : before.Idle thread)
    {count : Nat} (bound : count < size) (free : before.queue.FreeFor count) :
    ∃ events last,
      Run (Under Allocates Step) before events last ∧
        last.queue.head = before.queue.upcoming count ∧
        ∀ offset, count ≤ offset → offset < size →
          last.queue.elements (before.queue.upcoming offset) =
            before.queue.elements (before.queue.upcoming offset) := by
  induction count generalizing before with
  | zero =>
      exact ⟨[], before, Run.nil before, upcoming_zero.symm,
        fun offset _ _ => rfl⟩
  | succ count induction =>
      have first := free 0 (Nat.succ_pos count)
      rw [upcoming_zero] at first
      have result : before.attempt thread = _ := attempt_of_free first
      have taken :
          Step before (.allocate thread) (before.attempt thread) := by
        rw [Step, State.next, if_pos idle]
      have still : (before.attempt thread).Idle thread := by
        rw [result]
        exact idle
      have queue : (before.attempt thread).queue = before.queue.take := by
        rw [result]
      have later : (before.attempt thread).queue.FreeFor count := by
        rw [queue]
        exact freeFor_take free (by omega)
      obtain ⟨events, last, run, head, same⟩ :=
        induction still (by omega) later
      refine
        ⟨.allocate thread :: events, last,
          Run.cons ⟨trivial, taken⟩ run, ?_, ?_⟩
      · rw [head, queue, upcoming_take]
      · intro offset more inside
        obtain ⟨previous, rfl⟩ : ∃ previous, offset = previous + 1 :=
          ⟨offset - 1, by omega⟩
        have unchanged := same previous (by omega) (by omega)
        rw [queue, upcoming_take] at unchanged
        have apart : before.queue.upcoming (previous + 1) ≠
            before.queue.head := by
          intro equal
          rw [← upcoming_zero] at equal
          exact absurd (upcoming_injective inside (by omega) equal)
            (Nat.succ_ne_zero previous)
        rw [unchanged]
        change Function.update _ _ _ _ = _
        rw [Function.update_of_ne apart]

/-- A block that is passed over blocks the queue when it comes up. -/
theorem exists_not_prompt {thread : Thread} (idle : before.Idle thread)
    {passed freed : Nat} (order : passed < freed) (inside : freed < size)
    (free : before.queue.FreeFor passed)
    (used :
      (before.queue.elements (before.queue.upcoming passed)).inUse = true)
    (unused :
      (before.queue.elements (before.queue.upcoming freed)).inUse = false) :
    ∃ events last,
      Run (Under Allocates Step) before events last ∧ ¬ last.Prompt := by
  obtain ⟨events, last, run, head, same⟩ :=
    exists_allocations idle (order.trans inside) free
  refine ⟨events, last, run, ?_⟩
  intro prompt
  have another :
      (last.queue.elements (before.queue.upcoming freed)).inUse = false := by
    rw [same freed order.le inside, unused]
  have blocked := prompt ⟨_, another⟩
  rw [head, same passed (le_refl passed) (order.trans inside), used] at blocked
  cases blocked

/-- A release out of order can be followed by blocking at `head`. -/
theorem not_prompt_of_not_inOrder {event : Event Thread Address}
    (distinct : Function.Injective address) (owned : Owned address before)
    (taken : Step before event after) (unordered : ¬ InOrder before event) :
    ∃ events last,
      Run (Under Allocates Step) after events last ∧ ¬ last.Prompt := by
  cases event with
  | allocate thread => exact absurd trivial unordered
  | resume thread => exact absurd trivial unordered
  | release thread addr woken =>
      rw [Step, State.next] at taken
      split at taken
      · next enabled =>
        cases taken
        obtain ⟨idle, holds, wakes⟩ := enabled
        have member : addr ∈ before.held.map Prod.snd :=
          List.mem_map.mpr ⟨(thread, addr), holds, rfl⟩
        obtain ⟨i, rfl, -⟩ := (owned.inUse addr).mp member
        obtain ⟨freed, inside, rfl⟩ := exists_upcoming before.queue i
        have busy : ¬ before.queue.FreeFor freed := fun free =>
          unordered ⟨freed, inside, free, owned.blocks _⟩
        obtain ⟨passed, order, free, used⟩ := exists_passed busy
        have awake :
            ((before.giveBack thread
              (address (before.queue.upcoming freed))).wake woken).Idle
              thread := by
          cases woken with
          | none => exact idle
          | some woken =>
              refine ⟨fun member => idle.1 (Finset.mem_of_mem_erase member), ?_⟩
              intro member
              rcases Finset.mem_insert.mp member with rfl | signalled
              · exact idle.1 wakes
              · exact idle.2 signalled
        have queue :
            ((before.giveBack thread
              (address (before.queue.upcoming freed))).wake woken).queue =
              { before.queue.mark (before.queue.upcoming freed) false with
                tail := before.queue.tail + 1 } := by
          have found : queueRelease before.queue
              (address (before.queue.upcoming freed)) =
              { before.queue.mark (before.queue.upcoming freed) false with
                tail := before.queue.tail + 1 } := by
            rw [queueRelease, search_eq_some distinct owned.blocks]
          cases woken with
          | none => exact found
          | some woken => exact found
        have kept (offset : Nat) (less : offset < freed) :
            ((before.queue.mark (before.queue.upcoming freed) false).elements
                (before.queue.upcoming offset)).inUse =
              (before.queue.elements (before.queue.upcoming offset)).inUse := by
          refine mark_inUse_of_ne fun same => ?_
          exact absurd (upcoming_injective (less.trans inside) inside same)
            less.ne
        refine exists_not_prompt awake order inside ?_ ?_ ?_
        · rw [queue]
          intro offset less
          exact (kept offset (less.trans order)).trans (free offset less)
        · rw [queue]
          exact (kept passed order).trans used
        · rw [queue]
          exact mark_inUse_self
      · cases taken

end Steps

/-! ## Runs -/

section Runs

variable [DecidableEq Thread] [DecidableEq Address]
variable {address : Fin size → Address}

/--
In every run whose releases are in order, the block at `head` is free whenever
some block is.  A release out of order can be followed by a state in which
`queue_allocate` has to wait although a block is free, without any other step
than allocations.
-/
theorem prompt_of_inOrder (distinct : Function.Injective address)
    {events : List (Event Thread Address)}
    {last : State Thread Address size}
    (run : Run Step (State.start address) events last) :
    (Run (Under InOrder Step) (State.start address) events last →
      last.Prompt) ∧
    ∀ event after, Step last event after → ¬ InOrder last event →
      ∃ more final,
        Run (Under Allocates Step) after more final ∧ ¬ final.Prompt := by
  constructor
  · intro under
    have start :
        Owned address (State.start address : State Thread Address size) ∧
          (State.start address : State Thread Address size).queue.InTurn :=
      ⟨owned_start address, inTurn_init address⟩
    have preserved {before after : State Thread Address size}
        {event : Event Thread Address}
        (taken : Under InOrder Step before event after)
        (kept : Owned address before ∧ before.queue.InTurn) :
        Owned address after ∧ after.queue.InTurn :=
      ⟨Owned.step distinct taken.2 kept.1,
        inTurn_step distinct kept.1 kept.2 taken.2 taken.1⟩
    rintro ⟨i, unused⟩
    exact (under.invariant preserved start).2.head_free unused
  · intro event after taken unordered
    have owned : Owned address last :=
      run.invariant (Owned.step distinct) (owned_start address)
    exact not_prompt_of_not_inOrder distinct owned taken unordered

end Runs

/-- A thread takes two blocks and gives the first one back. -/
theorem prompt_of_inOrder_first :
    ∃ last, Run Step (State.start fiveBlocks)
        [.allocate 0, .allocate 0, .release 0 0 none] last ∧
      last.Prompt := by
  have reached : ∃ last, Run (Under InOrder Step) (State.start fiveBlocks)
      [.allocate 0, .allocate 0, .release 0 0 none] last := by
    refine ⟨?last, ?run⟩
    case run =>
      refine Run.cons ⟨trivial, rfl⟩ ?_
      refine Run.cons ⟨trivial, rfl⟩ ?_
      refine Run.cons ⟨⟨3, by decide, ?_, rfl⟩, rfl⟩ ?_
      · intro offset less
        rcases offset with _ | _ | _ | offset
        · rfl
        · rfl
        · rfl
        · omega
      exact Run.nil _
  obtain ⟨last, under⟩ := reached
  have run := under.of_under
  exact ⟨last, run, (prompt_of_inOrder fiveBlocks_injective run).1 under⟩

/-- All blocks are taken, and the second one is given back. -/
def secondFirst : List (Event Nat Nat) :=
  List.replicate 5 (.allocate 0) ++ [.release 0 16 none]

/-- `queue_allocate` has to wait although the second block is free. -/
theorem not_prompt_secondFirst :
    ¬ ∀ (events : List (Event Nat Nat)) last,
      Run Step (State.start fiveBlocks) events last → last.Prompt := by
  intro always
  have reached : ∃ last, Run Step (State.start fiveBlocks) secondFirst last ∧
      (last.queue.elements 1).inUse = false ∧
      (last.queue.elements last.queue.head).inUse = true := by
    exact ⟨_, run_of_execute id rfl, rfl, rfl⟩
  obtain ⟨last, run, unused, used⟩ := reached
  have free := always secondFirst last run ⟨1, unused⟩
  rw [used] at free
  cases free

end CommonCode.Queue
