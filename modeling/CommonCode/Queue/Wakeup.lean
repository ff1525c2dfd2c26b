import CommonCode.Queue.Ownership

/-!
# Signals and the blocks they stand for

Every release signals once, but all waiting threads wait for the block at
`head`.  A block that is released out of order is of no use at once: the thread
that its signal wakes finds `head` in use and waits again.  When `head` moves
up to that block later, no further signal is sent for it.

A signal that is not used up yet should therefore stand for every block that is
free in a row from `head` on.  Allocations keep this; a release keeps it unless
it joins the block at `head` to blocks that were released before.
-/

namespace CommonCode.Queue

open CommonCode.Lib.Transition

variable {Address Thread : Type*} {size : Nat} [NeZero size]

/-! ## Blocks in a row -/

/-- The block that comes up after the given number of allocations. -/
def ImageQueue.upcoming (queue : ImageQueue Address size) (offset : Nat) :
    Fin size :=
  queue.head + Fin.ofNat size offset

/-- So many blocks are free in a row, from the one at `head` on. -/
def ImageQueue.FreeFor (queue : ImageQueue Address size) (count : Nat) :
    Prop :=
  ∀ offset < count, (queue.elements (queue.upcoming offset)).inUse = false

section Blocks

variable {queue : ImageQueue Address size} {offset other count : Nat}

@[simp]
theorem upcoming_zero : queue.upcoming 0 = queue.head :=
  add_zero queue.head

@[simp]
theorem upcoming_size : queue.upcoming size = queue.head := by
  have wraps : Fin.ofNat size size = 0 := Fin.ext (Nat.mod_self size)
  rw [ImageQueue.upcoming, wraps, add_zero]

theorem upcoming_injective (first : offset < size) (second : other < size)
    (same : queue.upcoming offset = queue.upcoming other) :
    offset = other := by
  have equal := congrArg Fin.val (add_left_cancel same)
  simpa [Nat.mod_eq_of_lt first, Nat.mod_eq_of_lt second] using equal

/-- If the block at `head` is in use, no block is free in a row. -/
theorem eq_zero_of_freeFor
    (occupied : (queue.elements queue.head).inUse = true)
    (free : queue.FreeFor count) : count = 0 := by
  refine Classical.byContradiction fun positive => ?_
  have first := free 0 (Nat.pos_of_ne_zero positive)
  rw [upcoming_zero, occupied] at first
  cases first

/-- The queue after the block at `head` has been taken. -/
def ImageQueue.take (queue : ImageQueue Address size) :
    ImageQueue Address size :=
  { queue.mark queue.head true with head := queue.head + 1 }

/-- After an allocation every block comes up one allocation sooner. -/
theorem upcoming_take :
    queue.take.upcoming offset = queue.upcoming (offset + 1) := by
  rw [ImageQueue.upcoming, ImageQueue.upcoming, ofNat_succ, add_comm _ 1,
    ← add_assoc]
  rfl

/-- What is free in a row after an allocation was free in a row before it. -/
theorem freeFor_succ_of_take
    (unused : (queue.elements queue.head).inUse = false)
    (free : queue.take.FreeFor count) (bound : count ≤ size) :
    count + 1 ≤ size ∧ queue.FreeFor (count + 1) := by
  have later (offset : Nat) (less : offset < count) :
      queue.upcoming (offset + 1) ≠ queue.head ∧
        (queue.elements (queue.upcoming (offset + 1))).inUse = false := by
    have status := free offset less
    rw [upcoming_take] at status
    have apart : queue.upcoming (offset + 1) ≠ queue.head := by
      intro same
      rw [same] at status
      exact absurd (mark_inUse_self.symm.trans status) (by rintro ⟨⟩)
    exact ⟨apart, (mark_inUse_of_ne apart).symm.trans status⟩
  constructor
  · rcases Nat.lt_or_eq_of_le bound with less | equal
    · exact less
    · have positive := Nat.pos_of_ne_zero (NeZero.ne size)
      have last := (later (size - 1) (by omega)).1
      rw [Nat.sub_add_cancel positive, upcoming_size] at last
      exact absurd rfl last
  · intro offset less
    cases offset with
    | zero => rwa [upcoming_zero]
    | succ offset => exact (later offset (Nat.lt_of_succ_lt_succ less)).2

/-- The converse, as long as the row does not come round to the taken block. -/
theorem freeFor_take (free : queue.FreeFor (count + 1)) (bound : count < size) :
    queue.take.FreeFor count := by
  intro offset less
  have apart : queue.upcoming (offset + 1) ≠ queue.head := by
    intro same
    rw [← upcoming_zero] at same
    have zero := upcoming_injective (by omega) (by omega) same
    cases zero
  rw [upcoming_take]
  exact (mark_inUse_of_ne apart).trans (free (offset + 1) (by omega))

end Blocks

/-! ## Signals -/

/--
A thread waits although the block at `head` is free, and no signalled thread is
still to resume.
-/
def State.LostWakeup (state : State Thread Address size) : Prop :=
  state.waiting.Nonempty ∧
    (state.queue.elements state.queue.head).inUse = false ∧
    state.signalled = ∅

/--
When a block is released while more than one thread waits, the blocks that are
then free in a row from `head` on, with the released one, are at most as many as
the signalled threads, with the one that this release wakes.
-/
def Matched (state : State Thread Address size) :
    Event Thread Address → Prop
  | .release _ addr _ =>
      1 < state.waiting.card →
        ∀ count ≤ size,
          (∀ offset < count,
            let block := state.queue.elements (state.queue.upcoming offset)
            block.address = addr ∨ block.inUse = false) →
          count ≤ state.signalled.card + 1
  | _ => True

/-- No thread waits and is signalled at once. -/
def State.Apart (state : State Thread Address size) : Prop :=
  Disjoint state.waiting state.signalled

/-- While a thread waits, a signal stands for every free block in a row. -/
def Covered (state : State Thread Address size) : Prop :=
  state.waiting.Nonempty →
    ∀ count ≤ size, state.queue.FreeFor count →
      count ≤ state.signalled.card

theorem Covered.not_lostWakeup {state : State Thread Address size}
    (covered : Covered state) : ¬ state.LostWakeup := by
  rintro ⟨waits, free, none⟩
  have single : state.queue.FreeFor 1 := by
    intro offset less
    rw [Nat.lt_one_iff.mp less, upcoming_zero]
    exact free
  have signal := covered waits 1 (Nat.pos_of_ne_zero (NeZero.ne size)) single
  rw [none] at signal
  cases signal

section Steps

variable [DecidableEq Thread]
variable {before after : State Thread Address size} {thread : Thread}

/-- A thread that tests a free block takes it. -/
theorem attempt_of_free
    (free : (before.queue.elements before.queue.head).inUse = false) :
    before.attempt thread =
      { before with
        queue := before.queue.take
        held :=
          (thread, (before.queue.elements before.queue.head).address) ::
            before.held
        allocated :=
          before.allocated ++
            [(before.queue.elements before.queue.head).address] } := by
  rw [State.attempt, queueAllocate, if_neg (by rw [free]; rintro ⟨⟩)]
  rfl

/-- A thread that tests a block in use waits. -/
theorem attempt_of_occupied
    (occupied : (before.queue.elements before.queue.head).inUse = true) :
    before.attempt thread =
      { before with waiting := insert thread before.waiting } := by
  rw [State.attempt, queueAllocate, if_pos occupied]

theorem State.Apart.attempt (disjoint : before.Apart)
    (awake : thread ∉ before.signalled) : (before.attempt thread).Apart := by
  cases status : (before.queue.elements before.queue.head).inUse with
  | false =>
      rw [attempt_of_free status]
      exact disjoint
  | true =>
      rw [attempt_of_occupied status]
      exact Finset.disjoint_insert_left.mpr ⟨awake, disjoint⟩

/-- An attempt with one signal to spare, if it takes the block, covers. -/
theorem covered_attempt {signals : Nat}
    (enough : before.waiting.Nonempty →
      ∀ count ≤ size, before.queue.FreeFor count → count ≤ signals)
    (spare : signals ≤ before.signalled.card + 1) :
    Covered (before.attempt thread) := by
  cases status : (before.queue.elements before.queue.head).inUse with
  | false =>
      rw [attempt_of_free status]
      intro waits count bound free
      rcases freeFor_succ_of_take status free bound with ⟨larger, longer⟩
      have least := enough waits (count + 1) larger longer
      change count ≤ before.signalled.card
      omega
  | true =>
      rw [attempt_of_occupied status]
      intro waits count bound free
      rw [eq_zero_of_freeFor status free]
      exact Nat.zero_le _

variable [DecidableEq Address] {event : Event Thread Address}

theorem State.Apart.step (disjoint : before.Apart)
    (taken : Step before event after) : after.Apart := by
  cases event with
  | allocate thread =>
      rw [Step, State.next] at taken
      split at taken
      · next idle =>
        cases taken
        exact disjoint.attempt idle.2
      · cases taken
  | resume thread =>
      rw [Step, State.next] at taken
      split at taken
      · cases taken
        have fewer : State.Apart
            { before with signalled := before.signalled.erase thread } :=
          Disjoint.mono_right (Finset.erase_subset ..) disjoint
        exact fewer.attempt (Finset.notMem_erase thread _)
      · cases taken
  | release thread addr woken =>
      rw [Step, State.next] at taken
      split at taken
      · cases taken
        cases woken with
        | none => exact disjoint
        | some woken =>
            change Disjoint (before.waiting.erase woken)
              (insert woken before.signalled)
            exact Finset.disjoint_insert_right.mpr
              ⟨Finset.notMem_erase woken _,
                Disjoint.mono_left (Finset.erase_subset ..) disjoint⟩
      · cases taken

/-- What is free in a row after a release was free before it or released. -/
theorem free_of_freeFor_release {queue : ImageQueue Address size}
    {addr : Address} {count : Nat}
    (free : (queueRelease queue addr).FreeFor count) :
    ∀ offset < count,
      (queue.elements (queue.upcoming offset)).address = addr ∨
        (queue.elements (queue.upcoming offset)).inUse = false := by
  intro offset less
  have status := free offset less
  rw [queueRelease] at status
  cases found : queue.search addr with
  | none =>
      rw [found] at status
      exact Or.inr status
  | some i =>
      rw [found] at status
      have address := List.find?_some found
      by_cases same : queue.upcoming offset = i
      · rw [same]
        exact Or.inl (of_decide_eq_true address)
      · exact Or.inr ((mark_inUse_of_ne same).symm.trans status)

/-- Matched steps keep the signals. -/
theorem Covered.step (disjoint : before.Apart)
    (covered : Covered before) (taken : Step before event after)
    (matched : Matched before event) : Covered after := by
  cases event with
  | allocate thread =>
      rw [Step, State.next] at taken
      split at taken
      · cases taken
        exact covered_attempt covered (Nat.le_succ _)
      · cases taken
  | resume thread =>
      rw [Step, State.next] at taken
      split at taken
      · next signalled =>
        cases taken
        refine covered_attempt covered ?_
        exact (Finset.card_erase_add_one signalled).ge
      · cases taken
  | release thread addr woken =>
      rw [Step, State.next] at taken
      split at taken
      · next enabled =>
        cases taken
        cases woken with
        | none =>
            intro waits
            have empty : before.waiting = ∅ := enabled.2.2
            change before.waiting.Nonempty at waits
            rw [empty] at waits
            exact absurd waits Finset.not_nonempty_empty
        | some woken =>
            have waited : woken ∈ before.waiting := enabled.2.2
            intro waits count bound free
            change (before.waiting.erase woken).Nonempty at waits
            change count ≤ (insert woken before.signalled).card
            have several : 1 < before.waiting.card := by
              have fewer := Finset.card_erase_add_one waited
              have positive := Finset.card_pos.mpr waits
              omega
            rw [Finset.card_insert_of_notMem
              (Finset.disjoint_left.mp disjoint waited)]
            exact matched several count bound (free_of_freeFor_release free)
      · cases taken

end Steps

/-! ## Signals that are missing -/

section Missing

variable [DecidableEq Thread] [DecidableEq Address]
variable {before after : State Thread Address size}
variable {event : Event Thread Address}

/-- A signalled thread that finds the block at `head` free takes it. -/
theorem exists_resume {thread : Thread}
    (signalled : thread ∈ before.signalled)
    (free : (before.queue.elements before.queue.head).inUse = false) :
    ∃ after, Step before (.resume thread) after ∧
      after.waiting = before.waiting ∧
      after.signalled = before.signalled.erase thread ∧
      after.queue = before.queue.take := by
  have result : State.attempt
      { before with signalled := before.signalled.erase thread } thread = _ :=
    attempt_of_free free
  refine
    ⟨State.attempt
      { before with signalled := before.signalled.erase thread } thread,
      ?_, ?_, ?_, ?_⟩
  · rw [Step, State.next, if_pos signalled]
  · rw [result]
  · rw [result]
  · rw [result]

/--
If more blocks are free in a row than threads are signalled, these threads can
all resume, and a waiting thread is left behind.
-/
theorem lostWakeup_of_freeFor (waits : before.waiting.Nonempty)
    (bound : before.signalled.card < size)
    (free : before.queue.FreeFor (before.signalled.card + 1)) :
    ∃ threads : List Thread, ∃ after,
      Run Step before (threads.map Event.resume) after ∧
        after.LostWakeup := by
  induction count : before.signalled.card generalizing before with
  | zero =>
      have head := free 0 (Nat.succ_pos _)
      rw [upcoming_zero] at head
      exact ⟨[], before, Run.nil before, waits, head,
        Finset.card_eq_zero.mp count⟩
  | succ signals induction =>
      have head := free 0 (Nat.succ_pos _)
      rw [upcoming_zero] at head
      have positive : 0 < before.signalled.card := by
        rw [count]
        exact Nat.succ_pos signals
      rcases Finset.card_pos.mp positive with ⟨thread, signalled⟩
      rcases exists_resume signalled head with
        ⟨middle, taken, waiting, fewer, queue⟩
      have remaining : middle.signalled.card = signals := by
        rw [fewer, Finset.card_erase_of_mem signalled, count]
        rfl
      have shorter : middle.queue.FreeFor (middle.signalled.card + 1) := by
        rw [queue, remaining, ← count]
        exact freeFor_take free bound
      rcases induction (waiting ▸ waits) (by omega) shorter remaining with
        ⟨threads, after, run, lost⟩
      exact ⟨thread :: threads, after, Run.cons taken run, lost⟩

/-- A release frees the block with the address. -/
theorem freeFor_release {queue : ImageQueue Address size}
    {address : Fin size → Address} {i : Fin size} {count : Nat}
    (distinct : Function.Injective address)
    (blocks : ∀ i, (queue.elements i).address = address i)
    (free : ∀ offset < count,
      (queue.elements (queue.upcoming offset)).address = address i ∨
        (queue.elements (queue.upcoming offset)).inUse = false) :
    (queueRelease queue (address i)).FreeFor count := by
  rw [queueRelease, search_eq_some distinct blocks]
  intro offset less
  change ((queue.mark i false).elements (queue.upcoming offset)).inUse = false
  by_cases same : queue.upcoming offset = i
  · rw [same, mark_inUse_self]
  · rw [mark_inUse_of_ne same]
    refine (free offset less).resolve_left fun equal => same ?_
    exact distinct ((blocks _).symm.trans equal)

/-- A release that is not matched leaves too few signals. -/
theorem lostWakeup_of_not_matched {address : Fin size → Address}
    (distinct : Function.Injective address) (owned : Owned address before)
    (disjoint : before.Apart)
    (taken : Step before event after) (unmatched : ¬ Matched before event) :
    ∃ threads : List Thread, ∃ last,
      Run Step after (threads.map Event.resume) last ∧ last.LostWakeup := by
  cases event with
  | allocate thread => exact absurd trivial unmatched
  | resume thread => exact absurd trivial unmatched
  | release thread addr woken =>
      rw [Step, State.next] at taken
      split at taken
      · next enabled =>
        cases taken
        simp only [Matched, Classical.not_imp, not_forall, not_le] at unmatched
        rcases unmatched with ⟨several, count, bound, free, excess⟩
        cases woken with
        | none =>
            have empty : before.waiting = ∅ := enabled.2.2
            rw [empty] at several
            cases several
        | some woken =>
            have waited : woken ∈ before.waiting := enabled.2.2
            have signals : (insert woken before.signalled).card =
                before.signalled.card + 1 :=
              Finset.card_insert_of_notMem
                (Finset.disjoint_left.mp disjoint waited)
            have fewer := Finset.card_erase_add_one waited
            refine lostWakeup_of_freeFor ?_ ?_ ?_
            · exact Finset.card_pos.mp (by
                change 0 < (before.waiting.erase woken).card
                omega)
            · change (insert woken before.signalled).card < size
              omega
            · have member : addr ∈ before.held.map Prod.snd :=
                List.mem_map.mpr ⟨(thread, addr), enabled.2.1, rfl⟩
              rcases (owned.inUse addr).mp member with ⟨i, rfl, -⟩
              change (queueRelease before.queue (address i)).FreeFor
                ((insert woken before.signalled).card + 1)
              refine freeFor_release distinct owned.blocks ?_
              intro offset less
              exact free offset (by omega)
      · cases taken

end Missing

/-! ## Runs -/

section Runs

variable [DecidableEq Thread] [DecidableEq Address]
variable {address : Fin size → Address}

/--
In every run whose releases are all matched, no wakeup is lost.  A release that
is not matched can be followed by a lost wakeup, without any other step than
those of threads that have been signalled.
-/
theorem not_lostWakeup_of_matched (distinct : Function.Injective address)
    {events : List (Event Thread Address)}
    {last : State Thread Address size}
    (run : Run Step (State.start address) events last) :
    (Run (Under Matched Step) (State.start address) events last →
      ¬ last.LostWakeup) ∧
    ∀ event after, Step last event after → ¬ Matched last event →
      ∃ threads : List Thread, ∃ final,
        Run Step after (threads.map Event.resume) final ∧
          final.LostWakeup := by
  have apart : (State.start address : State Thread Address size).Apart :=
    Finset.disjoint_empty_left _
  constructor
  · intro under
    have start : Covered (State.start address : State Thread Address size) :=
      fun waits => absurd waits Finset.not_nonempty_empty
    have preserved {before after : State Thread Address size}
        {event : Event Thread Address}
        (taken : Under Matched Step before event after)
        (kept : before.Apart ∧ Covered before) :
        after.Apart ∧ Covered after :=
      ⟨kept.1.step taken.2, kept.2.step kept.1 taken.2 taken.1⟩
    exact (under.invariant preserved ⟨apart, start⟩).2.not_lostWakeup
  · intro event after taken unmatched
    have owned : Owned address last :=
      run.invariant (Owned.step distinct) (owned_start address)
    have disjoint : last.Apart :=
      run.invariant (fun taken disjoint => disjoint.step taken) apart
    exact lostWakeup_of_not_matched distinct owned disjoint taken unmatched

end Runs

/-- The addresses of five blocks of sixteen bytes. -/
def fiveBlocks (i : Fin 5) : Nat := 16 * i.val

theorem fiveBlocks_injective : Function.Injective fiveBlocks := by
  intro i j equal
  exact Fin.ext (Nat.eq_of_mul_eq_mul_left (by decide) equal)

/-- One thread takes all blocks, and two others wait for one. -/
def contention : List (Event Nat Nat) :=
  List.replicate 5 (.allocate 0) ++ [.allocate 1, .allocate 2]

theorem not_lostWakeup_of_matched_in_order :
    ∃ last, Run Step (State.start fiveBlocks)
        (contention ++ [.release 0 0 (some 1)]) last ∧
      ¬ last.LostWakeup ∧ last.waiting = {2} := by
  have reached : ∃ last, Run (Under Matched Step) (State.start fiveBlocks)
      (contention ++ [.release 0 0 (some 1)]) last ∧
      last.waiting = {2} := by
    refine ⟨?last, ?run, ?waiting⟩
    case run =>
      refine Run.cons ⟨trivial, rfl⟩ ?_
      refine Run.cons ⟨trivial, rfl⟩ ?_
      refine Run.cons ⟨trivial, rfl⟩ ?_
      refine Run.cons ⟨trivial, rfl⟩ ?_
      refine Run.cons ⟨trivial, rfl⟩ ?_
      refine Run.cons ⟨trivial, rfl⟩ ?_
      refine Run.cons ⟨trivial, rfl⟩ ?_
      refine Run.cons ⟨?matched, rfl⟩ ?_
      case matched =>
        intro several count bound free
        refine Nat.le_of_not_lt fun more => ?_
        have second := free 1 more
        revert second
        decide
      exact Run.nil _
    · rfl
  rcases reached with ⟨last, under, waiting⟩
  have run := under.of_under
  exact
    ⟨last, run, (not_lostWakeup_of_matched fiveBlocks_injective run).1 under,
      waiting⟩

/-- The second block is released before the first one. -/
def outOfOrder : List (Event Nat Nat) :=
  contention ++
    [.release 0 16 (some 1), .resume 1, .release 0 0 (some 1), .resume 1]

/-- Thread 2 waits although the block at `head` is free. -/
theorem lostWakeup_outOfOrder :
    ¬ ∀ (events : List (Event Nat Nat)) last,
      Run Step (State.start fiveBlocks) events last → ¬ last.LostWakeup := by
  intro never
  have reached : ∃ last, Run Step (State.start fiveBlocks) outOfOrder last ∧
      last.LostWakeup := by
    exact ⟨_, run_of_execute id rfl, ⟨2, by decide⟩, rfl, rfl⟩
  rcases reached with ⟨last, run, lost⟩
  exact never outOfOrder last run lost

end CommonCode.Queue
