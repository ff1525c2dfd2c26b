import CommonCode.Lib.Transition
import Mathlib

/-!
# The image queue

`queue/queue.c` hands out a fixed number of memory blocks in turn.
`queue_allocate` waits until the block at `head` is free and takes it;
`queue_release` searches the block by its address, frees it and signals the
condition variable once.  The capacity `QUEUE_SIZE`, the type of addresses and
the threads are parameters.

Both functions hold the mutex from their first to their last statement, except
while they wait, so the sections between are the steps of a monitor.
`pthread_cond_wait` joins the wait set, `pthread_cond_signal` makes one waiting
thread runnable if there is one, and a runnable thread still has to resume: it
gets the mutex back and tests the block at `head` again.
-/

namespace CommonCode.Queue

open CommonCode.Lib.Transition

/-! ## The queue -/

/-- A memory block and whether it is in use. -/
structure QueueElement (Address : Type*) where
  address : Address
  inUse : Bool

/-- The queue; `head` and `tail` are counted modulo its capacity. -/
structure ImageQueue (Address : Type*) (size : Nat) where
  elements : Fin size → QueueElement Address
  head : Fin size
  tail : Fin size

variable {Address Thread : Type*} {size : Nat} [NeZero size]

/-- `queue_init` with the addresses that `malloc` returns. -/
def queueInit (address : Fin size → Address) : ImageQueue Address size where
  elements i := ⟨address i, false⟩
  head := 0
  tail := 0

/-- The assignment to `elements[i].in_use`. -/
def ImageQueue.mark (queue : ImageQueue Address size) (i : Fin size)
    (inUse : Bool) : ImageQueue Address size :=
  { queue with
    elements :=
      Function.update queue.elements i
        { queue.elements i with inUse := inUse } }

/--
One test of the loop of `queue_allocate`, and the rest of the function if it
leaves the loop.  With `none` the thread has to wait.
-/
def queueAllocate (queue : ImageQueue Address size) :
    Option (Address × ImageQueue Address size) :=
  if (queue.elements queue.head).inUse then none
  else
    some
      ((queue.elements queue.head).address,
        { queue.mark queue.head true with head := queue.head + 1 })

variable [DecidableEq Address] [DecidableEq Thread]

/-- The loop of `queue_release`: the first element with the address. -/
def ImageQueue.search (queue : ImageQueue Address size) (addr : Address) :
    Option (Fin size) :=
  (List.finRange size).find? fun i => (queue.elements i).address = addr

/-- `queue_release` up to `pthread_cond_signal`. -/
def queueRelease (queue : ImageQueue Address size) (addr : Address) :
    ImageQueue Address size :=
  match queue.search addr with
  | none => queue
  | some i => { queue.mark i false with tail := queue.tail + 1 }

/-! ## The monitor -/

/--
The queue, the threads that wait for the condition variable, those that have
been signalled and did not resume yet, the blocks that the threads hold, the
results of `queue_allocate` in order, and the number of calls of
`queue_release`.
-/
structure State (Thread Address : Type*) (size : Nat) where
  queue : ImageQueue Address size
  waiting : Finset Thread
  signalled : Finset Thread
  held : List (Thread × Address)
  allocated : List Address
  releases : Nat

/-- After `queue_init`. -/
def State.start (address : Fin size → Address) :
    State Thread Address size where
  queue := queueInit address
  waiting := ∅
  signalled := ∅
  held := []
  allocated := []
  releases := 0

/--
A thread calls `queue_allocate`, goes on in it after a signal, or calls
`queue_release`, which wakes the given thread.
-/
inductive Event (Thread Address : Type*) where
  | allocate (thread : Thread)
  | resume (thread : Thread)
  | release (thread : Thread) (addr : Address) (woken : Option Thread)

/-- The thread tests the block at `head`, and takes it or waits. -/
def State.attempt (state : State Thread Address size) (thread : Thread) :
    State Thread Address size :=
  match queueAllocate state.queue with
  | none => { state with waiting := insert thread state.waiting }
  | some (addr, queue) =>
      { state with
        queue := queue
        held := (thread, addr) :: state.held
        allocated := state.allocated ++ [addr] }

/-- The thread becomes runnable. -/
def State.wake (state : State Thread Address size) :
    Option Thread → State Thread Address size
  | none => state
  | some thread =>
      { state with
        waiting := state.waiting.erase thread
        signalled := insert thread state.signalled }

/-- The thread gives a block back. -/
def State.giveBack (state : State Thread Address size) (thread : Thread)
    (addr : Address) : State Thread Address size :=
  { state with
    queue := queueRelease state.queue addr
    held := state.held.erase (thread, addr)
    releases := state.releases + 1 }

/-- A signal wakes one thread if any thread waits. -/
def State.Wakes (state : State Thread Address size) :
    Option Thread → Prop
  | none => state.waiting = ∅
  | some thread => thread ∈ state.waiting

instance (state : State Thread Address size) (woken : Option Thread) :
    Decidable (state.Wakes woken) :=
  match woken with
  | none => inferInstanceAs (Decidable (state.waiting = ∅))
  | some thread => inferInstanceAs (Decidable (thread ∈ state.waiting))

/-- The thread is not inside `queue_allocate`. -/
def State.Idle (state : State Thread Address size) (thread : Thread) : Prop :=
  thread ∉ state.waiting ∧ thread ∉ state.signalled

instance (state : State Thread Address size) (thread : Thread) :
    Decidable (state.Idle thread) :=
  inferInstanceAs (Decidable (_ ∧ _))

/-- The effect of a step; `none` if it cannot be taken. -/
def State.next (state : State Thread Address size) :
    Event Thread Address → Option (State Thread Address size)
  | .allocate thread =>
      if state.Idle thread then some (state.attempt thread) else none
  | .resume thread =>
      if thread ∈ state.signalled then
        some
          (State.attempt
            { state with signalled := state.signalled.erase thread } thread)
      else none
  | .release thread addr woken =>
      if state.Idle thread ∧ (thread, addr) ∈ state.held ∧
          state.Wakes woken then
        some ((state.giveBack thread addr).wake woken)
      else none

/-- One step of one thread. -/
def Step (before : State Thread Address size) (event : Event Thread Address)
    (after : State Thread Address size) : Prop :=
  before.next event = some after

end CommonCode.Queue
