import CommonCode.Lib.Transition
import Mathlib.Data.Finset.Erase
import Mathlib.Data.Finset.Insert
import Mathlib.Logic.Function.Basic

/-!
# One thread for each connection

`test/pthreads_tcp/server.c` starts a thread `task1` for every connection that
it accepts.  The descriptor and the address of the client are handed over in
the variable `usr` of `main`: the thread gets its address and copies it in its
first statement, while `main` already goes on to the next `accept`, which
stores into the same variable.

The steps are those of `main` (the store of `accept`, the store of the address,
`pthread_create`) and those of the threads (the copy, the end of the service),
in any order.  An error of a system call ends the process.
-/

namespace CommonCode.Threads

open CommonCode.Lib.Transition

/-! ## The program -/

/-- The fields of a `struct sockaddr_in` that the program reads. -/
structure SockAddr where
  sinAddr : BitVec 32
  sinPort : BitVec 16
deriving DecidableEq

/--
The type `num_t`.  `serial` is not in the source: it says which connection the
descriptor belongs to, since the numbers of closed descriptors are used again.
-/
structure Num where
  acceptFd : Nat
  clientAddr : SockAddr
  serial : Nat
deriving DecidableEq

/-- Where `main` is: before `accept`, after it, or before `pthread_create`. -/
inductive Phase where
  | accepting
  | accepted
  | stored
deriving DecidableEq

/-- Where a thread `task1` is; from its first step on it has its own `usr`. -/
inductive Task where
  | absent
  | created
  | serving (usr : Num)
  | finished (usr : Num)
deriving DecidableEq

/-- The connection that a thread has copied. -/
def Task.connection : Task → Option Nat
  | .absent => none
  | .created => none
  | .serving usr => some usr.serial
  | .finished usr => some usr.serial

/--
The variables of `main`, the threads in the order of their creation, and the
open descriptors.  `accepts` counts the connections.
-/
structure State where
  phase : Phase
  clientAddr : SockAddr
  usr : Num
  accepts : Nat
  created : Nat
  task : Nat → Task
  descriptors : Finset Nat

/-- The head of the loop of `main`, for the first time. -/
def State.start (descriptors : Finset Nat) : State where
  phase := .accepting
  clientAddr := ⟨0, 0⟩
  usr := ⟨0, ⟨0, 0⟩, 0⟩
  accepts := 0
  created := 0
  task _ := .absent
  descriptors := descriptors

/-- The steps of `main` and of the threads. -/
inductive Event where
  | accept (fd : Nat) (address : SockAddr)
  | store
  | create
  | copy (thread : Nat)
  | finish (thread : Nat)
deriving DecidableEq

/--
The effect of a step; `none` if it cannot be taken.  `accept` returns a
descriptor that is not in use.
-/
def State.next (state : State) : Event → Option State
  | .accept fd address =>
      if state.phase = .accepting ∧ fd ∉ state.descriptors then
        some
          { state with
            phase := .accepted
            clientAddr := address
            usr :=
              { state.usr with acceptFd := fd, serial := state.accepts }
            accepts := state.accepts + 1
            descriptors := insert fd state.descriptors }
      else none
  | .store =>
      if state.phase = .accepted then
        some
          { state with
            phase := .stored
            usr := { state.usr with clientAddr := state.clientAddr } }
      else none
  | .create =>
      if state.phase = .stored then
        some
          { state with
            phase := .accepting
            created := state.created + 1
            task := Function.update state.task state.created .created }
      else none
  | .copy thread =>
      if state.task thread = .created then
        some
          { state with
            task := Function.update state.task thread (.serving state.usr) }
      else none
  | .finish thread =>
      match state.task thread with
      | .serving usr =>
          some
            { state with
              task := Function.update state.task thread (.finished usr)
              descriptors := state.descriptors.erase usr.acceptFd }
      | _ => none

/-- One step of the process. -/
def Step (before : State) (event : Event) (after : State) : Prop :=
  before.next event = some after

/-! ## Connections and threads -/

/-- Every connection has its thread, and every thread has its connection. -/
def State.Settled (state : State) : Prop :=
  state.phase = .accepting ∧ ∀ thread, state.task thread ≠ .created

/--
No connection is served twice, and once all threads have started none is left
unserved.
-/
structure State.ServedOnce (state : State) : Prop where
  unique :
    ∀ thread other connection,
      (state.task thread).connection = some connection →
        (state.task other).connection = some connection → thread = other
  served :
    state.Settled → ∀ connection < state.accepts,
      ∃ thread, (state.task thread).connection = some connection

/-- `accept` returns only when every thread has copied `usr`. -/
def Prompt (state : State) : Event → Prop
  | .accept _ _ => ∀ thread, state.task thread ≠ .created
  | _ => True

/--
What a prompt process keeps for one thread: it serves the connection with its
own number, and if it has not copied yet it is the last one.
-/
def Task.Fits (phase : Phase) (created thread : Nat) : Task → Prop
  | .absent => created ≤ thread
  | .created => phase = .accepting ∧ thread + 1 = created
  | .serving usr => thread < created ∧ usr.serial = thread
  | .finished usr => thread < created ∧ usr.serial = thread

/-- What a prompt process keeps: the last connection is still in `usr`. -/
structure Handed (state : State) : Prop where
  creating : state.phase ≠ .accepting → state.created + 1 = state.accepts
  accepting : state.phase = .accepting → state.created = state.accepts
  usr : 0 < state.accepts → state.usr.serial + 1 = state.accepts
  tasks :
    ∀ thread, (state.task thread).Fits state.phase state.created thread

/-- A connection that no thread has copied, and that is not in `usr` either. -/
structure Lost (connection : Nat) (state : State) : Prop where
  overwritten : connection < state.usr.serial
  accepted : connection < state.accepts
  unserved :
    ∀ thread, (state.task thread).connection ≠ some connection

section Tasks

variable {phase phase' : Phase} {created created' thread connection : Nat}
variable {task : Task}

/-- For a thread that has copied, only the number of threads matters. -/
theorem Task.Fits.of_ne_created (fits : task.Fits phase created thread)
    (copied : task ≠ .created)
    (same : thread < created ↔ thread < created') :
    task.Fits phase' created' thread := by
  cases task with
  | absent => exact Nat.not_lt.mp fun less => Nat.not_lt.mpr fits (same.mpr less)
  | created => exact absurd rfl copied
  | serving usr => exact ⟨same.mp fits.1, fits.2⟩
  | finished usr => exact ⟨same.mp fits.1, fits.2⟩

theorem Task.Fits.own (fits : task.Fits phase created thread)
    (copied : task.connection = some connection) : thread = connection := by
  cases task with
  | absent => cases copied
  | created => cases copied
  | serving usr =>
      cases copied
      exact fits.2.symm
  | finished usr =>
      cases copied
      exact fits.2.symm

/-- A thread that exists and has copied serves its connection. -/
theorem Task.Fits.connection_eq (fits : task.Fits phase created thread)
    (copied : task ≠ .created) (present : thread < created) :
    task.connection = some thread := by
  cases task with
  | absent => exact absurd present (Nat.not_lt.mpr fits)
  | created => exact absurd rfl copied
  | serving usr => exact congrArg some fits.2
  | finished usr => exact congrArg some fits.2

end Tasks

theorem handed_start (descriptors : Finset Nat) :
    Handed (State.start descriptors) where
  creating other := absurd rfl other
  accepting _ := rfl
  usr positive := absurd positive (lt_irrefl 0)
  tasks thread := Nat.zero_le thread

theorem Handed.servedOnce {state : State} (handed : Handed state) :
    state.ServedOnce where
  unique thread other connection first second := by
    rw [(handed.tasks thread).own first, (handed.tasks other).own second]
  served settled connection accepted := by
    rw [← handed.accepting settled.1] at accepted
    exact
      ⟨connection,
        (handed.tasks connection).connection_eq (settled.2 connection)
          accepted⟩

/-- Outside `accept` no thread is waiting to copy. -/
theorem Handed.ne_created {state : State} (handed : Handed state)
    (busy : state.phase ≠ .accepting) (thread : Nat) :
    state.task thread ≠ .created := by
  intro created
  have fits := handed.tasks thread
  rw [created] at fits
  exact busy fits.1

/-! ## Steps -/

section Steps

variable {before after : State} {event : Event} {connection : Nat}

/-- Prompt steps keep the invariant. -/
theorem Handed.step (handed : Handed before)
    (taken : Step before event after) (prompt : Prompt before event) :
    Handed after := by
  cases event with
  | accept fd address =>
      rw [Step, State.next] at taken
      split at taken
      · next enabled =>
        cases taken
        exact
          { creating := fun _ =>
              congrArg Nat.succ (handed.accepting enabled.1)
            accepting := by rintro ⟨⟩
            usr := fun _ => rfl
            tasks := fun thread =>
              (handed.tasks thread).of_ne_created (prompt thread) Iff.rfl }
      · cases taken
  | store =>
      rw [Step, State.next] at taken
      split at taken
      · next phase =>
        cases taken
        have busy : before.phase ≠ .accepting := by
          rw [phase]
          rintro ⟨⟩
        exact
          { creating := fun _ => handed.creating busy
            accepting := by rintro ⟨⟩
            usr := handed.usr
            tasks := fun thread =>
              (handed.tasks thread).of_ne_created
                (handed.ne_created busy thread) Iff.rfl }
      · cases taken
  | create =>
      rw [Step, State.next] at taken
      split at taken
      · next phase =>
        cases taken
        have busy : before.phase ≠ .accepting := by
          rw [phase]
          rintro ⟨⟩
        refine
          { creating := fun other => absurd rfl other
            accepting := fun _ => handed.creating busy
            usr := handed.usr
            tasks := ?_ }
        refine (Function.forall_update_iff before.task
          (Task.Fits .accepting (before.created + 1))).mpr ⟨⟨rfl, rfl⟩, ?_⟩
        intro thread apart
        exact (handed.tasks thread).of_ne_created
          (handed.ne_created busy thread) (by omega)
      · cases taken
  | copy thread =>
      rw [Step, State.next] at taken
      split at taken
      · next created =>
        cases taken
        have fits := handed.tasks thread
        rw [created] at fits
        rcases fits with ⟨phase, last⟩
        have balanced := handed.accepting phase
        have usr := handed.usr (by omega)
        refine { handed with tasks := ?_ }
        refine (Function.forall_update_iff before.task
          (Task.Fits before.phase before.created)).mpr ⟨⟨?_, ?_⟩, ?_⟩
        · omega
        · omega
        · exact fun other _ => handed.tasks other
      · cases taken
  | finish thread =>
      rw [Step, State.next] at taken
      split at taken
      · next usr serving =>
        cases taken
        have fits := handed.tasks thread
        rw [serving] at fits
        refine { handed with tasks := ?_ }
        exact (Function.forall_update_iff before.task
          (Task.Fits before.phase before.created)).mpr
            ⟨fits, fun other _ => handed.tasks other⟩
      · cases taken

/-- A step that is not prompt loses the connection in `usr`. -/
theorem Handed.lost (handed : Handed before)
    (taken : Step before event after) (late : ¬ Prompt before event) :
    ∃ connection, Lost connection after := by
  cases event with
  | accept fd address =>
      rw [Step, State.next] at taken
      split at taken
      · next enabled =>
        cases taken
        rcases Classical.not_forall.mp late with ⟨thread, created⟩
        rw [Classical.not_not] at created
        have fits := handed.tasks thread
        rw [created] at fits
        have balanced := handed.accepting enabled.1
        have less : thread < before.accepts := by
          rw [← balanced, ← fits.2]
          exact Nat.lt_succ_self thread
        refine ⟨thread, less, Nat.lt_succ_of_lt less, ?_⟩
        intro other served
        have same := (handed.tasks other).own served
        rw [same] at served
        change (before.task thread).connection = some thread at served
        rw [created] at served
        cases served
      · cases taken
  | store => exact absurd trivial late
  | create => exact absurd trivial late
  | copy thread => exact absurd trivial late
  | finish thread => exact absurd trivial late

/-- No later step brings a lost connection back. -/
theorem Lost.step (lost : Lost connection before)
    (taken : Step before event after) : Lost connection after := by
  rcases lost with ⟨overwritten, accepted, unserved⟩
  cases event with
  | accept fd address =>
      rw [Step, State.next] at taken
      split at taken
      · cases taken
        exact ⟨accepted, Nat.lt_succ_of_lt accepted, unserved⟩
      · cases taken
  | store =>
      rw [Step, State.next] at taken
      split at taken
      · cases taken
        exact ⟨overwritten, accepted, unserved⟩
      · cases taken
  | create =>
      rw [Step, State.next] at taken
      split at taken
      · cases taken
        refine ⟨overwritten, accepted, ?_⟩
        exact (Function.forall_update_iff before.task
          fun _ task => task.connection ≠ some connection).mpr
            ⟨(by rintro ⟨⟩), fun other _ => unserved other⟩
      · cases taken
  | copy thread =>
      rw [Step, State.next] at taken
      split at taken
      · cases taken
        refine ⟨overwritten, accepted, ?_⟩
        refine (Function.forall_update_iff before.task
          fun _ task => task.connection ≠ some connection).mpr
            ⟨?_, fun other _ => unserved other⟩
        intro same
        exact absurd (Option.some.inj same) (Nat.ne_of_gt overwritten)
      · cases taken
  | finish thread =>
      rw [Step, State.next] at taken
      split at taken
      · next usr serving =>
        cases taken
        refine ⟨overwritten, accepted, ?_⟩
        refine (Function.forall_update_iff before.task
          fun _ task => task.connection ≠ some connection).mpr
            ⟨?_, fun other _ => unserved other⟩
        have still := unserved thread
        rw [serving] at still
        exact still
      · cases taken

end Steps

/-! ## Runs -/

/--
In every run in which `accept` returns only when every thread has copied `usr`,
no connection is served twice and none is left unserved; and in a run with any
other step, once all threads have started, one is.
-/
theorem servedOnce_iff_prompt {descriptors : Finset Nat}
    {events : List Event} {last : State}
    (run : Run Step (State.start descriptors) events last) :
    (Run (Under Prompt Step) (State.start descriptors) events last →
      last.ServedOnce) ∧
    (last.Settled → last.ServedOnce →
      Run (Under Prompt Step) (State.start descriptors) events last) := by
  have start := handed_start descriptors
  constructor
  · intro under
    have handed : Handed last :=
      under.invariant (fun taken handed => handed.step taken.2 taken.1) start
    exact handed.servedOnce
  · intro settled once
    have stays {before after : State} {event : Event}
        (taken : Step before event after)
        (lost : ∃ connection, Lost connection before) :
        ∃ connection, Lost connection after := by
      rcases lost with ⟨connection, lost⟩
      exact ⟨connection, lost.step taken⟩
    have outcome :
        Run (Under Prompt Step) (State.start descriptors) events last ∨
          ∃ connection, Lost connection last :=
      run.under_or_lost Handed.step Handed.lost stays start
    rcases outcome with under | ⟨connection, lost⟩
    · exact under
    · rcases once.served settled connection lost.accepted with ⟨thread, copied⟩
      exact absurd copied (lost.unserved thread)

/-- A connection is accepted, and its thread copies `usr` at once. -/
def promptly (thread fd : Nat) : List Event :=
  [.accept fd ⟨0, 0⟩, .store, .create, .copy thread]

theorem servedOnce_iff_prompt_two_connections :
    ∃ last, Run Step (State.start {3}) (promptly 0 4 ++ promptly 1 5) last ∧
      last.ServedOnce ∧
      ∃ usr, last.task 1 = .serving usr ∧ usr.acceptFd = 5 := by
  have under : ∃ last, Run (Under Prompt Step) (State.start {3})
      (promptly 0 4 ++ promptly 1 5) last ∧
      ∃ usr, last.task 1 = .serving usr ∧ usr.acceptFd = 5 := by
    refine ⟨?last, ?run, ?thread⟩
    case run =>
      refine Run.cons ⟨fun _ => by rintro ⟨⟩, rfl⟩ ?_
      refine Run.cons ⟨trivial, rfl⟩ ?_
      refine Run.cons ⟨trivial, rfl⟩ ?_
      refine Run.cons ⟨trivial, rfl⟩ ?_
      refine Run.cons ⟨?prompt, rfl⟩ ?_
      case prompt =>
        intro thread created
        cases thread with
        | zero => cases created
        | succ thread => cases created
      refine Run.cons ⟨trivial, rfl⟩ ?_
      refine Run.cons ⟨trivial, rfl⟩ ?_
      refine Run.cons ⟨trivial, rfl⟩ ?_
      exact Run.nil _
    · exact ⟨_, rfl, rfl⟩
  rcases under with ⟨last, under, serving⟩
  have run := under.of_under
  exact ⟨last, run, (servedOnce_iff_prompt run).1 under, serving⟩

/-- The second connection comes before the first thread has copied `usr`. -/
def overtaken : List Event :=
  [.accept 4 ⟨0, 0⟩, .store, .create, .accept 5 ⟨0, 0⟩, .store, .create,
    .copy 0, .copy 1]

/--
Two threads serve the second connection, although the first one was accepted
and both threads have started.
-/
theorem not_servedOnce_overtaken :
    ¬ ∀ events last, Run Step (State.start {3}) events last →
      last.ServedOnce := by
  intro always
  have reached : ∃ last, Run Step (State.start {3}) overtaken last ∧
      (last.task 0).connection = some 1 ∧
      (last.task 1).connection = some 1 := by
    exact ⟨_, run_of_execute id rfl, rfl, rfl⟩
  rcases reached with ⟨last, run, first, second⟩
  have once := always overtaken last run
  exact absurd (once.unique 0 1 1 first second) Nat.zero_ne_one

end CommonCode.Threads
