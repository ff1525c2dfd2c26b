import CommonCode.Lib.CString
import CommonCode.Lib.Transition
import Mathlib.Data.Finset.Card
import Mathlib.Data.Finset.Insert

/-!
# The interactive select server

`test/TCP_select/select_server.c` waits with `select` for its listening socket
and its clients, answers the messages of the clients by hand and closes a
client that leaves or sends `quit`.  `select` overwrites the set `readfds` with
the descriptors that are ready; the loop saves the set in `readfds_tmp` first,
but never restores it.

The state is that at the head of the loop, right before `select` is called, and
one round is one iteration.  Descriptors are taken to be smaller than
`FD_SETSIZE`, so that an `fd_set` is a set of descriptors.
-/

namespace CommonCode.SelectServer

open CommonCode.Lib.Bits
open CommonCode.Lib.CString
open CommonCode.Lib.Transition

/-! ## The environment -/

/--
The result of `recv`: an error, the end of the connection, or data.  For data
there is also what the operator types as the answer, and whether `send` takes
it.
-/
inductive Received where
  | failed
  | closed
  | data (bytes typed : List Byte) (sent : Bool)
deriving DecidableEq

/--
What the system contributes to one round.  `ready` is the set that `select`
leaves; `none` is an error of `select` or of `accept`.  `accepted` and
`received` matter only where the round asks for them.
-/
structure Round where
  ready : Option (Finset Nat)
  accepted : Option Nat
  received : Nat → Received

/-! ## The program -/

/--
The variables of `main`, and the accepted descriptors that have not been
closed.
-/
structure State where
  sockFd : Nat
  readfds : Finset Nat
  readfdsTmp : Finset Nat
  maxFd : Nat
  buf : List Byte
  connections : Finset Nat

/-- The first start of the loop; `buf` is not initialised. -/
def State.start (sockFd : Nat) (buf : List Byte) : State where
  sockFd := sockFd
  readfds := {sockFd}
  readfdsTmp := ∅
  maxFd := if 0 > sockFd then 0 else sockFd
  buf := buf
  connections := ∅

/-- The handling of a descriptor that `accept` returns. -/
def State.connect (state : State) (acceptFd : Nat) : State :=
  { state with
    readfds := insert acceptFd state.readfds
    maxFd := if state.maxFd > acceptFd then state.maxFd else acceptFd
    connections := insert acceptFd state.connections }

/-- `FD_CLR` and `close`. -/
def State.disconnect (state : State) (fd : Nat) : State :=
  { state with
    readfds := state.readfds.erase fd
    connections := state.connections.erase fd }

/-- Bytes at the start of `buf`, as `recv` and `scanf` leave them. -/
def State.store (state : State) (bytes : List Byte) : State :=
  { state with buf := bytes ++ state.buf.drop bytes.length }

/-- `0 == strcmp(buf, "quit")`. -/
def State.quits (state : State) : Bool :=
  state.buf.take 5 == ascii "quit" ++ [0]

/--
The loop over the descriptors, as far as they are still to go, with the number
of ready descriptors that are not handled yet.  `none` is the end of the
program; `accept` never returns a descriptor that is in use.
-/
def scan (input : Round) : List Nat → Int → State → Option State
  | [], _, state => some state
  | i :: rest, ret, state =>
      if i < state.maxFd + 1 ∧ ret > 0 then
        if i ∈ state.readfds then
          if i = state.sockFd then
            match input.accepted with
            | none => none
            | some acceptFd =>
                if acceptFd = state.sockFd ∨ acceptFd ∈ state.connections then
                  none
                else scan input rest (ret - 1) (state.connect acceptFd)
          else
            match input.received i with
            | .failed => some state
            | .closed => scan input rest ret (state.disconnect i)
            | .data bytes typed sent =>
                if (state.store bytes).quits then
                  scan input rest ret ((state.store bytes).disconnect i)
                else
                  let state := (state.store bytes).store (typed ++ [0])
                  if sent then scan input rest (ret - 1) state
                  else some state
        else scan input rest ret state
      else some state

/--
One iteration of the loop.  The scan goes at most up to the larger of `max_fd`
and the descriptor that is accepted in it.
-/
def State.round (state : State) (input : Round) : Option State :=
  match input.ready with
  | none => none
  | some ready =>
      scan input
        (List.range (max state.maxFd (input.accepted.getD 0) + 1)) ready.card
        { state with readfdsTmp := state.readfds, readfds := ready }

/--
One round of the program that goes on.  `select` has no timeout, so it reports
at least one descriptor, and only those it was asked about.
-/
def Step (before : State) (input : Round) (after : State) : Prop :=
  (∀ ready, input.ready = some ready →
    ready.Nonempty ∧ ready ⊆ before.readfds) ∧
  before.round input = some after

theorem Step.deterministic {before after other : State} {input : Round}
    (taken : Step before input after) (again : Step before input other) :
    after = other :=
  Option.some.inj (taken.2.symm.trans again.2)

/-! ## The watched set -/

/--
`readfds` contains the listening socket and every accepted descriptor that has
not been closed.
-/
def State.Watched (state : State) : Prop :=
  insert state.sockFd state.connections ⊆ state.readfds

/-- `readfds` holds nothing else, and the listening socket is no client. -/
structure Tracked (state : State) : Prop where
  readfds : state.readfds = insert state.sockFd state.connections
  apart : state.sockFd ∉ state.connections

/-- A descriptor that is in use and not watched. -/
structure Missed (fd : Nat) (state : State) : Prop where
  used : fd ∈ insert state.sockFd state.connections
  unwatched : fd ∉ state.readfds

/-- What the three operations of the scan keep, the scan keeps. -/
theorem scan_preserves {Kept : State → Prop} {input : Round}
    (connect :
      ∀ {state fd}, Kept state → fd ≠ state.sockFd →
        fd ∉ state.connections → Kept (state.connect fd))
    (disconnect :
      ∀ {state fd}, Kept state → fd ≠ state.sockFd → fd ∈ state.readfds →
        Kept (state.disconnect fd))
    (store : ∀ {state} bytes, Kept state → Kept (state.store bytes))
    {rest : List Nat} {ret : Int} {before after : State}
    (kept : Kept before) (result : scan input rest ret before = some after) :
    Kept after := by
  induction rest generalizing ret before with
  | nil =>
      cases result
      exact kept
  | cons i rest induction =>
      rw [scan] at result
      split at result
      · split at result
        · next inside =>
          split at result
          · cases accept : input.accepted with
            | none =>
                rw [accept] at result
                cases result
            | some acceptFd =>
                rw [accept] at result
                dsimp only at result
                split at result
                · cases result
                · next fresh =>
                  rw [not_or] at fresh
                  exact induction (connect kept fresh.1 fresh.2) result
          · next client =>
            cases event : input.received i with
            | failed =>
                rw [event] at result
                cases result
                exact kept
            | closed =>
                rw [event] at result
                exact induction (disconnect kept client inside) result
            | data bytes typed sent =>
                rw [event] at result
                dsimp only at result
                have received := store bytes kept
                split at result
                · exact induction (disconnect received client inside) result
                · have answered := store (typed ++ [0]) received
                  split at result
                  · exact induction answered result
                  · cases result
                    exact answered
        · exact induction kept result
      · cases result
        exact kept

section Operations

variable {state : State} {fd other : Nat}

theorem Tracked.connect (tracked : Tracked state) (new : fd ≠ state.sockFd) :
    Tracked (state.connect fd) where
  readfds := by
    change insert fd state.readfds = insert state.sockFd (insert fd _)
    rw [tracked.readfds, Finset.insert_comm]
  apart := by
    change state.sockFd ∉ insert fd state.connections
    rw [Finset.mem_insert, not_or]
    exact ⟨new.symm, tracked.apart⟩

theorem Tracked.disconnect (tracked : Tracked state)
    (client : fd ≠ state.sockFd) : Tracked (state.disconnect fd) where
  readfds := by
    change state.readfds.erase fd = insert state.sockFd (Finset.erase _ fd)
    rw [tracked.readfds, Finset.erase_insert_of_ne client.symm]
  apart member := tracked.apart (Finset.mem_of_mem_erase member)

theorem Tracked.store (bytes : List Byte) (tracked : Tracked state) :
    Tracked (state.store bytes) :=
  ⟨tracked.readfds, tracked.apart⟩

theorem Missed.connect (missed : Missed other state)
    (new : fd ≠ state.sockFd) (fresh : fd ∉ state.connections) :
    Missed other (state.connect fd) where
  used := by
    change other ∈ insert state.sockFd (insert fd state.connections)
    rw [Finset.insert_comm]
    exact Finset.mem_insert_of_mem missed.used
  unwatched := by
    change other ∉ insert fd state.readfds
    rw [Finset.mem_insert, not_or]
    refine ⟨?_, missed.unwatched⟩
    rintro rfl
    rcases Finset.mem_insert.mp missed.used with listening | connected
    · exact new listening
    · exact fresh connected

theorem Missed.disconnect (missed : Missed other state)
    (watched : fd ∈ state.readfds) : Missed other (state.disconnect fd) where
  used := by
    have apart : other ≠ fd := by
      rintro rfl
      exact missed.unwatched watched
    change other ∈ insert state.sockFd (state.connections.erase fd)
    rcases Finset.mem_insert.mp missed.used with listening | connected
    · rw [listening]
      exact Finset.mem_insert_self ..
    · exact Finset.mem_insert_of_mem (Finset.mem_erase.mpr ⟨apart, connected⟩)
  unwatched member := missed.unwatched (Finset.mem_of_mem_erase member)

theorem Missed.store (bytes : List Byte) (missed : Missed other state) :
    Missed other (state.store bytes) :=
  ⟨missed.used, missed.unwatched⟩

end Operations

/-! ## Rounds -/

/-- `select` reports every descriptor it was asked about. -/
def AllReady (state : State) (input : Round) : Prop :=
  input.ready = some state.readfds

theorem tracked_start (sockFd : Nat) (buf : List Byte) :
    Tracked (State.start sockFd buf) :=
  ⟨rfl, Finset.notMem_empty sockFd⟩

theorem Tracked.watched {state : State} (tracked : Tracked state) :
    state.Watched :=
  tracked.readfds.symm.subset

theorem Missed.not_watched {fd : Nat} {state : State}
    (missed : Missed fd state) : ¬ state.Watched :=
  fun watched => missed.unwatched (watched missed.used)

/-- A round in which everything is ready keeps the invariant. -/
theorem Tracked.round {before after : State} {input : Round}
    (tracked : Tracked before) (taken : Step before input after)
    (all : AllReady before input) : Tracked after := by
  rcases taken with ⟨-, result⟩
  rw [State.round, all] at result
  have selected : Tracked
      { before with
        readfdsTmp := before.readfds, readfds := before.readfds } :=
    ⟨tracked.readfds, tracked.apart⟩
  exact scan_preserves (fun kept new _ => Tracked.connect kept new)
    (fun kept client _ => Tracked.disconnect kept client) Tracked.store
    selected result

/-- A round in which something is not ready loses it. -/
theorem Tracked.not_watched_of_round {before after : State} {input : Round}
    (tracked : Tracked before) (taken : Step before input after)
    (some : ¬ AllReady before input) : ¬ after.Watched := by
  rcases taken with ⟨permitted, result⟩
  rw [State.round] at result
  cases selected : input.ready with
  | none =>
      rw [selected] at result
      cases result
  | some ready =>
      rw [selected] at result
      have strict : ¬ before.readfds ⊆ ready := by
        intro all
        have equal : ready = before.readfds :=
          Finset.Subset.antisymm (permitted ready selected).2 all
        rw [equal] at selected
        exact some selected
      rcases Finset.not_subset.mp strict with ⟨fd, watched, unready⟩
      have missed : Missed fd
          { before with readfdsTmp := before.readfds, readfds := ready } :=
        ⟨tracked.readfds ▸ watched, unready⟩
      have remains : Missed fd after :=
        scan_preserves Missed.connect (fun kept _ => Missed.disconnect kept)
          Missed.store missed result
      exact remains.not_watched

/-! ## Runs -/

/--
For every run of the server: each time the loop is about to call `select`,
`readfds` contains the listening socket and every open connection, exactly if
every call of `select` reports all descriptors it was asked about.
-/
theorem watched_throughout_iff {sockFd : Nat} {buf : List Byte}
    {inputs : List Round} {last : State}
    (run : Run Step (State.start sockFd buf) inputs last) :
    (∀ count middle,
      Run Step (State.start sockFd buf) (inputs.take count) middle →
        middle.Watched) ↔
      Run (Under AllReady Step) (State.start sockFd buf) inputs last :=
  run.forall_iff_under Step.deterministic Tracked.watched Tracked.round
    Tracked.not_watched_of_round (tracked_start sockFd buf)

/-- A round in which `select` succeeds and every message is answered. -/
def Round.answered (ready : Finset Nat) (acceptFd : Nat) : Round where
  ready := some ready
  accepted := some acceptFd
  received _ := .data (ascii "ping") (ascii "pong") true

theorem Step.of_round {before after : State} {ready : Finset Nat}
    {acceptFd : Nat} (some : ready.Nonempty) (asked : ready ⊆ before.readfds)
    (result : before.round (Round.answered ready acceptFd) = .some after) :
    Step before (Round.answered ready acceptFd) after := by
  refine ⟨?_, result⟩
  rintro other ⟨⟩
  exact ⟨some, asked⟩

/-- The state after the first client has connected. -/
def State.oneClient : State where
  sockFd := 3
  readfds := {4, 3}
  readfdsTmp := {3}
  maxFd := 4
  buf := []
  connections := {4}

theorem step_oneClient :
    Step (State.start 3 []) (Round.answered {3} 4) State.oneClient :=
  Step.of_round (by decide) (by decide) rfl

theorem watched_throughout_two_clients :
    (∀ count middle,
      Run Step (State.start 3 [])
        (List.take count [Round.answered {3} 4, Round.answered {4, 3} 5])
        middle → middle.Watched) ∧
    ∃ last, Run Step (State.start 3 [])
        [Round.answered {3} 4, Round.answered {4, 3} 5] last ∧
      last.connections = {5, 4} := by
  have second : Step State.oneClient (Round.answered {4, 3} 5)
      { sockFd := 3, readfds := {5, 4, 3}, readfdsTmp := {4, 3}, maxFd := 5,
        buf := ascii "pong" ++ [0], connections := {5, 4} } :=
    Step.of_round (by decide) (by decide) rfl
  have run := Run.cons step_oneClient (Run.cons second (Run.nil _))
  have all : Run (Under AllReady Step) (State.start 3 [])
      [Round.answered {3} 4, Round.answered {4, 3} 5] _ :=
    Run.cons ⟨rfl, step_oneClient⟩ (Run.cons ⟨rfl, second⟩ (Run.nil _))
  exact ⟨(watched_throughout_iff run).mpr all, _, run, rfl⟩

/--
A client sends a message while nobody connects: after that the listening
socket is not watched.
-/
theorem listening_not_watched :
    ¬ ∀ inputs last, Run Step (State.start 3 []) inputs last →
      last.Watched := by
  have second : Step State.oneClient (Round.answered {4} 5)
      { sockFd := 3, readfds := {4}, readfdsTmp := {4, 3}, maxFd := 4,
        buf := ascii "pong" ++ [0], connections := {4} } :=
    Step.of_round (by decide) (by decide) rfl
  intro always
  have watched :=
    always _ _ (Run.cons step_oneClient (Run.cons second (Run.nil _)))
  revert watched
  unfold State.Watched
  decide

end CommonCode.SelectServer
