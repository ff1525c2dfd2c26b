import CommonCode.Lib.Bits
import CommonCode.Lib.Transition
import Mathlib.Data.Finset.Card
import Mathlib.Data.Finset.Image
import Mathlib.Data.Fintype.Basic
import Mathlib.Data.Fintype.Card
import Mathlib.Logic.Function.Basic

/-!
# The select loop of the servers

`tcp_server.c`, `tcp_select.c` and `http_anlyse.c` share the loop that accepts
connections and receives from them.  The outer loop creates the listening
socket; the inner loop calls `select` on the set `allset`, accepts at most one
connection into a free slot of `client[10]` and receives from the ready
connections.  An error of `select` or `accept`, or a full table, leads back to
the outer loop.

The state is that at the head of the inner loop, right before `select` is
called.  One round is one iteration of the inner loop, together with the way
through the outer loop if it is left.  Descriptors are taken to be smaller than
`FD_SETSIZE`, so that an `fd_set` is a set of descriptors.
-/

namespace CommonCode.Select

open CommonCode.Lib.Bits
open CommonCode.Lib.Transition

/-! ## The environment -/

/-- The number of slots of `client`, `client_port` and `client_ip`. -/
abbrev slots : Nat := 10

/-- What `accept` reports about a connection. -/
structure Peer where
  fd : Int
  port : Nat
  ip : List Byte

/--
How the code behind a successful `recv` is left: to the end of the loop body,
by `continue`, by `break`, or by the end of the program.
-/
inductive Outcome where
  | done
  | next
  | leave
  | exit
deriving DecidableEq, Repr

/-- The programs that share the loop. -/
inductive Program where
  | tcpServer
  | tcpSelect
  | httpAnlyse
deriving DecidableEq, Repr

/--
`tcp_server.c` passes the data on, `tcp_select.c` sends it back and leaves the
loop when that fails, and `http_anlyse.c` handles it as a request: it continues
after a reply with status 400, leaves the loop when another reply cannot be
sent, and ends when receiving the rest of a request fails.
-/
def Program.permits : Program → Outcome → Bool
  | .tcpServer, .done => true
  | .tcpServer, _ => false
  | .tcpSelect, .done => true
  | .tcpSelect, .leave => true
  | .tcpSelect, _ => false
  | .httpAnlyse, _ => true

/--
The result of `recv`: an error, the end of the connection, or data.  Handling
the data may leave further descriptors open.
-/
inductive Received where
  | failed
  | closed
  | data (outcome : Outcome) (opened : Finset Int)
deriving DecidableEq

/--
What the system contributes to one round.  `ready` is the set that `select`
leaves and `listening` the result of `socket_bind_listen`; `none` is an error.
`accepted` and `listening` matter only where the round asks for them.
-/
structure Round where
  ready : Option (Finset Int)
  accepted : Option Peer
  received : Fin slots → Received
  listening : Option Int

/-! ## The program -/

/--
The variables of `main`, and the descriptors that are open in the process.
-/
structure State where
  sockfd : Int
  client : Fin slots → Int
  clientPort : Fin slots → Nat
  clientIp : Fin slots → List Byte
  allset : Finset Int
  maxfd : Int
  maxi : Int
  descriptors : Finset Int

/-- The start of the inner loop with a new listening socket. -/
def State.listenOn (state : State) (sockfd : Int) : State :=
  { state with
    sockfd := sockfd
    maxfd := sockfd
    allset := {sockfd}
    descriptors := insert sockfd state.descriptors }

/-- The first start of the inner loop. -/
def State.start (sockfd : Int) (descriptors : Finset Int) : State :=
  State.listenOn
    { sockfd := -1
      client := fun _ => 0
      clientPort := fun _ => 0
      clientIp := fun _ => List.replicate 16 0
      allset := ∅
      maxfd := -1
      maxi := -1
      descriptors := descriptors }
    sockfd

/-- The way through the outer loop; the program ends if it cannot listen. -/
def State.restart (state : State) (listening : Option Int) : Option State :=
  listening.map fun sockfd =>
    State.listenOn
      { state with
        descriptors := state.descriptors.erase state.sockfd }
      sockfd

/-- The first slot that does not hold a connection. -/
def State.freeSlot (state : State) : Option (Fin slots) :=
  (List.finRange slots).find? fun i => state.client i ≤ 0

/-- Enter an accepted connection into a slot. -/
def State.register (state : State) (peer : Peer) (i : Fin slots) : State :=
  { state with
    client := Function.update state.client i peer.fd
    clientPort := Function.update state.clientPort i peer.port
    clientIp := Function.update state.clientIp i peer.ip
    allset := insert peer.fd state.allset
    maxfd := if peer.fd > state.maxfd then peer.fd else state.maxfd
    maxi := if (i.val : Int) > state.maxi then i.val else state.maxi }

/-- Close the connection in a slot. -/
def State.disconnect (state : State) (i : Fin slots) : State :=
  { state with
    client := Function.update state.client i (-1)
    clientPort := Function.update state.clientPort i 0
    clientIp := Function.update state.clientIp i (List.replicate 16 0)
    allset := state.allset.erase (state.client i)
    descriptors := state.descriptors.erase (state.client i) }

/--
The loop over the slots that `maxi` admits, as far as it is still to go, with
the number of ready descriptors that are not handled yet.  `none` is the end of
the program.
-/
def receiveAll (ready : Finset Int) (received : Fin slots → Received) :
    List (Fin slots) → Int → State → Option State
  | [], _, state => some state
  | i :: rest, nready, state =>
      if state.client i < 0 then receiveAll ready received rest nready state
      else if state.client i ∈ ready then
        match received i with
        | .failed => none
        | .closed =>
            if nready - 1 = 0 then some (state.disconnect i)
            else
              receiveAll ready received rest (nready - 1)
                (state.disconnect i)
        | .data outcome opened =>
            let state :=
              { state with descriptors := state.descriptors ∪ opened }
            match outcome with
            | .done =>
                if nready - 1 = 0 then some state
                else receiveAll ready received rest (nready - 1) state
            | .next => receiveAll ready received rest nready state
            | .leave => some state
            | .exit => none
      else receiveAll ready received rest nready state

/-- The slots up to `maxi`. -/
def State.visited (state : State) : List (Fin slots) :=
  (List.finRange slots).filter fun i => (i.val : Int) ≤ state.maxi

/-- One iteration of the inner loop; `none` is the end of the program. -/
def State.round (state : State) (input : Round) : Option State :=
  match input.ready with
  | none => state.restart input.listening
  | some ready =>
      if state.sockfd ∈ ready then
        match input.accepted with
        | none => state.restart input.listening
        | some peer =>
            let state :=
              { state with
                descriptors := insert peer.fd state.descriptors }
            match state.freeSlot with
            | none => state.restart input.listening
            | some i =>
                let state := state.register peer i
                let nready := (ready.card : Int) - 1
                if nready = 0 then some state
                else
                  receiveAll ready input.received state.visited nready state
      else
        receiveAll ready input.received state.visited ready.card state

/-! ## Steps -/

/--
What the system guarantees: `select` reports descriptors it was asked about,
and new descriptors are none of the three standard ones and not in use.
-/
structure Permitted (program : Program) (state : State) (input : Round) :
    Prop where
  ready : ∀ ready, input.ready = some ready → ready ⊆ state.allset
  accepted :
    ∀ peer, input.accepted = some peer →
      3 ≤ peer.fd ∧ peer.fd ∉ state.descriptors
  listening :
    ∀ fd, input.listening = some fd →
      3 ≤ fd ∧ fd ∉ state.descriptors.erase state.sockfd ∧
        ∀ peer, input.accepted = some peer → fd ≠ peer.fd
  received :
    ∀ i outcome opened, input.received i = .data outcome opened →
      program.permits outcome = true

/-- One round of a program that goes on. -/
def Step (program : Program) (before : State) (input : Round)
    (after : State) : Prop :=
  Permitted program before input ∧ before.round input = some after

end CommonCode.Select
