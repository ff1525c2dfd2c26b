import CommonCode.Lib.Bits
import CommonCode.Lib.Transition

/-!
# The file transfer

`send_file.c` reads a file in pieces of 1024000 bytes and sends each piece,
which may take several calls of `send`; `recv_file.c` writes what it receives
until the connection ends.  Each side is a state machine whose steps are its
calls of `send` and `recv`: between two calls a side runs on its own.

The two sides are joined by a connection that has been accepted: it holds the
bytes that `send` has taken and `recv` has not returned yet, in order, and it
ends once the sender has returned and all bytes have been received.  The
library functions `fread` and `fwrite` are taken to transfer all the bytes they
are asked for, as far as there are any.
-/

namespace CommonCode.Transfer

open CommonCode.Lib.Bits
open CommonCode.Lib.Transition

/-- The size of the two buffers. -/
abbrev bufferSize : Nat := 1024000

/-! ## The sender -/

/--
The variables of `send_file`, and what `fread` has not read yet.  In the state
of a call of `send`, `returned` is `none`.
-/
structure Sender where
  unread : List Byte
  buf : List Byte
  totalSendBytes : Nat
  readyToSendBytes : Nat
  returned : Option Int
deriving DecidableEq

/--
The result of `send`: it takes the bytes it is given as far as there is room,
or it fails with an error number.
-/
inductive SendResult where
  | takes (room : Nat)
  | fails (errno : Int)
deriving DecidableEq

/-- The condition of the outer loop, and the start of its body. -/
def Sender.read (sender : Sender) : Sender :=
  let piece := sender.unread.take bufferSize
  if piece.length > 0 then
    { unread := sender.unread.drop bufferSize
      buf := piece ++ sender.buf.drop piece.length
      totalSendBytes := 0
      readyToSendBytes := piece.length
      returned := none }
  else { sender with returned := some 0 }

/-- The condition of the inner loop. -/
def Sender.test (sender : Sender) : Sender :=
  if sender.readyToSendBytes ≠ 0 then sender else sender.read

/-- `send_file` up to the first call of `send`; `malloc` gives any content. -/
def Sender.start (file junk : List Byte) : Sender :=
  Sender.read
    { unread := file
      buf := junk
      totalSendBytes := 0
      readyToSendBytes := 0
      returned := none }

/--
From one call of `send` to the next: the bytes that the call takes, and the
state at the next call.  After an error the inner loop goes on, by `continue`
if `errno` is 11 and because no branch applies otherwise.
-/
def Sender.send (sender : Sender) : SendResult → List Byte × Sender
  | .takes room =>
      let ret := min room sender.readyToSendBytes
      let taken := (sender.buf.drop sender.totalSendBytes).take ret
      if ret = sender.readyToSendBytes then (taken, sender.read)
      else if ret > 0 then
        (taken,
          Sender.test
            { sender with
              totalSendBytes := sender.totalSendBytes + ret
              readyToSendBytes := sender.readyToSendBytes - ret })
      else (taken, sender.test)
  | .fails _ => ([], sender.test)

/-! ## The receiver -/

/--
The variables of `recv_file`, and what it has written.  In the state of a call
of `recv`, `returned` is `none`.
-/
structure Receiver where
  buf : List Byte
  written : List Byte
  returned : Option Int
deriving DecidableEq

/-- `recv_file` up to the first call of `recv`. -/
def Receiver.start (accepted : Bool) (junk : List Byte) : Receiver where
  buf := junk
  written := []
  returned := if accepted then none else some (-1)

/--
From one call of `recv` to the next.  `none` is an error; no bytes are the end
of the connection.
-/
def Receiver.receive (receiver : Receiver) : Option (List Byte) → Receiver
  | none => receiver
  | some bytes =>
      let buf := bytes ++ receiver.buf.drop bytes.length
      if bytes.length > 0 then
        { receiver with
          buf := buf
          written := receiver.written ++ buf.take bytes.length }
      else { receiver with returned := some 0 }

/-! ## The connection -/

/-- Both sides, and the bytes on the way between them. -/
structure System where
  sender : Sender
  channel : List Byte
  receiver : Receiver
deriving DecidableEq

/-- A connection that has been accepted. -/
def System.start (file sendJunk recvJunk : List Byte) : System where
  sender := Sender.start file sendJunk
  channel := []
  receiver := Receiver.start true recvJunk

/--
A call of `send` with its result, a call of `recv` that returns so many bytes,
one that fails, and one that reports the end of the connection.
-/
inductive Event where
  | send (result : SendResult)
  | receive (count : Nat)
  | failure
  | close
deriving DecidableEq

/-- The effect of a step; `none` if it cannot be taken. -/
def System.next (system : System) : Event → Option System
  | .send result =>
      if system.sender.returned = none then
        some
          { system with
            sender := (system.sender.send result).2
            channel := system.channel ++ (system.sender.send result).1 }
      else none
  | .receive count =>
      if system.receiver.returned = none ∧ 0 < count ∧
          count ≤ system.channel.length ∧ count ≤ bufferSize then
        some
          { system with
            channel := system.channel.drop count
            receiver :=
              system.receiver.receive (some (system.channel.take count)) }
      else none
  | .failure =>
      if system.receiver.returned = none then
        some { system with receiver := system.receiver.receive none }
      else none
  | .close =>
      if system.receiver.returned = none ∧ system.sender.returned ≠ none ∧
          system.channel = [] then
        some { system with receiver := system.receiver.receive (some []) }
      else none

/-- One step of one side. -/
def Step (before : System) (event : Event) (after : System) : Prop :=
  before.next event = some after

/-! ## What remains to be sent -/

/-- The bytes of the piece in `buf` that `send` has not taken yet. -/
def Sender.piece (sender : Sender) : List Byte :=
  (sender.buf.drop sender.totalSendBytes).take sender.readyToSendBytes

/-- The bytes of the file that `send` has not taken yet. -/
def Sender.remaining (sender : Sender) : List Byte :=
  match sender.returned with
  | none => sender.piece ++ sender.unread
  | some _ => []

/--
When `send` is called, its argument lies inside the buffer, and there is
something to send.
-/
structure Sender.Ready (sender : Sender) : Prop where
  inside :
    sender.totalSendBytes + sender.readyToSendBytes ≤ sender.buf.length
  positive : sender.returned = none → 0 < sender.readyToSendBytes

section Sending

variable {sender : Sender}

/-- A read moves the next piece of the file into the buffer. -/
theorem Sender.remaining_read (sender : Sender) :
    sender.read.remaining = sender.unread := by
  rw [Sender.read]
  split
  · simp only [Sender.remaining, Sender.piece, List.drop_zero,
      List.take_left, List.take_append_drop]
  · next empty =>
    have none : sender.unread = [] := by
      simpa [Nat.le_zero, List.take_eq_nil_iff] using empty
    rw [none]
    rfl

theorem Sender.ready_read
    (inside :
      sender.totalSendBytes + sender.readyToSendBytes ≤ sender.buf.length) :
    sender.read.Ready := by
  rw [Sender.read]
  split
  · next some =>
    refine ⟨?_, fun _ => some⟩
    change 0 + _ ≤ (_ ++ _ : List Byte).length
    rw [Nat.zero_add, List.length_append]
    exact Nat.le_add_right ..
  · exact ⟨inside, (by rintro ⟨⟩)⟩

/-- The inner loop goes on as long as there is something to send. -/
theorem Sender.test_of_pos (positive : 0 < sender.readyToSendBytes) :
    sender.test = sender :=
  if_pos (Nat.ne_of_gt positive)

/-- A call of `send` takes the next bytes, and nothing is skipped. -/
theorem Sender.Ready.send (ready : sender.Ready)
    (running : sender.returned = none) (result : SendResult) :
    (sender.send result).2.Ready ∧
      (sender.send result).1 ++ (sender.send result).2.remaining =
        sender.remaining := by
  have positive := ready.positive running
  have before : sender.remaining = sender.piece ++ sender.unread := by
    rw [Sender.remaining, running]
  cases result with
  | fails errno =>
      rw [Sender.send, Sender.test_of_pos positive]
      exact ⟨ready, rfl⟩
  | takes room =>
      rw [Sender.send]
      split
      · next all =>
        refine ⟨Sender.ready_read ready.inside, ?_⟩
        rw [Sender.remaining_read, before, all]
        rfl
      · next part =>
        have less : min room sender.readyToSendBytes < sender.readyToSendBytes :=
          Nat.lt_of_le_of_ne (Nat.min_le_right ..) part
        split
        · rw [Sender.test_of_pos (Nat.sub_pos_of_lt less)]
          refine ⟨⟨?_, fun _ => Nat.sub_pos_of_lt less⟩, ?_⟩
          · have inside := ready.inside
            dsimp only
            omega
          · rw [before, Sender.piece, Sender.remaining, running]
            dsimp only [Sender.piece]
            rw [← List.append_assoc, ← List.drop_drop, ← List.take_add,
              Nat.add_sub_of_le (Nat.le_of_lt less)]
        · next nothing =>
          have zero : min room sender.readyToSendBytes = 0 :=
            Nat.le_zero.mp (Nat.not_lt.mp nothing)
          rw [Sender.test_of_pos positive, zero]
          exact ⟨ready, rfl⟩

end Sending

/-! ## The whole transfer -/

/--
The file is what has been written, what is on the way and what remains to be
sent; the receiver returns only after everything has arrived.
-/
structure Tracked (file : List Byte) (system : System) : Prop where
  ready : system.sender.Ready
  stream :
    system.receiver.written ++ system.channel ++ system.sender.remaining =
      file
  finished :
    system.receiver.returned ≠ none →
      system.sender.returned ≠ none ∧ system.channel = []

theorem tracked_start (file sendJunk recvJunk : List Byte) :
    Tracked file (System.start file sendJunk recvJunk) where
  ready := Sender.ready_read (Nat.zero_le _)
  stream := Sender.remaining_read _
  finished returned := absurd rfl returned

theorem Tracked.step {file : List Byte} {before after : System}
    {event : Event} (tracked : Tracked file before)
    (taken : Step before event after) : Tracked file after := by
  rcases tracked with ⟨ready, stream, finished⟩
  cases event with
  | send result =>
      rw [Step, System.next] at taken
      split at taken
      · next running =>
        cases taken
        rcases ready.send running result with ⟨still, next⟩
        refine ⟨still, ?_, ?_⟩
        · rw [← stream, ← next]
          simp only [List.append_assoc]
        · intro returned
          exact absurd running (finished returned).1
      · cases taken
  | receive count =>
      rw [Step, System.next] at taken
      split at taken
      · next enabled =>
        rcases enabled with ⟨running, positive, available, -⟩
        cases taken
        have size : (before.channel.take count).length = count :=
          List.length_take_of_le available
        have received : before.receiver.receive
            (some (before.channel.take count)) =
              { before.receiver with
                buf :=
                  before.channel.take count ++ before.receiver.buf.drop count
                written :=
                  before.receiver.written ++ before.channel.take count } := by
          rw [Receiver.receive, size, if_pos positive,
            List.take_left' size]
        rw [received]
        refine ⟨ready, ?_, ?_⟩
        · rw [List.append_assoc before.receiver.written,
            List.take_append_drop]
          exact stream
        · intro returned
          exact absurd running returned
      · cases taken
  | failure =>
      rw [Step, System.next] at taken
      split at taken
      · cases taken
        exact ⟨ready, stream, finished⟩
      · cases taken
  | close =>
      rw [Step, System.next] at taken
      split at taken
      · next enabled =>
        cases taken
        exact ⟨ready, stream, fun _ => enabled.2⟩
      · cases taken

/--
If both sides return, the receiver has written exactly the bytes of the file,
for every file, all results of `send` and every way in which `recv` cuts the
stream.
-/
theorem written_eq_file {file sendJunk recvJunk : List Byte}
    {events : List Event} {last : System} {sent received : Int}
    (run : Run Step (System.start file sendJunk recvJunk) events last)
    (sends : last.sender.returned = some sent)
    (receives : last.receiver.returned = some received) :
    last.receiver.written = file := by
  have tracked : Tracked file last :=
    run.invariant (fun taken tracked => tracked.step taken)
      (tracked_start file sendJunk recvJunk)
  have arrived : last.channel = [] :=
    (tracked.finished (by rw [receives]; rintro ⟨⟩)).2
  have stream := tracked.stream
  rw [arrived, Sender.remaining, sends, List.append_nil] at stream
  rw [← stream]
  exact (List.append_nil _).symm

theorem written_eq_file_three_bytes :
    ∃ last, Run Step (System.start [1, 2, 3] [] [])
        [.send (.takes 1), .send (.fails 11), .receive 1, .failure,
          .send (.takes 5), .receive 1, .receive 1, .close] last ∧
      last.receiver.written = [1, 2, 3] := by
  have reached : ∃ last, Run Step (System.start [1, 2, 3] [] [])
        [.send (.takes 1), .send (.fails 11), .receive 1, .failure,
          .send (.takes 5), .receive 1, .receive 1, .close] last ∧
      last.sender.returned = some 0 ∧ last.receiver.returned = some 0 :=
    ⟨_, run_of_execute id rfl, rfl, rfl⟩
  rcases reached with ⟨last, run, sends, receives⟩
  exact ⟨last, run, written_eq_file run sends receives⟩

end CommonCode.Transfer
