import CommonCode.Ftps.Client

/-!
# Sessions on the control channel

A session is a sequence of calls of one client that has logged in.  The server
reads lines and answers every line with one reply, and a transfer command with
a preliminary reply and a final one after the data connection has been closed.
One read of the client takes one reply, the oldest one that it has not read; a
read that no reply is left for waits for ever.

The paths of the calls reach the channel as they are: one with a line feed
makes two commands of one, and one that does not fit its buffer loses the end
of its line or, in `FtpsChdir`, overruns the buffer.

`CloseFtpsDataConn` ends every transfer with `QUIT` and reads neither its reply
nor the final one of the transfer.  So a transfer has to be the last thing that
a session does.
-/

namespace CommonCode.Ftps

open CommonCode.Lib.Bits
open CommonCode.Lib.CString
open CommonCode.Lib.StateProgram

/-! ## The server -/

/-- A reply, with the number of the command that it answers. -/
structure Reply where
  command : Nat
  text : List Byte

/--
The control channel: the texts with which the server will answer, the bytes of
a line that has not ended, the number of lines so far, whether one of them was
`QUIT`, the replies that have not been read, the transfer command whose final
reply is still to come and whether the client waits for a reply that will not
come.  The records are, for every read, the command sent last and the command
that the reply belongs to, and the number of commands after `QUIT`.
-/
structure Session where
  answers : List (List Byte)
  line : List Byte
  sent : Nat
  quit : Bool
  pending : List Reply
  transfer : Option Nat
  waits : Bool
  reads : List (Nat × Nat)
  afterQuit : Nat

/-- After the login. -/
def Session.loggedIn : Session where
  answers := []
  line := []
  sent := 0
  quit := false
  pending := []
  transfer := none
  waits := false
  reads := []
  afterQuit := 0

/-- The name of a command. -/
def verb (cmd : List Byte) : List Byte := cmd.take 4

/-- `RETR`, `STOR` and `LIST` are transfer commands. -/
def isTransfer (cmd : List Byte) : Bool :=
  verb cmd ∈ [ascii "RETR", ascii "STOR", ascii "LIST"]

def isQuit (cmd : List Byte) : Bool := verb cmd = ascii "QUIT"

/-- The server has read a whole line and answers it. -/
def Session.command (session : Session) (cmd : List Byte) : Session :=
  let answer := session.answers.headD []
  let text := if isTransfer cmd then char '1' :: answer else answer
  { session with
    answers := session.answers.tail
    line := []
    sent := session.sent + 1
    quit := session.quit || isQuit cmd
    pending := session.pending ++ [⟨session.sent + 1, text⟩]
    transfer :=
      if isTransfer cmd then some (session.sent + 1) else session.transfer
    afterQuit :=
      if session.quit then session.afterQuit + 1 else session.afterQuit }

/-- One byte on the control channel; a line feed ends the line. -/
def Session.byte (session : Session) (byte : Byte) : Session :=
  if byte = char '\n' then session.command session.line
  else { session with line := session.line ++ [byte] }

/-- The client sends bytes, unless it waits for a reply. -/
def Session.send (session : Session) (bytes : List Byte) : Session :=
  if session.waits then session else bytes.foldl Session.byte session

/-- The command that the client has sent last, whole or in part. -/
def Session.last (session : Session) : Nat :=
  if session.line = [] then session.sent else session.sent + 1

/-- The client reads a reply. -/
def Session.receive (session : Session) : Option (List Byte) × Session :=
  match session.waits, session.pending with
  | false, reply :: pending =>
      (some reply.text,
        { session with
          pending := pending
          reads := session.reads ++ [(session.last, reply.command)] })
  | _, _ => (none, { session with waits := true })

/-- The data connection is closed, and the server ends the transfer. -/
def Session.closeData (session : Session) : Session :=
  match session.transfer with
  | none => session
  | some command =>
      { session with
        pending := session.pending ++ [⟨command, ascii "226 Done."⟩]
        transfer := none }

/-! ## The calls -/

/-- A call of the client. -/
inductive Request where
  | get (localpath : Option (List Byte)) (remotepath : List Byte)
  | put (remotepath : List Byte) (localpath : Option (List Byte))
  | dir (localpath : Option (List Byte)) (remotepath : List Byte)
  | chdir (path : Option (List Byte))
  | size (path : List Byte)

/--
A call, the texts with which the server answers its commands, and the results
of what it calls besides the control channel.
-/
structure Call where
  request : Request
  answers : List (List Byte)
  malloc : Bool
  fopen : Bool
  openConnectByHost : List Byte → Int
  sslNew : Bool
  sslConnect : Int
  scan : List Byte → Option (Nat × Nat)

def Call.operations (call : Call) : Operations Session where
  enSend cmd := fun session => (0, session.send cmd)
  enRecv _ := fun session => session.receive
  malloc := return call.malloc
  fopen _ := return call.fopen
  openConnectByHost text := return call.openConnectByHost text
  sslNew := return call.sslNew
  sslConnect := return call.sslConnect
  accessLoop := return ()
  uploadLoop := return ()
  closeData := fun session => ((), session.closeData)

/-- The function of the client. -/
def Call.program (call : Call) : Except Fault (StateM Session Unit) :=
  match call.request with
  | .get localpath remotepath =>
      .ok do
        let _ ← ftpsGet call.operations localpath remotepath
  | .put remotepath localpath =>
      .ok do
        let _ ← ftpsPut call.operations remotepath localpath
  | .dir localpath remotepath =>
      .ok do
        let _ ← ftpsDir call.operations localpath remotepath
  | .chdir path => do
      let chdir ← ftpsChdir call.operations path
      .ok do
        let _ ← chdir
  | .size path =>
      .ok do
        let _ ← ftpsSize call.operations call.scan path

/-- The session after a call. -/
def Session.perform (session : Session) (call : Call) :
    Except Fault Session := do
  let program ← call.program
  return (program { session with answers := call.answers }).2

/-! ## The discipline -/

/--
Every reply that the client has read belongs to the command that it had sent
last, and it has sent no command after `QUIT`.
-/
structure Session.Disciplined (session : Session) : Prop where
  reads : ∀ read ∈ session.reads, read.1 = read.2
  quit : session.afterQuit = 0

/-- A path without a line end that fits the buffer of its command. -/
def Sendable (size : Nat) (verb : String) (path : List Byte) : Prop :=
  char '\r' ∉ path ∧ char '\n' ∉ path ∧
    (ascii verb ++ path ++ ascii "\r\n").length < size

instance (size : Nat) (verb : String) (path : List Byte) :
    Decidable (Sendable size verb path) :=
  inferInstanceAs (Decidable (_ ∧ _ ∧ _))

/-- The path of a call makes one whole command. -/
def Request.WellFormed : Request → Prop
  | .get _ path => Sendable 256 "RETR " path
  | .put path _ => Sendable 256 "STOR " path
  | .dir _ path => Sendable 1024 "LIST -aL " path
  | .chdir none => True
  | .chdir (some path) => Sendable 256 "CWD " path
  | .size path => Sendable 256 "SIZE " path

/-- The call sends commands. -/
def Call.Sends (call : Call) : Prop :=
  match call.request with
  | .chdir none => False
  | .chdir (some _) => True
  | .size _ => True
  | _ => call.malloc = true ∧ call.fopen = true

/-- The text of the server's answer to the first command of the call. -/
def Call.firstText (call : Call) : List Byte :=
  replyText (some (call.answers.headD []))

/-- The first reply lets the call open its data connection. -/
def Call.Opens (call : Call) (text : List Byte) : Prop :=
  strchr text (char '(') ≠ none ∧ 0 ≤ call.openConnectByHost text

/-- The call gets to its transfer command. -/
def Call.Transfers (call : Call) : Prop :=
  match call.request with
  | .chdir _ => False
  | .size _ => False
  | _ =>
      (call.malloc = true ∧ call.fopen = true) ∧
        call.Opens call.firstText

/-! ## The records grow -/

/-- The records of the second session extend those of the first. -/
structure Later (first second : Session) : Prop where
  reads : first.reads <+: second.reads
  quit : first.afterQuit ≤ second.afterQuit

instance : IsPreorder Session Later where
  refl _ := ⟨List.prefix_rfl, Nat.le_refl _⟩
  trans _ _ _ head tail :=
    ⟨head.reads.trans tail.reads, head.quit.trans tail.quit⟩

/-- A record of a violation stays. -/
theorem Later.disciplined {first second : Session}
    (later : Later first second) (disciplined : second.Disciplined) :
    first.Disciplined where
  reads read member := disciplined.reads read (later.reads.subset member)
  quit := Nat.le_zero.mp (disciplined.quit ▸ later.quit)

theorem later_byte (session : Session) (byte : Byte) :
    Later session (session.byte byte) := by
  rw [Session.byte]
  split
  · refine ⟨List.prefix_rfl, ?_⟩
    rw [Session.command]
    dsimp only
    split
    · exact Nat.le_succ _
    · exact Nat.le_refl _
  · exact ⟨List.prefix_rfl, Nat.le_refl _⟩

theorem later_send (session : Session) (bytes : List Byte) :
    Later session (session.send bytes) := by
  have fold : Later session (bytes.foldl Session.byte session) := by
    induction bytes generalizing session with
    | nil => exact refl session
    | cons byte bytes ih =>
        exact Trans.trans (later_byte session byte) (ih _)
  rw [Session.send]
  split
  · exact refl session
  · exact fold

theorem later_receive (session : Session) :
    Later session session.receive.2 := by
  rw [Session.receive]
  split
  · exact ⟨List.prefix_append .., Nat.le_refl _⟩
  · exact ⟨List.prefix_rfl, Nat.le_refl _⟩

theorem later_closeData (session : Session) :
    Later session session.closeData := by
  rw [Session.closeData]
  split
  · exact refl session
  · exact ⟨List.prefix_rfl, Nat.le_refl _⟩

theorem keep_later (call : Call) : call.operations.Keep Later where
  enSend cmd session := later_send session cmd
  enRecv _ session := later_receive session
  malloc := Keeps.pure _
  fopen _ := Keeps.pure _
  openConnectByHost _ := Keeps.pure _
  sslNew := Keeps.pure _
  sslConnect := Keeps.pure _
  accessLoop := Keeps.pure _
  uploadLoop := Keeps.pure _
  closeData session := later_closeData session

/-! ## Exchanges -/

/-- Nothing is left to be read, and `QUIT` has not been sent. -/
structure Clean (session : Session) : Prop where
  disciplined : session.Disciplined
  line : session.line = []
  pending : session.pending = []
  transfer : session.transfer = none
  waits : session.waits = false
  quit : session.quit = false

/-- The oldest reply that is left belongs to a command of the past. -/
structure Spent (session : Session) : Prop where
  disciplined : session.Disciplined
  line : session.line = []
  waits : session.waits = false
  pending :
    ∃ reply rest, session.pending = reply :: rest ∧
      reply.command ≤ session.sent

/-- The session after a command and its reply. -/
def Session.exchanged (session : Session) : Session :=
  { session with
    answers := session.answers.tail
    sent := session.sent + 1
    reads := session.reads ++ [(session.sent + 1, session.sent + 1)] }

/-- The session after a transfer command and its preliminary reply. -/
def Session.opened (session : Session) : Session :=
  { session.exchanged with transfer := some (session.sent + 1) }

section Exchanges

variable {session : Session} {cmd : List Byte}

/-- A whole line on a channel without the start of another one. -/
theorem Session.send_line (free : session.waits = false)
    (empty : session.line = []) (plain : char '\n' ∉ cmd) :
    session.send (cmd ++ [char '\n']) = session.command cmd := by
  have fold (bytes : List Byte) (plain : char '\n' ∉ bytes)
      (session : Session) :
      bytes.foldl Session.byte session =
        { session with line := session.line ++ bytes } := by
    induction bytes generalizing session with
    | nil =>
        rw [List.append_nil]
        rfl
    | cons byte bytes ih =>
        rw [List.mem_cons, not_or] at plain
        rw [List.foldl_cons, Session.byte, if_neg (Ne.symm plain.1),
          ih plain.2, List.append_assoc]
        rfl
  rw [Session.send, free, List.foldl_append, fold cmd plain, empty]
  simp [Session.byte, Session.command]

theorem Session.Disciplined.exchanged (disciplined : session.Disciplined) :
    session.exchanged.Disciplined where
  reads read member := by
    rcases List.mem_append.mp member with old | new
    · exact disciplined.reads read old
    · rw [List.mem_singleton.mp new]
  quit := disciplined.quit

theorem Clean.exchanged (clean : Clean session) : Clean session.exchanged where
  disciplined := clean.disciplined.exchanged
  line := clean.line
  pending := clean.pending
  transfer := clean.transfer
  waits := clean.waits
  quit := clean.quit

/-- A command that is neither a transfer nor `QUIT` gets its own reply. -/
theorem Clean.receive_send (clean : Clean session)
    (plain : char '\n' ∉ cmd) (still : isTransfer cmd = false)
    (stays : isQuit cmd = false) :
    (session.send (cmd ++ [char '\n'])).receive =
      (some (session.answers.headD []), session.exchanged) := by
  rw [Session.send_line clean.waits clean.line plain]
  rcases session with
    ⟨answers, line, sent, quit, pending, transfer, waits, reads, late⟩
  rcases clean with ⟨-, rfl, rfl, rfl, rfl, rfl⟩
  simp [Session.command, Session.receive, Session.exchanged, Session.last,
    still, stays]

/-- A transfer command gets its preliminary reply. -/
theorem Clean.receive_send_transfer (clean : Clean session)
    (plain : char '\n' ∉ cmd) (moves : isTransfer cmd = true)
    (stays : isQuit cmd = false) :
    (session.send (cmd ++ [char '\n'])).receive =
      (some (char '1' :: session.answers.headD []), session.opened) := by
  rw [Session.send_line clean.waits clean.line plain]
  rcases session with
    ⟨answers, line, sent, quit, pending, transfer, waits, reads, late⟩
  rcases clean with ⟨-, rfl, rfl, rfl, rfl, rfl⟩
  simp [Session.command, Session.receive, Session.opened, Session.exchanged,
    Session.last, moves, stays]

/-- A transfer that is given up leaves its final reply. -/
theorem Clean.spent_closeData (clean : Clean session) :
    Spent session.opened.closeData where
  disciplined := ⟨clean.disciplined.exchanged.reads, clean.disciplined.quit⟩
  line := clean.line
  waits := clean.waits
  pending :=
    ⟨_, [], congrArg (· ++ [_]) clean.pending, Nat.le_refl _⟩

/-- A transfer that is completed leaves the reply to `QUIT` and its own. -/
theorem Clean.spent_closeFtpsDataConn (clean : Clean session) :
    Spent (session.opened.send quitCmd).closeData := by
  have sent :
      session.opened.send quitCmd = session.opened.command (ascii "QUIT\r") :=
    @Session.send_line session.opened _ clean.waits clean.line
      (by decide : char '\n' ∉ ascii "QUIT\r")
  have closed : (session.opened.send quitCmd).closeData =
      { session.opened with
        answers := session.opened.answers.tail
        line := []
        sent := session.sent + 2
        quit := true
        pending :=
          [⟨session.sent + 2, session.opened.answers.headD []⟩,
            ⟨session.sent + 1, ascii "226 Done."⟩]
        transfer := none } := by
    rw [sent]
    rcases session with
      ⟨answers, line, sent, quit, pending, transfer, waits, reads, late⟩
    rcases clean with ⟨-, rfl, rfl, rfl, rfl, rfl⟩
    rfl
  rw [closed]
  constructor
  · exact ⟨clean.disciplined.exchanged.reads, clean.disciplined.quit⟩
  · rfl
  · exact clean.waits
  · exact ⟨_, _, rfl, Nat.le_refl _⟩

/-- After a transfer every further exchange reads a reply of the past. -/
theorem Spent.not_disciplined (spent : Spent session)
    (plain : char '\n' ∉ cmd) {after : Session}
    (later : Later (session.send (cmd ++ [char '\n'])).receive.2 after) :
    ¬ after.Disciplined := by
  intro disciplined
  rcases spent.pending with ⟨reply, rest, pending, old⟩
  rw [Session.send_line spent.waits spent.line plain] at later
  have kept := (later.disciplined disciplined).reads
    (session.sent + 1, reply.command) (by
      simp [Session.command, Session.receive, Session.last, pending,
        spent.waits])
  dsimp only at kept
  omega

end Exchanges

/-! ## The data connection -/

section Calls

variable (call : Call) {session : Session}

theorem Clean.sock_run (clean : Clean session) {text : List Byte}
    (answer : replyText (some (session.answers.headD [])) = text) :
    (call.Opens text ∧
      ftpsOpenPasvSockConn call.operations session =
        (0, session.exchanged)) ∨
    (¬ call.Opens text ∧
      ftpsOpenPasvSockConn call.operations session =
        (-1, session.exchanged)) := by
  have exchange :
      (session.send pasvCmd).receive =
        (some (session.answers.headD []), session.exchanged) :=
    clean.receive_send (by decide : char '\n' ∉ ascii "PASV\r") rfl rfl
  simp only [ftpsOpenPasvSockConn, Call.operations, bind_run, exchange,
    answer]
  cases found : strchr text (char '(') with
  | none => exact Or.inr ⟨fun opens => opens.1 found, rfl⟩
  | some position =>
      by_cases failed : call.openConnectByHost text < 0
      · refine Or.inr ⟨fun opens => ?_, ?_⟩
        · exact absurd opens.2 (Int.not_le.mpr failed)
        · simp [bind_run, pure_run, failed]
      · refine Or.inl ⟨⟨?_, Int.not_lt.mp failed⟩, ?_⟩
        · rw [found]
          exact Option.some_ne_none position
        · simp [bind_run, pure_run, failed]

/-- A data connection that does not open ends the call after one exchange. -/
theorem Clean.dataConn_closed (clean : Clean session) (cmd : List Byte)
    (closed : ¬ call.Opens (replyText (some (session.answers.headD [])))) :
    ftpsOpenPasvDataConn call.operations cmd session =
      (-1, session.exchanged) := by
  rcases clean.sock_run call rfl with ⟨opens, -⟩ | ⟨-, sock⟩
  · exact absurd opens closed
  · simp [ftpsOpenPasvDataConn, bind_run, pure_run, sock]

/-- A data connection that opens is followed by two more exchanges. -/
theorem Clean.dataConn_opened (clean : Clean session) {cmd : List Byte}
    (plain : char '\n' ∉ cmd) (moves : isTransfer cmd = true)
    (stays : isQuit cmd = false)
    (opens : call.Opens (replyText (some (session.answers.headD [])))) :
    ftpsOpenPasvDataConn call.operations (cmd ++ [char '\n']) session =
        (0, session.exchanged.exchanged.opened) ∨
      ftpsOpenPasvDataConn call.operations (cmd ++ [char '\n']) session =
        (-1, session.exchanged.exchanged.opened.closeData) := by
  have sock : ftpsOpenPasvSockConn call.operations session =
      (0, session.exchanged) := by
    rcases clean.sock_run call rfl with ⟨-, sock⟩ | ⟨closed, -⟩
    · exact sock
    · exact absurd opens closed
  have image :
      (session.exchanged.send typeICmd).receive =
        (some (session.exchanged.answers.headD []),
          session.exchanged.exchanged) :=
    clean.exchanged.receive_send (by decide : char '\n' ∉ ascii "TYPE I\r")
      rfl rfl
  have transfer :=
    clean.exchanged.exchanged.receive_send_transfer plain moves stays
  have once (session : Session) :
      session.closeData.closeData = session.closeData := by
    rcases session with
      ⟨answers, line, sent, quit, pending, transfer, waits, reads, late⟩
    cases transfer <;> rfl
  simp only [ftpsOpenPasvDataConn, bind_run, sock]
  simp only [ne_eq, not_true_eq_false, if_false, printResp, bind_run,
    pure_run, Call.operations, image, transfer]
  have accepted (answer : List Byte) :
      refused (some (char '1' :: answer)) = false := rfl
  simp only [accepted, ftpsOpenPasvSslConn]
  cases call.sslNew with
  | false => exact Or.inr (congrArg (Prod.mk (-1)) (once _))
  | true =>
      by_cases connected : call.sslConnect = 1
      · left
        simp [bind_run, pure_run, connected]
      · right
        simp [bind_run, pure_run, connected]
        rfl

/-! ## What a call does to a session -/

/--
The program leaves the session alone or sends commands.  When it is the first
to do so, it ends clean, or, after a transfer, with replies left over; when
replies are left over, it reads one of them.
-/
structure Follows {α : Type} (sends : Prop) (transfers : List Byte → Prop)
    (program : StateM Session α) : Prop where
  idle : ¬ sends → ∀ session, (program session).2 = session
  clean :
    ∀ session, Clean session →
      ¬ transfers (replyText (some (session.answers.headD []))) →
      Clean (program session).2
  spent :
    ∀ session, Clean session →
      transfers (replyText (some (session.answers.headD []))) →
      Spent (program session).2
  late :
    sends → ∀ session, Spent session → ¬ (program session).2.Disciplined
  later : Keeps Later program

/-- What only computes the result changes nothing. -/
theorem Follows.bind {α β : Type} {sends : Prop}
    {transfers : List Byte → Prop} {program : StateM Session α}
    (follows : Follows sends transfers program)
    {result : α → StateM Session β}
    (unchanged : ∀ value session, (result value session).2 = session) :
    Follows sends transfers (program >>= result) := by
  have same (session : Session) :
      ((program >>= result) session).2 = (program session).2 :=
    unchanged _ _
  constructor
  · intro stays session
    rw [same, follows.idle stays]
  · intro session clean stays
    rw [same]
    exact follows.clean session clean stays
  · intro session clean moves
    rw [same]
    exact follows.spent session clean moves
  · intro moves session spent
    rw [same]
    exact follows.late moves session spent
  · intro session
    rw [same]
    exact follows.later session

/-- Both data connections. -/
theorem follows_ftpsDataByPasvMode (localpath : Option (List Byte))
    {cmd line : List Byte} (whole : cmd = line ++ [char '\n'])
    (plain : char '\n' ∉ line) (moves : isTransfer line = true)
    (stays : isQuit line = false) :
    Follows (call.malloc = true ∧ call.fopen = true)
      (fun text =>
        (call.malloc = true ∧ call.fopen = true) ∧ call.Opens text)
      (ftpsDataByPasvMode call.operations (return ()) localpath cmd) := by
  subst whole
  generalize shape : line ++ [char '\n'] = cmd
  have later : Keeps Later
      (ftpsDataByPasvMode call.operations (return ()) localpath cmd) :=
    (keep_later call).ftpsDataByPasvMode (Keeps.pure _) localpath cmd
  by_cases ready : call.malloc = true ∧ call.fopen = true
  · have run (loop : StateM Session Unit) :
        ftpsDataByPasvMode call.operations loop localpath cmd =
          ftpsOpenPasvDataConn call.operations cmd >>= fun failed =>
            if failed ≠ 0 then return -1
            else do
              loop
              let _ ← closeFtpsDataConn call.operations
              return 0 := by
      simp [ftpsDataByPasvMode, Call.operations, ready]
    refine ⟨fun idle => absurd ready idle, ?_, ?_, ?_, later⟩
    · intro session clean closed
      rw [run, bind_run, clean.dataConn_closed call cmd
        fun opens => closed ⟨ready, opens⟩]
      exact clean.exchanged
    · intro session clean transfers
      rcases shape ▸ clean.dataConn_opened call plain moves stays transfers.2
        with opened | given
      · rw [run, bind_run, opened]
        exact clean.exchanged.exchanged.spent_closeFtpsDataConn
      · rw [run, bind_run, given]
        exact clean.exchanged.exchanged.spent_closeData
    · intro _ session spent
      have tail : Extends Later (ftpsOpenPasvDataConn call.operations cmd)
          (ftpsDataByPasvMode call.operations (return ()) localpath
            cmd) := by
        rw [run]
        exact Extends.bind
          ((keep_later call).loop_closeFtpsDataConn (Keeps.pure ()))
      exact spent.not_disciplined (by decide : char '\n' ∉ ascii "PASV\r")
        ((keep_later call).ftpsOpenPasvSockConn_of_exchange.trans
          (((keep_later call).ftpsOpenPasvDataConn_of_sockConn cmd).trans
            tail) session)
  · have run (session : Session) :
        (ftpsDataByPasvMode call.operations (return ()) localpath cmd
          session).2 = session := by
      rcases Classical.not_and_iff_not_or_not.mp ready with fails | fails
      · simp [ftpsDataByPasvMode, Call.operations, bind_run, pure_run, fails]
      · cases malloc : call.malloc <;>
        simp [ftpsDataByPasvMode, Call.operations, bind_run, pure_run, fails,
          malloc]
    refine ⟨fun _ => run, ?_, ?_, fun sends => absurd sends ready, later⟩
    · intro session clean _
      rw [run]
      exact clean
    · intro session _ transfers
      exact absurd transfers.1 ready

theorem later_exchange (session : Session) (cmd : List Byte) :
    Later session (session.send cmd).receive.2 :=
  Trans.trans (later_send session cmd) (later_receive _)

/-- The end of a line, of which the server sees the line feed. -/
theorem append_line_end (front : List Byte) :
    front ++ ascii "\r\n" = (front ++ ascii "\r") ++ [char '\n'] := by
  rw [List.append_assoc]
  rfl

/-- A path that can be sent makes a whole line. -/
theorem command_of_sendable {size : Nat} {verb : String} {path : List Byte}
    (sendable : Sendable size verb path) :
    command size verb path =
      (ascii verb ++ path ++ ascii "\r") ++ [char '\n'] := by
  have fits := sendable.2.2
  rw [command, List.take_of_length_le (by omega), append_line_end]

theorem Sendable.line {size : Nat} {verb : String} {path : List Byte}
    (sendable : Sendable size verb path) (plain : char '\n' ∉ ascii verb) :
    char '\n' ∉ ascii verb ++ path ++ ascii "\r" := by
  rw [List.mem_append, List.mem_append, not_or, not_or]
  exact ⟨⟨plain, sendable.2.1⟩, by decide⟩

/-- A call that transfers data, with the result that it returns. -/
theorem follows_transfer {size : Nat} {verb : String} {path : List Byte}
    (sendable : Sendable size verb path) (plain : char '\n' ∉ ascii verb)
    (moves : isTransfer (ascii verb ++ path ++ ascii "\r") = true)
    (stays : isQuit (ascii verb ++ path ++ ascii "\r") = false)
    (localpath : Option (List Byte)) :
    Follows (call.malloc = true ∧ call.fopen = true)
      (fun text =>
        (call.malloc = true ∧ call.fopen = true) ∧ call.Opens text)
      (do
        let failed ← ftpsDataByPasvMode call.operations (return ()) localpath
          (command size verb path)
        if failed ≠ 0 then return (-1 : Int) else return 0) := by
  refine (follows_ftpsDataByPasvMode call localpath
    (command_of_sendable sendable) (sendable.line plain) moves stays).bind
    fun failed session => ?_
  split <;> rfl

theorem follows_ftpsChdir {path : List Byte}
    (sendable : Sendable 256 "CWD " path) :
    ∃ program,
      ftpsChdir call.operations (some path) = .ok program ∧
        Follows True (fun _ => False) program := by
  have fits :
      ¬ 256 < (ascii "CWD " ++ path ++ ascii "\r\n").length + 1 :=
    Nat.not_lt.mpr sendable.2.2
  have plain := sendable.line (by decide)
  obtain ⟨chdir, found, run⟩ :
      ∃ chdir, ftpsChdir call.operations (some path) = .ok chdir ∧
        ∀ session, (chdir session).2 =
          (session.send
            ((ascii "CWD " ++ path ++ ascii "\r") ++
              [char '\n'])).receive.2 := by
    refine ⟨_, if_neg fits, fun session => ?_⟩
    rw [append_line_end]
    simp only [Call.operations, bind_run, Int.lt_irrefl, if_false]
    rcases (session.send _).receive with ⟨_ | reply, after⟩
    · rfl
    · dsimp only
      cases refused (some reply) <;> rfl
  refine ⟨chdir, found, ?_⟩
  refine ⟨fun idle => absurd trivial idle, ?_, fun _ _ => False.elim, ?_, ?_⟩
  · intro session clean _
    rw [run, clean.receive_send plain rfl rfl]
    exact clean.exchanged
  · intro _ session spent
    rw [run]
    exact spent.not_disciplined plain (refl _)
  · intro session
    rw [run]
    exact later_exchange session _

theorem follows_ftpsSize {path : List Byte}
    (sendable : Sendable 256 "SIZE " path) :
    Follows True (fun _ => False)
      (ftpsSize call.operations call.scan path) := by
  have plain := sendable.line (by decide)
  have image : char '\n' ∉ ascii "TYPE A\r" := by decide
  have run (session : Session) :
      (ftpsSize call.operations call.scan path session).2 =
        ((session.send (ascii "TYPE A\r" ++ [char '\n'])).receive.2.send
          ((ascii "SIZE " ++ path ++ ascii "\r") ++
            [char '\n'])).receive.2 := by
    rw [← command_of_sendable sendable]
    simp only [ftpsSize, Call.operations, bind_run]
    cases call.scan _ <;> rfl
  refine ⟨fun idle => absurd trivial idle, ?_, fun _ _ => False.elim, ?_, ?_⟩
  · intro session clean _
    rw [run, clean.receive_send image rfl rfl,
      clean.exchanged.receive_send plain rfl rfl]
    exact clean.exchanged.exchanged
  · intro _ session spent
    rw [run]
    exact spent.not_disciplined image (later_exchange _ _)
  · intro session
    rw [run]
    exact Trans.trans (later_exchange session _) (later_exchange _ _)

/-- Every call. -/
theorem follows_program (wellFormed : call.request.WellFormed) :
    ∃ program transfers,
      call.program = .ok program ∧
        Follows call.Sends transfers program ∧
        (transfers call.firstText ↔ call.Transfers) := by
  rcases call with ⟨request, answers, malloc, fopen, host, new, connect, scan⟩
  cases request with
  | get localpath remotepath =>
      exact ⟨_, _, rfl,
        (follows_transfer _ wellFormed (by decide) rfl rfl localpath).bind
          fun _ _ => rfl, Iff.rfl⟩
  | put remotepath localpath =>
      exact ⟨_, _, rfl,
        (follows_transfer _ wellFormed (by decide) rfl rfl localpath).bind
          fun _ _ => rfl, Iff.rfl⟩
  | dir localpath remotepath =>
      exact ⟨_, _, rfl,
        (follows_transfer _ wellFormed (by decide) rfl rfl localpath).bind
          fun _ _ => rfl, Iff.rfl⟩
  | chdir path =>
      cases path with
      | none =>
          refine ⟨_, fun _ => False, rfl, ⟨fun _ _ => rfl,
            fun _ clean _ => clean, fun _ _ => False.elim,
            fun sends => sends.elim, ?_⟩, Iff.rfl⟩
          exact fun session => refl session
      | some path =>
          rcases follows_ftpsChdir
            ⟨.chdir (some path), answers, malloc, fopen, host, new, connect,
              scan⟩ wellFormed with ⟨program, chdir, follows⟩
          refine ⟨program >>= fun _ => pure (), _, ?_,
            follows.bind fun _ _ => rfl, Iff.rfl⟩
          simp only [Call.program, chdir]
          rfl
  | size path =>
      exact ⟨_, _, rfl,
        (follows_ftpsSize _ wellFormed).bind fun _ _ => rfl, Iff.rfl⟩

end Calls

/-! ## Sessions -/

section Sessions

variable {session : Session} {call : Call} {calls : List Call}

theorem Clean.answered (clean : Clean session) (answers : List (List Byte)) :
    Clean { session with answers := answers } :=
  ⟨⟨clean.disciplined.reads, clean.disciplined.quit⟩, clean.line,
    clean.pending, clean.transfer, clean.waits, clean.quit⟩

theorem Spent.answered (spent : Spent session) (answers : List (List Byte)) :
    Spent { session with answers := answers } :=
  ⟨⟨spent.disciplined.reads, spent.disciplined.quit⟩, spent.line,
    spent.waits, spent.pending⟩

/-- A call whose path is one whole command ends. -/
theorem perform_eq_ok (session : Session)
    (wellFormed : call.request.WellFormed) :
    ∃ after, session.perform call = .ok after ∧ Later session after ∧
      (Clean session → ¬ call.Transfers → Clean after) ∧
      (Clean session → call.Transfers → Spent after) ∧
      (Spent session → ¬ call.Sends → Spent after) ∧
      (Spent session → call.Sends → ¬ after.Disciplined) := by
  rcases follows_program call wellFormed
    with ⟨program, transfers, run, follows, same⟩
  have start : Later session { session with answers := call.answers } :=
    ⟨List.prefix_rfl, Nat.le_refl _⟩
  refine ⟨(program { session with answers := call.answers }).2, ?_,
    Trans.trans start (follows.later _), ?_, ?_, ?_, ?_⟩
  · rw [Session.perform, run]
    rfl
  · exact fun clean stays =>
      follows.clean _ (clean.answered _) fun moves => stays (same.mp moves)
  · exact fun clean moves =>
      follows.spent _ (clean.answered _) (same.mpr moves)
  · intro spent stays
    rw [follows.idle stays]
    exact spent.answered _
  · exact fun spent sends => follows.late sends _ (spent.answered _)

/-- The session keeps the discipline through some calls. -/
def Session.DisciplinedRun (session : Session) (calls : List Call) : Prop :=
  ∃ after, calls.foldlM Session.perform session = .ok after ∧
    after.Disciplined

theorem disciplinedRun_nil :
    session.DisciplinedRun [] ↔ session.Disciplined :=
  ⟨fun ⟨_, run, disciplined⟩ => Except.ok.inj run ▸ disciplined,
    fun disciplined => ⟨session, rfl, disciplined⟩⟩

theorem disciplinedRun_cons {after : Session}
    (performed : session.perform call = .ok after) :
    session.DisciplinedRun (call :: calls) ↔ after.DisciplinedRun calls := by
  rw [Session.DisciplinedRun, List.foldlM_cons, performed]
  rfl

/-- A run that keeps the discipline starts in a session that kept it. -/
theorem Session.DisciplinedRun.start
    (run : session.DisciplinedRun calls)
    (wellFormed : ∀ call ∈ calls, call.request.WellFormed) :
    session.Disciplined := by
  induction calls generalizing session with
  | nil => exact disciplinedRun_nil.mp run
  | cons call calls ih =>
      rw [List.forall_mem_cons] at wellFormed
      rcases perform_eq_ok session wellFormed.1
        with ⟨after, performed, later, -⟩
      exact later.disciplined
        (ih ((disciplinedRun_cons performed).mp run) wellFormed.2)

/-- After a transfer nothing may be sent. -/
theorem Spent.disciplinedRun (spent : Spent session)
    (wellFormed : ∀ call ∈ calls, call.request.WellFormed) :
    session.DisciplinedRun calls ↔ ∀ call ∈ calls, ¬ call.Sends := by
  induction calls generalizing session with
  | nil => simp [disciplinedRun_nil, spent.disciplined]
  | cons call calls ih =>
      rw [List.forall_mem_cons] at wellFormed
      rcases perform_eq_ok session wellFormed.1
        with ⟨after, performed, -, -, -, silent, broken⟩
      rw [disciplinedRun_cons performed, List.forall_mem_cons]
      by_cases sends : call.Sends
      · constructor
        · exact fun run => absurd (run.start wellFormed.2) (broken spent sends)
        · exact fun silent => absurd sends silent.1
      · rw [ih (silent spent sends) wellFormed.2]
        exact (and_iff_right sends).symm

/-- Before it everything may be. -/
theorem Clean.disciplinedRun (clean : Clean session)
    (wellFormed : ∀ call ∈ calls, call.request.WellFormed) :
    session.DisciplinedRun calls ↔
      calls.Pairwise fun first second =>
        first.Transfers → ¬ second.Sends := by
  induction calls generalizing session with
  | nil => simp [disciplinedRun_nil, clean.disciplined]
  | cons call calls ih =>
      rw [List.forall_mem_cons] at wellFormed
      rcases perform_eq_ok session wellFormed.1
        with ⟨after, performed, -, still, spends, -⟩
      rw [disciplinedRun_cons performed, List.pairwise_cons]
      by_cases moves : call.Transfers
      · rw [(spends clean moves).disciplinedRun wellFormed.2]
        constructor
        · intro silent
          refine ⟨fun second member _ => silent second member, ?_⟩
          exact List.pairwise_of_forall_mem_list
            fun _ _ second member _ => silent second member
        · exact fun pairs second member => pairs.1 second member moves
      · rw [ih (still clean moves) wellFormed.2]
        exact (and_iff_right fun _ _ first => absurd first moves).symm

end Sessions

theorem clean_loggedIn : Clean Session.loggedIn :=
  ⟨⟨by simp [Session.loggedIn], rfl⟩, rfl, rfl, rfl, rfl, rfl⟩

/--
A session of calls whose paths have no line ends and fit their buffers keeps
the discipline exactly if nothing is sent in it after a call that got to its
transfer command.
-/
theorem disciplined_iff_transfer_last (calls : List Call)
    (wellFormed : ∀ call ∈ calls, call.request.WellFormed) :
    Session.loggedIn.DisciplinedRun calls ↔
      calls.Pairwise fun first second =>
        first.Transfers → ¬ second.Sends :=
  clean_loggedIn.disciplinedRun wellFormed

/-- A call to a server that answers as expected. -/
def callTo (request : Request) (answers : List (List Byte)) : Call where
  request := request
  answers := answers
  malloc := true
  fopen := true
  openConnectByHost _ := 3
  sslNew := true
  sslConnect := 1
  scan _ := none

/-- `FtpsGet` of a file. -/
def getLog : Call :=
  callTo (.get none (ascii "log"))
    [ascii "227 Entering Passive Mode (10,0,0,1,4,1)."]

/-- `FtpsChdir` to a directory. -/
def chdirTo (path : List Byte) : Call :=
  callTo (.chdir (some path)) [ascii "250 Ok."]

/-- `FtpsChdir` and then `FtpsGet` keep the discipline. -/
theorem disciplined_iff_transfer_last_chdir :
    Session.loggedIn.DisciplinedRun [chdirTo (ascii "/"), getLog] := by
  refine (disciplined_iff_transfer_last _ ?_).mpr ?_
  · intro call member
    rcases List.mem_pair.mp member with rfl | rfl
    · exact (by decide : Sendable 256 "CWD " (ascii "/"))
    · exact (by decide : Sendable 256 "RETR " (ascii "log"))
  · exact List.pairwise_pair.mpr fun moves => moves.elim

/--
After `FtpsGet` the call `FtpsChdir` sends `CWD` after `QUIT`, as the fifth
command, and takes the reply to `QUIT`, the fourth, for its own.
-/
theorem not_disciplined_getThenChdir :
    ¬ Session.loggedIn.DisciplinedRun [getLog, chdirTo (ascii "/")] := by
  rintro ⟨after, run, disciplined⟩
  have reads :
      ([getLog, chdirTo (ascii "/")].foldlM Session.perform
          Session.loggedIn).map Session.reads =
        .ok [(1, 1), (2, 2), (3, 3), (5, 4)] := by
    decide
  rw [run] at reads
  have read : (5, 4) ∈ after.reads := by
    rw [Except.ok.inj reads]
    decide
  exact absurd (disciplined.reads (5, 4) read) (by decide)

end CommonCode.Ftps
