import CommonCode.Lib.CString
import CommonCode.Lib.StateProgram

/-!
# The calls of the FTPS client

The functions of `ftps/ftps_client.c` that transfer files and change the
directory, from `FtpsGet`, `FtpsPut`, `FtpsDir`, `FtpsChdir` and `FtpsSize`
down to the commands on the control channel.  What they call of OpenSSL, of the
sockets and of the standard library is a parameter: a structure of operations
on the state of the rest of the world.

`EnRecv` returns what one `SSL_read` on the control channel gives; an error or
the end of the channel is `none` and leaves the zeroed buffer as it is.  The
port in the answer to `PASV` and the connection to it are one operation, which
gets the answer.  The pointers that the callers pass are not NULL, except where
the source tests for it.
-/

namespace CommonCode.Ftps

open CommonCode.Lib.Bits
open CommonCode.Lib.CString
open CommonCode.Lib.StateProgram

/-! ## The operations -/

/-- What the client calls. -/
structure Operations (World : Type) where
  enSend : List Byte → StateM World Int
  enRecv : Nat → StateM World (Option (List Byte))
  malloc : StateM World Bool
  fopen : List Byte → StateM World Bool
  openConnectByHost : List Byte → StateM World Int
  sslNew : StateM World Bool
  sslConnect : StateM World Int
  accessLoop : StateM World Unit
  uploadLoop : StateM World Unit
  closeData : StateM World Unit

/-! ## Commands -/

def typeACmd : List Byte := ascii "TYPE A\r\n"

def typeICmd : List Byte := ascii "TYPE I\r\n"

def pasvCmd : List Byte := ascii "PASV\r\n"

def quitCmd : List Byte := ascii "QUIT\r\n"

/-- A command with an argument, as `snprintf` leaves it in a buffer. -/
def command (size : Nat) (verb : String) (argument : List Byte) :
    List Byte :=
  (ascii verb ++ argument ++ ascii "\r\n").take (size - 1)

/-- The text in a zeroed buffer after `EnRecv`. -/
def replyText (reply : Option (List Byte)) : List Byte :=
  (reply.getD []).takeWhile fun byte => byte ≠ 0

/-- `buff[0] == '5'`. -/
def refused (reply : Option (List Byte)) : Bool :=
  (reply.getD []).head? == some (char '5')

/-! ## The client -/

variable {World : Type} (operations : Operations World)

/-- `PrintResp`: the result of the read is only printed. -/
def printResp : StateM World Int := do
  let _ ← operations.enRecv 1024
  return 0

def ftpsOpenPasvSockConn : StateM World Int := do
  let _ ← operations.enSend pasvCmd
  let reply ← operations.enRecv 512
  let buff := replyText reply
  match strchr buff (char '(') with
  | none => return -1
  | some _ =>
      let ret ← operations.openConnectByHost buff
      if ret < 0 then return -1
      else return 0

def ftpsOpenPasvSslConn : StateM World Int := do
  let ssl ← operations.sslNew
  if ssl = false then
    operations.closeData
    return -1
  else
    let success ← operations.sslConnect
    if success ≠ 1 then return -1
    else return 0

def ftpsOpenPasvDataConn (cmd : List Byte) : StateM World Int := do
  let failed ← ftpsOpenPasvSockConn operations
  if failed ≠ 0 then return -1
  else
    let _ ← operations.enSend typeICmd
    let _ ← printResp operations
    let _ ← operations.enSend cmd
    let reply ← operations.enRecv 1024
    if refused reply then
      operations.closeData
      return -1
    else
      let failed ← ftpsOpenPasvSslConn operations
      if failed ≠ 0 then
        operations.closeData
        return -1
      else return 0

def closeFtpsDataConn : StateM World Int := do
  let _ ← operations.enSend quitCmd
  operations.closeData
  return 0

/--
The common body of `FtpsAccessDataByPasvMode` and `FtpsUploadDataByPasvMode`,
which differ in the loop over the data.
-/
def ftpsDataByPasvMode (loop : StateM World Unit)
    (localpath : Option (List Byte)) (cmd : List Byte) :
    StateM World Int := do
  let datahandle ← operations.malloc
  if datahandle = false then return -1
  else
    let fp ← operations.fopen (localpath.getD (ascii "./temp.record"))
    if fp = false then return -1
    else
      let failed ← ftpsOpenPasvDataConn operations cmd
      if failed ≠ 0 then return -1
      else
        loop
        let _ ← closeFtpsDataConn operations
        return 0

def ftpsAccessDataByPasvMode (localpath : Option (List Byte))
    (cmd : List Byte) : StateM World Int :=
  ftpsDataByPasvMode operations operations.accessLoop localpath cmd

def ftpsUploadDataByPasvMode (localpath : Option (List Byte))
    (cmd : List Byte) : StateM World Int :=
  ftpsDataByPasvMode operations operations.uploadLoop localpath cmd

def ftpsGet (localpath : Option (List Byte)) (remotepath : List Byte) :
    StateM World Int := do
  let failed ← ftpsAccessDataByPasvMode operations localpath
    (command 256 "RETR " remotepath)
  if failed ≠ 0 then return -1
  else return 0

def ftpsPut (remotepath : List Byte) (localpath : Option (List Byte)) :
    StateM World Int := do
  let failed ← ftpsUploadDataByPasvMode operations localpath
    (command 256 "STOR " remotepath)
  if failed ≠ 0 then return -1
  else return 0

def ftpsDir (localpath : Option (List Byte)) (remotepath : List Byte) :
    StateM World Int := do
  let failed ← ftpsAccessDataByPasvMode operations localpath
    (command 1024 "LIST -aL " remotepath)
  if failed ≠ 0 then return -1
  else return 0

/--
`FtpsSize`; the size is what `scan`, which stands for `sscanf` with the format
`"%lu %lu"`, finds in the answer.
-/
def ftpsSize (scan : List Byte → Option (Nat × Nat)) (path : List Byte) :
    StateM World (Int × Option Nat) := do
  let _ ← operations.enSend typeACmd
  let _ ← operations.enRecv 1024
  let _ ← operations.enSend (command 256 "SIZE " path)
  let reply ← operations.enRecv 1024
  match scan (replyText reply) with
  | some (_, size) => return (0, some size)
  | none => return (-1, none)

/--
`FtpsChdir`.  The `sprintf` does not look at the size of `buf[256]`, which a
longer path overruns.
-/
def ftpsChdir (path : Option (List Byte)) :
    Except Fault (StateM World Int) :=
  match path with
  | none => .ok (return 0)
  | some path =>
      let buf := ascii "CWD " ++ path ++ ascii "\r\n"
      if 256 < buf.length + 1 then .error .outOfBounds
      else
        .ok do
          let ret ← operations.enSend buf
          if ret < 0 then return -1
          else
            let reply ← operations.enRecv 256
            match reply with
            | none => return -1
            | some _ =>
                if refused reply then return -1
                else return 0

/-! ## What the calls do to the world -/

/-- Every operation relates the worlds before and after it. -/
structure Operations.Keep (related : World → World → Prop) : Prop where
  enSend : ∀ text, Keeps related (operations.enSend text)
  enRecv : ∀ size, Keeps related (operations.enRecv size)
  malloc : Keeps related operations.malloc
  fopen : ∀ path, Keeps related (operations.fopen path)
  openConnectByHost :
    ∀ text, Keeps related (operations.openConnectByHost text)
  sslNew : Keeps related operations.sslNew
  sslConnect : Keeps related operations.sslConnect
  accessLoop : Keeps related operations.accessLoop
  uploadLoop : Keeps related operations.uploadLoop
  closeData : Keeps related operations.closeData

section Keep

variable {operations} {related : World → World → Prop}
variable [IsPreorder World related] (keep : operations.Keep related)

include keep

theorem Operations.Keep.ftpsOpenPasvSockConn_of_exchange :
    Extends related
      (do let _ ← operations.enSend pasvCmd; operations.enRecv 512)
      (ftpsOpenPasvSockConn operations) := by
  intro world
  simp only [ftpsOpenPasvSockConn, bind_run]
  rcases operations.enRecv 512 (operations.enSend pasvCmd world).2
    with ⟨reply, after⟩
  cases strchr (replyText reply) (char '(') with
  | none => exact refl after
  | some position =>
      refine Keeps.bind (keep.openConnectByHost _) (fun _ => ?_) after
      exact Keeps.ite (Keeps.pure _) (Keeps.pure _)

theorem Operations.Keep.ftpsOpenPasvSockConn :
    Keeps related (ftpsOpenPasvSockConn operations) :=
  Keeps.of_extends (Keeps.bind (keep.enSend _) fun _ => keep.enRecv _)
    keep.ftpsOpenPasvSockConn_of_exchange

theorem Operations.Keep.ftpsOpenPasvSslConn :
    Keeps related (ftpsOpenPasvSslConn operations) := by
  refine Keeps.bind keep.sslNew fun _ => Keeps.ite ?_ ?_
  · exact Keeps.bind keep.closeData fun _ => Keeps.pure _
  · refine Keeps.bind keep.sslConnect fun _ => ?_
    exact Keeps.ite (Keeps.pure _) (Keeps.pure _)

theorem Operations.Keep.ftpsOpenPasvDataConn_of_sockConn
    (cmd : List Byte) :
    Extends related (CommonCode.Ftps.ftpsOpenPasvSockConn operations)
      (ftpsOpenPasvDataConn operations cmd) := by
  have close : Keeps related
      (do operations.closeData; return -1 : StateM World Int) :=
    Keeps.bind keep.closeData fun _ => Keeps.pure _
  refine Extends.bind fun _ => Keeps.ite (Keeps.pure _) ?_
  refine Keeps.bind (keep.enSend _) fun _ => ?_
  refine Keeps.bind ?_ fun _ => ?_
  · exact Keeps.bind (keep.enRecv _) fun _ => Keeps.pure _
  refine Keeps.bind (keep.enSend _) fun _ => ?_
  refine Keeps.bind (keep.enRecv _) fun _ => ?_
  refine Keeps.ite close ?_
  refine Keeps.bind keep.ftpsOpenPasvSslConn fun _ => ?_
  exact Keeps.ite close (Keeps.pure _)

theorem Operations.Keep.ftpsOpenPasvDataConn (cmd : List Byte) :
    Keeps related (ftpsOpenPasvDataConn operations cmd) :=
  keep.ftpsOpenPasvSockConn.of_extends
    (keep.ftpsOpenPasvDataConn_of_sockConn cmd)

/-- After the data connection has been opened or not. -/
theorem Operations.Keep.loop_closeFtpsDataConn {loop : StateM World Unit}
    (data : Keeps related loop) (failed : Int) :
    Keeps related (if failed ≠ 0 then return -1
      else do
        loop
        let _ ← closeFtpsDataConn operations
        return 0 : StateM World Int) := by
  refine Keeps.ite (Keeps.pure _) (Keeps.bind data fun _ => ?_)
  refine Keeps.bind ?_ fun _ => Keeps.pure _
  refine Keeps.bind (keep.enSend _) fun _ => ?_
  exact Keeps.bind keep.closeData fun _ => Keeps.pure _

theorem Operations.Keep.ftpsDataByPasvMode {loop : StateM World Unit}
    (data : Keeps related loop) (localpath : Option (List Byte))
    (cmd : List Byte) :
    Keeps related (ftpsDataByPasvMode operations loop localpath cmd) := by
  refine Keeps.bind keep.malloc fun _ => Keeps.ite (Keeps.pure _) ?_
  refine Keeps.bind (keep.fopen _) fun _ => Keeps.ite (Keeps.pure _) ?_
  exact Keeps.bind (keep.ftpsOpenPasvDataConn cmd) fun failed =>
    keep.loop_closeFtpsDataConn data failed

end Keep

end CommonCode.Ftps
