import CommonCode.Ftps.Client
import CommonCode.Lib.CScan

/-!
# What the result of a transfer says

`FtpsPut` and `FtpsGet` return -1 if the set-up of the data connection fails
and 0 in all other cases.  The loops over the data are left by `break` after an
error, which is not reported, and of the replies to the transfer command only
those with a first digit 5 are taken for a refusal.
-/

namespace CommonCode.Ftps

open CommonCode.Lib.Bits
open CommonCode.Lib.CString
open CommonCode.Lib.CScan
open CommonCode.Lib.StateProgram

/-! ## The results of the calls -/

/-- The results of the calls up to the transfer of the data. -/
structure Setup where
  malloc : Bool
  fopen : Bool
  pasvReply : Option (List Byte)
  typeReply : Option (List Byte)
  cmdReply : Option (List Byte)
  openConnectByHost : List Byte → Int
  sslNew : Bool
  sslConnect : Int

/-- A call of `fread` that returns some bytes, and the call of `SSL_write`. -/
structure UploadCall where
  read : Nat
  wrote : Int

/--
The local file and the calls of the loop in `FtpsUploadDataByPasvMode` up to
the call of `fread` that returns 0.  The results are true: `fread` returns at
most what is asked for and what is left, and `SSL_write` at most what it was
given.
-/
structure Upload where
  file : List Byte
  calls : List UploadCall
  asked :
    ∀ call ∈ calls, 1 ≤ call.read ∧ call.read ≤ 1024 ∧ call.wrote ≤ call.read
  left : (calls.map UploadCall.read).sum ≤ file.length

/-- A call of `SSL_read` that returns some bytes, and the call of `fwrite`. -/
structure DownloadCall where
  bytes : List Byte
  wrote : Nat

/-- The end of the data channel: orderly, or by an error. -/
inductive DataEnd where
  | closed
  | failed
deriving DecidableEq

/--
The calls of the loop in `FtpsAccessDataByPasvMode` up to the call of
`SSL_read` that returns no bytes, and the reason of that.  The results are
true: `fwrite` returns at most what it was given.
-/
structure Download where
  calls : List DownloadCall
  dataEnd : DataEnd
  asked :
    ∀ call ∈ calls,
      1 ≤ call.bytes.length ∧ call.bytes.length ≤ 1024 ∧
        call.wrote ≤ call.bytes.length

/-- The replies that are still to come, and the bytes that went through. -/
structure World where
  replies : List (Option (List Byte))
  output : List Byte

/-! ## The loops -/

/-- The bytes that `SSL_write` takes in the loop over the file. -/
def uploadLoop : List Byte → List UploadCall → List Byte
  | _, [] => []
  | unread, call :: calls =>
      if call.wrote ≤ 0 then []
      else
        (unread.take call.read).take call.wrote.toNat ++
          uploadLoop (unread.drop call.read) calls

/--
The bytes that `fwrite` takes in the loop over the data, and whether the loop
is left by the end of the data rather than by `break`.
-/
def downloadLoop : List DownloadCall → List Byte × Bool
  | [] => ([], true)
  | call :: calls =>
      if call.wrote ≤ 0 then ([], false)
      else
        (call.bytes.take call.wrote ++ (downloadLoop calls).1,
          (downloadLoop calls).2)

/-- The operations with the given results; the loop leaves the given bytes. -/
def Setup.operations (setup : Setup) (output : List Byte) :
    Operations World where
  enSend _ := return 0
  enRecv _ := fun world =>
    match world.replies with
    | [] => (none, world)
    | reply :: replies => (reply, { world with replies := replies })
  malloc := return setup.malloc
  fopen _ := return setup.fopen
  openConnectByHost buff := return setup.openConnectByHost buff
  sslNew := return setup.sslNew
  sslConnect := return setup.sslConnect
  accessLoop := fun world => ((), { world with output := output })
  uploadLoop := fun world => ((), { world with output := output })
  closeData := return ()

/-- The replies on the control channel, in the order in which they are read. -/
def Setup.world (setup : Setup) : World where
  replies := [setup.pasvReply, setup.typeReply, setup.cmdReply]
  output := []

/-- The data connection is opened. -/
def Setup.Connects (setup : Setup) : Prop :=
  strchr (replyText setup.pasvReply) (char '(') ≠ none ∧
    0 ≤ setup.openConnectByHost (replyText setup.pasvReply)

instance (setup : Setup) : Decidable setup.Connects :=
  inferInstanceAs (Decidable (_ ∧ _))

/-- The transfer command is not refused and the data channel is encrypted. -/
def Setup.Encrypts (setup : Setup) : Prop :=
  refused setup.cmdReply = false ∧ setup.sslNew = true ∧
    setup.sslConnect = 1

instance (setup : Setup) : Decidable setup.Encrypts :=
  inferInstanceAs (Decidable (_ ∧ _ ∧ _))

/-- The whole set-up succeeds. -/
def Setup.Succeeds (setup : Setup) : Prop :=
  setup.malloc = true ∧ setup.fopen = true ∧ setup.Connects ∧
    setup.Encrypts

instance (setup : Setup) : Decidable setup.Succeeds :=
  inferInstanceAs (Decidable (_ ∧ _ ∧ _ ∧ _))

section Calls

variable (setup : Setup) (output : List Byte)

theorem ftpsOpenPasvSockConn_eq (replies : List (Option (List Byte))) :
    ftpsOpenPasvSockConn (setup.operations output)
        ⟨setup.pasvReply :: replies, []⟩ =
      (if setup.Connects then 0 else -1, ⟨replies, []⟩) := by
  have sent :
      (setup.operations output).enSend pasvCmd
          ⟨setup.pasvReply :: replies, []⟩ =
        (0, ⟨setup.pasvReply :: replies, []⟩) :=
    rfl
  have received :
      (setup.operations output).enRecv 512
          ⟨setup.pasvReply :: replies, []⟩ =
        (setup.pasvReply, ⟨replies, []⟩) :=
    rfl
  rw [ftpsOpenPasvSockConn, bind_run, sent, bind_run, received]
  cases found : strchr (replyText setup.pasvReply) (char '(') with
  | none =>
      have fails : ¬ setup.Connects := fun connects => connects.1 found
      dsimp only
      rw [if_neg fails]
      rfl
  | some position =>
      dsimp only
      change (if setup.openConnectByHost (replyText setup.pasvReply) < 0 then
        return -1 else return 0 : StateM World Int) ⟨replies, []⟩ = _
      split
      · next negative =>
        have fails : ¬ setup.Connects := fun connects =>
          absurd connects.2 (Int.not_le.mpr negative)
        rw [if_neg fails]
        rfl
      · next enough =>
        have connects : setup.Connects :=
          ⟨by rw [found]; rintro ⟨⟩, Int.not_lt.mp enough⟩
        rw [if_pos connects]
        rfl

theorem ftpsOpenPasvSslConn_eq (world : World) :
    ftpsOpenPasvSslConn (setup.operations output) world =
      (if setup.sslNew = true ∧ setup.sslConnect = 1 then 0 else -1,
        world) := by
  rw [ftpsOpenPasvSslConn, bind_run]
  change (if setup.sslNew = false then _ else _ : StateM World Int) world = _
  split
  · next failed =>
    rw [failed]
    rfl
  · next created =>
    change (if setup.sslConnect ≠ 1 then return -1
      else return 0 : StateM World Int) world = _
    split
    · next failed =>
      rw [if_neg fun success => failed success.2]
      rfl
    · next success =>
      rw [if_pos ⟨Bool.eq_true_of_not_eq_false created, not_not.mp success⟩]
      rfl

theorem ftpsOpenPasvDataConn_eq (cmd : List Byte) :
    ftpsOpenPasvDataConn (setup.operations output) cmd setup.world =
      (if setup.Connects ∧ setup.Encrypts then 0 else -1,
        if setup.Connects then ⟨[], []⟩
        else ⟨[setup.typeReply, setup.cmdReply], []⟩) := by
  rw [ftpsOpenPasvDataConn, bind_run, Setup.world, ftpsOpenPasvSockConn_eq]
  by_cases connects : setup.Connects
  · rw [if_pos connects, if_pos connects]
    change (if refused setup.cmdReply = true then _ else _ :
      StateM World Int) ⟨[], []⟩ = _
    split
    · next refusal =>
      have fails : ¬ (setup.Connects ∧ setup.Encrypts) := by
        rintro ⟨-, accepted, -⟩
        rw [refusal] at accepted
        cases accepted
      rw [if_neg fails]
      rfl
    · next accepted =>
      rw [bind_run, ftpsOpenPasvSslConn_eq]
      by_cases encrypts : setup.sslNew = true ∧ setup.sslConnect = 1
      · have succeeds : setup.Connects ∧ setup.Encrypts :=
          ⟨connects, Bool.eq_false_of_not_eq_true accepted, encrypts⟩
        rw [if_pos encrypts, if_pos succeeds]
        rfl
      · have fails : ¬ (setup.Connects ∧ setup.Encrypts) :=
          fun both => encrypts both.2.2
        rw [if_neg encrypts, if_neg fails]
        rfl
  · have fails : ¬ (setup.Connects ∧ setup.Encrypts) :=
      fun both => connects both.1
    rw [if_neg connects, if_neg connects, if_neg fails]
    rfl

/-- A transfer returns 0 exactly if its set-up succeeds. -/
theorem ftpsDataByPasvMode_eq (localpath : Option (List Byte))
    (cmd : List Byte) (loop : StateM World Unit) :
    (setup.Succeeds →
      ftpsDataByPasvMode (setup.operations output) loop localpath cmd
        setup.world = (0, (loop ⟨[], []⟩).2)) ∧
    (¬ setup.Succeeds →
      (ftpsDataByPasvMode (setup.operations output) loop localpath cmd
        setup.world).1 = -1) := by
  have run : ftpsDataByPasvMode (setup.operations output) loop localpath cmd
      setup.world =
        (if setup.malloc = false then return -1
          else if setup.fopen = false then return -1
          else do
            let failed ← ftpsOpenPasvDataConn (setup.operations output) cmd
            if failed ≠ 0 then return -1
            else
              loop
              let _ ← closeFtpsDataConn (setup.operations output)
              return 0 : StateM World Int) setup.world := rfl
  rw [run]
  constructor
  · rintro ⟨allocated, opened, connected⟩
    rw [if_neg (by rw [allocated]; rintro ⟨⟩), if_neg (by rw [opened]; rintro ⟨⟩),
      bind_run, ftpsOpenPasvDataConn_eq, if_pos connected,
      if_pos connected.1]
    rfl
  · intro fails
    split
    · rfl
    · next allocated =>
      split
      · rfl
      · next opened =>
        have unconnected : ¬ (setup.Connects ∧ setup.Encrypts) :=
          fun connected => fails
            ⟨Bool.eq_true_of_not_eq_false allocated,
              Bool.eq_true_of_not_eq_false opened, connected⟩
        rw [bind_run, ftpsOpenPasvDataConn_eq, if_neg unconnected]
        rfl

end Calls

/-! ## Complete transfers -/

/-- A reply with a code from 100 to 199. -/
def Preliminary (reply : Option (List Byte)) : Prop :=
  ∃ second third rest,
    reply = some (char '1' :: second :: third :: rest) ∧
      isDigit second = true ∧ isDigit third = true

/-- `fread` gets to the end of the file and `SSL_write` takes everything. -/
def Upload.Complete (upload : Upload) : Prop :=
  (upload.calls.map UploadCall.read).sum = upload.file.length ∧
    ∀ call ∈ upload.calls, call.wrote = call.read

/-- The data ends in an orderly way and `fwrite` takes everything. -/
def Download.Complete (download : Download) : Prop :=
  download.dataEnd = .closed ∧
    ∀ call ∈ download.calls, call.wrote = call.bytes.length

/-- What `SSL_read` returned on the data channel. -/
def Download.received (download : Download) : List Byte :=
  (download.calls.map DownloadCall.bytes).flatten

section Loops

theorem length_uploadLoop_le (file : List Byte) (calls : List UploadCall) :
    (uploadLoop file calls).length ≤ file.length := by
  induction calls generalizing file with
  | nil => exact Nat.zero_le _
  | cons call calls induction =>
      rw [uploadLoop]
      split
      · exact Nat.zero_le _
      · have later := induction (file.drop call.read)
        rw [List.length_drop] at later
        rw [List.length_append, List.length_take, List.length_take]
        omega

/-- Everything is accepted exactly if every call takes everything. -/
theorem uploadLoop_eq_iff {file : List Byte} {calls : List UploadCall}
    (asked :
      ∀ call ∈ calls,
        1 ≤ call.read ∧ call.read ≤ 1024 ∧ call.wrote ≤ call.read)
    (left : (calls.map UploadCall.read).sum ≤ file.length) :
    uploadLoop file calls = file ↔
      (calls.map UploadCall.read).sum = file.length ∧
        ∀ call ∈ calls, call.wrote = call.read := by
  induction calls generalizing file with
  | nil =>
      simp only [uploadLoop, List.map_nil, List.sum_nil, List.not_mem_nil,
        false_implies, implies_true, and_true]
      exact ⟨fun empty => by rw [← empty]; rfl,
        fun zero => (List.length_eq_zero_iff.mp zero.symm).symm⟩
  | cons call calls induction =>
      rcases asked call (List.mem_cons_self ..) with ⟨positive, -, most⟩
      rw [List.map_cons, List.sum_cons] at left
      have rest : uploadLoop (file.drop call.read) calls =
          file.drop call.read ↔ _ :=
        induction
          (fun other member => asked other (List.mem_cons_of_mem _ member))
          (by rw [List.length_drop]; omega)
      rw [List.length_drop] at rest
      have pieces := List.take_append_drop call.read file
      have size : (file.take call.read).length = call.read :=
        List.length_take_of_le (by omega)
      rw [uploadLoop, List.map_cons, List.sum_cons, List.forall_mem_cons]
      by_cases full : call.wrote = call.read
      · rw [if_neg (by omega)]
        have whole : (file.take call.read).take call.wrote.toNat =
            file.take call.read :=
          List.take_of_length_le (by omega)
        have cancel : file.take call.read ++
            uploadLoop (file.drop call.read) calls = file ↔
              uploadLoop (file.drop call.read) calls =
                file.drop call.read := by
          constructor
          · intro equal
            exact List.append_cancel_left (equal.trans pieces.symm)
          · intro equal
            rw [equal, pieces]
        rw [whole, cancel, rest]
        constructor
        · rintro ⟨sum, others⟩
          exact ⟨by omega, full, others⟩
        · rintro ⟨sum, -, others⟩
          exact ⟨by omega, others⟩
      · refine iff_of_false ?_ fun complete => full complete.2.1
        intro equal
        have lengths := congrArg List.length equal
        split at lengths
        · rw [List.length_nil] at lengths
          omega
        · have later := length_uploadLoop_le (file.drop call.read) calls
          rw [List.length_append, List.length_take, size] at lengths
          rw [List.length_drop] at later
          omega

theorem length_downloadLoop_le (calls : List DownloadCall) :
    (downloadLoop calls).1.length ≤
      (calls.map DownloadCall.bytes).flatten.length := by
  induction calls with
  | nil => exact Nat.zero_le _
  | cons call calls induction =>
      rw [downloadLoop, List.map_cons, List.flatten_cons, List.length_append]
      split
      · exact Nat.zero_le _
      · rw [List.length_append, List.length_take]
        omega

/-- Everything is written exactly if every call takes everything. -/
theorem downloadLoop_eq_iff {calls : List DownloadCall}
    (asked :
      ∀ call ∈ calls,
        1 ≤ call.bytes.length ∧ call.bytes.length ≤ 1024 ∧
          call.wrote ≤ call.bytes.length) :
    (downloadLoop calls).2 = true ∧
        (downloadLoop calls).1 =
          (calls.map DownloadCall.bytes).flatten ↔
      ∀ call ∈ calls, call.wrote = call.bytes.length := by
  induction calls with
  | nil => simp [downloadLoop]
  | cons call calls induction =>
      rcases asked call (List.mem_cons_self ..) with ⟨positive, -, most⟩
      have rest := induction fun other member =>
        asked other (List.mem_cons_of_mem _ member)
      rw [downloadLoop, List.map_cons, List.flatten_cons,
        List.forall_mem_cons, ← rest]
      by_cases full : call.wrote = call.bytes.length
      · rw [if_neg (by omega)]
        dsimp only
        rw [full, List.take_length, List.append_cancel_left_eq]
        exact (and_iff_right rfl).symm
      · refine iff_of_false ?_ fun complete => full complete.1
        rintro ⟨-, equal⟩
        have lengths := congrArg List.length equal
        have later := length_downloadLoop_le calls
        rw [List.length_append] at lengths
        split at lengths
        · rw [List.length_nil] at lengths
          omega
        · rw [List.length_append, List.length_take] at lengths
          omega

end Loops

/-! ## Results -/

/--
If `FtpsPut` returns 0, the reply to `STOR` was preliminary and `SSL_write`
took the whole file.
-/
def PutCompletes (setup : Setup) (upload : Upload)
    (remotepath : List Byte) (localpath : Option (List Byte)) : Prop :=
  let accepted := uploadLoop upload.file upload.calls
  let result :=
    ftpsPut (setup.operations accepted) remotepath localpath setup.world
  result.1 = 0 →
    Preliminary setup.cmdReply ∧ result.2.output = upload.file

/--
If `FtpsGet` returns 0, the reply to `RETR` was preliminary, the data ended in
an orderly way and all of it was written.
-/
def GetCompletes (setup : Setup) (download : Download)
    (localpath : Option (List Byte)) (remotepath : List Byte) : Prop :=
  let written := downloadLoop download.calls
  let result :=
    ftpsGet (setup.operations written.1) localpath remotepath setup.world
  result.1 = 0 →
    Preliminary setup.cmdReply ∧
      (written.2 = true ∧ download.dataEnd = .closed) ∧
      result.2.output = download.received

section Results

variable (setup : Setup)

/-- A caller of the transfer hands its result on. -/
theorem result_eq {transfer : StateM World Int} {world : World}
    (succeeds :
      setup.Succeeds → transfer setup.world = (0, world))
    (fails : ¬ setup.Succeeds → (transfer setup.world).1 = -1) :
    let result :=
      (do
        let failed ← transfer
        if failed ≠ 0 then return -1
        else return 0 : StateM World Int) setup.world
    (setup.Succeeds → result = (0, world)) ∧
      (¬ setup.Succeeds → result.1 = -1) := by
  constructor
  · intro success
    rw [bind_run, succeeds success]
    rfl
  · intro failure
    rw [bind_run, fails failure]
    rfl

/-- Success implies a property exactly if there is no success without it. -/
theorem result_iff (Property : World → Prop) {result : Int × World}
    {world : World}
    (eq : (setup.Succeeds → result = (0, world)) ∧
      (¬ setup.Succeeds → result.1 = -1)) :
    (result.1 = 0 → Property result.2) ↔
      ¬ setup.Succeeds ∨ Property world := by
  by_cases success : setup.Succeeds
  · rw [eq.1 success]
    simp [success]
  · rw [eq.2 success]
    simp [success]

end Results

/--
For all results of the calls: a result of 0 of `FtpsPut` or `FtpsGet` says that
the transfer is complete exactly if the set-up fails, or the reply to the
transfer command is preliminary and the loop over the data meets no error.
-/
theorem transfers_complete_iff (setup : Setup) (upload : Upload)
    (download : Download) (localpath : Option (List Byte))
    (remotepath : List Byte) :
    (PutCompletes setup upload remotepath localpath ↔
      ¬ setup.Succeeds ∨
        Preliminary setup.cmdReply ∧ upload.Complete) ∧
    (GetCompletes setup download localpath remotepath ↔
      ¬ setup.Succeeds ∨
        Preliminary setup.cmdReply ∧ download.Complete) := by
  constructor
  · have transfer := ftpsDataByPasvMode_eq setup
      (uploadLoop upload.file upload.calls) localpath
      (command 256 "STOR " remotepath)
      (setup.operations (uploadLoop upload.file upload.calls)).uploadLoop
    have property := result_iff setup
      (fun world =>
        Preliminary setup.cmdReply ∧ world.output = upload.file)
      (result_eq setup transfer.1 transfer.2)
    refine property.trans (or_congr_right (and_congr_right fun _ => ?_))
    exact uploadLoop_eq_iff upload.asked upload.left
  · have transfer := ftpsDataByPasvMode_eq setup
      (downloadLoop download.calls).1 localpath
      (command 256 "RETR " remotepath)
      (setup.operations (downloadLoop download.calls).1).accessLoop
    have property := result_iff setup
      (fun world =>
        Preliminary setup.cmdReply ∧
          ((downloadLoop download.calls).2 = true ∧
            download.dataEnd = .closed) ∧
          world.output = download.received)
      (result_eq setup transfer.1 transfer.2)
    refine property.trans (or_congr_right (and_congr_right fun _ => ?_))
    have loop := downloadLoop_eq_iff download.asked
    rw [Download.Complete, ← loop]
    constructor
    · rintro ⟨⟨ended, closed⟩, written⟩
      exact ⟨closed, ended, written⟩
    · rintro ⟨closed, ended, written⟩
      exact ⟨⟨ended, closed⟩, written⟩

/-- A set-up in which every call succeeds. -/
def Setup.smooth : Setup where
  malloc := true
  fopen := true
  pasvReply := some (ascii "227 Entering Passive Mode (127,0,0,1,4,1).")
  typeReply := some (ascii "200 Type set to I.")
  cmdReply := some (ascii "150 Ok to send data.")
  openConnectByHost _ := 0
  sslNew := true
  sslConnect := 1

/-- A file of one byte, and `SSL_write` fails. -/
def Upload.broken : Upload where
  file := [1]
  calls := [⟨1, -1⟩]
  asked := by decide
  left := by decide

/-- `FtpsPut` returns 0 although nothing of the file was accepted. -/
theorem not_putCompletes_broken :
    ¬ ∀ setup upload remotepath localpath,
      PutCompletes setup upload remotepath localpath := by
  intro always
  have complete := always Setup.smooth Upload.broken (ascii "a") none rfl
  have accepted : [] = Upload.broken.file := complete.2
  cases accepted

/-- Three bytes are received, and then the data channel fails. -/
def Download.broken : Download where
  calls := [⟨[1, 2, 3], 3⟩]
  dataEnd := .failed
  asked := by decide

/-- `FtpsGet` returns 0 although the data did not end in an orderly way. -/
theorem not_getCompletes_broken :
    ¬ ∀ setup download localpath remotepath,
      GetCompletes setup download localpath remotepath := by
  intro always
  have complete := always Setup.smooth Download.broken none (ascii "a") rfl
  cases complete.2.1.2

end CommonCode.Ftps
