import CommonCode.Http.Receive
import CommonCode.Http.Result
import CommonCode.Lib.Transition

/-!
# Handling requests one after the other

The part of `main` that handles one received message, from the receive code to
the last `memset`.  The buffers `file_name` and `content` and the globals
`request_content_A` and `result_json` survive from one message to the next.
Two branches leave the handling early, when the reply or the callback cannot
be sent, and skip the clearing of the buffers.

The programs that `main` runs in between are taken to return; what they leave
behind reaches the server only as the result file.
-/

namespace CommonCode.Http

open CommonCode.Lib.Bits
open CommonCode.Lib.CString
open CommonCode.Lib.CScan
open CommonCode.Lib.Transition

/-! ## State and environment -/

/-- The buffers of `main` and the globals that survive a message. -/
structure Server (floating : Floating) where
  fileName : List Byte
  content : List Byte
  request : List Byte
  result : ResultJson floating

/--
What the environment does while one message is handled.  `second` is the result
of the second call of `recv`, if the code makes it; `none` is a failure.
`replySent` and `callbackSent` say whether the reply with status 200 and the
callback could be sent.  `resultFile` is what the detection program leaves and
`answer` what the receiver of the callback sends back.  Whether a reply with
status 400 could be sent makes no difference to the server.
-/
structure Message where
  first : List Byte
  second : Option (List Byte)
  replySent : Bool
  resultFile : Option (List Byte)
  callbackSent : Bool
  answer : List Byte

variable {floating : Floating}

/-- The buffers and globals when the server starts. -/
def Server.initial (floating : Floating) : Server floating where
  fileName := List.replicate fileNameSize 0
  content := List.replicate contentSize 0
  request := Request.zero
  result := ResultJson.zero floating

/-! ## Handling one message -/

/-- The received buffer and the results of `check_if_post` on it. -/
def decode (server : Server floating) (message : Message) :
    Except Fault (Option (List Byte × Int × List Byte × List Byte)) := do
  match ← receive message.first message.second with
  | none => return none
  | some buf =>
      return some (buf, ← checkIfPost buf server.fileName server.content)

/-- `request_content_A` after the message has been parsed. -/
def parseMessage (type : Int) (buf content request : List Byte) :
    Except Fault (List Byte) :=
  if type = 0 then do
    let (_, request) ← parsePostAContent content request
    return request
  else if type = 2 then do
    let _ ← parseCallbackPacket buf
    return request
  else return request

/-- The commands that `main` prints into `buf` and runs. -/
def commands (request : List Byte) : Except Fault (List (List Byte)) := do
  let image ← cString (request.drop Request.imagePathList)
  let hostIp ← cString (request.drop Request.requestHostIp)
  let types ← cString (request.drop Request.typeList)
  let account := ascii " 30021 ftpUser Password@1"
  return [
    ascii "/root/ftps_client get /root/image/" ++ image ++ ascii " " ++
      image ++ ascii " " ++ hostIp ++ account,
    ascii "/root/jpg2rgb /root/image/" ++ image ++ ascii " /root/image/" ++
      image ++ ascii ".rgb",
    ascii "/root/demo/lenovo_alg /root/image/" ++ image ++ ascii ".rgb " ++
      ascii "/root/demo/data/npu_model/detection/yolov8_onnx.npubin " ++ types,
    ascii "/root/ftps_client put " ++ image ++ ascii ".rgb /root/image/" ++
      image ++ ascii ".rgb " ++ hostIp ++ account]

/-- Print each command into the zeroed `buf`. -/
def printCommands : List (List Byte) → Except Fault Unit
  | [] => return ()
  | command :: rest => do
      let _ ← sprintf (List.replicate bufSize 0) 0 command
      printCommands rest

/--
The part of the handling behind the reply: run the commands, read the result
and send the callback.  When the callback cannot be sent nothing is cleared.
-/
def respond (server : Server floating) (message : Message) :
    Except Fault (Server floating) := do
  printCommands (← commands server.request)
  let result ←
    parseResultJson (readResultJson message.resultFile) server.request
      server.result
  let (content, contentLen) ←
    buildACallbackContent server.content server.request result
  let _ ←
    buildCallbackPacket (List.replicate bufSize 0) (← cString content)
      contentLen (ascii "/platform/api/v1/task/results/pic-result-notify")
  if message.callbackSent then
    let _ ← cString (zeroPadded bufSize (message.answer.take bufSize))
    return { server with
      content := List.replicate contentSize 0
      result := ResultJson.zero floating
      request := Request.zero }
  else
    return { server with content := content, result := result }

/--
The handling of one message; `none` if the server exits because `recv` failed.
-/
def serve (server : Server floating) (message : Message) :
    Except Fault (Option (Server floating)) := do
  match ← decode server message with
  | none => return none
  | some (buf, type, fileName, content) =>
      if type = -1 then
        let _ ← buildErrorCallback (List.replicate bufSize 0) 400
        return some { server with fileName := fileName, content := content }
      else
        let request ← parseMessage type buf content server.request
        let server :=
          { server with
            fileName := fileName
            content := List.replicate contentSize 0
            request := request }
        let _ ← buildErrorCallback (List.replicate bufSize 0) 200
        if message.replySent then
          return some (← respond server message)
        else return some server

/--
The value that `parse_post_A_content` returns for a message and the record it
leaves, if the message is a request.
-/
def storedFields (server : Server floating) (message : Message) :
    Except Fault (Option (Int × List Byte)) := do
  match ← decode server message with
  | none => return none
  | some (_, type, _, content) =>
      if type = 0 then
        return some (← parsePostAContent content server.request)
      else return none

/-! ## Runs -/

/-- One message is handled and the server goes on. -/
def Serves (before : Server floating) (message : Message)
    (after : Server floating) : Prop :=
  serve before message = .ok (some after)

/-- Neither the reply nor the callback, if there is one, failed to be sent. -/
def SendsSucceed (message : Message) : Prop :=
  message.replySent = true ∧ message.callbackSent = true

/-- The buffers hold nothing of an earlier message, apart from `file_name`. -/
structure Clean (server : Server floating) : Prop where
  fileName : server.fileName.length = fileNameSize
  content : server.content = List.replicate contentSize 0
  request : server.request = Request.zero

theorem clean_initial : Clean (Server.initial floating) :=
  ⟨List.length_replicate, rfl, rfl⟩

/-- What the handling up to the parser gives in a clean state. -/
theorem decode_buffers
    {server : Server floating} {message : Message}
    {buf fileName content : List Byte} {type : Int}
    (decoded :
      decode server message = .ok (some (buf, type, fileName, content))) :
    fileName.length = server.fileName.length ∧
      (type ≠ 0 → content = server.content) := by
  rw [decode] at decoded
  obtain ⟨received, -, decoded⟩ := bind_eq_ok_iff.mp decoded
  cases received with
  | none => cases decoded
  | some received =>
      obtain ⟨checked, check, decoded⟩ := bind_eq_ok_iff.mp decoded
      cases decoded
      exact checkIfPost_buffers check

/-- The callback, once it is sent, leaves the buffers cleared. -/
theorem respond_clears
    {before after : Server floating} {message : Message}
    (responded : respond before message = .ok after)
    (sent : message.callbackSent = true) :
    after =
      { before with
        content := List.replicate contentSize 0
        result := ResultJson.zero floating
        request := Request.zero } := by
  rw [respond] at responded
  obtain ⟨texts, -, responded⟩ := bind_eq_ok_iff.mp responded
  obtain ⟨printed, -, responded⟩ := bind_eq_ok_iff.mp responded
  obtain ⟨result, -, responded⟩ := bind_eq_ok_iff.mp responded
  obtain ⟨built, -, responded⟩ := bind_eq_ok_iff.mp responded
  obtain ⟨text, -, responded⟩ := bind_eq_ok_iff.mp responded
  obtain ⟨packet, -, responded⟩ := bind_eq_ok_iff.mp responded
  rw [if_pos sent] at responded
  obtain ⟨answer, -, responded⟩ := bind_eq_ok_iff.mp responded
  cases responded
  rfl

/-- One message whose sends succeed leaves a clean server clean. -/
theorem serves_clean
    {before after : Server floating} {message : Message}
    (serves : Serves before message after) (sends : SendsSucceed message)
    (clean : Clean before) :
    Clean after := by
  rw [Serves, serve] at serves
  obtain ⟨decoded, decodes, serves⟩ := bind_eq_ok_iff.mp serves
  cases decoded with
  | none => cases serves
  | some decoded =>
      obtain ⟨buf, type, fileName, content⟩ := decoded
      obtain ⟨nameLength, untouched⟩ := decode_buffers decodes
      simp only at serves
      split at serves
      · next rejected =>
          obtain ⟨reply, -, serves⟩ := bind_eq_ok_iff.mp serves
          cases serves
          have same : content = before.content :=
            untouched (by rw [rejected]; decide)
          exact
            ⟨nameLength.trans clean.fileName, same.trans clean.content,
              clean.request⟩
      · obtain ⟨request, -, serves⟩ := bind_eq_ok_iff.mp serves
        obtain ⟨reply, -, serves⟩ := bind_eq_ok_iff.mp serves
        rw [if_pos sends.1] at serves
        obtain ⟨responded, response, serves⟩ := bind_eq_ok_iff.mp serves
        cases serves
        rw [respond_clears response sends.2]
        exact ⟨nameLength.trans clean.fileName, rfl, rfl⟩

/-- The stored fields depend on two results of `check_if_post` only. -/
theorem storedFields_eq (server : Server floating) (message : Message) :
    storedFields server message = (do
      match ← receive message.first message.second with
      | none => return none
      | some buf =>
          let checked ←
            (checkIfPost buf server.fileName server.content).map
              fun result => (result.1, result.2.2)
          if checked.1 = 0 then
            return some (← parsePostAContent checked.2 server.request)
          else return none) := by
  rw [storedFields, decode, bind_assoc]
  refine bind_congr_ok fun received _ => ?_
  cases received with
  | none => rfl
  | some buf =>
      dsimp only
      cases checkIfPost buf server.fileName server.content with
      | error fault => rfl
      | ok checked => rfl

/-- In a clean state a message is stored as by a server that just started. -/
theorem storedFields_of_clean
    {server : Server floating} (clean : Clean server) (message : Message) :
    storedFields server message =
      storedFields (Server.initial floating) message := by
  have sameLength :
      server.fileName.length =
        (List.replicate fileNameSize (0 : Byte)).length :=
    clean.fileName.trans List.length_replicate.symm
  rw [storedFields_eq, storedFields_eq]
  refine bind_congr_ok fun received _ => ?_
  cases received with
  | none => rfl
  | some buf =>
      simp only [Server.initial, clean.content, clean.request,
        checkIfPost_fileName_irrelevant sameLength]

/--
In every run in which each reply and each callback is sent, the fields that are
stored for the next request are those that a server that just started stores
for it, whatever the earlier messages were.
-/
theorem stored_fields_history_independent
    {messages : List Message} {server : Server floating}
    (run : Run Serves (Server.initial floating) messages server)
    (sends : ∀ message ∈ messages, SendsSucceed message)
    (message : Message) :
    storedFields server message =
      storedFields (Server.initial floating) message := by
  have clean : Clean server :=
    (run.under_of_forall sends).invariant
      (fun step clean => serves_clean step.2 step.1 clean) clean_initial
  exact storedFields_of_clean clean message

/-- Numbers as the texts that are printed for them; nothing is scanned. -/
def lexemes : Floating where
  Carrier := List Byte
  zero := ascii "0.000000"
  scan _ := none
  print := id

/-- A request with the given host address, received in one piece. -/
def requestFrom (hostIp : List Byte) (replySent : Bool) : Message where
  first :=
    ascii "POST /a HTTP/1.1\n\n\x7b\"requestHostIp\":\"" ++ hostIp ++
      ascii "\",\"requestHostPort\":\"80\",\"requestId\":\"r\"," ++
      ascii "\"objectId\":\"1\",\"typeList\":\"t\",\"imageList\":\"i\"\x7d"
  second := none
  replySent := replySent
  resultFile := none
  callbackSent := true
  answer := []

/-- The reply of another server, received as a message. -/
def replyMessage : Message where
  first := ascii "HTTP/1.1 200 OK\r\n\r\n\x7b\"code\":\"200\"\x7d"
  second := none
  replySent := true
  resultFile := none
  callbackSent := true
  answer := []

/--
After a reply of another server and an answered request, the next request is
stored as by a fresh server.
-/
theorem stored_fields_history_independent_answered :
    ∃ server,
      Run Serves (Server.initial lexemes)
        [replyMessage, requestFrom (ascii "10.20.30.40") true] server ∧
      storedFields server (requestFrom (ascii "1.2.3.4") true) =
        storedFields (Server.initial lexemes)
          (requestFrom (ascii "1.2.3.4") true) := by
  have goesOn :
      (serve (Server.initial lexemes) replyMessage).map
          (Option.map fun between =>
            (serve between (requestFrom (ascii "10.20.30.40") true)).map
              Option.isSome) =
        .ok (some (.ok true)) := by
    decide +kernel
  cases first : serve (Server.initial lexemes) replyMessage with
  | error fault => simp [first, Except.map] at goesOn
  | ok between =>
      cases between with
      | none => simp [first, Except.map] at goesOn
      | some between =>
          cases second : serve between
              (requestFrom (ascii "10.20.30.40") true) with
          | error fault => simp [first, second, Except.map] at goesOn
          | ok next =>
              cases next with
              | none => simp [first, second, Except.map] at goesOn
              | some server =>
                  have run :
                      Run Serves (Server.initial lexemes)
                        [replyMessage,
                          requestFrom (ascii "10.20.30.40") true] server :=
                    Run.cons first (Run.cons second (Run.nil server))
                  refine ⟨server, run, ?_⟩
                  refine stored_fields_history_independent run ?_ _
                  intro message member
                  rcases List.mem_cons.mp member with rfl | member
                  · exact ⟨rfl, rfl⟩
                  · rw [List.mem_singleton.mp member]
                    exact ⟨rfl, rfl⟩

/--
A request whose reply could not be sent leaves its fields behind: the shorter
host address of the next request is stored in front of the rest of the old one.
-/
theorem stored_fields_left_over :
    ∃ server,
      Run Serves (Server.initial lexemes)
        [requestFrom (ascii "10.20.30.40") false] server ∧
      (storedFields server (requestFrom (ascii "1.2.3.4") true)).map
          (Option.map fun stored => stored.2.take 16) =
        .ok (some (zeroPadded 16 (ascii "1.2.3.40.40"))) ∧
      (storedFields (Server.initial lexemes)
          (requestFrom (ascii "1.2.3.4") true)).map
          (Option.map fun stored => stored.2.take 16) =
        .ok (some (zeroPadded 16 (ascii "1.2.3.4"))) := by
  have second :
      (serve (Server.initial lexemes)
          (requestFrom (ascii "10.20.30.40") false)).map
        (Option.map fun server =>
          (storedFields server (requestFrom (ascii "1.2.3.4") true)).map
            (Option.map fun stored => stored.2.take 16)) =
        .ok (some (.ok (some (zeroPadded 16 (ascii "1.2.3.40.40"))))) := by
    decide +kernel
  cases served : serve (Server.initial lexemes)
      (requestFrom (ascii "10.20.30.40") false) with
  | error fault => simp [served, Except.map] at second
  | ok next =>
      cases next with
      | none => simp [served, Except.map] at second
      | some server =>
          refine ⟨server, Run.cons served (Run.nil server), ?_, ?_⟩
          · simpa [served, Except.map] using second
          · decide +kernel

end CommonCode.Http
