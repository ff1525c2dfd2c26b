import CommonCode.Http.Request

/-!
# Results and replies

The detection program leaves its result as JSON text in a file.
`parse_result_json` extracts the fields into the global `result_json`, and
`build_A_callback_content` prints them, with the fields of the request, as the
content of the callback.

Floating-point numbers are read and printed by the C library only, so they are
a parameter: a type with the conversions of `sscanf` and `sprintf`.  A write
behind a field of `result_json` is a fault.
-/

namespace CommonCode.Http

open CommonCode.Lib.Bits
open CommonCode.Lib.CString
open CommonCode.Lib.CScan

/-- The type `double` with the conversion `%lf` in both directions. -/
structure Floating where
  Carrier : Type
  zero : Carrier
  scan : List Byte → Option Carrier
  print : Carrier → List Byte

variable (floating : Floating)

/-! ## The record -/

/-- `struct Area` -/
structure Area where
  count : Nat
  x : List floating.Carrier
  y : List floating.Carrier

/-- The fields of `result_json_t` that the program uses. -/
structure ResultJson where
  count : Nat
  type : List Byte
  value : List Byte
  code : BitVec 32
  resImagePath : List Byte
  desc : List Byte
  area : List (Area floating)
  conf : floating.Carrier

/-- `result_json` after `memset`. -/
def ResultJson.zero : ResultJson floating where
  count := 0
  type := List.replicate 32 0
  value := List.replicate 32 0
  code := 0
  resImagePath := List.replicate 256 0
  desc := List.replicate 32 0
  area :=
    List.replicate 32
      ⟨0, List.replicate 4 floating.zero, List.replicate 4 floating.zero⟩
  conf := floating.zero

/-! ## Reading the result -/

/--
`read_result_json` into the zeroed buffer of 10240 bytes: at most 1024 bytes
of the file, if there is one.
-/
def readResultJson (file : Option (List Byte)) : List Byte :=
  zeroPadded 10240 ((file.getD []).take 1024)

/-- Copy the quoted value of a key, if the key is present. -/
def copyOptional (field text key : List Byte) : Except Fault (List Byte) :=
  match strstr text key with
  | none => return field
  | some start => copyQuoted field 0 (text.drop (start + key.length))

/-- The text two bytes behind the colon of a key, if the key is present. -/
def numberOptional (text key : List Byte) :
    Except Fault (Option (List Byte)) :=
  match strstr text key with
  | none => return none
  | some start => do
      let colon ← require (strchr (text.drop (start + key.length)) (char ':'))
      return some (text.drop (start + key.length + colon + 2))

variable {floating}

/-- `sscanf("%lf")` into an element of an array. -/
def scanElement (values : List floating.Carrier) (j : Nat)
    (text : List Byte) : Except Fault (List floating.Carrier) :=
  match floating.scan text with
  | none => return values
  | some value =>
      if j < values.length then return values.set j value
      else .error .outOfBounds

/--
The loop over the coordinates of one axis, from an occurrence of the key on:
the array and the number of rounds.
-/
def scanAxis (key : List Byte) :
    Nat → List Byte → List floating.Carrier → Nat →
      Except Fault (List floating.Carrier × Nat)
  | 0, _, _, _ => .error .outOfBounds
  | fuel + 1, start, values, j => do
      let colon ← require (strstr (start.drop key.length) (ascii ":\t"))
      let value := start.drop (key.length + colon)
      let values ← scanElement values j (value.drop 2)
      match strstr value key with
      | none => return (values, j + 1)
      | some next => scanAxis key fuel (value.drop next) values (j + 1)

/-- Each round starts behind the last one, so fuel for every byte is enough. -/
theorem scanAxis_fuel
    {key : List Byte} (nonempty : 0 < key.length) {fuel more : Nat}
    {start : List Byte} (enough : start.length < fuel)
    (alsoEnough : start.length < more)
    (values : List floating.Carrier) (j : Nat) :
    scanAxis key fuel start values j = scanAxis key more start values j := by
  induction fuel generalizing more start values j with
  | zero => exact absurd enough (Nat.not_lt_zero _)
  | succ fuel induction =>
      cases more with
      | zero => exact absurd alsoEnough (Nat.not_lt_zero _)
      | succ more =>
          rw [scanAxis, scanAxis]
          refine bind_congr_ok fun colon found => ?_
          have inside : 0 < start.length := by
            rw [List.length_pos_iff]
            rintro rfl
            exact absurd found (by simp [require, strstr, ascii])
          refine bind_congr_ok fun values _ => ?_
          cases strstr (start.drop (key.length + colon)) key with
          | none => rfl
          | some next =>
              refine induction ?_ ?_ values (j + 1)
              · simp only [List.length_drop]
                omega
              · simp only [List.length_drop]
                omega

/-- The coordinates of one axis in the text of one area. -/
def scanCoordinates (key text : List Byte)
    (values : List floating.Carrier) :
    Except Fault (List floating.Carrier × Nat) :=
  match strstr text key with
  | none => return (values, 0)
  | some start =>
      scanAxis key (text.length + 1) (text.drop start) values 0

/--
The loop over the areas, from an occurrence of `"areas":` on.  The buffer
`temp` is not cleared between two areas.
-/
def scanAreas :
    Nat → List Byte → List Byte → List (Area floating) → Nat →
      Except Fault (List (Area floating) × Nat)
  | 0, _, _, _, _ => .error .outOfBounds
  | fuel + 1, start, temp, areas, i => do
      let bracket ← require (strchr (start.drop 8) (char '['))
      let value := start.drop (8 + bracket)
      let length ← require (strchr value (char ']'))
      let temp ← strncpy temp 0 (value.drop 1) (length - 1)
      let text ← cString temp
      match areas[i]? with
      | none => .error .outOfBounds
      | some area =>
          let (x, _) ← scanCoordinates (ascii "\"x\"") text area.x
          let (y, count) ← scanCoordinates (ascii "\"y\"") text area.y
          let areas := areas.set i ⟨count, x, y⟩
          match strstr (value.drop length) (ascii "\"areas\":") with
          | none => return (areas, i + 1)
          | some next =>
              scanAreas fuel (value.drop (length + next)) temp areas (i + 1)

theorem scanAreas_fuel
    {fuel more : Nat} {start : List Byte} (enough : start.length < fuel)
    (alsoEnough : start.length < more) (temp : List Byte)
    (areas : List (Area floating)) (i : Nat) :
    scanAreas fuel start temp areas i = scanAreas more start temp areas i := by
  induction fuel generalizing more start temp areas i with
  | zero => exact absurd enough (Nat.not_lt_zero _)
  | succ fuel induction =>
      cases more with
      | zero => exact absurd alsoEnough (Nat.not_lt_zero _)
      | succ more =>
          rw [scanAreas, scanAreas]
          refine bind_congr_ok fun bracket found => ?_
          have inside : 0 < start.length := by
            rw [List.length_pos_iff]
            rintro rfl
            exact absurd found (by simp [require, strchr])
          refine bind_congr_ok fun length _ => ?_
          refine bind_congr_ok fun temp _ => ?_
          refine bind_congr_ok fun text _ => ?_
          cases areas[i]? with
          | none => rfl
          | some area =>
              refine bind_congr_ok fun x _ => ?_
              refine bind_congr_ok fun y _ => ?_
              cases strstr ((start.drop (8 + bracket)).drop length)
                  (ascii "\"areas\":") with
              | none => rfl
              | some next =>
                  refine induction ?_ ?_ temp _ (i + 1)
                  · simp only [List.length_drop]
                    omega
                  · simp only [List.length_drop]
                    omega

/-- The areas of a result, if it has any. -/
def scanPos (text : List Byte) (result : ResultJson floating) :
    Except Fault (ResultJson floating) :=
  match strstr text (ascii "\"pos\":") with
  | none => return result
  | some start =>
      match strstr (text.drop start) (ascii "\"areas\":") with
      | none => return { result with count := 0 }
      | some first => do
          let (area, count) ←
            scanAreas (text.length + 1) (text.drop (start + first))
              (List.replicate 512 0) result.area 0
          return { result with area := area, count := count }

/-- The strings and coordinates of a result can be printed. -/
def printResult (result : ResultJson floating) : Except Fault Unit := do
  let _ ← cString result.type
  let _ ← cString result.value
  let _ ← cString result.resImagePath
  let _ ← cString result.desc
  if (result.area.take result.count).all (fun area => area.count ≤ 4) then
    return ()
  else .error .outOfBounds

/-- `parse_result_json` on the memory at `data`. -/
def parseResultJson (data request : List Byte) (result : ResultJson floating) :
    Except Fault (ResultJson floating) := do
  let text ← cString data
  let type ← copyOptional result.type text (ascii "\"type\":")
  let image ← cString (request.drop Request.imagePathList)
  let resImagePath ←
    sprintf result.resImagePath 0
      (ascii "/root/image/" ++ image ++ ascii ".rgb")
  let desc ← copyOptional result.desc text (ascii "\"desc\":")
  let value ← copyOptional result.value text (ascii "\"value\":")
  let code :=
    match (← numberOptional text (ascii "\"code\"")).bind scanInt with
    | none => result.code
    | some (number, _) => number
  let conf :=
    ((← numberOptional text (ascii "\"conf\"")).bind floating.scan).getD
      result.conf
  let result ←
    scanPos text
      { result with
        type := type
        resImagePath := resImagePath
        desc := desc
        value := value
        code := code
        conf := conf }
  printResult result
  return result

/-! ## The callback content -/

/-- The texts for one point of an area. -/
def pointTexts (area : Area floating) (j : Nat) :
    Except Fault (List (List Byte)) :=
  match area.x[j]?, area.y[j]? with
  | some x, some y =>
      return [ascii "\x7b\"x\":\"" ++ floating.print x ++ ascii "\",\"y\":\"" ++
          floating.print y ++ ascii "\"\x7d"] ++
        if j + 1 < area.count then [ascii ","] else []
  | _, _ => .error .outOfBounds

/-- The texts for one area of a result. -/
def areaTexts (result : ResultJson floating) (i : Nat) :
    Except Fault (List (List Byte)) :=
  match result.area[i]? with
  | none => .error .outOfBounds
  | some area => do
      let points ← (List.range area.count).mapM (pointTexts area)
      return [ascii "\x7b\"areas\":["] ++ points.flatten ++ [ascii "]\x7d"] ++
        if i + 1 < result.count then [ascii ","] else []

/-- The texts that `build_A_callback_content` prints, one after the other. -/
def callbackContentTexts (request : List Byte) (result : ResultJson floating) :
    Except Fault (List (List Byte)) := do
  let requestId ← cString (request.drop Request.requestId)
  let type ← cString result.type
  let value ← cString result.value
  let resImagePath ← cString result.resImagePath
  let desc ← cString result.desc
  let areas ← (List.range result.count).mapM (areaTexts result)
  return [ascii "\x7b",
      ascii "\"requestId\":\"" ++ requestId ++ ascii "\",",
      ascii "\"resultsList\":[\x7b",
      ascii "\"objectId\":\"" ++
        formatInt (loadInt request Request.objectId).toInt ++ ascii "\",",
      ascii "\"results\":[\x7b",
      ascii "\"type\":\"" ++ type ++ ascii "\",",
      ascii "\"value\":\"" ++ value ++ ascii "\",",
      ascii "\"code\":\"" ++ formatInt result.code.toInt ++ ascii "\",",
      ascii "\"resImagePath\":\"" ++ resImagePath ++ ascii "\",",
      ascii "\"pos\":["] ++ areas.flatten ++
    [ascii "]",
      ascii "\x7d],",
      ascii "\"conf\":\"" ++ floating.print result.conf ++ ascii "\",",
      ascii "\"desc\":\"" ++ desc ++ ascii "\"",
      ascii "\x7d]",
      ascii "\x7d"]

/-- `build_A_callback_content`: the buffer and the returned length. -/
def buildACallbackContent (buf request : List Byte)
    (result : ResultJson floating) : Except Fault (List Byte × Nat) := do
  printSequence buf 0 (← callbackContentTexts request result)

/-! ## Replies -/

/-- The reason text of `build_error_callback`, for the known error types. -/
def errorReason : Int → Option (List Byte)
  | 200 => some (ascii "OK\r\n")
  | 400 =>
      some (ascii "The client request has a syntax error, cannot be understood by the server.\r\n")
  | 500 => some (ascii "The service side is abnormal.\r\n")
  | _ => none

/-- `build_error_callback`: the buffer and the returned length. -/
def buildErrorCallback (buf : List Byte) (errorType : Int) :
    Except Fault (List Byte × Int) := do
  let status := ascii "HTTP/1.1 " ++ formatInt errorType ++ ascii " "
  let (buf, pos) ← printSequence buf 0 [status]
  match errorReason errorType with
  | none => return (List.replicate pos 0 ++ buf.drop pos, -1)
  | some reason =>
      let (buf, pos) ←
        printSequence buf pos
          [reason,
            ascii "Content-type: application/json\r\n",
            ascii "Content-length: 14\r\n\n",
            ascii "\x7b\"code\":\"" ++ formatInt errorType ++ ascii "\"\x7d"]
      return (buf, pos)

/-- A white space of a `sscanf` format. -/
def scanSpaces (text : List Byte) : List Byte := text.dropWhile isSpace

/-- A literal of a `sscanf` format. -/
def scanLiteral (literal text : List Byte) : Option (List Byte) :=
  if literal.isPrefixOf text then some (text.drop literal.length) else none

/--
`errcode` after the `sscanf` of `parse_callback_packet`.  The format goes on
with `%s` into a null pointer, which is a matching failure: nothing is stored
and the error code that was converted stays.
-/
def callbackErrcode (text : List Byte) : BitVec 32 :=
  match (scanLiteral (ascii "HTTP/1.1") text).bind fun rest =>
      scanInt (scanSpaces rest) with
  | none => -1
  | some (errcode, _) => errcode

/--
`parse_callback_packet` on the memory at `data`: the returned value and the
line it prints, in which `printf` writes `(null)` for `errstr`.
-/
def parseCallbackPacket (data : List Byte) : Except Fault (Int × List Byte) :=
  do
    let text ← cString data
    return (0,
      ascii "callback return " ++ formatInt (callbackErrcode text).toInt ++
        ascii "  (null) \r\n")

/-- The status code is read from an ordinary reply, whatever stands behind. -/
example :
    callbackErrcode (ascii "HTTP/1.1 200 OK\r\n") = 200 := by decide

end CommonCode.Http
