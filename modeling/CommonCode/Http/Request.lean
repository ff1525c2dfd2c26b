import CommonCode.Lib.CScan

/-!
# Parsing the content of a request

`parse_post_A_content` extracts the fields of a request from its JSON text by
substring search and stores them in the global `request_content_A`.  The record
is modelled as the array of its bytes, so that a copy that is longer than its
field runs into the fields behind it, as `strncpy` and `sprintf` do; only an
access behind the record is a fault.
-/

namespace CommonCode.Http

open CommonCode.Lib.Bits
open CommonCode.Lib.CString
open CommonCode.Lib.CScan

/-! ## The record -/

namespace Request

/-- `char request_host_ip[16]` -/
abbrev requestHostIp : Nat := 0

/-- `int request_host_port` -/
abbrev requestHostPort : Nat := 16

/-- `char request_id[64]`, followed by the unused `object_list[512]` -/
abbrev requestId : Nat := 20

/-- `int object_id` -/
abbrev objectId : Nat := 596

/-- `char type_list[32]` -/
abbrev typeList : Nat := 600

/-- `struct multi_str type_data` -/
abbrev typeData : Nat := 632

/-- `char image_normal_path[128]` -/
abbrev imageNormalPath : Nat := 700

/-- `struct multi_str image_normal_path_data` -/
abbrev imageNormalPathData : Nat := 828

/-- `char image_path_list[128]` -/
abbrev imagePathList : Nat := 896

/-- `struct multi_str image_path_list_data` -/
abbrev imagePathListData : Nat := 1024

/-- `sizeof(request_content_A_t)` -/
abbrev size : Nat := 1092

/-- The record after `memset`. -/
def zero : List Byte := List.replicate size 0

end Request

/-! ## Fields -/

/-- A search result that the code goes on to use without a check. -/
def require (found : Option Nat) : Except Fault Nat :=
  match found with
  | none => .error .nullPointer
  | some position => .ok position

theorem require_eq_ok_iff {found : Option Nat} {position : Nat} :
    require found = .ok position ↔ found = some position := by
  cases found with
  | none => simp [require]
  | some start => simp [require]

/-- The text behind a key that is not checked to be present. -/
def afterKey (text key : List Byte) : Except Fault (List Byte) := do
  let start ← require (strstr text key)
  return text.drop (start + key.length)

/-- The text behind the next quotation mark. -/
def afterQuote (text : List Byte) : Except Fault (List Byte) := do
  let start ← require (strchr text (char '"'))
  return text.drop (start + 1)

/-- Copy the text between the next two quotation marks into a field. -/
def copyQuoted (request : List Byte) (field : Nat) (text : List Byte) :
    Except Fault (List Byte) := do
  let value ← afterQuote text
  let length ← require (strchr value (char '"'))
  strncpy request field value length

/-- Scan the number behind the next quotation mark into a field. -/
def scanQuoted (request : List Byte) (field : Nat) (text : List Byte) :
    Except Fault (List Byte) := do
  let value ← afterQuote text
  match scanInt value with
  | none => return request
  | some (number, _) => return store request field (intBytes number)

/-! ## Token tables -/

/--
The loop over the tokens of a list: each token is printed into the next row of
eight bytes.  The loop ends after at most one round for each byte, so the fuel
of `fillTable` is never used up.
-/
def fillRows (table : Nat) :
    Nat → List Byte → Nat → Nat → Except Fault (List Byte × Nat)
  | 0, _, _, _ => .error .outOfBounds
  | fuel + 1, request, position, i => do
      let (token, request, position) ←
        strtok (ascii "\",\"") request position
      match token with
      | none => return (request, i)
      | some start =>
          let text ← cString (request.drop start)
          let request ← sprintf request (table + 4 + 8 * i) text
          fillRows table fuel request position (i + 1)

theorem fillRows_behind
    (table : Nat) {request : List Byte} {position : Nat}
    (past : request.length < position) (fuel i : Nat) :
    fillRows table fuel request position i = .error .outOfBounds := by
  cases fuel with
  | zero => rfl
  | succ fuel =>
      simp [fillRows, strtok, List.drop_eq_nil_of_le past.le, cString,
        bind, Except.bind]

/-- Fuel for every byte behind the position is enough. -/
theorem fillRows_fuel
    (table : Nat) {fuel more : Nat} {request : List Byte} {position : Nat}
    (enough : request.length < position + fuel)
    (alsoEnough : request.length < position + more) (i : Nat) :
    fillRows table fuel request position i =
      fillRows table more request position i := by
  induction fuel generalizing more request position i with
  | zero =>
      have past : request.length < position := enough
      rw [fillRows_behind table past, fillRows_behind table past]
  | succ fuel induction =>
      cases more with
      | zero =>
          have past : request.length < position := alsoEnough
          rw [fillRows_behind table past, fillRows_behind table past]
      | succ more =>
          rw [fillRows, fillRows]
          refine bind_congr_ok fun step found => ?_
          obtain ⟨token, after, next⟩ := step
          cases token with
          | none => rfl
          | some start =>
              obtain ⟨sameLength, further⟩ := strtok_advances found
              refine bind_congr_ok fun text _ => ?_
              refine bind_congr_ok fun printed print => ?_
              have printedLength := length_of_sprintf print
              exact induction (by omega) (by omega) (i + 1)

/-- Split a list field into the rows of a table and store their number. -/
def fillTable (request : List Byte) (list table : Nat) :
    Except Fault (List Byte) := do
  let (request, count) ←
    fillRows table (request.length + 1) request list 0
  return store request table (intBytes (BitVec.ofNat 32 count))

/-- Print the strings at some offsets of the record. -/
def printStrings (request : List Byte) :
    List Nat → Except Fault Unit
  | [] => return ()
  | field :: fields => do
      let _ ← cString (request.drop field)
      printStrings request fields

/-- Print the rows of a table. -/
def printTable (request : List Byte) (table : Nat) : Except Fault Unit :=
  printStrings request
    ((List.range (loadInt request table).toInt.toNat).map
      fun i => table + 4 + 8 * i)

/-! ## The parser -/

/--
`parse_post_A_content` on the memory at `data`: the returned value and the
record.
-/
def parsePostAContent (data request : List Byte) :
    Except Fault (Int × List Byte) := do
  let text ← cString data
  match strstr text (ascii "\"requestHostIp\":") with
  | none => return (-1, request)
  | some _ =>
      let request ←
        copyQuoted request Request.requestHostIp
          (← afterKey text (ascii "\"requestHostIp\":"))
      let request ←
        scanQuoted request Request.requestHostPort
          (← afterKey text (ascii "\"requestHostPort\":"))
      let request ←
        copyQuoted request Request.requestId
          (← afterKey text (ascii "\"requestId\":"))
      let request ←
        scanQuoted request Request.objectId
          (← afterKey text (ascii "\"objectId\":"))
      let request ←
        copyQuoted request Request.typeList
          (← afterKey text (ascii "\"typeList\":"))
      let normal := strstr text (ascii "\"imageNormalPath\":")
      let request ←
        if normal.isSome then
          copyQuoted request Request.imageNormalPath
            (← afterKey text (ascii "\"imageNormalPath\":"))
        else pure request
      let request ←
        copyQuoted request Request.imagePathList
          (← afterKey text (ascii "\"imageList\":"))
      printStrings request
        [Request.requestHostIp, Request.requestId, Request.typeList,
          Request.imageNormalPath, Request.imagePathList]
      let request ← fillTable request Request.typeList Request.typeData
      let request ←
        fillTable request Request.imagePathList Request.imagePathListData
      let request ←
        if normal.isSome then
          fillTable request Request.imageNormalPath
            Request.imageNormalPathData
        else pure request
      printTable request Request.typeData
      printTable request Request.imagePathListData
      printTable request Request.imageNormalPathData
      return (0, request)

end CommonCode.Http
