import CommonCode.Http.Request

/-!
# The fields of a request

`parse_post_A_content` looks for seven keys.  For each it searches the key, the
quotation mark behind it and, for a string, the next quotation mark, and uses
what it found without a check.  Only the search for the first key is checked:
its absence is the only way to the return value `-1`.
-/

namespace CommonCode.Http

open CommonCode.Lib.Bits
open CommonCode.Lib.CString
open CommonCode.Lib.CScan

/-! ## The stages of the parser -/

/-- The part of the parser that extracts the fields. -/
def extractFields (text request : List Byte) : Except Fault (List Byte) := do
  let request ←
    copyQuoted request Request.requestHostIp
      (← afterKey text (ascii "\"requestHostIp\":"))
  let request ←
    scanQuoted request Request.requestHostPort
      (← afterKey text (ascii "\"requestHostPort\":"))
  let request ←
    copyQuoted request Request.requestId
      (← afterKey text (ascii "\"requestId\":"))
  let request ←
    scanQuoted request Request.objectId
      (← afterKey text (ascii "\"objectId\":"))
  let request ←
    copyQuoted request Request.typeList
      (← afterKey text (ascii "\"typeList\":"))
  let request ←
    if (strstr text (ascii "\"imageNormalPath\":")).isSome then
      copyQuoted request Request.imageNormalPath
        (← afterKey text (ascii "\"imageNormalPath\":"))
    else pure request
  copyQuoted request Request.imagePathList
    (← afterKey text (ascii "\"imageList\":"))

/-- The part of the parser that splits the lists into tables. -/
def splitLists (normal : Bool) (request : List Byte) :
    Except Fault (List Byte) := do
  let request ← fillTable request Request.typeList Request.typeData
  let request ←
    fillTable request Request.imagePathList Request.imagePathListData
  if normal then
    fillTable request Request.imageNormalPath Request.imageNormalPathData
  else pure request

/-- The fields that the parser prints between the two stages. -/
def printedFields : List Nat :=
  [Request.requestHostIp, Request.requestId, Request.typeList,
    Request.imageNormalPath, Request.imagePathList]

/-- The parser as the sequence of its stages. -/
theorem parsePostAContent_eq (data request : List Byte) :
    parsePostAContent data request = (do
      let text ← cString data
      match strstr text (ascii "\"requestHostIp\":") with
      | none => return (-1, request)
      | some _ =>
          let request ← extractFields text request
          printStrings request printedFields
          let request ←
            splitLists (strstr text (ascii "\"imageNormalPath\":")).isSome
              request
          printTable request Request.typeData
          printTable request Request.imagePathListData
          printTable request Request.imageNormalPathData
          return (0, request)) := by
  rw [parsePostAContent]
  refine bind_congr_ok fun text _ => ?_
  cases strstr text (ascii "\"requestHostIp\":") with
  | none => rfl
  | some start =>
      simp only [extractFields, splitLists, printedFields]
      cases (strstr text (ascii "\"imageNormalPath\":")).isSome with
      | false => simp [bind_assoc]
      | true => simp [bind_assoc]

/-! ## Incomplete requests -/

/-- The keys without which a request makes no sense. -/
def mandatoryKeys : List (List Byte) :=
  [ascii "\"requestHostIp\":", ascii "\"requestHostPort\":",
    ascii "\"requestId\":", ascii "\"objectId\":", ascii "\"typeList\":",
    ascii "\"imageList\":"]

/-- The text between the two quotation marks that follow a key. -/
def quotedValue (text key : List Byte) : Option (List Byte) := do
  let start ← strstr text key
  let behind := text.drop (start + key.length)
  let opening ← strchr behind (char '"')
  let value := behind.drop (opening + 1)
  let closing ← strchr value (char '"')
  return value.take closing

/-- Some mandatory key is absent or is not followed by a quoted value. -/
def Incomplete (text : List Byte) : Prop :=
  ∃ key ∈ mandatoryKeys, quotedValue text key = none

instance (text : List Byte) : Decidable (Incomplete text) :=
  inferInstanceAs (Decidable (∃ key ∈ mandatoryKeys, quotedValue text key = none))

/-- A request is rejected and leaves the record as it was. -/
def Rejects (data request : List Byte) : Prop :=
  parsePostAContent data request = .ok (-1, request)

/-- A parser that has seen the first key does not reject any more. -/
theorem parsePostAContent_accepts
    {text : List Byte} (nulFree : 0 ∉ text)
    (present : ascii "\"requestHostIp\":" <:+: text)
    {rest request after : List Byte} {code : Int}
    (parsed :
      parsePostAContent (text ++ 0 :: rest) request = .ok (code, after)) :
    code = 0 := by
  obtain ⟨start, found⟩ := exists_strstr_iff.mpr present
  rw [parsePostAContent_eq, cString_append_nul nulFree] at parsed
  simp only [bind_eq_ok_iff, Except.ok.injEq, exists_eq_left', found]
    at parsed
  obtain ⟨_, -, _, -, _, -, _, -, _, -, _, -, returned⟩ := parsed
  have pair := Except.ok.inj returned
  exact (congrArg Prod.fst pair).symm

theorem rejects_iff
    {text : List Byte} (nulFree : 0 ∉ text) (rest request : List Byte) :
    Rejects (text ++ 0 :: rest) request ↔
      ¬ ascii "\"requestHostIp\":" <:+: text := by
  constructor
  · intro rejected present
    exact absurd (parsePostAContent_accepts nulFree present rejected)
      (by decide)
  · intro absent
    rw [Rejects, parsePostAContent_eq, cString_append_nul nulFree]
    simp only [bind, Except.bind, (strstr_eq_none_iff _ _).mpr absent]
    rfl

end CommonCode.Http
