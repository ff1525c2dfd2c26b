import CommonCode.Json.RoundTrip
import CommonCode.Lib.CArray

/-!
# The messages of the gateway

The nine functions of `build_json.c`.  Each builds a tree from its arguments
and copies the printed tree, without a terminator, to the start of a buffer.
`cJSON_Parse` gets the tree back from a buffer that was zeroed before.
-/

namespace CommonCode.Json

open CommonCode.Lib
open CommonCode.Lib.Bits
open CommonCode.Lib.CString

/-! ## Arguments -/

/-- A string argument. -/
structure CText where
  bytes : List Byte
  nulFree : 0 ∉ bytes

/-- A row of an array of strings. -/
structure Row (size : Nat) where
  bytes : CArray Byte size
  terminated : 0 ∈ bytes.toList

/-- The string in a row. -/
def Row.text {size : Nat} (row : Row size) : CText where
  bytes := row.bytes.toList.takeWhile fun byte => byte ≠ 0
  nulFree member := by
    have passed := List.mem_takeWhile_imp member
    simp at passed

/-! ## The functions -/

section Builders

variable {Double : Type} (arithmetic : Arithmetic Double)

/-- `memcpy(buf, str, strlen(str))` of the printed tree. -/
def leave (buf : List Byte) (root : CJson Double) :
    Except Fault (Int × List Byte) := do
  let str := cJsonPrint arithmetic root
  let buf ← memcpy buf str
  return (0, buf)

def bulidJsonAppNitifyHost (buf : List Byte)
    (token timestamp serviceid dir filename filetype compress : CText) :
    Except Fault (Int × List Byte) :=
  let root : CJson Double := cJsonCreateObject
  let root := cJsonAddStringToObject root "token" token.bytes
  let root := cJsonAddStringToObject root "timestamp" timestamp.bytes
  let body := cJsonCreateObject
  let body := cJsonAddStringToObject body "serviceid" serviceid.bytes
  let serviceProperties := cJsonCreateObject
  let serviceProperties :=
    cJsonAddStringToObject serviceProperties "Dir" dir.bytes
  let serviceProperties :=
    cJsonAddStringToObject serviceProperties "filename" filename.bytes
  let serviceProperties :=
    cJsonAddStringToObject serviceProperties "fileType" filetype.bytes
  let serviceProperties :=
    cJsonAddStringToObject serviceProperties "compress" compress.bytes
  let body := cJsonAddItemToObject body "serviceProperties" serviceProperties
  let root := cJsonAddItemToObject root "body" body
  leave arithmetic buf root

def buildJsonIotNotifiHost (buf : List Byte)
    (deviceid serviceid eventTime : CText) (expire : BitVec 32)
    (name addr : CText) (size : BitVec 32) (md5 fileType compress : CText) :
    Except Fault (Int × List Byte) :=
  let root : CJson Double := cJsonCreateObject
  let root := cJsonAddStringToObject root "deviceId" deviceid.bytes
  let root := cJsonAddStringToObject root "serviceId" serviceid.bytes
  let root := cJsonAddStringToObject root "eventTime" eventTime.bytes
  let root := cJsonAddNumberToObject arithmetic root "expire" expire
  let data := cJsonCreateObject
  let data := cJsonAddStringToObject data "name" name.bytes
  let data := cJsonAddStringToObject data "addr" addr.bytes
  let data := cJsonAddNumberToObject arithmetic data "size" size
  let data := cJsonAddStringToObject data "md5" md5.bytes
  let data := cJsonAddStringToObject data "fileType" fileType.bytes
  let data := cJsonAddStringToObject data "compress" compress.bytes
  let root := cJsonAddItemToObject root "data" data
  leave arithmetic buf root

def buildJsonHostToIot (buf : List Byte) (msgType : CText)
    (mid : BitVec 32) (cmd param serviceid deviceid : CText) :
    Except Fault (Int × List Byte) :=
  let root : CJson Double := cJsonCreateObject
  let root := cJsonAddStringToObject root "msgType" msgType.bytes
  let root := cJsonAddNumberToObject arithmetic root "mid" mid
  let root := cJsonAddStringToObject root "cmd" cmd.bytes
  let paras := cJsonCreateObject
  let paras := cJsonAddStringToObject paras "A_phsC" param.bytes
  let root := cJsonAddItemToObject root "paras" paras
  let root := cJsonAddStringToObject root "deviceId" deviceid.bytes
  let root := cJsonAddStringToObject root "serviceId" serviceid.bytes
  leave arithmetic buf root

def buildJsonIotToApp (buf : List Byte)
    (requestId serviceId method picId token timestamp : CText) :
    Except Fault (Int × List Byte) :=
  let root : CJson Double := cJsonCreateObject
  let body := cJsonCreateObject
  let body := cJsonAddStringToObject body "requestId" requestId.bytes
  let body := cJsonAddStringToObject body "serviceId" serviceId.bytes
  let body := cJsonAddStringToObject body "method" method.bytes
  let cmdContent := cJsonCreateObject
  let cmdContent := cJsonAddStringToObject cmdContent "pic_id" picId.bytes
  let body := cJsonAddItemToObject body "cmdContent" cmdContent
  let root := cJsonAddItemToObject root "body" body
  let root := cJsonAddStringToObject root "token" token.bytes
  let root := cJsonAddStringToObject root "timestamp" timestamp.bytes
  leave arithmetic buf root

def buildJsonAppToIot (buf : List Byte)
    (requestId serviceId picId token timestamp : CText) :
    Except Fault (Int × List Byte) :=
  let root : CJson Double := cJsonCreateObject
  let body := cJsonCreateObject
  let body := cJsonAddStringToObject body "requestId" requestId.bytes
  let body := cJsonAddStringToObject body "serviceId" serviceId.bytes
  let serviceProperties := cJsonCreateObject
  let serviceProperties :=
    cJsonAddStringToObject serviceProperties "pic_id" picId.bytes
  let body := cJsonAddItemToObject body "serviceProperties" serviceProperties
  let root := cJsonAddItemToObject root "body" body
  let root := cJsonAddStringToObject root "token" token.bytes
  let root := cJsonAddStringToObject root "timestamp" timestamp.bytes
  leave arithmetic buf root

def cloudEdgePlatformToTerminal (buf : List Byte) (msgType : CText)
    (mid : BitVec 32) (cmd : CText) (remotePermit : BitVec 32)
    (serviceid deviceid : CText) : Except Fault (Int × List Byte) :=
  let root : CJson Double := cJsonCreateObject
  let root := cJsonAddStringToObject root "msgType" msgType.bytes
  let root := cJsonAddNumberToObject arithmetic root "mid" mid
  let root := cJsonAddStringToObject root "cmd" cmd.bytes
  let paras := cJsonCreateObject
  let paras :=
    cJsonAddNumberToObject arithmetic paras "remote_permit" remotePermit
  let root := cJsonAddItemToObject root "paras" paras
  let root := cJsonAddStringToObject root "deviceId" deviceid.bytes
  let root := cJsonAddStringToObject root "serviceId" serviceid.bytes
  leave arithmetic buf root

def cloudEdgeTerminalToPlatform (buf : List Byte) (msgType : CText)
    (mid errcode remotePermit : BitVec 32) :
    Except Fault (Int × List Byte) :=
  let root : CJson Double := cJsonCreateObject
  let root := cJsonAddStringToObject root "msgType" msgType.bytes
  let root := cJsonAddNumberToObject arithmetic root "mid" mid
  let root := cJsonAddNumberToObject arithmetic root "errcode" errcode
  let body := cJsonCreateObject
  let body :=
    cJsonAddNumberToObject arithmetic body "remote_permit" remotePermit
  let root := cJsonAddItemToObject root "body" body
  leave arithmetic buf root

def buildJsonEdgeInteraction (buf : List Byte)
    (requestid serviceid method : CText) (remotePermit : BitVec 32)
    (token timestamp : CText) : Except Fault (Int × List Byte) :=
  let root : CJson Double := cJsonCreateObject
  let body := cJsonCreateObject
  let body := cJsonAddStringToObject body "requestId" requestid.bytes
  let body := cJsonAddStringToObject body "serviceId" serviceid.bytes
  let body := cJsonAddStringToObject body "method" method.bytes
  let cmdContent := cJsonCreateObject
  let cmdContent :=
    cJsonAddNumberToObject arithmetic cmdContent "remote_permit" remotePermit
  let body := cJsonAddItemToObject body "cmdContent" cmdContent
  let root := cJsonAddItemToObject root "body" body
  let root := cJsonAddStringToObject root "token" token.bytes
  let root := cJsonAddStringToObject root "timestamp" timestamp.bytes
  leave arithmetic buf root

/-- One turn of the loop of `build_json_set_constant_value`. -/
def addConstant (name : Nat → Row 24) (value dataType : Nat → Row 8)
    (bodyInner : CJson Double) (i : Nat) : CJson Double :=
  let bodyInnerItem := cJsonCreateObject
  let bodyInnerItem :=
    cJsonAddStringToObject bodyInnerItem "name" (name i).text.bytes
  let bodyInnerItem :=
    cJsonAddStringToObject bodyInnerItem "val" (value i).text.bytes
  let bodyInnerItem :=
    cJsonAddStringToObject bodyInnerItem "dataType" (dataType i).text.bytes
  cJsonAddItemToArray bodyInner bodyInnerItem

def buildJsonSetConstantValue (buf : List Byte)
    (token timestamp device : CText) (name : Nat → Row 24)
    (value dataType : Nat → Row 8) (len : BitVec 32) :
    Except Fault (Int × List Byte) :=
  let root : CJson Double := cJsonCreateObject
  let root := cJsonAddStringToObject root "token" token.bytes
  let root := cJsonAddStringToObject root "timestamp" timestamp.bytes
  let bodyOuter := cJsonCreateArray
  let bodyOuterItem := cJsonCreateObject
  let bodyOuterItem :=
    cJsonAddStringToObject bodyOuterItem "dev" device.bytes
  let bodyInner := cJsonCreateArray
  let bodyInner := (List.range len.toInt.toNat).foldl
    (addConstant name value dataType) bodyInner
  let bodyOuterItem := cJsonAddItemToObject bodyOuterItem "body" bodyInner
  let bodyOuter := cJsonAddItemToArray bodyOuter bodyOuterItem
  let root := cJsonAddItemToObject root "body" bodyOuter
  leave arithmetic buf root

end Builders

/-! ## Access to trees -/

section Access

variable {Double : Type}

def toLower (byte : Byte) : Byte :=
  if 65 ≤ byte.toNat ∧ byte.toNat ≤ 90 then byte + 32 else byte

def cJsonStrcasecmp : List Byte → List Byte → Int
  | [], [] => 0
  | [], b :: _ => -((toLower b).toNat : Int)
  | a :: _, [] => (toLower a).toNat
  | a :: left, b :: right =>
      if toLower a = toLower b then cJsonStrcasecmp left right
      else (toLower a).toNat - (toLower b).toNat

def cJsonGetArrayItem (array : CJson Double) (item : Nat) :
    Option (CJson Double) :=
  match array with
  | .array child => child[item]?
  | .object child => (child[item]?).map Prod.snd
  | _ => none

def cJsonGetObjectItem (object : CJson Double) (string : String) :
    Option (CJson Double) :=
  match object with
  | .object child =>
      (child.find? fun member =>
        cJsonStrcasecmp member.1 (ascii string) = 0).map Prod.snd
  | _ => none

end Access

/-! ## Messages -/

/-- The calls of the nine functions. -/
inductive Message where
  | appNitifyHost
      (token timestamp serviceid dir filename filetype compress : CText)
  | iotNotifiHost (deviceid serviceid eventTime : CText)
      (expire : BitVec 32) (name addr : CText) (size : BitVec 32)
      (md5 fileType compress : CText)
  | hostToIot (msgType : CText) (mid : BitVec 32)
      (cmd param serviceid deviceid : CText)
  | iotToApp (requestId serviceId method picId token timestamp : CText)
  | appToIot (requestId serviceId picId token timestamp : CText)
  | platformToTerminal (msgType : CText) (mid : BitVec 32) (cmd : CText)
      (remotePermit : BitVec 32) (serviceid deviceid : CText)
  | terminalToPlatform (msgType : CText)
      (mid errcode remotePermit : BitVec 32)
  | edgeInteraction (requestid serviceid method : CText)
      (remotePermit : BitVec 32) (token timestamp : CText)
  | setConstantValue (token timestamp device : CText)
      (name : Nat → Row 24) (value dataType : Nat → Row 8)
      (len : BitVec 32)

section Messages

variable {Double : Type} (arithmetic : Arithmetic Double)

/-- The call with a buffer. -/
def Message.build (message : Message) (buf : List Byte) :
    Except Fault (Int × List Byte) :=
  match message with
  | .appNitifyHost token timestamp serviceid dir filename filetype compress =>
      bulidJsonAppNitifyHost arithmetic buf token timestamp serviceid dir
        filename filetype compress
  | .iotNotifiHost deviceid serviceid eventTime expire name addr size md5
      fileType compress =>
      buildJsonIotNotifiHost arithmetic buf deviceid serviceid eventTime
        expire name addr size md5 fileType compress
  | .hostToIot msgType mid cmd param serviceid deviceid =>
      buildJsonHostToIot arithmetic buf msgType mid cmd param serviceid
        deviceid
  | .iotToApp requestId serviceId method picId token timestamp =>
      buildJsonIotToApp arithmetic buf requestId serviceId method picId token
        timestamp
  | .appToIot requestId serviceId picId token timestamp =>
      buildJsonAppToIot arithmetic buf requestId serviceId picId token
        timestamp
  | .platformToTerminal msgType mid cmd remotePermit serviceid deviceid =>
      cloudEdgePlatformToTerminal arithmetic buf msgType mid cmd remotePermit
        serviceid deviceid
  | .terminalToPlatform msgType mid errcode remotePermit =>
      cloudEdgeTerminalToPlatform arithmetic buf msgType mid errcode
        remotePermit
  | .edgeInteraction requestid serviceid method remotePermit token
      timestamp =>
      buildJsonEdgeInteraction arithmetic buf requestid serviceid method
        remotePermit token timestamp
  | .setConstantValue token timestamp device name value dataType len =>
      buildJsonSetConstantValue arithmetic buf token timestamp device name
        value dataType len

/-- A string in a tree. -/
def textNode (text : CText) : CJson Double := .string text.bytes

/-- An integer in a tree. -/
def intNode (value : BitVec 32) : CJson Double :=
  .number (arithmetic.ofInt value.toInt) value

/-- An object in a tree. -/
def objectNode (members : List (String × CJson Double)) : CJson Double :=
  .object (members.map fun member => (ascii member.1, member.2))

/-- A row of `build_json_set_constant_value`. -/
def constantNode (name : Nat → Row 24) (value dataType : Nat → Row 8)
    (i : Nat) : CJson Double :=
  objectNode
    [("name", textNode (name i).text), ("val", textNode (value i).text),
      ("dataType", textNode (dataType i).text)]

/-- What the arguments of a call say, as a tree. -/
def Message.tree : Message → CJson Double
  | .appNitifyHost token timestamp serviceid dir filename filetype compress =>
      objectNode
        [("token", textNode token), ("timestamp", textNode timestamp),
          ("body", objectNode
            [("serviceid", textNode serviceid),
              ("serviceProperties", objectNode
                [("Dir", textNode dir), ("filename", textNode filename),
                  ("fileType", textNode filetype),
                  ("compress", textNode compress)])])]
  | .iotNotifiHost deviceid serviceid eventTime expire name addr size md5
      fileType compress =>
      objectNode
        [("deviceId", textNode deviceid), ("serviceId", textNode serviceid),
          ("eventTime", textNode eventTime),
          ("expire", intNode arithmetic expire),
          ("data", objectNode
            [("name", textNode name), ("addr", textNode addr),
              ("size", intNode arithmetic size), ("md5", textNode md5),
              ("fileType", textNode fileType),
              ("compress", textNode compress)])]
  | .hostToIot msgType mid cmd param serviceid deviceid =>
      objectNode
        [("msgType", textNode msgType), ("mid", intNode arithmetic mid),
          ("cmd", textNode cmd),
          ("paras", objectNode [("A_phsC", textNode param)]),
          ("deviceId", textNode deviceid), ("serviceId", textNode serviceid)]
  | .iotToApp requestId serviceId method picId token timestamp =>
      objectNode
        [("body", objectNode
            [("requestId", textNode requestId),
              ("serviceId", textNode serviceId), ("method", textNode method),
              ("cmdContent", objectNode [("pic_id", textNode picId)])]),
          ("token", textNode token), ("timestamp", textNode timestamp)]
  | .appToIot requestId serviceId picId token timestamp =>
      objectNode
        [("body", objectNode
            [("requestId", textNode requestId),
              ("serviceId", textNode serviceId),
              ("serviceProperties", objectNode
                [("pic_id", textNode picId)])]),
          ("token", textNode token), ("timestamp", textNode timestamp)]
  | .platformToTerminal msgType mid cmd remotePermit serviceid deviceid =>
      objectNode
        [("msgType", textNode msgType), ("mid", intNode arithmetic mid),
          ("cmd", textNode cmd),
          ("paras", objectNode
            [("remote_permit", intNode arithmetic remotePermit)]),
          ("deviceId", textNode deviceid), ("serviceId", textNode serviceid)]
  | .terminalToPlatform msgType mid errcode remotePermit =>
      objectNode
        [("msgType", textNode msgType), ("mid", intNode arithmetic mid),
          ("errcode", intNode arithmetic errcode),
          ("body", objectNode
            [("remote_permit", intNode arithmetic remotePermit)])]
  | .edgeInteraction requestid serviceid method remotePermit token
      timestamp =>
      objectNode
        [("body", objectNode
            [("requestId", textNode requestid),
              ("serviceId", textNode serviceid), ("method", textNode method),
              ("cmdContent", objectNode
                [("remote_permit", intNode arithmetic remotePermit)])]),
          ("token", textNode token), ("timestamp", textNode timestamp)]
  | .setConstantValue token timestamp device name value dataType len =>
      objectNode
        [("token", textNode token), ("timestamp", textNode timestamp),
          ("body", .array
            [objectNode
              [("dev", textNode device),
                ("body", .array ((List.range len.toInt.toNat).map
                  (constantNode name value dataType)))]])]

/-- The rows of `build_json_set_constant_value` are at `body[0].body`. -/
def Message.CarriesRows (message : Message) (tree : CJson Double) : Prop :=
  match message with
  | .setConstantValue _ _ _ name value dataType len =>
      0 ≤ len.toInt → ∃ items,
        (do
          let outer ← cJsonGetObjectItem tree "body"
          let item ← cJsonGetArrayItem outer 0
          cJsonGetObjectItem item "body") = some (.array items) ∧
        (items.length : Int) = len.toInt ∧
        ∀ i < items.length,
          items[i]? = some (constantNode name value dataType i)
  | _ => True

variable {arithmetic}

/-! ## The calls build the trees -/

theorem cJsonCreateNumber_eq (exact : arithmetic.Exact) (num : BitVec 32) :
    cJsonCreateNumber arithmetic num = intNode arithmetic num := by
  rw [cJsonCreateNumber, exact.toInt]
  rfl

theorem foldl_addConstant (name : Nat → Row 24)
    (value dataType : Nat → Row 8) (child : List (CJson Double))
    (rows : List Nat) :
    rows.foldl (addConstant name value dataType) (.array child) =
      .array (child ++ rows.map (constantNode name value dataType)) := by
  induction rows generalizing child with
  | nil => rw [List.foldl_nil, List.map_nil, List.append_nil]
  | cons row rows ih =>
      have turn : addConstant name value dataType (.array child) row =
          .array (child ++ [constantNode name value dataType row]) := rfl
      rw [List.foldl_cons, turn, ih, List.map_cons, List.append_assoc,
        List.singleton_append]

theorem build_eq_leave (exact : arithmetic.Exact) (message : Message)
    (buf : List Byte) :
    message.build arithmetic buf =
      leave arithmetic buf (message.tree arithmetic) := by
  cases message with
  | appNitifyHost => rfl
  | iotToApp => rfl
  | appToIot => rfl
  | iotNotifiHost =>
      simp only [Message.build, buildJsonIotNotifiHost,
        cJsonAddNumberToObject, cJsonCreateNumber_eq exact]
      rfl
  | hostToIot =>
      simp only [Message.build, buildJsonHostToIot, cJsonAddNumberToObject,
        cJsonCreateNumber_eq exact]
      rfl
  | platformToTerminal =>
      simp only [Message.build, cloudEdgePlatformToTerminal,
        cJsonAddNumberToObject, cJsonCreateNumber_eq exact]
      rfl
  | terminalToPlatform =>
      simp only [Message.build, cloudEdgeTerminalToPlatform,
        cJsonAddNumberToObject, cJsonCreateNumber_eq exact]
      rfl
  | edgeInteraction =>
      simp only [Message.build, buildJsonEdgeInteraction,
        cJsonAddNumberToObject, cJsonCreateNumber_eq exact]
      rfl
  | setConstantValue =>
      simp only [Message.build, buildJsonSetConstantValue, cJsonCreateArray,
        foldl_addConstant]
      rfl

/-! ## The trees can be printed and parsed -/

@[simp]
theorem printable_textNode (text : CText) :
    Printable arithmetic (textNode text) :=
  .string text.nulFree

@[simp]
theorem printable_intNode (value : BitVec 32) :
    Printable arithmetic (intNode arithmetic value) :=
  .number value

@[simp]
theorem printable_objectNode_nil : Printable arithmetic (objectNode []) :=
  .object (List.forall_mem_nil _) (List.forall_mem_nil _)

@[simp]
theorem printable_objectNode_cons (name : String) (value : CJson Double)
    (members : List (String × CJson Double)) :
    Printable arithmetic (objectNode ((name, value) :: members)) ↔
      0 ∉ ascii name ∧ Printable arithmetic value ∧
        Printable arithmetic (objectNode members) := by
  constructor
  · intro printable
    cases printable with
    | object names values =>
        rw [List.map_cons, List.forall_mem_cons] at names values
        exact ⟨names.1, values.1, .object names.2 values.2⟩
  · rintro ⟨nulFree, printable, others⟩
    cases others with
    | object names values =>
        exact .object (List.forall_mem_cons.mpr ⟨nulFree, names⟩)
          (List.forall_mem_cons.mpr ⟨printable, values⟩)

theorem printable_tree (message : Message) :
    Printable arithmetic (message.tree arithmetic) := by
  cases message with
  | setConstantValue token timestamp device name value dataType len =>
      have rows : Printable arithmetic (.array
          ((List.range len.toInt.toNat).map
            (constantNode name value dataType))) := by
        refine .array fun item member => ?_
        rcases List.mem_map.mp member with ⟨row, -, rfl⟩
        simp +decide [constantNode]
      have outer : Printable arithmetic (.array
          [objectNode [("dev", textNode device), ("body", .array
            ((List.range len.toInt.toNat).map
              (constantNode name value dataType)))]]) := by
        refine .array fun item member => ?_
        rw [List.mem_singleton.mp member]
        simp +decide [rows]
      simp +decide [Message.tree, outer]
  | _ => simp +decide [Message.tree]

theorem cJsonGetObjectItem_objectNode_cons (name string : String)
    (value : CJson Double) (members : List (String × CJson Double)) :
    cJsonGetObjectItem (objectNode ((name, value) :: members)) string =
      if cJsonStrcasecmp (ascii name) (ascii string) = 0 then some value
      else cJsonGetObjectItem (objectNode members) string := by
  rw [objectNode, cJsonGetObjectItem, List.map_cons, List.find?_cons]
  by_cases same : cJsonStrcasecmp (ascii name) (ascii string) = 0
  · simp [same]
  · simp [same, objectNode, cJsonGetObjectItem]

theorem carriesRows_tree (message : Message) :
    message.CarriesRows (message.tree arithmetic) := by
  cases message with
  | setConstantValue token timestamp device name value dataType len =>
      intro positive
      refine ⟨(List.range len.toInt.toNat).map
        (constantNode name value dataType), ?_, ?_, ?_⟩
      · simp +decide [Message.tree, cJsonGetObjectItem_objectNode_cons,
          cJsonGetArrayItem]
      · rw [List.length_map, List.length_range]
        omega
      · intro i inside
        rw [List.length_map, List.length_range] at inside
        rw [List.getElem?_map, List.getElem?_range inside]
        rfl
  | _ => exact trivial

/--
`cJSON_Parse` reads from the zeroed buffer of every call the tree that its
arguments describe.
-/
theorem cJsonParse_build (exact : arithmetic.Exact) (message : Message)
    {size : Nat}
    (large : (cJsonPrint arithmetic (message.tree arithmetic)).length <
      size) :
    ∃ buf, message.build arithmetic (List.replicate size 0) = .ok (0, buf) ∧
      cJsonParse arithmetic buf = .ok (message.tree arithmetic) ∧
      message.CarriesRows (message.tree arithmetic) := by
  have built := build_eq_leave exact message (List.replicate size 0)
  rw [leave, memcpy_zeros large] at built
  exact ⟨_, built, cJsonParse_cJsonPrint exact (printable_tree message) _,
    carriesRows_tree message⟩

end Messages

/-! ## An arithmetic -/

/-- Exact arithmetic, which agrees with `double` on small integers. -/
def rational : Arithmetic ℚ where
  ofRat value := value
  add a b := a + b
  sub a b := a - b
  mul a b := a * b
  pow a b := a ^ ⌊b⌋
  fabs a := |a|
  floor a := ⌊a⌋
  eq a b := a = b
  le a b := a ≤ b
  lt a b := a < b
  toInt a := BitVec.ofInt 32 (if 0 ≤ a then ⌊a⌋ else ⌈a⌉)
  sprintf _ a := formatInt ⌊a⌋

theorem exact_rational : rational.Exact where
  add a b _ _ _ := (Int.cast_add a b).symm
  sub a b _ _ _ := (Int.cast_sub a b).symm
  mul a b _ _ _ _ := (Int.cast_mul a b).symm
  pow_zero := by simp [rational, Arithmetic.ofInt]
  fabs_zero := by simp [rational, Arithmetic.ofInt]
  eq_zero a _ := by simp [rational, Arithmetic.ofInt]
  le a b _ _ := by simp [rational, Arithmetic.ofInt]
  zero_le_epsilon := by simp [rational, Arithmetic.ofInt]
  toInt value := by simp [rational, Arithmetic.ofInt]

/-- A message with one row, for a device whose name has a quote. -/
def oneConstant : Message :=
  let row {size : Nat} (positive : 0 < size) : Row size :=
    ⟨Vector.replicate size 0, by simp; omega⟩
  .setConstantValue ⟨ascii "t", by decide⟩ ⟨ascii "", by decide⟩
    ⟨ascii "a\"", by decide⟩ (fun _ => row (by decide))
    (fun _ => row (by decide)) (fun _ => row (by decide)) 1

theorem cJsonParse_build_oneConstant :
    ∃ buf, oneConstant.build rational (List.replicate 200 0) =
        .ok (0, buf) ∧
      cJsonParse rational buf = .ok (oneConstant.tree rational) ∧
      oneConstant.CarriesRows (oneConstant.tree rational) :=
  cJsonParse_build exact_rational oneConstant (by decide +kernel)

end CommonCode.Json
