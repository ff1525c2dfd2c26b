import CommonCode.Http.Tables
import CommonCode.Lib.Quoted

/-!
# The list fields of a request

The client's sample request gives `typeList`, `imageNormalPath` and `imageList`
as arrays of quoted strings.  The parser copies the text between the first two
quotation marks behind a key, that is the first element of the array, and only
this element reaches the `strtok` loop.  Hence the three tables hold the arrays
exactly if each array has one element.
-/

namespace CommonCode.Http

open CommonCode.Lib.Bits
open CommonCode.Lib.CString
open CommonCode.Lib.CScan
open CommonCode.Lib.Quoted

/-! ## The sample format -/

/-- What stands around the values of a member of the sample request. -/
structure Slot where
  name : List Byte
  opening : List Byte
  closing : List Byte
  deriving DecidableEq

/-- The members of the sample request of `http_client/http.c`. -/
def sampleSlots : List Slot :=
  [⟨ascii "requestHostIp", [], ascii ","⟩,
    ⟨ascii "requestHostPort", [], ascii ","⟩,
    ⟨ascii "requestId", [], ascii ","⟩,
    ⟨ascii "objectList", ascii "[\x7b", []⟩,
    ⟨ascii "objectId", [], ascii ","⟩,
    ⟨ascii "typeList", ascii "[", ascii "],"⟩,
    ⟨ascii "imageNormalPath", ascii "[", ascii "],"⟩,
    ⟨ascii "imageList", ascii "[", ascii "]\x7d]\x7d"⟩]

/-- Quoted values with commas between them. -/
def quotedValues (values : List (List Byte)) : List Byte :=
  (ascii ",").intercalate (values.map fun value => quote :: (value ++ [quote]))

/-- A member with its values. -/
def memberText (slot : Slot) (values : List (List Byte)) : List Byte :=
  key slot.name (ascii ":") ++ slot.opening ++ quotedValues values ++
    slot.closing

/-- The values of a request in the sample format. -/
structure Sample where
  requestHostIp : List Byte
  requestHostPort : List Byte
  requestId : List Byte
  objectId : List Byte
  typeList : List (List Byte)
  imageNormalPath : List (List Byte)
  imageList : List (List Byte)

/-- The values of the members, in their order. -/
def Sample.values (sample : Sample) : List (List (List Byte)) :=
  [[sample.requestHostIp], [sample.requestHostPort], [sample.requestId], [],
    [sample.objectId], sample.typeList, sample.imageNormalPath,
    sample.imageList]

/-- The text of a request. -/
def Sample.content (sample : Sample) : List Byte :=
  ascii "\x7b" ++ (List.zipWith memberText sampleSlots sample.values).flatten

/-- The text of the client. -/
example :
    (Sample.mk (ascii "qqqqqqqq") (ascii "wwwwwwww") (ascii "eeeeeeee")
        (ascii "121") [ascii "bj_bpmh", ascii "bj_bpps"] [ascii "qwerty"]
        [ascii "jpg.jpeg"]).content =
      ascii ("\x7b\"requestHostIp\":\"qqqqqqqq\",\"requestHostPort\":" ++
        "\"wwwwwwww\",\"requestId\":\"eeeeeeee\",\"objectList\":[\x7b" ++
        "\"objectId\":\"121\",\"typeList\":[\"bj_bpmh\",\"bj_bpps\"]," ++
        "\"imageNormalPath\":[\"qwerty\"],\"imageList\":[\"jpg.jpeg\"]" ++
        "\x7d]\x7d") := by
  decide +kernel

/-- The content of a JSON string without escapes. -/
def PlainValue (value : List Byte) : Prop := quote ∉ value ∧ 0 ∉ value

instance (value : List Byte) : Decidable (PlainValue value) :=
  inferInstanceAs (Decidable (_ ∧ _))

/-- One to eight strings of one to seven characters. -/
structure ListValues (values : List (List Byte)) : Prop where
  nonempty : values ≠ []
  few : values.length ≤ 8
  elements : ∀ value ∈ values,
    PlainValue value ∧ char ',' ∉ value ∧ value ≠ [] ∧ value.length ≤ 7

instance (values : List (List Byte)) : Decidable (ListValues values) :=
  decidable_of_iff
    (values ≠ [] ∧ values.length ≤ 8 ∧ ∀ value ∈ values,
      PlainValue value ∧ char ',' ∉ value ∧ value ≠ [] ∧ value.length ≤ 7)
    ⟨fun ⟨nonempty, few, elements⟩ => ⟨nonempty, few, elements⟩,
      fun list => ⟨list.nonempty, list.few, list.elements⟩⟩

/-- A request whose values fit their fields. -/
structure Sample.WellFormed (sample : Sample) : Prop where
  requestHostIp :
    PlainValue sample.requestHostIp ∧ sample.requestHostIp.length < 16
  requestHostPort : PlainValue sample.requestHostPort
  requestId : PlainValue sample.requestId ∧ sample.requestId.length < 64
  objectId : PlainValue sample.objectId
  typeList : ListValues sample.typeList
  imageNormalPath : ListValues sample.imageNormalPath
  imageList : ListValues sample.imageList

instance (sample : Sample) : Decidable sample.WellFormed :=
  decidable_of_iff
    ((PlainValue sample.requestHostIp ∧ sample.requestHostIp.length < 16) ∧
      PlainValue sample.requestHostPort ∧
      (PlainValue sample.requestId ∧ sample.requestId.length < 64) ∧
      PlainValue sample.objectId ∧ ListValues sample.typeList ∧
      ListValues sample.imageNormalPath ∧ ListValues sample.imageList)
    ⟨fun ⟨hostIp, hostPort, requestId, objectId, types, normals, images⟩ =>
        ⟨hostIp, hostPort, requestId, objectId, types, normals, images⟩,
      fun sample =>
        ⟨sample.requestHostIp, sample.requestHostPort, sample.requestId,
          sample.objectId, sample.typeList, sample.imageNormalPath,
          sample.imageList⟩⟩

/-! ## The parts of the text -/

/-- The values of a member and the texts behind them. -/
def elementParts (closing : List Byte) :
    List (List Byte) → List (List Byte)
  | [] => []
  | [value] => [value, closing]
  | value :: next :: rest =>
      value :: ascii "," :: elementParts closing (next :: rest)

/-- The parts of a member. -/
def memberParts (slot : Slot) (values : List (List Byte)) :
    List (List Byte) :=
  slot.name :: (ascii ":" ++ slot.opening) :: elementParts slot.closing values

theorem marked_elementParts
    {values : List (List Byte)} (nonempty : values ≠ [])
    (closing : List Byte) :
    marked (elementParts closing values) =
      quotedValues values ++ closing := by
  induction values with
  | nil => exact absurd rfl nonempty
  | cons value rest induction =>
      cases rest with
      | nil => simp [elementParts, quotedValues, marked]
      | cons next rest =>
          rw [elementParts, marked, marked, induction (List.cons_ne_nil _ _)]
          simp [quotedValues]

theorem marked_memberParts
    {slot : Slot} {values : List (List Byte)}
    (ended : values = [] → slot.closing = []) :
    marked (memberParts slot values) = memberText slot values := by
  rw [memberParts, marked, marked, memberText, key]
  by_cases none : values = []
  · rw [ended none, none]
    simp [elementParts, quotedValues, marked]
  · rw [marked_elementParts none]
    simp

/-- The parts of all members. -/
def sampleParts (slots : List Slot) (values : List (List (List Byte))) :
    List (List Byte) :=
  (List.zipWith memberParts slots values).flatten

theorem Sample.content_eq {sample : Sample} (wellFormed : sample.WellFormed) :
    sample.content =
      ascii "\x7b" ++ marked (sampleParts sampleSlots sample.values) := by
  have types := wellFormed.typeList.nonempty
  have normals := wellFormed.imageNormalPath.nonempty
  have images := wellFormed.imageList.nonempty
  simp only [Sample.content, sampleParts, sampleSlots, Sample.values,
    List.zipWith_cons_cons, List.zipWith_nil_right, List.flatten_cons,
    List.flatten_nil, marked_append]
  rw [marked_memberParts (by simp), marked_memberParts (by simp),
    marked_memberParts (by simp), marked_memberParts (fun _ => rfl),
    marked_memberParts (by simp),
    marked_memberParts (fun none => absurd none types),
    marked_memberParts (fun none => absurd none normals),
    marked_memberParts (fun none => absurd none images)]
  rfl

theorem not_mem_elementParts
    {byte : Byte} {closing : List Byte} {values : List (List Byte)}
    (comma : byte ∉ ascii ",") (closed : byte ∉ closing)
    (plain : ∀ value ∈ values, byte ∉ value) :
    ∀ part ∈ elementParts closing values, byte ∉ part := by
  induction values with
  | nil => simp [elementParts]
  | cons value rest induction =>
      rw [List.forall_mem_cons] at plain
      cases rest with
      | nil => simpa [elementParts] using ⟨plain.1, closed⟩
      | cons next rest =>
          rw [elementParts, List.forall_mem_cons, List.forall_mem_cons]
          exact ⟨plain.1, comma, induction plain.2⟩

/-- A byte does not occur in the texts around the values. -/
def Slot.Lacks (byte : Byte) (slot : Slot) : Prop :=
  byte ∉ slot.name ∧ byte ∉ ascii ":" ++ slot.opening ∧ byte ∉ slot.closing

instance (byte : Byte) (slot : Slot) : Decidable (slot.Lacks byte) :=
  inferInstanceAs (Decidable (_ ∧ _))

theorem not_mem_sampleParts
    {byte : Byte} {slots : List Slot} {values : List (List (List Byte))}
    (comma : byte ∉ ascii ",") (around : ∀ slot ∈ slots, slot.Lacks byte)
    (plain : ∀ list ∈ values, ∀ value ∈ list, byte ∉ value) :
    ∀ part ∈ sampleParts slots values, byte ∉ part := by
  induction slots generalizing values with
  | nil => simp [sampleParts]
  | cons slot slots induction =>
      cases values with
      | nil => simp [sampleParts]
      | cons list values =>
          rw [List.forall_mem_cons] at around plain
          obtain ⟨name, opening, closing⟩ := around.1
          intro part member
          rw [sampleParts, List.zipWith_cons_cons, List.flatten_cons,
            List.mem_append, memberParts, List.mem_cons, List.mem_cons]
            at member
          rcases member with (rfl | rfl | member) | member
          · exact name
          · exact opening
          · exact not_mem_elementParts comma closing plain.1 part member
          · exact induction around.2 plain.2 part member

/-! ## Searching a member -/

/-- The search for a key does not stop at a member. -/
def Slot.Passes (name : List Byte) (slot : Slot) : Prop :=
  slot.name ≠ name ∧ ascii ":" ++ slot.opening ≠ name ∧
    slot.closing ≠ name ∧ ascii "," ≠ name ∧ ¬ ascii ":" <+: slot.closing

instance (name : List Byte) (slot : Slot) : Decidable (slot.Passes name) :=
  inferInstanceAs (Decidable (_ ∧ _))

theorem seek_elementParts
    {name : List Byte} {slot : Slot} (passes : slot.Passes name)
    (values rest : List (List Byte)) :
    seek name (ascii ":") (elementParts slot.closing values ++ rest) =
      seek name (ascii ":") rest := by
  obtain ⟨-, -, closing, comma, behind⟩ := passes
  induction values with
  | nil => rfl
  | cons value more induction =>
      cases more with
      | nil => exact seek_value behind closing rest
      | cons next more =>
          rw [elementParts, List.cons_append, List.cons_append,
            seek_value (by decide) comma, induction]

/-- A member is found behind members with other names. -/
theorem seek_sampleParts
    {slots : List Slot} {values : List (List (List Byte))} {i : Nat}
    {slot : Slot} {list : List (List Byte)} (placed : slots[i]? = some slot)
    (valued : values[i]? = some list)
    (passes : ∀ j other, j < i → slots[j]? = some other →
      other.Passes slot.name) :
    ∃ rest,
      seek slot.name (ascii ":") (sampleParts slots values) =
        some (slot.name :: (ascii ":" ++ slot.opening) ::
          (elementParts slot.closing list ++ rest)) := by
  induction i generalizing slots values with
  | zero =>
      rw [← List.head?_eq_getElem?, List.head?_eq_some_iff] at placed valued
      obtain ⟨slots, rfl⟩ := placed
      obtain ⟨values, rfl⟩ := valued
      refine ⟨sampleParts slots values, ?_⟩
      simp only [sampleParts, List.zipWith_cons_cons, List.flatten_cons,
        memberParts, List.cons_append]
      rw [seek, if_pos ⟨rfl, List.prefix_append ..⟩]
  | succ i induction =>
      cases slots with
      | nil => cases placed
      | cons first slots =>
          cases values with
          | nil => cases valued
          | cons firstList values =>
              have before := passes 0 first (Nat.succ_pos i) rfl
              obtain ⟨rest, found⟩ :=
                induction placed valued
                  (fun j other below =>
                    passes (j + 1) other (Nat.succ_lt_succ below))
              refine ⟨rest, ?_⟩
              rw [sampleParts, List.zipWith_cons_cons, List.flatten_cons,
                memberParts, List.cons_append, List.cons_append,
                seek_of_ne before.1, seek_of_ne before.2.1,
                seek_elementParts before]
              exact found

theorem sampleSlots_lack_quote : ∀ slot ∈ sampleSlots, slot.Lacks quote := by
  decide

theorem sampleSlots_lack_nul : ∀ slot ∈ sampleSlots, slot.Lacks 0 := by
  decide

theorem sampleSlots_passes :
    ∀ i : Fin sampleSlots.length, ∀ j : Fin sampleSlots.length, j < i →
      (sampleSlots.get j).Passes (sampleSlots.get i).name := by
  decide

theorem ListValues.plain {values : List (List Byte)}
    (list : ListValues values) : ∀ value ∈ values, PlainValue value :=
  fun value member => (list.elements value member).1

theorem Sample.WellFormed.plain {sample : Sample}
    (wellFormed : sample.WellFormed) :
    ∀ list ∈ sample.values, ∀ value ∈ list, PlainValue value := by
  have hostIp := wellFormed.requestHostIp.1
  have hostPort := wellFormed.requestHostPort
  have requestId := wellFormed.requestId.1
  have objectId := wellFormed.objectId
  have types := wellFormed.typeList.plain
  have normals := wellFormed.imageNormalPath.plain
  have images := wellFormed.imageList.plain
  simp only [Sample.values, List.forall_mem_cons, List.not_mem_nil,
    IsEmpty.forall_iff, implies_true, and_true, true_and]
  exact
    ⟨hostIp, hostPort, requestId, objectId, types, normals, images⟩

theorem Sample.nulFree {sample : Sample} (wellFormed : sample.WellFormed) :
    0 ∉ sample.content := by
  have parts :=
    not_mem_sampleParts (by decide) sampleSlots_lack_nul
      (fun list member value inside =>
        (wellFormed.plain list member value inside).2)
  rw [Sample.content_eq wellFormed, List.mem_append, not_or]
  exact ⟨by decide, not_mem_marked (by decide) parts⟩

/-- What the search for a key of the sample returns. -/
theorem Sample.afterKey
    {sample : Sample} (wellFormed : sample.WellFormed) {i : Nat} {slot : Slot}
    {list : List (List Byte)} (placed : sampleSlots[i]? = some slot)
    (valued : sample.values[i]? = some list) :
    ∃ rest,
      Http.afterKey sample.content (key slot.name (ascii ":")) =
        .ok (slot.opening ++ marked (elementParts slot.closing list ++ rest)) := by
  have named := (sampleSlots_lack_quote slot (List.mem_of_getElem? placed)).1
  have parts :=
    not_mem_sampleParts (by decide) sampleSlots_lack_quote
      (fun list member value inside =>
        (wellFormed.plain list member value inside).1)
  have passes : ∀ j other, j < i → sampleSlots[j]? = some other →
      other.Passes slot.name := by
    intro j other below earlier
    obtain ⟨inside, rfl⟩ := List.getElem?_eq_some_iff.mp placed
    obtain ⟨inside', rfl⟩ := List.getElem?_eq_some_iff.mp earlier
    exact sampleSlots_passes ⟨i, inside⟩ ⟨j, inside'⟩ below
  obtain ⟨rest, found⟩ := seek_sampleParts placed valued passes
  have start : quote ∉ ascii "\x7b" := by decide
  obtain ⟨position, search, behind⟩ :=
    exists_strstr_of_seek named (by decide) start parts found
  refine ⟨rest, ?_⟩
  rw [Sample.content_eq wellFormed, Http.afterKey, search]
  exact congrArg Except.ok behind

/-! ## Copying the first value -/

theorem copyQuoted_marked
    {opening value request : List Byte} {rest : List (List Byte)}
    {field : Nat} (opened : quote ∉ opening) (plain : quote ∉ value)
    (closed : rest ≠ []) (fits : field + value.length ≤ request.length) :
    copyQuoted request field (opening ++ marked (value :: rest)) =
      .ok (store request field value) := by
  obtain ⟨next, rest, rfl⟩ := List.exists_cons_of_ne_nil closed
  have first :
      afterQuote (opening ++ marked (value :: next :: rest)) =
        .ok (value ++ marked (next :: rest)) := by
    rw [afterQuote, marked, strchr_append opened]
    simp [require, bind, Except.bind, pure, Except.pure]
  have padded :
      zeroPadded value.length
          ((value ++ marked (next :: rest)).take value.length) = value := by
    simp [zeroPadded]
  rw [copyQuoted, first]
  simp only [bind, Except.bind]
  rw [marked, strchr_append plain, require, ← marked]
  simp only
  rw [strncpy, if_pos fits, padded]

theorem scanQuoted_marked
    {opening value request : List Byte} {rest : List (List Byte)}
    {field : Nat} (opened : quote ∉ opening)
    (fits : field + 4 ≤ request.length) :
    ∃ after,
      scanQuoted request field (opening ++ marked (value :: rest)) =
          .ok after ∧
        Frame field (field + 4) request after := by
  have first :
      afterQuote (opening ++ marked (value :: rest)) =
        .ok (value ++ marked rest) := by
    rw [afterQuote, marked, strchr_append opened]
    simp [require, bind, Except.bind, pure, Except.pure]
  rw [scanQuoted, first]
  simp only [bind, Except.bind]
  cases scanInt (value ++ marked rest) with
  | none => exact ⟨request, rfl, rfl, rfl, rfl⟩
  | some scanned =>
      refine ⟨_, rfl, ?_⟩
      have frame :=
        frame_store request field (intBytes scanned.1)
          (by rw [length_intBytes]; omega)
      rwa [length_intBytes] at frame

/-- The first value of a member is followed by another part. -/
theorem elementParts_cons
    (closing first : List Byte) (others : List (List Byte)) :
    ∃ next rest,
      elementParts closing (first :: others) = first :: next :: rest := by
  cases others with
  | nil => exact ⟨closing, [], rfl⟩
  | cons second others => exact ⟨_, _, rfl⟩

section Members

variable {sample : Sample} (wellFormed : sample.WellFormed)
  {i : Nat} {slot : Slot} {first : List Byte} {others : List (List Byte)}
  (placed : sampleSlots[i]? = some slot)
  (valued : sample.values[i]? = some (first :: others))

include wellFormed placed valued

/-- Of the values of a member, the first one is copied. -/
theorem Sample.copyQuoted :
    ∃ text,
      Http.afterKey sample.content (key slot.name (ascii ":")) = .ok text ∧
        ∀ request field, field + first.length ≤ request.length →
          Http.copyQuoted request field text =
            .ok (store request field first) := by
  obtain ⟨rest, search⟩ := Sample.afterKey wellFormed placed valued
  obtain ⟨next, more, parts⟩ := elementParts_cons slot.closing first others
  have opened : quote ∉ slot.opening := fun member =>
    (sampleSlots_lack_quote slot (List.mem_of_getElem? placed)).2.1
      (List.mem_append_right _ member)
  have plain :=
    (wellFormed.plain _ (List.mem_of_getElem? valued) first
      (List.mem_cons_self ..)).1
  refine ⟨_, search, ?_⟩
  intro request field fits
  rw [parts]
  exact copyQuoted_marked opened plain (List.cons_ne_nil _ _) fits

theorem Sample.scanQuoted :
    ∃ text,
      Http.afterKey sample.content (key slot.name (ascii ":")) = .ok text ∧
        ∀ request field, field + 4 ≤ request.length →
          ∃ after,
            Http.scanQuoted request field text = .ok after ∧
              Frame field (field + 4) request after := by
  obtain ⟨rest, search⟩ := Sample.afterKey wellFormed placed valued
  obtain ⟨next, more, parts⟩ := elementParts_cons slot.closing first others
  have opened : quote ∉ slot.opening := fun member =>
    (sampleSlots_lack_quote slot (List.mem_of_getElem? placed)).2.1
      (List.mem_append_right _ member)
  refine ⟨_, search, ?_⟩
  intro request field fits
  rw [parts]
  exact scanQuoted_marked opened fits

end Members

/-- The bytes of the zeroed record. -/
theorem slice_zero {start : Nat} (inside : start < Request.size) :
    (Request.zero.drop start).take 1 = [0] := by
  rw [Request.zero, List.drop_replicate, List.take_replicate,
    Nat.min_eq_left (by omega)]
  rfl

theorem length_zero : Request.zero.length = Request.size :=
  List.length_replicate

/-- Short texts stored in the list fields are strings. -/
theorem cString_lists
    {request type normal image : List Byte}
    (blank : Frame 0 Request.typeList Request.zero request)
    (typeFree : 0 ∉ type) (normalFree : 0 ∉ normal) (imageFree : 0 ∉ image)
    (typeShort : type.length ≤ 7) (normalShort : normal.length ≤ 7)
    (imageShort : image.length ≤ 7) :
    let after :=
      store (store (store request Request.typeList type)
        Request.imageNormalPath normal) Request.imagePathList image
    after.length = Request.size ∧
      cString (after.drop Request.typeList) = .ok type ∧
      cString (after.drop Request.imageNormalPath) = .ok normal ∧
      cString (after.drop Request.imagePathList) = .ok image := by
  simp only [Request.typeList, Request.imageNormalPath,
    Request.imagePathList] at blank ⊢
  have size : request.length = 1092 := blank.length.trans length_zero
  have zero (start : Nat) (low : 600 ≤ start) (inside : start < 1092) :
      (request.drop start).take 1 = [0] := by
    rw [blank.slice (by omega), slice_zero inside]
  have first := frame_store request 600 type (by omega)
  have second :=
    frame_store (store request 600 type) 700 normal
      (by rw [first.length]; omega)
  have third :=
    frame_store (store (store request 600 type) 700 normal) 896 image
      (by rw [second.length, first.length]; omega)
  have inType : type.length < 32 := by omega
  have inNormal : normal.length < 128 := by omega
  refine ⟨?_, ?_, ?_, ?_⟩
  · rw [third.length, second.length, first.length, size]
  · have stored := cString_store typeFree (by omega)
      (zero (600 + type.length) (by omega) (by omega))
    have kept := cString_of_slice stored inType (second.slice (by omega))
    exact cString_of_slice kept inType (third.slice (by omega))
  · have blank' :
        ((store request 600 type).drop (700 + normal.length)).take 1 =
          [0] := by
      rw [first.slice (by omega)]
      exact zero _ (by omega) (by omega)
    have stored :=
      cString_store normalFree (by rw [first.length]; omega) blank'
    exact cString_of_slice stored inNormal (third.slice (by omega))
  · refine cString_store imageFree ?_ ?_
    · rw [second.length, first.length]
      omega
    · rw [second.slice (by omega), first.slice (by omega)]
      exact zero _ (by omega) (by omega)

/-- A key behind which the code goes on was found. -/
theorem isSome_of_afterKey
    {text key behind : List Byte} (found : afterKey text key = .ok behind) :
    (strstr text key).isSome = true := by
  rw [afterKey] at found
  cases search : strstr text key with
  | none =>
      rw [search] at found
      cases found
  | some position => rfl

/-- The keys of the parser are those of the sample. -/
theorem parser_keys :
    ascii "\"requestHostIp\":" = key (ascii "requestHostIp") (ascii ":") ∧
      ascii "\"requestHostPort\":" =
        key (ascii "requestHostPort") (ascii ":") ∧
      ascii "\"requestId\":" = key (ascii "requestId") (ascii ":") ∧
      ascii "\"objectId\":" = key (ascii "objectId") (ascii ":") ∧
      ascii "\"typeList\":" = key (ascii "typeList") (ascii ":") ∧
      ascii "\"imageNormalPath\":" =
        key (ascii "imageNormalPath") (ascii ":") ∧
      ascii "\"imageList\":" = key (ascii "imageList") (ascii ":") := by
  decide

/-- The first elements of the three arrays are copied into their fields. -/
theorem Sample.extractFields
    {sample : Sample} (wellFormed : sample.WellFormed)
    {type normal image : List Byte} {types normals images : List (List Byte)}
    (typeList : sample.typeList = type :: types)
    (imageNormalPath : sample.imageNormalPath = normal :: normals)
    (imageList : sample.imageList = image :: images) :
    ∃ after,
      Http.extractFields sample.content Request.zero = .ok after ∧
        after.length = Request.size ∧
        cString (after.drop Request.typeList) = .ok type ∧
        cString (after.drop Request.imageNormalPath) = .ok normal ∧
        cString (after.drop Request.imagePathList) = .ok image := by
  obtain ⟨hostIpText, hostIpKey, hostIpCopy⟩ :=
    Sample.copyQuoted wellFormed (i := 0) rfl rfl
  obtain ⟨hostPortText, hostPortKey, hostPortScan⟩ :=
    Sample.scanQuoted wellFormed (i := 1) rfl rfl
  obtain ⟨requestIdText, requestIdKey, requestIdCopy⟩ :=
    Sample.copyQuoted wellFormed (i := 2) rfl rfl
  obtain ⟨objectIdText, objectIdKey, objectIdScan⟩ :=
    Sample.scanQuoted wellFormed (i := 4) rfl rfl
  obtain ⟨typeListText, typeListKey, typeListCopy⟩ :=
    Sample.copyQuoted wellFormed (i := 5) rfl (congrArg some typeList)
  obtain ⟨normalText, normalKey, normalCopy⟩ :=
    Sample.copyQuoted wellFormed (i := 6) rfl (congrArg some imageNormalPath)
  obtain ⟨imageText, imageKey, imageCopy⟩ :=
    Sample.copyQuoted wellFormed (i := 7) rfl (congrArg some imageList)
  obtain ⟨k0, k1, k2, k3, k4, k5, k6⟩ := parser_keys
  have present := isSome_of_afterKey normalKey
  simp only [Http.extractFields, k0, k1, k2, k3, k4, k5, k6, present]
  simp only [bind, Except.bind, hostIpKey, hostPortKey, requestIdKey,
    objectIdKey, typeListKey, normalKey, imageKey, if_true]
  have hostIpShort := wellFormed.requestHostIp.2
  have requestIdShort := wellFormed.requestId.2
  have types := wellFormed.typeList.elements type
    (typeList ▸ List.mem_cons_self ..)
  have normals := wellFormed.imageNormalPath.elements normal
    (imageNormalPath ▸ List.mem_cons_self ..)
  have images := wellFormed.imageList.elements image
    (imageList ▸ List.mem_cons_self ..)
  have size : Request.zero.length = 1092 := length_zero
  have one :=
    frame_store Request.zero 0 sample.requestHostIp (by omega)
  obtain ⟨second, scanPort, two⟩ :=
    hostPortScan (store Request.zero 0 sample.requestHostIp) 16
      (by rw [one.length]; omega)
  have three :=
    frame_store second 20 sample.requestId
      (by rw [two.length, one.length]; omega)
  obtain ⟨fourth, scanObject, four⟩ :=
    objectIdScan (store second 20 sample.requestId) 596
      (by rw [three.length, two.length, one.length]; omega)
  have blank : Frame 0 600 Request.zero fourth :=
    (((one.widen (by omega) (by omega)).trans
      (two.widen (by omega) (by omega))).trans
      (three.widen (by omega) (by omega))).trans
      (four.widen (by omega) (by omega))
  have stored :=
    cString_lists blank types.1.2 normals.1.2 images.1.2 types.2.2.2
      normals.2.2.2 images.2.2.2
  refine ⟨_, ?_, stored⟩
  have room : fourth.length = 1092 := blank.length.trans size
  have five := frame_store fourth 600 type (by omega)
  have six :=
    frame_store (store fourth 600 type) 700 normal
      (by rw [five.length]; omega)
  have copyIp := hostIpCopy Request.zero 0 (by omega)
  have copyId :=
    requestIdCopy second 20 (by rw [two.length, one.length]; omega)
  have copyType := typeListCopy fourth 600 (by omega)
  have copyNormal :=
    normalCopy (store fourth 600 type) 700 (by rw [five.length]; omega)
  have copyImage :=
    imageCopy (store (store fourth 600 type) 700 normal) 896
      (by rw [six.length, five.length]; omega)
  simp only [Request.requestHostIp, Request.requestHostPort,
    Request.requestId, Request.objectId, Request.typeList,
    Request.imageNormalPath, Request.imagePathList, copyIp, scanPort, copyId,
    scanObject, copyType, copyNormal, copyImage]

/-! ## The tables -/

theorem printStrings_ok
    {request : List Byte} {fields : List Nat}
    (strings : ∀ field ∈ fields,
      ∃ text, cString (request.drop field) = .ok text) :
    printStrings request fields = .ok () := by
  induction fields with
  | nil => rfl
  | cons field fields induction =>
      rw [List.forall_mem_cons] at strings
      obtain ⟨text, string⟩ := strings.1
      rw [printStrings, string]
      exact induction strings.2

/-- The strings of a table can be printed. -/
theorem Holds.printTable
    {request : List Byte} {table : Nat} {strings : List (List Byte)}
    (holds : Holds request table strings) :
    Http.printTable request table = .ok () := by
  have few := holds.few
  have small : (BitVec.ofNat 32 strings.length).toNat = strings.length :=
    Nat.mod_eq_of_lt (by omega)
  have count : (loadInt request table).toInt.toNat = strings.length := by
    rw [holds.count, BitVec.toInt_eq_toNat_of_lt (by rw [small]; omega),
      small, Int.toNat_natCast]
  refine printStrings_ok ?_
  intro field member
  rw [List.mem_map] at member
  obtain ⟨i, inside, rfl⟩ := member
  rw [List.mem_range, count] at inside
  exact ⟨_, holds.rows i inside⟩

/-- An element of an array is a token of its own. -/
theorem tokens_element
    {values : List (List Byte)} (list : ListValues values) {value : List Byte}
    (member : value ∈ values) :
    tokens listDelimiters value = [value] := by
  obtain ⟨plain, comma, nonempty, -⟩ := list.elements value member
  refine tokens_last nonempty ?_
  intro byte inside delimiter
  have either : byte = quote ∨ byte = char ',' ∨ byte = quote := by
    simpa [listDelimiters, ascii, char] using delimiter
  rcases either with rfl | rfl | rfl
  · exact plain.1 inside
  · exact comma inside
  · exact plain.1 inside

/-- The values of the list fields behind the first stage. -/
def firstValues (type normal image : List Byte) (loop : TokenLoop) :
    List Byte :=
  if loop.list = Request.typeList then type
  else if loop.list = Request.imagePathList then image
  else normal

theorem forall_tokenLoops {property : TokenLoop → Prop} :
    (∀ loop ∈ tokenLoops true, property loop) ↔
      property typeLoop ∧ property imageLoop ∧ property normalLoop := by
  simp [tokenLoops]

theorem tokensFit_of_single
    {value : List Byte} (single : tokens listDelimiters value = [value])
    (short : value.length ≤ 7) (behind : List Byte) :
    TokensFit value behind := by
  rw [TokensFit, single, RowsFit, overhang_of_short (by decide) short]
  exact ⟨by decide, List.nil_prefix⟩

/-- The loops put one value of each list field into its table. -/
theorem Sample.splitLists
    {sample : Sample} (wellFormed : sample.WellFormed)
    {type normal image filled : List Byte} (typeMember : type ∈ sample.typeList)
    (normalMember : normal ∈ sample.imageNormalPath)
    (imageMember : image ∈ sample.imageList)
    (size : filled.length = Request.size)
    (typeField : cString (filled.drop Request.typeList) = .ok type)
    (normalField : cString (filled.drop Request.imageNormalPath) = .ok normal)
    (imageField : cString (filled.drop Request.imagePathList) = .ok image) :
    ∃ after,
      Http.splitLists true filled = .ok after ∧
        Holds after Request.typeData [type] ∧
        Holds after Request.imageNormalPathData [normal] ∧
        Holds after Request.imagePathListData [image] := by
  have typeTokens := tokens_element wellFormed.typeList typeMember
  have normalTokens :=
    tokens_element wellFormed.imageNormalPath normalMember
  have imageTokens := tokens_element wellFormed.imageList imageMember
  have typeShort := (wellFormed.typeList.elements type typeMember).2.2.2
  have normalShort :=
    (wellFormed.imageNormalPath.elements normal normalMember).2.2.2
  have imageShort := (wellFormed.imageList.elements image imageMember).2.2.2
  have strings : ∀ loop ∈ tokenLoops true,
      cString (filled.drop loop.list) =
        .ok (firstValues type normal image loop) := by
    rw [forall_tokenLoops]
    exact ⟨typeField, imageField, normalField⟩
  have fits : ∀ loop ∈ tokenLoops true,
      (firstValues type normal image loop).length < loop.size := by
    rw [forall_tokenLoops]
    exact
      ⟨lt_of_le_of_lt typeShort (by decide),
        lt_of_le_of_lt imageShort (by decide),
        lt_of_le_of_lt normalShort (by decide)⟩
  have fit : ∀ loop ∈ tokenLoops true,
      TokensFit (firstValues type normal image loop)
        (behindTable (firstValues type normal image) filled loop) := by
    rw [forall_tokenLoops]
    exact
      ⟨tokensFit_of_single typeTokens typeShort _,
        tokensFit_of_single imageTokens imageShort _,
        tokensFit_of_single normalTokens normalShort _⟩
  obtain ⟨after, run⟩ :=
    (exists_safeRun_list_iff (ready_of_strings size strings fits)).mpr fit
  have tables := run.tables
  rw [forall_tokenLoops] at tables
  obtain ⟨typeHolds, imageHolds, normalHolds⟩ := tables
  exact
    ⟨after, run.splitLists, typeTokens ▸ typeHolds,
      normalTokens ▸ normalHolds, imageTokens ▸ imageHolds⟩

/-- The first elements of the arrays reach the tables, and nothing else. -/
theorem Sample.parsePostAContent
    {sample : Sample} (wellFormed : sample.WellFormed)
    {type normal image : List Byte} {types normals images : List (List Byte)}
    (typeList : sample.typeList = type :: types)
    (imageNormalPath : sample.imageNormalPath = normal :: normals)
    (imageList : sample.imageList = image :: images) (rest : List Byte) :
    ∃ after,
      Http.parsePostAContent (sample.content ++ 0 :: rest) Request.zero =
          .ok (0, after) ∧
        Holds after Request.typeData [type] ∧
        Holds after Request.imageNormalPathData [normal] ∧
        Holds after Request.imagePathListData [image] := by
  obtain ⟨filled, extracted, size, typeField, normalField, imageField⟩ :=
    Sample.extractFields wellFormed typeList imageNormalPath imageList
  obtain ⟨after, split, typeHolds, normalHolds, imageHolds⟩ :=
    Sample.splitLists wellFormed (by simp [typeList])
      (by simp [imageNormalPath]) (by simp [imageList]) size typeField
      normalField imageField
  have printed : printStrings filled printedFields = .ok () := by
    refine printStrings_ok ?_
    intro field member
    refine exists_cString_drop ?_ imageField
    revert field
    decide
  obtain ⟨hostIpKeyText, -, -, -, -, normalKeyText, -⟩ := parser_keys
  obtain ⟨_, hostIpKey, -⟩ := Sample.copyQuoted wellFormed (i := 0) rfl rfl
  obtain ⟨_, normalKey, -⟩ :=
    Sample.copyQuoted wellFormed (i := 6) rfl (congrArg some imageNormalPath)
  obtain ⟨position, found⟩ :=
    Option.isSome_iff_exists.mp (isSome_of_afterKey hostIpKey)
  have present := isSome_of_afterKey normalKey
  refine ⟨after, ?_, typeHolds, normalHolds, imageHolds⟩
  rw [parsePostAContent_eq, cString_append_nul (Sample.nulFree wellFormed)]
  simp only [bind, Except.bind, hostIpKeyText, normalKeyText, found, present,
    extracted, printed, split, typeHolds.printTable, imageHolds.printTable,
    normalHolds.printTable]
  rfl

/-- The number of strings that a table holds. -/
theorem Holds.length_eq
    {request : List Byte} {table : Nat} {strings others : List (List Byte)}
    (holds : Holds request table strings)
    (also : Holds request table others) :
    strings.length = others.length := by
  have few := holds.few
  have few' := also.few
  have same := congrArg BitVec.toNat (holds.count.symm.trans also.count)
  rw [BitVec.toNat_ofNat, BitVec.toNat_ofNat] at same
  omega

/-- The parser accepts a request and the tables hold its arrays. -/
def Extracts (sample : Sample) (rest : List Byte) : Prop :=
  ∃ after,
    parsePostAContent (sample.content ++ 0 :: rest) Request.zero =
        .ok (0, after) ∧
      Holds after Request.typeData sample.typeList ∧
      Holds after Request.imageNormalPathData sample.imageNormalPath ∧
      Holds after Request.imagePathListData sample.imageList

/-- The tables hold the arrays exactly if each array has one element. -/
theorem extracts_iff
    (sample : Sample) (wellFormed : sample.WellFormed) (rest : List Byte) :
    Extracts sample rest ↔
      sample.typeList.length = 1 ∧ sample.imageNormalPath.length = 1 ∧
        sample.imageList.length = 1 := by
  obtain ⟨type, types, typeList⟩ :=
    List.exists_cons_of_ne_nil wellFormed.typeList.nonempty
  obtain ⟨normal, normals, imageNormalPath⟩ :=
    List.exists_cons_of_ne_nil wellFormed.imageNormalPath.nonempty
  obtain ⟨image, images, imageList⟩ :=
    List.exists_cons_of_ne_nil wellFormed.imageList.nonempty
  obtain ⟨record, parsed, typeHolds, normalHolds, imageHolds⟩ :=
    Sample.parsePostAContent wellFormed typeList imageNormalPath imageList
      rest
  constructor
  · rintro ⟨after, result, types', normals', images'⟩
    rw [parsed, Except.ok.injEq, Prod.mk.injEq] at result
    obtain ⟨-, rfl⟩ := result
    exact
      ⟨types'.length_eq typeHolds, normals'.length_eq normalHolds,
        images'.length_eq imageHolds⟩
  · rintro ⟨oneType, oneNormal, oneImage⟩
    rw [typeList, List.length_cons, Nat.add_eq_right,
      List.length_eq_zero_iff] at oneType
    rw [imageNormalPath, List.length_cons, Nat.add_eq_right,
      List.length_eq_zero_iff] at oneNormal
    rw [imageList, List.length_cons, Nat.add_eq_right,
      List.length_eq_zero_iff] at oneImage
    rw [oneType] at typeList
    rw [oneNormal] at imageNormalPath
    rw [oneImage] at imageList
    exact
      ⟨record, parsed, typeList ▸ typeHolds, imageNormalPath ▸ normalHolds,
        imageList ▸ imageHolds⟩

/-- A request with the given types and one image. -/
def typesSample (types : List (List Byte)) : Sample :=
  ⟨ascii "10.0.0.1", ascii "80", ascii "7", ascii "121", types,
    [ascii "qwerty"], [ascii "a.jpg"]⟩

/-- One type, one normal path and one image. -/
theorem extracts_iff_oneType :
    Extracts (typesSample [ascii "bj_bpmh"]) [] :=
  (extracts_iff (typesSample [ascii "bj_bpmh"])
    (by decide) []).mpr (by decide)

/-- Of the two types of the client's sample, the second one is lost. -/
theorem twoTypes_not_extracts :
    (typesSample [ascii "bj_bpmh", ascii "bj_bpps"]).WellFormed ∧
      ¬ Extracts (typesSample [ascii "bj_bpmh", ascii "bj_bpps"]) [] := by
  have wellFormed :
      (typesSample [ascii "bj_bpmh", ascii "bj_bpps"]).WellFormed := by
    decide
  refine ⟨wellFormed, ?_⟩
  rintro ⟨after, result, types, -⟩
  obtain ⟨record, parsed, typeHolds, -⟩ :=
    Sample.parsePostAContent wellFormed rfl rfl rfl []
  rw [parsed, Except.ok.injEq, Prod.mk.injEq] at result
  obtain ⟨-, rfl⟩ := result
  exact absurd (types.length_eq typeHolds) (by decide)

end CommonCode.Http
