import CommonCode.Http.Packet
import CommonCode.Http.Result
import CommonCode.Json.Builders
import CommonCode.Json.Validity

/-!
# The content of a callback is JSON

`build_A_callback_content` prints some twenty fragments with commas and
brackets placed by hand.  Their concatenation is the unformatted text of a tree
of cJSON, for any number of areas and any number of points in each, so it is a
text of the JSON grammar and the tree can be read back from it.
-/

namespace CommonCode.Http

open CommonCode.Lib.Bits
open CommonCode.Lib.CString
open CommonCode.Lib.CScan
open CommonCode.Lib
open CommonCode.Json

/-! ## The state of the two records -/

/-- A text without quotation mark, backslash and control byte. -/
def Plain (text : List Byte) : Prop :=
  ∀ byte ∈ text, 32 ≤ byte.toNat ∧ byte ≠ char '"' ∧ byte ≠ char '\\'

/-- A number as `%lf` prints it. -/
def DecimalLexeme (text : List Byte) : Prop :=
  text ≠ [] ∧
    ∀ byte ∈ text, isDigit byte = true ∨ byte = char '-' ∨ byte = char '.'

variable {floating : Floating}

/--
The strings that the two records hold, and what the program guarantees about
the counts.
-/
structure CallbackState (request : List Byte) (result : ResultJson floating)
    where
  requestId : List Byte
  type : List Byte
  value : List Byte
  resImagePath : List Byte
  desc : List Byte
  requestIdField : cString (request.drop Request.requestId) = .ok requestId
  typeField : cString result.type = .ok type
  valueField : cString result.value = .ok value
  resImagePathField : cString result.resImagePath = .ok resImagePath
  descField : cString result.desc = .ok desc
  plain : ∀ text ∈ [requestId, type, value, resImagePath, desc], Plain text
  count : result.count ≤ 32
  areas : result.area.length = 32
  sizes : ∀ area ∈ result.area, area.x.length = 4 ∧ area.y.length = 4
  counts : ∀ area ∈ result.area.take result.count, area.count ≤ 4

/-! ## The document -/

section Document

variable {Double : Type}

/-- Point `j` of an area. -/
def pointNode (area : Area floating) (j : Nat) : CJson Double :=
  objectNode
    [("x", .string (floating.print (area.x.getD j floating.zero))),
      ("y", .string (floating.print (area.y.getD j floating.zero)))]

/-- Area `i` of a result. -/
def areaNode (result : ResultJson floating) (i : Nat) : CJson Double :=
  let area := result.area.getD i ⟨0, [], []⟩
  objectNode [("areas", .array ((List.range area.count).map (pointNode area)))]

/-- The one result in a callback. -/
def resultNode {request : List Byte} {result : ResultJson floating}
    (state : CallbackState request result) : CJson Double :=
  objectNode
    [("type", .string state.type), ("value", .string state.value),
      ("code", .string (formatInt result.code.toInt)),
      ("resImagePath", .string state.resImagePath),
      ("pos", .array ((List.range result.count).map (areaNode result)))]

/-- What the two records say, as a tree. -/
def callbackNode {request : List Byte} {result : ResultJson floating}
    (state : CallbackState request result) : CJson Double :=
  objectNode
    [("requestId", .string state.requestId),
      ("resultsList", .array
        [objectNode
          [("objectId", .string
              (formatInt (loadInt request Request.objectId).toInt)),
            ("results", .array [resultNode state]),
            ("conf", .string (floating.print result.conf)),
            ("desc", .string state.desc)]])]

end Document

/-! ## Unformatted texts -/

section Compact

variable {Double : Type} (arithmetic : Arithmetic Double)

theorem printStringPtr_plain {text : List Byte} (plain : Plain text) :
    printStringPtr text = char '"' :: (text ++ [char '"']) := by
  have clear : text.any flagged = false := by
    rw [List.any_eq_false]
    intro byte member flag
    have visible :
        ∀ byte : Byte, 32 ≤ byte.toNat → byte ≠ char '"' →
          byte ≠ char '\\' → ¬ flagged byte = true := by
      decide
    have other := plain byte member
    exact visible byte other.1 other.2.1 other.2.2 flag
  rw [printStringPtr, clear]
  rfl

/-- Entries with commas between them, as the loops of the source place them. -/
theorem flatMap_separated (item : Nat → List Byte) (first count : Nat) :
    (List.range' first count).flatMap
        (fun i =>
          item i ++ if i + 1 < first + count then ascii "," else []) =
      composeItems false ((List.range' first count).map item) := by
  induction count generalizing first with
  | zero => rfl
  | succ count induction =>
      have shift : first + (count + 1) = first + 1 + count := by omega
      rw [List.range'_succ, List.flatMap_cons, List.map_cons, composeItems,
        shift, induction (first + 1)]
      congr 2
      cases count with
      | zero => simp
      | succ count =>
          rw [if_pos (by omega), if_neg (by simp [List.range'_succ])]
          rfl

/-- The array that a loop of the source prints between its brackets. -/
theorem printValue_array_range (depth count : Nat)
    (node : Nat → CJson Double) :
    ascii "[" ++
        (List.range count).flatMap
          (fun i =>
            printValue arithmetic false (depth + 1) (node i) ++
              if i + 1 < count then ascii "," else []) ++
        ascii "]" =
      printValue arithmetic false depth
        (.array ((List.range count).map node)) := by
  have separated :=
    flatMap_separated
      (fun i => printValue arithmetic false (depth + 1) (node i)) 0 count
  rw [Nat.zero_add, ← List.range_eq_range'] at separated
  rw [separated, printValue, printItems_eq_map, List.map_map, printArray]
  split
  · next none =>
      rw [List.map_eq_nil_iff, List.range_eq_nil] at none
      have brackets : ascii "[" ++ [] ++ ascii "]" = ascii "[]" := by
        decide
      rw [none]
      exact brackets
  · rfl

theorem printValue_plain (depth : Nat) {text : List Byte}
    (plain : Plain text) :
    printValue arithmetic false depth (.string text) =
      char '"' :: (text ++ [char '"']) := by
  rw [printValue, printStringPtr_plain plain]

end Compact

/-! ## Numbers are plain -/

theorem plain_formatInt (value : Int) : Plain (formatInt value) := by
  have visible :
      ∀ byte : Byte, byte = char '-' ∨ 48 ≤ byte.toNat ∧ byte.toNat < 58 →
        32 ≤ byte.toNat ∧ byte ≠ char '"' ∧ byte ≠ char '\\' := by
    decide
  intro byte member
  exact visible byte (mem_formatInt member)

theorem DecimalLexeme.plain {text : List Byte} (lexeme : DecimalLexeme text) :
    Plain text := by
  have visible :
      ∀ byte : Byte,
        isDigit byte = true ∨ byte = char '-' ∨ byte = char '.' →
        32 ≤ byte.toNat ∧ byte ≠ char '"' ∧ byte ≠ char '\\' := by
    decide
  intro byte member
  exact visible byte (lexeme.2 byte member)

/-! ## The loops -/

theorem mapM_eq_ok
    {α β : Type} {step : α → Except Fault β} {value : α → β}
    {elements : List α}
    (each : ∀ element ∈ elements, step element = .ok (value element)) :
    elements.mapM step = .ok (elements.map value) := by
  induction elements with
  | nil => rfl
  | cons element elements induction =>
      rw [List.forall_mem_cons] at each
      rw [List.mapM_cons, each.1, induction each.2]
      rfl

section Loops

variable {Double : Type} (arithmetic : Arithmetic Double)

/-- The text of a point in an area. -/
theorem printValue_pointNode
    (lexemes : ∀ value, DecimalLexeme (floating.print value))
    (depth : Nat) (area : Area floating) (j : Nat) :
    printValue arithmetic false depth (pointNode area j) =
      ascii "\x7b\"x\":\"" ++
        floating.print (area.x.getD j floating.zero) ++
        ascii "\",\"y\":\"" ++
        floating.print (area.y.getD j floating.zero) ++ ascii "\"\x7d" := by
  have texts :
      ascii "\x7b\"x\":\"" =
          char '{' :: (printStringPtr (ascii "x") ++ [char ':', char '"']) ∧
        ascii "\",\"y\":\"" =
          [char '"', char ','] ++
            (printStringPtr (ascii "y") ++ [char ':', char '"']) ∧
        ascii "\"\x7d" = [char '"', char '}'] := by
    decide
  rw [texts.1, texts.2.1, texts.2.2, pointNode, objectNode, printValue,
    printMembers_eq_map]
  simp only [List.map_cons, List.map_nil, printObject,
    printValue_plain arithmetic _ (lexemes _).plain]
  simp [composeMembers, format]

/-- The texts that the inner loop prints for a point. -/
theorem pointTexts_eq
    (lexemes : ∀ value, DecimalLexeme (floating.print value))
    (depth : Nat) {area : Area floating} {j : Nat}
    (insideX : j < area.x.length) (insideY : j < area.y.length) :
    pointTexts area j =
      .ok ([printValue arithmetic false depth (pointNode area j)] ++
        if j + 1 < area.count then [ascii ","] else []) := by
  have x : area.x[j]? = some (area.x.getD j floating.zero) := by
    rw [List.getD_eq_getElem _ _ insideX, List.getElem?_eq_getElem insideX]
  have y : area.y[j]? = some (area.y.getD j floating.zero) := by
    rw [List.getD_eq_getElem _ _ insideY, List.getElem?_eq_getElem insideY]
  rw [pointTexts, x, y, printValue_pointNode arithmetic lexemes]
  rfl

/-- The texts of a loop, all in one. -/
theorem flatten_separated (item : Nat → List Byte) (count : Nat) :
    ((List.range count).map
        (fun i =>
          [item i] ++ if i + 1 < count then [ascii ","] else [])).flatten.flatten =
      (List.range count).flatMap
        (fun i => item i ++ if i + 1 < count then ascii "," else []) := by
  rw [List.flatMap_def, List.flatten_flatten, List.map_map]
  congr 1
  apply List.map_congr_left
  intro i _
  simp only [Function.comp_apply]
  split <;> simp

/-- The texts that the outer loop prints for an area. -/
theorem areaTexts_eq
    (lexemes : ∀ value, DecimalLexeme (floating.print value))
    (depth : Nat) {result : ResultJson floating} {i : Nat}
    (inside : i < result.area.length)
    (points :
      ∀ j < (result.area.getD i ⟨0, [], []⟩).count,
        j < (result.area.getD i ⟨0, [], []⟩).x.length ∧
          j < (result.area.getD i ⟨0, [], []⟩).y.length) :
    ∃ texts, areaTexts result i = .ok texts ∧
      texts.flatten =
        printValue arithmetic false depth (areaNode result i) ++
          if i + 1 < result.count then ascii "," else [] := by
  have found :
      result.area[i]? = some (result.area.getD i ⟨0, [], []⟩) := by
    rw [List.getD_eq_getElem _ _ inside, List.getElem?_eq_getElem inside]
  rw [areaTexts, found, areaNode]
  generalize result.area.getD i ⟨0, [], []⟩ = area at points
  let texts (j : Nat) : List (List Byte) :=
    [printValue arithmetic false (depth + 1 + 1) (pointNode area j)] ++
      if j + 1 < area.count then [ascii ","] else []
  have loop :
      (List.range area.count).mapM (pointTexts area) =
        .ok ((List.range area.count).map texts) := by
    apply mapM_eq_ok
    intro j member
    have below := points j (List.mem_range.mp member)
    exact pointTexts_eq arithmetic lexemes _ below.1 below.2
  refine
    ⟨[ascii "\x7b\"areas\":["] ++ ((List.range area.count).map texts).flatten ++
        [ascii "]\x7d"] ++ if i + 1 < result.count then [ascii ","] else [],
      by simp only [loop]; rfl, ?_⟩
  have opening :
      ascii "\x7b\"areas\":[" =
        char '{' :: (printStringPtr (ascii "areas") ++ char ':' :: ascii "[") ∧
        ascii "]\x7d" = ascii "]" ++ [char '}'] := by
    decide
  have array :=
    printValue_array_range arithmetic (depth + 1) area.count (pointNode area)
  rw [objectNode, printValue, printMembers_eq_map]
  simp only [List.map_cons, List.map_nil, printObject, ← array,
    List.flatten_append, flatten_separated, texts, opening.1, opening.2]
  split <;> simp [composeMembers, format]

end Loops

/-! ## The content -/

section Content

variable {Double : Type} (arithmetic : Arithmetic Double)
  {request : List Byte} {result : ResultJson floating}

/-- The outer loop prints an array of areas. -/
theorem areas_eq
    (lexemes : ∀ value, DecimalLexeme (floating.print value))
    (state : CallbackState request result) (depth : Nat) :
    ∃ texts, (List.range result.count).mapM (areaTexts result) = .ok texts ∧
      ascii "[" ++ texts.flatten.flatten ++ ascii "]" =
        printValue arithmetic false depth
          (.array ((List.range result.count).map (areaNode result))) := by
  have each :
      ∀ i ∈ List.range result.count,
        ∃ texts, areaTexts result i = .ok texts ∧
          texts.flatten =
            printValue arithmetic false (depth + 1) (areaNode result i) ++
              if i + 1 < result.count then ascii "," else [] := by
    intro i member
    have below : i < result.count := List.mem_range.mp member
    have inside : i < result.area.length := by
      rw [state.areas]
      exact lt_of_lt_of_le below state.count
    have here : result.area.getD i ⟨0, [], []⟩ = result.area[i] :=
      List.getD_eq_getElem _ _ inside
    have taken : result.area[i] ∈ result.area.take result.count := by
      rw [List.mem_take_iff_getElem]
      exact ⟨i, by omega, rfl⟩
    have size := state.sizes result.area[i] (List.getElem_mem inside)
    have few := state.counts result.area[i] taken
    refine areaTexts_eq arithmetic lexemes _ inside ?_
    intro j point
    rw [here] at point ⊢
    omega
  choose! texts run flat using each
  refine ⟨_, mapM_eq_ok run, ?_⟩
  rw [List.flatten_flatten, List.map_map, ← List.flatMap_def,
    ← printValue_array_range]
  congr 2
  exact List.flatMap_congr flat

/-- The fragments that the source prints are the text of the tree. -/
theorem callbackContentTexts_eq
    (lexemes : ∀ value, DecimalLexeme (floating.print value))
    (state : CallbackState request result) :
    ∃ texts,
      callbackContentTexts request result = .ok texts ∧ texts ≠ [] ∧
        texts.flatten =
          printValue arithmetic false 0 (callbackNode state) := by
  obtain ⟨areas, run, array⟩ := areas_eq arithmetic lexemes state 5
  have plain := state.plain
  simp only [List.forall_mem_cons] at plain
  obtain ⟨requestId, type, value, resImagePath, desc, -⟩ := plain
  simp only [callbackContentTexts, state.requestIdField, state.typeField,
    state.valueField, state.resImagePathField, state.descField, run, bind,
    Except.bind, pure, Except.pure, Except.ok.injEq, exists_eq_left']
  refine ⟨List.cons_ne_nil _ _, ?_⟩
  have names :
      ascii "\"requestId\":\"" =
          printStringPtr (ascii "requestId") ++ [char ':', char '"'] ∧
        ascii "\"resultsList\":[\x7b" =
          printStringPtr (ascii "resultsList") ++
            [char ':', char '[', char '{'] ∧
        ascii "\"objectId\":\"" =
          printStringPtr (ascii "objectId") ++ [char ':', char '"'] ∧
        ascii "\"results\":[\x7b" =
          printStringPtr (ascii "results") ++
            [char ':', char '[', char '{'] ∧
        ascii "\"type\":\"" =
          printStringPtr (ascii "type") ++ [char ':', char '"'] ∧
        ascii "\"value\":\"" =
          printStringPtr (ascii "value") ++ [char ':', char '"'] ∧
        ascii "\"code\":\"" =
          printStringPtr (ascii "code") ++ [char ':', char '"'] ∧
        ascii "\"resImagePath\":\"" =
          printStringPtr (ascii "resImagePath") ++ [char ':', char '"'] ∧
        ascii "\"pos\":[" =
          printStringPtr (ascii "pos") ++ char ':' :: ascii "[" ∧
        ascii "\"conf\":\"" =
          printStringPtr (ascii "conf") ++ [char ':', char '"'] ∧
        ascii "\"desc\":\"" =
          printStringPtr (ascii "desc") ++ [char ':', char '"'] := by
    decide
  have marks :
      ascii "\x7b" = [char '{'] ∧ ascii "\"," = [char '"', char ','] ∧
        ascii "\x7d]," = [char '}', char ']', char ','] ∧
        ascii "\"" = [char '"'] ∧ ascii "\x7d]" = [char '}', char ']'] ∧
        ascii "\x7d" = [char '}'] := by
    decide
  simp only [callbackNode, resultNode, objectNode, List.map_cons,
    List.map_nil]
  generalize
    CJson.array ((List.range result.count).map (areaNode result)) =
      positions at array
  obtain ⟨name0, name1, name2, name3, name4, name5, name6, name7, name8,
    name9, name10⟩ := names
  obtain ⟨mark0, mark1, mark2, mark3, mark4, mark5⟩ := marks
  rw [name0, name1, name2, name3, name4, name5, name6, name7, name8, name9,
    name10, mark0, mark1, mark2, mark3, mark4, mark5]
  simp only [printValue, printMembers, printItems, printObject, printArray,
    printStringPtr_plain requestId, printStringPtr_plain type,
    printStringPtr_plain value, printStringPtr_plain resImagePath,
    printStringPtr_plain desc, printStringPtr_plain (lexemes _).plain,
    printStringPtr_plain (plain_formatInt _), ← array]
  simp [composeMembers, composeItems, format]

theorem Plain.nulFree {text : List Byte} (plain : Plain text) :
    0 ∉ text := by
  intro member
  have visible := (plain 0 member).1
  exact absurd visible (by decide)

theorem printable_string {text : List Byte} (plain : Plain text) :
    Printable arithmetic (.string text) :=
  .string plain.nulFree

theorem printable_areaNode
    (lexemes : ∀ value, DecimalLexeme (floating.print value))
    (result : ResultJson floating) (i : Nat) :
    Printable arithmetic (areaNode result i) := by
  have point (area : Area floating) (j : Nat) :
      Printable arithmetic (pointNode area j) := by
    simp +decide [pointNode, printable_string arithmetic (lexemes _).plain]
  have points (area : Area floating) :
      Printable arithmetic
        (.array ((List.range area.count).map (pointNode area))) := by
    refine .array fun item member => ?_
    obtain ⟨j, -, rfl⟩ := List.mem_map.mp member
    exact point area j
  simp +decide [areaNode, points]

theorem printable_callbackNode
    (lexemes : ∀ value, DecimalLexeme (floating.print value))
    (state : CallbackState request result) :
    Printable arithmetic (callbackNode state) := by
  have plain := state.plain
  simp only [List.forall_mem_cons] at plain
  obtain ⟨requestId, type, value, resImagePath, desc, -⟩ := plain
  have number (value : Int) :=
    printable_string arithmetic (plain_formatInt value)
  have positions :
      Printable arithmetic
        (.array ((List.range result.count).map (areaNode result))) := by
    refine .array fun item member => ?_
    obtain ⟨i, -, rfl⟩ := List.mem_map.mp member
    exact printable_areaNode arithmetic lexemes result i
  have results :
      Printable arithmetic (.array [resultNode state]) := by
    refine .array fun item member => ?_
    rw [List.mem_singleton.mp member]
    simp +decide [resultNode, positions, number,
      printable_string arithmetic type, printable_string arithmetic value,
      printable_string arithmetic resImagePath]
  refine (printable_objectNode_cons ..).mpr
    ⟨by decide, printable_string arithmetic requestId, ?_⟩
  refine (printable_objectNode_cons ..).mpr
    ⟨by decide, .array fun item member => ?_, by simp⟩
  rw [List.mem_singleton.mp member]
  simp +decide [results, number,
    printable_string arithmetic (lexemes result.conf).plain,
    printable_string arithmetic desc]

/--
For every state of the two records with up to 32 areas of up to four points
whose strings are plain, the content that `build_A_callback_content` prints is
a JSON text, `cJSON_Parse` decodes it to the tree of what the records say, and
the returned value is its length.
-/
theorem buildACallbackContent_document
    (exact : arithmetic.Exact)
    (lexemes : ∀ value, DecimalLexeme (floating.print value))
    (state : CallbackState request result) :
    ∃ text : List Byte,
      JsonGrammar.Document text ∧
      (∀ rest,
        cJsonParse arithmetic (text ++ 0 :: rest) =
          .ok (callbackNode state)) ∧
      ∀ buf : List Byte, text.length < buf.length →
        buildACallbackContent buf request result =
          .ok (text ++ 0 :: buf.drop (text.length + 1), text.length) := by
  obtain ⟨texts, run, occupied, flat⟩ :=
    callbackContentTexts_eq arithmetic lexemes state
  have printable := printable_callbackNode arithmetic lexemes state
  refine
    ⟨texts.flatten, ?_, ?_, ?_⟩
  · rw [flat]
    exact (printable.value exact false 0).document
  · intro rest
    rw [flat]
    exact cJsonParse_printValue exact printable rest
  · intro buf fits
    obtain ⟨text, texts, rfl⟩ := List.exists_cons_of_ne_nil occupied
    rw [buildACallbackContent, run]
    exact printSequence_start fits

end Content

/-! ## An example state -/

/-- Natural numbers in the place of `double`, with six decimals. -/
def naturals : Floating where
  Carrier := Nat
  zero := 0
  scan text :=
    let digits := text.takeWhile isDigit
    if digits = [] then none
    else some (digitsValue 0 (digits.map fun byte => byte.toNat - 48))
  print value := decimal value ++ ascii ".000000"

theorem decimalLexeme_naturals (value : Nat) :
    DecimalLexeme (naturals.print value) := by
  refine ⟨?_, ?_⟩
  · simp [naturals, decimal_ne_nil]
  · intro byte member
    rcases List.mem_append.mp member with digit | fraction
    · have range := mem_decimal digit
      refine Or.inl ?_
      simp only [isDigit, Bool.and_eq_true, decide_eq_true_eq]
      omega
    · have literal :
          ∀ byte ∈ ascii ".000000",
            isDigit byte = true ∨ byte = char '-' ∨ byte = char '.' := by
        decide
      exact literal byte fraction

/-- A request with an identifier. -/
def numberedRequest : List Byte :=
  store Request.zero Request.requestId (ascii "42")

/-- A result with an area of two points and an empty one. -/
def twoAreas : ResultJson naturals :=
  { ResultJson.zero naturals with
    count := 2
    type := store (List.replicate 32 0) 0 (ascii "sly_dmyw")
    value := store (List.replicate 32 0) 0 (ascii "3.5")
    resImagePath := store (List.replicate 256 0) 0 (ascii "/root/image/a.rgb")
    desc := store (List.replicate 32 0) 0 (ascii "ok")
    area :=
      ⟨2, ([1, 2, 0, 0] : List Nat), ([3, 4, 0, 0] : List Nat)⟩ ::
        (ResultJson.zero naturals).area.tail }

def twoAreasState : CallbackState numberedRequest twoAreas where
  requestId := ascii "42"
  type := ascii "sly_dmyw"
  value := ascii "3.5"
  resImagePath := ascii "/root/image/a.rgb"
  desc := ascii "ok"
  requestIdField := by decide +kernel
  typeField := by decide +kernel
  valueField := by decide +kernel
  resImagePathField := by decide +kernel
  descField := by decide +kernel
  plain := by
    unfold Plain
    decide +kernel
  count := by decide
  areas := rfl
  sizes := by
    intro area member
    rcases List.mem_cons.mp member with rfl | later
    · exact ⟨rfl, rfl⟩
    · rw [List.eq_of_mem_replicate (List.mem_of_mem_tail later)]
      exact ⟨rfl, rfl⟩
  counts := by
    intro area member
    rcases List.mem_cons.mp (List.mem_of_mem_take member) with rfl | later
    · decide
    · rw [List.eq_of_mem_replicate (List.mem_of_mem_tail later)]
      exact Nat.zero_le 4

theorem buildACallbackContent_document_twoAreas :
    ∃ text : List Byte,
      JsonGrammar.Document text ∧
      (∀ rest,
        cJsonParse rational (text ++ 0 :: rest) =
          .ok (callbackNode twoAreasState)) ∧
      ∀ buf : List Byte, text.length < buf.length →
        buildACallbackContent buf numberedRequest twoAreas =
          .ok (text ++ 0 :: buf.drop (text.length + 1), text.length) :=
  buildACallbackContent_document rational exact_rational
    decimalLexeme_naturals twoAreasState

end CommonCode.Http
