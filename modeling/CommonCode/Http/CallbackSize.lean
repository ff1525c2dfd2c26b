import CommonCode.Http.Callback

/-!
# The size of a callback

`main` prints the content of a callback into 512 bytes and the packet into
1024.  The length of the content is a sum over the fields of the two records,
and only the fields bound it: a result file of less than 256 bytes can name
enough points to exceed the buffer.
-/

namespace CommonCode.Http

open CommonCode.Lib.Bits
open CommonCode.Lib.CString
open CommonCode.Lib.CScan

variable {floating : Floating}

/-! ## The length of the content -/

def strlen (memory : List Byte) : Nat :=
  (memory.takeWhile fun byte => byte ≠ 0).length

theorem length_of_cString {memory text : List Byte}
    (string : cString memory = .ok text) : text.length = strlen memory := by
  rw [cString] at string
  split at string
  · rw [Except.ok.injEq] at string
    rw [strlen, string]
  · cases string

/-- The bytes for point `j` of an area, without the comma. -/
def pointLength (area : Area floating) (j : Nat) : Nat :=
  15 + (floating.print (area.x.getD j floating.zero)).length +
    (floating.print (area.y.getD j floating.zero)).length

/-- The bytes for an area, without the comma behind it. -/
def areaLength (area : Area floating) : Nat :=
  12 + ((List.range area.count).map (pointLength area)).sum +
    (area.count - 1)

/-- The bytes of the content of a callback. -/
def contentBytes (request : List Byte) (result : ResultJson floating) : Nat :=
  140 + strlen (request.drop Request.requestId) +
    (formatInt (loadInt request Request.objectId).toInt).length +
    strlen result.type + strlen result.value +
    (formatInt result.code.toInt).length + strlen result.resImagePath +
    (floating.print result.conf).length + strlen result.desc +
    ((List.range result.count).map fun i =>
      areaLength (result.area.getD i ⟨0, [], []⟩)).sum +
    (result.count - 1)

/-- The sizes of two loops agree when those of all rounds do. -/
theorem sum_of_mapM
    {α β : Type} {step : α → Except Fault β} (size : β → Nat)
    {expected : α → Nat} {elements : List α} {results : List β}
    (each :
      ∀ element ∈ elements, ∀ result,
        step element = .ok result → size result = expected element)
    (run : elements.mapM step = .ok results) :
    (results.map size).sum = (elements.map expected).sum := by
  induction elements generalizing results with
  | nil =>
      cases run
      rfl
  | cons element elements induction =>
      rw [List.forall_mem_cons] at each
      rw [List.mapM_cons] at run
      obtain ⟨first, here, run⟩ := bind_eq_ok_iff.mp run
      obtain ⟨rest, later, run⟩ := bind_eq_ok_iff.mp run
      cases run
      rw [List.map_cons, List.sum_cons, List.map_cons, List.sum_cons,
        each.1 first here, induction each.2 later]

/-- A loop places one comma less than it has rounds. -/
theorem sum_separated (size : Nat → Nat) (first count : Nat) :
    ((List.range' first count).map fun i =>
        size i + if i + 1 < first + count then 1 else 0).sum =
      ((List.range' first count).map size).sum + (count - 1) := by
  induction count generalizing first with
  | zero => rfl
  | succ count induction =>
      have shift : first + (count + 1) = first + 1 + count := by omega
      rw [List.range'_succ, List.map_cons, List.sum_cons, List.map_cons,
        List.sum_cons, shift, induction (first + 1)]
      split <;> omega

theorem length_pointTexts
    {area : Area floating} {j : Nat} {texts : List (List Byte)}
    (run : pointTexts area j = .ok texts) :
    texts.flatten.length =
      pointLength area j + if j + 1 < area.count then 1 else 0 := by
  have literals :
      (ascii "\x7b\"x\":\"").length = 6 ∧
        (ascii "\",\"y\":\"").length = 7 ∧ (ascii "\"\x7d").length = 2 ∧
        (ascii ",").length = 1 := by
    decide
  rw [pointTexts] at run
  split at run
  · next x y foundX foundY =>
      cases run
      have atX : area.x.getD j floating.zero = x := by
        rw [List.getD, foundX]
        rfl
      have atY : area.y.getD j floating.zero = y := by
        rw [List.getD, foundY]
        rfl
      rw [pointLength, atX, atY]
      split
      · simp only [List.flatten_append, List.flatten_singleton,
          List.length_append, literals]
        omega
      · simp only [List.append_nil, List.flatten_singleton,
          List.length_append, literals]
        omega
  · cases run

/-- The texts of all rounds together have the lengths of the rounds. -/
theorem length_flatten_flatten (texts : List (List (List Byte))) :
    texts.flatten.flatten.length =
      (texts.map fun round => round.flatten.length).sum := by
  rw [List.flatten_flatten, List.length_flatten, List.map_map]
  rfl

theorem length_areaTexts
    {result : ResultJson floating} {i : Nat} {texts : List (List Byte)}
    (run : areaTexts result i = .ok texts) :
    texts.flatten.length =
      areaLength (result.area.getD i ⟨0, [], []⟩) +
        if i + 1 < result.count then 1 else 0 := by
  have literals :
      (ascii "\x7b\"areas\":[").length = 10 ∧
        (ascii "]\x7d").length = 2 ∧ (ascii ",").length = 1 := by
    decide
  rw [areaTexts] at run
  split at run
  · cases run
  · next area found =>
      obtain ⟨points, loop, run⟩ := bind_eq_ok_iff.mp run
      cases run
      have here : result.area.getD i ⟨0, [], []⟩ = area := by
        rw [List.getD, found]
        rfl
      have sizes :=
        sum_of_mapM (fun round => round.flatten.length)
          (fun j _ _ => length_pointTexts) loop
      have commas := sum_separated (pointLength area) 0 area.count
      rw [Nat.zero_add, ← List.range_eq_range', ← sizes,
        ← length_flatten_flatten] at commas
      rw [here, areaLength]
      split
      · simp only [List.flatten_append, List.flatten_singleton,
          List.length_append, literals, commas]
        omega
      · simp only [List.append_nil, List.flatten_append,
          List.flatten_singleton, List.length_append, literals, commas]
        omega

/-- The length of the content is the sum over the fields. -/
theorem length_callbackContentTexts
    {request : List Byte} {result : ResultJson floating}
    {texts : List (List Byte)}
    (run : callbackContentTexts request result = .ok texts) :
    texts ≠ [] ∧ texts.flatten.length = contentBytes request result := by
  rw [callbackContentTexts] at run
  obtain ⟨requestId, requestIdField, run⟩ := bind_eq_ok_iff.mp run
  obtain ⟨type, typeField, run⟩ := bind_eq_ok_iff.mp run
  obtain ⟨value, valueField, run⟩ := bind_eq_ok_iff.mp run
  obtain ⟨resImagePath, resImagePathField, run⟩ := bind_eq_ok_iff.mp run
  obtain ⟨desc, descField, run⟩ := bind_eq_ok_iff.mp run
  obtain ⟨areas, loop, run⟩ := bind_eq_ok_iff.mp run
  cases run
  refine ⟨List.cons_ne_nil _ _, ?_⟩
  have sizes :=
    sum_of_mapM (fun round => round.flatten.length)
      (fun i _ _ => length_areaTexts) loop
  have commas :=
    sum_separated
      (fun i => areaLength (result.area.getD i ⟨0, [], []⟩)) 0 result.count
  rw [Nat.zero_add, ← List.range_eq_range', ← sizes,
    ← length_flatten_flatten] at commas
  have literals :
      (ascii "\x7b").length = 1 ∧ (ascii "\"requestId\":\"").length = 13 ∧
        (ascii "\",").length = 2 ∧
        (ascii "\"resultsList\":[\x7b").length = 16 ∧
        (ascii "\"objectId\":\"").length = 12 ∧
        (ascii "\"results\":[\x7b").length = 12 ∧
        (ascii "\"type\":\"").length = 8 ∧
        (ascii "\"value\":\"").length = 9 ∧
        (ascii "\"code\":\"").length = 8 ∧
        (ascii "\"resImagePath\":\"").length = 16 ∧
        (ascii "\"pos\":[").length = 7 ∧ (ascii "]").length = 1 ∧
        (ascii "\x7d],").length = 3 ∧ (ascii "\"conf\":\"").length = 8 ∧
        (ascii "\"desc\":\"").length = 8 ∧ (ascii "\"").length = 1 ∧
        (ascii "\x7d]").length = 2 ∧ (ascii "\x7d").length = 1 := by
    decide
  simp only [List.flatten_append, List.flatten_cons, List.flatten_nil,
    List.length_append, List.length_nil, literals, commas,
    length_of_cString requestIdField, length_of_cString typeField,
    length_of_cString valueField, length_of_cString resImagePathField,
    length_of_cString descField, contentBytes]
  omega

/-! ## Accepted results -/

/-- The arrays of `result_json` have their declared sizes. -/
structure Sized (areas : List (Area floating)) : Prop where
  number : areas.length = 32
  points : ∀ area ∈ areas, area.x.length = 4 ∧ area.y.length = 4

theorem length_scanElement
    {values after : List floating.Carrier} {j : Nat} {text : List Byte}
    (scanned : scanElement values j text = .ok after) :
    after.length = values.length := by
  rw [scanElement] at scanned
  split at scanned
  · cases scanned
    rfl
  · split at scanned
    · cases scanned
      exact List.length_set ..
    · cases scanned

theorem length_scanAxis
    {key : List Byte} {fuel : Nat} {start : List Byte}
    {values after : List floating.Carrier} {j count : Nat}
    (scanned : scanAxis key fuel start values j = .ok (after, count)) :
    after.length = values.length := by
  induction fuel generalizing start values j with
  | zero => cases scanned
  | succ fuel induction =>
      rw [scanAxis] at scanned
      obtain ⟨colon, -, scanned⟩ := bind_eq_ok_iff.mp scanned
      obtain ⟨next, element, scanned⟩ := bind_eq_ok_iff.mp scanned
      rw [← length_scanElement element]
      split at scanned
      · cases scanned
        rfl
      · exact induction scanned

theorem length_scanCoordinates
    {key text : List Byte} {values after : List floating.Carrier}
    {count : Nat}
    (scanned : scanCoordinates key text values = .ok (after, count)) :
    after.length = values.length := by
  rw [scanCoordinates] at scanned
  split at scanned
  · cases scanned
    rfl
  · exact length_scanAxis scanned

/--
A round stores one area, with arrays as long as before, and is the last one or
goes on with the next area.
-/
theorem scanAreas_cases
    {fuel : Nat} {start temp : List Byte}
    {areas after : List (Area floating)} {i count : Nat}
    (scanned :
      scanAreas (fuel + 1) start temp areas i = .ok (after, count)) :
    ∃ area stored : Area floating,
      areas[i]? = some area ∧ stored.x.length = area.x.length ∧
        stored.y.length = area.y.length ∧
        (after = areas.set i stored ∧ count = i + 1 ∨
          ∃ behind text,
            scanAreas fuel behind text (areas.set i stored) (i + 1) =
              .ok (after, count)) := by
  rw [scanAreas] at scanned
  obtain ⟨bracket, -, scanned⟩ := bind_eq_ok_iff.mp scanned
  obtain ⟨length, -, scanned⟩ := bind_eq_ok_iff.mp scanned
  obtain ⟨next, -, scanned⟩ := bind_eq_ok_iff.mp scanned
  obtain ⟨text, -, scanned⟩ := bind_eq_ok_iff.mp scanned
  split at scanned
  · cases scanned
  · next area found =>
      obtain ⟨⟨x, rounds⟩, xs, scanned⟩ := bind_eq_ok_iff.mp scanned
      obtain ⟨⟨y, points⟩, ys, scanned⟩ := bind_eq_ok_iff.mp scanned
      refine ⟨area, ⟨points, x, y⟩, found, length_scanCoordinates xs,
        length_scanCoordinates ys, ?_⟩
      dsimp only at scanned
      split at scanned
      · cases scanned
        exact Or.inl ⟨rfl, rfl⟩
      · exact Or.inr ⟨_, _, scanned⟩

/-- A record of the same sizes can be stored. -/
theorem Sized.set
    {areas : List (Area floating)} {i : Nat} {area stored : Area floating}
    (sized : Sized areas) (found : areas[i]? = some area)
    (x : stored.x.length = area.x.length)
    (y : stored.y.length = area.y.length) : Sized (areas.set i stored) := by
  refine ⟨(List.length_set ..).trans sized.number, ?_⟩
  intro other there
  rcases List.mem_or_eq_of_mem_set there with old | rfl
  · exact sized.points other old
  · have size := sized.points area (List.mem_of_getElem? found)
    exact ⟨x.trans size.1, y.trans size.2⟩

/-- The loop over the areas keeps the sizes and counts areas of the record. -/
theorem sized_scanAreas
    {fuel : Nat} {start temp : List Byte}
    {areas after : List (Area floating)} {i count : Nat}
    (sized : Sized areas)
    (scanned : scanAreas fuel start temp areas i = .ok (after, count)) :
    Sized after ∧ count ≤ 32 := by
  induction fuel generalizing start temp areas i with
  | zero => cases scanned
  | succ fuel induction =>
      obtain ⟨area, stored, found, xSize, ySize, further⟩ :=
        scanAreas_cases scanned
      have kept : Sized (areas.set i stored) := sized.set found xSize ySize
      rcases further with ⟨rfl, rfl⟩ | ⟨behind, text, scanned⟩
      · obtain ⟨inside, -⟩ := List.getElem?_eq_some_iff.mp found
        rw [sized.number] at inside
        exact ⟨kept, inside⟩
      · exact induction kept scanned

/-- The areas of an accepted result can be printed. -/
theorem sized_scanPos
    {text : List Byte} {before result : ResultJson floating}
    (sized : Sized before.area) (few : before.count ≤ 32)
    (scanned : scanPos text before = .ok result) :
    Sized result.area ∧ result.count ≤ 32 := by
  rw [scanPos] at scanned
  split at scanned
  · cases scanned
    exact ⟨sized, few⟩
  · split at scanned
    · cases scanned
      exact ⟨sized, Nat.zero_le 32⟩
    · obtain ⟨⟨area, count⟩, loop, scanned⟩ := bind_eq_ok_iff.mp scanned
      cases scanned
      exact sized_scanAreas sized loop

theorem exists_mapM
    {α β : Type} {step : α → Except Fault β} {elements : List α}
    (each : ∀ element ∈ elements, ∃ result, step element = .ok result) :
    ∃ results, elements.mapM step = .ok results := by
  induction elements with
  | nil => exact ⟨[], rfl⟩
  | cons element elements induction =>
      rw [List.forall_mem_cons] at each
      obtain ⟨first, here⟩ := each.1
      obtain ⟨rest, later⟩ := induction each.2
      refine ⟨first :: rest, ?_⟩
      rw [List.mapM_cons, here, later]
      rfl

/-- The texts of an area whose points lie inside its arrays. -/
theorem exists_areaTexts
    {result : ResultJson floating} {i : Nat} {area : Area floating}
    (found : result.area[i]? = some area)
    (size : area.x.length = 4 ∧ area.y.length = 4)
    (few : area.count ≤ 4) :
    ∃ texts, areaTexts result i = .ok texts := by
  obtain ⟨points, loop⟩ :
      ∃ points, (List.range area.count).mapM (pointTexts area) =
        .ok points := by
    apply exists_mapM
    intro j member
    have below : j < area.count := List.mem_range.mp member
    rw [pointTexts, List.getElem?_eq_getElem (by omega : j < area.x.length),
      List.getElem?_eq_getElem (by omega : j < area.y.length)]
    exact ⟨_, rfl⟩
  rw [areaTexts, found]
  simp only [loop]
  exact ⟨_, rfl⟩

/-- What `parse_result_json` prints can be printed once more. -/
theorem exists_callbackContentTexts
    {data request : List Byte} {before result : ResultJson floating}
    (sized : Sized before.area) (few : before.count ≤ 32)
    (parsed : parseResultJson data request before = .ok result) :
    ∃ texts, callbackContentTexts request result = .ok texts := by
  rw [parseResultJson] at parsed
  obtain ⟨text, -, parsed⟩ := bind_eq_ok_iff.mp parsed
  obtain ⟨type, -, parsed⟩ := bind_eq_ok_iff.mp parsed
  obtain ⟨image, imageField, parsed⟩ := bind_eq_ok_iff.mp parsed
  obtain ⟨resImagePath, -, parsed⟩ := bind_eq_ok_iff.mp parsed
  obtain ⟨desc, -, parsed⟩ := bind_eq_ok_iff.mp parsed
  obtain ⟨value, -, parsed⟩ := bind_eq_ok_iff.mp parsed
  obtain ⟨code, -, parsed⟩ := bind_eq_ok_iff.mp parsed
  obtain ⟨conf, -, parsed⟩ := bind_eq_ok_iff.mp parsed
  obtain ⟨scanned, positions, parsed⟩ := bind_eq_ok_iff.mp parsed
  obtain ⟨_, printed, parsed⟩ := bind_eq_ok_iff.mp parsed
  cases parsed
  have sizes : Sized result.area ∧ result.count ≤ 32 := by
    refine sized_scanPos ?_ ?_ positions
    · exact sized
    · exact few
  rw [printResult] at printed
  obtain ⟨typeText, typeField, printed⟩ := bind_eq_ok_iff.mp printed
  obtain ⟨valueText, valueField, printed⟩ := bind_eq_ok_iff.mp printed
  obtain ⟨imageText, resImagePathField, printed⟩ :=
    bind_eq_ok_iff.mp printed
  obtain ⟨descText, descField, printed⟩ := bind_eq_ok_iff.mp printed
  split at printed
  · next counts =>
      have order : Request.requestId ≤ Request.imagePathList := by decide
      obtain ⟨requestIdText, requestIdField⟩ :=
        exists_cString_drop order imageField
      obtain ⟨areas, loop⟩ :
          ∃ areas, (List.range result.count).mapM (areaTexts result) =
            .ok areas := by
        apply exists_mapM
        intro i member
        have below : i < result.count := List.mem_range.mp member
        have inside : i < result.area.length := by
          rw [sizes.1.number]
          omega
        have taken : result.area[i] ∈ result.area.take result.count := by
          rw [List.mem_take_iff_getElem]
          exact ⟨i, by omega, rfl⟩
        rw [List.all_eq_true] at counts
        exact exists_areaTexts (List.getElem?_eq_getElem inside)
          (sizes.1.points _ (List.getElem_mem inside))
          (by simpa using counts _ taken)
      simp only [callbackContentTexts, requestIdField, typeField, valueField,
        resImagePathField, descField, loop]
      exact ⟨_, rfl⟩
  · cases printed

/-! ## The buffers of `main` -/

/-- The path that `main` sends its callbacks to. -/
def notifyPath : List Byte :=
  ascii "/platform/api/v1/task/results/pic-result-notify"

/--
The content of a callback fits into the buffer of `main`, with a length of at
most 511, and so does the packet around it, with a length of at most 1023.
-/
def CallbackFits (request : List Byte) (result : ResultJson floating) : Prop :=
  ∀ content buf : List Byte, content.length = 512 → buf.length = 1024 →
    ∃ printed contentLen text packet packetLen,
      buildACallbackContent content request result =
          .ok (printed, contentLen) ∧
        contentLen ≤ 511 ∧ cString printed = .ok text ∧
        buildCallbackPacket buf text contentLen notifyPath =
          .ok (packet, packetLen) ∧
        packetLen ≤ 1023

/-- The packet is at most 145 bytes longer than a content that fits. -/
theorem length_callbackPacket_le
    (text : List Byte) {contentLen : Nat} (short : contentLen ≤ 511) :
    (callbackPacket text contentLen notifyPath).length ≤
      text.length + 145 := by
  have digits : ∀ n < 512, (formatInt (n : Nat)).length ≤ 3 := by
    decide +kernel
  have header := digits contentLen (by omega)
  have literals :
      (ascii "POST ").length = 5 ∧ notifyPath.length = 47 ∧
        (ascii " HTTP/1.1\r\n").length = 11 ∧
        (ascii "HOST: 10.106.249.210:8080\r\n").length = 27 ∧
        (ascii "Content-Type: ").length = 14 ∧
        (ascii "application/json").length = 16 ∧
        (ascii "\r\n").length = 2 ∧
        (ascii "Content-Length: ").length = 16 := by
    decide +kernel
  simp only [callbackPacket, callbackTexts, List.flatten_cons,
    List.flatten_nil, List.length_append, List.length_nil, literals]
  omega

theorem callbackFits_iff_texts
    {request : List Byte} {result : ResultJson floating}
    {texts : List (List Byte)}
    (run : callbackContentTexts request result = .ok texts) :
    CallbackFits request result ↔ texts.flatten.length ≤ 511 := by
  obtain ⟨first, rest, rfl⟩ :=
    List.exists_cons_of_ne_nil (length_callbackContentTexts run).1
  constructor
  · intro fits
    obtain ⟨content, contentSize⟩ :
        ∃ content : List Byte, content.length = 512 :=
      ⟨List.replicate 512 0, List.length_replicate⟩
    obtain ⟨buf, bufSize⟩ : ∃ buf : List Byte, buf.length = 1024 :=
      ⟨List.replicate 1024 0, List.length_replicate⟩
    obtain ⟨printed, contentLen, -, -, -, build, -⟩ :=
      fits content buf contentSize bufSize
    rw [buildACallbackContent, run] at build
    have room := printSequence_fits build
    omega
  · intro short content buf contentSize bufSize
    generalize whole : (first :: rest).flatten = text at short
    have build :
        buildACallbackContent content request result =
          .ok (text ++ 0 :: content.drop (text.length + 1), text.length) := by
      rw [buildACallbackContent, run, ← whole]
      exact printSequence_start (by rw [whole]; omega)
    have string :
        cString (text ++ 0 :: content.drop (text.length + 1)) =
          .ok (text.takeWhile fun byte => byte ≠ 0) := by
      rw [cString, if_pos (by simp), List.takeWhile_append]
      split
      · next all =>
          have same := (List.takeWhile_prefix _).eq_of_length all
          rw [List.takeWhile_cons_of_neg (by simp), List.append_nil, same]
      · rfl
    have copied :
        (text.takeWhile fun byte => byte ≠ 0).length ≤ text.length :=
      (List.takeWhile_prefix _).length_le
    generalize text.takeWhile (fun byte => byte ≠ 0) = visible
      at string copied
    have size := length_callbackPacket_le visible short
    exact ⟨_, _, _, _, _, build, short, string,
      buildCallbackPacket_eq (by omega), by omega⟩

/--
For every result that `parse_result_json` accepts, from whatever file, the
callback fits into the buffers of `main` exactly if the sum over the fields of
the two records is at most 511.
-/
theorem callbackFits_iff
    (file request : List Byte) (before result : ResultJson floating)
    (sized : Sized before.area) (few : before.count ≤ 32)
    (parsed :
      parseResultJson (readResultJson (some file)) request before =
        .ok result) :
    CallbackFits request result ↔ contentBytes request result ≤ 511 := by
  obtain ⟨texts, run⟩ := exists_callbackContentTexts sized few parsed
  rw [callbackFits_iff_texts run, (length_callbackContentTexts run).2]

/-! ## Two requests -/

/-- A request with all its fields. -/
def plainRequest : List Byte :=
  ascii "\x7b\"requestHostIp\":\"1\",\"requestHostPort\":\"2\",\"requestId\":\"3\"," ++
    ascii "\"objectId\":\"4\",\"typeList\":[\"a\"],\"imageList\":[\"b\"]\x7d"

/-- A result with an area of two points. -/
def twoPoints : List Byte :=
  ascii "\x7b\"pos\":[\x7b\"areas\":[\x7b\"x\":\t1,\"y\":\t22\x7d," ++
    ascii "\x7b\"x\":\t333,\"y\":\t4\x7d]\x7d]\x7d"

/-- A result with three areas of four points, as cJSON prints numbers. -/
def threeAreas : List Byte :=
  let point := ascii "\x7b\"x\":\t1,\"y\":\t1\x7d"
  let area :=
    ascii "\x7b\"areas\":[" ++ point ++ ascii "," ++ point ++ ascii "," ++
      point ++ ascii "," ++ point ++ ascii "]\x7d"
  ascii "\x7b\"pos\":[" ++ area ++ ascii "," ++ area ++ ascii "," ++ area ++
    ascii "]\x7d"

/-- Both parsers on a request and a result file. -/
def parsedSize (content file : List Byte) : Except Fault (Int × Nat) := do
  let (code, request) ← parsePostAContent content Request.zero
  let result ←
    parseResultJson (readResultJson (some file)) request
      (ResultJson.zero naturals)
  return (code, contentBytes request result)

theorem exists_of_parsedSize
    {content file : List Byte} {code : Int} {size : Nat}
    (parsed : parsedSize content file = .ok (code, size)) :
    ∃ request result,
      parsePostAContent content Request.zero = .ok (code, request) ∧
        parseResultJson (readResultJson (some file)) request
            (ResultJson.zero naturals) = .ok result ∧
        contentBytes request result = size := by
  obtain ⟨⟨returned, request⟩, accepted, parsed⟩ :=
    bind_eq_ok_iff.mp parsed
  obtain ⟨result, scanned, parsed⟩ := bind_eq_ok_iff.mp parsed
  cases parsed
  exact ⟨request, result, accepted, scanned, rfl⟩

theorem sized_zero : Sized (ResultJson.zero naturals).area where
  number := List.length_replicate
  points area member := by
    rw [List.eq_of_mem_replicate member]
    exact ⟨rfl, rfl⟩

/-- With one area of two points the callback fits. -/
theorem callbackFits_iff_twoPoints :
    ∃ request result,
      parsePostAContent (plainRequest ++ [0]) Request.zero =
          .ok (0, request) ∧
        parseResultJson (readResultJson (some twoPoints)) request
            (ResultJson.zero naturals) = .ok result ∧
        CallbackFits request result := by
  have size :
      parsedSize (plainRequest ++ [0]) twoPoints = .ok (0, 246) := by
    decide +kernel
  obtain ⟨request, result, accepted, scanned, bytes⟩ :=
    exists_of_parsedSize size
  refine ⟨request, result, accepted, scanned, ?_⟩
  exact
    (callbackFits_iff twoPoints request _ result sized_zero (Nat.zero_le 32)
      scanned).mpr (by omega)

/-- Three areas of four points do not fit. -/
theorem threeAreas_not_callbackFits :
    threeAreas.length ≤ 1024 ∧
      ∃ request result,
        parsePostAContent (plainRequest ++ [0]) Request.zero =
            .ok (0, request) ∧
          parseResultJson (readResultJson (some threeAreas)) request
              (ResultJson.zero naturals) = .ok result ∧
          ¬ CallbackFits request result := by
  have size :
      parsedSize (plainRequest ++ [0]) threeAreas = .ok (0, 587) := by
    decide +kernel
  obtain ⟨request, result, accepted, scanned, bytes⟩ :=
    exists_of_parsedSize size
  refine ⟨by decide +kernel, request, result, accepted, scanned, ?_⟩
  obtain ⟨texts, run⟩ :=
    exists_callbackContentTexts sized_zero (Nat.zero_le 32) scanned
  rw [callbackFits_iff_texts run, (length_callbackContentTexts run).2]
  omega

end CommonCode.Http
