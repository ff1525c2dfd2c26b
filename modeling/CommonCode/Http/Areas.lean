import CommonCode.Http.Coordinates
import CommonCode.Http.ResultFields

/-!
# The areas of a result

The areas of a result are read correctly exactly if no area is followed in the
buffer by points that earlier areas left there.
-/

namespace CommonCode.Http

open CommonCode.Lib.Bits
open CommonCode.Lib.CString
open CommonCode.Lib.CScan
open CommonCode.Lib.Quoted

variable {floating : Floating}

/-! ## All areas -/

/-- What the text of earlier areas leaves behind an area holds no point. -/
structure Unstained (old : List Byte) (area : AreaText floating) : Prop where
  x :
    area.points.length +
      occurrences (key xAxis []) (old.drop area.content.length) ≤ 4
  y : occurrences (key yAxis []) (old.drop area.content.length) = 0

/-- No area is followed by points of earlier ones. -/
def CleanAreas : List Byte → List (AreaText floating) → Prop
  | _, [] => True
  | old, area :: rest =>
      Unstained old area ∧ CleanAreas (overlay old area.content) rest

/-- The loop over the areas leaves the earlier ones alone and goes on. -/
theorem scanAreas_frame
    {fuel : Nat} {start temp : List Byte}
    {areas after : List (Area floating)} {i count : Nat}
    (scanned : scanAreas fuel start temp areas i = .ok (after, count)) :
    i < count ∧ ∀ j < i, after[j]? = areas[j]? := by
  induction fuel generalizing start temp areas i with
  | zero => cases scanned
  | succ fuel induction =>
      rcases scanAreas_cases scanned with ⟨area, stored, -, -, -, further⟩
      rcases further with ⟨rfl, rfl⟩ | ⟨behind, text, scanned⟩
      · refine ⟨Nat.lt_succ_self i, ?_⟩
        intro j below
        exact List.getElem?_set_ne (by omega)
      · rcases induction scanned with ⟨later, same⟩
        refine ⟨by omega, ?_⟩
        intro j below
        rw [same j (by omega), List.getElem?_set_ne (by omega)]

/-- The records of a result hold the points of all areas. -/
def AllHold (areas : List (AreaText floating))
    (records : List (Area floating)) : Prop :=
  ∀ (k : Nat) (area : AreaText floating), areas[k]? = some area →
    ∃ record, records[k]? = some record ∧ area.Holds record

theorem allHold_cons_iff
    {area : AreaText floating} {rest : List (AreaText floating)}
    {records : List (Area floating)} {i : Nat} :
    AllHold (area :: rest) (records.drop i) ↔
      (∃ record, records[i]? = some record ∧ area.Holds record) ∧
        AllHold rest (records.drop (i + 1)) := by
  constructor
  · intro hold
    refine ⟨?_, ?_⟩
    · simpa using hold 0 area rfl
    · intro k later member
      have found := hold (k + 1) later (by simpa using member)
      rw [List.getElem?_drop] at found ⊢
      rwa [Nat.add_assoc, Nat.add_comm 1]
  · rintro ⟨first, hold⟩ k later member
    cases k with
    | zero =>
        cases member
        simpa using first
    | succ k =>
        have found := hold k later (by simpa using member)
        rw [List.getElem?_drop] at found ⊢
        rwa [Nat.add_assoc, Nat.add_comm 1] at found

theorem sized_set
    {records : List (Area floating)} {array : Area floating} {i : Nat}
    (sized : Sized records) (inside : records[i]? = some array)
    (area : AreaText floating) {xs ys : List floating.Carrier}
    (xFits : area.points.length + xs.length ≤ 4)
    (yFits : area.points.length + ys.length ≤ 4) :
    Sized (records.set i (area.stored xs ys array)) := by
  have size := sized.points array (List.mem_of_getElem? inside)
  apply sized.set inside
  · simp only [AreaText.stored, List.length_append, List.length_map,
      List.length_drop, size.1]
    omega
  · simp only [AreaText.stored, List.length_append, List.length_map,
      List.length_drop, size.2]
    omega

/-- No key starts at a closing bracket. -/
theorem strstr_closing (text : List Byte) :
    strstr (char ']' :: text) areasKey =
      (strstr text areasKey).map (· + 1) := by
  have apart : areasKey.isPrefixOf (char ']' :: text) = false := rfl
  rw [strstr, apart]
  rfl

/-- The next area is found behind the bracket that closes the last one. -/
theorem strstr_areasText_cons
    (area : AreaText floating) (rest : List (AreaText floating))
    (behind : List Byte) :
    strstr (char ']' :: areasText (area :: rest) behind) areasKey =
        some (area.gap.length + 1) ∧
      (char ']' :: areasText (area :: rest) behind).drop
          (area.gap.length + 1) =
        area.keyText (areasText rest behind) := by
  refine ⟨?_, ?_⟩
  · rw [strstr_closing, areasText, area.strstr_gap]
    rfl
  · rw [List.drop_succ_cons, areasText, List.drop_left]

/-- The last area is the last one exactly if no key follows it. -/
theorem strstr_areasText_nil_iff (floating : Floating)
    (behind : List Byte) :
    strstr (char ']' :: areasText ([] : List (AreaText floating)) behind)
        areasKey = none ↔
      ¬ areasKey <:+: behind := by
  rw [strstr_closing, Option.map_eq_none_iff, areasText,
    strstr_eq_none_iff]

/-- Without stale points a round stores the points of the area. -/
theorem scanAreas_of_unstained
    {area : AreaText floating} {old : List Byte}
    {records : List (Area floating)} {i : Nat}
    (scratch : Scratch floating old) (sized : Sized records)
    (below : i < records.length) (fuel : Nat) (more : List Byte)
    (unstained : Unstained old area) :
    ∃ record : Area floating,
      area.Holds record ∧ Sized (records.set i record) ∧
        scanAreas (fuel + 1) (area.keyText more) (zeroPadded 512 old)
            records i =
          (strstr (char ']' :: more) areasKey).elim
            (.ok (records.set i record, i + 1))
            fun next =>
              scanAreas fuel ((char ']' :: more).drop next)
                (zeroPadded 512 (overlay old area.content))
                (records.set i record) (i + 1) := by
  have inside := List.getElem?_eq_getElem below
  have size := sized.points _ (List.getElem_mem below)
  rcases scanAreas_step area scratch fuel more inside size with
    ⟨xs, ys, xStale, yStale, step⟩
  have xFits := unstained.x
  have yNone := unstained.y
  rw [← xStale] at xFits
  rw [← yStale] at yNone
  have yFits : area.points.length + ys.length ≤ 4 := by
    rw [yNone]
    exact area.few
  refine ⟨area.stored xs ys records[i],
    (area.holds_stored_iff xs ys _).mpr yNone,
    sized_set sized inside area xFits yFits, ?_⟩
  rw [step, if_pos ⟨xFits, yFits⟩]

/-- A round that stores the points of the area finds no stale ones. -/
theorem unstained_of_scanAreas
    {area : AreaText floating} {old : List Byte}
    {records after : List (Area floating)} {i count : Nat}
    (scratch : Scratch floating old) (sized : Sized records)
    (below : i < records.length) {fuel : Nat} {more : List Byte}
    (scanned :
      scanAreas fuel (area.keyText more) (zeroPadded 512 old) records i =
        .ok (after, count))
    {record : Area floating} (found : after[i]? = some record)
    (holds : area.Holds record) : Unstained old area := by
  cases fuel with
  | zero => cases scanned
  | succ fuel =>
      have inside := List.getElem?_eq_getElem below
      have size := sized.points _ (List.getElem_mem below)
      rcases scanAreas_step area scratch fuel more inside size with
        ⟨xs, ys, xStale, yStale, step⟩
      rw [step] at scanned
      by_cases fits :
          area.points.length + xs.length ≤ 4 ∧
            area.points.length + ys.length ≤ 4
      · rw [if_pos fits] at scanned
        have stored : after[i]? = some (area.stored xs ys records[i]) := by
          cases next : strstr (char ']' :: more) areasKey with
          | none =>
              rw [next] at scanned
              cases scanned
              exact List.getElem?_set_self below
          | some next =>
              rw [next] at scanned
              rw [(scanAreas_frame scanned).2 i (Nat.lt_succ_self i)]
              exact List.getElem?_set_self below
        rw [found, Option.some.injEq] at stored
        subst stored
        refine ⟨?_, ?_⟩
        · rw [← xStale]
          exact fits.1
        · rw [← yStale]
          exact (area.holds_stored_iff xs ys _).mp holds
      · rw [if_neg fits] at scanned
        cases scanned

/--
The loop reads all areas correctly exactly if no area is followed by points of
earlier ones and no key follows the last one.
-/
theorem scanAreas_iff
    (behind : List Byte) {area : AreaText floating}
    {rest : List (AreaText floating)} {old : List Byte}
    {records : List (Area floating)} {i fuel : Nat}
    (scratch : Scratch floating old) (sized : Sized records)
    (room : i + (area :: rest).length ≤ 32)
    (enough : (area.keyText (areasText rest behind)).length < fuel) :
    (∃ after,
      scanAreas fuel (area.keyText (areasText rest behind))
          (zeroPadded 512 old) records i =
        .ok (after, i + (area :: rest).length) ∧
      AllHold (area :: rest) (after.drop i)) ↔
      CleanAreas old (area :: rest) ∧ ¬ areasKey <:+: behind := by
  induction rest generalizing area old records i fuel with
  | nil =>
      have below : i < records.length := by
        rw [sized.number]
        exact room
      constructor
      · rintro ⟨after, scanned, hold⟩
        rcases allHold_cons_iff.mp hold with ⟨⟨record, found, holds⟩, -⟩
        have unstained :=
          unstained_of_scanAreas scratch sized below scanned found holds
        refine ⟨⟨unstained, trivial⟩, ?_⟩
        rw [← strstr_areasText_nil_iff floating]
        cases fuel with
        | zero => cases scanned
        | succ fuel =>
            rcases
                scanAreas_of_unstained scratch sized below fuel
                  (areasText [] behind) unstained with
              ⟨stored, -, -, step⟩
            rw [step] at scanned
            cases next :
                strstr
                  (char ']' :: areasText ([] : List (AreaText floating))
                    behind) areasKey with
            | none => rfl
            | some next =>
                rw [next] at scanned
                exact absurd (scanAreas_frame scanned).1 (lt_irrefl _)
      · rintro ⟨⟨unstained, -⟩, last⟩
        rw [← strstr_areasText_nil_iff floating] at last
        cases fuel with
        | zero => exact absurd enough (Nat.not_lt_zero _)
        | succ fuel =>
            rcases
                scanAreas_of_unstained scratch sized below fuel
                  (areasText [] behind) unstained with
              ⟨stored, holds, -, step⟩
            rw [step, last]
            refine ⟨records.set i stored, rfl, ?_⟩
            rw [allHold_cons_iff]
            refine ⟨⟨stored, List.getElem?_set_self below, holds⟩, ?_⟩
            intro k other member
            cases member
  | cons next rest induction =>
      have below : i < records.length := by
        rw [sized.number]
        rw [List.length_cons] at room
        omega
      have shift :
          i + 1 + (next :: rest).length =
            i + (area :: next :: rest).length := by
        simp only [List.length_cons]
        omega
      rcases strstr_areasText_cons next rest behind with ⟨position, split⟩
      cases fuel with
      | zero => exact absurd enough (Nat.not_lt_zero _)
      | succ fuel =>
          have shorter :
              (next.keyText (areasText rest behind)).length < fuel := by
            rw [AreaText.keyText, areasText] at enough
            simp only [List.length_append, List.length_cons] at enough
            omega
          constructor
          · rintro ⟨after, scanned, hold⟩
            rcases allHold_cons_iff.mp hold with ⟨⟨record, found, holds⟩, later⟩
            have unstained :=
              unstained_of_scanAreas scratch sized below scanned found holds
            rcases
                scanAreas_of_unstained scratch sized below fuel
                  (areasText (next :: rest) behind) unstained with
              ⟨stored, -, size, step⟩
            rw [step, position, Option.elim_some, split, ← shift] at scanned
            have tail :=
              (induction (scratch.overlay area) size (shift ▸ room)
                shorter).mp ⟨after, scanned, later⟩
            exact ⟨⟨unstained, tail.1⟩, tail.2⟩
          · rintro ⟨⟨unstained, clean⟩, last⟩
            rcases
                scanAreas_of_unstained scratch sized below fuel
                  (areasText (next :: rest) behind) unstained with
              ⟨stored, holds, size, step⟩
            rcases (induction (scratch.overlay area) size (shift ▸ room)
                shorter).mpr ⟨clean, last⟩ with
              ⟨after, scanned, later⟩
            refine ⟨after, ?_, ?_⟩
            · rw [step, position, Option.elim_some, split, ← shift]
              exact scanned
            · rw [allHold_cons_iff]
              refine ⟨⟨stored, ?_, holds⟩, later⟩
              rw [(scanAreas_frame scanned).2 i (Nat.lt_succ_self i)]
              exact List.getElem?_set_self below

/-! ## The whole text -/

abbrev posKey : List Byte := ascii "\"pos\":"

/-- The text of a result with areas under the key `pos`. -/
structure ResultText (floating : Floating) where
  front : List Byte
  areas : List (AreaText floating)
  behind : List Byte
  fresh : strstr (front ++ posKey) posKey = some front.length
  nulFree : 0 ∉ front ++ (posKey ++ areasText areas behind)
  number : areas.length ≤ 32

def ResultText.text (result : ResultText floating) : List Byte :=
  result.front ++ (posKey ++ areasText result.areas result.behind)

/-- No key of an area starts inside the key `pos`. -/
theorem strstr_posKey (text : List Byte) :
    strstr (posKey ++ text) areasKey =
      (strstr text areasKey).map (· + 6) := by
  have bytes :
      posKey =
        [char '"', char 'p', char 'o', char 's', char '"', char ':'] := by
    decide
  have literal :
      areasKey =
        [char '"', char 'a', char 'r', char 'e', char 'a', char 's',
          char '"', char ':'] := by
    decide
  have pos : char 'a' ≠ char 'p' ∧ char 'a' ≠ char ':' ∧
      char '"' ≠ char 'p' ∧ char '"' ≠ char 'o' ∧ char '"' ≠ char 's' ∧
      char '"' ≠ char ':' := by
    decide
  rw [bytes, literal]
  simp only [List.cons_append, List.nil_append, strstr, List.isPrefixOf,
    beq_iff_eq, pos, Bool.and_eq_true, false_and, and_false, if_false,
    Option.map_map]
  rfl

theorem ResultText.strstr_front (text : ResultText floating) :
    strstr text.text posKey = some text.front.length ∧
      text.text.drop text.front.length =
        posKey ++ areasText text.areas text.behind := by
  refine ⟨?_, ?_⟩
  · rw [ResultText.text, ← List.append_assoc]
    exact strstr_append_left text.fresh _
  · rw [ResultText.text, List.drop_left]

/-- The loop over the areas starts behind the key `pos`. -/
theorem scanPos_eq
    (text : ResultText floating) (result : ResultJson floating) :
    scanPos text.text result =
      (strstr (areasText text.areas text.behind) areasKey).elim
        (.ok { result with count := 0 })
        fun first =>
          scanAreas (text.text.length + 1)
              ((areasText text.areas text.behind).drop first)
              (zeroPadded 512 []) result.area 0 >>=
            fun scanned =>
              .ok { result with area := scanned.1, count := scanned.2 } := by
  rcases text.strstr_front with ⟨position, start⟩
  rw [scanPos, position]
  simp only [← List.drop_drop, start, strstr_posKey]
  cases strstr (areasText text.areas text.behind) areasKey with
  | none => rfl
  | some first =>
      have behind :
          (posKey ++ areasText text.areas text.behind).drop (first + 6) =
            (areasText text.areas text.behind).drop first := by
        have size : posKey.length = 6 := by decide
        rw [Nat.add_comm, ← List.drop_drop, List.drop_left' size]
      simp only [Option.map_some, behind, Option.elim_some]
      rfl

/-- The areas of a result are read correctly exactly if they are clean. -/
theorem scanPos_iff
    (text : ResultText floating) {result : ResultJson floating}
    (sized : Sized result.area) :
    (∃ after,
      scanPos text.text result = .ok after ∧
        after.count = text.areas.length ∧ AllHold text.areas after.area) ↔
      CleanAreas [] text.areas ∧ ¬ areasKey <:+: text.behind := by
  rw [scanPos_eq]
  cases areas : text.areas with
  | nil =>
      rw [areasText, ← strstr_eq_none_iff]
      constructor
      · rintro ⟨after, scanned, count, -⟩
        refine ⟨trivial, ?_⟩
        cases found : strstr text.behind areasKey with
        | none => rfl
        | some first =>
            rw [found, Option.elim_some] at scanned
            rcases bind_eq_ok_iff.mp scanned with
              ⟨⟨records, number⟩, loop, scanned⟩
            cases scanned
            have positive : 0 < number := (scanAreas_frame loop).1
            exact absurd count positive.ne'
      · rintro ⟨-, last⟩
        rw [last]
        refine ⟨_, rfl, rfl, ?_⟩
        intro k area member
        cases member
  | cons area rest =>
      rw [areasText, area.strstr_gap, Option.elim_some, List.drop_left]
      have enough :
          (area.keyText (areasText rest text.behind)).length <
            text.text.length + 1 := by
        rw [ResultText.text, areas, areasText]
        simp only [List.length_append]
        omega
      have room : 0 + (area :: rest).length ≤ 32 := by
        rw [Nat.zero_add, ← areas]
        exact text.number
      rw [← scanAreas_iff text.behind scratch_nil sized room enough,
        Nat.zero_add]
      constructor
      · rintro ⟨after, scanned, count, hold⟩
        rcases bind_eq_ok_iff.mp scanned with ⟨⟨records, number⟩, loop, scanned⟩
        cases scanned
        refine ⟨records, ?_, hold⟩
        rw [loop]
        exact congrArg _ (congrArg _ count)
      · rintro ⟨records, loop, hold⟩
        rw [loop]
        exact ⟨_, rfl, rfl, hold⟩

/-! ## The whole result -/

/-- A record that holds the points of all areas can be printed. -/
theorem AllHold.counts
    {text : ResultText floating} {records : List (Area floating)}
    (hold : AllHold text.areas records) :
    (records.take text.areas.length).all (fun area => area.count ≤ 4) =
      true := by
  rw [List.all_eq_true]
  intro record member
  rcases List.mem_take_iff_getElem.mp member with ⟨k, inside, rfl⟩
  have below : k < text.areas.length := by omega
  rcases hold k _ (List.getElem?_eq_getElem below) with ⟨other, found, holds⟩
  have present : k < records.length := by omega
  rw [List.getElem?_eq_getElem present, Option.some.injEq] at found
  subst found
  rw [decide_eq_true_iff, holds.count]
  exact (text.areas[k]).few

/-- Areas that are read correctly are also printed. -/
theorem exists_scanPos_print
    {text : ResultText floating} {before : ResultJson floating}
    (sized : Sized before.area) (type : 0 ∈ before.type)
    (value : 0 ∈ before.value) (path : 0 ∈ before.resImagePath)
    (desc : 0 ∈ before.desc) (clean : CleanAreas [] text.areas)
    (last : ¬ areasKey <:+: text.behind) :
    ∃ after,
      (scanPos text.text before >>= fun result =>
          printResult result >>= fun _ => pure result) = .ok after ∧
        after.count = text.areas.length ∧
        AllHold text.areas after.area := by
  rcases (scanPos_iff text sized).mpr ⟨clean, last⟩ with
    ⟨after, positions, count, hold⟩
  rcases scanPos_fields positions with ⟨area, number, rfl⟩
  rcases exists_cString_iff.mpr type with ⟨typeText, typeField⟩
  rcases exists_cString_iff.mpr value with ⟨valueText, valueField⟩
  rcases exists_cString_iff.mpr path with ⟨pathText, pathField⟩
  rcases exists_cString_iff.mpr desc with ⟨descText, descField⟩
  have counts := hold.counts
  rw [← count] at counts
  refine ⟨_, ?_, count, hold⟩
  rw [positions]
  simp only [printResult, bind, Except.bind, typeField, valueField,
    pathField, descField, counts]
  rfl

/--
`parse_result_json` reads all areas correctly exactly if the other fields fit
into the record, no area is followed by points that an earlier one left in the
buffer, and no further areas follow.
-/
theorem parseResultJson_iff
    (text : ResultText floating) (rest request : List Byte)
    {result : ResultJson floating} (sized : Sized result.area) :
    (∃ after,
      parseResultJson (text.text ++ 0 :: rest) request result = .ok after ∧
        after.count = text.areas.length ∧ AllHold text.areas after.area) ↔
      HeaderFits text.text request result ∧ CleanAreas [] text.areas ∧
        ¬ areasKey <:+: text.behind := by
  have nulFree : 0 ∉ text.text := text.nulFree
  have string : cString (text.text ++ 0 :: rest) = .ok text.text :=
    cString_append_nul nulFree rest
  have terminated {field string : List Byte}
      (read : cString field = .ok string) : 0 ∈ field :=
    exists_cString_iff.mp ⟨string, read⟩
  constructor
  · rintro ⟨after, parsed, count, hold⟩
    rw [parseResultJson, string] at parsed
    rcases bind_eq_ok_iff.mp parsed with ⟨_, same, parsed⟩
    cases same
    rcases bind_eq_ok_iff.mp parsed with ⟨type, typeCopy, parsed⟩
    rcases bind_eq_ok_iff.mp parsed with ⟨image, imageField, parsed⟩
    rcases bind_eq_ok_iff.mp parsed with ⟨path, pathPrint, parsed⟩
    rcases bind_eq_ok_iff.mp parsed with ⟨desc, descCopy, parsed⟩
    rcases bind_eq_ok_iff.mp parsed with ⟨value, valueCopy, parsed⟩
    rcases bind_eq_ok_iff.mp parsed with ⟨code, codeScan, parsed⟩
    rcases bind_eq_ok_iff.mp parsed with ⟨conf, confScan, parsed⟩
    rcases bind_eq_ok_iff.mp parsed with ⟨scanned, positions, parsed⟩
    rcases bind_eq_ok_iff.mp parsed with ⟨_, printed, parsed⟩
    cases parsed
    have clean :=
      (scanPos_iff text (by exact sized)).mp ⟨after, positions, count, hold⟩
    rcases scanPos_fields positions with ⟨area, number, rfl⟩
    rw [printResult] at printed
    rcases bind_eq_ok_iff.mp printed with ⟨typeText, typeField, printed⟩
    rcases bind_eq_ok_iff.mp printed with ⟨valueText, valueField, printed⟩
    rcases bind_eq_ok_iff.mp printed with ⟨pathText, pathField, printed⟩
    rcases bind_eq_ok_iff.mp printed with ⟨descText, descField, -⟩
    refine ⟨?_, clean⟩
    exact
      { type := (copyOptional_iff nulFree).mp
          ⟨type, typeCopy, terminated typeField⟩
        desc := (copyOptional_iff nulFree).mp
          ⟨desc, descCopy, terminated descField⟩
        value := (copyOptional_iff nulFree).mp
          ⟨value, valueCopy, terminated valueField⟩
        code := numberOptional_iff.mp ⟨code, codeScan⟩
        conf := numberOptional_iff.mp ⟨conf, confScan⟩
        image :=
          ⟨image, imageField,
            sprintf_image_iff.mp ⟨path, pathPrint, terminated pathField⟩⟩ }
  · rintro ⟨header, clean, last⟩
    rcases (copyOptional_iff nulFree).mpr header.type with
      ⟨type, typeCopy, typeEnd⟩
    rcases (copyOptional_iff nulFree).mpr header.desc with
      ⟨desc, descCopy, descEnd⟩
    rcases (copyOptional_iff nulFree).mpr header.value with
      ⟨value, valueCopy, valueEnd⟩
    rcases numberOptional_iff.mpr header.code with ⟨code, codeScan⟩
    rcases numberOptional_iff.mpr header.conf with ⟨conf, confScan⟩
    rcases header.image with ⟨image, imageField, room⟩
    rcases sprintf_image_iff.mpr room with ⟨path, pathPrint, pathEnd⟩
    have step {α β : Type} (result : α) (next : α → Except Fault β) :
        (Except.ok result >>= next) = next result := rfl
    rw [parseResultJson]
    simp only [string, step, typeCopy, imageField, pathPrint, descCopy,
      valueCopy, codeScan, confScan]
    exact exists_scanPos_print (by exact sized) typeEnd valueEnd pathEnd
      descEnd clean last

/-! ## Two areas -/

/-- The text in front of the first area. -/
def firstGap : List Byte := ascii "\t[\x7b\n\t\t\t"

/-- The text between two areas. -/
def nextGap : List Byte := ascii "\n\t\t\x7d, \x7b\n\t\t\t"

/-- The number at the start of a text, up to a byte that is no digit. -/
theorem carriesNumber_naturals
    {part digits more : List Byte} {stop : Byte} {value : Nat}
    (shape : part = ascii ":\t" ++ (digits ++ stop :: more))
    (nonempty : digits ≠ [])
    (decimal : ∀ byte ∈ digits, isDigit byte = true)
    (stopped : isDigit stop = false)
    (number :
      digitsValue 0 (digits.map fun byte => byte.toNat - 48) = value) :
    CarriesNumber naturals part value := by
  refine ⟨digits ++ stop :: more, shape, ?_⟩
  intro rest
  have taken :
      (digits ++ stop :: more ++ rest).takeWhile isDigit = digits := by
    rw [List.append_assoc, List.takeWhile_append_of_pos decimal,
      List.cons_append, List.takeWhile_cons_of_neg (by simp [stopped]),
      List.append_nil]
  simp only [naturals, taken, if_neg nonempty, number]

/-- The parts of an array of one point. -/
def onePointParts : List (List Byte) :=
  [xAxis, ascii ":\t1,\n\t\t\t\t\t", yAxis, ascii ":\t2\n\t\t\t\t\x7d"]

theorem keyed_onePointParts :
    Keyed (CarriesNumber naturals) xAxis onePointParts [(1 : Nat)] ∧
      Keyed (CarriesNumber naturals) yAxis onePointParts [(2 : Nat)] := by
  have x :
      CarriesNumber naturals (ascii ":\t1,\n\t\t\t\t\t") (1 : Nat) := by
    refine carriesNumber_naturals
      (by decide : _ = ascii ":\t" ++
        ([char '1'] ++ char ',' :: ascii "\n\t\t\t\t\t"))
      (List.cons_ne_nil _ _) (by decide) (by decide) (by decide)
  have y :
      CarriesNumber naturals (ascii ":\t2\n\t\t\t\t\x7d") (2 : Nat) := by
    refine carriesNumber_naturals
      (by decide : _ = ascii ":\t" ++
        ([char '2'] ++ char '\n' :: ascii "\t\t\t\t\x7d"))
      (List.cons_ne_nil _ _) (by decide) (by decide) (by decide)
  refine ⟨Keyed.carry x ?_, Keyed.skip (by decide) ?_⟩
  · exact Keyed.skip (by decide) (Keyed.skip (by decide) Keyed.nil)
  · exact Keyed.skip (by decide) (Keyed.carry y Keyed.nil)

/-- An array of one point. -/
def onePoint (gap : List Byte)
    (fresh : strstr (gap ++ areasKey) areasKey = some gap.length) :
    AreaText naturals where
  gap := gap
  opening := ascii "\t"
  content :=
    ascii "\x7b\n\t\t\t\t\t\"x\":\t1,\n\t\t\t\t\t\"y\":\t2\n\t\t\t\t\x7d"
  points := [((1 : Nat), (2 : Nat))]
  fresh := fresh
  unopened := by decide
  unclosed := by decide
  nulFree := by decide
  objects := Or.inr ⟨_, (List.dropLast_append_getLast (by decide)).symm⟩
  short := by decide
  few := by decide
  xs :=
    ⟨ascii "\x7b\n\t\t\t\t\t", onePointParts, by decide, by decide, by decide,
      keyed_onePointParts.1⟩
  ys :=
    ⟨ascii "\x7b\n\t\t\t\t\t", onePointParts, by decide, by decide, by decide,
      keyed_onePointParts.2⟩

/-- An array without points. -/
def noPoint (gap : List Byte)
    (fresh : strstr (gap ++ areasKey) areasKey = some gap.length) :
    AreaText naturals where
  gap := gap
  opening := ascii "\t"
  content := []
  points := []
  fresh := fresh
  unopened := by decide
  unclosed := List.not_mem_nil
  nulFree := List.not_mem_nil
  objects := Or.inl rfl
  short := by decide
  few := by decide
  xs := keyedText_nil
  ys := keyedText_nil

theorem fresh_gaps :
    strstr (firstGap ++ areasKey) areasKey = some firstGap.length ∧
      strstr (nextGap ++ areasKey) areasKey = some nextGap.length := by
  decide +kernel

/-- An area without points in front of an area of one point. -/
def growing : ResultText naturals where
  front := ascii "\x7b\n\t"
  areas := [noPoint firstGap fresh_gaps.1, onePoint nextGap fresh_gaps.2]
  behind := ascii "\n\t\t\x7d]\n\x7d"
  fresh := by decide
  nulFree := by decide +kernel
  number := by decide

/-- An area of one point in front of an area without points. -/
def shrinking : ResultText naturals where
  front := ascii "\x7b\n\t"
  areas := [onePoint firstGap fresh_gaps.1, noPoint nextGap fresh_gaps.2]
  behind := ascii "\n\t\t\x7d]\n\x7d"
  fresh := by decide
  nulFree := by decide +kernel
  number := by decide

/-- A field with a terminator, for a key that is not in the text. -/
theorem fieldFits_of_absent
    {text key field : List Byte} (absent : strstr text key = none)
    (terminated : 0 ∈ field) : FieldFits text key field := by
  refine ⟨fun _ => terminated, ?_⟩
  intro start present
  rw [absent] at present
  cases present

theorem colonBehind_of_absent
    {text key : List Byte} (absent : strstr text key = none) :
    ColonBehind text key := by
  intro start present
  rw [absent] at present
  cases present

/-- Areas that grow are read correctly. -/
theorem parseResultJson_iff_growing :
    ∃ after,
      parseResultJson (growing.text ++ [0]) Request.zero
          (ResultJson.zero naturals) = .ok after ∧
        after.count = 2 ∧ AllHold growing.areas after.area := by
  have terminated (size : Nat) : 0 ∈ List.replicate (size + 1) (0 : Byte) :=
    List.mem_cons_self ..
  refine (parseResultJson_iff growing [] Request.zero sized_zero).mpr
    ⟨?_, ?_, ?_⟩
  · exact
      { type := fieldFits_of_absent (by decide +kernel) (terminated 31)
        desc := fieldFits_of_absent (by decide +kernel) (terminated 31)
        value := fieldFits_of_absent (by decide +kernel) (terminated 31)
        code := colonBehind_of_absent (by decide +kernel)
        conf := colonBehind_of_absent (by decide +kernel)
        image := ⟨[], by decide +kernel, by decide +kernel⟩ }
  · exact ⟨⟨by decide, by decide⟩, ⟨by decide, by decide⟩, trivial⟩
  · rw [← strstr_eq_none_iff]
    decide +kernel

/-- The numbers of points that the parser stores. -/
def parsedCounts (data : List Byte) : Except Fault (List Nat) := do
  let result ←
    parseResultJson data Request.zero (ResultJson.zero naturals)
  return (result.area.take result.count).map fun area => area.count

/-- The area without points is read with the point of the area before it. -/
theorem shrinking_not_allHold :
    ∃ after,
      parseResultJson (shrinking.text ++ [0]) Request.zero
          (ResultJson.zero naturals) = .ok after ∧
        ¬ (after.count = shrinking.areas.length ∧
          AllHold shrinking.areas after.area) := by
  have counts : parsedCounts (shrinking.text ++ [0]) = .ok [1, 1] := by
    decide +kernel
  rcases bind_eq_ok_iff.mp counts with ⟨after, parsed, stored⟩
  refine ⟨after, parsed, ?_⟩
  rintro ⟨count, hold⟩
  rcases hold 1 _ rfl with ⟨record, found, holds⟩
  have none : record.count = 0 := holds.count
  have numbers :
      (after.area.take after.count).map (fun area => area.count) = [1, 1] :=
    Except.ok.inj stored
  have below : 1 < after.count := by
    rw [count]
    decide
  have second :
      ((after.area.take after.count).map fun area => area.count)[1]? =
        some 1 := by
    rw [numbers]
    rfl
  rw [List.getElem?_map, List.getElem?_take_of_lt below, found,
    Option.map_some, none] at second
  cases second

end CommonCode.Http
