import CommonCode.Http.CallbackSize
import CommonCode.Lib.Keyed

/-!
# The coordinates of an area

`parse_result_json` copies the text of one area after the other into one buffer
and searches the buffer for the keys of the coordinates.  The buffer is zeroed
before the first area only and a copy writes no terminator, so the text of an
area is followed by what longer areas before it left behind, and the search
finds the coordinates of both.
-/

namespace CommonCode.Http

open CommonCode.Lib.Bits
open CommonCode.Lib.CString
open CommonCode.Lib.Quoted

variable {floating : Floating}

/-! ## One axis -/

/-- A colon, a tab and a number, whatever follows. -/
def CarriesNumber (floating : Floating) (part : List Byte)
    (value : floating.Carrier) : Prop :=
  ∃ number,
    part = ascii ":\t" ++ number ∧
      ∀ rest, floating.scan (number ++ rest) = some value

/-- A text that carries the coordinates of one axis. -/
abbrev Coordinates (axis text : List Byte)
    (values : List floating.Carrier) : Prop :=
  KeyedText (CarriesNumber floating) axis text values

theorem apart_carriesNumber {axis : List Byte} (named : char ':' ∉ axis) :
    Apart (CarriesNumber floating) axis := by
  rintro part value ⟨number, rfl, -⟩ rfl
  exact named (List.mem_append_left _ (by decide))

theorem stable_carriesNumber : Stable (CarriesNumber floating) := by
  rintro part value more ⟨number, rfl, scanned⟩
  refine ⟨number ++ more, List.append_assoc .., ?_⟩
  intro rest
  rw [List.append_assoc]
  exact scanned (more ++ rest)

/-- One round stores the value and goes on behind it. -/
theorem scanAxis_step
    {axis next : List Byte} {value : floating.Carrier}
    (carried : CarriesNumber floating next value) (fuel : Nat)
    (more : List Byte) (values : List floating.Carrier) (j : Nat) :
    scanAxis (key axis []) (fuel + 1) (key axis [] ++ (next ++ more))
        values j =
      if j < values.length then
        (strstr (next ++ more) (key axis [])).elim
          (.ok (values.set j value, j + 1))
          fun i =>
            scanAxis (key axis []) fuel ((next ++ more).drop i)
              (values.set j value) (j + 1)
      else .error .outOfBounds := by
  rcases carried with ⟨number, rfl, scanned⟩
  have colon :
      strstr (ascii ":\t" ++ number ++ more) (ascii ":\t") = some 0 := by
    rw [strstr.eq_def, if_pos]
    rw [List.isPrefixOf_iff_prefix, List.append_assoc]
    exact List.prefix_append ..
  have digits :
      (ascii ":\t" ++ number ++ more).drop 2 = number ++ more := by
    rw [List.append_assoc]
    rfl
  rw [scanAxis, List.drop_left, colon]
  simp only [require, bind, Except.bind, Nat.add_zero, List.drop_left,
    digits, scanElement, scanned]
  by_cases inside : j < values.length
  · rw [if_pos inside, if_pos inside]
    cases strstr (ascii ":\t" ++ number ++ more) (key axis []) with
    | none => rfl
    | some i => rfl
  · rw [if_neg inside, if_neg inside]

/-- The loop stores all values from an occurrence of the key on. -/
theorem scanAxis_eq
    {axis : List Byte} (named : quote ∉ axis)
    {fuel : Nat} {next more : List Byte} {value : floating.Carrier}
    {later : List floating.Carrier}
    (carried : CarriesNumber floating next value)
    (keyed : Coordinates axis (next ++ more) later)
    (enough : (key axis [] ++ (next ++ more)).length < fuel)
    (done todo : List floating.Carrier) :
    scanAxis (key axis []) fuel (key axis [] ++ (next ++ more))
        (done ++ todo) done.length =
      if later.length < todo.length then
        .ok (done ++ value :: later ++ todo.drop (later.length + 1),
          done.length + (later.length + 1))
      else .error .outOfBounds := by
  induction later generalizing fuel next more value done todo with
  | nil =>
      cases fuel with
      | zero => exact absurd enough (Nat.not_lt_zero _)
      | succ fuel =>
          rw [scanAxis_step carried, keyed.strstr_eq_none named]
          cases todo with
          | nil => simp
          | cons first todo => simp
  | cons second later induction =>
      cases fuel with
      | zero => exact absurd enough (Nat.not_lt_zero _)
      | succ fuel =>
          rcases keyed.exists_strstr named with
            ⟨i, following, rest, position, behind, other, keyed⟩
          rw [scanAxis_step carried, position, Option.elim_some, behind]
          cases todo with
          | nil => simp
          | cons first todo =>
              have shorter :
                  (key axis [] ++ (following ++ rest)).length < fuel := by
                rw [← behind, List.length_drop]
                rw [List.length_append, key, List.length_cons] at enough
                omega
              have step :=
                induction other keyed shorter (done ++ [value]) todo
              have stored :
                  (done ++ first :: todo).set done.length value =
                    done ++ [value] ++ todo := by
                simp
              rw [List.length_append, List.length_singleton] at step
              rw [if_pos (by simp), stored, step]
              simp only [List.length_cons, Nat.add_lt_add_iff_right,
                List.append_assoc, List.drop_succ_cons, List.cons_append,
                List.nil_append]
              refine if_congr Iff.rfl ?_ rfl
              congr 2
              omega

/-- All values of an axis are stored at the start of its array. -/
theorem scanCoordinates_eq
    {axis text : List Byte} (named : quote ∉ axis)
    {values : List floating.Carrier} (keyed : Coordinates axis text values)
    (array : List floating.Carrier) :
    scanCoordinates (key axis []) text array =
      if values.length ≤ array.length then
        .ok (values ++ array.drop values.length, values.length)
      else .error .outOfBounds := by
  rw [scanCoordinates]
  cases values with
  | nil =>
      rw [keyed.strstr_eq_none named]
      simp [pure, Except.pure]
  | cons value later =>
      rcases keyed.exists_strstr named with
        ⟨i, next, more, position, behind, carried, keyed⟩
      have enough :
          (key axis [] ++ (next ++ more)).length < text.length + 1 := by
        rw [← behind, List.length_drop]
        omega
      rw [position]
      dsimp only
      rw [behind]
      have loop := scanAxis_eq named carried keyed enough [] array
      rw [List.nil_append, List.nil_append, List.length_nil,
        Nat.zero_add] at loop
      rw [loop]
      rfl

/-! ## The text of an area -/

abbrev xAxis : List Byte := ascii "x"

abbrev yAxis : List Byte := ascii "y"

abbrev areasKey : List Byte := ascii "\"areas\":"

/-- The text of an array of points under the key `areas`, as cJSON prints it. -/
structure AreaText (floating : Floating) where
  gap : List Byte
  opening : List Byte
  content : List Byte
  points : List (floating.Carrier × floating.Carrier)
  fresh : strstr (gap ++ areasKey) areasKey = some gap.length
  unopened : char '[' ∉ opening
  unclosed : char ']' ∉ content
  nulFree : 0 ∉ content
  objects : content = [] ∨ ∃ front, content = front ++ [char '}']
  short : content.length < 512
  few : points.length ≤ 4
  xs : Coordinates xAxis content (points.map Prod.fst)
  ys : Coordinates yAxis content (points.map Prod.snd)

/-- The text from the key of an area on. -/
def AreaText.keyText (area : AreaText floating) (more : List Byte) :
    List Byte :=
  areasKey ++
    (area.opening ++ char '[' :: (area.content ++ char ']' :: more))

/-- The text of several areas, with the text in front of and behind them. -/
def areasText : List (AreaText floating) → List Byte → List Byte
  | [], behind => behind
  | area :: rest, behind => area.gap ++ area.keyText (areasText rest behind)

theorem AreaText.sealed (area : AreaText floating) {axis : List Byte}
    (named : char '}' ∉ axis) : Sealed axis area.content := by
  intro byte last
  rcases area.objects with empty | ⟨front, closing⟩
  · rw [empty] at last
    cases last
  · rw [closing, List.getLast?_concat, Option.mem_some_iff] at last
    subst last
    exact ⟨by decide, named⟩

/-- The key of an area is the first one behind a gap. -/
theorem AreaText.strstr_gap (area : AreaText floating) (more : List Byte) :
    strstr (area.gap ++ area.keyText more) areasKey =
      some area.gap.length := by
  rw [keyText, ← List.append_assoc]
  exact strstr_append_left area.fresh _

/-! ## The buffer -/

/-- The buffer after a text was copied over an older one. -/
def overlay (old content : List Byte) : List Byte :=
  content ++ old.drop content.length

/-- What a buffer of 512 bytes can hold between two areas. -/
structure Scratch (floating : Floating) (old : List Byte) : Prop where
  nulFree : 0 ∉ old
  short : old.length < 512
  xs : ∃ values : List floating.Carrier, Coordinates xAxis old values
  ys : ∃ values : List floating.Carrier, Coordinates yAxis old values

theorem scratch_nil : Scratch floating [] where
  nulFree := List.not_mem_nil
  short := by decide
  xs := ⟨[], keyedText_nil⟩
  ys := ⟨[], keyedText_nil⟩

/-- The coordinates of an area, and those that older areas left behind. -/
theorem coordinates_overlay
    {axis old content : List Byte} {values older : List floating.Carrier}
    (named : char ':' ∉ axis) (plain : quote ∉ axis)
    (closed : Sealed axis content)
    (keyed : Coordinates axis content values)
    (before : Coordinates axis old older) :
    ∃ stale : List floating.Carrier,
      Coordinates axis (overlay old content) (values ++ stale) ∧
        stale.length =
          occurrences (key axis []) (old.drop content.length) := by
  rcases before.drop (apart_carriesNumber named) content.length with
    ⟨count, remains⟩
  refine ⟨older.drop count, ?_, ?_⟩
  · exact keyed.append stable_carriesNumber remains closed
  · exact (remains.occurrences_eq (apart_carriesNumber named) plain).symm

theorem nulFree_overlay
    {old content : List Byte} (before : 0 ∉ old) (copied : 0 ∉ content) :
    0 ∉ overlay old content := by
  rw [overlay, List.mem_append, not_or]
  exact ⟨copied, fun member => before (List.mem_of_mem_drop member)⟩

theorem length_overlay_lt
    {old content : List Byte} {size : Nat} (before : old.length < size)
    (copied : content.length < size) :
    (overlay old content).length < size := by
  rw [overlay, List.length_append, List.length_drop]
  omega

/-- The copy of an area writes no terminator. -/
theorem strncpy_overlay
    {old content : List Byte} {size : Nat} (before : old.length < size)
    (copied : content.length < size) (more : List Byte) :
    strncpy (zeroPadded size old) 0 (content ++ more) content.length =
      .ok (zeroPadded size (overlay old content)) := by
  have exactly : zeroPadded content.length content = content := by
    simp [zeroPadded]
  rw [strncpy, if_pos (by rw [length_zeroPadded before.le]; omega),
    List.take_left, exactly, store, List.take_zero, List.nil_append,
    Nat.zero_add, zeroPadded, zeroPadded, overlay, List.drop_append,
    List.drop_replicate, List.append_assoc, List.length_append,
    List.length_drop]
  congr 4
  omega

/-- Both axes of an area in the buffer after its copy. -/
theorem Scratch.coordinates {old : List Byte}
    (scratch : Scratch floating old) (area : AreaText floating) :
    ∃ xs ys : List floating.Carrier,
      (Coordinates xAxis (overlay old area.content)
            (area.points.map Prod.fst ++ xs) ∧
          xs.length =
            occurrences (key xAxis []) (old.drop area.content.length)) ∧
        Coordinates yAxis (overlay old area.content)
            (area.points.map Prod.snd ++ ys) ∧
          ys.length =
            occurrences (key yAxis []) (old.drop area.content.length) := by
  rcases scratch.xs with ⟨_, oldXs⟩
  rcases scratch.ys with ⟨_, oldYs⟩
  have xSealed : Sealed xAxis area.content := area.sealed (by decide)
  have ySealed : Sealed yAxis area.content := area.sealed (by decide)
  rcases coordinates_overlay (by decide) (by decide) xSealed area.xs oldXs
    with ⟨xs, stored⟩
  rcases coordinates_overlay (by decide) (by decide) ySealed area.ys oldYs
    with ⟨ys, alsoStored⟩
  exact ⟨xs, ys, stored, alsoStored⟩

/-- The buffer after the copy of an area. -/
theorem Scratch.overlay {old : List Byte} (scratch : Scratch floating old)
    (area : AreaText floating) :
    Scratch floating (overlay old area.content) := by
  rcases scratch.coordinates area with ⟨xs, ys, ⟨keyed, -⟩, alsoKeyed, -⟩
  exact
    { nulFree := nulFree_overlay scratch.nulFree area.nulFree
      short := length_overlay_lt scratch.short area.short
      xs := ⟨_, keyed⟩
      ys := ⟨_, alsoKeyed⟩ }

/-! ## One area -/

/-- The record of an area with stale coordinates behind its points. -/
def AreaText.stored (area : AreaText floating)
    (xs ys : List floating.Carrier) (array : Area floating) :
    Area floating where
  count := area.points.length + ys.length
  x := area.points.map Prod.fst ++ xs ++
    array.x.drop (area.points.length + xs.length)
  y := area.points.map Prod.snd ++ ys ++
    array.y.drop (area.points.length + ys.length)

/-- A record holds exactly the points of an area. -/
structure AreaText.Holds (area : AreaText floating) (record : Area floating) :
    Prop where
  count : record.count = area.points.length
  x : record.x.take area.points.length = area.points.map Prod.fst
  y : record.y.take area.points.length = area.points.map Prod.snd

theorem AreaText.holds_stored_iff
    (area : AreaText floating) (xs ys : List floating.Carrier)
    (array : Area floating) :
    area.Holds (area.stored xs ys array) ↔ ys.length = 0 := by
  constructor
  · intro holds
    have count :
        area.points.length + ys.length = area.points.length := holds.count
    omega
  · intro none
    refine ⟨?_, ?_, ?_⟩
    · rw [stored, none, Nat.add_zero]
    · simp only [stored, List.append_assoc]
      exact List.take_left' (List.length_map _)
    · simp only [stored, List.append_assoc]
      exact List.take_left' (List.length_map _)

/-- The copy of the text of an area, and the search for the next one. -/
theorem scanAreas_keyText
    (area : AreaText floating) {old : List Byte}
    (scratch : Scratch floating old) (fuel : Nat) (more : List Byte)
    {areas : List (Area floating)} {i : Nat} {array : Area floating}
    (inside : areas[i]? = some array) :
    scanAreas (fuel + 1) (area.keyText more) (zeroPadded 512 old) areas i =
      (scanCoordinates (key xAxis []) (overlay old area.content) array.x).bind
        fun x =>
          (scanCoordinates (key yAxis []) (overlay old area.content)
              array.y).bind
            fun y =>
              (strstr (char ']' :: more) areasKey).elim
                (.ok (areas.set i ⟨y.2, x.1, y.1⟩, i + 1))
                fun next =>
                  scanAreas fuel ((char ']' :: more).drop next)
                    (zeroPadded 512 (overlay old area.content))
                    (areas.set i ⟨y.2, x.1, y.1⟩) (i + 1) := by
  have keySize : areasKey.length = 8 := by decide
  have bracket :
      strchr ((area.keyText more).drop 8) (char '[') =
        some area.opening.length := by
    rw [AreaText.keyText, List.drop_left' keySize]
    exact strchr_append area.unopened _
  have value :
      (area.keyText more).drop (8 + area.opening.length) =
        char '[' :: area.content ++ char ']' :: more := by
    rw [AreaText.keyText, ← List.drop_drop, List.drop_left' keySize,
      List.drop_left]
    rfl
  have closing :
      strchr (char '[' :: area.content ++ char ']' :: more) (char ']') =
        some (area.content.length + 1) := by
    refine strchr_append ?_ more
    rw [List.mem_cons, not_or]
    exact ⟨by decide, area.unclosed⟩
  have copied :
      (char '[' :: area.content ++ char ']' :: more).drop 1 =
        area.content ++ char ']' :: more := rfl
  have behind :
      (char '[' :: area.content ++ char ']' :: more).drop
          (area.content.length + 1) = char ']' :: more := by
    rw [← List.length_cons, List.drop_left]
  have text :
      cString (zeroPadded 512 (overlay old area.content)) =
        .ok (overlay old area.content) :=
    cString_zeroPadded (nulFree_overlay scratch.nulFree area.nulFree)
      (length_overlay_lt scratch.short area.short)
  have xKey : ascii "\"x\"" = key xAxis [] := by decide
  have yKey : ascii "\"y\"" = key yAxis [] := by decide
  rw [scanAreas, bracket]
  simp only [require, bind, Except.bind, value, closing, copied,
    Nat.add_sub_cancel, strncpy_overlay scratch.short area.short, text,
    inside, ← List.drop_drop, behind, xKey, yKey]
  cases scanCoordinates (key xAxis []) (overlay old area.content) array.x with
  | error fault => rfl
  | ok x =>
      cases scanCoordinates (key yAxis []) (overlay old area.content)
          array.y with
      | error fault => rfl
      | ok y =>
          dsimp only
          cases strstr (char ']' :: more) areasKey with
          | none => rfl
          | some next => rfl

/--
One round: the points of the area and the stale coordinates behind it are
stored, if they fit.
-/
theorem scanAreas_step
    (area : AreaText floating) {old : List Byte}
    (scratch : Scratch floating old) (fuel : Nat) (more : List Byte)
    {areas : List (Area floating)} {i : Nat} {array : Area floating}
    (inside : areas[i]? = some array)
    (size : array.x.length = 4 ∧ array.y.length = 4) :
    ∃ xs ys : List floating.Carrier,
      xs.length =
          occurrences (key xAxis []) (old.drop area.content.length) ∧
        ys.length =
          occurrences (key yAxis []) (old.drop area.content.length) ∧
        scanAreas (fuel + 1) (area.keyText more) (zeroPadded 512 old)
            areas i =
          if area.points.length + xs.length ≤ 4 ∧
              area.points.length + ys.length ≤ 4 then
            (strstr (char ']' :: more) areasKey).elim
              (.ok (areas.set i (area.stored xs ys array), i + 1))
              fun next =>
                scanAreas fuel ((char ']' :: more).drop next)
                  (zeroPadded 512 (overlay old area.content))
                  (areas.set i (area.stored xs ys array)) (i + 1)
          else .error .outOfBounds := by
  rcases scratch.coordinates area with
    ⟨xs, ys, ⟨xKeyed, xStale⟩, yKeyed, yStale⟩
  refine ⟨xs, ys, xStale, yStale, ?_⟩
  rw [scanAreas_keyText area scratch fuel more inside,
    scanCoordinates_eq (by decide) xKeyed,
    scanCoordinates_eq (by decide) yKeyed, size.1, size.2,
    List.length_append, List.length_append, List.length_map,
    List.length_map]
  by_cases xFits : area.points.length + xs.length ≤ 4
  · rw [if_pos xFits]
    by_cases yFits : area.points.length + ys.length ≤ 4
    · rw [if_pos yFits, if_pos ⟨xFits, yFits⟩]
      rfl
    · rw [if_neg yFits, if_neg (fun fits => yFits fits.2)]
      rfl
  · have either :
        ¬ (area.points.length + xs.length ≤ 4 ∧
          area.points.length + ys.length ≤ 4) := fun fits => xFits fits.1
    rw [if_neg xFits, if_neg either]
    rfl

end CommonCode.Http
