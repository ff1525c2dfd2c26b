import CommonCode.Json.RoundTrip
import CommonCode.Lib.JsonGrammar

/-!
# Printed trees are JSON texts

The printer of `cJSON.c` writes texts of the JSON grammar, with formatting and
without it, and the parser reads the tree back from either.
-/

namespace CommonCode.Json

open CommonCode.Lib.Bits
open CommonCode.Lib.CString
open CommonCode.Lib.CScan
open CommonCode.Lib.JsonGrammar

/-! ## Leaves -/

theorem isHexDigit_hexDigit {digit : Nat} (small : digit < 16) :
    isHexDigit (hexDigit digit) = true := by
  interval_cases digit <;> rfl

theorem character_escape {token : Byte} :
    Character (escape token) := by
  rw [escape]
  split
  · next plain =>
      simp only [Bool.and_eq_true, decide_eq_true_eq, ne_eq] at plain
      exact .plain (by omega) plain.1.2 plain.2
  · split_ifs
    all_goals try exact .escaped (by decide)
    refine .unicode ?_
    intro digit member
    simp only [List.mem_cons, List.not_mem_nil, or_false] at member
    rcases member with rfl | rfl | rfl | rfl
    all_goals exact isHexDigit_hexDigit (Nat.mod_lt _ (by omega))

theorem str_printStringPtr {text : List Byte} (nulFree : 0 ∉ text) :
    Str (printStringPtr text) := by
  rw [printStringPtr_eq nulFree, List.flatMap_def]
  refine .quoted ?_
  intro character member
  obtain ⟨token, -, rfl⟩ := List.mem_map.mp member
  exact character_escape

theorem digits_decimal (number : Nat) : Digits (decimal number) := by
  refine ⟨decimal_ne_nil number, ?_⟩
  intro byte member
  have digit := mem_decimal member
  simp only [isDigit, Bool.and_eq_true, decide_eq_true_eq]
  omega

theorem integer_decimal (number : Nat) : Integer (decimal number) := by
  by_cases zero : number = 0
  · rw [zero]
    exact Or.inl rfl
  · refine Or.inr ⟨digits_decimal number, ?_⟩
    rcases decimal_of_pos zero with ⟨digit, digits, text, -, low, high⟩
    rw [text, List.map_cons, List.head?_cons, ne_eq, Option.some.injEq]
    intro same
    have value := congrArg BitVec.toNat same
    rw [toNat_digitByte high] at value
    have code : (char '0').toNat = 48 := rfl
    omega

theorem number_formatInt (value : Int) : Number (formatInt value) := by
  have whole {sign : List Byte} (signed : sign ∈ [[], [char '-']])
      (number : Nat) : Number (sign ++ decimal number) := by
    have parts :
        Number (sign ++ decimal number ++ [] ++ []) :=
      .parts signed (integer_decimal number) (Or.inl rfl) (Or.inl rfl)
    simpa using parts
  have minus : [char '-'] ∈ ([[], [char '-']] : List (List Byte)) := by simp
  rw [formatInt]
  split
  · exact whole minus _
  · exact whole (List.mem_cons_self ..) _

/-! ## Values -/

theorem ws_format {fmt : Bool} {space : List Byte} (spaced : Ws space) :
    Ws (format fmt space) := by
  cases fmt with
  | false => exact ws_nil
  | true => exact spaced

theorem ws_tabs (count : Nat) : Ws (tabs count) := by
  intro byte member
  rw [List.eq_of_mem_replicate member]
  decide

variable {Double : Type} {arithmetic : Arithmetic Double}

/-- An array of values is a value. -/
theorem value_printArray (fmt : Bool) {entries : List (List Byte)}
    (values : ∀ entry ∈ entries, Value entry) :
    Value (printArray fmt entries) := by
  cases entries with
  | nil => exact .emptyArray ws_nil
  | cons entry entries =>
      let piece (entry : List Byte) : Piece :=
        ⟨format fmt [char ' '], entry, []⟩
      have blank : Ws (format fmt [char ' ']) := ws_format (by decide)
      have array :
          Value (char '[' ::
            (commas (Piece.mk [] entry []).bytes
                ((entries.map piece).map Piece.bytes) ++
              ([] ++ [char ']']))) := by
        refine .array ?_ ?_ ws_nil
        · intro inside member
          rcases List.mem_cons.mp member with rfl | later
          · exact ⟨ws_nil, ws_nil⟩
          · obtain ⟨text, -, rfl⟩ := List.mem_map.mp later
            exact ⟨blank, ws_nil⟩
        · intro inside member
          rcases List.mem_cons.mp member with rfl | later
          · exact values entry (List.mem_cons_self ..)
          · obtain ⟨text, there, rfl⟩ := List.mem_map.mp later
            exact values text (List.mem_cons_of_mem _ there)
      simpa [printArray_cons, commas, Piece.bytes, piece, List.flatMap_map]
        using array

/-- An object of names and values is a value. -/
theorem value_printObject (fmt : Bool) (depth : Nat)
    {entries : List (List Byte × List Byte)}
    (names : ∀ entry ∈ entries, Str entry.1)
    (values : ∀ entry ∈ entries, Value entry.2) :
    Value (printObject fmt depth entries) := by
  have line : Ws (format fmt [char '\n']) := ws_format (by decide)
  cases entries with
  | nil =>
      have feed : Ws [char '\n'] := by decide
      have inside : Ws (format fmt (char '\n' :: tabs (depth - 1))) :=
        ws_format (feed.append (ws_tabs (depth - 1)))
      exact .emptyObject inside
  | cons entry entries =>
      let member (entry : List Byte × List Byte) : Entry :=
        ⟨⟨format fmt [char '\n'] ++ format fmt (tabs (depth + 1)), entry.1,
          []⟩, ⟨format fmt [char '\t'], entry.2, []⟩⟩
      have indented :
          Ws (format fmt [char '\n'] ++ format fmt (tabs (depth + 1))) :=
        line.append (ws_format (ws_tabs (depth + 1)))
      have object :
          Value (char '{' ::
            (commas (member entry).bytes
                ((entries.map member).map Entry.bytes) ++
              ((format fmt [char '\n'] ++ format fmt (tabs depth)) ++
                [char '}']))) := by
        refine
          .object ?_ ?_ ?_ (line.append (ws_format (ws_tabs depth)))
        all_goals rw [← List.map_cons]
        · intro inside there
          obtain ⟨text, -, rfl⟩ := List.mem_map.mp there
          exact ⟨⟨indented, ws_nil⟩, ws_format (by decide), ws_nil⟩
        · intro inside there
          obtain ⟨text, listed, rfl⟩ := List.mem_map.mp there
          exact names text listed
        · intro inside there
          obtain ⟨text, listed, rfl⟩ := List.mem_map.mp there
          exact values text listed
      simpa [printObject_cons, memberLine, commas, Entry.bytes, Piece.bytes,
        member, List.flatMap_map] using object

/-- The text of a tree is a JSON value. -/
theorem Printable.value (exact : arithmetic.Exact) {tree : CJson Double}
    (printable : Printable arithmetic tree) (fmt : Bool) (depth : Nat) :
    Value (printValue arithmetic fmt depth tree) := by
  induction printable generalizing depth with
  | null => exact .null
  | bool value =>
      cases value with
      | false => exact .false
      | true => exact .true
  | number valueint =>
      rw [printValue, printNumber_ofInt exact]
      exact .number (number_formatInt _)
  | string nulFree => exact .string (str_printStringPtr nulFree)
  | array items ih =>
      rw [printValue, printItems_eq_map]
      refine value_printArray fmt ?_
      intro entry member
      obtain ⟨item, there, rfl⟩ := List.mem_map.mp member
      exact ih item there (depth + 1)
  | object names values ih =>
      rw [printValue, printMembers_eq_map]
      refine value_printObject fmt depth ?_ ?_
      · intro entry member
        obtain ⟨inside, there, rfl⟩ := List.mem_map.mp member
        exact str_printStringPtr (names inside there)
      · intro entry member
        obtain ⟨inside, there, rfl⟩ := List.mem_map.mp member
        exact ih inside there (depth + 1)

end CommonCode.Json
