import CommonCode.Lib.CString

/-!
# Reading a stream in pieces of lines

`fgets` returns a stream in pieces: a piece ends behind a newline, or when the
array is full.  A text inside a line is seen by a reader that looks at one
piece at a time exactly if it does not lie across the end of a piece, and where
the pieces end depends on the columns of the line only.
-/

namespace CommonCode.Lib.Fgets

open CommonCode.Lib.Bits
open CommonCode.Lib.CString

/-- The end of a line. -/
abbrev newline : Byte := char '\n'

/-! ## Pieces -/

/-- The next piece of at most `width` bytes, and the stream behind it. -/
def nextPiece : Nat → List Byte → List Byte × List Byte
  | 0, stream => ([], stream)
  | _ + 1, [] => ([], [])
  | width + 1, byte :: stream =>
      if byte = newline then ([byte], stream)
      else (byte :: (nextPiece width stream).1, (nextPiece width stream).2)

/--
`fgets(memory, size, fp)`: the array with the next piece and a terminator, and
the stream behind it; `none` at the end of the stream.
-/
def fgets (memory : List Byte) (size : Nat) (stream : List Byte) :
    Except Fault (Option (List Byte × List Byte)) :=
  if stream = [] then .ok none
  else
    let piece := (nextPiece (size - 1) stream).1
    if piece.length + 1 ≤ memory.length then
      .ok (some (store memory 0 (piece ++ [0]),
        (nextPiece (size - 1) stream).2))
    else .error .outOfBounds

/-- A piece is a whole line, or the stream up to the width of the array. -/
theorem nextPiece_cases (width : Nat) (stream : List Byte) :
    (∃ body rest, stream = body ++ newline :: rest ∧ newline ∉ body ∧
        body.length < width ∧
        nextPiece width stream = (body ++ [newline], rest)) ∨
      (newline ∉ stream.take width ∧
        nextPiece width stream = (stream.take width, stream.drop width)) := by
  induction width generalizing stream with
  | zero => exact Or.inr ⟨by simp, rfl⟩
  | succ width induction =>
      cases stream with
      | nil => exact Or.inr ⟨by simp, rfl⟩
      | cons byte stream =>
          rw [nextPiece]
          by_cases line : byte = newline
          · rw [if_pos line]
            exact Or.inl
              ⟨[], stream, by rw [line]; rfl, by simp, by simp,
                by rw [line]; rfl⟩
          · rw [if_neg line]
            rcases induction stream with
              ⟨body, rest, rfl, plain, short, piece⟩ | ⟨plain, piece⟩
            · refine Or.inl ⟨byte :: body, rest, rfl, ?_, ?_, ?_⟩
              · rw [List.mem_cons, not_or]
                exact ⟨fun same => line same.symm, plain⟩
              · rw [List.length_cons]
                omega
              · rw [piece]
                rfl
            · refine Or.inr ⟨?_, ?_⟩
              · rw [List.take_succ_cons, List.mem_cons, not_or]
                exact ⟨fun same => line same.symm, plain⟩
              · rw [piece]
                rfl

theorem nextPiece_append (width : Nat) (stream : List Byte) :
    (nextPiece width stream).1 ++ (nextPiece width stream).2 = stream := by
  rcases nextPiece_cases width stream with
    ⟨body, rest, rfl, -, -, piece⟩ | ⟨-, piece⟩
  · rw [piece, List.append_assoc]
    rfl
  · rw [piece]
    exact List.take_append_drop ..

theorem length_nextPiece (width : Nat) (stream : List Byte) :
    (nextPiece width stream).1.length ≤ width := by
  rcases nextPiece_cases width stream with
    ⟨body, rest, -, -, short, piece⟩ | ⟨-, piece⟩
  · rw [piece, List.length_append, List.length_singleton]
    exact short
  · rw [piece]
    exact List.length_take_le ..

theorem nextPiece_ne_nil {width : Nat} (positive : 0 < width)
    {stream : List Byte} (more : stream ≠ []) :
    (nextPiece width stream).1 ≠ [] := by
  rcases nextPiece_cases width stream with
    ⟨body, rest, -, -, -, piece⟩ | ⟨-, piece⟩
  · simp [piece]
  · rw [piece, ne_eq, List.take_eq_nil_iff, not_or]
    exact ⟨Nat.ne_of_gt positive, more⟩

/-- Every piece makes the rest of the stream shorter. -/
theorem length_rest_lt {width : Nat} (positive : 0 < width)
    {stream : List Byte} (more : stream ≠ []) :
    (nextPiece width stream).2.length < stream.length := by
  have whole := congrArg List.length (nextPiece_append width stream)
  have piece := List.length_pos_of_ne_nil (nextPiece_ne_nil positive more)
  rw [List.length_append] at whole
  omega

theorem fgets_of_ne_nil {memory stream : List Byte} {size : Nat}
    (room : size ≤ memory.length) (positive : 0 < size)
    (more : stream ≠ []) :
    fgets memory size stream =
      .ok (some (store memory 0 ((nextPiece (size - 1) stream).1 ++ [0]),
        (nextPiece (size - 1) stream).2)) := by
  have short := length_nextPiece (size - 1) stream
  rw [fgets, if_neg more, if_pos (by omega)]

theorem length_lt_of_fgets {memory stream next rest : List Byte}
    {size : Nat} (several : 1 < size)
    (read : fgets memory size stream = .ok (some (next, rest))) :
    rest.length < stream.length := by
  rw [fgets] at read
  split at read
  · cases read
  · next more =>
    dsimp only at read
    split at read
    · cases read
      exact length_rest_lt (Nat.sub_pos_of_lt several) more
    · cases read

/-! ## Columns -/

/-- The column behind a byte. -/
def nextColumn (column : Nat) (byte : Byte) : Nat :=
  if byte = newline then 0 else column + 1

/-- The column behind a text: the number of bytes since the last newline. -/
def column (text : List Byte) : Nat := text.foldl nextColumn 0

theorem foldl_nextColumn_plain
    {text : List Byte} (plain : newline ∉ text) (start : Nat) :
    text.foldl nextColumn start = start + text.length := by
  induction text generalizing start with
  | nil => rfl
  | cons byte text induction =>
      rw [List.mem_cons, not_or] at plain
      rw [List.foldl_cons, nextColumn, if_neg fun same => plain.1 same.symm,
        induction plain.2, List.length_cons]
      omega

theorem column_plain {text : List Byte} (plain : newline ∉ text) :
    column text = text.length := by
  rw [column, foldl_nextColumn_plain plain, Nat.zero_add]

theorem column_newline (text : List Byte) :
    column (text ++ [newline]) = 0 := by
  rw [column, List.foldl_append, List.foldl_cons, nextColumn, if_pos rfl,
    List.foldl_nil]

/-- Columns that agree modulo the width still agree behind a text. -/
theorem foldl_nextColumn_mod {width start other : Nat}
    (agree : start % width = other % width) (text : List Byte) :
    text.foldl nextColumn start % width =
      text.foldl nextColumn other % width := by
  induction text generalizing start other with
  | nil => exact agree
  | cons byte text induction =>
      refine induction ?_
      rw [nextColumn, nextColumn]
      by_cases line : byte = newline
      · rw [if_pos line, if_pos line]
      · rw [if_neg line, if_neg line]
        exact Nat.ModEq.add_right 1 agree

theorem column_append_mod {width : Nat} {front : List Byte}
    (aligned : column front % width = 0) (text : List Byte) :
    column (front ++ text) % width = column text % width := by
  rw [column, List.foldl_append, column]
  exact foldl_nextColumn_mod (by rw [← column, aligned, Nat.zero_mod]) text

/-- Pieces end at columns that are multiples of the width. -/
theorem column_nextPiece {width : Nat} {stream : List Byte}
    (more : (nextPiece width stream).2 ≠ []) :
    column (nextPiece width stream).1 % width = 0 := by
  rcases nextPiece_cases width stream with
    ⟨body, rest, -, -, -, piece⟩ | ⟨plain, piece⟩
  · rw [piece, column_newline, Nat.zero_mod]
  · rw [piece, ne_eq, List.drop_eq_nil_iff, not_le] at more
    rw [piece, column_plain plain, List.length_take,
      Nat.min_eq_left more.le, Nat.mod_self]

/-- Inside a piece the column is the offset in the piece. -/
theorem column_inside {width : Nat} {stream front back : List Byte}
    (piece : (nextPiece width stream).1 = front ++ back)
    (behind : back ≠ []) :
    column front = front.length := by
  refine column_plain fun member => ?_
  rcases nextPiece_cases width stream with
    ⟨body, rest, -, plain, -, equation⟩ | ⟨plain, equation⟩
  · rw [equation] at piece
    have start := congrArg List.dropLast piece
    rw [List.dropLast_concat, List.dropLast_append_of_ne_nil behind] at start
    exact plain (start ▸ List.mem_append_left _ member)
  · rw [equation] at piece
    refine plain ?_
    rw [show stream.take width = front ++ back from piece]
    exact List.mem_append_left _ member

/-- A text across the end of a piece passes the width. -/
theorem lt_of_straddle {width : Nat} {stream front inside behind : List Byte}
    (piece : (nextPiece width stream).1 = front ++ inside)
    (plain : newline ∉ inside) (starts : inside ≠ [])
    (more : (nextPiece width stream).2 ≠ []) (ends : behind ≠ []) :
    width < column front % width + (inside ++ behind).length := by
  have positive := List.length_pos_of_ne_nil starts
  have later := List.length_pos_of_ne_nil ends
  have full : (front ++ inside).length = width := by
    rw [← piece]
    rcases nextPiece_cases width stream with
      ⟨body, rest, -, -, -, equation⟩ | ⟨-, equation⟩
    · rw [equation] at piece
      have last := congrArg List.getLast? piece
      rw [List.getLast?_concat, List.getLast?_append_of_ne_nil _ starts]
        at last
      exact absurd (List.mem_of_getLast? last.symm) plain
    · rw [equation, ne_eq, List.drop_eq_nil_iff, not_le] at more
      rw [equation, List.length_take, Nat.min_eq_left more.le]
  rw [List.length_append] at full
  rw [column_inside piece starts, List.length_append,
    Nat.mod_eq_of_lt (by omega)]
  omega

/-! ## Searching the pieces -/

/-- Some copy of the text does not lie across a multiple of the width. -/
def Aligned (width : Nat) (needle stream : List Byte) : Prop :=
  ∃ front back, stream = front ++ needle ++ back ∧
    column front % width + needle.length ≤ width

theorem not_aligned_nil {width : Nat} {needle : List Byte}
    (nonempty : needle ≠ []) : ¬ Aligned width needle [] := by
  rintro ⟨front, back, equation, -⟩
  simp [nonempty] at equation

/--
A text without newlines is aligned exactly if it lies inside the next piece or
is aligned in the rest of the stream.
-/
theorem aligned_iff {width : Nat} {needle stream : List Byte}
    (nonempty : needle ≠ []) (plain : newline ∉ needle) :
    Aligned width needle stream ↔
      needle <:+: (nextPiece width stream).1 ∨
        Aligned width needle (nextPiece width stream).2 := by
  have whole := nextPiece_append width stream
  have short := length_nextPiece width stream
  constructor
  · rintro ⟨front, back, equation, fits⟩
    rw [← whole, List.append_assoc, List.append_eq_append_iff] at equation
    rcases equation with
      ⟨middle, rfl, rest⟩ | ⟨middle, piece, straddle⟩
    · right
      refine ⟨middle, back, by rw [rest, List.append_assoc], ?_⟩
      rwa [column_append_mod (column_nextPiece ?_)] at fits
      rw [rest]
      simp [nonempty]
    · rw [List.append_eq_append_iff] at straddle
      rcases straddle with ⟨behind, rfl, -⟩ | ⟨behind, rfl, rest⟩
      · exact Or.inl ⟨front, behind, by rw [piece, List.append_assoc]⟩
      · rcases eq_or_ne behind [] with rfl | ends
        · exact Or.inl ⟨front, [], by rw [piece]; simp⟩
        rcases eq_or_ne middle [] with rfl | starts
        · right
          refine ⟨[], back, by rw [rest]; rfl, ?_⟩
          rw [List.append_nil] at piece
          rw [← piece, column_nextPiece (by rw [rest]; simp [ends])] at fits
          rwa [column, List.foldl_nil, Nat.zero_mod]
        · rw [List.mem_append, not_or] at plain
          have passes :=
            lt_of_straddle piece plain.1 starts (by rw [rest]; simp [ends])
              ends
          omega
  · rintro (⟨front, back, piece⟩ | ⟨front, back, rest, fits⟩)
    · refine ⟨front, back ++ (nextPiece width stream).2, ?_, ?_⟩
      · rw [← List.append_assoc, piece, whole]
      · have size := congrArg List.length piece
        have positive := List.length_pos_of_ne_nil nonempty
        simp only [List.length_append] at size
        rw [List.append_assoc] at piece
        rw [column_inside piece.symm (by simp [nonempty]),
          Nat.mod_eq_of_lt (by omega)]
        omega
    · refine ⟨(nextPiece width stream).1 ++ front, back, ?_, ?_⟩
      · rw [List.append_assoc, List.append_assoc, ← List.append_assoc front,
          ← rest, whole]
      · rwa [column_append_mod (column_nextPiece ?_)]
        rw [rest]
        simp [nonempty]

end CommonCode.Lib.Fgets
