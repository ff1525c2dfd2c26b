import CommonCode.Json.Parse

/-!
# Texts without white space and comments

`cJSON_Minify` removes white space and comments from a text, in the buffer of
the text.  What it keeps is told by an automaton that reads the text once: in a
string everything is kept, with the quotes that are escaped, and a slash is
kept unless it starts a comment.

An access behind the end of the buffer fails.  The function goes behind the
terminator exactly if a string or a comment between `/*` and `*/` is open at the
end of the text.
-/

namespace CommonCode.Json

open CommonCode.Lib.Bits
open CommonCode.Lib.CString

/-! ## The function -/

/-- The buffer, and where the function reads and writes. -/
structure Cursor where
  buffer : List Byte
  json : Nat
  into : Nat

namespace Cursor

variable (c : Cursor)

/-- `json[index]` -/
def byte (index : Nat) : Option Byte := c.buffer[c.json + index]?

/-- `json+=count` -/
def skip (count : Nat) : Cursor := { c with json := c.json + count }

/-- `*into++=*json++` -/
def copy : Option Cursor := do
  let byte ← c.byte 0
  if c.into < c.buffer.length then
    some ⟨c.buffer.set c.into byte, c.json + 1, c.into + 1⟩
  else none

end Cursor

/-- `while (*json && *json!='\n') json++;` -/
def skipLine : Nat → Cursor → Option Cursor
  | 0, _ => none
  | fuel + 1, c => do
      let byte ← c.byte 0
      if byte ≠ 0 ∧ byte ≠ char '\n' then skipLine fuel (c.skip 1)
      else some c

/-- `while (*json && !(*json=='*' && json[1]=='/')) json++;` -/
def skipComment : Nat → Cursor → Option Cursor
  | 0, _ => none
  | fuel + 1, c => do
      let byte ← c.byte 0
      if byte = 0 then some c
      else if byte = char '*' then do
        let behind ← c.byte 1
        if behind = char '/' then some c else skipComment fuel (c.skip 1)
      else skipComment fuel (c.skip 1)

/-- The loop in a string: a byte behind a backslash is no quote. -/
def copyString : Nat → Cursor → Option Cursor
  | 0, _ => none
  | fuel + 1, c => do
      let byte ← c.byte 0
      if byte ≠ 0 ∧ byte ≠ char '"' then do
        let c ← if byte = char '\\' then c.copy else some c
        let c ← c.copy
        copyString fuel c
      else some c

/-- White space that is removed. -/
def isSpace (byte : Byte) : Bool :=
  byte ∈ [char ' ', char '\t', char '\r', char '\n']

def minifyFrom : Nat → Cursor → Option Cursor
  | 0, _ => none
  | fuel + 1, c => do
      let byte ← c.byte 0
      if byte = 0 then some c
      else if isSpace byte then minifyFrom fuel (c.skip 1)
      else do
        let behind ← if byte = char '/' then c.byte 1 else some 0
        if behind = char '/' then do
          let c ← skipLine (fuel + 1) c
          minifyFrom fuel c
        else if behind = char '*' then do
          let c ← skipComment (fuel + 1) c
          minifyFrom fuel (c.skip 2)
        else if byte = char '"' then do
          let c ← c.copy
          let c ← copyString (fuel + 1) c
          let c ← c.copy
          minifyFrom fuel c
        else do
          let c ← c.copy
          minifyFrom fuel c

def cJsonMinify (json : List Byte) : Option (List Byte) := do
  let c ← minifyFrom (json.length + 1) ⟨json, 0, 0⟩
  if c.into < c.buffer.length then some (c.buffer.set c.into 0) else none

/-! ## The automaton -/

/-- Where a byte stands; `slash` is behind a slash, and `star` behind a star in
a comment. -/
inductive Mode where
  | plain
  | slash
  | line
  | block
  | star
  | string
  | escape
deriving DecidableEq

/-- A byte outside strings and comments. -/
def plainStep (byte : Byte) : Mode × List Byte :=
  if isSpace byte then (.plain, [])
  else if byte = char '/' then (.slash, [])
  else if byte = char '"' then (.string, [byte])
  else (.plain, [byte])

/-- The mode behind a byte, and the bytes that are then known to stay. -/
def Mode.step (mode : Mode) (byte : Byte) : Mode × List Byte :=
  match mode with
  | .plain => plainStep byte
  | .slash =>
      if byte = char '/' then (.line, [])
      else if byte = char '*' then (.star, [])
      else ((plainStep byte).1, char '/' :: (plainStep byte).2)
  | .line => if byte = char '\n' then (.plain, []) else (.line, [])
  | .block => if byte = char '*' then (.star, []) else (.block, [])
  | .star =>
      if byte = char '/' then (.plain, [])
      else if byte = char '*' then (.star, [])
      else (.block, [])
  | .string =>
      if byte = char '"' then (.plain, [byte])
      else if byte = char '\\' then (.escape, [byte])
      else (.string, [byte])
  | .escape => (.string, [byte])

/-- What stays of a text, unless a string or a comment is open at its end. -/
def Mode.keeps (mode : Mode) : List Byte → Option (List Byte)
  | [] =>
      match mode with
      | .plain => some []
      | .slash => some [char '/']
      | .line => some []
      | _ => none
  | byte :: rest =>
      ((mode.step byte).1.keeps rest).map ((mode.step byte).2 ++ ·)

/-- The slash that is still to be written. -/
def Mode.pending (mode : Mode) : Nat := if mode = .slash then 1 else 0

theorem Mode.length_step (mode : Mode) (byte : Byte) :
    (mode.step byte).2.length + (mode.step byte).1.pending ≤
      mode.pending + 1 := by
  have plain :
      (plainStep byte).2.length + (plainStep byte).1.pending ≤ 1 := by
    rw [plainStep]
    split_ifs <;> simp [pending]
  cases mode with
  | plain => exact plain
  | slash =>
      rw [step]
      split_ifs
      · simp [pending]
      · simp [pending]
      · exact Nat.add_right_comm _ 1 _ ▸ Nat.succ_le_succ plain
  | line =>
      rw [step]
      split_ifs <;> simp [pending]
  | block =>
      rw [step]
      split_ifs <;> simp [pending]
  | star =>
      rw [step]
      split_ifs <;> simp [pending]
  | string =>
      rw [step]
      split_ifs <;> simp [pending]
  | escape => exact le_rfl

/-- Nothing is added to a text. -/
theorem Mode.length_keeps {text short : List Byte} {mode : Mode}
    (kept : mode.keeps text = some short) :
    short.length ≤ mode.pending + text.length := by
  induction text generalizing mode short with
  | nil => cases mode <;> cases kept <;> decide
  | cons byte text induction =>
      rw [keeps, Option.map_eq_some_iff] at kept
      rcases kept with ⟨later, kept, rfl⟩
      have rest := induction kept
      have step := mode.length_step byte
      rw [List.length_append, List.length_cons]
      omega

/-! ## Reading and writing in one buffer -/

/-- What has been written stands in front of what has been there, and the
function reads what has not been written to. -/
structure At (original out rest : List Byte) (c : Cursor) : Prop where
  written : c.buffer = out ++ original.drop out.length
  into : c.into = out.length
  behind : out.length ≤ c.json
  rest : original.drop c.json = rest

section At

variable {original out rest : List Byte} {c : Cursor} {byte : Byte}

theorem At.reads (place : At original out rest c) (index : Nat) :
    c.byte index = rest[index]? := by
  have later : out.length ≤ c.json + index := by
    have behind := place.behind
    omega
  rw [Cursor.byte, place.written, List.getElem?_append_right later,
    List.getElem?_drop, ← place.rest, List.getElem?_drop]
  congr 1
  omega

theorem At.skip (place : At original out rest c) (count : Nat) :
    At original out (rest.drop count) (c.skip count) where
  written := place.written
  into := place.into
  behind := Nat.le_add_right_of_le place.behind
  rest := by rw [← place.rest, List.drop_drop, Cursor.skip]

theorem At.copy (place : At original out (byte :: rest) c) :
    ∃ after, c.copy = some after ∧ At original (out ++ [byte]) rest after := by
  have read : original[c.json]? = some byte := by
    have first := congrArg (·[0]?) place.rest
    simpa using first
  have inside : c.json < original.length :=
    (List.getElem?_eq_some_iff.mp read).1
  have behind := place.behind
  have room : c.into < c.buffer.length := by
    rw [place.written, place.into, List.length_append, List.length_drop]
    omega
  refine ⟨⟨c.buffer.set c.into byte, c.json + 1, c.into + 1⟩, ?_, ?_⟩
  · rw [Cursor.copy, place.reads 0, List.getElem?_cons_zero]
    dsimp only [Option.bind_eq_bind, Option.bind_some]
    exact if_pos room
  · constructor
    · have next : original.drop out.length =
          original[out.length] :: original.drop (out.length + 1) :=
        List.drop_eq_getElem_cons (by omega)
      rw [place.written, place.into, List.set_append_right _ _ le_rfl,
        Nat.sub_self, next, List.set_cons_zero, List.length_append,
        List.append_assoc]
      rfl
    · rw [place.into, List.length_append]
      rfl
    · rw [List.length_append]
      exact Nat.succ_le_succ behind
    · have tail := congrArg List.tail place.rest
      simpa using tail

end At

/-! ## The loops -/

section Loops

variable {original out text behind : List Byte} {c : Cursor} {fuel : Nat}

theorem skipLine_eq (place : At original out (text ++ 0 :: behind) c)
    (nulFree : 0 ∉ text) (enough : text.length < fuel) :
    ∃ after later,
      skipLine fuel c = some after ∧
        At original out (later ++ 0 :: behind) after ∧ 0 ∉ later ∧
        later.length ≤ text.length ∧
        Mode.line.keeps text = Mode.plain.keeps later := by
  induction text generalizing c fuel with
  | nil =>
      cases fuel with
      | zero => cases enough
      | succ fuel =>
          refine ⟨c, [], ?_, place, nulFree, le_rfl, rfl⟩
          rw [skipLine, place.reads 0]
          rfl
  | cons byte text induction =>
      rw [List.mem_cons, not_or] at nulFree
      cases fuel with
      | zero => cases enough
      | succ fuel =>
          rw [skipLine, place.reads 0]
          dsimp only [List.cons_append, List.getElem?_cons_zero,
            Option.bind_eq_bind, Option.bind_some]
          by_cases ends : byte = char '\n'
          · subst ends
            refine ⟨c, char '\n' :: text, ?_, place, ?_, le_rfl, rfl⟩
            · rw [if_neg (fun both => both.2 rfl)]
            · exact List.mem_cons.not.mpr (not_or.mpr nulFree)
          · rw [if_pos ⟨Ne.symm nulFree.1, ends⟩]
            rcases induction (place.skip 1) nulFree.2
              (Nat.lt_of_succ_lt_succ enough) with
              ⟨after, later, returned, stands, free, shorter, same⟩
            refine ⟨after, later, returned, stands, free,
              Nat.le_succ_of_le shorter, ?_⟩
            rw [← same, Mode.keeps, Mode.step, if_neg ends]
            exact Option.map_id'

/-- Behind a star, only a slash makes a difference. -/
theorem keeps_star (noSlash : text.head? ≠ some (char '/')) :
    Mode.star.keeps text = Mode.block.keeps text := by
  cases text with
  | nil => rfl
  | cons byte text =>
      have other : byte ≠ char '/' := fun same =>
        noSlash (congrArg some same)
      rw [Mode.keeps, Mode.keeps, Mode.step, Mode.step, if_neg other]

/-- The function stands before the end of a comment, or the text ends in it. -/
def Commented (original out text behind : List Byte) (c : Cursor) : Prop :=
  (∃ later,
    At original out (char '*' :: char '/' :: (later ++ 0 :: behind)) c ∧
      0 ∉ later ∧ later.length < text.length ∧
      Mode.block.keeps text = Mode.plain.keeps later) ∨
    At original out (0 :: behind) c ∧ Mode.block.keeps text = none

theorem skipComment_eq (place : At original out (text ++ 0 :: behind) c)
    (nulFree : 0 ∉ text) (enough : text.length < fuel) :
    ∃ after,
      skipComment fuel c = some after ∧
        Commented original out text behind after := by
  induction text generalizing c fuel with
  | nil =>
      cases fuel with
      | zero => cases enough
      | succ fuel =>
          refine ⟨c, ?_, Or.inr ⟨place, rfl⟩⟩
          rw [skipComment, place.reads 0]
          rfl
  | cons byte text induction =>
      rw [List.mem_cons, not_or] at nulFree
      cases fuel with
      | zero => cases enough
      | succ fuel =>
          have goes
              (same : Mode.block.keeps (byte :: text) =
                Mode.block.keeps text) :
              ∃ after,
                skipComment fuel (c.skip 1) = some after ∧
                  Commented original out (byte :: text) behind after := by
            rcases induction (place.skip 1) nulFree.2
              (Nat.lt_of_succ_lt_succ enough) with ⟨after, returned, ends⟩
            refine ⟨after, returned, ?_⟩
            rw [Commented, same]
            rcases ends with ⟨later, stands, free, shorter, kept⟩ | runs
            · exact Or.inl ⟨later, stands, free, Nat.lt_succ_of_lt shorter,
                kept⟩
            · exact Or.inr runs
          rw [skipComment, place.reads 0]
          dsimp only [List.cons_append, List.getElem?_cons_zero,
            Option.bind_eq_bind, Option.bind_some]
          rw [if_neg (Ne.symm nulFree.1)]
          by_cases star : byte = char '*'
          · subst star
            rw [if_pos rfl, place.reads 1, List.cons_append,
              List.getElem?_cons_succ]
            have kept : Mode.block.keeps (char '*' :: text) =
                Mode.star.keeps text :=
              Option.map_id'
            cases text with
            | nil => exact goes (kept.trans (keeps_star (by simp)))
            | cons next text =>
                dsimp only [List.cons_append, List.getElem?_cons_zero,
                  Option.bind_some]
                by_cases slash : next = char '/'
                · subst slash
                  refine ⟨c, if_pos rfl, Or.inl ⟨text, place, ?_, ?_, ?_⟩⟩
                  · exact fun zero =>
                      nulFree.2 (List.mem_cons_of_mem _ zero)
                  · simp
                  · exact kept.trans Option.map_id'
                · rw [if_neg slash]
                  exact goes (kept.trans (keeps_star (by simpa using slash)))
          · rw [if_neg star]
            apply goes
            rw [Mode.keeps, Mode.step, if_neg star]
            exact Option.map_id'

/-- The function stands before the quote behind a string, or it will leave the
text. -/
def Quoted (original out text behind : List Byte) (run : Option Cursor) :
    Prop :=
  (∃ after copied later,
    run = some after ∧
      At original (out ++ copied) (char '"' :: (later ++ 0 :: behind)) after ∧
      0 ∉ later ∧ later.length < text.length ∧
      Mode.string.keeps text =
        (Mode.plain.keeps later).map (copied ++ char '"' :: ·)) ∨
    Mode.string.keeps text = none ∧
      (behind = [] → run = none ∨
        ∃ after out, run = some after ∧ At original out [0] after)

/-- Some bytes of the string have been copied. -/
theorem Quoted.further {front later : List Byte} {run : Option Cursor}
    (quoted : Quoted original (out ++ front) later behind run)
    (kept :
      Mode.string.keeps text = (Mode.string.keeps later).map (front ++ ·))
    (shorter : later.length < text.length) :
    Quoted original out text behind run := by
  rcases quoted with ⟨after, copied, rest, returned, stands, free, less, same⟩
    | ⟨opens, runs⟩
  · refine Or.inl ⟨after, front ++ copied, rest, returned, ?_, free,
      less.trans shorter, ?_⟩
    · rwa [← List.append_assoc]
    · rw [kept, same, Option.map_map]
      congr 1
      funext ending
      simp
  · exact Or.inr ⟨by rw [kept, opens]; rfl, runs⟩

theorem copyString_eq (place : At original out (text ++ 0 :: behind) c)
    (nulFree : 0 ∉ text) (enough : text.length < fuel) :
    Quoted original out text behind (copyString fuel c) := by
  induction fuel generalizing text out c with
  | zero => cases enough
  | succ fuel induction =>
      cases text with
      | nil =>
          refine Or.inr ⟨rfl, fun last => Or.inr ⟨c, out, ?_, last ▸ place⟩⟩
          rw [copyString, place.reads 0]
          rfl
      | cons byte text =>
          rw [List.mem_cons, not_or] at nulFree
          rw [List.length_cons, Nat.add_lt_add_iff_right] at enough
          rw [copyString, place.reads 0]
          dsimp only [List.cons_append, List.getElem?_cons_zero,
            Option.bind_eq_bind, Option.bind_some]
          by_cases quote : byte = char '"'
          · subst quote
            rw [if_neg (fun both => both.2 rfl)]
            refine Or.inl ⟨c, [], text, rfl, ?_, nulFree.2, ?_, rfl⟩
            · rwa [List.append_nil]
            · exact Nat.lt_succ_self _
          · rw [if_pos ⟨Ne.symm nulFree.1, quote⟩]
            rcases place.copy with ⟨after, copied, stands⟩
            by_cases escapes : byte = char '\\'
            · rw [if_pos escapes, copied, Option.bind_some]
              cases text with
              | nil =>
                  refine Or.inr ⟨?_, fun last => Or.inl ?_⟩
                  · subst escapes
                    rfl
                  · rcases stands.copy with ⟨beyond, again, outside⟩
                    rw [again, Option.bind_some]
                    cases fuel with
                    | zero => rfl
                    | succ fuel =>
                        rw [copyString, outside.reads 0, last]
                        rfl
              | cons next text =>
                  rcases stands.copy with ⟨beyond, again, further⟩
                  rw [again, Option.bind_some]
                  have nulFree := nulFree.2
                  rw [List.mem_cons, not_or] at nulFree
                  rw [List.length_cons] at enough
                  rw [List.append_assoc] at further
                  have rest := induction further nulFree.2
                    (Nat.lt_of_succ_lt enough)
                  apply rest.further
                  · subst escapes
                    exact Option.map_map ..
                  · simp only [List.length_cons]
                    omega
            · rw [if_neg escapes, copied, Option.bind_some]
              have rest := induction stands nulFree.2 enough
              apply rest.further
              · rw [Mode.keeps, Mode.step, if_neg quote, if_neg escapes]
              · exact Nat.lt_succ_self _

end Loops

/-! ## The whole text -/

section Texts

variable {original out text behind : List Byte} {c : Cursor} {fuel : Nat}

/-- The function has written what stays of the text, or it has left the
buffer. -/
def Minifies (original out behind : List Byte) (run : Option Cursor) :
    Option (List Byte) → Prop
  | none => behind = [] → run = none
  | some short =>
      ∃ after,
        run = some after ∧
          after.buffer =
            out ++ short ++ original.drop (out ++ short).length ∧
          after.into = (out ++ short).length

/-- Some bytes have been copied. -/
theorem Minifies.further {front : List Byte} {run : Option Cursor}
    {kept : Option (List Byte)}
    (minifies : Minifies original (out ++ front) behind run kept) :
    Minifies original out behind run (kept.map (front ++ ·)) := by
  cases kept with
  | none => exact minifies
  | some short =>
      rw [Option.map_some, Minifies, ← List.append_assoc out front short]
      exact minifies

theorem keeps_space {byte : Byte} (space : isSpace byte = true) :
    Mode.plain.keeps (byte :: text) = Mode.plain.keeps text := by
  rw [Mode.keeps, Mode.step, plainStep, if_pos space]
  exact Option.map_id'

theorem keeps_plain {byte : Byte} (visible : ¬isSpace byte = true)
    (notSlash : byte ≠ char '/') (notQuote : byte ≠ char '"') :
    Mode.plain.keeps (byte :: text) =
      (Mode.plain.keeps text).map ([byte] ++ ·) := by
  rw [Mode.keeps, Mode.step, plainStep, if_neg visible, if_neg notSlash,
    if_neg notQuote]

/-- A slash that does not start a comment. -/
theorem keeps_slash (line : text.head? ≠ some (char '/'))
    (block : text.head? ≠ some (char '*')) :
    Mode.plain.keeps (char '/' :: text) =
      (Mode.plain.keeps text).map ([char '/'] ++ ·) := by
  have first : Mode.plain.keeps (char '/' :: text) = Mode.slash.keeps text :=
    Option.map_id'
  rw [first]
  cases text with
  | nil => rfl
  | cons byte text =>
      rw [Mode.keeps, Mode.step, if_neg fun same => line (congrArg some same),
        if_neg fun same => block (congrArg some same), Mode.keeps, Mode.step,
        Option.map_map]
      rfl

/-- Behind the buffer there is nothing to read. -/
theorem minifyFrom_nil (place : At original out [] c) (fuel : Nat) :
    minifyFrom fuel c = none := by
  cases fuel with
  | zero => rfl
  | succ fuel =>
      rw [minifyFrom, place.reads 0]
      rfl

theorem minifyFrom_eq (place : At original out (text ++ 0 :: behind) c)
    (nulFree : 0 ∉ text) (enough : text.length < fuel) :
    Minifies original out behind (minifyFrom fuel c)
      (Mode.plain.keeps text) := by
  induction fuel generalizing text out c with
  | zero => cases enough
  | succ fuel induction =>
      cases text with
      | nil =>
          refine ⟨c, ?_, ?_, ?_⟩
          · rw [minifyFrom, place.reads 0]
            rfl
          · rw [List.append_nil]
            exact place.written
          · rw [List.append_nil]
            exact place.into
      | cons byte text =>
          have nonzero := nulFree
          rw [List.mem_cons, not_or] at nonzero
          have shorter := enough
          rw [List.length_cons, Nat.add_lt_add_iff_right] at shorter
          rw [minifyFrom, place.reads 0]
          dsimp only [List.cons_append, List.getElem?_cons_zero,
            Option.bind_eq_bind, Option.bind_some]
          rw [if_neg (Ne.symm nonzero.1)]
          by_cases space : isSpace byte = true
          · rw [if_pos space]
            have rest := induction (place.skip 1) nonzero.2 shorter
            rwa [keeps_space space]
          · rw [if_neg space]
            by_cases slash : byte = char '/'
            · subst slash
              rw [if_pos rfl]
              cases text with
              | nil =>
                  have read : c.byte 1 = some 0 := place.reads 1
                  rcases place.copy with ⟨after, copied, stands⟩
                  have rest :=
                    (induction stands List.not_mem_nil shorter).further
                  rw [read, Option.bind_some, if_neg (by decide),
                    if_neg (by decide), if_neg (by decide), copied,
                    Option.bind_some]
                  exact rest
              | cons next text =>
                  have read : c.byte 1 = some next := place.reads 1
                  rw [read, Option.bind_some]
                  by_cases line : next = char '/'
                  · subst line
                    have goes : char '/' ≠ 0 ∧ char '/' ≠ char '\n' := by
                      decide
                    have begins :
                        skipLine (fuel + 1) c = skipLine fuel (c.skip 1) := by
                      rw [skipLine, place.reads 0]
                      dsimp only [List.cons_append, List.getElem?_cons_zero,
                        Option.bind_eq_bind, Option.bind_some]
                      rw [if_pos goes]
                    have kept :
                        Mode.plain.keeps (char '/' :: char '/' :: text) =
                          Mode.line.keeps (char '/' :: text) :=
                      Option.map_map ..
                    rcases skipLine_eq (place.skip 1) nonzero.2 shorter with
                      ⟨after, later, returned, stands, free, less, same⟩
                    rw [if_pos rfl, begins, returned, kept, same,
                      Option.bind_some]
                    exact induction stands free (less.trans_lt shorter)
                  · rw [if_neg line]
                    by_cases block : next = char '*'
                    · subst block
                      have begins :
                          skipComment (fuel + 1) c =
                            skipComment fuel (c.skip 1) := by
                        rw [skipComment, place.reads 0]
                        rfl
                      have kept :
                          Mode.plain.keeps (char '/' :: char '*' :: text) =
                            Mode.block.keeps (char '*' :: text) :=
                        Option.map_id'
                      rcases skipComment_eq (place.skip 1) nonzero.2
                        shorter with ⟨after, returned, ends | runs⟩
                      · rcases ends with ⟨later, stands, free, less, same⟩
                        rw [if_pos rfl, begins, returned, kept, same,
                          Option.bind_some]
                        exact induction (stands.skip 2) free
                          (less.trans shorter)
                      · rcases runs with ⟨stands, opens⟩
                        rw [if_pos rfl, begins, returned, kept, opens,
                          Option.bind_some]
                        intro last
                        subst last
                        exact minifyFrom_nil (stands.skip 2) fuel
                    · rw [if_neg block, if_neg (by decide)]
                      rcases place.copy with ⟨after, copied, stands⟩
                      have rest :=
                        (induction stands nonzero.2 shorter).further
                      rw [copied, Option.bind_some,
                        keeps_slash (by simpa using line)
                          (by simpa using block)]
                      exact rest
            · rw [if_neg slash, if_neg (by decide), if_neg (by decide)]
              rcases place.copy with ⟨after, copied, stands⟩
              rw [copied, Option.bind_some]
              by_cases quote : byte = char '"'
              · subst quote
                rw [if_pos rfl]
                have kept :
                    Mode.plain.keeps (char '"' :: text) =
                      (Mode.string.keeps text).map ([char '"'] ++ ·) :=
                  rfl
                rw [kept]
                apply Minifies.further
                rcases copyString_eq stands nonzero.2
                  (Nat.lt_succ_of_lt shorter) with
                  ⟨ended, inner, later, returned, closes, free, less, same⟩ |
                    ⟨opens, runs⟩
                · rw [returned, same, Option.bind_some]
                  rcases closes.copy with ⟨closed, again, further⟩
                  rw [again, Option.bind_some]
                  rw [List.append_assoc (out ++ _)] at further
                  have rest := (induction further free
                    (less.trans shorter)).further
                  simp only [List.append_assoc, List.singleton_append]
                    at rest
                  exact rest
                · rw [opens]
                  intro last
                  rcases runs last with missing | ⟨ended, wrote, returned,
                    closes⟩
                  · rw [missing]
                    rfl
                  · rcases closes.copy with ⟨closed, again, outside⟩
                    rw [returned, Option.bind_some, again, Option.bind_some]
                    exact minifyFrom_nil outside fuel
              · rw [if_neg quote]
                have rest := (induction stands nonzero.2 shorter).further
                rwa [keeps_plain space slash quote]

/-- What `cJSON_Minify` leaves of a text. -/
def minified (text : List Byte) : Option (List Byte) :=
  Mode.plain.keeps text

theorem minifyFrom_start (behind : List Byte) (nulFree : 0 ∉ text) :
    Minifies (text ++ 0 :: behind) [] behind
      (minifyFrom ((text ++ 0 :: behind).length + 1)
        ⟨text ++ 0 :: behind, 0, 0⟩)
      (Mode.plain.keeps text) := by
  apply minifyFrom_eq ⟨rfl, rfl, le_rfl, rfl⟩ nulFree
  rw [List.length_append]
  omega

/--
The function leaves in the buffer what the automaton keeps, with a terminator,
and does not touch what is behind.
-/
theorem cJsonMinify_eq {short : List Byte} (nulFree : 0 ∉ text)
    (kept : minified text = some short) (behind : List Byte) :
    cJsonMinify (text ++ 0 :: behind) =
      some (short ++ 0 :: (text ++ 0 :: behind).drop (short.length + 1)) := by
  have minifies := minifyFrom_start behind nulFree
  have shorter := Mode.length_keeps kept
  rw [minified] at kept
  rw [kept] at minifies
  rcases minifies with ⟨after, returned, buffer, into⟩
  rw [List.nil_append] at buffer into
  have inside : short.length < (text ++ 0 :: behind).length := by
    rw [List.length_append, List.length_cons]
    have none : Mode.plain.pending = 0 := rfl
    omega
  have room : after.into < after.buffer.length := by
    rw [buffer, into, List.length_append, List.length_drop]
    omega
  have next := List.drop_eq_getElem_cons inside
  rw [cJsonMinify, returned]
  dsimp only [Option.bind_eq_bind, Option.bind_some]
  rw [if_pos room, buffer, into, List.set_append_right _ _ le_rfl,
    Nat.sub_self, next, List.set_cons_zero]

theorem cJsonMinify_none (nulFree : 0 ∉ text) (opens : minified text = none) :
    cJsonMinify (text ++ [0]) = none := by
  have minifies := minifyFrom_start [] nulFree
  rw [minified] at opens
  rw [opens] at minifies
  rw [cJsonMinify, minifies rfl]
  rfl

/--
The loops work in one buffer as the automaton does in one pass, and touch
nothing behind the terminator that they write.  They leave the buffer of a text
exactly if a string or a comment is open at its end.
-/
theorem minify_in_place (nulFree : 0 ∉ text) :
    (∀ short behind,
      minified text = some short →
        cJsonMinify (text ++ 0 :: behind) =
          some (short ++ 0 ::
            (text ++ 0 :: behind).drop (short.length + 1))) ∧
      (cJsonMinify (text ++ [0]) = none ↔ minified text = none) := by
  refine ⟨fun short behind kept => cJsonMinify_eq nulFree kept behind,
    fun leaves => ?_, cJsonMinify_none nulFree⟩
  cases kept : minified text with
  | none => rfl
  | some short =>
      rw [cJsonMinify_eq nulFree kept] at leaves
      cases leaves

theorem minify_in_place_comment :
    cJsonMinify (ascii "[ 1 /**/ ]" ++ 0 :: [7]) =
        some (ascii "[1]" ++ 0 :: (ascii "[ 1 /**/ ]" ++ 0 :: [7]).drop 4) ∧
      cJsonMinify (ascii "[ 1 /**/ ]" ++ [0]) ≠ none ∧
      cJsonMinify (ascii "[ 1 /*" ++ [0]) = none := by
  have closed := @minify_in_place (ascii "[ 1 /**/ ]") (by decide)
  have opened := @minify_in_place (ascii "[ 1 /*") (by decide)
  exact ⟨closed.1 (ascii "[1]") [7] (by decide),
    closed.2.not.mpr (by decide), opened.2.mpr (by decide)⟩

end Texts

end CommonCode.Json
