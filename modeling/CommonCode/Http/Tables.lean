import CommonCode.Http.Fields

/-!
# The token tables of a request

Three loops of `parse_post_A_content` split a list field with `strtok` and
print every token into the next row of a table of eight rows of eight bytes.
Nothing bounds the number of the tokens or their length.  A token of more than
seven bytes runs into the next row, and the next token is printed over it
there; it reads back only if it goes on as that token or is the last one.  The
last token leaves the bytes behind the table alone if it ends in the table or
if they are already what it writes.  `strtok` ends a token inside the list
field, so a loop changes that field unless no delimiter stands behind a token.
-/

namespace CommonCode.Http

open CommonCode.Lib.Bits
open CommonCode.Lib.CString
open CommonCode.Lib.CScan

/-! ## Rows -/

/-- The delimiters of the three loops. -/
abbrev listDelimiters : List Byte := ascii "\",\""

/-- Print tokens into rows of eight bytes, from row `i` on. -/
def printRows : List Byte → Nat → List (List Byte) → Except Fault (List Byte)
  | data, _, [] => return data
  | data, i, token :: rest => do
      printRows (← sprintf data (8 * i) token) (i + 1) rest

/-- What a token that is printed into row `i` writes behind row seven. -/
def overhang (i : Nat) (token : List Byte) : List Byte :=
  (token ++ [0]).drop (64 - 8 * i)

/--
Tokens printed from row `i` on read back from their rows and change nothing
behind row seven, where the bytes are `behind`: each but the last one is short
or goes on behind its row as the next token, and the last one finds what it
writes behind row seven already there.
-/
def RowsFit (behind : List Byte) : Nat → List (List Byte) → Prop
  | i, [] => i ≤ 8
  | i, [token] => i < 8 ∧ overhang i token <+: behind
  | i, token :: next :: rest =>
      (token.length ≤ 7 ∨ token.drop 8 = next) ∧
        RowsFit behind (i + 1) (next :: rest)

instance decidableRowsFit (behind : List Byte) :
    ∀ i tokens, Decidable (RowsFit behind i tokens)
  | i, [] => inferInstanceAs (Decidable (i ≤ 8))
  | i, [token] =>
      inferInstanceAs (Decidable (i < 8 ∧ overhang i token <+: behind))
  | i, token :: next :: rest =>
      haveI := decidableRowsFit behind (i + 1) (next :: rest)
      inferInstanceAs
        (Decidable ((token.length ≤ 7 ∨ token.drop 8 = next) ∧
          RowsFit behind (i + 1) (next :: rest)))

section Rows

variable {behind data : List Byte} {i : Nat} {token : List Byte}
  {tokens : List (List Byte)}

theorem overhang_of_short (inside : i < 8) (short : token.length ≤ 7) :
    overhang i token = [] := by
  refine List.drop_eq_nil_of_le ?_
  rw [List.length_append, List.length_singleton]
  omega

/-- A token that goes on as the next one ends where that one ends. -/
theorem overhang_of_chained (inside : i + 1 < 8) (long : 8 ≤ token.length) :
    overhang i token = overhang (i + 1) (token.drop 8) := by
  have rows : 64 - 8 * i = 8 + (64 - 8 * (i + 1)) := by omega
  rw [overhang, overhang, rows, ← List.drop_drop,
    List.drop_append_of_le_length long]

/-- Not only the last token leaves the bytes behind row seven alone. -/
theorem RowsFit.head (fit : RowsFit behind i (token :: tokens)) :
    i < 8 ∧ overhang i token <+: behind := by
  induction tokens generalizing i token with
  | nil => exact fit
  | cons next rest induction =>
      obtain ⟨chained, fit⟩ := fit
      obtain ⟨inside, same⟩ := induction fit
      refine ⟨by omega, ?_⟩
      rcases Nat.lt_or_ge token.length 8 with short | long
      · rw [overhang_of_short (by omega) (by omega)]
        exact List.nil_prefix
      · rw [overhang_of_chained inside long]
        rcases chained with short | rfl
        · omega
        · exact same

theorem RowsFit.tail (fit : RowsFit behind i (token :: tokens)) :
    RowsFit behind (i + 1) tokens := by
  cases tokens with
  | nil => exact fit.1
  | cons next rest => exact fit.2

theorem RowsFit.few (fit : RowsFit behind i tokens) :
    i + tokens.length ≤ 8 := by
  induction tokens generalizing i with
  | nil => exact fit
  | cons token rest induction =>
      have later := induction fit.tail
      rw [List.length_cons]
      omega

/-- Printing a token that finds its overhang there. -/
theorem frame_row (room : 64 ≤ data.length) (inside : i < 8)
    (same : overhang i token <+: data.drop 64) :
    sprintf data (8 * i) token =
        .ok (store data (8 * i) (token ++ [0])) ∧
      Frame (8 * i) 64 data (store data (8 * i) (token ++ [0])) := by
  obtain ⟨rest, shape⟩ := same
  have total := congrArg List.length shape
  simp only [overhang, List.length_append, List.length_drop,
    List.length_singleton] at total
  have size : (token ++ [0]).length = token.length + 1 := by simp
  have frame := frame_store data (8 * i) (token ++ [0]) (by omega)
  refine ⟨by rw [sprintf, if_pos (by omega)], frame.length, frame.front, ?_⟩
  rcases Nat.le_total (8 * i + (token ++ [0]).length) 64 with ends | goesOn
  · exact (frame.widen le_rfl ends).back
  · have start : (data.take (8 * i)).length = 8 * i := by
      rw [List.length_take]
      omega
    have left : rest = data.drop (8 * i + (token ++ [0]).length) := by
      have dropped := congrArg (List.drop (overhang i token).length) shape
      rw [List.drop_left, List.drop_drop] at dropped
      rw [dropped, overhang, List.length_drop]
      congr 1
      omega
    rw [← shape, left, store, List.append_assoc, List.drop_append, start,
      List.drop_eq_nil_of_le (by omega), List.nil_append,
      List.drop_append_of_le_length (by omega), overhang]

/-- A row up to the next one, and what is behind it. -/
theorem drop_row (data : List Byte) (i : Nat) :
    data.drop (8 * i) =
      (data.drop (8 * i)).take 8 ++ data.drop (8 * (i + 1)) := by
  rw [Nat.mul_succ, ← List.drop_drop, List.take_append_drop]

/-- Tokens that fit are printed, and each reads back from its row. -/
theorem printRows_of_fit (room : 64 ≤ data.length)
    (fit : RowsFit (data.drop 64) i tokens)
    (nulFree : ∀ token ∈ tokens, 0 ∉ token) :
    ∃ printed,
      printRows data i tokens = .ok printed ∧
        Frame (8 * i) 64 data printed ∧
        ∀ k (inside : k < tokens.length),
          cString (printed.drop (8 * (i + k))) = .ok tokens[k] := by
  induction tokens generalizing data i with
  | nil =>
      exact
        ⟨data, rfl, ⟨rfl, rfl, rfl⟩,
          fun k inside => absurd inside k.not_lt_zero⟩
  | cons token rest induction =>
      rw [List.forall_mem_cons] at nulFree
      obtain ⟨inside, same⟩ := fit.head
      obtain ⟨print, frame⟩ := frame_row room inside same
      have read :
          cString ((store data (8 * i) (token ++ [0])).drop (8 * i)) =
            .ok token := by
        have start : (data.take (8 * i)).length = 8 * i := by
          rw [List.length_take]
          omega
        rw [store, List.append_assoc, List.drop_left' start,
          List.append_assoc]
        exact cString_append_nul nulFree.1 _
      generalize store data (8 * i) (token ++ [0]) = stored at print frame read
      have later := fit.tail
      rw [← frame.back] at later
      obtain ⟨printed, prints, framed, reads⟩ :=
        induction (room.trans_eq frame.length.symm) later nulFree.2
      refine
        ⟨printed, ?_, frame.trans (framed.widen (by omega) le_rfl), ?_⟩
      · rw [printRows, print]
        exact prints
      · intro k below
        cases k with
        | zero =>
            have row :
                (printed.drop (8 * i)).take 8 =
                  (stored.drop (8 * i)).take 8 :=
              framed.slice (by omega)
            change cString (printed.drop (8 * i)) = .ok token
            rcases Nat.lt_or_ge token.length 8 with short | long
            · exact cString_of_slice read short row
            · cases rest with
              | nil =>
                  cases prints
                  exact read
              | cons next rest =>
                  rcases fit.1 with short | goesOn
                  · omega
                  · obtain ⟨behind, shape⟩ :=
                      eq_append_nul_of_cString read
                    obtain ⟨more, shape'⟩ :=
                      eq_append_nul_of_cString
                        (reads 0 (Nat.zero_lt_succ _))
                    rw [Nat.add_zero, List.getElem_cons_zero, ← goesOn]
                      at shape'
                    rw [drop_row, row, shape, shape',
                      List.take_append_of_le_length long,
                      ← List.append_assoc, List.take_append_drop]
                    exact cString_append_nul nulFree.1 _
        | succ k =>
            have position : i + 1 + k = i + (k + 1) := by omega
            have found := reads k (Nat.lt_of_succ_lt_succ below)
            rw [position] at found
            exact found

/-- Tokens that read back from their rows fit. -/
theorem fit_of_reads {printed : List Byte}
    (few : i + tokens.length ≤ 8) (back : printed.drop 64 = data.drop 64)
    (reads : ∀ k (inside : k < tokens.length),
      cString (printed.drop (8 * (i + k))) = .ok tokens[k]) :
    RowsFit (data.drop 64) i tokens := by
  induction tokens generalizing i with
  | nil => exact few
  | cons token rest induction =>
      rw [List.length_cons] at few
      have first := reads 0 (Nat.zero_lt_succ _)
      rw [Nat.add_zero, List.getElem_cons_zero] at first
      obtain ⟨behind, shape⟩ := eq_append_nul_of_cString first
      cases rest with
      | nil =>
          have start : token ++ [0] <+: printed.drop (8 * i) :=
            ⟨behind, by rw [shape, ← List.append_cons]⟩
          have same := start.drop (64 - 8 * i)
          have inside : 8 * i + (64 - 8 * i) = 64 := by
            rw [List.length_nil] at few
            omega
          rw [List.drop_drop, inside, back] at same
          exact ⟨by omega, same⟩
      | cons next rest =>
          have later (k : Nat) (inside : k < (next :: rest).length) :
              cString (printed.drop (8 * (i + 1 + k))) =
                .ok (next :: rest)[k] := by
            have found := reads (k + 1) (Nat.succ_lt_succ inside)
            have position : i + (k + 1) = i + 1 + k := by omega
            rw [position] at found
            exact found
          refine ⟨?_, induction (by omega) later⟩
          rcases Nat.lt_or_ge token.length 8 with short | long
          · exact Or.inl (by omega)
          · have second := later 0 (Nat.zero_lt_succ _)
            have free := nulFree_of_cString first
            have goesOn :
                printed.drop (8 * (i + 1)) = token.drop 8 ++ 0 :: behind := by
              rw [Nat.mul_succ, ← List.drop_drop, shape,
                List.drop_append_of_le_length long]
            rw [Nat.add_zero, goesOn,
              cString_append_nul fun zero => free (List.mem_of_mem_drop zero)]
              at second
            exact Or.inr (Except.ok.inj second)

end Rows

/-! ## The loop -/

section Loop

variable {pad count : List Byte}

/-- The record around a list field whose rest is `text`. -/
def around (front text pad count data : List Byte) : List Byte :=
  front ++ (text ++ 0 :: (pad ++ (count ++ data)))

/-- The record up to the rows of the table behind a list field. -/
theorem around_eq (front text pad count data : List Byte) :
    around front text pad count data =
      (front ++ text ++ 0 :: (pad ++ count)) ++ data := by
  simp [around]

/-- Printing a row of the table. -/
theorem sprintf_around
    {front text token : List Byte} {table : Nat}
    (place : table = front.length + text.length + 1 + pad.length)
    (size : count.length = 4) (data : List Byte) (i : Nat) :
    sprintf (around front text pad count data) (table + 4 + 8 * i) token =
      (sprintf data (8 * i) token).map (around front text pad count) := by
  have offset :
      table + 4 + 8 * i =
        (front ++ text ++ 0 :: (pad ++ count)).length + 8 * i := by
    simp only [List.length_append, List.length_cons]
    omega
  have total (data : List Byte) :
      (around front text pad count data).length =
        (front ++ text ++ 0 :: (pad ++ count)).length + data.length := by
    rw [around_eq, List.length_append]
  rw [sprintf, sprintf, total, offset]
  by_cases fits : 8 * i + token.length + 1 ≤ data.length
  · have inside : 8 * i + (token ++ [0]).length ≤ data.length := by
      rw [List.length_append, List.length_singleton]
      omega
    have stored (front : List Byte) :
        store (front ++ data) (front.length + 8 * i) (token ++ [0]) =
          front ++ store data (8 * i) (token ++ [0]) := by
      have middle := @store_middle front data [] _ _ inside
      rwa [List.append_nil, List.append_nil] at middle
    rw [if_pos (by omega), if_pos fits, around_eq, stored, ← around_eq]
    rfl
  · rw [if_neg (by omega), if_neg fits]
    rfl

/-- One round of the loop that finds a token. -/
theorem fillRows_round
    {table fuel i position start : Nat}
    {memory front text data token : List Byte}
    (found :
      strtok listDelimiters memory position =
        .ok (some start, around front text pad count data, front.length))
    (read :
      cString ((around front text pad count data).drop start) = .ok token)
    (place : table = front.length + text.length + 1 + pad.length)
    (size : count.length = 4) :
    fillRows table (fuel + 1) memory position i = (do
      let data ← sprintf data (8 * i) token
      fillRows table fuel (around front text pad count data) front.length
        (i + 1)) := by
  rw [fillRows, found]
  simp only [bind, Except.bind, read, sprintf_around place size]
  cases sprintf data (8 * i) token with
  | error fault => rfl
  | ok data => rfl

/-- The loop prints the tokens of the list field into the rows. -/
theorem fillRows_eq
    {table fuel i : Nat} {front text data : List Byte} (nulFree : 0 ∉ text)
    (place : table = front.length + text.length + 1 + pad.length)
    (size : count.length = 4)
    (enough : (tokens listDelimiters text).length < fuel) :
    fillRows table fuel (around front text pad count data) front.length i =
      (printRows data i (tokens listDelimiters text)).map fun printed =>
        (around front (cut listDelimiters false text) pad count printed,
          i + (tokens listDelimiters text).length) := by
  induction fuel generalizing front text data i with
  | zero => exact absurd enough (Nat.not_lt_zero _)
  | succ fuel induction =>
      rcases token_cases listDelimiters text with
        only | ⟨skipped, token, rest, rfl, skip, nonempty, plain, ends⟩
      · have none := tokens_of_delimiters only
        have kept := cut_skip only []
        rw [List.append_nil, cut, List.append_nil] at kept
        rw [none, kept, fillRows, around, strtok_none nulFree only]
        rfl
      · have tokenFree : 0 ∉ token := fun member =>
          nulFree (List.mem_append_left _ (List.mem_append_right _ member))
        rcases ends with rfl | ⟨delimiter, more, stop, rfl⟩
        · have one :
              tokens listDelimiters (skipped ++ token ++ []) = [token] := by
            rw [List.append_nil, tokens_skip skip, tokens_last nonempty plain]
          have kept :
              cut listDelimiters false (skipped ++ token ++ []) =
                skipped ++ token := by
            rw [List.append_assoc, cut_skip skip,
              cut_token nonempty plain, cut, List.append_nil]
          rw [one] at enough
          rw [one, kept]
          rw [List.append_nil] at nulFree place ⊢
          rw [List.length_singleton] at enough
          have moved (data : List Byte) :
              around front (skipped ++ token) pad count data =
                around (front ++ skipped ++ token) [] pad count data := by
            simp [around]
          have found :
              strtok listDelimiters
                  (around front (skipped ++ token) pad count data)
                  front.length =
                .ok (some (front.length + skipped.length),
                  around (front ++ skipped ++ token) [] pad count data,
                  (front ++ skipped ++ token).length) := by
            rw [← moved, around, strtok_last nulFree skip nonempty plain]
            simp only [List.length_append, Nat.add_assoc]
          have read :
              cString ((around (front ++ skipped ++ token) [] pad count
                data).drop (front.length + skipped.length)) = .ok token := by
            rw [← List.length_append, around,
              List.append_assoc (front ++ skipped)]
            exact cString_inside tokenFree
          have place' :
              table = (front ++ skipped ++ token).length +
                ([] : List Byte).length + 1 + pad.length := by
            simp only [List.length_append, List.length_nil] at place ⊢
            omega
          have nothing : tokens listDelimiters [] = [] := rfl
          have left : (tokens listDelimiters []).length < fuel := by
            rw [nothing, List.length_nil]
            omega
          rw [fillRows_round found read place' size, printRows]
          cases sprintf data (8 * i) token with
          | error fault => rfl
          | ok data =>
              simp only [bind, Except.bind]
              rw [induction (by simp) place' left, nothing]
              simp only [cut, moved, List.length_nil, List.length_singleton,
                Nat.add_zero]
        · have next :
              tokens listDelimiters (skipped ++ token ++ delimiter :: more) =
                token :: tokens listDelimiters more := by
            rw [List.append_assoc, tokens_skip skip,
              tokens_cons nonempty plain stop]
          have kept :
              cut listDelimiters false
                  (skipped ++ token ++ delimiter :: more) =
                skipped ++ token ++ 0 :: cut listDelimiters false more := by
            rw [List.append_assoc, cut_skip skip, cut_token nonempty plain,
              cut, if_pos stop, List.append_assoc]
            rfl
          rw [next] at enough
          rw [next, kept]
          rw [List.length_cons] at enough
          have found :
              strtok listDelimiters
                  (around front (skipped ++ token ++ delimiter :: more) pad
                    count data) front.length =
                .ok (some (front.length + skipped.length),
                  around (front ++ skipped ++ token ++ [0]) more pad count
                    data,
                  (front ++ skipped ++ token ++ [0]).length) :=
            strtok_cut nulFree skip nonempty plain stop
          have read :
              cString ((around (front ++ skipped ++ token ++ [0]) more pad
                count data).drop (front.length + skipped.length)) =
                .ok token := by
            rw [← List.length_append, around, List.append_assoc,
              List.append_assoc (front ++ skipped)]
            exact cString_inside tokenFree
          have place' :
              table = (front ++ skipped ++ token ++ [0]).length +
                more.length + 1 + pad.length := by
            simp only [List.length_append, List.length_cons,
              List.length_nil] at place ⊢
            omega
          have moreFree : 0 ∉ more := fun member =>
            nulFree (List.mem_append_right _ (List.mem_cons_of_mem _ member))
          have moved (data : List Byte) :
              around (front ++ skipped ++ token ++ [0])
                  (cut listDelimiters false more) pad count data =
                around front
                  (skipped ++ token ++ 0 :: cut listDelimiters false more)
                  pad count data := by
            simp [around]
          rw [fillRows_round found read place' size, printRows]
          cases sprintf data (8 * i) token with
          | error fault => rfl
          | ok data =>
              simp only [bind, Except.bind]
              rw [induction moreFree place' (by omega)]
              simp only [moved, List.length_cons, Nat.add_assoc,
                Nat.add_comm 1]

end Loop

/-! ## The record after a loop -/

section Record

variable {front value pad count data : List Byte}

/-- The record after a loop. -/
theorem fillTable_eq
    (nulFree : 0 ∉ value) {list table : Nat} (start : list = front.length)
    (place : table = front.length + value.length + 1 + pad.length)
    (size : count.length = 4) :
    fillTable (around front value pad count data) list table =
      (printRows data 0 (tokens listDelimiters value)).map
        (around front (cut listDelimiters false value) pad
          (intBytes
            (BitVec.ofNat 32 (tokens listDelimiters value).length))) := by
  have enough :
      fillRows table ((around front value pad count data).length + 1)
          (around front value pad count data) front.length 0 =
        fillRows table
          ((around front value pad count data).length + 1 +
            (tokens listDelimiters value).length)
          (around front value pad count data) front.length 0 :=
    fillRows_fuel table (by omega) (by omega) 0
  rw [fillTable, start, enough,
    fillRows_eq nulFree place size (by omega), Nat.zero_add]
  cases printRows data 0 (tokens listDelimiters value) with
  | error fault => rfl
  | ok printed =>
      have split (count : List Byte) :
          around front (cut listDelimiters false value) pad count printed =
            (front ++ cut listDelimiters false value ++ 0 :: pad) ++ count ++
              printed := by
        simp [around]
      have offset :
          table =
            (front ++ cut listDelimiters false value ++ 0 :: pad).length +
              0 := by
        simp only [List.length_append, List.length_cons, length_cut]
        omega
      have whole (number : BitVec 32) :
          store count 0 (intBytes number) = intBytes number := by
        rw [store, length_intBytes, List.drop_eq_nil_of_le (by omega)]
        simp
      simp only [bind, Except.bind, Except.map]
      rw [split, offset, store_middle (by rw [length_intBytes]; omega), whole,
        ← split]
      rfl

section Parts

variable {table : Nat}
  (place : table = front.length + value.length + 1 + pad.length)

include place

/-- The rows of the table behind a list field, and what is behind them. -/
theorem drop_around (size : count.length = 4) (position : Nat) :
    (around front value pad count data).drop (table + 4 + position) =
      data.drop position := by
  have offset :
      (front ++ value ++ 0 :: (pad ++ count)).length = table + 4 := by
    simp only [List.length_append, List.length_cons]
    omega
  rw [around_eq, ← List.drop_drop, List.drop_left' offset]

theorem loadInt_around (number : BitVec 32) :
    loadInt (around front value pad (intBytes number) data) table =
      number := by
  have split :
      around front value pad (intBytes number) data =
        (front ++ value ++ 0 :: pad) ++ (intBytes number ++ data) := by
    simp [around]
  have offset : table = (front ++ value ++ 0 :: pad).length := by
    simp only [List.length_append, List.length_cons]
    omega
  rw [split, offset, loadInt_append]

theorem take_around :
    (around front value pad count data).take table =
      front ++ (value ++ 0 :: pad) := by
  have split :
      around front value pad count data =
        (front ++ (value ++ 0 :: pad)) ++ (count ++ data) := by
    simp [around]
  have offset : (front ++ (value ++ 0 :: pad)).length = table := by
    simp only [List.length_append, List.length_cons]
    omega
  rw [split, List.take_left' offset]

end Parts

end Record

/-! ## One loop -/

/-- One of the three loops: its list field, its table and the field's size. -/
structure TokenLoop where
  list : Nat
  table : Nat
  size : Nat

/-- The loop over `type_list`. -/
def typeLoop : TokenLoop := ⟨Request.typeList, Request.typeData, 32⟩

/-- The loop over `image_path_list`. -/
def imageLoop : TokenLoop :=
  ⟨Request.imagePathList, Request.imagePathListData, 128⟩

/-- The loop over `image_normal_path`, if the request has its key. -/
def normalLoop : TokenLoop :=
  ⟨Request.imageNormalPath, Request.imageNormalPathData, 128⟩

/-- The loops in the order in which the parser runs them. -/
def tokenLoops (normal : Bool) : List TokenLoop :=
  [typeLoop, imageLoop] ++ if normal then [normalLoop] else []

/--
A table holds strings: their number, and each of them from its row on up to the
next NUL.
-/
structure Holds (request : List Byte) (table : Nat)
    (strings : List (List Byte)) : Prop where
  few : strings.length ≤ 8
  count : loadInt request table = BitVec.ofNat 32 strings.length
  rows : ∀ i (inside : i < strings.length),
    cString (request.drop (table + 4 + 8 * i)) =
      .ok (strings.get ⟨i, inside⟩)

/--
A loop ends with the tokens of a value in its table and does not change the
bytes in front of `kept` and those behind the table.
-/
def TableSafe (kept : Nat) (loop : TokenLoop) (value request after : List Byte) :
    Prop :=
  fillTable request loop.list loop.table = .ok after ∧
    Holds after loop.table (tokens listDelimiters value) ∧
    Frame kept (loop.table + 68) request after

/-- The tokens of a value fit a table with the bytes `behind` behind it. -/
def TokensFit (value behind : List Byte) : Prop :=
  RowsFit behind 0 (tokens listDelimiters value)

/-- No delimiter stands behind a token. -/
def Unsplit (value : List Byte) : Prop :=
  ∀ byte ∈ value.dropWhile (· ∈ listDelimiters), byte ∉ listDelimiters

instance (value behind : List Byte) : Decidable (TokensFit value behind) :=
  inferInstanceAs (Decidable (RowsFit _ _ _))

instance (value : List Byte) : Decidable (Unsplit value) :=
  inferInstanceAs
    (Decidable (∀ byte ∈ value.dropWhile (· ∈ listDelimiters),
      byte ∉ listDelimiters))

/-- The parts of the record around a list field that holds a value. -/
theorem exists_around
    {loop : TokenLoop} (behind : loop.table = loop.list + loop.size)
    {request value : List Byte} (inside : loop.table + 68 ≤ request.length)
    (string : cString (request.drop loop.list) = .ok value)
    (fits : value.length < loop.size) :
    ∃ front pad count data,
      request = around front value pad count data ∧
        loop.list = front.length ∧
        loop.table = front.length + value.length + 1 + pad.length ∧
        count.length = 4 ∧ 64 ≤ data.length := by
  obtain ⟨rest, shape⟩ := eq_append_nul_of_cString string
  have total := congrArg List.length shape
  simp only [List.length_drop, List.length_append, List.length_cons]
    at total
  let padding := loop.size - value.length - 1
  refine
    ⟨request.take loop.list, rest.take padding,
      (rest.drop padding).take 4, (rest.drop padding).drop 4,
      ?_, ?_, ?_, ?_, ?_⟩
  · rw [around, List.take_append_drop, List.take_append_drop, ← shape,
      List.take_append_drop]
  · rw [List.length_take]
    omega
  · simp only [List.length_take, padding]
    omega
  · simp only [List.length_take, List.length_drop, padding]
    omega
  · simp only [List.length_drop, padding]
    omega

section One

variable {loop : TokenLoop} {kept : Nat}
  {request value front pad count data : List Byte}

theorem nulFree_of_mem_tokens (nulFree : 0 ∉ value) :
    ∀ token ∈ tokens listDelimiters value, 0 ∉ token :=
  fun _ member zero => nulFree ((of_mem_tokens member).1 zero)

/-- A loop is safe if the tokens fit and `strtok` changes nothing kept. -/
theorem exists_tableSafe_around_iff
    (nulFree : 0 ∉ value) (start : loop.list = front.length)
    (place : loop.table = front.length + value.length + 1 + pad.length)
    (size : count.length = 4) (room : 64 ≤ data.length)
    (below : kept ≤ loop.table) :
    (∃ after,
        TableSafe kept loop value (around front value pad count data)
          after) ↔
      TokensFit value (data.drop 64) ∧
        (front ++ (cut listDelimiters false value ++ 0 :: pad)).take kept =
          (front ++ (value ++ 0 :: pad)).take kept := by
  have place' :
      loop.table =
        front.length + (cut listDelimiters false value).length + 1 +
          pad.length := by
    rw [length_cut, place]
  have behind : loop.table + 68 = loop.table + 4 + 64 := rfl
  have front' (memory : List Byte) :
      memory.take kept = (memory.take loop.table).take kept := by
    rw [List.take_take, Nat.min_eq_left below]
  have frontAfter (count' data' : List Byte) :
      (around front (cut listDelimiters false value) pad count'
          data').take kept =
        (front ++ (cut listDelimiters false value ++ 0 :: pad)).take kept := by
    rw [front', take_around place']
  have frontBefore :
      (around front value pad count data).take kept =
        (front ++ (value ++ 0 :: pad)).take kept := by
    rw [front', take_around place]
  constructor
  · rintro ⟨after, run, holds, frame⟩
    rw [fillTable_eq nulFree start place size] at run
    cases printed : printRows data 0 (tokens listDelimiters value) with
    | error fault =>
        rw [printed] at run
        cases run
    | ok data' =>
        rw [printed] at run
        cases run
        have same := frame.back
        rw [behind, drop_around place' (length_intBytes _),
          drop_around place size] at same
        have same' := frame.front
        rw [frontAfter, frontBefore] at same'
        refine ⟨fit_of_reads ?_ same ?_, same'⟩
        · rw [Nat.zero_add]
          exact holds.few
        · intro k inside
          have read := holds.rows k inside
          rw [drop_around place' (length_intBytes _)] at read
          rw [Nat.zero_add]
          exact read
  · rintro ⟨fit, same⟩
    obtain ⟨printed, prints, frame, reads⟩ :=
      printRows_of_fit room fit (nulFree_of_mem_tokens nulFree)
    have few := fit.few
    rw [Nat.zero_add] at few
    have run :
        fillTable (around front value pad count data) loop.list loop.table =
          .ok (around front (cut listDelimiters false value) pad
            (intBytes (BitVec.ofNat 32 (tokens listDelimiters value).length))
            printed) := by
      rw [fillTable_eq nulFree start place size, prints]
      rfl
    refine
      ⟨_, run, ⟨few, loadInt_around place' _, ?_⟩, ?_, ?_, ?_⟩
    · intro i inside
      have read := reads i inside
      rw [Nat.zero_add] at read
      rw [drop_around place' (length_intBytes _)]
      exact read
    · have total := frame.length
      simp only [around, List.length_append, List.length_cons, length_cut,
        length_intBytes, size, total]
    · rw [frontAfter, frontBefore, same]
    · rw [behind, drop_around place' (length_intBytes _),
        drop_around place size, frame.back]

variable (behind : loop.table = loop.list + loop.size)
  (inside : loop.table + 68 ≤ request.length)
  (string : cString (request.drop loop.list) = .ok value)
  (fits : value.length < loop.size)

include behind inside string fits

/-- A loop keeps to its list field and its table if the tokens fit. -/
theorem exists_tableSafe_list_iff :
    (∃ after, TableSafe loop.list loop value request after) ↔
      TokensFit value (request.drop (loop.table + 68)) := by
  obtain ⟨front, pad, count, data, rfl, start, place, size, room⟩ :=
    exists_around behind inside string fits
  have rows : loop.table + 68 = loop.table + 4 + 64 := rfl
  rw [exists_tableSafe_around_iff (nulFree_of_cString string) start place size
      room (by omega), rows, drop_around place size, and_iff_left_iff_imp]
  intro _
  rw [List.take_left' start.symm, List.take_left' start.symm]

/-- A loop keeps to its table if moreover `strtok` does not end a token. -/
theorem exists_tableSafe_table_iff :
    (∃ after, TableSafe loop.table loop value request after) ↔
      TokensFit value (request.drop (loop.table + 68)) ∧ Unsplit value := by
  obtain ⟨front, pad, count, data, rfl, start, place, size, room⟩ :=
    exists_around behind inside string fits
  have rows : loop.table + 68 = loop.table + 4 + 64 := rfl
  have whole (text : List Byte) (same : text.length = value.length) :
      (front ++ (text ++ 0 :: pad)).take loop.table =
        front ++ (text ++ 0 :: pad) := by
    refine List.take_of_length_le ?_
    simp only [List.length_append, List.length_cons]
    omega
  rw [exists_tableSafe_around_iff (nulFree_of_cString string) start place size
      room le_rfl, rows, drop_around place size, whole _ (length_cut _ _),
    whole _ rfl, List.append_right_inj, List.append_left_inj,
    cut_eq_self_iff (by decide)]
  rfl

/-- What a safe loop makes of the record around its list field. -/
theorem TableSafe.field {after : List Byte}
    (safe : TableSafe kept loop value request after) :
    ∃ front rest rest',
      loop.list = front.length ∧ request = front ++ (value ++ 0 :: rest) ∧
        after = front ++ (cut listDelimiters false value ++ 0 :: rest') := by
  obtain ⟨front, pad, count, data, rfl, start, place, size, room⟩ :=
    exists_around behind inside string fits
  have run := safe.1
  rw [fillTable_eq (nulFree_of_cString string) start place size] at run
  cases printed : printRows data 0 (tokens listDelimiters value) with
  | error fault =>
      rw [printed] at run
      cases run
  | ok data' =>
      rw [printed] at run
      cases run
      exact ⟨front, _, _, start, rfl, rfl⟩

/--
A string without delimiters that starts in front of the list field stays, also
if it goes on into that field.
-/
theorem TableSafe.keeps_string {after text : List Byte}
    (safe : TableSafe kept loop value request after) {position : Nat}
    (before : position ≤ loop.list)
    (read : cString (request.drop position) = .ok text)
    (plain : ∀ byte ∈ text, byte ∉ listDelimiters) :
    cString (after.drop position) = .ok text := by
  obtain ⟨front, rest, rest', start, rfl, rfl⟩ :=
    safe.field behind inside string fits
  rw [List.drop_append_of_le_length (by omega)] at read ⊢
  by_cases ends : 0 ∈ front.drop position
  · obtain ⟨shorter, found⟩ := exists_cString_iff.mpr ends
    obtain ⟨more, shape⟩ := eq_append_nul_of_cString found
    have free := nulFree_of_cString found
    rw [shape, List.append_assoc, List.cons_append,
      cString_append_nul free] at read ⊢
    exact read
  · have free : 0 ∉ front.drop position ++ value := by
      rw [List.mem_append, not_or]
      exact ⟨ends, nulFree_of_cString string⟩
    rw [← List.append_assoc, cString_append_nul free] at read
    have whole : cut listDelimiters false value = value := by
      rw [cut_eq_self_iff (by decide)]
      intro byte member
      rw [← Except.ok.inj read] at plain
      exact plain byte
        (List.mem_append_right _ ((List.dropWhile_suffix _).subset member))
    rw [whole, ← List.append_assoc, cString_append_nul free]
    exact read

end One

/-! ## The run of the loops -/

/-- The parts of the record that two loops work on do not overlap. -/
def TokenLoop.Apart (one other : TokenLoop) : Prop :=
  one.table + 68 ≤ other.list ∨ other.table + 68 ≤ one.list

instance (one other : TokenLoop) : Decidable (one.Apart other) :=
  inferInstanceAs (Decidable (_ ∨ _))

/-- The record holds the values of the list fields for some loops. -/
structure Ready (values : TokenLoop → List Byte) (loops : List TokenLoop)
    (request : List Byte) : Prop where
  size : request.length = Request.size
  layout : ∀ loop ∈ loops,
    loop.table = loop.list + loop.size ∧ loop.table + 68 ≤ request.length
  apart : loops.Pairwise TokenLoop.Apart
  strings : ∀ loop ∈ loops,
    cString (request.drop loop.list) = .ok (values loop)
  fits : ∀ loop ∈ loops, (values loop).length < loop.size

/--
A run of loops, each of them safe, at whose end every table holds the tokens
of its field.
-/
def SafeRun (kept : TokenLoop → Nat) (values : TokenLoop → List Byte) :
    List TokenLoop → List Byte → List Byte → Prop
  | [], request, after => after = request
  | loop :: rest, request, after =>
      (∃ next,
        TableSafe (kept loop) loop (values loop) request next ∧
          SafeRun kept values rest next after) ∧
        Holds after loop.table (tokens listDelimiters (values loop))

section Run

variable {kept : TokenLoop → Nat} {values : TokenLoop → List Byte}
  {loop : TokenLoop} {loops : List TokenLoop} {request : List Byte}

/-- A safe loop leaves the list fields of the later ones alone. -/
theorem Ready.next {after : List Byte}
    (ready : Ready values (loop :: loops) request)
    (order : loop.list ≤ kept loop)
    (safe : TableSafe (kept loop) loop (values loop) request after) :
    Ready values loops after := by
  obtain ⟨size, layout, apart, strings, fits⟩ := ready
  rw [List.pairwise_cons] at apart
  rw [List.forall_mem_cons] at layout strings fits
  have length := safe.2.2.length
  refine ⟨length.trans size, ?_, apart.2, ?_, fits.2⟩
  · rw [length]
    exact layout.2
  · intro other member
    have placed := (layout.2 other member).1
    have between : loop.table + 68 ≤ other.list ∨
        other.table + 68 ≤ loop.list := apart.1 other member
    exact cString_of_slice (strings.2 other member) (fits.2 other member)
      (safe.2.2.slice (by omega))

/-- A safe loop leaves a table of tokens of another one alone. -/
theorem Ready.keeps_table {after : List Byte}
    (ready : Ready values (loop :: loops) request)
    (order : loop.list ≤ kept loop)
    (safe : TableSafe (kept loop) loop (values loop) request after)
    {table : Nat} (apart : table + 68 ≤ loop.list ∨ loop.table + 68 ≤ table)
    {strings : List (List Byte)} (holds : Holds request table strings)
    (plain : ∀ text ∈ strings, ∀ byte ∈ text, byte ∉ listDelimiters) :
    Holds after table strings := by
  obtain ⟨-, layout, -, contents, fits⟩ := ready
  rw [List.forall_mem_cons] at layout contents fits
  have frame := safe.2.2
  refine ⟨holds.few, ?_, ?_⟩
  · rw [← holds.count]
    exact loadInt_of_slice (frame.slice (by omega))
  · intro i inside
    have few := holds.few
    have read := holds.rows i inside
    rcases apart with behind | ahead
    · exact
        safe.keeps_string layout.1.1 layout.1.2 contents.1 fits.1
          (by omega) read (plain _ (List.get_mem _ _))
    · rw [← read, (frame.widen le_rfl (by omega)).back]

/-- Later loops leave an earlier table alone. -/
theorem SafeRun.holds
    {after : List Byte} (run : SafeRun kept values loops request after)
    (ready : Ready values loops request)
    (order : ∀ loop ∈ loops, loop.list ≤ kept loop) {table : Nat}
    (apart : ∀ loop ∈ loops,
      table + 68 ≤ loop.list ∨ loop.table + 68 ≤ table)
    {strings : List (List Byte)} (holds : Holds request table strings)
    (plain : ∀ text ∈ strings, ∀ byte ∈ text, byte ∉ listDelimiters) :
    Holds after table strings := by
  induction loops generalizing request with
  | nil =>
      cases run
      exact holds
  | cons loop rest induction =>
      obtain ⟨⟨next, safe, later⟩, -⟩ := run
      rw [List.forall_mem_cons] at order apart
      exact
        induction later (ready.next order.1 safe) order.2 apart.2
          (ready.keeps_table order.1 safe apart.1 holds plain)

/-- At the end of a safe run every table holds the tokens of its field. -/
theorem SafeRun.tables
    {after : List Byte} (run : SafeRun kept values loops request after) :
    ∀ loop ∈ loops,
      Holds after loop.table (tokens listDelimiters (values loop)) := by
  induction loops generalizing request with
  | nil => simp
  | cons loop rest induction =>
      obtain ⟨⟨next, -, later⟩, holds⟩ := run
      rw [List.forall_mem_cons]
      exact ⟨holds, induction later⟩

/-- A run is safe if its first loop is and the run behind that one is. -/
theorem exists_safeRun_cons_iff {first later : Prop}
    (ready : Ready values (loop :: loops) request)
    (order : ∀ other ∈ loop :: loops, other.list ≤ kept other)
    (one :
      (∃ next, TableSafe (kept loop) loop (values loop) request next) ↔ first)
    (others : ∀ next,
      TableSafe (kept loop) loop (values loop) request next →
        ((∃ after, SafeRun kept values loops next after) ↔ later)) :
    (∃ after, SafeRun kept values (loop :: loops) request after) ↔
      first ∧ later := by
  rw [List.forall_mem_cons] at order
  constructor
  · rintro ⟨after, ⟨next, safe, run⟩, -⟩
    exact ⟨one.mp ⟨next, safe⟩, (others next safe).mp ⟨after, run⟩⟩
  · rintro ⟨good, rest⟩
    obtain ⟨next, safe⟩ := one.mpr good
    obtain ⟨after, run⟩ := (others next safe).mpr rest
    have ready' := ready.next order.1 safe
    refine ⟨after, ⟨next, safe, run⟩, ?_⟩
    refine run.holds ready' order.2 ?_ safe.2.1 ?_
    · intro other member
      have length := safe.2.2.length
      have placed := (ready.layout loop (List.mem_cons_self ..)).1
      have placed' := (ready'.layout other member).1
      have between : loop.table + 68 ≤ other.list ∨
          other.table + 68 ≤ loop.list :=
        (List.pairwise_cons.mp ready.apart).1 other member
      omega
    · exact fun text member => (of_mem_tokens member).2

/-- The stage of the parser that a safe run of the loops is. -/
theorem SafeRun.splitLists
    {normal : Bool} {after : List Byte}
    (run : SafeRun kept values (tokenLoops normal) request after) :
    splitLists normal request = .ok after := by
  obtain ⟨⟨first, ⟨one, -⟩, ⟨second, ⟨two, -⟩, run⟩, -⟩, -⟩ := run
  simp only [typeLoop] at one
  simp only [imageLoop] at two
  simp only [Http.splitLists, one, bind, Except.bind, two]
  cases normal with
  | false =>
      cases run
      rfl
  | true =>
      obtain ⟨⟨third, ⟨three, -⟩, run⟩, -⟩ := run
      cases run
      exact three

end Run

/-- Each table lies right behind its list field, inside the record. -/
theorem tokenLoops_layout :
    ∀ normal, ∀ loop ∈ tokenLoops normal,
      loop.table = loop.list + loop.size ∧
        loop.table + 68 ≤ Request.size := by
  decide

theorem tokenLoops_apart :
    ∀ normal, (tokenLoops normal).Pairwise TokenLoop.Apart := by
  decide

/-- What fits in front of some bytes depends on their first string only. -/
theorem rowsFit_append_nul
    {i : Nat} {strings : List (List Byte)}
    (nulFree : ∀ text ∈ strings, 0 ∉ text) (front rest : List Byte) :
    RowsFit (front ++ 0 :: rest) i strings ↔
      RowsFit (front ++ [0]) i strings := by
  have whole : front ++ 0 :: rest = front ++ [0] ++ rest :=
    List.append_cons ..
  induction strings generalizing i with
  | nil => rfl
  | cons text strings induction =>
      rw [List.forall_mem_cons] at nulFree
      cases strings with
      | cons next strings => exact and_congr_right' (induction nulFree.2)
      | nil =>
          refine and_congr_right' ⟨fun same => ?_, fun same => ?_⟩
          · have ends : front ++ [0] <+: front ++ 0 :: rest := by
              rw [whole]
              exact List.prefix_append ..
            rcases Nat.le_total (overhang i text).length
                (front ++ [0]).length with short | long
            · exact List.prefix_of_prefix_length_le same ends short
            · have inside : front ++ [0] <+: overhang i text :=
                List.prefix_of_prefix_length_le ends same long
              rcases Nat.lt_or_ge text.length (64 - 8 * i) with
                within | beyond
              · have none : overhang i text = [] := by
                  refine List.drop_eq_nil_of_le ?_
                  rw [List.length_append, List.length_singleton]
                  omega
                rw [none]
                exact List.nil_prefix
              · rw [overhang, List.drop_append_of_le_length beyond] at inside
                rcases List.prefix_concat_iff.mp inside with equal | shorter
                · rw [overhang, List.drop_append_of_le_length beyond, equal]
                · have zero : 0 ∈ text.drop (64 - 8 * i) :=
                    shorter.subset (by simp)
                  exact absurd (List.mem_of_mem_drop zero) nulFree.1
          · rw [whole]
            exact same.trans (List.prefix_append ..)

/--
The bytes behind the table of a loop when the loop starts.  Behind the table of
the third loop stands `image_path_list`, which the second one has split.
-/
def behindTable (values : TokenLoop → List Byte) (request : List Byte)
    (loop : TokenLoop) : List Byte :=
  if loop.table = Request.imageNormalPathData then
    cut listDelimiters false (values imageLoop) ++ [0]
  else request.drop (loop.table + 68)

section Parser

variable {normal : Bool} {request : List Byte}
  {values : TokenLoop → List Byte} {kept : TokenLoop → Nat}
  {extra : List Byte → Prop}

/-- A run of the loops is safe if each of them is on the bytes it finds. -/
theorem exists_safeRun_iff
    (ready : Ready values (tokenLoops normal) request)
    (order : ∀ loop ∈ tokenLoops normal, loop.list ≤ kept loop)
    (step : ∀ loop ∈ tokenLoops normal, ∀ request value : List Byte,
      request.length = Request.size →
      cString (request.drop loop.list) = .ok value →
      value.length < loop.size →
        ((∃ after, TableSafe (kept loop) loop value request after) ↔
          TokensFit value (request.drop (loop.table + 68)) ∧ extra value)) :
    (∃ after, SafeRun kept values (tokenLoops normal) request after) ↔
      ∀ loop ∈ tokenLoops normal,
        TokensFit (values loop) (behindTable values request loop) ∧
          extra (values loop) := by
  have split (property : TokenLoop → Prop) :
      (∀ loop ∈ tokenLoops normal, property loop) ↔
        property typeLoop ∧ property imageLoop ∧
          ∀ loop ∈ if normal then [normalLoop] else [], property loop := by
    simp only [tokenLoops, List.cons_append, List.nil_append,
      List.forall_mem_cons]
  have good {loop : TokenLoop} (member : loop ∈ tokenLoops normal)
      {loops : List TokenLoop} {state : List Byte}
      (ready : Ready values (loop :: loops) state) :
      (∃ next, TableSafe (kept loop) loop (values loop) state next) ↔
        TokensFit (values loop) (state.drop (loop.table + 68)) ∧
          extra (values loop) :=
    step loop member state (values loop) ready.size
      (ready.strings loop (List.mem_cons_self ..))
      (ready.fits loop (List.mem_cons_self ..))
  rw [split]
  refine exists_safeRun_cons_iff ready order (good (by simp [tokenLoops]) ready)
    fun first safe => ?_
  have orders := (List.forall_mem_cons.mp order).2
  have ready := ready.next (order typeLoop (by simp [tokenLoops])) safe
  refine exists_safeRun_cons_iff ready orders ?_ fun second safe' => ?_
  · rw [good (by simp [tokenLoops]) ready]
    have last (state : List Byte) (size : state.length = Request.size) :
        state.drop (imageLoop.table + 68) = [] :=
      List.drop_eq_nil_of_le size.le
    have start : request.length = Request.size :=
      safe.2.2.length.symm.trans ready.size
    rw [behindTable, if_neg (by decide), last _ start, last _ ready.size]
  · have field :=
      safe'.field (ready.layout imageLoop (List.mem_cons_self ..)).1
        (ready.layout imageLoop (List.mem_cons_self ..)).2
        (ready.strings imageLoop (List.mem_cons_self ..))
        (ready.fits imageLoop (List.mem_cons_self ..))
    have ready := ready.next (order imageLoop (by simp [tokenLoops])) safe'
    cases normal with
    | false => simp [SafeRun]
    | true =>
        have whole :
            (∃ after,
                SafeRun kept values [normalLoop] second after) ↔
              (TokensFit (values normalLoop)
                    (behindTable values request normalLoop) ∧
                  extra (values normalLoop)) ∧
                True := by
          refine exists_safeRun_cons_iff ready
            (List.forall_mem_cons.mp orders).2 ?_ fun third safe => ?_
          · rw [good (by simp [tokenLoops]) ready]
            obtain ⟨front, rest, rest', start, -, shape⟩ := field
            have found :
                second.drop (normalLoop.table + 68) =
                  cut listDelimiters false (values imageLoop) ++ 0 :: rest' := by
              rw [shape]
              exact List.drop_left' start.symm
            have free :=
              nulFree_of_mem_tokens
                (nulFree_of_cString
                  (ready.strings normalLoop (List.mem_cons_self ..)))
            rw [found, behindTable, if_pos (by decide), TokensFit,
              rowsFit_append_nul free, TokensFit]
          · exact ⟨fun _ => trivial, fun _ => ⟨third, rfl⟩⟩
        simpa using whole

/-- The record that the loops start from. -/
theorem ready_of_strings
    (size : request.length = Request.size)
    (strings : ∀ loop ∈ tokenLoops normal,
      cString (request.drop loop.list) = .ok (values loop))
    (fits : ∀ loop ∈ tokenLoops normal,
      (values loop).length < loop.size) :
    Ready values (tokenLoops normal) request := by
  refine ⟨size, ?_, tokenLoops_apart normal, strings, fits⟩
  rw [size]
  exact tokenLoops_layout normal

variable (ready : Ready values (tokenLoops normal) request)

include ready

theorem exists_safeRun_table_iff :
    (∃ after,
        SafeRun TokenLoop.table values (tokenLoops normal) request after) ↔
      ∀ loop ∈ tokenLoops normal,
        TokensFit (values loop) (behindTable values request loop) ∧
          Unsplit (values loop) := by
  have layout := tokenLoops_layout normal
  refine exists_safeRun_iff ready ?_ ?_
  · intro loop member
    have placed := layout loop member
    omega
  · intro loop member request value size string short
    have placed := layout loop member
    exact exists_tableSafe_table_iff placed.1 (by omega) string short

theorem exists_safeRun_list_iff :
    (∃ after,
        SafeRun TokenLoop.list values (tokenLoops normal) request after) ↔
      ∀ loop ∈ tokenLoops normal,
        TokensFit (values loop) (behindTable values request loop) := by
  have layout := tokenLoops_layout normal
  have iff :=
    @exists_safeRun_iff normal request values TokenLoop.list
      (fun _ => True) ready (fun loop _ => le_refl loop.list)
      fun loop member request value size string short => by
        have placed := layout loop member
        rw [exists_tableSafe_list_iff placed.1 (by omega) string short,
          and_true]
  simpa only [and_true] using iff

end Parser

/--
The loops store the tokens of the list fields safely exactly if the tokens of
each field fit its table.  They leave all bytes outside the tables alone, the
list fields that `strtok` works on included, exactly if moreover no delimiter
stands behind a token.
-/
theorem safeRun_iff
    (normal : Bool) (request : List Byte)
    (size : request.length = Request.size)
    (values : TokenLoop → List Byte)
    (strings : ∀ loop ∈ tokenLoops normal,
      cString (request.drop loop.list) = .ok (values loop))
    (fits : ∀ loop ∈ tokenLoops normal,
      (values loop).length < loop.size) :
    ((∃ after,
        SafeRun TokenLoop.table values (tokenLoops normal) request after) ↔
      ∀ loop ∈ tokenLoops normal,
        TokensFit (values loop) (behindTable values request loop) ∧
          Unsplit (values loop)) ∧
    ((∃ after,
        SafeRun TokenLoop.list values (tokenLoops normal) request after) ↔
      ∀ loop ∈ tokenLoops normal,
        TokensFit (values loop) (behindTable values request loop)) := by
  have ready := ready_of_strings size strings fits
  exact ⟨exists_safeRun_table_iff ready, exists_safeRun_list_iff ready⟩

/-- A record whose `type_list` holds a text and whose other fields are zero. -/
def typeListRecord (text : List Byte) : List Byte :=
  store Request.zero Request.typeList text

/-- The values of the list fields of such a record. -/
def typeListValues (text : List Byte) (loop : TokenLoop) : List Byte :=
  if loop.list = Request.typeList then text else []

/--
The defect type `sly_dmyw` has eight characters; alone it fits, since nothing
is printed over the terminator in row one.
-/
theorem safeRun_iff_dmyw :
    ∃ after,
      SafeRun TokenLoop.table (typeListValues (ascii "sly_dmyw"))
        (tokenLoops true) (typeListRecord (ascii "sly_dmyw")) after :=
  (safeRun_iff true (typeListRecord (ascii "sly_dmyw")) (by decide +kernel)
    (typeListValues (ascii "sly_dmyw")) (by decide +kernel)
    (by decide +kernel)).1.mpr (by decide +kernel)

/-- Behind it the type `bmwh` is printed over that terminator. -/
theorem dmyw_bmwh_not_safeRun :
    cString ((typeListRecord (ascii "sly_dmyw,bmwh")).drop Request.typeList) =
        .ok (ascii "sly_dmyw,bmwh") ∧
      (fillTable (typeListRecord (ascii "sly_dmyw,bmwh")) Request.typeList
          Request.typeData >>= fun after =>
            cString (after.drop (Request.typeData + 4))) =
        .ok (ascii "sly_dmywbmwh") ∧
      (¬ ∃ after,
        SafeRun TokenLoop.table (typeListValues (ascii "sly_dmyw,bmwh"))
          (tokenLoops true) (typeListRecord (ascii "sly_dmyw,bmwh")) after) ∧
      ¬ ∃ after,
        SafeRun TokenLoop.list (typeListValues (ascii "sly_dmyw,bmwh"))
          (tokenLoops true) (typeListRecord (ascii "sly_dmyw,bmwh")) after := by
  have ready :
      Ready (typeListValues (ascii "sly_dmyw,bmwh")) (tokenLoops true)
        (typeListRecord (ascii "sly_dmyw,bmwh")) :=
    ready_of_strings (by decide +kernel) (by decide +kernel)
      (by decide +kernel)
  refine ⟨by decide +kernel, by decide +kernel, ?_, ?_⟩
  · rw [exists_safeRun_table_iff ready]
    decide +kernel
  · rw [exists_safeRun_list_iff ready]
    decide +kernel

end CommonCode.Http
