import CommonCode.Lib.Bits

/-!
# Strings and byte buffers of C

A character array is the list of its bytes, and a pointer into it is the list
of the bytes from there to the end of the array.  The string at a pointer is
the part before the first NUL byte.  The search functions of the C library work
on strings and return offsets; the copying functions work on arrays, and an
access outside the array is a fault.
-/

namespace CommonCode.Lib.CString

open CommonCode.Lib.Bits

/-- The undefined behaviours that the models distinguish from results. -/
inductive Fault where
  | outOfBounds
  | nullPointer
deriving DecidableEq, Repr

/-- Two continuations that agree on the result of a computation. -/
theorem bind_congr_ok
    {α β : Type} {computation : Except Fault α}
    {next other : α → Except Fault β}
    (agree : ∀ value, computation = .ok value → next value = other value) :
    (computation >>= next) = (computation >>= other) := by
  cases computation with
  | error fault => rfl
  | ok value => exact agree value rfl

/-- A computation that succeeds passes a result to its continuation. -/
theorem bind_eq_ok_iff
    {α β : Type} {computation : Except Fault α}
    {next : α → Except Fault β} {result : β} :
    (computation >>= next) = .ok result ↔
      ∃ value, computation = .ok value ∧ next value = .ok result := by
  cases computation with
  | error fault => simp [bind, Except.bind]
  | ok value => simp [bind, Except.bind]

/-- The bytes of an ASCII text. -/
def ascii (text : String) : List Byte :=
  text.toList.map fun c => BitVec.ofNat 8 c.toNat

/-- The byte of an ASCII character. -/
def char (c : Char) : Byte := BitVec.ofNat 8 c.toNat

/-! ## Strings in memory -/

/-- The string at a pointer, without its terminator. -/
def cString (memory : List Byte) : Except Fault (List Byte) :=
  if 0 ∈ memory then .ok (memory.takeWhile fun b => b ≠ 0)
  else .error .outOfBounds

theorem takeWhile_append_nul {text : List Byte} (nulFree : 0 ∉ text)
    (rest : List Byte) :
    (text ++ 0 :: rest).takeWhile (fun b => b ≠ 0) = text := by
  induction text with
  | nil => simp
  | cons byte text induction =>
      have nonzero : byte ≠ 0 := by
        rintro rfl
        exact nulFree (List.mem_cons_self ..)
      have tail : 0 ∉ text := fun member =>
        nulFree (List.mem_cons_of_mem _ member)
      rw [List.cons_append, List.takeWhile_cons_of_pos (by simpa using nonzero),
        induction tail]

theorem cString_append_nul {text : List Byte} (nulFree : 0 ∉ text)
    (rest : List Byte) :
    cString (text ++ 0 :: rest) = .ok text := by
  rw [cString, if_pos (by simp), takeWhile_append_nul nulFree]

/-- A string in memory is followed by its terminator. -/
theorem eq_append_nul_of_cString
    {memory text : List Byte} (string : cString memory = .ok text) :
    ∃ rest, memory = text ++ 0 :: rest := by
  rw [cString] at string
  split at string
  · next terminated =>
      rw [Except.ok.injEq] at string
      have behind : memory.dropWhile (fun b => b ≠ 0) ≠ [] := by
        rw [ne_eq, List.dropWhile_eq_nil_iff]
        intro nonzero
        simpa using nonzero 0 terminated
      obtain ⟨byte, rest, equation⟩ := List.exists_cons_of_ne_nil behind
      have zero : byte = 0 := by
        have stopped :=
          List.head_dropWhile_not (fun b : Byte => b ≠ 0) behind
        simp only [equation, List.head_cons] at stopped
        simpa using stopped
      refine ⟨rest, ?_⟩
      rw [zero] at equation
      rw [← string, ← equation, List.takeWhile_append_dropWhile]
  · cases string

theorem nulFree_of_cString
    {memory text : List Byte} (string : cString memory = .ok text) :
    0 ∉ text := by
  rw [cString] at string
  split at string
  · rw [Except.ok.injEq] at string
    intro member
    rw [← string] at member
    simpa using List.mem_takeWhile_imp member
  · cases string

/-- A pointer is a string if a terminator follows. -/
theorem exists_cString_iff {memory : List Byte} :
    (∃ text, cString memory = .ok text) ↔ 0 ∈ memory := by
  constructor
  · rintro ⟨text, string⟩
    obtain ⟨rest, rfl⟩ := eq_append_nul_of_cString string
    exact List.mem_append_right _ (List.mem_cons_self ..)
  · intro terminated
    exact ⟨_, if_pos terminated⟩

/-- An array of `size` bytes that holds a text and zeros behind it. -/
def zeroPadded (size : Nat) (text : List Byte) : List Byte :=
  text ++ List.replicate (size - text.length) 0

@[simp]
theorem length_zeroPadded {size : Nat} {text : List Byte}
    (fits : text.length ≤ size) :
    (zeroPadded size text).length = size := by
  simp [zeroPadded, fits]

theorem zeroPadded_eq_append_nul
    {size : Nat} {text : List Byte} (fits : text.length < size) :
    zeroPadded size text =
      text ++ 0 :: List.replicate (size - text.length - 1) 0 := by
  rw [zeroPadded, ← List.replicate_succ]
  congr 2
  omega

theorem cString_zeroPadded
    {size : Nat} {text : List Byte} (nulFree : 0 ∉ text)
    (fits : text.length < size) :
    cString (zeroPadded size text) = .ok text := by
  rw [zeroPadded_eq_append_nul fits, cString_append_nul nulFree]

/-! ## Comparing and searching -/

/-- `strncmp` on two strings. -/
def strncmp : List Byte → List Byte → Nat → Int
  | _, _, 0 => 0
  | [], [], _ + 1 => 0
  | [], b :: _, _ + 1 => -(b.toNat : Int)
  | a :: _, [], _ + 1 => a.toNat
  | a :: left, b :: right, n + 1 =>
      if a = b then strncmp left right n else (a.toNat : Int) - b.toNat

/-- `strstr`: the offset of the first occurrence of `needle`. -/
def strstr (haystack needle : List Byte) : Option Nat :=
  if needle.isPrefixOf haystack then some 0
  else
    match haystack with
    | [] => none
    | _ :: rest => (strstr rest needle).map (· + 1)

/-- `strchr` for a byte other than NUL: the offset of its first occurrence. -/
def strchr (text : List Byte) (c : Byte) : Option Nat :=
  text.findIdx? (· = c)

/-- `strrchr` for a byte other than NUL: the offset of its last occurrence. -/
def strrchr (text : List Byte) (c : Byte) : Option Nat :=
  (text.reverse.findIdx? (· = c)).map (text.length - 1 - ·)

/-- A comparison over the whole length of a literal tests for a prefix. -/
theorem strncmp_eq_zero_iff
    {literal : List Byte} (nulFree : 0 ∉ literal) (text : List Byte) :
    strncmp text literal literal.length = 0 ↔ literal <+: text := by
  induction literal generalizing text with
  | nil => simp [strncmp]
  | cons byte literal induction =>
      have nonzero : byte ≠ 0 := by
        rintro rfl
        exact nulFree (List.mem_cons_self ..)
      have tail : 0 ∉ literal := fun member =>
        nulFree (List.mem_cons_of_mem _ member)
      cases text with
      | nil =>
          have positive : byte.toNat ≠ 0 := by
            intro zero
            exact nonzero (BitVec.eq_of_toNat_eq zero)
          simp [strncmp, positive]
      | cons first text =>
          rw [List.cons_prefix_cons, List.length_cons, strncmp]
          by_cases equal : first = byte
          · rw [if_pos equal, induction tail]
            simp [equal]
          · have apart : first.toNat ≠ byte.toNat := fun same =>
              equal (BitVec.eq_of_toNat_eq same)
            rw [if_neg equal]
            constructor
            · intro zero
              omega
            · rintro ⟨same, _⟩
              exact absurd same.symm equal

/-- A literal at the start of a terminated text lies inside the text. -/
theorem prefix_of_prefix_append_nul
    {literal text rest : List Byte} (nulFree : 0 ∉ literal)
    (start : literal <+: text ++ 0 :: rest) :
    literal <+: text := by
  rcases Nat.lt_or_ge text.length literal.length with short | long
  · have terminated : text ++ [0] <+: literal :=
      List.prefix_of_prefix_length_le ⟨rest, by simp⟩ start
        (by simpa using short)
    exact absurd (terminated.subset (by simp)) nulFree
  · exact List.prefix_of_prefix_length_le start (List.prefix_append ..) long

/-- `strstr` finds the first position at which the needle starts. -/
theorem strstr_eq_some_iff
    (haystack needle : List Byte) (i : Nat) :
    strstr haystack needle = some i ↔
      i ≤ haystack.length ∧ needle <+: haystack.drop i ∧
        ∀ j < i, ¬ needle <+: haystack.drop j := by
  induction haystack generalizing i with
  | nil =>
      rw [strstr]
      by_cases found : needle.isPrefixOf [] = true
      · rw [if_pos found]
        rw [List.isPrefixOf_iff_prefix] at found
        constructor
        · rintro ⟨⟩
          exact ⟨le_rfl, by simpa using found, by simp⟩
        · rintro ⟨bound, -, -⟩
          have zero : i = 0 := by simpa using bound
          rw [zero]
      · rw [if_neg found]
        rw [List.isPrefixOf_iff_prefix] at found
        constructor
        · intro impossible
          exact absurd impossible (by simp)
        · rintro ⟨bound, here, -⟩
          exact absurd (by simpa using here) found
  | cons byte rest induction =>
      rw [strstr]
      by_cases found : needle.isPrefixOf (byte :: rest) = true
      · rw [if_pos found]
        rw [List.isPrefixOf_iff_prefix] at found
        constructor
        · rintro ⟨⟩
          exact ⟨Nat.zero_le _, by simpa using found, by simp⟩
        · rintro ⟨-, -, first⟩
          cases i with
          | zero => rfl
          | succ i => exact absurd found (first 0 (Nat.succ_pos i))
      · rw [if_neg found]
        rw [List.isPrefixOf_iff_prefix] at found
        simp only [Option.map_eq_some_iff, induction]
        constructor
        · rintro ⟨position, ⟨bound, here, first⟩, rfl⟩
          refine ⟨by simpa using bound, by simpa using here, ?_⟩
          intro j below
          cases j with
          | zero => simpa using found
          | succ j => simpa using first j (by omega)
        · rintro ⟨bound, here, first⟩
          cases i with
          | zero => exact absurd (by simpa using here) found
          | succ i =>
              refine
                ⟨i, ⟨by simpa using bound, by simpa using here, ?_⟩,
                  rfl⟩
              intro j below
              simpa using first (j + 1) (by omega)

theorem strstr_eq_none_iff (haystack needle : List Byte) :
    strstr haystack needle = none ↔ ¬ needle <:+: haystack := by
  induction haystack with
  | nil =>
      rw [strstr]
      by_cases found : needle.isPrefixOf [] = true
      · rw [if_pos found]
        rw [List.isPrefixOf_iff_prefix] at found
        simp [found.isInfix]
      · rw [if_neg found]
        rw [List.isPrefixOf_iff_prefix] at found
        simpa using found
  | cons byte rest induction =>
      rw [strstr, List.infix_cons_iff]
      by_cases found : needle.isPrefixOf (byte :: rest) = true
      · rw [if_pos found]
        rw [List.isPrefixOf_iff_prefix] at found
        simp [found]
      · rw [if_neg found]
        rw [List.isPrefixOf_iff_prefix] at found
        simp [found, induction]

theorem exists_strstr_iff {haystack needle : List Byte} :
    (∃ i, strstr haystack needle = some i) ↔ needle <:+: haystack := by
  rw [← Option.ne_none_iff_exists', ne_eq, strstr_eq_none_iff, not_not]

/--
A needle whose first byte does not occur in its rest cannot overlap a later
copy of itself: it is found where it was put, unless it occurs in the text in
front of it.
-/
theorem strstr_append
    {first : Byte} {rest front : List Byte}
    (unbordered : first ∉ rest)
    (absent : ¬ (first :: rest) <:+: front) (back : List Byte) :
    strstr (front ++ (first :: rest) ++ back) (first :: rest) =
      some front.length := by
  rw [strstr_eq_some_iff]
  refine ⟨by simp, ⟨back, by simp⟩, ?_⟩
  intro j before found
  have split :
      (front ++ (first :: rest) ++ back).drop j =
        front.drop j ++ ((first :: rest) ++ back) := by
    rw [List.append_assoc, List.drop_append_of_le_length before.le]
  rw [split] at found
  rcases Nat.lt_or_ge (front.drop j).length (first :: rest).length with
    short | long
  · have overlap : front.drop j ++ [first] <+: first :: rest :=
      List.prefix_of_prefix_length_le
        (by simp) found (by simpa using short)
    have nonempty : front.drop j ≠ [] := by
      simpa using before
    obtain ⟨byte, tail, equation⟩ := List.exists_cons_of_ne_nil nonempty
    rw [equation, List.cons_append, List.cons_prefix_cons] at overlap
    exact unbordered (overlap.2.subset (by simp))
  · have inside : first :: rest <+: front.drop j :=
      List.prefix_of_prefix_length_le found (by simp) long
    exact absent (inside.isInfix.trans (List.drop_suffix j front).isInfix)

/-- What follows a text does not move the first occurrence in it. -/
theorem strstr_append_left
    {text needle : List Byte} {i : Nat}
    (found : strstr text needle = some i) (back : List Byte) :
    strstr (text ++ back) needle = some i := by
  rw [strstr_eq_some_iff] at found ⊢
  obtain ⟨bound, here, first⟩ := found
  have room : needle.length ≤ text.length - i := by
    simpa using here.length_le
  refine ⟨by rw [List.length_append]; omega, ?_, ?_⟩
  · rw [List.drop_append_of_le_length bound]
    exact here.trans (List.prefix_append ..)
  · intro j before earlier
    rw [List.drop_append_of_le_length (by omega)] at earlier
    refine first j before ?_
    refine List.prefix_of_prefix_length_le earlier
      (List.prefix_append ..) ?_
    rw [List.length_drop]
    omega

theorem strstr_le_length
    {text needle : List Byte} {i : Nat}
    (found : strstr text needle = some i) :
    i + needle.length ≤ text.length := by
  rw [strstr_eq_some_iff] at found
  have room : needle.length ≤ text.length - i := by
    simpa using found.2.1.length_le
  have bound : i ≤ text.length := found.1
  omega

theorem strchr_eq_none_iff (text : List Byte) (c : Byte) :
    strchr text c = none ↔ c ∉ text := by
  rw [strchr, List.findIdx?_eq_none_iff]
  constructor
  · intro none member
    simpa using none c member
  · intro absent byte member
    have apart : byte ≠ c := by
      rintro rfl
      exact absent member
    simpa using apart

theorem exists_strchr_iff {text : List Byte} {c : Byte} :
    (∃ i, strchr text c = some i) ↔ c ∈ text := by
  rw [← Option.ne_none_iff_exists', ne_eq, strchr_eq_none_iff, not_not]

theorem strchr_append
    {front : List Byte} {c : Byte} (absent : c ∉ front)
    (back : List Byte) :
    strchr (front ++ c :: back) c = some front.length := by
  have none := (strchr_eq_none_iff front c).mpr absent
  rw [strchr] at none ⊢
  simp [List.findIdx?_append, none, List.findIdx?_cons]

/-- A byte that is found splits the text at its first occurrence. -/
theorem strchr_eq_some_iff {text : List Byte} {c : Byte} {i : Nat} :
    strchr text c = some i ↔
      ∃ front back, text = front ++ c :: back ∧ c ∉ front ∧
        front.length = i := by
  constructor
  · intro found
    have bound := (List.findIdx?_eq_some_iff_getElem.mp found).1
    have here := (List.findIdx?_eq_some_iff_getElem.mp found).2.1
    have first := (List.findIdx?_eq_some_iff_getElem.mp found).2.2
    refine ⟨text.take i, text.drop (i + 1), ?_, ?_, by simp [bound.le]⟩
    · have same : text[i] = c := by simpa using here
      rw [← same, List.getElem_cons_drop, List.take_append_drop]
    · intro member
      obtain ⟨j, below, equal⟩ := List.mem_iff_getElem.mp member
      rw [List.length_take] at below
      rw [List.getElem_take] at equal
      exact first j (by omega) (by simpa using equal)
  · rintro ⟨front, back, rfl, absent, rfl⟩
    exact strchr_append absent back

theorem strchr_append_left
    {text : List Byte} {c : Byte} {i : Nat}
    (found : strchr text c = some i) (back : List Byte) :
    strchr (text ++ back) c = some i := by
  rw [strchr] at found ⊢
  rw [List.findIdx?_append, found]
  rfl

theorem strchr_lt_length
    {text : List Byte} {c : Byte} {i : Nat}
    (found : strchr text c = some i) :
    i < text.length := by
  rw [strchr, List.findIdx?_eq_some_iff_findIdx_eq] at found
  exact found.1

theorem strrchr_append
    {back : List Byte} {c : Byte} (absent : c ∉ back)
    (front : List Byte) :
    strrchr (front ++ c :: back) c = some front.length := by
  have none := (strchr_eq_none_iff back.reverse c).mpr (by simpa using absent)
  rw [strchr] at none
  simp [strrchr, List.findIdx?_append, none, List.findIdx?_cons]

theorem strrchr_eq_none_iff (text : List Byte) (c : Byte) :
    strrchr text c = none ↔ c ∉ text := by
  have reversed := strchr_eq_none_iff text.reverse c
  rw [strchr, List.mem_reverse] at reversed
  rw [strrchr, Option.map_eq_none_iff, reversed]

theorem exists_strrchr_iff {text : List Byte} {c : Byte} :
    (∃ i, strrchr text c = some i) ↔ c ∈ text := by
  rw [← Option.ne_none_iff_exists', ne_eq, strrchr_eq_none_iff, not_not]

/-- A byte that is found splits the text at its last occurrence. -/
theorem strrchr_eq_some_iff {text : List Byte} {c : Byte} {i : Nat} :
    strrchr text c = some i ↔
      ∃ front back, text = front ++ c :: back ∧ c ∉ back ∧
        front.length = i := by
  constructor
  · intro found
    rw [strrchr, Option.map_eq_some_iff] at found
    obtain ⟨offset, reversed, rfl⟩ := found
    obtain ⟨front, back, shape, absent, rfl⟩ :=
      strchr_eq_some_iff.mp reversed
    have straight : text = back.reverse ++ c :: front.reverse := by
      have whole := congrArg List.reverse shape
      simpa using whole
    refine ⟨back.reverse, front.reverse, straight, by simpa using absent, ?_⟩
    rw [straight]
    simp only [List.length_append, List.length_cons, List.length_reverse]
    omega
  · rintro ⟨front, back, rfl, absent, rfl⟩
    exact strrchr_append absent front

theorem strrchr_lt_length
    {text : List Byte} {c : Byte} {i : Nat}
    (found : strrchr text c = some i) :
    i < text.length := by
  rw [strrchr, Option.map_eq_some_iff] at found
  obtain ⟨offset, first, rfl⟩ := found
  have inside : offset < text.reverse.length := by
    rw [List.findIdx?_eq_some_iff_findIdx_eq] at first
    exact first.1
  rw [List.length_reverse] at inside
  omega

/-! ## Copying -/

/-- The conversion of a pointer difference to `size_t`. -/
def sizeT (difference : Int) : Nat := (difference % 2 ^ 64).toNat

theorem sizeT_of_nonneg {difference : Int} (lower : 0 ≤ difference)
    (upper : difference < 2 ^ 64) :
    sizeT difference = difference.toNat := by
  rw [sizeT, Int.emod_eq_of_lt lower upper]

/-- A copy length that is small comes from a nonnegative difference. -/
theorem nonneg_of_sizeT_lt {difference : Int}
    (lower : -2 ^ 63 ≤ difference) (small : sizeT difference < 2 ^ 63) :
    0 ≤ difference := by
  rw [sizeT] at small
  omega

/-- Overwrite the bytes of an array from an offset on. -/
def store (memory : List Byte) (offset : Nat) (bytes : List Byte) :
    List Byte :=
  memory.take offset ++ bytes ++ memory.drop (offset + bytes.length)

/--
`strncpy(memory + offset, source, count)`: copy at most `count` bytes of the
source string and fill up with NUL bytes to `count`; no terminator is added.
-/
def strncpy (memory : List Byte) (offset : Nat) (source : List Byte)
    (count : Nat) : Except Fault (List Byte) :=
  if offset + count ≤ memory.length then
    .ok (store memory offset (zeroPadded count (source.take count)))
  else .error .outOfBounds

/-- `memcpy(memory, bytes, count)` of all `bytes`. -/
def memcpy (memory bytes : List Byte) : Except Fault (List Byte) :=
  if bytes.length ≤ memory.length then .ok (store memory 0 bytes)
  else .error .outOfBounds

/-- `sprintf(memory + offset, "%s", text)`: the text and its terminator. -/
def sprintf (memory : List Byte) (offset : Nat) (text : List Byte) :
    Except Fault (List Byte) :=
  if offset + text.length + 1 ≤ memory.length then
    .ok (store memory offset (text ++ [0]))
  else .error .outOfBounds

@[simp]
theorem length_store {memory bytes : List Byte} {offset : Nat}
    (fits : offset + bytes.length ≤ memory.length) :
    (store memory offset bytes).length = memory.length := by
  simp only [store, List.length_append, List.length_take, List.length_drop]
  omega

/-- A store inside a part of an array leaves the other parts alone. -/
theorem store_middle
    {front middle back bytes : List Byte} {offset : Nat}
    (fits : offset + bytes.length ≤ middle.length) :
    store (front ++ middle ++ back) (front.length + offset) bytes =
      front ++ store middle offset bytes ++ back := by
  have before :
      (front ++ middle ++ back).take (front.length + offset) =
        front ++ middle.take offset := by
    rw [List.append_assoc, List.take_length_add_append,
      List.take_append_of_le_length (by omega)]
  have behind :
      (front ++ middle ++ back).drop (front.length + offset + bytes.length) =
        middle.drop (offset + bytes.length) ++ back := by
    rw [List.append_assoc, Nat.add_assoc, List.drop_length_add_append,
      List.drop_append_of_le_length fits]
  rw [store, before, behind, store]
  simp only [List.append_assoc]

/-- Storing behind the text of a zeroed array extends the text. -/
theorem store_zeroPadded
    {size : Nat} {text more : List Byte}
    (fits : text.length + more.length ≤ size) :
    store (zeroPadded size text) text.length more =
      zeroPadded size (text ++ more) := by
  have skipped :
      (zeroPadded size text).drop (text.length + more.length) =
        List.replicate (size - (text.length + more.length)) 0 := by
    rw [zeroPadded, List.drop_append, List.drop_eq_nil_of_le (by omega),
      List.nil_append, List.drop_replicate]
    congr 1
    omega
  rw [store, skipped, zeroPadded, List.take_left, zeroPadded,
    List.length_append]

/-- Copying a text into a zeroed array leaves the text and its terminator. -/
theorem memcpy_zeros {size : Nat} {text : List Byte}
    (fits : text.length < size) :
    memcpy (List.replicate size 0) text =
      .ok (text ++ 0 :: List.replicate (size - text.length - 1) 0) := by
  have stored : store (zeroPadded size []) 0 text =
      zeroPadded size ([] ++ text) :=
    store_zeroPadded (by rw [List.length_nil]; omega)
  have zeros : zeroPadded size [] = List.replicate size 0 := by
    simp [zeroPadded]
  rw [zeros, List.nil_append, zeroPadded_eq_append_nul fits] at stored
  rw [memcpy, if_pos (by rw [List.length_replicate]; omega), stored]

/-- Copied to the start of a buffer, a text is followed by older bytes. -/
theorem memcpy_eq_ok {buf text : List Byte}
    (fits : text.length ≤ buf.length) :
    memcpy buf text = .ok (text ++ buf.drop text.length) := by
  rw [memcpy, if_pos fits, store, List.take_zero, List.nil_append,
    Nat.zero_add]

/-- A text is read back if a zero happens to stand behind it. -/
theorem cString_append_iff {text : List Byte} (nulFree : 0 ∉ text)
    (rest : List Byte) :
    cString (text ++ rest) = .ok text ↔ rest.head? = some 0 := by
  constructor
  · intro string
    obtain ⟨more, shape⟩ := eq_append_nul_of_cString string
    rw [List.append_cancel_left shape]
    rfl
  · intro zero
    obtain ⟨more, rfl⟩ := List.head?_eq_some_iff.mp zero
    exact cString_append_nul nulFree more

/-- Copying into zeroed memory leaves the copied bytes and zeros. -/
theorem strncpy_zeros
    {size count : Nat} (fits : count ≤ size) (source : List Byte) :
    strncpy (List.replicate size 0) 0 source count =
      .ok (zeroPadded size (source.take count)) := by
  have short : (source.take count).length ≤ count := List.length_take_le ..
  rw [strncpy, if_pos (by simpa using fits), store,
    length_zeroPadded short]
  simp only [zeroPadded, List.take_zero, List.nil_append,
    List.append_assoc, List.drop_replicate, List.replicate_append_replicate]
  congr 3
  omega

/--
A copy into zeroed memory whose length is a pointer difference succeeds
exactly if the difference is neither negative nor too large.
-/
theorem strncpy_zeros_sizeT
    {size : Nat} (small : size < 2 ^ 63) {difference : Int}
    (lower : -2 ^ 63 ≤ difference) (upper : difference < 2 ^ 63)
    (source : List Byte) :
    strncpy (List.replicate size 0) 0 source (sizeT difference) =
      if 0 ≤ difference ∧ difference ≤ size then
        .ok (zeroPadded size (source.take difference.toNat))
      else .error .outOfBounds := by
  by_cases fits : 0 ≤ difference ∧ difference ≤ size
  · rw [if_pos fits, sizeT_of_nonneg fits.1 (by omega),
      strncpy_zeros (by omega)]
  · rw [if_neg fits, strncpy, if_neg]
    rw [List.length_replicate, Nat.zero_add]
    intro short
    have nonneg := nonneg_of_sizeT_lt lower (lt_of_le_of_lt short small)
    rw [sizeT_of_nonneg nonneg (by omega)] at short
    exact fits ⟨nonneg, by omega⟩

theorem strncpy_eq_ok_iff
    {memory source after : List Byte} {offset count : Nat} :
    strncpy memory offset source count = .ok after ↔
      offset + count ≤ memory.length ∧
        after = store memory offset (zeroPadded count (source.take count)) := by
  rw [strncpy]
  by_cases fits : offset + count ≤ memory.length
  · simp [fits, eq_comm]
  · simp [fits]

theorem length_of_strncpy
    {memory source after : List Byte} {offset count : Nat}
    (copied : strncpy memory offset source count = .ok after) :
    after.length = memory.length := by
  obtain ⟨fits, rfl⟩ := strncpy_eq_ok_iff.mp copied
  refine length_store ?_
  rwa [length_zeroPadded (List.length_take_le ..)]

theorem length_of_sprintf
    {memory text after : List Byte} {offset : Nat}
    (printed : sprintf memory offset text = .ok after) :
    after.length = memory.length := by
  rw [sprintf] at printed
  split at printed
  · next fits =>
      rw [Except.ok.injEq] at printed
      rw [← printed, length_store]
      rw [List.length_append, List.length_singleton]
      omega
  · cases printed

/--
The idiom `pos += sprintf(&buf[pos], …)` for a sequence of texts: the buffer
and the final position.
-/
def printSequence (memory : List Byte) (pos : Nat) :
    List (List Byte) → Except Fault (List Byte × Nat)
  | [] => .ok (memory, pos)
  | text :: rest => do
      let memory ← sprintf memory pos text
      printSequence memory (pos + text.length) rest

/-- Printing behind a text overwrites its terminator. -/
theorem store_store
    {memory front back : List Byte} {offset : Nat}
    (fits : offset + front.length + back.length + 1 ≤ memory.length) :
    store (store memory offset (front ++ [0])) (offset + front.length)
        (back ++ [0]) =
      store memory offset (front ++ back ++ [0]) := by
  have start : (memory.take offset ++ front).length = offset + front.length := by
    rw [List.length_append, List.length_take]
    omega
  have before :
      store memory offset (front ++ [0]) =
        (memory.take offset ++ front) ++
          (0 :: memory.drop (offset + front.length + 1)) := by
    simp [store, Nat.add_assoc]
  rw [before, store, List.take_left' start, List.drop_append, start,
    List.drop_eq_nil_of_le (by rw [start]; simp)]
  simp only [store, List.length_append, List.length_singleton,
    List.nil_append, List.append_assoc]
  congr 4
  rw [show offset + front.length + (back.length + 1) -
      (offset + front.length) = back.length + 1 by omega,
    List.drop_succ_cons, List.drop_drop]
  congr 1
  omega

/-- A sequence that fits leaves the concatenation and one terminator. -/
theorem printSequence_eq_ok
    {memory : List Byte} {pos : Nat} (text : List Byte)
    (texts : List (List Byte))
    (fits : pos + (text :: texts).flatten.length + 1 ≤ memory.length) :
    printSequence memory pos (text :: texts) =
      .ok (store memory pos ((text :: texts).flatten ++ [0]),
        pos + (text :: texts).flatten.length) := by
  induction texts generalizing memory pos text with
  | nil =>
      have room : pos + text.length + 1 ≤ memory.length := by
        simpa using fits
      simp [printSequence, sprintf, room, bind, Except.bind]
  | cons next rest induction =>
      have total :
          (text :: next :: rest).flatten.length =
            text.length + (next :: rest).flatten.length := by
        simp
      have room : pos + text.length + 1 ≤ memory.length := by omega
      have same :
          (store memory pos (text ++ [0])).length = memory.length :=
        length_store (by rw [List.length_append, List.length_singleton]; omega)
      rw [printSequence, sprintf, if_pos room]
      change printSequence (store memory pos (text ++ [0]))
        (pos + text.length) (next :: rest) = _
      rw [induction next (by rw [same]; omega), store_store (by omega), total]
      simp [Nat.add_assoc]

/-- A sequence that was printed did fit. -/
theorem printSequence_fits
    {memory : List Byte} {pos : Nat} {text : List Byte}
    {texts : List (List Byte)} {result : List Byte × Nat}
    (printed : printSequence memory pos (text :: texts) = .ok result) :
    pos + (text :: texts).flatten.length + 1 ≤ memory.length := by
  induction texts generalizing memory pos text with
  | nil =>
      obtain ⟨after, print, -⟩ := bind_eq_ok_iff.mp printed
      rw [sprintf] at print
      split at print
      · simpa
      · cases print
  | cons next rest induction =>
      obtain ⟨after, print, printed⟩ := bind_eq_ok_iff.mp printed
      have fits := induction printed
      rw [length_of_sprintf print] at fits
      rw [List.flatten_cons, List.length_append]
      omega

/-- Two stores, one behind the other, are one store. -/
theorem store_behind
    {memory front back : List Byte} {offset : Nat}
    (inside : offset ≤ memory.length) :
    store (store memory offset front) (offset + front.length) back =
      store memory offset (front ++ back) := by
  have start : (memory.take offset ++ front).length = offset + front.length := by
    rw [List.length_append, List.length_take, Nat.min_eq_left inside]
  have behind :
      (store memory offset front).drop
          (offset + front.length + back.length) =
        memory.drop (offset + (front ++ back).length) := by
    rw [store, List.drop_append, List.drop_eq_nil_of_le (by omega), start,
      List.nil_append, List.drop_drop]
    congr 1
    rw [List.length_append]
    omega
  rw [store, behind, store, List.take_left' start]
  simp [store]

/-! ## Parts of an array -/

/-- Two arrays of one length that differ at most between two positions. -/
structure Frame (low high : Nat) (before after : List Byte) : Prop where
  length : after.length = before.length
  front : after.take low = before.take low
  back : after.drop high = before.drop high

/-- The bytes of a part that the changes do not touch. -/
theorem Frame.slice
    {low high : Nat} {before after : List Byte}
    (frame : Frame low high before after) {start size : Nat}
    (apart : start + size ≤ low ∨ high ≤ start) :
    (after.drop start).take size = (before.drop start).take size := by
  rcases apart with behind | ahead
  · have inside (memory : List Byte) :
        (memory.drop start).take size =
          ((memory.take low).take (start + size)).drop start := by
      rw [List.take_take, Nat.min_eq_left behind, List.drop_take,
        Nat.add_sub_cancel_left]
    rw [inside, inside, frame.front]
  · have inside (memory : List Byte) :
        memory.drop start = (memory.drop high).drop (start - high) := by
      rw [List.drop_drop, Nat.add_sub_cancel' ahead]
    rw [inside, inside before, frame.back]

theorem Frame.widen
    {low high low' high' : Nat} {before after : List Byte}
    (frame : Frame low high before after) (lower : low' ≤ low)
    (upper : high ≤ high') : Frame low' high' before after := by
  refine ⟨frame.length, ?_, ?_⟩
  · have front (memory : List Byte) :
        memory.take low' = (memory.take low).take low' := by
      rw [List.take_take, Nat.min_eq_left lower]
    rw [front, front before, frame.front]
  · have back (memory : List Byte) :
        memory.drop high' = (memory.drop high).drop (high' - high) := by
      rw [List.drop_drop, Nat.add_sub_cancel' upper]
    rw [back, back before, frame.back]

theorem Frame.trans
    {low high : Nat} {before between after : List Byte}
    (first : Frame low high before between)
    (second : Frame low high between after) : Frame low high before after :=
  ⟨second.length.trans first.length, second.front.trans first.front,
    second.back.trans first.back⟩

theorem frame_store
    (memory : List Byte) (offset : Nat) (bytes : List Byte)
    (fits : offset + bytes.length ≤ memory.length) :
    Frame offset (offset + bytes.length) memory
      (store memory offset bytes) := by
  have start : (memory.take offset).length = offset := by
    rw [List.length_take]
    omega
  refine ⟨length_store fits, ?_, ?_⟩
  · rw [store, List.append_assoc, List.take_left' start]
  · refine List.drop_left' ?_
    rw [List.length_append, start]

/-- A string lies inside the part of an array that it was found in. -/
theorem cString_of_slice
    {before after text : List Byte} {start size : Nat}
    (string : cString (before.drop start) = .ok text)
    (fits : text.length < size)
    (same : (after.drop start).take size = (before.drop start).take size) :
    cString (after.drop start) = .ok text := by
  obtain ⟨rest, shape⟩ := eq_append_nul_of_cString string
  have size' : (text ++ [0]).length ≤ size := by
    rw [List.length_append, List.length_singleton]
    omega
  have parted : text ++ 0 :: rest = text ++ [0] ++ rest :=
    List.append_cons ..
  have taken : text ++ [0] <+: after.drop start := by
    have front : text ++ [0] <+: (after.drop start).take size := by
      rw [same, shape, parted, List.take_append,
        List.take_of_length_le size']
      exact List.prefix_append ..
    exact front.trans (List.take_prefix ..)
  obtain ⟨behind, split⟩ := taken
  rw [← split, List.append_assoc]
  exact cString_append_nul (nulFree_of_cString string) behind

/-- A text stored in front of a NUL byte is a string. -/
theorem cString_store
    {memory text : List Byte} {offset : Nat} (nulFree : 0 ∉ text)
    (fits : offset + text.length ≤ memory.length)
    (terminated :
      (memory.drop (offset + text.length)).take 1 = [0]) :
    cString ((store memory offset text).drop offset) = .ok text := by
  have start : (memory.take offset).length = offset := by
    rw [List.length_take]
    omega
  obtain ⟨rest, behind⟩ :
      ∃ rest, memory.drop (offset + text.length) = 0 :: rest := by
    rw [← List.take_append_drop 1 (memory.drop (offset + text.length)),
      terminated]
    exact ⟨_, rfl⟩
  rw [store, List.append_assoc, List.drop_left' start, behind,
    cString_append_nul nulFree]

/-- The terminator of a string also ends the strings in front of it. -/
theorem exists_cString_drop
    {memory text : List Byte} {earlier later : Nat}
    (order : earlier ≤ later)
    (string : cString (memory.drop later) = .ok text) :
    ∃ longer, cString (memory.drop earlier) = .ok longer := by
  obtain ⟨rest, shape⟩ := eq_append_nul_of_cString string
  have suffix : memory.drop later <:+ memory.drop earlier := by
    rw [← Nat.add_sub_cancel' order, ← List.drop_drop]
    exact List.drop_suffix ..
  have terminated : 0 ∈ memory.drop earlier :=
    suffix.subset (by rw [shape]; simp)
  exact ⟨_, if_pos terminated⟩

/-! ## Decimal numbers -/

/-- The value of digits, the first of them the most significant. -/
def digitsValue (value : Nat) (digits : List Nat) : Nat :=
  digits.foldl (fun value digit => value * 10 + digit) value

theorem digitsValue_digits (number : Nat) :
    digitsValue 0 (Nat.digits 10 number).reverse = number := by
  calc digitsValue 0 (Nat.digits 10 number).reverse
      = (Nat.digits 10 number).foldr
          (fun digit value => digit + 10 * value) 0 := by
        rw [digitsValue, List.foldl_reverse]
        congr 1
        funext digit value
        omega
    _ = Nat.ofDigits 10 (Nat.digits 10 number) :=
        (Nat.ofDigits_eq_foldr 10 _).symm
    _ = number := Nat.ofDigits_digits 10 number

/-- The conversion `%d` of a nonnegative number. -/
def decimal (n : Nat) : List Byte :=
  if n = 0 then [char '0']
  else (Nat.digits 10 n).reverse.map fun digit => BitVec.ofNat 8 (48 + digit)

/-- The conversion `%d`. -/
def formatInt (value : Int) : List Byte :=
  if value < 0 then char '-' :: decimal value.natAbs
  else decimal value.toNat

theorem mem_decimal {n : Nat} {byte : Byte} (member : byte ∈ decimal n) :
    48 ≤ byte.toNat ∧ byte.toNat < 58 := by
  rw [decimal] at member
  split at member
  · rw [List.mem_singleton] at member
    rw [member]
    decide
  · obtain ⟨digit, inside, rfl⟩ := List.mem_map.mp member
    have small : digit < 10 :=
      Nat.digits_lt_base (by omega) (List.mem_reverse.mp inside)
    rw [BitVec.toNat_ofNat]
    omega

theorem decimal_ne_nil (n : Nat) : decimal n ≠ [] := by
  rw [decimal]
  split
  · exact List.cons_ne_nil _ _
  · next positive =>
      rw [ne_eq, List.map_eq_nil_iff, List.reverse_eq_nil_iff]
      exact Nat.digits_ne_nil_iff_ne_zero.mpr positive

theorem formatInt_ne_nil (value : Int) : formatInt value ≠ [] := by
  rw [formatInt]
  split
  · exact List.cons_ne_nil _ _
  · exact decimal_ne_nil _

/-- Printed numbers consist of digits and at most a sign. -/
theorem mem_formatInt {value : Int} {byte : Byte}
    (member : byte ∈ formatInt value) :
    byte = char '-' ∨ 48 ≤ byte.toNat ∧ byte.toNat < 58 := by
  rw [formatInt] at member
  split at member
  · rcases List.mem_cons.mp member with sign | digit
    · exact Or.inl sign
    · exact Or.inr (mem_decimal digit)
  · exact Or.inr (mem_decimal member)

theorem not_mem_formatInt {byte : Byte} (notSign : byte ≠ char '-')
    (notDigit : byte.toNat < 48 ∨ 58 ≤ byte.toNat) (value : Int) :
    byte ∉ formatInt value := by
  intro member
  rcases mem_formatInt member with sign | digit
  · exact notSign sign
  · omega

end CommonCode.Lib.CString
