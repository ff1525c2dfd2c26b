import CommonCode.Lib.CString

/-!
# Searching quoted keys

A text is cut at its quotation marks into parts.  A key is a name between
quotation marks, followed by a tail such as a colon; `strstr` finds it exactly
where a part is the name and the next part starts with the tail.  The search
then is a walk over the parts.
-/

namespace CommonCode.Lib.Quoted

open CommonCode.Lib.Bits
open CommonCode.Lib.CString

/-- The quotation mark. -/
abbrev quote : Byte := char '"'

/-- The text that consists of parts, with a quotation mark in front of each. -/
def marked : List (List Byte) → List Byte
  | [] => []
  | part :: rest => quote :: (part ++ marked rest)

theorem marked_append (parts more : List (List Byte)) :
    marked (parts ++ more) = marked parts ++ marked more := by
  induction parts with
  | nil => rfl
  | cons part rest induction => simp [marked, induction]

theorem not_mem_marked
    {byte : Byte} {parts : List (List Byte)} (apart : byte ≠ quote)
    (absent : ∀ part ∈ parts, byte ∉ part) : byte ∉ marked parts := by
  induction parts with
  | nil => simp [marked]
  | cons part rest induction =>
      rw [List.forall_mem_cons] at absent
      rw [marked, List.mem_cons, List.mem_append, not_or, not_or]
      exact ⟨apart, absent.1, induction absent.2⟩

/-- A name between quotation marks and a tail. -/
def key (name tail : List Byte) : List Byte := quote :: (name ++ quote :: tail)

/-- The parts from the first occurrence of a key on. -/
def seek (name tail : List Byte) : List (List Byte) → Option (List (List Byte))
  | [] => none
  | [_] => none
  | part :: next :: rest =>
      if part = name ∧ tail <+: next then some (part :: next :: rest)
      else seek name tail (next :: rest)

section Search

variable {name tail : List Byte}

/-- A quotation mark ends the part in front of it. -/
theorem prefix_quote_iff
    {part text behind : List Byte} (plain : quote ∉ part)
    (named : quote ∉ name) :
    name ++ quote :: behind <+: part ++ quote :: text ↔
      name = part ∧ behind <+: text := by
  constructor
  · rintro ⟨rest, equation⟩
    rw [List.append_assoc, List.cons_append] at equation
    have same : name = part ∧ behind ++ rest = text := by
      induction name generalizing part with
      | nil =>
          cases part with
          | nil => simpa using equation
          | cons byte part =>
              rw [List.nil_append, List.cons_append, List.cons.injEq]
                at equation
              exact absurd (equation.1 ▸ List.mem_cons_self ..) plain
      | cons first name induction =>
          cases part with
          | nil =>
              rw [List.nil_append, List.cons_append, List.cons.injEq]
                at equation
              exact absurd (equation.1 ▸ List.mem_cons_self ..) named
          | cons byte part =>
              rw [List.cons_append, List.cons_append, List.cons.injEq]
                at equation
              rw [List.mem_cons, not_or] at plain named
              have later := induction plain.2 named.2 equation.2
              exact ⟨by rw [equation.1, later.1], later.2⟩
    exact ⟨same.1, ⟨rest, same.2⟩⟩
  · rintro ⟨rfl, rest, rfl⟩
    exact ⟨rest, by simp⟩

/-- A tail without quotation marks lies inside one part. -/
theorem prefix_marked_iff
    {part : List Byte} {rest : List (List Byte)} (plain : quote ∉ tail) :
    tail <+: part ++ marked rest ↔ tail <+: part := by
  constructor
  · intro start
    rcases Nat.lt_or_ge part.length tail.length with short | long
    · cases rest with
      | nil => simpa [marked] using start
      | cons next rest =>
          have inside : part ++ [quote] <+: tail := by
            refine List.prefix_of_prefix_length_le ?_ start ?_
            · exact ⟨next ++ marked rest, by simp [marked]⟩
            · rw [List.length_append, List.length_singleton]
              omega
          exact absurd (inside.subset (by simp)) plain
    · exact List.prefix_of_prefix_length_le start (List.prefix_append ..) long
  · intro start
    exact start.trans (List.prefix_append ..)

/-- Where a key starts at a part. -/
theorem key_prefix_marked_iff
    {part : List Byte} {rest : List (List Byte)} (named : quote ∉ name)
    (tailed : quote ∉ tail) (plain : quote ∉ part) :
    key name tail <+: marked (part :: rest) ↔
      part = name ∧ ∃ next more, rest = next :: more ∧ tail <+: next := by
  rw [key, marked, List.cons_prefix_cons]
  cases rest with
  | nil =>
      constructor
      · rintro ⟨-, start⟩
        have inside : quote ∈ part ++ marked [] := start.subset (by simp)
        exact absurd (by simpa [marked] using inside) plain
      · rintro ⟨-, next, more, impossible, -⟩
        cases impossible
  | cons next more =>
      rw [marked, prefix_quote_iff plain named, prefix_marked_iff tailed]
      constructor
      · rintro ⟨-, same, start⟩
        exact ⟨same.symm, next, more, rfl, start⟩
      · rintro ⟨same, _, _, ⟨⟩, start⟩
        exact ⟨rfl, same.symm, start⟩

/-- A key does not start inside a text without quotation marks. -/
theorem strstr_append_plain
    {front : List Byte} (plain : quote ∉ front) (text : List Byte) :
    strstr (front ++ text) (key name tail) =
      (strstr text (key name tail)).map (front.length + ·) := by
  induction front with
  | nil => simp
  | cons byte front induction =>
      rw [List.mem_cons, not_or] at plain
      have apart : ¬ key name tail <+: byte :: (front ++ text) := by
        rw [key, List.cons_prefix_cons]
        exact fun start => plain.1 start.1
      rw [List.cons_append, strstr, if_neg, induction plain.2, Option.map_map]
      · congr 1
        funext i
        simp only [Function.comp_apply, List.length_cons]
        omega
      · rwa [List.isPrefixOf_iff_prefix]

/-- The walk stops at the parts at which the key starts. -/
theorem seek_cons
    {part : List Byte} {rest : List (List Byte)} (named : quote ∉ name)
    (tailed : quote ∉ tail) (plain : quote ∉ part) :
    seek name tail (part :: rest) =
      if key name tail <+: marked (part :: rest) then some (part :: rest)
      else seek name tail rest := by
  cases rest with
  | nil =>
      rw [if_neg]
      · rfl
      · rw [key_prefix_marked_iff named tailed plain]
        rintro ⟨-, next, more, impossible, -⟩
        cases impossible
  | cons next more =>
      rw [seek]
      refine if_congr ?_ rfl rfl
      rw [key_prefix_marked_iff named tailed plain]
      constructor
      · rintro ⟨same, start⟩
        exact ⟨same, next, more, rfl, start⟩
      · rintro ⟨same, _, _, ⟨⟩, start⟩
        exact ⟨same, start⟩

/-- `strstr` finds a key as the walk over the parts does. -/
theorem strstr_marked
    {front : List Byte} {parts : List (List Byte)} (named : quote ∉ name)
    (tailed : quote ∉ tail) (start : quote ∉ front)
    (plain : ∀ part ∈ parts, quote ∉ part) :
    (strstr (front ++ marked parts) (key name tail)).map
        (front ++ marked parts).drop =
      (seek name tail parts).map marked := by
  induction parts generalizing front with
  | nil =>
      have absent : ¬ key name tail <:+: front ++ marked [] := by
        intro inside
        have member := inside.subset (List.mem_cons_self ..)
        exact start (by simpa [marked] using member)
      rw [(strstr_eq_none_iff _ _).mpr absent]
      rfl
  | cons part rest induction =>
      rw [List.forall_mem_cons] at plain
      rw [strstr_append_plain start, seek_cons named tailed plain.1,
        strstr.eq_def]
      by_cases here : key name tail <+: marked (part :: rest)
      · rw [if_pos here, if_pos (by rwa [List.isPrefixOf_iff_prefix])]
        simp
      · rw [if_neg here, if_neg (by rwa [List.isPrefixOf_iff_prefix]),
          ← induction plain.1 plain.2, marked]
        simp only [Option.map_map]
        congr 1
        funext i
        simp only [Function.comp_apply, List.drop_length_add_append,
          List.drop_succ_cons]

/-- No search stops at a part that is not a name. -/
theorem seek_of_ne
    {part : List Byte} (apart : part ≠ name)
    (rest : List (List Byte)) :
    seek name tail (part :: rest) = seek name tail rest := by
  cases rest with
  | nil => rfl
  | cons next rest => rw [seek, if_neg (fun found => apart found.1)]

/-- No search stops at a value. -/
theorem seek_value
    {value next : List Byte} (other : ¬ tail <+: next)
    (apart : next ≠ name) (rest : List (List Byte)) :
    seek name tail (value :: next :: rest) = seek name tail rest := by
  rw [seek, if_neg (fun found => other found.2), seek_of_ne apart]

/-- A key that is found, with the text behind it. -/
theorem exists_strstr_of_seek
    {front more : List Byte} {parts rest : List (List Byte)}
    (named : quote ∉ name) (tailed : quote ∉ tail) (start : quote ∉ front)
    (plain : ∀ part ∈ parts, quote ∉ part)
    (found : seek name tail parts = some (name :: (tail ++ more) :: rest)) :
    ∃ i,
      strstr (front ++ marked parts) (key name tail) = some i ∧
        (front ++ marked parts).drop (i + (key name tail).length) =
          more ++ marked rest := by
  have search := strstr_marked named tailed start plain
  rw [found, Option.map_some, Option.map_eq_some_iff] at search
  obtain ⟨i, position, behind⟩ := search
  refine ⟨i, position, ?_⟩
  have split :
      marked (name :: (tail ++ more) :: rest) =
        key name tail ++ (more ++ marked rest) := by
    simp [marked, key]
  rw [← List.drop_drop, behind, split, List.drop_left]

end Search

end CommonCode.Lib.Quoted
