import CommonCode.Lib.Quoted

/-!
# Texts that carry values behind a key

A text carries a list of values for a name if every occurrence of the quoted
name is followed by a text that carries the next value.  What remains of such a
text behind any position carries the later values, and two such texts put
together carry the values of both, unless the first one ends with a quotation
mark.  The number of values is the number of occurrences of the quoted name.
-/

namespace CommonCode.Lib.Quoted

open CommonCode.Lib.Bits
open CommonCode.Lib.CString

variable {Value : Type*}

/-! ## Values behind a key -/

/-- The parts of a text and the values behind the parts that are the name. -/
inductive Keyed (carries : List Byte → Value → Prop) (name : List Byte) :
    List (List Byte) → List Value → Prop
  | nil : Keyed carries name [] []
  | skip {part : List Byte} {rest : List (List Byte)} {values : List Value} :
      part ≠ name → Keyed carries name rest values →
        Keyed carries name (part :: rest) values
  | carry {next : List Byte} {rest : List (List Byte)} {value : Value}
      {values : List Value} :
      carries next value → Keyed carries name rest values →
        Keyed carries name (name :: next :: rest) (value :: values)

/-- A text that carries values behind the quoted name. -/
def KeyedText (carries : List Byte → Value → Prop) (name text : List Byte)
    (values : List Value) : Prop :=
  ∃ (front : List Byte) (parts : List (List Byte)),
    quote ∉ front ∧ (∀ part ∈ parts, quote ∉ part) ∧
      text = front ++ marked parts ∧ Keyed carries name parts values

/-- The number of positions at which a needle starts. -/
def occurrences (needle : List Byte) : List Byte → Nat
  | [] => 0
  | byte :: rest =>
      (if needle.isPrefixOf (byte :: rest) then 1 else 0) +
        occurrences needle rest

section Rules

variable {carries : List Byte → Value → Prop} {name : List Byte}

/-- Behind a key stands a part that is no key. -/
def Apart (carries : List Byte → Value → Prop) (name : List Byte) : Prop :=
  ∀ part value, carries part value → part ≠ name

/-- What a part carries does not depend on what follows it. -/
def Stable (carries : List Byte → Value → Prop) : Prop :=
  ∀ part value more, carries part value → carries (part ++ more) value

theorem keyedText_nil : KeyedText carries name [] [] :=
  ⟨[], [], by simp, by simp, rfl, Keyed.nil⟩

/-- Without its first part a text carries the later values. -/
theorem Keyed.tail (apart : Apart carries name)
    {part : List Byte} {rest : List (List Byte)} {values : List Value}
    (keyed : Keyed carries name (part :: rest) values) :
    ∃ count, Keyed carries name rest (values.drop count) := by
  cases keyed with
  | skip other later => exact ⟨0, later⟩
  | carry value later => exact ⟨1, Keyed.skip (apart _ _ value) later⟩

/-- What remains of a text carries the later values. -/
theorem KeyedText.drop (apart : Apart carries name)
    {text : List Byte} {values : List Value}
    (keyed : KeyedText carries name text values) (size : Nat) :
    ∃ count, KeyedText carries name (text.drop size) (values.drop count) := by
  rcases keyed with ⟨front, parts, plain, parted, rfl, keyed⟩
  induction parts generalizing front size values with
  | nil =>
      refine ⟨0, front.drop size, [], ?_, parted, ?_, keyed⟩
      · exact fun member => plain (List.mem_of_mem_drop member)
      · simp [marked]
  | cons part rest induction =>
      rcases Nat.lt_or_ge front.length size with behind | inside
      · rw [List.forall_mem_cons] at parted
        rcases keyed.tail apart with ⟨first, later⟩
        obtain ⟨more, rfl⟩ :
            ∃ more, size = front.length + (more + 1) :=
          ⟨size - front.length - 1, by omega⟩
        rcases induction more part parted.1 parted.2 later with ⟨count, found⟩
        refine ⟨first + count, ?_⟩
        rw [List.drop_length_add_append, marked, List.drop_succ_cons,
          ← List.drop_drop]
        exact found
      · refine ⟨0, front.drop size, part :: rest, ?_, parted, ?_, keyed⟩
        · exact fun member => plain (List.mem_of_mem_drop member)
        · rw [List.drop_append_of_le_length inside]

/-- The last byte of a text is no quotation mark and not in the name. -/
def Sealed (name text : List Byte) : Prop :=
  ∀ byte ∈ text.getLast?, byte ≠ quote ∧ byte ∉ name

theorem Sealed.of_append {front back : List Byte}
    (closed : Sealed name (front ++ back)) (nonempty : back ≠ []) :
    Sealed name back := by
  rw [Sealed, List.getLast?_append_of_ne_nil _ nonempty] at closed
  exact closed

/-- Whatever is added to the last part of a sealed text, it is not the name. -/
theorem Sealed.append_ne {part : List Byte}
    (closed : Sealed name (marked [part])) (front : List Byte) :
    part ++ front ≠ name := by
  rintro rfl
  cases last : part.getLast? with
  | none =>
      rw [List.getLast?_eq_none_iff.mp last] at closed
      exact (closed quote rfl).1 rfl
  | some byte =>
      have nonempty : part ≠ [] := by
        rintro rfl
        cases last
      have closing : (marked [part]).getLast? = some byte := by
        rw [marked, marked, List.append_nil, List.getLast?_cons_of_ne_nil
          nonempty, last]
      exact (closed byte closing).2
        (List.mem_append_left _ (List.mem_of_getLast? last))

/-- The parts of a sealed text, and the parts of a text behind it. -/
theorem Keyed.append (stable : Stable carries)
    {parts more : List (List Byte)} {front : List Byte}
    {values later : List Value}
    (keyed : Keyed carries name parts values)
    (behind : Keyed carries name more later)
    (closed : Sealed name (marked parts)) (nonempty : parts ≠ [])
    (parted : ∀ part ∈ parts, quote ∉ part) (plain : quote ∉ front)
    (others : ∀ part ∈ more, quote ∉ part) :
    ∃ joined,
      (∀ part ∈ joined, quote ∉ part) ∧
        marked parts ++ (front ++ marked more) = marked joined ∧
        Keyed carries name joined (values ++ later) := by
  induction keyed with
  | nil => exact absurd rfl nonempty
  | @skip part rest values other rested induction =>
      rw [List.forall_mem_cons] at parted
      cases rest with
      | nil =>
          cases rested
          refine ⟨(part ++ front) :: more, ?_, ?_, ?_⟩
          · rw [List.forall_mem_cons]
            refine ⟨?_, others⟩
            rw [List.mem_append, not_or]
            exact ⟨parted.1, plain⟩
          · simp [marked]
          · exact Keyed.skip (closed.append_ne front) behind
      | cons next rest =>
          have split :
              marked (part :: next :: rest) =
                (quote :: part) ++ marked (next :: rest) := rfl
          rw [split] at closed ⊢
          have tail := closed.of_append (List.cons_ne_nil _ _)
          rcases induction tail (List.cons_ne_nil _ _) parted.2 with
            ⟨joined, pieces, text, found⟩
          refine ⟨part :: joined, ?_, ?_, Keyed.skip other found⟩
          · rw [List.forall_mem_cons]
            exact ⟨parted.1, pieces⟩
          · rw [List.append_assoc, text]
            rfl
  | @carry next rest value values carried rested induction =>
      rw [List.forall_mem_cons, List.forall_mem_cons] at parted
      rcases parted with ⟨named, nextPlain, restPlain⟩
      cases rest with
      | nil =>
          cases rested
          refine ⟨name :: (next ++ front) :: more, ?_, ?_, ?_⟩
          · rw [List.forall_mem_cons, List.forall_mem_cons]
            refine ⟨named, ?_, others⟩
            rw [List.mem_append, not_or]
            exact ⟨nextPlain, plain⟩
          · simp [marked]
          · exact Keyed.carry (stable _ _ _ carried) behind
      | cons part rest =>
          have split :
              marked (name :: next :: part :: rest) =
                (quote :: (name ++ quote :: next)) ++
                  marked (part :: rest) := by
            rw [marked, marked]
            simp
          rw [split] at closed ⊢
          have tail := closed.of_append (List.cons_ne_nil _ _)
          rcases induction tail (List.cons_ne_nil _ _) restPlain with
            ⟨joined, pieces, text, found⟩
          refine ⟨name :: next :: joined, ?_, ?_, Keyed.carry carried found⟩
          · rw [List.forall_mem_cons, List.forall_mem_cons]
            exact ⟨named, nextPlain, pieces⟩
          · rw [List.append_assoc, text]
            simp [marked]

/-- A sealed text and a text behind it carry the values of both. -/
theorem KeyedText.append (stable : Stable carries)
    {content stale : List Byte} {values later : List Value}
    (first : KeyedText carries name content values)
    (second : KeyedText carries name stale later)
    (closed : Sealed name content) :
    KeyedText carries name (content ++ stale) (values ++ later) := by
  rcases first with ⟨front, parts, plain, parted, rfl, keyed⟩
  rcases second with ⟨between, more, apart, others, rfl, behind⟩
  by_cases nonempty : parts = []
  · subst nonempty
    cases keyed
    refine ⟨front ++ between, more, ?_, others, ?_, behind⟩
    · rw [List.mem_append, not_or]
      exact ⟨plain, apart⟩
    · simp [marked]
  · have occupied : marked parts ≠ [] := by
      rcases List.exists_cons_of_ne_nil nonempty with ⟨part, rest, rfl⟩
      exact List.cons_ne_nil _ _
    rcases
        Keyed.append stable keyed behind (closed.of_append occupied)
          nonempty parted apart others with
      ⟨joined, pieces, text, found⟩
    refine ⟨front, joined, plain, pieces, ?_, found⟩
    rw [List.append_assoc, text]

/-! ## Searching -/

theorem Keyed.seek_nil
    {parts : List (List Byte)} (keyed : Keyed carries name parts []) :
    seek name [] parts = none := by
  generalize none : ([] : List Value) = values at keyed
  induction keyed with
  | nil => rfl
  | skip other _ induction => rw [seek_of_ne other, induction none]
  | carry => cases none

theorem Keyed.seek_cons
    {parts : List (List Byte)} {value : Value} {later : List Value}
    (keyed : Keyed carries name parts (value :: later)) :
    ∃ next rest,
      seek name [] parts = some (name :: next :: rest) ∧
        carries next value ∧ Keyed carries name rest later ∧
        ∀ part ∈ next :: rest, part ∈ parts := by
  generalize some : value :: later = values at keyed
  induction keyed with
  | nil => cases some
  | skip other _ induction =>
      rcases induction some with ⟨next, rest, found, carried, keyed, inside⟩
      rw [seek_of_ne other]
      refine ⟨next, rest, found, carried, keyed, ?_⟩
      exact fun part member => List.mem_cons_of_mem _ (inside part member)
  | @carry next rest _ _ carried keyed _ =>
      cases some
      refine ⟨next, rest, ?_, carried, keyed, ?_⟩
      · rw [seek, if_pos ⟨rfl, List.nil_prefix⟩]
      · exact fun part member => List.mem_cons_of_mem _ member

/-- A text that carries nothing does not contain the quoted name. -/
theorem KeyedText.strstr_eq_none
    {text : List Byte} (named : quote ∉ name)
    (keyed : KeyedText carries name text []) :
    strstr text (key name []) = none := by
  rcases keyed with ⟨front, parts, plain, parted, rfl, keyed⟩
  have search := strstr_marked named List.not_mem_nil plain parted
  rw [keyed.seek_nil, Option.map_none, Option.map_eq_none_iff] at search
  exact search

/-- The quoted name is found in front of the first value. -/
theorem KeyedText.exists_strstr
    {text : List Byte} {value : Value} {later : List Value}
    (named : quote ∉ name)
    (keyed : KeyedText carries name text (value :: later)) :
    ∃ i next more,
      strstr text (key name []) = some i ∧
        text.drop i = key name [] ++ (next ++ more) ∧
        carries next value ∧
        KeyedText carries name (next ++ more) later := by
  rcases keyed with ⟨front, parts, plain, parted, rfl, keyed⟩
  rcases keyed.seek_cons with ⟨next, rest, found, carried, keyed, inside⟩
  have search := strstr_marked named List.not_mem_nil plain parted
  rw [found, Option.map_some, Option.map_eq_some_iff] at search
  rcases search with ⟨i, position, behind⟩
  have pieces : ∀ part ∈ next :: rest, quote ∉ part :=
    fun part member => parted part (inside part member)
  rw [List.forall_mem_cons] at pieces
  refine ⟨i, next, marked rest, position, ?_, carried, ?_⟩
  · rw [behind]
    simp [marked, key]
  · exact ⟨next, rest, pieces.1, pieces.2, rfl, keyed⟩

/-! ## Counting -/

theorem occurrences_append_plain
    {front : List Byte} (plain : quote ∉ front) (text : List Byte) :
    occurrences (key name []) (front ++ text) =
      occurrences (key name []) text := by
  induction front with
  | nil => rfl
  | cons byte front induction =>
      rw [List.mem_cons, not_or] at plain
      have apart : ¬ key name [] <+: byte :: (front ++ text) := by
        rw [key, List.cons_prefix_cons]
        exact fun start => plain.1 start.1
      rw [List.cons_append, occurrences, if_neg, induction plain.2,
        Nat.zero_add]
      rwa [List.isPrefixOf_iff_prefix]

/-- One part contributes at most one occurrence. -/
theorem occurrences_marked_cons
    {part : List Byte} {rest : List (List Byte)} (named : quote ∉ name)
    (plain : quote ∉ part) :
    occurrences (key name []) (marked (part :: rest)) =
      (if part = name ∧ rest ≠ [] then 1 else 0) +
        occurrences (key name []) (marked rest) := by
  have start :
      key name [] <+: marked (part :: rest) ↔ part = name ∧ rest ≠ [] := by
    rw [key_prefix_marked_iff named List.not_mem_nil plain]
    cases rest with
    | nil => simp
    | cons next rest => simp
  rw [marked, occurrences, occurrences_append_plain plain]
  congr 1
  refine if_congr ?_ rfl rfl
  rw [List.isPrefixOf_iff_prefix]
  exact start

theorem Keyed.occurrences_eq (apart : Apart carries name)
    (named : quote ∉ name)
    {parts : List (List Byte)} {values : List Value}
    (keyed : Keyed carries name parts values)
    (parted : ∀ part ∈ parts, quote ∉ part) :
    occurrences (key name []) (marked parts) = values.length := by
  induction keyed with
  | nil => rfl
  | skip other _ induction =>
      rw [List.forall_mem_cons] at parted
      rw [occurrences_marked_cons named parted.1, induction parted.2,
        if_neg (fun same => other same.1), Nat.zero_add]
  | carry carried _ induction =>
      rw [List.forall_mem_cons, List.forall_mem_cons] at parted
      rw [occurrences_marked_cons named parted.1,
        occurrences_marked_cons named parted.2.1, induction parted.2.2,
        if_pos ⟨rfl, List.cons_ne_nil _ _⟩,
        if_neg (fun same => apart _ _ carried same.1), List.length_cons]
      omega

/-- The quoted name occurs once for each value. -/
theorem KeyedText.occurrences_eq (apart : Apart carries name)
    (named : quote ∉ name) {text : List Byte} {values : List Value}
    (keyed : KeyedText carries name text values) :
    occurrences (key name []) text = values.length := by
  rcases keyed with ⟨front, parts, plain, parted, rfl, keyed⟩
  rw [occurrences_append_plain plain]
  exact keyed.occurrences_eq apart named parted

end Rules

end CommonCode.Lib.Quoted
