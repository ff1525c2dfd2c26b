import CommonCode.Http.Result
import CommonCode.Lib.Quoted

/-!
# The fields of a result other than its areas

A quoted value is copied into its field without a terminator, a number is read
behind the next colon, and the image path is printed.  The parser gets past
these fields exactly if each copy leaves a terminator, the colons are there and
the path fits.
-/

namespace CommonCode.Http

open CommonCode.Lib.Bits
open CommonCode.Lib.CString
open CommonCode.Lib.Quoted

variable {floating : Floating}

/-! ## Quoted values -/

/--
The value of a key lies between quotation marks, and a copy of it leaves a
terminator in the field.  Without the key the field itself has one.
-/
structure FieldFits (text key field : List Byte) : Prop where
  absent : strstr text key = none → 0 ∈ field
  present :
    ∀ start, strstr text key = some start →
      ∃ front value more,
        text.drop (start + key.length) =
            front ++ quote :: (value ++ quote :: more) ∧
          quote ∉ front ∧ quote ∉ value ∧ 0 ∈ field.drop value.length

theorem copyQuoted_zero_iff {field text : List Byte} (nulFree : 0 ∉ text) :
    (∃ after, copyQuoted field 0 text = .ok after ∧ 0 ∈ after) ↔
      ∃ front value more,
        text = front ++ quote :: (value ++ quote :: more) ∧
          quote ∉ front ∧ quote ∉ value ∧ 0 ∈ field.drop value.length := by
  have behind (front rest : List Byte) :
      (front ++ quote :: rest).drop (front.length + 1) = rest := by
    rw [← List.drop_drop, List.drop_left]
    rfl
  have copied {value : List Byte} (fits : value.length ≤ field.length)
      (more : List Byte) :
      strncpy field 0 (value ++ quote :: more) value.length =
        .ok (value ++ field.drop value.length) := by
    rw [strncpy, if_pos (by omega), List.take_left, store, zeroPadded,
      Nat.sub_self, List.replicate_zero, List.append_nil, List.take_zero,
      List.nil_append, Nat.zero_add]
  constructor
  · rintro ⟨after, copy, terminated⟩
    rw [copyQuoted] at copy
    rcases bind_eq_ok_iff.mp copy with ⟨rest, opened, copy⟩
    rcases bind_eq_ok_iff.mp copy with ⟨length, closed, copy⟩
    rw [afterQuote] at opened
    rcases bind_eq_ok_iff.mp opened with ⟨start, first, opened⟩
    cases opened
    rw [require_eq_ok_iff, strchr_eq_some_iff] at first
    rcases first with ⟨front, back, rfl, plain, rfl⟩
    rw [behind] at closed copy
    rw [require_eq_ok_iff, strchr_eq_some_iff] at closed
    rcases closed with ⟨value, more, rfl, inner, rfl⟩
    have fits := (strncpy_eq_ok_iff.mp copy).1
    rw [Nat.zero_add] at fits
    rw [copied fits] at copy
    cases copy
    refine ⟨front, value, more, rfl, plain, inner, ?_⟩
    rcases List.mem_append.mp terminated with early | late
    · refine absurd (List.mem_append_right _ ?_) nulFree
      exact List.mem_cons_of_mem _ (List.mem_append_left _ early)
    · exact late
  · rintro ⟨front, value, more, rfl, plain, inner, terminated⟩
    have fits : value.length ≤ field.length := by
      by_contra long
      rw [List.drop_eq_nil_of_le (by omega)] at terminated
      cases terminated
    refine ⟨value ++ field.drop value.length, ?_, ?_⟩
    · rw [copyQuoted, afterQuote, strchr_append plain]
      simp only [require, bind, Except.bind, pure, Except.pure, behind,
        strchr_append inner, copied fits]
    · exact List.mem_append_right _ terminated

theorem copyOptional_iff {field text key : List Byte} (nulFree : 0 ∉ text) :
    (∃ after, copyOptional field text key = .ok after ∧ 0 ∈ after) ↔
      FieldFits text key field := by
  rw [copyOptional]
  cases found : strstr text key with
  | none =>
      constructor
      · rintro ⟨after, copy, terminated⟩
        cases copy
        refine ⟨fun _ => terminated, ?_⟩
        intro start here
        rw [found] at here
        cases here
      · intro fits
        exact ⟨field, rfl, fits.absent found⟩
  | some start =>
      have clear : 0 ∉ text.drop (start + key.length) :=
        fun member => nulFree (List.mem_of_mem_drop member)
      dsimp only
      rw [copyQuoted_zero_iff clear]
      constructor
      · intro shape
        refine ⟨?_, ?_⟩
        · intro absent
          rw [found] at absent
          cases absent
        · intro position here
          rw [found] at here
          cases here
          exact shape
      · intro fits
        exact fits.present start found

/-! ## Numbers -/

/-- Behind a key stands a colon, if the key is present. -/
def ColonBehind (text key : List Byte) : Prop :=
  ∀ start, strstr text key = some start →
    char ':' ∈ text.drop (start + key.length)

theorem numberOptional_iff {text key : List Byte} :
    (∃ number, numberOptional text key = .ok number) ↔
      ColonBehind text key := by
  rw [numberOptional]
  cases found : strstr text key with
  | none =>
      refine ⟨?_, fun _ => ⟨none, rfl⟩⟩
      intro _ start here
      rw [found] at here
      cases here
  | some start =>
      dsimp only
      constructor
      · rintro ⟨number, scanned⟩ position here
        rcases bind_eq_ok_iff.mp scanned with ⟨colon, first, -⟩
        rw [found] at here
        cases here
        rw [require_eq_ok_iff] at first
        by_contra absent
        rw [(strchr_eq_none_iff _ _).mpr absent] at first
        cases first
      · intro behind
        have present := behind start found
        cases first : strchr (text.drop (start + key.length)) (char ':') with
        | none => exact absurd present ((strchr_eq_none_iff _ _).mp first)
        | some colon => exact ⟨_, rfl⟩

/-! ## All fields -/

/-- The fields of a result other than the areas fit into the record. -/
structure HeaderFits (text request : List Byte)
    (result : ResultJson floating) : Prop where
  type : FieldFits text (ascii "\"type\":") result.type
  desc : FieldFits text (ascii "\"desc\":") result.desc
  value : FieldFits text (ascii "\"value\":") result.value
  code : ColonBehind text (ascii "\"code\"")
  conf : ColonBehind text (ascii "\"conf\"")
  image :
    ∃ image, cString (request.drop Request.imagePathList) = .ok image ∧
      image.length + 16 < result.resImagePath.length

/-- The loop over the areas leaves the other fields alone. -/
theorem scanPos_fields
    {text : List Byte} {before after : ResultJson floating}
    (scanned : scanPos text before = .ok after) :
    ∃ area count, after = { before with area := area, count := count } := by
  rw [scanPos] at scanned
  split at scanned
  · cases scanned
    exact ⟨_, _, rfl⟩
  · split at scanned
    · cases scanned
      exact ⟨_, _, rfl⟩
    · rcases bind_eq_ok_iff.mp scanned with ⟨⟨area, count⟩, -, scanned⟩
      cases scanned
      exact ⟨_, _, rfl⟩

theorem sprintf_image_iff {field image : List Byte} :
    (∃ after,
      sprintf field 0 (ascii "/root/image/" ++ image ++ ascii ".rgb") =
          .ok after ∧
        0 ∈ after) ↔
      image.length + 16 < field.length := by
  have size :
      (ascii "/root/image/" ++ image ++ ascii ".rgb").length =
        image.length + 16 := by
    have literals :
        (ascii "/root/image/").length = 12 ∧ (ascii ".rgb").length = 4 := by
      decide
    rw [List.length_append, List.length_append, literals.1, literals.2]
    omega
  rw [sprintf, size]
  by_cases fits : image.length + 16 < field.length
  · rw [if_pos (by omega)]
    refine iff_of_true ⟨_, rfl, ?_⟩ fits
    rw [store]
    simp
  · rw [if_neg (by omega)]
    refine iff_of_false ?_ fits
    rintro ⟨after, impossible, -⟩
    cases impossible

end CommonCode.Http
