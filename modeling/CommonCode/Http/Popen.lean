import CommonCode.Lib.Fgets

/-!
# Commands that are run again

`popen_exe` runs a command again as long as its output contains `failed`.  It
reads the output with `fgets` into an array of 128 bytes and searches each
piece, so it does not see a text that lies across the end of a piece of a long
line.
-/

namespace CommonCode.Http

open CommonCode.Lib.Bits
open CommonCode.Lib.CString
open CommonCode.Lib.Fgets

/-- The inner loop of `popen_exe`: the value of `redo` at the end of a run. -/
def readOutput (log output : List Byte) (redo : Int) : Except Fault Int :=
  match _ : fgets log 128 output with
  | .error fault => .error fault
  | .ok none => .ok redo
  | .ok (some (next, rest)) => do
      let text ← cString next
      readOutput next rest
        (if strstr text (ascii "failed") ≠ none then 1 else redo)
termination_by output.length
decreasing_by
  exact length_lt_of_fgets (by decide : 1 < 128) ‹_›

/-- `redo` after a run with the given output. -/
def popenExe (output : List Byte) : Except Fault Int :=
  readOutput (List.replicate 128 0) output 0

theorem readOutput_nil (log : List Byte) (redo : Int) :
    readOutput log [] redo = .ok redo := by
  rw [readOutput]
  rfl

/-- What a round of the loop does. -/
theorem readOutput_piece {log output : List Byte} (room : log.length = 128)
    (nulFree : 0 ∉ output) (more : output ≠ []) (redo : Int) :
    ∃ next, next.length = 128 ∧
      readOutput log output redo =
        readOutput next (nextPiece 127 output).2
          (if strstr (nextPiece 127 output).1 (ascii "failed") ≠ none then 1
          else redo) := by
  have short := length_nextPiece 127 output
  have clean : 0 ∉ (nextPiece 127 output).1 := by
    intro member
    rw [← nextPiece_append 127 output] at nulFree
    exact nulFree (List.mem_append_left _ member)
  have read : fgets log 128 output = _ :=
    fgets_of_ne_nil room.ge (by decide) more
  have fits : 0 + ((nextPiece 127 output).1 ++ [0]).length ≤ log.length := by
    rw [List.length_append, List.length_singleton]
    omega
  have text :
      cString (store log 0 ((nextPiece 127 output).1 ++ [0])) =
        .ok (nextPiece 127 output).1 := by
    rw [store, List.take_zero, List.nil_append, List.append_assoc]
    exact cString_append_nul clean _
  refine ⟨_, (length_store fits).trans room, ?_⟩
  rw [readOutput]
  split
  · next fault equation =>
    rw [read] at equation
    cases equation
  · next equation =>
    rw [read] at equation
    cases equation
  · next next rest equation =>
    rw [read] at equation
    cases equation
    rw [show 128 - 1 = 127 from rfl, text]
    rfl

/-- The loop sees exactly the copies that lie inside a piece. -/
theorem readOutput_spec {log output : List Byte} (room : log.length = 128)
    (nulFree : 0 ∉ output) (redo : Int) :
    ∃ value, readOutput log output redo = .ok value ∧
      (value = 1 ↔ redo = 1 ∨ Aligned 127 (ascii "failed") output) := by
  induction size : output.length using Nat.strong_induction_on
    generalizing log output redo with
  | _ size induction =>
      by_cases more : output = []
      · rw [more]
        refine ⟨redo, readOutput_nil log redo, ?_⟩
        rw [or_iff_left]
        exact not_aligned_nil (by decide)
      · rcases readOutput_piece room nulFree more redo with
          ⟨next, still, round⟩
        have shorter : (nextPiece 127 output).2.length < output.length :=
          length_rest_lt (by decide) more
        have clean : 0 ∉ (nextPiece 127 output).2 := by
          intro member
          rw [← nextPiece_append 127 output] at nulFree
          exact nulFree (List.mem_append_right _ member)
        rcases induction _ (size ▸ shorter) still clean
            (if strstr (nextPiece 127 output).1 (ascii "failed") ≠ none then 1
            else redo) rfl with
          ⟨value, result, detected⟩
        refine ⟨value, round.trans result, ?_⟩
        have split :=
          @aligned_iff 127 (ascii "failed") output (by decide) (by decide)
        rw [detected, split, ← or_assoc]
        refine or_congr_left ?_
        by_cases found :
            ascii "failed" <:+: (nextPiece 127 output).1
        · simp [found, strstr_eq_none_iff]
        · simp [found, strstr_eq_none_iff]

/-! ## One run -/

/--
A run of `popen_exe` detects failure: `redo` is 1 exactly if the output
contains `failed`, which has no newline and so always lies within a line.
-/
def Detects (output : List Byte) : Prop :=
  ∃ redo, popenExe output = .ok redo ∧
    (redo = 1 ↔ ascii "failed" <:+: output)

theorem popenExe_spec {output : List Byte} (nulFree : 0 ∉ output) :
    ∃ redo, popenExe output = .ok redo ∧
      (redo = 1 ↔ Aligned 127 (ascii "failed") output) := by
  rcases readOutput_spec (List.length_replicate ..) nulFree 0 with
    ⟨redo, result, detected⟩
  refine ⟨redo, result, detected.trans (or_iff_right ?_)⟩
  decide

/--
Failure is detected exactly if the output does not contain `failed`, or some
copy of it does not lie across a multiple of 127 columns of its line.
-/
theorem detects_iff {output : List Byte} (nulFree : 0 ∉ output) :
    Detects output ↔
      (ascii "failed" <:+: output →
        ∃ front back, output = front ++ ascii "failed" ++ back ∧
          column front % 127 ≤ 121) := by
  rcases popenExe_spec nulFree with ⟨redo, result, detected⟩
  have aligned : Aligned 127 (ascii "failed") output ↔
      ∃ front back, output = front ++ ascii "failed" ++ back ∧
        column front % 127 ≤ 121 := by
    refine exists₂_congr fun front back => and_congr_right fun _ => ?_
    rw [show (ascii "failed").length = 6 from rfl]
    omega
  have inside : Aligned 127 (ascii "failed") output →
      ascii "failed" <:+: output := by
    rintro ⟨front, back, rfl, -⟩
    exact ⟨front, back, rfl⟩
  rw [← aligned]
  constructor
  · rintro ⟨value, same, agrees⟩ found
    rw [result, Except.ok.injEq] at same
    rw [← detected, same, agrees]
    exact found
  · intro seen
    exact ⟨redo, result, detected.trans ⟨inside, seen⟩⟩

/-- A message on the third line. -/
theorem detects_short_line :
    Detects (ascii "connect\n\nlogin failed\n") :=
  (detects_iff (by decide)).mpr fun _ =>
    ⟨ascii "connect\n\nlogin ", ascii "\n", by decide,
      by decide⟩

/-- A message behind 124 bytes of its line. -/
theorem not_detects_straddling :
    ¬ Detects (List.replicate 124 (char 'x') ++ ascii "failed") := by
  rintro ⟨redo, result, agrees⟩
  have clean :
      0 ∉ List.replicate 124 (char 'x') ++ ascii "failed" := by
    decide +kernel
  rcases popenExe_spec clean with ⟨value, same, detected⟩
  rw [result, Except.ok.injEq] at same
  have inside : ascii "failed" <:+:
      List.replicate 124 (char 'x') ++ ascii "failed" :=
    (List.suffix_append ..).isInfix
  have seen := detected.mp (same ▸ agrees.mpr inside)
  have pieces :
      nextPiece 127 (List.replicate 124 (char 'x') ++ ascii "failed") =
        (List.replicate 124 (char 'x') ++ ascii "fai", ascii "led") := by
    decide +kernel
  rw [aligned_iff (by decide) (by decide), pieces] at seen
  dsimp only at seen
  rcases seen with found | ⟨front, back, equation, -⟩
  · revert found
    decide +kernel
  · have size := congrArg List.length equation
    simp only [List.length_append] at size
    change 3 = front.length + 6 + back.length at size
    omega

end CommonCode.Http
