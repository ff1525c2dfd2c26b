import CommonCode.Http.Receive

/-!
# The copies of `check_if_post`

The two copy lengths of `check_if_post` are differences of independent
searches.  They stay inside the buffers of `main` exactly on requests in which
the file name is short and ends in front of the first ` HTTP`, and the braces
are absent or in order around a short content.
-/

namespace CommonCode.Http

open CommonCode.Lib.Bits
open CommonCode.Lib.CString

/-! ## What the copies should do -/

/--
The copy lengths of `check_if_post` on a text are inside the buffers of `main`,
and an accepted request leaves the text from the first opening to the last
closing brace.
-/
structure CopiesBounded (text rest : List Byte) : Prop where
  fileName :
    ∀ tail : Nat, ascii "POST " <+: text →
      strstr text (ascii " HTTP") = some tail →
        0 ≤ (tail : Int) - 5 ∧ (tail : Int) - 5 ≤ 127
  content :
    ∀ tail head last : Nat, ascii "POST " <+: text →
      strstr text (ascii " HTTP") = some tail →
      strchr text (char '{') = some head →
      strrchr text (char '}') = some last →
        0 ≤ (last : Int) - head + 1 ∧ (last : Int) - head + 1 ≤ 511
  accepted :
    ∀ name body : List Byte,
      checkIfPost (text ++ 0 :: rest) (List.replicate 128 0)
          (List.replicate 512 0) = .ok (0, name, body) →
        ∃ head last : Nat,
          strchr text (char '{') = some head ∧
          strrchr text (char '}') = some last ∧ head ≤ last ∧
          body = zeroPadded 512 ((text.drop head).take (last + 1 - head))

/-! ## Orderly requests -/

/-- The request line names a file of at most 127 bytes. -/
def ShortName (text : List Byte) : Prop :=
  ∃ name back, text = ascii "POST " ++ name ++ ascii " HTTP" ++ back ∧
    name.length ≤ 127 ∧ ¬ ascii " HTTP" <:+: char ' ' :: name

/-- The braces of a request enclose a content of at most 511 bytes. -/
def ShortContent (text : List Byte) : Prop :=
  ∃ front inner back,
    text = front ++ (char '{' :: inner ++ [char '}']) ++ back ∧
    char '{' ∉ front ∧ char '}' ∉ back ∧ inner.length ≤ 509

/-- A request whose fields fit into the buffers of `main`. -/
def Orderly (text : List Byte) : Prop :=
  ShortName text ∧
    (char '{' ∈ text → char '}' ∈ text → ShortContent text)

/-- The end of the file name in an orderly request line. -/
theorem strstr_name
    {name : List Byte} (noHttp : ¬ ascii " HTTP" <:+: char ' ' :: name)
    (back : List Byte) :
    strstr (ascii "POST " ++ name ++ ascii " HTTP" ++ back)
        (ascii " HTTP") = some (name.length + 5) := by
  have framed :
      ascii "POST " ++ name ++ ascii " HTTP" ++ back =
        frame name back [] [] := by
    simp [frame]
  rw [framed, strstr_frame noHttp]

/-- A file name is short exactly if the request line ends early enough. -/
theorem shortName_iff
    {text : List Byte} (post : ascii "POST " <+: text) {tail : Nat}
    (found : strstr text (ascii " HTTP") = some tail) :
    ShortName text ↔ 5 ≤ tail ∧ tail ≤ 132 := by
  constructor
  · rintro ⟨name, back, rfl, short, noHttp⟩
    rw [strstr_name noHttp, Option.some.injEq] at found
    omega
  · rintro ⟨lower, upper⟩
    obtain ⟨bound, here, first⟩ := (strstr_eq_some_iff _ _ _).mp found
    obtain ⟨behind, rfl⟩ := post
    have split :
        (ascii "POST " ++ behind).drop tail = behind.drop (tail - 5) := by
      rw [List.drop_append, length_post, List.drop_eq_nil_of_le (by simpa),
        List.nil_append]
    rw [split] at here
    obtain ⟨back, line⟩ := here
    have short : (behind.take (tail - 5)).length = tail - 5 := by
      rw [List.length_append, length_post] at bound
      rw [List.length_take]
      omega
    have shape :
        ascii "POST " ++ behind =
          ascii "POST " ++ behind.take (tail - 5) ++ ascii " HTTP" ++
            back := by
      rw [List.append_assoc, line, List.append_assoc,
        List.take_append_drop]
    refine ⟨behind.take (tail - 5), back, shape, by omega, ?_⟩
    rintro ⟨before, after, occurrence⟩
    have size := congrArg List.length occurrence
    simp only [List.length_append, List.length_cons, length_http, short]
      at size
    apply first (4 + before.length) (by omega)
    have earlier :
        ascii "POST " ++ behind =
          ascii "POST" ++ before ++ (ascii " HTTP" ++ after ++
            behind.drop (tail - 5)) := by
      have start : ascii "POST " = ascii "POST" ++ [char ' '] := by decide
      rw [start, List.append_assoc, List.singleton_append,
        ← List.take_append_drop (tail - 5) behind, ← List.cons_append,
        ← occurrence]
      simp
    have position : (ascii "POST" ++ before).length = 4 + before.length := by
      rw [List.length_append]
      rfl
    rw [earlier, List.drop_left' position, List.append_assoc]
    exact List.prefix_append ..

/-- Braces are in order exactly if the last closes the first. -/
theorem shortContent_iff
    {text : List Byte} {head last : Nat}
    (opening : strchr text (char '{') = some head)
    (closing : strrchr text (char '}') = some last) :
    ShortContent text ↔ head ≤ last ∧ last + 1 - head ≤ 511 := by
  constructor
  · rintro ⟨front, inner, back, rfl, noOpening, noClosing, short⟩
    have first :
        strchr (front ++ (char '{' :: inner ++ [char '}']) ++ back)
          (char '{') = some front.length := by
      rw [List.append_assoc, List.cons_append, List.cons_append,
        strchr_append noOpening]
    have final :
        strrchr (front ++ (char '{' :: inner ++ [char '}']) ++ back)
          (char '}') = some (front.length + inner.length + 1) := by
      have shape :
          front ++ (char '{' :: inner ++ [char '}']) ++ back =
            (front ++ char '{' :: inner) ++ char '}' :: back := by
        simp
      rw [shape, strrchr_append noClosing]
      simp [Nat.add_assoc]
    rw [first, Option.some.injEq] at opening
    rw [final, Option.some.injEq] at closing
    omega
  · rintro ⟨ordered, short⟩
    obtain ⟨front, behind, shape, noOpening, rfl⟩ :=
      strchr_eq_some_iff.mp opening
    obtain ⟨before, back, same, noClosing, rfl⟩ :=
      strrchr_eq_some_iff.mp closing
    rw [shape] at same
    rcases List.append_eq_append_iff.mp same with
      ⟨between, rfl, tails⟩ | ⟨between, rfl, tails⟩
    · cases between with
      | nil => exact absurd (List.cons.inj tails).1 (by decide)
      | cons byte inner =>
          obtain ⟨rfl, rfl⟩ := List.cons.inj tails
          refine ⟨front, inner, back, ?_, noOpening, noClosing, ?_⟩
          · rw [shape]
            simp
          · simp only [List.length_append, List.length_cons] at short
            omega
    · cases between with
      | nil => exact absurd (List.cons.inj tails).1 (by decide)
      | cons byte inner =>
          simp only [List.length_append, List.length_cons] at ordered
          omega

/-! ## The exact condition -/

/--
The copies of `check_if_post` stay inside the buffers of `main`, and an
accepted request leaves the text between the outermost braces, exactly if every
request line with ` HTTP` in it belongs to an orderly request.
-/
theorem copiesBounded_iff
    (text rest : List Byte) (nulFree : 0 ∉ text)
    (short : text.length ≤ 1023) :
    CopiesBounded text rest ↔
      (ascii "POST " <+: text → ascii " HTTP" <:+: text → Orderly text) := by
  have small : text.length < 2 ^ 62 := by omega
  have nameSize : fileNameSize = 128 := rfl
  have bodySize : contentSize = 512 := rfl
  constructor
  · intro bounded post http
    obtain ⟨tail, found⟩ := exists_strstr_iff.mpr http
    have name := bounded.fileName tail post found
    refine ⟨(shortName_iff post found).mpr (by omega), ?_⟩
    intro opened closed
    obtain ⟨head, opening⟩ := exists_strchr_iff.mpr opened
    obtain ⟨last, closing⟩ := exists_strrchr_iff.mpr closed
    have content := bounded.content tail head last post found opening closing
    have copied :=
      (checkZeroed_eq_ok_iff nulFree post found opening closing small rest
        _).mpr ⟨⟨by omega, by omega, by omega, by omega⟩, rfl⟩
    obtain ⟨head', last', opening', closing', ordered, -⟩ :=
      bounded.accepted _ _ copied
    rw [opening, Option.some.injEq] at opening'
    rw [closing, Option.some.injEq] at closing'
    exact (shortContent_iff opening closing).mpr (by omega)
  · intro orderly
    have name {tail : Nat} (post : ascii "POST " <+: text)
        (found : strstr text (ascii " HTTP") = some tail) :
        Orderly text ∧ 5 ≤ tail ∧ tail ≤ 132 := by
      have fits := orderly post (exists_strstr_iff.mp ⟨tail, found⟩)
      exact ⟨fits, (shortName_iff post found).mp fits.1⟩
    have content {tail head last : Nat} (post : ascii "POST " <+: text)
        (found : strstr text (ascii " HTTP") = some tail)
        (opening : strchr text (char '{') = some head)
        (closing : strrchr text (char '}') = some last) :
        head ≤ last ∧ last + 1 - head ≤ 511 :=
      (shortContent_iff opening closing).mp
        ((name post found).1.2 (exists_strchr_iff.mp ⟨head, opening⟩)
          (exists_strrchr_iff.mp ⟨last, closing⟩))
    constructor
    · intro tail post found
      have bounds := (name post found).2
      omega
    · intro tail head last post found opening closing
      have bounds := content post found opening closing
      omega
    · intro name' body accepted
      obtain ⟨post, ⟨tail, found⟩, ⟨head, opening⟩, last, closing⟩ :=
        found_of_checkIfPost_eq_zero nulFree accepted
      have copied :=
        (checkZeroed_eq_ok_iff nulFree post found opening closing small rest
          _).mp accepted
      refine
        ⟨head, last, opening, closing,
          (content post found opening closing).1, ?_⟩
      exact congrArg (fun result => result.2.2) copied.2

/-- A short request of the client. -/
theorem copiesBounded_iff_small :
    CopiesBounded (ascii "POST /a HTTP/1.1\n\n\x7b\x7d") [] := by
  apply (copiesBounded_iff _ [] (by decide +kernel) (by decide +kernel)).mpr
  intro _ _
  refine ⟨⟨ascii "/a", ascii "/1.1\n\n\x7b\x7d", ?_, ?_, ?_⟩, ?_⟩
  · decide +kernel
  · decide +kernel
  · decide +kernel
  · intro _ _
    refine
      ⟨ascii "POST /a HTTP/1.1\n\n", [], [], ?_, ?_, ?_, ?_⟩
    · decide +kernel
    · decide +kernel
    · decide +kernel
    · decide +kernel

/-- Without a file name the first copy length is negative. -/
theorem postHttp_not_copiesBounded :
    ¬ CopiesBounded (ascii "POST HTTP/1.1\n\n\x7b\x7d") [] := by
  intro bounded
  have length :=
    bounded.fileName 4 (by decide +kernel) (by decide +kernel)
  omega

end CommonCode.Http
