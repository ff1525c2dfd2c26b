import CommonCode.Lib.CString

/-!
# POST packets of the HTTP client and server

`build_http_post_packet` of the client and `build_callback_packet` of the
server print a request into a buffer.  `check_if_post` of the server finds the
file name and the content in such a buffer by substring search and copies them
into two buffers of its caller.  The main result is that the decoder inverts
both encoders.

Both packets are instances of one frame: the request line up to the first
` HTTP`, header text without braces, the content, and a trailer without
braces.
-/

namespace CommonCode.Http

open CommonCode.Lib.Bits
open CommonCode.Lib.CString

/-! ## The encoders -/

/-- The texts that `build_http_post_packet` prints, one after the other. -/
def httpPostTexts (filename content : List Byte) : List (List Byte) :=
  [ascii "POST " ++ filename ++ ascii " HTTP/1.1\n",
    ascii "HOST: " ++ ascii "192.168.3.131" ++ ascii "\n",
    ascii "Content-Type: " ++ ascii "application/json" ++ ascii "\n",
    ascii "Content-Length: " ++
      formatInt (BitVec.ofNat 32 content.length).toInt ++ ascii "\n",
    ascii "\n",
    content ++ ascii "\r\n",
    ascii "\r\n"]

/--
`build_http_post_packet`: the buffer and the returned length.  `%d` prints the
low 32 bits of the `size_t` that `strlen` returns.
-/
def buildHttpPostPacket (buf filename content : List Byte) :
    Except Fault (List Byte × Nat) :=
  printSequence buf 0 (httpPostTexts filename content)

/-- The texts that `build_callback_packet` prints, one after the other. -/
def callbackTexts (content : List Byte) (contentLen : Int)
    (fileName : List Byte) : List (List Byte) :=
  [ascii "POST " ++ fileName ++ ascii " HTTP/1.1\r\n",
    ascii "HOST: 10.106.249.210:8080\r\n",
    ascii "Content-Type: " ++ ascii "application/json" ++ ascii "\r\n",
    ascii "Content-Length: " ++ formatInt contentLen ++ ascii "\r\n",
    ascii "\r\n",
    content]

/-- `build_callback_packet`: the buffer and the returned length. -/
def buildCallbackPacket (buf content : List Byte) (contentLen : Int)
    (fileName : List Byte) : Except Fault (List Byte × Nat) :=
  printSequence buf 0 (callbackTexts content contentLen fileName)

/-- The packet that `build_http_post_packet` leaves in its buffer. -/
def httpPostPacket (filename content : List Byte) : List Byte :=
  (httpPostTexts filename content).flatten

/-- The packet that `build_callback_packet` leaves in its buffer. -/
def callbackPacket (content : List Byte) (contentLen : Int)
    (fileName : List Byte) : List Byte :=
  (callbackTexts content contentLen fileName).flatten

/-! ## The decoder -/

/--
`check_if_post` on the memory at `data`: the returned type and the two output
buffers.  The copy lengths are pointer differences converted to `size_t`, so a
negative difference is a copy that no buffer can hold.
-/
def checkIfPost (data fileName content : List Byte) :
    Except Fault (Int × List Byte × List Byte) :=
  if strncmp data (ascii "POST ") 5 = 0 then do
    let text ← cString data
    match strstr text (ascii " HTTP") with
    | none => return (-1, fileName, content)
    | some tail =>
        let fileName ←
          strncpy fileName 0 (text.drop 5) (sizeT ((tail : Int) - 5))
        match strchr text (char '{'), strrchr text (char '}') with
        | none, _ => return (-1, fileName, content)
        | some _, none => return (-1, fileName, content)
        | some head, some tail =>
            let content ←
              strncpy content 0 (text.drop head)
                (sizeT ((tail : Int) - head + 1))
            return (0, fileName, content)
  else if strncmp data (ascii "HTTP/") 5 = 0 then
    return (2, fileName, content)
  else return (-1, fileName, content)

/-- What `check_if_post` does to the buffers of its caller. -/
theorem checkIfPost_buffers
    {data fileName content name body : List Byte} {type : Int}
    (checked : checkIfPost data fileName content = .ok (type, name, body)) :
    name.length = fileName.length ∧ (type ≠ 0 → body = content) := by
  rw [checkIfPost] at checked
  split at checked
  · obtain ⟨text, -, checked⟩ := bind_eq_ok_iff.mp checked
    split at checked
    · cases checked
      exact ⟨rfl, fun _ => rfl⟩
    · obtain ⟨copied, copy, checked⟩ := bind_eq_ok_iff.mp checked
      have same := length_of_strncpy copy
      split at checked
      · cases checked
        exact ⟨same, fun _ => rfl⟩
      · cases checked
        exact ⟨same, fun _ => rfl⟩
      · obtain ⟨last, -, checked⟩ := bind_eq_ok_iff.mp checked
        cases checked
        exact ⟨same, fun nonzero => absurd rfl nonzero⟩
  · split at checked
    · cases checked
      exact ⟨rfl, fun _ => rfl⟩
    · cases checked
      exact ⟨rfl, fun _ => rfl⟩

/-- The old bytes of `file_name` do not affect anything else. -/
theorem checkIfPost_fileName_irrelevant
    {data fileName other content : List Byte}
    (sameLength : fileName.length = other.length) :
    (checkIfPost data fileName content).map
        (fun result => (result.1, result.2.2)) =
      (checkIfPost data other content).map
        (fun result => (result.1, result.2.2)) := by
  rw [checkIfPost, checkIfPost]
  split
  · cases cString data with
    | error fault => rfl
    | ok text =>
        simp only [bind, Except.bind]
        cases strstr text (ascii " HTTP") with
        | none => rfl
        | some tail =>
            by_cases fits : 0 + sizeT ((tail : Int) - 5) ≤ other.length
            · have copied (memory : List Byte)
                  (same : memory.length = other.length) :
                  ∃ after, strncpy memory 0 (text.drop 5)
                    (sizeT ((tail : Int) - 5)) = .ok after :=
                ⟨_, if_pos (same ▸ fits)⟩
              obtain ⟨name, left⟩ := copied fileName sameLength
              obtain ⟨name', right⟩ := copied other rfl
              simp only [left, right]
              cases strchr text (char '{') with
              | none => rfl
              | some head =>
                  cases strrchr text (char '}') with
                  | none => rfl
                  | some last =>
                      dsimp only
                      cases strncpy content 0 (text.drop head)
                          (sizeT ((last : Int) - head + 1)) with
                      | error fault => rfl
                      | ok body => rfl
            · have failed (memory : List Byte)
                  (same : memory.length = other.length) :
                  strncpy memory 0 (text.drop 5) (sizeT ((tail : Int) - 5)) =
                    .error .outOfBounds :=
                if_neg (same ▸ fits)
              simp only [failed fileName sameLength, failed other rfl]
  · split
    · rfl
    · rfl

/--
On a request in which all three searches succeed, `check_if_post` is its two
copies.
-/
theorem checkIfPost_of_found
    {text : List Byte} (nulFree : 0 ∉ text)
    (post : ascii "POST " <+: text)
    {tail head last : Nat}
    (http : strstr text (ascii " HTTP") = some tail)
    (opening : strchr text (char '{') = some head)
    (closing : strrchr text (char '}') = some last)
    (rest fileName content : List Byte) :
    checkIfPost (text ++ 0 :: rest) fileName content = (do
      let fileName ←
        strncpy fileName 0 (text.drop 5) (sizeT ((tail : Int) - 5))
      let content ←
        strncpy content 0 (text.drop head)
          (sizeT ((last : Int) - head + 1))
      return (0, fileName, content)) := by
  have accepted :
      strncmp (text ++ 0 :: rest) (ascii "POST ") 5 = 0 :=
    (strncmp_eq_zero_iff (show 0 ∉ ascii "POST " by decide) _).mpr
      (post.trans (List.prefix_append ..))
  rw [checkIfPost, if_pos accepted, cString_append_nul nulFree]
  simp only [bind, Except.bind, http, opening, closing]

/-- The size of `file_name` in `main`. -/
abbrev fileNameSize : Nat := 128

/-- The size of `content` in `main`. -/
abbrev contentSize : Nat := 512

/-- `check_if_post` with the output buffers of `main`, zeroed. -/
def checkZeroed (data : List Byte) :
    Except Fault (Int × List Byte × List Byte) :=
  checkIfPost data (List.replicate fileNameSize 0)
    (List.replicate contentSize 0)

/--
With zeroed output buffers the copies succeed exactly if neither length is
negative nor exceeds its buffer, and then leave the two fields.
-/
theorem checkZeroed_eq_ok_iff
    {text : List Byte} (nulFree : 0 ∉ text)
    (post : ascii "POST " <+: text)
    {tail head last : Nat}
    (http : strstr text (ascii " HTTP") = some tail)
    (opening : strchr text (char '{') = some head)
    (closing : strrchr text (char '}') = some last)
    (bounded : text.length < 2 ^ 62) (rest : List Byte)
    (result : Int × List Byte × List Byte) :
    checkZeroed (text ++ 0 :: rest) = .ok result ↔
      (5 ≤ tail ∧ tail - 5 ≤ fileNameSize ∧ head ≤ last + 1 ∧
        last + 1 - head ≤ contentSize) ∧
      result =
        (0, zeroPadded fileNameSize ((text.drop 5).take (tail - 5)),
          zeroPadded contentSize
            ((text.drop head).take (last + 1 - head))) := by
  have tailBound := strstr_le_length http
  have headBound := strchr_lt_length opening
  have lastBound := strrchr_lt_length closing
  rw [checkZeroed, checkIfPost_of_found nulFree post http opening closing,
    strncpy_zeros_sizeT (by decide) (by omega) (by omega),
    strncpy_zeros_sizeT (by decide) (by omega) (by omega)]
  by_cases nameFits : 0 ≤ (tail : Int) - 5 ∧ (tail : Int) - 5 ≤ fileNameSize
  · rw [if_pos nameFits]
    by_cases contentFits :
        0 ≤ (last : Int) - head + 1 ∧ (last : Int) - head + 1 ≤ contentSize
    · rw [if_pos contentFits]
      have nameLength : ((tail : Int) - 5).toNat = tail - 5 := by omega
      have contentLength :
          ((last : Int) - head + 1).toNat = last + 1 - head := by omega
      have fits :
          5 ≤ tail ∧ tail - 5 ≤ fileNameSize ∧ head ≤ last + 1 ∧
            last + 1 - head ≤ contentSize := by omega
      rw [nameLength, contentLength]
      change Except.ok _ = Except.ok _ ↔ _
      rw [Except.ok.injEq]
      constructor
      · rintro rfl
        exact ⟨fits, rfl⟩
      · rintro ⟨-, rfl⟩
        rfl
    · rw [if_neg contentFits]
      change Except.error _ = Except.ok _ ↔ _
      constructor
      · rintro ⟨⟩
      · rintro ⟨fits, -⟩
        exact absurd ⟨by omega, by omega⟩ contentFits
  · rw [if_neg nameFits]
    change Except.error _ = Except.ok _ ↔ _
    constructor
    · rintro ⟨⟩
    · rintro ⟨fits, -⟩
      exact absurd ⟨by omega, by omega⟩ nameFits

/-! ## The frame of a packet -/

/--
The shape that both encoders give a packet.  `middle` is the header text
behind the first ` HTTP` and `trailer` what follows the content.
-/
def frame (name middle body trailer : List Byte) : List Byte :=
  ascii "POST " ++ name ++ ascii " HTTP" ++ middle ++ body ++ trailer

/-- The header text of the client's packet. -/
def httpPostMiddle (content : List Byte) : List Byte :=
  ascii "/1.1\nHOST: 192.168.3.131\nContent-Type: application/json\n" ++
    ascii "Content-Length: " ++
    formatInt (BitVec.ofNat 32 content.length).toInt ++ ascii "\n\n"

/-- The header text of the server's packet. -/
def callbackMiddle (contentLen : Int) : List Byte :=
  ascii "/1.1\r\nHOST: 10.106.249.210:8080\r\n" ++
    ascii "Content-Type: application/json\r\n" ++
    ascii "Content-Length: " ++ formatInt contentLen ++ ascii "\r\n\r\n"

theorem httpPostPacket_eq_frame (filename content : List Byte) :
    httpPostPacket filename content =
      frame filename (httpPostMiddle content) content
        (ascii "\r\n\r\n") := by
  simp [httpPostPacket, httpPostTexts, frame, httpPostMiddle, ascii]

theorem callbackPacket_eq_frame
    (content : List Byte) (contentLen : Int) (fileName : List Byte) :
    callbackPacket content contentLen fileName =
      frame fileName (callbackMiddle contentLen) content [] := by
  simp [callbackPacket, callbackTexts, frame, callbackMiddle, ascii]

theorem length_post : (ascii "POST ").length = 5 := by
  decide

theorem length_http : (ascii " HTTP").length = 5 := by
  decide

/-- Header text that a search of the decoder cannot stop in. -/
structure Neutral (text : List Byte) : Prop where
  nulFree : 0 ∉ text
  noOpening : char '{' ∉ text
  noClosing : char '}' ∉ text

instance (text : List Byte) : Decidable (Neutral text) :=
  decidable_of_iff
    (0 ∉ text ∧ char '{' ∉ text ∧ char '}' ∉ text)
    ⟨fun absent => ⟨absent.1, absent.2.1, absent.2.2⟩,
      fun neutral =>
        ⟨neutral.nulFree, neutral.noOpening, neutral.noClosing⟩⟩

/-- A content that the decoder can delimit. -/
structure Delimited (body : List Byte) : Prop where
  nulFree : 0 ∉ body
  opened : body.head? = some (char '{')
  closed : body.getLast? = some (char '}')

theorem Neutral.append {front back : List Byte}
    (left : Neutral front) (right : Neutral back) :
    Neutral (front ++ back) where
  nulFree member :=
    (List.mem_append.mp member).elim left.nulFree right.nulFree
  noOpening member :=
    (List.mem_append.mp member).elim left.noOpening right.noOpening
  noClosing member :=
    (List.mem_append.mp member).elim left.noClosing right.noClosing

theorem neutral_formatInt (value : Int) : Neutral (formatInt value) where
  nulFree := not_mem_formatInt (by decide) (by decide) value
  noOpening := not_mem_formatInt (by decide) (by decide) value
  noClosing := not_mem_formatInt (by decide) (by decide) value

theorem neutral_httpPostMiddle (content : List Byte) :
    Neutral (httpPostMiddle content) := by
  refine Neutral.append (Neutral.append (Neutral.append ?_ ?_) ?_) ?_
  · decide
  · decide
  · exact neutral_formatInt _
  · decide

theorem neutral_callbackMiddle (contentLen : Int) :
    Neutral (callbackMiddle contentLen) := by
  refine Neutral.append
    (Neutral.append (Neutral.append (Neutral.append ?_ ?_) ?_) ?_) ?_
  · decide
  · decide
  · decide
  · exact neutral_formatInt _
  · decide

theorem neutral_crlf : Neutral (ascii "\r\n\r\n") := by
  decide

theorem neutral_nil : Neutral [] := by
  decide

theorem Delimited.eq_cons {body : List Byte} (delimited : Delimited body) :
    ∃ inner, body = char '{' :: inner := by
  obtain ⟨inner, equation⟩ := List.head?_eq_some_iff.mp delimited.opened
  exact ⟨inner, equation⟩

theorem Delimited.eq_concat {body : List Byte} (delimited : Delimited body) :
    ∃ inner, body = inner ++ [char '}'] := by
  obtain ⟨inner, equation⟩ := List.getLast?_eq_some_iff.mp delimited.closed
  exact ⟨inner, equation⟩

section Frame

variable {name middle body trailer : List Byte}

theorem nulFree_frame (nameFree : 0 ∉ name) (neutral : Neutral middle)
    (delimited : Delimited body) (after : Neutral trailer) :
    0 ∉ frame name middle body trailer := by
  have post : 0 ∉ ascii "POST " := by decide
  have http : 0 ∉ ascii " HTTP" := by decide
  simp only [frame, List.mem_append, not_or]
  exact ⟨⟨⟨⟨⟨post, nameFree⟩, http⟩, neutral.nulFree⟩, delimited.nulFree⟩,
    after.nulFree⟩

theorem post_prefix_frame :
    ascii "POST " <+: frame name middle body trailer := by
  refine ⟨name ++ ascii " HTTP" ++ middle ++ body ++ trailer, ?_⟩
  simp [frame]

/-- The last closing brace of a frame is the last byte of the content. -/
theorem strrchr_frame (delimited : Delimited body) (after : Neutral trailer) :
    strrchr (frame name middle body trailer) (char '}') =
      some (name.length + middle.length + body.length + 9) := by
  obtain ⟨inner, rfl⟩ := delimited.eq_concat
  have shape :
      frame name middle (inner ++ [char '}']) trailer =
        (ascii "POST " ++ name ++ ascii " HTTP" ++ middle ++ inner) ++
          char '}' :: trailer := by
    simp [frame]
  rw [shape, strrchr_append after.noClosing]
  simp only [List.length_append, List.length_singleton, length_post,
    length_http]
  congr 1
  omega

/-- Without a brace in the name, the content starts the first brace. -/
theorem strchr_frame (noBrace : char '{' ∉ name) (neutral : Neutral middle)
    (delimited : Delimited body) :
    strchr (frame name middle body trailer) (char '{') =
      some (name.length + middle.length + 10) := by
  obtain ⟨inner, rfl⟩ := delimited.eq_cons
  have shape :
      frame name middle (char '{' :: inner) trailer =
        (ascii "POST " ++ name ++ ascii " HTTP" ++ middle) ++
          char '{' :: (inner ++ trailer) := by
    simp [frame]
  have absent :
      char '{' ∉ ascii "POST " ++ name ++ ascii " HTTP" ++ middle := by
    have post : char '{' ∉ ascii "POST " := by decide
    have http : char '{' ∉ ascii " HTTP" := by decide
    simp only [List.mem_append, not_or]
    exact ⟨⟨⟨post, noBrace⟩, http⟩, neutral.noOpening⟩
  rw [shape, strchr_append absent]
  simp only [List.length_append, length_post, length_http]
  congr 1
  omega

/-- Without ` HTTP` in the name, the request line ends the name. -/
theorem strstr_frame
    (noHttp : ¬ ascii " HTTP" <:+: char ' ' :: name) :
    strstr (frame name middle body trailer) (ascii " HTTP") =
      some (name.length + 5) := by
  have shape :
      frame name middle body trailer =
        (ascii "POST" ++ char ' ' :: name) ++
          (char ' ' :: ascii "HTTP") ++ (middle ++ body ++ trailer) := by
    simp [frame, ascii, char]
  have absent :
      ¬ (char ' ' :: ascii "HTTP") <:+: ascii "POST" ++ char ' ' :: name := by
    have post :
        ascii "POST" = [char 'P', char 'O', char 'S', char 'T'] := by decide
    have skip (byte : Byte) (text : List Byte) (apart : char ' ' ≠ byte) :
        (char ' ' :: ascii "HTTP") <:+: byte :: text ↔
          (char ' ' :: ascii "HTTP") <:+: text := by
      rw [List.infix_cons_iff, List.cons_prefix_cons]
      simp [apart]
    rw [post, List.cons_append, List.cons_append, List.cons_append,
      List.cons_append, List.nil_append, skip _ _ (by decide),
      skip _ _ (by decide), skip _ _ (by decide), skip _ _ (by decide)]
    exact noHttp
  have post : (ascii "POST").length = 4 := by decide
  have needle : ascii " HTTP" = char ' ' :: ascii "HTTP" := by decide
  rw [shape, needle, strstr_append (by decide) absent]
  simp only [List.length_append, List.length_cons, post]
  congr 1
  omega

/-- The decoder finds the two fields of a frame wherever it lies in memory. -/
theorem checkZeroed_frame
    (nameFree : 0 ∉ name) (noBrace : char '{' ∉ name)
    (noHttp : ¬ ascii " HTTP" <:+: char ' ' :: name)
    (nameFits : name.length ≤ fileNameSize)
    (neutral : Neutral middle) (delimited : Delimited body)
    (bodyFits : body.length ≤ contentSize) (after : Neutral trailer)
    (bounded : (frame name middle body trailer).length < 2 ^ 62)
    (rest : List Byte) :
    checkZeroed (frame name middle body trailer ++ 0 :: rest) =
      .ok (0, zeroPadded fileNameSize name, zeroPadded contentSize body) := by
  have nonempty : 0 < body.length := by
    obtain ⟨inner, rfl⟩ := delimited.eq_cons
    simp
  have nameShape :
      ((frame name middle body trailer).drop 5).take
        (name.length + 5 - 5) = name := by
    simp only [frame, List.append_assoc]
    rw [List.drop_left' length_post, Nat.add_sub_cancel, List.take_left]
  have bodyShape :
      ((frame name middle body trailer).drop
          (name.length + middle.length + 10)).take
        (name.length + middle.length + body.length + 9 + 1 -
          (name.length + middle.length + 10)) = body := by
    have front :
        (ascii "POST " ++ name ++ ascii " HTTP" ++ middle).length =
          name.length + middle.length + 10 := by
      simp only [List.length_append, length_post, length_http]
      omega
    rw [frame, List.append_assoc _ body, List.drop_left' front,
      show name.length + middle.length + body.length + 9 + 1 -
        (name.length + middle.length + 10) = body.length by omega,
      List.take_left]
  rw [checkZeroed_eq_ok_iff
    (nulFree_frame nameFree neutral delimited after) post_prefix_frame
    (strstr_frame noHttp) (strchr_frame noBrace neutral delimited)
    (strrchr_frame delimited after) bounded]
  refine ⟨⟨by omega, by omega, by omega, by omega⟩, ?_⟩
  rw [nameShape, bodyShape]

end Frame

/-! ## The decoder inverts the encoders -/

/-- A printed packet lies at the start of its buffer, with a terminator. -/
theorem printSequence_start
    {buf text : List Byte} {texts : List (List Byte)}
    (fits : (text :: texts).flatten.length < buf.length) :
    printSequence buf 0 (text :: texts) =
      .ok ((text :: texts).flatten ++
          0 :: buf.drop ((text :: texts).flatten.length + 1),
        (text :: texts).flatten.length) := by
  rw [printSequence_eq_ok text texts (by omega), store,
    List.length_append, List.length_singleton]
  simp only [List.take_zero, List.nil_append, Nat.zero_add,
    List.append_assoc, List.singleton_append]

theorem buildHttpPostPacket_eq
    {buf name body : List Byte}
    (fits : (httpPostPacket name body).length < buf.length) :
    buildHttpPostPacket buf name body =
      .ok (httpPostPacket name body ++
          0 :: buf.drop ((httpPostPacket name body).length + 1),
        (httpPostPacket name body).length) :=
  printSequence_start fits

theorem buildCallbackPacket_eq
    {buf name body : List Byte} {contentLen : Int}
    (fits : (callbackPacket body contentLen name).length < buf.length) :
    buildCallbackPacket buf body contentLen name =
      .ok (callbackPacket body contentLen name ++
          0 :: buf.drop ((callbackPacket body contentLen name).length + 1),
        (callbackPacket body contentLen name).length) :=
  printSequence_start fits

/-- `check_if_post` recovers the name and the content from a packet. -/
def Recovers (data name body : List Byte) : Prop :=
  checkIfPost data (List.replicate 128 0) (List.replicate 512 0) =
    .ok (0, zeroPadded 128 name, zeroPadded 512 body)

/--
`check_if_post` inverts `build_http_post_packet` and `build_callback_packet`:
from the buffer that either leaves, and from the bytes of the packet received
into a zeroed buffer, it extracts exactly the file name and the content.
-/
theorem check_if_post_inverts_encoders
    (name body buf : List Byte)
    (nameFree : 0 ∉ name)
    (nameShort : name.length < 128)
    (noBrace : char '{' ∉ name)
    (noHttp : ¬ ascii " HTTP" <:+: char ' ' :: name)
    (bodyFree : 0 ∉ body)
    (bodyShort : body.length < 512)
    (opened : body.head? = some (char '{'))
    (closed : body.getLast? = some (char '}'))
    (size : buf.length = 1024) :
    ((httpPostPacket name body).length ≤ 1023 →
      ∃ data length,
        buildHttpPostPacket buf name body = .ok (data, length) ∧
        Recovers data name body ∧
        Recovers (zeroPadded 1024 (data.take length)) name body) ∧
    ((callbackPacket body body.length name).length ≤ 1023 →
      ∃ data length,
        buildCallbackPacket buf body body.length name = .ok (data, length) ∧
        Recovers data name body ∧
        Recovers (zeroPadded 1024 (data.take length)) name body) := by
  have delimited : Delimited body := ⟨bodyFree, opened, closed⟩
  constructor
  · intro fits
    have neutral := neutral_httpPostMiddle body
    have decoded (rest : List Byte) :
        Recovers (httpPostPacket name body ++ 0 :: rest) name body := by
      rw [httpPostPacket_eq_frame] at fits ⊢
      exact checkZeroed_frame nameFree noBrace noHttp nameShort.le neutral
        delimited bodyShort.le neutral_crlf (by omega) rest
    refine ⟨_, _, buildHttpPostPacket_eq (by omega), decoded _, ?_⟩
    rw [List.take_left, zeroPadded_eq_append_nul (by omega)]
    exact decoded _
  · intro fits
    have neutral := neutral_callbackMiddle body.length
    have decoded (rest : List Byte) :
        Recovers (callbackPacket body body.length name ++ 0 :: rest)
          name body := by
      rw [callbackPacket_eq_frame] at fits ⊢
      exact checkZeroed_frame nameFree noBrace noHttp nameShort.le neutral
        delimited bodyShort.le neutral_nil (by omega) rest
    refine ⟨_, _, buildCallbackPacket_eq (by omega), decoded _, ?_⟩
    rw [List.take_left, zeroPadded_eq_append_nul (by omega)]
    exact decoded _

theorem check_if_post_inverts_encoders_small :
    ((httpPostPacket (ascii "/a") (ascii "{}")).length ≤ 1023 ∧
      ∃ data length,
        buildHttpPostPacket (List.replicate 1024 0) (ascii "/a")
          (ascii "{}") = .ok (data, length) ∧
        Recovers data (ascii "/a") (ascii "{}") ∧
        Recovers (zeroPadded 1024 (data.take length)) (ascii "/a")
          (ascii "{}")) ∧
    ((callbackPacket (ascii "{}") 2 (ascii "/a")).length ≤ 1023 ∧
      ∃ data length,
        buildCallbackPacket (List.replicate 1024 0) (ascii "{}") 2
          (ascii "/a") = .ok (data, length) ∧
        Recovers data (ascii "/a") (ascii "{}") ∧
        Recovers (zeroPadded 1024 (data.take length)) (ascii "/a")
          (ascii "{}")) := by
  have both :=
    check_if_post_inverts_encoders (ascii "/a") (ascii "{}")
      (List.replicate 1024 0) (by decide) (by decide) (by decide)
      (by decide) (by decide) (by decide) (by decide) (by decide)
      List.length_replicate
  have client : (httpPostPacket (ascii "/a") (ascii "{}")).length ≤ 1023 := by
    decide
  have server :
      (callbackPacket (ascii "{}") 2 (ascii "/a")).length ≤ 1023 := by
    decide
  exact ⟨⟨client, both.1 client⟩, server, both.2 server⟩

end CommonCode.Http
