import CommonCode.Http.Packet

/-!
# Receiving a request

The server receives into a zeroed buffer of 1024 bytes.  When the received
text has no opening brace it takes this for the header alone and receives once
more behind it.  The result below says which ways of cutting a packet into
received chunks this assembles well enough for `check_if_post`.
-/

namespace CommonCode.Http

open CommonCode.Lib.Bits
open CommonCode.Lib.CString

/-! ## The receive code -/

/-- The size of `buf` in `main`. -/
abbrev bufSize : Nat := 1024

/--
The receive code of `main` for one request, given what the calls of `recv` have
to deliver; `none` is a failure of the second call, on which the server exits.
The buffer is also printed as a string, so it has to be terminated on every
path.
-/
def receive (first : List Byte) (second : Option (List Byte)) :
    Except Fault (Option (List Byte)) := do
  let buf := zeroPadded bufSize (first.take bufSize)
  let text ← cString buf
  match strchr text (char '{') with
  | some _ => return some buf
  | none =>
      match second with
      | none => return none
      | some more =>
          let buf :=
            store buf text.length (more.take (bufSize - text.length))
          let _ ← cString buf
          return some buf

/--
The request that the server first assembles from a stream of chunks, passed to
`check_if_post`.  A stream that has ended delivers zero bytes.
-/
def checkReceived :
    List (List Byte) → Except Fault (Option (Int × List Byte × List Byte))
  | [] => return none
  | first :: rest => do
      match ← receive first (some (rest.headD [])) with
      | none => return none
      | some buf => return some (← checkZeroed buf)

/-- The bytes that the receive code takes from a stream of chunks. -/
def received : List (List Byte) → List Byte
  | [] => []
  | first :: rest =>
      if char '{' ∈ first then first else first ++ rest.headD []

theorem headD_prefix_flatten (chunks : List (List Byte)) :
    chunks.headD [] <+: chunks.flatten := by
  cases chunks with
  | nil => exact List.prefix_rfl
  | cons first rest => exact List.prefix_append ..

theorem received_prefix (chunks : List (List Byte)) :
    received chunks <+: chunks.flatten := by
  cases chunks with
  | nil => exact List.prefix_rfl
  | cons first rest =>
      rw [received, List.flatten_cons]
      split
      · exact List.prefix_append ..
      · rw [List.prefix_append_right_inj]
        exact headD_prefix_flatten rest

/-- A short stream of text is assembled without a fault. -/
theorem receive_eq
    {first more : List Byte} (nulFree : 0 ∉ first ++ more)
    (fits : (first ++ more).length < bufSize) :
    receive first (some more) =
      .ok (some (zeroPadded bufSize (received [first, more]))) := by
  have total : first.length + more.length < bufSize := by
    rwa [List.length_append] at fits
  have firstFree : 0 ∉ first := fun member =>
    nulFree (List.mem_append_left _ member)
  have whole : first.take bufSize = first :=
    List.take_of_length_le (by omega)
  simp only [receive, whole, cString_zeroPadded firstFree
    (show first.length < bufSize by omega), bind, Except.bind]
  by_cases brace : char '{' ∈ first
  · obtain ⟨position, found⟩ :
        ∃ position, strchr first (char '{') = some position := by
      rw [← Option.ne_none_iff_exists', ne_eq, strchr_eq_none_iff]
      exact fun absent => absent brace
    simp [found, received, brace, pure, Except.pure]
  · have missing : strchr first (char '{') = none :=
      (strchr_eq_none_iff ..).mpr brace
    have rest : more.take (bufSize - first.length) = more :=
      List.take_of_length_le (by omega)
    have stored := store_zeroPadded (show
      first.length + more.length ≤ bufSize by omega)
    simp [missing, rest, stored, cString_zeroPadded nulFree fits, received,
      brace, pure, Except.pure]

theorem checkReceived_eq
    {chunks : List (List Byte)} (nonempty : chunks ≠ [])
    (nulFree : 0 ∉ chunks.flatten)
    (fits : chunks.flatten.length < bufSize) :
    checkReceived chunks =
      (checkZeroed (zeroPadded bufSize (received chunks))).map some := by
  cases chunks with
  | nil => exact absurd rfl nonempty
  | cons first rest =>
      have start : first ++ rest.headD [] <+: (first :: rest).flatten := by
        rw [List.flatten_cons, List.prefix_append_right_inj]
        exact headD_prefix_flatten rest
      have free : 0 ∉ first ++ rest.headD [] := fun member =>
        nulFree (start.subset member)
      have short : (first ++ rest.headD []).length < bufSize :=
        lt_of_le_of_lt start.length_le fits
      have same :
          received [first, rest.headD []] = received (first :: rest) := rfl
      rw [checkReceived, receive_eq free short, same]
      simp only [bind, Except.bind]
      cases checkZeroed (zeroPadded bufSize (received (first :: rest))) with
      | error fault => rfl
      | ok result => rfl

/-! ## Requests that were cut off -/

/-- A request is accepted only if its text passes all three searches. -/
theorem found_of_checkIfPost_eq_zero
    {text rest fileName content name body : List Byte} (nulFree : 0 ∉ text)
    (accepted :
      checkIfPost (text ++ 0 :: rest) fileName content =
        .ok (0, name, body)) :
    ascii "POST " <+: text ∧
      (∃ tail, strstr text (ascii " HTTP") = some tail) ∧
      (∃ head, strchr text (char '{') = some head) ∧
      ∃ last, strrchr text (char '}') = some last := by
  rw [checkIfPost, cString_append_nul nulFree] at accepted
  by_cases post : strncmp (text ++ 0 :: rest) (ascii "POST ") 5 = 0
  · have literal : 0 ∉ ascii "POST " := by decide
    have start : ascii "POST " <+: text :=
      prefix_of_prefix_append_nul literal
        ((strncmp_eq_zero_iff literal _).mp post)
    simp only [if_pos post, bind, Except.bind] at accepted
    cases http : strstr text (ascii " HTTP") with
    | none => simp [http, pure, Except.pure] at accepted
    | some tail =>
        simp only [http] at accepted
        split at accepted
        · cases accepted
        · cases opening : strchr text (char '{') with
          | none => simp [opening, pure, Except.pure] at accepted
          | some head =>
              cases closing : strrchr text (char '}') with
              | none =>
                  simp [opening, closing, pure, Except.pure] at accepted
              | some last =>
                  exact ⟨start, ⟨tail, rfl⟩, ⟨head, rfl⟩, ⟨last, rfl⟩⟩
  · rw [if_neg post] at accepted
    split at accepted
    · simp [pure, Except.pure] at accepted
    · simp [pure, Except.pure] at accepted

section Core

variable {core trailer : List Byte} {tail head : Nat}

/--
A request whose text ends in a closing brace, up to a trailer without braces,
is decoded from the part up to that brace.
-/
theorem checkZeroed_core
    (inner : List Byte) (ends : core = inner ++ [char '}'])
    (coreFree : 0 ∉ core) (after : Neutral trailer)
    (post : ascii "POST " <+: core)
    (http : strstr core (ascii " HTTP") = some tail)
    (opening : strchr core (char '{') = some head)
    (bounded : (core ++ trailer).length < 2 ^ 62) (rest : List Byte)
    (result : Int × List Byte × List Byte) :
    checkZeroed (core ++ trailer ++ 0 :: rest) = .ok result ↔
      (5 ≤ tail ∧ tail - 5 ≤ fileNameSize ∧
        core.length - head ≤ contentSize) ∧
      result =
        (0, zeroPadded fileNameSize ((core.drop 5).take (tail - 5)),
          zeroPadded contentSize (core.drop head)) := by
  have free : 0 ∉ core ++ trailer := fun member =>
    (List.mem_append.mp member).elim coreFree after.nulFree
  have closing :
      strrchr (core ++ trailer) (char '}') = some (core.length - 1) := by
    rw [ends, List.append_assoc, List.singleton_append,
      strrchr_append after.noClosing]
    simp
  have positive : 0 < core.length := by
    rw [ends]
    simp
  have headBound := strchr_lt_length opening
  have tailBound := strstr_le_length http
  have nameShape :
      ((core ++ trailer).drop 5).take (tail - 5) =
        (core.drop 5).take (tail - 5) := by
    rcases Nat.lt_or_ge tail 5 with small | large
    · simp [Nat.sub_eq_zero_of_le small.le]
    · rw [List.drop_append_of_le_length (by omega),
        List.take_append_of_le_length (by rw [List.length_drop]; omega)]
  have bodyShape :
      ((core ++ trailer).drop head).take (core.length - 1 + 1 - head) =
        core.drop head := by
    rw [List.drop_append_of_le_length headBound.le,
      List.take_left' (by rw [List.length_drop]; omega)]
  rw [checkZeroed_eq_ok_iff free (post.trans (List.prefix_append ..))
    (strstr_append_left http trailer) (strchr_append_left opening trailer)
    closing bounded, nameShape, bodyShape]
  refine and_congr_left fun _ => ?_
  omega

/--
A request that is cut off in front of the closing brace is never decoded to
what the complete request is decoded to: the content of the complete request
has a brace where the other has none.
-/
theorem checkZeroed_cut
    {cut : List Byte} (inner : List Byte) (ends : core = inner ++ [char '}'])
    (coreFree : 0 ∉ core) (opening : strchr core (char '{') = some head)
    (bounded : core.length < 2 ^ 62) (start : cut <+: inner)
    (fits : core.length - head ≤ contentSize)
    (rest name : List Byte) :
    checkZeroed (cut ++ 0 :: rest) ≠
      .ok (0, name, zeroPadded contentSize (core.drop head)) := by
  intro accepted
  have shorter : cut.length ≤ inner.length := start.length_le
  have coreLength : core.length = inner.length + 1 := by
    rw [ends]
    simp
  have inCore : cut <+: core := by
    rw [ends]
    exact start.trans (List.prefix_append ..)
  have cutFree : 0 ∉ cut := fun member => coreFree (inCore.subset member)
  obtain ⟨post, ⟨tail, http⟩, ⟨head', opening'⟩, ⟨last, closing⟩⟩ :=
    found_of_checkIfPost_eq_zero cutFree accepted
  have sameHead : head' = head := by
    obtain ⟨more, rfl⟩ := inCore
    have found := strchr_append_left opening' more
    rw [opening] at found
    exact (Option.some.inj found).symm
  rw [checkZeroed_eq_ok_iff cutFree post http opening' closing (by omega),
    sameHead] at accepted
  have headBound := strchr_lt_length opening'
  have same :
      zeroPadded contentSize (core.drop head) =
        zeroPadded contentSize ((cut.drop head).take (last + 1 - head)) := by
    exact congrArg (fun result => result.2.2) accepted.2
  have brace :
      (zeroPadded contentSize (core.drop head))[inner.length - head]? =
        some (char '}') := by
    rw [zeroPadded, List.getElem?_append_left
      (by rw [List.length_drop]; omega), List.getElem?_drop, ends,
      show head + (inner.length - head) = inner.length by omega]
    simp
  have none :
      (zeroPadded contentSize
          ((cut.drop head).take (last + 1 - head)))[inner.length - head]? =
        some 0 := by
    rw [zeroPadded, List.getElem?_append_right
      (by rw [List.length_take, List.length_drop]; omega),
      List.getElem?_replicate, if_pos]
    rw [List.length_take, List.length_drop]
    omega
  rw [same, none] at brace
  exact absurd brace (by decide)

/--
A prefix of a request is decoded like the request exactly if the copies of the
request succeed and the prefix reaches the closing brace.
-/
theorem core_prefix_agrees_iff
    {cut : List Byte} (inner : List Byte) (ends : core = inner ++ [char '}'])
    (coreFree : 0 ∉ core) (after : Neutral trailer)
    (post : ascii "POST " <+: core)
    (http : strstr core (ascii " HTTP") = some tail)
    (opening : strchr core (char '{') = some head)
    (fits : (core ++ trailer).length < bufSize)
    (start : cut <+: core ++ trailer) :
    (∃ result,
      checkZeroed (zeroPadded bufSize cut) = .ok result ∧
      checkZeroed (zeroPadded bufSize (core ++ trailer)) = .ok result) ↔
      (5 ≤ tail ∧ tail - 5 ≤ fileNameSize ∧
        core.length - head ≤ contentSize) ∧
      core.length ≤ cut.length := by
  have size : bufSize = 1024 := rfl
  have cutFits : cut.length < bufSize := lt_of_le_of_lt start.length_le fits
  have total : core.length + trailer.length < bufSize := by
    rwa [List.length_append] at fits
  rw [zeroPadded_eq_append_nul cutFits, zeroPadded_eq_append_nul fits]
  simp only [checkZeroed_core inner ends coreFree after post http opening
    (show (core ++ trailer).length < 2 ^ 62 by omega)]
  rcases Nat.lt_or_ge cut.length core.length with short | long
  · have inside : cut <+: inner := by
      have inCore : cut <+: core :=
        List.prefix_of_prefix_length_le start (List.prefix_append ..) short.le
      rw [ends] at inCore short
      refine List.prefix_of_prefix_length_le inCore
        (List.prefix_append ..) ?_
      rw [List.length_append, List.length_singleton] at short
      omega
    constructor
    · rintro ⟨result, accepted, bounds, rfl⟩
      exact absurd accepted
        (checkZeroed_cut inner ends coreFree opening (by omega) inside
          bounds.2.2 _ _)
    · rintro ⟨-, reaches⟩
      exact absurd reaches (by omega)
  · obtain ⟨shorter, rfl⟩ : core <+: cut :=
      List.prefix_of_prefix_length_le (List.prefix_append ..) start long
    have neutral : Neutral shorter := by
      rw [List.prefix_append_right_inj] at start
      exact
        ⟨fun member => after.nulFree (start.subset member),
          fun member => after.noOpening (start.subset member),
          fun member => after.noClosing (start.subset member)⟩
    simp only [checkZeroed_core inner ends coreFree neutral post http opening
      (show (core ++ shorter).length < 2 ^ 62 by omega)]
    constructor
    · rintro ⟨result, ⟨bounds, -⟩, -⟩
      exact ⟨bounds, long⟩
    · rintro ⟨bounds, -⟩
      exact ⟨_, ⟨bounds, rfl⟩, bounds, rfl⟩

end Core

/-! ## Which segmentations are harmless -/

/--
The two fields of a complete client packet fit the buffers of `main`.  The
content runs from the first opening brace to the end without the two line
breaks behind it.
-/
def FitsBuffers (packet : List Byte) : Prop :=
  ∃ tail head,
    strstr packet (ascii " HTTP") = some tail ∧
    strchr packet (char '{') = some head ∧
    5 ≤ tail ∧ tail - 5 ≤ fileNameSize ∧
    packet.length - 4 - head ≤ contentSize

/-- The part of a client packet up to the end of its content. -/
def httpPostCore (name body : List Byte) : List Byte :=
  frame name (httpPostMiddle body) body []

theorem httpPostPacket_eq_core (name body : List Byte) :
    httpPostPacket name body =
      httpPostCore name body ++ ascii "\r\n\r\n" := by
  rw [httpPostPacket_eq_frame, httpPostCore]
  simp [frame]

theorem length_httpPostPacket (name body : List Byte) :
    (httpPostPacket name body).length =
      (httpPostCore name body).length + 4 := by
  have crlf : (ascii "\r\n\r\n").length = 4 := by decide
  rw [httpPostPacket_eq_core, List.length_append, crlf]

/-- The searches of `check_if_post` find what they look for in a packet. -/
theorem found_in_core {body : List Byte} (delimited : Delimited body)
    (name : List Byte) :
    (∃ tail, strstr (httpPostCore name body) (ascii " HTTP") = some tail) ∧
      ∃ head, strchr (httpPostCore name body) (char '{') = some head := by
  constructor
  · rw [← Option.ne_none_iff_exists', ne_eq, strstr_eq_none_iff, not_not]
    refine ⟨ascii "POST " ++ name, httpPostMiddle body ++ body, ?_⟩
    simp [httpPostCore, frame]
  · rw [← Option.ne_none_iff_exists', ne_eq, strchr_eq_none_iff, not_not]
    obtain ⟨inner, rfl⟩ := delimited.eq_cons
    simp [httpPostCore, frame]

theorem fitsBuffers_iff {name body : List Byte} {tail head : Nat}
    (http : strstr (httpPostCore name body) (ascii " HTTP") = some tail)
    (opening : strchr (httpPostCore name body) (char '{') = some head) :
    FitsBuffers (httpPostPacket name body) ↔
      5 ≤ tail ∧ tail - 5 ≤ fileNameSize ∧
        (httpPostCore name body).length - head ≤ contentSize := by
  rw [FitsBuffers, length_httpPostPacket, Nat.add_sub_cancel,
    httpPostPacket_eq_core, strstr_append_left http,
    strchr_append_left opening]
  constructor
  · rintro ⟨_, _, ⟨⟩, ⟨⟩, bounds⟩
    exact bounds
  · intro bounds
    exact ⟨tail, head, rfl, rfl, bounds⟩

/-- What a prefix of a packet is decoded to, compared with the packet. -/
theorem prefix_agrees_iff
    {name body cut : List Byte} (nameFree : 0 ∉ name)
    (delimited : Delimited body)
    (fits : (httpPostPacket name body).length < bufSize)
    (start : cut <+: httpPostPacket name body) :
    (∃ result,
      checkZeroed (zeroPadded bufSize cut) = .ok result ∧
      checkZeroed (zeroPadded bufSize (httpPostPacket name body)) =
        .ok result) ↔
      FitsBuffers (httpPostPacket name body) ∧
        (httpPostPacket name body).length ≤ cut.length + 4 := by
  obtain ⟨⟨tail, http⟩, ⟨head, opening⟩⟩ := found_in_core delimited name
  obtain ⟨inner, ends⟩ :
      ∃ inner, httpPostCore name body = inner ++ [char '}'] := by
    obtain ⟨inner, equation⟩ := delimited.eq_concat
    refine
      ⟨ascii "POST " ++ name ++ ascii " HTTP" ++ httpPostMiddle body ++
        inner, ?_⟩
    rw [httpPostCore, frame, List.append_nil, List.append_assoc _ inner,
      ← equation]
  have coreFree : 0 ∉ httpPostCore name body :=
    nulFree_frame nameFree (neutral_httpPostMiddle body) delimited
      neutral_nil
  rw [fitsBuffers_iff http opening, length_httpPostPacket,
    Nat.add_le_add_iff_right]
  rw [httpPostPacket_eq_core] at fits start ⊢
  exact core_prefix_agrees_iff inner ends coreFree neutral_crlf
    post_prefix_frame http opening fits start

theorem map_some_eq_ok_iff {ε α : Type}
    (computation : Except ε α) (result : α) :
    computation.map some = .ok (some result) ↔ computation = .ok result := by
  cases computation with
  | error fault => simp [Except.map]
  | ok value => simp [Except.map]

/--
For every cutting of a client packet into chunks: the server decodes what it
first assembles to the same value, file name and content as the packet in one
chunk exactly if the packet fits the buffers and the assembled part misses at
most the two line breaks at the end of the packet.
-/
theorem segmentation_independent_iff
    (name body : List Byte) (chunks : List (List Byte))
    (nameFree : 0 ∉ name)
    (bodyFree : 0 ∉ body)
    (opened : body.head? = some (char '{'))
    (closed : body.getLast? = some (char '}'))
    (fits : (httpPostPacket name body).length ≤ 1023)
    (whole : chunks.flatten = httpPostPacket name body) :
    (∃ result,
      checkReceived chunks = .ok (some result) ∧
      checkReceived [httpPostPacket name body] = .ok (some result)) ↔
      FitsBuffers (httpPostPacket name body) ∧
        (httpPostPacket name body).length ≤
          (received chunks).length + 4 := by
  have delimited : Delimited body := ⟨bodyFree, opened, closed⟩
  have free : 0 ∉ httpPostPacket name body := by
    rw [httpPostPacket_eq_frame]
    exact nulFree_frame nameFree (neutral_httpPostMiddle body) delimited
      neutral_crlf
  have short : (httpPostPacket name body).length < bufSize :=
    Nat.lt_succ_of_le fits
  have nonempty : chunks ≠ [] := by
    rintro rfl
    have positive := length_httpPostPacket name body
    rw [← whole] at positive
    simp at positive
  have brace : char '{' ∈ httpPostPacket name body := by
    obtain ⟨inner, equation⟩ := delimited.eq_cons
    rw [httpPostPacket_eq_frame, frame, equation]
    simp
  have single : received [httpPostPacket name body] =
      httpPostPacket name body := by
    rw [received, if_pos brace]
  rw [checkReceived_eq nonempty (by rwa [whole]) (by rwa [whole]),
    checkReceived_eq (by simp) (by simpa using free) (by simpa using short),
    single]
  simp only [map_some_eq_ok_iff]
  refine prefix_agrees_iff nameFree delimited short ?_
  rw [← whole]
  exact received_prefix chunks

/-- A packet that arrives as its header and its body is decoded as a whole. -/
theorem segmentation_independent_iff_two_chunks :
    ∃ result,
      checkReceived
        [(httpPostPacket (ascii "/a") (ascii "{}")).take 87,
          (httpPostPacket (ascii "/a") (ascii "{}")).drop 87] =
        .ok (some result) ∧
      checkReceived [httpPostPacket (ascii "/a") (ascii "{}")] =
        .ok (some result) := by
  refine
    (segmentation_independent_iff (ascii "/a") (ascii "{}") _ (by decide)
      (by decide) (by decide) (by decide) (by decide) (by simp)).mpr
      ⟨⟨7, 87, by decide, by decide, by decide, by decide, by decide⟩, ?_⟩
  decide

/--
A packet whose first chunk ends inside the content: the server does not receive
again, finds no closing brace and rejects the request.
-/
theorem segmentation_changes_result :
    [(httpPostPacket (ascii "/a") (ascii "{}")).take 88,
        (httpPostPacket (ascii "/a") (ascii "{}")).drop 88].flatten =
      httpPostPacket (ascii "/a") (ascii "{}") ∧
    (httpPostPacket (ascii "/a") (ascii "{}")).take 88 ≠ [] ∧
    (httpPostPacket (ascii "/a") (ascii "{}")).drop 88 ≠ [] ∧
    checkReceived
        [(httpPostPacket (ascii "/a") (ascii "{}")).take 88,
          (httpPostPacket (ascii "/a") (ascii "{}")).drop 88] =
      .ok (some (-1, zeroPadded 128 (ascii "/a"), List.replicate 512 0)) ∧
    checkReceived [httpPostPacket (ascii "/a") (ascii "{}")] =
      .ok (some (0, zeroPadded 128 (ascii "/a"),
        zeroPadded 512 (ascii "{}"))) := by
  decide +kernel

end CommonCode.Http
