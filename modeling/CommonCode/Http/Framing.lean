import CommonCode.Http.Packet
import CommonCode.Lib.Numerals

/-!
# Content-Length and the bytes behind the headers

A receiver of a packet splits it at the first empty line and reads as many
bytes of content as the header `Content-Length` says.  The packets of
`build_callback_packet` are framed that way.  Those of
`build_http_post_packet` never are: the two line breaks behind the content are
not counted.
-/

namespace CommonCode.Http

open CommonCode.Lib.Bits
open CommonCode.Lib.CString
open CommonCode.Lib.Numerals (digitsValue_decimal)

/-! ## Splitting a packet -/

/-- A line without the carriage return in front of its line feed. -/
def stripReturn (line : List Byte) : List Byte :=
  if line.getLast? = some (char '\r') then line.dropLast else line

/--
The header lines of a packet and the bytes behind its first empty line; `line`
is the part of the current line that was read.
-/
def splitHeaders (line : List Byte) :
    List Byte → Option (List (List Byte) × List Byte)
  | [] => none
  | byte :: rest =>
      if byte = char '\n' then
        if stripReturn line = [] then some ([], rest)
        else
          (splitHeaders [] rest).map fun split =>
            (stripReturn line :: split.1, split.2)
      else splitHeaders (line ++ [byte]) rest

/-- The value of a decimal number. -/
def decimalValue (text : List Byte) : Int :=
  if text.head? = some (char '-') then
    -(digitsValue 0 (text.tail.map fun byte => byte.toNat - 48) : Int)
  else digitsValue 0 (text.map fun byte => byte.toNat - 48)

/-- The value of the header `Content-Length`. -/
def contentLength (headers : List (List Byte)) : Option Int :=
  (headers.find? fun line => (ascii "Content-Length: ").isPrefixOf line).map
    fun line => decimalValue (line.drop 16)

/--
A buffer holds a packet of the returned length, and its header
`Content-Length` says how many bytes follow the headers.
-/
def Framed (data : List Byte) (length : Nat) : Prop :=
  ∃ packet headers body,
    cString data = .ok packet ∧ length = packet.length ∧
    splitHeaders [] packet = some (headers, body) ∧
    contentLength headers = some (body.length : Int)

/-! ## Lines -/

/-- A text without line feed is a part of one line. -/
theorem splitHeaders_append
    {text : List Byte} (unbroken : char '\n' ∉ text)
    (line rest : List Byte) :
    splitHeaders line (text ++ rest) = splitHeaders (line ++ text) rest := by
  induction text generalizing line with
  | nil => simp
  | cons byte text induction =>
      have other : byte ≠ char '\n' := by
        rintro rfl
        exact unbroken (List.mem_cons_self ..)
      have tail : char '\n' ∉ text := fun member =>
        unbroken (List.mem_cons_of_mem _ member)
      rw [List.cons_append, splitHeaders, if_neg other, induction tail,
        List.append_assoc, List.singleton_append]

/-- One header line. -/
theorem splitHeaders_line
    {text : List Byte} (unbroken : char '\n' ∉ text)
    (occupied : stripReturn text ≠ []) (rest : List Byte) :
    splitHeaders [] (text ++ char '\n' :: rest) =
      (splitHeaders [] rest).map fun split =>
        (stripReturn text :: split.1, split.2) := by
  rw [splitHeaders_append unbroken, List.nil_append, splitHeaders,
    if_pos rfl, if_neg occupied]

/-- The empty line. -/
theorem splitHeaders_empty
    {text : List Byte} (unbroken : char '\n' ∉ text)
    (empty : stripReturn text = []) (rest : List Byte) :
    splitHeaders [] (text ++ char '\n' :: rest) = some ([], rest) := by
  rw [splitHeaders_append unbroken, List.nil_append, splitHeaders,
    if_pos rfl, if_pos empty]

/-- A printed number reads back. -/
theorem decimalValue_formatInt (value : Int) :
    decimalValue (formatInt value) = value := by
  rw [formatInt]
  by_cases negative : value < 0
  · rw [if_pos negative, decimalValue, List.head?_cons, if_pos rfl,
      List.tail_cons, digitsValue_decimal]
    omega
  · have unsigned : (decimal value.toNat).head? ≠ some (char '-') := by
      intro sign
      have digit := mem_decimal (List.mem_of_head? sign)
      exact absurd digit (by decide)
    rw [if_neg negative, decimalValue, if_neg unsigned, digitsValue_decimal]
    omega

/-! ## The packets -/

/-- What may stand between a line and its line feed. -/
def LineEnd (ending : List Byte) : Prop :=
  ending = [] ∨ ending = [char '\r']

theorem LineEnd.unbroken {ending : List Byte} (ends : LineEnd ending) :
    char '\n' ∉ ending := by
  rcases ends with rfl | rfl <;> decide

/-- A line that does not itself end in a carriage return. -/
theorem stripReturn_line
    {ending : List Byte} (ends : LineEnd ending) (front : List Byte)
    {back : List Byte} (nonempty : back ≠ []) (plain : char '\r' ∉ back) :
    stripReturn (front ++ back ++ ending) = front ++ back := by
  rcases ends with rfl | rfl
  · have last : (front ++ back).getLast? ≠ some (char '\r') := by
      rw [List.getLast?_append_of_ne_nil _ nonempty]
      intro final
      exact plain (List.mem_of_getLast? final)
    rw [List.append_nil, stripReturn, if_neg last]
  · rw [stripReturn, List.getLast?_concat, if_pos rfl, List.dropLast_concat]

theorem stripReturn_lineEnd {ending : List Byte} (ends : LineEnd ending) :
    stripReturn ending = [] := by
  rcases ends with rfl | rfl <;> decide

/-- The header lines of both encoders. -/
def headerLines (name host : List Byte) (value : Int) : List (List Byte) :=
  [ascii "POST " ++ name ++ ascii " HTTP/1.1", ascii "HOST: " ++ host,
    ascii "Content-Type: application/json",
    ascii "Content-Length: " ++ formatInt value]

/-- Lines with their line ends. -/
def joinLines (ending : List Byte) (lines : List (List Byte))
    (rest : List Byte) : List Byte :=
  lines.foldr (fun line rest => line ++ ending ++ char '\n' :: rest) rest

/-- The headers of a packet are split off its content. -/
theorem splitHeaders_joinLines
    {ending : List Byte} (ends : LineEnd ending) {lines : List (List Byte)}
    (unbroken : ∀ line ∈ lines, char '\n' ∉ line)
    (stripped : ∀ line ∈ lines,
      line ≠ [] ∧ stripReturn (line ++ ending) = line)
    (body : List Byte) :
    splitHeaders [] (joinLines ending lines (ending ++ char '\n' :: body)) =
      some (lines, body) := by
  induction lines with
  | nil =>
      exact splitHeaders_empty ends.unbroken (stripReturn_lineEnd ends) body
  | cons line lines induction =>
      have rest :=
        induction (fun line member => unbroken line (List.mem_cons_of_mem _ member))
          (fun line member => stripped line (List.mem_cons_of_mem _ member))
      have here := stripped line (List.mem_cons_self ..)
      have whole : char '\n' ∉ line ++ ending := by
        intro member
        rcases List.mem_append.mp member with inside | inside
        · exact unbroken line (List.mem_cons_self ..) inside
        · exact ends.unbroken inside
      have occupied : stripReturn (line ++ ending) ≠ [] := by
        rw [here.2]
        exact here.1
      change splitHeaders []
        (line ++ ending ++ char '\n' ::
          joinLines ending lines (ending ++ char '\n' :: body)) = _
      rw [splitHeaders_line whole occupied, rest, here.2]
      rfl

theorem headerLines_unbroken
    {name host : List Byte} (nameLine : char '\n' ∉ name)
    (hostLine : char '\n' ∉ host) (value : Int) :
    ∀ line ∈ headerLines name host value, char '\n' ∉ line := by
  have number : char '\n' ∉ formatInt value :=
    not_mem_formatInt (by decide) (by decide) value
  have literals :
      char '\n' ∉ ascii "POST " ∧ char '\n' ∉ ascii " HTTP/1.1" ∧
        char '\n' ∉ ascii "HOST: " ∧
        char '\n' ∉ ascii "Content-Type: application/json" ∧
        char '\n' ∉ ascii "Content-Length: " := by
    decide
  simp only [headerLines, List.mem_cons, List.not_mem_nil, or_false,
    forall_eq_or_imp, forall_eq, List.mem_append, not_or]
  tauto

theorem headerLines_stripped
    {ending : List Byte} (ends : LineEnd ending) (name : List Byte)
    {host : List Byte} (occupied : host ≠ []) (plain : char '\r' ∉ host)
    (value : Int) :
    ∀ line ∈ headerLines name host value,
      line ≠ [] ∧ stripReturn (line ++ ending) = line := by
  have number : char '\r' ∉ formatInt value :=
    not_mem_formatInt (by decide) (by decide) value
  have version :
      ascii " HTTP/1.1" ≠ [] ∧ char '\r' ∉ ascii " HTTP/1.1" := by
    decide
  have request :=
    stripReturn_line ends (ascii "POST " ++ name) version.1 version.2
  have content : ascii "Content-Type: application/json" ≠ [] ∧
      char '\r' ∉ ascii "Content-Type: application/json" := by
    decide
  have type := stripReturn_line ends [] content.1 content.2
  simp only [headerLines, List.mem_cons, List.not_mem_nil, or_false,
    forall_eq_or_imp, forall_eq]
  refine ⟨⟨?_, request⟩, ⟨?_, ?_⟩, ⟨?_, type⟩, ?_, ?_⟩
  · simp [ascii]
  · simp [ascii]
  · exact stripReturn_line ends _ occupied plain
  · decide
  · simp [ascii]
  · exact stripReturn_line ends _ (formatInt_ne_nil value) number

/-- The header `Content-Length` is the last of the four lines. -/
theorem contentLength_headerLines (name host : List Byte) (value : Int) :
    contentLength (headerLines name host value) = some value := by
  have request :
      ¬ ascii "Content-Length: " <+:
        ascii "POST " ++ name ++ ascii " HTTP/1.1" := by
    rintro ⟨rest, equal⟩
    have first := congrArg List.head? equal
    simp [ascii] at first
  have hostLine :
      ¬ ascii "Content-Length: " <+: ascii "HOST: " ++ host := by
    rintro ⟨rest, equal⟩
    have first := congrArg List.head? equal
    simp [ascii] at first
  have type :
      ¬ ascii "Content-Length: " <+:
        ascii "Content-Type: application/json" := by
    decide
  have size : (ascii "Content-Length: ").length = 16 := by decide
  simp only [← List.isPrefixOf_iff_prefix] at request hostLine type
  have found :
      (ascii "Content-Length: ").isPrefixOf
        (ascii "Content-Length: " ++ formatInt value) = true := by
    rw [List.isPrefixOf_iff_prefix]
    exact List.prefix_append ..
  rw [contentLength, headerLines, List.find?_cons_of_neg request,
    List.find?_cons_of_neg hostLine, List.find?_cons_of_neg type,
    List.find?_cons_of_pos found, Option.map_some,
    List.drop_left' size, decimalValue_formatInt]

/-- The packet of the client as lines. -/
theorem httpPostPacket_eq_joinLines (filename content : List Byte) :
    httpPostPacket filename content =
      joinLines []
        (headerLines filename (ascii "192.168.3.131")
          (BitVec.ofNat 32 content.length).toInt)
        ([] ++ char '\n' :: (content ++ ascii "\r\n\r\n")) := by
  simp [httpPostPacket, httpPostTexts, joinLines, headerLines, ascii, char]

/-- The packet of the server as lines. -/
theorem callbackPacket_eq_joinLines
    (content : List Byte) (contentLen : Int) (fileName : List Byte) :
    callbackPacket content contentLen fileName =
      joinLines [char '\r']
        (headerLines fileName (ascii "10.106.249.210:8080") contentLen)
        ([char '\r'] ++ char '\n' :: content) := by
  simp [callbackPacket, callbackTexts, joinLines, headerLines, ascii, char]

theorem splitHeaders_httpPostPacket
    {filename : List Byte} (nameLine : char '\n' ∉ filename)
    (content : List Byte) :
    splitHeaders [] (httpPostPacket filename content) =
      some (headerLines filename (ascii "192.168.3.131")
          (BitVec.ofNat 32 content.length).toInt,
        content ++ ascii "\r\n\r\n") := by
  rw [httpPostPacket_eq_joinLines]
  apply splitHeaders_joinLines (Or.inl rfl)
  · exact headerLines_unbroken nameLine (by decide) _
  · exact headerLines_stripped (Or.inl rfl) filename (by decide)
      (by decide) _

theorem splitHeaders_callbackPacket
    {fileName : List Byte} (nameLine : char '\n' ∉ fileName)
    (content : List Byte) (contentLen : Int) :
    splitHeaders [] (callbackPacket content contentLen fileName) =
      some (headerLines fileName (ascii "10.106.249.210:8080") contentLen,
        content) := by
  rw [callbackPacket_eq_joinLines]
  apply splitHeaders_joinLines (Or.inr rfl)
  · exact headerLines_unbroken nameLine (by decide) _
  · exact headerLines_stripped (Or.inr rfl) fileName (by decide)
      (by decide) _

/-! ## The framing of both encoders -/

theorem nulFree_httpPostPacket
    {filename content : List Byte} (nameFree : 0 ∉ filename)
    (contentFree : 0 ∉ content) :
    0 ∉ httpPostPacket filename content := by
  have literals :
      0 ∉ ascii "POST " ∧ 0 ∉ ascii " HTTP" ∧ 0 ∉ ascii "\r\n\r\n" := by
    decide
  rw [httpPostPacket_eq_frame, frame]
  simp only [List.mem_append, not_or]
  exact
    ⟨⟨⟨⟨⟨literals.1, nameFree⟩, literals.2.1⟩,
      (neutral_httpPostMiddle content).nulFree⟩, contentFree⟩, literals.2.2⟩

theorem nulFree_callbackPacket
    {content fileName : List Byte} (nameFree : 0 ∉ fileName)
    (contentFree : 0 ∉ content) (contentLen : Int) :
    0 ∉ callbackPacket content contentLen fileName := by
  have literals : 0 ∉ ascii "POST " ∧ 0 ∉ ascii " HTTP" := by
    decide
  rw [callbackPacket_eq_frame, frame]
  simp only [List.mem_append, not_or]
  exact
    ⟨⟨⟨⟨⟨literals.1, nameFree⟩, literals.2⟩,
      (neutral_callbackMiddle contentLen).nulFree⟩, contentFree⟩, by simp⟩

/-- The content of a callback is as long as its header says. -/
theorem framed_callbackPacket
    {name content : List Byte} (nameFree : 0 ∉ name)
    (nameLine : char '\n' ∉ name) (contentFree : 0 ∉ content)
    (rest : List Byte) :
    Framed (callbackPacket content content.length name ++ 0 :: rest)
      (callbackPacket content content.length name).length := by
  have string :=
    cString_append_nul
      (nulFree_callbackPacket nameFree contentFree content.length) rest
  exact
    ⟨_, _, _, string, rfl, splitHeaders_callbackPacket nameLine content _,
      contentLength_headerLines _ _ _⟩

/-- The client sends four bytes more than its header says. -/
theorem not_framed_httpPostPacket
    {name content : List Byte} (nameFree : 0 ∉ name)
    (nameLine : char '\n' ∉ name) (contentFree : 0 ∉ content)
    (rest : List Byte) (length : Nat) :
    ¬ Framed (httpPostPacket name content ++ 0 :: rest) length := by
  rintro ⟨packet, headers, body, string, -, split, announced⟩
  rw [cString_append_nul (nulFree_httpPostPacket nameFree contentFree),
    Except.ok.injEq] at string
  subst string
  rw [splitHeaders_httpPostPacket nameLine, Option.some.injEq,
    Prod.mk.injEq] at split
  obtain ⟨rfl, rfl⟩ := split
  rw [contentLength_headerLines, Option.some.injEq,
    List.length_append] at announced
  have trailer : (ascii "\r\n\r\n").length = 4 := by decide
  rw [trailer, BitVec.toInt_eq_toNat_cond, BitVec.toNat_ofNat] at announced
  split at announced <;> omega

/--
In a large enough buffer, the packet that `build_callback_packet` leaves is
framed for every file name without line breaks and every content, and the
packet that `build_http_post_packet` leaves for the same two is not.
-/
theorem callback_framed_httpPost_not
    (buf name content : List Byte) (nameFree : 0 ∉ name)
    (nameLine : char '\n' ∉ name) (contentFree : 0 ∉ content)
    (clientFits : (httpPostPacket name content).length < buf.length)
    (serverFits :
      (callbackPacket content content.length name).length < buf.length) :
    (∃ data length,
        buildCallbackPacket buf content content.length name =
          .ok (data, length) ∧ Framed data length) ∧
      ∃ data length,
        buildHttpPostPacket buf name content = .ok (data, length) ∧
          ¬ Framed data length := by
  constructor
  · exact
      ⟨_, _, buildCallbackPacket_eq serverFits,
        framed_callbackPacket nameFree nameLine contentFree _⟩
  · exact
      ⟨_, _, buildHttpPostPacket_eq clientFits,
        not_framed_httpPostPacket nameFree nameLine contentFree _ _⟩

theorem callback_framed_httpPost_not_small :
    (∃ data length,
        buildCallbackPacket (List.replicate 1024 0) (ascii "\x7b\x7d") 2
          (ascii "/a") = .ok (data, length) ∧ Framed data length) ∧
      ∃ data length,
        buildHttpPostPacket (List.replicate 1024 0) (ascii "/a")
          (ascii "\x7b\x7d") = .ok (data, length) ∧
          ¬ Framed data length :=
  callback_framed_httpPost_not (List.replicate 1024 0) (ascii "/a")
    (ascii "\x7b\x7d") (by decide +kernel) (by decide +kernel)
    (by decide +kernel) (by decide +kernel) (by decide +kernel)

/-- The packet of the client for the content of two braces. -/
theorem httpPost_not_framed_small :
    ∃ data length,
      buildHttpPostPacket (List.replicate 1024 0) (ascii "/a")
        (ascii "\x7b\x7d") = .ok (data, length) ∧
        ¬ Framed data length :=
  ⟨_, _, buildHttpPostPacket_eq (by decide +kernel),
    not_framed_httpPostPacket (by decide +kernel) (by decide +kernel)
      (by decide +kernel) _ _⟩

end CommonCode.Http
