import CommonCode.Json.Builders

/-!
# Messages built into a buffer that is used again

The builders copy their text without a terminator.  Read as a string, the
buffer then holds the text only if the byte behind it happens to be zero: what
an earlier, longer message has left there is read as a part of the new one.
-/

namespace CommonCode.Json

open CommonCode.Lib.Bits
open CommonCode.Lib.CString

/-! ## Printed texts are strings -/

section Printing

theorem nulFree_escape :
    ∀ token : Byte, token ≠ 0 → 0 ∉ escape token := by
  decide

theorem nulFree_printStringPtr {text : List Byte} (nulFree : 0 ∉ text) :
    0 ∉ printStringPtr text := by
  rw [printStringPtr_eq nulFree, List.mem_cons, List.mem_append, not_or,
    not_or]
  refine ⟨by decide, ?_, by decide⟩
  rw [List.mem_flatMap]
  rintro ⟨token, member, zero⟩
  refine nulFree_escape token ?_ zero
  rintro rfl
  exact nulFree member

theorem nulFree_format {fmt : Bool} {space : List Byte}
    (nulFree : 0 ∉ space) : 0 ∉ format fmt space := by
  cases fmt with
  | false => exact List.not_mem_nil
  | true => exact nulFree

theorem nulFree_tabs (count : Nat) : 0 ∉ tabs count := by
  intro zero
  have same := List.eq_of_mem_replicate zero
  revert same
  decide

theorem nulFree_composeItems (fmt : Bool) {entries : List (List Byte)}
    (nulFree : ∀ entry ∈ entries, 0 ∉ entry) :
    0 ∉ composeItems fmt entries := by
  induction entries with
  | nil => exact List.not_mem_nil
  | cons entry entries induction =>
      rw [List.forall_mem_cons] at nulFree
      have separator : 0 ∉ char ',' :: format fmt [char ' '] :=
        List.not_mem_cons_of_ne_of_not_mem (by decide)
          (nulFree_format (by decide))
      rw [composeItems]
      refine List.not_mem_append (List.not_mem_append nulFree.1 ?_)
        (induction nulFree.2)
      split
      · exact List.not_mem_nil
      · exact separator

theorem nulFree_printArray (fmt : Bool) {entries : List (List Byte)}
    (nulFree : ∀ entry ∈ entries, 0 ∉ entry) :
    0 ∉ printArray fmt entries := by
  rw [printArray]
  split
  · decide
  · rw [List.mem_cons, List.mem_append, not_or, not_or]
    exact ⟨by decide, nulFree_composeItems fmt nulFree, by decide⟩

theorem nulFree_composeMembers (fmt : Bool) (depth : Nat)
    {entries : List (List Byte × List Byte)}
    (names : ∀ entry ∈ entries, 0 ∉ entry.1)
    (values : ∀ entry ∈ entries, 0 ∉ entry.2) :
    0 ∉ composeMembers fmt depth entries := by
  induction entries with
  | nil => exact List.not_mem_nil
  | cons entry entries induction =>
      rw [List.forall_mem_cons] at names values
      have indent : 0 ∉ format fmt (tabs depth) :=
        nulFree_format (nulFree_tabs depth)
      have separator : 0 ∉ char ':' :: format fmt [char '\t'] :=
        List.not_mem_cons_of_ne_of_not_mem (by decide)
          (nulFree_format (by decide))
      have comma :
          0 ∉ if entries = [] then [] else [char ','] := by
        split
        · exact List.not_mem_nil
        · decide
      have feed : 0 ∉ format fmt [char '\n'] := nulFree_format (by decide)
      exact List.not_mem_append
        (List.not_mem_append
          (List.not_mem_append
            (List.not_mem_append
              (List.not_mem_append
                (List.not_mem_append indent names.1) separator)
              values.1)
            comma)
          feed)
        (induction names.2 values.2)

theorem nulFree_printObject (fmt : Bool) (depth : Nat)
    {entries : List (List Byte × List Byte)}
    (names : ∀ entry ∈ entries, 0 ∉ entry.1)
    (values : ∀ entry ∈ entries, 0 ∉ entry.2) :
    0 ∉ printObject fmt depth entries := by
  rw [printObject]
  split
  · have feed : 0 ∉ char '\n' :: tabs (depth - 1) :=
      List.not_mem_cons_of_ne_of_not_mem (by decide) (nulFree_tabs _)
    exact List.not_mem_append
      (List.not_mem_cons_of_ne_of_not_mem (by decide) (nulFree_format feed))
      (by decide)
  · have opening : 0 ∉ char '{' :: format fmt [char '\n'] :=
      List.not_mem_cons_of_ne_of_not_mem (by decide)
        (nulFree_format (by decide))
    exact List.not_mem_append
      (List.not_mem_append
        (List.not_mem_append opening
          (nulFree_composeMembers fmt (depth + 1) names values))
        (nulFree_format (nulFree_tabs depth)))
      (by decide)

variable {Double : Type} {arithmetic : Arithmetic Double}

/-- The text of a tree is a string. -/
theorem Printable.nulFree (exact : arithmetic.Exact) {tree : CJson Double}
    (printable : Printable arithmetic tree) (fmt : Bool) (depth : Nat) :
    0 ∉ printValue arithmetic fmt depth tree := by
  induction printable generalizing depth with
  | null => exact (by decide : 0 ∉ ascii "null")
  | bool value =>
      cases value with
      | false => exact (by decide : 0 ∉ ascii "false")
      | true => exact (by decide : 0 ∉ ascii "true")
  | number valueint =>
      rw [printValue, printNumber_ofInt exact]
      exact not_mem_formatInt (by decide) (by decide) _
  | string nulFree => exact nulFree_printStringPtr nulFree
  | array items induction =>
      rw [printValue, printItems_eq_map]
      refine nulFree_printArray fmt ?_
      intro entry member
      obtain ⟨item, there, rfl⟩ := List.mem_map.mp member
      exact induction item there (depth + 1)
  | object names values induction =>
      rw [printValue, printMembers_eq_map]
      refine nulFree_printObject fmt depth ?_ ?_
      · intro entry member
        obtain ⟨inside, there, rfl⟩ := List.mem_map.mp member
        exact nulFree_printStringPtr (names inside there)
      · intro entry member
        obtain ⟨inside, there, rfl⟩ := List.mem_map.mp member
        exact induction inside there (depth + 1)

end Printing

/-! ## Texts over older texts -/

/-- The zeros of a buffer that a text leaves are those behind it. -/
theorem getElem?_over_iff {text : List Byte} (nulFree : 0 ∉ text)
    (buf : List Byte) (i : Nat) :
    (text ++ buf.drop text.length)[i]? = some 0 ↔
      text.length ≤ i ∧ buf[i]? = some 0 := by
  rcases Nat.lt_or_ge i text.length with inside | behind
  · rw [List.getElem?_append_left inside]
    constructor
    · intro zero
      exact absurd (List.mem_of_getElem? zero) nulFree
    · rintro ⟨outside, -⟩
      omega
  · rw [List.getElem?_append_right behind, List.getElem?_drop,
      Nat.add_sub_cancel' behind, and_iff_right behind]

/-! ## Sequences of messages -/

section Messages

variable {Double : Type} (arithmetic : Arithmetic Double)

/-- The text that `cJSON_Print` returns for a message. -/
def Message.text (message : Message) : List Byte :=
  cJsonPrint arithmetic (message.tree arithmetic)

/-- Messages built one after the other into a buffer, read after each call. -/
def buildAll (buf : List Byte) : List Message → Except Fault (List (List Byte))
  | [] => .ok []
  | message :: messages => do
      let (_, buf) ← message.build arithmetic buf
      let text ← cString buf
      let texts ← buildAll buf messages
      return text :: texts

/--
The buffer can be used again: each message reads as its own text, which is what
a call with a fresh zeroed buffer leaves.
-/
def Reusable (buf : List Byte) (messages : List Message) : Prop :=
  buildAll arithmetic buf messages =
      .ok (messages.map (Message.text arithmetic)) ∧
    ∀ message ∈ messages,
      buildAll arithmetic (List.replicate buf.length 0) [message] =
        .ok [message.text arithmetic]

variable {arithmetic}

theorem nulFree_text (exact : arithmetic.Exact) (message : Message) :
    0 ∉ message.text arithmetic :=
  (printable_tree message).nulFree exact true 0

theorem build_eq_ok (exact : arithmetic.Exact) (message : Message)
    {buf : List Byte}
    (fits : (message.text arithmetic).length ≤ buf.length) :
    message.build arithmetic buf =
      .ok (0, message.text arithmetic ++
        buf.drop (message.text arithmetic).length) := by
  rw [build_eq_leave exact, leave, ← Message.text, memcpy_eq_ok fits]
  rfl

/-- One message in front of others. -/
theorem buildAll_cons_iff (exact : arithmetic.Exact) (message : Message)
    (messages : List Message) {buf : List Byte} {texts : List (List Byte)}
    (fits : (message.text arithmetic).length ≤ buf.length) :
    buildAll arithmetic buf (message :: messages) =
        .ok (message.text arithmetic :: texts) ↔
      buf[(message.text arithmetic).length]? = some 0 ∧
        buildAll arithmetic
          (message.text arithmetic ++
            buf.drop (message.text arithmetic).length) messages =
          .ok texts := by
  have string :=
    cString_append_iff (nulFree_text exact message)
      (buf.drop (message.text arithmetic).length)
  rw [List.head?_drop] at string
  rw [← string, buildAll, build_eq_ok exact message fits]
  constructor
  · intro built
    obtain ⟨_, first, behind⟩ := bind_eq_ok_iff.mp built
    cases first
    obtain ⟨text, read, others⟩ := bind_eq_ok_iff.mp behind
    obtain ⟨later, rest, result⟩ := bind_eq_ok_iff.mp others
    cases result
    exact ⟨read, rest⟩
  · rintro ⟨read, rest⟩
    refine bind_eq_ok_iff.mpr ⟨_, rfl, ?_⟩
    refine bind_eq_ok_iff.mpr ⟨_, read, ?_⟩
    exact bind_eq_ok_iff.mpr ⟨_, rest, rfl⟩

/--
All messages read as their own texts exactly if the byte behind each text is
zero in the first buffer and no message is shorter than an earlier one.
-/
theorem buildAll_iff (exact : arithmetic.Exact) {buf : List Byte}
    {messages : List Message}
    (large : ∀ message ∈ messages,
      (message.text arithmetic).length < buf.length) :
    buildAll arithmetic buf messages =
        .ok (messages.map (Message.text arithmetic)) ↔
      (∀ message ∈ messages,
        buf[(message.text arithmetic).length]? = some 0) ∧
      messages.Pairwise fun earlier later =>
        (earlier.text arithmetic).length ≤
          (later.text arithmetic).length := by
  induction messages generalizing buf with
  | nil => simp [buildAll]
  | cons message messages induction =>
      rw [List.forall_mem_cons] at large
      have fits := Nat.le_of_lt large.1
      have same : (message.text arithmetic ++
          buf.drop (message.text arithmetic).length).length =
            buf.length := by
        rw [List.length_append, List.length_drop]
        omega
      rw [List.map_cons, buildAll_cons_iff exact message messages fits,
        induction (by rw [same]; exact large.2), List.forall_mem_cons,
        List.pairwise_cons]
      simp only [getElem?_over_iff (nulFree_text exact message)]
      constructor
      · rintro ⟨zero, others, ordered⟩
        exact ⟨⟨zero, fun later member => (others later member).2⟩,
          fun later member => (others later member).1, ordered⟩
      · rintro ⟨⟨zero, others⟩, first, ordered⟩
        exact ⟨zero,
          fun later member => ⟨first later member, others later member⟩,
          ordered⟩

/-- A fresh zeroed buffer always serves for one message. -/
theorem buildAll_zeros (exact : arithmetic.Exact) (message : Message)
    {size : Nat} (large : (message.text arithmetic).length < size) :
    buildAll arithmetic (List.replicate size 0) [message] =
      .ok [message.text arithmetic] := by
  refine (buildAll_iff exact ?_).mpr ⟨?_, List.pairwise_singleton ..⟩
  · intro other member
    rw [List.mem_singleton.mp member, List.length_replicate]
    exact large
  · intro other member
    rw [List.mem_singleton.mp member, List.getElem?_replicate, if_pos large]

/--
A large enough buffer can be used for a sequence of messages exactly if the
byte behind each text is zero in its first content and no message is shorter
than an earlier one.
-/
theorem reusable_iff (exact : arithmetic.Exact) {buf : List Byte}
    {messages : List Message}
    (large : ∀ message ∈ messages,
      (message.text arithmetic).length < buf.length) :
    Reusable arithmetic buf messages ↔
      (∀ message ∈ messages,
        buf[(message.text arithmetic).length]? = some 0) ∧
      messages.Pairwise fun earlier later =>
        (earlier.text arithmetic).length ≤
          (later.text arithmetic).length := by
  rw [Reusable, buildAll_iff exact large, and_iff_left_iff_imp]
  intro _ message member
  exact buildAll_zeros exact message (large message member)

/-- A message of `cloud_edge_terminal_to_platform`. -/
def terminalMessage (msgType : CText) : Message :=
  .terminalToPlatform msgType 0 0 0

/-- A short message and then a longer one. -/
theorem reusable_growing :
    Reusable rational (List.replicate 200 0)
      [terminalMessage ⟨ascii "a", by decide⟩,
        terminalMessage ⟨ascii "bb", by decide⟩] :=
  (reusable_iff exact_rational (by decide +kernel)).mpr
    ⟨by decide +kernel, by decide +kernel⟩

/-- A long message and then a shorter one, in a buffer zeroed before. -/
theorem not_reusable_shrinking :
    ¬ Reusable rational (List.replicate 200 0)
      [terminalMessage ⟨ascii "bb", by decide⟩,
        terminalMessage ⟨ascii "a", by decide⟩] := by
  rintro ⟨built, -⟩
  have ordered := ((buildAll_iff exact_rational (by decide +kernel)).mp built).2
  revert ordered
  decide +kernel

end Messages

end CommonCode.Json
