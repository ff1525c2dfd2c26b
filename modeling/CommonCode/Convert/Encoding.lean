import CommonCode.Convert.Decoding

/-!
# The two encoders

`str2hex` prints each element, a signed `char`, with `%02x`.  An element with
its top bit set is extended to a negative `int` and printed with eight digits,
the first six of them `f`.  The next element overwrites all but the first two
of these; near the end of the array the digits run behind the place for the
result.  So `str2hex` agrees with `hex2str` exactly if every such element is
`0xff` and has at least three others behind it.
-/

namespace CommonCode.Convert

open CommonCode.Lib.Bits
open CommonCode.Lib.CString

/-! ## One element -/

/-- The lower-case form of a character. -/
def toLower (c : Byte) : Byte :=
  if 65 ≤ c.toNat ∧ c.toNat ≤ 90 then c + 32 else c

/-- The text that `str2hex` prints for an element. -/
def printed (c : Byte) : List Byte := format02x (c.signExtend 32)

/-- The element is negative as a `char`. -/
abbrev Negative (c : Byte) : Prop := 128 ≤ c.toNat

theorem length_printed :
    ∀ c : Byte, (printed c).length = if Negative c then 8 else 2 := by
  decide

/-- The first two digits are the lower-case digits of the byte. -/
theorem printed_take_two_iff :
    ∀ c : Byte,
      (printed c).take 2 = (upperPair c).map toLower ↔
        (Negative c → c = 0xff) := by
  decide

theorem length_printed_take (c : Byte) : ((printed c).take 2).length = 2 := by
  rw [List.length_take, length_printed]
  split
  · rfl
  · rfl

/-! ## The loop -/

/-- The loop reaches its end exactly if every print fits. -/
theorem exists_str2hexLoop_iff {src dest : List Byte} {j : Nat} :
    (∃ step, str2hexLoop src j dest = .ok step) ↔
      ∀ i c, src[i]? = some c →
        j + 2 * i + (printed c).length + 1 ≤ dest.length := by
  induction src generalizing j dest with
  | nil => simp [str2hexLoop]
  | cons c src induction =>
      rw [str2hexLoop]
      by_cases fits : j + (printed c).length + 1 ≤ dest.length
      · have print :
            sprintf dest j (format02x (c.signExtend 32)) =
              .ok (store dest j (printed c ++ [0])) := if_pos fits
        have size :
            (store dest j (printed c ++ [0])).length = dest.length := by
          refine length_store ?_
          rw [List.length_append, List.length_singleton]
          omega
        rw [print]
        simp only [bind, Except.bind]
        rw [induction, size]
        constructor
        · intro later i other found
          cases i with
          | zero =>
              cases found
              omega
          | succ i =>
              have bound := later i other found
              omega
        · intro all i other found
          have bound := all (i + 1) other found
          omega
      · have print :
            sprintf dest j (format02x (c.signExtend 32)) =
              .error .outOfBounds := if_neg fits
        rw [print]
        simp only [bind, Except.bind]
        constructor
        · rintro ⟨step, impossible⟩
          cases impossible
        · intro all
          exact absurd (all 0 c rfl) (by omega)

/-- What a loop that reaches its end leaves in front of `j`. -/
theorem str2hexLoop_result
    {src dest after : List Byte} {j next : Nat}
    (inside : j ≤ dest.length)
    (run : str2hexLoop src j dest = .ok (after, next)) :
    next = j + 2 * src.length ∧ after.length = dest.length ∧
      after.take next =
        dest.take j ++ src.flatMap fun c => (printed c).take 2 := by
  induction src generalizing j dest with
  | nil =>
      cases run
      simp
  | cons c src induction =>
      rw [str2hexLoop, bind_eq_ok_iff] at run
      obtain ⟨middle, print, run⟩ := run
      rw [← printed, sprintf] at print
      split at print
      · next fits =>
        cases print
        have two := length_printed_take c
        have long : 2 ≤ (printed c).length := by
          rw [List.length_take] at two
          omega
        have start : (dest.take j).length = j := by
          rw [List.length_take]
          omega
        have size :
            (store dest j (printed c ++ [0])).length = dest.length := by
          refine length_store ?_
          rw [List.length_append, List.length_singleton]
          exact fits
        have taken :
            (store dest j (printed c ++ [0])).take (j + 2) =
              dest.take j ++ (printed c).take 2 := by
          rw [store, List.append_assoc, List.take_append, start,
            List.take_of_length_le (by omega), Nat.add_sub_cancel_left,
            List.append_assoc, List.take_append_of_le_length long]
        have bound : j + 2 ≤ dest.length := by omega
        obtain ⟨position, length, bytes⟩ :=
          induction (by rw [size]; exact bound) run
        refine ⟨?_, length.trans size, ?_⟩
        · rw [position, List.length_cons]
          omega
        · rw [bytes, taken, List.flatMap_cons, List.append_assoc]
      · cases print

/-- A loop that stays inside an array leaves what is behind it alone. -/
theorem str2hexLoop_append
    {src dest after : List Byte} {j next : Nat}
    (run : str2hexLoop src j dest = .ok (after, next))
    (beyond : List Byte) :
    str2hexLoop src j (dest ++ beyond) = .ok (after ++ beyond, next) := by
  induction src generalizing j dest with
  | nil =>
      cases run
      rfl
  | cons c src induction =>
      rw [str2hexLoop, bind_eq_ok_iff] at run
      obtain ⟨middle, print, run⟩ := run
      rw [sprintf] at print
      split at print
      · next fits =>
        cases print
        have whole :=
          @store_middle [] dest beyond (format02x (c.signExtend 32) ++ [0]) j
            (by
              rw [List.length_append, List.length_singleton]
              exact fits)
        rw [List.nil_append, List.length_nil, Nat.zero_add, List.nil_append]
          at whole
        rw [str2hexLoop, sprintf, if_pos (by rw [List.length_append]; omega),
          whole]
        exact induction run
      · cases print

/-! ## The whole array -/

/-- The elements that `str2hex` prints right and inside the place for it. -/
def Printable (src : List Byte) : Prop :=
  ∀ i c, src[i]? = some c → Negative c → c = 0xff ∧ i + 4 ≤ src.length

/-- The loop fits the smallest array exactly if negative elements are early. -/
theorem exists_str2hexLoop_room_iff
    {src room : List Byte} (size : room.length = 2 * src.length + 1) :
    (∃ step, str2hexLoop src 0 room = .ok step) ↔
      ∀ i c, src[i]? = some c → Negative c → i + 4 ≤ src.length := by
  rw [exists_str2hexLoop_iff]
  refine forall_congr' fun i => forall_congr' fun c => forall_congr' fun found =>
    ?_
  have inside : i < src.length := (List.getElem?_eq_some_iff.mp found).1
  rw [length_printed, size]
  by_cases negative : Negative c
  · rw [if_pos negative]
    constructor
    · intro fits _
      omega
    · intro early
      have bound := early negative
      omega
  · rw [if_neg negative]
    constructor
    · intro _ impossible
      exact absurd impossible negative
    · intro _
      omega

/-- What `str2hex` leaves if its loop fits the smallest array. -/
theorem str2hex_of_loop
    {src room after : List Byte} {next : Nat}
    (size : room.length = 2 * src.length + 1)
    (run : str2hexLoop src 0 room = .ok (after, next)) (beyond : List Byte) :
    str2hex (room ++ beyond) src =
      .ok ((src.flatMap fun c => (printed c).take 2) ++ 0 :: beyond) := by
  obtain ⟨position, length, bytes⟩ :=
    str2hexLoop_result (Nat.zero_le _) run
  rw [List.take_zero, List.nil_append] at bytes
  have inside : next < (after ++ beyond).length := by
    rw [List.length_append]
    omega
  have taken : (after ++ beyond).take next = after.take next :=
    List.take_append_of_le_length (by omega)
  have rest : (after ++ beyond).drop (next + 1) = beyond :=
    List.drop_left' (by omega)
  rw [str2hex, str2hexLoop_append run beyond]
  simp only [bind, Except.bind]
  rw [storeByte_eq inside, store, taken, bytes, List.length_singleton, rest,
    List.append_assoc, List.singleton_append]

/-- Two sequences of pairs agree exactly if all pairs do. -/
theorem flatMap_eq_iff {src : List Byte} {one other : Byte → List Byte}
    (pairs : ∀ c, (one c).length = (other c).length) :
    src.flatMap one = src.flatMap other ↔ ∀ c ∈ src, one c = other c := by
  induction src with
  | nil => simp
  | cons c src induction =>
      rw [List.flatMap_cons, List.flatMap_cons, List.forall_mem_cons,
        ← induction]
      constructor
      · intro same
        exact List.append_inj same (pairs c)
      · rintro ⟨first, rest⟩
        rw [first, rest]

/--
`str2hex` leaves the lower-case form of the output of `hex2str` and one NUL,
and it writes nothing behind: an array of just this size is enough, and what is
behind such an array in a larger one stays.
-/
def Agrees (src room beyond output : List Byte) : Prop :=
  ∃ text,
    hex2str src (BitVec.ofNat 16 src.length) output = .ok text ∧
      str2hex room src =
        .ok ((text.take (2 * src.length)).map toLower ++ [0]) ∧
      str2hex (room ++ beyond) src =
        .ok ((text.take (2 * src.length)).map toLower ++ 0 :: beyond)

/-- The encoders agree exactly on arrays with only harmless elements. -/
theorem agrees_iff
    (src room beyond output : List Byte) (short : src.length ≤ 65535)
    (size : room.length = 2 * src.length + 1)
    (space : 2 * src.length ≤ output.length) :
    Agrees src room beyond output ↔ Printable src := by
  have encoded := hex2str_eq short space
  have taken := @take_store_zero output (hexText src) _ (length_hexText src)
  have lower :
      (hexText src).map toLower =
        src.flatMap fun c => (upperPair c).map toLower := by
    rw [hexText, List.map_flatMap]
  have pairs (c : Byte) :
      ((printed c).take 2).length = ((upperPair c).map toLower).length := by
    rw [length_printed_take, List.length_map]
    rfl
  constructor
  · rintro ⟨text, digits, smallest, -⟩
    rw [encoded, Except.ok.injEq] at digits
    rw [← digits, taken, lower] at smallest
    have reached : ∃ step, str2hexLoop src 0 room = .ok step := by
      rw [str2hex, bind_eq_ok_iff] at smallest
      obtain ⟨step, run, -⟩ := smallest
      exact ⟨step, run⟩
    have early := (exists_str2hexLoop_room_iff size).mp reached
    obtain ⟨⟨after, next⟩, run⟩ := reached
    have result := str2hex_of_loop size run []
    rw [List.append_nil, smallest, Except.ok.injEq] at result
    have same := (flatMap_eq_iff pairs).mp (List.append_cancel_right result).symm
    intro i c found negative
    have member := List.mem_of_getElem? found
    exact ⟨(printed_take_two_iff c).mp (same c member) negative,
      early i c found negative⟩
  · intro printable
    obtain ⟨⟨after, next⟩, run⟩ :=
      (exists_str2hexLoop_room_iff size).mpr fun i c found negative =>
        (printable i c found negative).2
    have same :
        (src.flatMap fun c => (printed c).take 2) =
          src.flatMap fun c => (upperPair c).map toLower := by
      rw [flatMap_eq_iff pairs]
      intro c member
      obtain ⟨i, found⟩ := List.mem_iff_getElem?.mp member
      exact (printed_take_two_iff c).mpr fun negative =>
        (printable i c found negative).1
    refine ⟨_, encoded, ?_, ?_⟩
    · have result := str2hex_of_loop size run []
      rw [List.append_nil] at result
      rw [taken, lower, ← same, result]
    · rw [taken, lower, ← same, str2hex_of_loop size run beyond]

/-- A negative element with three elements behind it. -/
theorem agrees_iff_early :
    Agrees [0xff, 0x31, 0x32, 0x33] (List.replicate 9 0) [7]
      (List.replicate 8 0) := by
  refine
    (agrees_iff [0xff, 0x31, 0x32, 0x33] (List.replicate 9 0) [7]
      (List.replicate 8 0) (by decide) (by decide) (by decide)).mpr ?_
  intro i c found negative
  rcases i with _ | _ | _ | _ | i
  · cases found
    exact ⟨rfl, by decide⟩
  · cases found
    exact absurd negative (by decide)
  · cases found
    exact absurd negative (by decide)
  · cases found
    exact absurd negative (by decide)
  · cases found

/--
The byte `0x80` alone is printed as `ffffff80`: in an array of three bytes this
is out of bounds, and in a larger one it runs behind them.
-/
theorem negative_not_agrees :
    str2hex (List.replicate 9 0) [0x80] =
        .ok (ascii "ff" ++ 0 :: ascii "fff80" ++ [0]) ∧
      ¬ Agrees [0x80] (List.replicate 3 0) (List.replicate 6 0)
        (List.replicate 2 0) := by
  have fault :
      str2hex (List.replicate 3 0) [0x80] = .error .outOfBounds := by
    decide
  refine ⟨by decide, ?_⟩
  rintro ⟨text, -, smallest, -⟩
  rw [fault] at smallest
  cases smallest

end CommonCode.Convert
