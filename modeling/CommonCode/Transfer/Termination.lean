import CommonCode.Transfer.FileTransfer

/-!
# The file transfer after a permanent error

Neither loop has a branch for a permanent error.  The inner loop of
`send_file` is left by a successful call of `send` only, and the loop of
`recv_file` by the end of the connection only, so each of them calls again for
ever once its calls fail.  All values that `send_file` returns are 0, which
makes the test for a negative value in `main` idle.
-/

namespace CommonCode.Transfer

open CommonCode.Lib.Bits

/-! ## Sequences of calls -/

/-- A call of `send`, as long as `send_file` has not returned. -/
def Sender.call (sender : Sender) (result : SendResult) : Sender :=
  if sender.returned = none then (sender.send result).2 else sender

/-- The state after calls of `send` with the given results. -/
def Sender.calls (sender : Sender) (results : List SendResult) : Sender :=
  results.foldl Sender.call sender

/-- A call of `recv`, as long as `recv_file` has not returned. -/
def Receiver.call (receiver : Receiver) (result : Option (List Byte)) :
    Receiver :=
  if receiver.returned = none then receiver.receive result else receiver

/-- The state after calls of `recv` with the given results. -/
def Receiver.calls (receiver : Receiver)
    (results : List (Option (List Byte))) : Receiver :=
  results.foldl Receiver.call receiver

/-- Calls of `send` that fail with the given error numbers. -/
def failures (errno : Nat → Int) (count : Nat) : List SendResult :=
  (List.range count).map fun i => .fails (errno i)

/--
What is asked of `send_file` when its calls fail from some point on: after
finitely many of them it has returned a negative value.
-/
def SendStops (file junk : List Byte) (earlier : List SendResult)
    (errno : Nat → Int) : Prop :=
  ∃ count value, value < 0 ∧
    ((Sender.start file junk).calls
      (earlier ++ failures errno count)).returned = some value

/--
What is asked of `recv_file` when its calls fail from some point on: after
finitely many of them it has returned.
-/
def RecvStops (accepted : Bool) (junk : List Byte)
    (earlier : List (Option (List Byte))) : Prop :=
  ∃ count,
    ((Receiver.start accepted junk).calls
      (earlier ++ List.replicate count none)).returned ≠ none

/-! ## The sender -/

/-- While `send_file` runs its state is that of a call; it returns 0 only. -/
structure Sender.Looping (sender : Sender) : Prop where
  ready : sender.Ready
  value : ∀ value, sender.returned = some value → value = 0

section Sending

variable {sender : Sender}

theorem Sender.value_read {value : Int}
    (returned : sender.read.returned = some value) : value = 0 := by
  rw [Sender.read] at returned
  split at returned
  · cases returned
  · cases returned
    rfl

theorem Sender.value_test (running : sender.returned = none) {value : Int}
    (returned : sender.test.returned = some value) : value = 0 := by
  rw [Sender.test] at returned
  split at returned
  · rw [running] at returned
    cases returned
  · exact Sender.value_read returned

theorem Sender.value_send (running : sender.returned = none)
    (result : SendResult) {value : Int}
    (returned : (sender.send result).2.returned = some value) :
    value = 0 := by
  cases result with
  | fails errno => exact Sender.value_test running returned
  | takes room =>
      rw [Sender.send] at returned
      split at returned
      · exact Sender.value_read returned
      · split at returned
        · refine Sender.value_test ?_ returned
          exact running
        · exact Sender.value_test running returned

theorem Sender.looping_start (file junk : List Byte) :
    (Sender.start file junk).Looping where
  ready := Sender.ready_read (Nat.zero_le _)
  value _ returned := Sender.value_read returned

theorem Sender.Looping.call (looping : sender.Looping)
    (result : SendResult) : (sender.call result).Looping := by
  rw [Sender.call]
  by_cases running : sender.returned = none
  · rw [if_pos running]
    exact ⟨(looping.ready.send running result).1,
      fun _ returned => Sender.value_send running result returned⟩
  · rw [if_neg running]
    exact looping

theorem Sender.Looping.calls (looping : sender.Looping)
    (results : List SendResult) : (sender.calls results).Looping := by
  induction results generalizing sender with
  | nil => exact looping
  | cons result results induction => exact induction (looping.call result)

/-- A call that fails leads to the same call again. -/
theorem Sender.Looping.call_fails (looping : sender.Looping) (errno : Int) :
    sender.call (.fails errno) = sender := by
  rw [Sender.call]
  by_cases running : sender.returned = none
  · rw [if_pos running]
    exact Sender.test_of_pos (looping.ready.positive running)
  · exact if_neg running

theorem Sender.Looping.calls_failures (looping : sender.Looping)
    (errno : Nat → Int) (count : Nat) :
    sender.calls (failures errno count) = sender := by
  induction count with
  | zero => rfl
  | succ count induction =>
      rw [Sender.calls] at induction
      rw [failures, List.range_succ, List.map_append, Sender.calls,
        List.foldl_append, ← failures, induction]
      exact looping.call_fails (errno count)

end Sending

/-- However many calls of `send` fail, the state stays the same. -/
theorem sender_calls_failures (file junk : List Byte)
    (earlier : List SendResult) (errno : Nat → Int) (count : Nat) :
    (Sender.start file junk).calls (earlier ++ failures errno count) =
      (Sender.start file junk).calls earlier := by
  have looping := (Sender.looping_start file junk).calls earlier
  rw [Sender.calls, List.foldl_append]
  exact looping.calls_failures errno count

/-! ## The receiver -/

theorem Receiver.call_none (receiver : Receiver) :
    receiver.call none = receiver := by
  rw [Receiver.call, Receiver.receive, ite_self]

theorem Receiver.calls_none (receiver : Receiver) (count : Nat) :
    receiver.calls (List.replicate count none) = receiver := by
  induction count with
  | zero => rfl
  | succ count induction =>
      rw [List.replicate_succ, Receiver.calls, List.foldl_cons,
        Receiver.call_none]
      exact induction

theorem recvStops_iff (accepted : Bool) (junk : List Byte)
    (earlier : List (Option (List Byte))) :
    RecvStops accepted junk earlier ↔
      ((Receiver.start accepted junk).calls earlier).returned ≠ none := by
  have same (count : Nat) : (Receiver.start accepted junk).calls
        (earlier ++ List.replicate count none) =
      (Receiver.start accepted junk).calls earlier := by
    rw [Receiver.calls, List.foldl_append]
    exact Receiver.calls_none _ count
  constructor
  · rintro ⟨count, returned⟩
    rwa [same] at returned
  · intro returned
    refine ⟨0, ?_⟩
    rwa [same]

/-! ## Both loops -/

/--
`send_file` never returns a negative value, and it returns after a failing call
of `send`, or `recv_file` after a failing call of `recv`, only if it has
returned before: for every file, all earlier results and all error numbers.
-/
theorem never_stops (file sendJunk recvJunk : List Byte)
    (sends : List SendResult) (errno : Nat → Int) (accepted : Bool)
    (receives : List (Option (List Byte))) :
    ¬ SendStops file sendJunk sends errno ∧
      ((∃ count, ((Sender.start file sendJunk).calls
          (sends ++ failures errno count)).returned ≠ none) ↔
        ((Sender.start file sendJunk).calls sends).returned ≠ none) ∧
      (RecvStops accepted recvJunk receives ↔
        ((Receiver.start accepted recvJunk).calls receives).returned ≠
          none) := by
  refine ⟨?_, ?_, recvStops_iff accepted recvJunk receives⟩
  · rintro ⟨count, value, negative, returned⟩
    have looping :=
      (Sender.looping_start file sendJunk).calls
        (sends ++ failures errno count)
    exact Int.ne_of_lt negative (looping.value value returned)
  · constructor
    · rintro ⟨count, returned⟩
      rwa [sender_calls_failures] at returned
    · intro returned
      refine ⟨0, ?_⟩
      rwa [sender_calls_failures]

/-- A file of one byte, and a connection that is reset at once. -/
theorem not_stops_reset :
    ((Sender.start [1] []).calls []).returned = none ∧
      ((Receiver.start true []).calls []).returned = none ∧
      ¬ SendStops [1] [] [] (fun _ => 104) ∧ ¬ RecvStops true [] [] := by
  refine ⟨rfl, rfl, ?_, ?_⟩
  · rintro ⟨count, value, -, returned⟩
    rw [sender_calls_failures] at returned
    cases returned
  · intro stops
    exact (recvStops_iff true [] []).mp stops rfl

end CommonCode.Transfer
