import CommonCode.Lib.Transition
import Mathlib

/-!
# A cell handed over with two semaphores

`test/semaphore/semaphore_test.c` runs two threads on the global `queue_t`.
`p_func` waits for the semaphore `p`, stores a random number and posts `q`;
`q_func` waits for `q`, copies the number into `temp`, overwrites it with `-1`
and posts `p`.  `main` starts `p` at one and `q` at zero.

Every semaphore operation, every access to `queue_t` and every call of `printf`
is a step of its own, and the steps of the two threads may be interleaved in
any order.  `usleep` only delays a thread, as an interleaving does anyway.
-/

namespace CommonCode.Threads.Semaphore

open CommonCode.Lib.Transition

/-! ## The program -/

/-- The next statement of `p_func`. -/
inductive PFunc where
  | semWait
  | assign
  | printQueue
  | semPost
deriving DecidableEq

/-- The next statement of `q_func`. -/
inductive QFunc where
  | semWait
  | assignTemp
  | assignQueue
  | printQueue
  | printTemp
  | semPost
deriving DecidableEq

/-- The formats of `printf`: `"p : %d \n"`, `"q : %d \n"` and `"temp : %d \n"`. -/
inductive Format where
  | p
  | q
  | temp
deriving DecidableEq

/--
The semaphores, the global, the two threads and the lines printed.  `stored`
and `read` list the values that `p_func` stored into `queue_t` and that
`q_func` read into `temp`.
-/
structure State where
  p : Nat
  q : Nat
  queueT : Int
  temp : Int
  pFunc : PFunc
  qFunc : QFunc
  output : List (Format × Int)
  stored : List Int
  read : List Int

/-- After `sem_init`; the local `temp` is not initialised. -/
def State.start (temp : Int) : State where
  p := 1
  q := 0
  queueT := 0
  temp := temp
  pFunc := .semWait
  qFunc := .semWait
  output := []
  stored := []
  read := []

/-- The value `rand() % 1000 + 1`. -/
def randomValue (rand : Nat) : Int := ((rand % 1000 + 1 : Nat) : Int)

/-- A step of `p_func`; `none` while `sem_wait` blocks. -/
def State.stepP (state : State) (rand : Nat) : Option State :=
  match state.pFunc with
  | .semWait =>
      if 0 < state.p then
        some { state with p := state.p - 1, pFunc := .assign }
      else none
  | .assign =>
      some
        { state with
          queueT := randomValue rand
          stored := state.stored ++ [randomValue rand]
          pFunc := .printQueue }
  | .printQueue =>
      some
        { state with
          output := state.output ++ [(.p, state.queueT)]
          pFunc := .semPost }
  | .semPost => some { state with q := state.q + 1, pFunc := .semWait }

/-- A step of `q_func`; `none` while `sem_wait` blocks. -/
def State.stepQ (state : State) : Option State :=
  match state.qFunc with
  | .semWait =>
      if 0 < state.q then
        some { state with q := state.q - 1, qFunc := .assignTemp }
      else none
  | .assignTemp =>
      some
        { state with
          temp := state.queueT
          read := state.read ++ [state.queueT]
          qFunc := .assignQueue }
  | .assignQueue => some { state with queueT := -1, qFunc := .printQueue }
  | .printQueue =>
      some
        { state with
          output := state.output ++ [(.q, state.queueT)]
          qFunc := .printTemp }
  | .printTemp =>
      some
        { state with
          output := state.output ++ [(.temp, state.temp)]
          qFunc := .semPost }
  | .semPost => some { state with p := state.p + 1, qFunc := .semWait }

/-- The thread that takes a step, and what `rand` returns in it. -/
inductive Event where
  | p (rand : Nat)
  | q
deriving DecidableEq

def State.next (state : State) : Event → Option State
  | .p rand => state.stepP rand
  | .q => state.stepQ

/-- One step of the process. -/
def Step (before : State) (event : Event) (after : State) : Prop :=
  before.next event = some after

/-! ## Holding the cell -/

/-- `p_func` is between its `sem_wait` and its `sem_post`. -/
def PFunc.Inside (point : PFunc) : Prop := point ≠ .semWait

/-- `q_func` is between its `sem_wait` and its `sem_post`. -/
def QFunc.Inside (point : QFunc) : Prop := point ≠ .semWait

/-- The permit that a thread holds. -/
def PFunc.permit : PFunc → Nat
  | .semWait => 0
  | _ => 1

def QFunc.permit : QFunc → Nat
  | .semWait => 0
  | _ => 1

theorem PFunc.permit_eq_zero {point : PFunc} :
    point.permit = 0 ↔ point = .semWait := by
  cases point <;> decide

theorem QFunc.permit_eq_zero {point : QFunc} :
    point.permit = 0 ↔ point = .semWait := by
  cases point <;> decide

/-- A value has been stored into the cell and not been read. -/
def State.Full (state : State) : Prop :=
  0 < state.q ∨ state.pFunc = .printQueue ∨ state.pFunc = .semPost ∨
    state.qFunc = .assignTemp

/--
There is one permit, in a semaphore or with a thread, and what has been stored
and not been read is in the cell.
-/
structure HandOver (state : State) : Prop where
  one : state.p + state.q + state.pFunc.permit + state.qFunc.permit = 1
  full : state.Full → state.stored = state.read ++ [state.queueT]
  empty : ¬ state.Full → state.stored = state.read
  random : ∀ value ∈ state.stored, 1 ≤ value ∧ value ≤ 1000

theorem handOver_start (temp : Int) : HandOver (State.start temp) where
  one := rfl
  full := by
    rintro (positive | point | point | point)
    · cases positive
    · cases point
    · cases point
    · cases point
  empty _ := rfl
  random := by
    intro value member
    cases member

section HandOver

variable {state : State} (handOver : HandOver state)

include handOver in
/-- While `p_func` holds the permit, `q_func` waits and both counts are zero. -/
theorem HandOver.of_pFunc_inside (inside : state.pFunc.Inside) :
    state.p = 0 ∧ state.q = 0 ∧ state.qFunc = .semWait := by
  have one := handOver.one
  have held : state.pFunc.permit ≠ 0 := mt PFunc.permit_eq_zero.mp inside
  refine ⟨by omega, by omega, QFunc.permit_eq_zero.mp (by omega)⟩

include handOver in
/-- While `q_func` holds the permit, `p_func` waits and both counts are zero. -/
theorem HandOver.of_qFunc_inside (inside : state.qFunc.Inside) :
    state.p = 0 ∧ state.q = 0 ∧ state.pFunc = .semWait := by
  have one := handOver.one
  have held : state.qFunc.permit ≠ 0 := mt QFunc.permit_eq_zero.mp inside
  refine ⟨by omega, by omega, PFunc.permit_eq_zero.mp (by omega)⟩

end HandOver

/-- A step that only moves the permit or prints keeps the invariant. -/
theorem HandOver.of_full_iff {before after : State}
    (handOver : HandOver before)
    (one :
      after.p + after.q + after.pFunc.permit + after.qFunc.permit =
        before.p + before.q + before.pFunc.permit + before.qFunc.permit)
    (full : after.Full ↔ before.Full)
    (cell : after.queueT = before.queueT)
    (stored : after.stored = before.stored)
    (read : after.read = before.read) : HandOver after where
  one := one.trans handOver.one
  full := by
    intro occupied
    rw [stored, read, cell]
    exact handOver.full (full.mp occupied)
  empty := by
    intro none
    rw [stored, read]
    exact handOver.empty (mt full.mpr none)
  random := by
    rw [stored]
    exact handOver.random

theorem HandOver.stepP {before after : State} {rand : Nat}
    (handOver : HandOver before) (taken : before.stepP rand = some after) :
    HandOver after := by
  rcases before with ⟨p, q, queueT, temp, pFunc, qFunc, output, stored, read⟩
  rw [State.stepP] at taken
  cases pFunc with
  | semWait =>
      dsimp only at taken
      split at taken
      · next positive =>
        cases taken
        refine handOver.of_full_iff ?_ ?_ rfl rfl rfl
        · simp only [PFunc.permit]
          omega
        · simp [State.Full]
      · cases taken
  | assign =>
      cases taken
      rcases handOver.of_pFunc_inside (by rintro ⟨⟩) with ⟨noP, noQ, waits⟩
      have before : stored = read := by
        apply handOver.empty
        simp only [State.Full]
        simp_all
      exact
        { one := handOver.one
          full := by
            intro _
            rw [before]
          empty := fun none => absurd (Or.inr (Or.inl rfl)) none
          random := by
            intro value member
            rcases List.mem_append.mp member with earlier | last
            · exact handOver.random value earlier
            · rw [List.mem_singleton.mp last, randomValue]
              omega }
  | printQueue =>
      cases taken
      refine handOver.of_full_iff rfl ?_ rfl rfl rfl
      exact iff_of_true (Or.inr (Or.inr (Or.inl rfl))) (Or.inr (Or.inl rfl))
  | semPost =>
      cases taken
      refine handOver.of_full_iff ?_ ?_ rfl rfl rfl
      · simp only [PFunc.permit]
        omega
      · exact
          iff_of_true (Or.inl (Nat.succ_pos q))
            (Or.inr (Or.inr (Or.inl rfl)))

theorem HandOver.stepQ {before after : State}
    (handOver : HandOver before) (taken : before.stepQ = some after) :
    HandOver after := by
  rcases before with ⟨p, q, queueT, temp, pFunc, qFunc, output, stored, read⟩
  rw [State.stepQ] at taken
  cases qFunc with
  | semWait =>
      dsimp only at taken
      split at taken
      · next positive =>
        cases taken
        refine handOver.of_full_iff ?_ ?_ rfl rfl rfl
        · simp only [QFunc.permit]
          omega
        · exact
            iff_of_true (Or.inr (Or.inr (Or.inr rfl))) (Or.inl positive)
      · cases taken
  | assignTemp =>
      cases taken
      rcases handOver.of_qFunc_inside (by rintro ⟨⟩) with ⟨noP, noQ, waits⟩
      have before : stored = read ++ [queueT] :=
        handOver.full (Or.inr (Or.inr (Or.inr rfl)))
      exact
        { one := handOver.one
          full := by
            simp only [State.Full]
            simp_all
          empty := fun _ => before
          random := handOver.random }
  | assignQueue =>
      cases taken
      rcases handOver.of_qFunc_inside (by rintro ⟨⟩) with ⟨noP, noQ, waits⟩
      have before : stored = read := by
        apply handOver.empty
        simp only [State.Full]
        simp_all
      exact
        { one := handOver.one
          full := by
            simp only [State.Full]
            simp_all
          empty := fun _ => before
          random := handOver.random }
  | printQueue =>
      cases taken
      refine handOver.of_full_iff rfl ?_ rfl rfl rfl
      simp [State.Full]
  | printTemp =>
      cases taken
      refine handOver.of_full_iff rfl ?_ rfl rfl rfl
      simp [State.Full]
  | semPost =>
      cases taken
      refine handOver.of_full_iff ?_ ?_ rfl rfl rfl
      · simp only [QFunc.permit]
        omega
      · simp [State.Full]

theorem HandOver.step {before after : State} {event : Event}
    (handOver : HandOver before) (taken : Step before event after) :
    HandOver after := by
  cases event with
  | p rand => exact handOver.stepP taken
  | q => exact handOver.stepQ taken

theorem handOver_of_run {temp : Int} {events : List Event} {last : State}
    (run : Run Step (State.start temp) events last) : HandOver last :=
  run.invariant (fun taken handOver => handOver.step taken)
    (handOver_start temp)

/-! ## The values handed over -/

theorem HandOver.not_both_inside {state : State} (handOver : HandOver state) :
    ¬ (state.pFunc.Inside ∧ state.qFunc.Inside) := by
  rintro ⟨pInside, qInside⟩
  exact qInside (handOver.of_pFunc_inside pInside).2.2

/-- All values stored have been read, except perhaps the one in the cell. -/
theorem HandOver.stored_cases {state : State} (handOver : HandOver state) :
    state.stored = state.read ∨
      state.stored = state.read ++ [state.queueT] := by
  by_cases full : state.Full
  · exact Or.inr (handOver.full full)
  · exact Or.inl (handOver.empty full)

theorem HandOver.read_prefix {state : State} (handOver : HandOver state) :
    state.read <+: state.stored := by
  rcases handOver.stored_cases with same | last
  · rw [same]
  · rw [last]
    exact List.prefix_append _ _

/-- One of the two threads can always go on. -/
theorem HandOver.exists_step {state : State} (handOver : HandOver state) :
    ∃ event after, Step state event after := by
  have one := handOver.one
  rcases state with ⟨p, q, queueT, temp, pFunc, qFunc, output, stored, read⟩
  cases pFunc with
  | semWait =>
      cases qFunc with
      | semWait =>
          rcases Nat.eq_zero_or_pos p with none | positive
          · refine ⟨.q, _, if_pos (?_ : 0 < q)⟩
            simp only [PFunc.permit, QFunc.permit] at one
            omega
          · exact ⟨.p 0, _, if_pos positive⟩
      | _ => exact ⟨.q, _, rfl⟩
  | _ => exact ⟨.p 0, _, rfl⟩

/--
In every state of every interleaving the `i`-th value read is the `i`-th value
stored, every value stored has been read or is in the cell to be read next, no
value read is the mark `-1`, and the two functions are not both between their
`sem_wait` and their `sem_post`.
-/
theorem semaphores_hand_over {temp : Int} {events : List Event}
    {last : State} (run : Run Step (State.start temp) events last) :
    (∀ (i : Nat) (value : Int),
        last.read[i]? = some value → last.stored[i]? = some value) ∧
      (last.stored = last.read ∨
        last.stored = last.read ++ [last.queueT]) ∧
      -1 ∉ last.read ∧
      ¬ (last.pFunc.Inside ∧ last.qFunc.Inside) := by
  have handOver : HandOver last := handOver_of_run run
  refine
    ⟨fun i value found => ?_, handOver.stored_cases, fun marked => ?_,
      handOver.not_both_inside⟩
  · rcases handOver.read_prefix with ⟨rest, appended⟩
    rcases List.getElem?_eq_some_iff.mp found with ⟨bound, -⟩
    rw [← appended, List.getElem?_append_left bound]
    exact found
  · have inside := handOver.read_prefix.subset marked
    have bounds := handOver.random _ inside
    omega

theorem semaphores_hand_over_two_rounds :
    ∃ last,
      Run Step (State.start 7)
          [.p 41, .p 41, .p 0, .p 0, .q, .q, .q, .q, .q, .q, .p 6, .p 6]
          last ∧
        (last.stored = last.read ∨
          last.stored = last.read ++ [last.queueT]) := by
  have reached :
      ∃ last,
        Run Step (State.start 7)
          [.p 41, .p 41, .p 0, .p 0, .q, .q, .q, .q, .q, .q, .p 6, .p 6]
          last :=
    ⟨_, run_of_execute id rfl⟩
  rcases reached with ⟨last, run⟩
  exact ⟨last, run, (semaphores_hand_over run).2.1⟩

/-! ## The lines printed -/

/-- The values printed with a format. -/
def linesOf (output : List (Format × Int)) (format : Format) : List Int :=
  (output.filter fun line => line.1 = format).map fun line => line.2

@[simp]
theorem linesOf_append_self (output : List (Format × Int))
    (format : Format) (value : Int) :
    linesOf (output ++ [(format, value)]) format =
      linesOf output format ++ [value] := by
  simp [linesOf]

theorem linesOf_append_of_ne (output : List (Format × Int))
    {format other : Format} (apart : other ≠ format) (value : Int) :
    linesOf (output ++ [(other, value)]) format = linesOf output format := by
  simp [linesOf, apart]

/-- `q_func` has read a value and not printed it. -/
def QFunc.Carries (point : QFunc) : Prop :=
  point = .assignQueue ∨ point = .printQueue ∨ point = .printTemp

/-- Around its `sem_wait` and its `sem_post` it carries nothing. -/
theorem QFunc.not_carries {point : QFunc}
    (outside : point = .semWait ∨ point = .assignTemp ∨ point = .semPost) :
    ¬ point.Carries := by
  rcases outside with rfl | rfl | rfl
  · rintro (impossible | impossible | impossible) <;> cases impossible
  · rintro (impossible | impossible | impossible) <;> cases impossible
  · rintro (impossible | impossible | impossible) <;> cases impossible

/--
What `p_func` has stored it has printed or prints next, what `q_func` has read
it has printed or carries, and what it prints in between is the mark.
-/
structure Printed (state : State) : Prop where
  pending :
    state.pFunc = .printQueue →
      state.stored = linesOf state.output .p ++ [state.queueT]
  done : state.pFunc ≠ .printQueue → state.stored = linesOf state.output .p
  carried :
    state.qFunc.Carries →
      state.read = linesOf state.output .temp ++ [state.temp]
  delivered :
    ¬ state.qFunc.Carries → state.read = linesOf state.output .temp
  marks : ∀ value ∈ linesOf state.output .q, value = -1
  marked : state.qFunc = .printQueue → state.queueT = -1

theorem printed_start (temp : Int) : Printed (State.start temp) where
  pending := by rintro ⟨⟩
  done _ := rfl
  carried := by
    rintro (point | point | point)
    · cases point
    · cases point
    · cases point
  delivered _ := rfl
  marks := by
    intro value member
    cases member
  marked := by rintro ⟨⟩

theorem Printed.stepP {before after : State} {rand : Nat}
    (handOver : HandOver before) (printed : Printed before)
    (taken : before.stepP rand = some after) : Printed after := by
  rcases before with ⟨p, q, queueT, temp, pFunc, qFunc, output, stored, read⟩
  have alone := handOver.of_pFunc_inside
  rcases printed with ⟨pending, done, carried, delivered, marks, marked⟩
  rw [State.stepP] at taken
  cases pFunc with
  | semWait =>
      dsimp only at taken
      split at taken
      · cases taken
        exact
          { pending := by rintro ⟨⟩
            done := fun _ => done (by rintro ⟨⟩)
            carried := carried
            delivered := delivered
            marks := marks
            marked := marked }
      · cases taken
  | assign =>
      cases taken
      rcases alone (by rintro ⟨⟩) with ⟨-, -, waits⟩
      exact
        { pending := fun _ =>
            congrArg (· ++ [randomValue rand]) (done (by rintro ⟨⟩))
          done := fun other => absurd rfl other
          carried := carried
          delivered := delivered
          marks := marks
          marked := fun point => absurd (waits.symm.trans point) (by decide) }
  | printQueue =>
      cases taken
      exact
        { pending := by rintro ⟨⟩
          done := by
            intro _
            rw [linesOf_append_self]
            exact pending rfl
          carried := by
            rw [linesOf_append_of_ne _ (by decide)]
            exact carried
          delivered := by
            rw [linesOf_append_of_ne _ (by decide)]
            exact delivered
          marks := by
            rw [linesOf_append_of_ne _ (by decide)]
            exact marks
          marked := marked }
  | semPost =>
      cases taken
      exact
        { pending := by rintro ⟨⟩
          done := fun _ => done (by rintro ⟨⟩)
          carried := carried
          delivered := delivered
          marks := marks
          marked := marked }

theorem Printed.stepQ {before after : State}
    (handOver : HandOver before) (printed : Printed before)
    (taken : before.stepQ = some after) : Printed after := by
  rcases before with ⟨p, q, queueT, temp, pFunc, qFunc, output, stored, read⟩
  have alone := handOver.of_qFunc_inside
  rcases printed with ⟨pending, done, carried, delivered, marks, marked⟩
  rw [State.stepQ] at taken
  cases qFunc with
  | semWait =>
      dsimp only at taken
      split at taken
      · cases taken
        exact
          { pending := pending
            done := done
            carried := fun carries =>
              absurd carries (QFunc.not_carries (Or.inr (Or.inl rfl)))
            delivered := fun _ =>
              delivered (QFunc.not_carries (Or.inl rfl))
            marks := marks
            marked := by rintro ⟨⟩ }
      · cases taken
  | assignTemp =>
      cases taken
      exact
        { pending := pending
          done := done
          carried := fun _ =>
            congrArg (· ++ [queueT])
              (delivered (QFunc.not_carries (Or.inr (Or.inl rfl))))
          delivered := fun none => absurd (Or.inl rfl) none
          marks := marks
          marked := by rintro ⟨⟩ }
  | assignQueue =>
      cases taken
      rcases alone (by rintro ⟨⟩) with ⟨-, -, waits⟩
      exact
        { pending := fun point =>
            absurd (waits.symm.trans point) (by decide)
          done := done
          carried := fun _ => carried (Or.inl rfl)
          delivered := fun none => absurd (Or.inr (Or.inl rfl)) none
          marks := marks
          marked := fun _ => rfl }
  | printQueue =>
      cases taken
      exact
        { pending := by
            rw [linesOf_append_of_ne _ (by decide)]
            exact pending
          done := by
            rw [linesOf_append_of_ne _ (by decide)]
            exact done
          carried := by
            intro _
            rw [linesOf_append_of_ne _ (by decide)]
            exact carried (Or.inr (Or.inl rfl))
          delivered := fun none => absurd (Or.inr (Or.inr rfl)) none
          marks := by
            intro value member
            rw [linesOf_append_self] at member
            rcases List.mem_append.mp member with earlier | last
            · exact marks value earlier
            · rw [List.mem_singleton.mp last]
              exact marked rfl
          marked := by rintro ⟨⟩ }
  | printTemp =>
      cases taken
      exact
        { pending := by
            rw [linesOf_append_of_ne _ (by decide)]
            exact pending
          done := by
            rw [linesOf_append_of_ne _ (by decide)]
            exact done
          carried := fun carries =>
            absurd carries (QFunc.not_carries (Or.inr (Or.inr rfl)))
          delivered := by
            intro _
            rw [linesOf_append_self]
            exact carried (Or.inr (Or.inr rfl))
          marks := by
            rw [linesOf_append_of_ne _ (by decide)]
            exact marks
          marked := by rintro ⟨⟩ }
  | semPost =>
      cases taken
      exact
        { pending := pending
          done := done
          carried := fun carries =>
            absurd carries (QFunc.not_carries (Or.inl rfl))
          delivered := fun _ =>
            delivered (QFunc.not_carries (Or.inr (Or.inr rfl)))
          marks := marks
          marked := by rintro ⟨⟩ }

theorem Printed.step {before after : State} {event : Event}
    (handOver : HandOver before) (printed : Printed before)
    (taken : Step before event after) : Printed after := by
  cases event with
  | p rand => exact printed.stepP handOver taken
  | q => exact printed.stepQ handOver taken

theorem Printed.carried_prefix {state : State} (printed : Printed state) :
    linesOf state.output .temp <+: state.read := by
  by_cases carries : state.qFunc.Carries
  · rw [printed.carried carries]
    exact List.prefix_append _ _
  · rw [printed.delivered carries]

/--
The numbers that `q_func` prints behind `temp` are those that `p_func` printed,
in the same order, and those that it prints behind `q` are marks.
-/
theorem lines_hand_over {temp : Int} {events : List Event} {last : State}
    (run : Run Step (State.start temp) events last) :
    linesOf last.output .temp <+: linesOf last.output .p ∧
      ∀ value ∈ linesOf last.output .q, value = -1 := by
  have kept {before after : State} {event : Event}
      (taken : Step before event after)
      (holds : HandOver before ∧ Printed before) :
      HandOver after ∧ Printed after :=
    ⟨holds.1.step taken, holds.2.step holds.1 taken⟩
  rcases run.invariant kept ⟨handOver_start temp, printed_start temp⟩ with
    ⟨handOver, printed⟩
  refine ⟨printed.carried_prefix.trans ?_, printed.marks⟩
  by_cases printing : last.pFunc = .printQueue
  · have stored := handOver.full (Or.inr (Or.inl printing))
    rw [printed.pending printing] at stored
    rw [List.append_cancel_right stored]
  · rw [← printed.done printing]
    exact handOver.read_prefix

end CommonCode.Threads.Semaphore
