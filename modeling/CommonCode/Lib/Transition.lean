import Mathlib.Logic.Relation

/-!
# Runs of a labelled transition system

A run is a finite sequence of steps, each with a label that stands for what the
environment contributes to it.  The rules below derive a property of whole runs
from what one step preserves; the steps of a run may be restricted to those
that meet a condition on the state before the step and on the label.
-/

namespace CommonCode.Lib.Transition

variable {State Label : Type*}

/-- A run of steps with the given labels. -/
inductive Run (step : State → Label → State → Prop) :
    State → List Label → State → Prop
  | nil (state : State) : Run step state [] state
  | cons {first second last : State} {label : Label} {labels : List Label} :
      step first label second → Run step second labels last →
        Run step first (label :: labels) last

/-- The steps that meet a condition on the state before and on the label. -/
def Under (condition : State → Label → Prop)
    (step : State → Label → State → Prop) :
    State → Label → State → Prop :=
  fun before label after => condition before label ∧ step before label after

section Rules

variable {step : State → Label → State → Prop}
variable {first last : State} {labels : List Label}

/-- What every step preserves, every run preserves. -/
theorem Run.invariant {Invariant : State → Prop}
    (run : Run step first labels last)
    (preserved :
      ∀ {before label after},
        step before label after → Invariant before → Invariant after)
    (holds : Invariant first) :
    Invariant last := by
  induction run with
  | nil state => exact holds
  | cons taken rest induction => exact induction (preserved taken holds)

/-- The steps of a restricted run are steps. -/
theorem Run.of_under {condition : State → Label → Prop}
    (run : Run (Under condition step) first labels last) :
    Run step first labels last := by
  induction run with
  | nil state => exact Run.nil state
  | cons taken rest induction => exact Run.cons taken.2 induction

/-- A condition on labels alone restricts a run label by label. -/
theorem Run.under_of_forall {condition : Label → Prop}
    (run : Run step first labels last)
    (allowed : ∀ label ∈ labels, condition label) :
    Run (Under (fun _ => condition) step) first labels last := by
  induction run with
  | nil state => exact Run.nil state
  | cons taken rest induction =>
      refine Run.cons ⟨allowed _ (List.mem_cons_self ..), taken⟩ ?_
      exact induction fun label member =>
        allowed label (List.mem_cons_of_mem _ member)

/--
A property holds in every state of a run exactly if every step of the run meets
a condition, provided that steps that meet the condition keep an invariant that
implies the property, and steps that do not lose the property.
-/
theorem Run.forall_iff_under
    {Invariant Property : State → Prop} {condition : State → Label → Prop}
    (deterministic :
      ∀ {before label after other},
        step before label after → step before label other → after = other)
    (implies : ∀ {state}, Invariant state → Property state)
    (kept :
      ∀ {before label after},
        Invariant before → step before label after →
          condition before label → Invariant after)
    (lost :
      ∀ {before label after},
        Invariant before → step before label after →
          ¬ condition before label → ¬ Property after)
    (run : Run step first labels last) (holds : Invariant first) :
    (∀ count middle,
      Run step first (labels.take count) middle → Property middle) ↔
      Run (Under condition step) first labels last := by
  constructor
  · intro throughout
    induction run with
    | nil state => exact Run.nil state
    | @cons first second last label labels taken rest induction =>
        have after : Property second :=
          throughout 1 second (Run.cons taken (Run.nil second))
        have meets : condition first label :=
          Classical.byContradiction fun fails =>
            lost holds taken fails after
        refine Run.cons ⟨meets, taken⟩ ?_
        refine induction (kept holds taken meets) ?_
        intro count middle later
        exact throughout (count + 1) middle (Run.cons taken later)
  · intro under
    clear run
    induction under with
    | nil state =>
        intro count middle reached
        rw [List.take_nil] at reached
        cases reached
        exact implies holds
    | cons taken rest induction =>
        intro count middle reached
        cases count with
        | zero =>
            cases reached
            exact implies holds
        | succ count =>
            cases reached with
            | cons again later =>
                cases deterministic taken.2 again
                exact induction (kept holds taken.2 taken.1) count middle
                  later

/--
If a step that does not meet the condition does damage that no later step
repairs, then a run meets the condition throughout or ends with the damage.
-/
theorem Run.under_or_lost
    {Invariant Lost : State → Prop} {condition : State → Label → Prop}
    (run : Run step first labels last)
    (kept :
      ∀ {before label after},
        Invariant before → step before label after →
          condition before label → Invariant after)
    (lost :
      ∀ {before label after},
        Invariant before → step before label after →
          ¬ condition before label → Lost after)
    (stays :
      ∀ {before label after},
        step before label after → Lost before → Lost after)
    (holds : Invariant first) :
    Run (Under condition step) first labels last ∨ Lost last := by
  induction run with
  | nil state => exact Or.inl (Run.nil state)
  | @cons first second last label labels taken rest induction =>
      by_cases meets : condition first label
      · rcases induction (kept holds taken meets) with under | damaged
        · exact Or.inl (Run.cons ⟨meets, taken⟩ under)
        · exact Or.inr damaged
      · exact Or.inr (rest.invariant stays (lost holds taken meets))

end Rules

/-! ## Runs of a partial function -/

/-- The state after steps with the given labels; `none` if one is not possible. -/
def execute (next : State → Label → Option State) :
    State → List Label → Option State
  | state, [] => some state
  | state, label :: labels =>
      (next state label).bind fun after => execute next after labels

/-- What the function computes is a run of every relation that contains it. -/
theorem run_of_execute {step : State → Label → State → Prop}
    {next : State → Label → Option State} {first last : State}
    {labels : List Label}
    (contained :
      ∀ {before label after},
        next before label = some after → step before label after)
    (result : execute next first labels = some last) :
    Run step first labels last := by
  induction labels generalizing first with
  | nil =>
      cases result
      exact Run.nil _
  | cons label labels induction =>
      rcases Option.bind_eq_some_iff.mp result with ⟨second, taken, rest⟩
      exact Run.cons (contained taken) (induction rest)

end CommonCode.Lib.Transition
