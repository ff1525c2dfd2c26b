import Mathlib

/-!
# Chained processing of blocks

A chained mode maps a list of blocks to a list of outputs, one for each block,
and hands a state from each block to the next.  What it does on a list in two
parts is what it does on the first part and then, from the state left behind,
on the second.
-/

namespace CommonCode.Lib.Chaining

variable {State Block Output : Type*}

/-- The outputs for the blocks, and the state after the last one. -/
def chain (step : State → Block → Output × State) :
    State → List Block → List Output × State
  | state, [] => ([], state)
  | state, block :: rest =>
      let later := chain step (step state block).2 rest
      ((step state block).1 :: later.1, later.2)

variable {step : State → Block → Output × State}

@[simp]
theorem chain_nil (state : State) : chain step state [] = ([], state) := rfl

theorem chain_cons (state : State) (block : Block) (rest : List Block) :
    chain step state (block :: rest) =
      ((step state block).1 :: (chain step (step state block).2 rest).1,
        (chain step (step state block).2 rest).2) :=
  rfl

@[simp]
theorem length_chain (state : State) (blocks : List Block) :
    (chain step state blocks).1.length = blocks.length := by
  induction blocks generalizing state with
  | nil => rfl
  | cons block rest induction =>
      rw [chain_cons, List.length_cons, List.length_cons, induction]

/-- A chain may be interrupted after any block. -/
theorem chain_append (state : State) (front back : List Block) :
    chain step state (front ++ back) =
      ((chain step state front).1 ++
          (chain step (chain step state front).2 back).1,
        (chain step (chain step state front).2 back).2) := by
  induction front generalizing state with
  | nil => rfl
  | cons block rest induction =>
      rw [List.cons_append, chain_cons, chain_cons, induction]
      rfl

/-! ## What a state keeps of the blocks before it -/

/-- The state behind a block is told by the block alone. -/
def Forgets (step : State → Block → Output × State) (next : Block → State) :
    Prop :=
  ∀ state block, (step state block).2 = next block

/-- Behind its first block, such a chain does not depend on where it starts. -/
theorem Forgets.rest {next : Block → State}
    (forgets : Forgets step next) (state : State) (block : Block)
    (rest : List Block) :
    chain step state (block :: rest) =
      ((step state block).1 :: (chain step (next block) rest).1,
        (chain step (next block) rest).2) := by
  rw [chain_cons, forgets]

/-- Two states that differ give outputs and states that differ. -/
def Separates (step : State → Block → Output × State) : Prop :=
  ∀ state other,
    state ≠ other → ∀ block,
      (step state block).1 ≠ (step other block).1 ∧
        (step state block).2 ≠ (step other block).2

/-- A difference between two states reaches every later output. -/
theorem Separates.outputs (separates : Separates step) {state other : State}
    (apart : state ≠ other) (blocks : List Block) :
    List.Forall₂ (· ≠ ·) (chain step state blocks).1
        (chain step other blocks).1 ∧
      (chain step state blocks).2 ≠ (chain step other blocks).2 := by
  induction blocks generalizing state other with
  | nil => exact ⟨.nil, apart⟩
  | cons block rest induction =>
      rcases separates state other apart block with ⟨outputs, states⟩
      rcases induction states with ⟨others, ends⟩
      exact ⟨.cons outputs others, ends⟩

end CommonCode.Lib.Chaining
