import Mathlib.Order.Defs.Unbundled

/-!
# Programs that act on a state

Running a program of the state monad, and a rule for what a program does to the
state: if every operation relates the state before it to the state after it by
a preorder, so does every program that is built from the operations.
-/

namespace CommonCode.Lib.StateProgram

variable {World α β : Type}

/-! ## Running a program -/

theorem bind_run (first : StateM World α) (second : α → StateM World β)
    (world : World) :
    (first >>= second) world = second (first world).1 (first world).2 :=
  rfl

theorem pure_run (value : α) (world : World) :
    (pure value : StateM World α) world = (value, world) :=
  rfl

/-! ## What a program does to the state -/

/-- The program relates every state to the one in which it ends. -/
def Keeps (related : World → World → Prop) (program : StateM World α) :
    Prop :=
  ∀ world, related world (program world).2

/-- The program relates the state in which its first part ends to its own. -/
def Extends (related : World → World → Prop) (first : StateM World α)
    (program : StateM World β) : Prop :=
  ∀ world, related (first world).2 (program world).2

section Rules

variable {related : World → World → Prop}

theorem Extends.bind {first : StateM World α} {second : α → StateM World β}
    (tail : ∀ value, Keeps related (second value)) :
    Extends related first (first >>= second) :=
  fun world => tail (first world).1 (first world).2

theorem Keeps.ite {condition : Prop} [Decidable condition]
    {first second : StateM World α} (yes : Keeps related first)
    (no : Keeps related second) :
    Keeps related (if condition then first else second) := by
  split
  · exact yes
  · exact no

variable [IsPreorder World related]

theorem Keeps.pure (value : α) :
    Keeps related (pure value : StateM World α) :=
  fun world => refl world

theorem Extends.trans {γ : Type} {first : StateM World α}
    {second : StateM World β} {third : StateM World γ}
    (head : Extends related first second)
    (tail : Extends related second third) :
    Extends related first third :=
  fun world => Trans.trans (head world) (tail world)

theorem Keeps.of_extends {first : StateM World α} {program : StateM World β}
    (head : Keeps related first) (tail : Extends related first program) :
    Keeps related program :=
  fun world => Trans.trans (head world) (tail world)

theorem Keeps.bind {first : StateM World α} {second : α → StateM World β}
    (head : Keeps related first)
    (tail : ∀ value, Keeps related (second value)) :
    Keeps related (first >>= second) :=
  head.of_extends (Extends.bind tail)

end Rules

end CommonCode.Lib.StateProgram
