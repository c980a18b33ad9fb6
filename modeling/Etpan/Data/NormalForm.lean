import Mathlib

namespace Etpan.Data

open Relation

/-! What a step relation comes to when no step is left. -/

section NormalForm

variable {α β : Type} {step : α → α → Prop} {first last : α}

def Stuck (step : α → α → Prop) (state : α) : Prop := ∀ next, ¬ step state next

structure Ends (step : α → α → Prop) (first last : α) : Prop where
  path : ReflTransGen step first last
  stuck : Stuck step last

theorem Stuck.ends (stuck : Stuck step first) : Ends step first first := ⟨.refl, stuck⟩

theorem Stuck.eq (stuck : Stuck step first) (path : ReflTransGen step first last) : first = last := by
  rcases ReflTransGen.cases_head path with same | ⟨next, taken, _⟩
  · exact same
  · exact absurd taken (stuck next)

theorem Ends.head {next : α} (taken : step first next) (ends : Ends step next last) : Ends step first last :=
  ⟨.head taken ends.path, ends.stuck⟩

theorem Ends.unique {other : α} (single : Relator.RightUnique step) (ends : Ends step first last) (ends' : Ends step first other) :
    last = other := by
  rcases ReflTransGen.total_of_right_unique single ends.path ends'.path with path | path
  · exact ends.stuck.eq path
  · exact (ends'.stuck.eq path).symm

/-- A map that takes steps to paths and stuck states to stuck states takes ends to ends. -/
theorem Ends.map {step' : β → β → Prop} (change : α → β)
    (steps : ∀ state next, step state next → ReflTransGen step' (change state) (change next))
    (stucks : ∀ state, Stuck step state → Stuck step' (change state)) (ends : Ends step first last) :
    Ends step' (change first) (change last) := by
  obtain ⟨path, stuck⟩ := ends
  refine ⟨?_, stucks last stuck⟩
  clear stuck
  induction path with
  | refl => exact .refl
  | tail _ taken ih => exact ih.trans (steps _ _ taken)

/-- Steps that are paths of smaller steps come to the same end. -/
theorem ends_congr {small : α → α → Prop} (wider : ∀ state next, small state next → step state next)
    (finer : ∀ state next, step state next → TransGen small state next) : Ends step first last ↔ Ends small first last := by
  constructor
  · rintro ⟨path, stuck⟩
    refine ⟨?_, fun next taken => stuck next (wider _ _ taken)⟩
    clear stuck
    induction path with
    | refl => exact .refl
    | tail _ taken ih => exact ih.trans (finer _ _ taken).to_reflTransGen
  · intro ends
    refine ⟨ReflTransGen.mono wider _ _ ends.path, fun next taken => ?_⟩
    obtain ⟨middle, smallStep, _⟩ := TransGen.head'_iff.mp (finer _ _ taken)
    exact ends.stuck middle smallStep

end NormalForm

end Etpan.Data
