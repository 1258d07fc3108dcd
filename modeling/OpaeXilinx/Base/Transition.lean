import Mathlib.Logic.Relation

/-!
# Labelled transition systems and their invariants

A system is given by its initial states and by the steps it can take under a
label.  Reachability is relative to a step condition, so that one induction rule
serves both the unrestricted runs and the runs all of whose steps meet some
assumption on the environment.
-/

namespace OpaeXilinx.Base

universe u v

/-- A labelled transition system. -/
structure System (σ : Type u) (ι : Type v) where
  init : σ → Prop
  step : σ → ι → σ → Prop

namespace System

variable {σ : Type u} {ι : Type v} (system : System σ ι)

/-- States reachable by steps that all meet the condition `allowed`, which is
asked of the state before the step and of the step's label. -/
inductive Reach (allowed : σ → ι → Prop) : σ → Prop where
  | init {state : σ} : system.init state → Reach allowed state
  | step {state next : σ} {label : ι} : Reach allowed state →
      allowed state label → system.step state label next → Reach allowed next

/-- States reachable by any steps at all. -/
abbrev Reachable : σ → Prop := system.Reach fun _ _ => True

variable {system}

/-- What holds initially and is preserved by every allowed step holds in every
state the allowed steps reach. -/
theorem Reach.invariant {allowed : σ → ι → Prop} {property : σ → Prop}
    (initial : ∀ state, system.init state → property state)
    (preserved : ∀ state label next, property state → allowed state label →
      system.step state label next → property next)
    {state : σ} (reach : system.Reach allowed state) : property state := by
  induction reach with
  | init start => exact initial _ start
  | step _ condition taken ih => exact preserved _ _ _ ih condition taken

/-- A weaker condition allows the same runs. -/
theorem Reach.mono {allowed wider : σ → ι → Prop} {state : σ}
    (weaker : ∀ state label, allowed state label → wider state label)
    (reach : system.Reach allowed state) : system.Reach wider state := by
  induction reach with
  | init start => exact .init start
  | step _ condition taken ih => exact ih.step (weaker _ _ condition) taken

/-- Each label of a list is good in the state that it is taken in. -/
def Along (good : σ → ι → Prop) (take : σ → ι → σ) : σ → List ι → Prop
  | _, [] => True
  | state, label :: labels => good state label ∧ Along good take (take state label) labels

instance Along.decidable {good : σ → ι → Prop} {take : σ → ι → σ}
    [∀ state label, Decidable (good state label)] :
    (state : σ) → (labels : List ι) → Decidable (Along good take state labels)
  | _, [] => .isTrue trivial
  | state, label :: labels =>
      have : Decidable (Along good take (take state label) labels) := decidable _ labels
      inferInstanceAs (Decidable (good state label ∧ Along good take (take state label) labels))

/-- Good labels, taken one after the other, lead to a state that can be reached. -/
theorem Reach.along {allowed : σ → ι → Prop} {state : σ} (reach : system.Reach allowed state)
    (good : σ → ι → Prop) (take : σ → ι → σ)
    (steps : ∀ state label, good state label →
      allowed state label ∧ system.step state label (take state label))
    {labels : List ι} (along : Along good take state labels) :
    system.Reach allowed (labels.foldl take state) := by
  induction labels generalizing state with
  | nil => exact reach
  | cons label labels ih =>
      obtain ⟨condition, taken⟩ := steps state label along.1
      exact ih (.step reach condition taken) along.2

end System

end OpaeXilinx.Base
