import OpaeXilinx.Base.Triple

/-!
# Loops that end

A program with loops is a family of programs, one for every amount of fuel.  It ends if
from some amount on it always comes to the same normal result.  A loop ends if each round
ends and brings the state closer to the exit, by any well-founded relation.
-/

namespace OpaeXilinx.Base

variable {ε σ α β : Type}

/-- Programs that are cut off when the fuel is used up. -/
abbrev Fuelled (ε σ α : Type) := Nat → EStateM ε σ α

/-- `while (condition) body`. -/
def whileLoop (exhausted : ε) (condition : σ → Prop) [DecidablePred condition]
    (body : Fuelled ε σ Unit) : Fuelled ε σ Unit
  | 0 => throw exhausted
  | fuel + 1 => do
      if condition (← get) then
        body fuel
        whileLoop exhausted condition body fuel

theorem whileLoop_succ (exhausted : ε) (condition : σ → Prop) [DecidablePred condition]
    (body : Fuelled ε σ Unit) (fuel : Nat) (state : σ) :
    whileLoop exhausted condition body (fuel + 1) state =
      if condition state then
        (body fuel >>= fun _ => whileLoop exhausted condition body fuel) state
      else .ok () state := by
  rw [whileLoop]
  show (if condition state then (body fuel >>= fun _ => whileLoop exhausted condition body fuel)
    else pure ()) state = _
  split <;> rfl

/-- With enough fuel, the program ends normally, with a result that has the property. -/
def Ends (program : Fuelled ε σ α) (state : σ) (post : α → σ → Prop) : Prop :=
  ∃ value after, post value after ∧ ∃ least, ∀ fuel ≥ least, program fuel state = .ok value after

namespace Ends

variable {state : σ} {post : α → σ → Prop}

theorem pure {value : α} (holds : post value state) :
    Ends (fun _ => (Pure.pure value : EStateM ε σ α)) state post :=
  ⟨value, state, holds, 0, fun _ _ => rfl⟩

/-- A program without loops that does not fail. -/
theorem of_ok {program : EStateM ε σ α} {value : α} {after : σ}
    (ran : program state = .ok value after) (holds : post value after) :
    Ends (fun _ => program) state post :=
  ⟨value, after, holds, 0, fun _ _ => ran⟩

theorem throwIf {condition : Prop} [Decidable condition] {err : ε} {after : Unit → σ → Prop}
    (passes : ¬ condition) (holds : after () state) :
    Ends (fun _ => Base.throwIf condition err) state after := by
  rw [show Base.throwIf condition err = (Pure.pure () : EStateM ε σ Unit) from if_neg passes]
  exact pure holds

/-- The first steps of a program, without loops, have been carried out. -/
theorem steps {program rest : Fuelled ε σ α} {between : σ}
    (same : ∀ fuel, program fuel state = rest fuel between) (ends : Ends rest between post) :
    Ends program state post := by
  obtain ⟨value, after, holds, least, ran⟩ := ends
  exact ⟨value, after, holds, least, fun fuel sufficient => (same fuel).trans (ran fuel sufficient)⟩

theorem get_bind {program : σ → Fuelled ε σ α} (ends : Ends (program state) state post) :
    Ends (fun fuel => MonadState.get >>= fun current => program current fuel) state post :=
  steps (fun _ => rfl) ends

theorem runIf {condition : Prop} [Decidable condition] {program : Fuelled ε σ Unit}
    {after : Unit → σ → Prop} (run : condition → Ends program state after)
    (skip : ¬ condition → after () state) :
    Ends (fun fuel => Base.runIf condition (program fuel)) state after := by
  by_cases holds : condition
  · simp only [Base.runIf, if_pos holds]
    exact run holds
  · simp only [Base.runIf, if_neg holds]
    exact pure (skip holds)

theorem consequence {stronger : α → σ → Prop} {program : Fuelled ε σ α}
    (ends : Ends program state stronger)
    (weaken : ∀ value after, stronger value after → post value after) :
    Ends program state post := by
  obtain ⟨value, after, holds, ran⟩ := ends
  exact ⟨value, after, weaken value after holds, ran⟩

theorem bind (middle : α → σ → Prop) {last : β → σ → Prop} {first : Fuelled ε σ α}
    {second : α → Fuelled ε σ β} (one : Ends first state middle)
    (two : ∀ value after, middle value after → Ends (second value) after last) :
    Ends (fun fuel => first fuel >>= fun value => second value fuel) state last := by
  obtain ⟨value, between, holds, least, ran⟩ := one
  obtain ⟨result, after, done, enough, ranOn⟩ := two value between holds
  refine ⟨result, after, done, max least enough, fun fuel sufficient => ?_⟩
  have firstRan := ran fuel (Nat.le_trans (Nat.le_max_left ..) sufficient)
  have secondRan := ranOn fuel (Nat.le_trans (Nat.le_max_right ..) sufficient)
  show EStateM.bind (first fuel) (fun value => second value fuel) state = _
  rw [EStateM.bind, firstRan]
  exact secondRan

/-- A loop whose rounds keep the invariant and go down along a well-founded relation ends
with the invariant and without the condition. -/
theorem whileLoop {exhausted : ε} {condition : σ → Prop} [DecidablePred condition]
    {body : Fuelled ε σ Unit} {closer : σ → σ → Prop} (wellFounded : WellFounded closer)
    (invariant : σ → Prop) (start : invariant state)
    (round : ∀ state, invariant state → condition state →
      Ends body state fun _ after => invariant after ∧ closer after state) :
    Ends (whileLoop exhausted condition body) state
      fun _ after => invariant after ∧ ¬ condition after := by
  induction state using wellFounded.induction with
  | h state ih =>
      by_cases more : condition state
      · obtain ⟨_, between, ⟨kept, near⟩, least, ran⟩ := round state start more
        obtain ⟨_, after, done, enough, ranOn⟩ := ih between near kept
        refine ⟨(), after, done, max least enough + 1, fun fuel sufficient => ?_⟩
        obtain ⟨fuel, rfl⟩ : ∃ less, fuel = less + 1 := ⟨fuel - 1, by omega⟩
        have roundRan := ran fuel (by omega)
        have restRan := ranOn fuel (by omega)
        rw [whileLoop_succ, if_pos more]
        show EStateM.bind (body fuel) _ state = _
        rw [EStateM.bind, roundRan]
        exact restRan
      · refine ⟨(), state, ⟨start, more⟩, 1, fun fuel sufficient => ?_⟩
        obtain ⟨fuel, rfl⟩ : ∃ less, fuel = less + 1 := ⟨fuel - 1, by omega⟩
        rw [whileLoop_succ, if_neg more]

end Ends

end OpaeXilinx.Base
