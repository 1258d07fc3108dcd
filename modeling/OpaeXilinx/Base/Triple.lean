import Mathlib.Init

/-!
# Pre- and postconditions of fallible stateful programs

Programs are computations of `EStateM`, whose state survives a failure: an error is
the value of an early exit, not the undoing of what came before it.  A triple
therefore has two postconditions, one for the normal exit and one for the early one.
-/

namespace OpaeXilinx.Base

variable {ε σ α β : Type}

/-- Fail if a condition holds. -/
def throwIf (condition : Prop) [Decidable condition] (err : ε) : EStateM ε σ Unit :=
  if condition then throw err else pure ()

/-- Run a program if a condition holds. -/
def runIf (condition : Prop) [Decidable condition] (program : EStateM ε σ Unit) :
    EStateM ε σ Unit :=
  if condition then program else pure ()

/-- Run a program and go on with how it has ended. -/
def attempt (program : EStateM ε σ α) : EStateM ε σ (Except ε α) := fun state =>
  match program state with
  | .ok value after => .ok (.ok value) after
  | .error err after => .ok (.error err) after

/-- End in a given way. -/
def conclude (outcome : Except ε α) : EStateM ε σ α := fun state =>
  match outcome with
  | .ok value => .ok value state
  | .error err => .error err state

/-- The state in which a program ends. -/
def endState : EStateM.Result ε σ α → σ
  | .ok _ state => state
  | .error _ state => state

/-- The program has ended normally. -/
def succeeded : EStateM.Result ε σ α → Bool
  | .ok _ _ => true
  | .error _ _ => false

theorem eq_ok_of_succeeded {result : EStateM.Result ε σ Unit} (normal : succeeded result = true) :
    result = .ok () (endState result) := by
  cases result with
  | ok value state => rfl
  | error err state => cases normal

/-- From a state with the precondition, the program ends normally with `post` or fails
with `fail`. -/
def Triple (pre : σ → Prop) (program : EStateM ε σ α) (post : α → σ → Prop)
    (fail : ε → σ → Prop) : Prop :=
  ∀ state, pre state → match program state with
    | .ok value after => post value after
    | .error err after => fail err after

namespace Triple

variable {pre : σ → Prop} {post : α → σ → Prop} {fail : ε → σ → Prop}

/-- A run that ends normally ends with the postcondition. -/
theorem of_ok {program : EStateM ε σ α} (triple : Triple pre program post fail) {state after : σ}
    {value : α} (holds : pre state) (result : program state = .ok value after) :
    post value after := by
  have ran := triple state holds
  rwa [result] at ran

theorem of_error {program : EStateM ε σ α} (triple : Triple pre program post fail)
    {state after : σ} {err : ε} (holds : pre state) (result : program state = .error err after) :
    fail err after := by
  have ran := triple state holds
  rwa [result] at ran

/-- A program that cannot fail ends normally. -/
theorem succeeds {program : EStateM ε σ α} (triple : Triple pre program post fun _ _ => False)
    (state : σ) (holds : pre state) :
    ∃ value after, program state = .ok value after ∧ post value after := by
  cases result : program state with
  | ok value after => exact ⟨value, after, rfl, triple.of_ok holds result⟩
  | error err after => exact (triple.of_error holds result).elim

theorem pure {value : α} (holds : ∀ state, pre state → post value state) :
    Triple pre (Pure.pure value : EStateM ε σ α) post fail :=
  holds

theorem throw {err : ε} (holds : ∀ state, pre state → fail err state) :
    Triple pre (MonadExcept.throw err : EStateM ε σ α) post fail :=
  holds

theorem bind (middle : α → σ → Prop) {last : β → σ → Prop} {first : EStateM ε σ α}
    {second : α → EStateM ε σ β} (one : Triple pre first middle fail)
    (two : ∀ value, Triple (middle value) (second value) last fail) :
    Triple pre (first >>= second) last fail := by
  intro state holds
  show match EStateM.bind first second state with
    | .ok value after => last value after
    | .error err after => fail err after
  simp only [EStateM.bind]
  cases result : first state with
  | ok value after => exact two value after (one.of_ok holds result)
  | error err after => exact one.of_error holds result

/-- The second program starts from a state that is known. -/
theorem bind_at (middle : α → σ → Prop) {last : β → σ → Prop} {first : EStateM ε σ α}
    {second : α → EStateM ε σ β} (one : Triple pre first middle fail)
    (two : ∀ value state, middle value state →
      Triple (fun current => current = state) (second value) last fail) :
    Triple pre (first >>= second) last fail :=
  bind middle one fun value state holds => two value state holds state rfl

theorem modify {image : σ → σ} {after : PUnit → σ → Prop}
    (holds : ∀ state, pre state → after ⟨⟩ (image state)) :
    Triple pre (modify image : EStateM ε σ PUnit) after fail :=
  holds

/-- A change of a known state. -/
theorem modify_bind {image : σ → σ} {start : σ} {rest : EStateM ε σ α}
    (triple : Triple (fun current => current = image start) rest post fail) :
    Triple (fun current => current = start) (MonadStateOf.modifyGet (fun state => ((), image state))
      >>= fun _ => rest) post fail := by
  intro current same
  rw [same]
  exact triple (image start) rfl

theorem ite {condition : Prop} [Decidable condition] {yes no : EStateM ε σ α}
    (whenTrue : condition → Triple pre yes post fail)
    (whenFalse : ¬ condition → Triple pre no post fail) :
    Triple pre (if condition then yes else no) post fail := by
  by_cases holds : condition
  · rw [if_pos holds]
    exact whenTrue holds
  · rw [if_neg holds]
    exact whenFalse holds

theorem throwIf {condition : Prop} [Decidable condition] {err : ε} {after : Unit → σ → Prop}
    (whenTrue : condition → ∀ state, pre state → fail err state)
    (whenFalse : ¬ condition → ∀ state, pre state → after () state) :
    Triple pre (throwIf condition err) after fail :=
  ite (fun holds => throw (whenTrue holds)) fun fails => pure (whenFalse fails)

theorem runIf {condition : Prop} [Decidable condition] {program : EStateM ε σ Unit}
    {after : Unit → σ → Prop} (whenTrue : condition → Triple pre program after fail)
    (whenFalse : ¬ condition → ∀ state, pre state → after () state) :
    Triple pre (runIf condition program) after fail :=
  ite whenTrue fun fails => pure (whenFalse fails)

theorem attempt {program : EStateM ε σ α} {after : Except ε α → σ → Prop}
    (triple : Triple pre program (fun value => after (.ok value)) fun err => after (.error err)) :
    Triple pre (attempt program) after fail := by
  intro state holds
  simp only [Base.attempt]
  cases result : program state with
  | ok value next => exact triple.of_ok holds result
  | error err next => exact triple.of_error holds result

/-- What comes behind an attempt, for each way in which it may end. -/
theorem attempt_bind {program : EStateM ε σ α} {rest : Except ε α → EStateM ε σ β}
    {ok : α → σ → Prop} {error : ε → σ → Prop} {last : β → σ → Prop}
    (tried : Triple pre program ok error)
    (whenOk : ∀ value, Triple (ok value) (rest (.ok value)) last fail)
    (whenError : ∀ err, Triple (error err) (rest (.error err)) last fail) :
    Triple pre (Base.attempt program >>= rest) last fail := by
  intro state holds
  show match EStateM.bind (Base.attempt program) rest state with
    | .ok value after => last value after
    | .error err after => fail err after
  simp only [EStateM.bind, Base.attempt]
  cases result : program state with
  | ok value next => exact whenOk value next (tried.of_ok holds result)
  | error err next => exact whenError err next (tried.of_error holds result)

theorem conclude {outcome : Except ε α} (ok : ∀ value, outcome = .ok value →
      ∀ state, pre state → post value state)
    (error : ∀ err, outcome = .error err → ∀ state, pre state → fail err state) :
    Triple pre (conclude outcome) post fail := by
  intro state holds
  cases outcome with
  | ok value => exact ok value rfl state holds
  | error err => exact error err rfl state holds

/-- A precondition that does not look at the state. -/
theorem of_fact {fact : Prop} {program : EStateM ε σ α}
    (triple : fact → Triple pre program post fail) :
    Triple (fun state => fact ∧ pre state) program post fail :=
  fun state ⟨holds, begins⟩ => triple holds state begins

/-- Reading the state fixes it for what follows. -/
theorem get_bind {rest : σ → EStateM ε σ α}
    (each : ∀ state, pre state → Triple (fun current => current = state) (rest state) post fail) :
    Triple pre (MonadState.get >>= rest) post fail :=
  fun state holds => each state holds state rfl

/-- What holds however a program ends holds of the state it ends in. -/
theorem at_end {program : EStateM ε σ α} {holds : σ → Prop} {state : σ}
    (triple : Triple pre program (fun _ => holds) (fun _ => holds)) (begins : pre state) :
    holds (endState (program state)) := by
  cases result : program state with
  | ok value after => exact triple.of_ok begins result
  | error err after => exact triple.of_error begins result

/-- What two triples say of a program holds together. -/
theorem and {pre' : σ → Prop} {post' : α → σ → Prop} {fail' : ε → σ → Prop}
    {program : EStateM ε σ α}
    (one : Triple pre program post fail) (two : Triple pre' program post' fail') :
    Triple (fun state => pre state ∧ pre' state) program
      (fun value state => post value state ∧ post' value state)
      (fun err state => fail err state ∧ fail' err state) := by
  intro state ⟨holds, holds'⟩
  cases result : program state with
  | ok value after => exact ⟨one.of_ok holds result, two.of_ok holds' result⟩
  | error err after => exact ⟨one.of_error holds result, two.of_error holds' result⟩

/-- A program ends in some way. -/
theorem trivially (program : EStateM ε σ α) :
    Triple pre program (fun _ _ => True) fun _ _ => True := by
  intro state _
  cases program state <;> trivial

theorem consequence {pre' : σ → Prop} {post' : α → σ → Prop} {fail' : ε → σ → Prop}
    {program : EStateM ε σ α} (triple : Triple pre program post fail)
    (before : ∀ state, pre' state → pre state)
    (after : ∀ value state, post value state → post' value state)
    (failed : ∀ err state, fail err state → fail' err state) :
    Triple pre' program post' fail' := by
  intro state holds
  cases result : program state with
  | ok value next => exact after value next (triple.of_ok (before state holds) result)
  | error err next => exact failed err next (triple.of_error (before state holds) result)

end Triple

section Maintains

variable {holds : σ → Prop}

/-- What holds before the program holds after it, however it ends. -/
abbrev Maintains (holds : σ → Prop) (program : EStateM ε σ α) : Prop :=
  Triple holds program (fun _ => holds) fun _ => holds

namespace Maintains

theorem pure (value : α) : Maintains holds (Pure.pure value : EStateM ε σ α) :=
  Triple.pure fun _ same => same

theorem throw (err : ε) : Maintains holds (MonadExcept.throw err : EStateM ε σ α) :=
  Triple.throw fun _ same => same

theorem bind {first : EStateM ε σ α} {second : α → EStateM ε σ β} (one : Maintains holds first)
    (two : ∀ value, Maintains holds (second value)) : Maintains holds (first >>= second) :=
  Triple.bind _ one two

theorem get_bind {rest : σ → EStateM ε σ α} (each : ∀ state, Maintains holds (rest state)) :
    Maintains holds (MonadState.get >>= rest) :=
  fun state same => each state state same

theorem modify {image : σ → σ} (keeps : ∀ state, holds state → holds (image state)) :
    Maintains holds (modify image : EStateM ε σ PUnit) :=
  Triple.modify keeps

theorem ite {condition : Prop} [Decidable condition] {yes no : EStateM ε σ α}
    (whenTrue : Maintains holds yes) (whenFalse : Maintains holds no) :
    Maintains holds (if condition then yes else no) :=
  Triple.ite (fun _ => whenTrue) fun _ => whenFalse

theorem throwIf {condition : Prop} [Decidable condition] {err : ε} :
    Maintains holds (Base.throwIf condition err : EStateM ε σ Unit) :=
  ite (throw err) (pure ())

theorem runIf {condition : Prop} [Decidable condition] {program : EStateM ε σ Unit}
    (keeps : Maintains holds program) : Maintains holds (Base.runIf condition program) :=
  ite keeps (pure ())

theorem attempt {program : EStateM ε σ α} (keeps : Maintains holds program) :
    Maintains holds (Base.attempt program) :=
  Triple.attempt keeps

theorem conclude (outcome : Except ε α) : Maintains holds (Base.conclude outcome) :=
  Triple.conclude (fun _ _ _ same => same) fun _ _ _ same => same

end Maintains

end Maintains

section Preserves

variable {γ : Type} {view : σ → γ}

/-- The program leaves a view of the state as it is, however it ends. -/
abbrev Preserves (view : σ → γ) (program : EStateM ε σ α) : Prop :=
  ∀ P : γ → Prop, Triple (fun state => P (view state)) program
    (fun _ state => P (view state)) fun _ state => P (view state)

namespace Preserves

theorem pure (value : α) : Preserves view (Pure.pure value : EStateM ε σ α) :=
  fun _ => Triple.pure fun _ holds => holds

theorem throw (err : ε) : Preserves view (MonadExcept.throw err : EStateM ε σ α) :=
  fun _ => Triple.throw fun _ holds => holds

theorem bind {first : EStateM ε σ α} {second : α → EStateM ε σ β} (one : Preserves view first)
    (two : ∀ value, Preserves view (second value)) : Preserves view (first >>= second) :=
  fun P => Triple.bind _ (one P) fun value => two value P

/-- A program that looks at the state. -/
theorem get_bind {rest : σ → EStateM ε σ α} (each : ∀ state, Preserves view (rest state)) :
    Preserves view (MonadState.get >>= rest) := fun P =>
  Triple.get_bind fun state holds => (each state P).consequence (fun _ same => same ▸ holds)
    (fun _ _ holds => holds) fun _ _ holds => holds

theorem modify {image : σ → σ} (keeps : ∀ state, view (image state) = view state) :
    Preserves view (modify image : EStateM ε σ PUnit) :=
  fun _ => Triple.modify fun state holds => (keeps state).symm ▸ holds

theorem ite {condition : Prop} [Decidable condition] {yes no : EStateM ε σ α}
    (whenTrue : Preserves view yes) (whenFalse : Preserves view no) :
    Preserves view (if condition then yes else no) :=
  fun P => Triple.ite (fun _ => whenTrue P) fun _ => whenFalse P

theorem throwIf {condition : Prop} [Decidable condition] {err : ε} :
    Preserves view (Base.throwIf condition err : EStateM ε σ Unit) :=
  ite (throw err) (pure ())

theorem runIf {condition : Prop} [Decidable condition] {program : EStateM ε σ Unit}
    (keeps : Preserves view program) : Preserves view (Base.runIf condition program) :=
  ite keeps (pure ())

end Preserves

end Preserves

end OpaeXilinx.Base
