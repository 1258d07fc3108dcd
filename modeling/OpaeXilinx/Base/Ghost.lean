import OpaeXilinx.Base.Triple

/-!
# Programs that keep a record

A program may be run beside a record of what it does, which it writes and never
reads.  The record is erased by looking at the other component of the state: a program
with a record erases to one without when both end alike in every state.
-/

namespace OpaeXilinx.Base

/-- A state with a record beside it. -/
structure Ghost (σ τ : Type) where
  state : σ
  record : τ

variable {ε σ τ α β : Type}

/-- A program that records nothing. -/
def lift (program : EStateM ε σ α) : EStateM ε (Ghost σ τ) α := fun g =>
  match program g.state with
  | .ok value after => .ok value ⟨after, g.record⟩
  | .error err after => .error err ⟨after, g.record⟩

/-- Write to the record, given the state. -/
def note (entry : σ → τ → τ) : EStateM ε (Ghost σ τ) Unit :=
  modify fun g => { g with record := entry g.state g.record }

/-- Record how a program ends. -/
def noting (entry : Except ε Unit → τ → τ) (program : EStateM ε (Ghost σ τ) Unit) :
    EStateM ε (Ghost σ τ) Unit := fun g =>
  match program g with
  | .ok _ after => .ok () { after with record := entry (.ok ()) after.record }
  | .error err after => .error err { after with record := entry (.error err) after.record }

/-- What holds of a program holds of it beside a record that it does not touch. -/
theorem Triple.lift {pre : σ → Prop} {post : α → σ → Prop} {fail : ε → σ → Prop}
    {program : EStateM ε σ α} (triple : Triple pre program post fail) (kept : τ → Prop) :
    Triple (fun g : Ghost σ τ => pre g.state ∧ kept g.record) (lift program)
      (fun value g => post value g.state ∧ kept g.record)
      (fun err g => fail err g.state ∧ kept g.record) := by
  intro g holds
  simp only [Base.lift]
  cases result : program g.state with
  | ok value after => exact ⟨triple.of_ok holds.1 result, holds.2⟩
  | error err after => exact ⟨triple.of_error holds.1 result, holds.2⟩

theorem Triple.note {pre : Ghost σ τ → Prop} {entry : σ → τ → τ}
    {post : Unit → Ghost σ τ → Prop} {fail : ε → Ghost σ τ → Prop}
    (holds : ∀ g, pre g → post () { g with record := entry g.state g.record }) :
    Triple pre (Base.note entry) post fail :=
  Triple.modify holds

theorem Triple.noting {pre : Ghost σ τ → Prop} {entry : Except ε Unit → τ → τ}
    {program : EStateM ε (Ghost σ τ) Unit} {post : Unit → Ghost σ τ → Prop}
    {fail : ε → Ghost σ τ → Prop}
    (triple : Triple pre program
      (fun _ g => post () { g with record := entry (.ok ()) g.record })
      fun err g => fail err { g with record := entry (.error err) g.record }) :
    Triple pre (Base.noting entry program) post fail := by
  intro g holds
  simp only [Base.noting]
  cases result : program g with
  | ok value after => exact triple.of_ok holds result
  | error err after => exact triple.of_error holds result

theorem Preserves.lift {γ : Type} {view : τ → γ} (program : EStateM ε σ α) :
    Preserves (fun g : Ghost σ τ => view g.record) (Base.lift program) := by
  intro P g holds
  simp only [Base.lift]
  cases program g.state <;> exact holds

/-- What a program leaves as it is stays as it is beside a record. -/
theorem Preserves.beside {γ : Type} {view : σ → γ} {program : EStateM ε σ α}
    (preserves : Preserves view program) :
    Preserves (fun g : Ghost σ τ => (view g.state, g.record)) (Base.lift program) := by
  intro P g holds
  have kept : ∀ after : Ghost σ τ, P (view after.state, g.record) ∧ after.record = g.record →
      P (view after.state, after.record) := by
    intro after ⟨holds, same⟩
    rwa [same]
  exact ((preserves fun seen => P (seen, g.record)).lift (· = g.record)).consequence
    (fun _ holds => holds) (fun _ => kept) (fun _ => kept) g ⟨holds, rfl⟩

/-- Without its record the one program is the other. -/
def Erases (recorded : EStateM ε (Ghost σ τ) α) (plain : EStateM ε σ α) : Prop :=
  ∀ g, match recorded g, plain g.state with
    | .ok value after, .ok value' after' => value = value' ∧ after.state = after'
    | .error err after, .error err' after' => err = err' ∧ after.state = after'
    | _, _ => False

namespace Erases

theorem lift (program : EStateM ε σ α) : Erases (Base.lift program : EStateM ε (Ghost σ τ) α)
    program := by
  intro g
  simp only [Base.lift]
  cases program g.state <;> exact ⟨rfl, rfl⟩

theorem bind {first : EStateM ε (Ghost σ τ) α} {second : α → EStateM ε (Ghost σ τ) β}
    {plain : EStateM ε σ α} {rest : α → EStateM ε σ β} (one : Erases first plain)
    (two : ∀ value, Erases (second value) (rest value)) :
    Erases (first >>= second) (plain >>= rest) := by
  intro g
  have ran := one g
  simp only [Bind.bind, EStateM.bind]
  cases left : first g <;> cases right : plain g.state <;> rw [left, right] at ran
  · obtain ⟨rfl, rfl⟩ := ran
    exact two _ _
  · exact ran.elim
  · exact ran.elim
  · exact ran

/-- Looking at the state. -/
theorem get_bind {rest : Ghost σ τ → EStateM ε (Ghost σ τ) α} {plain : σ → EStateM ε σ α}
    (each : ∀ g, Erases (rest g) (plain g.state)) :
    Erases (MonadState.get >>= rest) (MonadState.get >>= plain) :=
  fun g => each g g

theorem pure (value : α) :
    Erases (Pure.pure value : EStateM ε (Ghost σ τ) α) (Pure.pure value) :=
  fun _ => ⟨rfl, rfl⟩

theorem ite {condition : Prop} [Decidable condition] {yes no : EStateM ε (Ghost σ τ) α}
    {plainYes plainNo : EStateM ε σ α} (whenTrue : Erases yes plainYes)
    (whenFalse : Erases no plainNo) :
    Erases (if condition then yes else no) (if condition then plainYes else plainNo) := by
  by_cases holds : condition
  · rw [if_pos holds, if_pos holds]
    exact whenTrue
  · rw [if_neg holds, if_neg holds]
    exact whenFalse

/-- A note at the end of a program. -/
theorem note {program : EStateM ε (Ghost σ τ) Unit} {plain : EStateM ε σ Unit}
    (erases : Erases program plain) (entry : σ → τ → τ) :
    Erases (program >>= fun _ => Base.note entry) plain := by
  intro g
  have ran := erases g
  simp only [Bind.bind, EStateM.bind]
  cases left : program g <;> cases right : plain g.state <;> rw [left, right] at ran
  · exact ⟨trivial, ran.2⟩
  · exact ran.elim
  · exact ran.elim
  · exact ran

/-- What holds of a program holds of it with its record. -/
theorem triple {recorded : EStateM ε (Ghost σ τ) α} {plain : EStateM ε σ α}
    (erases : Erases recorded plain) {pre : σ → Prop} {post : α → σ → Prop} {fail : ε → σ → Prop}
    (triple : Triple pre plain post fail) :
    Triple (fun g : Ghost σ τ => pre g.state) recorded (fun value g => post value g.state)
      fun err g => fail err g.state := by
  intro g holds
  have same := erases g
  cases left : recorded g <;> cases right : plain g.state <;> rw [left, right] at same
  · obtain ⟨rfl, rfl⟩ := same
    exact triple.of_ok holds right
  · exact same.elim
  · exact same.elim
  · obtain ⟨rfl, rfl⟩ := same
    exact triple.of_error holds right

end Erases

/-- How a program ends, apart from the state. -/
def outcome : EStateM.Result ε σ α → Except ε α
  | .ok value _ => .ok value
  | .error err _ => .error err

/-- The calls of a script are made one after the other, up to the first that fails. -/
inductive Follows {κ : Type} : List κ → List (κ × Except ε Unit) → Except ε Unit → Prop where
  | done : Follows [] [] (.ok ())
  | next {call : κ} {rest : List κ} {log : List (κ × Except ε Unit)} {result : Except ε Unit} :
      Follows rest log result → Follows (call :: rest) ((call, .ok ()) :: log) result
  | stop {call : κ} {rest : List κ} {err : ε} :
      Follows (call :: rest) [(call, .error err)] (.error err)

namespace Follows

variable {κ : Type} {script more : List κ} {log logMore : List (κ × Except ε Unit)}

theorem append {result : Except ε Unit} (one : Follows script log (.ok ()))
    (two : Follows more logMore result) : Follows (script ++ more) (log ++ logMore) result := by
  induction script generalizing log with
  | nil =>
      cases one
      exact two
  | cons call rest ih =>
      cases one with
      | next follows => exact .next (ih follows)

theorem append_failed {err : ε} (one : Follows script log (.error err)) :
    Follows (script ++ more) log (.error err) := by
  induction script generalizing log with
  | nil => cases one
  | cons call rest ih =>
      cases one with
      | next follows => exact .next (ih follows)
      | stop => exact .stop

theorem single (call : κ) (result : Except ε Unit) : Follows [call] [(call, result)] result := by
  cases result with
  | ok => exact .next .done
  | error err => exact .stop

end Follows

end OpaeXilinx.Base
