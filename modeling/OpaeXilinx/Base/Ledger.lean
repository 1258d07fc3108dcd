import Mathlib.Data.Multiset.AddSub
import OpaeXilinx.Base.History

/-!
# Ledgers of resources

A ledger is the history of the resources that a program acquires and releases, the
last deal first.  It is honest if nothing is released that is not held at that point;
then everything that was acquired is still held or was released exactly once.
-/

namespace OpaeXilinx.Base

universe u

/-- An entry of a ledger. -/
inductive Deal (α : Type u) where
  | acquire (resource : α)
  | release (resource : α)
  deriving DecidableEq, Repr

namespace Ledger

variable {α : Type u} [DecidableEq α] {ledger : List (Deal α)} {resource : α}

/-- What a deal does to the resources held. -/
def settle (held : Multiset α) : Deal α → Multiset α
  | .acquire resource => resource ::ₘ held
  | .release resource => held.erase resource

/-- The resources held after a ledger. -/
def held (ledger : List (Deal α)) : Multiset α := replay settle 0 ledger

@[simp] theorem held_nil : held ([] : List (Deal α)) = 0 := rfl

@[simp] theorem held_acquire : held (.acquire resource :: ledger) = resource ::ₘ held ledger := rfl

@[simp] theorem held_release : held (.release resource :: ledger) = (held ledger).erase resource :=
  rfl

/-- Nothing is released that is not held. -/
def Honest (ledger : List (Deal α)) : Prop :=
  Throughout (fun deal earlier => ∀ resource, deal = .release resource → resource ∈ held earlier)
    ledger

@[simp] theorem honest_nil : Honest ([] : List (Deal α)) := trivial

@[simp] theorem honest_acquire : Honest (.acquire resource :: ledger) ↔ Honest ledger := by
  constructor
  · exact fun honest => honest.2
  · exact fun honest => ⟨nofun, honest⟩

@[simp] theorem honest_release :
    Honest (.release resource :: ledger) ↔ resource ∈ held ledger ∧ Honest ledger := by
  constructor
  · rintro ⟨last, honest⟩
    exact ⟨last resource rfl, honest⟩
  · rintro ⟨member, honest⟩
    refine ⟨?_, honest⟩
    rintro _ ⟨⟩
    exact member

/-- Everything a ledger acquires. -/
def acquired : List (Deal α) → Multiset α
  | [] => 0
  | .acquire resource :: earlier => resource ::ₘ acquired earlier
  | .release _ :: earlier => acquired earlier

/-- Everything a ledger releases. -/
def released : List (Deal α) → Multiset α
  | [] => 0
  | .acquire _ :: earlier => released earlier
  | .release resource :: earlier => resource ::ₘ released earlier

/-- What was acquired is held, or was released once for each time it was acquired. -/
theorem Honest.acquired_eq (honest : Honest ledger) :
    acquired ledger = released ledger + held ledger := by
  induction ledger with
  | nil => rfl
  | cons deal earlier ih =>
      cases deal with
      | acquire resource =>
          rw [honest_acquire] at honest
          rw [acquired, released, held_acquire, ih honest, Multiset.add_cons]
      | release resource =>
          rw [honest_release] at honest
          rw [acquired, released, held_release, ih honest.2, Multiset.cons_add,
            ← Multiset.add_cons, Multiset.cons_erase honest.1]

end Ledger

end OpaeXilinx.Base
