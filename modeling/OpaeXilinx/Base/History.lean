import Mathlib.Data.List.Infix

/-!
# Histories

The history of a system is the list of its events, the last one first, so that the
suffixes of a history are the points in time it has gone through.  A property of events
that may look back holds throughout a history if it holds of every event at its point.
-/

namespace OpaeXilinx.Base

universe u v

variable {ι : Type u} {σ : Type v}

/-- The state after a history. -/
def replay (apply : σ → ι → σ) (start : σ) : List ι → σ
  | [] => start
  | event :: earlier => apply (replay apply start earlier) event

/-- Every event has the property, given the history before it. -/
def Throughout (property : ι → List ι → Prop) : List ι → Prop
  | [] => True
  | event :: earlier => property event earlier ∧ Throughout property earlier

instance Throughout.decidable {property : ι → List ι → Prop}
    [∀ event earlier, Decidable (property event earlier)] :
    (history : List ι) → Decidable (Throughout property history)
  | [] => .isTrue trivial
  | event :: earlier =>
      have : Decidable (Throughout property earlier) := decidable earlier
      inferInstanceAs (Decidable (property event earlier ∧ Throughout property earlier))

namespace Throughout

variable {property : ι → List ι → Prop} {history earlier : List ι} {event : ι}

/-- What holds throughout a history holds at each of its points. -/
theorem at_suffix (holds : Throughout property history) (point : event :: earlier <:+ history) :
    property event earlier := by
  induction history with
  | nil => simp at point
  | cons last before ih =>
      rcases List.suffix_cons_iff.mp point with same | inside
      · cases same
        exact holds.1
      · exact ih holds.2 inside

theorem of_mem (holds : Throughout property history) (member : event ∈ history) :
    ∃ earlier, property event earlier := by
  obtain ⟨later, earlier, rfl⟩ := List.append_of_mem member
  exact ⟨earlier, holds.at_suffix (List.suffix_append _ _)⟩

theorem of_forall (holds : ∀ event earlier, event :: earlier <:+ history → property event earlier) :
    Throughout property history := by
  induction history with
  | nil => trivial
  | cons last before ih =>
      exact ⟨holds last before List.suffix_rfl,
        ih fun event earlier point => holds event earlier (point.trans (List.suffix_cons _ _))⟩

end Throughout

/-- A view of the state that no event since some point has changed is what it was at that
point. -/
theorem replay_view_eq {τ : Type*} {apply : σ → ι → σ} {start : σ} (view : σ → τ)
    {since now : List ι} (later : since <:+ now)
    (kept : ∀ event earlier, event :: earlier <:+ now → since <:+ earlier →
      view (apply (replay apply start earlier) event) = view (replay apply start earlier)) :
    view (replay apply start now) = view (replay apply start since) := by
  induction now with
  | nil => rw [List.suffix_nil.mp later]
  | cons last before ih =>
      rcases List.suffix_cons_iff.mp later with same | inside
      · rw [same]
      · rw [← ih inside fun event earlier point => kept event earlier
          (point.trans (List.suffix_cons _ _))]
        exact kept last before List.suffix_rfl inside

end OpaeXilinx.Base
