import Mathlib.Data.List.Nodup
import Mathlib.Data.List.Basic

/-!
# Binary search trees

Trees whose in-order sequence is strictly increasing in a key.  Balancing is not
part of the picture: whatever reshapes a tree without touching its in-order
sequence keeps it ordered.
-/

namespace OpaeXilinx.Base

universe u

/-- A binary tree with values at its inner nodes. -/
inductive SearchTree (α : Type u) where
  | leaf
  | node (left : SearchTree α) (value : α) (right : SearchTree α)
  deriving Repr, DecidableEq

namespace SearchTree

variable {α : Type u}

/-- The in-order sequence. -/
def toList : SearchTree α → List α
  | .leaf => []
  | .node left value right => left.toList ++ value :: right.toList

@[simp] theorem toList_leaf : (leaf : SearchTree α).toList = [] := rfl

@[simp] theorem toList_node (left : SearchTree α) (value : α) (right : SearchTree α) :
    (node left value right).toList = left.toList ++ value :: right.toList := rfl

/-- Apply a function to every value. -/
def map {β : Type u} (image : α → β) : SearchTree α → SearchTree β
  | .leaf => .leaf
  | .node left value right => .node (left.map image) (image value) (right.map image)

@[simp] theorem toList_map {β : Type u} (image : α → β) (tree : SearchTree α) :
    (tree.map image).toList = tree.toList.map image := by
  induction tree with
  | leaf => rfl
  | node left value right leftIH rightIH => simp [map, leftIH, rightIH]

/-- The in-order sequence is strictly increasing in the key. -/
def Ordered (key : α → Nat) (tree : SearchTree α) : Prop :=
  tree.toList.Pairwise fun first second => key first < key second

theorem ordered_leaf (key : α → Nat) : Ordered key (.leaf : SearchTree α) := List.Pairwise.nil

theorem ordered_node {key : α → Nat} {left right : SearchTree α} {value : α} :
    Ordered key (.node left value right) ↔
      Ordered key left ∧ Ordered key right ∧
      (∀ item ∈ left.toList, key item < key value) ∧
      (∀ item ∈ right.toList, key value < key item) := by
  simp only [Ordered, toList_node, List.pairwise_append, List.pairwise_cons, List.mem_cons]
  constructor
  · rintro ⟨before, ⟨above, after⟩, across⟩
    exact ⟨before, after, fun item member => across item member value (.inl rfl), above⟩
  · rintro ⟨before, after, below, above⟩
    refine ⟨before, ⟨above, after⟩, ?_⟩
    rintro first member second (rfl | later)
    · exact below first member
    · exact Nat.lt_trans (below first member) (above second later)

/-- In an ordered tree the key determines the value. -/
theorem Ordered.eq_of_key {key : α → Nat} {tree : SearchTree α} (ordered : Ordered key tree)
    {first second : α} (firstMem : first ∈ tree.toList) (secondMem : second ∈ tree.toList)
    (equal : key first = key second) : first = second := by
  have distinct : (tree.toList.map key).Nodup :=
    (List.pairwise_map.mpr ordered).imp Nat.ne_of_lt
  exact List.inj_on_of_nodup_map distinct firstMem secondMem equal

end SearchTree

end OpaeXilinx.Base
