import Mathlib.Algebra.Group.Nat.Defs
import Mathlib.Data.Nat.Log
import OpaeXilinx.Base.SearchTree

/-!
# Red-black trees in memory

A tree whose nodes are linked by pointers: every node knows its parent and its
children.  The walks to the first node and to the successor of a node are the usual
pointer walks; they carry fuel for their loops and fail on memory that is not in use.

Removing a node is specified and not implemented: it leaves a valid tree without
the node, and the links of the removed node itself as they were.
-/

namespace OpaeXilinx.Base

inductive Color where
  | red | black
  deriving DecidableEq, Repr

abbrev Ptr := Nat

/-- A node in memory. -/
structure RbNode where
  parent : Option Ptr
  left : Option Ptr
  right : Option Ptr
  color : Color
  deriving DecidableEq, Repr

/-- The root pointer and the nodes at the addresses in use. -/
structure RbHeap where
  root : Option Ptr
  nodes : Ptr → Option RbNode

/-- Down the left links as far as they go. -/
def leftmost (nodes : Ptr → Option RbNode) : Nat → Ptr → Option Ptr
  | 0, _ => none
  | fuel + 1, ptr =>
      match nodes ptr with
      | none => none
      | some node =>
          match node.left with
          | none => some ptr
          | some left => leftmost nodes fuel left

/-- Up the parent links for as long as they are reached from the right. -/
def ascend (nodes : Ptr → Option RbNode) : Nat → Ptr → Option (Option Ptr)
  | 0, _ => none
  | fuel + 1, ptr =>
      match nodes ptr with
      | none => none
      | some node =>
          match node.parent with
          | none => some none
          | some parent =>
              match nodes parent with
              | none => none
              | some above =>
                  if above.right = some ptr then ascend nodes fuel parent
                  else some (some parent)

/-- `rb_first`: the first node of the tree, if there is one. -/
def rbFirst (heap : RbHeap) (fuel : Nat) : Option (Option Ptr) :=
  match heap.root with
  | none => some none
  | some root => (leftmost heap.nodes fuel root).map some

/-- `rb_next`: the successor of a node, if there is one.  A red node that is its own
parent is not linked into any tree. -/
def rbNext (heap : RbHeap) (fuel : Nat) (ptr : Ptr) : Option (Option Ptr) :=
  match heap.nodes ptr with
  | none => none
  | some node =>
      if node.parent = some ptr ∧ node.color = .red then some none
      else
        match node.right with
        | some right => (leftmost heap.nodes fuel right).map some
        | none => ascend heap.nodes fuel ptr

abbrev RbTree := SearchTree (Ptr × Color)

namespace RbTree

/-- The pointers in order. -/
def ptrs (tree : RbTree) : List Ptr := tree.toList.map Prod.fst

@[simp] theorem ptrs_leaf : ptrs .leaf = [] := rfl

@[simp] theorem ptrs_node (left right : RbTree) (item : Ptr × Color) :
    ptrs (.node left item right) = left.ptrs ++ item.1 :: right.ptrs := by
  simp [ptrs]

/-- The pointer to the root of a subtree. -/
def rootPtr : RbTree → Option Ptr
  | .leaf => none
  | .node _ item _ => some item.1

/-- The nodes of a subtree below the given parent, in order. -/
def layout (parent : Option Ptr) : RbTree → List (Ptr × RbNode)
  | .leaf => []
  | .node left item right =>
      layout (some item.1) left ++
        (item.1, ⟨parent, rootPtr left, rootPtr right, item.2⟩) :: layout (some item.1) right

@[simp] theorem layout_map_fst (parent : Option Ptr) (tree : RbTree) :
    (tree.layout parent).map Prod.fst = tree.ptrs := by
  induction tree generalizing parent with
  | leaf => rfl
  | node left item right leftIH rightIH => simp [layout, leftIH, rightIH]

theorem rootPtr_mem {tree : RbTree} {ptr : Ptr} (root : tree.rootPtr = some ptr) :
    ptr ∈ tree.ptrs := by
  cases tree with
  | leaf => cases root
  | node left item right =>
      cases root
      simp

/-- The right link of a node leads to a node of the tree. -/
theorem right_mem {tree : RbTree} {parent : Option Ptr} {entry : Ptr × RbNode} {child : Ptr}
    (member : entry ∈ tree.layout parent) (right : entry.2.right = some child) :
    child ∈ tree.ptrs := by
  induction tree generalizing parent with
  | leaf => cases member
  | node left item rightTree leftIH rightIH =>
      simp only [layout, List.mem_append, List.mem_cons] at member
      simp only [ptrs_node, List.mem_append, List.mem_cons]
      rcases member with inLeft | rfl | inRight
      · exact .inl (leftIH inLeft)
      · exact .inr (.inr (rootPtr_mem right))
      · exact .inr (.inr (rightIH inRight))

/-- No red node has a red child, and every path down passes the same number of black
nodes.  The colour is that of the root, and a leaf is black. -/
inductive Balanced : RbTree → Color → Nat → Prop where
  | leaf : Balanced .leaf .black 0
  | red {left right : RbTree} {height : Nat} (ptr : Ptr) :
      Balanced left .black height → Balanced right .black height →
      Balanced (.node left (ptr, .red) right) .red height
  | black {left right : RbTree} {leftColor rightColor : Color} {height : Nat} (ptr : Ptr) :
      Balanced left leftColor height → Balanced right rightColor height →
      Balanced (.node left (ptr, .black) right) .black (height + 1)

/-- Without black nodes on the way down there is a single red node at most. -/
theorem Balanced.flat {tree : RbTree} {color : Color} (balanced : Balanced tree color 0) :
    tree = .leaf ∨ ∃ ptr, tree = .node .leaf (ptr, .red) .leaf ∧ color = .red := by
  cases balanced with
  | leaf => exact .inl rfl
  | red ptr leftBalanced rightBalanced =>
      cases leftBalanced
      cases rightBalanced
      exact .inr ⟨ptr, rfl, rfl⟩

/-- The first node has no left child.  Its successor is its right child if it has one,
in which case it is black, and else its parent. -/
theorem Balanced.first {tree : RbTree} {color : Color} {height : Nat} {first : Ptr}
    {rest : List Ptr} (balanced : Balanced tree color height) (parent : Option Ptr)
    (order : tree.ptrs = first :: rest) :
    ∃ node, (first, node) ∈ tree.layout parent ∧ node.left = none ∧
      (node.right = none ∧ node.parent = rest.head?.or parent ∨
        node.right = rest.head? ∧ rest ≠ [] ∧ node.color = .black) := by
  induction tree generalizing parent color height first rest with
  | leaf => simp at order
  | node left item right leftIH rightIH =>
      cases left with
      | leaf =>
          obtain ⟨rfl, rfl⟩ : item.1 = first ∧ ptrs right = rest := by simpa using order
          refine ⟨⟨parent, none, rootPtr right, item.2⟩, ?_, rfl, ?_⟩
          · simp [layout, rootPtr]
          -- a leaf on the left leaves no black node on the right
          have flat : right = .leaf ∨
              ∃ ptr, right = .node .leaf (ptr, .red) .leaf ∧ item.2 = .black := by
            cases balanced with
            | red ptr leftBalanced rightBalanced =>
                cases leftBalanced
                cases rightBalanced
                exact .inl rfl
            | black ptr leftBalanced rightBalanced =>
                cases leftBalanced
                rcases rightBalanced.flat with empty | ⟨child, single, -⟩
                · exact .inl empty
                · exact .inr ⟨child, single, rfl⟩
          rcases flat with rfl | ⟨child, rfl, dark⟩
          · exact .inl ⟨rfl, rfl⟩
          · exact .inr ⟨rfl, by simp, dark⟩
      | node leftLeft leftItem leftRight =>
          obtain ⟨leftColor, leftHeight, leftBalanced⟩ : ∃ leftColor leftHeight,
              Balanced (.node leftLeft leftItem leftRight) leftColor leftHeight := by
            cases balanced with
            | red ptr leftBalanced rightBalanced => exact ⟨_, _, leftBalanced⟩
            | black ptr leftBalanced rightBalanced => exact ⟨_, _, leftBalanced⟩
          generalize leftTree : SearchTree.node leftLeft leftItem leftRight = left at *
          have filled : ptrs left ≠ [] := by simp [← leftTree]
          obtain ⟨before, leftRest, leftOrder⟩ := List.exists_cons_of_ne_nil filled
          rw [ptrs_node, leftOrder, List.cons_append, List.cons.injEq] at order
          obtain ⟨rfl, rfl⟩ := order
          obtain ⟨node, member, noLeft, next⟩ := leftIH leftBalanced (some item.1) leftOrder
          refine ⟨node, List.mem_append_left _ member, noLeft, ?_⟩
          rcases next with ⟨noRight, above⟩ | ⟨child, more, dark⟩
          · refine .inl ⟨noRight, ?_⟩
            cases leftRest <;> simpa using above
          · refine .inr ⟨?_, by simp, dark⟩
            cases leftRest with
            | nil => contradiction
            | cons after leftRest => simpa using child

theorem leftmost_layout {nodes : Ptr → Option RbNode} {tree : RbTree} {parent : Option Ptr}
    {root first : Ptr} {rest : List Ptr} {fuel : Nat}
    (holds : ∀ entry ∈ tree.layout parent, nodes entry.1 = some entry.2)
    (top : tree.rootPtr = some root) (order : tree.ptrs = first :: rest)
    (enough : tree.ptrs.length ≤ fuel) : leftmost nodes fuel root = some first := by
  induction tree generalizing parent root first rest fuel with
  | leaf => cases top
  | node left item right leftIH rightIH =>
      cases top
      cases fuel with
      | zero => simp at enough
      | succ fuel =>
          have here : nodes item.1 = some ⟨parent, rootPtr left, rootPtr right, item.2⟩ :=
            holds (item.1, _) (by simp [layout])
          simp only [leftmost, here]
          cases left with
          | leaf =>
              simp only [rootPtr, Option.some.injEq]
              simpa using (List.cons.inj order).1
          | node leftLeft leftItem leftRight =>
              simp only [rootPtr]
              generalize leftTree : SearchTree.node leftLeft leftItem leftRight = left at *
              have filled : ptrs left ≠ [] := by simp [← leftTree]
              obtain ⟨before, leftRest, leftOrder⟩ := List.exists_cons_of_ne_nil filled
              rw [ptrs_node, leftOrder, List.cons_append, List.cons.injEq] at order
              obtain ⟨rfl, rfl⟩ := order
              have below : ∀ entry ∈ layout (some item.1) left, nodes entry.1 = some entry.2 := by
                intro entry member
                exact holds entry (List.mem_append_left _ member)
              apply leftIH below (by rw [← leftTree]; rfl) leftOrder
              simp only [ptrs_node, List.length_append, List.length_cons] at enough
              omega

end RbTree

/-- The heap holds the red-black tree. -/
structure RbHeap.Holds (heap : RbHeap) (tree : RbTree) : Prop where
  balanced : ∃ height, RbTree.Balanced tree .black height
  distinct : tree.ptrs.Nodup
  root : heap.root = tree.rootPtr
  nodes : ∀ entry ∈ tree.layout none, heap.nodes entry.1 = some entry.2

namespace RbHeap.Holds

variable {heap : RbHeap} {tree : RbTree}

theorem rbFirst (holds : heap.Holds tree) {fuel : Nat} (enough : tree.ptrs.length ≤ fuel) :
    rbFirst heap fuel = some tree.ptrs.head? := by
  simp only [Base.rbFirst, holds.root]
  cases order : tree.ptrs with
  | nil =>
      cases tree with
      | leaf => rfl
      | node left item right => simp at order
  | cons first rest =>
      cases top : tree.rootPtr with
      | none =>
          cases tree with
          | leaf => simp at order
          | node left item right => cases top
      | some root =>
          simp [RbTree.leftmost_layout holds.nodes top order enough]

/-- The first node of the tree, and where its successor is to be found. -/
theorem first (holds : heap.Holds tree) {first : Ptr} {rest : List Ptr}
    (order : tree.ptrs = first :: rest) :
    ∃ node, heap.nodes first = some node ∧ node.left = none ∧
      (node.right = none ∧ node.parent = rest.head? ∨
        node.right = rest.head? ∧ rest ≠ [] ∧ node.color = .black) := by
  obtain ⟨height, balanced⟩ := holds.balanced
  obtain ⟨node, member, noLeft, next⟩ := balanced.first none order
  exact ⟨node, holds.nodes _ member, noLeft, by simpa using next⟩

end RbHeap.Holds

/-! ## Removing nodes -/

/-- What is expected of `rb_erase` on trees up to a size. -/
def ErasesNodes (erase : RbHeap → Ptr → RbHeap) (size : Nat) : Prop :=
  ∀ heap tree ptr, heap.Holds tree → ptr ∈ tree.ptrs → tree.ptrs.length ≤ size →
    (∃ left, (erase heap ptr).Holds left ∧ left.ptrs = tree.ptrs.erase ptr) ∧
    (erase heap ptr).nodes ptr = heap.nodes ptr

/-- The links that the first node keeps when it is removed still lead to its
successor, although the tree around them may have been rotated: the successor was its
right child or its parent, it is now the first node, and no link of it leads back. -/
theorem rbNext_erased {heap : RbHeap} {tree : RbTree} {first : Ptr} {node : RbNode} {fuel : Nat}
    (holds : heap.Holds tree) (gone : first ∉ tree.ptrs) (kept : heap.nodes first = some node)
    (next : node.right = none ∧ node.parent = tree.ptrs.head? ∨
      node.right = tree.ptrs.head? ∧ tree.ptrs ≠ [] ∧ node.color = .black) :
    rbNext heap (fuel + 1) first = some tree.ptrs.head? := by
  cases order : tree.ptrs with
  | nil =>
      simp only [order, List.head?_nil, ne_eq, not_true_eq_false, false_and, and_false,
        or_false] at next
      simp [rbNext, kept, next, ascend]
  | cons second rest =>
      obtain ⟨after, found, noLeft, -⟩ := holds.first order
      have apart : second ≠ first := by
        intro same
        exact gone (by simp [order, same])
      simp only [order, List.head?_cons] at next
      rcases next with ⟨noRight, above⟩ | ⟨child, -, dark⟩
      · have back : after.right ≠ some first := by
          intro right
          obtain ⟨height, balanced⟩ := holds.balanced
          obtain ⟨same, member, -⟩ := balanced.first none order
          have equal : after = same := Option.some.inj (found ▸ holds.nodes _ member)
          exact gone (RbTree.right_mem member (equal ▸ right))
        simp [rbNext, kept, above, noRight, apart, ascend, found, back]
      · simp [rbNext, kept, child, dark, leftmost, found, noLeft]

namespace RbTree

/-- The tree below a pointer, read from memory. -/
def read (nodes : Ptr → Option RbNode) : Nat → Option Ptr → RbTree
  | 0, _ => .leaf
  | _ + 1, none => .leaf
  | fuel + 1, some ptr =>
      match nodes ptr with
      | none => .leaf
      | some node => .node (read nodes fuel node.left) (ptr, node.color) (read nodes fuel node.right)

theorem read_layout {nodes : Ptr → Option RbNode} {tree : RbTree} {parent : Option Ptr}
    {fuel : Nat} (holds : ∀ entry ∈ tree.layout parent, nodes entry.1 = some entry.2)
    (enough : tree.ptrs.length ≤ fuel) : read nodes fuel tree.rootPtr = tree := by
  induction tree generalizing parent fuel with
  | leaf => cases fuel <;> rfl
  | node left item right leftIH rightIH =>
      simp only [ptrs_node, List.length_append, List.length_cons] at enough
      cases fuel with
      | zero => omega
      | succ fuel =>
          have here : nodes item.1 = some ⟨parent, rootPtr left, rootPtr right, item.2⟩ :=
            holds (item.1, _) (by simp [layout])
          have below : ∀ entry ∈ layout (some item.1) left, nodes entry.1 = some entry.2 := by
            intro entry member
            exact holds entry (List.mem_append_left _ member)
          have above : ∀ entry ∈ layout (some item.1) right, nodes entry.1 = some entry.2 := by
            intro entry member
            exact holds entry (List.mem_append_right _ (.tail _ member))
          have root : rootPtr (.node left item right) = some item.1 := rfl
          simp only [root, read, here]
          rw [leftIH below (by omega), rightIH above (by omega)]

/-- A tree of the given black height, black but for single nodes at the bottom. -/
def build : Nat → List Ptr → RbTree
  | 0, [] => .leaf
  | 0, ptr :: _ => .node .leaf (ptr, .red) .leaf
  | height + 1, ptrs =>
      match ptrs.drop ((ptrs.length - 1) / 2) with
      | [] => .leaf
      | ptr :: above =>
          .node (build height (ptrs.take ((ptrs.length - 1) / 2))) (ptr, .black)
            (build height above)

/-- A list fits a black height when it has no less than the nodes of the full black
tree and no more than those of the next. -/
theorem build_balanced {height : Nat} {list : List Ptr}
    (most : 2 ^ height ≤ list.length + 1) (least : list.length + 1 ≤ 2 ^ (height + 1)) :
    (build height list).ptrs = list ∧ ∃ color, Balanced (build height list) color height ∧
      (list = [] ∨ 0 < height → color = .black) := by
  induction height generalizing list with
  | zero =>
      cases list with
      | nil => exact ⟨rfl, .black, .leaf, fun _ => rfl⟩
      | cons ptr rest =>
          have single : rest = [] := by simpa using least
          subst single
          exact ⟨by simp [build], .red, .red ptr .leaf .leaf, by simp⟩
  | succ height ih =>
      have double : 2 ^ (height + 1) = 2 * 2 ^ height := Nat.pow_succ'
      have fourfold : 2 ^ (height + 1 + 1) = 2 * 2 ^ (height + 1) := Nat.pow_succ'
      have positive : 0 < 2 ^ height := Nat.two_pow_pos height
      have split := List.take_append_drop ((list.length - 1) / 2) list
      have taken : (list.take ((list.length - 1) / 2)).length = (list.length - 1) / 2 := by
        rw [List.length_take]
        omega
      have dropped := List.length_drop (l := list) (i := (list.length - 1) / 2)
      simp only [build]
      cases upper : list.drop ((list.length - 1) / 2) with
      | nil =>
          rw [upper, List.length_nil] at dropped
          omega
      | cons ptr above =>
          rw [upper, List.length_cons] at dropped
          rw [upper] at split
          have below : 2 ^ height ≤ (list.take ((list.length - 1) / 2)).length + 1 := by omega
          have beyond : 2 ^ height ≤ above.length + 1 := by omega
          obtain ⟨leftPtrs, leftColor, leftBalanced, -⟩ := ih below (by omega)
          obtain ⟨rightPtrs, rightColor, rightBalanced, -⟩ := ih beyond (by omega)
          refine ⟨?_, .black, .black ptr leftBalanced rightBalanced, fun _ => rfl⟩
          rw [ptrs_node, leftPtrs, rightPtrs]
          exact split

/-- A red-black tree with the given nodes in order. -/
def ofList (list : List Ptr) : RbTree := build (Nat.log 2 (list.length + 1)) list

theorem ofList_balanced (list : List Ptr) :
    (ofList list).ptrs = list ∧ ∃ height, Balanced (ofList list) .black height := by
  have most := Nat.pow_log_le_self 2 (Nat.succ_ne_zero list.length)
  have least := Nat.lt_pow_succ_log_self Nat.one_lt_two (list.length + 1)
  obtain ⟨same, color, balanced, black⟩ := build_balanced most least.le
  have dark : color = .black := by
    apply black
    cases list with
    | nil => exact .inl rfl
    | cons ptr rest => exact .inr (Nat.log_pos Nat.one_lt_two (by simp))
  exact ⟨same, _, dark ▸ balanced⟩

end RbTree

/-- Writes the nodes of a tree to memory. -/
def RbHeap.store (heap : RbHeap) (tree : RbTree) : RbHeap :=
  ⟨tree.rootPtr, fun ptr => ((tree.layout none).lookup ptr).or (heap.nodes ptr)⟩

theorem lookup_of_mem {entries : List (Ptr × RbNode)} (distinct : (entries.map Prod.fst).Nodup)
    {entry : Ptr × RbNode} (member : entry ∈ entries) :
    entries.lookup entry.1 = some entry.2 := by
  induction entries with
  | nil => cases member
  | cons head rest ih =>
      obtain ⟨fresh, distinct⟩ := List.nodup_cons.mp distinct
      rcases List.mem_cons.mp member with rfl | later
      · exact List.lookup_cons_self
      · have apart : entry.1 ≠ head.1 := by
          intro same
          exact fresh (same ▸ List.mem_map_of_mem later)
        rw [List.lookup_cons, beq_false_of_ne apart]
        exact ih distinct later

theorem RbHeap.store_holds (heap : RbHeap) {tree : RbTree}
    (balanced : ∃ height, RbTree.Balanced tree .black height) (distinct : tree.ptrs.Nodup) :
    (heap.store tree).Holds tree where
  balanced := balanced
  distinct := distinct
  root := rfl
  nodes entry member := by
    have keys : ((tree.layout none).map Prod.fst).Nodup := by rwa [RbTree.layout_map_fst]
    simp [store, lookup_of_mem keys member]

/-- Removes a node by reading the tree and building the one without it. -/
def rebuildWithout (size : Nat) (heap : RbHeap) (ptr : Ptr) : RbHeap :=
  heap.store (.ofList ((RbTree.read heap.nodes size heap.root).ptrs.erase ptr))

theorem rebuildWithout_erases (size : Nat) : ErasesNodes (rebuildWithout size) size := by
  intro heap tree ptr holds member bounded
  have read : RbTree.read heap.nodes size heap.root = tree := by
    rw [holds.root]
    exact RbTree.read_layout holds.nodes bounded
  obtain ⟨order, balanced⟩ := RbTree.ofList_balanced (tree.ptrs.erase ptr)
  simp only [rebuildWithout, read]
  refine ⟨⟨_, heap.store_holds balanced ?_, order⟩, ?_⟩
  · rw [order]
    exact holds.distinct.erase ptr
  · have absent : ((RbTree.ofList (tree.ptrs.erase ptr)).layout none).lookup ptr = none := by
      rw [List.lookup_eq_none_iff]
      intro entry found
      have listed : entry.1 ∈ tree.ptrs.erase ptr := by
        rw [← order, ← RbTree.layout_map_fst none]
        exact List.mem_map_of_mem found
      have apart : ptr ≠ entry.1 := by
        rintro rfl
        exact holds.distinct.not_mem_erase listed
      simpa using apart
    simp [RbHeap.store, absent]

end OpaeXilinx.Base
