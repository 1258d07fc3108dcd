import Mathlib.Logic.Function.Basic
import OpaeXilinx.Base.LinkedTree
import OpaeXilinx.Port.DmaRegion

/-!
# Tear-down of the region tree

`afu_dma_region_destroy` walks the tree while it takes it apart: a node is erased,
its resources are released, and only then is its successor looked up, through the links
that the erased node still carries.  The walk is modelled on the pointers themselves.
A region that has been freed is no longer in memory, and reading it is a failure.
-/

namespace OpaeXilinx.Port

open OpaeXilinx.Base

/-- The tree of `struct rb_node`, the regions that embed them, the resources held and
the regions visited so far. -/
structure TearDown where
  tree : RbHeap
  regions : Ptr → Option Region
  dma : Dma
  visited : List (Ptr × Region)

/-- `kfree` of a region, with the node embedded in it. -/
def TearDown.kfree (s : TearDown) (ptr : Ptr) : TearDown :=
  { s with
    tree := ⟨s.tree.root, Function.update s.tree.nodes ptr none⟩
    regions := Function.update s.regions ptr none }

/-- The loop of `afu_dma_region_destroy`.  There is no result for a read of memory that
is not in use, or when the fuel does not suffice. -/
def destroyLoop (erase : RbHeap → Ptr → RbHeap) (current : Option Mm) :
    Nat → Option Ptr → TearDown → Option TearDown
  | 0, _, _ => none
  | _ + 1, none, s => some s
  | fuel + 1, some node, s =>
      match s.regions node with
      | none => none
      | some region =>
          let s := { s with
            tree := erase s.tree node
            dma := destroyRegion current s.dma region
            visited := s.visited ++ [(node, region)] }
          match rbNext s.tree fuel node with
          | none => none
          | some next => destroyLoop erase current fuel next (s.kfree node)

/-- `afu_dma_region_destroy` on a linked tree. -/
def afuDmaRegionDestroyLinked (erase : RbHeap → Ptr → RbHeap) (current : Option Mm)
    (fuel : Nat) (tree : RbHeap) (regions : Ptr → Option Region) (dma : Dma) :
    Option TearDown :=
  match rbFirst tree fuel with
  | none => none
  | some node => destroyLoop erase current fuel node ⟨tree, regions, dma, []⟩

theorem TearDown.kfree_holds {s : TearDown} {tree : RbTree} {ptr : Ptr}
    (holds : s.tree.Holds tree) (gone : ptr ∉ tree.ptrs) : (s.kfree ptr).tree.Holds tree where
  balanced := holds.balanced
  distinct := holds.distinct
  root := holds.root
  nodes entry member := by
    have apart : entry.1 ≠ ptr := by
      rintro rfl
      rw [← RbTree.layout_map_fst none] at gone
      exact gone (List.mem_map_of_mem member)
    simp [TearDown.kfree, Function.update_of_ne apart, holds.nodes entry member]

section Loop

variable {erase : RbHeap → Ptr → RbHeap} {size : Nat} {regionAt : Ptr → Region}
  (current : Option Mm)

/-- One round at the first node: the node is freed, and the loop goes on at the first
node of what is left. -/
theorem destroyLoop_round (contract : ErasesNodes erase size) {s : TearDown} {tree : RbTree}
    {first : Ptr} {rest : List Ptr} (holds : s.tree.Holds tree)
    (order : tree.ptrs = first :: rest) (bounded : tree.ptrs.length ≤ size)
    (region : s.regions first = some (regionAt first)) :
    ∃ (s' : TearDown) (left : RbTree), s'.tree.Holds left ∧ left.ptrs = rest ∧
      s'.regions = Function.update s.regions first none ∧
      s'.dma = destroyRegion current s.dma (regionAt first) ∧
      s'.visited = s.visited ++ [(first, regionAt first)] ∧
      ∀ fuel, destroyLoop erase current (fuel + 2) (some first) s =
        destroyLoop erase current (fuel + 1) rest.head? s' := by
  obtain ⟨node, found, -, next⟩ := holds.first order
  obtain ⟨⟨left, leftHolds, leftOrder⟩, kept⟩ :=
    contract s.tree tree first holds (by simp [order]) bounded
  rw [order, List.erase_cons_head] at leftOrder
  subst leftOrder
  have gone : first ∉ left.ptrs := by
    have distinct := holds.distinct
    rw [order] at distinct
    exact (List.nodup_cons.mp distinct).1
  let erased : TearDown :=
    ⟨erase s.tree first, s.regions, destroyRegion current s.dma (regionAt first),
      s.visited ++ [(first, regionAt first)]⟩
  have remains : erased.tree.Holds left := leftHolds
  refine ⟨erased.kfree first, left, TearDown.kfree_holds remains gone, rfl, rfl, rfl, rfl, ?_⟩
  intro fuel
  have successor : rbNext (erase s.tree first) (fuel + 1) first = some left.ptrs.head? :=
    rbNext_erased leftHolds gone (kept.trans found) next
  simp only [destroyLoop, region, successor]
  rfl

/-- The whole loop: the nodes are visited and freed in order. -/
theorem destroyLoop_spec (contract : ErasesNodes erase size) {s : TearDown} {tree : RbTree}
    (holds : s.tree.Holds tree) (bounded : tree.ptrs.length ≤ size)
    (regions : ∀ ptr ∈ tree.ptrs, s.regions ptr = some (regionAt ptr)) :
    ∃ final : TearDown,
      (∀ fuel, tree.ptrs.length < fuel →
        destroyLoop erase current fuel tree.ptrs.head? s = some final) ∧
      final.tree.root = none ∧
      (∀ ptr ∈ tree.ptrs, final.regions ptr = none) ∧
      (∀ ptr ∉ tree.ptrs, final.regions ptr = s.regions ptr) ∧
      final.dma = (tree.ptrs.map regionAt).foldl (destroyRegion current) s.dma ∧
      final.visited = s.visited ++ tree.ptrs.map fun ptr => (ptr, regionAt ptr) := by
  generalize order : tree.ptrs = list at bounded regions ⊢
  induction list generalizing s tree with
  | nil =>
      refine ⟨s, ?_, ?_, by simp, by simp, rfl, by simp⟩
      · intro fuel enough
        cases fuel with
        | zero => simp at enough
        | succ fuel => rfl
      · rw [holds.root]
        cases tree with
        | leaf => rfl
        | node left item right => simp at order
  | cons first rest ih =>
      obtain ⟨s', left, leftHolds, leftOrder, leftRegions, leftDma, leftVisited, round⟩ :=
        destroyLoop_round current contract holds order (order ▸ bounded)
          (regions first (by simp))
      have distinct := holds.distinct
      rw [order, List.nodup_cons] at distinct
      have others : ∀ ptr ∈ rest, s'.regions ptr = some (regionAt ptr) := by
        intro ptr member
        have apart : ptr ≠ first := by
          rintro rfl
          exact distinct.1 member
        rw [leftRegions, Function.update_of_ne apart]
        exact regions ptr (.tail _ member)
      obtain ⟨final, runs, root, freed, untouched, dma, visited⟩ :=
        ih leftHolds leftOrder (Nat.le_of_succ_le bounded) others
      refine ⟨final, ?_, root, ?_, ?_, ?_, ?_⟩
      · intro fuel enough
        obtain ⟨more, rfl⟩ := Nat.exists_eq_add_of_le' (show 2 ≤ fuel by simp at enough; omega)
        rw [List.head?_cons, round]
        exact runs (more + 1) (by simp at enough; omega)
      · intro ptr member
        rcases List.mem_cons.mp member with rfl | later
        · rw [untouched ptr distinct.1, leftRegions, Function.update_self]
        · exact freed ptr later
      · intro ptr absent
        rw [List.mem_cons, not_or] at absent
        rw [untouched ptr absent.2, leftRegions, Function.update_of_ne absent.1]
      · rw [dma, leftDma]
        rfl
      · rw [visited, leftVisited]
        simp

end Loop

/-- The resources do not depend on the tree they are recorded in. -/
theorem destroyRegion_tree (current : Option Mm) (s : Dma) (region : Region)
    (tree : SearchTree Region) :
    destroyRegion current { s with dmaRegions := tree } region =
      { destroyRegion current s region with dmaRegions := tree } := by
  simp only [destroyRegion, afuDmaUnpinPages, putAllPages, dmaUnmapPage]
  cases current <;> split <;> rfl

theorem foldl_destroyRegion_tree (current : Option Mm) (s : Dma) (regions : List Region)
    (tree : SearchTree Region) :
    regions.foldl (destroyRegion current) { s with dmaRegions := tree } =
      { regions.foldl (destroyRegion current) s with dmaRegions := tree } := by
  induction regions generalizing s with
  | nil => rfl
  | cons region rest ih => rw [List.foldl_cons, destroyRegion_tree, ih, List.foldl_cons]

/-- The tear-down of a linked tree ends, without reading what it has freed.  It visits
every region once, by increasing device address, leaves the tree empty and all its
regions freed, and releases what the tear-down of the search tree releases. -/
theorem afuDmaRegionDestroyLinked_visits {erase : RbHeap → Ptr → RbHeap} {tree : RbTree}
    {heap : RbHeap} {regions : Ptr → Option Region} {regionAt : Ptr → Region}
    (contract : ErasesNodes erase tree.ptrs.length) (holds : heap.Holds tree)
    (allocated : ∀ ptr ∈ tree.ptrs, regions ptr = some (regionAt ptr))
    (ordered : tree.Ordered fun item => (regionAt item.1).iova)
    (current : Option Mm) (dma : Dma) :
    ∃ final : TearDown,
      (∀ fuel, tree.ptrs.length < fuel →
        afuDmaRegionDestroyLinked erase current fuel heap regions dma = some final) ∧
      final.visited = tree.ptrs.map (fun ptr => (ptr, regionAt ptr)) ∧
      (final.visited.map Prod.fst).Nodup ∧
      (final.visited.Pairwise fun first second => first.2.iova < second.2.iova) ∧
      final.tree.root = none ∧
      (∀ ptr ∈ tree.ptrs, final.regions ptr = none) ∧
      { final.dma with dmaRegions := .leaf } =
        afuDmaRegionDestroy { dma with dmaRegions := tree.map fun item => regionAt item.1 }
          current := by
  have initial : (TearDown.mk heap regions dma []).tree.Holds tree := holds
  obtain ⟨final, runs, root, freed, -, released, visited⟩ :=
    destroyLoop_spec current contract initial le_rfl allocated
  rw [List.nil_append] at visited
  refine ⟨final, ?_, visited, ?_, ?_, root, freed, ?_⟩
  · intro fuel enough
    simp only [afuDmaRegionDestroyLinked, holds.rbFirst enough.le]
    exact runs fuel enough
  · rw [visited, List.map_map]
    simpa [Function.comp_def] using holds.distinct
  · rw [visited, List.pairwise_map, RbTree.ptrs, List.pairwise_map]
    exact ordered
  · simp only [afuDmaRegionDestroy, Dma.regions, SearchTree.toList_map]
    rw [foldl_destroyRegion_tree, released, RbTree.ptrs, List.map_map]
    rfl

/-- Four regions, placed so that removing the first rotates the root of the tree. -/
def leaningTree : RbTree :=
  .node (.node .leaf (1, .black) .leaf) (2, .black)
    (.node .leaf (3, .black) (.node .leaf (4, .red) .leaf))

/-- One page mapped at the page number given by the address of the node. -/
def pageRegion (ptr : Ptr) : Region := ⟨ptr * pageSize, pageSize, ptr * pageSize, [ptr], false, 0⟩

theorem afuDmaRegionDestroyLinked_leaning :
    ∃ final : TearDown,
      afuDmaRegionDestroyLinked (rebuildWithout 4) (some 0) 5
        (RbHeap.store ⟨none, fun _ => none⟩ leaningTree) (fun ptr => some (pageRegion ptr))
        ⟨.leaf, 0, 0, fun _ => 0⟩ = some final ∧
      final.visited.map Prod.fst = [1, 2, 3, 4] ∧ final.tree.root = none := by
  have balanced : ∃ height, RbTree.Balanced leaningTree .black height :=
    ⟨2, .black 2 (.black 1 .leaf .leaf) (.black 3 .leaf (.red 4 .leaf .leaf))⟩
  have holds := RbHeap.store_holds ⟨none, fun _ => none⟩ balanced (by decide)
  obtain ⟨final, runs, visited, -, -, root, -⟩ :=
    afuDmaRegionDestroyLinked_visits (rebuildWithout_erases 4) holds
      (fun _ _ => rfl : ∀ ptr ∈ leaningTree.ptrs, some (pageRegion ptr) = some (pageRegion ptr))
      (by simp [SearchTree.Ordered, leaningTree, pageRegion, pageSize])
      (some 0) ⟨.leaf, 0, 0, fun _ => 0⟩
  refine ⟨final, runs 5 (by decide), ?_, root⟩
  rw [visited]
  rfl

end OpaeXilinx.Port
