import OpaeXilinx.Port.Umsg

/-!
# Exactness of the region tree

Both the insertion and the lookup descend by the start of the window alone, although
overlap and containment are relations of intervals.  For regions that are apart from
each other the descent cannot miss the region that holds the window, so the lookup is
exact.  The insertion asks the same question, whether some region holds the new one,
and therefore does not see a region that overlaps the new one in any other way.
-/

namespace OpaeXilinx.Port

open OpaeXilinx.Base

/-- With no window given, the region that starts at the address is found. -/
theorem afuDmaRegionFindIova_complete {tree : SearchTree Region}
    (ordered : tree.Ordered Region.iova)
    (noWrap : ∀ region ∈ tree.toList, region.iova + region.length < 2 ^ 64) {region : Region}
    (member : region ∈ tree.toList) : afuDmaRegionFindIova tree region.iova = some region := by
  unfold afuDmaRegionFindIova
  induction tree with
  | leaf => cases member
  | node left this right leftIH rightIH =>
      obtain ⟨leftOrdered, rightOrdered, below, above⟩ := SearchTree.ordered_node.mp ordered
      simp only [SearchTree.toList_node, List.mem_append, List.mem_cons] at member noWrap
      simp only [afuDmaRegionFind]
      rcases member with inside | rfl | inside
      · have less := below region inside
        have failed : ¬ dmaRegionCheckIova this region.iova 0 = true := by
          simp [dmaRegionCheckIova, less.ne']
        rw [if_neg failed, if_pos less]
        exact leftIH leftOrdered (fun item one => noWrap item (.inl one)) inside
      · have bound := noWrap region (.inr (.inl rfl))
        have passed : dmaRegionCheckIova region region.iova 0 = true := by
          rw [dmaRegionCheckIova, if_neg (by simp), decide_eq_true_eq, addU64, addU64]
          omega
        rw [if_pos passed]
      · have greater := above region inside
        have failed : ¬ dmaRegionCheckIova this region.iova 0 = true := by
          simp [dmaRegionCheckIova, greater.ne]
        rw [if_neg failed, if_neg (by omega), if_pos greater]
        exact rightIH rightOrdered (fun item one => noWrap item (.inr (.inr one))) inside

/-- Among regions apart from each other that do not wrap, the lookup of a window returns
exactly the region that covers it, and the lookup of an address exactly the region that
starts there. -/
theorem afuDmaRegionFind_exact {tree : SearchTree Region} (layout : Layout tree)
    (noWrap : ∀ region ∈ tree.toList, region.iova + region.length < 2 ^ 64) (iova : Nat) :
    (∀ size, 0 < size → iova + size < 2 ^ 64 → ∀ region,
      afuDmaRegionFind iova size tree = some region ↔
        region ∈ tree.toList ∧ region.Covers iova size) ∧
    (∀ region, afuDmaRegionFindIova tree iova = some region ↔
      region ∈ tree.toList ∧ region.iova = iova) := by
  constructor
  · intro size positive fits region
    constructor
    · intro found
      obtain ⟨member, passed⟩ := afuDmaRegionFind_sound found
      have bound := (layout.bounded region member).2
      exact ⟨member, ((Region.check_iff positive bound fits).mp passed).1⟩
    · rintro ⟨member, covers⟩
      exact afuDmaRegionFind_complete layout member positive (noWrap region member) covers
  · intro region
    constructor
    · exact afuDmaRegionFindIova_sound
    · rintro ⟨member, rfl⟩
      exact afuDmaRegionFindIova_complete layout.ordered noWrap member

/-- Two regions on either side of a third, which is the root. -/
def threeRegions : SearchTree Region :=
  .node (.node .leaf ⟨0, 0x2000, 0x1000, [], false, 0⟩ .leaf) ⟨0, 0x1000, 0x4000, [], false, 0⟩
    (.node .leaf ⟨0, 0x3000, 0x5000, [], false, 0⟩ .leaf)

theorem afuDmaRegionFind_exact_three_regions :
    (afuDmaRegionFind 0x6000 0x800 threeRegions = some ⟨0, 0x3000, 0x5000, [], false, 0⟩) ∧
      afuDmaRegionFind 0x6000 0x2800 threeRegions = none := by
  have regions : threeRegions.toList = [⟨0, 0x2000, 0x1000, [], false, 0⟩,
      ⟨0, 0x1000, 0x4000, [], false, 0⟩, ⟨0, 0x3000, 0x5000, [], false, 0⟩] := by decide
  have layout : Layout threeRegions := by
    refine ⟨?_, ?_, ?_⟩
    · simp [SearchTree.Ordered, regions]
    · simp [regions]
    · simp [regions, Apart]
  have exact_at := (afuDmaRegionFind_exact layout (by simp [regions]) 0x6000).1
  constructor
  · exact (exact_at 0x800 (by decide) (by decide) _).mpr
      ⟨by simp [regions], by decide, by decide⟩
  · apply Option.eq_none_iff_forall_ne_some.mpr
    intro region found
    obtain ⟨member, covers⟩ := (exact_at 0x2800 (by decide) (by decide) region).mp found
    simp [regions] at member
    rcases member with rfl | rfl | rfl <;> simp [Region.Covers] at covers

def afuDmaRegionRemove (ops : RbOps) (tree : SearchTree Region) (region : Region) :
    SearchTree Region :=
  ops.erase tree region

inductive TreeCall where
  | add (region : Region)
  | remove (region : Region)

/-- Result of a call, and the tree it leaves. -/
def TreeCall.run (ops : RbOps) (tree : SearchTree Region) :
    TreeCall → Except Errno Unit × SearchTree Region
  | .add region =>
      match afuDmaRegionAdd ops tree region with
      | .error err => (.error err, tree)
      | .ok added => (.ok (), added)
  | .remove region => (.ok (), afuDmaRegionRemove ops tree region)

/-- The tree a call leaves. -/
def TreeCall.next (ops : RbOps) (tree : SearchTree Region) (call : TreeCall) : SearchTree Region :=
  (call.run ops tree).2

/-- A region that is added is a nonempty range of the bus space. -/
def TreeCall.Valid : TreeCall → Prop
  | .add region => 0 < region.length ∧ region.iova + region.length ≤ 2 ^ 64
  | .remove _ => True

/-- Two regions have an address in common. -/
def Region.Overlaps (region other : Region) : Prop :=
  ¬ Apart region.iova region.length other.iova other.length

/-- The tree is ordered and its regions are pairwise disjoint. -/
structure Arranged (tree : SearchTree Region) : Prop where
  ordered : tree.Ordered Region.iova
  apart : ∀ first ∈ tree.toList, ∀ second ∈ tree.toList, first ≠ second →
    Apart first.iova first.length second.iova second.length

/-- A region that overlaps one in the tree is refused, and the tree stays as it is. -/
def Refuses (ops : RbOps) (tree : SearchTree Region) : TreeCall → Prop
  | .add region => (∃ other ∈ tree.toList, region.Overlaps other) →
      (TreeCall.add region).run ops tree = (.error .eexist, tree)
  | .remove _ => True

/-- Some region of the tree starts where the new one starts, or passes the test for
holding it. -/
def Noticed (tree : SearchTree Region) (region : Region) : Prop :=
  ∃ this ∈ tree.toList,
    this.iova = region.iova ∨ dmaRegionCheckIova this region.iova region.length = true

/-- A region that overlaps one in the tree is noticed. -/
def OverlapNoticed (tree : SearchTree Region) : TreeCall → Prop
  | .add region => (∃ other ∈ tree.toList, region.Overlaps other) → Noticed tree region
  | .remove _ => True

/-- What the test for holding a nonempty region compares. -/
theorem Region.check_eq_true {this : Region} {iova size : Nat} (positive : 0 < size) :
    dmaRegionCheckIova this iova size = true ↔
      this.iova ≤ iova ∧ (iova + size) % 2 ^ 64 ≤ (this.length + this.iova) % 2 ^ 64 := by
  have nonzero : ¬ (size = 0 ∧ this.iova ≠ iova) := by omega
  rw [dmaRegionCheckIova, if_neg nonzero, decide_eq_true_eq]
  rfl

theorem linkRegion_eq_ok_or (region : Region) (tree : SearchTree Region) :
    linkRegion region tree = .error .eexist ∨ ∃ linked, linkRegion region tree = .ok linked := by
  induction tree with
  | leaf => exact .inr ⟨_, rfl⟩
  | node left this right leftIH rightIH =>
      simp only [linkRegion]
      split
      · exact .inl rfl
      split
      · rcases leftIH with refused | ⟨linked, result⟩
        · exact .inl (by rw [refused]; rfl)
        · exact .inr ⟨.node linked this right, by rw [result]; rfl⟩
      split
      · rcases rightIH with refused | ⟨linked, result⟩
        · exact .inl (by rw [refused]; rfl)
        · exact .inr ⟨.node left this linked, by rw [result]; rfl⟩
      · exact .inl rfl

/-- A noticed region is refused: the descent does not pass by the region that
notices it. -/
theorem linkRegion_of_noticed {tree : SearchTree Region} (layout : Layout tree) {region : Region}
    (positive : 0 < region.length) (bound : region.iova + region.length ≤ 2 ^ 64)
    (noticed : Noticed tree region) : linkRegion region tree = .error .eexist := by
  induction tree with
  | leaf =>
      obtain ⟨this, member, -⟩ := noticed
      cases member
  | node left this right leftIH rightIH =>
      obtain ⟨leftLayout, rightLayout⟩ := layout.children
      obtain ⟨-, -, below, above⟩ := SearchTree.ordered_node.mp layout.ordered
      obtain ⟨other, member, notices⟩ := noticed
      simp only [linkRegion]
      by_cases passed : dmaRegionCheckIova this region.iova region.length = true
      · rw [if_pos passed]
      rw [if_neg passed]
      rw [Region.check_eq_true positive] at passed notices
      rcases Nat.lt_trichotomy region.iova this.iova with less | same | greater
      · rw [if_pos less]
        have inLeft : other ∈ left.toList := by
          simp only [SearchTree.toList_node, List.mem_append, List.mem_cons] at member
          rcases member with inside | rfl | inside
          · exact inside
          · omega
          · have key := above other inside
            omega
        rw [leftIH leftLayout ⟨other, inLeft, by rwa [Region.check_eq_true positive]⟩]
        rfl
      · rw [if_neg (by omega), if_neg (by omega)]
      · rw [if_neg (by omega), if_pos greater]
        have inRight : other ∈ right.toList := by
          have otherBound := (layout.bounded other member).2
          have thisBound := (layout.bounded this (by simp)).2
          have different : other ∈ left.toList → other ≠ this := by
            rintro inside rfl
            exact Nat.lt_irrefl _ (below other inside)
          have disjoint := layout.apart other member this (by simp)
          simp only [SearchTree.toList_node, List.mem_append, List.mem_cons] at member
          rcases member with inside | rfl | inside
          · -- a region that holds the new one from the left would reach over `this`
            have key := below other inside
            have apart := disjoint (different inside)
            have short := Nat.mod_le (other.length + other.iova) (2 ^ 64)
            have thisLength := (layout.bounded this (by simp)).1
            simp only [Apart] at apart
            omega
          · omega
          · exact inside
        rw [rightIH rightLayout ⟨other, inRight, by rwa [Region.check_eq_true positive]⟩]
        rfl

/-- A region that is refused was noticed. -/
theorem noticed_of_linkRegion {tree : SearchTree Region} {region : Region} {err : Errno}
    (refused : linkRegion region tree = .error err) : Noticed tree region := by
  induction tree with
  | leaf => cases refused
  | node left this right leftIH rightIH =>
      have inNode : this ∈ (SearchTree.node left this right).toList := by simp
      simp only [linkRegion] at refused
      split at refused
      next passed => exact ⟨this, inNode, .inr passed⟩
      split at refused
      · cases inner : linkRegion region left with
        | ok linked => simp [inner, Except.map] at refused
        | error other =>
            simp only [inner, Except.map, Except.error.injEq] at refused
            obtain ⟨item, member, notices⟩ := leftIH (refused ▸ inner)
            exact ⟨item, by simp [member], notices⟩
      split at refused
      · cases inner : linkRegion region right with
        | ok linked => simp [inner, Except.map] at refused
        | error other =>
            simp only [inner, Except.map, Except.error.injEq] at refused
            obtain ⟨item, member, notices⟩ := rightIH (refused ▸ inner)
            exact ⟨item, by simp [member], notices⟩
      next notLess notGreater => exact ⟨this, inNode, .inl (by omega)⟩

/-- Refused insertions are those of noticed regions. -/
theorem afuDmaRegionAdd_refused_iff {ops : RbOps} {tree : SearchTree Region}
    (layout : Layout tree) {region : Region} (positive : 0 < region.length)
    (bound : region.iova + region.length ≤ 2 ^ 64) :
    afuDmaRegionAdd ops tree region = .error .eexist ↔ Noticed tree region := by
  constructor
  · intro refused
    cases link : linkRegion region tree with
    | error err => exact noticed_of_linkRegion link
    | ok linked => simp [afuDmaRegionAdd, link, Except.map] at refused
  · intro noticed
    rw [afuDmaRegionAdd, linkRegion_of_noticed layout positive bound noticed]
    rfl

theorem afuDmaRegionAdd_eq_ok_or (ops : RbOps) (tree : SearchTree Region) (region : Region) :
    afuDmaRegionAdd ops tree region = .error .eexist ∨
      ∃ added, afuDmaRegionAdd ops tree region = .ok added := by
  rcases linkRegion_eq_ok_or region tree with refused | ⟨linked, result⟩
  · exact .inl (by rw [afuDmaRegionAdd, refused]; rfl)
  · exact .inr ⟨ops.insertColor linked, by rw [afuDmaRegionAdd, result]; rfl⟩

section Run

variable {ops : RbOps} {tree : SearchTree Region} {call : TreeCall}

theorem Layout.arranged (layout : Layout tree) : Arranged tree := ⟨layout.ordered, layout.apart⟩

/-- On a layout, a call refuses overlaps exactly if it notices them. -/
theorem refuses_iff (layout : Layout tree) (valid : call.Valid) :
    Refuses ops tree call ↔ OverlapNoticed tree call := by
  cases call with
  | remove region => exact Iff.rfl
  | add region =>
      have refused_iff : afuDmaRegionAdd ops tree region = .error .eexist ↔ _ :=
        afuDmaRegionAdd_refused_iff layout valid.1 valid.2
      constructor
      · intro refuses overlap
        have outcome := refuses overlap
        rcases afuDmaRegionAdd_eq_ok_or ops tree region with refused | ⟨added, result⟩
        · exact refused_iff.mp refused
        · simp [TreeCall.run, result] at outcome
      · intro noticed overlap
        have refused := refused_iff.mpr (noticed overlap)
        simp [TreeCall.run, refused]

/-- A call that notices the overlap of its region leaves a layout. -/
theorem Layout.next (layout : Layout tree) (valid : call.Valid)
    (noticed : OverlapNoticed tree call) : Layout (call.next ops tree) := by
  cases call with
  | remove region => exact layout.erase region
  | add region =>
      rcases afuDmaRegionAdd_eq_ok_or ops tree region with refused | ⟨added, result⟩
      · simpa [TreeCall.next, TreeCall.run, refused] using layout
      · have unnoticed : ¬ Noticed tree region := by
          intro noticed
          rw [(afuDmaRegionAdd_refused_iff layout valid.1 valid.2).mpr noticed] at result
          cases result
        have apart : ∀ other ∈ tree.toList,
            Apart region.iova region.length other.iova other.length := by
          intro other member
          by_contra overlaps
          exact unnoticed (noticed ⟨other, member, overlaps⟩)
        have added := layout.insert result valid.1 valid.2 apart
        simpa [TreeCall.next, TreeCall.run, result] using added

theorem Layout.along_iff (layout : Layout tree) {calls : List TreeCall}
    (valid : ∀ call ∈ calls, call.Valid) :
    System.Along (fun tree call =>
        Refuses ops tree call ∧ Arranged (call.next ops tree)) (TreeCall.next ops) tree calls ↔
      System.Along OverlapNoticed (TreeCall.next ops) tree calls := by
  induction calls generalizing tree with
  | nil => exact Iff.rfl
  | cons call calls ih =>
      have first := valid call List.mem_cons_self
      have rest := fun other member => valid other (List.mem_cons_of_mem _ member)
      constructor
      · rintro ⟨⟨refuses, -⟩, later⟩
        have noticed := (refuses_iff layout first).mp refuses
        exact ⟨noticed, (ih (layout.next first noticed) rest).mp later⟩
      · rintro ⟨noticed, later⟩
        have after : Layout (call.next ops tree) := layout.next first noticed
        exact ⟨⟨(refuses_iff layout first).mpr noticed, after.arranged⟩,
          (ih after rest).mpr later⟩

end Run

/-- Over every run from the empty tree, the regions stay ordered and disjoint and every
overlap is refused exactly if every region added that overlaps one in the tree is noticed. -/
theorem regionTree_disjoint_iff (ops : RbOps) {calls : List TreeCall}
    (valid : ∀ call ∈ calls, call.Valid) :
    System.Along (fun tree call =>
        Refuses ops tree call ∧ Arranged (call.next ops tree)) (TreeCall.next ops) .leaf calls ↔
      System.Along OverlapNoticed (TreeCall.next ops) .leaf calls := by
  have empty : Layout .leaf := ⟨SearchTree.ordered_leaf _, nofun, nofun⟩
  exact empty.along_iff valid

/-- A region, one inside of it that is refused, and one behind both. -/
theorem regionTree_disjoint_iff_three_calls :
    System.Along (fun tree call =>
        Refuses .plain tree call ∧ Arranged (call.next .plain tree)) (TreeCall.next .plain) .leaf
      [.add ⟨0, 0x4000, 0x1000, [], false, 0⟩, .add ⟨0, 0x1000, 0x2000, [], false, 0⟩,
        .add ⟨0, 0x1000, 0x6000, [], false, 0⟩] := by
  refine (regionTree_disjoint_iff .plain ?_).mpr ⟨?_, ?_, ?_, trivial⟩
  · simp [TreeCall.Valid]
  · rintro ⟨other, member, -⟩
    cases member
  · intro _
    exact ⟨⟨0, 0x4000, 0x1000, [], false, 0⟩, by decide, .inr (by decide)⟩
  · rintro ⟨other, member, overlaps⟩
    refine absurd ?_ overlaps
    have only : (TreeCall.next .plain (TreeCall.next .plain .leaf
        (.add ⟨0, 0x4000, 0x1000, [], false, 0⟩))
        (.add ⟨0, 0x1000, 0x2000, [], false, 0⟩)).toList =
      [⟨0, 0x4000, 0x1000, [], false, 0⟩] := by decide
    rw [only, List.mem_singleton] at member
    subst member
    exact .inr (by decide)

/-- From 0x1000 up to 0x5000, then from 0x2000 up to 0x6000. -/
def partialOverlap : List TreeCall :=
  [.add ⟨0, 0x4000, 0x1000, [], false, 0⟩, .add ⟨0, 0x4000, 0x2000, [], false, 0⟩]

/-- The second region starts inside the first one and ends behind it; it is added. -/
theorem partial_overlap_is_added : (∀ call ∈ partialOverlap, call.Valid) ∧
    ¬ Arranged (partialOverlap.foldl (TreeCall.next .plain) .leaf) := by
  refine ⟨by simp [partialOverlap, TreeCall.Valid], fun arranged => ?_⟩
  have apart := arranged.apart ⟨0, 0x4000, 0x1000, [], false, 0⟩ (by decide)
    ⟨0, 0x4000, 0x2000, [], false, 0⟩ (by decide) (by decide)
  exact absurd apart (by unfold Apart; decide)

end OpaeXilinx.Port
