import Mathlib.Data.Multiset.Bind
import OpaeXilinx.Base.Transition
import OpaeXilinx.Port.DmaRegion

/-!
# Balance of the DMA resources

The references on pages, the device mappings and the locked memory are exactly
those of the regions in the tree, as long as three things do not happen:
`get_user_pages_fast` pins some but not all pages (they are never put), a region
mapped at device address 0 survives until the last close (it is never unmapped), or
a region is released by a task of another address space than the one that was charged for it.
-/

namespace OpaeXilinx.Port

open OpaeXilinx.Base

/-- Page references held for regions. -/
def pagesOf (regions : Multiset Region) : Multiset Page :=
  regions.bind fun region => (region.pages : Multiset Page)

/-- Device mappings held for regions. -/
def mappingsOf (regions : Multiset Region) : Multiset (Nat × Nat) :=
  regions.map fun region => (region.iova, region.length)

/-- Pages of the regions that were mapped from an address space. -/
def chargeOf (mm : Mm) (regions : Multiset Region) : Nat :=
  (regions.map fun region => if region.owner = mm then region.npages else 0).sum

@[simp] theorem pagesOf_cons (region : Region) (regions : Multiset Region) :
    pagesOf (region ::ₘ regions) = (region.pages : Multiset Page) + pagesOf regions :=
  Multiset.cons_bind ..

@[simp] theorem mappingsOf_cons (region : Region) (regions : Multiset Region) :
    mappingsOf (region ::ₘ regions) = (region.iova, region.length) ::ₘ mappingsOf regions :=
  Multiset.map_cons ..

@[simp] theorem chargeOf_cons (mm : Mm) (region : Region) (regions : Multiset Region) :
    chargeOf mm (region ::ₘ regions) =
      (if region.owner = mm then region.npages else 0) + chargeOf mm regions := by
  simp [chargeOf]

/-- The resources held are those of the given regions, on top of the locked memory
the address spaces had before. -/
structure Holds (base : Mm → Nat) (regions : Multiset Region) (s : Dma) : Prop where
  pinned : s.pinned = pagesOf regions
  mapped : s.mapped = mappingsOf regions
  lockedVm : ∀ mm, s.lockedVm mm = base mm + chargeOf mm regions

/-- The resources held are exactly those of the regions in the tree. -/
def Balanced (base : Mm → Nat) (s : Dma) : Prop := Holds base s.regions s

/-- The pages of a region have all been pinned. -/
def Region.Complete (region : Region) : Prop := region.pages.length = region.npages

theorem putAllPages_complete {region : Region} (complete : region.Complete) (s : Dma) :
    putAllPages s region.pages region.npages =
      { s with pinned := s.pinned - (region.pages : Multiset Page) } := by
  have all : region.pages.take region.npages = region.pages :=
    List.take_of_length_le (Nat.le_of_eq complete)
  simp [putAllPages, all]

/-- The clamp of the release is truncated subtraction. -/
@[simp] theorem releaseLockedVm_some (s : Dma) (mm : Mm) (npages : Nat) :
    afuDmaReleaseLockedVm s (some mm) npages =
      { s with lockedVm := Function.update s.lockedVm mm (s.lockedVm mm - npages) } := by
  simp only [afuDmaReleaseLockedVm]
  congr 2
  split <;> omega

/-- Releasing a region returns what was held for it, if it was charged to the
releasing task's address space. -/
theorem Holds.release {base : Mm → Nat} {region : Region} {regions : Multiset Region} {s : Dma}
    (holds : Holds base (region ::ₘ regions) s) (complete : region.Complete) :
    Holds base regions (afuDmaUnpinPages (dmaUnmapPage s region.iova region.length)
      (some region.owner) region) where
  pinned := by
    simp [afuDmaUnpinPages, putAllPages_complete complete, dmaUnmapPage, holds.pinned]
  mapped := by
    simp [afuDmaUnpinPages, putAllPages, dmaUnmapPage, holds.mapped]
  lockedVm := by
    intro mm
    have charged := holds.lockedVm mm
    rw [chargeOf_cons] at charged
    simp only [afuDmaUnpinPages, putAllPages, releaseLockedVm_some, dmaUnmapPage]
    rcases eq_or_ne mm region.owner with rfl | other
    · rw [Function.update_self]
      rw [if_pos rfl] at charged
      omega
    · rw [Function.update_of_ne other, charged, if_neg (Ne.symm other), Nat.zero_add]

theorem linkRegion_perm {region : Region} {tree linked : SearchTree Region}
    (added : linkRegion region tree = .ok linked) :
    linked.toList.Perm (region :: tree.toList) := by
  induction tree generalizing linked with
  | leaf => cases added; rfl
  | node left this right leftIH rightIH =>
      simp only [linkRegion] at added
      split at added
      · cases added
      split at added
      · cases result : linkRegion region left with
        | error => simp [result, Except.map] at added
        | ok left' =>
            simp only [result, Except.map, Except.ok.injEq] at added
            subst added
            exact (leftIH result).append_right _
      split at added
      · cases result : linkRegion region right with
        | error => simp [result, Except.map] at added
        | ok right' =>
            simp only [result, Except.map, Except.ok.injEq] at added
            subst added
            calc left.toList ++ this :: right'.toList
              _ |>.Perm (left.toList ++ this :: region :: right.toList) :=
                  ((rightIH result).cons _).append_left _
              _ |>.Perm (left.toList ++ region :: this :: right.toList) :=
                  (List.Perm.swap ..).append_left _
              _ |>.Perm (region :: (left.toList ++ this :: right.toList)) :=
                  List.perm_middle
      · cases added

theorem linkRegion_ordered {region : Region} {tree linked : SearchTree Region}
    (ordered : tree.Ordered Region.iova) (added : linkRegion region tree = .ok linked) :
    linked.Ordered Region.iova := by
  induction tree generalizing linked with
  | leaf =>
      cases added
      simp [SearchTree.ordered_node, SearchTree.ordered_leaf]
  | node left this right leftIH rightIH =>
      obtain ⟨leftOrdered, rightOrdered, below, above⟩ := SearchTree.ordered_node.mp ordered
      simp only [linkRegion] at added
      split at added
      · cases added
      split at added
      next less =>
        cases result : linkRegion region left with
        | error => simp [result, Except.map] at added
        | ok left' =>
            simp only [result, Except.map, Except.ok.injEq] at added
            subst added
            refine SearchTree.ordered_node.mpr ⟨leftIH leftOrdered result, rightOrdered, ?_, above⟩
            intro item member
            rcases List.mem_cons.mp ((linkRegion_perm result).mem_iff.mp member) with rfl | old
            · exact less
            · exact below item old
      split at added
      next greater =>
        cases result : linkRegion region right with
        | error => simp [result, Except.map] at added
        | ok right' =>
            simp only [result, Except.map, Except.ok.injEq] at added
            subst added
            refine SearchTree.ordered_node.mpr ⟨leftOrdered, rightIH rightOrdered result, below, ?_⟩
            intro item member
            rcases List.mem_cons.mp ((linkRegion_perm result).mem_iff.mp member) with rfl | old
            · exact greater
            · exact above item old
      · cases added

/-- What a successful insertion does to the tree. -/
theorem afuDmaRegionAdd_spec {ops : RbOps} {region : Region} {tree added : SearchTree Region}
    (result : afuDmaRegionAdd ops tree region = .ok added) :
    added.toList.Perm (region :: tree.toList) ∧
      (tree.Ordered Region.iova → added.Ordered Region.iova) := by
  simp only [afuDmaRegionAdd] at result
  cases link : linkRegion region tree with
  | error => simp [link, Except.map] at result
  | ok linked =>
      simp only [link, Except.map, Except.ok.injEq] at result
      subst result
      have kept := ops.insertColor_toList linked
      refine ⟨kept ▸ linkRegion_perm link, fun ordered => ?_⟩
      have linkOrdered := linkRegion_ordered ordered link
      rwa [SearchTree.Ordered, kept]

theorem afuDmaRegionFind_sound {tree : SearchTree Region} {iova size : Nat} {region : Region}
    (found : afuDmaRegionFind iova size tree = some region) :
    region ∈ tree.toList ∧ dmaRegionCheckIova region iova size = true := by
  induction tree with
  | leaf => cases found
  | node left this right leftIH rightIH =>
      simp only [afuDmaRegionFind] at found
      simp only [SearchTree.toList_node, List.mem_append, List.mem_cons]
      split at found
      next passed => cases found; exact ⟨.inr (.inl rfl), passed⟩
      split at found
      · exact ⟨.inl (leftIH found).1, (leftIH found).2⟩
      split at found
      · exact ⟨.inr (.inr (rightIH found).1), (rightIH found).2⟩
      · cases found

theorem afuDmaRegionFindIova_sound {tree : SearchTree Region} {iova : Nat} {region : Region}
    (found : afuDmaRegionFindIova tree iova = some region) :
    region ∈ tree.toList ∧ region.iova = iova := by
  obtain ⟨member, passed⟩ := afuDmaRegionFind_sound found
  refine ⟨member, ?_⟩
  by_contra different
  simp [dmaRegionCheckIova, different] at passed

/-- The state after a region has been pinned and charged. -/
def Dma.pin (s : Dma) (region : Region) : Dma :=
  { s with
    pinned := s.pinned + (region.pages : Multiset Page)
    lockedVm := Function.update s.lockedVm region.owner (s.lockedVm region.owner + region.npages) }

theorem unpin_pin (s : Dma) (region : Region) (complete : region.Complete) :
    afuDmaUnpinPages (s.pin region) (some region.owner) region = s := by
  simp [afuDmaUnpinPages, putAllPages_complete complete, Dma.pin]

/-- The state after a region has also been mapped for the device. -/
def Dma.acquire (s : Dma) (region : Region) : Dma :=
  dmaMapPage (s.pin region) region.iova region.length

/-- Pinning fails without a trace, fails after pinning a part of the pages, or pins
all of them. -/
theorem afuDmaPinPages_cases (s : Dma) (env : MapEnv) (region : Region) :
    (∃ err, afuDmaPinPages s env (some region.owner) region = (.error err, s)) ∨
    (∃ pages, env.userPages = .ok pages ∧ pages.length ≠ region.npages ∧
      afuDmaPinPages s env (some region.owner) region =
        (.error .efault, { s with pinned := s.pinned + (pages : Multiset Page) })) ∨
    (∃ pages, env.userPages = .ok pages ∧ pages.length = region.npages ∧
      afuDmaPinPages s env (some region.owner) region =
        (.ok { region with pages := pages }, s.pin { region with pages := pages })) := by
  by_cases limit : s.lockedVm region.owner + region.npages > env.lockLimit ∧ env.capIpcLock = false
  · exact .inl ⟨.enomem, by simp [afuDmaPinPages, afuDmaChargeLockedVm, limit]⟩
  by_cases alloc : env.kcallocOk = false
  · exact .inl ⟨.enomem, by simp [afuDmaPinPages, afuDmaChargeLockedVm, limit, alloc]⟩
  cases pinning : env.userPages with
  | error code =>
      refine .inl ⟨.other code, ?_⟩
      simp [afuDmaPinPages, afuDmaChargeLockedVm, limit, alloc, pinning, putAllPages]
  | ok pages =>
      by_cases full : pages.length = region.npages
      · refine .inr (.inr ⟨pages, rfl, full, ?_⟩)
        have same : Region.npages { region with pages := pages } = region.npages := rfl
        simp [afuDmaPinPages, afuDmaChargeLockedVm, limit, alloc, pinning, full, Dma.pin, same]
      · refine .inr (.inl ⟨pages, rfl, full, ?_⟩)
        simp [afuDmaPinPages, afuDmaChargeLockedVm, limit, alloc, pinning, full]

/-- Mapping fails without a trace, fails after pinning a part of the pages, or adds
a complete region. -/
theorem afuDmaMapRegion_cases (ops : RbOps) (s : Dma) (env : MapEnv) (mm : Mm)
    (userAddr length : Nat) :
    (∃ err, afuDmaMapRegion ops s env mm userAddr length = (.error err, s)) ∨
    (∃ pages, env.userPages = .ok pages ∧ pages.length ≠ length / pageSize ∧
      afuDmaMapRegion ops s env mm userAddr length =
        (.error .efault, { s with pinned := s.pinned + (pages : Multiset Page) })) ∨
    (∃ region tree, region.Complete ∧ region.owner = mm ∧ region.length = length ∧
      0 < length ∧ region.inUse = false ∧ env.dmaAddr = some region.iova ∧
      afuDmaRegionAdd ops s.dmaRegions region = .ok tree ∧
      afuDmaMapRegion ops s env mm userAddr length =
        (.ok region.iova, { s.acquire region with dmaRegions := tree })) := by
  by_cases inputs : mapInputsOk env userAddr length = false
  · exact .inl ⟨.einval, by simp [afuDmaMapRegion, inputs]⟩
  by_cases alloc : env.kzallocOk = false
  · exact .inl ⟨.enomem, by simp [afuDmaMapRegion, inputs, alloc]⟩
  have positive : 0 < length := by
    simp only [mapInputsOk, Bool.and_eq_false_iff, not_or, decide_eq_false_iff_not,
      not_not] at inputs
    omega
  rcases afuDmaPinPages_cases s env ⟨userAddr, length, 0, [], false, mm⟩ with
    ⟨err, failed⟩ | ⟨pages, pinning, short, failed⟩ | ⟨pages, pinning, full, pinned⟩
  · exact .inl ⟨err, by simp [afuDmaMapRegion, inputs, alloc, failed]⟩
  · exact .inr (.inl ⟨pages, pinning, short, by simp [afuDmaMapRegion, inputs, alloc, failed]⟩)
  · by_cases continuous : afuDmaCheckContinuousPages pages = false
    · refine .inl ⟨.einval, ?_⟩
      have undone := unpin_pin s ⟨userAddr, length, 0, pages, false, mm⟩ full
      simpa [afuDmaMapRegion, inputs, alloc, pinned, continuous] using undone
    cases mapping : env.dmaAddr with
    | none =>
        refine .inl ⟨.efault, ?_⟩
        have undone := unpin_pin s ⟨userAddr, length, 0, pages, false, mm⟩ full
        simpa [afuDmaMapRegion, inputs, alloc, pinned, continuous, mapping] using undone
    | some iova =>
        let region : Region := ⟨userAddr, length, iova, pages, false, mm⟩
        cases added : afuDmaRegionAdd ops s.dmaRegions region with
        | error err =>
            refine .inl ⟨err, ?_⟩
            have undone := unpin_pin s region full
            simpa [afuDmaMapRegion, inputs, alloc, pinned, continuous, mapping, Dma.pin, dmaMapPage,
              dmaUnmapPage, added, region, Region.npages] using undone
        | ok tree =>
            refine .inr (.inr ⟨region, tree, full, rfl, rfl, positive, rfl, rfl, added, ?_⟩)
            simp [afuDmaMapRegion, inputs, alloc, pinned, continuous, mapping, Dma.pin, dmaMapPage,
              added, region, Dma.acquire, Region.npages]

/-- Unmapping fails without a trace or releases the region found at the address. -/
theorem afuDmaUnmapRegion_cases (ops : RbOps) (s : Dma) (mm : Mm) (iova : Nat) :
    (∃ err, afuDmaUnmapRegion ops s mm iova = (.error err, s)) ∨
    (∃ region, afuDmaRegionFindIova s.dmaRegions iova = some region ∧ region.inUse = false ∧
      afuDmaUnmapRegion ops s mm iova =
        (.ok (), afuDmaUnpinPages (dmaUnmapPage
          { s with dmaRegions := ops.erase s.dmaRegions region } region.iova region.length)
          (some mm) region)) := by
  cases found : afuDmaRegionFindIova s.dmaRegions iova with
  | none => exact .inl ⟨.einval, by simp [afuDmaUnmapRegion, found]⟩
  | some region =>
      cases busy : region.inUse with
      | true => exact .inl ⟨.ebusy, by simp [afuDmaUnmapRegion, found, busy]⟩
      | false => exact .inr ⟨region, rfl, busy, by simp [afuDmaUnmapRegion, found, busy]⟩

/-! ## The system -/

/-- Calls into the driver, with the address space of the task that makes them. The last close may come
from a task that has already given up its address space. -/
inductive DmaCall where
  | map (mm : Mm) (env : MapEnv) (userAddr length : Nat)
  | unmap (mm : Mm) (iova : Nat)
  | close (current : Option Mm)

/-- Effect of a call. -/
def Dma.call (ops : RbOps) (s : Dma) : DmaCall → Dma
  | .map mm env userAddr length => (afuIoctlDmaMap ops s env mm userAddr length).2
  | .unmap mm iova => (afuDmaUnmapRegion ops s mm iova).2
  | .close current => afuDmaRegionDestroy s current

/-- `get_user_pages_fast` pins at most the pages it is asked for. -/
def DmaCall.Possible : DmaCall → Prop
  | .map _ env _ length => ∀ pages, env.userPages = .ok pages → pages.length ≤ length / pageSize
  | _ => True

/-- A port without regions, when the address spaces have the given locked memory. -/
def Dma.initial (base : Mm → Nat) : Dma := ⟨.leaf, 0, 0, base⟩

def dmaSystem (ops : RbOps) (base : Mm → Nat) : System Dma DmaCall where
  init s := s = .initial base
  step s call next := call.Possible ∧ next = s.call ops call

/-- The call pins no part of a region, and releases only regions of its own
process; at the last close none of them is mapped at address 0. -/
def Attributed (s : Dma) : DmaCall → Prop
  | .map _ env _ length => ∀ pages, env.userPages = .ok pages →
      pages = [] ∨ pages.length = length / pageSize
  | .unmap mm iova => ∀ region, afuDmaRegionFindIova s.dmaRegions iova = some region →
      region.inUse = false → region.owner = mm
  | .close current => ∀ region ∈ s.regions, region.iova ≠ 0 ∧ current = some region.owner

/-- The invariant: balance, with complete regions ordered by device address. -/
structure DmaInv (base : Mm → Nat) (s : Dma) : Prop where
  balanced : Balanced base s
  complete : ∀ region ∈ s.regions, region.Complete
  ordered : s.dmaRegions.Ordered Region.iova

section Preservation

variable {ops : RbOps} {base : Mm → Nat} {s : Dma}

theorem Holds.acquire {regions : Multiset Region} (holds : Holds base regions s)
    (region : Region) : Holds base (region ::ₘ regions) (s.acquire region) where
  pinned := by simp [Dma.acquire, Dma.pin, dmaMapPage, holds.pinned, add_comm]
  mapped := by simp [Dma.acquire, Dma.pin, dmaMapPage, holds.mapped]
  lockedVm := by
    intro mm
    simp only [Dma.acquire, Dma.pin, dmaMapPage, chargeOf_cons]
    rcases eq_or_ne mm region.owner with rfl | other
    · rw [Function.update_self, holds.lockedVm, if_pos rfl]
      omega
    · rw [Function.update_of_ne other, holds.lockedVm, if_neg (Ne.symm other), Nat.zero_add]

/-- Inserting an acquired region keeps the invariant. -/
theorem DmaInv.insert (inv : DmaInv base s) {region : Region} {tree : SearchTree Region}
    (complete : region.Complete) (added : afuDmaRegionAdd ops s.dmaRegions region = .ok tree) :
    DmaInv base { s.acquire region with dmaRegions := tree } := by
  obtain ⟨perm, ordered⟩ := afuDmaRegionAdd_spec added
  have same : (tree.toList : Multiset Region) = region ::ₘ (s.regions : Multiset Region) :=
    Multiset.coe_eq_coe.mpr perm
  have holds := inv.balanced.acquire region
  refine ⟨⟨?_, ?_, ?_⟩, ?_, ordered inv.ordered⟩
  · rw [Dma.regions, same]
    exact holds.pinned
  · rw [Dma.regions, same]
    exact holds.mapped
  · rw [Dma.regions, same]
    exact holds.lockedVm
  · intro other member
    rcases List.mem_cons.mp (perm.mem_iff.mp member) with rfl | old
    · exact complete
    · exact inv.complete other old

/-- Releasing a region of the tree from its own address space keeps the invariant. -/
theorem DmaInv.remove (inv : DmaInv base s) {region : Region} (member : region ∈ s.regions) :
    DmaInv base (afuDmaUnpinPages (dmaUnmapPage
      { s with dmaRegions := ops.erase s.dmaRegions region } region.iova region.length)
      (some region.owner) region) := by
  have erased := ops.erase_toList s.dmaRegions region
  have same : (s.regions : Multiset Region) =
      region ::ₘ ((ops.erase s.dmaRegions region).toList : Multiset Region) := by
    rw [erased]
    exact Multiset.coe_eq_coe.mpr (List.perm_cons_erase member)
  have balanced := inv.balanced
  rw [Balanced, same] at balanced
  have before : Holds base (region ::ₘ ((ops.erase s.dmaRegions region).toList : Multiset Region))
      { s with dmaRegions := ops.erase s.dmaRegions region } :=
    ⟨balanced.pinned, balanced.mapped, balanced.lockedVm⟩
  have sub : ∀ other ∈ (ops.erase s.dmaRegions region).toList, other ∈ s.regions := by
    rw [erased]
    exact fun other kept => List.mem_of_mem_erase kept
  refine ⟨?_, ?_, ?_⟩
  · simpa [Balanced, Dma.regions, afuDmaUnpinPages, putAllPages, dmaUnmapPage] using
      before.release (inv.complete region member)
  · simpa [Dma.regions, afuDmaUnpinPages, putAllPages, dmaUnmapPage] using
      fun other kept => inv.complete other (sub other kept)
  · have shorter : (ops.erase s.dmaRegions region).Ordered Region.iova := by
      rw [SearchTree.Ordered, erased]
      exact inv.ordered.sublist List.erase_sublist
    simpa [afuDmaUnpinPages, putAllPages, dmaUnmapPage] using shorter

theorem DmaInv.unmap (inv : DmaInv base s) {mm : Mm} {iova : Nat}
    (own : Attributed s (.unmap mm iova)) :
    DmaInv base (afuDmaUnmapRegion ops s mm iova).2 := by
  rcases afuDmaUnmapRegion_cases ops s mm iova with ⟨err, failed⟩
    | ⟨region, found, free, released⟩
  · rw [failed]
    exact inv
  · have owner := own region found free
    subst owner
    rw [released]
    exact inv.remove (afuDmaRegionFindIova_sound found).1

theorem DmaInv.mapRegion (inv : DmaInv base s) {mm : Mm} {env : MapEnv} {userAddr length : Nat}
    (whole : Attributed s (.map mm env userAddr length)) :
    DmaInv base (afuIoctlDmaMap ops s env mm userAddr length).2 := by
  rcases afuDmaMapRegion_cases ops s env mm userAddr length with
    ⟨err, failed⟩ | ⟨pages, pinning, short, failed⟩ |
    ⟨region, tree, complete, rfl, -, -, -, -, added, mapped⟩
  · simpa [afuIoctlDmaMap, failed] using inv
  · rcases whole pages pinning with rfl | full
    · simpa [afuIoctlDmaMap, failed] using inv
    · exact absurd full short
  · have inserted := inv.insert complete added
    by_cases copied : env.copyOk = false
    · -- the region found at the address is the one just inserted, by its key
      simp only [afuIoctlDmaMap, mapped, copied, if_true]
      apply inserted.unmap
      intro found lookup _
      obtain ⟨member, sameKey⟩ := afuDmaRegionFindIova_sound lookup
      have self : region ∈ tree.toList :=
        (afuDmaRegionAdd_spec added).1.mem_iff.mpr List.mem_cons_self
      exact congrArg Region.owner (inserted.ordered.eq_of_key member self sameKey)
    · simpa [afuIoctlDmaMap, mapped, copied] using inserted

/-- The loop of `afu_dma_region_destroy` returns what is held for the regions it
visits. -/
theorem Holds.destroy {mm : Mm} {regions : List Region} (rest : Multiset Region)
    (own : ∀ region ∈ regions, region.iova ≠ 0 ∧ region.owner = mm)
    (complete : ∀ region ∈ regions, region.Complete)
    (holds : Holds base ((regions : Multiset Region) + rest) s) :
    Holds base rest (regions.foldl (destroyRegion (some mm)) s) := by
  induction regions generalizing s with
  | nil => simpa using holds
  | cons region regions ih =>
      obtain ⟨nonzero, rfl⟩ := own region List.mem_cons_self
      refine ih (fun other member => own other (List.mem_cons_of_mem _ member))
        (fun other member => complete other (List.mem_cons_of_mem _ member)) ?_
      rw [← Multiset.cons_coe, Multiset.cons_add] at holds
      simpa [destroyRegion, nonzero] using holds.release (complete region List.mem_cons_self)

theorem DmaInv.destroy (inv : DmaInv base s) {current : Option Mm}
    (own : Attributed s (.close current)) : DmaInv base (afuDmaRegionDestroy s current) := by
  have released : Holds base 0 (s.regions.foldl (destroyRegion current) s) := by
    cases current with
    | none =>
        -- a task without address space may only close a port without regions
        have empty : s.regions = [] := List.eq_nil_iff_forall_not_mem.mpr
          fun region member => by cases (own region member).2
        have balanced := inv.balanced
        rw [Balanced, empty] at balanced
        simpa [empty] using balanced
    | some mm =>
        have holds : Holds base ((s.regions : Multiset Region) + 0) s := by
          rw [add_zero]
          exact inv.balanced
        refine Holds.destroy 0 (fun region member => ?_) inv.complete holds
        exact ⟨(own region member).1, (Option.some.inj (own region member).2).symm⟩
  refine ⟨?_, ?_, SearchTree.ordered_leaf _⟩
  · exact ⟨released.pinned, released.mapped, released.lockedVm⟩
  · simp [afuDmaRegionDestroy, Dma.regions]

end Preservation

theorem DmaInv.initial (base : Mm → Nat) : DmaInv base (.initial base) := by
  refine ⟨⟨rfl, rfl, fun mm => rfl⟩, ?_, SearchTree.ordered_leaf _⟩
  simp [Dma.regions, Dma.initial]

theorem dmaInv_of_reach {ops : RbOps} {base : Mm → Nat} {s : Dma}
    (reach : (dmaSystem ops base).Reach Attributed s) : DmaInv base s := by
  apply reach.invariant
  · rintro _ rfl
    exact .initial base
  · rintro state call next inv allowed ⟨-, rfl⟩
    cases call with
    | map mm env userAddr length => exact inv.mapRegion allowed
    | unmap mm iova => exact inv.unmap allowed
    | close current => exact inv.destroy allowed

/-- In every run of attributed calls the resources held are those of the regions in
the tree, and an attributed last close leaves nothing. -/
theorem dma_resources_balanced (ops : RbOps) (base : Mm → Nat) {s : Dma}
    (reach : (dmaSystem ops base).Reach Attributed s) :
    Balanced base s ∧ ∀ current, Attributed s (.close current) →
      (afuDmaRegionDestroy s current).pinned = 0 ∧ (afuDmaRegionDestroy s current).mapped = 0 ∧
        (afuDmaRegionDestroy s current).lockedVm = base := by
  have inv := dmaInv_of_reach reach
  refine ⟨inv.balanced, fun current own => ?_⟩
  obtain ⟨pinned, mapped, lockedVm⟩ := (inv.destroy own).balanced
  exact ⟨pinned, mapped, funext lockedVm⟩

/-- Red-black trees that are never rebalanced. -/
def RbOps.plain : RbOps where
  insertColor := id
  erase := fun tree region =>
    (tree.toList.erase region).foldr (fun item tree => .node .leaf item tree) .leaf
  insertColor_toList := fun _ => rfl
  erase_toList := by
    intro tree region
    induction tree.toList.erase region with
    | nil => rfl
    | cons item items ih => simpa using ih

/-- A kernel that grants every request, with the given pages and device address. -/
def MapEnv.granting (pages : List Page) (iova : Nat) : MapEnv :=
  ⟨true, true, 16, false, true, .ok pages, some iova, true⟩

/-- Two pages mapped at a nonzero address and released at the last close. -/
theorem dma_resources_balanced_two_pages :
    ∃ s, (dmaSystem .plain fun _ => 0).Reach Attributed s ∧ s.regions.length = 1 ∧
      Balanced (fun _ => 0) s ∧ (afuDmaRegionDestroy s (some 7)).pinned = 0 := by
  let call : DmaCall := .map 7 (.granting [40, 41] 0x1000) 0x4000 0x2000
  have whole : Attributed (.initial fun _ => 0) call := by
    intro pages equal
    cases equal
    exact .inr rfl
  have possible : call.Possible := by
    intro pages equal
    cases equal
    exact Nat.le_refl 2
  have reach : (dmaSystem .plain fun _ => 0).Reach Attributed
      ((Dma.initial fun _ => 0).call .plain call) := .step (.init rfl) whole ⟨possible, rfl⟩
  have regions : ((Dma.initial fun _ => 0).call .plain call).regions =
      [⟨0x4000, 0x2000, 0x1000, [40, 41], false, 7⟩] := by decide
  have balanced := dma_resources_balanced .plain (fun _ => 0) reach
  refine ⟨_, reach, by simp [regions], balanced.1, (balanced.2 (some 7) ?_).1⟩
  intro region member
  rw [regions, List.mem_singleton] at member
  subst member
  decide

/-- Two pages are requested and one is pinned: it is never put. -/
theorem partially_pinned_page_leaks :
    ∃ s, (dmaSystem .plain fun _ => 0).Reachable s ∧ ¬ Balanced (fun _ => 0) s := by
  let call : DmaCall := .map 7 (.granting [40] 0x1000) 0x4000 0x2000
  have possible : call.Possible := by
    intro pages equal
    cases equal
    decide
  refine ⟨_, .step (.init rfl) trivial ⟨possible, rfl⟩, fun balanced => ?_⟩
  exact absurd balanced.pinned (by decide)

end OpaeXilinx.Port
