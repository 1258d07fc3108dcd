import OpaeXilinx.Port.DmaBalance

/-!
# The UMSG engine of a port

The engine writes notifications through a base address that user space chooses
inside one of its DMA regions.  The driver marks the region that holds the base as
in use, so that it cannot be unmapped, and takes the mark back when the base is
cleared.  The base register of the hardware keeps 48 bits.
-/

namespace OpaeXilinx.Port

open OpaeXilinx.Base

/-- A port: its DMA regions and the registers of the UMSG feature. -/
structure PortState where
  dma : Dma
  /-- `base_addr` of the UMSG base register. -/
  baseAddr : Nat
  /-- `umsg_enable` of the UMSG capability register. -/
  umsgEnable : Bool
  /-- `umsg_hint_enable` of the UMSG mode register. -/
  hintEnable : Nat

/-- Regions currently in the tree of the port. -/
def PortState.regions (s : PortState) : List Region := s.dma.regions

/-- Width of `base_addr`. -/
def baseAddrWidth : Nat := 48

def portUmsgSetAddr (s : PortState) (iova : Nat) : PortState :=
  { s with baseAddr := iova % 2 ^ baseAddrWidth }

/-- `port_umsg_enable`: nothing to do when the engine is in the requested state. -/
def portUmsgEnable (s : PortState) (enable : Bool) : PortState :=
  if enable = s.umsgEnable then s else { s with umsgEnable := enable }

def afuPortUmsgEnable (s : PortState) (enable : Bool) : Except Errno Unit × PortState :=
  if enable = true ∧ s.baseAddr = 0 then (.error .eio, s)
  else (.ok (), portUmsgEnable s enable)

/-- Write the `in_use` field if the item is the given region. -/
def Region.mark (region : Region) (inUse : Bool) (item : Region) : Region :=
  if item = region then { item with inUse := inUse } else item

/-- Write the `in_use` field of a region of the tree. -/
def setInUse (s : PortState) (region : Region) (inUse : Bool) : PortState :=
  { s with dma := { s.dma with dmaRegions := s.dma.dmaRegions.map (region.mark inUse) } }

/-- Bytes the engine writes from the base on. -/
def umsgSize (numUmsgs : Nat) : Nat := numUmsgs * pageSize

def afuPortUmsgSetAddr (numUmsgs : Nat) (s : PortState) (iova : Nat) :
    Except Errno Unit × PortState :=
  let size := umsgSize numUmsgs
  if s.umsgEnable then (.error .eio, s)
  else if iova ≠ 0 then
    if iova % pageSize ≠ 0 then (.error .einval, s)
    else if addU64 iova size < iova then (.error .einval, s)
    else
      match afuDmaRegionFind iova size s.dma.dmaRegions with
      | none => (.error .einval, s)
      | some region => (.ok (), setInUse (portUmsgSetAddr s iova) region true)
  else
    let iova := s.baseAddr
    if iova = 0 then (.ok (), s)
    else if addU64 iova size < iova then (.error .einval, s)
    else
      match afuDmaRegionFind iova size s.dma.dmaRegions with
      | none => (.error .enodev, s)
      | some region => (.ok (), setInUse (portUmsgSetAddr s 0) region false)

/-- The source shifts a `u32`, which is not defined for 32 messages (`MAX_PORT_UMSG_NUM`) or more;
here the result is 0 then.  Halting sets mode 0, which is accepted in any case. -/
def afuPortUmsgSetMode (numUmsgs : Nat) (s : PortState) (mode : Nat) :
    Except Errno Unit × PortState :=
  if mode >>> numUmsgs ≠ 0 then (.error .einval, s)
  else (.ok (), { s with hintEnable := mode })

def afuPortUmsgHalt (numUmsgs : Nat) (s : PortState) : PortState :=
  let s := (afuPortUmsgEnable s false).2
  let s := (afuPortUmsgSetAddr numUmsgs s 0).2
  (afuPortUmsgSetMode numUmsgs s 0).2

/-- The last close: the engine is halted before the regions are destroyed. -/
def PortState.lastClose (numUmsgs : Nat) (s : PortState) (current : Option Mm) : PortState :=
  let s := afuPortUmsgHalt numUmsgs s
  { s with dma := afuDmaRegionDestroy s.dma current }

inductive PortCall where
  | map (mm : Mm) (env : MapEnv) (userAddr length : Nat)
  | unmap (mm : Mm) (iova : Nat)
  | setBaseAddr (iova : Nat)
  | setMode (mode : Nat)
  | enable (enable : Bool)
  | close (current : Option Mm)

def PortState.call (ops : RbOps) (numUmsgs : Nat) (s : PortState) : PortCall → PortState
  | .map mm env userAddr length =>
      { s with dma := (afuIoctlDmaMap ops s.dma env mm userAddr length).2 }
  | .unmap mm iova => { s with dma := (afuDmaUnmapRegion ops s.dma mm iova).2 }
  | .setBaseAddr iova => (afuPortUmsgSetAddr numUmsgs s iova).2
  | .setMode mode => (afuPortUmsgSetMode numUmsgs s mode).2
  | .enable enable => (afuPortUmsgEnable s enable).2
  | .close current => s.lastClose numUmsgs current

/-- Two device address ranges have no address in common. -/
def Apart (iova length iova' length' : Nat) : Prop :=
  iova + length ≤ iova' ∨ iova' + length' ≤ iova

/-- The DMA API hands out ranges of the 64 bit bus space that are apart from every
live region. -/
def PortCall.Possible (s : PortState) : PortCall → Prop
  | .map _ env _ length => ∀ iova, env.dmaAddr = some iova →
      iova + length ≤ 2 ^ 64 ∧
      ∀ region ∈ s.regions, Apart iova length region.iova region.length
  | _ => True

def PortState.initial (base : Mm → Nat) : PortState := ⟨.initial base, 0, false, 0⟩

def portSystem (ops : RbOps) (base : Mm → Nat) (numUmsgs : Nat) : System PortState PortCall where
  init s := s = .initial base
  step s call next := call.Possible s ∧ next = s.call ops numUmsgs call

/-- The region contains an address. -/
def Region.Contains (region : Region) (addr : Nat) : Prop :=
  region.iova ≤ addr ∧ addr < region.iova + region.length

/-- The region contains a whole window. -/
def Region.Covers (region : Region) (addr size : Nat) : Prop :=
  region.iova ≤ addr ∧ addr + size ≤ region.iova + region.length

/-- The engine never points at unmapped memory. -/
structure UmsgSafe (numUmsgs : Nat) (s : PortState) : Prop where
  inUse : ∀ region ∈ s.regions,
    region.inUse = true ↔ s.baseAddr ≠ 0 ∧ region.Contains s.baseAddr
  window : s.baseAddr ≠ 0 →
    ∃ region ∈ s.regions, region.Covers s.baseAddr (umsgSize numUmsgs)
  enabled : s.umsgEnable = true → s.baseAddr ≠ 0

/-- A base address that the driver would accept fits the register and stays in the
region of the base that it replaces. -/
def BaseKept (numUmsgs : Nat) (s : PortState) : PortCall → Prop
  | .setBaseAddr iova => s.umsgEnable = false → iova ≠ 0 → iova % pageSize = 0 →
      iova ≤ addU64 iova (umsgSize numUmsgs) →
      ∀ region, afuDmaRegionFind iova (umsgSize numUmsgs) s.dma.dmaRegions = some region →
        iova < 2 ^ baseAddrWidth ∧ (s.baseAddr = 0 ∨ region.Contains s.baseAddr)
  | _ => True

/-- Live regions are nonempty ranges of the bus space, apart from each other. -/
structure Layout (tree : SearchTree Region) : Prop where
  ordered : tree.Ordered Region.iova
  bounded : ∀ region ∈ tree.toList, 0 < region.length ∧ region.iova + region.length ≤ 2 ^ 64
  apart : ∀ first ∈ tree.toList, ∀ second ∈ tree.toList, first ≠ second →
    Apart first.iova first.length second.iova second.length

/-- The lookup test for a nonempty window, in a region of the bus space. -/
theorem Region.check_iff {region : Region} {iova size : Nat} (positive : 0 < size)
    (bound : region.iova + region.length ≤ 2 ^ 64) (fits : iova + size < 2 ^ 64) :
    dmaRegionCheckIova region iova size = true ↔
      region.Covers iova size ∧ region.iova + region.length < 2 ^ 64 := by
  have nonzero : ¬ (size = 0 ∧ region.iova ≠ iova) := by omega
  rw [dmaRegionCheckIova, if_neg nonzero, decide_eq_true_eq]
  simp only [addU64, Region.Covers, Nat.mod_eq_of_lt fits, Nat.add_comm region.length]
  rcases Nat.lt_or_ge (region.iova + region.length) (2 ^ 64) with inside | atEnd
  · rw [Nat.mod_eq_of_lt inside]
    omega
  · -- the end of the region wraps to zero, and no window is found in it
    have wraps : region.iova + region.length = 2 ^ 64 := by omega
    rw [wraps, Nat.mod_self]
    omega

/-- Both subtrees of a layout are laid out. -/
theorem Layout.children {left right : SearchTree Region} {this : Region}
    (layout : Layout (.node left this right)) : Layout left ∧ Layout right := by
  obtain ⟨leftOrdered, rightOrdered, -⟩ := SearchTree.ordered_node.mp layout.ordered
  have inLeft : ∀ item ∈ left.toList, item ∈ (SearchTree.node left this right).toList := by
    intro item inside
    simp [inside]
  have inRight : ∀ item ∈ right.toList, item ∈ (SearchTree.node left this right).toList := by
    intro item inside
    simp [inside]
  constructor
  · exact ⟨leftOrdered, fun item inside => layout.bounded item (inLeft item inside),
      fun first one second two => layout.apart first (inLeft first one) second (inLeft second two)⟩
  · exact ⟨rightOrdered, fun item inside => layout.bounded item (inRight item inside),
      fun first one second two =>
        layout.apart first (inRight first one) second (inRight second two)⟩

/-- A window inside a live region is found, with that region. -/
theorem afuDmaRegionFind_complete {tree : SearchTree Region} (layout : Layout tree)
    {region : Region} (member : region ∈ tree.toList) {iova size : Nat} (positive : 0 < size)
    (bound : region.iova + region.length < 2 ^ 64) (covers : region.Covers iova size) :
    afuDmaRegionFind iova size tree = some region := by
  induction tree with
  | leaf => cases member
  | node left this right leftIH rightIH =>
      obtain ⟨leftLayout, rightLayout⟩ := layout.children
      obtain ⟨-, -, below, above⟩ := SearchTree.ordered_node.mp layout.ordered
      have inNode : this ∈ (SearchTree.node left this right).toList := by simp
      have thisBound := layout.bounded this inNode
      obtain ⟨start, stop⟩ := covers
      simp only [afuDmaRegionFind]
      rcases eq_or_ne region this with rfl | different
      · rw [if_pos ((Region.check_iff positive thisBound.2 (by omega)).mpr ⟨⟨start, stop⟩, bound⟩)]
      have disjoint := layout.apart region member this inNode different
      have failed : ¬ dmaRegionCheckIova this iova size = true := by
        intro passed
        obtain ⟨⟨thisStart, thisStop⟩, -⟩ :=
          (Region.check_iff positive thisBound.2 (by omega)).mp passed
        rcases disjoint with apart | apart <;> omega
      rw [if_neg failed]
      simp only [SearchTree.toList_node, List.mem_append, List.mem_cons] at member
      rcases member with inside | rfl | inside
      · -- the window starts in a region to the left of `this`
        have key := below region inside
        have less : iova < this.iova := by rcases disjoint with apart | apart <;> omega
        rw [if_pos less]
        exact leftIH leftLayout inside
      · exact absurd rfl different
      · have key := above region inside
        have greater : iova > this.iova := by omega
        rw [if_neg (by omega), if_pos greater]
        exact rightIH rightLayout inside

section Layout

variable {ops : RbOps} {tree : SearchTree Region}

theorem Layout.insert (layout : Layout tree) {region : Region} {added : SearchTree Region}
    (result : afuDmaRegionAdd ops tree region = .ok added) (positive : 0 < region.length)
    (bound : region.iova + region.length ≤ 2 ^ 64)
    (apart : ∀ other ∈ tree.toList, Apart region.iova region.length other.iova other.length) :
    Layout added := by
  obtain ⟨perm, ordered⟩ := afuDmaRegionAdd_spec result
  have members : ∀ item ∈ added.toList, item = region ∨ item ∈ tree.toList :=
    fun item member => List.mem_cons.mp (perm.mem_iff.mp member)
  refine ⟨ordered layout.ordered, ?_, ?_⟩
  · intro item member
    rcases members item member with rfl | old
    · exact ⟨positive, bound⟩
    · exact layout.bounded item old
  · intro first firstMem second secondMem different
    rcases members first firstMem with rfl | firstOld <;>
      rcases members second secondMem with rfl | secondOld
    · exact absurd rfl different
    · exact apart second secondOld
    · exact (apart first firstOld).symm
    · exact layout.apart first firstOld second secondOld different

theorem Layout.erase (layout : Layout tree) (region : Region) : Layout (ops.erase tree region) := by
  have sublist : (ops.erase tree region).toList.Sublist tree.toList := by
    rw [ops.erase_toList]
    exact List.erase_sublist
  exact ⟨layout.ordered.sublist sublist,
    fun item member => layout.bounded item (sublist.subset member),
    fun first one second two =>
      layout.apart first (sublist.subset one) second (sublist.subset two)⟩

@[simp] theorem Region.mark_iova (region : Region) (inUse : Bool) (item : Region) :
    (region.mark inUse item).iova = item.iova := by
  simp only [Region.mark]
  split <;> rfl

@[simp] theorem Region.mark_length (region : Region) (inUse : Bool) (item : Region) :
    (region.mark inUse item).length = item.length := by
  simp only [Region.mark]
  split <;> rfl

theorem Layout.mark (layout : Layout tree) (region : Region) (inUse : Bool) :
    Layout (tree.map (region.mark inUse)) := by
  refine ⟨?_, ?_, ?_⟩
  · simpa [SearchTree.Ordered, List.pairwise_map] using layout.ordered
  · simpa using layout.bounded
  · simp only [SearchTree.toList_map, List.mem_map]
    rintro _ ⟨first, one, rfl⟩ _ ⟨second, two, rfl⟩ different
    have sources : first ≠ second := fun same => different (same ▸ rfl)
    simpa using layout.apart first one second two sources

/-- Two live regions have no address in common. -/
theorem Layout.eq_of_contains (layout : Layout tree) {first second : Region} {addr : Nat}
    (firstMem : first ∈ tree.toList) (secondMem : second ∈ tree.toList)
    (inFirst : first.Contains addr) (inSecond : second.Contains addr) : first = second := by
  by_contra different
  obtain ⟨firstStart, firstStop⟩ := inFirst
  obtain ⟨secondStart, secondStop⟩ := inSecond
  rcases layout.apart first firstMem second secondMem different with apart | apart <;> omega

end Layout

theorem Region.Covers.contains {region : Region} {addr size : Nat}
    (covers : region.Covers addr size)
    (positive : 0 < size) : region.Contains addr := by
  obtain ⟨start, stop⟩ := covers
  exact ⟨start, by omega⟩

/-! ## The invariant -/

structure UmsgInv (numUmsgs : Nat) (s : PortState) : Prop where
  layout : Layout s.dma.dmaRegions
  safe : UmsgSafe numUmsgs s
  narrow : s.baseAddr < 2 ^ baseAddrWidth
  /-- The region of the base does not reach the end of the bus space. -/
  open_end : ∀ region ∈ s.regions, region.inUse = true → region.iova + region.length < 2 ^ 64

section Preservation

variable {ops : RbOps} {numUmsgs : Nat} {s : PortState}

/-- The region that holds the window of a nonzero base. -/
theorem UmsgInv.holder (inv : UmsgInv numUmsgs s) (some_umsgs : 1 ≤ numUmsgs)
    (nonzero : s.baseAddr ≠ 0) :
    ∃ region ∈ s.regions, region.inUse = true ∧
      region.Covers s.baseAddr (umsgSize numUmsgs) := by
  obtain ⟨region, member, covers⟩ := inv.safe.window nonzero
  have positive : 0 < umsgSize numUmsgs := by
    simp only [umsgSize, pageSize]
    omega
  exact ⟨region, member,
    (inv.safe.inUse region member).mpr ⟨nonzero, covers.contains positive⟩, covers⟩

/-- Inserting a free region apart from the others. -/
theorem UmsgInv.insert (inv : UmsgInv numUmsgs s) (some_umsgs : 1 ≤ numUmsgs) {region : Region}
    {dma : Dma} (result : afuDmaRegionAdd ops s.dma.dmaRegions region = .ok dma.dmaRegions)
    (free : region.inUse = false) (positive : 0 < region.length)
    (bound : region.iova + region.length ≤ 2 ^ 64)
    (apart : ∀ other ∈ s.regions, Apart region.iova region.length other.iova other.length) :
    UmsgInv numUmsgs { s with dma := dma } := by
  obtain ⟨perm, -⟩ := afuDmaRegionAdd_spec result
  have members : ∀ item ∈ dma.regions, item = region ∨ item ∈ s.regions :=
    fun item member => List.mem_cons.mp (perm.mem_iff.mp member)
  refine ⟨inv.layout.insert result positive bound apart, ⟨?_, ?_, inv.safe.enabled⟩, inv.narrow, ?_⟩
  · intro item member
    rcases members item member with rfl | old
    · simp only [free, Bool.false_eq_true, false_iff, not_and]
      rintro nonzero ⟨start, stop⟩
      obtain ⟨holder, holderMem, -, covers⟩ := inv.holder some_umsgs nonzero
      obtain ⟨holderStart, holderStop⟩ := covers
      simp only [umsgSize, pageSize] at holderStop
      rcases apart holder holderMem with before | after <;> omega
    · exact inv.safe.inUse item old
  · intro nonzero
    obtain ⟨holder, holderMem, covers⟩ := inv.safe.window nonzero
    exact ⟨holder, perm.mem_iff.mpr (List.mem_cons_of_mem _ holderMem), covers⟩
  · intro item member used
    rcases members item member with rfl | old
    · simp [free] at used
    · exact inv.open_end item old used

/-- Erasing a free region. -/
theorem UmsgInv.erase (inv : UmsgInv numUmsgs s) (some_umsgs : 1 ≤ numUmsgs) {region : Region}
    {dma : Dma} (result : dma.dmaRegions = ops.erase s.dma.dmaRegions region)
    (free : region.inUse = false) : UmsgInv numUmsgs { s with dma := dma } := by
  have regions : dma.regions = s.regions.erase region := by
    rw [Dma.regions, result, ops.erase_toList]
    rfl
  have members : ∀ item ∈ dma.regions, item ∈ s.regions := by
    rw [regions]
    exact fun item kept => List.mem_of_mem_erase kept
  refine ⟨?_, ⟨?_, ?_, inv.safe.enabled⟩, inv.narrow, ?_⟩
  · show Layout dma.dmaRegions
    rw [result]
    exact inv.layout.erase region
  · exact fun item member => inv.safe.inUse item (members item member)
  · -- the holder of the base is in use, so it is not the region erased
    intro nonzero
    obtain ⟨holder, holderMem, used, covers⟩ := inv.holder some_umsgs nonzero
    have other : holder ≠ region := by
      rintro rfl
      rw [free] at used
      cases used
    refine ⟨holder, ?_, covers⟩
    show holder ∈ dma.regions
    rw [regions]
    exact (List.mem_erase_of_ne other).mpr holderMem
  · exact fun item member => inv.open_end item (members item member)

theorem UmsgInv.unmap (inv : UmsgInv numUmsgs s) (some_umsgs : 1 ≤ numUmsgs) (mm : Mm)
    (iova : Nat) :
    UmsgInv numUmsgs { s with dma := (afuDmaUnmapRegion ops s.dma mm iova).2 } := by
  rcases afuDmaUnmapRegion_cases ops s.dma mm iova with
    ⟨err, failed⟩ | ⟨region, found, free, released⟩
  · rw [failed]
    exact inv
  · rw [released]
    refine inv.erase some_umsgs (?_ : _ = ops.erase s.dma.dmaRegions region) free
    simp [afuDmaUnpinPages, putAllPages, dmaUnmapPage]

theorem UmsgInv.mapRegion (inv : UmsgInv numUmsgs s) (some_umsgs : 1 ≤ numUmsgs) {mm : Mm}
    {env : MapEnv} {userAddr length : Nat}
    (possible : PortCall.Possible s (.map mm env userAddr length)) :
    UmsgInv numUmsgs { s with dma := (afuIoctlDmaMap ops s.dma env mm userAddr length).2 } := by
  rcases afuDmaMapRegion_cases ops s.dma env mm userAddr length with
    ⟨err, failed⟩ | ⟨pages, -, -, failed⟩ |
    ⟨region, tree, -, -, rfl, positive, free, mapping, added, mapped⟩
  · simpa [afuIoctlDmaMap, failed] using inv
  · simp only [afuIoctlDmaMap, failed]
    exact ⟨inv.layout, ⟨inv.safe.inUse, inv.safe.window, inv.safe.enabled⟩, inv.narrow,
      inv.open_end⟩
  · obtain ⟨bound, apart⟩ := possible region.iova mapping
    have inserted : UmsgInv numUmsgs
        { s with dma := { s.dma.acquire region with dmaRegions := tree } } :=
      inv.insert some_umsgs added free positive bound apart
    by_cases copied : env.copyOk = false
    · simp only [afuIoctlDmaMap, mapped, copied, if_true]
      exact inserted.unmap some_umsgs mm region.iova
    · simpa [afuIoctlDmaMap, mapped, copied] using inserted

/-- Moving a base within its region, or setting the first one. -/
theorem UmsgInv.point (inv : UmsgInv numUmsgs s) (some_umsgs : 1 ≤ numUmsgs) {region : Region}
    {iova : Nat} (member : region ∈ s.regions) (nonzero : iova ≠ 0)
    (fits : iova < 2 ^ baseAddrWidth) (covers : region.Covers iova (umsgSize numUmsgs))
    (bound : region.iova + region.length < 2 ^ 64)
    (kept : s.baseAddr = 0 ∨ region.Contains s.baseAddr) (disabled : s.umsgEnable = false) :
    UmsgInv numUmsgs (setInUse (portUmsgSetAddr s iova) region true) := by
  have positive : 0 < umsgSize numUmsgs := by
    simp only [umsgSize, pageSize]
    omega
  have written : iova % 2 ^ baseAddrWidth = iova := Nat.mod_eq_of_lt fits
  have free : ∀ item ∈ s.regions, item ≠ region → item.inUse = false := by
    intro item itemMem different
    by_contra used
    obtain ⟨based, contains⟩ := (inv.safe.inUse item itemMem).mp (Bool.not_eq_false _ ▸ used)
    rcases kept with zero | inside
    · exact based zero
    · exact different (inv.layout.eq_of_contains itemMem member contains inside)
  refine ⟨inv.layout.mark region true, ⟨?_, ?_, ?_⟩, ?_, ?_⟩
  · simp only [PortState.regions, Dma.regions, setInUse, portUmsgSetAddr, SearchTree.toList_map,
      List.mem_map, written]
    rintro _ ⟨item, itemMem, rfl⟩
    by_cases same : item = region
    · subst same
      simpa [Region.mark, nonzero, Region.Contains] using covers.contains positive
    · have outside : ¬ item.Contains iova := fun contains =>
        same (inv.layout.eq_of_contains itemMem member contains (covers.contains positive))
      simp [Region.mark, same, free item itemMem same, outside]
  · intro _
    refine ⟨region.mark true region, ?_, ?_⟩
    · show _ ∈ (s.dma.dmaRegions.map (region.mark true)).toList
      rw [SearchTree.toList_map]
      exact List.mem_map_of_mem member
    · simpa [Region.Covers, setInUse, portUmsgSetAddr, written] using covers
  · intro enabled
    simp [setInUse, portUmsgSetAddr, disabled] at enabled
  · exact Nat.mod_lt _ (by decide)
  · simp only [PortState.regions, Dma.regions, setInUse, portUmsgSetAddr, SearchTree.toList_map,
      List.mem_map]
    rintro _ ⟨item, itemMem, rfl⟩ used
    by_cases same : item = region
    · subst same
      simpa using bound
    · simp [Region.mark, same, free item itemMem same] at used

/-- Clearing the base finds the region that holds it, and frees it. -/
theorem UmsgInv.clear (inv : UmsgInv numUmsgs s) (some_umsgs : 1 ≤ numUmsgs)
    (allocated : numUmsgs < 256) (disabled : s.umsgEnable = false) :
    UmsgInv numUmsgs (afuPortUmsgSetAddr numUmsgs s 0).2 ∧
      (afuPortUmsgSetAddr numUmsgs s 0).2.baseAddr = 0 ∧
      (afuPortUmsgSetAddr numUmsgs s 0).2.umsgEnable = false := by
  by_cases zero : s.baseAddr = 0
  · simpa [afuPortUmsgSetAddr, disabled, zero] using inv
  obtain ⟨holder, member, used, covers⟩ := inv.holder some_umsgs zero
  have positive : 0 < umsgSize numUmsgs := by
    simp only [umsgSize, pageSize]
    omega
  have narrow := inv.narrow
  have noOverflow : ¬ addU64 s.baseAddr (umsgSize numUmsgs) < s.baseAddr := by
    simp only [addU64, umsgSize, pageSize, baseAddrWidth] at narrow ⊢
    omega
  have found := afuDmaRegionFind_complete inv.layout member positive
    (inv.open_end holder member used) covers
  have cleared : (afuPortUmsgSetAddr numUmsgs s 0).2 =
      setInUse (portUmsgSetAddr s 0) holder false := by
    simp [afuPortUmsgSetAddr, disabled, zero, noOverflow, found]
  have free : ∀ item ∈ s.regions, (holder.mark false item).inUse = false := by
    intro item itemMem
    by_cases same : item = holder
    · simp [Region.mark, same]
    · simp only [Region.mark, if_neg same]
      by_contra inUse
      obtain ⟨-, contains⟩ := (inv.safe.inUse item itemMem).mp (Bool.not_eq_false _ ▸ inUse)
      exact same (inv.layout.eq_of_contains itemMem member contains (covers.contains positive))
  rw [cleared]
  refine ⟨⟨inv.layout.mark holder false, ⟨?_, ?_, ?_⟩, ?_, ?_⟩, ?_, disabled⟩
  · simp only [PortState.regions, Dma.regions, setInUse, portUmsgSetAddr, SearchTree.toList_map,
      List.mem_map]
    rintro _ ⟨item, itemMem, rfl⟩
    simp [free item itemMem]
  · simp [setInUse, portUmsgSetAddr]
  · simp [setInUse, portUmsgSetAddr, disabled]
  · simp [setInUse, portUmsgSetAddr, baseAddrWidth]
  · simp only [PortState.regions, Dma.regions, setInUse, portUmsgSetAddr, SearchTree.toList_map,
      List.mem_map]
    rintro _ ⟨item, itemMem, rfl⟩ inUse
    simp [free item itemMem] at inUse
  · simp [setInUse, portUmsgSetAddr]

theorem UmsgInv.setBaseAddr (inv : UmsgInv numUmsgs s) (some_umsgs : 1 ≤ numUmsgs)
    (allocated : numUmsgs < 256) {iova : Nat} (kept : BaseKept numUmsgs s (.setBaseAddr iova)) :
    UmsgInv numUmsgs (afuPortUmsgSetAddr numUmsgs s iova).2 := by
  cases enabled : s.umsgEnable with
  | true => simpa [afuPortUmsgSetAddr, enabled] using inv
  | false =>
      by_cases zero : iova = 0
      · subst zero
        exact (inv.clear some_umsgs allocated enabled).1
      by_cases misaligned : iova % pageSize ≠ 0
      · simpa [afuPortUmsgSetAddr, enabled, zero, misaligned] using inv
      by_cases overflow : addU64 iova (umsgSize numUmsgs) < iova
      · simpa [afuPortUmsgSetAddr, enabled, zero, misaligned, overflow] using inv
      cases lookup : afuDmaRegionFind iova (umsgSize numUmsgs) s.dma.dmaRegions with
      | none => simpa [afuPortUmsgSetAddr, enabled, zero, misaligned, overflow, lookup] using inv
      | some region =>
          obtain ⟨fits, inside⟩ :=
            kept enabled zero (not_not.mp misaligned) (Nat.not_lt.mp overflow)
            region lookup
          obtain ⟨member, passed⟩ := afuDmaRegionFind_sound lookup
          have positive : 0 < umsgSize numUmsgs := by
            simp only [umsgSize, pageSize]
            omega
          have small : iova + umsgSize numUmsgs < 2 ^ 64 := by
            simp only [umsgSize, pageSize, baseAddrWidth] at fits ⊢
            omega
          obtain ⟨covers, bound⟩ :=
            (Region.check_iff positive (inv.layout.bounded region member).2 small).mp passed
          have pointed := inv.point some_umsgs member zero fits covers bound inside enabled
          simpa [afuPortUmsgSetAddr, enabled, zero, misaligned, overflow, lookup] using pointed

/-- The mode register plays no part. -/
theorem UmsgInv.setMode (inv : UmsgInv numUmsgs s) (mode : Nat) :
    UmsgInv numUmsgs (afuPortUmsgSetMode numUmsgs s mode).2 := by
  simp only [afuPortUmsgSetMode]
  split
  · exact inv
  · exact ⟨inv.layout, ⟨inv.safe.inUse, inv.safe.window, inv.safe.enabled⟩, inv.narrow,
      inv.open_end⟩

theorem UmsgInv.enable (inv : UmsgInv numUmsgs s) (enable : Bool) :
    UmsgInv numUmsgs (afuPortUmsgEnable s enable).2 := by
  simp only [afuPortUmsgEnable, portUmsgEnable]
  split
  · exact inv
  next based =>
    split
    · exact inv
    · refine ⟨inv.layout, ⟨inv.safe.inUse, inv.safe.window, ?_⟩, inv.narrow, inv.open_end⟩
      exact fun enabled zero => based ⟨enabled, zero⟩

theorem afuPortUmsgEnable_false (s : PortState) :
    (afuPortUmsgEnable s false).2.umsgEnable = false := by
  simp only [afuPortUmsgEnable, portUmsgEnable, Bool.false_eq_true, false_and, if_false]
  split
  next same => exact same.symm
  · rfl

/-- The halt of the last close disables the engine and clears the base. -/
theorem UmsgInv.halt (inv : UmsgInv numUmsgs s) (some_umsgs : 1 ≤ numUmsgs)
    (allocated : numUmsgs < 256) :
    (afuPortUmsgHalt numUmsgs s).baseAddr = 0 ∧
      (afuPortUmsgHalt numUmsgs s).umsgEnable = false := by
  obtain ⟨-, zero, disabled⟩ := (inv.enable false).clear some_umsgs allocated
    (afuPortUmsgEnable_false s)
  simp only [afuPortUmsgHalt, afuPortUmsgSetMode]
  split
  · exact ⟨zero, disabled⟩
  · exact ⟨zero, disabled⟩

theorem UmsgInv.close (inv : UmsgInv numUmsgs s) (some_umsgs : 1 ≤ numUmsgs)
    (allocated : numUmsgs < 256) (current : Option Mm) :
    UmsgInv numUmsgs (s.lastClose numUmsgs current) := by
  obtain ⟨zero, disabled⟩ := inv.halt some_umsgs allocated
  have empty : (s.lastClose numUmsgs current).dma.dmaRegions = .leaf := rfl
  have none : (s.lastClose numUmsgs current).regions = [] := rfl
  refine ⟨⟨?_, ?_, ?_⟩, ⟨?_, ?_, ?_⟩, ?_, ?_⟩
  · rw [empty]
    exact SearchTree.ordered_leaf _
  · simp [empty]
  · simp [empty]
  · simp [none]
  · exact fun nonzero => absurd zero nonzero
  · intro enabled
    simp [PortState.lastClose, disabled] at enabled
  · simp [PortState.lastClose, zero, baseAddrWidth]
  · simp [none]

end Preservation

theorem UmsgInv.initial (numUmsgs : Nat) (base : Mm → Nat) :
    UmsgInv numUmsgs (.initial base) := by
  refine ⟨⟨SearchTree.ordered_leaf _, ?_, ?_⟩, ⟨?_, ?_, ?_⟩, ?_, ?_⟩ <;>
    simp [PortState.initial, Dma.initial, PortState.regions, Dma.regions, baseAddrWidth]

theorem umsgInv_of_reach {ops : RbOps} {base : Mm → Nat} {numUmsgs : Nat} {s : PortState}
    (some_umsgs : 1 ≤ numUmsgs) (allocated : numUmsgs < 256)
    (reach : (portSystem ops base numUmsgs).Reach (BaseKept numUmsgs) s) :
    UmsgInv numUmsgs s := by
  apply reach.invariant
  · rintro _ rfl
    exact .initial numUmsgs base
  · rintro state call next inv allowed ⟨possible, rfl⟩
    cases call with
    | map mm env userAddr length => exact inv.mapRegion some_umsgs possible
    | unmap mm iova => exact inv.unmap some_umsgs mm iova
    | setBaseAddr iova => exact inv.setBaseAddr some_umsgs allocated allowed
    | setMode mode => exact inv.setMode mode
    | enable enable => exact inv.enable enable
    | close current => exact inv.close some_umsgs allocated current

/-- In every run whose accepted base addresses fit the register and stay in the
region of the base they replace, the engine never points at unmapped memory, and it is
off with a zero base after the last close. -/
theorem umsg_never_dangles (ops : RbOps) (base : Mm → Nat) {numUmsgs : Nat} {s : PortState}
    (some_umsgs : 1 ≤ numUmsgs) (allocated : numUmsgs < 256)
    (reach : (portSystem ops base numUmsgs).Reach (BaseKept numUmsgs) s) :
    UmsgSafe numUmsgs s ∧ ∀ current,
      (s.lastClose numUmsgs current).umsgEnable = false ∧
      (s.lastClose numUmsgs current).baseAddr = 0 := by
  have inv := umsgInv_of_reach some_umsgs allocated reach
  obtain ⟨zero, disabled⟩ := inv.halt some_umsgs allocated
  exact ⟨inv.safe, fun current => ⟨disabled, zero⟩⟩

/-- A task maps one page at a device address. -/
def PortCall.mapPage (page : Page) (iova : Nat) : PortCall :=
  .map 7 (.granting [page] iova) 0x4000 0x1000

/-- A base set in the only region, and cleared by the last close. -/
theorem umsg_never_dangles_one_region :
    ∃ s, (portSystem .plain (fun _ => 0) 1).Reach (BaseKept 1) s ∧ s.baseAddr = 0x1000 ∧
      UmsgSafe 1 s ∧ (s.lastClose 1 none).baseAddr = 0 := by
  let mapped := (PortState.initial fun _ => 0).call .plain 1 (.mapPage 40 0x1000)
  let s := mapped.call .plain 1 (.setBaseAddr 0x1000)
  have possible : (PortCall.mapPage 40 0x1000).Possible (.initial fun _ => 0) := by
    intro iova equal
    cases equal
    exact ⟨by decide, nofun⟩
  have allowed : BaseKept 1 (.initial fun _ => 0) (.mapPage 40 0x1000) := trivial
  have first : (portSystem .plain (fun _ => 0) 1).Reach (BaseKept 1) mapped :=
    .step (.init rfl) allowed ⟨possible, rfl⟩
  have kept : BaseKept 1 mapped (.setBaseAddr 0x1000) :=
    fun _ _ _ _ region _ => ⟨by decide, .inl (by decide)⟩
  have reach : (portSystem .plain (fun _ => 0) 1).Reach (BaseKept 1) s :=
    .step first kept ⟨trivial, rfl⟩
  have safe := umsg_never_dangles .plain (fun _ => 0) (by decide) (by decide) reach
  exact ⟨s, reach, by decide, safe.1, (safe.2 none).2⟩

/-- A base moved from one region to another leaves the first marked in use. -/
theorem moved_base_keeps_region_in_use :
    ∃ s, (portSystem .plain (fun _ => 0) 1).Reachable s ∧ ¬ UmsgSafe 1 s := by
  let one := (PortState.initial fun _ => 0).call .plain 1 (.mapPage 40 0x1000)
  let two := one.call .plain 1 (.mapPage 50 0x3000)
  let based := two.call .plain 1 (.setBaseAddr 0x1000)
  let moved := based.call .plain 1 (.setBaseAddr 0x3000)
  have onePossible : (PortCall.mapPage 40 0x1000).Possible (.initial fun _ => 0) := by
    intro iova equal
    cases equal
    exact ⟨by decide, nofun⟩
  have twoPossible : (PortCall.mapPage 50 0x3000).Possible one := by
    intro iova equal
    cases equal
    have regions : one.regions = [⟨0x4000, 0x1000, 0x1000, [40], false, 7⟩] := by decide
    simp [regions, Apart]
  have basePossible : (PortCall.setBaseAddr 0x1000).Possible two := trivial
  have movePossible : (PortCall.setBaseAddr 0x3000).Possible based := trivial
  have reach : (portSystem .plain (fun _ => 0) 1).Reachable moved :=
    .step (.step (.step (.step (.init rfl) trivial ⟨onePossible, rfl⟩) trivial
      ⟨twoPossible, rfl⟩) trivial ⟨basePossible, rfl⟩) trivial ⟨movePossible, rfl⟩
  refine ⟨moved, reach, fun safe => ?_⟩
  have member : ⟨0x4000, 0x1000, 0x1000, [40], true, 7⟩ ∈ moved.regions := by decide
  have contains := ((safe.inUse _ member).mp rfl).2
  exact absurd contains (by unfold Region.Contains; decide)

end OpaeXilinx.Port
