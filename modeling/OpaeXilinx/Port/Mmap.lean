import OpaeXilinx.Base.Transition
import OpaeXilinx.Port.DmaRegion

/-!
# Mapping the regions of a port

The regions of a port form one sequence of device offsets, in which each region starts
on the page after its predecessor.  A mapping request names a window of these offsets;
it is answered with the pages behind the region that holds the window.
-/

namespace OpaeXilinx.Port

open OpaeXilinx.Base

/-- `struct fpga_afu_region`. -/
structure AfuRegion where
  index : Nat
  flags : Nat
  size : Nat
  offset : Nat
  phys : Nat
  deriving DecidableEq, Repr

/-- The region list of `struct fpga_afu`, the region added last in front. -/
structure AfuRegions where
  regions : List AfuRegion
  regionCurOffset : Nat
  numRegions : Nat
  deriving DecidableEq, Repr

def fpgaRegionRead : Nat := 1 <<< 0
def fpgaRegionWrite : Nat := 1 <<< 1
def fpgaRegionMmap : Nat := 1 <<< 2

/-- `PAGE_ALIGN` in 64 bits. -/
def pageAlign (size : Nat) : Nat := addU64 size (pageSize - 1) / pageSize * pageSize

def getRegionByIndex (s : AfuRegions) (regionIndex : Nat) : Option AfuRegion :=
  s.regions.find? fun region => region.index == regionIndex

/-- The arguments of `afu_region_add`, with the result of `devm_kzalloc`. -/
structure RegionCall where
  kzallocOk : Bool
  regionIndex : Nat
  regionSize : Nat
  phys : Nat
  flags : Nat

def afuRegionAdd (s : AfuRegions) (call : RegionCall) : Except Errno Unit × AfuRegions :=
  if call.kzallocOk = false then (.error .enomem, s)
  else if (getRegionByIndex s call.regionIndex).isSome then (.error .eexist, s)
  else
    let region : AfuRegion :=
      ⟨call.regionIndex, call.flags, call.regionSize, s.regionCurOffset, call.phys⟩
    (.ok (), ⟨region :: s.regions, addU64 s.regionCurOffset (pageAlign call.regionSize),
      s.numRegions + 1⟩)

def afuGetRegionByOffset (s : AfuRegions) (offset size : Nat) : Option AfuRegion :=
  s.regions.find? fun region => decide
    (region.offset ≤ offset ∧ addU64 region.offset region.size ≥ addU64 offset size)

/-- `struct vm_area_struct`, as far as `afu_mmap` reads it. -/
structure VmArea where
  vmStart : Nat
  vmEnd : Nat
  vmPgoff : Nat
  shared : Bool
  read : Bool
  write : Bool

namespace VmArea

def size (vma : VmArea) : Nat := vma.vmEnd - vma.vmStart

/-- `vm_pgoff << PAGE_SHIFT` in 64 bits. -/
def offset (vma : VmArea) : Nat := vma.vmPgoff * pageSize % 2 ^ 64

/-- An area the kernel hands to a driver: a positive number of whole pages. -/
structure Valid (vma : VmArea) : Prop where
  nonempty : vma.vmStart < vma.vmEnd
  bound : vma.vmEnd < 2 ^ 64
  pages : vma.size % pageSize = 0

end VmArea

/-- The answer to a mapping request: an error, or the call of `remap_pfn_range`. -/
inductive MmapResult where
  | error (err : Errno)
  | remapPfnRange (pfn size : Nat)
  deriving DecidableEq, Repr

/-- `EPERM`. -/
def eperm : Errno := .other 1

def afuMmap (s : AfuRegions) (vma : VmArea) : MmapResult :=
  if vma.shared = false ∧ vma.write = true then .error .einval
  else
    match afuGetRegionByOffset s vma.offset vma.size with
    | none => .error .einval
    | some region =>
        if region.flags &&& fpgaRegionMmap = 0 then .error .einval
        else if vma.read = true ∧ region.flags &&& fpgaRegionRead = 0 then .error eperm
        else if vma.write = true ∧ region.flags &&& fpgaRegionWrite = 0 then .error eperm
        else
          .remapPfnRange (addU64 region.phys (vma.offset - region.offset) / pageSize) vma.size

/-- The arguments of a call are of their types, and the offsets given out do not overflow
64 bits. -/
structure RegionCall.Fits (s : AfuRegions) (call : RegionCall) : Prop where
  phys : call.phys < 2 ^ 64
  total : s.regionCurOffset + call.regionSize + (pageSize - 1) < 2 ^ 64

/-- The region list of a port, extended by `afu_region_add`. -/
def afuRegionSystem : System AfuRegions RegionCall where
  init s := s = ⟨[], 0, 0⟩
  step s call next := next = (afuRegionAdd s call).2

/-- The region holds a whole window of offsets. -/
def AfuRegion.Spans (region : AfuRegion) (offset size : Nat) : Prop :=
  region.offset ≤ offset ∧ offset + size ≤ region.offset + region.size

/-- The regions in order, each up to the start of the one added after it. -/
structure RegionsInv (s : AfuRegions) : Prop where
  ordered : s.regions.Pairwise fun later earlier => earlier.offset + earlier.size ≤ later.offset
  below : ∀ region ∈ s.regions, region.offset + region.size ≤ s.regionCurOffset
  aligned : ∀ region ∈ s.regions, region.offset % pageSize = 0
  phys : ∀ region ∈ s.regions, region.phys < 2 ^ 64
  cur : s.regionCurOffset % pageSize = 0
  bound : s.regionCurOffset < 2 ^ 64

/-- Rounding up a size that leaves room for it. -/
theorem pageAlign_eq {size : Nat} (room : size + (pageSize - 1) < 2 ^ 64) :
    size ≤ pageAlign size ∧ pageAlign size ≤ size + (pageSize - 1) ∧
      pageAlign size % pageSize = 0 := by
  rw [pageAlign, addU64, Nat.mod_eq_of_lt room]
  simp only [pageSize] at *
  omega

theorem RegionsInv.add {s : AfuRegions} (inv : RegionsInv s) {call : RegionCall}
    (fits : call.Fits s) : RegionsInv (afuRegionAdd s call).2 := by
  have total := fits.total
  have room : call.regionSize + (pageSize - 1) < 2 ^ 64 := by omega
  obtain ⟨covers, short, aligned⟩ := pageAlign_eq room
  have next : addU64 s.regionCurOffset (pageAlign call.regionSize) =
      s.regionCurOffset + pageAlign call.regionSize := by
    rw [addU64, Nat.mod_eq_of_lt (by omega)]
  rw [afuRegionAdd]
  split
  · exact inv
  split
  · exact inv
  simp only [next]
  refine ⟨?_, ?_, ?_, ?_, ?_, ?_⟩
  · exact List.pairwise_cons.mpr ⟨fun earlier member => inv.below earlier member, inv.ordered⟩
  · intro region member
    rcases List.mem_cons.mp member with rfl | old
    · exact Nat.add_le_add_left covers _
    · exact Nat.le_trans (inv.below region old) (Nat.le_add_right _ _)
  · intro region member
    rcases List.mem_cons.mp member with rfl | old
    · exact inv.cur
    · exact inv.aligned region old
  · intro region member
    rcases List.mem_cons.mp member with rfl | old
    · exact fits.phys
    · exact inv.phys region old
  · rw [Nat.add_mod, inv.cur, aligned]
    rfl
  · show s.regionCurOffset + pageAlign call.regionSize < 2 ^ 64
    omega

theorem regionsInv_of_reach {s : AfuRegions}
    (reach : afuRegionSystem.Reach (fun s call => call.Fits s) s) : RegionsInv s := by
  apply reach.invariant
  · rintro _ rfl
    exact ⟨.nil, nofun, nofun, nofun, rfl, by decide⟩
  · rintro s call _ inv fits rfl
    exact inv.add fits

/-- The flags of the region allow the access that the area asks for. -/
def AfuRegion.Permits (region : AfuRegion) (vma : VmArea) : Prop :=
  region.flags &&& fpgaRegionMmap ≠ 0 ∧
  (vma.read = true → region.flags &&& fpgaRegionRead ≠ 0) ∧
  (vma.write = true → region.flags &&& fpgaRegionWrite ≠ 0)

/-- The mapped pages lie in the physical range of the region. -/
def AfuRegion.Inside (region : AfuRegion) (pfn size : Nat) : Prop :=
  region.phys ≤ pfn * pageSize ∧ pfn * pageSize + size ≤ region.phys + region.size

/-- The physical start of a window is a 64 bit number that page numbers can express
without going below the region. -/
def AfuRegion.Addresses (region : AfuRegion) (offset : Nat) : Prop :=
  region.phys + (offset - region.offset) < 2 ^ 64 ∧
    (region.phys % pageSize = 0 ∨ region.offset ≠ offset)

/-- The end of the window does not wrap, and the region that spans it, if any, can
address it. -/
def WindowFits (s : AfuRegions) (vma : VmArea) : Prop :=
  vma.offset + vma.size < 2 ^ 64 ∧
  ∀ region ∈ s.regions, region.Spans vma.offset vma.size → region.Addresses vma.offset

/-- What is known where `remap_pfn_range` is called. -/
theorem afuMmap_cases {s : AfuRegions} {vma : VmArea} {pfn size : Nat}
    (mapped : afuMmap s vma = .remapPfnRange pfn size) :
    ∃ region, afuGetRegionByOffset s vma.offset vma.size = some region ∧ region.Permits vma ∧
      pfn = addU64 region.phys (vma.offset - region.offset) / pageSize ∧ size = vma.size := by
  rw [afuMmap] at mapped
  split at mapped
  · cases mapped
  cases lookup : afuGetRegionByOffset s vma.offset vma.size with
  | none => simp [lookup] at mapped
  | some region =>
      simp only [lookup] at mapped
      split at mapped
      · cases mapped
      next mmap =>
      split at mapped
      · cases mapped
      next read =>
      split at mapped
      · cases mapped
      next write =>
      cases mapped
      exact ⟨region, rfl, ⟨mmap, fun asked none => read ⟨asked, none⟩,
        fun asked none => write ⟨asked, none⟩⟩, rfl, rfl⟩

section Window

variable {s : AfuRegions} {vma : VmArea} {region : AfuRegion}

theorem VmArea.offset_aligned (vma : VmArea) : vma.offset % pageSize = 0 := by
  simp only [VmArea.offset, pageSize]
  omega

theorem VmArea.offset_lt (vma : VmArea) : vma.offset < 2 ^ 64 := Nat.mod_lt _ (by decide)

theorem VmArea.Valid.size_pos (valid : vma.Valid) : 0 < vma.size :=
  Nat.sub_pos_of_lt valid.nonempty

/-- The lookup test, for a region of a reachable list. -/
theorem RegionsInv.lookup (inv : RegionsInv s) {offset size : Nat}
    (found : afuGetRegionByOffset s offset size = some region) :
    region ∈ s.regions ∧ region.offset ≤ offset ∧
      (offset + size) % 2 ^ 64 ≤ region.offset + region.size := by
  rw [afuGetRegionByOffset] at found
  have member := List.mem_of_find?_eq_some found
  have passed := List.find?_some found
  rw [decide_eq_true_eq] at passed
  have below := Nat.lt_of_le_of_lt (inv.below region member) inv.bound
  obtain ⟨start, stop⟩ := passed
  rw [addU64, addU64, Nat.mod_eq_of_lt below] at stop
  exact ⟨member, start, stop⟩

/-- Two regions of a reachable list are one or have no offset in common. -/
theorem RegionsInv.apart (inv : RegionsInv s) {other : AfuRegion} (member : region ∈ s.regions)
    (otherMem : other ∈ s.regions) : region = other ∨
      region.offset + region.size ≤ other.offset ∨ other.offset + other.size ≤ region.offset := by
  let Apart (one two : AfuRegion) : Prop :=
    one = two ∨ one.offset + one.size ≤ two.offset ∨ two.offset + two.size ≤ one.offset
  have before : s.regions.Pairwise Apart := inv.ordered.imp fun less => .inr (.inr less)
  have after : s.regions.Pairwise (flip Apart) := inv.ordered.imp fun less => .inr (.inl less)
  exact List.Pairwise.forall_of_forall_of_flip (fun _ _ => .inl rfl) before after member otherMem

/-- Two regions of a reachable list that span the same window are one. -/
theorem RegionsInv.eq_of_spans (inv : RegionsInv s) {other : AfuRegion} {offset size : Nat}
    (positive : 0 < size) (member : region ∈ s.regions) (otherMem : other ∈ s.regions)
    (spans : region.Spans offset size) (otherSpans : other.Spans offset size) :
    region = other := by
  obtain ⟨start, stop⟩ := spans
  obtain ⟨otherStart, otherStop⟩ := otherSpans
  rcases inv.apart member otherMem with same | before | after
  · exact same
  · omega
  · omega

/-- A mapping of a window goes into its region exactly if the region spans the window and
can address it. -/
theorem RegionsInv.inside_iff (inv : RegionsInv s) (valid : vma.Valid)
    (found : afuGetRegionByOffset s vma.offset vma.size = some region) :
    region.Inside (addU64 region.phys (vma.offset - region.offset) / pageSize) vma.size ↔
      vma.offset + vma.size < 2 ^ 64 ∧ region.Addresses vma.offset := by
  obtain ⟨member, start, stop⟩ := inv.lookup found
  have stopped := inv.below region member
  have bound := inv.bound
  have cur := inv.cur
  have aligned := inv.aligned region member
  have phys := inv.phys region member
  have offset := vma.offset_aligned
  have offsetBound := vma.offset_lt
  have positive := valid.size_pos
  simp only [AfuRegion.Inside, AfuRegion.Addresses, addU64, pageSize] at *
  generalize vma.offset = window at *
  generalize vma.size = size at *
  rcases Nat.lt_or_ge (region.phys + (window - region.offset)) (2 ^ 64) with fits | wraps
  · rw [Nat.mod_eq_of_lt fits]
    rcases Nat.lt_or_ge (window + size) (2 ^ 64) with short | long
    · rw [Nat.mod_eq_of_lt short] at stop
      omega
    · -- the window reaches over the end of the offsets, and so over its region
      omega
  · -- the physical start is below the region
    omega

end Window

/-- For every area, a mapping that is made of a reachable region list stays in the region
that the lookup found, whose flags allow the access, exactly if the window fits. -/
theorem afuMmap_inside_iff {s : AfuRegions}
    (reach : afuRegionSystem.Reach (fun s call => call.Fits s) s) {vma : VmArea}
    (valid : vma.Valid) {pfn size : Nat} (mapped : afuMmap s vma = .remapPfnRange pfn size) :
    (∃ region ∈ s.regions, afuGetRegionByOffset s vma.offset vma.size = some region ∧
      region.Permits vma ∧ region.Inside pfn size) ↔ WindowFits s vma := by
  have inv := regionsInv_of_reach reach
  obtain ⟨region, found, permits, rfl, rfl⟩ := afuMmap_cases mapped
  have inside_iff := inv.inside_iff valid found
  obtain ⟨member, start, stop⟩ := inv.lookup found
  constructor
  · rintro ⟨other, -, same, -, inside⟩
    obtain rfl : other = region := Option.some.inj (same.symm.trans found)
    obtain ⟨fits, addresses⟩ := inside_iff.mp inside
    refine ⟨fits, fun another otherMem spans => ?_⟩
    rw [Nat.mod_eq_of_lt fits] at stop
    rwa [inv.eq_of_spans valid.size_pos otherMem member spans ⟨start, stop⟩]
  · rintro ⟨fits, addresses⟩
    rw [Nat.mod_eq_of_lt fits] at stop
    exact ⟨region, member, found, permits,
      inside_iff.mpr ⟨fits, addresses region member ⟨start, stop⟩⟩⟩

/-- The one region of a port: the user AFU, on two pages. -/
def userAfu : RegionCall := ⟨true, 0, 0x2000, 0xe0000000, 7⟩

/-- A shared area for reading and writing. -/
def VmArea.ofPages (pgoff pages : Nat) : VmArea :=
  ⟨0x10000, 0x10000 + pages * pageSize, pgoff, true, true, true⟩

/-- The second page of the user AFU. -/
theorem afuMmap_inside_iff_second_page :
    ∃ region : AfuRegion, region.phys = 0xe0000000 ∧ region.size = 0x2000 ∧
      region.Inside 0xe0001 0x1000 := by
  let s := (afuRegionAdd ⟨[], 0, 0⟩ userAfu).2
  have reach : afuRegionSystem.Reach (fun s call => call.Fits s) s :=
    .step (.init rfl) ⟨by decide, by decide⟩ rfl
  have valid : (VmArea.ofPages 1 1).Valid := ⟨by decide, by decide, by decide⟩
  have regions : s.regions = [⟨0, 7, 0x2000, 0, 0xe0000000⟩] := by decide
  have mapped : afuMmap s (.ofPages 1 1) = .remapPfnRange 0xe0001 0x1000 := by decide
  have fits : WindowFits s (.ofPages 1 1) := by
    refine ⟨by decide, fun region member _ => ?_⟩
    rw [regions, List.mem_singleton] at member
    subst member
    exact ⟨by decide, by decide⟩
  obtain ⟨region, member, -, -, inside⟩ := (afuMmap_inside_iff reach valid mapped).mpr fits
  rw [regions, List.mem_singleton] at member
  subst member
  exact ⟨_, rfl, rfl, inside⟩

/-- Two pages from the last page of the offsets on: the sum wraps, and the page before
the region is mapped. -/
theorem wrapped_window_maps_page_before :
    ∃ s vma pfn size, afuRegionSystem.Reach (fun s call => call.Fits s) s ∧ vma.Valid ∧
      afuMmap s vma = .remapPfnRange pfn size ∧
      ¬ ∃ region ∈ s.regions, region.Permits vma ∧ region.Inside pfn size := by
  refine ⟨(afuRegionAdd ⟨[], 0, 0⟩ userAfu).2, .ofPages (2 ^ 52 - 1) 2, 0xdffff, 0x2000,
    .step (.init rfl) ⟨by decide, by decide⟩ rfl, ⟨by decide, by decide, by decide⟩,
    by decide, ?_⟩
  rintro ⟨region, member, -, inside⟩
  have only : region = ⟨0, 7, 0x2000, 0, 0xe0000000⟩ := by
    simpa [afuRegionAdd, userAfu, getRegionByIndex] using member
  subst only
  exact absurd inside.1 (by decide)

end OpaeXilinx.Port
