import Mathlib.Data.Set.Lattice
import Mathlib.Order.CompletePartialOrder
import Mathlib.Order.Interval.Set.Disjoint
import OpaeXilinx.Port.Mmap

/-!
# The table of regions

`afu_region_add` lays the regions of a port end to end: each takes up whole pages from
where the one before it ends.  The windows tile the offsets that have been given out, so
that a lookup by offset finds one region at most.  The number of regions is an `int`, and
counts them as long as it does not overflow.
-/

namespace OpaeXilinx.Port

open OpaeXilinx.Base

/-- A size in whole pages, however large. -/
def roundedSize (size : Nat) : Nat := (size + (pageSize - 1)) / pageSize * pageSize

/-- The offsets that a region takes up. -/
def AfuRegion.window (region : AfuRegion) : Set Nat :=
  Set.Ico region.offset (region.offset + roundedSize region.size)

/-- `num_regions` as the `int` that it is. -/
def AfuRegions.numRegionsInt (s : AfuRegions) : Int := (BitVec.ofNat 32 s.numRegions).toInt

/-- The test of `afu_get_region_by_offset`. -/
def AfuRegion.Passes (region : AfuRegion) (offset size : Nat) : Prop :=
  region.offset ≤ offset ∧ addU64 region.offset region.size ≥ addU64 offset size

instance (region : AfuRegion) (offset size : Nat) : Decidable (region.Passes offset size) :=
  inferInstanceAs (Decidable (_ ∧ _))

theorem afuGetRegionByOffset_eq (s : AfuRegions) (offset size : Nat) :
    afuGetRegionByOffset s offset size =
      s.regions.find? fun region => decide (region.Passes offset size) := rfl

/-- What is expected of the table. -/
structure RegionTable (s : AfuRegions) : Prop where
  indexes : (s.regions.map AfuRegion.index).Nodup
  aligned : ∀ region ∈ s.regions, region.offset % pageSize = 0
  disjoint : s.regions.Pairwise fun one two => Disjoint one.window two.window
  tiled : ⋃ region ∈ s.regions, region.window = Set.Iio s.regionCurOffset
  count : s.numRegionsInt = s.regions.length
  failing : ∀ call err, (afuRegionAdd s call).1 = .error err → (afuRegionAdd s call).2 = s
  unambiguous : ∀ offset size, 0 < size → offset + size < 2 ^ 64 →
    ∀ one ∈ s.regions, ∀ two ∈ s.regions,
      one.Passes offset size → two.Passes offset size → one = two

/-- A call that adds a region leaves the sum of the rounded sizes below 2^64. -/
def RegionCall.Room (s : AfuRegions) (call : RegionCall) : Prop :=
  (afuRegionAdd s call).1 = .ok () → s.regionCurOffset + roundedSize call.regionSize < 2 ^ 64

instance (s : AfuRegions) (call : RegionCall) : Decidable (call.Room s) :=
  inferInstanceAs (Decidable (_ → _))

/-- The regions, the last one first, take up the offsets up to the given one. -/
def Tiles : List AfuRegion → Nat → Prop
  | [], cur => cur = 0
  | region :: rest, cur =>
      cur = region.offset + roundedSize region.size ∧ Tiles rest region.offset

theorem roundedSize_aligned (size : Nat) : roundedSize size % pageSize = 0 :=
  Nat.mul_mod_left ..

theorem le_roundedSize (size : Nat) : size ≤ roundedSize size := by
  simp only [roundedSize, pageSize]
  omega

theorem pageAlign_eq_roundedSize {size : Nat} (room : roundedSize size < 2 ^ 64) :
    pageAlign size = roundedSize size := by
  have fits : size + (pageSize - 1) < 2 ^ 64 := by
    simp only [roundedSize, pageSize] at *
    omega
  rw [pageAlign, addU64, Nat.mod_eq_of_lt fits, roundedSize]

namespace Tiles

variable {regions : List AfuRegion} {cur : Nat}

theorem below (tiles : Tiles regions cur) :
    ∀ region ∈ regions, region.offset + roundedSize region.size ≤ cur := by
  induction regions generalizing cur with
  | nil => nofun
  | cons last rest ih =>
      obtain ⟨rfl, tiles⟩ := tiles
      intro region member
      rcases List.mem_cons.mp member with rfl | old
      · exact Nat.le_refl _
      · exact Nat.le_trans (ih tiles region old) (Nat.le_add_right _ _)

theorem cur_aligned (tiles : Tiles regions cur) : cur % pageSize = 0 := by
  induction regions generalizing cur with
  | nil =>
      obtain rfl : cur = 0 := tiles
      rfl
  | cons last rest ih =>
      obtain ⟨rfl, tiles⟩ := tiles
      rw [Nat.add_mod, ih tiles, roundedSize_aligned]
      rfl

theorem aligned (tiles : Tiles regions cur) :
    ∀ region ∈ regions, region.offset % pageSize = 0 := by
  induction regions generalizing cur with
  | nil => nofun
  | cons last rest ih =>
      intro region member
      rcases List.mem_cons.mp member with rfl | old
      · exact tiles.2.cur_aligned
      · exact ih tiles.2 region old

theorem disjoint (tiles : Tiles regions cur) :
    regions.Pairwise fun one two => Disjoint one.window two.window := by
  induction regions generalizing cur with
  | nil => exact .nil
  | cons last rest ih =>
      refine List.pairwise_cons.mpr ⟨fun earlier member => ?_, ih tiles.2⟩
      exact (Set.Ico_disjoint_Ico_same.mono_left
        (Set.Ico_subset_Ico_right (tiles.2.below earlier member))).symm

theorem tiled (tiles : Tiles regions cur) :
    ⋃ region ∈ regions, region.window = Set.Iio cur := by
  induction regions generalizing cur with
  | nil =>
      obtain rfl : cur = 0 := tiles
      ext offset
      simp
  | cons last rest ih =>
      obtain ⟨rfl, tiles⟩ := tiles
      have split : Set.Iio last.offset ∪ last.window =
          Set.Iio (last.offset + roundedSize last.size) :=
        Set.Iio_union_Ico_eq_Iio (Nat.le_add_right _ _)
      rw [← split, ← ih tiles, Set.union_comm]
      simp only [List.mem_cons, Set.iUnion_iUnion_eq_or_left]

end Tiles

/-- The invariant: the regions are laid end to end, under different indexes, and counted. -/
structure TableInv (s : AfuRegions) : Prop where
  tiles : Tiles s.regions s.regionCurOffset
  bound : s.regionCurOffset < 2 ^ 64
  indexes : (s.regions.map AfuRegion.index).Nodup
  counted : s.numRegions = s.regions.length

theorem getRegionByIndex_none {s : AfuRegions} {index : Nat}
    (absent : (getRegionByIndex s index).isSome = false) :
    index ∉ s.regions.map AfuRegion.index := by
  rw [Option.isSome_eq_false_iff, Option.isNone_iff_eq_none, getRegionByIndex,
    List.find?_eq_none] at absent
  intro member
  obtain ⟨region, old, same⟩ := List.mem_map.mp member
  exact absent region old (beq_iff_eq.mpr same)

/-- A failing call leaves the table as it is; a call that adds a region puts it behind the
others. -/
theorem afuRegionAdd_cases (s : AfuRegions) (call : RegionCall) :
    (∃ err, afuRegionAdd s call = (.error err, s)) ∨
    call.regionIndex ∉ s.regions.map AfuRegion.index ∧
      afuRegionAdd s call = (.ok (), ⟨⟨call.regionIndex, call.flags, call.regionSize,
        s.regionCurOffset, call.phys⟩ :: s.regions,
        addU64 s.regionCurOffset (pageAlign call.regionSize), s.numRegions + 1⟩) := by
  cases alloc : call.kzallocOk with
  | false => exact .inl ⟨.enomem, by simp [afuRegionAdd, alloc]⟩
  | true =>
      cases known : (getRegionByIndex s call.regionIndex).isSome with
      | true => exact .inl ⟨.eexist, by simp [afuRegionAdd, alloc, known]⟩
      | false =>
          exact .inr ⟨getRegionByIndex_none known, by simp [afuRegionAdd, alloc, known]⟩

theorem TableInv.add {s : AfuRegions} (inv : TableInv s) {call : RegionCall}
    (room : call.Room s) : TableInv (afuRegionAdd s call).2 := by
  rcases afuRegionAdd_cases s call with ⟨err, failed⟩ | ⟨fresh, added⟩
  · rw [failed]
    exact inv
  have total := room (by rw [added])
  have next : addU64 s.regionCurOffset (pageAlign call.regionSize) =
      s.regionCurOffset + roundedSize call.regionSize := by
    rw [pageAlign_eq_roundedSize (by omega), addU64, Nat.mod_eq_of_lt total]
  rw [added, next]
  refine ⟨⟨rfl, inv.tiles⟩, total, List.nodup_cons.mpr ⟨fresh, inv.indexes⟩, ?_⟩
  exact congrArg (· + 1) inv.counted

theorem tableInv_of_reach {s : AfuRegions}
    (reach : afuRegionSystem.Reach (fun s call => call.Room s) s) : TableInv s := by
  apply reach.invariant
  · rintro _ rfl
    exact ⟨rfl, by decide, List.nodup_nil, rfl⟩
  · rintro s call _ inv room rfl
    exact inv.add room

/-- A window of a positive size that does not wrap passes the test of one region. -/
theorem TableInv.unambiguous {s : AfuRegions} (inv : TableInv s) {offset size : Nat}
    (positive : 0 < size) (short : offset + size < 2 ^ 64) {one two : AfuRegion}
    (oneMem : one ∈ s.regions) (twoMem : two ∈ s.regions) (onePasses : one.Passes offset size)
    (twoPasses : two.Passes offset size) : one = two := by
  -- the first offset of the window is in the windows of both regions
  have inside : ∀ region ∈ s.regions, region.Passes offset size → offset ∈ region.window := by
    intro region member ⟨start, stop⟩
    have below := inv.tiles.below region member
    have rounded := le_roundedSize region.size
    have bound := inv.bound
    rw [addU64, addU64, Nat.mod_eq_of_lt short, Nat.mod_eq_of_lt (by omega)] at stop
    exact ⟨start, by omega⟩
  by_contra different
  have : Std.Symm fun one two : AfuRegion => Disjoint one.window two.window :=
    ⟨fun _ _ apart => apart.symm⟩
  have apart : Disjoint one.window two.window :=
    inv.tiles.disjoint.forall oneMem twoMem different
  exact Set.disjoint_left.mp apart (inside one oneMem onePasses) (inside two twoMem twoPasses)

/-- The lookup finds the region that passes the test. -/
theorem TableInv.lookup {s : AfuRegions} (inv : TableInv s) {offset size : Nat}
    (positive : 0 < size) (short : offset + size < 2 ^ 64) {region : AfuRegion} :
    afuGetRegionByOffset s offset size = some region ↔
      region ∈ s.regions ∧ region.Passes offset size := by
  rw [afuGetRegionByOffset_eq]
  constructor
  · intro found
    exact ⟨List.mem_of_find?_eq_some found, by simpa using List.find?_some found⟩
  · intro ⟨member, passes⟩
    cases found : s.regions.find? fun region => decide (region.Passes offset size) with
    | none => exact absurd (decide_eq_true passes) (List.find?_eq_none.mp found region member)
    | some other =>
        have otherPasses : other.Passes offset size := by simpa using List.find?_some found
        rw [inv.unambiguous positive short (List.mem_of_find?_eq_some found) member otherPasses
          passes]

/-- An `int` that counts up from 0 is right below 2^31. -/
theorem toInt_ofNat_eq_iff (n : Nat) : (BitVec.ofNat 32 n).toInt = n ↔ n < 2 ^ 31 := by
  constructor
  · intro equal
    have small := BitVec.toInt_lt (x := BitVec.ofNat 32 n)
    rw [equal] at small
    omega
  · intro small
    rw [BitVec.toInt_ofNat']
    exact Int.bmod_eq_of_le (by omega) (by omega)

/-- In every state that calls of `afu_region_add` lead to, the table is as expected exactly
if it holds fewer than 2^31 regions. -/
theorem region_table_iff {s : AfuRegions}
    (reach : afuRegionSystem.Reach (fun s call => call.Room s) s) :
    RegionTable s ↔ s.regions.length < 2 ^ 31 := by
  have inv := tableInv_of_reach reach
  have count : s.numRegionsInt = s.regions.length ↔ s.regions.length < 2 ^ 31 := by
    rw [AfuRegions.numRegionsInt, inv.counted]
    exact toInt_ofNat_eq_iff _
  constructor
  · exact fun table => count.mp table.count
  · intro small
    refine ⟨inv.indexes, inv.tiles.aligned, inv.tiles.disjoint, inv.tiles.tiled,
      count.mpr small, ?_, ?_⟩
    · intro call err failed
      rcases afuRegionAdd_cases s call with ⟨_, same⟩ | ⟨-, added⟩
      · rw [same]
      · rw [added] at failed
        cases failed
    · intro offset size positive short one oneMem two twoMem onePasses twoPasses
      exact inv.unambiguous positive short oneMem twoMem onePasses twoPasses

/-- The user AFU, the area of the STP, and two areas that do not fill their pages.  The index
of the third call is taken, and the allocation of the fourth fails. -/
def severalRegions : List RegionCall :=
  [userAfu, ⟨true, 1, 0x1001, 0xe0004000, 7⟩, ⟨true, 1, 0x1000, 0xe0006000, 3⟩,
    ⟨false, 2, 0x1000, 0xe0006000, 3⟩, ⟨true, 2, 0x801, 0xe0007000, 1⟩,
    ⟨true, 7, 0x3fff, 0xe0008000, 7⟩]

/-- The table after these calls. -/
def severalRegionsTable : AfuRegions :=
  severalRegions.foldl (fun s call => (afuRegionAdd s call).2) ⟨[], 0, 0⟩

/-- Four regions of different sizes, laid end to end. -/
theorem region_table_iff_several :
    severalRegionsTable.regions.map (fun region => (region.index, region.offset)) =
        [(7, 0x5000), (2, 0x4000), (1, 0x2000), (0, 0)] ∧
      severalRegionsTable.regionCurOffset = 0x9000 ∧ RegionTable severalRegionsTable := by
  have room : System.Along (fun s call => call.Room s) (fun s call => (afuRegionAdd s call).2)
      ⟨[], 0, 0⟩ severalRegions := by
    decide
  have reach : afuRegionSystem.Reach (fun s call => call.Room s) severalRegionsTable :=
    System.Reach.along (.init rfl) _ _ (fun _ _ room => ⟨room, rfl⟩) room
  exact ⟨by decide, by decide, (region_table_iff reach).mpr (by decide)⟩

/-- Calls for regions without a size, with the indexes up to the given one. -/
theorem reach_empty_regions (n : Nat) :
    ∃ s, afuRegionSystem.Reach (fun s call => call.Room s) s ∧ s.regions.length = n ∧
      s.regionCurOffset = 0 ∧ ∀ region ∈ s.regions, region.index < n := by
  induction n with
  | zero => exact ⟨⟨[], 0, 0⟩, .init rfl, rfl, rfl, nofun⟩
  | succ n ih =>
      obtain ⟨s, reach, length, cur, indexes⟩ := ih
      let call : RegionCall := ⟨true, n, 0, 0, 0⟩
      have added : afuRegionAdd s call = (.ok (), ⟨⟨n, 0, 0, 0, 0⟩ :: s.regions, 0,
          s.numRegions + 1⟩) := by
        have fresh : getRegionByIndex s n = none := by
          rw [getRegionByIndex, List.find?_eq_none]
          intro region member
          simpa using Nat.ne_of_lt (indexes region member)
        simp [afuRegionAdd, call, fresh, cur, addU64, pageAlign, pageSize]
      refine ⟨(afuRegionAdd s call).2, .step reach (fun _ => ?_) rfl, ?_, ?_, ?_⟩
      · rw [cur]
        exact (by decide : 0 + roundedSize 0 < 2 ^ 64)
      · rw [added]
        exact congrArg (· + 1) length
      · rw [added]
      · rw [added]
        intro region member
        rcases List.mem_cons.mp member with rfl | old
        · exact Nat.lt_succ_self n
        · exact Nat.lt_succ_of_lt (indexes region old)

/-- After 2^31 regions their number is negative. -/
theorem region_count_overflows :
    ∃ s, afuRegionSystem.Reach (fun s call => call.Room s) s ∧ s.regions.length = 2 ^ 31 ∧
      (∀ region ∈ s.regions, region.index < 2 ^ 31) ∧ s.numRegionsInt = -2 ^ 31 ∧
      ¬ RegionTable s := by
  obtain ⟨s, reach, length, -, indexes⟩ := reach_empty_regions (2 ^ 31)
  have negative : s.numRegionsInt = -2 ^ 31 := by
    rw [AfuRegions.numRegionsInt, (tableInv_of_reach reach).counted, length]
    decide
  refine ⟨s, reach, length, indexes, negative, fun table => ?_⟩
  have counted := table.count
  rw [negative, length] at counted
  exact absurd counted (by decide)

end OpaeXilinx.Port
