import Mathlib.Algebra.BigOperators.Group.Multiset.Basic
import OpaeXilinx.Base.SearchTree

/-!
# DMA regions of a port

User memory is made available to an accelerator by pinning its pages, charging
them to the locked memory of the caller's address space, mapping them for the device and remembering
the region in a search tree keyed by the device address.  Every operation acquires
or releases these three resources in sequence, with an unwinding path for each
point of failure.

The kernel functions that allocate, pin and map are taken from the environment of
each call.  `rb_insert_color` and `rb_erase` belong to the kernel's red-black
tree and are parameters that do not change the in-order sequence beyond what they
are asked to.
-/

namespace OpaeXilinx.Port

open OpaeXilinx.Base

/-- `PAGE_SIZE`. -/
def pageSize : Nat := 4096

/-- Unsigned 64 bit addition. -/
def addU64 (left right : Nat) : Nat := (left + right) % 2 ^ 64

/-- A page frame number, standing for the `struct page` that was pinned. -/
abbrev Page := Nat

/-- An address space, `struct mm_struct`.  The threads of a process share one. -/
abbrev Mm := Nat

/-- Error numbers returned by the driver, without their sign. -/
inductive Errno where
  | eio | enomem | efault | ebusy | eexist | enodev | einval
  | other (code : Nat)
  deriving DecidableEq, Repr

/-- `struct fpga_afu_dma_region`, with the address space that its pages were pinned from. -/
structure Region where
  userAddr : Nat
  length : Nat
  iova : Nat
  pages : List Page
  inUse : Bool
  owner : Mm
  deriving DecidableEq, Repr

/-- Pages of a region, `length >> PAGE_SHIFT`. -/
def Region.npages (region : Region) : Nat := region.length / pageSize

/-- The balancing functions of the kernel's red-black tree. -/
structure RbOps where
  insertColor : SearchTree Region → SearchTree Region
  erase : SearchTree Region → Region → SearchTree Region
  insertColor_toList : ∀ tree, (insertColor tree).toList = tree.toList
  erase_toList : ∀ tree region, (erase tree region).toList = tree.toList.erase region

def dmaRegionCheckIova (region : Region) (iova size : Nat) : Bool :=
  if size = 0 ∧ region.iova ≠ iova then false
  else decide (region.iova ≤ iova ∧ addU64 region.length region.iova ≥ addU64 iova size)

/-- The descent of `afu_dma_region_add` to the link where the region goes. -/
def linkRegion (region : Region) : SearchTree Region → Except Errno (SearchTree Region)
  | .leaf => .ok (.node .leaf region .leaf)
  | .node left this right =>
      if dmaRegionCheckIova this region.iova region.length then .error .eexist
      else if region.iova < this.iova then (linkRegion region left).map (.node · this right)
      else if region.iova > this.iova then (linkRegion region right).map (.node left this ·)
      else .error .eexist

def afuDmaRegionAdd (ops : RbOps) (tree : SearchTree Region) (region : Region) :
    Except Errno (SearchTree Region) :=
  (linkRegion region tree).map ops.insertColor

def afuDmaRegionFind (iova size : Nat) : SearchTree Region → Option Region
  | .leaf => none
  | .node left region right =>
      if dmaRegionCheckIova region iova size then some region
      else if iova < region.iova then afuDmaRegionFind iova size left
      else if iova > region.iova then afuDmaRegionFind iova size right
      else none

def afuDmaRegionFindIova (tree : SearchTree Region) (iova : Nat) : Option Region :=
  afuDmaRegionFind iova 0 tree

/-- The regions of a port with the resources held for them: references on pages,
mappings made with `dma_map_page`, and the locked memory of every address space. -/
structure Dma where
  dmaRegions : SearchTree Region
  pinned : Multiset Page
  mapped : Multiset (Nat × Nat)
  lockedVm : Mm → Nat

/-- Regions currently in the tree. -/
def Dma.regions (s : Dma) : List Region := s.dmaRegions.toList

/-- `put_all_pages` on the first `npages` entries of an array. -/
def putAllPages (s : Dma) (pages : List Page) (npages : Int) : Dma :=
  { s with pinned := s.pinned - (pages.take npages.toNat : Multiset Page) }

/-- Answers of the kernel during `afu_dma_map_region`. -/
structure MapEnv where
  accessOk : Bool
  kzallocOk : Bool
  /-- `rlimit(RLIMIT_MEMLOCK)` in pages, and the capability to exceed it. -/
  lockLimit : Nat
  capIpcLock : Bool
  kcallocOk : Bool
  /-- Result of `get_user_pages_fast`: an error or the pages it pinned. -/
  userPages : Except Nat (List Page)
  /-- Result of `dma_map_page`, unless `dma_mapping_error` reports a failure. -/
  dmaAddr : Option Nat
  /-- `copy_to_user` of the result. -/
  copyOk : Bool

/-- Charging locked memory, the branch `incr` of `afu_dma_adjust_locked_vm`. -/
def afuDmaChargeLockedVm (s : Dma) (env : MapEnv) (current : Option Mm) (npages : Nat) :
    Except Errno Unit × Dma :=
  match current with
  | none => (.ok (), s)
  | some mm =>
      if s.lockedVm mm + npages > env.lockLimit ∧ env.capIpcLock = false then
        (.error .enomem, s)
      else
        (.ok (), { s with
          lockedVm := Function.update s.lockedVm mm (s.lockedVm mm + npages) })

/-- Releasing locked memory, the other branch of `afu_dma_adjust_locked_vm`: never
below zero, and nothing at all for a task without address space. -/
def afuDmaReleaseLockedVm (s : Dma) (current : Option Mm) (npages : Nat) : Dma :=
  match current with
  | none => s
  | some mm =>
      let npages := if npages > s.lockedVm mm then s.lockedVm mm else npages
      { s with lockedVm := Function.update s.lockedVm mm (s.lockedVm mm - npages) }

def afuDmaPinPages (s : Dma) (env : MapEnv) (current : Option Mm) (region : Region) :
    Except Errno Region × Dma :=
  let npages := region.npages
  match afuDmaChargeLockedVm s env current npages with
  | (.error err, s) => (.error err, s)
  | (.ok _, s) =>
      if env.kcallocOk = false then
        (.error .enomem, afuDmaReleaseLockedVm s current npages)
      else
        match env.userPages with
        | .error code =>
            -- `goto err_put_pages` with a negative count
            let s := putAllPages s [] (-(code : Int))
            (.error (.other code), afuDmaReleaseLockedVm s current npages)
        | .ok pages =>
            let s := { s with pinned := s.pinned + (pages : Multiset Page) }
            if pages.length ≠ npages then
              -- `goto err`, past the label that puts the pages
              (.error .efault, afuDmaReleaseLockedVm s current npages)
            else (.ok { region with pages := pages }, s)

def afuDmaUnpinPages (s : Dma) (current : Option Mm) (region : Region) : Dma :=
  let s := putAllPages s region.pages region.npages
  afuDmaReleaseLockedVm s current region.npages

/-- `afu_dma_check_continuous_pages`. -/
def afuDmaCheckContinuousPages : List Page → Bool
  | first :: second :: rest =>
      decide (first + 1 = second) && afuDmaCheckContinuousPages (second :: rest)
  | _ => true

def dmaMapPage (s : Dma) (iova length : Nat) : Dma :=
  { s with mapped := (iova, length) ::ₘ s.mapped }

def dmaUnmapPage (s : Dma) (iova length : Nat) : Dma :=
  { s with mapped := s.mapped.erase (iova, length) }

/-- Input checks of `afu_dma_map_region`. -/
def mapInputsOk (env : MapEnv) (userAddr length : Nat) : Bool :=
  decide (userAddr % pageSize = 0 ∧ length % pageSize = 0 ∧ length ≠ 0 ∧
    userAddr ≤ addU64 userAddr length) && env.accessOk

def afuDmaMapRegion (ops : RbOps) (s : Dma) (env : MapEnv) (mm : Mm)
    (userAddr length : Nat) : Except Errno Nat × Dma :=
  if mapInputsOk env userAddr length = false then (.error .einval, s)
  else if env.kzallocOk = false then (.error .enomem, s)
  else
    let region : Region := ⟨userAddr, length, 0, [], false, mm⟩
    match afuDmaPinPages s env (some mm) region with
    | (.error err, s) => (.error err, s)
    | (.ok region, s) =>
        if afuDmaCheckContinuousPages region.pages = false then
          (.error .einval, afuDmaUnpinPages s (some mm) region)
        else
          match env.dmaAddr with
          | none => (.error .efault, afuDmaUnpinPages s (some mm) region)
          | some iova =>
              let region := { region with iova := iova }
              let s := dmaMapPage s iova region.length
              match afuDmaRegionAdd ops s.dmaRegions region with
              | .error err =>
                  let s := dmaUnmapPage s region.iova region.length
                  (.error err, afuDmaUnpinPages s (some mm) region)
              | .ok tree => (.ok iova, { s with dmaRegions := tree })

def afuDmaUnmapRegion (ops : RbOps) (s : Dma) (mm : Mm) (iova : Nat) :
    Except Errno Unit × Dma :=
  match afuDmaRegionFindIova s.dmaRegions iova with
  | none => (.error .einval, s)
  | some region =>
      if region.inUse then (.error .ebusy, s)
      else
        let s := { s with dmaRegions := ops.erase s.dmaRegions region }
        let s := dmaUnmapPage s region.iova region.length
        (.ok (), afuDmaUnpinPages s (some mm) region)

/-- `afu_ioctl_dma_map`: a failing `copy_to_user` takes the mapping back. -/
def afuIoctlDmaMap (ops : RbOps) (s : Dma) (env : MapEnv) (mm : Mm)
    (userAddr length : Nat) : Except Errno Nat × Dma :=
  match afuDmaMapRegion ops s env mm userAddr length with
  | (.error err, s) => (.error err, s)
  | (.ok iova, s) =>
      if env.copyOk = false then (.error .efault, (afuDmaUnmapRegion ops s mm iova).2)
      else (.ok iova, s)

/-- Body of the loop of `afu_dma_region_destroy`. -/
def destroyRegion (current : Option Mm) (s : Dma) (region : Region) : Dma :=
  let s := if region.iova ≠ 0 then dmaUnmapPage s region.iova region.length else s
  afuDmaUnpinPages s current region

/-- `afu_dma_region_destroy`: every region in order, each erased before its
resources are released. -/
def afuDmaRegionDestroy (s : Dma) (current : Option Mm) : Dma :=
  { s.regions.foldl (destroyRegion current) s with dmaRegions := .leaf }

end OpaeXilinx.Port
