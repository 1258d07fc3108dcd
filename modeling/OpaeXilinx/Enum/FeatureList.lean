import Mathlib.Algebra.Group.Int.Defs
import Mathlib.Algebra.Group.Nat.Defs
import Mathlib.Data.List.Nodup
import Mathlib.Data.Int.Notation
import OpaeXilinx.Base.Triple

/-!
# Walking the device feature list

`cci_pci_create_feature_devs` discovers a card by walking a chain of device feature
headers in BAR 0 and, for every port that the FME header announces, another chain in
the BAR of that port.  Each header is read from the device, its kind decides what is
registered, and the offset of the next one comes from the device as well.

The model keeps the driver's decisions and records what they lead to: every access to
device memory, every resource range and every entry of a feature slot.  Allocations and
registrations of the kernel succeed or fail as the environment says.
-/

namespace OpaeXilinx.Enum

open OpaeXilinx.Base

abbrev Csr := BitVec 64

/-- A bit field. -/
def Csr.field (csr : Csr) (start width : Nat) : Nat := (csr.extractLsb' start width).toNat

/-- `struct feature_header`. -/
def Csr.id (csr : Csr) : Nat := Csr.field csr 0 12
def Csr.nextHeaderOffset (csr : Csr) : Nat := Csr.field csr 16 24
def Csr.eol (csr : Csr) : Bool := Csr.field csr 40 1 != 0
def Csr.type (csr : Csr) : Nat := Csr.field csr 60 4

/-- `next_afu` of `struct feature_fiu_header`. -/
def Csr.nextAfu (csr : Csr) : Nat := Csr.field csr 0 24

/-- `struct feature_fme_port`. -/
def Csr.portOffset (csr : Csr) : Nat := Csr.field csr 0 24
def Csr.portBar (csr : Csr) : Nat := Csr.field csr 32 3
def Csr.portImplemented (csr : Csr) : Bool := Csr.field csr 60 1 != 0

/-- `mmio_size` of `struct feature_port_capability`. -/
def Csr.mmioSize (csr : Csr) : Nat := Csr.field csr 8 16

/-- `struct feature_port_uint_cap`. -/
def Csr.intrNum (csr : Csr) : Nat := Csr.field csr 0 12
def Csr.firstVecNum (csr : Csr) : Nat := Csr.field csr 12 12

/-- The error capabilities of ports and FME. -/
def Csr.supportIntr (csr : Csr) : Bool := Csr.field csr 0 1 != 0
def Csr.intrVectorNum (csr : Csr) : Nat := Csr.field csr 1 12

/-- `FEATURE_TYPE_AFU`, `FEATURE_TYPE_PRIVATE` and `FEATURE_TYPE_FIU`. -/
def featureTypeAfu : Nat := 1
def featureTypePrivate : Nat := 3
def featureTypeFiu : Nat := 4

/-- `FEATURE_FIU_ID_FME` and `FEATURE_FIU_ID_PORT`. -/
def featureFiuIdFme : Nat := 0
def featureFiuIdPort : Nat := 1

/-- `sizeof(struct feature_header)`. -/
def featureHeaderSize : Nat := 8

/-- Offsets of registers behind a header. -/
def fiuCsrOffset : Nat := 24
def fmePortOffset (i : Nat) : Nat := 56 + 8 * i
def portCapabilityOffset : Nat := 48
def portControlOffset : Nat := 56
def portUintCapabilityOffset : Nat := 8
def portErrCapabilityOffset : Nat := 56
def fmeErrCapabilityOffset : Nat := 112

/-- `MAX_FPGA_PORT_NUM`. -/
def maxFpgaPortNum : Nat := 4

/-- The names of features, `FME_FEATURE_HEADER` and so on. -/
inductive FeatureName where
  | fmeHeader | fmeThermalMgmt | fmePowerMgmt | fmeGlobalIperf | fmeGlobalErr | fmePrMgmt
  | fmeHssiEth | fmeGlobalDperf | fmeQspiFlash | fmeEmifMgmt | fmePacHssiEth | fmeS10SdmMb
  | fmeAvmmiBmc
  | portHeader | portErr | portUmsg | portUint | portStp | portIopll | portUafu
  deriving DecidableEq, Repr

/-- `struct feature_info`, without the vectors that `parse_feature_irqs` fills in. -/
structure FeatureInfo where
  name : FeatureName
  resourceSize : Nat
  featureIndex : Nat
  /-- `none` is `SKIP_REVISION_CHECK`. -/
  revisionId : Option Nat
  deriving DecidableEq, Repr

def fmeHeaderInfo : FeatureInfo := ⟨.fmeHeader, 208, 0, some 1⟩

/-- `fme_features`, indexed by feature id. -/
def fmeFeatures : List FeatureInfo := [
  fmeHeaderInfo,
  ⟨.fmeThermalMgmt, 40, 1, some 0⟩,
  ⟨.fmePowerMgmt, 40, 2, some 1⟩,
  ⟨.fmeGlobalIperf, 88, 3, some 1⟩,
  ⟨.fmeGlobalErr, 120, 4, some 1⟩,
  ⟨.fmePrMgmt, 184, 5, some 2⟩,
  ⟨.fmeHssiEth, 0x18, 6, some 0⟩,
  ⟨.fmeGlobalDperf, 56, 7, some 0⟩,
  ⟨.fmeQspiFlash, 0x10, 8, some 0⟩,
  ⟨.fmeEmifMgmt, 24, 9, some 0⟩,
  ⟨.fmePacHssiEth, 0x18, 10, some 0⟩,
  ⟨.fmeS10SdmMb, 16, 11, some 0⟩,
  ⟨.fmeAvmmiBmc, 0x18, 12, some 0⟩]

/-- `PORT_FEATURE_ID_UAFU`. -/
def portFeatureIdUafu : Nat := 6

def portHeaderInfo : FeatureInfo := ⟨.portHeader, 112, 0, some 1⟩

/-- The last entry of `port_features`, whose size is set while a port is parsed. -/
def portUafuInfo (uafuSize : Nat) : FeatureInfo := ⟨.portUafu, uafuSize, portFeatureIdUafu, none⟩

/-- `port_features`. -/
def portFeatures (uafuSize : Nat) : List FeatureInfo := [
  portHeaderInfo,
  ⟨.portErr, 64, 1, some 1⟩,
  ⟨.portUmsg, 32, 2, some 0⟩,
  ⟨.portUint, 16, 3, some 0⟩,
  ⟨.portStp, 4096, 4, some 1⟩,
  ⟨.portIopll, 0x28, 5, some 0⟩,
  portUafuInfo uafuSize]

/-- A PCI device: the length of its BARs, the value of the register at each offset of
a BAR, and `pci_msix_vec_count`. -/
structure Pci where
  len : Nat → Nat
  csr : Nat → Nat → Csr
  msixVecCount : Int
  len_lt : ∀ bar, len bar < 2 ^ 64

/-- The kinds of feature devices. -/
inductive DevKind where
  | fme
  | port
  deriving DecidableEq, Repr

/-- Answers of the kernel while one header is parsed. -/
structure Answers where
  /-- `platform_device_add` for the device that is committed. -/
  deviceAdd : Bool
  /-- `platform_device_alloc`, `alloc_fpga_id`, `feature_platform_data_alloc_and_init` and
  `kcalloc` for the resources of a new device. -/
  deviceAlloc : Bool
  idAlloc : Bool
  pdataAlloc : Bool
  resourceAlloc : Bool
  /-- `devm_kcalloc` for the interrupt contexts of a feature. -/
  ctxAlloc : Bool
  /-- `pci_ioremap_bar` for a BAR that is not mapped yet. -/
  ioremap : Bool
  /-- The id that `alloc_fpga_id` gives. -/
  newId : DevKind → Nat

/-- Every request is granted. -/
def Answers.granted : Answers := ⟨true, true, true, true, true, true, true, fun _ => 0⟩

inductive Errno where
  | enomem | einval | other
  deriving DecidableEq, Repr

/-- How a function ends early: with an error number, or in the kernel's fault handler. -/
inductive Stop where
  | errno (err : Errno)
  | oops
  deriving DecidableEq, Repr

/-! ## The state of the walk -/

/-- A location in a mapped BAR. -/
structure Ptr where
  bar : Nat
  offset : Nat
  deriving DecidableEq, Repr

def Ptr.add (ptr : Ptr) (offset : Nat) : Ptr := ⟨ptr.bar, ptr.offset + offset⟩

/-- An entry of a feature slot: the header it points to, and how many FIU headers the
walk had met when it met this one. -/
structure Entry where
  header : Ptr
  fius : Nat
  deriving DecidableEq, Repr

/-- A feature device with its platform data. -/
structure Dev where
  kind : DevKind
  /-- Header of the FIU that the device stands for, and the number of FIU headers met
  up to it. -/
  fiu : Ptr
  fius : Nat
  /-- The id of the device, if it is a valid one. -/
  id : Option Nat
  /-- Whether the platform data has been allocated. -/
  hasPdata : Bool
  /-- Calls of `feature_platform_data_add`, the last one first. -/
  features : List (Nat × Entry)
  disableCount : Nat
  deriving DecidableEq, Repr

/-- `get_feature_ioaddr_by_index`; an empty slot is `NULL`. -/
def Dev.ioaddr (dev : Dev) (index : Nat) : Option Ptr := (dev.features.lookup index).map (·.header)

/-- An access to device memory, with the BAR that the walk was on.  The location is
`none` when it was computed from a null pointer. -/
structure Access where
  location : Option Ptr
  size : Nat
  currentBar : Nat
  deriving DecidableEq, Repr

/-- A range set by `build_info_add_sub_feature`, with the BAR that the walk was on. -/
structure Resource where
  start : Ptr
  size : Nat
  currentBar : Nat
  deriving DecidableEq, Repr

/-- Where the walk stands: before a header of a list, before a port of the FME, or at its
end.  A list is followed by the port with the given number. -/
inductive Pc where
  | scan (start port : Nat)
  | ports (i : Nat)
  | finished (result : Except Stop Unit)
  deriving DecidableEq

/-- `struct build_feature_devs_info` and the parts of the driver's data it leads to. -/
structure Walk where
  pc : Pc
  currentBar : Nat
  /-- BARs in `drvdata->regions`. -/
  regions : List Nat
  pfmeHdr : Option Ptr
  featureDev : Option Dev
  /-- `port_features[PORT_FEATURE_ID_UAFU].resource_size`. -/
  uafuSize : Nat
  /-- Devices that have been registered. -/
  committed : List Dev
  /-- FIU headers met. -/
  fius : Nat
  accesses : List Access
  resources : List Resource

/-- `drvdata->fme_dev`. -/
def Walk.hasFmeDev (w : Walk) : Bool := w.committed.any fun dev => dev.kind == .fme

abbrev WalkM := EStateM Stop Walk

section Functions

variable (pci : Pci) (ans : Answers)

/-- The state after an access. -/
def Walk.note (w : Walk) (location : Option Ptr) (size : Nat) : Walk :=
  { w with accesses := ⟨location, size, w.currentBar⟩ :: w.accesses }

def access (location : Option Ptr) (size : Nat) : WalkM Unit := modify (·.note location size)

/-- `readq`; a null pointer leads to the fault handler. -/
def readq (location : Option Ptr) : WalkM Csr := do
  access location 8
  match location with
  | none => throw .oops
  | some ptr => return pci.csr ptr.bar ptr.offset

def writeq (location : Option Ptr) : WalkM Unit := access location 8

/-- Keep the error number of a function for later. -/
def attempt (action : WalkM Unit) : WalkM (Except Errno Unit) := fun w =>
  match action w with
  | .ok _ w => .ok (.ok ()) w
  | .error (.errno err) w => .ok (.error err) w
  | .error .oops w => .error .oops w

/-- `if (ret) return ret;`. -/
def returnIfError : Except Errno Unit → WalkM Unit
  | .ok _ => return
  | .error err => throw (.errno err)

def buildInfoCommitDev : WalkM Unit := do
  match (← get).featureDev with
  | none => return
  | some dev =>
      if ans.deviceAdd then
        modify fun w => { w with committed := dev :: w.committed, featureDev := none }
      else throw (.errno .other)

def buildInfoCreateDev (kind : DevKind) (fiu : Ptr) : WalkM Unit := do
  buildInfoCommitDev ans
  throwIf (ans.deviceAlloc = false) (.errno .enomem)
  modify fun w => { w with featureDev := some ⟨kind, fiu, w.fius, none, false, [], 0⟩ }
  throwIf (ans.idAlloc = false) (.errno .other)
  modify fun w => { w with featureDev := w.featureDev.map ({ · with id := some (ans.newId kind) }) }
  throwIf (ans.pdataAlloc = false) (.errno .enomem)
  modify fun w => { w with featureDev := w.featureDev.map ({ · with hasPdata := true }) }
  throwIf (ans.resourceAlloc = false) (.errno .enomem)

def buildInfoAddSubFeature (finfo : FeatureInfo) (start : Ptr) (vecCnt : Nat) : WalkM Unit := do
  match (← get).featureDev with
  | none => throw .oops
  | some dev =>
      modify fun w => { w with
        resources := ⟨start, finfo.resourceSize, w.currentBar⟩ :: w.resources }
      throwIf (vecCnt ≠ 0 ∧ ans.ctxAlloc = false) (.errno .enomem)
      modify fun w => { w with featureDev := some { dev with
        features := (finfo.featureIndex, ⟨start, w.fius⟩) :: dev.features } }

/-- `create_feature_instance`.  The difference of the pointers is signed and compared
as an unsigned number. -/
def createFeatureInstance (start : Ptr) (finfo : FeatureInfo) (vecCnt : Nat) : WalkM Unit := do
  let ioend := pci.len (← get).currentBar
  throwIf (((ioend : Int) - start.offset) % 2 ^ 64 < finfo.resourceSize) (.errno .einval)
  runIf (finfo.revisionId.isSome = true) (access (some (start.add 1)) 1)
  buildInfoAddSubFeature ans finfo start vecCnt

def parseFeatureFme (hdr : Ptr) : WalkM Unit := do
  buildInfoCreateDev ans .fme hdr
  let fmeDev := (← get).hasFmeDev
  throwIf (fmeDev = true) (.errno .einval)
  createFeatureInstance pci ans hdr fmeHeaderInfo 0

def parseFeaturePort (hdr : Ptr) : WalkM Unit := do
  buildInfoCreateDev ans .port hdr
  createFeatureInstance pci ans hdr portHeaderInfo 0

/-- Sizes of the tables of `check_features_header`. -/
def defaultHeaderNum : DevKind → Nat
  | .fme => 10
  | .port => 7

/-- `check_features_header` only reads the header and logs the comparison. -/
def checkFeaturesHeader (hdr : Ptr) (kind : DevKind) (id : Nat) : WalkM Unit := do
  runIf (id < defaultHeaderNum kind) do
    let _ ← readq pci (some hdr)

/-- The control register of a port device, from its header slot. -/
def portControl (dev : Dev) : Option Ptr := (dev.ioaddr 0).map (·.add portControlOffset)

/-- Count a disable or an enable, and write the control register if the count was the
given one. -/
def touchPort (count : Nat → Nat) (limit : Nat) : WalkM Unit := do
  match (← get).featureDev with
  | none => throw .oops
  | some dev =>
      modify fun w => { w with featureDev := some { dev with
        disableCount := count dev.disableCount } }
      runIf (dev.disableCount = limit) do
        let _ ← readq pci (portControl dev)
        writeq (portControl dev)

/-- `__fpga_port_disable`: the reset bit is set by the first disable. -/
def fpgaPortDisable : WalkM Unit := touchPort pci (· + 1) 0

/-- `__fpga_port_enable`: the reset bit is cleared by the last enable. -/
def fpgaPortEnable : WalkM Unit := touchPort pci (· - 1) 1

/-- `fpga_port_reset` of the current feature device. -/
def fpgaPortReset : WalkM Unit := do
  let dev := (← get).featureDev
  throwIf (¬ dev.any (·.hasPdata)) .oops
  fpgaPortDisable pci
  fpgaPortEnable pci

def enablePortUafu (start : Ptr) : WalkM Unit := do
  let capability ← readq pci (some (start.add portCapabilityOffset))
  let _ ← readq pci (some (start.add portControlOffset))
  modify fun w => { w with uafuSize := capability.mmioSize * 1024 }
  runIf (capability.mmioSize * 1024 ≠ 0) (fpgaPortReset pci)

def parseFeaturePortAfu (hdr : Ptr) : WalkM Unit := do
  let size := (← get).uafuSize
  if size ≠ 0 then
    let ret ← attempt (createFeatureInstance pci ans hdr (portUafuInfo size) 0)
    modify fun w => { w with uafuSize := 0 }
    returnIfError ret
  else throw (.errno .einval)

def parseFeatureAfu (hdr : Ptr) : WalkM Unit := do
  match (← get).featureDev with
  | none => throw (.errno .einval)
  | some dev =>
      match dev.kind with
      | .port => parseFeaturePortAfu pci ans hdr
      | .fme => return

/-- First vector and number of vectors that a feature asks for. -/
def featureVectors (start : Ptr) (finfo : FeatureInfo) : WalkM (Nat × Nat) := do
  match finfo.name with
  | .portUint =>
      let cap ← readq pci (some (start.add portUintCapabilityOffset))
      return if cap.intrNum ≠ 0 then (cap.firstVecNum, cap.intrNum) else (0, 0)
  | .portErr =>
      let cap ← readq pci (some (start.add portErrCapabilityOffset))
      return if cap.supportIntr then (cap.intrVectorNum, 1) else (0, 0)
  | .fmeGlobalErr =>
      let cap ← readq pci (some (start.add fmeErrCapabilityOffset))
      return if cap.supportIntr then (cap.intrVectorNum, 1) else (0, 0)
  | _ => return (0, 0)

/-- `parse_feature_irqs`: the number of interrupt vectors of the feature. -/
def parseFeatureIrqs (start : Ptr) (finfo : FeatureInfo) : WalkM Nat := do
  if pci.msixVecCount ≤ 0 then return 0
  else
    let (vecStart, vecCnt) ← featureVectors pci start finfo
    return if (vecStart + vecCnt : Int) > pci.msixVecCount then 0 else vecCnt

/-- What `parse_feature_fme_private` and `parse_feature_port_private` do with the entry
of their table. -/
def parsePrivateEntry (kind : DevKind) (hdr : Ptr) (table : List FeatureInfo) (id : Nat) :
    WalkM Unit := do
  match table[id]? with
  | none => return
  | some finfo =>
      let vecCnt ← parseFeatureIrqs pci hdr finfo
      checkFeaturesHeader pci hdr kind id
      createFeatureInstance pci ans hdr finfo vecCnt

def parseFeatureFmePrivate (hdr : Ptr) : WalkM Unit := do
  let header ← readq pci (some hdr)
  parsePrivateEntry pci ans .fme hdr fmeFeatures header.id

/-- The index of a port's private feature, from its hardware id. -/
def portFeatureIndex (id : Nat) : Nat := (id &&& 0x000f) + 1

def parseFeaturePortPrivate (hdr : Ptr) : WalkM Unit := do
  let header ← readq pci (some hdr)
  let uafuSize := (← get).uafuSize
  parsePrivateEntry pci ans .port hdr (portFeatures uafuSize) (portFeatureIndex header.id)

def parseFeaturePrivate (hdr : Ptr) : WalkM Unit := do
  let _ ← readq pci (some hdr)
  match (← get).featureDev with
  | none => throw (.errno .einval)
  | some dev =>
      match dev.kind with
      | .fme => parseFeatureFmePrivate pci ans hdr
      | .port => parseFeaturePortPrivate pci ans hdr

/-- The switch of `parse_feature_fiu` over the id of the FIU. -/
def parseFiuDevice (hdr : Ptr) (header : Csr) : WalkM Unit := do
  if header.id = featureFiuIdFme then
    let ret ← attempt (parseFeatureFme pci ans hdr)
    checkFeaturesHeader pci hdr .fme 0
    modify fun w => { w with pfmeHdr := some hdr }
    returnIfError ret
  else if header.id = featureFiuIdPort then
    let ret ← attempt (parseFeaturePort pci ans hdr)
    checkFeaturesHeader pci hdr .port 0
    -- the port is enabled before the result is looked at
    enablePortUafu pci hdr
    returnIfError ret
  else return

def parseFeatureFiu (hdr : Ptr) : WalkM Unit := do
  modify fun w => { w with fius := w.fius + 1 }
  let header ← readq pci (some hdr)
  parseFiuDevice pci ans hdr header
  let fiuHeader ← readq pci (some (hdr.add fiuCsrOffset))
  runIf (fiuHeader.nextAfu ≠ 0) (parseFeatureAfu pci ans (hdr.add fiuHeader.nextAfu))

def parseFeature (hdr : Ptr) : WalkM Unit := do
  let header ← readq pci (some hdr)
  if header.type = featureTypeAfu then parseFeatureAfu pci ans hdr
  else if header.type = featureTypePrivate then parseFeaturePrivate pci ans hdr
  else if header.type = featureTypeFiu then parseFeatureFiu pci ans hdr
  else access (some (hdr.add 7)) 1

/-! ## Lists and ports -/

/-- One round of the loop of `parse_feature_list`, with the place to go on at. -/
def parseFeatureListRound (start port : Nat) : WalkM Pc := do
  let bar := (← get).currentBar
  if start < pci.len bar then
    throwIf (pci.len bar - start < featureHeaderSize) (.errno .einval)
    parseFeature pci ans ⟨bar, start⟩
    let header ← readq pci (some ⟨bar, start⟩)
    if header.eol ∨ header.nextHeaderOffset = 0 then return .ports port
    else return .scan (start + header.nextHeaderOffset) port
  else return .ports port

/-- `parse_start_from`, through `cci_pci_ioremap_bar`. -/
def parseStartFrom (bar : Nat) : WalkM Unit := do
  if bar ∈ (← get).regions then
    modify fun w => { w with currentBar := bar }
  else if ans.ioremap then
    modify fun w => { w with regions := bar :: w.regions, currentBar := bar }
  else throw (.errno .enomem)

/-- Everything has been parsed: the last device is committed. -/
def finish : WalkM Pc := do
  buildInfoCommitDev ans
  return .finished (.ok ())

/-- One round of the loop of `parse_ports_from_fme`. -/
def parsePortsRound (i : Nat) : WalkM Pc := do
  match (← get).pfmeHdr with
  | none => finish ans
  | some fmeHdr =>
      if i < maxFpgaPortNum then
        let port ← readq pci (some (fmeHdr.add (fmePortOffset i)))
        if port.portImplemented then
          parseStartFrom ans port.portBar
          return .scan port.portOffset (i + 1)
        else finish ans
      else finish ans

/-- What the walk does next. -/
def round (w : Walk) : WalkM Pc :=
  match w.pc with
  | .scan start port => parseFeatureListRound pci ans start port
  | .ports i => parsePortsRound pci ans i
  | .finished result => return .finished result

/-- The next state of the walk. -/
def advance (w : Walk) : Walk :=
  match round pci ans w w with
  | .ok pc w => { w with pc := pc }
  | .error stop w => { w with pc := .finished (.error stop) }

/-- A walk that has failed stays as it is. -/
theorem advance_failed {w : Walk} {stop : Stop} (failed : w.pc = .finished (.error stop)) :
    advance pci ans w = w := by
  simp only [advance, round, failed]
  rw [← failed]
  rfl

end Functions

/-- The walk at the first header of BAR 0, which has just been mapped.  The size of the
UAFU is what the last walk has left. -/
def Walk.start (uafuSize : Nat) : Walk where
  pc := .scan 0 0
  currentBar := 0
  regions := [0]
  pfmeHdr := none
  featureDev := none
  uafuSize := uafuSize
  committed := []
  fius := 0
  accesses := []
  resources := []

end OpaeXilinx.Enum
