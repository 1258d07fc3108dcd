import Mathlib.Data.Finset.Basic
import OpaeXilinx.Enum.Owners

/-!
# The ids of FPGA devices

A card takes an id for itself and one for each of its feature devices.  An id belongs to the
device that is being built, then to the driver data, and goes back when the enumeration
fails or the card is removed.
-/

namespace OpaeXilinx.Enum

open OpaeXilinx.Base

/-- A PCI device. -/
abbrev Pdev := Nat

inductive FpgaIdType where
  | parentId | fmeId | portId
  deriving DecidableEq, Repr

/-- `feature_dev_id_type`. -/
def DevKind.idType : DevKind → FpgaIdType
  | .fme => .fmeId
  | .port => .portId

/-- A platform device that has been committed. -/
structure PlatDev where
  id : Option Nat
  registered : Bool
  deriving DecidableEq, Repr

structure CciDrvdata where
  deviceId : Nat
  fmeDev : Option PlatDev
  portDevList : List PlatDev
  deriving DecidableEq, Repr

/-- What must not happen when an id is freed. -/
inductive Fault where
  | notAllocated | stillRegistered
  deriving DecidableEq, Repr

/-- The driver's data about all cards. -/
structure Fpga where
  fpgaIds : FpgaIdType → Finset Nat
  drvdata : Pdev → Option CciDrvdata
  /-- `port_features[PORT_FEATURE_ID_UAFU].resource_size`. -/
  uafuSize : Nat
  faults : List Fault

/-- How the kernel answers during a probe. -/
structure ProbeAnswers where
  pciEnableDevice : Bool
  pciRequestRegions : Bool
  dmaSetMask : Bool
  /-- `devm_kzalloc` and `alloc_fpga_id` for the driver data. -/
  drvdataAlloc : Bool
  parentId : Option Nat
  allocIrq : Bool
  /-- `build_info_alloc_and_init`, `fpga_create_parent_dev` and the mapping of BAR 0. -/
  binfoAlloc : Bool
  parentDev : Bool
  ioremap : Bool
  /-- The answers in each round of the walk. -/
  walk : List Answers

namespace CciDrvdata

/-- What `build_info_commit_dev` does with a device that has been added. -/
def commitDev (drv : CciDrvdata) (dev : Owner) : CciDrvdata :=
  match dev.kind with
  | .port => { drv with portDevList := ⟨dev.id, true⟩ :: drv.portDevList }
  | .fme => { drv with fmeDev := some ⟨dev.id, true⟩ }

/-- `remove_all_devs`. -/
def removeAllDevs (drv : CciDrvdata) : CciDrvdata :=
  { drv with
    fmeDev := drv.fmeDev.map ({ · with registered := false })
    portDevList := drv.portDevList.map ({ · with registered := false }) }

end CciDrvdata

namespace Fpga

def freeFpgaId (s : Fpga) (type : FpgaIdType) : Option Nat → Fpga
  | none => { s with faults := .notAllocated :: s.faults }
  | some id =>
      { s with
        fpgaIds := Function.update s.fpgaIds type ((s.fpgaIds type).erase id)
        faults := if id ∈ s.fpgaIds type then s.faults else .notAllocated :: s.faults }

/-- `WARN_ON(device_is_registered(..))`. -/
def warnRegistered (s : Fpga) (dev : PlatDev) : Fpga :=
  if dev.registered then { s with faults := .stillRegistered :: s.faults } else s

def setDrvdata (s : Fpga) (d : Pdev) (drv : Option CciDrvdata) : Fpga :=
  { s with drvdata := Function.update s.drvdata d drv }

def removeAllDevs (s : Fpga) (d : Pdev) : Fpga :=
  s.setDrvdata d ((s.drvdata d).map CciDrvdata.removeAllDevs)

def cciPciRemovePortDevs (s : Fpga) (ports : List PlatDev) : Fpga :=
  ports.foldl (fun s dev => (s.warnRegistered dev).freeFpgaId .portId dev.id) s

/-- What `destroy_drvdata` does with `fme_dev`. -/
def freeFmeDev (s : Fpga) : Option PlatDev → Fpga
  | none => s
  | some dev => (s.warnRegistered dev).freeFpgaId .fmeId dev.id

def destroyDrvdata (s : Fpga) (d : Pdev) : Fpga :=
  match s.drvdata d with
  | none => s
  | some drv =>
      let s := (s.freeFmeDev drv.fmeDev).cciPciRemovePortDevs drv.portDevList
      (s.setDrvdata d none).freeFpgaId .parentId (some drv.deviceId)

/-- `build_info_free`, with whether there is a parent device and the device that has not been
committed. -/
def buildInfoFree (s : Fpga) (d : Pdev) (parentDev : Bool) (featureDev : Option Owner) : Fpga :=
  let s := if parentDev then s.removeAllDevs d else s
  match featureDev with
  | some ⟨kind, some id⟩ => s.freeFpgaId kind.idType (some id)
  | _ => s

end Fpga

namespace Owned

/-- The ids that the devices of a kind hold. -/
def idsOf (kind : DevKind) (owners : List Owner) : List Nat :=
  owners.filterMap fun owner => if owner.kind = kind then owner.id else none

def ids (o : Owned) (kind : DevKind) : List Nat := idsOf kind (o.dev.toList ++ o.committed)

end Owned

/-- Ids of feature devices, by the type of ids. -/
def byType (ids : DevKind → List Nat) : FpgaIdType → Finset Nat
  | .parentId => ∅
  | .fmeId => (ids .fme).toFinset
  | .portId => (ids .port).toFinset

/-- The walk, with the answers in each round. -/
def walkAlong (pci : Pci) (w : Walk) (answers : List Answers) : Walk :=
  answers.foldl (fun w ans => advance pci ans w) w

namespace Fpga

/-- What the walk has done to the ids and the driver data. -/
def walked (s : Fpga) (d : Pdev) (w : Walk) : Fpga where
  fpgaIds type := s.fpgaIds type ∪ byType w.owned.ids type
  drvdata := Function.update s.drvdata d ((s.drvdata d).map fun drv =>
    w.owned.committed.foldr (fun dev drv => drv.commitDev dev) drv)
  uafuSize := w.uafuSize
  faults := s.faults

def cciPciCreateFeatureDevs (s : Fpga) (d : Pdev) (pci : Pci) (answers : ProbeAnswers) :
    Fpga × Except Stop Unit :=
  if !answers.binfoAlloc then (s, .error (.errno .enomem))
  else if !answers.parentDev then (s.buildInfoFree d false none, .error (.errno .other))
  else if !answers.ioremap then (s.buildInfoFree d true none, .error (.errno .enomem))
  else
    let w := walkAlong pci (.start s.uafuSize) answers.walk
    let s := s.walked d w
    match w.pc with
    | .finished (.ok _) => (s.buildInfoFree d false w.owned.dev, .ok ())
    | .finished (.error (.errno err)) => (s.buildInfoFree d true w.owned.dev, .error (.errno err))
    | _ => (s, .error .oops)

/-- `create_init_drvdata`. -/
def createInitDrvdata (s : Fpga) (d : Pdev) (answers : ProbeAnswers) : Option Fpga :=
  if !answers.drvdataAlloc then none
  else answers.parentId.map fun id =>
    { s with
      fpgaIds := Function.update s.fpgaIds .parentId (insert id (s.fpgaIds .parentId))
      drvdata := Function.update s.drvdata d (some ⟨id, none, []⟩) }

def cciPciProbe (s : Fpga) (d : Pdev) (pci : Pci) (answers : ProbeAnswers) :
    Fpga × Except Stop Unit :=
  if !(answers.pciEnableDevice && answers.pciRequestRegions && answers.dmaSetMask) then
    (s, .error (.errno .other))
  else
    match s.createInitDrvdata d answers with
    | none => (s, .error (.errno .other))
    | some s =>
        if !answers.allocIrq then (s.destroyDrvdata d, .error (.errno .other))
        else
          match s.cciPciCreateFeatureDevs d pci answers with
          | (s, .ok _) => (s, .ok ())
          | (s, .error (.errno err)) => (s.destroyDrvdata d, .error (.errno err))
          -- a fault: the probe does not return
          | (s, .error .oops) => (s, .error .oops)

def cciPciRemove (s : Fpga) (d : Pdev) : Fpga := (s.removeAllDevs d).destroyDrvdata d

/-- `detach_port_dev` and `attach_port_dev` of the port at a place in the list. -/
def setPort (s : Fpga) (d : Pdev) (i : Nat) (registered : Bool) : Fpga :=
  s.setDrvdata d ((s.drvdata d).map fun drv =>
    { drv with portDevList := drv.portDevList.modify i ({ · with registered := registered }) })

end Fpga

/-- `idr_alloc` gives ids that are not in use. -/
def FreshId (ids : FpgaIdType → Finset Nat) (w : Walk) (ans : Answers) : Prop :=
  ans.idAlloc = true → ∀ kind : DevKind,
    ans.newId kind ∉ ids kind.idType ∧ ans.newId kind ∉ w.owned.ids kind

section Walk

variable {o : Owned} {ids : FpgaIdType → Finset Nat} {pci : Pci} {ans : Answers} {w : Walk}
  {kind : DevKind}

theorem Owned.ids_begin (new : DevKind) (id : Option Nat) :
    (o.begin new id).ids kind = (if new = kind then id.toList else []) ++ o.ids kind := by
  simp only [Owned.ids, Owned.begin, Owned.commit, Owned.idsOf, Option.toList_some,
    List.singleton_append, List.filterMap_cons]
  split_ifs <;> cases id <;> rfl

theorem hasFme_iff : o.HasFme ↔ 0 < o.committed.countP (·.kind = .fme) := by
  simp [Owned.HasFme, List.countP_pos_iff]

/-- The ids of a walk are valid, fresh and different; and at most one FME is registered. -/
structure OwnedIds (ids : FpgaIdType → Finset Nat) (o : Owned) : Prop where
  valid : ∀ owner ∈ o.committed, owner.id ≠ none
  fresh : ∀ kind : DevKind, ∀ id ∈ o.ids kind, id ∉ ids kind.idType
  nodup : ∀ kind, (o.ids kind).Nodup
  fmes : o.committed.countP (·.kind = .fme) ≤ 1

/-- The current device can be committed. -/
def Committable (o : Owned) : Prop :=
  ∀ owner, o.dev = some owner → owner.id ≠ none ∧ (owner.kind = .fme → ¬ o.HasFme)

theorem OwnedIds.commit (inv : OwnedIds ids o) (committable : Committable o) :
    OwnedIds ids o.commit := by
  refine ⟨fun owner member => ?_, inv.fresh, inv.nodup, ?_⟩
  · rcases List.mem_append.mp member with current | before
    · exact (committable owner (by simpa using current)).1
    · exact inv.valid owner before
  · cases here : o.dev with
    | none => simpa [Owned.commit, here] using inv.fmes
    | some owner =>
        simp only [Owned.commit, here, Option.toList_some, List.singleton_append, List.countP_cons]
        by_cases isFme : owner.kind = .fme
        · have noFme := (committable owner here).2 isFme
          rw [hasFme_iff] at noFme
          rw [if_pos (decide_eq_true isFme)]
          omega
        · rw [if_neg (by simpa using isFme)]
          exact inv.fmes

theorem OwnedIds.begin (inv : OwnedIds ids o) (committable : Committable o) (new : DevKind)
    {id : Option Nat} (fresh : ∀ number ∈ id, number ∉ ids new.idType ∧ number ∉ o.ids new) :
    OwnedIds ids (o.begin new id) := by
  have committed := inv.commit committable
  refine ⟨committed.valid, fun kind number member => ?_, fun kind => ?_, committed.fmes⟩
  · rw [Owned.ids_begin] at member
    rcases List.mem_append.mp member with isNew | before
    · split_ifs at isNew with same
      · subst same
        exact (fresh number (by simpa using isNew)).1
      · cases isNew
    · exact inv.fresh kind number before
  · rw [Owned.ids_begin]
    split_ifs with same
    · subst same
      cases id with
      | none => exact inv.nodup new
      | some number => exact List.nodup_cons.mpr ⟨(fresh number rfl).2, inv.nodup new⟩
    · exact inv.nodup kind

/-- A round that goes on. -/
theorem OwnedIds.next {after : Owned} (inv : OwnedIds ids o) (committable : Committable o)
    (fresh : ans.idAlloc = true → ∀ kind : DevKind,
      ans.newId kind ∉ ids kind.idType ∧ ans.newId kind ∉ o.ids kind)
    (next : o.Next ans after) : OwnedIds ids after ∧ Committable after := by
  cases next with
  | same => exact ⟨inv, committable⟩
  | commit => exact ⟨inv.commit committable, nofun⟩
  | begin kind granted single =>
      refine ⟨inv.begin committable kind ?_, ?_⟩
      · rintro _ ⟨⟩
        exact fresh granted kind
      · rintro _ ⟨⟩
        exact ⟨nofun, single⟩

/-- A round that fails. -/
theorem OwnedIds.last {after : Owned} (inv : OwnedIds ids o) (committable : Committable o)
    (fresh : ans.idAlloc = true → ∀ kind : DevKind,
      ans.newId kind ∉ ids kind.idType ∧ ans.newId kind ∉ o.ids kind)
    (last : o.Last ans after) : OwnedIds ids after := by
  cases last with
  | same => exact inv
  | commit => exact inv.commit committable
  | noId kind => exact inv.begin committable kind nofun
  | begin kind granted =>
      apply inv.begin committable kind
      rintro _ ⟨⟩
      exact fresh granted kind

structure WalkIds (ids : FpgaIdType → Finset Nat) (w : Walk) : Prop where
  owned : OwnedIds ids w.owned
  committable : w.Running → Committable w.owned

theorem WalkIds.advance (inv : WalkIds ids w) (fresh : FreshId ids w ans) :
    WalkIds ids (advance pci ans w) := by
  by_cases running : w.Running
  · have committable := inv.committable running
    rcases advance_owned pci ans w with next | ⟨⟨stop, failed⟩, last⟩
    · have after := inv.owned.next committable fresh next
      exact ⟨after.1, fun _ => after.2⟩
    · exact ⟨inv.owned.last committable fresh last, fun running => absurd failed (running stop)⟩
  · obtain ⟨stop, failed⟩ : ∃ stop, w.pc = .finished (.error stop) := by
      simpa [Walk.Running] using running
    rw [advance_failed pci ans failed]
    exact inv

theorem WalkIds.along {answers : List Answers} (inv : WalkIds ids w)
    (fresh : System.Along (FreshId ids) (fun w ans => Enum.advance pci ans w) w answers) :
    WalkIds ids (walkAlong pci w answers) := by
  induction answers generalizing w with
  | nil => exact inv
  | cons ans answers ih => exact ih (inv.advance fresh.1) fresh.2

theorem walkIds_start (uafuSize : Nat) : WalkIds ids (.start uafuSize) := by
  refine ⟨⟨nofun, nofun, fun _ => .nil, ?_⟩, fun _ => nofun⟩
  simp [Walk.owned, Walk.start]

/-- The answers up to a round are fresh too. -/
theorem along_take {answers : List Answers}
    (fresh : System.Along (FreshId ids) (fun w ans => Enum.advance pci ans w) w answers)
    (count : Nat) :
    System.Along (FreshId ids) (fun w ans => Enum.advance pci ans w) w (answers.take count) := by
  induction answers generalizing w count with
  | nil => simpa using fresh
  | cons ans answers ih =>
      cases count with
      | zero => trivial
      | succ count => exact ⟨fresh.1, ih fresh.2 count⟩

/-- The number of FMEs that a walk has registered. -/
def Walk.fmes (w : Walk) : Nat := w.committed.countP (·.kind = .fme)

theorem Walk.fmes_eq (w : Walk) : w.fmes = w.owned.committed.countP (·.kind = .fme) := by
  simp only [Walk.fmes, Walk.owned, List.countP_map]
  rfl

end Walk

end OpaeXilinx.Enum
