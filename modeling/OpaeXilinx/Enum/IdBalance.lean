import Mathlib.Tactic.FinCases
import OpaeXilinx.Enum.DeviceIds

/-!
# Ids go back

Whatever fails during a probe, and whichever ports have been released before a remove, every
id goes back exactly once, after its device has been unregistered.
-/

namespace OpaeXilinx.Enum

open OpaeXilinx.Base

/-- A card without a driver, with one, or one whose probe never returned. -/
inductive CardStatus where
  | free | bound | stuck
  deriving DecidableEq, Repr

/-- All cards, and the ids that each probe has taken. -/
structure Fleet where
  fpga : Fpga
  status : Pdev → CardStatus
  took : Pdev → FpgaIdType → Finset Nat

inductive FleetStep where
  | probe (d : Pdev) (pci : Pci) (answers : ProbeAnswers)
  | remove (d : Pdev)
  | setPort (d : Pdev) (i : Nat) (registered : Bool)

/-- The status of a card after its probe. -/
def statusAfter : Except Stop Unit → CardStatus
  | .ok _ => .bound
  | .error (.errno _) => .free
  | .error .oops => .stuck

def Fleet.take (s : Fleet) : FleetStep → Fleet
  | .probe d pci answers =>
      let probed := s.fpga.cciPciProbe d pci answers
      { fpga := probed.1
        status := Function.update s.status d (statusAfter probed.2)
        took := Function.update s.took d fun type => probed.1.fpgaIds type \ s.fpga.fpgaIds type }
  | .remove d =>
    { s with fpga := s.fpga.cciPciRemove d, status := Function.update s.status d .free }
  | .setPort d i registered => { s with fpga := s.fpga.setPort d i registered }

/-- The probe gets as far as the walk. -/
def ProbeAnswers.walks (answers : ProbeAnswers) : Bool :=
  answers.pciEnableDevice && answers.pciRequestRegions && answers.dmaSetMask &&
    answers.drvdataAlloc && answers.parentId.isSome && answers.allocIrq && answers.binfoAlloc &&
    answers.parentDev &&
    answers.ioremap

/-- The answers are such as the kernel can give, and the walk comes to an end. -/
structure ProbeAnswers.Possible (answers : ProbeAnswers) (s : Fpga) (pci : Pci) : Prop where
  parentId : ∀ id, answers.parentId = some id → id ∉ s.fpgaIds .parentId
  fresh : answers.walks = true → System.Along (FreshId s.fpgaIds) (fun w ans => advance pci ans w)
    (.start s.uafuSize) answers.walk
  ends : answers.walks = true →
    ∃ result, (walkAlong pci (.start s.uafuSize) answers.walk).pc = .finished result

def FleetStep.Enabled (s : Fleet) : FleetStep → Prop
  | .probe d pci answers => s.status d = .free ∧ answers.Possible s.fpga pci
  | .remove d => s.status d = .bound
  | .setPort d _ _ => s.status d = .bound

/-- No card has a driver yet. -/
def Fleet.loaded (uafuSize : Nat) : Fleet where
  fpga := ⟨fun _ => ∅, fun _ => none, uafuSize, []⟩
  status _ := .free
  took _ _ := ∅

def fleetSystem : System Fleet FleetStep where
  init s := s = .loaded 0
  step s step next := step.Enabled s ∧ next = s.take step

/-- What the ids are after a step. -/
structure IdsRight (s : Fleet) (step : FleetStep) : Prop where
  /-- A probe that returns an error gives back all that it has taken. -/
  failed : ∀ d pci answers err, step = .probe d pci answers →
    (s.fpga.cciPciProbe d pci answers).2 = .error (.errno err) →
    ∀ type, (s.take step).fpga.fpgaIds type = s.fpga.fpgaIds type
  /-- A remove gives back what its probe has taken. -/
  removed : ∀ d, step = .remove d → ∀ type, s.took d type ⊆ s.fpga.fpgaIds type ∧
    (s.take step).fpga.fpgaIds type = s.fpga.fpgaIds type \ s.took d type
  faults : (s.take step).fpga.faults = []
  /-- At no time does a card have two registered FMEs. -/
  single : ∀ d pci answers, step = .probe d pci answers → answers.walks = true →
    ∀ count, (walkAlong pci (.start s.fpga.uafuSize) (answers.walk.take count)).fmes ≤ 1

/-- The ids that driver data hold. -/
structure Holds (drv : CciDrvdata) (fme : Option Nat) (ports : List Nat) : Prop where
  fme : drv.fmeDev.map PlatDev.id = fme.map some
  ports : drv.portDevList.map PlatDev.id = ports.map some

/-- No device is registered any more. -/
structure Unregistered (drv : CciDrvdata) : Prop where
  fme : ∀ dev ∈ drv.fmeDev, dev.registered = false
  ports : ∀ dev ∈ drv.portDevList, dev.registered = false

def heldIds (deviceId : Nat) (fme : Option Nat) (ports : List Nat) : FpgaIdType → Finset Nat
  | .parentId => {deviceId}
  | .fmeId => fme.toList.toFinset
  | .portId => ports.toFinset

section Free

variable {s : Fpga} {d : Pdev} {drv : CciDrvdata} {fme : Option Nat} {ports : List Nat}

/-- An id that is in use is freed. -/
theorem freeFpgaId_eq {type : FpgaIdType} {id : Nat} (inUse : id ∈ s.fpgaIds type) :
    s.freeFpgaId type (some id) =
      { s with fpgaIds := Function.update s.fpgaIds type ((s.fpgaIds type).erase id) } := by
  simp [Fpga.freeFpgaId, inUse]

theorem warnRegistered_eq {dev : PlatDev} (unregistered : dev.registered = false) :
    s.warnRegistered dev = s := by
  simp [Fpga.warnRegistered, unregistered]

theorem cciPciRemovePortDevs_eq {devs : List PlatDev} (holds : devs.map PlatDev.id = ports.map some)
    (unregistered : ∀ dev ∈ devs, dev.registered = false) (nodup : ports.Nodup)
    (inUse : ∀ id ∈ ports, id ∈ s.fpgaIds .portId) :
    s.cciPciRemovePortDevs devs =
      { s with
        fpgaIds := Function.update s.fpgaIds .portId (s.fpgaIds .portId \ ports.toFinset) } := by
  induction devs generalizing s ports with
  | nil =>
      obtain rfl : ports = [] := by simpa using holds.symm
      simp [Fpga.cciPciRemovePortDevs]
  | cons dev devs ih =>
      cases ports with
      | nil => simp at holds
      | cons id ports =>
          simp only [List.map_cons, List.cons.injEq] at holds
          obtain ⟨notAgain, nodup⟩ := List.nodup_cons.mp nodup
          have still : ∀ other ∈ ports, other ∈ (s.fpgaIds .portId).erase id := fun other member =>
            Finset.mem_erase.mpr ⟨fun same => notAgain (same ▸ member),
              inUse other (List.mem_cons_of_mem _ member)⟩
          have step : s.cciPciRemovePortDevs (dev :: devs) =
              ((s.warnRegistered dev).freeFpgaId .portId dev.id).cciPciRemovePortDevs devs := rfl
          rw [step, warnRegistered_eq (unregistered dev List.mem_cons_self), holds.1,
            freeFpgaId_eq (inUse id List.mem_cons_self),
            ih holds.2 (fun dev member => unregistered dev (List.mem_cons_of_mem _ member)) nodup
              (by simpa using still)]
          simp only [Function.update_idem, Function.update_self, List.toFinset_cons, Fpga.mk.injEq,
            and_true]
          congr 1
          ext other
          simp only [Finset.mem_sdiff, Finset.mem_erase, Finset.mem_insert]
          tauto

/-- The ids of driver data are in use. -/
def InUse (s : Fpga) (deviceId : Nat) (fme : Option Nat) (ports : List Nat) : Prop :=
  ∀ type, heldIds deviceId fme ports type ⊆ s.fpgaIds type

theorem freeFmeDev_eq {dev : Option PlatDev} (holds : dev.map PlatDev.id = fme.map some)
    (unregistered : ∀ plat ∈ dev, plat.registered = false)
    (inUse : ∀ id ∈ fme, id ∈ s.fpgaIds .fmeId) :
    s.freeFmeDev dev =
      { s with
        fpgaIds := Function.update s.fpgaIds .fmeId (s.fpgaIds .fmeId \ fme.toList.toFinset) } := by
  cases dev with
  | none =>
      obtain rfl : fme = none := by simpa using holds.symm
      simp [Fpga.freeFmeDev]
  | some dev =>
      cases fme with
      | none => simp at holds
      | some id =>
          simp only [Option.map_some, Option.some.injEq] at holds
          rw [Fpga.freeFmeDev, warnRegistered_eq (unregistered dev rfl), holds,
            freeFpgaId_eq (inUse id rfl)]
          simp [Finset.sdiff_singleton_eq_erase]

/-- All the ids of driver data go back. -/
theorem destroyDrvdata_eq (here : s.drvdata d = some drv) (holds : Holds drv fme ports)
    (unregistered : Unregistered drv) (nodup : ports.Nodup)
    (inUse : InUse s drv.deviceId fme ports) :
    s.destroyDrvdata d =
      { s with
        fpgaIds := fun type => s.fpgaIds type \ heldIds drv.deviceId fme ports type
        drvdata := Function.update s.drvdata d none } := by
  have device : drv.deviceId ∈ s.fpgaIds .parentId := inUse .parentId (by simp [heldIds])
  have usedFme : ∀ id ∈ fme, id ∈ s.fpgaIds .fmeId :=
    fun id member => inUse .fmeId (by simpa [heldIds] using member)
  have usedPorts : ∀ id ∈ ports, id ∈ s.fpgaIds .portId :=
    fun id member => inUse .portId (by simpa [heldIds] using member)
  simp only [Fpga.destroyDrvdata, here]
  rw [freeFmeDev_eq holds.fme unregistered.fme usedFme,
    cciPciRemovePortDevs_eq holds.ports unregistered.ports nodup (by simpa using usedPorts),
    freeFpgaId_eq (by simpa [Fpga.setDrvdata] using device)]
  simp only [Fpga.setDrvdata, Fpga.mk.injEq, and_true]
  funext type
  cases type <;> simp [heldIds, Finset.sdiff_singleton_eq_erase]

theorem Holds.removeAllDevs (holds : Holds drv fme ports) : Holds drv.removeAllDevs fme ports := by
  constructor
  · rw [← holds.fme]
    cases isFme : drv.fmeDev <;> simp [CciDrvdata.removeAllDevs, isFme]
  · rw [← holds.ports]
    simp [CciDrvdata.removeAllDevs]

theorem removeAllDevs_unregistered (drv : CciDrvdata) : Unregistered drv.removeAllDevs := by
  refine ⟨fun dev isFme => ?_, fun dev member => ?_⟩
  · simp only [CciDrvdata.removeAllDevs, Option.mem_map] at isFme
    obtain ⟨old, -, rfl⟩ := isFme
    rfl
  · simp only [CciDrvdata.removeAllDevs, List.mem_map] at member
    obtain ⟨old, -, rfl⟩ := member
    rfl

/-- The id of the device that has not been committed goes back. -/
theorem buildInfoFree_eq {dev : Option Owner} (parentDev : Bool)
    (inUse : ∀ kind : DevKind, ∀ id ∈ Owned.idsOf kind dev.toList, id ∈ s.fpgaIds kind.idType) :
    s.buildInfoFree d parentDev dev =
      { (if parentDev then s.removeAllDevs d else s) with
        fpgaIds := fun type =>
          s.fpgaIds type \ byType (fun kind => Owned.idsOf kind dev.toList) type } := by
  have sameIds : ∀ flag : Bool, (if flag then s.removeAllDevs d else s).fpgaIds = s.fpgaIds := by
    intro flag
    cases flag <;> rfl
  have nothing : (∀ kind : DevKind, Owned.idsOf kind dev.toList = []) →
      (fun type => s.fpgaIds type \ byType (fun kind => Owned.idsOf kind dev.toList) type) =
        (if parentDev then s.removeAllDevs d else s).fpgaIds := by
    intro empty
    funext type
    cases type <;> simp [byType, empty, sameIds]
  match dev, inUse, nothing with
  | none, _, nothing =>
      rw [nothing fun kind => rfl]
      rfl
  | some ⟨kind, none⟩, _, nothing =>
      rw [nothing fun other => by simp [Owned.idsOf]]
      rfl
  | some ⟨kind, some id⟩, inUse, _ =>
      have used : id ∈ (if parentDev then s.removeAllDevs d else s).fpgaIds kind.idType := by
        rw [sameIds]
        exact inUse kind id (by simp [Owned.idsOf])
      simp only [Fpga.buildInfoFree]
      rw [freeFpgaId_eq used, sameIds]
      congr 1
      funext type
      cases kind <;> cases type <;>
        simp [byType, Owned.idsOf, DevKind.idType, Finset.sdiff_singleton_eq_erase]

end Free

section Probe

variable {s : Fpga} {d : Pdev} {pci : Pci} {answers : ProbeAnswers} {w : Walk}

/-- The driver data after all commits of a walk. -/
theorem holds_commitDevs {committed : List Owner} (deviceId : Nat)
    (valid : ∀ owner ∈ committed, owner.id ≠ none) :
    Holds (committed.foldr (fun dev drv => drv.commitDev dev) ⟨deviceId, none, []⟩)
        (Owned.idsOf .fme committed).head? (Owned.idsOf .port committed) ∧
      (committed.foldr (fun dev drv => drv.commitDev dev) ⟨deviceId, none, []⟩ :
        CciDrvdata).deviceId = deviceId := by
  induction committed with
  | nil => exact ⟨⟨rfl, rfl⟩, rfl⟩
  | cons owner committed ih =>
      obtain ⟨holds, sameId⟩ := ih fun other member => valid other (List.mem_cons_of_mem _ member)
      have isValid := valid owner List.mem_cons_self
      match owner, isValid with
      | ⟨.port, some id⟩, _ =>
          exact ⟨⟨holds.fme, congrArg (some id :: ·) holds.ports⟩, sameId⟩
      | ⟨.fme, some id⟩, _ => exact ⟨⟨rfl, holds.ports⟩, sameId⟩
      | ⟨kind, none⟩, isValid => exact absurd rfl isValid

theorem length_idsOf_le (committed : List Owner) :
    (Owned.idsOf .fme committed).length ≤ committed.countP (·.kind = .fme) := by
  induction committed with
  | nil => simp [Owned.idsOf]
  | cons owner committed ih =>
      rw [Owned.idsOf] at ih
      rw [Owned.idsOf, List.filterMap_cons, List.countP_cons]
      obtain ⟨kind, id⟩ := owner
      cases kind with
      | port => simpa using ih
      | fme =>
          cases id with
          | none =>
              simp only [if_true, decide_true]
              omega
          | some id => simpa using ih

/-- A single FME holds all the ids of FMEs. -/
theorem head?_idsOf_fme {committed : List Owner}
    (single : committed.countP (·.kind = .fme) ≤ 1) :
    (Owned.idsOf .fme committed).head?.toList = Owned.idsOf .fme committed := by
  have short := length_idsOf_le committed
  match list : Owned.idsOf .fme committed with
  | [] => rfl
  | [id] => rfl
  | id :: other :: rest =>
      rw [list] at short
      simp only [List.length_cons] at short
      omega

/-- The state in which the enumeration begins. -/
def Fpga.begun (s : Fpga) (d : Pdev) (id : Nat) : Fpga :=
  { s with
    fpgaIds := Function.update s.fpgaIds .parentId (insert id (s.fpgaIds .parentId))
    drvdata := Function.update s.drvdata d (some ⟨id, none, []⟩) }

/-- The ids that a card holds after a walk. -/
def Walk.held (w : Walk) (id : Nat) : FpgaIdType → Finset Nat :=
  heldIds id (Owned.idsOf .fme w.owned.committed).head? (Owned.idsOf .port w.owned.committed)

theorem Walk.held_eq (ids : WalkIds s.fpgaIds w) (id : Nat) (type : FpgaIdType) :
    w.held id type =
      (if type = .parentId then {id} else ∅) ∪ byType (Owned.idsOf · w.owned.committed) type := by
  cases type <;> simp [Walk.held, heldIds, byType, head?_idsOf_fme ids.owned.fmes]

theorem mem_byType_ids {number : Nat} {type : FpgaIdType} :
    number ∈ byType w.owned.ids type ↔
      number ∈ byType (fun kind => Owned.idsOf kind w.owned.dev.toList) type ∨
        number ∈ byType (Owned.idsOf · w.owned.committed) type := by
  cases type <;> simp [byType, Owned.ids, Owned.idsOf]

/-- The ids of a walk were not in use. -/
theorem WalkIds.notBefore (ids : WalkIds s.fpgaIds w) {number : Nat} {type : FpgaIdType}
    (member : number ∈ byType w.owned.ids type) : number ∉ s.fpgaIds type := by
  cases type with
  | parentId => simp [byType] at member
  | fmeId => exact ids.owned.fresh .fme number (by simpa [byType] using member)
  | portId => exact ids.owned.fresh .port number (by simpa [byType] using member)

/-- The device that has not been committed does not share its id. -/
theorem WalkIds.apart (ids : WalkIds s.fpgaIds w) {number : Nat} {type : FpgaIdType}
    (member : number ∈ byType (fun kind => Owned.idsOf kind w.owned.dev.toList) type) :
    number ∉ byType (Owned.idsOf · w.owned.committed) type := by
  have apart : ∀ kind, number ∈ Owned.idsOf kind w.owned.dev.toList →
      number ∉ Owned.idsOf kind w.owned.committed := by
    intro kind current before
    have nodup := ids.owned.nodup kind
    rw [Owned.ids, Owned.idsOf, List.filterMap_append] at nodup
    exact (List.nodup_append.mp nodup).2.2 number current number before rfl
  cases type with
  | parentId => simp [byType] at member
  | fmeId => simpa [byType] using apart .fme (by simpa [byType] using member)
  | portId => simpa [byType] using apart .port (by simpa [byType] using member)

theorem WalkIds.nodup_ports (ids : WalkIds s.fpgaIds w) :
    (Owned.idsOf .port w.owned.committed).Nodup := by
  have nodup := ids.owned.nodup .port
  rw [Owned.ids, Owned.idsOf, List.filterMap_append] at nodup
  exact (List.nodup_append.mp nodup).2.1

/-- Driver data without feature devices are destroyed. -/
theorem begun_destroy {id : Nat} (fresh : id ∉ s.fpgaIds .parentId) :
    (s.begun d id).destroyDrvdata d = { s with drvdata := Function.update s.drvdata d none } := by
  have here : (s.begun d id).drvdata d = some ⟨id, none, []⟩ := by simp [Fpga.begun]
  have inUse : InUse (s.begun d id) id none [] := by
    intro type
    cases type <;> simp [heldIds, Fpga.begun]
  rw [destroyDrvdata_eq here ⟨rfl, rfl⟩ ⟨nofun, nofun⟩ .nil inUse]
  simp only [Fpga.begun, Fpga.mk.injEq, Function.update_idem, and_true]
  funext type
  cases type <;> simp [heldIds, Finset.sdiff_singleton_eq_erase, Finset.erase_insert fresh]

/-- A walk that has failed is undone. -/
theorem walked_destroy {id : Nat} (fresh : id ∉ s.fpgaIds .parentId) (ids : WalkIds s.fpgaIds w) :
    (((s.begun d id).walked d w).buildInfoFree d true w.owned.dev).destroyDrvdata d =
      { s with drvdata := Function.update s.drvdata d none, uafuSize := w.uafuSize } := by
  obtain ⟨holds, sameId⟩ := holds_commitDevs id ids.owned.valid
  have usedDev : ∀ kind : DevKind, ∀ number ∈ Owned.idsOf kind w.owned.dev.toList,
      number ∈ ((s.begun d id).walked d w).fpgaIds kind.idType := by
    intro kind number member
    refine Finset.mem_union_right _ (mem_byType_ids.mpr (.inl ?_))
    cases kind <;> simpa [byType, DevKind.idType] using member
  rw [buildInfoFree_eq true usedDev, if_pos rfl]
  let drv : CciDrvdata := w.owned.committed.foldr (fun dev drv => drv.commitDev dev) ⟨id, none, []⟩
  let freed : Fpga := { ((s.begun d id).walked d w).removeAllDevs d with
    fpgaIds := fun type => ((s.begun d id).walked d w).fpgaIds type \
      byType (fun kind => Owned.idsOf kind w.owned.dev.toList) type }
  have here : freed.drvdata d = some drv.removeAllDevs := by
    simp [freed, Fpga.removeAllDevs, Fpga.setDrvdata, Fpga.walked, Fpga.begun, drv]
  have inUse : InUse freed drv.removeAllDevs.deviceId (Owned.idsOf .fme w.owned.committed).head?
      (Owned.idsOf .port w.owned.committed) := by
    intro type number member
    have sameDevice : drv.removeAllDevs.deviceId = id := sameId
    rw [sameDevice] at member
    have member : number ∈ w.held id type := member
    rw [Walk.held_eq ids, Finset.mem_union] at member
    apply Finset.mem_sdiff.mpr
    rcases member with isParent | committed
    · split_ifs at isParent with parent
      · subst parent
        simpa [Fpga.walked, Fpga.begun, byType] using .inl (Finset.mem_singleton.mp isParent)
      · simp at isParent
    · exact ⟨Finset.mem_union_right _ (mem_byType_ids.mpr (.inr committed)),
        fun current => ids.apart current committed⟩
  show freed.destroyDrvdata d = _
  rw [destroyDrvdata_eq here holds.removeAllDevs (removeAllDevs_unregistered drv)
    ids.nodup_ports inUse]
  have back : (fun type => freed.fpgaIds type \ heldIds drv.removeAllDevs.deviceId
      (Owned.idsOf .fme w.owned.committed).head? (Owned.idsOf .port w.owned.committed) type) =
      s.fpgaIds := by
    funext type
    ext number
    have sameDevice : drv.removeAllDevs.deviceId = id := sameId
    have held : number ∈ heldIds id (Owned.idsOf .fme w.owned.committed).head?
        (Owned.idsOf .port w.owned.committed) type ↔ number ∈ w.held id type := Iff.rfl
    have notBefore : number ∈ byType w.owned.ids type → number ∉ s.fpgaIds type := ids.notBefore
    rw [sameDevice, Finset.mem_sdiff, held, Walk.held_eq ids]
    simp only [freed, Fpga.walked, Finset.mem_sdiff, Finset.mem_union,
      mem_byType_ids] at notBefore ⊢
    cases type with
    | parentId =>
        simp only [Fpga.begun, byType, Function.update_self, Finset.mem_insert, if_true,
          Finset.mem_singleton, Finset.notMem_empty, or_false, not_false_eq_true, and_true]
        constructor
        · rintro ⟨rfl | before, other⟩
          · exact absurd rfl other
          · exact before
        · exact fun before => ⟨.inr before, fun same => fresh (same ▸ before)⟩
    | _ =>
        simp only [Fpga.begun, Function.update_of_ne, ne_eq, reduceCtorEq, not_false_eq_true,
          if_false, Finset.notMem_empty, false_or]
        tauto
  rw [back]
  simp [freed, Fpga.removeAllDevs, Fpga.setDrvdata, Fpga.walked, Fpga.begun]

/-- The card after a walk that has succeeded. -/
theorem walked_ids {id : Nat} (fresh : id ∉ s.fpgaIds .parentId) (ids : WalkIds s.fpgaIds w)
    (ended : w.owned.dev = none) (type : FpgaIdType) :
    ((s.begun d id).walked d w).fpgaIds type = s.fpgaIds type ∪ w.held id type ∧
      Disjoint (s.fpgaIds type) (w.held id type) := by
  have notBefore : ∀ number ∈ byType w.owned.ids type, number ∉ s.fpgaIds type :=
    fun number member => ids.notBefore member
  have same : byType w.owned.ids type = byType (Owned.idsOf · w.owned.committed) type := by
    ext number
    rw [mem_byType_ids, ended]
    cases type <;> simp [byType, Owned.idsOf]
  rw [same] at notBefore
  refine ⟨?_, Finset.disjoint_left.mpr fun number before member => ?_⟩
  · show (s.begun d id).fpgaIds type ∪ byType w.owned.ids type = _
    rw [Walk.held_eq ids, same]
    ext number
    cases type with
    | parentId =>
        simp only [Fpga.begun, byType, Function.update_self, Finset.mem_union, Finset.mem_insert,
          Finset.notMem_empty, or_false, if_true, Finset.mem_singleton]
        exact or_comm
    | _ => simp [Fpga.begun, byType]
  · rw [Walk.held_eq ids, Finset.mem_union] at member
    rcases member with isParent | committed
    · split_ifs at isParent with parent
      · subst parent
        exact fresh (Finset.mem_singleton.mp isParent ▸ before)
      · simp at isParent
    · exact notBefore number committed before

/-- The parts of the state that a probe of another card leaves alone. -/
structure Elsewhere (s after : Fpga) (d : Pdev) : Prop where
  faults : after.faults = s.faults
  drvdata : ∀ e, e ≠ d → after.drvdata e = s.drvdata e

/-- How a probe ends. -/
inductive Probed (s : Fpga) (d : Pdev) : Fpga × Except Stop Unit → Prop where
  | failed {after : Fpga} {err : Errno} (back : after.fpgaIds = s.fpgaIds)
      (elsewhere : Elsewhere s after d) : Probed s d (after, .error (.errno err))
  | bound {after : Fpga} {drv : CciDrvdata} {fme : Option Nat} {ports : List Nat}
      (here : after.drvdata d = some drv) (holds : Holds drv fme ports) (nodup : ports.Nodup)
      (taken : ∀ type, after.fpgaIds type = s.fpgaIds type ∪ heldIds drv.deviceId fme ports type ∧
        Disjoint (s.fpgaIds type) (heldIds drv.deviceId fme ports type))
      (elsewhere : Elsewhere s after d) : Probed s d (after, .ok ())
  | stuck {after : Fpga} (more : ∀ type, s.fpgaIds type ⊆ after.fpgaIds type)
      (elsewhere : Elsewhere s after d) : Probed s d (after, .error .oops)

theorem Elsewhere.update {after : Fpga} {drv : Option CciDrvdata} (faults : after.faults = s.faults)
    (drvdata : after.drvdata = Function.update s.drvdata d drv) : Elsewhere s after d :=
  ⟨faults, fun e differs => by rw [drvdata, Function.update_of_ne differs]⟩

/-- The enumeration, once the driver data are there. -/
theorem probed_walk {id : Nat} (fresh : id ∉ s.fpgaIds .parentId) (ids : WalkIds s.fpgaIds w)
    (settled : w.Settled) :
    Probed s d (match w.pc with
      | .finished (.ok _) => (((s.begun d id).walked d w).buildInfoFree d false w.owned.dev, .ok ())
      | .finished (.error (.errno err)) =>
          ((((s.begun d id).walked d w).buildInfoFree d true w.owned.dev).destroyDrvdata d,
            .error (.errno err))
      | _ => ((s.begun d id).walked d w, .error .oops)) := by
  have walkedDrvdata : ((s.begun d id).walked d w).drvdata = Function.update s.drvdata d
      (some (w.owned.committed.foldr (fun dev drv => drv.commitDev dev) ⟨id, none, []⟩)) := by
    simp [Fpga.walked, Fpga.begun]
  have stuck : Probed s d ((s.begun d id).walked d w, .error .oops) := by
    refine .stuck (fun type number before => Finset.mem_union_left _ ?_) (.update rfl walkedDrvdata)
    cases type <;> simp [Fpga.begun, before]
  match result : w.pc with
  | .finished (.ok _) =>
      have ended : w.owned.dev = none := by simp [Walk.owned, settled result]
      obtain ⟨holds, sameId⟩ := holds_commitDevs id ids.owned.valid
      have here : ((s.begun d id).walked d w).drvdata d =
          some (w.owned.committed.foldr (fun dev drv => drv.commitDev dev) ⟨id, none, []⟩) := by
        rw [walkedDrvdata, Function.update_self]
      rw [ended]
      refine .bound here holds ids.nodup_ports ?_ (.update rfl walkedDrvdata)
      intro type
      rw [sameId]
      exact walked_ids fresh ids ended type
  | .finished (.error (.errno err)) =>
      simp only
      rw [walked_destroy fresh ids]
      exact .failed rfl (.update rfl rfl)
  | .finished (.error .oops) => exact stuck
  | .scan .. => exact stuck
  | .ports .. => exact stuck

theorem settled_along (pci : Pci) (uafuSize : Nat) (answers : List Answers) :
    (walkAlong pci (.start uafuSize) answers).Settled := by
  have inv : SlotInv (walkAlong pci (.start uafuSize) answers) := by
    have start : SlotInv (.start uafuSize) := ⟨nofun, fun _ => nofun⟩
    revert start
    generalize Walk.start uafuSize = w
    intro inv
    induction answers generalizing w with
    | nil => exact inv
    | cons ans answers ih => exact ih _ inv.advance
  exact inv.settled

/-- What `cci_pci_probe` does after the enumeration. -/
def Fpga.settle (d : Pdev) : Fpga × Except Stop Unit → Fpga × Except Stop Unit
  | (s, .ok _) => (s, .ok ())
  | (s, .error (.errno err)) => (s.destroyDrvdata d, .error (.errno err))
  | (s, .error .oops) => (s, .error .oops)

theorem probed_settle {id : Nat} (fresh : id ∉ s.fpgaIds .parentId)
    (walked : answers.binfoAlloc = true → answers.parentDev = true → answers.ioremap = true →
      WalkIds s.fpgaIds (walkAlong pci (.start s.uafuSize) answers.walk)) :
    Probed s d (Fpga.settle d ((s.begun d id).cciPciCreateFeatureDevs d pci answers)) := by
  have destroyed : ∀ err, Probed s d ((s.begun d id).destroyDrvdata d, .error (.errno err)) := by
    intro err
    rw [begun_destroy fresh]
    exact .failed rfl (.update rfl rfl)
  have nothing : (s.begun d id).buildInfoFree d true none = s.begun d id := by
    simp [Fpga.buildInfoFree, Fpga.removeAllDevs, Fpga.setDrvdata, Fpga.begun,
      CciDrvdata.removeAllDevs]
  simp only [Fpga.cciPciCreateFeatureDevs]
  cases binfo : answers.binfoAlloc with
  | false => exact destroyed _
  | true =>
      cases parentDev : answers.parentDev with
      | false => exact destroyed _
      | true =>
          cases ioremap : answers.ioremap with
          | false =>
              have ended := destroyed .enomem
              rw [← nothing] at ended
              exact ended
          | true =>
              have ended := @probed_walk s d _ id fresh (walked binfo parentDev ioremap)
                (settled_along pci s.uafuSize answers.walk)
              have same : (s.begun d id).uafuSize = s.uafuSize := rfl
              simp only [Bool.not_true, Bool.false_eq_true, if_false, same]
              match result : (walkAlong pci (.start s.uafuSize) answers.walk).pc with
              | .finished (.ok _) =>
                  simp only [result] at ended
                  exact ended
              | .finished (.error (.errno _)) =>
                  simp only [result] at ended
                  exact ended
              | .finished (.error .oops) =>
                  simp only [result] at ended
                  exact ended
              | .scan .. =>
                  simp only [result] at ended
                  exact ended
              | .ports .. =>
                  simp only [result] at ended
                  exact ended

theorem probe_cases (possible : answers.Possible s pci) :
    Probed s d (s.cciPciProbe d pci answers) := by
  have unchanged : ∀ err, Probed s d (s, .error (.errno err)) :=
    fun _ => .failed rfl ⟨rfl, fun _ _ => rfl⟩
  cases enabled : answers.pciEnableDevice && answers.pciRequestRegions && answers.dmaSetMask with
  | false =>
      simp only [Fpga.cciPciProbe, enabled]
      exact unchanged _
  | true =>
      cases created : s.createInitDrvdata d answers with
      | none =>
          simp only [Fpga.cciPciProbe, enabled, created]
          exact unchanged _
      | some begun =>
          obtain ⟨allocated, id, parent, rfl⟩ : answers.drvdataAlloc = true ∧
              ∃ id, answers.parentId = some id ∧ s.begun d id = begun := by
            simp only [Fpga.createInitDrvdata] at created
            split_ifs at created with denied
            exact ⟨by simpa using denied, Option.map_eq_some_iff.mp created⟩
          have fresh := possible.parentId id parent
          simp only [Fpga.cciPciProbe, enabled, created, Bool.not_true,
            Bool.false_eq_true, if_false]
          cases irq : answers.allocIrq with
          | false =>
              simp only [Bool.not_false, if_true]
              rw [begun_destroy fresh]
              exact .failed rfl (.update rfl rfl)
          | true =>
              apply probed_settle fresh
              intro binfo parentDev ioremap
              have walks : answers.walks = true := by
                simp [ProbeAnswers.walks, enabled, allocated, parent, irq, binfo,
                  parentDev, ioremap]
              exact (walkIds_start _).along (possible.fresh walks)

end Probe

/-! ## Runs -/

/-- The driver data of a card and the ids that its probe has taken. -/
structure CardHolds (s : Fleet) (d : Pdev) (drv : CciDrvdata) (fme : Option Nat)
    (ports : List Nat) : Prop where
  here : s.fpga.drvdata d = some drv
  holds : Holds drv fme ports
  nodup : ports.Nodup
  took : s.took d = heldIds drv.deviceId fme ports

structure FleetInv (s : Fleet) : Prop where
  faults : s.fpga.faults = []
  bound : ∀ d, s.status d = .bound → ∃ drv fme ports, CardHolds s d drv fme ports
  inside : ∀ d, s.status d = .bound → ∀ type, s.took d type ⊆ s.fpga.fpgaIds type
  apart : ∀ d e, s.status d = .bound → s.status e = .bound → d ≠ e → ∀ type,
    Disjoint (s.took d type) (s.took e type)

section Runs

variable {s : Fleet} {d : Pdev}

/-- A card whose probe has not succeeded takes nothing from the others. -/
theorem FleetInv.failed (inv : FleetInv s) {after : Fpga}
    (elsewhere : Elsewhere s.fpga after d) (more : ∀ type, s.fpga.fpgaIds type ⊆ after.fpgaIds type)
    {status : CardStatus} (notBound : status ≠ .bound) (took : FpgaIdType → Finset Nat) :
    FleetInv ⟨after, Function.update s.status d status, Function.update s.took d took⟩ := by
  have other : ∀ e, Function.update s.status d status e = .bound → e ≠ d ∧ s.status e = .bound := by
    intro e bound
    by_cases same : e = d
    · simp [same, notBound] at bound
    · exact ⟨same, by simpa [same] using bound⟩
  refine ⟨elsewhere.faults.trans inv.faults, fun e bound => ?_, fun e bound type => ?_,
    fun e f boundE boundF differs type => ?_⟩
  · obtain ⟨differs, bound⟩ := other e bound
    obtain ⟨drv, fme, ports, card⟩ := inv.bound e bound
    refine ⟨drv, fme, ports, ?_, card.holds, card.nodup, ?_⟩
    · rw [elsewhere.drvdata e differs, card.here]
    · simp only [Function.update_of_ne differs, card.took]
  · obtain ⟨differs, bound⟩ := other e bound
    simp only [Function.update_of_ne differs]
    exact (inv.inside e bound type).trans (more type)
  · obtain ⟨notE, boundE⟩ := other e boundE
    obtain ⟨notF, boundF⟩ := other f boundF
    simp only [Function.update_of_ne notE, Function.update_of_ne notF]
    exact inv.apart e f boundE boundF differs type

theorem FleetInv.probe (inv : FleetInv s) {pci : Pci} {answers : ProbeAnswers}
    (free : s.status d = .free) (possible : answers.Possible s.fpga pci) :
    FleetInv (s.take (.probe d pci answers)) := by
  have cases' := @probe_cases s.fpga d pci answers possible
  simp only [Fleet.take]
  generalize s.fpga.cciPciProbe d pci answers = probed at cases'
  cases cases' with
  | failed back elsewhere =>
      exact inv.failed elsewhere (fun type => by rw [back]) (by simp [statusAfter]) _
  | stuck more elsewhere => exact inv.failed elsewhere more (by simp [statusAfter]) _
  | @bound after drv fme ports here holds nodup taken elsewhere =>
      have tookHere : (fun type => after.fpgaIds type \ s.fpga.fpgaIds type) =
          heldIds drv.deviceId fme ports := by
        funext type
        rw [(taken type).1, Finset.union_sdiff_cancel_left (taken type).2]
      have other :
          ∀ e, e ≠ d → Function.update s.status d .bound e = .bound → s.status e = .bound := by
        intro e differs bound
        simpa [differs] using bound
      -- the ids of the other cards were in use before
      have apart : ∀ e, e ≠ d → Function.update s.status d .bound e = .bound → ∀ type,
          Disjoint (heldIds drv.deviceId fme ports type) (s.took e type) := by
        intro e differs bound type
        exact ((taken type).2.mono_left (inv.inside e (other e differs bound) type)).symm
      refine ⟨elsewhere.faults.trans inv.faults, fun e bound => ?_, fun e bound type => ?_,
        fun e f boundE boundF differs type => ?_⟩
      · by_cases same : e = d
        · subst same
          exact ⟨drv, fme, ports, here, holds, nodup, by simp [tookHere]⟩
        · obtain ⟨drv, fme, ports, card⟩ := inv.bound e (other e same bound)
          refine ⟨drv, fme, ports, ?_, card.holds, card.nodup, ?_⟩
          · rw [elsewhere.drvdata e same, card.here]
          · simp only [Function.update_of_ne same, card.took]
      · by_cases same : e = d
        · subst same
          simp only [Function.update_self]
          exact Finset.sdiff_subset
        · simp only [Function.update_of_ne same]
          rw [(taken type).1]
          exact (inv.inside e (other e same bound) type).trans Finset.subset_union_left
      · by_cases sameE : e = d
        · subst sameE
          simp only [Function.update_self, Function.update_of_ne differs.symm, tookHere]
          exact apart f differs.symm boundF type
        · by_cases sameF : f = d
          · subst sameF
            simp only [Function.update_self, Function.update_of_ne sameE, tookHere]
            exact (apart e sameE boundE type).symm
          · simp only [Function.update_of_ne sameE, Function.update_of_ne sameF]
            exact inv.apart e f (other e sameE boundE) (other f sameF boundF) differs type

/-- A remove gives back exactly the ids of its card. -/
theorem FleetInv.remove_eq (inv : FleetInv s) (bound : s.status d = .bound) :
    s.fpga.cciPciRemove d =
      { s.fpga with
        fpgaIds := fun type => s.fpga.fpgaIds type \ s.took d type
        drvdata := Function.update s.fpga.drvdata d none } := by
  obtain ⟨drv, fme, ports, card⟩ := inv.bound d bound
  have here : (s.fpga.removeAllDevs d).drvdata d = some drv.removeAllDevs := by
    simp [Fpga.removeAllDevs, Fpga.setDrvdata, card.here]
  have inUse : InUse (s.fpga.removeAllDevs d) drv.removeAllDevs.deviceId fme ports := by
    intro type
    have inside := inv.inside d bound type
    rw [card.took] at inside
    exact inside
  rw [Fpga.cciPciRemove, destroyDrvdata_eq here card.holds.removeAllDevs
    (removeAllDevs_unregistered drv) card.nodup inUse, card.took]
  simp [Fpga.removeAllDevs, Fpga.setDrvdata, CciDrvdata.removeAllDevs]

theorem FleetInv.remove (inv : FleetInv s) (bound : s.status d = .bound) :
    FleetInv (s.take (.remove d)) := by
  have other : ∀ e, Function.update s.status d .free e = .bound → e ≠ d ∧ s.status e = .bound := by
    intro e isBound
    by_cases same : e = d
    · simp [same] at isBound
    · exact ⟨same, by simpa [same] using isBound⟩
  simp only [Fleet.take]
  rw [inv.remove_eq bound]
  refine ⟨inv.faults, fun e isBound => ?_, fun e isBound type => ?_,
    fun e f boundE boundF differs type => ?_⟩
  · obtain ⟨differs, isBound⟩ := other e isBound
    obtain ⟨drv, fme, ports, card⟩ := inv.bound e isBound
    exact ⟨drv, fme, ports, by simp [differs, card.here], card.holds, card.nodup, card.took⟩
  · obtain ⟨differs, isBound⟩ := other e isBound
    exact Finset.subset_sdiff.mpr
      ⟨inv.inside e isBound type, inv.apart e d isBound bound differs type⟩
  · exact inv.apart e f (other e boundE).2 (other f boundF).2 differs type

theorem Holds.setPort {drv : CciDrvdata} {fme : Option Nat} {ports : List Nat}
    (holds : Holds drv fme ports) (i : Nat) (registered : Bool) :
    Holds { drv with
      portDevList := drv.portDevList.modify i ({ · with registered := registered }) } fme
      ports := by
  refine ⟨holds.fme, ?_⟩
  rw [← holds.ports]
  apply List.ext_getElem?
  intro j
  simp only [List.getElem?_map, List.getElem?_modify]
  cases drv.portDevList[j]? with
  | none => rfl
  | some dev =>
      simp only [Option.map_some]
      split_ifs <;> rfl

theorem FleetInv.setPort (inv : FleetInv s) (i : Nat) (registered : Bool) :
    FleetInv (s.take (.setPort d i registered)) := by
  refine ⟨inv.faults, fun e bound => ?_, inv.inside, inv.apart⟩
  obtain ⟨drv, fme, ports, card⟩ := inv.bound e bound
  by_cases same : e = d
  · subst same
    refine ⟨_, fme, ports, ?_, card.holds.setPort i registered, card.nodup, card.took⟩
    simp [Fleet.take, Fpga.setPort, Fpga.setDrvdata, card.here]
  · exact ⟨drv, fme, ports, by simp [Fleet.take, Fpga.setPort, Fpga.setDrvdata, same, card.here],
      card.holds, card.nodup, card.took⟩

theorem FleetInv.take (inv : FleetInv s) {step : FleetStep} (enabled : step.Enabled s) :
    FleetInv (s.take step) := by
  cases step with
  | probe d pci answers => exact inv.probe enabled.1 enabled.2
  | remove d => exact inv.remove enabled
  | setPort d i registered => exact inv.setPort i registered

theorem FleetInv.reach (reach : fleetSystem.Reachable s) : FleetInv s := by
  refine System.Reach.invariant ?_ ?_ reach
  · rintro _ rfl
    exact ⟨rfl, nofun, nofun, nofun⟩
  · rintro s step _ inv - ⟨enabled, rfl⟩
    exact inv.take enabled

theorem FleetInv.idsRight (inv : FleetInv s) {step : FleetStep} (enabled : step.Enabled s) :
    IdsRight s step := by
  refine ⟨?_, ?_, (inv.take enabled).faults, ?_⟩
  · rintro d pci answers err rfl failed type
    have cases' := @probe_cases s.fpga d pci answers enabled.2
    simp only [Fleet.take]
    generalize s.fpga.cciPciProbe d pci answers = probed at cases' failed
    cases cases' with
    | failed back elsewhere => rw [back]
    | stuck more elsewhere => cases failed
    | bound here holds nodup taken elsewhere => cases failed
  · rintro d rfl type
    refine ⟨inv.inside d enabled type, ?_⟩
    simp only [Fleet.take]
    rw [inv.remove_eq enabled]
  · rintro d pci answers rfl walks count
    have ids : WalkIds s.fpga.fpgaIds
        (walkAlong pci (.start s.fpga.uafuSize) (answers.walk.take count)) :=
      (walkIds_start _).along (along_take (enabled.2.fresh walks) count)
    rw [Walk.fmes_eq]
    exact ids.owned.fmes

end Runs

/-- In every run, a probe that fails gives back the ids it has taken, a remove gives back those
of its probe, no id is freed twice or under a registered device, and no card ever has two
registered FMEs. -/
theorem device_ids_balanced {s : Fleet} (reach : fleetSystem.Reachable s) :
    s.fpga.faults = [] ∧ ∀ step : FleetStep, step.Enabled s → IdsRight s step := by
  have inv := FleetInv.reach reach
  exact ⟨inv.faults, fun step enabled => inv.idsRight enabled⟩

/-- A card with a single FME takes two ids, which a remove gives back. -/
theorem device_ids_balanced_fme :
    ∃ s : Fleet, fleetSystem.Reachable s ∧ s.status 0 = .bound ∧ s.took 0 .parentId = {0} ∧
      s.took 0 .fmeId = {0} ∧ IdsRight s (.remove 0) := by
  let walk : List Answers := [.granted, { Answers.granted with newId := fun _ => 1 }]
  let answers : ProbeAnswers := ⟨true, true, true, true, some 0, true, true, true, true, walk⟩
  let s : Fleet := (Fleet.loaded 0).take (.probe 0 .fmeOnly answers)
  have fresh : System.Along (FreshId fun _ => ∅) (fun w ans => advance .fmeOnly ans w) (.start 0)
      walk := by
    refine ⟨fun _ kind => ⟨by simp, ?_⟩, fun _ kind => ⟨by simp, ?_⟩, trivial⟩
    · cases kind <;> decide
    · cases kind <;> decide
  have possible : answers.Possible (Fleet.loaded 0).fpga .fmeOnly :=
    ⟨fun id _ => Finset.notMem_empty id, fun _ => fresh, fun _ => ⟨.ok (), by decide⟩⟩
  have enabled : (FleetStep.probe 0 .fmeOnly answers).Enabled (.loaded 0) := ⟨rfl, possible⟩
  have reach : fleetSystem.Reachable s := .step (.init rfl) trivial ⟨enabled, rfl⟩
  have bound : s.status 0 = .bound := by decide
  exact ⟨s, reach, bound, by decide, by decide, (device_ids_balanced reach).2 (.remove 0) bound⟩

end OpaeXilinx.Enum
