import OpaeXilinx.Base.Ghost
import OpaeXilinx.Enum.BarAccess

/-!
# The walk as one program

`cci_pci_create_feature_devs` with its loops, beside a record of the calls it makes:
the headers it hands to `parse_feature` and how each of these calls ends, the BARs it asks
the kernel to map, and the UAFU features that AFU headers create.  The end of a list is
captured when the list is begun, and the FME header before the first port is looked at.
-/

namespace OpaeXilinx.Enum

open OpaeXilinx.Base

/-- What the walk calls at its top level. -/
inductive Call where
  /-- `parse_start_from`. -/
  | startFrom (bar : Nat)
  /-- `parse_feature`. -/
  | header (hdr : Ptr)
  /-- `dev_err` on a remainder that is too small for a header. -/
  | tooSmall
  /-- `build_info_commit_dev`, at the end. -/
  | commit
  deriving DecidableEq, Repr

/-- A UAFU feature created from an AFU header: the header of its port, the number of FIU
headers met up to the port, and the range recorded. -/
structure UafuCreated where
  fiu : Ptr
  fius : Nat
  range : Resource
  deriving DecidableEq, Repr

/-- What has been recorded. -/
structure Record where
  /-- Calls and their results, in order. -/
  calls : List (Call × Except Stop Unit)
  /-- Calls of `pci_ioremap_bar`, the last one first. -/
  ioremaps : List Nat
  /-- The last one first. -/
  uafus : List UafuCreated

abbrev Traced := Ghost Walk Record

abbrev TraceM := EStateM Stop Traced

/-- Record a call with its result. -/
def Record.call (call : Call) (ret : Except Stop Unit) (r : Record) : Record :=
  { r with calls := r.calls ++ [(call, ret)] }

/-- Record the UAFU that has just been added to the current device. -/
def Record.uafu (w : Walk) (r : Record) : Record :=
  match w.featureDev, w.resources.head? with
  | some dev, some range => { r with uafus := ⟨dev.fiu, dev.fius, range⟩ :: r.uafus }
  | _, _ => r

/-- Record a BAR that is about to be mapped. -/
def Record.ioremap (bar : Nat) (w : Walk) (r : Record) : Record :=
  if bar ∈ w.regions then r else { r with ioremaps := bar :: r.ioremaps }

namespace Traced

section Functions

variable (pci : Pci) (ans : Answers)

def parseFeaturePortAfu (hdr : Ptr) : TraceM Unit := do
  lift (Enum.parseFeaturePortAfu pci ans hdr)
  note Record.uafu

def parseFeatureAfu (hdr : Ptr) : TraceM Unit := do
  match (← get).state.featureDev with
  | none => lift (throw (.errno .einval))
  | some dev =>
      match dev.kind with
      | .port => parseFeaturePortAfu pci ans hdr
      | .fme => return

def parseFeatureFiu (hdr : Ptr) : TraceM Unit := do
  lift (modify fun w => { w with fius := w.fius + 1 })
  let header ← lift (readq pci (some hdr))
  lift (parseFiuDevice pci ans hdr header)
  let fiuHeader ← lift (readq pci (some (hdr.add fiuCsrOffset)))
  runIf (fiuHeader.nextAfu ≠ 0) (parseFeatureAfu pci ans (hdr.add fiuHeader.nextAfu))

def parseFeature (hdr : Ptr) : TraceM Unit := do
  let header ← lift (readq pci (some hdr))
  if header.type = featureTypeAfu then parseFeatureAfu pci ans hdr
  else if header.type = featureTypePrivate then lift (parseFeaturePrivate pci ans hdr)
  else if header.type = featureTypeFiu then parseFeatureFiu pci ans hdr
  else lift (access (some (hdr.add 7)) 1)

def parseStartFrom (bar : Nat) : TraceM Unit := do
  note (Record.ioremap bar)
  lift (Enum.parseStartFrom ans bar)

end Functions

section Loops

variable (pci : Pci) (answers : Nat → Answers)

/-- A recorded call, answered by the kernel as it answers the call of that number. -/
def called (call : Call) (program : Answers → TraceM Unit) : TraceM Unit := do
  let number := (← get).record.calls.length
  noting (Record.call call) (program (answers number))

/-- The loop of `parse_feature_list`, in a BAR that ends where it ended when the list was
begun. -/
def parseFeatureListLoop (bar ioend start : Nat) : TraceM Unit :=
  if start < ioend then
    if ioend - start < featureHeaderSize then
      called answers .tooSmall fun _ => lift (throw (.errno .einval))
    else do
      called answers (.header ⟨bar, start⟩) fun ans => parseFeature pci ans ⟨bar, start⟩
      let header ← lift (readq pci (some ⟨bar, start⟩))
      if _last : header.eol = true ∨ header.nextHeaderOffset = 0 then return
      else parseFeatureListLoop bar ioend (start + header.nextHeaderOffset)
  else return
termination_by ioend - start

/-- `parse_feature_list`, from an offset to `binfo->ioaddr`. -/
def parseFeatureList (start : Nat) : TraceM Unit := do
  let bar := (← get).state.currentBar
  parseFeatureListLoop pci answers bar (pci.len bar) start

/-- The loop of `parse_ports_from_fme`. -/
def parsePortsLoop (fmeHdr : Ptr) (i : Nat) : TraceM Unit := do
  let port ← lift (readq pci (some (fmeHdr.add (fmePortOffset i))))
  if port.portImplemented then
    called answers (.startFrom port.portBar) fun ans => parseStartFrom ans port.portBar
    parseFeatureList pci answers port.portOffset
    if i + 1 < maxFpgaPortNum then parsePortsLoop fmeHdr (i + 1)
    else return
  else return
termination_by maxFpgaPortNum - i

def parsePortsFromFme : TraceM Unit := do
  match (← get).state.pfmeHdr with
  | none => return
  | some fmeHdr => parsePortsLoop pci answers fmeHdr 0

/-- `cci_pci_create_feature_devs`, once the build information has been allocated. -/
def cciPciCreateFeatureDevs : TraceM Unit := do
  called answers (.startFrom 0) fun ans => parseStartFrom ans 0
  parseFeatureList pci answers 0
  parsePortsFromFme pci answers
  called answers .commit fun ans => lift (buildInfoCommitDev ans)

end Loops

/-- Before anything has been mapped, with the size of the UAFU that the last probe has
left. -/
def start (uafuSize : Nat) : Traced :=
  ⟨{ Walk.start uafuSize with regions := [] }, ⟨[], [], []⟩⟩

section Erasure

variable {pci : Pci} {ans : Answers} {hdr : Ptr}

theorem parseFeatureAfu_erases :
    Erases (parseFeatureAfu pci ans hdr) (Enum.parseFeatureAfu pci ans hdr) := by
  refine .get_bind fun g => ?_
  cases g.state.featureDev with
  | none => exact .lift _
  | some dev =>
      cases isKind : dev.kind with
      | fme =>
          simp only [isKind]
          exact .pure ()
      | port =>
          simp only [isKind]
          exact (Erases.lift _).note _

theorem parseFeature_erases :
    Erases (parseFeature pci ans hdr) (Enum.parseFeature pci ans hdr) := by
  refine (Erases.lift _).bind fun header => .ite parseFeatureAfu_erases (.ite (.lift _) (.ite ?_
    (.lift _)))
  refine (Erases.lift _).bind fun _ => (Erases.lift _).bind fun header =>
    (Erases.lift _).bind fun _ => (Erases.lift _).bind fun fiuHeader => ?_
  exact .ite parseFeatureAfu_erases (.pure ())

end Erasure

end Traced

/-- What the walk goes by, apart from the slots and ids of the devices. -/
structure Course where
  currentBar : Nat
  regions : List Nat
  pfmeHdr : Option Ptr
  /-- Kind, header and number of the current device. -/
  dev : Option (DevKind × Ptr × Nat)
  uafuSize : Nat
  fius : Nat

def Dev.place (dev : Dev) : DevKind × Ptr × Nat := (dev.kind, dev.fiu, dev.fius)

def Walk.course (w : Walk) : Course :=
  ⟨w.currentBar, w.regions, w.pfmeHdr, w.featureDev.map Dev.place, w.uafuSize, w.fius⟩

section Steady

variable {pci : Pci} {ans : Answers} {hdr : Ptr} {α : Type}

/-- A program that leaves the course as it is. -/
abbrev Steady (program : WalkM α) : Prop := Preserves Walk.course program

theorem access_steady (location : Option Ptr) (size : Nat) : Steady (access location size) :=
  .modify fun _ => rfl

theorem readq_steady (location : Option Ptr) : Steady (readq pci location) := by
  refine .bind (access_steady location 8) fun _ => ?_
  cases location with
  | none => exact .throw Stop.oops
  | some ptr => exact .pure _

theorem checkFeaturesHeader_steady (kind : DevKind) (id : Nat) :
    Steady (checkFeaturesHeader pci hdr kind id) :=
  .runIf (.bind (readq_steady _) fun _ => .pure ())

theorem touchPort_steady (count : Nat → Nat) (limit : Nat) :
    Steady (touchPort pci count limit) := by
  intro P
  apply Triple.get_bind
  intro w holds
  cases here : w.featureDev with
  | none =>
      apply Triple.throw
      rintro _ rfl
      exact holds
  | some dev =>
      refine Triple.bind (fun _ after => P after.course) (Triple.modify ?_) fun _ => ?_
      · rintro _ rfl
        simpa [Walk.course, here, Dev.place] using holds
      · exact (Preserves.runIf (.bind (readq_steady _) fun _ => access_steady _ _)) P

theorem fpgaPortReset_steady : Steady (fpgaPortReset pci) :=
  .get_bind fun _ => Preserves.throwIf.bind fun _ =>
    (touchPort_steady _ _).bind fun _ => touchPort_steady _ _

theorem buildInfoAddSubFeature_steady (finfo : FeatureInfo) (start : Ptr) (vecCnt : Nat) :
    Steady (buildInfoAddSubFeature ans finfo start vecCnt) := by
  intro P
  apply Triple.get_bind
  intro w holds
  cases here : w.featureDev with
  | none =>
      apply Triple.throw
      rintro _ rfl
      exact holds
  | some dev =>
      have same : Triple (fun current : Walk => current.course = w.course)
          (throwIf (vecCnt ≠ 0 ∧ ans.ctxAlloc = false) (Stop.errno .enomem))
          (fun _ after => after.course = w.course) fun _ after => P after.course :=
        Triple.throwIf (fun _ _ same => same ▸ holds) fun _ _ same => same
      refine Triple.bind (fun _ after => after.course = w.course) (Triple.modify ?_) fun _ =>
        Triple.bind _ same fun _ => Triple.modify ?_
      · rintro _ rfl
        rfl
      · intro after equal
        rw [← equal] at holds
        simp only [Walk.course, Course.mk.injEq, here] at equal holds ⊢
        rw [equal.2.2.2.1] at holds
        exact holds

theorem createFeatureInstance_steady (start : Ptr) (finfo : FeatureInfo) (vecCnt : Nat) :
    Steady (createFeatureInstance pci ans start finfo vecCnt) :=
  .get_bind fun _ => Preserves.throwIf.bind fun _ => (Preserves.runIf (access_steady _ _)).bind
    fun _ => buildInfoAddSubFeature_steady finfo start vecCnt

theorem featureVectors_steady (start : Ptr) (finfo : FeatureInfo) :
    Steady (featureVectors pci start finfo) := by
  cases name : finfo.name <;> simp only [featureVectors, name] <;>
    first
    | exact Preserves.pure _
    | exact (readq_steady _).bind fun _ => .pure _

theorem parseFeatureIrqs_steady (start : Ptr) (finfo : FeatureInfo) :
    Steady (parseFeatureIrqs pci start finfo) :=
  .ite (.pure _) ((featureVectors_steady start finfo).bind fun _ => .pure _)

theorem parsePrivateEntry_steady (kind : DevKind) (table : List FeatureInfo) (id : Nat) :
    Steady (parsePrivateEntry pci ans kind hdr table id) := by
  cases entry : table[id]? with
  | none =>
      simp only [parsePrivateEntry, entry]
      exact .pure ()
  | some finfo =>
      simp only [parsePrivateEntry, entry]
      exact (parseFeatureIrqs_steady hdr finfo).bind fun _ =>
        (checkFeaturesHeader_steady kind id).bind fun _ => createFeatureInstance_steady _ _ _

theorem parseFeaturePrivate_steady : Steady (parseFeaturePrivate pci ans hdr) := by
  refine (readq_steady _).bind fun _ => .get_bind fun w => ?_
  cases w.featureDev with
  | none => exact .throw _
  | some dev =>
      cases isKind : dev.kind with
      | fme =>
          simp only [isKind]
          exact (readq_steady _).bind fun _ => parsePrivateEntry_steady _ _ _
      | port =>
          simp only [isKind]
          exact (readq_steady _).bind fun _ => .get_bind fun w => parsePrivateEntry_steady _ _ _

end Steady

end OpaeXilinx.Enum
