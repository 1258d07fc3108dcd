import Mathlib.Tactic.IntervalCases
import Mathlib.Tactic.Tauto
import OpaeXilinx.Enum.BarAccess

/-!
# Feature slots

What the slots of the registered feature devices mean.  What the walk leaves in them
is a function of the headers it meets; the slots mean what they say exactly when every
header that is entered into a slot is of the kind of that slot, belongs to the device,
and finds the slot free.
-/

namespace OpaeXilinx.Enum

open OpaeXilinx.Base

/-- FIU id of a kind of devices. -/
def DevKind.fiuId : DevKind → Nat
  | .fme => featureFiuIdFme
  | .port => featureFiuIdPort

/-- The header is of the kind that the slot of the device designates. -/
def Designates (pci : Pci) (dev : Dev) (slot : Nat) (hdr : Ptr) : Prop :=
  let header := pci.csr hdr.bar hdr.offset
  if slot = 0 then hdr = dev.fiu ∧ header.type = featureTypeFiu ∧ header.id = dev.kind.fiuId
  else match dev.kind with
    | .fme => header.type = featureTypePrivate ∧ header.id = slot
    | .port =>
        if slot = portFeatureIdUafu then header.type = featureTypeAfu
        else slot ≤ 5 ∧ header.type = featureTypePrivate ∧ header.id = 0x0f + slot

/-- No slot has been filled twice, and every filled slot holds a header of its kind that
was met after the device's own FIU header and before the next one. -/
structure Dev.Meaningful (pci : Pci) (dev : Dev) : Prop where
  once : (dev.features.map Prod.fst).Nodup
  entries : ∀ slot entry, (slot, entry) ∈ dev.features →
    entry.fius = dev.fius ∧ Designates pci dev slot entry.header

/-- The devices without their ids and the state of their resets. -/
def Dev.view (dev : Dev) : Dev := { dev with id := none, hasPdata := true, disableCount := 0 }

/-- The part of the walk's state that decides about the slots. -/
structure Seen where
  dev : Option Dev
  committed : List Dev
  fius : Nat

def Walk.seen (w : Walk) : Seen := ⟨w.featureDev.map Dev.view, w.committed.map Dev.view, w.fius⟩

/-- Enter a header into a slot. -/
def Dev.add (dev : Dev) (slot : Nat) (entry : Entry) : Dev :=
  { dev with features := (slot, entry) :: dev.features }

namespace Seen

/-- Enter a header into a slot of the current device. -/
def add (s : Seen) (slot : Nat) (hdr : Ptr) : Seen :=
  { s with dev := s.dev.map (·.add slot ⟨hdr, s.fius⟩) }

/-- Commit the current device. -/
def commit (s : Seen) : Seen := ⟨none, s.dev.toList ++ s.committed, s.fius⟩

/-- Begin a device for an FIU, with all slots empty. -/
def begin (s : Seen) (kind : DevKind) (fiu : Ptr) : Seen :=
  { s.commit with dev := some ⟨kind, fiu, s.fius, none, true, [], 0⟩ }

/-- Begin a device for an FIU, with its header in slot 0. -/
def create (s : Seen) (kind : DevKind) (fiu : Ptr) : Seen := (s.begin kind fiu).add 0 fiu

/-- Give an AFU to the current device if that is a port. -/
def addAfu (s : Seen) (hdr : Ptr) : Seen :=
  if s.dev.map Dev.kind = some .port then s.add portFeatureIdUafu hdr else s

end Seen

/-- The slot of a private header, if its id is known. -/
def privateSlot (kind : DevKind) (id : Nat) : Option Nat :=
  match kind with
  | .fme => if id < 13 then some id else none
  | .port => if portFeatureIndex id < 7 then some (portFeatureIndex id) else none

/-- Enter a private header into the slot that its id gives. -/
def Seen.addPrivate (s : Seen) (hdr : Ptr) (id : Nat) : Seen :=
  match s.dev.bind (privateSlot ·.kind id) with
  | none => s
  | some slot => s.add slot hdr

/-- Begin a device for an FIU of a known kind. -/
def Seen.addDevice (s : Seen) (hdr : Ptr) (header : Csr) : Seen :=
  if header.id = featureFiuIdFme then s.create .fme hdr
  else if header.id = featureFiuIdPort then s.create .port hdr
  else s

/-- What the walk has seen after an FIU header. -/
def Seen.addFiu (pci : Pci) (s : Seen) (hdr : Ptr) (header : Csr) : Seen :=
  let s := Seen.addDevice { s with fius := s.fius + 1 } hdr header
  if pci.nextAfu hdr = 0 then s else s.addAfu (hdr.add (pci.nextAfu hdr))

/-- What the walk has seen after a header. -/
def Seen.after (pci : Pci) (s : Seen) (hdr : Ptr) : Seen :=
  let header := pci.csr hdr.bar hdr.offset
  if header.type = featureTypeAfu then s.addAfu hdr
  else if header.type = featureTypePrivate then s.addPrivate hdr header.id
  else if header.type = featureTypeFiu then s.addFiu pci hdr header
  else s

section Effect

variable {pci : Pci} {ans : Answers} {s : Seen} {hdr : Ptr} {w₀ : Walk}

/-- A program that turns one view into another when it ends normally. -/
abbrev Views (s : Seen) (program : WalkM α) (t : Seen) : Prop :=
  Triple (fun w => w.seen = s) program (fun _ w => w.seen = t) fun _ _ => True

/-- A program that leaves the view as it is. -/
abbrev Quiet (program : WalkM α) : Prop :=
  ∀ P : Seen → Prop, Triple (fun w => P w.seen) program (fun _ w => P w.seen) fun _ _ => True

theorem access_quiet (location : Option Ptr) (size : Nat) : Quiet (access location size) :=
  fun _ _ holds => holds

theorem readq_value (ptr : Ptr) (P : Seen → Prop) :
    Triple (fun w => P w.seen) (readq pci (some ptr))
      (fun value w => value = pci.csr ptr.bar ptr.offset ∧ P w.seen) fun _ _ => True :=
  fun _ holds => ⟨rfl, holds⟩

theorem readq_quiet (location : Option Ptr) : Quiet (readq pci location) := by
  intro P
  cases location with
  | none => exact fun _ _ => trivial
  | some ptr => exact fun _ holds => holds

/-- Continue with the value that has been read. -/
theorem readq_bind {rest : Csr → WalkM α} {ptr : Ptr} {P : Seen → Prop} {post : α → Walk → Prop}
    (follows : Triple (fun w => P w.seen)
    (rest (pci.csr ptr.bar ptr.offset)) post fun _ _ => True) :
    Triple (fun w => P w.seen) (readq pci (some ptr) >>= rest) post fun _ _ => True := by
  apply Triple.bind _ (readq_value ptr P)
  intro value
  rintro w ⟨rfl, holds⟩
  exact follows w holds

theorem checkFeaturesHeader_quiet (kind : DevKind) (id : Nat) :
    Quiet (checkFeaturesHeader pci hdr kind id) := fun P =>
  Triple.runIf (fun _ => Triple.bind _ (readq_quiet (some hdr) P) fun _ =>
    Triple.pure fun _ holds => holds) fun _ _ holds => holds

theorem touchPort_quiet (count : Nat → Nat) (limit : Nat) : Quiet (touchPort pci count limit) := by
  intro P
  apply Triple.get_bind
  intro w holds
  cases here : w.featureDev with
  | none => exact Triple.throw fun _ _ => trivial
  | some dev =>
      refine Triple.bind (fun _ after => P after.seen) (Triple.modify ?_) fun _ => ?_
      · rintro _ rfl
        simpa [Walk.seen, here, Dev.view] using holds
      · exact Triple.runIf (fun _ => Triple.bind _ (readq_quiet _ P) fun _ => fun _ holds => holds)
          fun _ _ holds => holds

theorem enablePortUafu_quiet : Quiet (enablePortUafu pci hdr) := by
  intro P
  refine readq_bind (readq_bind ?_)
  refine Triple.bind (fun _ w => P w.seen) (Triple.modify fun _ holds => holds) fun _ =>
    Triple.runIf (fun _ => Triple.get_bind fun w holds => ?_) fun _ _ holds => holds
  refine Triple.bind (fun _ after => P after.seen) (Triple.throwIf (fun _ _ _ => trivial) ?_)
    fun _ => Triple.bind _ (touchPort_quiet _ _ P) fun _ => touchPort_quiet _ _ P
  rintro - _ rfl
  exact holds

theorem buildInfoAddSubFeature_views (finfo : FeatureInfo) (start : Ptr) (vecCnt : Nat) :
    Views s (buildInfoAddSubFeature ans finfo start vecCnt) (s.add finfo.featureIndex start) := by
  apply Triple.get_bind
  intro w same
  cases here : w.featureDev with
  | none => exact Triple.throw fun _ _ => trivial
  | some dev =>
      refine Triple.bind (fun _ after => after.seen = s) (Triple.modify ?_) fun _ => ?_
      · rintro _ rfl
        exact same
      refine Triple.bind (fun _ after => after.seen = s)
        (Triple.throwIf (fun _ _ _ => trivial) fun _ _ holds => holds) fun _ => Triple.modify ?_
      rintro after rfl
      have isDev : after.featureDev.map Dev.view = some dev.view := by
        have equal := congrArg Seen.dev same
        simpa [Walk.seen, here] using equal.symm
      simp [Walk.seen, Seen.add, isDev, Dev.add, Dev.view]

theorem createFeatureInstance_views (start : Ptr) (finfo : FeatureInfo) (vecCnt : Nat) :
    Views s (createFeatureInstance pci ans start finfo vecCnt)
      (s.add finfo.featureIndex start) := by
  apply Triple.get_bind
  intro w same
  refine Triple.bind (fun _ after => after.seen = s) (Triple.throwIf (fun _ _ _ => trivial) ?_)
    fun _ => Triple.bind (fun _ after => after.seen = s)
      (Triple.runIf (fun _ => access_quiet _ _ (· = s)) fun _ _ holds => holds) fun _ =>
      buildInfoAddSubFeature_views finfo start vecCnt
  rintro - _ rfl
  exact same

theorem buildInfoCommitDev_views : Views s (buildInfoCommitDev ans) s.commit := by
  apply Triple.get_bind
  intro w same
  subst same
  cases here : w.featureDev with
  | none =>
      apply Triple.pure
      rintro _ rfl
      simp [Walk.seen, Seen.commit, here]
  | some dev =>
      refine Triple.ite (fun _ => Triple.modify ?_) fun _ => Triple.throw fun _ _ => trivial
      rintro _ rfl
      simp [Walk.seen, Seen.commit, here]

theorem buildInfoCreateDev_views (kind : DevKind) (fiu : Ptr) :
    Views s (buildInfoCreateDev ans kind fiu) (s.begin kind fiu) := by
  refine Triple.bind _ buildInfoCommitDev_views fun _ => Triple.bind (fun _ w => w.seen = s.commit)
    (Triple.throwIf (fun _ _ _ => trivial) fun _ _ same => same) fun _ => ?_
  refine Triple.bind (fun _ w => w.seen = s.begin kind fiu) (Triple.modify ?_) fun _ => ?_
  · intro w same
    simp only [Walk.seen, Seen.commit, Seen.mk.injEq] at same
    simp [Walk.seen, Seen.begin, Seen.commit, Dev.view, same]
  refine Triple.bind (fun _ w => w.seen = s.begin kind fiu)
    (Triple.throwIf (fun _ _ _ => trivial) fun _ _ same => same) fun _ => ?_
  refine Triple.bind (fun _ w => w.seen = s.begin kind fiu) (Triple.modify ?_) fun _ => ?_
  · intro w same
    rw [← same]
    cases here : w.featureDev <;> simp [Walk.seen, Dev.view, here]
  refine Triple.bind (fun _ w => w.seen = s.begin kind fiu)
    (Triple.throwIf (fun _ _ _ => trivial) fun _ _ same => same) fun _ => ?_
  refine Triple.bind (fun _ w => w.seen = s.begin kind fiu) (Triple.modify ?_) fun _ =>
    Triple.throwIf (fun _ _ _ => trivial) fun _ _ same => same
  intro w same
  rw [← same]
  cases here : w.featureDev <;> simp [Walk.seen, Dev.view, here]

theorem parseFeatureFme_views : Views s (parseFeatureFme pci ans hdr) (s.create .fme hdr) := by
  refine Triple.bind _ (buildInfoCreateDev_views .fme hdr) fun _ => Triple.get_bind fun w same => ?_
  refine Triple.bind (fun _ after => after.seen = s.begin .fme hdr)
    (Triple.throwIf (fun _ _ _ => trivial) ?_) fun _ => createFeatureInstance_views _ _ _
  rintro - _ rfl
  exact same

theorem parseFeaturePort_views : Views s (parseFeaturePort pci ans hdr) (s.create .port hdr) :=
  Triple.bind _ (buildInfoCreateDev_views .port hdr) fun _ => createFeatureInstance_views _ _ _

/-- What comes between the attempt to make a device and the look at its result does not
matter. -/
theorem attempt_views {action : WalkM Unit} {t : Seen} (views : Views s action t)
    (between : WalkM Unit) (quiet : Quiet between) :
    Views s (do let ret ← attempt action; between; returnIfError ret) t := by
  refine Triple.bind (fun ret w => ret = .ok () → w.seen = t) ?_ fun ret => ?_
  · refine (attempt_triple views).consequence (fun _ holds => holds) ?_ fun _ _ holds => holds
    rintro ret w holds rfl
    exact holds
  · refine Triple.bind _ (quiet fun seen => ret = .ok () → seen = t) fun _ => ?_
    exact returnIfError_triple (fun w holds ok => holds ok) fun _ _ _ _ => trivial

theorem parseFeaturePortAfu_views :
    Views s (parseFeaturePortAfu pci ans hdr) (s.add portFeatureIdUafu hdr) := by
  refine Triple.get_bind fun w same => Triple.ite (fun _ => ?_) fun _ =>
    Triple.throw fun _ _ => trivial
  refine (attempt_views (createFeatureInstance_views hdr (portUafuInfo w.uafuSize) 0)
    (modify fun w => { w with uafuSize := 0 })
      fun _ => Triple.modify fun _ holds => holds).consequence
    ?_ (fun _ _ holds => holds) fun _ _ holds => holds
  rintro _ rfl
  exact same

theorem parseFeatureAfu_views : Views s (parseFeatureAfu pci ans hdr) (s.addAfu hdr) := by
  apply Triple.get_bind
  intro w same
  subst same
  cases here : w.featureDev with
  | none => exact Triple.throw fun _ _ => trivial
  | some dev =>
      have isDev : w.seen.dev.map Dev.kind = some dev.kind := by simp [Walk.seen, here, Dev.view]
      rw [Seen.addAfu, isDev]
      cases isKind : dev.kind with
      | fme =>
          simp only [isKind]
          rintro _ rfl
          rfl
      | port =>
          simp only [isKind]
          rintro w rfl
          exact parseFeaturePortAfu_views w rfl

theorem featureVectors_quiet (start : Ptr) (finfo : FeatureInfo) :
    Quiet (featureVectors pci start finfo) := by
  intro P
  cases name : finfo.name <;> simp only [featureVectors, name] <;>
    first
    | exact Triple.pure fun _ holds => holds
    | exact readq_bind (Triple.pure fun _ holds => holds)

theorem parseFeatureIrqs_quiet (start : Ptr) (finfo : FeatureInfo) :
    Quiet (parseFeatureIrqs pci start finfo) := by
  intro P
  refine Triple.ite (fun _ => Triple.pure fun _ holds => holds) fun _ => ?_
  exact Triple.bind _ (featureVectors_quiet start finfo P) fun _ => Triple.pure fun _ holds => holds

theorem parsePrivateEntry_views {kind : DevKind} {table : List FeatureInfo} {id : Nat} {t : Seen}
    (absent : table[id]? = none → t = s)
    (present : ∀ finfo, table[id]? = some finfo → t = s.add finfo.featureIndex hdr) :
    Views s (parsePrivateEntry pci ans kind hdr table id) t := by
  simp only [parsePrivateEntry]
  cases entry : table[id]? with
  | none => exact Triple.pure fun _ same => same.trans (absent entry).symm
  | some finfo =>
      rw [present finfo entry]
      exact Triple.bind _ (parseFeatureIrqs_quiet hdr finfo (· = s)) fun _ =>
        Triple.bind _ (checkFeaturesHeader_quiet kind id (· = s)) fun _ =>
        createFeatureInstance_views _ _ _

/-- The tables hold the features at their own indices. -/
theorem fmeFeatures_index {id : Nat} {finfo : FeatureInfo} (entry : fmeFeatures[id]? = some finfo) :
    finfo.featureIndex = id := by
  have small : id < 13 := (List.getElem?_eq_some_iff.mp entry).1
  interval_cases id <;> cases entry <;> rfl

theorem portFeatures_index {uafuSize id : Nat} {finfo : FeatureInfo}
    (entry : (portFeatures uafuSize)[id]? = some finfo) : finfo.featureIndex = id := by
  have small : id < 7 := (List.getElem?_eq_some_iff.mp entry).1
  interval_cases id <;> cases entry <;> rfl

theorem addPrivate_of_kind {kind : DevKind} (isKind : s.dev.map Dev.kind = some kind) (id : Nat) :
    s.addPrivate hdr id = match privateSlot kind id with
      | none => s
      | some slot => s.add slot hdr := by
  cases here : s.dev with
  | none => simp [here] at isKind
  | some dev =>
      simp only [here, Option.map_some, Option.some.injEq] at isKind
      simp only [Seen.addPrivate, here, Option.bind_some, isKind]

theorem parseFeatureFmePrivate_views (isFme : s.dev.map Dev.kind = some .fme) :
    Views s (parseFeatureFmePrivate pci ans hdr)
      (s.addPrivate hdr (pci.csr hdr.bar hdr.offset).id) := by
  refine readq_bind (P := (· = s)) (parsePrivateEntry_views ?_ ?_)
  · intro absent
    have large := Nat.not_lt.mpr (List.getElem?_eq_none_iff.mp absent)
    simp only [addPrivate_of_kind isFme, privateSlot]
    rw [if_neg (show ¬ (pci.csr hdr.bar hdr.offset).id < 13 from large)]
  · intro finfo entry
    have small := (List.getElem?_eq_some_iff.mp entry).1
    simp only [addPrivate_of_kind isFme, privateSlot, fmeFeatures_index entry]
    rw [if_pos (show (pci.csr hdr.bar hdr.offset).id < 13 from small)]

theorem parseFeaturePortPrivate_views (isPort : s.dev.map Dev.kind = some .port) :
    Views s (parseFeaturePortPrivate pci ans hdr)
      (s.addPrivate hdr (pci.csr hdr.bar hdr.offset).id) := by
  refine readq_bind (P := (· = s)) (Triple.get_bind fun current same => ?_)
  refine (parsePrivateEntry_views (s := s) ?_ ?_).consequence ?_ (fun _ _ holds => holds)
    fun _ _ holds => holds
  · intro absent
    have large := Nat.not_lt.mpr (List.getElem?_eq_none_iff.mp absent)
    simp only [addPrivate_of_kind isPort, privateSlot]
    rw [if_neg (show ¬ portFeatureIndex (pci.csr hdr.bar hdr.offset).id < 7 from large)]
  · intro finfo entry
    have small := (List.getElem?_eq_some_iff.mp entry).1
    simp only [addPrivate_of_kind isPort, privateSlot, portFeatures_index entry]
    rw [if_pos (show portFeatureIndex (pci.csr hdr.bar hdr.offset).id < 7 from small)]
  · rintro _ rfl
    exact same

theorem parseFeaturePrivate_views : Views s (parseFeaturePrivate pci ans hdr)
    (s.addPrivate hdr (pci.csr hdr.bar hdr.offset).id) := by
  refine Triple.bind _ (readq_quiet (some hdr) (· = s)) fun _ => Triple.get_bind fun w same => ?_
  subst same
  cases here : w.featureDev with
  | none => exact Triple.throw fun _ _ => trivial
  | some dev =>
      have isDev : w.seen.dev.map Dev.kind = some dev.kind := by simp [Walk.seen, here, Dev.view]
      cases isKind : dev.kind with
      | fme =>
          simp only [isKind]
          rintro w rfl
          exact parseFeatureFmePrivate_views (isKind ▸ isDev) w rfl
      | port =>
          simp only [isKind]
          rintro w rfl
          exact parseFeaturePortPrivate_views (isKind ▸ isDev) w rfl

theorem parseFiuDevice_views (header : Csr) : Views s (parseFiuDevice pci ans hdr header)
    (s.addDevice hdr header) := by
  refine Triple.ite (fun isFme => ?_) fun notFme => Triple.ite (fun isPort => ?_) fun notPort => ?_
  · rw [Seen.addDevice, if_pos isFme]
    refine attempt_views parseFeatureFme_views (do
      checkFeaturesHeader pci hdr .fme 0
      modify fun w => { w with pfmeHdr := some hdr }) fun P => ?_
    exact Triple.bind _ (checkFeaturesHeader_quiet .fme 0 P) fun _ =>
      Triple.modify fun _ holds => holds
  · rw [Seen.addDevice, if_neg notFme, if_pos isPort]
    refine attempt_views parseFeaturePort_views (do
      checkFeaturesHeader pci hdr .port 0
      enablePortUafu pci hdr) fun P => ?_
    exact Triple.bind _ (checkFeaturesHeader_quiet .port 0 P) fun _ => enablePortUafu_quiet P
  · rw [Seen.addDevice, if_neg notFme, if_neg notPort]
    exact Triple.pure fun _ same => same

theorem parseFeatureFiu_views : Views s (parseFeatureFiu pci ans hdr)
    (s.addFiu pci hdr (pci.csr hdr.bar hdr.offset)) := by
  refine Triple.bind (fun _ w => w.seen = { s with fius := s.fius + 1 })
    (Triple.modify ?_) fun _ => ?_
  · rintro w rfl
    rfl
  refine readq_bind (P := (· = _))
    (Triple.bind _ (parseFiuDevice_views _) fun _ => readq_bind (P := (· = _)) ?_)
  refine Triple.runIf (fun more => ?_) fun last w same => ?_
  · rw [Seen.addFiu, if_neg (show pci.nextAfu hdr ≠ 0 from more)]
    exact parseFeatureAfu_views
  · rw [Seen.addFiu, if_pos (show pci.nextAfu hdr = 0 from not_not.mp last)]
    exact same

theorem parseFeature_views : Views s (parseFeature pci ans hdr) (s.after pci hdr) := by
  refine readq_bind (P := (· = s)) (Triple.ite (fun isAfu => ?_) fun notAfu =>
    Triple.ite (fun isPrivate => ?_) fun notPrivate =>
      Triple.ite (fun isFiu => ?_) fun notFiu => ?_)
  · rw [Seen.after, if_pos isAfu]
    exact parseFeatureAfu_views
  · rw [Seen.after, if_neg notAfu, if_pos isPrivate]
    exact parseFeaturePrivate_views
  · rw [Seen.after, if_neg notAfu, if_neg notPrivate, if_pos isFiu]
    exact parseFeatureFiu_views
  · rw [Seen.after, if_neg notAfu, if_neg notPrivate, if_neg notFiu]
    exact access_quiet _ _ (· = s)

theorem parseFeatureListRound_views (start port : Nat) :
    Triple (fun w => w = w₀) (parseFeatureListRound pci ans start port)
      (fun pc w => (∀ result, pc ≠ .finished result) ∧ w.seen =
        if start < pci.len w₀.currentBar then w₀.seen.after pci ⟨w₀.currentBar, start⟩ else w₀.seen)
      fun _ _ => True := by
  apply Triple.get_bind
  intro w same
  subst same
  refine Triple.ite (fun more => ?_) fun last => Triple.pure ?_
  · rw [if_pos more]
    refine Triple.bind (fun _ after => after.seen = w.seen)
      (Triple.throwIf (fun _ _ _ => trivial) ?_) fun _ => ?_
    · rintro - _ rfl
      rfl
    refine Triple.bind _ parseFeature_views fun _ => readq_bind (P := (· = _)) ?_
    exact Triple.ite (fun _ => Triple.pure fun _ same => ⟨nofun, same⟩) fun _ =>
      Triple.pure fun _ same => ⟨nofun, same⟩
  · rintro _ rfl
    exact ⟨nofun, (if_neg last).symm⟩

theorem parseStartFrom_quiet (bar : Nat) : Quiet (parseStartFrom ans bar) := by
  intro P
  refine Triple.get_bind fun w holds => Triple.ite (fun _ => Triple.modify ?_) fun _ =>
    Triple.ite (fun _ => Triple.modify ?_) fun _ => Triple.throw fun _ _ => trivial
  · rintro _ rfl
    exact holds
  · rintro _ rfl
    exact holds

/-- The walk goes on with the same view, or has committed the last device and is over. -/
def GoesOn (s : Seen) (pc : Pc) (w : Walk) : Prop :=
  ((∀ result, pc ≠ .finished result) ∧ w.seen = s) ∨ (pc = .finished (.ok ()) ∧ w.seen = s.commit)

theorem finish_views :
    Triple (fun w => w.seen = s) (finish ans) (GoesOn s) fun _ _ => True :=
  Triple.bind _ buildInfoCommitDev_views fun _ => Triple.pure fun _ same => .inr ⟨rfl, same⟩

theorem parsePortsRound_views (i : Nat) :
    Triple (fun w => w.seen = s) (parsePortsRound pci ans i) (GoesOn s) fun _ _ => True := by
  apply Triple.get_bind
  intro w same
  have weaken : ∀ {program : WalkM Pc},
      Triple (fun w => w.seen = s) program (GoesOn s) (fun _ _ => True) →
      Triple (fun current => current = w) program (GoesOn s) fun _ _ => True :=
    fun triple => triple.consequence (fun _ equal => equal ▸ same) (fun _ _ holds => holds)
      fun _ _ holds => holds
  apply weaken
  cases w.pfmeHdr with
  | none => exact finish_views
  | some fmeHdr =>
      refine Triple.ite (fun _ => Triple.bind _ (readq_quiet _ (· = s)) fun port => ?_)
        fun _ => finish_views
      refine Triple.ite (fun _ => ?_) fun _ => finish_views
      exact Triple.bind _ (parseStartFrom_quiet _ (· = s)) fun _ =>
        Triple.pure fun _ same => .inl ⟨nofun, same⟩

/-- What the walk has seen once the header it stands at is parsed. -/
def Walk.listed (pci : Pci) (w : Walk) : Seen :=
  match w.pc with
  | .scan start _ =>
      if start < pci.len w.currentBar then w.seen.after pci ⟨w.currentBar, start⟩ else w.seen
  | _ => w.seen

/-- The driver has not stopped with an error. -/
def Walk.Running (w : Walk) : Prop := ∀ stop, w.pc ≠ .finished (.error stop)

/-- A walk that has succeeded has no device left to commit. -/
def Walk.Settled (w : Walk) : Prop := w.pc = .finished (.ok ()) → w.featureDev = none

theorem round_views (pci : Pci) (ans : Answers) (running : w₀.Running) (settled : w₀.Settled) :
    Triple (fun w => w = w₀) (round pci ans w₀) (GoesOn (w₀.listed pci)) fun _ _ => True := by
  simp only [round, Walk.listed]
  cases here : w₀.pc with
  | scan start port =>
      exact (parseFeatureListRound_views start port).consequence (fun _ holds => holds)
        (fun _ _ holds => .inl holds) fun _ _ holds => holds
  | ports i =>
      refine (parsePortsRound_views i).consequence ?_ (fun _ _ holds => holds)
        fun _ _ holds => holds
      rintro _ rfl
      rfl
  | finished result =>
      cases result with
      | error stop => exact absurd here (running stop)
      | ok =>
          apply Triple.pure
          rintro _ rfl
          refine .inr ⟨rfl, ?_⟩
          simp [Walk.seen, Seen.commit, settled here]

theorem advance_views {w : Walk} (running : w.Running) (settled : w.Settled)
    (runningAfter : (advance pci ans w).Running) :
    GoesOn (w.listed pci) (advance pci ans w).pc (advance pci ans w) := by
  have triple := round_views pci ans running settled
  simp only [advance] at runningAfter ⊢
  cases result : round pci ans w w with
  | ok pc after =>
      have goes := triple.of_ok rfl result
      exact goes
  | error stop after =>
      rw [result] at runningAfter
      exact absurd rfl (runningAfter stop)

end Effect

/-! ## Headers that are entered properly -/

/-- A header is entered into a slot of its own kind that is free, in the device of the
FIU it follows. -/
structure HeaderProper (pci : Pci) (s : Seen) (hdr : Ptr) (header : Csr) : Prop where
  /-- A private feature of the FME has an id other than 0 that is new, and no other FIU
  has come in between. -/
  fme : header.type = featureTypePrivate → ∀ dev, s.dev = some dev → dev.kind = .fme →
    header.id < 13 →
    header.id ≠ 0 ∧ header.id ∉ dev.features.map Prod.fst ∧ s.fius = dev.fius
  /-- A private feature of a port has an id that the driver knows in full, not only in
  its low bits, and that is new, and no other FIU has come in between. -/
  port : header.type = featureTypePrivate → ∀ dev, s.dev = some dev → dev.kind = .port →
    portFeatureIndex header.id < 7 →
    (0x10 ≤ header.id ∧ header.id ≤ 0x14) ∧
      portFeatureIndex header.id ∉ dev.features.map Prod.fst ∧ s.fius = dev.fius
  /-- The AFU in the list is the only one of its port, and no other FIU has come in
  between. -/
  afu : header.type = featureTypeAfu → ∀ dev, s.dev = some dev → dev.kind = .port →
    portFeatureIdUafu ∉ dev.features.map Prod.fst ∧ s.fius = dev.fius
  /-- The AFU that a port's header leads to is an AFU. -/
  portAfu : header.type = featureTypeFiu → header.id = featureFiuIdPort → pci.nextAfu hdr ≠ 0 →
    (pci.csr hdr.bar (hdr.offset + pci.nextAfu hdr)).type = featureTypeAfu
  /-- An FIU of an unknown kind leads to no AFU while a port is being built. -/
  otherAfu : header.type = featureTypeFiu → header.id ≠ featureFiuIdFme →
    header.id ≠ featureFiuIdPort → ∀ dev, s.dev = some dev → dev.kind = .port →
    pci.nextAfu hdr = 0

/-- The step enters its header properly. -/
def Proper (pci : Pci) (w : Walk) : Prop :=
  match w.pc with
  | .scan start _ => start < pci.len w.currentBar →
      HeaderProper pci w.seen ⟨w.currentBar, start⟩ (pci.csr w.currentBar start)
  | _ => True

instance (pci : Pci) (s : Seen) (hdr : Ptr) (header : Csr) :
    Decidable (HeaderProper pci s hdr header) := by
  refine @decidable_of_iff _ (_ ∧ _ ∧ _ ∧ _ ∧ _)
    ⟨fun ⟨fme, port, afu, portAfu, otherAfu⟩ => ⟨fme, port, afu, portAfu, otherAfu⟩,
    fun proper => ⟨proper.fme, proper.port, proper.afu, proper.portAfu, proper.otherAfu⟩⟩ ?_
  repeat' refine @instDecidableAnd _ _ ?_ ?_
  all_goals infer_instance

theorem proper_iff {pci : Pci} {w : Walk} :
    Proper pci w ↔ ∀ start, w.header? = some start → start < pci.len w.currentBar →
      HeaderProper pci w.seen ⟨w.currentBar, start⟩ (pci.csr w.currentBar start) := by
  rw [Proper, Walk.header?]
  cases w.pc <;> simp

instance (pci : Pci) (w : Walk) : Decidable (Proper pci w) :=
  decidable_of_iff _ proper_iff.symm

/-- Every device, committed or not, is meaningful. -/
def Seen.Meaningful (pci : Pci) (s : Seen) : Prop :=
  ∀ dev ∈ s.dev.toList ++ s.committed, dev.Meaningful pci

section Meaning

variable {pci : Pci} {s : Seen} {hdr : Ptr}

/-- What an entry of a slot needs. -/
theorem Dev.meaningful_add {dev : Dev} {slot : Nat} {entry : Entry} :
    (dev.add slot entry).Meaningful pci ↔ dev.Meaningful pci ∧
      slot ∉ dev.features.map Prod.fst ∧ entry.fius = dev.fius ∧
      Designates pci dev slot entry.header := by
  constructor
  · intro meaningful
    obtain ⟨free, once⟩ := List.nodup_cons.mp meaningful.once
    obtain ⟨fius, designates⟩ := meaningful.entries slot entry List.mem_cons_self
    exact ⟨⟨once, fun slot entry member => meaningful.entries slot entry
      (List.mem_cons_of_mem _ member)⟩, free, fius, designates⟩
  · rintro ⟨meaningful, free, fius, designates⟩
    refine ⟨List.nodup_cons.mpr ⟨free, meaningful.once⟩, fun other entry' member => ?_⟩
    rcases List.mem_cons.mp member with same | member
    · cases same
      exact ⟨fius, designates⟩
    · exact meaningful.entries other entry' member

theorem meaningful_commit : s.commit.Meaningful pci ↔ s.Meaningful pci := by
  simp [Seen.Meaningful, Seen.commit]

theorem meaningful_add {dev : Dev} (here : s.dev = some dev) (slot : Nat) :
    (s.add slot hdr).Meaningful pci ↔ s.Meaningful pci ∧ slot ∉ dev.features.map Prod.fst ∧
      s.fius = dev.fius ∧ Designates pci dev slot hdr := by
  simp only [Seen.Meaningful, Seen.add, here, Option.map_some, Option.toList_some,
    List.singleton_append, List.forall_mem_cons, Dev.meaningful_add]
  tauto

theorem meaningful_addAfu : (s.addAfu hdr).Meaningful pci ↔ s.Meaningful pci ∧
    ∀ dev, s.dev = some dev → dev.kind = .port →
      portFeatureIdUafu ∉ dev.features.map Prod.fst ∧ s.fius = dev.fius ∧
        (pci.csr hdr.bar hdr.offset).type = featureTypeAfu := by
  cases here : s.dev with
  | none => simp [Seen.addAfu, here]
  | some dev =>
      cases isKind : dev.kind with
      | fme => simp [Seen.addAfu, here, isKind]
      | port =>
          have isPort : s.dev.map Dev.kind = some .port := by simp [here, isKind]
          rw [Seen.addAfu, if_pos isPort, meaningful_add here]
          simp [Designates, isKind, portFeatureIdUafu]

theorem designates_fme {dev : Dev} (isFme : dev.kind = .fme)
    (isPrivate : (pci.csr hdr.bar hdr.offset).type = featureTypePrivate) :
    Designates pci dev (pci.csr hdr.bar hdr.offset).id hdr ↔
      (pci.csr hdr.bar hdr.offset).id ≠ 0 := by
  by_cases zero : (pci.csr hdr.bar hdr.offset).id = 0
  · simp [Designates, zero, isPrivate, featureTypePrivate, featureTypeFiu]
  · simp [Designates, zero, isFme, isPrivate]

theorem designates_port {dev : Dev} (isPort : dev.kind = .port)
    (isPrivate : (pci.csr hdr.bar hdr.offset).type = featureTypePrivate)
    (known : portFeatureIndex (pci.csr hdr.bar hdr.offset).id < 7) :
    Designates pci dev (portFeatureIndex (pci.csr hdr.bar hdr.offset).id) hdr ↔
      0x10 ≤ (pci.csr hdr.bar hdr.offset).id ∧ (pci.csr hdr.bar hdr.offset).id ≤ 0x14 := by
  have low : ∀ id, portFeatureIndex id = id % 16 + 1 := fun id => by
    rw [portFeatureIndex, show 0x000f = 2 ^ 4 - 1 from rfl, Nat.and_two_pow_sub_one_eq_mod]
  simp only [Designates, low, Nat.add_eq_zero_iff, Nat.one_ne_zero, and_false, if_false, isPort,
    isPrivate, true_and, portFeatureIdUafu, featureTypePrivate, featureTypeAfu] at known ⊢
  split <;> omega

theorem meaningful_addPrivate
    (isPrivate : (pci.csr hdr.bar hdr.offset).type = featureTypePrivate) :
    (s.addPrivate hdr (pci.csr hdr.bar hdr.offset).id).Meaningful pci ↔ s.Meaningful pci ∧
      (∀ dev, s.dev = some dev → dev.kind = .fme → (pci.csr hdr.bar hdr.offset).id < 13 →
        (pci.csr hdr.bar hdr.offset).id ≠ 0 ∧
          (pci.csr hdr.bar hdr.offset).id ∉ dev.features.map Prod.fst ∧ s.fius = dev.fius) ∧
      (∀ dev, s.dev = some dev → dev.kind = .port →
        portFeatureIndex (pci.csr hdr.bar hdr.offset).id < 7 →
        (0x10 ≤ (pci.csr hdr.bar hdr.offset).id ∧ (pci.csr hdr.bar hdr.offset).id ≤ 0x14) ∧
          portFeatureIndex (pci.csr hdr.bar hdr.offset).id ∉ dev.features.map Prod.fst ∧
          s.fius = dev.fius) := by
  cases here : s.dev with
  | none => simp [Seen.addPrivate, here]
  | some dev =>
      cases isKind : dev.kind with
      | fme =>
          have kind : s.dev.map Dev.kind = some .fme := by simp [here, isKind]
          rw [addPrivate_of_kind kind, privateSlot]
          by_cases known : (pci.csr hdr.bar hdr.offset).id < 13
          · simp only [if_pos known, meaningful_add here, designates_fme isKind isPrivate]
            simp [isKind, known]
            tauto
          · simp [isKind, known]
      | port =>
          have kind : s.dev.map Dev.kind = some .port := by simp [here, isKind]
          rw [addPrivate_of_kind kind, privateSlot]
          by_cases known : portFeatureIndex (pci.csr hdr.bar hdr.offset).id < 7
          · simp only [if_pos known, meaningful_add here, designates_port isKind isPrivate known]
            simp [isKind, known]
            tauto
          · simp [isKind, known]

theorem meaningful_create (kind : DevKind)
    (isFiu : (pci.csr hdr.bar hdr.offset).type = featureTypeFiu)
    (isKind : (pci.csr hdr.bar hdr.offset).id = kind.fiuId) :
    (s.create kind hdr).Meaningful pci ↔ s.Meaningful pci := by
  have empty : (s.begin kind hdr).Meaningful pci ↔ s.Meaningful pci := by
    have noSlots : Dev.Meaningful pci ⟨kind, hdr, s.fius, none, true, [], 0⟩ := ⟨.nil, nofun⟩
    rw [← meaningful_commit]
    simp [Seen.Meaningful, Seen.begin, Seen.commit, noSlots]
  rw [Seen.create, meaningful_add rfl, empty]
  simp [Seen.begin, Seen.commit, Designates, isFiu, isKind]

/-- The current device began at an FIU header that has been met. -/
def Seen.Begun (s : Seen) : Prop := ∀ dev, s.dev = some dev → dev.fius ≤ s.fius

theorem Seen.Begun.add (begun : s.Begun) (slot : Nat) : (s.add slot hdr).Begun := by
  intro dev here
  obtain ⟨old, wasHere, rfl⟩ := Option.map_eq_some_iff.mp here
  exact begun old wasHere

theorem Seen.Begun.addAfu (begun : s.Begun) : (s.addAfu hdr).Begun := by
  rw [Seen.addAfu]
  split
  · exact begun.add _
  · exact begun

theorem Seen.Begun.addDevice {header : Csr} (begun : s.Begun) : (s.addDevice hdr header).Begun := by
  have empty : ∀ kind, (s.begin kind hdr).Begun := by
    rintro kind _ ⟨rfl⟩
    exact Nat.le_refl _
  rw [Seen.addDevice]
  split
  · exact (empty .fme).add 0
  · split
    · exact (empty .port).add 0
    · exact begun

theorem Seen.Begun.after (begun : s.Begun) : (s.after pci hdr).Begun := by
  have next : Seen.Begun { s with fius := s.fius + 1 } :=
    fun dev here => Nat.le_succ_of_le (begun dev here)
  rw [Seen.after]
  split
  · exact begun.addAfu
  · split
    · rw [Seen.addPrivate]
      split
      · exact begun
      · exact begun.add _
    · split
      · rw [Seen.addFiu]
        split
        · exact next.addDevice
        · exact next.addDevice.addAfu
      · exact begun

theorem addAfu_create_fme (afu : Ptr) : (s.create .fme hdr).addAfu afu = s.create .fme hdr := rfl

theorem meaningful_addAfu_create_port (afu : Ptr) :
    ((s.create .port hdr).addAfu afu).Meaningful pci ↔ (s.create .port hdr).Meaningful pci ∧
      (pci.csr afu.bar afu.offset).type = featureTypeAfu := by
  rw [meaningful_addAfu]
  simp [Seen.create, Seen.begin, Seen.commit, Seen.add, Dev.add, portFeatureIdUafu]

theorem meaningful_addFiu (begun : s.Begun)
    (isFiu : (pci.csr hdr.bar hdr.offset).type = featureTypeFiu) :
    (s.addFiu pci hdr (pci.csr hdr.bar hdr.offset)).Meaningful pci ↔ s.Meaningful pci ∧
      ((pci.csr hdr.bar hdr.offset).id = featureFiuIdPort → pci.nextAfu hdr ≠ 0 →
        (pci.csr hdr.bar (hdr.offset + pci.nextAfu hdr)).type = featureTypeAfu) ∧
      ((pci.csr hdr.bar hdr.offset).id ≠ featureFiuIdFme →
        (pci.csr hdr.bar hdr.offset).id ≠ featureFiuIdPort →
        ∀ dev, s.dev = some dev → dev.kind = .port → pci.nextAfu hdr = 0) := by
  let next : Seen := { s with fius := s.fius + 1 }
  have same : next.Meaningful pci ↔ s.Meaningful pci := Iff.rfl
  rw [Seen.addFiu, Seen.addDevice]
  by_cases isFme : (pci.csr hdr.bar hdr.offset).id = featureFiuIdFme
  · have create := (meaningful_create (s := next) .fme isFiu isFme).trans same
    have notPort : (pci.csr hdr.bar hdr.offset).id ≠ featureFiuIdPort := by
      rw [isFme]
      decide
    simp only [if_pos isFme, addAfu_create_fme, ite_self]
    exact create.trans ⟨fun meaningful => ⟨meaningful, fun isPort => absurd isPort notPort,
      fun other => absurd isFme other⟩, And.left⟩
  by_cases isPort : (pci.csr hdr.bar hdr.offset).id = featureFiuIdPort
  · have create := (meaningful_create (s := next) .port isFiu isPort).trans same
    rw [if_neg isFme, if_pos isPort]
    by_cases leads : pci.nextAfu hdr = 0
    · rw [if_pos leads]
      exact create.trans ⟨fun meaningful => ⟨meaningful, fun _ other => absurd leads other,
        fun _ other => absurd isPort other⟩, And.left⟩
    · rw [if_neg leads, meaningful_addAfu_create_port, create]
      exact and_congr Iff.rfl ⟨fun isAfu => ⟨fun _ _ => isAfu, fun _ other => absurd isPort other⟩,
        fun proper => proper.1 isPort leads⟩
  · rw [if_neg isFme, if_neg isPort]
    by_cases leads : pci.nextAfu hdr = 0
    · rw [if_pos leads]
      exact same.trans ⟨fun meaningful => ⟨meaningful, fun isPort' => absurd isPort' isPort,
        fun _ _ _ _ _ => leads⟩, And.left⟩
    · -- the current device, if any, was begun at an earlier FIU
      rw [if_neg leads, meaningful_addAfu]
      refine and_congr same ⟨fun proper => ⟨fun isPort' => absurd isPort' isPort,
        fun _ _ dev here isPort => ?_⟩, fun proper dev here isPort' => ?_⟩
      · have equal : s.fius + 1 = dev.fius := (proper dev here isPort).2.1
        have before := begun dev here
        omega
      · exact absurd (proper.2 isFme isPort dev here isPort') leads

theorem meaningful_after (begun : s.Begun) : (s.after pci hdr).Meaningful pci ↔
    s.Meaningful pci ∧ HeaderProper pci s hdr (pci.csr hdr.bar hdr.offset) := by
  rw [Seen.after]
  by_cases isAfu : (pci.csr hdr.bar hdr.offset).type = featureTypeAfu
  · have notPrivate : (pci.csr hdr.bar hdr.offset).type ≠ featureTypePrivate := by
      rw [isAfu]
      decide
    have notFiu : (pci.csr hdr.bar hdr.offset).type ≠ featureTypeFiu := by
      rw [isAfu]
      decide
    rw [if_pos isAfu, meaningful_addAfu]
    refine and_congr Iff.rfl ⟨fun proper => ?_, fun proper dev here isPort => ?_⟩
    · refine ⟨fun other => absurd other notPrivate, fun other => absurd other notPrivate, ?_,
        fun other => absurd other notFiu, fun other => absurd other notFiu⟩
      intro _ dev here isPort
      obtain ⟨free, fius, -⟩ := proper dev here isPort
      exact ⟨free, fius⟩
    · obtain ⟨free, fius⟩ := proper.afu isAfu dev here isPort
      exact ⟨free, fius, isAfu⟩
  by_cases isPrivate : (pci.csr hdr.bar hdr.offset).type = featureTypePrivate
  · have notFiu : (pci.csr hdr.bar hdr.offset).type ≠ featureTypeFiu := by
      rw [isPrivate]
      decide
    rw [if_neg isAfu, if_pos isPrivate, meaningful_addPrivate isPrivate]
    exact and_congr Iff.rfl ⟨fun proper => ⟨fun _ => proper.1, fun _ => proper.2,
      fun other => absurd other isAfu, fun other => absurd other notFiu,
      fun other => absurd other notFiu⟩, fun proper =>
        ⟨proper.fme isPrivate, proper.port isPrivate⟩⟩
  by_cases isFiu : (pci.csr hdr.bar hdr.offset).type = featureTypeFiu
  · rw [if_neg isAfu, if_neg isPrivate, if_pos isFiu, meaningful_addFiu begun isFiu]
    exact and_congr Iff.rfl ⟨fun proper => ⟨fun other => absurd other isPrivate,
      fun other => absurd other isPrivate, fun other => absurd other isAfu, fun _ => proper.1,
      fun _ => proper.2⟩, fun proper => ⟨proper.portAfu isFiu, proper.otherAfu isFiu⟩⟩
  · rw [if_neg isAfu, if_neg isPrivate, if_neg isFiu]
    exact ⟨fun meaningful => ⟨meaningful, fun other => absurd other isPrivate,
      fun other => absurd other isPrivate, fun other => absurd other isAfu,
      fun other => absurd other isFiu, fun other => absurd other isFiu⟩, And.left⟩

end Meaning

/-! ## Runs -/

section Runs

variable {pci : Pci} {ans : Answers} {w : Walk} {uafuSize : Nat}

theorem listed_meaningful (begun : w.seen.Begun) :
    (w.listed pci).Meaningful pci ↔ w.seen.Meaningful pci ∧ Proper pci w := by
  rw [Walk.listed, Proper]
  split
  case h_1 start port _ =>
    by_cases more : start < pci.len w.currentBar
    · rw [if_pos more, meaningful_after begun]
      simp only [more, forall_const]
    · rw [if_neg more]
      simp only [more, false_implies, and_true]
  case h_2 => simp only [and_true]

theorem listed_begun (begun : w.seen.Begun) : (w.listed pci).Begun := by
  rw [Walk.listed]
  split
  · split
    · exact begun.after
    · exact begun
  · exact begun

/-- What holds between the rounds of any walk. -/
structure SlotInv (w : Walk) : Prop where
  settled : w.Settled
  begun : w.Running → w.seen.Begun

theorem running_before (running : (advance pci ans w).Running) : w.Running := by
  intro stop failed
  rw [advance_failed pci ans failed] at running
  exact running stop failed

theorem SlotInv.advance (inv : SlotInv w) : SlotInv (advance pci ans w) := by
  by_cases running : (Enum.advance pci ans w).Running
  · have before := running_before running
    have goesOn := advance_views before inv.settled running
    have begun : (w.listed pci).Begun := listed_begun (inv.begun before)
    rcases goesOn with ⟨more, same⟩ | ⟨-, committed⟩
    · exact ⟨fun ended => absurd ended (more _), fun _ => same ▸ begun⟩
    · have noDev : (Enum.advance pci ans w).featureDev = none :=
        Option.map_eq_none_iff.mp (congrArg Seen.dev committed)
      refine ⟨fun _ => noDev, fun _ dev here => ?_⟩
      rw [committed] at here
      cases here
  · refine ⟨fun ended => absurd (fun stop failed => ?_) running, fun other => absurd other running⟩
    rw [ended] at failed
    cases failed

theorem SlotInv.reach {allowed : Walk → Answers → Prop}
    (reach : (walkSystem pci uafuSize).Reach allowed w) : SlotInv w := by
  apply reach.invariant
  · rintro _ rfl
    exact ⟨nofun, fun _ => nofun⟩
  · rintro state ans _ inv - rfl
    exact inv.advance

/-- A round that does not fail keeps the slots meaningful exactly when it enters its
header properly. -/
theorem advance_meaningful (inv : SlotInv w) (running : (advance pci ans w).Running) :
    (advance pci ans w).seen.Meaningful pci ↔ w.seen.Meaningful pci ∧ Proper pci w := by
  have before := running_before running
  rw [← listed_meaningful (inv.begun before)]
  rcases advance_views before inv.settled running with ⟨-, same⟩ | ⟨-, committed⟩
  · rw [same]
  · rw [committed, meaningful_commit]

/-- The devices that a walk has registered. -/
theorem seen_meaningful (ended : w.featureDev = none) :
    w.seen.Meaningful pci ↔ ∀ dev ∈ w.committed, dev.Meaningful pci := by
  have same : ∀ dev : Dev, dev.view.Meaningful pci ↔ dev.Meaningful pci :=
    fun dev => ⟨fun holds => ⟨holds.once, holds.entries⟩, fun holds => ⟨holds.once, holds.entries⟩⟩
  simp only [Seen.Meaningful, Walk.seen, ended, Option.map_none, Option.toList_none,
    List.nil_append, List.forall_mem_map, same]

theorem meaningful_of_proper (reach : (walkSystem pci uafuSize).Reach (fun w _ => Proper pci w) w)
    (running : w.Running) : w.seen.Meaningful pci := by
  induction reach with
  | init start =>
      cases start
      exact nofun
  | step earlier proper taken ih =>
      cases taken
      exact (advance_meaningful (.reach earlier) running).mpr ⟨ih (running_before running), proper⟩

theorem proper_of_meaningful (reach : (walkSystem pci uafuSize).Reachable w) (running : w.Running)
    (meaningful : w.seen.Meaningful pci) :
    (walkSystem pci uafuSize).Reach (fun w _ => Proper pci w) w := by
  induction reach with
  | init start => exact .init start
  | step earlier _ taken ih =>
      cases taken
      obtain ⟨before, proper⟩ := (advance_meaningful (.reach earlier) running).mp meaningful
      exact .step (ih (running_before running) before) proper rfl

end Runs

/-- When the walk over a device succeeds, the slots of every registered device mean what
they say exactly if every header on the way has been entered properly. -/
theorem slots_meaningful_iff (pci : Pci) (uafuSize : Nat) {w : Walk}
    (reach : (walkSystem pci uafuSize).Reachable w) (success : w.pc = .finished (.ok ())) :
    (∀ dev ∈ w.committed, dev.Meaningful pci) ↔
      (walkSystem pci uafuSize).Reach (fun w _ => Proper pci w) w := by
  have running : w.Running := by
    intro stop failed
    rw [success] at failed
    cases failed
  have inv : SlotInv w := .reach reach
  rw [← seen_meaningful (inv.settled success)]
  exact ⟨proper_of_meaningful reach running, fun proper => meaningful_of_proper proper running⟩

/-- The walk over a whole card registers a port and an FME with meaningful slots. -/
theorem slots_meaningful_iff_card :
    Walk.overCard.committed.map (fun dev =>
        (dev.kind, dev.features.map fun (slot, entry) => (slot, entry.header.offset))) =
      [(.port, [(3, 0x1100), (6, 0x3000), (0, 0x1000)]), (.fme, [(4, 0x100), (0, 0)])] ∧
      ∀ dev ∈ Walk.overCard.committed, dev.Meaningful .card := by
  have proper : System.Along (fun w _ => Proper .card w) (fun w ans => advance .card ans w)
      (.start 0) (List.replicate 6 .granted) := by
    decide +kernel
  have properly : (walkSystem .card 0).Reach (fun w _ => Proper .card w) Walk.overCard :=
    (System.Reach.init rfl).along (fun w _ => Proper .card w) _ (fun _ _ good => ⟨good, rfl⟩) proper
  have reach : (walkSystem .card 0).Reachable Walk.overCard := properly.mono fun _ _ _ => trivial
  have ended : Walk.overCard.pc = .finished (.ok ()) := by
    decide +kernel
  exact ⟨by decide +kernel, (slots_meaningful_iff .card 0 reach ended).mpr properly⟩

/-- A port with a private header whose id is 0x21: only the low bits are looked at, and
the header becomes the port's slot 2, which stands for id 0x11. -/
theorem port_private_id_masked :
    ∃ pci w, (walkSystem pci 0).Reachable w ∧ w.pc = .finished (.ok ()) ∧
      ¬ ∀ dev ∈ w.committed, dev.Meaningful pci := by
  let pci : Pci := .small fun offset =>
    if offset = 0 then 0x4000000001000001 else if offset = 0x100 then 0x3000010000000021 else 0
  let w : Walk := advance pci .granted (advance pci .granted (advance pci .granted (.start 0)))
  have reach : (walkSystem pci 0).Reachable w :=
    .step (.step (.step (.init rfl) trivial rfl) trivial rfl) trivial rfl
  refine ⟨pci, w, reach, by decide, fun meaningful => ?_⟩
  let dev : Dev := ⟨.port, ⟨0, 0⟩, 1, some 0, true, [(2, ⟨⟨0, 0x100⟩, 1⟩), (0, ⟨⟨0, 0⟩, 1⟩)], 0⟩
  have member : dev ∈ w.committed := by decide
  obtain ⟨-, -, -, isId⟩ := (meaningful dev member).entries 2 ⟨⟨0, 0x100⟩, 1⟩ List.mem_cons_self
  exact absurd isId (by decide)

end OpaeXilinx.Enum
