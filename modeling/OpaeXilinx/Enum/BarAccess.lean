import OpaeXilinx.Base.Transition
import OpaeXilinx.Enum.FeatureList

/-!
# Accesses of the walk and the BARs

Which accesses of the walk stay inside the BARs.  The loop over a list checks that a
header fits before it is read, and `create_feature_instance` checks the feature's range;
everything else that is read relies on what the device says, and the step conditions
below spell out what that has to be.
-/

namespace OpaeXilinx.Enum

open OpaeXilinx.Base

/-- The walk over the headers of a device. -/
def walkSystem (pci : Pci) (uafuSize : Nat) : System Walk Answers where
  init w := w = .start uafuSize
  step w ans next := next = advance pci ans w

/-- The access addresses bytes of a mapped BAR; in the strict reading, of the BAR that
the walk is on. -/
def Access.Inside (strict : Prop) (pci : Pci) (regions : List Nat) (a : Access) : Prop :=
  ∃ ptr, a.location = some ptr ∧ ptr.bar ∈ regions ∧ ptr.offset + a.size ≤ pci.len ptr.bar ∧
    (strict → ptr.bar = a.currentBar)

/-- The range of a resource lies in a mapped BAR; in the strict reading, in the BAR that
the walk was on. -/
def Resource.Inside (strict : Prop) (pci : Pci) (regions : List Nat) (r : Resource) : Prop :=
  r.start.bar ∈ regions ∧ r.start.offset + r.size ≤ pci.len r.start.bar ∧
    (strict → r.start.bar = r.currentBar)

/-- Everything the walk has accessed and recorded is inside the BARs. -/
structure InsideBars (strict : Prop) (pci : Pci) (w : Walk) : Prop where
  accesses : ∀ a ∈ w.accesses, a.Inside strict pci w.regions
  resources : ∀ r ∈ w.resources, r.Inside strict pci w.regions

/-- End of the register that `parse_feature_irqs` reads, from the header on. -/
def irqRegisterEnd : FeatureName → Nat
  | .portUint => 16
  | .portErr => 64
  | .fmeGlobalErr => 120
  | _ => 0

/-- The table entry of a private feature. -/
def privateEntry (kind : DevKind) (uafuSize id : Nat) : Option FeatureInfo :=
  match kind with
  | .fme => fmeFeatures[id]?
  | .port => (portFeatures uafuSize)[portFeatureIndex id]?

/-- A new device gets its platform data. -/
def Created (ans : Answers) (w : Walk) : Prop :=
  (w.featureDev ≠ none → ans.deviceAdd = true) ∧ ans.deviceAlloc = true ∧ ans.idAlloc = true ∧
    ans.pdataAlloc = true

/-- `mmio_size` of the port at a header. -/
def Pci.mmioSize (pci : Pci) (hdr : Ptr) : Nat :=
  (pci.csr hdr.bar (hdr.offset + portCapabilityOffset)).mmioSize

/-- `next_afu` of the FIU at a header. -/
def Pci.nextAfu (pci : Pci) (hdr : Ptr) : Nat :=
    (pci.csr hdr.bar (hdr.offset + fiuCsrOffset)).nextAfu

/-- What the device has to say at a header, for the driver to stay in the BAR. -/
structure HeaderSafe (pci : Pci) (ans : Answers) (w : Walk) (hdr : Ptr) (header : Csr) : Prop where
  /-- The interrupt register of a private feature fits. -/
  irqs : header.type = featureTypePrivate → 0 < pci.msixVecCount →
    ∀ dev, w.featureDev = some dev → ∀ finfo,
      privateEntry dev.kind w.uafuSize header.id = some finfo →
      hdr.offset + irqRegisterEnd finfo.name ≤ pci.len hdr.bar
  /-- An FIU of another kind has room for its own header. -/
  other : header.type = featureTypeFiu → header.id ≠ featureFiuIdFme →
    header.id ≠ featureFiuIdPort → hdr.offset + 32 ≤ pci.len hdr.bar
  /-- The AFU that such an FIU gives to the current port starts in the BAR. -/
  otherAfu : header.type = featureTypeFiu → header.id ≠ featureFiuIdFme →
    header.id ≠ featureFiuIdPort → pci.nextAfu hdr ≠ 0 → w.uafuSize ≠ 0 →
    ∀ dev, w.featureDev = some dev → dev.kind = .port →
      hdr.offset + pci.nextAfu hdr ≤ pci.len hdr.bar
  /-- A port has room for its capability and control registers. -/
  port : header.type = featureTypeFiu → header.id = featureFiuIdPort →
    hdr.offset + 64 ≤ pci.len hdr.bar
  /-- A port that is to be reset gets its header slot filled. -/
  reset : header.type = featureTypeFiu → header.id = featureFiuIdPort → pci.mmioSize hdr ≠ 0 →
    Created ans w → ans.resourceAlloc = true ∧ hdr.offset + 112 ≤ pci.len hdr.bar
  /-- The AFU of a port starts in the BAR. -/
  portAfu : header.type = featureTypeFiu → header.id = featureFiuIdPort → pci.mmioSize hdr ≠ 0 →
    Created ans w → pci.nextAfu hdr ≠ 0 → hdr.offset + pci.nextAfu hdr ≤ pci.len hdr.bar

/-- The step stays inside the BARs. -/
def StepSafe (pci : Pci) (w : Walk) (ans : Answers) : Prop :=
  match w.pc with
  | .scan start _ => start + featureHeaderSize ≤ pci.len w.currentBar →
      HeaderSafe pci ans w ⟨w.currentBar, start⟩ (pci.csr w.currentBar start)
  | _ => True

/-- The step does not go back to a BAR that the walk has left: a port of the FME is read
while the walk is on the FME's BAR, and a device that cannot be registered when a port
to be reset is met has its header there too. -/
def StaysOnBar (pci : Pci) (w : Walk) (ans : Answers) : Prop :=
  match w.pc with
  | .scan start _ =>
      let hdr : Ptr := ⟨w.currentBar, start⟩
      (pci.csr w.currentBar start).type = featureTypeFiu →
      (pci.csr w.currentBar start).id = featureFiuIdPort → pci.mmioSize hdr ≠ 0 →
      ans.deviceAdd = false → ∀ dev, w.featureDev = some dev →
      ∀ ptr, dev.ioaddr 0 = some ptr → ptr.bar = w.currentBar
  | .ports i => i < maxFpgaPortNum → ∀ hdr, w.pfmeHdr = some hdr → hdr.bar = w.currentBar
  | .finished _ => True

/-- What is asked of the device that is being built can be decided. -/
instance Option.decidableForallSome {α : Type} (o : Option α) (P : α → Prop)
    [∀ a, Decidable (P a)] : Decidable (∀ a, o = some a → P a) :=
  match o with
  | none => isTrue nofun
  | some a => decidable_of_iff (P a) ⟨fun holds _ same => by cases same; exact holds,
      fun all => all a rfl⟩

instance (ans : Answers) (w : Walk) : Decidable (Created ans w) :=
  inferInstanceAs (Decidable (_ ∧ _))

instance (pci : Pci) (ans : Answers) (w : Walk) (hdr : Ptr) (header : Csr) :
    Decidable (HeaderSafe pci ans w hdr header) := by
  refine @decidable_of_iff _ (_ ∧ _ ∧ _ ∧ _ ∧ _ ∧ _)
    ⟨fun ⟨irqs, other, otherAfu, port, reset, portAfu⟩ =>
      ⟨irqs, other, otherAfu, port, reset, portAfu⟩,
    fun safe => ⟨safe.irqs, safe.other, safe.otherAfu, safe.port, safe.reset, safe.portAfu⟩⟩ ?_
  -- one field at a time, to keep the searches small
  repeat' refine @instDecidableAnd _ _ ?_ ?_
  all_goals infer_instance

/-- The place of the header that the walk is before. -/
def Walk.header? (w : Walk) : Option Nat :=
  match w.pc with
  | .scan start _ => some start
  | _ => none

theorem stepSafe_iff {pci : Pci} {w : Walk} {ans : Answers} :
    StepSafe pci w ans ↔ ∀ start, w.header? = some start →
      start + featureHeaderSize ≤ pci.len w.currentBar →
        HeaderSafe pci ans w ⟨w.currentBar, start⟩ (pci.csr w.currentBar start) := by
  rw [StepSafe, Walk.header?]
  cases w.pc <;> simp

instance (pci : Pci) (w : Walk) (ans : Answers) : Decidable (StepSafe pci w ans) :=
  decidable_of_iff _ stepSafe_iff.symm

instance (pci : Pci) (w : Walk) (ans : Answers) : Decidable (StaysOnBar pci w ans) := by
  unfold StaysOnBar
  cases w.pc with
  | scan start port => exact inferInstanceAs (Decidable (_ = _ → _))
  | ports i => exact inferInstanceAs (Decidable (_ < _ → _))
  | finished result => exact .isTrue trivial

/-! ## Invariants -/

section Invariant

variable {strict : Prop} {pci : Pci} {ans : Answers} {bar : Nat} {kind : DevKind}

/-- The walk is on a BAR, and has stayed inside. -/
structure Scan (strict : Prop) (pci : Pci) (bar : Nat) (w : Walk) : Prop where
  inside : InsideBars strict pci w
  current : w.currentBar = bar
  mapped : bar ∈ w.regions

/-- The header slot of the current device holds a whole port header. -/
def DevKept (pci : Pci) (w : Walk) : Prop :=
  ∀ dev, w.featureDev = some dev → ∃ ptr, dev.ioaddr 0 = some ptr ∧ ptr.bar ∈ w.regions ∧
    ptr.offset + 112 ≤ pci.len ptr.bar

/-- The FME header fits its BAR. -/
def FmeKept (pci : Pci) (w : Walk) : Prop :=
  ∀ ptr, w.pfmeHdr = some ptr → ptr.bar ∈ w.regions ∧ ptr.offset + 208 ≤ pci.len ptr.bar

/-- The invariant between headers. -/
structure Ready (strict : Prop) (pci : Pci) (bar : Nat) (w : Walk) : Prop where
  scan : Scan strict pci bar w
  dev : DevKept pci w
  fme : FmeKept pci w

/-- The rest of the state plays no part. -/
theorem Scan.congr {w after : Walk} (scan : Scan strict pci bar w)
    (accesses : after.accesses = w.accesses) (resources : after.resources = w.resources)
    (current : after.currentBar = w.currentBar) (regions : after.regions = w.regions) :
    Scan strict pci bar after := by
  refine ⟨⟨?_, ?_⟩, current.trans scan.current, regions ▸ scan.mapped⟩
  · rw [accesses, regions]
    exact scan.inside.accesses
  · rw [resources, regions]
    exact scan.inside.resources

/-- An access inside a mapped BAR. -/
theorem Scan.noteMapped {w : Walk} (scan : Scan strict pci bar w) {ptr : Ptr} {size : Nat}
    (mapped : ptr.bar ∈ w.regions) (fits : ptr.offset + size ≤ pci.len ptr.bar)
    (onBar : strict → ptr.bar = w.currentBar) :
    Scan strict pci bar (w.note (some ptr) size) := by
  refine ⟨⟨?_, scan.inside.resources⟩, scan.current, scan.mapped⟩
  intro a member
  rcases List.mem_cons.mp member with rfl | old
  · exact ⟨ptr, rfl, mapped, fits, onBar⟩
  · exact scan.inside.accesses a old

/-- An access inside the BAR that the walk is on. -/
theorem Scan.note {w : Walk} (scan : Scan strict pci bar w) {ptr : Ptr} {size : Nat}
    (onBar : ptr.bar = bar) (fits : ptr.offset + size ≤ pci.len bar) :
    Scan strict pci bar (w.note (some ptr) size) :=
  scan.noteMapped (onBar ▸ scan.mapped) (onBar ▸ fits) fun _ => onBar.trans scan.current.symm

theorem Ready.note {w : Walk} (ready : Ready strict pci bar w) {ptr : Ptr} {size : Nat}
    (onBar : ptr.bar = bar) (fits : ptr.offset + size ≤ pci.len bar) :
    Ready strict pci bar (w.note (some ptr) size) :=
  ⟨ready.scan.note onBar fits, ready.dev, ready.fme⟩

/-- Reading a location keeps what an access to it keeps. -/
theorem readq_keeps {P : Walk → Prop} {fail : Stop → Walk → Prop} {ptr : Ptr}
    (keeps : ∀ w, P w → P (w.note (some ptr) 8)) :
    Triple P (readq pci (some ptr))
    (fun value w => value = pci.csr ptr.bar ptr.offset ∧ P w) fail :=
  fun w holds => ⟨rfl, keeps w holds⟩

/-- The size check is sound for ranges that start in the BAR. -/
theorem fits_of_check {offset size len : Nat} (inside : offset ≤ len) (small : len < 2 ^ 64)
    (passed : ¬ ((len : Int) - offset) % 2 ^ 64 < size) : offset + size ≤ len := by
  rw [Int.emod_eq_of_lt (by omega) (by omega)] at passed
  omega

/-- Header slots after a feature has been added. -/
theorem DevKept.add {w : Walk} (kept : DevKept pci w) {dev : Dev} (here : w.featureDev = some dev)
    {index : Nat} (other : index ≠ 0) (entry : Entry) :
    DevKept pci { w with featureDev := some { dev with
      features := (index, entry) :: dev.features } } := by
  rintro _ ⟨rfl⟩
  obtain ⟨ptr, found, rest⟩ := kept dev here
  refine ⟨ptr, ?_, rest⟩
  have different : (0 == index) = false := beq_false_of_ne (Ne.symm other)
  rw [← found]
  simp [Dev.ioaddr, List.lookup_cons, different]

/-- The state after a feature of a device has been added. -/
structure Added (strict : Prop) (pci : Pci) (bar : Nat) (kind : DevKind) (start : Ptr)
    (finfo : FeatureInfo) (w : Walk) : Prop where
  ready : Ready strict pci bar w
  isKind : w.featureDev.map Dev.kind = some kind
  slot : finfo.featureIndex = 0 → ∀ dev, w.featureDev = some dev → dev.ioaddr 0 = some start

theorem buildInfoAddSubFeature_triple {start : Ptr} {finfo : FeatureInfo} {vecCnt : Nat}
    (onBar : start.bar = bar) (fits : start.offset + finfo.resourceSize ≤ pci.len bar)
    (slot : finfo.featureIndex = 0 → 112 ≤ finfo.resourceSize) :
    Triple
      (fun w => Scan strict pci bar w ∧ FmeKept pci w ∧ w.featureDev.map Dev.kind = some kind ∧
        (finfo.featureIndex ≠ 0 → DevKept pci w))
      (buildInfoAddSubFeature ans finfo start vecCnt)
      (fun _ w => Added strict pci bar kind start finfo w)
      (fun _ w => Scan strict pci bar w ∧ vecCnt ≠ 0) := by
  refine Triple.get_bind fun w₀ ⟨scan, fme, hasDev, kept⟩ => ?_
  cases here : w₀.featureDev with
  | none => simp [here] at hasDev
  | some dev =>
      let w₁ : Walk := { w₀ with
        resources := ⟨start, finfo.resourceSize, w₀.currentBar⟩ :: w₀.resources }
      have scan₁ : Scan strict pci bar w₁ := by
        refine ⟨⟨scan.inside.accesses, ?_⟩, scan.current, scan.mapped⟩
        intro r member
        rcases List.mem_cons.mp member with rfl | old
        · exact ⟨onBar ▸ scan.mapped, onBar ▸ fits, fun _ => onBar.trans scan.current.symm⟩
        · exact scan.inside.resources r old
      refine Triple.bind (fun _ w => w = w₁) (Triple.modify ?_) fun _ => ?_
      · rintro w rfl
        rfl
      refine Triple.bind (fun _ w => w = w₁) (Triple.throwIf ?_ ?_) fun _ => Triple.modify ?_
      · rintro ⟨vectors, -⟩ w rfl
        exact ⟨scan₁, vectors⟩
      · exact fun _ w same => same
      · rintro w rfl
        refine ⟨⟨scan₁.congr rfl rfl rfl rfl, ?_, fme⟩, by simpa [here] using hasDev, ?_⟩
        rotate_left
        · rintro index _ ⟨rfl⟩
          simp [Dev.ioaddr, index]
        by_cases index : finfo.featureIndex = 0
        · rintro _ ⟨rfl⟩
          refine ⟨start, by simp [Dev.ioaddr, index], onBar ▸ scan.mapped, ?_⟩
          have size := slot index
          rw [onBar]
          omega
        · exact (kept index).add here index _

theorem createFeatureInstance_triple (strict : Prop) (kind : DevKind) {start : Ptr}
    {finfo : FeatureInfo} {vecCnt : Nat}
    (onBar : start.bar = bar) (inside : start.offset ≤ pci.len bar)
    (header : finfo.revisionId.isSome = true → start.offset + featureHeaderSize ≤ pci.len bar)
    (slot : finfo.featureIndex = 0 → 112 ≤ finfo.resourceSize) :
    Triple
      (fun w => Scan strict pci bar w ∧ FmeKept pci w ∧ w.featureDev.map Dev.kind = some kind ∧
        (finfo.featureIndex ≠ 0 → DevKept pci w))
      (createFeatureInstance pci ans start finfo vecCnt)
      (fun _ w => Added strict pci bar kind start finfo w ∧
        start.offset + finfo.resourceSize ≤ pci.len bar)
      (fun _ w => Scan strict pci bar w ∧
        (start.offset + finfo.resourceSize ≤ pci.len bar → vecCnt ≠ 0)) := by
  refine Triple.get_bind fun w₀ ⟨scan, fme, hasDev, kept⟩ => ?_
  have onLen : pci.len w₀.currentBar = pci.len bar := by rw [scan.current]
  have small := pci.len_lt bar
  by_cases tooSmall : ((pci.len bar : Int) - start.offset) % 2 ^ 64 < finfo.resourceSize
  · -- the only way out is the check itself
    have unfit : ¬ start.offset + finfo.resourceSize ≤ pci.len bar := by
      rw [Int.emod_eq_of_lt (by omega) (by omega)] at tooSmall
      omega
    refine Triple.bind (fun _ _ => False) (Triple.throwIf ?_ ?_)
      fun _ w impossible => impossible.elim
    · rintro - w rfl
      exact ⟨scan, fun fits => absurd fits unfit⟩
    · intro passed
      rw [onLen] at passed
      exact absurd tooSmall passed
  have fits := fits_of_check inside small tooSmall
  refine Triple.bind (fun _ w => w = w₀) (Triple.throwIf ?_ ?_) fun _ => ?_
  · intro failed
    rw [onLen] at failed
    exact absurd failed tooSmall
  · exact fun _ w same => same
  refine Triple.bind (fun _ w => Scan strict pci bar w ∧ FmeKept pci w ∧
    w.featureDev.map Dev.kind = some kind ∧ (finfo.featureIndex ≠ 0 → DevKept pci w))
    (Triple.runIf ?_ ?_) fun _ => ?_
  · intro checked
    apply Triple.modify
    rintro w rfl
    have room := header checked
    simp only [featureHeaderSize] at room
    exact ⟨scan.note onBar (show start.offset + 1 + 1 ≤ _ by omega), fme, hasDev, kept⟩
  · rintro - w rfl
    exact ⟨scan, fme, hasDev, kept⟩
  · apply (buildInfoAddSubFeature_triple onBar fits slot).consequence (fun w holds => holds)
    · exact fun _ w ready => ⟨ready, fits⟩
    · exact fun _ w ⟨after, vectors⟩ => ⟨after, fun _ => vectors⟩

/-- A reset of the current device reaches a whole port header. -/
def ResetOk (strict : Prop) (pci : Pci) (w : Walk) : Prop :=
  ∀ dev, w.featureDev = some dev → dev.hasPdata = true → ∃ ptr, dev.ioaddr 0 = some ptr ∧
    ptr.bar ∈ w.regions ∧ ptr.offset + 112 ≤ pci.len ptr.bar ∧ (strict → ptr.bar = w.currentBar)

/-- What makes the reset of a port safe whose creation has failed. -/
structure ResetPromise (strict : Prop) (ans : Answers) (w : Walk) (fits : Prop) : Prop where
  slot : Created ans w → ans.resourceAlloc = true ∧ fits
  onBar : strict → ans.deviceAdd = false → ∀ dev, w.featureDev = some dev →
    ∀ ptr, dev.ioaddr 0 = some ptr → ptr.bar = w.currentBar

/-- Before the device is created the walk has an old device, or none. -/
theorem buildInfoCommitDev_triple {w₀ : Walk} (ready : Ready strict pci bar w₀) :
    Triple (fun w => w = w₀) (buildInfoCommitDev ans)
      (fun _ w => Scan strict pci bar w ∧ FmeKept pci w ∧ w.featureDev = none ∧
        (w₀.featureDev ≠ none → ans.deviceAdd = true))
      (fun _ w => w = w₀ ∧ ans.deviceAdd = false) := by
  apply Triple.get_bind
  intro w same
  subst same
  cases here : w.featureDev with
  | none =>
      apply Triple.pure
      rintro _ rfl
      exact ⟨ready.scan, ready.fme, here, fun nonempty => absurd rfl nonempty⟩
  | some dev =>
      refine Triple.ite (fun added => Triple.modify ?_) fun failed => Triple.throw ?_
      · rintro _ rfl
        exact ⟨ready.scan.congr rfl rfl rfl rfl, ready.fme, rfl, fun _ => added⟩
      · rintro _ rfl
        exact ⟨rfl, by simpa using failed⟩

theorem buildInfoCreateDev_triple {w₀ : Walk} (ready : Ready strict pci bar w₀) {fiu : Ptr}
    (fits : Prop) :
    Triple (fun w => w = w₀) (buildInfoCreateDev ans kind fiu)
      (fun _ w => Scan strict pci bar w ∧ FmeKept pci w ∧ Created ans w₀ ∧
        w.featureDev.map Dev.kind = some kind)
      (fun _ w => Scan strict pci bar w ∧
        (ResetPromise strict ans w₀ fits → ResetOk strict pci w)) := by
  refine Triple.bind (fun _ w => Scan strict pci bar w ∧ FmeKept pci w ∧ w.featureDev = none ∧
      (w₀.featureDev ≠ none → ans.deviceAdd = true))
    ((buildInfoCommitDev_triple ready).consequence (fun _ holds => holds) (fun _ _ holds => holds)
      ?_) fun _ => ?_
  · -- the old device stays, with its own header
    rintro _ w ⟨rfl, failed⟩
    refine ⟨ready.scan, fun promise dev here _ => ?_⟩
    obtain ⟨ptr, found, mapped, room⟩ := ready.dev dev here
    exact ⟨ptr, found, mapped, room, fun exactly => promise.onBar exactly failed dev here ptr found⟩
  refine Triple.bind (fun _ w => Scan strict pci bar w ∧ FmeKept pci w ∧
      (w₀.featureDev ≠ none → ans.deviceAdd = true) ∧ ans.deviceAlloc = true)
    (Triple.throwIf ?_ ?_) fun _ => ?_
  · rintro - w ⟨scan, -, absent, -⟩
    refine ⟨scan, fun _ dev here => ?_⟩
    rw [absent] at here
    cases here
  · rintro granted w ⟨scan, fme, -, added⟩
    exact ⟨scan, fme, added, by simpa using granted⟩
  let blank (id : Option Nat) (w : Walk) : Dev := ⟨kind, fiu, w.fius, id, false, [], 0⟩
  have noPdata : ∀ id w, w.featureDev = some (blank id w) → ResetOk strict pci w := by
    intro id w here dev found pdata
    rw [here] at found
    cases found
    cases pdata
  refine Triple.bind (fun _ w => Scan strict pci bar w ∧ FmeKept pci w ∧
      (w₀.featureDev ≠ none → ans.deviceAdd = true) ∧ ans.deviceAlloc = true ∧
      w.featureDev = some (blank none w)) (Triple.modify ?_) fun _ => ?_
  · rintro w ⟨scan, fme, added, granted⟩
    exact ⟨scan.congr rfl rfl rfl rfl, fme, added, granted, rfl⟩
  refine Triple.bind (fun _ w => Scan strict pci bar w ∧ FmeKept pci w ∧
      (w₀.featureDev ≠ none → ans.deviceAdd = true) ∧ ans.deviceAlloc = true ∧
      ans.idAlloc = true ∧ w.featureDev = some (blank none w)) (Triple.throwIf ?_ ?_) fun _ => ?_
  · rintro - w ⟨scan, -, -, -, here⟩
    exact ⟨scan, fun _ => noPdata none w here⟩
  · rintro granted w ⟨scan, fme, added, alloc, here⟩
    exact ⟨scan, fme, added, alloc, by simpa using granted, here⟩
  refine Triple.bind (fun _ w => Scan strict pci bar w ∧ FmeKept pci w ∧
      (w₀.featureDev ≠ none → ans.deviceAdd = true) ∧ ans.deviceAlloc = true ∧
      ans.idAlloc = true ∧ w.featureDev = some (blank (some (ans.newId kind)) w))
    (Triple.modify ?_) fun _ => ?_
  · rintro w ⟨scan, fme, added, alloc, id, here⟩
    exact ⟨scan.congr rfl rfl rfl rfl, fme, added, alloc, id, by simp [here, blank]⟩
  refine Triple.bind (fun _ w => Scan strict pci bar w ∧ FmeKept pci w ∧ Created ans w₀ ∧
      w.featureDev = some (blank (some (ans.newId kind)) w)) (Triple.throwIf ?_ ?_) fun _ => ?_
  · rintro - w ⟨scan, -, -, -, -, here⟩
    exact ⟨scan, fun _ => noPdata _ w here⟩
  · rintro granted w ⟨scan, fme, added, alloc, id, here⟩
    exact ⟨scan, fme, ⟨added, alloc, id, by simpa using granted⟩, here⟩
  refine Triple.bind (fun _ w => Scan strict pci bar w ∧ FmeKept pci w ∧ Created ans w₀ ∧
      w.featureDev.map Dev.kind = some kind) (Triple.modify ?_) fun _ => Triple.throwIf ?_ ?_
  · rintro w ⟨scan, fme, created, here⟩
    exact ⟨scan.congr rfl rfl rfl rfl, fme, created, by simp [here, blank]⟩
  · rintro denied w ⟨scan, -, created, -⟩
    refine ⟨scan, fun promise => ?_⟩
    have granted := (promise.slot created).1
    rw [denied] at granted
    cases granted
  · exact fun _ w holds => holds

/-- What a reset may change: the disable count and the accesses. -/
structure Touched (w₀ w : Walk) : Prop where
  featureDev : ∃ count, w.featureDev = w₀.featureDev.map ({ · with disableCount := count })
  pfmeHdr : w.pfmeHdr = w₀.pfmeHdr
  regions : w.regions = w₀.regions
  currentBar : w.currentBar = w₀.currentBar
  uafuSize : w.uafuSize = w₀.uafuSize

theorem Touched.devKept {w₀ w : Walk} (touched : Touched w₀ w) (kept : DevKept pci w₀) :
    DevKept pci w := by
  intro dev here
  obtain ⟨count, same⟩ := touched.featureDev
  rw [same, Option.map_eq_some_iff] at here
  obtain ⟨old, oldHere, rfl⟩ := here
  rw [touched.regions]
  exact kept old oldHere

theorem Touched.resetOk {w₀ w : Walk} (touched : Touched w₀ w) (ok : ResetOk strict pci w₀) :
    ResetOk strict pci w := by
  intro dev here
  obtain ⟨count, same⟩ := touched.featureDev
  rw [same, Option.map_eq_some_iff] at here
  obtain ⟨old, oldHere, rfl⟩ := here
  rw [touched.regions, touched.currentBar]
  exact ok old oldHere

/-- A state with the same device, BARs and sizes. -/
theorem Touched.of_eq {w₀ w : Walk} (featureDev : w.featureDev = w₀.featureDev)
    (pfmeHdr : w.pfmeHdr = w₀.pfmeHdr) (regions : w.regions = w₀.regions)
    (currentBar : w.currentBar = w₀.currentBar) (uafuSize : w.uafuSize = w₀.uafuSize) :
    Touched w₀ w := by
  refine ⟨?_, pfmeHdr, regions, currentBar, uafuSize⟩
  rw [featureDev]
  cases w₀.featureDev with
  | none => exact ⟨0, rfl⟩
  | some dev => exact ⟨dev.disableCount, rfl⟩

theorem Touched.trans {w₀ w₁ w₂ : Walk} (first : Touched w₀ w₁) (second : Touched w₁ w₂) :
    Touched w₀ w₂ := by
  obtain ⟨one, firstDev⟩ := first.featureDev
  obtain ⟨two, secondDev⟩ := second.featureDev
  refine ⟨⟨two, ?_⟩, second.pfmeHdr.trans first.pfmeHdr, second.regions.trans first.regions,
    second.currentBar.trans first.currentBar, second.uafuSize.trans first.uafuSize⟩
  rw [secondDev, firstDev, Option.map_map]
  rfl

/-- Reading and writing the control register behind a header slot. -/
theorem touchControl_triple {w₀ : Walk} {dev : Dev} {ptr : Ptr} (found : dev.ioaddr 0 = some ptr)
    (mapped : ptr.bar ∈ w₀.regions) (room : ptr.offset + 112 ≤ pci.len ptr.bar)
    (onBar : strict → ptr.bar = w₀.currentBar) :
    Triple (fun w => Scan strict pci bar w ∧ Touched w₀ w)
      (do let _ ← readq pci (portControl dev)
          writeq (portControl dev))
      (fun _ w => Scan strict pci bar w ∧ Touched w₀ w) (fun _ w => Scan strict pci bar w) := by
  have noted : ∀ w, Scan strict pci bar w ∧ Touched w₀ w →
      Scan strict pci bar (w.note (some (ptr.add portControlOffset)) 8) ∧
        Touched w₀ (w.note (some (ptr.add portControlOffset)) 8) := by
    rintro w ⟨scan, touched⟩
    refine ⟨scan.noteMapped (touched.regions ▸ mapped) ?_ (touched.currentBar ▸ onBar), ?_⟩
    · show ptr.offset + 56 + 8 ≤ pci.len ptr.bar
      omega
    · exact ⟨touched.featureDev, touched.pfmeHdr, touched.regions, touched.currentBar,
        touched.uafuSize⟩
  have control : portControl dev = some (ptr.add portControlOffset) := by
    rw [portControl, found]
    rfl
  rw [control]
  refine Triple.bind _ (readq_keeps noted) fun _ => Triple.modify ?_
  exact fun w ⟨_, holds⟩ => noted w holds

theorem touchPort_triple {w₀ : Walk} (scan : Scan strict pci bar w₀) (ok : ResetOk strict pci w₀)
    (pdata : ∀ dev, w₀.featureDev = some dev → dev.hasPdata = true) (count : Nat → Nat)
    (limit : Nat) :
    Triple (fun w => w = w₀) (touchPort pci count limit)
      (fun _ w => Scan strict pci bar w ∧ Touched w₀ w) (fun _ w => Scan strict pci bar w) := by
  apply Triple.get_bind
  intro w same
  subst same
  cases here : w.featureDev with
  | none => exact Triple.throw fun _ same => same ▸ scan
  | some dev =>
      obtain ⟨ptr, found, mapped, room, onBar⟩ := ok dev here (pdata dev here)
      refine Triple.bind (fun _ after => Scan strict pci bar after ∧ Touched w after)
        (Triple.modify ?_) fun _ => Triple.runIf ?_ ?_
      · rintro _ rfl
        exact ⟨scan.congr rfl rfl rfl rfl, ⟨⟨_, by rw [here]; rfl⟩, rfl, rfl, rfl, rfl⟩⟩
      · exact fun _ => touchControl_triple found mapped room onBar
      · exact fun _ _ holds => holds

theorem fpgaPortReset_triple {w₀ : Walk} (scan : Scan strict pci bar w₀)
    (ok : ResetOk strict pci w₀) :
    Triple (fun w => w = w₀) (fpgaPortReset pci)
      (fun _ w => Scan strict pci bar w ∧ Touched w₀ w) (fun _ w => Scan strict pci bar w) := by
  apply Triple.get_bind
  intro w same
  subst same
  refine Triple.bind (fun _ after => after = w ∧
    ∀ dev, w.featureDev = some dev → dev.hasPdata = true) (Triple.throwIf ?_ ?_) fun _ => ?_
  · rintro - _ rfl
    exact scan
  · rintro present after rfl
    refine ⟨rfl, fun dev here => ?_⟩
    simpa [here] using present
  by_cases pdata : ∀ dev, w.featureDev = some dev → dev.hasPdata = true
  · refine Triple.bind (fun _ after => Scan strict pci bar after ∧ Touched w after)
      ((touchPort_triple scan ok pdata _ _).consequence (fun _ holds => holds.1)
        (fun _ _ holds => holds) fun _ _ holds => holds) fun _ => ?_
    rintro after ⟨afterScan, touched⟩
    have afterPdata : ∀ dev, after.featureDev = some dev → dev.hasPdata = true := by
      intro dev here
      obtain ⟨count, same⟩ := touched.featureDev
      rw [same, Option.map_eq_some_iff] at here
      obtain ⟨old, oldHere, rfl⟩ := here
      exact pdata old oldHere
    refine ((touchPort_triple afterScan (touched.resetOk ok) afterPdata _ _).consequence
      (fun _ holds => holds) (fun _ _ holds => ⟨holds.1, touched.trans holds.2⟩)
      fun _ _ holds => holds) after rfl
  · exact fun after holds => absurd holds.2 pdata

theorem enablePortUafu_triple {w₀ : Walk} {hdr : Ptr} (scan : Scan strict pci bar w₀)
    (onBar : hdr.bar = bar) (room : hdr.offset + 64 ≤ pci.len bar)
    (ok : pci.mmioSize hdr ≠ 0 → ResetOk strict pci w₀) :
    Triple (fun w => w = w₀) (enablePortUafu pci hdr)
      (fun _ w => Scan strict pci bar w ∧
        Touched { w₀ with uafuSize := pci.mmioSize hdr * 1024 } w)
      (fun _ w => Scan strict pci bar w) := by
  -- the state after both registers have been read
  let w₁ : Walk := { (w₀.note (some (hdr.add portCapabilityOffset)) 8).note
    (some (hdr.add portControlOffset)) 8 with uafuSize := pci.mmioSize hdr * 1024 }
  have scan₁ : Scan strict pci bar w₁ := by
    have first : Scan strict pci bar (w₀.note (some (hdr.add portCapabilityOffset)) 8) :=
      scan.note onBar (show hdr.offset + 48 + 8 ≤ pci.len bar by omega)
    have second : Scan strict pci bar ((w₀.note (some (hdr.add portCapabilityOffset)) 8).note
        (some (hdr.add portControlOffset)) 8) :=
      first.note onBar (show hdr.offset + 56 + 8 ≤ pci.len bar by omega)
    exact second.congr rfl rfl rfl rfl
  have touched : Touched { w₀ with uafuSize := pci.mmioSize hdr * 1024 } w₁ :=
    .of_eq rfl rfl rfl rfl rfl
  have rest : Triple (fun w => w = w₁)
      (runIf (pci.mmioSize hdr * 1024 ≠ 0) (fpgaPortReset pci))
      (fun _ w => Scan strict pci bar w ∧
        Touched { w₀ with uafuSize := pci.mmioSize hdr * 1024 } w)
      (fun _ w => Scan strict pci bar w) := by
    refine Triple.runIf (fun enabled => ?_) ?_
    · have resetOk : ResetOk strict pci w₁ := ok (by omega)
      exact (fpgaPortReset_triple scan₁ resetOk).consequence (fun _ holds => holds)
        (fun _ _ holds => ⟨holds.1, touched.trans holds.2⟩) fun _ _ holds => holds
    · rintro - w rfl
      exact ⟨scan₁, touched⟩
  rintro w rfl
  exact rest w₁ rfl

theorem attempt_triple {pre : Walk → Prop} {post : Unit → Walk → Prop} {fail : Stop → Walk → Prop}
    {action : WalkM Unit} (triple : Triple pre action post fail) :
    Triple pre (attempt action)
      (fun ret w => match ret with
        | .ok _ => post () w
        | .error err => fail (.errno err) w)
      fail := by
  intro w holds
  simp only [attempt]
  match result : action w with
  | .ok _ _ => exact triple.of_ok holds result
  | .error (.errno _) _ => exact triple.of_error holds result
  | .error .oops _ => exact triple.of_error holds result

theorem returnIfError_triple {pre : Walk → Prop} {post : Unit → Walk → Prop}
    {fail : Stop → Walk → Prop} {ret : Except Errno Unit}
    (ok : ∀ w, pre w → ret = .ok () → post () w)
    (failed : ∀ w err, pre w → ret = .error err → fail (.errno err) w) :
    Triple pre (returnIfError ret) post fail := by
  cases ret with
  | ok => exact Triple.pure fun w holds => ok w holds rfl
  | error err => exact Triple.throw fun w holds => failed w err holds rfl

theorem checkFeaturesHeader_triple {P : Walk → Prop} {fail : Stop → Walk → Prop} {hdr : Ptr}
    {id : Nat} (keeps : ∀ w, P w → P (w.note (some hdr) 8)) :
    Triple P (checkFeaturesHeader pci hdr kind id) (fun _ w => P w) fail := by
  refine Triple.runIf (fun _ => ?_) fun _ _ holds => holds
  exact Triple.bind _ (readq_keeps keeps) fun _ => Triple.pure fun _ holds => holds.2

section Fiu

variable {hdr : Ptr} {w₀ : Walk} (onBar : hdr.bar = bar)
  (room : hdr.offset + featureHeaderSize ≤ pci.len bar)

include onBar room

theorem parseFeatureFme_triple (ready : Ready strict pci bar w₀) :
    Triple (fun w => w = w₀) (parseFeatureFme pci ans hdr)
      (fun _ w => Added strict pci bar .fme hdr fmeHeaderInfo w ∧
        hdr.offset + 208 ≤ pci.len bar)
      (fun _ w => Scan strict pci bar w) := by
  have inside : hdr.offset ≤ pci.len bar := by omega
  refine Triple.bind (fun _ w => Scan strict pci bar w ∧ FmeKept pci w ∧ Created ans w₀ ∧
      w.featureDev.map Dev.kind = some .fme)
    ((buildInfoCreateDev_triple ready True).consequence (fun _ holds => holds)
      (fun _ _ holds => holds) fun _ _ holds => holds.1) fun _ => ?_
  refine Triple.get_bind fun w ⟨scan, fme, _, isFme⟩ => ?_
  refine Triple.bind (fun _ after => after = w) (Triple.throwIf ?_ fun _ _ same => same) fun _ => ?_
  · rintro - _ rfl
    exact scan
  · refine (createFeatureInstance_triple strict .fme onBar inside (fun _ => room)
      (by decide)).consequence ?_ (fun _ _ holds => holds) fun _ _ holds => holds.1
    rintro _ rfl
    exact ⟨scan, fme, isFme, fun index => absurd rfl index⟩

theorem parseFeaturePort_triple (ready : Ready strict pci bar w₀) :
    Triple (fun w => w = w₀) (parseFeaturePort pci ans hdr)
      (fun _ w => Added strict pci bar .port hdr portHeaderInfo w ∧
        hdr.offset + 112 ≤ pci.len bar ∧ Created ans w₀)
      (fun _ w => Scan strict pci bar w ∧
        (ResetPromise strict ans w₀ (hdr.offset + 112 ≤ pci.len bar) → ResetOk strict pci w)) := by
  have inside : hdr.offset ≤ pci.len bar := by omega
  apply Triple.bind _ (buildInfoCreateDev_triple ready _)
  intro _
  by_cases created : Created ans w₀
  · refine (createFeatureInstance_triple strict .port onBar inside (fun _ => room)
      (by decide)).consequence ?_ ?_ ?_
    · rintro w ⟨scan, fme, -, isPort⟩
      exact ⟨scan, fme, isPort, fun index => absurd rfl index⟩
    · rintro _ w ⟨done, fits⟩
      exact ⟨done, fits, created⟩
    · -- the header does not fit, which the promise excludes
      rintro _ w ⟨scan, unfit⟩
      exact ⟨scan, fun promise => absurd rfl (unfit (promise.slot created).2)⟩
  · exact fun w holds => absurd holds.2.2.1 created

omit room

theorem parseFeaturePortAfu_triple (ready : Ready strict pci bar w₀)
    (isPort : w₀.featureDev.map Dev.kind = some .port)
    (inside : w₀.uafuSize ≠ 0 → hdr.offset ≤ pci.len bar) :
    Triple (fun w => w = w₀) (parseFeaturePortAfu pci ans hdr)
      (fun _ w => Ready strict pci bar w) (fun _ w => Scan strict pci bar w) := by
  apply Triple.get_bind
  intro w same
  subst same
  refine Triple.ite (fun sized => ?_) fun _ => Triple.throw fun _ same => same ▸ ready.scan
  have created : Triple _ (createFeatureInstance pci ans hdr (portUafuInfo w.uafuSize) 0) _ _ :=
    createFeatureInstance_triple strict .port onBar (inside sized) nofun nofun
  refine Triple.bind (fun ret after => Scan strict pci bar after ∧
      (ret = .ok () → Ready strict pci bar after)) ((attempt_triple created).consequence ?_ ?_ ?_)
    fun ret => ?_
  · rintro _ rfl
    exact ⟨ready.scan, ready.fme, isPort, fun _ => ready.dev⟩
  · intro ret after holds
    cases ret with
    | ok => exact ⟨holds.1.ready.scan, fun _ => holds.1.ready⟩
    | error => exact ⟨holds.1, nofun⟩
  · exact fun _ after holds => holds.1
  refine Triple.bind (fun _ after => Scan strict pci bar after ∧
      (ret = .ok () → Ready strict pci bar after)) (Triple.modify ?_) fun _ =>
    returnIfError_triple (fun after holds done => holds.2 done) fun after _ holds _ => holds.1
  rintro after ⟨scan, done⟩
  refine ⟨scan.congr rfl rfl rfl rfl, fun ok => ?_⟩
  exact ⟨scan.congr rfl rfl rfl rfl, (done ok).dev, (done ok).fme⟩

theorem parseFeatureAfu_triple (ready : Ready strict pci bar w₀)
    (inside : ∀ dev, w₀.featureDev = some dev → dev.kind = .port → w₀.uafuSize ≠ 0 →
      hdr.offset ≤ pci.len bar) :
    Triple (fun w => w = w₀) (parseFeatureAfu pci ans hdr)
      (fun _ w => Ready strict pci bar w) (fun _ w => Scan strict pci bar w) := by
  apply Triple.get_bind
  intro w same
  subst same
  cases here : w.featureDev with
  | none => exact Triple.throw fun _ same => same ▸ ready.scan
  | some dev =>
      cases isKind : dev.kind with
      | fme =>
          simp only [isKind]
          exact Triple.pure fun _ same => same ▸ ready
      | port =>
          simp only [isKind]
          exact parseFeaturePortAfu_triple onBar ready (by simp [here, isKind])
            (inside dev here isKind)

include room

/-- The state after the switch over the FIU's id: its own header fits, and the AFU it
points to would start in the BAR if the current port were to take it. -/
def FiuDone (strict : Prop) (pci : Pci) (bar : Nat) (hdr : Ptr) (w : Walk) : Prop :=
  Ready strict pci bar w ∧ hdr.offset + 32 ≤ pci.len bar ∧
    (pci.nextAfu hdr ≠ 0 → ∀ dev, w.featureDev = some dev → dev.kind = .port → w.uafuSize ≠ 0 →
      hdr.offset + pci.nextAfu hdr ≤ pci.len bar)

theorem parseFiuFme_triple (ready : Ready strict pci bar w₀) :
    Triple (fun w => w = w₀)
      (do let ret ← attempt (parseFeatureFme pci ans hdr)
          checkFeaturesHeader pci hdr .fme 0
          modify fun w => { w with pfmeHdr := some hdr }
          returnIfError ret)
      (fun _ w => FiuDone strict pci bar hdr w) (fun _ w => Scan strict pci bar w) := by
  let Mid (ret : Except Errno Unit) (w : Walk) : Prop := Scan strict pci bar w ∧
    (ret = .ok () → Ready strict pci bar w ∧ w.featureDev.map Dev.kind = some .fme ∧
      hdr.offset + 208 ≤ pci.len bar)
  refine Triple.bind Mid ((attempt_triple (parseFeatureFme_triple onBar room ready)).consequence
    (fun _ holds => holds) ?_ fun _ _ holds => holds) fun ret => ?_
  · intro ret w holds
    cases ret with
    | ok => exact ⟨holds.1.ready.scan, fun _ => ⟨holds.1.ready, holds.1.isKind, holds.2⟩⟩
    | error => exact ⟨holds, nofun⟩
  refine Triple.bind (fun _ => Mid ret) (checkFeaturesHeader_triple ?_) fun _ => ?_
  · exact fun w ⟨scan, done⟩ => ⟨scan.note onBar room, fun ok =>
      ⟨(done ok).1.note onBar room, (done ok).2⟩⟩
  refine Triple.bind (fun _ w => Mid ret w) (Triple.modify ?_) fun _ =>
    returnIfError_triple ?_ fun w _ holds _ => holds.1
  · rintro w ⟨scan, done⟩
    refine ⟨scan.congr rfl rfl rfl rfl, fun ok => ⟨?_, (done ok).2⟩⟩
    refine ⟨scan.congr rfl rfl rfl rfl, (done ok).1.dev, ?_⟩
    rintro ptr ⟨rfl⟩
    exact ⟨onBar ▸ scan.mapped, onBar ▸ (done ok).2.2⟩
  · rintro w ⟨-, done⟩ ok
    obtain ⟨readyAfter, isFme, fits⟩ := done ok
    refine ⟨readyAfter, by omega, fun _ dev here isPort => ?_⟩
    simp [here, isPort] at isFme

theorem parseFiuPort_triple (ready : Ready strict pci bar w₀)
    (capability : hdr.offset + 64 ≤ pci.len bar)
    (promise : pci.mmioSize hdr ≠ 0 →
      ResetPromise strict ans w₀ (hdr.offset + 112 ≤ pci.len bar))
    (afu : pci.mmioSize hdr ≠ 0 → Created ans w₀ → pci.nextAfu hdr ≠ 0 →
      hdr.offset + pci.nextAfu hdr ≤ pci.len bar) :
    Triple (fun w => w = w₀)
      (do let ret ← attempt (parseFeaturePort pci ans hdr)
          checkFeaturesHeader pci hdr .port 0
          enablePortUafu pci hdr
          returnIfError ret)
      (fun _ w => FiuDone strict pci bar hdr w) (fun _ w => Scan strict pci bar w) := by
  let Mid (ret : Except Errno Unit) (w : Walk) : Prop := Scan strict pci bar w ∧
    (pci.mmioSize hdr ≠ 0 → ResetOk strict pci w) ∧
    (ret = .ok () → Ready strict pci bar w ∧ hdr.offset + 112 ≤ pci.len bar ∧ Created ans w₀)
  refine Triple.bind Mid ((attempt_triple (parseFeaturePort_triple onBar room ready)).consequence
    (fun _ holds => holds) ?_ fun _ _ holds => holds.1) fun ret => ?_
  · intro ret w holds
    cases ret with
    | ok =>
        refine ⟨holds.1.ready.scan, fun _ dev here _ => ?_, fun _ => ⟨holds.1.ready, holds.2⟩⟩
        have current := holds.1.ready.scan.current
        exact ⟨hdr, holds.1.slot rfl dev here, onBar ▸ holds.1.ready.scan.mapped,
          onBar ▸ holds.2.1, fun _ => onBar.trans current.symm⟩
    | error => exact ⟨holds.1, fun enabled => holds.2 (promise enabled), nofun⟩
  refine Triple.bind (fun _ => Mid ret) (checkFeaturesHeader_triple ?_) fun _ => ?_
  · rintro w ⟨scan, reset, done⟩
    exact ⟨scan.note onBar room, reset, fun ok => ⟨(done ok).1.note onBar room, (done ok).2⟩⟩
  let Last (w : Walk) : Prop := Scan strict pci bar w ∧ (ret = .ok () →
    Ready strict pci bar w ∧ w.uafuSize = pci.mmioSize hdr * 1024 ∧
      hdr.offset + 112 ≤ pci.len bar ∧ Created ans w₀)
  refine Triple.bind (fun _ => Last) ?_ fun _ => returnIfError_triple ?_ fun w _ holds _ => holds.1
  · rintro w ⟨scan, reset, done⟩
    refine (enablePortUafu_triple scan onBar capability reset).consequence (fun _ holds => holds)
      ?_ (fun _ _ holds => holds) w rfl
    rintro _ after ⟨afterScan, touched⟩
    refine ⟨afterScan, fun ok => ⟨⟨afterScan, ?_, ?_⟩, touched.uafuSize, (done ok).2⟩⟩
    · exact touched.devKept (show DevKept pci { w with uafuSize := _ } from (done ok).1.dev)
    · intro ptr here
      rw [touched.regions]
      exact (done ok).1.fme ptr (touched.pfmeHdr ▸ here)
  · rintro w ⟨-, done⟩ ok
    obtain ⟨readyAfter, size, fits, created⟩ := done ok
    refine ⟨readyAfter, by omega, fun next dev here isPort sized => ?_⟩
    exact afu (by omega) created next

theorem parseFiuDevice_triple {header : Csr} (ready : Ready strict pci bar w₀)
    (safe : HeaderSafe pci ans w₀ hdr header) (isFiu : header.type = featureTypeFiu)
    (stays : strict → header.id = featureFiuIdPort → pci.mmioSize hdr ≠ 0 →
      ans.deviceAdd = false → ∀ dev, w₀.featureDev = some dev →
      ∀ ptr, dev.ioaddr 0 = some ptr → ptr.bar = w₀.currentBar) :
    Triple (fun w => w = w₀) (parseFiuDevice pci ans hdr header)
      (fun _ w => FiuDone strict pci bar hdr w) (fun _ w => Scan strict pci bar w) := by
  apply Triple.ite (fun _ => parseFiuFme_triple onBar room ready)
  intro notFme
  refine Triple.ite (fun isPort => ?_) fun notPort => ?_
  · subst onBar
    exact parseFiuPort_triple rfl room ready (safe.port isFiu isPort)
      (fun enabled => ⟨safe.reset isFiu isPort enabled,
        fun exactly => stays exactly isPort enabled⟩)
      (safe.portAfu isFiu isPort)
  · subst onBar
    apply Triple.pure
    rintro _ rfl
    refine ⟨ready, safe.other isFiu notFme notPort, fun next dev here isPort sized => ?_⟩
    exact safe.otherAfu isFiu notFme notPort next sized dev here isPort

theorem parseFeatureFiu_triple (ready : Ready strict pci bar w₀)
    (safe : HeaderSafe pci ans w₀ hdr (pci.csr hdr.bar hdr.offset))
    (isFiu : (pci.csr hdr.bar hdr.offset).type = featureTypeFiu)
    (stays : strict → (pci.csr hdr.bar hdr.offset).id = featureFiuIdPort →
      pci.mmioSize hdr ≠ 0 → ans.deviceAdd = false → ∀ dev, w₀.featureDev = some dev →
      ∀ ptr, dev.ioaddr 0 = some ptr → ptr.bar = w₀.currentBar) :
    Triple (fun w => w = w₀) (parseFeatureFiu pci ans hdr)
      (fun _ w => Ready strict pci bar w) (fun _ w => Scan strict pci bar w) := by
  -- the header is read with the FIU counted
  let w₁ : Walk := { w₀ with fius := w₀.fius + 1 }.note (some hdr) 8
  have ready₁ : Ready strict pci bar w₁ := by
    have counted : Ready strict pci bar { w₀ with fius := w₀.fius + 1 } :=
      ⟨ready.scan.congr rfl rfl rfl rfl, ready.dev, ready.fme⟩
    exact counted.note onBar room
  have safe₁ : HeaderSafe pci ans w₁ hdr (pci.csr hdr.bar hdr.offset) :=
    ⟨safe.irqs, safe.other, safe.otherAfu, safe.port, safe.reset, safe.portAfu⟩
  have rest : Triple (fun w => w = w₁)
      (do parseFiuDevice pci ans hdr (pci.csr hdr.bar hdr.offset)
          let fiuHeader ← readq pci (some (hdr.add fiuCsrOffset))
          runIf (fiuHeader.nextAfu ≠ 0) (parseFeatureAfu pci ans (hdr.add fiuHeader.nextAfu)))
      (fun _ w => Ready strict pci bar w) (fun _ w => Scan strict pci bar w) := by
    refine Triple.bind (fun _ => FiuDone strict pci bar hdr)
      (parseFiuDevice_triple onBar room ready₁ safe₁ isFiu stays) fun _ => ?_
    refine Triple.bind (fun value w => value = pci.csr hdr.bar (hdr.offset + fiuCsrOffset) ∧
      FiuDone strict pci bar hdr w) ?_ fun fiuHeader => ?_
    · rintro w ⟨readyAfter, fits, afu⟩
      exact ⟨rfl, readyAfter.note onBar (show hdr.offset + 24 + 8 ≤ _ by omega), fits, afu⟩
    · rintro w ⟨rfl, readyAfter, -, afu⟩
      have taken : Triple (fun after => after = w)
          (runIf (pci.nextAfu hdr ≠ 0) (parseFeatureAfu pci ans (hdr.add (pci.nextAfu hdr))))
          (fun _ after => Ready strict pci bar after)
              (fun _ after => Scan strict pci bar after) := by
        refine Triple.runIf (fun next => ?_) ?_
        · exact parseFeatureAfu_triple onBar readyAfter (afu next)
        · rintro - _ rfl
          exact readyAfter
      exact taken w rfl
  rintro w rfl
  exact rest w₁ rfl

end Fiu

theorem featureVectors_triple {P : Walk → Prop} {fail : Stop → Walk → Prop} {hdr : Ptr}
    {finfo : FeatureInfo} (fits : hdr.offset + irqRegisterEnd finfo.name ≤ pci.len hdr.bar)
    (keeps : ∀ w k, P w → hdr.offset + k + 8 ≤ pci.len hdr.bar → P (w.note (some (hdr.add k)) 8)) :
    Triple P (featureVectors pci hdr finfo) (fun _ w => P w) fail := by
  obtain ⟨name, size, index, revision⟩ := finfo
  simp only [featureVectors]
  cases name
  case portUint =>
    exact Triple.bind _ (readq_keeps fun w holds => keeps w _ holds fits) fun _ =>
      Triple.pure fun _ holds => holds.2
  case portErr =>
    exact Triple.bind _ (readq_keeps fun w holds => keeps w _ holds fits) fun _ =>
      Triple.pure fun _ holds => holds.2
  case fmeGlobalErr =>
    exact Triple.bind _ (readq_keeps fun w holds => keeps w _ holds fits) fun _ =>
      Triple.pure fun _ holds => holds.2
  all_goals exact Triple.pure fun _ holds => holds

theorem parseFeatureIrqs_triple {P : Walk → Prop} {fail : Stop → Walk → Prop} {hdr : Ptr}
    {finfo : FeatureInfo}
    (fits : 0 < pci.msixVecCount → hdr.offset + irqRegisterEnd finfo.name ≤ pci.len hdr.bar)
    (keeps : ∀ w k, P w → hdr.offset + k + 8 ≤ pci.len hdr.bar → P (w.note (some (hdr.add k)) 8)) :
    Triple P (parseFeatureIrqs pci hdr finfo) (fun _ w => P w) fail := by
  refine Triple.ite (fun _ => Triple.pure fun _ holds => holds) fun vectors => ?_
  exact Triple.bind _ (featureVectors_triple (fits (by omega)) keeps) fun _ =>
    Triple.pure fun _ holds => holds

theorem fmeFeatures_slots : ∀ finfo ∈ fmeFeatures, finfo.featureIndex = 0 →
    112 ≤ finfo.resourceSize := by
  decide

theorem portFeatures_slots (uafuSize : Nat) : ∀ finfo ∈ portFeatures uafuSize,
    finfo.featureIndex = 0 → 112 ≤ finfo.resourceSize := by
  simp [portFeatures, portHeaderInfo, portUafuInfo, portFeatureIdUafu]

section Private

variable {hdr : Ptr} {w₀ : Walk} (onBar : hdr.bar = bar)
  (room : hdr.offset + featureHeaderSize ≤ pci.len bar)

include onBar room

theorem parsePrivateEntry_triple {table : List FeatureInfo} {id : Nat}
    (ready : Ready strict pci bar w₀) (isKind : w₀.featureDev.map Dev.kind = some kind)
    (slots : ∀ finfo ∈ table, finfo.featureIndex = 0 → 112 ≤ finfo.resourceSize)
    (irqs : 0 < pci.msixVecCount → ∀ finfo, table[id]? = some finfo →
      hdr.offset + irqRegisterEnd finfo.name ≤ pci.len hdr.bar) :
    Triple (fun w => w = w₀) (parsePrivateEntry pci ans kind hdr table id)
      (fun _ w => Ready strict pci bar w) (fun _ w => Scan strict pci bar w) := by
  simp only [parsePrivateEntry]
  cases entry : table[id]? with
  | none => exact Triple.pure fun _ same => same ▸ ready
  | some finfo =>
      let P (w : Walk) : Prop := Ready strict pci bar w ∧ w.featureDev.map Dev.kind = some kind
      have keeps : ∀ w k, P w → hdr.offset + k + 8 ≤ pci.len hdr.bar →
          P (w.note (some (hdr.add k)) 8) :=
        fun w k holds fits => ⟨holds.1.note onBar (onBar ▸ fits), holds.2⟩
      refine Triple.bind (fun _ => P) ((parseFeatureIrqs_triple (fun some => irqs some finfo entry)
        keeps).consequence ?_ (fun _ _ holds => holds) fun _ _ holds => holds) fun vecCnt => ?_
      · rintro _ rfl
        exact ⟨ready, isKind⟩
      refine Triple.bind (fun _ => P) (checkFeaturesHeader_triple fun w holds =>
        ⟨holds.1.note onBar room, holds.2⟩) fun _ => ?_
      have inside : hdr.offset ≤ pci.len bar := by omega
      refine (createFeatureInstance_triple strict kind onBar inside (fun _ => room)
        (slots finfo (List.mem_of_getElem? entry))).consequence ?_ (fun _ _ holds => holds.1.ready)
        fun _ _ holds => holds.1
      exact fun w holds => ⟨holds.1.scan, holds.1.fme, holds.2, fun _ => holds.1.dev⟩

theorem parseFeaturePrivate_triple (ready : Ready strict pci bar w₀)
    (safe : HeaderSafe pci ans w₀ hdr (pci.csr hdr.bar hdr.offset))
    (isPrivate : (pci.csr hdr.bar hdr.offset).type = featureTypePrivate) :
    Triple (fun w => w = w₀) (parseFeaturePrivate pci ans hdr)
      (fun _ w => Ready strict pci bar w) (fun _ w => Scan strict pci bar w) := by
  let w₁ : Walk := w₀.note (some hdr) 8
  let w₂ : Walk := w₁.note (some hdr) 8
  have ready₁ : Ready strict pci bar w₁ := ready.note onBar room
  have ready₂ : Ready strict pci bar w₂ := ready₁.note onBar room
  refine Triple.bind (fun _ w => w = w₁) ?_ fun _ => Triple.get_bind fun w same => ?_
  · rintro _ rfl
    rfl
  subst same
  cases here : w₁.featureDev with
  | none => exact Triple.throw fun _ same => same ▸ ready₁.scan
  | some dev =>
      have irqs := fun some => safe.irqs isPrivate some dev here
      have isDev : w₂.featureDev.map Dev.kind = some dev.kind := congrArg (Option.map Dev.kind) here
      cases isKind : dev.kind with
      | fme =>
          simp only [isKind, privateEntry] at irqs isDev ⊢
          rintro _ rfl
          exact parsePrivateEntry_triple onBar room ready₂ isDev fmeFeatures_slots irqs w₂ rfl
      | port =>
          simp only [isKind, privateEntry] at irqs isDev ⊢
          rintro _ rfl
          exact parsePrivateEntry_triple onBar room ready₂ isDev (portFeatures_slots _) irqs w₂ rfl

end Private

/-! ## Steps and runs -/

theorem parseFeature_triple {w₀ : Walk} {start : Nat} (ready : Ready strict pci bar w₀)
    (room : start + featureHeaderSize ≤ pci.len bar)
    (safe : HeaderSafe pci ans w₀ ⟨bar, start⟩ (pci.csr bar start))
    (stays : strict → (pci.csr bar start).type = featureTypeFiu →
      (pci.csr bar start).id = featureFiuIdPort → pci.mmioSize ⟨bar, start⟩ ≠ 0 →
      ans.deviceAdd = false → ∀ dev, w₀.featureDev = some dev →
      ∀ ptr, dev.ioaddr 0 = some ptr → ptr.bar = w₀.currentBar) :
    Triple (fun w => w = w₀) (parseFeature pci ans ⟨bar, start⟩)
      (fun _ w => Ready strict pci bar w) (fun _ w => Scan strict pci bar w) := by
  let hdr : Ptr := ⟨bar, start⟩
  let w₁ : Walk := w₀.note (some hdr) 8
  have onBar : hdr.bar = bar := rfl
  have ready₁ : Ready strict pci bar w₁ := ready.note onBar room
  have safe₁ : HeaderSafe pci ans w₁ hdr (pci.csr bar start) :=
    ⟨safe.irqs, safe.other, safe.otherAfu, safe.port, safe.reset, safe.portAfu⟩
  refine Triple.bind (fun header w => header = pci.csr bar start ∧ w = w₁) ?_ fun header => ?_
  · rintro _ rfl
    exact ⟨rfl, rfl⟩
  by_cases read : header = pci.csr bar start
  swap
  · exact fun w holds => absurd holds.1 read
  subst read
  simp only [true_and]
  refine Triple.ite (fun _ => ?_) fun _ => Triple.ite (fun isPrivate => ?_) fun _ =>
    Triple.ite (fun isFiu => ?_) fun _ => Triple.modify ?_
  · apply parseFeatureAfu_triple onBar ready₁
    intro _ _ _ _
    show start ≤ pci.len bar
    omega
  · exact parseFeaturePrivate_triple onBar room ready₁ safe₁ isPrivate
  · exact parseFeatureFiu_triple onBar room ready₁ safe₁ isFiu fun exactly => stays exactly isFiu
  · rintro _ rfl
    exact ready₁.note onBar room

theorem parseFeatureListRound_triple {w₀ : Walk} {start port : Nat}
    (ready : Ready strict pci w₀.currentBar w₀) (here : w₀.pc = .scan start port)
    (safe : StepSafe pci w₀ ans) (stays : strict → StaysOnBar pci w₀ ans) :
    Triple (fun w => w = w₀) (parseFeatureListRound pci ans start port)
      (fun _ w => Ready strict pci w₀.currentBar w)
        (fun _ w => Scan strict pci w₀.currentBar w) := by
  simp only [StepSafe, StaysOnBar, here] at safe stays
  apply Triple.get_bind
  intro w same
  subst same
  refine Triple.ite (fun more => ?_) fun _ => Triple.pure fun _ same => same ▸ ready
  refine Triple.bind (fun _ after => after = w ∧ start + featureHeaderSize ≤ pci.len w.currentBar)
    (Triple.throwIf ?_ ?_) fun _ => ?_
  · rintro - _ rfl
    exact ready.scan
  · rintro fits _ rfl
    exact ⟨rfl, by omega⟩
  by_cases room : start + featureHeaderSize ≤ pci.len w.currentBar
  swap
  · exact fun _ holds => absurd holds.2 room
  refine Triple.bind (fun _ after => Ready strict pci w.currentBar after)
    ((parseFeature_triple ready room (safe room) stays).consequence (fun _ holds => holds.1)
      (fun _ _ holds => holds) fun _ _ holds => holds) fun _ => ?_
  refine Triple.bind _ (readq_keeps fun after holds => holds.note rfl room) fun header => ?_
  exact Triple.ite (fun _ => Triple.pure fun _ holds => holds.2) fun _ =>
    Triple.pure fun _ holds => holds.2

/-- A state that the next round can start from, on whatever BAR it is. -/
def ReadySomewhere (strict : Prop) (pci : Pci) (w : Walk) : Prop :=
  Ready strict pci w.currentBar w

theorem finish_triple {w₀ : Walk} (ready : Ready strict pci w₀.currentBar w₀) :
    Triple (fun w => w = w₀) (finish ans) (fun _ w => ReadySomewhere strict pci w)
      (fun _ w => InsideBars strict pci w) := by
  refine Triple.bind _ ((buildInfoCommitDev_triple ready).consequence (fun _ holds => holds)
    (fun _ _ holds => holds) ?_) fun _ => Triple.pure ?_
  · rintro _ _ ⟨rfl, -⟩
    exact ready.scan.inside
  · rintro w ⟨scan, fme, absent, -⟩
    refine ⟨⟨scan.inside, rfl, scan.current.symm ▸ scan.mapped⟩, fun dev here => ?_, fme⟩
    rw [absent] at here
    cases here

theorem parseStartFrom_triple {w₀ : Walk} (ready : Ready strict pci w₀.currentBar w₀) (bar : Nat) :
    Triple (fun w => w = w₀) (parseStartFrom ans bar) (fun _ w => ReadySomewhere strict pci w)
      (fun _ w => InsideBars strict pci w) := by
  apply Triple.get_bind
  intro w same
  subst same
  refine Triple.ite (fun known => Triple.modify ?_) fun _ =>
    Triple.ite (fun _ => Triple.modify ?_) fun _ => Triple.throw ?_
  · rintro _ rfl
    exact ⟨⟨⟨ready.scan.inside.accesses, ready.scan.inside.resources⟩, rfl, known⟩, ready.dev,
      ready.fme⟩
  · -- the new region is added to those that are mapped
    rintro w rfl
    have more : ∀ other ∈ w.regions, other ∈ bar :: w.regions :=
      fun other member => List.mem_cons_of_mem _ member
    refine ⟨⟨⟨?_, ?_⟩, rfl, List.mem_cons_self⟩, ?_, ?_⟩
    · intro a member
      obtain ⟨ptr, location, mapped, rest⟩ := ready.scan.inside.accesses a member
      exact ⟨ptr, location, more _ mapped, rest⟩
    · intro r member
      obtain ⟨mapped, rest⟩ := ready.scan.inside.resources r member
      exact ⟨more _ mapped, rest⟩
    · intro dev here
      obtain ⟨ptr, found, mapped, fits⟩ := ready.dev dev here
      exact ⟨ptr, found, more _ mapped, fits⟩
    · intro ptr here
      obtain ⟨mapped, fits⟩ := ready.fme ptr here
      exact ⟨more _ mapped, fits⟩
  · rintro _ rfl
    exact ready.scan.inside

theorem parsePortsRound_triple {w₀ : Walk} {i : Nat} (ready : Ready strict pci w₀.currentBar w₀)
    (here : w₀.pc = .ports i) (stays : strict → StaysOnBar pci w₀ ans) :
    Triple (fun w => w = w₀) (parsePortsRound pci ans i) (fun _ w => ReadySomewhere strict pci w)
      (fun _ w => InsideBars strict pci w) := by
  simp only [StaysOnBar, here] at stays
  apply Triple.get_bind
  intro w same
  subst same
  cases found : w.pfmeHdr with
  | none => exact finish_triple ready
  | some fmeHdr =>
      refine Triple.ite (fun small => ?_) fun _ => finish_triple ready
      obtain ⟨mapped, fits⟩ := ready.fme fmeHdr found
      simp only [maxFpgaPortNum] at small stays
      have readyAfter : Ready strict pci w.currentBar
          (w.note (some (fmeHdr.add (fmePortOffset i))) 8) := by
        refine ⟨ready.scan.noteMapped mapped ?_ fun exactly => stays exactly small fmeHdr found,
          ready.dev, ready.fme⟩
        show fmeHdr.offset + (56 + 8 * i) + 8 ≤ pci.len fmeHdr.bar
        omega
      refine Triple.bind (fun _ after => after = w.note (some (fmeHdr.add (fmePortOffset i))) 8) ?_
        fun port => ?_
      · rintro _ rfl
        rfl
      refine Triple.ite (fun _ => ?_) fun _ => finish_triple readyAfter
      exact Triple.bind _ (parseStartFrom_triple readyAfter _) fun _ =>
        Triple.pure fun _ holds => holds

/-- Between rounds the walk has stayed inside, and is ready unless it has failed. -/
structure WalkInv (strict : Prop) (pci : Pci) (w : Walk) : Prop where
  inside : InsideBars strict pci w
  ready : (∀ stop, w.pc ≠ .finished (.error stop)) → ReadySomewhere strict pci w

theorem round_triple {w₀ : Walk} (ready : Ready strict pci w₀.currentBar w₀)
    (safe : StepSafe pci w₀ ans) (stays : strict → StaysOnBar pci w₀ ans) :
    Triple (fun w => w = w₀) (round pci ans w₀) (fun _ w => ReadySomewhere strict pci w)
      (fun _ w => InsideBars strict pci w) := by
  simp only [round]
  cases here : w₀.pc with
  | scan start port =>
      refine (parseFeatureListRound_triple ready here safe stays).consequence (fun _ holds => holds)
        ?_ fun _ w scan => scan.inside
      intro _ w readyAfter
      rw [ReadySomewhere, readyAfter.scan.current]
      exact readyAfter
  | ports i => exact parsePortsRound_triple ready here stays
  | finished result => exact Triple.pure fun _ same => same ▸ ready

theorem WalkInv.advance {w : Walk} (inv : WalkInv strict pci w) (safe : StepSafe pci w ans)
    (stays : strict → StaysOnBar pci w ans) : WalkInv strict pci (advance pci ans w) := by
  by_cases failed : ∃ stop, w.pc = .finished (.error stop)
  · obtain ⟨stop, ended⟩ := failed
    rwa [advance_failed pci ans ended]
  · have ready := inv.ready fun stop ended => failed ⟨stop, ended⟩
    have triple := round_triple ready safe stays
    simp only [Enum.advance]
    cases result : round pci ans w w with
    | ok pc after =>
        have after : Ready strict pci after.currentBar after := triple.of_ok rfl result
        refine ⟨⟨after.scan.inside.accesses, after.scan.inside.resources⟩, fun _ => ?_⟩
        exact ⟨after.scan.congr rfl rfl rfl rfl, after.dev, after.fme⟩
    | error stop after =>
        have inside := triple.of_error rfl result
        exact ⟨⟨inside.accesses, inside.resources⟩, fun running => absurd rfl (running stop)⟩

theorem WalkInv.start (uafuSize : Nat) : WalkInv strict pci (.start uafuSize) := by
  have inside : InsideBars strict pci (.start uafuSize) := ⟨nofun, nofun⟩
  exact ⟨inside, fun _ => ⟨⟨inside, rfl, List.mem_singleton.mpr rfl⟩, nofun, nofun⟩⟩

end Invariant

/-- In every walk whose headers meet the step condition, each access and each recorded
range is inside a mapped BAR; if the walk also never goes back to a BAR it has left,
each is inside the BAR that the walk is on when it is made. -/
theorem enumeration_stays_in_bars (strict : Prop) (pci : Pci) (uafuSize : Nat) {w : Walk}
    (reach : (walkSystem pci uafuSize).Reach
      (fun w ans => StepSafe pci w ans ∧ (strict → StaysOnBar pci w ans)) w) :
    InsideBars strict pci w := by
  have inv : WalkInv strict pci w := by
    apply reach.invariant
    · rintro _ rfl
      exact .start uafuSize
    · rintro state ans _ inv ⟨safe, stays⟩ rfl
      exact inv.advance safe stays
  exact inv.inside

/-- A device with one BAR of 4096 bytes and the given registers. -/
def Pci.small (csr : Nat → Csr) : Pci := ⟨fun _ => 4096, fun _ => csr, 0, fun _ => by decide⟩

/-- An FME header at the start of BAR 0, and nothing else. -/
def Pci.fmeOnly : Pci := .small fun offset => if offset = 0 then 0x4000010000000000 else 0

/-- A card with 16 KiB of BAR 0 and eight interrupt vectors: an FME with an error feature
that has an interrupt, and a port with an AFU of 4 KiB and user interrupts. -/
def Pci.card : Pci where
  len _ := 0x4000
  csr _ offset :=
    match offset with
    | 0x0 => 0x4000000001000000
    | 0x38 => 0x1000000000001000
    | 0x100 => 0x3000010000000004
    | 0x170 => 0x3
    | 0x1000 => 0x4000000001000001
    | 0x1018 => 0x2000
    | 0x1030 => 0x400
    | 0x1100 => 0x3000010000000012
    | 0x1108 => 0x2004
    | 0x3000 => 0x1000010000000000
    | _ => 0
  msixVecCount := 8
  len_lt _ := by decide

/-- The end of the walk over the card, every request granted. -/
def Walk.overCard : Walk :=
  (List.replicate 6 Answers.granted).foldl (fun w ans => advance .card ans w) (.start 0)

/-- The walk over a whole card, with everything that it records. -/
theorem enumeration_stays_in_bars_card :
    Walk.overCard.pc = .finished (.ok ()) ∧
      Walk.overCard.resources.map (fun r => (r.start.offset, r.size)) =
        [(0x1100, 16), (0x3000, 4096), (0x1000, 112), (0x100, 120), (0, 208)] ∧
      InsideBars True .card Walk.overCard := by
  let Safe (w : Walk) (ans : Answers) : Prop :=
    StepSafe .card w ans ∧ (True → StaysOnBar .card w ans)
  have safe : System.Along Safe (fun w ans => advance .card ans w) (.start 0)
      (List.replicate 6 .granted) := by
    decide +kernel
  have reach : (walkSystem .card 0).Reach Safe Walk.overCard :=
    (System.Reach.init rfl).along Safe _ (fun _ _ good => ⟨good, rfl⟩) safe
  exact ⟨by decide +kernel, by decide +kernel, enumeration_stays_in_bars True .card 0 reach⟩

/-- The last header of a BAR belongs to an FIU of an unknown kind: its FIU register is
read behind the end of the BAR. -/
theorem unknown_fiu_read_outside :
    ∃ pci w, (walkSystem pci 0).Reachable w ∧ ∀ strict, ¬ InsideBars strict pci w := by
  let pci : Pci := .small fun offset =>
    if offset = 0 then 0x000000000ff80000 else if offset = 4088 then 0x4000010000000002 else 0
  let w : Walk := advance pci .granted (advance pci .granted (.start 0))
  have reach : (walkSystem pci 0).Reachable w :=
    .step (.step (.init rfl) trivial rfl) trivial rfl
  refine ⟨pci, w, reach, fun strict inside => ?_⟩
  have member : (⟨some ⟨0, 4112⟩, 8, 0⟩ : Access) ∈ w.accesses := by decide
  obtain ⟨ptr, location, -, fits, -⟩ := inside.accesses _ member
  cases location
  exact absurd fits (by decide)

end OpaeXilinx.Enum
