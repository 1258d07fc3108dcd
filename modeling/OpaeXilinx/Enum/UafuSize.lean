import OpaeXilinx.Enum.WalkOrder

/-!
# The size of a user AFU

The size that a port gives to its AFU travels through an entry of the static table
`port_features`: the port header sets it, the AFU header uses it up, and on ports without
an AFU and on failures it stays behind, for the next port and for the next probe.  It is
never used for another port: whenever the current device is a port, what is in the table
is the size of that port or nothing.
-/

namespace OpaeXilinx.Enum

open OpaeXilinx.Base

/-- The final states of probes that come one after the other.  Each finds the table as the
last one has left it. -/
def probeAll : Nat → List (Pci × (Nat → Answers)) → List (Pci × Traced)
  | _, [] => []
  | uafuSize, (pci, answers) :: rest =>
      let final := endState (Traced.cciPciCreateFeatureDevs pci answers (Traced.start uafuSize))
      (pci, final) :: probeAll final.state.uafuSize rest

/-- Every UAFU has the size that its port gives, and no port has two. -/
structure Sized (pci : Pci) (uafus : List UafuCreated) : Prop where
  sizes : ∀ created ∈ uafus, created.range.size = 1024 * pci.mmioSize created.fiu
  once : (uafus.map UafuCreated.fius).Nodup

/-- The current device, the entry of the table and the number of FIU headers met. -/
structure Sizing where
  dev : Option (DevKind × Ptr × Nat)
  uafuSize : Nat
  fius : Nat

def Walk.sizing (w : Walk) : Sizing := ⟨w.featureDev.map Dev.place, w.uafuSize, w.fius⟩

namespace Sizing

/-- Begin a device. -/
def begin (s : Sizing) (kind : DevKind) (fiu : Ptr) : Sizing :=
  { s with dev := some (kind, fiu, s.fius) }

/-- What an FIU of a known kind does. -/
def meet (pci : Pci) (s : Sizing) (hdr : Ptr) (header : Csr) : Sizing :=
  if header.id = featureFiuIdFme then s.begin .fme hdr
  else if header.id = featureFiuIdPort then
    { s.begin .port hdr with uafuSize := pci.mmioSize hdr * 1024 }
  else s

end Sizing

/-- If the current device is a port, the table holds its size, unless it has been used up;
and if it has not, the port has no UAFU yet. -/
structure SizeInv (pci : Pci) (s : Sizing) (uafus : List UafuCreated) : Prop
    extends Sized pci uafus where
  before : ∀ created ∈ uafus, created.fius ≤ s.fius
  begun : ∀ kind fiu fius, s.dev = some (kind, fiu, fius) → fius ≤ s.fius
  port : ∀ fiu fius, s.dev = some (.port, fiu, fius) → s.uafuSize = 0 ∨
    s.uafuSize = 1024 * pci.mmioSize fiu ∧ ∀ created ∈ uafus, created.fius ≠ fius

namespace SizeInv

variable {pci : Pci} {s : Sizing} {uafus : List UafuCreated}

/-- An FIU header counts as met and may begin a device. -/
theorem meet (inv : SizeInv pci s uafus) (hdr : Ptr) (header : Csr) :
    SizeInv pci (Sizing.meet pci { s with fius := s.fius + 1 } hdr header) uafus := by
  have fresh : ∀ created ∈ uafus, created.fius < s.fius + 1 := fun created member =>
    Nat.lt_succ_of_le (inv.before created member)
  have before : ∀ created ∈ uafus, created.fius ≤ s.fius + 1 := fun created member =>
    Nat.le_of_lt (fresh created member)
  simp only [Sizing.meet]
  split
  next =>
    refine ⟨inv.toSized, before, ?_, ?_⟩
    · rintro kind fiu fius ⟨⟩
      exact Nat.le_refl _
    · rintro fiu fius ⟨⟩
  split
  next =>
    refine ⟨inv.toSized, before, ?_, ?_⟩
    · rintro kind fiu fius ⟨⟩
      exact Nat.le_refl _
    · rintro fiu fius ⟨⟩
      exact .inr ⟨Nat.mul_comm .., fun created member => Nat.ne_of_lt (fresh created member)⟩
  next =>
    exact ⟨inv.toSized, before, fun kind fiu fius here => Nat.le_succ_of_le
      (inv.begun kind fiu fius here), inv.port⟩

/-- The AFU of a port uses the size up. -/
theorem use (inv : SizeInv pci s uafus) {fiu : Ptr} {fius : Nat} {range : Resource}
    (isPort : s.dev = some (.port, fiu, fius)) (left : s.uafuSize ≠ 0)
    (size : range.size = s.uafuSize) :
    SizeInv pci { s with uafuSize := 0 } (⟨fiu, fius, range⟩ :: uafus) := by
  rcases inv.port fiu fius isPort with none | ⟨own, first⟩
  · contradiction
  refine ⟨⟨?_, ?_⟩, ?_, inv.begun, fun _ _ _ => .inl rfl⟩
  · intro created member
    rcases List.mem_cons.mp member with rfl | old
    · exact size.trans own
    · exact inv.sizes created old
  · refine List.nodup_cons.mpr ⟨?_, inv.once⟩
    intro again
    obtain ⟨created, member, same⟩ := List.mem_map.mp again
    exact first created member same
  · intro created member
    rcases List.mem_cons.mp member with rfl | old
    · exact inv.begun _ _ _ isPort
    · exact inv.before created old

end SizeInv

section Effect

variable {pci : Pci} {ans : Answers} {hdr : Ptr} {s : Sizing} {α : Type}

theorem Steady.sizing {program : WalkM α} (steady : Steady program) :
    Preserves Walk.sizing program :=
  fun P => steady fun c => P ⟨c.dev, c.uafuSize, c.fius⟩

/-- A program that leads from one sizing to another when it ends normally. -/
abbrev Sizes (s : Sizing) (program : WalkM α) (t : Sizing) : Prop :=
  Triple (fun w => w.sizing = s) program (fun _ w => w.sizing = t) fun _ _ => True

theorem Steady.sizes {program : WalkM α} (steady : Steady program) : Sizes s program s :=
  (steady.sizing (· = s)).consequence (fun _ same => same) (fun _ _ same => same)
    fun _ _ _ => trivial

theorem buildInfoCommitDev_sizes :
    Sizes s (buildInfoCommitDev ans) { s with dev := none } := by
  apply Triple.get_bind
  intro w same
  subst same
  cases here : w.featureDev with
  | none =>
      apply Triple.pure
      rintro _ rfl
      simp [Walk.sizing, here]
  | some dev =>
      refine Triple.ite (fun _ => Triple.modify ?_) fun _ => Triple.throw fun _ _ => trivial
      rintro _ rfl
      rfl

theorem buildInfoCreateDev_sizes (kind : DevKind) (fiu : Ptr) :
    Sizes s (buildInfoCreateDev ans kind fiu) (s.begin kind fiu) := by
  have check : ∀ (t : Sizing) (condition : Prop) [Decidable condition] (stop : Stop),
      Sizes t (throwIf condition stop) t := fun t _ _ _ =>
    Triple.throwIf (fun _ _ _ => trivial) fun _ _ same => same
  have keep : ∀ image : Dev → Dev, (∀ dev, (image dev).place = dev.place) →
      Sizes (s.begin kind fiu) (modify fun w => { w with featureDev := w.featureDev.map image })
        (s.begin kind fiu) := by
    intro image same
    apply Triple.modify
    intro w holds
    rw [← holds]
    cases here : w.featureDev <;> simp [Walk.sizing, here, same]
  refine Triple.bind _ buildInfoCommitDev_sizes fun _ => Triple.bind _ (check _ _ _) fun _ => ?_
  refine Triple.bind (fun _ w => w.sizing = s.begin kind fiu) (Triple.modify ?_) fun _ =>
    Triple.bind _ (check _ _ _) fun _ => Triple.bind _ (keep _ fun _ => rfl) fun _ =>
    Triple.bind _ (check _ _ _) fun _ => Triple.bind _ (keep _ fun _ => rfl) fun _ => check _ _ _
  intro w same
  simp only [Walk.sizing, Sizing.mk.injEq] at same
  simp [Walk.sizing, Sizing.begin, Dev.place, same]

theorem parseFeatureFme_sizes : Sizes s (parseFeatureFme pci ans hdr) (s.begin .fme hdr) := by
  refine Triple.bind _ (buildInfoCreateDev_sizes .fme hdr) fun _ => Triple.get_bind fun w same => ?_
  refine Triple.bind (fun _ after => after.sizing = s.begin .fme hdr)
    (Triple.throwIf (fun _ _ _ => trivial) ?_) fun _ => (createFeatureInstance_steady _ _ _).sizes
  rintro - _ rfl
  exact same

theorem parseFeaturePort_sizes : Sizes s (parseFeaturePort pci ans hdr) (s.begin .port hdr) :=
  Triple.bind _ (buildInfoCreateDev_sizes .port hdr) fun _ =>
    (createFeatureInstance_steady _ _ _).sizes

theorem enablePortUafu_sizes :
    Sizes s (enablePortUafu pci hdr) { s with uafuSize := pci.mmioSize hdr * 1024 } := by
  refine Triple.bind (fun capability w => capability.mmioSize = pci.mmioSize hdr ∧ w.sizing = s)
    ?_ fun capability => ?_
  · rintro w rfl
    exact ⟨rfl, rfl⟩
  rintro w ⟨value, same⟩
  revert w
  rw [value]
  refine Triple.bind _ (readq_steady _).sizes fun _ => Triple.bind
    (fun _ w => w.sizing = { s with uafuSize := pci.mmioSize hdr * 1024 }) (Triple.modify ?_)
    fun _ => Steady.sizes (.runIf fpgaPortReset_steady)
  rintro w rfl
  rfl

/-- What is done between the attempt to make a device and the look at its result counts if
there is a device. -/
theorem attempt_then {P Q R : Walk → Prop} {action : WalkM Unit} (between : WalkM Unit)
    (made : Triple P action (fun _ => Q) fun _ _ => True)
    (after : Triple Q between (fun _ => R) fun _ _ => True) :
    Triple P (do let ret ← attempt action; between; returnIfError ret) (fun _ => R)
      fun _ _ => True := by
  refine Triple.bind (fun ret w => ret = .ok () → Q w) ?_ fun ret => ?_
  · refine (attempt_triple made).consequence (fun _ holds => holds) ?_ fun _ _ _ => trivial
    rintro ret w holds rfl
    exact holds
  cases ret with
  | ok =>
      exact Triple.bind _ (after.consequence (fun _ holds => holds rfl) (fun _ _ holds => holds)
        fun _ _ holds => holds) fun _ => Triple.pure fun _ holds => holds
  | error err =>
      exact Triple.bind _ (Triple.trivially between) fun _ => Triple.throw fun _ _ => trivial

theorem parseFiuDevice_sizes (header : Csr) :
    Sizes s (parseFiuDevice pci ans hdr header) (s.meet pci hdr header) := by
  refine Triple.ite (fun isFme => ?_) fun notFme => Triple.ite (fun isPort => ?_) fun notPort => ?_
  · rw [Sizing.meet, if_pos isFme]
    refine attempt_then (do
      checkFeaturesHeader pci hdr .fme 0
      modify fun w => { w with pfmeHdr := some hdr }) parseFeatureFme_sizes ?_
    refine Triple.bind _ (checkFeaturesHeader_steady .fme 0).sizes fun _ => Triple.modify ?_
    exact fun _ same => same
  · rw [Sizing.meet, if_neg notFme, if_pos isPort]
    refine attempt_then (do
      checkFeaturesHeader pci hdr .port 0
      enablePortUafu pci hdr) parseFeaturePort_sizes ?_
    exact Triple.bind _ (checkFeaturesHeader_steady .port 0).sizes fun _ => enablePortUafu_sizes
  · rw [Sizing.meet, if_neg notFme, if_neg notPort]
    exact Triple.pure fun _ same => same

/-- A feature that is added is the last range recorded. -/
theorem createFeatureInstance_range (start : Ptr) (finfo : FeatureInfo) (vecCnt : Nat) :
    Triple (fun w => w.sizing = s) (createFeatureInstance pci ans start finfo vecCnt)
      (fun _ w => w.sizing = s ∧
        ∃ bar, w.resources.head? = some ⟨start, finfo.resourceSize, bar⟩)
      fun _ _ => True := by
  have range : Triple (fun w => w.sizing = s) (createFeatureInstance pci ans start finfo vecCnt)
      (fun _ w => ∃ bar, w.resources.head? = some ⟨start, finfo.resourceSize, bar⟩)
      fun _ _ => True := by
    refine Triple.get_bind fun w same => Triple.bind _ (Triple.trivially _) fun _ =>
      Triple.bind _ (Triple.trivially _) fun _ => Triple.get_bind fun w _ => ?_
    cases w.featureDev with
    | none => exact Triple.throw fun _ _ => trivial
    | some dev =>
        let Recorded (w : Walk) : Prop :=
          ∃ bar, w.resources.head? = some ⟨start, finfo.resourceSize, bar⟩
        refine Triple.bind (fun _ w => Recorded w)
          (Triple.modify fun w _ => ⟨w.currentBar, rfl⟩) fun _ => Triple.bind
          (fun _ w => Recorded w)
          (Triple.throwIf (fun _ _ _ => trivial) fun _ _ holds => holds) fun _ =>
            Triple.modify fun _ holds => holds
  exact ((createFeatureInstance_steady start finfo vecCnt).sizes.and range).consequence
    (fun _ same => ⟨same, same⟩) (fun _ _ holds => holds) fun _ _ _ => trivial

/-- The AFU of a port gets the size in the table, which is used up. -/
theorem parseFeaturePortAfu_sizes :
    Triple (fun w => w.sizing = s) (parseFeaturePortAfu pci ans hdr)
      (fun _ w => s.uafuSize ≠ 0 ∧ w.sizing = { s with uafuSize := 0 } ∧
        ∃ bar, w.resources.head? = some ⟨hdr, s.uafuSize, bar⟩) fun _ _ => True := by
  refine Triple.get_bind fun w same => Triple.ite (fun left => ?_) fun _ =>
    Triple.throw fun _ _ => trivial
  have size : w.uafuSize = s.uafuSize := congrArg Sizing.uafuSize same
  rw [size] at left ⊢
  have created : Triple (fun w => w.sizing = s) (createFeatureInstance pci ans hdr
      (portUafuInfo s.uafuSize) 0) _ _ := createFeatureInstance_range hdr _ 0
  refine (attempt_then (modify fun w => { w with uafuSize := 0 }) created
    (Triple.modify ?_)).consequence ?_ (fun _ _ holds => holds) fun _ _ holds => holds
  · rintro w ⟨rfl, range⟩
    exact ⟨left, rfl, range⟩
  · rintro _ rfl
    exact same

end Effect

/-! ## The invariant along the walk -/

section Walk

variable {pci : Pci} {ans : Answers} {answers : Nat → Answers} {hdr : Ptr} {α β : Type}

/-- A program that keeps the invariant, and when it fails what has been created so far. -/
abbrev KeepsSizes (pci : Pci) (program : TraceM α) : Prop :=
  Triple (fun g => SizeInv pci g.state.sizing g.record.uafus) program
    (fun _ g => SizeInv pci g.state.sizing g.record.uafus) fun _ g => Sized pci g.record.uafus

theorem KeepsSizes.bind {first : TraceM α} {second : α → TraceM β} (one : KeepsSizes pci first)
    (two : ∀ value, KeepsSizes pci (second value)) : KeepsSizes pci (first >>= second) :=
  Triple.bind _ one two

theorem KeepsSizes.get_bind {rest : Traced → TraceM α} (each : ∀ g, KeepsSizes pci (rest g)) :
    KeepsSizes pci (get >>= rest) :=
  Triple.get_bind fun g holds => (each g).consequence (fun _ same => same ▸ holds)
    (fun _ _ holds => holds) fun _ _ holds => holds

theorem Steady.keepsSizes {program : WalkM α} (steady : Steady program) :
    KeepsSizes pci (lift program) :=
  (steady.sizing.beside fun seen => SizeInv pci seen.1 seen.2.uafus).consequence
    (fun _ holds => holds) (fun _ _ holds => holds) fun _ _ holds => holds.toSized

/-- A program that leads from one sizing to another keeps the invariant if the change does. -/
theorem Sizes.keepsSizes {program : WalkM α} {change : Sizing → Sizing}
    (sizes : ∀ s, Sizes s program (change s))
    (keeps : ∀ s uafus, SizeInv pci s uafus → SizeInv pci (change s) uafus) :
    KeepsSizes pci (lift program) := by
  intro g inv
  refine ((sizes g.state.sizing).lift (· = g.record)).consequence (fun _ holds => holds) ?_ ?_
    g ⟨rfl, rfl⟩
  · rintro _ after ⟨same, record⟩
    rw [same, record]
    exact keeps _ _ inv
  · rintro _ after ⟨-, record⟩
    rw [record]
    exact inv.toSized

theorem parseFeaturePortAfu_keepsSizes {dev : Dev} (isPort : dev.kind = .port) :
    Triple (fun g : Traced => SizeInv pci g.state.sizing g.record.uafus ∧
        g.state.featureDev = some dev)
      (Traced.parseFeaturePortAfu pci ans hdr)
      (fun _ g => SizeInv pci g.state.sizing g.record.uafus)
      fun _ g => Sized pci g.record.uafus := by
  rintro g ⟨inv, here⟩
  have place : g.state.sizing.dev = some (.port, dev.fiu, dev.fius) := by
    simp [Walk.sizing, here, Dev.place, isPort]
  have from_g : Triple (fun after : Traced =>
        after.state.sizing = g.state.sizing ∧ after.record = g.record)
      (Traced.parseFeaturePortAfu pci ans hdr)
      (fun _ g => SizeInv pci g.state.sizing g.record.uafus)
      fun _ g => Sized pci g.record.uafus := by
    refine Triple.bind _ ((parseFeaturePortAfu_sizes.lift (· = g.record)).consequence
      (fun _ holds => holds) (fun _ _ holds => holds) ?_) fun _ => Triple.note ?_
    · rintro _ after ⟨-, record⟩
      rw [record]
      exact inv.toSized
    · rintro after ⟨⟨left, same, _, range⟩, record⟩
      have place' : after.state.featureDev.map Dev.place = some (.port, dev.fiu, dev.fius) := by
        rw [← place]
        exact congrArg Sizing.dev same
      obtain ⟨dev', here', equal⟩ := Option.map_eq_some_iff.mp place'
      simp only [Dev.place, Prod.mk.injEq] at equal
      simp only [Record.uafu, here', range, same, record, equal.2.1, equal.2.2]
      exact inv.use place left rfl
  exact from_g g ⟨rfl, rfl⟩

theorem parseFeatureAfu_keepsSizes :
    KeepsSizes pci (Traced.parseFeatureAfu pci ans hdr) := by
  apply Triple.get_bind
  intro g holds
  cases here : g.state.featureDev with
  | none =>
      refine (Steady.keepsSizes (.throw _)).consequence ?_ (fun _ _ holds => holds)
        fun _ _ holds => holds
      rintro _ rfl
      exact holds
  | some dev =>
      cases isKind : dev.kind with
      | fme =>
          simp only [isKind]
          apply Triple.pure
          rintro _ rfl
          exact holds
      | port =>
          simp only [isKind]
          refine (parseFeaturePortAfu_keepsSizes isKind).consequence ?_ (fun _ _ holds => holds)
            fun _ _ holds => holds
          rintro _ rfl
          exact ⟨holds, here⟩

theorem parseFeatureFiu_keepsSizes :
    KeepsSizes pci (Traced.parseFeatureFiu pci ans hdr) := by
  have counted : Triple (fun g => SizeInv pci g.state.sizing g.record.uafus)
      (lift (modify fun w => { w with fius := w.fius + 1 }) : TraceM Unit)
      (fun _ g => ∃ s, SizeInv pci s g.record.uafus ∧
        g.state.sizing = { s with fius := s.fius + 1 }) fun _ g => Sized pci g.record.uafus :=
    fun g inv => ⟨g.state.sizing, inv, rfl⟩
  have read : Triple (fun g : Traced => ∃ s, SizeInv pci s g.record.uafus ∧
        g.state.sizing = { s with fius := s.fius + 1 }) (lift (readq pci (some hdr)))
      (fun header g => header = pci.csr hdr.bar hdr.offset ∧ ∃ s, SizeInv pci s g.record.uafus ∧
        g.state.sizing = { s with fius := s.fius + 1 }) fun _ g => Sized pci g.record.uafus :=
    fun _ holds => ⟨rfl, holds⟩
  refine Triple.bind _ counted fun _ => Triple.bind _ read fun header => ?_
  refine Triple.bind (fun _ g => SizeInv pci g.state.sizing g.record.uafus) ?_ fun _ => ?_
  · rintro g ⟨-, s, inv, same⟩
    refine ((parseFiuDevice_sizes header).lift (· = g.record)).consequence (fun _ holds => holds)
      ?_ ?_ g ⟨same, rfl⟩
    · rintro _ after ⟨sizing, record⟩
      rw [sizing, record]
      exact inv.meet hdr header
    · rintro _ after ⟨-, record⟩
      rw [record]
      exact inv.toSized
  · exact KeepsSizes.bind (readq_steady _).keepsSizes fun _ =>
      Triple.runIf (fun _ => parseFeatureAfu_keepsSizes) fun _ _ holds => holds

theorem parseFeature_keepsSizes : KeepsSizes pci (Traced.parseFeature pci ans hdr) := by
  refine (readq_steady _).keepsSizes.bind fun _ => Triple.ite (fun _ => parseFeatureAfu_keepsSizes)
    fun _ => Triple.ite (fun _ => parseFeaturePrivate_steady.keepsSizes) fun _ =>
    Triple.ite (fun _ => parseFeatureFiu_keepsSizes) fun _ => (access_steady _ _).keepsSizes

theorem called_keepsSizes {call : Call} {program : Answers → TraceM Unit}
    (keeps : ∀ ans, KeepsSizes pci (program ans)) :
    KeepsSizes pci (Traced.called answers call program) :=
  .get_bind fun _ => Triple.noting (keeps _)

theorem parseFeatureListLoop_keepsSizes (bar start : Nat) :
    KeepsSizes pci (Traced.parseFeatureListLoop pci answers bar (pci.len bar) start) := by
  induction distance : pci.len bar - start using Nat.strongRecOn generalizing start with
  | ind distance ih =>
      rw [Traced.parseFeatureListLoop]
      refine Triple.ite (fun inside => Triple.ite (fun small => ?_) fun room => ?_) fun outside =>
        Triple.pure fun _ holds => holds
      · exact called_keepsSizes fun _ => Steady.keepsSizes (.throw _)
      refine (called_keepsSizes fun _ => parseFeature_keepsSizes).bind fun _ =>
        (readq_steady _).keepsSizes.bind fun header => ?_
      split
      next last => exact Triple.pure fun _ holds => holds
      next more =>
        rw [not_or] at more
        exact ih _ (by omega) _ rfl

theorem parseFeatureList_keepsSizes (start : Nat) :
    KeepsSizes pci (Traced.parseFeatureList pci answers start) :=
  .get_bind fun _ => parseFeatureListLoop_keepsSizes _ _

theorem parseStartFrom_keepsSizes (bar : Nat) :
    KeepsSizes pci (Traced.parseStartFrom ans bar) := by
  refine Triple.bind (fun _ g => SizeInv pci g.state.sizing g.record.uafus) (Triple.note ?_)
    fun _ => ?_
  · intro g inv
    have same : (Record.ioremap bar g.state g.record).uafus = g.record.uafus := by
      simp only [Record.ioremap]
      split <;> rfl
    rwa [same]
  · have keeps : ∀ s, Sizes s (Enum.parseStartFrom ans bar) s := by
      intro s
      refine Triple.get_bind fun w same => Triple.ite (fun _ => Triple.modify ?_) fun _ =>
        Triple.ite (fun _ => Triple.modify ?_) fun _ => Triple.throw fun _ _ => trivial
      · rintro _ rfl
        exact same
      · rintro _ rfl
        exact same
    exact Sizes.keepsSizes keeps fun _ _ inv => inv

theorem parsePortsLoop_keepsSizes (fmeHdr : Ptr) (i : Nat) :
    KeepsSizes pci (Traced.parsePortsLoop pci answers fmeHdr i) := by
  induction distance : maxFpgaPortNum - i using Nat.strongRecOn generalizing i with
  | ind distance ih =>
      rw [Traced.parsePortsLoop]
      refine (readq_steady _).keepsSizes.bind fun port => Triple.ite (fun _ => ?_) fun _ =>
        Triple.pure fun _ holds => holds
      refine (called_keepsSizes fun _ => parseStartFrom_keepsSizes _).bind fun _ =>
        (parseFeatureList_keepsSizes _).bind fun _ => ?_
      split
      next more => exact ih _ (by omega) _ rfl
      next last => exact Triple.pure fun _ holds => holds

theorem cciPciCreateFeatureDevs_keepsSizes :
    KeepsSizes pci (Traced.cciPciCreateFeatureDevs pci answers) := by
  refine (called_keepsSizes fun _ => parseStartFrom_keepsSizes 0).bind fun _ =>
    (parseFeatureList_keepsSizes 0).bind fun _ => KeepsSizes.bind (.get_bind fun g => ?_)
      fun _ => called_keepsSizes fun ans => ?_
  · cases g.state.pfmeHdr with
    | none => exact Triple.pure fun _ holds => holds
    | some fmeHdr => exact parsePortsLoop_keepsSizes fmeHdr 0
  · apply Sizes.keepsSizes (fun s => buildInfoCommitDev_sizes)
    intro s uafus inv
    exact ⟨inv.toSized, inv.before, nofun, nofun⟩

end Walk

/-- In every sequence of probes, however they end and whatever the table held before the
first, a UAFU that an AFU header creates has the size that its own port gives, and no port
gets a second one. -/
theorem uafu_size_is_the_ports (uafuSize : Nat) (probes : List (Pci × (Nat → Answers))) :
    ∀ probe ∈ probeAll uafuSize probes, Sized probe.1 probe.2.record.uafus := by
  induction probes generalizing uafuSize with
  | nil => nofun
  | cons first rest ih =>
      intro probe member
      rcases List.mem_cons.mp member with rfl | later
      · have initial : SizeInv first.1 (Traced.start uafuSize).state.sizing [] :=
          ⟨⟨nofun, List.nodup_nil⟩, nofun, nofun, nofun⟩
        have sized : Triple (fun g => SizeInv first.1 g.state.sizing g.record.uafus)
            (Traced.cciPciCreateFeatureDevs first.1 first.2)
            (fun _ g => Sized first.1 g.record.uafus) fun _ g => Sized first.1 g.record.uafus :=
          cciPciCreateFeatureDevs_keepsSizes.consequence (fun _ holds => holds)
            (fun _ _ holds => holds.toSized) fun _ _ holds => holds
        exact sized.at_end initial
      · exact ih _ probe later

/-- A port at the start of BAR 0 with an AFU of 1024 bytes behind it. -/
def Pci.onePort : Pci := .small fun offset =>
  if offset = 0 then 0x4000010000000001 else if offset = 24 then 0x800
  else if offset = 48 then 0x100 else 0

/-- A probe of that card after one of a card without ports, with a size left in the table. -/
theorem uafu_size_is_the_ports_one :
    ∃ final, (probeAll 4096 [(.fmeOnly, fun _ => .granted), (.onePort, fun _ => .granted)])[1]? =
        some (.onePort, final) ∧
      final.record.uafus = [⟨⟨0, 0⟩, 1, ⟨⟨0, 0x800⟩, 1024, 0⟩⟩] ∧
      Sized .onePort final.record.uafus :=
  ⟨_, rfl, by decide +kernel, uafu_size_is_the_ports 4096
    [(.fmeOnly, fun _ => .granted), (.onePort, fun _ => .granted)] (.onePort, _) (.tail _ (.head _))⟩

end OpaeXilinx.Enum
