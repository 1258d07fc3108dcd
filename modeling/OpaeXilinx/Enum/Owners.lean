import OpaeXilinx.Enum.Slots

/-!
# Feature devices and their ids

What a round of the walk does to the devices and the ids that they hold, however it ends:
nothing at all, or it commits the current device, or it commits it and begins another one.
A round that goes on has left the current device with a valid id, and has not begun an FME
beside one that is registered.
-/

namespace OpaeXilinx.Enum

open OpaeXilinx.Base

/-- A device, as far as its id goes. -/
structure Owner where
  kind : DevKind
  id : Option Nat
  deriving DecidableEq, Repr

def Dev.owner (dev : Dev) : Owner := ⟨dev.kind, dev.id⟩

/-- The current device and the registered ones. -/
structure Owned where
  dev : Option Owner
  committed : List Owner

def Walk.owned (w : Walk) : Owned := ⟨w.featureDev.map Dev.owner, w.committed.map Dev.owner⟩

namespace Owned

def commit (o : Owned) : Owned := ⟨none, o.dev.toList ++ o.committed⟩

/-- Commit the current device and begin another one. -/
def begin (o : Owned) (kind : DevKind) (id : Option Nat) : Owned :=
    ⟨some ⟨kind, id⟩, o.commit.committed⟩

/-- An FME is registered. -/
def HasFme (o : Owned) : Prop := ∃ owner ∈ o.committed, owner.kind = .fme

/-- What a round that goes on does. -/
inductive Next (ans : Answers) (o : Owned) : Owned → Prop where
  | same : Next ans o o
  | commit : Next ans o o.commit
  | begin (kind : DevKind) (idAlloc : ans.idAlloc = true)
      (single : kind = .fme → ¬ o.commit.HasFme) :
      Next ans o (o.begin kind (some (ans.newId kind)))

/-- What a round that fails may have done. -/
inductive Last (ans : Answers) (o : Owned) : Owned → Prop where
  | same : Last ans o o
  | commit : Last ans o o.commit
  | noId (kind : DevKind) : Last ans o (o.begin kind none)
  | begin (kind : DevKind) (idAlloc : ans.idAlloc = true) :
      Last ans o (o.begin kind (some (ans.newId kind)))

theorem Next.last {ans : Answers} {o after : Owned} (next : Next ans o after) :
    Last ans o after := by
  cases next with
  | same => exact .same
  | commit => exact .commit
  | begin kind idAlloc => exact .begin kind idAlloc

end Owned

section Effect

variable {pci : Pci} {ans : Answers} {hdr : Ptr} {o : Owned} {α β : Type}

/-- A program that leaves the ids as they are, however it ends. -/
abbrev Keeps (program : WalkM α) : Prop :=
  ∀ P : Owned → Prop,
    Triple (fun w => P w.owned) program (fun _ w => P w.owned) fun _ w => P w.owned

theorem Keeps.bind {first : WalkM α} {second : α → WalkM β} (one : Keeps first)
    (two : ∀ value, Keeps (second value)) : Keeps (first >>= second) :=
  Preserves.bind one two

/-- A program that looks at the state. -/
theorem Keeps.get_bind {rest : Walk → WalkM α}
    (each : ∀ w, Triple (fun current => current = w) (rest w) (fun _ after => after.owned = w.owned)
      fun _ after => after.owned = w.owned) : Keeps (get >>= rest) := fun _ =>
  Triple.get_bind fun w holds => (each w).consequence (fun _ same => same)
    (fun _ _ same => same ▸ holds) fun _ _ same => same ▸ holds

theorem Keeps.pure (value : α) : Keeps (Pure.pure value) := Preserves.pure value

theorem Keeps.throw (stop : Stop) : Keeps (MonadExcept.throw stop : WalkM α) := Preserves.throw stop

theorem Keeps.ite {condition : Prop} [Decidable condition] {yes no : WalkM α} (whenTrue : Keeps yes)
    (whenFalse : Keeps no) : Keeps (if condition then yes else no) :=
  Preserves.ite whenTrue whenFalse

theorem Keeps.throwIf {condition : Prop} [Decidable condition] {stop : Stop} :
    Keeps (Base.throwIf condition stop) := Preserves.throwIf

theorem Keeps.runIf {condition : Prop} [Decidable condition] {program : WalkM Unit}
    (keeps : Keeps program) : Keeps (Base.runIf condition program) := Preserves.runIf keeps

theorem Keeps.modify {image : Walk → Walk} (keeps : ∀ w, (image w).owned = w.owned) :
    Keeps (modify image) := Preserves.modify keeps

/-- From a state that is known. -/
theorem Keeps.from {program : WalkM α} (keeps : Keeps program) (w : Walk) :
    Triple (fun current => current = w) program (fun _ after => after.owned = w.owned)
      fun _ after => after.owned = w.owned :=
  (keeps (· = w.owned)).consequence (fun _ same => same ▸ rfl) (fun _ _ holds => holds)
    fun _ _ holds => holds

theorem Keeps.attempt {action : WalkM Unit} (keeps : Keeps action) :
    Keeps (attempt action) := fun P =>
  (attempt_triple (keeps P)).consequence (fun _ holds => holds)
    (fun ret _ holds => by cases ret <;> exact holds) fun _ _ holds => holds

theorem access_keeps (location : Option Ptr) (size : Nat) : Keeps (access location size) :=
  .modify fun _ => rfl

theorem readq_keepsIds (location : Option Ptr) : Keeps (readq pci location) := by
  refine .bind (access_keeps location 8) fun _ => ?_
  cases location with
  | none => exact .throw .oops
  | some ptr => exact .pure _

theorem checkFeaturesHeader_keeps (kind : DevKind) (id : Nat) :
    Keeps (checkFeaturesHeader pci hdr kind id) :=
  .runIf (.bind (readq_keepsIds _) fun _ => .pure ())

theorem touchPort_keeps (count : Nat → Nat) (limit : Nat) : Keeps (touchPort pci count limit) := by
  refine .get_bind fun w => ?_
  cases here : w.featureDev with
  | none => exact (Keeps.throw _).from w
  | some dev =>
      have rest : Keeps (Base.runIf (dev.disableCount = limit) do
          let _ ← readq pci (portControl dev)
          writeq (portControl dev)) :=
        .runIf (.bind (readq_keepsIds _) fun _ => access_keeps _ _)
      refine Triple.bind (fun _ after => after.owned = w.owned) (Triple.modify ?_) fun _ =>
        rest (· = w.owned)
      rintro _ rfl
      simp [Walk.owned, here, Dev.owner]

theorem enablePortUafu_keeps : Keeps (enablePortUafu pci hdr) := by
  refine .bind (readq_keepsIds _) fun _ => .bind (readq_keepsIds _) fun _ =>
    .bind (.modify fun _ => rfl) fun _ => .runIf (.get_bind fun w => ?_)
  exact (Keeps.throwIf.bind fun _ => (touchPort_keeps _ _).bind fun _ => touchPort_keeps _ _).from w

theorem buildInfoAddSubFeature_keeps (finfo : FeatureInfo) (start : Ptr) (vecCnt : Nat) :
    Keeps (buildInfoAddSubFeature ans finfo start vecCnt) := by
  refine .get_bind fun w => ?_
  cases here : w.featureDev with
  | none => exact (Keeps.throw _).from w
  | some dev =>
      refine Triple.bind (fun _ after => after.owned = w.owned) (Triple.modify ?_) fun _ =>
        Triple.bind (fun _ after => after.owned = w.owned)
          (Triple.throwIf (fun _ _ same => same) fun _ _ same => same) fun _ => Triple.modify ?_
      · rintro _ rfl
        rfl
      · intro after same
        rw [← same]
        simp only [Walk.owned, Owned.mk.injEq, here] at same ⊢
        exact ⟨same.1.symm, trivial⟩

theorem createFeatureInstance_keeps (start : Ptr) (finfo : FeatureInfo) (vecCnt : Nat) :
    Keeps (createFeatureInstance pci ans start finfo vecCnt) := by
  refine .get_bind fun w => ?_
  exact (Keeps.throwIf.bind fun _ => (Keeps.runIf (access_keeps _ _)).bind fun _ =>
    buildInfoAddSubFeature_keeps finfo start vecCnt).from w

theorem returnIfError_keeps (ret : Except Errno Unit) : Keeps (returnIfError ret) := by
  cases ret with
  | ok => exact .pure ()
  | error err => exact .throw _

theorem parseFeatureAfu_keeps : Keeps (parseFeatureAfu pci ans hdr) := by
  refine .get_bind fun w => ?_
  cases here : w.featureDev with
  | none => exact (Keeps.throw _).from w
  | some dev =>
      cases isKind : dev.kind with
      | fme =>
          simp only [isKind]
          exact (Keeps.pure ()).from w
      | port =>
          simp only [isKind]
          refine Keeps.from (.get_bind fun w => Keeps.from (.ite ?_ (.throw _)) w) w
          exact (createFeatureInstance_keeps hdr _ 0).attempt.bind fun ret =>
            .bind (.modify fun _ => rfl) fun _ => returnIfError_keeps ret

theorem featureVectors_keeps (start : Ptr) (finfo : FeatureInfo) :
    Keeps (featureVectors pci start finfo) := by
  cases name : finfo.name <;> simp only [featureVectors, name] <;>
    first
    | exact Keeps.pure _
    | exact (readq_keepsIds _).bind fun _ => .pure _

theorem parseFeatureIrqs_keeps (start : Ptr) (finfo : FeatureInfo) :
    Keeps (parseFeatureIrqs pci start finfo) :=
  .ite (.pure _) ((featureVectors_keeps start finfo).bind fun _ => .pure _)

theorem parsePrivateEntry_keeps (kind : DevKind) (table : List FeatureInfo) (id : Nat) :
    Keeps (parsePrivateEntry pci ans kind hdr table id) := by
  cases entry : table[id]? with
  | none =>
      simp only [parsePrivateEntry, entry]
      exact .pure ()
  | some finfo =>
      simp only [parsePrivateEntry, entry]
      exact (parseFeatureIrqs_keeps hdr finfo).bind fun _ =>
        (checkFeaturesHeader_keeps kind id).bind fun _ => createFeatureInstance_keeps _ _ _

theorem parseFeaturePrivate_keeps : Keeps (parseFeaturePrivate pci ans hdr) := by
  refine (readq_keepsIds _).bind fun _ => .get_bind fun w => ?_
  cases here : w.featureDev with
  | none => exact (Keeps.throw _).from w
  | some dev =>
      cases isKind : dev.kind with
      | fme =>
          simp only [isKind]
          exact Keeps.from ((readq_keepsIds _).bind fun _ => parsePrivateEntry_keeps _ _ _) w
      | port =>
          simp only [isKind]
          refine Keeps.from ((readq_keepsIds _).bind fun _ => .get_bind fun w => ?_) w
          exact (parsePrivateEntry_keeps _ _ _).from w

theorem parseStartFrom_keeps (bar : Nat) : Keeps (parseStartFrom ans bar) := by
  refine .get_bind fun w => Keeps.from (.ite ?_ (.ite ?_ (.throw _))) w <;>
    exact Keeps.modify fun _ => rfl

theorem buildInfoCommitDev_owned :
    Triple (fun w => w.owned = o) (buildInfoCommitDev ans) (fun _ w => w.owned = o.commit)
      fun _ w => w.owned = o := by
  apply Triple.get_bind
  intro w same
  subst same
  cases here : w.featureDev with
  | none =>
      apply Triple.pure
      rintro _ rfl
      simp [Walk.owned, Owned.commit, here]
  | some dev =>
      refine Triple.ite (fun _ => Triple.modify ?_) fun _ => Triple.throw ?_
      · rintro _ rfl
        simp [Walk.owned, Owned.commit, here]
      · rintro _ rfl
        rfl

theorem buildInfoCreateDev_owned (kind : DevKind) (fiu : Ptr) :
    Triple (fun w => w.owned = o) (buildInfoCreateDev ans kind fiu)
      (fun _ w => ans.idAlloc = true ∧ w.owned = o.begin kind (some (ans.newId kind)))
      fun _ w => o.Last ans w.owned := by
  refine Triple.bind (fun _ w => w.owned = o.commit)
    (buildInfoCommitDev_owned.consequence (fun _ holds => holds) (fun _ _ holds => holds)
      fun _ _ same => same ▸ .same) fun _ => ?_
  refine Triple.bind (fun _ w => w.owned = o.commit)
    (Triple.throwIf (fun _ _ same => same ▸ .commit) fun _ _ same => same) fun _ => ?_
  refine Triple.bind (fun _ w => w.owned = o.begin kind none) (Triple.modify ?_) fun _ => ?_
  · intro w same
    simp only [Walk.owned, Owned.commit, Owned.mk.injEq] at same
    simp [Walk.owned, Owned.begin, Owned.commit, Dev.owner, same]
  refine Triple.bind (fun _ w => ans.idAlloc = true ∧ w.owned = o.begin kind none)
    (Triple.throwIf (fun _ _ same => same ▸ .noId kind) fun granted _ same =>
      ⟨by simpa using granted, same⟩) fun _ => ?_
  refine Triple.bind
    (fun _ w => ans.idAlloc = true ∧ w.owned = o.begin kind (some (ans.newId kind)))
    (Triple.modify ?_) fun _ => ?_
  · rintro w ⟨granted, same⟩
    refine ⟨granted, ?_⟩
    cases here : w.featureDev with
    | none => simp [Walk.owned, Owned.begin, here] at same
    | some dev =>
        simp only [Walk.owned, Owned.begin, here, Option.map_some, Owned.mk.injEq,
          Option.some.injEq, Dev.owner, Owner.mk.injEq] at same
        simp [Walk.owned, Owned.begin, Dev.owner, same]
  refine Triple.bind
    (fun _ w => ans.idAlloc = true ∧ w.owned = o.begin kind (some (ans.newId kind)))
    (Triple.throwIf (fun _ _ holds => holds.2 ▸ .begin kind holds.1) fun _ _ holds => holds)
      fun _ => ?_
  refine Triple.bind
    (fun _ w => ans.idAlloc = true ∧ w.owned = o.begin kind (some (ans.newId kind)))
    (Triple.modify ?_) fun _ =>
    Triple.throwIf (fun _ _ holds => holds.2 ▸ .begin kind holds.1) fun _ _ holds => holds
  rintro w ⟨granted, same⟩
  refine ⟨granted, ?_⟩
  rw [← same]
  cases here : w.featureDev <;> simp [Walk.owned, Dev.owner, here]

/-- A program that goes on or fails as a round may. -/
abbrev Makes (ans : Answers) (o : Owned) (program : WalkM α) : Prop :=
  Triple (fun w => w.owned = o) program (fun _ w => o.Next ans w.owned)
    fun _ w => o.Last ans w.owned

/-- From a state that is known. -/
theorem Makes.from {w : Walk} {program : WalkM α} (makes : Makes ans o program)
    (same : w.owned = o) :
    Triple (fun current => current = w) program (fun _ after => o.Next ans after.owned)
      fun _ after => o.Last ans after.owned :=
  makes.consequence (fun _ equal => equal ▸ same) (fun _ _ holds => holds) fun _ _ holds => holds

/-- What goes before leaves the ids as they are. -/
theorem Keeps.makes {first : WalkM β} {rest : β → WalkM α} (keeps : Keeps first)
    (makes : ∀ value, Makes ans o (rest value)) : Makes ans o (first >>= rest) :=
  Triple.bind (fun _ w => w.owned = o) ((keeps (· = o)).consequence (fun _ holds => holds)
    (fun _ _ holds => holds) fun _ _ same => same ▸ .same) makes

theorem hasFmeDev_iff (w : Walk) : w.hasFmeDev = true ↔ w.owned.HasFme := by
  simp [Walk.hasFmeDev, Owned.HasFme, Walk.owned, Dev.owner]

theorem parseFeatureFme_owned :
    Makes ans o (parseFeatureFme pci ans hdr) := by
  refine Triple.bind _ (buildInfoCreateDev_owned .fme hdr) fun _ =>
    Triple.get_bind fun w begun => ?_
  obtain ⟨granted, same⟩ := begun
  refine Triple.bind (fun _ after => o.Next ans after.owned) (Triple.throwIf ?_ ?_) fun _ => ?_
  · rintro - _ rfl
    exact same ▸ .begin .fme granted
  · rintro single _ rfl
    rw [same]
    refine .begin .fme granted fun _ hasFme => single ((hasFmeDev_iff _).mpr ?_)
    rw [same]
    exact hasFme
  · exact ((createFeatureInstance_keeps hdr fmeHeaderInfo 0) (o.Next ans)).consequence
      (fun _ holds => holds) (fun _ _ holds => holds) fun _ _ holds => holds.last

theorem parseFeaturePort_owned :
    Makes ans o (parseFeaturePort pci ans hdr) := by
  refine Triple.bind (fun _ w => o.Next ans w.owned)
    ((buildInfoCreateDev_owned .port hdr).consequence (fun _ holds => holds)
      (fun _ _ holds => holds.2 ▸ .begin .port holds.1 nofun) fun _ _ holds => holds) fun _ => ?_
  exact ((createFeatureInstance_keeps hdr portHeaderInfo 0) (o.Next ans)).consequence
    (fun _ holds => holds) (fun _ _ holds => holds) fun _ _ holds => holds.last

/-- What comes between the attempt to make a device and the look at its result. -/
theorem attempt_owned {action : WalkM Unit} (makes : Makes ans o action) (between : WalkM Unit)
    (keeps : Keeps between) :
    Makes ans o (do let ret ← attempt action; between; returnIfError ret) := by
  apply Triple.bind _ (attempt_triple makes)
  intro ret
  cases ret with
  | ok => exact Triple.bind _ ((keeps (o.Next ans)).consequence (fun _ holds => holds)
      (fun _ _ holds => holds) fun _ _ holds => holds.last) fun _ =>
        Triple.pure fun _ holds => holds
  | error err => exact Triple.bind _ (keeps (o.Last ans)) fun _ => Triple.throw fun _ holds => holds

theorem parseFiuDevice_owned (header : Csr) :
    Makes ans o (parseFiuDevice pci ans hdr header) := by
  refine Triple.ite (fun _ => ?_) fun _ => Triple.ite (fun _ => ?_) fun _ =>
    Triple.pure fun _ same => same ▸ .same
  · refine attempt_owned parseFeatureFme_owned (do
      checkFeaturesHeader pci hdr .fme 0
      modify fun w => { w with pfmeHdr := some hdr }) ?_
    exact (checkFeaturesHeader_keeps .fme 0).bind fun _ => .modify fun _ => rfl
  · refine attempt_owned parseFeaturePort_owned (do
      checkFeaturesHeader pci hdr .port 0
      enablePortUafu pci hdr) ?_
    exact (checkFeaturesHeader_keeps .port 0).bind fun _ => enablePortUafu_keeps

/-- A program whose end may have made a device before. -/
theorem Keeps.after {program : WalkM α} (keeps : Keeps program) :
    Triple (fun w => o.Next ans w.owned) program (fun _ w => o.Next ans w.owned)
      fun _ w => o.Last ans w.owned :=
  (keeps (o.Next ans)).consequence (fun _ holds => holds) (fun _ _ holds => holds)
    fun _ _ holds => holds.last

theorem Keeps.next {program : WalkM α} (keeps : Keeps program) : Makes ans o program :=
  (keeps (· = o)).consequence (fun _ holds => holds) (fun _ _ same => same ▸ .same)
    fun _ _ same => same ▸ .same

theorem parseFeatureFiu_owned :
    Makes ans o (parseFeatureFiu pci ans hdr) := by
  refine Keeps.makes (.modify fun _ => rfl) fun _ => (readq_keepsIds _).makes fun header => ?_
  apply Triple.bind _ (parseFiuDevice_owned header)
  intro _
  exact ((readq_keepsIds _).bind fun _ => .runIf parseFeatureAfu_keeps).after

theorem parseFeature_owned :
    Makes ans o (parseFeature pci ans hdr) := by
  refine (readq_keepsIds _).makes fun _ => Triple.ite (fun _ => parseFeatureAfu_keeps.next) fun _ =>
    Triple.ite (fun _ => parseFeaturePrivate_keeps.next) fun _ =>
    Triple.ite (fun _ => parseFeatureFiu_owned) fun _ => (access_keeps _ _).next

theorem parseFeatureListRound_owned (start port : Nat) :
    Makes ans o (parseFeatureListRound pci ans start port) := by
  apply Triple.get_bind
  intro w same
  refine Makes.from (Triple.ite (fun _ => ?_) fun _ => (Keeps.pure _).next) same
  refine Keeps.throwIf.makes fun _ => Triple.bind _ parseFeature_owned fun _ => ?_
  exact ((readq_keepsIds _).bind fun _ => .ite (.pure _) (.pure _)).after

theorem finish_owned :
    Makes ans o (finish ans) :=
  Triple.bind _ (buildInfoCommitDev_owned.consequence (fun _ holds => holds)
    (fun _ _ holds => holds) fun _ _ same => same ▸ .same) fun _ =>
    Triple.pure fun _ same => same ▸ .commit

theorem parsePortsRound_owned (i : Nat) :
    Makes ans o (parsePortsRound pci ans i) := by
  apply Triple.get_bind
  intro w same
  refine Makes.from ?_ same
  cases w.pfmeHdr with
  | none => exact finish_owned
  | some fmeHdr =>
      refine Triple.ite (fun _ => ?_) fun _ => finish_owned
      exact (readq_keepsIds _).makes fun _ =>
          Triple.ite (fun _ => ((parseStartFrom_keeps _).bind fun _ => .pure _).next) fun _ =>
        finish_owned

/-- A round goes on, or it fails. -/
theorem advance_owned (pci : Pci) (ans : Answers) (w : Walk) :
    w.owned.Next ans (advance pci ans w).owned ∨
      (∃ stop, (advance pci ans w).pc = .finished (.error stop)) ∧
        w.owned.Last ans (advance pci ans w).owned := by
  have rounds : Triple (fun current => current = w) (round pci ans w)
      (fun _ after => w.owned.Next ans after.owned) fun _ after =>
          w.owned.Last ans after.owned := by
    simp only [round]
    cases w.pc with
    | scan start port => exact (parseFeatureListRound_owned start port).from rfl
    | ports i => exact (parsePortsRound_owned i).from rfl
    | finished result => exact (Keeps.pure _).next.from rfl
  simp only [advance]
  cases result : round pci ans w w with
  | ok pc after =>
      have next := rounds.of_ok rfl result
      exact .inl next
  | error stop after =>
      have last := rounds.of_error rfl result
      exact .inr ⟨⟨stop, rfl⟩, last⟩

end Effect

end OpaeXilinx.Enum
