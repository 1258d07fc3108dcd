import OpaeXilinx.Enum.Traced

/-!
# The order of the walk

Which headers the walk parses is a function of the registers: the chain of headers in
BAR 0, and behind it, for every port that the FME header announces, the chain in the BAR
of that port.  What `parse_feature` makes of a header plays no part, except that the walk
ends where it fails.
-/

namespace OpaeXilinx.Enum

open OpaeXilinx.Base

/-- The chain of headers that starts at an offset of a BAR. -/
def Pci.chain (pci : Pci) (bar start : Nat) : List Call :=
  if start < pci.len bar then
    if pci.len bar - start < featureHeaderSize then [.tooSmall]
    else
      .header ⟨bar, start⟩ ::
        if _last : (pci.csr bar start).eol = true ∨ (pci.csr bar start).nextHeaderOffset = 0 then []
        else pci.chain bar (start + (pci.csr bar start).nextHeaderOffset)
  else []
termination_by pci.len bar - start

/-- The header is that of an FME. -/
def Pci.isFme (pci : Pci) (hdr : Ptr) : Prop :=
  (pci.csr hdr.bar hdr.offset).type = featureTypeFiu ∧
    (pci.csr hdr.bar hdr.offset).id = featureFiuIdFme

instance (pci : Pci) (hdr : Ptr) : Decidable (pci.isFme hdr) :=
  inferInstanceAs (Decidable (_ ∧ _))

/-- The FME headers among the calls. -/
def Pci.fmeHeaders (pci : Pci) (calls : List Call) : List Ptr :=
  calls.filterMap fun
    | .header hdr => if pci.isFme hdr then some hdr else none
    | _ => none

theorem Pci.fmeHeaders_cons (pci : Pci) (call : Call) (rest : List Call) :
    pci.fmeHeaders (call :: rest) = pci.fmeHeaders [call] ++ pci.fmeHeaders rest :=
  List.filterMap_append (l := [call])

/-- The register of a port of an FME. -/
def Pci.port (pci : Pci) (fmeHdr : Ptr) (i : Nat) : Csr :=
  pci.csr fmeHdr.bar (fmeHdr.offset + fmePortOffset i)

/-- The registers of the ports of an FME from a number on, up to the first that is not
implemented. -/
def Pci.ports (pci : Pci) (fmeHdr : Ptr) (i : Nat) : List Csr :=
  ((List.range' i (maxFpgaPortNum - i)).map (pci.port fmeHdr)).takeWhile Csr.portImplemented

/-- Mapping the BAR of a port and walking the chain there. -/
def Pci.portCalls (pci : Pci) (port : Csr) : List Call :=
  .startFrom port.portBar :: pci.chain port.portBar port.portOffset

/-- Everything the walk does unless something fails.  A second FME header would replace the
first. -/
def Pci.script (pci : Pci) : List Call :=
  .startFrom 0 :: pci.chain 0 0 ++
    (match (pci.fmeHeaders (pci.chain 0 0)).getLast? with
      | none => []
      | some fmeHdr => (pci.ports fmeHdr 0).flatMap pci.portCalls) ++
    [.commit]

/-- Every header of a chain fits into its BAR, and none of them is before the start. -/
theorem chain_inside {pci : Pci} {bar start : Nat} {call : Call}
    (member : call ∈ pci.chain bar start) :
    call = .tooSmall ∨ ∃ offset, call = .header ⟨bar, offset⟩ ∧ start ≤ offset ∧
      offset + featureHeaderSize ≤ pci.len bar := by
  induction distance : pci.len bar - start using Nat.strongRecOn generalizing start with
  | ind distance ih =>
      rw [Pci.chain] at member
      split at member
      next inside =>
        split at member
        · exact .inl (List.mem_singleton.mp member)
        rcases List.mem_cons.mp member with rfl | later
        · exact .inr ⟨start, rfl, Nat.le_refl _, by omega⟩
        split at later
        next => cases later
        next more =>
          rw [not_or] at more
          rcases ih _ (by omega) later rfl with small | ⟨offset, isHeader, after, fits⟩
          · exact .inl small
          · exact .inr ⟨offset, isHeader, by omega, fits⟩
      next => cases member

/-- A chain never returns to a header. -/
theorem chain_nodup (pci : Pci) (bar start : Nat) : (pci.chain bar start).Nodup := by
  induction distance : pci.len bar - start using Nat.strongRecOn generalizing start with
  | ind distance ih =>
      rw [Pci.chain]
      split
      next inside =>
        split
        · simp
        split
        next => simp
        next more =>
          rw [not_or] at more
          refine List.nodup_cons.mpr ⟨?_, ih _ (by omega) _ rfl⟩
          intro again
          rcases chain_inside again with small | ⟨offset, same, after, -⟩
          · cases small
          · cases same
            omega
      next => simp

/-- What the walk needs to find its way. -/
structure Ground where
  currentBar : Nat
  regions : List Nat
  pfmeHdr : Option Ptr
  deriving DecidableEq

def Walk.ground (w : Walk) : Ground := ⟨w.currentBar, w.regions, w.pfmeHdr⟩

/-- The FME headers have been met, the last one last. -/
def Ground.meet (g : Ground) (fmeHdrs : List Ptr) : Ground :=
  { g with pfmeHdr := fmeHdrs.getLast?.or g.pfmeHdr }

@[simp] theorem Ground.meet_nil (g : Ground) : g.meet [] = g := rfl

theorem Ground.meet_append (g : Ground) (one two : List Ptr) :
    g.meet (one ++ two) = (g.meet one).meet two := by
  simp only [meet, List.getLast?_append]
  cases two.getLast? <;> rfl

section Grounded

variable {pci : Pci} {ans : Answers} {hdr : Ptr} {α : Type}

/-- A program that stays where it is. -/
abbrev Grounded (program : WalkM α) : Prop := Preserves Walk.ground program

theorem Steady.grounded {program : WalkM α} (steady : Steady program) : Grounded program :=
  fun P => steady fun c => P ⟨c.currentBar, c.regions, c.pfmeHdr⟩

theorem Grounded.attempt {action : WalkM Unit} (grounded : Grounded action) :
    Grounded (attempt action) := fun P =>
  (attempt_triple (grounded P)).consequence (fun _ holds => holds)
    (fun ret _ holds => by cases ret <;> exact holds) fun _ _ holds => holds

theorem returnIfError_grounded (ret : Except Errno Unit) : Grounded (returnIfError ret) := by
  cases ret with
  | ok => exact .pure ()
  | error err => exact .throw _

theorem buildInfoCommitDev_grounded : Grounded (buildInfoCommitDev ans) := by
  refine .get_bind fun w => ?_
  cases w.featureDev with
  | none => exact .pure ()
  | some dev => exact .ite (.modify fun _ => rfl) (.throw _)

theorem buildInfoCreateDev_grounded (kind : DevKind) (fiu : Ptr) :
    Grounded (buildInfoCreateDev ans kind fiu) := by
  refine .bind buildInfoCommitDev_grounded fun _ => .bind .throwIf fun _ => ?_
  refine .bind (.modify fun _ => rfl) fun _ => .bind .throwIf fun _ => ?_
  refine .bind (.modify fun _ => rfl) fun _ => .bind .throwIf fun _ => ?_
  exact .bind (.modify fun _ => rfl) fun _ => .throwIf

theorem parseFeatureFme_grounded : Grounded (parseFeatureFme pci ans hdr) :=
  .bind (buildInfoCreateDev_grounded _ _) fun _ => .get_bind fun _ => .bind .throwIf fun _ =>
    (createFeatureInstance_steady _ _ _).grounded

theorem parseFeaturePort_grounded : Grounded (parseFeaturePort pci ans hdr) :=
  (buildInfoCreateDev_grounded _ _).bind fun _ => (createFeatureInstance_steady _ _ _).grounded

theorem enablePortUafu_grounded : Grounded (enablePortUafu pci hdr) := by
  refine .bind (readq_steady _).grounded fun _ => .bind (readq_steady _).grounded fun _ => ?_
  exact .bind (.modify fun _ => rfl) fun _ => .runIf fpgaPortReset_steady.grounded

theorem parseFeatureAfu_grounded : Grounded (parseFeatureAfu pci ans hdr) := by
  refine .get_bind fun w => ?_
  cases w.featureDev with
  | none => exact .throw _
  | some dev =>
      cases isKind : dev.kind with
      | fme =>
          simp only [isKind]
          exact .pure ()
      | port =>
          simp only [isKind]
          refine .get_bind fun w => .ite ?_ (.throw _)
          exact .bind (createFeatureInstance_steady hdr _ 0).grounded.attempt fun ret =>
            .bind (.modify fun _ => rfl) fun _ => returnIfError_grounded ret

theorem readq_reads {g : Ground} (ptr : Ptr) :
    Triple (fun w => w.ground = g) (readq pci (some ptr))
      (fun value w => value = pci.csr ptr.bar ptr.offset ∧ w.ground = g) fun _ _ => False :=
  fun _ same => ⟨rfl, same⟩

/-- A program that stays where it is, when its failure does not matter. -/
theorem Grounded.stays {program : WalkM α} (grounded : Grounded program) (g : Ground) :
    Triple (fun w => w.ground = g) program (fun _ w => w.ground = g) fun _ _ => True :=
  (grounded (· = g)).consequence (fun _ same => same) (fun _ _ same => same) fun _ _ _ => trivial

/-- After the switch over the id of an FIU, the FME header is the last one met. -/
theorem parseFiuDevice_ground {header : Csr} {g : Ground} :
    Triple (fun w => w.ground = g) (parseFiuDevice pci ans hdr header)
      (fun _ w => w.ground = if header.id = featureFiuIdFme then g.meet [hdr] else g)
      fun _ _ => True := by
  refine Triple.ite (fun isFme => ?_) fun notFme => ?_
  · rw [if_pos isFme]
    refine Triple.bind _ (parseFeatureFme_grounded.attempt.stays g) fun ret =>
      Triple.bind _ ((checkFeaturesHeader_steady _ _).grounded.stays g) fun _ =>
      Triple.bind (fun _ w => w.ground = g.meet [hdr]) (Triple.modify ?_) fun _ =>
        (returnIfError_grounded ret).stays _
    rintro w rfl
    rfl
  · rw [if_neg notFme]
    have rest : Grounded (if header.id = featureFiuIdPort then do
        let ret ← attempt (parseFeaturePort pci ans hdr)
        checkFeaturesHeader pci hdr .port 0
        enablePortUafu pci hdr
        returnIfError ret
      else return) := by
      refine .ite ?_ (.pure ())
      exact .bind parseFeaturePort_grounded.attempt fun ret =>
        .bind (checkFeaturesHeader_steady _ _).grounded fun _ =>
          .bind enablePortUafu_grounded fun _ => returnIfError_grounded ret
    exact rest.stays g

theorem parseStartFrom_ground {w₀ : Walk} (bar : Nat) :
    Triple (fun w => w = w₀) (parseStartFrom ans bar)
      (fun _ w => w.ground = ⟨bar, if bar ∈ w₀.regions then w₀.regions else bar :: w₀.regions,
        w₀.pfmeHdr⟩)
      fun _ _ => True := by
  apply Triple.get_bind
  intro w same
  subst same
  refine Triple.ite (fun known => Triple.modify ?_) fun fresh =>
    Triple.ite (fun _ => Triple.modify ?_) fun _ => Triple.throw fun _ _ => trivial
  · rintro _ rfl
    rw [if_pos known]
    rfl
  · rintro _ rfl
    rw [if_neg fresh]
    rfl

/-- Parsing a header stays where it is, and an FME header is the last one met. -/
theorem parseFeature_ground {g : Ground} :
    Triple (fun w => w.ground = g) (parseFeature pci ans hdr)
      (fun _ w => w.ground = g.meet (pci.fmeHeaders [.header hdr])) fun _ _ => True := by
  have met : g.meet (pci.fmeHeaders [.header hdr]) =
      if pci.isFme hdr then g.meet [hdr] else g := by
    by_cases isFme : pci.isFme hdr <;> simp [Pci.fmeHeaders, isFme]
  rw [met]
  refine Triple.bind _ ((readq_reads hdr).consequence (fun _ same => same)
    (fun _ _ holds => holds) fun _ _ impossible => impossible.elim) fun header => ?_
  rintro w ⟨rfl, same⟩
  revert w
  refine Triple.ite (fun isAfu => ?_) fun notAfu => Triple.ite (fun isPrivate => ?_)
    fun notPrivate => Triple.ite (fun isFiu => ?_) fun notFiu => ?_
  · rw [if_neg (by simp [Pci.isFme, isAfu, featureTypeAfu, featureTypeFiu])]
    exact parseFeatureAfu_grounded.stays g
  · rw [if_neg (by simp [Pci.isFme, isPrivate, featureTypePrivate, featureTypeFiu])]
    exact parseFeaturePrivate_steady.grounded.stays g
  · refine Triple.bind (fun _ w => w.ground = g) (Triple.modify fun _ same => same) fun _ => ?_
    refine Triple.bind _ ((readq_reads hdr).consequence (fun _ same => same)
      (fun _ _ holds => holds) fun _ _ impossible => impossible.elim) fun header => ?_
    rintro w ⟨rfl, same⟩
    revert w
    apply Triple.bind _ parseFiuDevice_ground
    intro _
    have rest : Grounded (do
        let fiuHeader ← readq pci (some (hdr.add fiuCsrOffset))
        runIf (fiuHeader.nextAfu ≠ 0)
          (parseFeatureAfu pci ans (hdr.add fiuHeader.nextAfu))) :=
      (readq_steady _).grounded.bind fun _ => .runIf parseFeatureAfu_grounded
    simpa only [Pci.isFme, isFiu, true_and] using rest.stays _
  · rw [if_neg (fun isFme => notFiu isFme.1)]
    exact (access_steady _ _).grounded.stays g

end Grounded

/-! ## Following the script -/

/-- The BARs that the kernel has been asked for are the mapped ones, each once. -/
def Traced.Mapped (g : Traced) : Prop :=
  g.record.ioremaps = g.state.regions ∧ g.state.regions.Nodup

/-- The calls recorded since `g₀` follow the script. -/
def Traced.Logged (g₀ g : Traced) (script : List Call) (result : Except Stop Unit) : Prop :=
  ∃ log, g.record.calls = g₀.record.calls ++ log ∧ Follows script log result

/-- From the given state, the program makes the calls of the script up to the first that
fails, and asks the kernel for no BAR twice. -/
def Performs (g₀ : Traced) (script : List Call) (program : TraceM α)
    (post : α → Walk → Prop) : Prop :=
  Triple (fun g => g = g₀) program
    (fun value g => post value g.state ∧ (g₀.Mapped → g.Mapped) ∧ g₀.Logged g script (.ok ()))
    fun stop g => (g₀.Mapped → g.record.ioremaps.Nodup) ∧ g₀.Logged g script (.error stop)

namespace Performs

variable {α β : Type} {g₀ : Traced} {script more : List Call}

theorem pure {value : α} {post : α → Walk → Prop} (holds : post value g₀.state) :
    Performs g₀ [] (Pure.pure value) post := by
  rintro g rfl
  exact ⟨holds, id, [], by simp, .done⟩

theorem bind {first : TraceM α} {second : α → TraceM β} {middle : α → Walk → Prop}
    {post : β → Walk → Prop} (one : Performs g₀ script first middle)
    (two : ∀ value g, middle value g.state → Performs g more (second value) post) :
    Performs g₀ (script ++ more) (first >>= second) post := by
  refine Triple.bind_at _ (one.consequence (fun _ same => same) (fun _ _ holds => holds) ?_) ?_
  · rintro stop g ⟨nodup, log, calls, follows⟩
    exact ⟨nodup, log, calls, follows.append_failed⟩
  · rintro value g ⟨holds, mapped, log, calls, follows⟩
    apply (two value g holds).consequence (fun _ same => same)
    · rintro value after ⟨holds, mappedAfter, logAfter, callsAfter, followsAfter⟩
      refine ⟨holds, fun begun => mappedAfter (mapped begun), log ++ logAfter, ?_,
        follows.append followsAfter⟩
      rw [callsAfter, calls, List.append_assoc]
    · rintro stop after ⟨nodup, logAfter, callsAfter, followsAfter⟩
      refine ⟨fun begun => nodup (mapped begun), log ++ logAfter, ?_, follows.append followsAfter⟩
      rw [callsAfter, calls, List.append_assoc]

theorem weaken {program : TraceM α} {post post' : α → Walk → Prop}
    (performs : Performs g₀ script program post) (weaker : ∀ value w, post value w → post' value w) :
    Performs g₀ script program post' :=
  performs.consequence (fun _ same => same) (fun value g holds => ⟨weaker value g.state holds.1,
    holds.2⟩) fun _ _ holds => holds

/-- One call, and what follows it. -/
theorem cons {call : Call} {first : TraceM α} {second : α → TraceM β} {middle : α → Walk → Prop}
    {post : β → Walk → Prop} (one : Performs g₀ [call] first middle)
    (two : ∀ value g, middle value g.state → Performs g more (second value) post) :
    Performs g₀ (call :: more) (first >>= second) post :=
  one.bind two

/-- What makes no call plays no part. -/
theorem skip {first : TraceM α} {second : α → TraceM β} {middle : α → Walk → Prop}
    {post : β → Walk → Prop} (one : Performs g₀ [] first middle)
    (two : ∀ value g, middle value g.state → Performs g more (second value) post) :
    Performs g₀ more (first >>= second) post :=
  one.bind two

/-- Looking at the state. -/
theorem get_bind {rest : Traced → TraceM α} {post : α → Walk → Prop}
    (each : Performs g₀ script (rest g₀) post) : Performs g₀ script (get >>= rest) post := by
  rintro g rfl
  exact each g rfl

theorem logged {program : TraceM Unit} {post : Unit → Walk → Prop}
    (performs : Performs g₀ script program post) :
    g₀.Logged (endState (program g₀)) script (outcome (program g₀)) := by
  cases result : program g₀ with
  | ok value after => exact (performs.of_ok rfl result).2.2
  | error stop after => exact (performs.of_error rfl result).2

theorem mapsOnce {program : TraceM Unit} {post : Unit → Walk → Prop}
    (performs : Performs g₀ script program post) (mapped : g₀.Mapped) :
    (endState (program g₀)).record.ioremaps.Nodup := by
  cases result : program g₀ with
  | ok value after =>
      obtain ⟨same, nodup⟩ := (performs.of_ok rfl result).2.1 mapped
      exact same ▸ nodup
  | error stop after => exact (performs.of_error rfl result).1 mapped

end Performs

section Walk

variable {pci : Pci} {ans : Answers} {answers : Nat → Answers} {hdr : Ptr} {g₀ : Traced}

/-- A recorded call of a program that records no other. -/
theorem called_performs {call : Call} {program : Answers → TraceM Unit}
    {post : Unit → Walk → Prop}
    (silent : ∀ ans, Triple (fun g => g = g₀) (program ans)
      (fun value g => post value g.state ∧ (g₀.Mapped → g.Mapped) ∧
        g.record.calls = g₀.record.calls)
      fun _ g => (g₀.Mapped → g.record.ioremaps.Nodup) ∧ g.record.calls = g₀.record.calls) :
    Performs g₀ [call] (Traced.called answers call program) post := by
  refine Performs.get_bind (Triple.noting ?_)
  apply (silent _).consequence (fun _ same => same)
  · rintro value g ⟨holds, mapped, same⟩
    exact ⟨holds, mapped, [(call, .ok ())], by simp [Record.call, same], .single call _⟩
  · rintro stop g ⟨nodup, same⟩
    exact ⟨nodup, [(call, .error stop)], by simp [Record.call, same], .single call _⟩

/-- Reading a register. -/
theorem readq_performs (ptr : Ptr) :
    Performs g₀ [] (lift (readq pci (some ptr))) fun value w =>
      value = pci.csr ptr.bar ptr.offset ∧ w.ground = g₀.state.ground := by
  rintro g rfl
  exact ⟨⟨rfl, rfl⟩, id, [], by simp, .done⟩

/-- The parts of the record that only the loops write to. -/
def Record.outer (r : Record) : List (Call × Except Stop Unit) × List Nat := (r.calls, r.ioremaps)

theorem parseFeatureAfu_outer :
    Preserves (fun g : Traced => g.record.outer) (Traced.parseFeatureAfu pci ans hdr) := by
  refine .get_bind fun g => ?_
  cases g.state.featureDev with
  | none => exact .lift _
  | some dev =>
      cases isKind : dev.kind with
      | fme =>
          simp only [isKind]
          exact .pure ()
      | port =>
          simp only [isKind]
          refine .bind (.lift _) fun _ => .modify fun g => ?_
          simp only [Record.uafu, Record.outer]
          split <;> rfl

theorem parseFeature_outer :
    Preserves (fun g : Traced => g.record.outer) (Traced.parseFeature pci ans hdr) := by
  refine .bind (.lift _) fun _ => .ite parseFeatureAfu_outer (.ite (.lift _) (.ite ?_ (.lift _)))
  exact .bind (.lift _) fun _ => .bind (.lift _) fun _ => .bind (.lift _) fun _ =>
    .bind (.lift _) fun _ => .runIf parseFeatureAfu_outer

theorem parseFeature_performs :
    Performs g₀ [.header hdr]
      (Traced.called answers (.header hdr) fun ans => Traced.parseFeature pci ans hdr)
      fun _ w => w.ground = g₀.state.ground.meet (pci.fmeHeaders [.header hdr]) := by
  apply called_performs
  intro ans
  have plain : Triple (fun w => w.ground = g₀.state.ground) (parseFeature pci ans hdr) _ _ :=
    parseFeature_ground
  have ground := Traced.parseFeature_erases.triple plain
  have outer : Triple (fun g : Traced => g.record.outer = g₀.record.outer)
      (Traced.parseFeature pci ans hdr) _ _ := parseFeature_outer (· = g₀.record.outer)
  apply (ground.and outer).consequence
  · rintro _ rfl
    exact ⟨rfl, rfl⟩
  · rintro _ g ⟨ground, outer⟩
    simp only [Record.outer, Prod.mk.injEq] at outer
    refine ⟨ground, fun mapped => ?_, outer.1⟩
    have regions : g.state.regions = g₀.state.regions := congrArg Ground.regions ground
    rw [Traced.Mapped, regions, outer.2]
    exact mapped
  · rintro _ g ⟨-, outer⟩
    simp only [Record.outer, Prod.mk.injEq] at outer
    refine ⟨fun mapped => ?_, outer.1⟩
    rw [outer.2, mapped.1]
    exact mapped.2

theorem parseFeatureListLoop_performs (bar start : Nat) :
    Performs g₀ (pci.chain bar start)
      (Traced.parseFeatureListLoop pci answers bar (pci.len bar) start)
      fun _ w => w.ground = g₀.state.ground.meet (pci.fmeHeaders (pci.chain bar start)) := by
  induction distance : pci.len bar - start using Nat.strongRecOn generalizing g₀ start with
  | ind distance ih =>
      rw [Traced.parseFeatureListLoop, Pci.chain]
      split
      next inside =>
        split
        next small =>
          apply called_performs
          intro ans
          rintro g rfl
          exact ⟨fun mapped => mapped.1 ▸ mapped.2, rfl⟩
        next room =>
          apply parseFeature_performs.cons
          intro _ g parsed
          apply (readq_performs _).skip
          intro header g' reads
          obtain ⟨rfl, same⟩ := reads
          rw [parsed] at same
          split
          next last => exact .pure same
          next more =>
            rw [not_or] at more
            let next := start + (pci.csr bar start).nextHeaderOffset
            have further : Performs g' (pci.chain bar next) _ _ :=
              ih (pci.len bar - next) (by omega) next rfl
            apply further.weaken
            intro _ w ground
            rw [ground, same, Pci.fmeHeaders_cons pci (.header ⟨bar, start⟩) (pci.chain bar next),
              Ground.meet_append]
      next outside => exact .pure rfl

/-- `parse_feature_list` parses the headers of the chain in the current BAR. -/
theorem parseFeatureList_performs (start : Nat) :
    Performs g₀ (pci.chain g₀.state.currentBar start) (Traced.parseFeatureList pci answers start)
      fun _ w => w.ground =
        g₀.state.ground.meet (pci.fmeHeaders (pci.chain g₀.state.currentBar start)) :=
  .get_bind (parseFeatureListLoop_performs _ _)

theorem parseStartFrom_performs (bar : Nat) :
    Performs g₀ [.startFrom bar]
      (Traced.called answers (.startFrom bar) fun ans => Traced.parseStartFrom ans bar)
      fun _ w => w.currentBar = bar ∧ w.pfmeHdr = g₀.state.pfmeHdr := by
  apply called_performs
  intro ans
  refine Triple.bind (fun _ g => g.state = g₀.state ∧ g.record = .ioremap bar g₀.state g₀.record)
    (Triple.note ?_) fun _ => ?_
  · rintro _ rfl
    exact ⟨rfl, rfl⟩
  refine ((parseStartFrom_ground bar).lift (· = .ioremap bar g₀.state g₀.record)).consequence
    (fun _ holds => holds) ?_ ?_
  · rintro _ g ⟨ground, record⟩
    refine ⟨⟨congrArg Ground.currentBar ground, congrArg Ground.pfmeHdr ground⟩, ?_, ?_⟩
    · have regions : g.state.regions = _ := congrArg Ground.regions ground
      rintro ⟨same, nodup⟩
      rw [Traced.Mapped, regions, record, Record.ioremap]
      split
      next known => exact ⟨same, nodup⟩
      next fresh => exact ⟨congrArg _ same, List.nodup_cons.mpr ⟨fresh, nodup⟩⟩
    · rw [record, Record.ioremap]
      split <;> rfl
  · rintro _ g ⟨-, record⟩
    rw [record, Record.ioremap]
    split
    next known => exact ⟨fun mapped => mapped.1 ▸ mapped.2, rfl⟩
    next fresh =>
      refine ⟨fun mapped => List.nodup_cons.mpr ⟨?_, ?_⟩, rfl⟩ <;> rw [mapped.1]
      · exact fresh
      · exact mapped.2

/-- The loop over the ports, from a number on. -/
theorem parsePortsLoop_performs (fmeHdr : Ptr) (i : Nat) (bound : i < maxFpgaPortNum) :
    Performs g₀ ((pci.ports fmeHdr i).flatMap pci.portCalls)
      (Traced.parsePortsLoop pci answers fmeHdr i) fun _ _ => True := by
  induction distance : maxFpgaPortNum - i generalizing g₀ i with
  | zero => omega
  | succ left ih =>
      have rest : maxFpgaPortNum - (i + 1) = left := by omega
      rw [Traced.parsePortsLoop, Pci.ports, distance, List.range'_succ, List.map_cons]
      apply (readq_performs _).skip
      intro port g reads
      obtain rfl : port = pci.port fmeHdr i := reads.1
      by_cases implemented : (pci.port fmeHdr i).portImplemented
      · rw [List.takeWhile_cons_of_pos implemented, List.flatMap_cons, Pci.portCalls,
          List.cons_append, if_pos implemented]
        apply (parseStartFrom_performs _).cons
        intro _ g' switched
        rw [← switched.1]
        apply (parseFeatureList_performs _).bind
        intro _ g'' _
        split
        next more =>
          have further : Performs g'' _ _ _ := ih (i + 1) more rest
          rw [Pci.ports, rest] at further
          exact further
        next last =>
          have none : left = 0 := by omega
          subst none
          exact .pure trivial
      · rw [List.takeWhile_cons_of_neg implemented, if_neg implemented]
        exact .pure trivial

theorem parsePortsFromFme_performs :
    Performs g₀ (match g₀.state.pfmeHdr with
        | none => []
        | some fmeHdr => (pci.ports fmeHdr 0).flatMap pci.portCalls)
      (Traced.parsePortsFromFme pci answers) fun _ _ => True := by
  refine .get_bind ?_
  cases g₀.state.pfmeHdr with
  | none => exact .pure trivial
  | some fmeHdr => exact parsePortsLoop_performs fmeHdr 0 (by decide)

/-- The walk as a whole makes the calls of the script. -/
theorem cciPciCreateFeatureDevs_performs (uafuSize : Nat) :
    Performs (Traced.start uafuSize) pci.script (Traced.cciPciCreateFeatureDevs pci answers)
      fun _ _ => True := by
  rw [Pci.script, List.append_assoc, List.cons_append]
  apply (parseStartFrom_performs 0).cons
  intro _ g switched
  have list : Performs g _ (Traced.parseFeatureList pci answers 0) _ :=
    parseFeatureList_performs 0
  rw [switched.1] at list
  apply list.bind
  intro _ g' ground
  have found : g'.state.pfmeHdr = (pci.fmeHeaders (pci.chain 0 0)).getLast? := by
    have met : g'.state.pfmeHdr = _ := congrArg Ground.pfmeHdr ground
    rw [met]
    show Option.or _ g.state.pfmeHdr = _
    rw [switched.2]
    exact Option.or_none
  rw [← found]
  refine parsePortsFromFme_performs.bind fun _ g'' _ => called_performs fun ans => ?_
  refine ((buildInfoCommitDev_grounded (· = g''.state.ground)).lift (· = g''.record)).consequence
    ?_ ?_ ?_
  · rintro _ rfl
    exact ⟨rfl, rfl⟩
  · rintro _ after ⟨same, record⟩
    refine ⟨trivial, fun mapped => ?_, by rw [record]⟩
    have regions : after.state.regions = g''.state.regions := congrArg Ground.regions same
    rw [Traced.Mapped, regions, record]
    exact mapped
  · rintro _ after ⟨-, record⟩
    rw [record]
    exact ⟨fun mapped => mapped.1 ▸ mapped.2, rfl⟩

end Walk

/-- `parse_feature_list` ends on every device and from every offset, and what it has
called then is the chain of headers from there, each once, up to the first call that fails.
`cci_pci_create_feature_devs` walks the chain of BAR 0 and then the chains of the ports
that the FME header announces, up to the first failure, and maps no BAR twice. -/
theorem walk_follows_script (pci : Pci) (answers : Nat → Answers) :
    (∀ (g : Traced) (start : Nat),
      let run := Traced.parseFeatureList pci answers start g
      (pci.chain g.state.currentBar start).Nodup ∧
      ∃ log, (endState run).record.calls = g.record.calls ++ log ∧
        Follows (pci.chain g.state.currentBar start) log (outcome run)) ∧
    ∀ uafuSize,
      let run := Traced.cciPciCreateFeatureDevs pci answers (Traced.start uafuSize)
      Follows pci.script (endState run).record.calls (outcome run) ∧
      (endState run).record.ioremaps.Nodup := by
  refine ⟨fun g start => ?_, fun uafuSize => ?_⟩
  · exact ⟨chain_nodup pci _ _, (parseFeatureList_performs start).logged⟩
  · have performs : Performs (Traced.start uafuSize) pci.script
      (Traced.cciPciCreateFeatureDevs pci answers) _ := cciPciCreateFeatureDevs_performs uafuSize
    obtain ⟨log, calls, follows⟩ := performs.logged
    refine ⟨?_, performs.mapsOnce ⟨rfl, List.nodup_nil⟩⟩
    rw [calls]
    exact follows

end OpaeXilinx.Enum
