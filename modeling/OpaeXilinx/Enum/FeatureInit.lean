import Mathlib.Data.Fin.VecNotation
import Mathlib.Data.List.FinRange
import Mathlib.Logic.Function.Iterate
import OpaeXilinx.Base.Transition
import OpaeXilinx.Base.Triple

/-!
# Initialisation of the features

`fpga_dev_feature_init` goes through the table of feature drivers and, for each of them,
through the slots of the device.  It initialises the features of the driver's name and notes
the driver's operations in the slot.  When a call fails, the slots that have operations are
uninitialised again, in the order of the slots.
-/

namespace OpaeXilinx.Enum

open OpaeXilinx.Base

/-- `struct feature_ops`, told apart by a number.  `test` may be null. -/
structure FeatureOps where
  id : Nat
  test : Bool
  deriving DecidableEq, Repr

/-- `struct feature`.  A slot without a feature has no name. -/
structure Feature where
  name : Option String
  ops : Option FeatureOps
  deriving DecidableEq, Repr

/-- `struct feature_driver`.  Null operations end the table. -/
structure FeatureDriver where
  name : String
  ops : Option FeatureOps
  deriving DecidableEq, Repr

/-- A call of one of the operations, with what it returned. -/
inductive FeatureCall (num : Nat) where
  | test (slot : Fin num) (ops : FeatureOps) (ret : Int)
  | init (slot : Fin num) (ops : FeatureOps) (ret : Int)
  | uinit (slot : Fin num) (ops : FeatureOps)
  deriving DecidableEq, Repr

/-- `struct feature_platform_data`, and the calls so far. -/
structure PlatformData (num : Nat) where
  features : Fin num → Feature
  calls : List (FeatureCall num)

abbrev FeatureM (num : Nat) := EStateM Int (PlatformData num)

section Functions

variable {num : Nat}

/-- Set `ops` of a feature. -/
def PlatformData.setOps (pdata : PlatformData num) (slot : Fin num) (ops : Option FeatureOps) :
    PlatformData num :=
  { pdata with features := Function.update pdata.features slot { pdata.features slot with ops } }

/-- Record a call. -/
def PlatformData.called (pdata : PlatformData num) (call : FeatureCall num) : PlatformData num :=
  { pdata with calls := pdata.calls ++ [call] }

/-- Call an operation; the answers tell what each call returns. -/
def callOp (answers : Nat → Int) (call : Int → FeatureCall num) : FeatureM num Int := fun pdata =>
  let ret := answers pdata.calls.length
  .ok ret (pdata.called (call ret))

def featureInstanceInit (answers : Nat → Int) (slot : Fin num) (ops : FeatureOps) :
    FeatureM num Unit := do
  runIf (ops.test = true) do
    let ret ← callOp answers (.test slot ops)
    throwIf (ret ≠ 0) ret
  let ret ← callOp answers (.init slot ops)
  throwIf (ret ≠ 0) ret
  modify (·.setOps slot (some ops))

/-- The loop over the slots. -/
def initSlots (answers : Nat → Int) (name : String) (ops : FeatureOps) :
    List (Fin num) → FeatureM num Unit
  | [] => return
  | slot :: slots => do
      -- a slot without a name is skipped
      runIf (((← get).features slot).name = some name) (featureInstanceInit answers slot ops)
      initSlots answers name ops slots

/-- The loop over the drivers. -/
def initDrivers (answers : Nat → Int) : List FeatureDriver → FeatureM num Unit
  | [] => return
  | drv :: drvs =>
      match drv.ops with
      | none => return
      | some ops => do
          initSlots answers drv.name ops (List.finRange num)
          initDrivers answers drvs

def uinitSlot (pdata : PlatformData num) (slot : Fin num) : PlatformData num :=
  match (pdata.features slot).ops with
  | none => pdata
  | some ops => (pdata.called (.uinit slot ops)).setOps slot none

def fpgaDevFeatureUinit (pdata : PlatformData num) : PlatformData num :=
  (List.finRange num).foldl uinitSlot pdata

def fpgaDevFeatureInit (answers : Nat → Int) (drvs : List FeatureDriver)
    (pdata : PlatformData num) : Int × PlatformData num :=
  match initDrivers answers drvs pdata with
  | .ok () pdata => (0, pdata)
  | .error ret pdata => (ret, fpgaDevFeatureUinit pdata)

end Functions

section Counting

variable {num : Nat}

namespace FeatureCall

/-- The slot that a call is for. -/
def slot : FeatureCall num → Fin num
  | .test slot _ _ | .init slot _ _ | .uinit slot _ => slot

/-- The operations that a call belongs to. -/
def ops : FeatureCall num → FeatureOps
  | .test _ ops _ | .init _ ops _ | .uinit _ ops => ops

end FeatureCall

namespace PlatformData

/-- How often the feature has been initialised with the operations. -/
def inits (pdata : PlatformData num) (slot : Fin num) (ops : FeatureOps) : Nat :=
  pdata.calls.count (.init slot ops 0)

/-- How often it has been uninitialised with them. -/
def uinits (pdata : PlatformData num) (slot : Fin num) (ops : FeatureOps) : Nat :=
  pdata.calls.count (.uinit slot ops)

/-- Every feature has been initialised as often as uninitialised, and once more with the
operations that it has. -/
def Balanced (pdata : PlatformData num) : Prop :=
  ∀ slot ops, pdata.inits slot ops =
    pdata.uinits slot ops + if (pdata.features slot).ops = some ops then 1 else 0

/-- No feature has operations. -/
def Bare (pdata : PlatformData num) : Prop := ∀ slot, (pdata.features slot).ops = none

theorem Bare.not_some {pdata : PlatformData num} (bare : pdata.Bare) (slot : Fin num)
    (ops : FeatureOps) : (pdata.features slot).ops ≠ some ops := by
  rw [bare slot]
  exact nofun

/-- Where nothing is in use, everything initialised has been uninitialised. -/
theorem Balanced.uinits_eq {pdata : PlatformData num} (balanced : pdata.Balanced)
    (bare : pdata.Bare) (slot : Fin num) (ops : FeatureOps) :
    pdata.uinits slot ops = pdata.inits slot ops := by
  rw [balanced slot ops, if_neg (bare.not_some slot ops)]
  rfl

theorem balanced_fresh {pdata : PlatformData num} (bare : pdata.Bare) (fresh : pdata.calls = []) :
    pdata.Balanced := by
  intro slot ops
  rw [inits, uinits, fresh, if_neg (bare.not_some slot ops)]
  rfl

theorem setOps_self (pdata : PlatformData num) (slot : Fin num) (ops : Option FeatureOps) :
    ((pdata.setOps slot ops).features slot).ops = ops := by
  simp [setOps]

theorem setOps_other (pdata : PlatformData num) {slot other : Fin num} (differs : other ≠ slot)
    (ops : Option FeatureOps) : (pdata.setOps slot ops).features other = pdata.features other := by
  simp [setOps, differs]

theorem setOps_name (pdata : PlatformData num) (slot other : Fin num) (ops : Option FeatureOps) :
    ((pdata.setOps slot ops).features other).name = (pdata.features other).name := by
  by_cases same : other = slot
  · subst same
    simp [setOps]
  · rw [setOps_other pdata same]

theorem inits_called (pdata : PlatformData num) (call : FeatureCall num) (slot : Fin num)
    (ops : FeatureOps) : (pdata.called call).inits slot ops =
      pdata.inits slot ops + if call = .init slot ops 0 then 1 else 0 := by
  rw [inits, called, List.count_append, List.count_singleton]
  simp [inits]

theorem uinits_called (pdata : PlatformData num) (call : FeatureCall num) (slot : Fin num)
    (ops : FeatureOps) : (pdata.called call).uinits slot ops =
      pdata.uinits slot ops + if call = .uinit slot ops then 1 else 0 := by
  rw [uinits, called, List.count_append, List.count_singleton]
  simp [uinits]

end PlatformData

end Counting

/-- The drivers before the end of the table. -/
def driverTable (drvs : List FeatureDriver) : List FeatureDriver :=
  drvs.takeWhile (·.ops.isSome)

/-- The operations are those of a driver of the name. -/
def Serves (drvs : List FeatureDriver) (name : Option String) (ops : FeatureOps) : Prop :=
  ∃ drv ∈ drvs, name = some drv.name ∧ drv.ops = some ops

section Served

variable {num : Nat} {answers : Nat → Int} {table : List FeatureDriver}
  {names : Fin num → Option String} {pdata : PlatformData num}

/-- Features have operations of their own driver only, and only these are called for them. -/
structure Served (table : List FeatureDriver) (names : Fin num → Option String)
    (pdata : PlatformData num) : Prop where
  name : ∀ slot, (pdata.features slot).name = names slot
  stored : ∀ slot ops, (pdata.features slot).ops = some ops → Serves table (names slot) ops
  called : ∀ call ∈ pdata.calls, Serves table (names call.slot) call.ops

theorem served_fresh (bare : pdata.Bare) (fresh : pdata.calls = []) :
    Served table (fun slot => (pdata.features slot).name) pdata := by
  refine ⟨fun _ => rfl, fun slot ops has => absurd has (bare.not_some slot ops), ?_⟩
  rw [fresh]
  exact nofun

namespace Served

theorem call (served : Served table names pdata) {call : FeatureCall num}
    (serves : Serves table (names call.slot) call.ops) : Served table names (pdata.called call) := by
  refine ⟨served.name, served.stored, fun other member => ?_⟩
  rcases List.mem_append.mp member with before | new
  · exact served.called other before
  · rw [List.mem_singleton.mp new]
    exact serves

theorem setOps (served : Served table names pdata) {slot : Fin num} {new : Option FeatureOps}
    (serves : ∀ ops, new = some ops → Serves table (names slot) ops) :
    Served table names (pdata.setOps slot new) := by
  refine ⟨fun other => (pdata.setOps_name ..).trans (served.name other), fun other ops has => ?_,
    served.called⟩
  by_cases same : other = slot
  · subst same
    rw [pdata.setOps_self] at has
    exact serves ops has
  · rw [pdata.setOps_other same] at has
    exact served.stored other ops has

theorem uinitSlot (served : Served table names pdata) (slot : Fin num) :
    Served table names (uinitSlot pdata slot) := by
  rw [Enum.uinitSlot]
  cases has : (pdata.features slot).ops with
  | none => exact served
  | some ops =>
      have called : Served table names (pdata.called (.uinit slot ops)) :=
        served.call (served.stored slot ops has)
      exact called.setOps nofun

theorem uinit (served : Served table names pdata) : Served table names (fpgaDevFeatureUinit pdata) := by
  rw [fpgaDevFeatureUinit]
  generalize List.finRange num = slots
  induction slots generalizing pdata with
  | nil => exact served
  | cons slot slots ih => exact ih (served.uinitSlot slot)

theorem uinits (served : Served table names pdata) (calls : Nat) :
    Served table names (fpgaDevFeatureUinit^[calls] pdata) := by
  induction calls generalizing pdata with
  | zero => exact served
  | succ calls ih => exact ih served.uinit

end Served

theorem callOp_served {call : Int → FeatureCall num}
    (serves : ∀ ret, Serves table (names (call ret).slot) (call ret).ops) :
    Maintains (Served table names) (callOp answers call) :=
  fun _ served => served.call (serves _)

theorem featureInstanceInit_served {slot : Fin num} {ops : FeatureOps}
    (serves : Serves table (names slot) ops) :
    Maintains (Served table names) (featureInstanceInit answers slot ops) := by
  apply Maintains.bind
  · apply Maintains.runIf
    exact Maintains.bind (callOp_served fun _ => serves) fun _ => Maintains.throwIf
  intro _
  refine Maintains.bind (callOp_served fun _ => serves) fun _ =>
    Maintains.bind Maintains.throwIf fun _ => Maintains.modify fun _ served => ?_
  exact served.setOps fun _ same => Option.some.inj same ▸ serves

theorem initSlots_served {drv : FeatureDriver} {ops : FeatureOps} (listed : drv ∈ table)
    (has : drv.ops = some ops) (slots : List (Fin num)) :
    Maintains (Served table names) (initSlots answers drv.name ops slots) := by
  induction slots with
  | nil => exact Maintains.pure ()
  | cons slot slots ih =>
      refine Triple.get_bind fun pdata served => Triple.bind (fun _ => Served table names)
        (Triple.runIf (fun named => ?_) fun _ _ same => same ▸ served) fun _ => ih
      rw [served.name] at named
      exact (featureInstanceInit_served ⟨drv, listed, named, has⟩).consequence
        (fun _ same => same ▸ served) (fun _ _ holds => holds) fun _ _ holds => holds

theorem initDrivers_served {drvs : List FeatureDriver} (listed : ∀ drv ∈ driverTable drvs, drv ∈ table) :
    Maintains (Served table names) (initDrivers answers drvs) := by
  induction drvs with
  | nil => exact Maintains.pure ()
  | cons drv drvs ih =>
      rw [initDrivers]
      cases has : drv.ops with
      | none => exact Maintains.pure ()
      | some ops =>
          have split : driverTable (drv :: drvs) = drv :: driverTable drvs :=
            List.takeWhile_cons_of_pos (by simp [has])
          rw [split] at listed
          exact Maintains.bind (initSlots_served (listed drv List.mem_cons_self) has _) fun _ =>
            ih fun other member => listed other (List.mem_cons_of_mem _ member)

/-- However the initialisation ends, drivers have been called for their own features only. -/
theorem fpgaDevFeatureInit_served (answers : Nat → Int) (drvs : List FeatureDriver)
    (served : Served (driverTable drvs) names pdata) :
    Served (driverTable drvs) names (fpgaDevFeatureInit answers drvs pdata).2 := by
  have maintains : Maintains (Served (driverTable drvs) names) (initDrivers answers drvs) :=
    initDrivers_served fun _ member => member
  rw [fpgaDevFeatureInit]
  cases result : initDrivers answers drvs pdata with
  | ok _ after => exact maintains.of_ok served result
  | error _ after => exact Served.uinit (maintains.of_error served result)

end Served

section Uninit

variable {num : Nat} {pdata : PlatformData num}

/-- One slot is bared; what it had is uninitialised. -/
theorem uinitSlot_spec (balanced : pdata.Balanced) (slot : Fin num) :
    (uinitSlot pdata slot).Balanced ∧ ((uinitSlot pdata slot).features slot).ops = none ∧
      (∀ other, other ≠ slot →
        (uinitSlot pdata slot).features other = pdata.features other) ∧
      ∀ other, (uinitSlot pdata slot).inits other = pdata.inits other := by
  rw [uinitSlot]
  cases has : (pdata.features slot).ops with
  | none => exact ⟨balanced, has, fun _ _ => rfl, fun _ => rfl⟩
  | some ops =>
      have inits : ∀ other, ((pdata.called (.uinit slot ops)).setOps slot none).inits other =
          pdata.inits other := by
        intro other
        funext theirs
        exact pdata.inits_called (.uinit slot ops) other theirs
      refine ⟨fun other theirs => ?_, PlatformData.setOps_self .., fun other differs =>
        PlatformData.setOps_other _ differs none, inits⟩
      have uinits : ((pdata.called (.uinit slot ops)).setOps slot none).uinits other theirs =
          pdata.uinits other theirs +
            if FeatureCall.uinit slot ops = .uinit other theirs then 1 else 0 :=
        pdata.uinits_called (.uinit slot ops) other theirs
      rw [inits, uinits, balanced other theirs]
      by_cases same : slot = other
      · subst same
        rw [PlatformData.setOps_self, has]
        simp only [FeatureCall.uinit.injEq, true_and, Option.some.injEq, reduceCtorEq, if_false]
        rfl
      · rw [PlatformData.setOps_other _ (Ne.symm same),
          if_neg fun equal => same (FeatureCall.uinit.inj equal).1]
        rfl

/-- All slots of a list are bared. -/
theorem uinitSlots_spec (balanced : pdata.Balanced) (slots : List (Fin num)) :
    (slots.foldl uinitSlot pdata).Balanced ∧
      (∀ slot, slot ∈ slots ∨ (pdata.features slot).ops = none →
        ((slots.foldl uinitSlot pdata).features slot).ops = none) ∧
      ∀ slot, (slots.foldl uinitSlot pdata).inits slot = pdata.inits slot := by
  induction slots generalizing pdata with
  | nil =>
      refine ⟨balanced, fun slot bare => ?_, fun _ => rfl⟩
      exact bare.resolve_left List.not_mem_nil
  | cons head slots ih =>
      obtain ⟨here, bare, others, inits⟩ := uinitSlot_spec balanced head
      obtain ⟨rest, restBare, restInits⟩ := ih here
      refine ⟨rest, fun slot listed => restBare slot ?_, fun slot =>
        (restInits slot).trans (inits slot)⟩
      by_cases same : slot = head
      · exact .inr (same ▸ bare)
      · rcases listed with member | none
        · exact .inl ((List.mem_cons.mp member).resolve_left same)
        · exact .inr (by rw [others slot same]; exact none)

theorem fpgaDevFeatureUinit_spec (balanced : pdata.Balanced) :
    (fpgaDevFeatureUinit pdata).Balanced ∧ (fpgaDevFeatureUinit pdata).Bare ∧
      ∀ slot, (fpgaDevFeatureUinit pdata).inits slot = pdata.inits slot := by
  obtain ⟨kept, bare, inits⟩ := uinitSlots_spec balanced (List.finRange num)
  exact ⟨kept, fun slot => bare slot (.inl (List.mem_finRange slot)), inits⟩

theorem uinitSlots_bare (bare : pdata.Bare) (slots : List (Fin num)) :
    slots.foldl uinitSlot pdata = pdata := by
  induction slots with
  | nil => rfl
  | cons head slots ih =>
      rw [List.foldl_cons, uinitSlot, bare head]
      exact ih

/-- Where there is nothing left to uninitialise, nothing is called. -/
theorem fpgaDevFeatureUinit_bare (bare : pdata.Bare) : fpgaDevFeatureUinit pdata = pdata :=
  uinitSlots_bare bare _

end Uninit

section Init

variable {num : Nat} {answers : Nat → Int} {names : Fin num → Option String}
  {count : Fin num → FeatureOps → Nat} {covered : Fin num → FeatureOps → Prop}

/-- The covered features have been initialised with the operations, and nothing else has happened
to any since each had been uninitialised a number of times. -/
structure Covers (names : Fin num → Option String) (count : Fin num → FeatureOps → Nat)
    (covered : Fin num → FeatureOps → Prop) (pdata : PlatformData num) : Prop where
  name : ∀ slot, (pdata.features slot).name = names slot
  initialised : ∀ slot ops, covered slot ops →
    (pdata.features slot).ops = some ops ∧ pdata.inits slot ops = count slot ops + 1
  bare : ∀ slot ops, ¬ covered slot ops →
    (pdata.features slot).ops ≠ some ops ∧ pdata.inits slot ops = count slot ops
  uinits : ∀ slot ops, pdata.uinits slot ops = count slot ops

namespace Covers

theorem balanced {pdata : PlatformData num} (covers : Covers names count covered pdata) :
    pdata.Balanced := by
  intro slot ops
  rw [covers.uinits slot ops]
  by_cases inside : covered slot ops
  · obtain ⟨has, once⟩ := covers.initialised slot ops inside
    rw [once, if_pos has]
  · obtain ⟨none, never⟩ := covers.bare slot ops inside
    rw [never, if_neg none]
    rfl

theorem congr {pdata : PlatformData num} {covered' : Fin num → FeatureOps → Prop}
    (covers : Covers names count covered pdata)
    (same : ∀ slot ops, covered slot ops ↔ covered' slot ops) :
    Covers names count covered' pdata := by
  have equal : covered' = covered := by
    funext slot ops
    exact propext (same slot ops).symm
  rwa [equal]

/-- A call that neither initialises nor uninitialises changes nothing. -/
theorem called {pdata : PlatformData num} (covers : Covers names count covered pdata)
    {call : FeatureCall num} (noInit : ∀ slot ops, call ≠ .init slot ops 0)
    (noUinit : ∀ slot ops, call ≠ .uinit slot ops) :
    Covers names count covered (pdata.called call) := by
  have inits (slot : Fin num) (ops : FeatureOps) :
      (pdata.called call).inits slot ops = pdata.inits slot ops := by
    rw [pdata.inits_called, if_neg (noInit slot ops)]
    rfl
  refine ⟨covers.name, fun slot ops inside => ?_, fun slot ops outside => ?_, fun slot ops => ?_⟩
  · rw [inits]
    exact covers.initialised slot ops inside
  · rw [inits]
    exact covers.bare slot ops outside
  · rw [pdata.uinits_called, if_neg (noUinit slot ops)]
    exact covers.uinits slot ops

/-- A feature has been initialised and got its operations. -/
theorem add {pdata : PlatformData num} (covers : Covers names count covered pdata)
    {slot : Fin num} (new : ∀ ops, ¬ covered slot ops) (ops : FeatureOps) :
    Covers names count (fun other theirs => covered other theirs ∨ other = slot ∧ theirs = ops)
      ((pdata.called (.init slot ops 0)).setOps slot (some ops)) := by
  have inits (other : Fin num) (theirs : FeatureOps) :
      ((pdata.called (.init slot ops 0)).setOps slot (some ops)).inits other theirs =
        pdata.inits other theirs +
          if FeatureCall.init slot ops 0 = .init other theirs 0 then 1 else 0 :=
    pdata.inits_called (.init slot ops 0) other theirs
  refine ⟨fun other => ?_, fun other theirs inside => ?_, fun other theirs outside => ?_,
    fun other theirs => ?_⟩
  · rw [PlatformData.setOps_name]
    exact covers.name other
  · rw [inits]
    rcases inside with before | ⟨rfl, rfl⟩
    · have differs : other ≠ slot := fun same => new theirs (same ▸ before)
      rw [PlatformData.setOps_other _ differs,
        if_neg fun same => differs (FeatureCall.init.inj same).1.symm]
      exact covers.initialised other theirs before
    · rw [PlatformData.setOps_self, (covers.bare _ _ (new theirs)).2, if_pos rfl]
      exact ⟨rfl, rfl⟩
  · have differs : ¬ (other = slot ∧ theirs = ops) := fun same => outside (.inr same)
    have bare := covers.bare other theirs fun inside => outside (.inl inside)
    rw [inits, if_neg fun same => differs ⟨(FeatureCall.init.inj same).1.symm,
      (FeatureCall.init.inj same).2.1.symm⟩]
    refine ⟨?_, bare.2⟩
    by_cases same : other = slot
    · subst same
      rw [PlatformData.setOps_self]
      exact fun equal => differs ⟨rfl, (Option.some.inj equal).symm⟩
    · rw [PlatformData.setOps_other _ same]
      exact bare.1
  · apply (pdata.uinits_called (.init slot ops 0) other theirs).trans
    rw [covers.uinits, if_neg nofun]
    rfl

end Covers

/-- A feature is initialised, or the call that failed has left everything as it was. -/
theorem featureInstanceInit_spec {slot : Fin num} (new : ∀ ops, ¬ covered slot ops)
    (ops : FeatureOps) :
    Triple (Covers names count covered) (featureInstanceInit answers slot ops)
      (fun _ => Covers names count fun other theirs =>
        covered other theirs ∨ other = slot ∧ theirs = ops)
      (fun ret after => ret ≠ 0 ∧ Covers names count covered after) := by
  let covered' (other : Fin num) (theirs : FeatureOps) : Prop :=
    covered other theirs ∨ other = slot ∧ theirs = ops
  refine Triple.bind (fun _ => Covers names count covered)
    (Triple.runIf (fun _ => ?_) fun _ _ kept => kept) fun _ => ?_
  · refine Triple.bind (fun _ => Covers names count covered)
      (fun _ kept => kept.called (fun _ _ => nofun) fun _ _ => nofun) fun ret => ?_
    exact Triple.throwIf (fun failed _ kept => ⟨failed, kept⟩) fun _ _ kept => kept
  · refine Triple.bind (fun ret after => (ret ≠ 0 → Covers names count covered after) ∧
      (ret = 0 → Covers names count covered' (after.setOps slot (some ops)))) ?_ fun ret => ?_
    · intro pdata covers
      refine ⟨fun failed => covers.called ?_ fun _ _ => nofun, fun ok => ?_⟩
      · exact fun other theirs same => failed (FeatureCall.init.inj same).2.2
      · show Covers names count _ ((pdata.called (.init slot ops _)).setOps slot (some ops))
        rw [show answers pdata.calls.length = 0 from ok]
        exact covers.add new ops
    · refine Triple.bind (fun _ after => Covers names count covered' (after.setOps slot (some ops)))
        (Triple.throwIf ?_ ?_) fun _ => Triple.modify ?_
      · exact fun failed _ kept => ⟨failed, kept.1 failed⟩
      · exact fun ok _ kept => kept.2 (Decidable.not_not.mp ok)
      · exact fun _ kept => kept

/-- A driver initialises the features of its name among the slots. -/
theorem initSlots_spec {name : String} {ops : FeatureOps} {slots : List (Fin num)}
    (distinct : slots.Nodup)
    (new : ∀ slot ∈ slots, names slot = some name → ∀ ops, ¬ covered slot ops) :
    Triple (Covers names count covered) (initSlots answers name ops slots)
      (fun _ => Covers names count fun slot theirs =>
        covered slot theirs ∨ (slot ∈ slots ∧ names slot = some name) ∧ theirs = ops)
      (fun ret after => ret ≠ 0 ∧ ∃ covered', Covers names count covered' after) := by
  induction slots generalizing covered with
  | nil =>
      refine Triple.pure fun _ covers => covers.congr fun slot theirs => ?_
      simp
  | cons slot slots ih =>
      obtain ⟨absent, rest⟩ := List.nodup_cons.mp distinct
      refine Triple.get_bind fun pdata covers => Triple.bind
        (fun _ => Covers names count fun other theirs =>
          covered other theirs ∨ (other = slot ∧ names other = some name) ∧ theirs = ops)
        (Triple.runIf (fun named => ?_) fun unnamed current same => ?_) fun _ => ?_
      · rw [covers.name] at named
        refine (featureInstanceInit_spec (new slot (.head _) named) ops).consequence
          (fun _ same => same ▸ covers) (fun _ _ kept => ?_) fun _ _ failed => ?_
        · refine kept.congr fun other theirs => or_congr_right (and_congr_left fun _ => ?_)
          exact ⟨fun same => ⟨same, same ▸ named⟩, And.left⟩
        · exact ⟨failed.1, covered, failed.2⟩
      · rw [covers.name] at unnamed
        subst same
        refine covers.congr fun other theirs => ⟨.inl, fun inside => inside.resolve_right ?_⟩
        rintro ⟨⟨rfl, named⟩, -⟩
        exact unnamed named
      · refine (ih rest ?_).consequence (fun _ kept => kept) (fun _ _ kept => ?_)
          fun _ _ failed => failed
        · rintro other member named theirs (before | ⟨⟨rfl, -⟩, -⟩)
          · exact new other (.tail _ member) named theirs before
          · exact absent member
        · apply kept.congr
          intro other theirs
          rw [List.mem_cons, or_assoc, ← or_and_right, ← or_and_right]

/-- The drivers initialise the features of their names. -/
theorem initDrivers_spec {drvs done : List FeatureDriver}
    (distinct : ((done ++ driverTable drvs).map FeatureDriver.name).Nodup) :
    Triple (Covers names count fun slot => Serves done (names slot))
      (initDrivers answers drvs)
      (fun _ => Covers names count fun slot => Serves (done ++ driverTable drvs) (names slot))
      (fun ret after => ret ≠ 0 ∧ ∃ covered', Covers names count covered' after) := by
  induction drvs generalizing done with
  | nil =>
      rw [driverTable, List.takeWhile_nil, List.append_nil]
      exact Triple.pure fun _ covers => covers
  | cons drv drvs ih =>
      rw [initDrivers]
      cases has : drv.ops with
      | none =>
          rw [driverTable, List.takeWhile_cons_of_neg (by simp [has]), List.append_nil]
          exact Triple.pure fun _ covers => covers
      | some ops =>
          have table : driverTable (drv :: drvs) = drv :: driverTable drvs :=
            List.takeWhile_cons_of_pos (by simp [has])
          rw [table, ← List.singleton_append, ← List.append_assoc] at distinct ⊢
          refine Triple.bind
            (fun _ => Covers names count fun slot => Serves (done ++ [drv]) (names slot))
            ?_ fun _ => ih distinct
          refine (initSlots_spec (List.nodup_finRange num) ?_).consequence
            (fun _ covers => covers) (fun _ _ kept => ?_) fun _ _ failed => failed
          · rintro slot - named _ ⟨other, member, same, -⟩
            rw [List.map_append, List.map_append] at distinct
            obtain ⟨-, -, apart⟩ := List.nodup_append.mp (List.nodup_append.mp distinct).1
            apply apart other.name (List.mem_map_of_mem member) drv.name (by simp)
            exact Option.some.inj (same.symm.trans named)
          · apply kept.congr
            intro slot theirs
            simp only [Serves, List.mem_append, List.mem_singleton, List.mem_finRange, true_and,
              or_and_right, exists_or, exists_eq_left, has, Option.some.injEq, eq_comm (a := ops)]

/-- Where nothing is in use, nothing is covered. -/
theorem PlatformData.Balanced.covers {pdata : PlatformData num} (balanced : pdata.Balanced)
    (bare : pdata.Bare) :
    Covers (fun slot => (pdata.features slot).name) pdata.uinits
      (fun slot => Serves [] (pdata.features slot).name) pdata where
  name _ := rfl
  initialised _ _ inside := by
    obtain ⟨_, member, -⟩ := inside
    cases member
  bare slot ops _ := ⟨bare.not_some slot ops, (balanced.uinits_eq bare slot ops).symm⟩
  uinits _ _ := rfl

namespace Covers

variable {pdata : PlatformData num}

theorem inits_le (covers : Covers names count covered pdata) (slot : Fin num) (ops : FeatureOps) :
    pdata.inits slot ops ≤ count slot ops + 1 := by
  by_cases inside : covered slot ops
  · exact Nat.le_of_eq (covers.initialised slot ops inside).2
  · exact Nat.le_succ_of_le (Nat.le_of_eq (covers.bare slot ops inside).2)

theorem ops_iff (covers : Covers names count covered pdata) (slot : Fin num) (ops : FeatureOps) :
    (pdata.features slot).ops = some ops ↔ covered slot ops := by
  by_cases inside : covered slot ops
  · exact iff_of_true (covers.initialised slot ops inside).1 inside
  · exact iff_of_false (covers.bare slot ops inside).1 inside

theorem inits_iff (covers : Covers names count covered pdata) (slot : Fin num) (ops : FeatureOps) :
    count slot ops < pdata.inits slot ops ↔ covered slot ops := by
  by_cases inside : covered slot ops
  · refine iff_of_true ?_ inside
    rw [(covers.initialised slot ops inside).2]
    exact Nat.lt_succ_self _
  · refine iff_of_false ?_ inside
    rw [(covers.bare slot ops inside).2]
    exact Nat.lt_irrefl _

end Covers

end Init

/-! ## All or nothing -/

section AllOrNothing

variable {num : Nat}

/-- What has been initialised is in use, and can only be uninitialised as a whole, with the
operations of the driver of its name throughout. -/
structure AllOrNothing (drvs : List FeatureDriver) (before : PlatformData num) (ret : Int)
    (after : PlatformData num) : Prop where
  served : Served (driverTable drvs) (fun slot => (before.features slot).name) after
  ops : ∀ slot ops, (after.features slot).ops = some ops ↔
    0 < after.inits slot ops ∧ after.uinits slot ops = 0
  initialised : ret = 0 → ∀ slot ops, (after.features slot).ops = some ops ↔
    Serves (driverTable drvs) (before.features slot).name ops
  undone : ret ≠ 0 → after.Bare ∧ ∀ slot ops, after.inits slot ops ≤ 1 ∧
    after.uinits slot ops = after.inits slot ops
  later : ∀ calls, Served (driverTable drvs) (fun slot => (before.features slot).name)
      (fpgaDevFeatureUinit^[calls + 1] after) ∧
    (fpgaDevFeatureUinit^[calls + 1] after).Bare ∧ ∀ slot ops, after.inits slot ops ≤ 1 ∧
      (fpgaDevFeatureUinit^[calls + 1] after).uinits slot ops = after.inits slot ops

/-- Any number of later calls uninitialises what is in use once. -/
theorem uinit_later {pdata : PlatformData num} (balanced : pdata.Balanced) (calls : Nat) :
    (fpgaDevFeatureUinit^[calls + 1] pdata).Bare ∧
      ∀ slot ops, (fpgaDevFeatureUinit^[calls + 1] pdata).uinits slot ops =
        pdata.inits slot ops := by
  obtain ⟨kept, bare, inits⟩ := fpgaDevFeatureUinit_spec balanced
  have same : fpgaDevFeatureUinit^[calls + 1] pdata = fpgaDevFeatureUinit pdata := by
    rw [Function.iterate_succ_apply]
    exact Function.iterate_fixed (fpgaDevFeatureUinit_bare bare) calls
  rw [same]
  refine ⟨bare, fun slot ops => ?_⟩
  rw [kept.uinits_eq bare slot ops, inits]

/-- From a state where nothing is in use, all drivers initialise their features, or nothing is
in use again. -/
theorem fpgaDevFeatureInit_spec (answers : Nat → Int) {drvs : List FeatureDriver}
    {pdata : PlatformData num} (distinct : ((driverTable drvs).map FeatureDriver.name).Nodup)
    (balanced : pdata.Balanced) (bare : pdata.Bare) :
    ((fpgaDevFeatureInit answers drvs pdata).1 = 0 ∧
      Covers (fun slot => (pdata.features slot).name) pdata.uinits
        (fun slot => Serves (driverTable drvs) (pdata.features slot).name)
        (fpgaDevFeatureInit answers drvs pdata).2) ∨
    ((fpgaDevFeatureInit answers drvs pdata).1 ≠ 0 ∧
      (fpgaDevFeatureInit answers drvs pdata).2.Balanced ∧
      (fpgaDevFeatureInit answers drvs pdata).2.Bare ∧
      ∀ slot ops, (fpgaDevFeatureInit answers drvs pdata).2.inits slot ops ≤
        pdata.uinits slot ops + 1) := by
  have triple := @initDrivers_spec num answers (fun slot => (pdata.features slot).name)
    pdata.uinits drvs [] distinct
  have covers := balanced.covers bare
  rw [fpgaDevFeatureInit]
  cases result : initDrivers answers drvs pdata with
  | ok _ after => exact .inl ⟨rfl, triple.of_ok covers result⟩
  | error ret after =>
      obtain ⟨nonzero, covered, covers⟩ := triple.of_error covers result
      obtain ⟨kept, bare, inits⟩ := fpgaDevFeatureUinit_spec covers.balanced
      refine .inr ⟨nonzero, kept, bare, fun slot ops => ?_⟩
      rw [inits]
      exact covers.inits_le slot ops

/-- Whatever the calls return, after the initialisation a feature has operations if and only
if it has been initialised with them and not uninitialised.  If it returns 0, these are the named
features that have a driver; if not, every initialised feature has been uninitialised, once,
and none other.  Later calls uninitialise what is left, once.  No other operations than those of
the driver of its name are ever noted or called for a feature. -/
theorem feature_init_all_or_nothing (answers : Nat → Int) (drvs : List FeatureDriver)
    (pdata : PlatformData num) (distinct : ((driverTable drvs).map FeatureDriver.name).Nodup)
    (bare : pdata.Bare) (fresh : pdata.calls = []) :
    AllOrNothing drvs pdata (fpgaDevFeatureInit answers drvs pdata).1
      (fpgaDevFeatureInit answers drvs pdata).2 := by
  have never : pdata.uinits = fun _ _ => 0 := by
    funext slot ops
    rw [PlatformData.uinits, fresh]
    rfl
  have balanced := PlatformData.balanced_fresh bare fresh
  have served := fpgaDevFeatureInit_served answers drvs (served_fresh bare fresh)
  have ran := fpgaDevFeatureInit_spec answers distinct balanced bare
  rw [never] at ran
  generalize fpgaDevFeatureInit answers drvs pdata = result at ran served
  obtain ⟨ret, after⟩ := result
  rcases ran with ⟨zero, covers⟩ | ⟨nonzero, kept, bare, once⟩
  · obtain ⟨laterBare, laterUinits⟩ := forall_and.mp (uinit_later covers.balanced)
    refine ⟨served, fun slot ops => ?_, fun _ => covers.ops_iff, fun failed => absurd zero failed,
      fun calls => ⟨served.uinits _, laterBare calls,
        fun slot ops => ⟨covers.inits_le slot ops, laterUinits calls slot ops⟩⟩⟩
    rw [covers.ops_iff, covers.inits_iff]
    exact ⟨fun inside => ⟨inside, covers.uinits slot ops⟩, And.left⟩
  · refine ⟨served, fun slot ops => ?_, fun zero => absurd zero nonzero,
      fun _ => ⟨bare, fun slot ops => ⟨once slot ops, kept.uinits_eq bare slot ops⟩⟩,
      fun calls => ?_⟩
    · apply iff_of_false (bare.not_some slot ops)
      intro remains
      exact absurd ((kept.uinits_eq bare slot ops).symm.trans remains.2) (Nat.ne_of_gt remains.1)
    · obtain ⟨laterBare, laterUinits⟩ := uinit_later kept calls
      exact ⟨served.uinits _, laterBare, fun slot ops => ⟨once slot ops, laterUinits slot ops⟩⟩

/-- Three slots, one of them without a feature. -/
def threeSlots : PlatformData 3 where
  features := ![⟨some "pr", none⟩, ⟨none, none⟩, ⟨some "hdr", none⟩]
  calls := []

/-- A table of two drivers. -/
def twoDrivers : List FeatureDriver :=
  [⟨"hdr", some ⟨0, false⟩⟩, ⟨"pr", some ⟨1, true⟩⟩, ⟨"", none⟩]

/-- The initialisation of the second driver's feature fails. -/
theorem feature_init_all_or_nothing_three :
    AllOrNothing twoDrivers threeSlots
      (fpgaDevFeatureInit (fun n => if n = 2 then -12 else 0) twoDrivers threeSlots).1
      (fpgaDevFeatureInit (fun n => if n = 2 then -12 else 0) twoDrivers threeSlots).2 :=
  feature_init_all_or_nothing (fun n => if n = 2 then -12 else 0) twoDrivers threeSlots (by decide)
    (show ∀ slot, (threeSlots.features slot).ops = none by decide) rfl

example : (fpgaDevFeatureInit (fun n => if n = 2 then -12 else 0) twoDrivers threeSlots).2.calls =
    [.init 2 ⟨0, false⟩ 0, .test 0 ⟨1, true⟩ 0, .init 0 ⟨1, true⟩ (-12), .uinit 2 ⟨0, false⟩] := by
  decide

end AllOrNothing

section Fme

variable {num : Nat} {drvs : List FeatureDriver}

/-- The FME's platform device. -/
structure FmeDevice (num : Nat) where
  pdata : PlatformData num
  /-- `private` points to the `struct fpga_fme`. -/
  fme : Bool
  registered : Bool
  /-- The driver is bound to the device. -/
  bound : Bool

/-- What a probe meets. -/
structure FmeAnswers where
  kzalloc : Bool
  ops : Nat → Int
  register : Int

def fmeProbe (drvs : List FeatureDriver) (answers : FmeAnswers) (dev : FmeDevice num) :
    Int × FmeDevice num :=
  if answers.kzalloc = false then (-12, dev)
  else
    let dev := { dev with fme := true }
    let (ret, pdata) := fpgaDevFeatureInit answers.ops drvs dev.pdata
    if ret ≠ 0 then (ret, { dev with pdata, fme := false })
    else if answers.register ≠ 0 then
      (answers.register, { dev with pdata := fpgaDevFeatureUinit pdata, fme := false })
    else (0, { dev with pdata, registered := true })

def fmeRemove (dev : FmeDevice num) : FmeDevice num :=
  { dev with pdata := fpgaDevFeatureUinit dev.pdata, registered := false, fme := false }

/-- A probe that returns 0 binds the driver. -/
def FmeDevice.probed (result : Int × FmeDevice num) : FmeDevice num :=
  { result.2 with bound := result.1 == 0 }

inductive FmeEvent where
  | probe (answers : FmeAnswers)
  | remove

/-- The driver core probes a device that is not bound and removes one that is. -/
inductive FmeStep (drvs : List FeatureDriver) :
    FmeDevice num → FmeEvent → FmeDevice num → Prop where
  | probe {dev : FmeDevice num} (answers : FmeAnswers) : dev.bound = false →
      FmeStep drvs dev (.probe answers) (.probed (fmeProbe drvs answers dev))
  | remove {dev : FmeDevice num} : dev.bound = true →
      FmeStep drvs dev .remove { fmeRemove dev with bound := false }

/-- The device starts with a table in which nothing is in use. -/
def fmeSystem (num : Nat) (drvs : List FeatureDriver) : System (FmeDevice num) FmeEvent where
  init dev := dev.pdata.Bare ∧ dev.pdata.calls = [] ∧ dev.fme = false ∧ dev.registered = false ∧
    dev.bound = false
  step := FmeStep drvs

/-- While the driver is bound, the features that have a driver are in use; else nothing is left
of it. -/
structure FmeInv (drvs : List FeatureDriver) (dev : FmeDevice num) : Prop where
  balanced : dev.pdata.Balanced
  bound : dev.bound = true → dev.fme = true ∧ dev.registered = true ∧ ∀ slot ops,
    (dev.pdata.features slot).ops = some ops ↔
      Serves (driverTable drvs) (dev.pdata.features slot).name ops
  unbound : dev.bound = false → dev.fme = false ∧ dev.registered = false ∧ dev.pdata.Bare

theorem FmeInv.probe (distinct : ((driverTable drvs).map FeatureDriver.name).Nodup)
    {dev : FmeDevice num} (inv : FmeInv drvs dev) (free : dev.bound = false)
    (answers : FmeAnswers) : FmeInv drvs (.probed (fmeProbe drvs answers dev)) := by
  obtain ⟨fme, registered, bare⟩ := inv.unbound free
  rw [fmeProbe]
  split
  · exact ⟨inv.balanced, nofun, fun _ => ⟨fme, registered, bare⟩⟩
  · have ran := fpgaDevFeatureInit_spec answers.ops distinct inv.balanced bare
    dsimp only
    generalize fpgaDevFeatureInit answers.ops drvs dev.pdata = result at ran ⊢
    obtain ⟨ret, pdata⟩ := result
    rcases ran with ⟨rfl, covers⟩ | ⟨nonzero, balanced, bare, -⟩
    · dsimp only
      rw [if_neg fun differs => differs rfl]
      split
      next failed =>
        obtain ⟨balanced, bare, -⟩ := fpgaDevFeatureUinit_spec covers.balanced
        exact ⟨balanced, fun zero => absurd (eq_of_beq zero) failed,
          fun _ => ⟨rfl, registered, bare⟩⟩
      · refine ⟨covers.balanced, fun _ => ⟨rfl, rfl, fun slot ops => ?_⟩, nofun⟩
        have named : (pdata.features slot).name = (dev.pdata.features slot).name :=
          covers.name slot
        show (pdata.features slot).ops = some ops ↔ Serves _ (pdata.features slot).name ops
        rw [named]
        exact covers.ops_iff slot ops
    · dsimp only at nonzero ⊢
      rw [if_pos nonzero]
      exact ⟨balanced, fun zero => absurd (eq_of_beq zero) nonzero,
        fun _ => ⟨rfl, registered, bare⟩⟩

theorem FmeInv.remove {dev : FmeDevice num} (inv : FmeInv drvs dev) :
    FmeInv drvs { fmeRemove dev with bound := false } := by
  obtain ⟨balanced, bare, -⟩ := fpgaDevFeatureUinit_spec inv.balanced
  exact ⟨balanced, nofun, fun _ => ⟨rfl, rfl, bare⟩⟩

/-- Over any run of probes and removes, whatever fails in them, every feature is initialised as
often as uninitialised, and once more while it is in use. -/
theorem fmeInv_of_reachable (distinct : ((driverTable drvs).map FeatureDriver.name).Nodup)
    {dev : FmeDevice num} (reach : (fmeSystem num drvs).Reachable dev) : FmeInv drvs dev := by
  refine System.Reach.invariant ?_ ?_ reach
  · rintro dev ⟨bare, fresh, fme, registered, free⟩
    refine ⟨PlatformData.balanced_fresh bare fresh, fun bound => ?_,
      fun _ => ⟨fme, registered, bare⟩⟩
    rw [free] at bound
    cases bound
  · rintro dev event next inv - (⟨answers, free⟩ | bound)
    · exact inv.probe distinct free answers
    · exact inv.remove

end Fme

end OpaeXilinx.Enum
