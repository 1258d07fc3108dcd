import Mathlib.Algebra.BigOperators.Group.Finset.Basic
import OpaeXilinx.Base.Ledger
import OpaeXilinx.Base.Transition
import OpaeXilinx.Port.DmaRegion

/-!
# Interrupt vectors of a feature

User space binds event descriptors to the MSI-X vectors of a feature.  A bound vector
holds a reference on the event, the name of its interrupt line and the handler that is
registered on that line.  A block of vectors is bound in place, one after the other;
at the first failure the vectors already visited are unbound again, backwards.
-/

namespace OpaeXilinx.Port

open OpaeXilinx.Base

/-- `struct eventfd_ctx`, by its address. -/
abbrev Eventfd := Nat

/-- `struct feature_irq_ctx`.  The pointer to the name is not cleared when the name is
freed. -/
structure FeatureIrqCtx where
  trigger : Option Eventfd
  name : Option Nat
  irq : Nat
  deriving DecidableEq, Repr

/-- What the driver acquires for a vector. -/
inductive IrqResource where
  | name (address : Nat)
  | reference (trigger : Eventfd)
  | handler (irq : Nat) (trigger : Eventfd)
  deriving DecidableEq, Repr

/-- The interrupt part of `struct feature`, with the ledger of its resources. -/
structure Feature where
  ctx : Nat → FeatureIrqCtx
  /-- An `int`. -/
  ctxNum : Nat
  ctxNum_lt : ctxNum < 2 ^ 31
  ledger : List (Deal IrqResource)

/-- Resources held for a feature. -/
def Feature.held (feature : Feature) : Multiset IrqResource := Ledger.held feature.ledger

namespace Feature

def acquire (feature : Feature) (resource : IrqResource) : Feature :=
  { feature with ledger := .acquire resource :: feature.ledger }

def release (feature : Feature) (resource : IrqResource) : Feature :=
  { feature with ledger := .release resource :: feature.ledger }

/-- `kfree`, which does nothing for a null pointer. -/
def kfree (feature : Feature) : Option Nat → Feature
  | none => feature
  | some address => feature.release (.name address)

def setTrigger (feature : Feature) (vector : Nat) (trigger : Option Eventfd) : Feature :=
  { feature with
    ctx := Function.update feature.ctx vector { feature.ctx vector with trigger := trigger } }

def setName (feature : Feature) (vector : Nat) (name : Option Nat) : Feature :=
  { feature with
    ctx := Function.update feature.ctx vector { feature.ctx vector with name := name } }

end Feature

/-- Answers of the kernel while one vector is bound. -/
structure VectorEnv where
  /-- `kasprintf`: the address of the name. -/
  kasprintf : Option Nat
  /-- `eventfd_ctx_fdget` on a descriptor. -/
  eventfdCtxFdget : Int → Except Errno Eventfd
  /-- `request_irq`: the error it returns. -/
  requestIrq : Option Errno

/-- The first part of `fpga_set_vector_signal`, which unbinds the vector. -/
def clearVector (feature : Feature) (vector : Nat) : Feature :=
  match (feature.ctx vector).trigger with
  | none => feature
  | some trigger =>
      let feature := feature.release (.handler (feature.ctx vector).irq trigger)
      let feature := feature.kfree (feature.ctx vector).name
      let feature := feature.release (.reference trigger)
      feature.setTrigger vector none

def fpgaSetVectorSignal (feature : Feature) (env : VectorEnv) (vector : Nat) (fd : Int) :
    Option Errno × Feature :=
  if vector ≥ feature.ctxNum then (some .einval, feature)
  else
    let irq := (feature.ctx vector).irq
    let feature := clearVector feature vector
    if fd < 0 then (none, feature)
    else
      match env.kasprintf with
      | none => (some .enomem, feature.setName vector none)
      | some address =>
          let feature := (feature.acquire (.name address)).setName vector (some address)
          match env.eventfdCtxFdget fd with
          | .error err => (some err, feature.kfree (feature.ctx vector).name)
          | .ok trigger =>
              let feature := feature.acquire (.reference trigger)
              match env.requestIrq with
              | some err =>
                  let feature := feature.kfree (feature.ctx vector).name
                  (some err, feature.release (.reference trigger))
              | none =>
                  let feature := feature.acquire (.handler irq trigger)
                  (none, feature.setTrigger vector (some trigger))

/-- A block request: the descriptors, or `NULL`, and the answers of the kernel in each
iteration. -/
structure MsixCall where
  start : Nat
  count : Nat
  fds : Option (Nat → Int)
  env : Nat → VectorEnv

/-- `fds ? fds[i] : -1`. -/
def MsixCall.fd (call : MsixCall) (i : Nat) : Int := call.fds.elim (-1) (· i)

/-- The loop that binds: the result, the final value of `j` and the feature. -/
def bindBlock (call : MsixCall) : Nat → Nat → Feature → Option Errno × Nat × Feature
  | 0, i, feature => (none, call.start + i, feature)
  | remaining + 1, i, feature =>
      match fpgaSetVectorSignal feature (call.env i) (call.start + i) (call.fd i) with
      | (none, feature) => bindBlock call remaining (i + 1) feature
      | (some err, feature) => (some err, call.start + (i + 1), feature)

/-- The loop that unbinds, `for (--j; j >= (int)start; j--)`. -/
def unbindBlock (env : VectorEnv) (start : Nat) : Nat → Feature → Feature
  | 0, feature => feature
  | j + 1, feature =>
      if j ≥ start then unbindBlock env start j (fpgaSetVectorSignal feature env j (-1)).2
      else feature

def fpgaMsixSetBlock (feature : Feature) (call : MsixCall) : Option Errno × Feature :=
  if call.start ≥ feature.ctxNum ∨ (call.start + call.count) % 2 ^ 32 > feature.ctxNum then
    (some .einval, feature)
  else
    match bindBlock call call.count 0 feature with
    | (none, _, feature) => (none, feature)
    | (some err, j, feature) => (some err, unbindBlock (call.env 0) call.start j feature)

/-- The feature a call leaves. -/
def Feature.call (feature : Feature) (call : MsixCall) : Feature :=
  (fpgaMsixSetBlock feature call).2

/-- A feature before its first request, `devm_kcalloc` having cleared the array. -/
def Feature.initial (irq : Nat → Nat) (ctxNum : Nat) (bound : ctxNum < 2 ^ 31) : Feature :=
  ⟨fun vector => ⟨none, none, irq vector⟩, ctxNum, bound, []⟩

/-- The resources of a vector: none unless it is bound. -/
def FeatureIrqCtx.resources (ctx : FeatureIrqCtx) : Multiset IrqResource :=
  match ctx.trigger, ctx.name with
  | some trigger, some address =>
      .handler ctx.irq trigger ::ₘ .name address ::ₘ .reference trigger ::ₘ 0
  | some trigger, none => .handler ctx.irq trigger ::ₘ .reference trigger ::ₘ 0
  | none, _ => 0

/-- The ledger is honest, and what is held are the handler, the name and the reference
of each bound vector, once each. -/
structure MsixInv (feature : Feature) : Prop where
  honest : Ledger.Honest feature.ledger
  held : feature.held = ∑ vector ∈ Finset.range feature.ctxNum, (feature.ctx vector).resources
  named : ∀ vector < feature.ctxNum,
    (feature.ctx vector).trigger.isSome = true → (feature.ctx vector).name.isSome = true

/-- Binding a descriptor fails at one of the three calls. -/
def VectorEnv.Fails (env : VectorEnv) (fd : Int) : Prop :=
  0 ≤ fd ∧ (env.kasprintf = none ∨ (∃ err, env.eventfdCtxFdget fd = .error err) ∨
    ∃ err, env.requestIrq = some err)

/-- The trigger that a descriptor asks for. -/
def VectorEnv.target (env : VectorEnv) (fd : Int) : Option Eventfd :=
  if fd < 0 then none else (env.eventfdCtxFdget fd).toOption

section Vector

variable {feature next : Feature} {vector : Nat}

/-- What is held for a vector and what is held besides. -/
theorem MsixInv.split (inv : MsixInv feature) (inside : vector < feature.ctxNum) :
    ∃ rest, feature.held = (feature.ctx vector).resources + rest := by
  refine ⟨∑ other ∈ (Finset.range feature.ctxNum).erase vector, (feature.ctx other).resources, ?_⟩
  rw [inv.held, Finset.add_sum_erase _ (fun other => (feature.ctx other).resources)
    (Finset.mem_range.mpr inside)]

/-- Changing one vector, with what is held for it and nothing besides. -/
theorem MsixInv.change (inv : MsixInv feature) (inside : vector < feature.ctxNum)
    (num : next.ctxNum = feature.ctxNum)
    (others : ∀ other, other ≠ vector → next.ctx other = feature.ctx other)
    (honest : Ledger.Honest next.ledger) {rest : Multiset IrqResource}
    (before : feature.held = (feature.ctx vector).resources + rest)
    (after : next.held = (next.ctx vector).resources + rest)
    (named : (next.ctx vector).trigger.isSome = true → (next.ctx vector).name.isSome = true) :
    MsixInv next := by
  have member : vector ∈ Finset.range feature.ctxNum := Finset.mem_range.mpr inside
  refine ⟨honest, ?_, ?_⟩
  · have same : rest =
        ∑ other ∈ (Finset.range feature.ctxNum).erase vector, (feature.ctx other).resources := by
      rw [inv.held, ← Finset.add_sum_erase _ (fun other => (feature.ctx other).resources) member]
        at before
      exact (add_left_cancel before).symm
    have kept : rest =
        ∑ other ∈ (Finset.range feature.ctxNum).erase vector, (next.ctx other).resources := by
      rw [same]
      apply Finset.sum_congr rfl
      intro other one
      rw [others other (Finset.ne_of_mem_erase one)]
    rw [after, kept, num, Finset.add_sum_erase _ (fun other => (next.ctx other).resources) member]
  · intro other bound
    rcases eq_or_ne other vector with rfl | different
    · exact named
    · rw [others other different]
      exact inv.named other (num ▸ bound)

theorem clearVector_ctxNum : (clearVector feature vector).ctxNum = feature.ctxNum := by
  unfold clearVector
  split
  · rfl
  · cases name : (feature.ctx vector).name <;>
      simp [Feature.setTrigger, Feature.release, Feature.kfree, name]

theorem clearVector_ctx : (clearVector feature vector).ctx =
    Function.update feature.ctx vector { feature.ctx vector with trigger := none } := by
  unfold clearVector
  split
  next unbound => rw [← unbound, Function.update_eq_self]
  · cases name : (feature.ctx vector).name <;>
      simp [Feature.setTrigger, Feature.release, Feature.kfree, name]

/-- Unbinding releases the handler, the name and the reference of the vector. -/
theorem MsixInv.clear (inv : MsixInv feature) (inside : vector < feature.ctxNum) :
    MsixInv (clearVector feature vector) := by
  cases bound : (feature.ctx vector).trigger with
  | none => simpa [clearVector, bound] using inv
  | some trigger =>
      obtain ⟨address, name⟩ :=
        Option.isSome_iff_exists.mp (inv.named vector inside (by simp [bound]))
      obtain ⟨rest, before⟩ := inv.split inside
      have ledger : (clearVector feature vector).ledger = .release (.reference trigger) ::
          .release (.name address) :: .release (.handler (feature.ctx vector).irq trigger) ::
          feature.ledger := by
        simp [clearVector, bound, name, Feature.setTrigger, Feature.release, Feature.kfree]
      have held : Ledger.held feature.ledger = .handler (feature.ctx vector).irq trigger ::ₘ
          .name address ::ₘ .reference trigger ::ₘ rest := by
        rw [← Feature.held, before]
        simp [FeatureIrqCtx.resources, bound, name]
      refine inv.change inside clearVector_ctxNum ?_ ?_ before ?_ ?_
      · intro other different
        rw [clearVector_ctx, Function.update_of_ne different]
      · rw [ledger]
        simp [held, inv.honest]
      · rw [clearVector_ctx, Function.update_self, Feature.held, ledger]
        simp [held, FeatureIrqCtx.resources]
      · simp [clearVector_ctx]

/-- What setting one vector does: the other vectors stay, and the vector is bound to
what the descriptor asks for, or unbound if that fails. -/
structure VectorSet (feature : Feature) (env : VectorEnv) (vector : Nat) (fd : Int)
    (result : Option Errno) (next : Feature) : Prop where
  inv : MsixInv next
  num : next.ctxNum = feature.ctxNum
  others : ∀ other, other ≠ vector → next.ctx other = feature.ctx other
  irq : (next.ctx vector).irq = (feature.ctx vector).irq
  done : result = none → ¬ env.Fails fd ∧ (next.ctx vector).trigger = env.target fd
  failed : ∀ err, result = some err → env.Fails fd ∧ (next.ctx vector).trigger = none

/-- The feature with a vector unbound, with another context for the vector and another
ledger. -/
def Feature.rebound (feature : Feature) (vector : Nat) (ctx : FeatureIrqCtx)
    (ledger : List (Deal IrqResource)) : Feature :=
  { clearVector feature vector with
    ctx := Function.update (clearVector feature vector).ctx vector ctx
    ledger := ledger }

/-- A vector is set by what its context then says and what the ledger says for it. -/
theorem VectorSet.of_rebound (inv : MsixInv feature) (inside : vector < feature.ctxNum)
    {env : VectorEnv} {fd : Int} {result : Option Errno} {ctx : FeatureIrqCtx}
    {ledger : List (Deal IrqResource)} (honest : Ledger.Honest ledger)
    (held : Ledger.held ledger = ctx.resources + (clearVector feature vector).held)
    (named : ctx.trigger.isSome = true → ctx.name.isSome = true)
    (irq : ctx.irq = (feature.ctx vector).irq)
    (done : result = none → ¬ env.Fails fd ∧ ctx.trigger = env.target fd)
    (failed : ∀ err, result = some err → env.Fails fd ∧ ctx.trigger = none) :
    VectorSet feature env vector fd result (feature.rebound vector ctx ledger) := by
  have cleared := inv.clear inside
  have here : (feature.rebound vector ctx ledger).ctx vector = ctx := Function.update_self _ _ _
  have elsewhere : ∀ other, other ≠ vector →
      (feature.rebound vector ctx ledger).ctx other = (clearVector feature vector).ctx other :=
    fun other different => Function.update_of_ne different _ _
  have before : (clearVector feature vector).held =
      ((clearVector feature vector).ctx vector).resources + (clearVector feature vector).held := by
    simp [clearVector_ctx, FeatureIrqCtx.resources]
  refine ⟨?_, clearVector_ctxNum, fun other different => ?_, ?_, ?_, ?_⟩
  · refine cleared.change (clearVector_ctxNum.symm ▸ inside) rfl elsewhere honest before ?_ ?_
    · rw [here]
      exact held
    · rw [here]
      exact named
  · rw [elsewhere other different, clearVector_ctx, Function.update_of_ne different]
  · rw [here, irq]
  · rw [here]
    exact done
  · rw [here]
    exact failed

section Equations

variable {env : VectorEnv} {fd : Int} {address : Nat} {trigger : Eventfd} {err : Errno}

theorem fpgaSetVectorSignal_unbind (inside : vector < feature.ctxNum) (negative : fd < 0) :
    fpgaSetVectorSignal feature env vector fd = (none, clearVector feature vector) := by
  rw [fpgaSetVectorSignal, if_neg (Nat.not_le.mpr inside)]
  exact if_pos negative

theorem fpgaSetVectorSignal_noName (inside : vector < feature.ctxNum) (nonneg : 0 ≤ fd)
    (name : env.kasprintf = none) :
    fpgaSetVectorSignal feature env vector fd = (some .enomem, feature.rebound vector
      ⟨none, none, (feature.ctx vector).irq⟩ (clearVector feature vector).ledger) := by
  rw [fpgaSetVectorSignal, if_neg (Nat.not_le.mpr inside)]
  simp [Int.not_lt.mpr nonneg, name, Feature.setName, Feature.rebound, clearVector_ctx]

theorem fpgaSetVectorSignal_noEventfd (inside : vector < feature.ctxNum) (nonneg : 0 ≤ fd)
    (name : env.kasprintf = some address) (lookup : env.eventfdCtxFdget fd = .error err) :
    fpgaSetVectorSignal feature env vector fd = (some err, feature.rebound vector
      ⟨none, some address, (feature.ctx vector).irq⟩
      (.release (.name address) :: .acquire (.name address) ::
        (clearVector feature vector).ledger)) := by
  rw [fpgaSetVectorSignal, if_neg (Nat.not_le.mpr inside)]
  simp [Int.not_lt.mpr nonneg, name, lookup, Feature.setName, Feature.acquire, Feature.release,
    Feature.kfree, Feature.rebound, clearVector_ctx]

theorem fpgaSetVectorSignal_noIrq (inside : vector < feature.ctxNum) (nonneg : 0 ≤ fd)
    (name : env.kasprintf = some address) (lookup : env.eventfdCtxFdget fd = .ok trigger)
    (request : env.requestIrq = some err) :
    fpgaSetVectorSignal feature env vector fd = (some err, feature.rebound vector
      ⟨none, some address, (feature.ctx vector).irq⟩
      (.release (.reference trigger) :: .release (.name address) ::
        .acquire (.reference trigger) :: .acquire (.name address) ::
        (clearVector feature vector).ledger)) := by
  rw [fpgaSetVectorSignal, if_neg (Nat.not_le.mpr inside)]
  simp [Int.not_lt.mpr nonneg, name, lookup, request, Feature.setName, Feature.acquire,
    Feature.release, Feature.kfree, Feature.rebound, clearVector_ctx]

theorem fpgaSetVectorSignal_bind (inside : vector < feature.ctxNum) (nonneg : 0 ≤ fd)
    (name : env.kasprintf = some address) (lookup : env.eventfdCtxFdget fd = .ok trigger)
    (request : env.requestIrq = none) :
    fpgaSetVectorSignal feature env vector fd = (none, feature.rebound vector
      ⟨some trigger, some address, (feature.ctx vector).irq⟩
      (.acquire (.handler (feature.ctx vector).irq trigger) :: .acquire (.reference trigger) ::
        .acquire (.name address) :: (clearVector feature vector).ledger)) := by
  rw [fpgaSetVectorSignal, if_neg (Nat.not_le.mpr inside)]
  simp [Int.not_lt.mpr nonneg, name, lookup, request, Feature.setName, Feature.acquire,
    Feature.setTrigger, Feature.rebound, clearVector_ctx]

end Equations

theorem fpgaSetVectorSignal_spec (inv : MsixInv feature) (inside : vector < feature.ctxNum)
    (env : VectorEnv) (fd : Int) :
    VectorSet feature env vector fd (fpgaSetVectorSignal feature env vector fd).1
      (fpgaSetVectorSignal feature env vector fd).2 := by
  have honest := (inv.clear inside).honest
  rcases Int.lt_or_le fd 0 with negative | nonneg
  · rw [fpgaSetVectorSignal_unbind inside negative]
    refine ⟨inv.clear inside, clearVector_ctxNum, fun other different => ?_, ?_, ?_, nofun⟩
    · rw [clearVector_ctx, Function.update_of_ne different]
    · simp [clearVector_ctx]
    · refine fun _ => ⟨fun fails => ?_, by simp [clearVector_ctx, VectorEnv.target, negative]⟩
      exact absurd negative (Int.not_lt.mpr fails.1)
  cases name : env.kasprintf with
  | none =>
      rw [fpgaSetVectorSignal_noName inside nonneg name]
      refine .of_rebound inv inside honest ?_ nofun rfl nofun ?_
      · simp [FeatureIrqCtx.resources, Feature.held]
      · exact fun _ _ => ⟨⟨nonneg, .inl name⟩, rfl⟩
  | some address =>
      cases lookup : env.eventfdCtxFdget fd with
      | error err =>
          rw [fpgaSetVectorSignal_noEventfd inside nonneg name lookup]
          refine .of_rebound inv inside ?_ ?_ nofun rfl nofun ?_
          · simpa using honest
          · simp [FeatureIrqCtx.resources, Feature.held]
          · exact fun _ _ => ⟨⟨nonneg, .inr (.inl ⟨err, lookup⟩)⟩, rfl⟩
      | ok trigger =>
          cases request : env.requestIrq with
          | some err =>
              rw [fpgaSetVectorSignal_noIrq inside nonneg name lookup request]
              have swapped : IrqResource.reference trigger ::ₘ .name address ::ₘ
                  Ledger.held (clearVector feature vector).ledger = .name address ::ₘ
                  .reference trigger ::ₘ Ledger.held (clearVector feature vector).ledger :=
                Multiset.cons_swap _ _ _
              refine .of_rebound inv inside ?_ ?_ nofun rfl nofun ?_
              · simp [swapped, honest]
              · simp [swapped, FeatureIrqCtx.resources, Feature.held]
              · exact fun _ _ => ⟨⟨nonneg, .inr (.inr ⟨err, request⟩)⟩, rfl⟩
          | none =>
              rw [fpgaSetVectorSignal_bind inside nonneg name lookup request]
              refine .of_rebound inv inside ?_ ?_ (fun _ => rfl) rfl (fun _ => ⟨?_, ?_⟩) nofun
              · simpa using honest
              · simp [FeatureIrqCtx.resources, Feature.held, Multiset.cons_swap]
              · rintro ⟨-, failed | ⟨err, failed⟩ | ⟨err, failed⟩⟩
                · simp [name] at failed
                · simp [lookup] at failed
                · simp [request] at failed
              · rw [VectorEnv.target, if_neg (Int.not_lt.mpr nonneg), lookup]
                rfl

end Vector

/-! ## A block of vectors -/

section Block

variable {feature next : Feature} {call : MsixCall}

/-- The feature after some iterations of the loop that binds. -/
structure Bound (feature : Feature) (call : MsixCall) (i : Nat) (next : Feature) : Prop where
  inv : MsixInv next
  num : next.ctxNum = feature.ctxNum
  outside : ∀ vector, vector < call.start ∨ call.start + i ≤ vector →
    next.ctx vector = feature.ctx vector
  bound : ∀ k < i, ¬ (call.env k).Fails (call.fd k) ∧
    (next.ctx (call.start + k)).trigger = (call.env k).target (call.fd k)

/-- The loop stopped in an iteration that failed, and left its vector unbound. -/
structure Stopped (feature : Feature) (call : MsixCall) (k : Nat) (next : Feature) : Prop where
  inv : MsixInv next
  num : next.ctxNum = feature.ctxNum
  outside : ∀ vector, vector < call.start ∨ call.start + k < vector →
    next.ctx vector = feature.ctx vector
  earlier : ∀ i < k, ¬ (call.env i).Fails (call.fd i)
  fails : (call.env k).Fails (call.fd k)

/-- One iteration of the loop that binds. -/
theorem Bound.step {i : Nat} (bound : Bound feature call i next)
    (fits : call.start + i < feature.ctxNum) :
    let set := fpgaSetVectorSignal next (call.env i) (call.start + i) (call.fd i)
    (set.1 = none → Bound feature call (i + 1) set.2) ∧
      (∀ err, set.1 = some err → Stopped feature call i set.2) := by
  have spec := fpgaSetVectorSignal_spec bound.inv (bound.num ▸ fits) (call.env i) (call.fd i)
  have outside : ∀ vector, vector < call.start ∨ call.start + (i + 1) ≤ vector →
      (fpgaSetVectorSignal next (call.env i) (call.start + i) (call.fd i)).2.ctx vector =
        feature.ctx vector := by
    intro vector away
    rw [spec.others vector (by omega), bound.outside vector (by omega)]
  constructor
  · intro set
    refine ⟨spec.inv, spec.num.trans bound.num, outside, fun k below => ?_⟩
    rcases Nat.lt_succ_iff_lt_or_eq.mp below with earlier | rfl
    · rw [spec.others (call.start + k) (by omega)]
      exact bound.bound k earlier
    · exact spec.done set
  · intro err set
    exact ⟨spec.inv, spec.num.trans bound.num, fun vector away => outside vector (by omega),
      fun k below => (bound.bound k below).1, (spec.failed err set).1⟩

theorem bindBlock_spec {remaining i : Nat} (bound : Bound feature call i next)
    (total : i + remaining = call.count) (fits : call.start + call.count ≤ feature.ctxNum) :
    (∃ done, bindBlock call remaining i next = (none, call.start + call.count, done) ∧
      Bound feature call call.count done) ∨
    ∃ err k stopped, k < call.count ∧
      bindBlock call remaining i next = (some err, call.start + (k + 1), stopped) ∧
      Stopped feature call k stopped := by
  induction remaining generalizing i next with
  | zero =>
      obtain rfl : i = call.count := by omega
      exact .inl ⟨next, rfl, bound⟩
  | succ remaining ih =>
      obtain ⟨done, failed⟩ := bound.step (by omega)
      rw [bindBlock]
      generalize fpgaSetVectorSignal next (call.env i) (call.start + i) (call.fd i) = set
        at done failed
      obtain ⟨result, after⟩ := set
      cases result with
      | none => exact ih (done rfl) (by omega)
      | some err => exact .inr ⟨err, i, after, by omega, rfl, failed err rfl⟩

/-- The loop that unbinds, from any vector of the feature down to the start. -/
theorem unbindBlock_spec (env : VectorEnv) (start : Nat) {j : Nat} (inv : MsixInv feature)
    (fits : j ≤ feature.ctxNum) :
    MsixInv (unbindBlock env start j feature) ∧
    (unbindBlock env start j feature).ctxNum = feature.ctxNum ∧
    (∀ vector, vector < start ∨ j ≤ vector →
      (unbindBlock env start j feature).ctx vector = feature.ctx vector) ∧
    ∀ vector, start ≤ vector → vector < j →
      ((unbindBlock env start j feature).ctx vector).trigger = none := by
  induction j generalizing feature with
  | zero => exact ⟨inv, rfl, fun _ _ => rfl, fun _ _ => by omega⟩
  | succ j ih =>
      rw [unbindBlock]
      split
      next inside =>
        have below : j < feature.ctxNum := fits
        have spec := fpgaSetVectorSignal_spec inv below env (-1)
        have unbound : ((fpgaSetVectorSignal feature env j (-1)).2.ctx j).trigger = none := by
          rcases result : (fpgaSetVectorSignal feature env j (-1)).1 with _ | err
          · exact (spec.done result).2
          · exact (spec.failed err result).2
        obtain ⟨lower, num, outside, cleared⟩ := ih spec.inv (by rw [spec.num]; omega)
        refine ⟨lower, num.trans spec.num, fun vector away => ?_, fun vector above below => ?_⟩
        · rw [outside vector (by omega), spec.others vector (by omega)]
        · rcases Nat.lt_succ_iff_lt_or_eq.mp below with earlier | rfl
          · exact cleared vector above earlier
          · rw [outside vector (.inr (Nat.le_refl _)), unbound]
      next done =>
        exact ⟨inv, rfl, fun _ _ => rfl, fun vector above below => by omega⟩

/-- What a request that the range check accepts leaves of the bindings. -/
inductive BlockOutcome (feature : Feature) (call : MsixCall) (next : Feature) :
    Option Errno → Prop where
  /-- Every vector of the block is bound to what its descriptor asks for. -/
  | done : (∀ i < call.count, ¬ (call.env i).Fails (call.fd i) ∧
        (next.ctx (call.start + i)).trigger = (call.env i).target (call.fd i)) →
      BlockOutcome feature call next none
  /-- One vector fails: the block is unbound up to it, and stays as it was after it. -/
  | failed {err : Errno} {k : Nat} : k < call.count →
      (∀ i < k, ¬ (call.env i).Fails (call.fd i)) → (call.env k).Fails (call.fd k) →
      (∀ i ≤ k, (next.ctx (call.start + i)).trigger = none) →
      (∀ i, k < i → next.ctx (call.start + i) = feature.ctx (call.start + i)) →
      BlockOutcome feature call next (some err)

/-- The range check, for a range that does not wrap. -/
def MsixCall.Accepted (feature : Feature) (call : MsixCall) : Prop :=
  call.start < feature.ctxNum ∧ call.start + call.count ≤ feature.ctxNum

/-- Everything that is asked of one request. -/
structure Settled (feature : Feature) (call : MsixCall) : Prop where
  inv : MsixInv (feature.call call)
  untouched : ∀ vector, vector < call.start ∨ call.start + call.count ≤ vector →
    (feature.call call).ctx vector = feature.ctx vector
  accepted : call.Accepted feature →
    BlockOutcome feature call (feature.call call) (fpgaMsixSetBlock feature call).1
  refused : ¬ call.Accepted feature → fpgaMsixSetBlock feature call = (some .einval, feature)

theorem MsixInv.settled (inv : MsixInv feature) (noWrap : call.start + call.count < 2 ^ 32) :
    Settled feature call := by
  have check : (call.start ≥ feature.ctxNum ∨
      (call.start + call.count) % 2 ^ 32 > feature.ctxNum) ↔ ¬ call.Accepted feature := by
    rw [Nat.mod_eq_of_lt noWrap, MsixCall.Accepted]
    omega
  by_cases accepted : call.Accepted feature
  · have start : Bound feature call 0 feature := ⟨inv, rfl, fun _ _ => rfl, nofun⟩
    have passed : ¬ _ := fun refused => check.mp refused accepted
    rcases bindBlock_spec start (Nat.zero_add _) accepted.2 with
      ⟨done, result, bound⟩ | ⟨err, k, stopped, inside, result, stop⟩
    · have outcome : fpgaMsixSetBlock feature call = (none, done) := by
        rw [fpgaMsixSetBlock, if_neg passed, result]
      have after : feature.call call = done := by rw [Feature.call, outcome]
      refine ⟨after ▸ bound.inv, ?_, fun _ => ?_, absurd accepted⟩
      · rw [after]
        exact bound.outside
      · rw [outcome, after]
        exact .done bound.bound
    · have outcome : fpgaMsixSetBlock feature call =
          (some err, unbindBlock (call.env 0) call.start (call.start + (k + 1)) stopped) := by
        rw [fpgaMsixSetBlock, if_neg passed, result]
      have after : feature.call call =
          unbindBlock (call.env 0) call.start (call.start + (k + 1)) stopped := by
        rw [Feature.call, outcome]
      have fits : call.start + (k + 1) ≤ stopped.ctxNum := by
        rw [stop.num]
        exact Nat.le_trans (by omega) accepted.2
      obtain ⟨kept, -, outside, unbound⟩ :=
        unbindBlock_spec (call.env 0) call.start stop.inv fits
      refine ⟨after ▸ kept, fun vector away => ?_, fun _ => ?_, absurd accepted⟩
      · rw [after, outside vector (by omega), stop.outside vector (by omega)]
      · rw [outcome, after]
        refine .failed inside stop.earlier stop.fails (fun i below => ?_) fun i above => ?_
        · exact unbound _ (by omega) (by omega)
        · rw [outside _ (by omega), stop.outside _ (by omega)]
  · have outcome : fpgaMsixSetBlock feature call = (some .einval, feature) := by
      rw [fpgaMsixSetBlock, if_pos (check.mpr accepted)]
    have after : feature.call call = feature := by rw [Feature.call, outcome]
    exact ⟨after.symm ▸ inv, fun _ _ => by rw [after], fun holds => absurd holds accepted,
      fun _ => outcome⟩

end Block

/-- The books after a request: the invariant, with what it says of each resource and of
each interrupt line. -/
structure Accounted (feature : Feature) : Prop extends MsixInv feature where
  /-- What was acquired is held or was released once for each time it was acquired. -/
  once : Ledger.acquired feature.ledger = Ledger.released feature.ledger + feature.held
  /-- A vector is bound exactly if its trigger has a handler on its line. -/
  registered : (∀ vector < feature.ctxNum, ∀ other < feature.ctxNum,
      (feature.ctx vector).irq = (feature.ctx other).irq → vector = other) →
    ∀ vector < feature.ctxNum, ∀ trigger, (feature.ctx vector).trigger = some trigger ↔
      .handler (feature.ctx vector).irq trigger ∈ feature.held

theorem FeatureIrqCtx.handler_mem {ctx : FeatureIrqCtx} {irq : Nat} {trigger : Eventfd} :
    .handler irq trigger ∈ ctx.resources ↔ ctx.trigger = some trigger ∧ ctx.irq = irq := by
  rcases ctx with ⟨_ | bound, _ | address, line⟩ <;>
    simp [FeatureIrqCtx.resources, eq_comm, and_comm]

theorem MsixInv.accounted {feature : Feature} (inv : MsixInv feature) : Accounted feature := by
  refine ⟨inv, inv.honest.acquired_eq, fun distinct vector inside trigger => ?_⟩
  rw [inv.held, Multiset.mem_sum]
  simp only [Finset.mem_range, FeatureIrqCtx.handler_mem]
  constructor
  · exact fun bound => ⟨vector, inside, bound, rfl⟩
  · rintro ⟨other, within, bound, same⟩
    rwa [distinct vector inside other within same.symm]

theorem MsixInv.initial (irq : Nat → Nat) (ctxNum : Nat) (bound : ctxNum < 2 ^ 31) :
    MsixInv (.initial irq ctxNum bound) := by
  refine ⟨Ledger.honest_nil, ?_, nofun⟩
  simp [Feature.held, Feature.initial, FeatureIrqCtx.resources]

theorem MsixInv.along {feature : Feature} (inv : MsixInv feature) {calls : List MsixCall}
    (noWrap : ∀ call ∈ calls, call.start + call.count < 2 ^ 32) :
    System.Along (fun feature call => Settled feature call ∧ Accounted (feature.call call))
      Feature.call feature calls := by
  induction calls generalizing feature with
  | nil => trivial
  | cons call calls ih =>
      have settled : Settled feature call := inv.settled (noWrap call List.mem_cons_self)
      exact ⟨⟨settled, settled.inv.accounted⟩,
        ih settled.inv fun other member => noWrap other (List.mem_cons_of_mem _ member)⟩

/-- In every sequence of requests whose ranges do not wrap, whatever fails in them, each
request binds its block or unbinds it up to the failing vector, and the resources held are
those of the bound vectors, everything else having been released once. -/
theorem msix_bindings_accounted (irq : Nat → Nat) (ctxNum : Nat) (bound : ctxNum < 2 ^ 31)
    {calls : List MsixCall} (noWrap : ∀ call ∈ calls, call.start + call.count < 2 ^ 32) :
    System.Along (fun feature call => Settled feature call ∧ Accounted (feature.call call))
      Feature.call (.initial irq ctxNum bound) calls :=
  (MsixInv.initial irq ctxNum bound).along noWrap

/-- A kernel that grants every request, with the descriptor as the event. -/
def VectorEnv.granting : VectorEnv := ⟨some 0x9000, fun fd => .ok fd.toNat, none⟩

/-- The second of three vectors fails to be bound again: the third keeps its event. -/
theorem msix_bindings_accounted_rebind :
    ∃ feature, Accounted feature ∧ (feature.ctx 0).trigger = none ∧
      (feature.ctx 1).trigger = none ∧ (feature.ctx 2).trigger = some 7 := by
  let bind : MsixCall := ⟨0, 3, some fun i => i + 5, fun _ => .granting⟩
  let rebind : MsixCall := ⟨0, 3, some fun i => i + 8,
    fun i => if i = 1 then { VectorEnv.granting with requestIrq := some .ebusy } else .granting⟩
  have noWrap : ∀ call ∈ [bind, rebind], call.start + call.count < 2 ^ 32 := by
    simp [bind, rebind]
  have along := msix_bindings_accounted (· + 40) 3 (by decide) noWrap
  exact ⟨_, along.2.1.2, by decide, by decide, by decide⟩

/-- `PORT_UAFU_SET_IRQ` as it arrives, with the answers of the kernel. -/
structure IrqIoctl where
  /-- `copy_from_user` of the header. -/
  copyOk : Bool
  argsz : Nat
  flags : Nat
  start : Nat
  count : Nat
  /-- `memdup_user` of the descriptors. -/
  memdupUser : Except Errno (Nat → Int)
  /-- `FPGA_PORT_CAP_UAFU_IRQ`. -/
  capable : Bool
  env : Nat → VectorEnv

/-- Size of `struct fpga_port_uafu_irq_set` up to its descriptors. -/
def irqSetMinsz : Nat := 16

def portAfuSetIrq (feature : Feature) (ioctl : IrqIoctl) : Option Errno × Feature :=
  if ioctl.copyOk = false then (some .efault, feature)
  else if ioctl.argsz < irqSetMinsz ∨ ioctl.flags ≠ 0 then (some .einval, feature)
  else if (ioctl.start + ioctl.count) % 2 ^ 32 > feature.ctxNum ∨
      (ioctl.start + ioctl.count) % 2 ^ 32 < ioctl.start ∨ ioctl.count = 0 then
    (some .einval, feature)
  else
    match ioctl.memdupUser with
    | .error err => (some err, feature)
    | .ok fds =>
        if ioctl.capable = false then (some .enodev, feature)
        else fpgaMsixSetBlock feature ⟨ioctl.start, ioctl.count, some fds, ioctl.env⟩

/-- A request from user space that gets to the vectors has a range that does not wrap and
that the range check accepts. -/
theorem portAfuSetIrq_cases (feature : Feature) (ioctl : IrqIoctl)
    (start : ioctl.start < 2 ^ 32) (count : ioctl.count < 2 ^ 32) :
    (∃ err, portAfuSetIrq feature ioctl = (some err, feature)) ∨
    ∃ call : MsixCall, call.start + call.count < 2 ^ 32 ∧ call.Accepted feature ∧
      portAfuSetIrq feature ioctl = fpgaMsixSetBlock feature call := by
  rw [portAfuSetIrq]
  split
  · exact .inl ⟨_, rfl⟩
  split
  · exact .inl ⟨_, rfl⟩
  split
  · exact .inl ⟨_, rfl⟩
  next range =>
  split
  · exact .inl ⟨_, rfl⟩
  next fds _ =>
  split
  · exact .inl ⟨_, rfl⟩
  · refine .inr ⟨⟨ioctl.start, ioctl.count, some fds, ioctl.env⟩, ?_, ?_, rfl⟩
    · simp only
      omega
    · simp only [MsixCall.Accepted]
      omega

end OpaeXilinx.Port
