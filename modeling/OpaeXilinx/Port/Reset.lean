import Mathlib.Data.Fintype.Card
import OpaeXilinx.Base.Transition
import OpaeXilinx.Port.DmaRegion

/-!
# Keeping a port in reset

A port is held in reset while it is reconfigured, and for a moment by several other
operations.  The operations nest, and a counter tells the outermost one, which alone writes
the control register.  A bracket of partial reconfiguration is open from
`fpga_port_disable` to `fpga_port_enable`, with the lock of the port free in between; all
other operations run under that lock as a whole.

The wait for the hardware's acknowledgement is commented out in the driver, so disabling a
port always succeeds.
-/

namespace OpaeXilinx.Port

open OpaeXilinx.Base

/-- The control register of a port, `disable_count`, and what the driver has done with
them: the values it has written, the last one first, and whether `WARN_ON` has seen the
port enabled once too often. -/
structure PortReset where
  control : BitVec 64
  disableCount : BitVec 32
  writes : List (BitVec 64)
  warned : Bool
  deriving DecidableEq, Repr

/-- A value of the control register with another `port_sftrst`. -/
def withSftrst (control : BitVec 64) (sftrst : Bool) : BitVec 64 :=
  control &&& ~~~1 ||| if sftrst then 1 else 0

def PortReset.writeControl (p : PortReset) (value : BitVec 64) : PortReset :=
  { p with control := value, writes := value :: p.writes }

/-- `__fpga_port_enable`. -/
def portEnable (p : PortReset) : PortReset :=
  let p := { p with
    warned := p.warned || p.disableCount == 0
    disableCount := p.disableCount - 1 }
  if p.disableCount ≠ 0 then p else p.writeControl (withSftrst p.control false)

/-- `__fpga_port_disable`. -/
def portDisable (p : PortReset) : Except Errno Unit × PortReset :=
  let next := { p with disableCount := p.disableCount + 1 }
  if p.disableCount ≠ 0 then (.ok (), next)
  else (.ok (), next.writeControl (withSftrst p.control true))

/-- `__fpga_port_reset`. -/
def portReset (p : PortReset) : Except Errno Unit × PortReset :=
  match portDisable p with
  | (.error err, p) => (.error err, p)
  | (.ok _, p) => (.ok (), portEnable p)

/-- `power_state` of the status register. -/
def powerState (status : BitVec 64) : BitVec 4 := status.extractLsb' 8 4

/-- `PORT_POWER_STATE_AP6`. -/
def portPowerStateAp6 : BitVec 4 := 6

/-- `port_err_clear`, with the status and the errors it reads. -/
def portErrClear (status portError err : BitVec 64) (p : PortReset) :
    Except Errno Unit × PortReset :=
  if powerState status = portPowerStateAp6 then (.error .ebusy, p)
  else match portDisable p with
    | (.error err, p) => (.error err, p)
    | (.ok _, p) => (if portError = err then .ok () else .error .ebusy, portEnable p)

/-- An FME device, by its id.  Its lock is held for the whole of `fme_pr`. -/
abbrev Fme := Fin (2 ^ 31)

/-- A port, the bits that the hardware has last put into its control register, and the
devices that are reconfiguring it. -/
structure Resetting where
  port : PortReset
  hardware : BitVec 64
  brackets : List Fme
  deriving DecidableEq, Repr

inductive ResetCall where
  | portReset
  | errClear (status portError err : BitVec 64)
  | lastClose
  | prDisable (fme : Fme)
  | prEnable (fme : Fme)
  /-- The hardware changes its bits of the control register. -/
  | hardware (value : BitVec 64)

/-- `fme_pr` runs once at a time for a device. -/
def ResetCall.Possible (s : Resetting) : ResetCall → Prop
  | .prDisable fme => fme ∉ s.brackets
  | .prEnable fme => fme ∈ s.brackets
  | _ => True

def Resetting.call (s : Resetting) : ResetCall → Resetting
  | .portReset => { s with port := (portReset s.port).2 }
  | .errClear status portError err =>
    { s with port := (portErrClear status portError err s.port).2 }
  | .lastClose => { s with port := (portReset s.port).2 }
  | .prDisable fme => { s with port := (portDisable s.port).2, brackets := fme :: s.brackets }
  | .prEnable fme => { s with port := portEnable s.port, brackets := s.brackets.erase fme }
  | .hardware value => { s with
      port := { s.port with control := withSftrst value (s.port.control.getLsbD 0) }
      hardware := value }

/-- A port that has been reset once. -/
def resetSystem : System Resetting ResetCall where
  init s := ∃ control, s = ⟨(portReset ⟨control, 0, [], false⟩).2, control, []⟩
  step s call next := call.Possible s ∧ next = s.call call

/-- The port is in reset exactly as long as someone is reconfiguring it. -/
structure ResetRight (s : Resetting) : Prop where
  sftrst : s.port.control.getLsbD 0 = true ↔ 0 < s.port.disableCount.toNat
  count : s.port.disableCount.toNat = s.brackets.length
  /-- No other bit is changed by the driver. -/
  others : ∀ i, 0 < i → s.port.control.getLsbD i = s.hardware.getLsbD i
  /-- The count has not gone below zero. -/
  counted : s.port.warned = false

theorem withSftrst_zero (control : BitVec 64) (sftrst : Bool) :
    (withSftrst control sftrst).getLsbD 0 = sftrst := by
  cases sftrst <;> simp [withSftrst]

theorem withSftrst_other (control : BitVec 64) (sftrst : Bool) {i : Nat} (other : 0 < i) :
    (withSftrst control sftrst).getLsbD i = control.getLsbD i := by
  have one : (1 : BitVec 64).getLsbD i = false := by
    simp [show (1 : BitVec 64) = 1#64 from rfl, BitVec.getLsbD_one]
    omega
  have bit : (if sftrst then 1 else 0 : BitVec 64).getLsbD i = false := by
    cases sftrst
    · exact BitVec.getLsbD_zero
    · exact one
  rw [withSftrst, BitVec.getLsbD_or, BitVec.getLsbD_and, BitVec.getLsbD_not, one, bit]
  by_cases inside : i < 64
  · simp [inside]
  · simp [BitVec.getLsbD_of_ge control i (by omega)]

/-- The state of a port while `open` brackets are open. -/
structure Held (hardware : BitVec 64) (held : Nat) (p : PortReset) : Prop where
  sftrst : p.control.getLsbD 0 = decide (0 < held)
  count : p.disableCount.toNat = held
  others : ∀ i, 0 < i → p.control.getLsbD i = hardware.getLsbD i
  counted : p.warned = false

section Functions

variable {hardware : BitVec 64} {held : Nat} {p : PortReset}

/-- Disabling opens another bracket, and writes the register only if it is the first. -/
theorem Held.portDisable (isHeld : Held hardware held p) (small : held + 1 < 2 ^ 32) :
    ∃ next, portDisable p = (.ok (), next) ∧ Held hardware (held + 1) next ∧
      (0 < held → next.writes = p.writes) := by
  have count := isHeld.count
  have next : (p.disableCount + 1).toNat = held + 1 := by
    rw [BitVec.toNat_add, show (1 : BitVec 32).toNat = 1 from rfl]
    omega
  unfold Port.portDisable
  by_cases zero : p.disableCount = 0
  · have isZero : held = 0 := by simpa [zero] using count.symm
    rw [if_neg (by simpa using zero)]
    refine ⟨_, rfl, ⟨?_, next, fun i other => ?_, isHeld.counted⟩, fun some => by omega⟩
    · rw [PortReset.writeControl, withSftrst_zero]
      simp
    · rw [PortReset.writeControl, withSftrst_other _ _ other]
      exact isHeld.others i other
  · have some : 0 < held := by
      rcases Nat.eq_zero_or_pos held with isZero | some
      · exact absurd (BitVec.eq_of_toNat_eq (by simpa [isZero] using count)) zero
      · exact some
    rw [if_pos zero]
    refine ⟨_, rfl, ⟨?_, next, isHeld.others, isHeld.counted⟩, fun _ => rfl⟩
    rw [isHeld.sftrst]
    simp [some]

/-- Enabling closes a bracket, and writes the register only if it is the last. -/
theorem Held.portEnable (isHeld : Held hardware (held + 1) p) :
    Held hardware held (portEnable p) ∧ (0 < held → (portEnable p).writes = p.writes) := by
  have count := isHeld.count
  have bound := p.disableCount.isLt
  have next : (p.disableCount - 1).toNat = held := by
    rw [BitVec.toNat_sub, show (1 : BitVec 32).toNat = 1 from rfl]
    omega
  have notZero : p.disableCount ≠ 0 := by
    intro zero
    simp [zero] at count
  have unwarned : (p.warned || p.disableCount == 0) = false := by
    rw [isHeld.counted, beq_false_of_ne notZero]
    rfl
  unfold Port.portEnable
  by_cases zero : p.disableCount - 1 = 0
  · have isZero : held = 0 := by
      rw [zero] at next
      exact next.symm
    simp only [zero, ne_eq, not_true, if_false]
    refine ⟨⟨?_, ?_, fun i other => ?_, ?_⟩, fun some => by omega⟩
    · rw [PortReset.writeControl, withSftrst_zero]
      simp [isZero]
    · simp [PortReset.writeControl, isZero]
    · rw [PortReset.writeControl, withSftrst_other _ _ other]
      exact isHeld.others i other
    · exact unwarned
  · have some : 0 < held := by
      rcases Nat.eq_zero_or_pos held with isZero | some
      · exact absurd (BitVec.eq_of_toNat_eq (by simpa [isZero] using next)) zero
      · exact some
    simp only [zero, ne_eq, not_false_eq_true, if_true]
    refine ⟨⟨?_, next, isHeld.others, unwarned⟩, fun _ => trivial⟩
    rw [isHeld.sftrst]
    simp [some]

/-- Disabling and enabling in one go leaves a port as it is held. -/
theorem Held.portReset (isHeld : Held hardware held p) (small : held + 1 < 2 ^ 32) :
    Held hardware held (portReset p).2 ∧ (0 < held → (portReset p).2.writes = p.writes) := by
  obtain ⟨next, disabled, inside, kept⟩ := isHeld.portDisable small
  obtain ⟨outside, keptAfter⟩ := inside.portEnable
  simp only [Port.portReset, disabled]
  exact ⟨outside, fun some => (keptAfter some).trans (kept some)⟩

theorem Held.portErrClear (isHeld : Held hardware held p) (small : held + 1 < 2 ^ 32)
    (status portError err : BitVec 64) :
    Held hardware held (portErrClear status portError err p).2 ∧
      (0 < held → (portErrClear status portError err p).2.writes = p.writes) := by
  unfold Port.portErrClear
  split
  · exact ⟨isHeld, fun _ => rfl⟩
  · obtain ⟨next, disabled, inside, kept⟩ := isHeld.portDisable small
    obtain ⟨outside, keptAfter⟩ := inside.portEnable
    simp only [disabled]
    exact ⟨outside, fun some => (keptAfter some).trans (kept some)⟩

end Functions

structure ResetInv (s : Resetting) : Prop where
  held : Held s.hardware s.brackets.length s.port
  brackets : s.brackets.Nodup

theorem ResetInv.small {s : Resetting} (inv : ResetInv s) : s.brackets.length + 1 < 2 ^ 32 := by
  have bound := inv.brackets.length_le_card
  rw [Fintype.card_fin] at bound
  omega

/-- A call keeps the invariant, and does not touch the register while a bracket stays
open. -/
theorem ResetInv.call {s : Resetting} (inv : ResetInv s) {call : ResetCall}
    (possible : call.Possible s) :
    ResetInv (s.call call) ∧ (0 < s.brackets.length → 0 < (s.call call).brackets.length →
      (s.call call).port.writes = s.port.writes) := by
  cases call with
  | portReset =>
      obtain ⟨held, kept⟩ := inv.held.portReset inv.small
      exact ⟨⟨held, inv.brackets⟩, fun some _ => kept some⟩
  | errClear status portError err =>
      obtain ⟨held, kept⟩ := inv.held.portErrClear inv.small status portError err
      exact ⟨⟨held, inv.brackets⟩, fun some _ => kept some⟩
  | lastClose =>
      obtain ⟨held, kept⟩ := inv.held.portReset inv.small
      exact ⟨⟨held, inv.brackets⟩, fun some _ => kept some⟩
  | prDisable fme =>
      obtain ⟨next, disabled, held, kept⟩ := inv.held.portDisable inv.small
      have after : s.call (.prDisable fme) = ⟨next, s.hardware, fme :: s.brackets⟩ := by
        simp [Resetting.call, disabled]
      rw [after]
      exact ⟨⟨held, List.nodup_cons.mpr ⟨possible, inv.brackets⟩⟩, fun some _ => kept some⟩
  | prEnable fme =>
      have length := List.length_erase_of_mem possible
      have some := List.length_pos_of_mem possible
      have before : Held s.hardware ((s.brackets.erase fme).length + 1) s.port := by
        rw [length, Nat.sub_add_cancel some]
        exact inv.held
      obtain ⟨held, kept⟩ := before.portEnable
      exact ⟨⟨held, inv.brackets.erase fme⟩, fun _ left => kept left⟩
  | hardware value =>
      refine ⟨⟨⟨?_, inv.held.count, fun i other => ?_, inv.held.counted⟩, inv.brackets⟩,
        fun _ _ => rfl⟩
      · exact (withSftrst_zero _ _).trans inv.held.sftrst
      · exact withSftrst_other _ _ other

theorem ResetInv.reach {s : Resetting} (reachable : resetSystem.Reachable s) : ResetInv s := by
  apply reachable.invariant
  · rintro _ ⟨control, rfl⟩
    -- whatever the bit was before, the reset sets and clears it
    have inside : Held control 1 (portDisable ⟨control, 0, [], false⟩).2 :=
      ⟨withSftrst_zero _ _, rfl, fun i other => withSftrst_other _ _ other, rfl⟩
    exact ⟨inside.portEnable.1, .nil⟩
  · rintro s call _ inv - ⟨possible, rfl⟩
    exact (inv.call possible).1

theorem ResetInv.right {s : Resetting} (inv : ResetInv s) : ResetRight s := by
  refine ⟨?_, inv.held.count, inv.held.others, inv.held.counted⟩
  rw [inv.held.sftrst, inv.held.count, decide_eq_true_iff]

/-- In every interleaving the port is in reset exactly while it is being reconfigured, and
no call takes it out of reset in between. -/
theorem nested_reset_right {s : Resetting} (reachable : resetSystem.Reachable s) :
    ResetRight s ∧ ∀ call, call.Possible s → s.brackets ≠ [] → (s.call call).brackets ≠ [] →
      (s.call call).port.writes = s.port.writes := by
  have inv := ResetInv.reach reachable
  refine ⟨inv.right, fun call possible some left => (inv.call possible).2 ?_ ?_⟩
  · exact List.length_pos_of_ne_nil some
  · exact List.length_pos_of_ne_nil left

/-- A port that is reset and whose errors are cleared while it is being reconfigured. -/
theorem nested_reset_right_inside : ∃ s, resetSystem.Reachable s ∧ s.brackets = [0] ∧
    s.port.control = 1 ∧ ResetRight s := by
  let fresh : Resetting := ⟨(portReset ⟨0, 0, [], false⟩).2, 0, []⟩
  let disabled := fresh.call (.prDisable 0)
  let reset := disabled.call .portReset
  let cleared := reset.call (.errClear 0 5 5)
  have isFree : ResetCall.Possible fresh (.prDisable 0) := List.not_mem_nil
  have reachDisabled : resetSystem.Reachable disabled :=
    .step (.init ⟨0, rfl⟩) trivial ⟨isFree, rfl⟩
  have resetPossible : ResetCall.Possible disabled .portReset := trivial
  have clearPossible : ResetCall.Possible reset (.errClear 0 5 5) := trivial
  have reachCleared : resetSystem.Reachable cleared :=
    .step (.step reachDisabled trivial ⟨resetPossible, rfl⟩) trivial ⟨clearPossible, rfl⟩
  exact ⟨cleared, reachCleared, by decide, by decide, (nested_reset_right reachCleared).1⟩

end OpaeXilinx.Port
