import Mathlib.Algebra.Group.Int.Defs
import Mathlib.Algebra.Group.Nat.Defs
import OpaeXilinx.Base.Transition

/-!
# Lockstep of the processor with the simulator

With lockstep on, `wrapper_tcg_qemu_tb_exec` spends a step before every translation block
and, once there are none left, waits for frames of the simulator, each of which is worth
one step size.  A frame also decrements the signed `catchup_steps`, which nothing sets back:
when it has wrapped to the greatest integer, the next frame is worth 2^31 step sizes.
-/

namespace OpaeXilinx.Cosim

open OpaeXilinx.Base

/-- The globals of the wrapper, whether a call is inside it, and how many frames have been
received and blocks executed. -/
structure Lockstep where
  hdlLockstep : Bool
  hdlStepSize : BitVec 32
  catchupSteps : BitVec 32
  hdlStepCount : BitVec 64
  lsSock : Bool
  inside : Bool
  frames : Nat
  blocks : Nat

/-- The decrement of a positive integer does not wrap. -/
theorem toInt_pred {value : BitVec 32} (positive : 0 < value.toInt) :
    (value - 1).toInt = value.toInt - 1 := by
  have bound : value.toInt < 2 ^ 31 := BitVec.toInt_lt
  rw [BitVec.toInt_sub, show (1 : BitVec 32).toInt = 1 by decide]
  exact Int.bmod_eq_of_le (by omega) (by omega)

/-- `do { hdl_step_count += hdl_step_size; } while (catchup_steps-- > 0);` -/
def credit (hdlStepSize : BitVec 32) (hdlStepCount : BitVec 64) (catchupSteps : BitVec 32) :
    BitVec 64 × BitVec 32 :=
  if _more : 0 < catchupSteps.toInt then
    credit hdlStepSize (hdlStepCount + hdlStepSize.signExtend 64) (catchupSteps - 1)
  else (hdlStepCount + hdlStepSize.signExtend 64, catchupSteps - 1)
termination_by catchupSteps.toInt.toNat
decreasing_by
  have pred := toInt_pred _more
  omega

/-- A call begins, a frame comes in while a call waits for it, or the call executes its
block and is over. -/
inductive LockstepEvent where
  | call | receive | execute
  deriving DecidableEq, Repr

namespace Lockstep

/-- The call is held up in its loop. -/
def Waits (s : Lockstep) : Prop := s.hdlLockstep = true ∧ s.hdlStepCount.toInt ≤ 0

instance (s : Lockstep) : Decidable s.Waits :=
  inferInstanceAs (Decidable (s.hdlLockstep = true ∧ s.hdlStepCount.toInt ≤ 0))

/-- `wrapper_tcg_qemu_tb_exec`, an event at a time. -/
def tcgExec (s : Lockstep) : LockstepEvent → Option Lockstep
  | .call =>
      if s.inside then none
      else if s.hdlLockstep then
        some { s with inside := true, hdlStepCount := s.hdlStepCount - 1 }
      else some { s with inside := true }
  | .receive =>
      if s.inside = true ∧ s.Waits then
        let (hdlStepCount, catchupSteps) := credit s.hdlStepSize s.hdlStepCount s.catchupSteps
        some { s with
          hdlStepCount, catchupSteps
          lsSock := true
          frames := s.frames + 1 }
      else none
  | .execute =>
      if s.inside = true ∧ ¬ s.Waits then
        some { s with inside := false, blocks := s.blocks + 1 }
      else none

/-- The initial values of the globals, with a step size. -/
def boot (hdlStepSize : BitVec 32) : Lockstep where
  hdlLockstep := true
  hdlStepSize
  catchupSteps := 0
  hdlStepCount := 100000000000
  lsSock := false
  inside := false
  frames := 0
  blocks := 0

end Lockstep

/-- The processor with lockstep on. -/
def lockstepSystem (hdlStepSize : BitVec 32) : System Lockstep LockstepEvent where
  init s := s = .boot hdlStepSize
  step s event next := s.tcgExec event = some next

/-- Blocks are executed out of the initial budget and the frames received only, and with a
positive step count. -/
structure Throttled (s : Lockstep) : Prop where
  blocks : (s.blocks : Int) ≤ 100000000000 + s.hdlStepSize.toInt * s.frames
  positive : ∀ next, s.tcgExec .execute = some next → 0 < s.hdlStepCount.toInt

/-- Fewer frames than the limit have been received whenever one is received. -/
def WithinFrames (limit : Nat) (s : Lockstep) (event : LockstepEvent) : Prop :=
  event = .receive → s.frames < limit

theorem ofInt_pred (width : Nat) (value : Int) :
    BitVec.ofInt width value - 1 = BitVec.ofInt width (value - 1) := by
  rw [Int.sub_eq_add_neg, BitVec.ofInt_add, BitVec.ofInt_neg, BitVec.sub_eq_add_neg]
  rfl

theorem credit_once {hdlStepSize catchupSteps : BitVec 32} (hdlStepCount : BitVec 64)
    (spent : catchupSteps.toInt ≤ 0) :
    credit hdlStepSize hdlStepCount catchupSteps =
      (hdlStepCount + BitVec.ofInt 64 hdlStepSize.toInt, catchupSteps - 1) := by
  rw [credit, dif_neg (Int.not_lt.mpr spent)]
  rfl

/-- With a counter that is not negative, the loop runs that many times more. -/
theorem credit_catchup {hdlStepSize catchupSteps : BitVec 32} (hdlStepCount : BitVec 64) (n : Nat)
    (more : catchupSteps.toInt = n) :
    (credit hdlStepSize hdlStepCount catchupSteps).1 =
      hdlStepCount + BitVec.ofInt 64 (hdlStepSize.toInt * (n + 1)) := by
  induction n generalizing catchupSteps hdlStepCount with
  | zero =>
      rw [credit_once hdlStepCount (Int.le_of_eq more)]
      simp
  | succ n ih =>
      have positive : 0 < catchupSteps.toInt := by omega
      rw [credit, dif_pos positive, ih _ (by rw [toInt_pred positive]; omega), BitVec.add_assoc,
        BitVec.signExtend, ← BitVec.ofInt_add]
      congr 2
      rw [Int.natCast_succ, Int.mul_add _ (n + 1 : Int) 1, Int.mul_one, Int.add_comm]

/-! ## The invariant -/

namespace Lockstep

/-- Steps that are left before the next frame is needed, and one more. -/
def remaining (s : Lockstep) : Int :=
  100000000000 + s.hdlStepSize.toInt * s.frames - s.blocks

/-- While the catch-up counter has not wrapped, the counters are what the frames received
and the blocks executed make them. -/
structure Inv (hdlStepSize : BitVec 32) (s : Lockstep) : Prop where
  lockstep : s.hdlLockstep = true
  stepSize : s.hdlStepSize = hdlStepSize
  frames : s.frames ≤ 2 ^ 31 + 1
  catchup : s.catchupSteps = BitVec.ofInt 32 (-s.frames)
  count : s.hdlStepCount = BitVec.ofInt 64 (s.remaining - if s.inside then 1 else 0)
  spent : 1 ≤ s.remaining

theorem remaining_lt {s : Lockstep} (frames : s.frames ≤ 2 ^ 31 + 1) : s.remaining < 2 ^ 63 := by
  have size : s.hdlStepSize.toInt ≤ 2 ^ 31 - 1 := BitVec.toInt_le
  have credits : s.hdlStepSize.toInt * s.frames ≤ (2 ^ 31 - 1) * s.frames :=
    Int.mul_le_mul_of_nonneg_right size (Int.natCast_nonneg _)
  rw [remaining]
  omega

/-- A number that fits is what the register holds. -/
theorem toInt_count {value : Int} (nonneg : 0 ≤ value) (fits : value < 2 ^ 63) :
    (BitVec.ofInt 64 value).toInt = value :=
  BitVec.toInt_ofInt_eq_self (by decide) (by omega) fits

theorem Inv.toInt_count {hdlStepSize : BitVec 32} {s : Lockstep} (inv : s.Inv hdlStepSize) :
    s.hdlStepCount.toInt = s.remaining - if s.inside then 1 else 0 := by
  have fits := remaining_lt inv.frames
  have spent := inv.spent
  rw [inv.count]
  exact Lockstep.toInt_count (by split <;> omega) (by split <;> omega)

/-- The catch-up counter is not positive before the frame that finds it wrapped. -/
theorem Inv.catchup_le {hdlStepSize : BitVec 32} {s : Lockstep} (inv : s.Inv hdlStepSize)
    (frames : s.frames < 2 ^ 31 + 1) : s.catchupSteps.toInt ≤ 0 := by
  rw [inv.catchup, BitVec.toInt_ofInt_eq_self (by decide) (by omega) (by omega)]
  omega

theorem Inv.boot {hdlStepSize : BitVec 32} : (Lockstep.boot hdlStepSize).Inv hdlStepSize where
  lockstep := rfl
  stepSize := rfl
  frames := Nat.zero_le _
  catchup := rfl
  count := by simp [remaining, Lockstep.boot]
  spent := by simp [remaining, Lockstep.boot]

theorem Inv.call {hdlStepSize : BitVec 32} {s next : Lockstep} (inv : s.Inv hdlStepSize)
    (step : s.tcgExec .call = some next) : next.Inv hdlStepSize := by
  rw [tcgExec, if_pos inv.lockstep] at step
  split at step
  · cases step
  next outside =>
    cases step
    refine { inv with count := ?_ }
    have count := inv.count
    rw [if_neg outside, Int.sub_zero] at count
    rw [if_pos rfl, count]
    exact ofInt_pred 64 s.remaining

theorem Inv.receive {hdlStepSize : BitVec 32} {s next : Lockstep} (positive : 0 < hdlStepSize.toInt)
    (inv : s.Inv hdlStepSize) (within : s.frames < 2 ^ 31 + 1)
    (step : s.tcgExec .receive = some next) : next.Inv hdlStepSize := by
  rw [tcgExec] at step
  split at step
  next waits =>
    have more : s.hdlStepSize.toInt * ↑(s.frames + 1) =
        s.hdlStepSize.toInt * s.frames + s.hdlStepSize.toInt := by
      rw [Int.natCast_succ, Int.mul_add, Int.mul_one]
    have spent := inv.spent
    have size := inv.stepSize
    rw [credit_once _ (inv.catchup_le within), inv.catchup, inv.count, if_pos waits.1, ofInt_pred,
      ← BitVec.ofInt_add] at step
    cases step
    refine ⟨inv.lockstep, size, within, ?_, ?_, ?_⟩
    · apply congrArg (BitVec.ofInt 32)
      show -(s.frames : Int) - 1 = -((s.frames + 1 : Nat) : Int)
      omega
    · rw [if_pos waits.1]
      apply congrArg (BitVec.ofInt 64)
      simp only [remaining] at spent ⊢
      rw [more]
      omega
    · simp only [remaining] at spent ⊢
      rw [more, size]
      rw [size] at spent
      omega
  · cases step

theorem Inv.execute {hdlStepSize : BitVec 32} {s next : Lockstep} (inv : s.Inv hdlStepSize)
    (step : s.tcgExec .execute = some next) : next.Inv hdlStepSize := by
  rw [tcgExec] at step
  split at step
  next ready =>
    have value := inv.toInt_count
    have positive : 0 < s.hdlStepCount.toInt :=
      Int.not_le.mp fun le => ready.2 ⟨inv.lockstep, le⟩
    have count := inv.count
    rw [if_pos ready.1] at value count
    cases step
    have spends : remaining { s with inside := false, blocks := s.blocks + 1 } =
        s.remaining - 1 := by
      simp only [remaining]
      omega
    refine { inv with count := ?_, spent := ?_ }
    · rw [spends, if_neg Bool.false_ne_true, Int.sub_zero]
      exact count
    · rw [spends]
      omega
  · cases step

/-- A wait is over as soon as there is a step left. -/
theorem Inv.throttled {hdlStepSize : BitVec 32} {s : Lockstep} (inv : s.Inv hdlStepSize) :
    Throttled s where
  blocks := by
    have spent := inv.spent
    rw [remaining] at spent
    omega
  positive next step := by
    rw [tcgExec] at step
    split at step
    next ready => exact Int.not_le.mp fun le => ready.2 ⟨inv.lockstep, le⟩
    · cases step

/-- The invariant holds in every run that receives no frame with a wrapped counter. -/
theorem Inv.reach {hdlStepSize : BitVec 32} (positive : 0 < hdlStepSize.toInt) {limit : Nat}
    (few : limit ≤ 2 ^ 31 + 1) {s : Lockstep}
    (reach : (lockstepSystem hdlStepSize).Reach (WithinFrames limit) s) : s.Inv hdlStepSize := by
  refine System.Reach.invariant ?_ ?_ reach
  · rintro state rfl
    exact .boot
  · intro state event next inv within step
    cases event with
    | call => exact inv.call step
    | receive => exact inv.receive positive (Nat.lt_of_lt_of_le (within rfl) few) step
    | execute => exact inv.execute step

section Runs

variable {hdlStepSize : BitVec 32} {limit : Nat} {s : Lockstep}

/-- Steps other than the receipt of a frame are always allowed. -/
theorem reach_step {event : LockstepEvent} {next : Lockstep}
    (reach : (lockstepSystem hdlStepSize).Reach (WithinFrames limit) s)
    (step : s.tcgExec event = some next) (free : event ≠ .receive) :
    (lockstepSystem hdlStepSize).Reach (WithinFrames limit) next :=
  .step reach (fun received => absurd received free) step

/-- A call inside the wrapper with a step left executes its block. -/
theorem reach_execute (reach : (lockstepSystem hdlStepSize).Reach (WithinFrames limit) s)
    (inside : s.inside = true) (left : 0 < s.hdlStepCount.toInt) :
    (lockstepSystem hdlStepSize).Reach (WithinFrames limit)
      { s with inside := false, blocks := s.blocks + 1 } := by
  have executed : s.tcgExec .execute = some { s with inside := false, blocks := s.blocks + 1 } :=
    if_pos ⟨inside, fun waits => Int.not_le.mpr left waits.2⟩
  exact reach_step reach executed nofun

theorem reach_call (reach : (lockstepSystem hdlStepSize).Reach (WithinFrames limit) s)
    (outside : s.inside = false) (lockstep : s.hdlLockstep = true) :
    (lockstepSystem hdlStepSize).Reach (WithinFrames limit)
      { s with inside := true, hdlStepCount := s.hdlStepCount - 1 } := by
  have called : s.tcgExec .call =
      some { s with inside := true, hdlStepCount := s.hdlStepCount - 1 } := by
    rw [tcgExec, outside, if_neg Bool.false_ne_true, if_pos lockstep]
  exact reach_step reach called nofun

/-- Blocks use up the steps that are left but one. -/
theorem reach_blocks (reach : (lockstepSystem hdlStepSize).Reach (WithinFrames limit) s)
    (outside : s.inside = false) (lockstep : s.hdlLockstep = true) {left : Int}
    (count : s.hdlStepCount = BitVec.ofInt 64 left) (fits : left < 2 ^ 63) (n : Nat)
    (enough : n < left) :
    (lockstepSystem hdlStepSize).Reach (WithinFrames limit)
      { s with
        inside := false
        hdlStepCount := BitVec.ofInt 64 (left - n)
        blocks := s.blocks + n } := by
  induction n with
  | zero =>
      rw [Int.natCast_zero, Int.sub_zero, ← count, ← outside]
      exact reach
  | succ n ih =>
      have called := reach_call (ih (by omega)) rfl lockstep
      rw [ofInt_pred] at called
      have value : (BitVec.ofInt 64 (left - n - 1)).toInt = left - n - 1 :=
        toInt_count (by omega) (by omega)
      have executed := reach_execute called rfl (by rw [value]; omega)
      rw [Int.natCast_succ, ← Int.sub_sub, ← Nat.add_assoc]
      exact executed

/-- With one step left, the next call takes a frame before it executes its block. -/
theorem reach_frame (reach : (lockstepSystem hdlStepSize).Reach (WithinFrames limit) s)
    (outside : s.inside = false) (lockstep : s.hdlLockstep = true)
    (count : s.hdlStepCount = 1) (more : s.frames < limit)
    (worth : 0 < (credit s.hdlStepSize 0 s.catchupSteps).1.toInt) :
    (lockstepSystem hdlStepSize).Reach (WithinFrames limit)
      { s with
        inside := false
        hdlStepCount := (credit s.hdlStepSize 0 s.catchupSteps).1
        catchupSteps := (credit s.hdlStepSize 0 s.catchupSteps).2
        lsSock := true
        frames := s.frames + 1
        blocks := s.blocks + 1 } := by
  have called := reach_call reach outside lockstep
  rw [count, show (1 : BitVec 64) - 1 = 0 by decide] at called
  have received : tcgExec { s with inside := true, hdlStepCount := 0 } .receive = some
      { s with
        inside := true
        hdlStepCount := (credit s.hdlStepSize 0 s.catchupSteps).1
        catchupSteps := (credit s.hdlStepSize 0 s.catchupSteps).2
        lsSock := true
        frames := s.frames + 1 } :=
    if_pos ⟨rfl, lockstep, show (0 : BitVec 64).toInt ≤ 0 by decide⟩
  have inside := System.Reach.step called (fun _ => more) received
  exact reach_execute inside rfl worth

/-- The steps of every frame can be used up before the next one comes in. -/
theorem reach_frames (positive : 0 < hdlStepSize.toInt) (n : Nat) (few : n ≤ 2 ^ 31 + 1) :
    ∃ s, (lockstepSystem hdlStepSize).Reach (WithinFrames (2 ^ 31 + 1)) s ∧ s.inside = false ∧
      s.frames = n ∧ s.remaining = 1 := by
  induction n with
  | zero =>
      have start : (lockstepSystem hdlStepSize).Reach (WithinFrames (2 ^ 31 + 1))
          (boot hdlStepSize) := .init rfl
      have reach := reach_blocks start rfl rfl
        (show (boot hdlStepSize).hdlStepCount = BitVec.ofInt 64 100000000000 from rfl) (by decide)
        99999999999 (by decide)
      refine ⟨_, reach, rfl, rfl, ?_⟩
      simp [remaining, boot]
  | succ n ih =>
      obtain ⟨s, reach, outside, frames, left⟩ := ih (by omega)
      have inv := Inv.reach positive (Nat.le_refl _) reach
      have size := inv.stepSize
      have count : s.hdlStepCount = 1 := by
        rw [inv.count, outside, if_neg Bool.false_ne_true, left]
        rfl
      have bound : hdlStepSize.toInt < 2 ^ 31 := BitVec.toInt_lt
      have credited : (credit s.hdlStepSize 0 s.catchupSteps).1 =
          BitVec.ofInt 64 hdlStepSize.toInt := by
        rw [credit_once 0 (inv.catchup_le (by omega)), size]
        exact BitVec.zero_add _
      have next := reach_frame reach outside inv.lockstep count (by omega) (by
        rw [credited, toInt_count (by omega) (by omega)]
        exact positive)
      have spent := reach_blocks next rfl inv.lockstep credited (by omega)
        (hdlStepSize.toInt - 1).toNat (by omega)
      refine ⟨_, spent, rfl, congrArg Nat.succ frames, ?_⟩
      have more : s.hdlStepSize.toInt * ↑(s.frames + 1) =
          s.hdlStepSize.toInt * s.frames + s.hdlStepSize.toInt := by
        rw [Int.natCast_succ, Int.mul_add, Int.mul_one]
      simp only [remaining] at left ⊢
      rw [more, size]
      rw [size] at left
      omega

/-- Frame number 2^31 + 2 finds the catch-up counter wrapped and is worth 2^31 step
sizes, which the blocks after it use up. -/
theorem reach_unthrottled (positive : 0 < hdlStepSize.toInt) (many : 2 ^ 31 + 1 < limit) :
    ∃ s, (lockstepSystem hdlStepSize).Reach (WithinFrames limit) s ∧ s.frames = 2 ^ 31 + 2 ∧
      ¬ Throttled s := by
  obtain ⟨s, reach, outside, frames, left⟩ := reach_frames positive (2 ^ 31 + 1) (Nat.le_refl _)
  have inv := Inv.reach positive (Nat.le_refl _) reach
  have size := inv.stepSize
  have bound : hdlStepSize.toInt < 2 ^ 31 := BitVec.toInt_lt
  have count : s.hdlStepCount = 1 := by
    rw [inv.count, outside, if_neg Bool.false_ne_true, left]
    rfl
  have wrapped : s.catchupSteps.toInt = (2 ^ 31 - 1 : Nat) := by
    rw [inv.catchup, frames]
    decide
  have credited : (credit s.hdlStepSize 0 s.catchupSteps).1 =
      BitVec.ofInt 64 (hdlStepSize.toInt * 2 ^ 31) := by
    rw [credit_catchup 0 _ wrapped, size]
    exact BitVec.zero_add _
  have wider : (lockstepSystem hdlStepSize).Reach (WithinFrames limit) s :=
    reach.mono fun _ _ within received => Nat.lt_trans (within received) many
  have next := reach_frame wider outside inv.lockstep count (by omega) (by
    rw [credited, toInt_count (by omega) (by omega)]
    omega)
  have spent := reach_blocks next rfl inv.lockstep credited (by omega)
    (hdlStepSize.toInt * 2 ^ 31 - 1).toNat (by omega)
  refine ⟨_, spent, congrArg Nat.succ frames, fun throttled => ?_⟩
  have blocks := throttled.blocks
  simp only [remaining, frames, size] at left blocks
  omega

end Runs

end Lockstep

/-- The throttle works in the runs that receive at most 2^31 + 1 frames, and not in those
that may receive more. -/
theorem lockstep_throttle_iff (hdlStepSize : BitVec 32) (positive : 0 < hdlStepSize.toInt)
    (limit : Nat) :
    (∀ s, (lockstepSystem hdlStepSize).Reach (WithinFrames limit) s → Throttled s) ↔
      limit ≤ 2 ^ 31 + 1 := by
  constructor
  · intro throttled
    apply Nat.le_of_not_lt
    intro many
    obtain ⟨s, reach, -, fails⟩ := Lockstep.reach_unthrottled positive many
    exact fails (throttled s reach)
  · intro few s reach
    exact (Lockstep.Inv.reach positive few reach).throttled

/-- With a step size of 8, the first 2^31 + 1 frames throttle the processor. -/
theorem lockstep_throttle_iff_eight :
    0 < (8 : BitVec 32).toInt ∧
      ∀ s, (lockstepSystem 8).Reach (WithinFrames (2 ^ 31 + 1)) s → Throttled s :=
  ⟨by decide, (lockstep_throttle_iff 8 (by decide) (2 ^ 31 + 1)).mpr (by decide)⟩

/-- Without a limit on the frames it is not throttled. -/
theorem lockstep_overruns : ¬ ∀ s, (lockstepSystem 8).Reachable s → Throttled s := by
  intro throttled
  have positive : 0 < (8 : BitVec 32).toInt := by decide
  obtain ⟨s, reach, -, fails⟩ :=
    Lockstep.reach_unthrottled positive (Nat.lt_succ_self (2 ^ 31 + 1))
  exact fails (throttled s (reach.mono fun _ _ _ => trivial))

end OpaeXilinx.Cosim
