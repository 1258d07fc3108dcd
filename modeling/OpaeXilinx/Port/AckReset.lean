import OpaeXilinx.Port.Reset

/-!
# Resetting a port with acknowledgement

In the driver for the PCIe endpoint the wait for the hardware's acknowledgement is not
commented out, so that disabling a port can time out.  The counter has been incremented
by then, and neither the function nor its callers take it back.
-/

namespace OpaeXilinx.Port

open OpaeXilinx.Base

/-- An access to the control register, with the value read or written. -/
inductive RegAccess where
  | readq (value : BitVec 64)
  | writeq (value : BitVec 64)
  deriving DecidableEq, Repr

/-- `disable_count` and the accesses to the control register, the last one first. -/
structure AckPort where
  disableCount : BitVec 32
  trace : List RegAccess
  deriving DecidableEq, Repr

def AckPort.access (p : AckPort) (access : RegAccess) : AckPort :=
  { p with trace := access :: p.trace }

/-- `port_sftrst_ack` of a value of the control register. -/
def sftrstAck (control : BitVec 64) : Bool := control.getLsbD 4

/-- `ETIMEDOUT`. -/
def etimedout : Errno := .other 110

/-- Polls of the loop `for (; wait <= RST_POLL_TIMEOUT; wait += RST_POLL_INVL)`. -/
def rstPolls : Nat := 1000 / 10 + 1

/-- `fpga_wait_register_field` for `port_sftrst_ack`: the polls left, and the number of
the next one. -/
def waitSftrstAck (polls : Nat → BitVec 64) : Nat → Nat → AckPort → Except Errno Unit × AckPort
  | 0, _, p => (.error etimedout, p)
  | left + 1, poll, p =>
      let p := p.access (.readq (polls poll))
      if sftrstAck (polls poll) then (.ok (), p) else waitSftrstAck polls left (poll + 1) p

/-- What the hardware returns to `__fpga_port_disable`: first the register, then the
polls. -/
structure DisableEnv where
  control : BitVec 64
  polls : Nat → BitVec 64

/-- `__fpga_port_disable`. -/
def ackPortDisable (p : AckPort) (env : DisableEnv) : Except Errno Unit × AckPort :=
  let next := { p with disableCount := p.disableCount + 1 }
  if p.disableCount ≠ 0 then (.ok (), next)
  else
    let next := next.access (.readq env.control)
    let next := next.access (.writeq (withSftrst env.control true))
    waitSftrstAck env.polls rstPolls 0 next

/-- `__fpga_port_enable`, with the value of the register that it reads. -/
def ackPortEnable (p : AckPort) (control : BitVec 64) : AckPort :=
  let p := { p with disableCount := p.disableCount - 1 }
  if p.disableCount ≠ 0 then p
  else
    let p := p.access (.readq control)
    p.access (.writeq (withSftrst control false))

/-- `__fpga_port_reset`. -/
def ackPortReset (p : AckPort) (env : DisableEnv) (control : BitVec 64) :
    Except Errno Unit × AckPort :=
  match ackPortDisable p env with
  | (.error err, p) => (.error err, p)
  | (.ok _, p) => (.ok (), ackPortEnable p control)

/-- A port, and the number of brackets open on it. -/
structure AckState where
  port : AckPort
  brackets : Nat
  deriving DecidableEq, Repr

/-- Calls of `fpga_port_reset`, `fpga_port_disable` and `fpga_port_enable`, each under the
lock of the port. -/
inductive AckCall where
  | reset (env : DisableEnv) (control : BitVec 64)
  | disable (env : DisableEnv)
  | enable (control : BitVec 64)

/-- Brackets are balanced: only an open one is closed. -/
def AckCall.Possible (s : AckState) : AckCall → Prop
  | .enable _ => 0 < s.brackets
  | _ => True

/-- A bracket is open when `fpga_port_disable` has returned 0. -/
def AckState.call (s : AckState) : AckCall → AckState
  | .reset env control => { s with port := (ackPortReset s.port env control).2 }
  | .disable env =>
      match ackPortDisable s.port env with
      | (.error _, port) => { s with port := port }
      | (.ok _, port) => ⟨port, s.brackets + 1⟩
  | .enable control => ⟨ackPortEnable s.port control, s.brackets - 1⟩

/-- A port as it is allocated. -/
def AckState.initial : AckState := ⟨⟨0, []⟩, 0⟩

/-- Between two traces `port_sftrst` is set, the acknowledgement is seen, and the bit is
cleared. -/
def Driven (before after : List RegAccess) : Prop :=
  ∃ control set waiting acked control' cleared,
    after = .writeq cleared :: .readq control' :: .readq acked ::
      (waiting ++ .writeq set :: .readq control :: before) ∧
    set.getLsbD 0 = true ∧ sftrstAck acked = true ∧ cleared.getLsbD 0 = false

/-- A call that fails leaves the count, and a reset that succeeds while no bracket is open
has driven the bit. -/
def CallRight (s : AckState) : AckCall → Prop
  | .reset env control =>
      (∀ err next, ackPortReset s.port env control = (.error err, next) →
        next.disableCount = s.port.disableCount) ∧
      (∀ next, ackPortReset s.port env control = (.ok (), next) → s.brackets = 0 →
        Driven s.port.trace next.trace)
  | .disable env =>
      ∀ err next, ackPortDisable s.port env = (.error err, next) →
        next.disableCount = s.port.disableCount
  | .enable _ => True

/-- The hardware acknowledges within the polls. -/
def DisableEnv.Acknowledges (env : DisableEnv) : Prop :=
  ∃ poll < rstPolls, sftrstAck (env.polls poll) = true

/-- A call that starts to wait for the acknowledgement gets it. -/
def Acknowledged (s : AckState) : AckCall → Prop
  | .reset env _ | .disable env => s.port.disableCount = 0 → env.Acknowledges
  | .enable _ => True

/-- The wait succeeds with the first acknowledgement, or times out after all polls. -/
theorem waitSftrstAck_cases (polls : Nat → BitVec 64) (left poll : Nat) (p : AckPort) :
    ∃ waiting, (∃ acked, sftrstAck acked = true ∧ (∃ k, k < poll + left ∧ acked = polls k) ∧
        waitSftrstAck polls left poll p =
          (.ok (), ⟨p.disableCount, .readq acked :: (waiting ++ p.trace)⟩)) ∨
      ((∀ k, poll ≤ k → k < poll + left → sftrstAck (polls k) = false) ∧
        waitSftrstAck polls left poll p =
          (.error etimedout, ⟨p.disableCount, waiting ++ p.trace⟩)) := by
  induction left generalizing poll p with
  | zero => exact ⟨[], .inr ⟨fun _ _ _ => by omega, rfl⟩⟩
  | succ left ih =>
      simp only [waitSftrstAck]
      by_cases acked : sftrstAck (polls poll) = true
      · rw [if_pos acked]
        exact ⟨[], .inl ⟨polls poll, acked, ⟨poll, by omega, rfl⟩, rfl⟩⟩
      · rw [if_neg acked]
        obtain ⟨waiting, ⟨value, seen, ⟨k, below, same⟩, result⟩ | ⟨silent, result⟩⟩ :=
          ih (poll + 1) (p.access (.readq (polls poll)))
        · refine ⟨waiting ++ [.readq (polls poll)], .inl ⟨value, seen, ⟨k, by omega, same⟩, ?_⟩⟩
          simpa [AckPort.access] using result
        · refine ⟨waiting ++ [.readq (polls poll)], .inr ⟨fun k above below => ?_, ?_⟩⟩
          · rcases Nat.eq_or_lt_of_le above with rfl | later
            · simpa using acked
            · exact silent k later (by omega)
          · simpa [AckPort.access] using result

/-- The ways through `__fpga_port_disable`: a nested call, an acknowledged one and one that
times out. -/
theorem ackPortDisable_cases (p : AckPort) (env : DisableEnv) :
    (p.disableCount ≠ 0 ∧ ackPortDisable p env = (.ok (), ⟨p.disableCount + 1, p.trace⟩)) ∨
    (p.disableCount = 0 ∧ env.Acknowledges ∧ ∃ waiting acked, sftrstAck acked = true ∧
      ackPortDisable p env = (.ok (), ⟨1, .readq acked ::
        (waiting ++ .writeq (withSftrst env.control true) :: .readq env.control :: p.trace)⟩)) ∨
    (p.disableCount = 0 ∧ ¬ env.Acknowledges ∧ ∃ trace,
      ackPortDisable p env = (.error etimedout, ⟨1, trace⟩)) := by
  by_cases zero : p.disableCount = 0
  · simp only [ackPortDisable, zero, ne_eq, not_true, if_false]
    obtain ⟨waiting, ⟨acked, seen, ⟨k, below, same⟩, result⟩ | ⟨silent, result⟩⟩ :=
      waitSftrstAck_cases env.polls rstPolls 0
        (((⟨0 + 1, p.trace⟩ : AckPort).access (.readq env.control)).access
          (.writeq (withSftrst env.control true)))
    · refine .inr (.inl ⟨trivial, ⟨k, by omega, same ▸ seen⟩, waiting, acked, seen, ?_⟩)
      simpa [AckPort.access] using result
    · refine .inr (.inr ⟨trivial, ?_, _, result⟩)
      rintro ⟨k, below, seen⟩
      simp [silent k (Nat.zero_le k) (by omega)] at seen
  · exact .inl ⟨zero, by rw [ackPortDisable, if_pos zero]⟩

theorem ackPortEnable_count (p : AckPort) (control : BitVec 64) :
    (ackPortEnable p control).disableCount = p.disableCount - 1 := by
  simp only [ackPortEnable]
  split <;> rfl

/-- Enabling after the only disabling clears the bit. -/
theorem ackPortEnable_one (trace : List RegAccess) (control : BitVec 64) :
    ackPortEnable ⟨1, trace⟩ control =
      ⟨0, .writeq (withSftrst control false) :: .readq control :: trace⟩ := by
  have last : ¬ (1 - 1 : BitVec 32) ≠ 0 := by decide
  simp only [ackPortEnable, if_neg last]
  rfl

/-- The count is the number of open brackets, in 32 bits. -/
def Counted (s : AckState) : Prop := s.port.disableCount = BitVec.ofNat 32 s.brackets

theorem callRight_iff {s : AckState} (counted : Counted s) (call : AckCall) :
    CallRight s call ↔ Acknowledged s call := by
  have one : (1 : BitVec 32) ≠ 0 := by decide
  cases call with
  | enable control => exact Iff.rfl
  | disable env =>
      simp only [CallRight, Acknowledged]
      rcases ackPortDisable_cases s.port env with ⟨nested, result⟩ |
        ⟨zero, acked, waiting, value, seen, result⟩ | ⟨zero, silent, trace, result⟩
      · exact ⟨fun _ zero => absurd zero nested,
          fun _ err next failed => by simp [result] at failed⟩
      · exact ⟨fun _ _ => acked, fun _ err next failed => by simp [result] at failed⟩
      · constructor
        · intro kept
          have count := kept _ _ result
          exact absurd (count.trans zero) one
        · exact fun acknowledged => absurd (acknowledged zero) silent
  | reset env control =>
      simp only [CallRight, Acknowledged, ackPortReset]
      rcases ackPortDisable_cases s.port env with ⟨nested, result⟩ |
        ⟨zero, acked, waiting, value, seen, result⟩ | ⟨zero, silent, trace, result⟩
      · have inside : s.brackets ≠ 0 := by
          intro none
          exact nested (by rw [counted, none]; rfl)
        refine ⟨fun _ zero => absurd zero nested, fun _ => ⟨?_, fun _ _ none => absurd none inside⟩⟩
        intro err next failed
        simp [result] at failed
      · refine ⟨fun _ _ => acked, fun _ => ⟨fun err next failed => by simp [result] at failed, ?_⟩⟩
        intro next succeeded _
        simp only [result, ackPortEnable_one, Prod.mk.injEq, true_and] at succeeded
        rw [← succeeded]
        exact ⟨env.control, _, waiting, value, control, _, rfl, withSftrst_zero _ _, seen,
          withSftrst_zero _ _⟩
      · constructor
        · intro right
          have count := right.1 etimedout ⟨1, trace⟩ (by rw [result])
          exact absurd (count.trans zero) one
        · exact fun acknowledged => absurd (acknowledged zero) silent

theorem ofNat_succ (count : Nat) : BitVec.ofNat 32 (count + 1) = BitVec.ofNat 32 count + 1 :=
  BitVec.ofNat_add count 1

theorem Counted.call {s : AckState} (counted : Counted s) {call : AckCall}
    (possible : call.Possible s) (acknowledged : Acknowledged s call) : Counted (s.call call) := by
  cases call with
  | enable control =>
      obtain ⟨left, more⟩ := Nat.exists_eq_add_of_lt possible
      rw [Nat.zero_add] at more
      simp only [Counted, AckState.call, ackPortEnable_count]
      rw [counted, more, Nat.add_sub_cancel, ofNat_succ]
      exact BitVec.add_sub_cancel _ _
  | disable env =>
      simp only [Counted, AckState.call]
      rcases ackPortDisable_cases s.port env with ⟨nested, result⟩ |
        ⟨zero, acked, waiting, value, seen, result⟩ | ⟨zero, silent, trace, result⟩
      · rw [result]
        simp only
        rw [counted, ofNat_succ]
      · rw [result]
        simp only
        rw [ofNat_succ, ← counted, zero]
        rfl
      · exact absurd (acknowledged zero) silent
  | reset env control =>
      simp only [Counted, AckState.call, ackPortReset]
      rcases ackPortDisable_cases s.port env with ⟨nested, result⟩ |
        ⟨zero, acked, waiting, value, seen, result⟩ | ⟨zero, silent, trace, result⟩
      · rw [result]
        simp only [ackPortEnable_count]
        rw [← counted]
        exact BitVec.add_sub_cancel _ _
      · rw [result]
        simp only [ackPortEnable_count]
        rw [← counted, zero]
        rfl
      · exact absurd (acknowledged zero) silent

theorem Counted.along_iff {s : AckState} (counted : Counted s) {calls : List AckCall}
    (possible : System.Along (fun s call => call.Possible s) AckState.call s calls) :
    System.Along CallRight AckState.call s calls ↔
      System.Along Acknowledged AckState.call s calls := by
  induction calls generalizing s with
  | nil => exact Iff.rfl
  | cons call calls ih =>
      obtain ⟨first, rest⟩ := possible
      constructor
      · rintro ⟨right, later⟩
        have acknowledged := (callRight_iff counted call).mp right
        exact ⟨acknowledged, (ih (counted.call first acknowledged) rest).mp later⟩
      · rintro ⟨acknowledged, later⟩
        exact ⟨(callRight_iff counted call).mpr acknowledged,
          (ih (counted.call first acknowledged) rest).mpr later⟩

/-- In every run of balanced calls, failed calls leave the count and successful resets
drive the bit exactly if every wait for the acknowledgement gets it. -/
theorem ackReset_right_iff {calls : List AckCall}
    (possible : System.Along (fun s call => call.Possible s) AckState.call .initial calls) :
    System.Along CallRight AckState.call .initial calls ↔
      System.Along Acknowledged AckState.call .initial calls := by
  have counted : Counted .initial := rfl
  exact counted.along_iff possible

/-- Hardware that acknowledges at the fourth poll. -/
def DisableEnv.slow : DisableEnv := ⟨0, fun poll => if poll = 3 then 0x10 else 0⟩

/-- Hardware that does not acknowledge. -/
def DisableEnv.silent : DisableEnv := ⟨0, fun _ => 0⟩

/-- A reset, a bracket with a reset inside, and another reset. -/
theorem ackReset_right_iff_bracket :
    System.Along CallRight AckState.call .initial
      [.reset .slow 1, .disable .slow, .reset .silent 1, .enable 1, .reset .slow 1] := by
  have slow : DisableEnv.slow.Acknowledges := ⟨3, by decide, rfl⟩
  have possible : System.Along (fun s call => call.Possible s) AckState.call .initial
      [.reset .slow 1, .disable .slow, .reset .silent 1, .enable 1, .reset .slow 1] :=
    ⟨trivial, trivial, trivial, Nat.one_pos, trivial, trivial⟩
  refine (ackReset_right_iff possible).mpr
    ⟨fun _ => slow, fun _ => slow, fun zero => ?_, trivial, fun _ => slow, trivial⟩
  exact absurd zero (by decide)

/-- After a reset that timed out, the next one returns 0 without touching the register. -/
theorem reset_after_timeout_does_nothing :
    ∃ calls : List AckCall,
      System.Along (fun s call => call.Possible s) AckState.call .initial calls ∧
      ¬ System.Along CallRight AckState.call .initial calls := by
  refine ⟨[.reset .silent 1, .reset .slow 1], ⟨trivial, trivial, trivial⟩, ?_⟩
  rintro ⟨⟨kept, -⟩, -⟩
  have count := kept etimedout (ackPortReset ⟨0, []⟩ .silent 1).2 (by decide)
  exact absurd count (by decide)

end OpaeXilinx.Port
