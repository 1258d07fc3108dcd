import OpaeXilinx.Csr.PfCsr

/-!
# The write channel

The slave waits until a write address and write data are both there, accepts them at the
same edge, and starts no other write before its response has been taken.  The address is
latched one edge earlier than it is accepted, so a master that changes its mind would
write the wrong register; a legal one does not.
-/

namespace OpaeXilinx.Csr

open OpaeXilinx.Base

/-- What a write does to the registers. -/
def applyWrite (regs : BitVec 5 → Word) (write : Addr × Word × Strb) : BitVec 5 → Word :=
  Function.update regs (index write.1) (strobed (regs (index write.1)) write.2.1 write.2.2)

/-- A write replaces the strobed bytes of the register it selects, and nothing else. -/
theorem byteAt_applyWrite (regs : BitVec 5 → Word) (write : Addr × Word × Strb) (reg : BitVec 5)
    {i : Nat} (inside : i < 4) :
    byteAt (applyWrite regs write reg) i =
      if reg = index write.1 ∧ write.2.2.getLsbD i = true then byteAt write.2.1 i
      else byteAt (regs reg) i := by
  by_cases selected : reg = index write.1
  · subst selected
    rw [applyWrite, Function.update_self, byteAt_strobed _ _ _ inside]
    simp
  · rw [applyWrite, Function.update_of_ne selected]
    simp [selected]

/-- The accepted writes, in order. -/
def St.writes (s : St) : List (Addr × Word × Strb) := s.aws.zip s.ws

/-- Writes are accepted in pairs, answered once, and carried out. -/
structure WritesRight (s : St) : Prop where
  paired : s.aws.length = s.ws.length
  answered : s.writes.length = s.bs + if s.regs.bvalid then 1 else 0
  regs : s.regs.slvReg = s.writes.foldl applyWrite slvRegReset

structure WriteInv (s : St) : Prop where
  right : WritesRight s
  together : s.regs.wready = s.regs.awready
  /-- What is about to be accepted has been latched, and is still offered. -/
  latched : s.regs.awready = true → s.aw = some s.regs.awaddr ∧ s.w.isSome = true
  /-- There is one write at a time. -/
  single : s.regs.awready = true → s.regs.bvalid = false
  busy : s.regs.awEn = true → s.regs.awready = false ∧ s.regs.bvalid = false

section Clock

variable {s : St} {pins : Pins}

/-- An edge at which a write is accepted. -/
theorem WriteInv.accept (inv : WriteInv s) (legal : Legal s pins) (ready : s.regs.awready = true) :
    WriteInv (s.clock pins) := by
  obtain ⟨⟨paired, answered, regs⟩, together, latched, single, busy⟩ := inv
  obtain ⟨aw, w⟩ := latched ready
  obtain ⟨data, w⟩ := Option.isSome_iff_exists.mp w
  obtain ⟨awvalid, sameAddr⟩ := legal.aw _ aw
  obtain ⟨wvalid, -⟩ := legal.w _ w
  have wready := together.trans ready
  have notValid := single ready
  have disabled : s.regs.awEn = false := by
    cases enabled : s.regs.awEn with
    | false => rfl
    | true => cases ready.symm.trans (busy enabled).1
  have writes : (s.clock pins).writes = s.writes ++ [(pins.awaddr, pins.wdata, pins.wstrb)] := by
    simp only [St.writes, St.clock, happens, awvalid, wvalid, ready, wready, Bool.and_self, if_true]
    exact List.zip_append paired
  have idle : s.regs.starts pins = false := by simp [Regs.starts, ready]
  have bvalid : (s.clock pins).regs.bvalid = true := by
    simp [St.clock, Regs.edge, ready, wready, awvalid, wvalid, notValid]
  refine ⟨⟨?_, ?_, ?_⟩, ?_, fun accepts => ?_, fun accepts => ?_, fun enabled => ?_⟩
  · simp [St.clock, happens, awvalid, wvalid, ready, wready, paired]
  · rw [writes, bvalid, List.length_append, answered]
    simp [St.clock, happens, notValid]
  · rw [writes, List.foldl_append, ← regs]
    simp [St.clock, Regs.edge, Regs.slvRegWren, ready, wready, awvalid, wvalid, Regs.writeReg,
      applyWrite, sameAddr]
  · simp [St.clock, Regs.edge, idle, wready]
  · simp [St.clock, Regs.edge, idle] at accepts
  · simp [St.clock, Regs.edge, idle] at accepts
  · simp [St.clock, Regs.edge, idle, notValid, disabled] at enabled

/-- An edge at which no write is accepted. -/
theorem WriteInv.wait (inv : WriteInv s) (notReady : s.regs.awready = false) :
    WriteInv (s.clock pins) := by
  obtain ⟨⟨paired, answered, regs⟩, together, latched, single, busy⟩ := inv
  have wready := together.trans notReady
  have writes : (s.clock pins).writes = s.writes := by
    simp [St.writes, St.clock, happens, notReady, wready]
  have bvalid : (s.clock pins).regs.bvalid = (s.regs.bvalid && !pins.bready) := by
    simp only [St.clock, Regs.edge, notReady, Bool.false_and, Bool.false_eq_true, if_false]
    cases s.regs.bvalid <;> cases pins.bready <;> rfl
  -- a write starts only if none is waiting for its response
  have free : s.regs.starts pins = true → s.regs.bvalid = false := by
    intro starts
    simp only [Regs.starts, Bool.and_eq_true] at starts
    exact (busy starts.2).2
  refine ⟨⟨?_, ?_, ?_⟩, ?_, fun accepts => ?_, fun accepts => ?_, fun enabled => ?_⟩
  · simp [St.clock, happens, notReady, wready, paired]
  · rw [writes, bvalid, answered]
    cases isValid : s.regs.bvalid <;> cases taken : pins.bready <;>
      simp [St.clock, happens, isValid, taken]
  · rw [writes, ← regs]
    simp [St.clock, Regs.edge, Regs.slvRegWren, notReady]
  · simp only [St.clock, Regs.edge, Regs.starts, notReady, wready]
    cases pins.wvalid <;> cases pins.awvalid <;> rfl
  · have starts : s.regs.starts pins = true := accepts
    have offered : pins.awvalid = true ∧ pins.wvalid = true := by
      simp only [Regs.starts, Bool.and_eq_true] at starts
      exact ⟨starts.1.1.2, starts.1.2⟩
    simp [St.clock, Regs.edge, waits, starts, offered.1, offered.2, notReady, wready]
  · rw [bvalid, free accepts]
    rfl
  · have idle : s.regs.starts pins = false := by
      cases starts : s.regs.starts pins with
      | false => rfl
      | true => simp [St.clock, Regs.edge, starts] at enabled
    refine ⟨idle, ?_⟩
    rw [bvalid]
    simp only [St.clock, Regs.edge, idle, Bool.false_eq_true, if_false] at enabled
    cases isValid : s.regs.bvalid with
    | false => rfl
    | true =>
        cases taken : pins.bready with
        | true => rfl
        | false =>
            simp only [taken, Bool.false_and, Bool.false_eq_true, if_false] at enabled
            cases isValid.symm.trans (busy enabled).2

end Clock

theorem WriteInv.reach {s : St} (reachable : csrSystem.Reachable s) : WriteInv s := by
  apply reachable.invariant
  · rintro _ rfl
    exact ⟨⟨rfl, rfl, rfl⟩, rfl, nofun, nofun, fun _ => ⟨rfl, rfl⟩⟩
  · rintro s pins _ inv - ⟨legal, rfl⟩
    cases ready : s.regs.awready with
    | true => exact inv.accept legal ready
    | false => exact inv.wait ready

/-- Whatever a legal master does, its writes are paired, answered once, and carried out at
their own addresses. -/
theorem csr_writes_right {s : St} (reachable : csrSystem.Reachable s) :
    WritesRight s ∧ s.regs.slvReg4Out = s.writes.foldl applyWrite slvRegReset 4 := by
  have right := (WriteInv.reach reachable).right
  exact ⟨right, congrFun right.regs 4⟩

/-- Two bytes of register 4 are written while a response is waiting for the master. -/
theorem csr_writes_right_register_four : ∃ s, csrSystem.Reachable s ∧ s.aws.length = 1 ∧
    s.regs.bvalid = true ∧ s.regs.slvReg4Out = 0x5503 ∧ WritesRight s := by
  let offer : Pins := ⟨true, 0x10, true, 0x66665577, 2, false, false, 0, false⟩
  have reach : csrSystem.Reachable ([offer, offer].foldl St.clock .reset) :=
    (csr_reach_reset _).along Legal St.clock (fun _ _ legal => ⟨trivial, legal, rfl⟩) (by decide)
  exact ⟨_, reach, by decide, by decide, by decide, (csr_writes_right reach).1⟩

end OpaeXilinx.Csr
