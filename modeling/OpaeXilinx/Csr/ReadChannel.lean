import OpaeXilinx.Csr.PfCsr

/-!
# The read channel

A read address is accepted whether or not the response to the last one has been taken; if
it has not, the new one is forgotten.  Nothing is lost as long as the master offers no
address while it leaves a response waiting.
-/

namespace OpaeXilinx.Csr

open OpaeXilinx.Base

/-- The values of the registers that have been read, when their addresses were accepted. -/
def St.readValues (s : St) : List Word := s.ars.map Prod.snd

/-- Every accepted read is answered once, with the value of its register. -/
structure ReadsRight (s : St) : Prop where
  answered : s.ars.length = s.rs.length + if s.regs.rvalid then 1 else 0
  values : s.rs <+: s.readValues

/-- While a response is left waiting, no address is offered. -/
def Patient (s : St) (pins : Pins) : Prop :=
  s.regs.rvalid = true → pins.rready = false → pins.arvalid = false

instance (s : St) (pins : Pins) : Decidable (Patient s pins) :=
  inferInstanceAs (Decidable (_ → _ → _))

structure ReadInv (s : St) : Prop where
  /-- What has been read and not answered is on the data pins. -/
  values : s.readValues = s.rs ++ if s.regs.rvalid then [s.regs.rdata] else []
  /-- What is about to be accepted has been latched, and is still offered. -/
  latched : s.regs.arready = true → s.ar = some s.regs.araddr
  /-- There is one read at a time. -/
  single : s.regs.arready = true → s.regs.rvalid = false

section Clock

variable {s : St} {pins : Pins}

/-- An edge at which a read is accepted. -/
theorem ReadInv.accept (inv : ReadInv s) (legal : Legal s pins) (ready : s.regs.arready = true) :
    ReadInv (s.clock pins) := by
  obtain ⟨arvalid, sameAddr⟩ := legal.ar _ (inv.latched ready)
  have notValid := inv.single ready
  have values : s.readValues = s.rs := by simpa [notValid] using inv.values
  refine ⟨?_, fun accepts => ?_, fun accepts => ?_⟩
  · simp only [St.readValues] at values
    simp [St.readValues, St.clock, happens, Regs.edge, Regs.slvRegRden, arvalid, ready,
      notValid, values, sameAddr]
  · simp [St.clock, Regs.edge, ready] at accepts
  · simp [St.clock, Regs.edge, ready] at accepts

/-- An edge at which no read is accepted. -/
theorem ReadInv.wait (inv : ReadInv s) (patient : Patient s pins)
    (notReady : s.regs.arready = false) :
    ReadInv (s.clock pins) := by
  have values := inv.values
  have rvalid : (s.clock pins).regs.rvalid = (s.regs.rvalid && !pins.rready) := by
    simp only [St.clock, Regs.edge, notReady, Bool.false_and, Bool.false_eq_true, if_false]
    cases s.regs.rvalid <;> cases pins.rready <;> rfl
  have rdata : (s.clock pins).regs.rdata = s.regs.rdata := by
    simp [St.clock, Regs.edge, Regs.slvRegRden, notReady]
  refine ⟨?_, fun accepts => ?_, fun accepts => ?_⟩
  · have kept : (s.clock pins).readValues = s.readValues := by
      simp [St.readValues, St.clock, happens, notReady]
    rw [kept, rvalid, rdata, values]
    cases isValid : s.regs.rvalid <;> cases taken : pins.rready <;>
      simp [St.clock, happens, isValid, taken]
  · have offered : pins.arvalid = true := by simpa [St.clock, Regs.edge, notReady] using accepts
    simp [St.clock, Regs.edge, waits, offered, notReady]
  · have offered : pins.arvalid = true := by simpa [St.clock, Regs.edge, notReady] using accepts
    rw [rvalid]
    cases isValid : s.regs.rvalid with
    | false => rfl
    | true =>
        cases taken : pins.rready with
        | true => rfl
        | false => cases offered.symm.trans (patient isValid taken)

end Clock

theorem ReadInv.reach {s : St} (reach : csrSystem.Reach Patient s) : ReadInv s := by
  refine System.Reach.invariant ?_ ?_ reach
  · rintro _ rfl
    exact ⟨rfl, nofun, nofun⟩
  · rintro s pins _ inv patient ⟨legal, rfl⟩
    cases ready : s.regs.arready with
    | true => exact inv.accept legal ready
    | false => exact inv.wait patient ready

/-- If the master offers no address while it leaves a response waiting, no read is lost,
and every read gives the value its register had. -/
theorem csr_reads_right {s : St} (reach : csrSystem.Reach Patient s) : ReadsRight s := by
  have values := (ReadInv.reach reach).values
  refine ⟨?_, values ▸ List.prefix_append _ _⟩
  have lengths := congrArg List.length values
  rw [St.readValues, List.length_map, List.length_append] at lengths
  rw [lengths]
  split <;> rfl

/-- The pins of the read channels at an edge. -/
def readPins (arvalid : Bool) (araddr : Addr) (rready : Bool) : Pins :=
  ⟨false, 0, false, 0, 0, false, arvalid, araddr, rready⟩

/-- A read of register 4 whose response waits for two edges, and a read of register 0. -/
def slowReads : List Pins :=
  [readPins true 0x10 false, readPins true 0x10 false, readPins false 0 false,
    readPins false 0 false, readPins false 0 true, readPins true 0 false, readPins true 0 true,
    readPins false 0 true]

theorem csr_reads_right_register_four :
    (slowReads.foldl St.clock .reset).rs.length = 2 ∧
      ReadsRight (slowReads.foldl St.clock .reset) := by
  have reach : csrSystem.Reach Patient (slowReads.foldl St.clock .reset) :=
    (csr_reach_reset _).along (fun s pins => Patient s pins ∧ Legal s pins) St.clock
      (fun _ _ good => ⟨good.1, good.2, rfl⟩) (by decide)
  exact ⟨by decide, csr_reads_right reach⟩

/-- An address that is offered all the time, to a master that takes no response. -/
def hastyReads : List Pins := List.replicate 4 (readPins true 0x10 false)

/-- A second address that is offered while the first response is waiting is accepted and
forgotten. -/
theorem second_read_forgotten : csrSystem.Reachable (hastyReads.foldl St.clock .reset) ∧
    ¬ ReadsRight (hastyReads.foldl St.clock .reset) := by
  have reach : csrSystem.Reachable (hastyReads.foldl St.clock .reset) :=
    (csr_reach_reset _).along Legal St.clock (fun _ _ legal => ⟨trivial, legal, rfl⟩) (by decide)
  exact ⟨reach, fun right => absurd right.answered (by decide)⟩

end OpaeXilinx.Csr
