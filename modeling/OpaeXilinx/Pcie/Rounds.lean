import OpaeXilinx.Pcie.Accept

/-!
# What the bridge is doing

At any time the bridge waits for a request, holds a write back, holds a read back, reads,
completes a read, or rejects one; writes that it has taken on go on meanwhile.  Each edge
leads from one of these to another, as long as nothing is sent while a read is unanswered.
-/

namespace OpaeXilinx.Pcie

open OpaeXilinx.Base

namespace MaxisController

variable {m : MaxisController} {pins : CpldPins} {tready : Bool}

/-- No completion is being sent. -/
structure Idle (m : MaxisController) : Prop where
  sm : m.sm = .idle
  tvalid : m.tvalid = false
  completionUrDone : m.completionUrDone = false

theorem edge_idle (idle : m.sm = .idle) (noCpld : pins.cpldValid = false)
    (noUr : (pins.completionUrReq && !m.completionUrDone) = false) :
    (m.edge pins tready).Idle ∧ (m.edge pins tready).cpldReady = true := by
  constructor
  · constructor <;> simp [edge, machine, idle, noCpld, noUr]
  · simp [edge, machine, idle, noCpld, noUr]

/-- The data of a read is taken over. -/
theorem edge_idle_cpld (idle : m.sm = .idle) (cpld : pins.cpldValid = true)
    (ready : m.cpldReady = true) :
    m.edge pins tready =
      { m with
        cpldData := pins.cpldData, cpldReady := false, sm := .tlpBeat1
        tkeep := keepOf pins.cpldDwordNum, tvalid := false, completionUrDone := false } := by
  simp [edge, machine, idle, cpld, ready]

/-- A rejection begins. -/
theorem edge_idle_ur (idle : m.Idle) (noCpld : pins.cpldValid = false)
    (ur : pins.completionUrReq = true) :
    m.edge pins tready =
      { m with
        cpldReady := false, sm := .tlpBeat1Ur, tkeep := 0x07#8, tvalid := false
        completionUrDone := false } := by
  simp [edge, machine, idle.sm, idle.completionUrDone, noCpld, ur]

end MaxisController

variable (bars : Bars)

/-- The completions that have been sent are those of the packets `done`; `got` has been read
since. -/
def Settled (s : St) (done : List Request) (got : List Word) : Prop :=
  ∃ old, s.data = old ++ got ∧ old.length = readsOf done ∧
    s.ccs.map CcBeat.completion = answers done old

/-- The handshakes that have happened and those to come are those of the packets. -/
def Ordered (s : St) (rest : List AxiOp) : Prop :=
  s.axi.map AxiEvent.op ++ rest = s.tlps.flatMap (Request.ops bars)

/-- The bridge can take a request, or waits for the last beat of a packet that it drops. -/
structure Waiting (s : St) : Prop where
  sm : s.regs.saxis.sm = .idle ∧ s.inPacket = false ∨
    s.regs.saxis.sm = .waitForLast ∧ s.inPacket = true ∧ s.regs.saxis.tready = true
  memReqValid : s.regs.saxis.memReqValid = false
  memReadPulse : s.regs.saxis.memReadPulse = false
  completionUrReq : s.regs.saxis.completionUrReq = false
  write : s.regs.write.Inv s.bOwed
  read : s.regs.read.Rests s.rOwed
  maxis : s.regs.maxis.Idle
  tags : s.regs.tags.writeId = s.regs.tags.readId + 1
  ordered : Ordered bars s (s.regs.write.left bars)
  settled : Settled s s.tlps []

/-- A write has been accepted that the write engine has not taken. -/
structure Writing (s : St) : Prop where
  sm : s.regs.saxis.sm = .writeData ∨ s.regs.saxis.sm = .holdValid
  inPacket : s.inPacket = false
  tready : s.regs.saxis.tready = false
  memReqValid : s.regs.saxis.memReqValid = true
  memReqWriteReadn : s.regs.saxis.memReqWriteReadn = true
  memReqDwordNum : s.regs.saxis.memReqDwordNum = 1#2 ∨ s.regs.saxis.memReqDwordNum = 2#2
  memReadPulse : s.regs.saxis.memReadPulse = false
  completionUrReq : s.regs.saxis.completionUrReq = false
  write : s.regs.write.Inv s.bOwed
  read : s.regs.read.Rests s.rOwed
  maxis : s.regs.maxis.Idle
  tags : s.regs.tags.writeId = s.regs.tags.readId + 1
  ordered : Ordered bars s
    (s.regs.write.left bars ++ AxiWriteController.opsOf bars s.regs.saxis.memReq)
  settled : Settled s s.tlps []

/-- The read that is served is the last packet, and has not been answered. -/
structure Serving (s : St) (done : List Request) (t : Request) (two : Bool)
    (got : List Word) : Prop where
  tlps : s.tlps = done ++ [t]
  kind : t.kind = .read two
  inPacket : s.inPacket = false
  memReqDwordNum : s.regs.saxis.memReqDwordNum = TagRecord.dwordNum two
  completionUrReq : s.regs.saxis.completionUrReq = false
  write : s.regs.write.Inv s.bOwed
  settled : Settled s done got

/-- A read has been accepted that the read engine has not taken. -/
structure Queued (s : St) (done : List Request) (t : Request) (two : Bool) : Prop
    extends Serving s done t two [] where
  sm : s.regs.saxis.sm = .readProcess
  tready : s.regs.saxis.tready = false
  memReqValid : s.regs.saxis.memReqValid = true
  memReqWriteReadn : s.regs.saxis.memReqWriteReadn = false
  holds : s.regs.saxis.Holds t
  read : s.regs.read.Rests s.rOwed
  maxis : s.regs.maxis.Idle
  cpldReady : s.regs.maxis.cpldReady = true
  tags : if s.regs.saxis.memReadPulse then s.regs.tags.writeId = s.regs.tags.readId + 1
    else s.regs.tags.writeId = s.regs.tags.readId + 1 + 1 ∧
      s.regs.tags.storage (s.regs.tags.readId + 1) = t.record
  ordered : Ordered bars s (s.regs.write.left bars ++ t.ops bars)

/-- The request controller has passed the read on. -/
structure Passed (s : St) : Prop where
  sm : s.regs.saxis.sm = .idle
  memReqValid : s.regs.saxis.memReqValid = false
  memReadPulse : s.regs.saxis.memReadPulse = false
  written : s.regs.write.left bars = []

/-- The read engine is reading. -/
structure Reading (s : St) (done : List Request) (t : Request) (two : Bool)
    (got : List Word) : Prop extends Serving s done t two got, Passed bars s where
  read : s.regs.read.Serves two got s.rOwed
  maxis : s.regs.maxis.Idle
  cpldReady : s.regs.maxis.cpldReady = true
  writeId : s.regs.tags.writeId = s.regs.tags.readId + 1 + 1
  record : s.regs.tags.storage (s.regs.tags.readId + 1) = t.record
  ordered : Ordered bars s (s.regs.read.left s.rOwed)

/-- The completion of the read is being sent. -/
structure Completing (s : St) (done : List Request) (t : Request) (two : Bool)
    (got : List Word) : Prop extends Serving s done t two got, Passed bars s where
  read : s.regs.read.Rests s.rOwed
  maxisSm : s.regs.maxis.sm = .tlpBeat1
  completionUrDone : s.regs.maxis.completionUrDone = false
  cpldData : cpldWords two s.regs.maxis.cpldData = got
  tkeep : s.regs.maxis.tkeep = MaxisController.keepOf (TagRecord.dwordNum two)
  beat : s.regs.maxis.tvalid = true →
    (CcBeat.mk s.regs.maxis.tdata s.regs.maxis.tkeep).completion = t.completion got
  writeId : s.regs.tags.writeId = s.regs.tags.readId + 1
  record : s.regs.tags.read = t.record
  ordered : Ordered bars s []

/-- The rejection of a read is asked for, being sent, or sent. -/
inductive Rejection (s : St) (done : List Request) (t : Request) : Prop where
  | asked : s.regs.maxis.Idle → Settled s done [] → Rejection s done t
  | sending : s.regs.maxis.sm = .tlpBeat1Ur → s.regs.maxis.completionUrDone = false →
      s.regs.maxis.tkeep = 0x07#8 →
      (s.regs.maxis.tvalid = true →
        (CcBeat.mk s.regs.maxis.tdata s.regs.maxis.tkeep).completion = t.rejection) →
      Settled s done [] → Rejection s done t
  | sent : s.regs.maxis.sm = .idle → s.regs.maxis.tvalid = false →
      s.regs.maxis.completionUrDone = true → Settled s s.tlps [] → Rejection s done t

/-- A read that is not supported has been accepted. -/
structure Rejecting (s : St) (done : List Request) (t : Request) : Prop where
  tlps : s.tlps = done ++ [t]
  kind : t.kind = .longRead
  inPacket : s.inPacket = false
  sm : s.regs.saxis.sm = .completionUr
  tready : s.regs.saxis.tready = false
  memReqValid : s.regs.saxis.memReqValid = false
  memReadPulse : s.regs.saxis.memReadPulse = false
  holds : s.regs.saxis.Holds t
  write : s.regs.write.Inv s.bOwed
  read : s.regs.read.Rests s.rOwed
  tags : s.regs.tags.writeId = s.regs.tags.readId + 1
  ordered : Ordered bars s (s.regs.write.left bars)
  rejection : Rejection s done t

/-- What the bridge can be doing. -/
inductive Round (s : St) : Prop where
  | waiting : Waiting bars s → Round s
  | writing : Writing bars s → Round s
  | queued {done : List Request} {t : Request} {two : Bool} : Queued bars s done t two → Round s
  | reading {done : List Request} {t : Request} {two : Bool} {got : List Word} :
      Reading bars s done t two got → Round s
  | completing {done : List Request} {t : Request} {two : Bool} {got : List Word} :
      Completing bars s done t two got → Round s
  | rejecting {done : List Request} {t : Request} : Rejecting bars s done t → Round s

section Edges

variable {bars : Bars} {s : St} {pins : Pins}

@[simp] theorem write_events_data (w : AxiWriteController) (slave : AxiSlave) :
    (w.events slave).filterMap AxiEvent.data? = [] := by
  simp only [AxiWriteController.events, happens, List.filterMap_append]
  split <;> split <;> split <;> rfl

variable (bars) in
/-- While no request is passed on, the writes go on and nothing is read. -/
theorem writes_go_on (write : s.regs.write.Inv s.bOwed) (read : s.regs.read.Rests s.rOwed)
    (legal : Legal s pins) (notStarted : s.regs.memReqValidWr = false) :
    (s.clock pins bars).regs.write.Inv (s.clock pins bars).bOwed ∧
      (s.clock pins bars).regs.read.Rests (s.clock pins bars).rOwed ∧
      (s.clock pins bars).axi.map AxiEvent.op ++ (s.clock pins bars).regs.write.left bars =
        s.axi.map AxiEvent.op ++ s.regs.write.left bars ∧
      (s.clock pins bars).data = s.data := by
  have noWrite : (s.regs.memReqValidWr && s.regs.saxis.memReq.writeReadn) = false := by
    rw [notStarted, Bool.false_and]
  have noRead : (s.regs.memReqValidWr && !s.regs.saxis.memReq.writeReadn) = false := by
    rw [notStarted, Bool.false_and]
  obtain ⟨steps, next⟩ := write.edge bars s.regs.saxis.memReq legal.b noWrite
  have rests := (read.edge bars s.regs.saxis.memReq s.regs.maxis.cpldReady legal.r noRead).1
  have silent := read.events s.regs.maxis.cpldReady legal.r
  refine ⟨next, rests, ?_, ?_⟩
  · simp only [St.clock, silent, List.append_nil, List.map_append, List.append_assoc]
    exact congrArg _ steps
  · simp [St.data, St.clock, silent]

/-- A resting read engine hands nothing over. -/
theorem no_cpld (read : s.regs.read.Rests s.rOwed) (legal : Legal s pins) :
    s.regs.read.cpldValid pins.axi = false := by
  rw [AxiReadController.cpldValid, read.silent legal.r, Bool.false_and]

variable (bars pins) in
/-- Nothing is taken from the completion stream. -/
theorem ccs_of_not_valid (notValid : s.regs.maxis.tvalid = false) :
    (s.clock pins bars).ccs = s.ccs := by
  simp [St.clock, happens, notValid]

theorem Settled.of_same {next : St} {done : List Request} {got : List Word}
    (settled : Settled s done got) (data : next.data = s.data) (ccs : next.ccs = s.ccs) :
    Settled next done got := by
  rw [Settled, data, ccs]
  exact settled

/-- A packet that is answered by nothing. -/
theorem Settled.append {next : St} {done : List Request} {t : Request}
    (settled : Settled s done []) (none : answers [t] [] = []) (reads : t.reads = 0)
    (data : next.data = s.data) (ccs : next.ccs = s.ccs) : Settled next (done ++ [t]) [] := by
  obtain ⟨old, all, complete, sent⟩ := settled
  refine ⟨old, by rw [data, all], by rw [complete]; simp [reads], ?_⟩
  have more := answers_append [t] [] complete
  rw [List.append_nil, none, List.append_nil] at more
  rw [ccs, sent, more]

end Edges

end OpaeXilinx.Pcie
