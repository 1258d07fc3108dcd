import OpaeXilinx.Base.Transition
import OpaeXilinx.Pcie.Engines

/-!
# The bridge from PCIe to AXI4-Lite

`pcie_2_axilite`, with streams of 256 bits and no relaxed ordering: the controller of the
request stream, the two AXI engines, the records of outstanding reads and the controller of
the completion stream.  One step is a rising clock edge after reset; every flip-flop takes
its next value from the values before the edge and from the pins.
-/

namespace OpaeXilinx.Pcie

open OpaeXilinx.Base

/-- The pins of the completer request stream. -/
structure Cq where
  tvalid : Bool
  tdata : Beat
  firstBe : BitVec 4
  tlast : Bool
  deriving DecidableEq, Repr

def Cq.request (cq : Cq) : Request := ⟨cq.tdata, cq.firstBe⟩

/-- What is kept about a read until its completion is sent, a word of `tag_storage`. -/
structure TagRecord where
  attr : BitVec 3
  trafficClass : BitVec 3
  requesterId : BitVec 16
  lowerAddr : BitVec 7
  completerFunc : BitVec 1
  tag : BitVec 8
  firstBe : BitVec 4
  deriving DecidableEq, Repr

inductive SaxisSm where
  | idle | readProcess | writeData | holdValid | completionUr | waitForLast
  deriving DecidableEq, Repr

/-- The flip-flops of `saxis_controller`. -/
structure SaxisController where
  sm : SaxisSm
  tdataWide : Beat
  firstBe : BitVec 4
  memReqWriteReadn : Bool
  memReadPulse : Bool
  tready : Bool
  memReqValid : Bool
  memReqDwordNum : BitVec 2
  completionUrReq : Bool

/-- `old[n-1:0] <= new[n-1:0]`. -/
def latch (n : Nat) (old new : Beat) : Beat :=
  (old >>> n <<< n) ||| (new &&& ~~~(BitVec.allOnes 256 <<< n))

namespace SaxisController

variable (s : SaxisController)

def memReq : MemReq where
  barHit := barHit s.tdataWide
  pcieAddress := address s.tdataWide
  byteEnable := s.firstBe
  writeReadn := s.memReqWriteReadn
  writeData := writeData s.tdataWide
  dwordNum := s.memReqDwordNum

/-- `tag_mang_*_wr`, and `completion_ur_*`. -/
def record : TagRecord where
  attr := attrOf s.tdataWide
  trafficClass := trafficClass s.tdataWide
  requesterId := requesterId s.tdataWide
  lowerAddr := lowerAddr s.tdataWide
  completerFunc := completerFunc s.tdataWide
  tag := tagOf s.tdataWide
  firstBe := s.firstBe

def edge (cq : Cq) (memReqReady completionUrDone : Bool) : SaxisController :=
  match s.sm with
  | .idle =>
      if cq.tvalid && s.tready && reqType cq.tdata == 0#4 then
        if dwordCount cq.tdata = 1#11 then
          { s with
            sm := .readProcess, memReqWriteReadn := false, memReadPulse := true
            memReqValid := true, memReqDwordNum := 1#2
            tdataWide := latch 128 s.tdataWide cq.tdata, firstBe := cq.firstBe, tready := false }
        else if dwordCount cq.tdata = 2#11 then
          { s with
            sm := .readProcess, memReqWriteReadn := false, memReadPulse := true
            memReqValid := true, memReqDwordNum := 2#2
            tdataWide := cq.tdata, firstBe := cq.firstBe, tready := false }
        else
          { s with
            tdataWide := latch 128 s.tdataWide cq.tdata, firstBe := cq.firstBe
            sm := .completionUr, tready := false }
      else if cq.tvalid && s.tready && reqType cq.tdata == 1#4 then
        if dwordCount cq.tdata = 1#11 then
          { s with
            sm := .writeData, memReqWriteReadn := true, memReqValid := true
            memReqDwordNum := 1#2
            tdataWide := latch 160 s.tdataWide cq.tdata, firstBe := cq.firstBe, tready := false }
        else if dwordCount cq.tdata = 2#11 then
          { s with
            sm := .writeData, memReqWriteReadn := true, memReqValid := true
            memReqDwordNum := 2#2
            tdataWide := latch 192 s.tdataWide cq.tdata, firstBe := cq.firstBe, tready := false }
        else if cq.tlast then { s with sm := .idle } else { s with sm := .waitForLast }
      else { s with tready := true }
  | .readProcess =>
      if memReqReady then
        { s with sm := .idle, tready := true, memReqValid := false, memReadPulse := false }
      else { s with tready := false, memReadPulse := false }
  | .writeData =>
      if memReqReady then { s with sm := .idle, memReqValid := false, tready := true }
      else { s with tready := false, sm := .holdValid, memReqValid := true }
  | .waitForLast => if cq.tlast then { s with sm := .idle } else s
  | .completionUr =>
      if completionUrDone then { s with sm := .idle, completionUrReq := false }
      else { s with completionUrReq := true }
  | .holdValid =>
      if memReqReady then { s with sm := .idle, memReqValid := false, tready := true } else s

end SaxisController

/-- `tag_manager`. -/
structure TagManager where
  writeId : BitVec 5
  readId : BitVec 5
  storage : BitVec 5 → TagRecord

namespace TagManager

variable (tags : TagManager)

/-- `tag_mang_*_rd`. -/
def read : TagRecord := tags.storage tags.readId

def edge (writeEn : Bool) (record : TagRecord) (readEn : Bool) : TagManager where
  writeId := if writeEn then tags.writeId + 1 else tags.writeId
  readId := if readEn then tags.readId + 1 else tags.readId
  storage := fun id => if writeEn = true ∧ id = tags.writeId then record else tags.storage id

end TagManager

/-- The `casex` over `first_be`, its cases in order. -/
def byteCount (be : BitVec 4) : Nat :=
  if be.getLsbD 3 && be.getLsbD 0 then 4
  else if !be.getLsbD 3 && be.getLsbD 2 && be.getLsbD 0 then 3
  else if be.getLsbD 3 && be.getLsbD 1 && !be.getLsbD 0 then 3
  else if be = 0b0011#4 ∨ be = 0b0110#4 ∨ be = 0b1100#4 then 2
  else if be = 0b0001#4 ∨ be = 0b0010#4 ∨ be = 0b0100#4 ∨ be = 0b1000#4 ∨ be = 0b0000#4 then 1
  else 0

namespace TagRecord

variable (rec : TagRecord)

def dw1Header (dwordNum : BitVec 2) : Word :=
  0#12 ++ (if dwordNum = 2#2 then 8#4 else BitVec.ofNat 4 (byteCount rec.firstBe)) ++ 0#9 ++
    rec.lowerAddr

def dw2Header (dwordNum : BitVec 2) : Word :=
  rec.requesterId ++ (if dwordNum = 2#2 then 2#16 else 1#16)

def dw3Header : Word :=
  0#1 ++ rec.attr ++ rec.trafficClass ++ 0#1 ++ 0#16 ++ rec.tag

def dw1HeaderUr : Word :=
  0#13 ++ BitVec.ofNat 3 (byteCount rec.firstBe) ++ 0#9 ++ rec.lowerAddr

def dw2HeaderUr : Word := rec.requesterId ++ 1#5 ++ 0#11

end TagRecord

inductive MaxisSm where
  | idle | tlpBeat1 | tlpBeat1Ur
  deriving DecidableEq, Repr

/-- The flip-flops of `maxis_controller`. -/
structure MaxisController where
  sm : MaxisSm
  cpldReady : Bool
  cpldData : BitVec 64
  tvalid : Bool
  tlast : Bool
  tdata : Beat
  tkeep : BitVec 8
  completionUrDone : Bool

/-- What the controller of the completion stream sees of the others. -/
structure CpldPins where
  cpldValid : Bool
  cpldData : BitVec 64
  cpldDwordNum : BitVec 2
  tag : TagRecord
  completionUrReq : Bool
  completionUr : TagRecord

namespace MaxisController

variable (m : MaxisController) (pins : CpldPins)

/-- `{ axi_cpld_data_r, dw3_header_32, dw2_header_32, dw1_header_32 }`. -/
def cpldBeat : Beat :=
  (m.cpldData ++ (pins.tag.dw3Header ++ (pins.tag.dw2Header pins.cpldDwordNum ++
    pins.tag.dw1Header pins.cpldDwordNum))).setWidth 256

/-- `{ 32'd0, dw3_header_32_ur, dw2_header_32_ur, dw1_header_32_ur }`. -/
def urBeat : Beat :=
  (0#32 ++ (pins.completionUr.dw3Header ++ (pins.completionUr.dw2HeaderUr ++
    pins.completionUr.dw1HeaderUr))).setWidth 256

def keepOf (dwordNum : BitVec 2) : BitVec 8 := if dwordNum = 2#2 then 0x1F#8 else 0x0F#8

/-- The state machine, with the values before the edge in `m`. -/
def machine (tready : Bool) (next : MaxisController) : MaxisController :=
  match m.sm with
  | .idle =>
      let next :=
        if pins.cpldValid then
          { next with cpldReady := false, sm := .tlpBeat1, tkeep := keepOf pins.cpldDwordNum }
        else if pins.completionUrReq && !m.completionUrDone then
          { next with cpldReady := false, sm := .tlpBeat1Ur, tkeep := 0x07#8 }
        else { next with cpldReady := true }
      { next with tvalid := false, completionUrDone := false }
  | .tlpBeat1 =>
      let next :=
        if tready && m.tvalid && pins.completionUrReq then
          { next with sm := .tlpBeat1Ur, tlast := false, tvalid := false, tkeep := 0x07#8 }
        else if tready && m.tvalid then { next with sm := .idle, tlast := false, tvalid := false }
        else { next with tlast := true, tvalid := true }
      { next with tdata := m.cpldBeat pins }
  | .tlpBeat1Ur =>
      let next :=
        if tready && m.tvalid then
          { next with sm := .idle, tlast := false, tvalid := false, completionUrDone := true }
        else { next with tlast := true, tvalid := true }
      { next with tdata := urBeat pins }

def edge (tready : Bool) : MaxisController :=
  m.machine pins tready
    { m with cpldData := if pins.cpldValid && m.cpldReady then pins.cpldData else m.cpldData }

end MaxisController

/-- All flip-flops of the bridge. -/
structure Regs where
  saxis : SaxisController
  write : AxiWriteController
  read : AxiReadController
  maxis : MaxisController
  tags : TagManager

/-- The pins that the PCIe core and the AXI slave drive at an edge. -/
structure Pins where
  cq : Cq
  ccTready : Bool
  axi : AxiSlave
  deriving DecidableEq, Repr

namespace Regs

variable (r : Regs)

def memReqReady : Bool := r.write.ready && r.read.ready

/-- Neither engine sees a request before both are ready. -/
def memReqValidWr : Bool := if r.write.ready && r.read.ready then r.saxis.memReqValid else false

def cpldPins (slave : AxiSlave) : CpldPins where
  cpldValid := r.read.cpldValid slave
  cpldData := r.read.cpldDataOut r.saxis.memReq slave
  cpldDwordNum := r.saxis.memReq.dwordNum
  tag := r.tags.read
  completionUrReq := r.saxis.completionUrReq
  completionUr := r.saxis.record

/-- A rising clock edge. -/
def edge (bars : Bars) (pins : Pins) : Regs where
  saxis := r.saxis.edge pins.cq r.memReqReady r.maxis.completionUrDone
  write := r.write.edge bars r.memReqValidWr r.saxis.memReq pins.axi
  read := r.read.edge bars r.memReqValidWr r.saxis.memReq pins.axi
  maxis := r.maxis.edge (r.cpldPins pins.axi) pins.ccTready
  tags := r.tags.edge r.saxis.memReadPulse r.saxis.record
    (r.read.cpldValid pins.axi && r.maxis.cpldReady)

/-- The flip-flops that reset sets; the others may hold anything. -/
structure Reset : Prop where
  saxisSm : r.saxis.sm = .idle
  memReadPulse : r.saxis.memReadPulse = false
  cqTready : r.saxis.tready = false
  memReqValid : r.saxis.memReqValid = false
  completionUrReq : r.saxis.completionUrReq = false
  memReqDwordNum : r.saxis.memReqDwordNum = 0#2
  writeSm : r.write.sm = .idle
  writeSmOld : r.write.smOld = .idle
  writeReady : r.write.ready = false
  awvalid : r.write.awvalid = false
  wvalid : r.write.wvalid = false
  dwordCnt : r.write.dwordCnt = 0#2
  readSm : r.read.sm = .idle
  readReady : r.read.ready = false
  araddr : r.read.araddr = 0
  arvalid : r.read.arvalid = false
  dwordNum : r.read.dwordNum = 0#2
  cpldData : r.read.cpldData = 0
  maxisSm : r.maxis.sm = .idle
  cpldReady : r.maxis.cpldReady = false
  ccTvalid : r.maxis.tvalid = false
  ccTlast : r.maxis.tlast = false
  completionUrDone : r.maxis.completionUrDone = false
  writeId : r.tags.writeId = 1
  readId : r.tags.readId = 0

end Regs

/-- The bridge with the handshakes so far. -/
structure St where
  regs : Regs
  /-- The packets that have been accepted, by their first beats. -/
  tlps : List Request
  /-- The last beat that has been accepted was not the last of its packet. -/
  inPacket : Bool
  /-- The handshakes of the AXI bus. -/
  axi : List AxiEvent
  /-- Number of write responses and data words that the slave owes. -/
  bOwed : Nat
  rOwed : Nat
  /-- The beats that have been taken from the completion stream. -/
  ccs : List CcBeat

namespace St

variable (s : St) (pins : Pins)

def cqAccepts : Bool := pins.cq.tvalid && s.regs.saxis.tready

def clock (bars : Bars) : St where
  regs := s.regs.edge bars pins
  tlps := if s.cqAccepts pins && !s.inPacket then s.tlps ++ [pins.cq.request] else s.tlps
  inPacket := if s.cqAccepts pins then !pins.cq.tlast else s.inPacket
  axi := s.axi ++ s.regs.write.events pins.axi ++ s.regs.read.events pins.axi s.regs.maxis.cpldReady
  bOwed := s.regs.write.owedAfter s.bOwed pins.axi
  rOwed := s.regs.read.owedAfter s.rOwed pins.axi s.regs.maxis.cpldReady
  ccs := s.ccs ++ happens s.regs.maxis.tvalid pins.ccTready ⟨s.regs.maxis.tdata, s.regs.maxis.tkeep⟩

/-- The data words that have been read. -/
def data : List Word := s.axi.filterMap AxiEvent.data?

/-- A read has not been answered. -/
def Awaiting : Prop := s.ccs.length < (s.tlps.filter Request.isRead).length

instance : Decidable s.Awaiting := inferInstanceAs (Decidable (_ < _))

end St

/-- The slave answers what it has accepted; only long writes take more than one beat. -/
structure Legal (s : St) (pins : Pins) : Prop where
  b : pins.axi.bvalid = true → 0 < s.bOwed
  r : pins.axi.rvalid = true → 0 < s.rOwed
  last : pins.cq.tlast = true → pins.cq.tvalid = true
  single : pins.cq.tvalid = true → s.inPacket = false → pins.cq.request.kind ≠ .longWrite →
    pins.cq.tlast = true

instance (s : St) (pins : Pins) : Decidable (Legal s pins) :=
  decidable_of_iff ((pins.axi.bvalid = true → 0 < s.bOwed) ∧
      (pins.axi.rvalid = true → 0 < s.rOwed) ∧ (pins.cq.tlast = true → pins.cq.tvalid = true) ∧
      (pins.cq.tvalid = true → s.inPacket = false → pins.cq.request.kind ≠ .longWrite →
        pins.cq.tlast = true))
    ⟨fun ⟨b, r, last, single⟩ => ⟨b, r, last, single⟩,
      fun legal => ⟨legal.b, legal.r, legal.last, legal.single⟩⟩

/-- Nothing is sent while a read has not been answered. -/
def Patient (s : St) (pins : Pins) : Prop := s.Awaiting → pins.cq.tvalid = false

instance (s : St) (pins : Pins) : Decidable (Patient s pins) := inferInstanceAs (Decidable (_ → _))

def bridgeSystem (bars : Bars) : System St Pins where
  init s := s.regs.Reset ∧ s.tlps = [] ∧ s.inPacket = false ∧ s.axi = [] ∧ s.bOwed = 0 ∧
    s.rOwed = 0 ∧ s.ccs = []
  step s pins next := Legal s pins ∧ next = s.clock pins bars

/-- The flip-flops after reset, those that reset leaves alone at 0. -/
def Regs.zero : Regs where
  saxis := ⟨.idle, 0, 0, false, false, false, false, 0, false⟩
  write := ⟨.idle, .idle, false, false, false, 0, 0, 0, 0, 0, 0, 0⟩
  read := ⟨.idle, 0, false, false, 0, 0⟩
  maxis := ⟨.idle, false, 0, false, false, 0, 0, false⟩
  tags := ⟨1, 0, fun _ => ⟨0, 0, 0, 0, 0, 0, 0⟩⟩

def St.zero : St := ⟨.zero, [], false, [], 0, 0, []⟩

theorem bridge_init_zero (bars : Bars) : (bridgeSystem bars).init .zero := by
  refine ⟨?_, rfl, rfl, rfl, rfl, rfl, rfl⟩
  constructor <;> rfl

end OpaeXilinx.Pcie
