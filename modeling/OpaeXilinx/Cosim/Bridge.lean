import Mathlib.Algebra.Group.Nat.Defs
import Mathlib.Data.List.Forall2
import OpaeXilinx.Base.Transition

/-!
# The QEMU to HDL bridge, MMIO direction

QEMU turns every MMIO access into an `ACCData` frame and blocks until a response
frame arrives.  On the simulation side `axi4_ip` polls the request socket at every
clock edge and hands the request to the AXI masters `axi4_m_w` and `axi4_m_r`,
which drive the AW, W and AR channels and send the response frame when the slave
answers.

One step of the system is either an action of QEMU or one rising clock edge, whose
inputs are the reset line, the readiness of the socket and the pins driven by the
AXI slave.  The handshakes that happened so far are recorded in the state.
-/

namespace OpaeXilinx.Cosim

open OpaeXilinx.Base

abbrev Byte := BitVec 8

/-- Bytes of one bus word, `BUSW` in the C code and `STBW` in the HDL. -/
def busw : Nat := 32

/-- Bytes of the frame and staging buffers, `BUFSZ` and `DTMP`. -/
def bufsz : Nat := 4096

/-- Width of the AXI address buses, `ADRW`. -/
def adrw : Nat := 32

inductive AccOp where
  | noop | read | write | intr
  deriving DecidableEq, Repr

/-- The part of `ACCData` that the MMIO path fills in or reads. -/
structure AccData where
  dataSize : Nat
  address : Nat
  op : AccOp
  data : Nat → Byte

/-- An MMIO access issued by the guest. -/
inductive Mmio where
  | read (addr size : Nat)
  | write (addr : Nat) (val : BitVec 64) (size : Nat)
  deriving DecidableEq, Repr

namespace Mmio

def addr : Mmio → Nat
  | .read addr _ => addr
  | .write addr _ _ => addr

def size : Mmio → Nat
  | .read _ size => size
  | .write _ _ size => size

def isWrite : Mmio → Bool
  | .read .. => false
  | .write .. => true

/-- The access sizes that the memory region options of BAR 0 let through. -/
def Valid (access : Mmio) : Prop :=
  access.size = 1 ∨ access.size = 2 ∨ access.size = 4 ∨ access.size = 8

instance (access : Mmio) : Decidable access.Valid :=
  inferInstanceAs (Decidable (_ ∨ _ ∨ _ ∨ _))

theorem Valid.size_le {access : Mmio} (valid : access.Valid) : access.size ≤ 8 := by
  rcases valid with equal | equal | equal | equal <;> omega

end Mmio

/-- `BAR_OFFSET_BAR0`. -/
def barOffsetBar0 : Nat := 0

/-- The `i`-th byte of a value in memory order on a little-endian host. -/
def leByte (val : BitVec 64) (i : Nat) : Byte := val.extractLsb' (8 * i) 8

/-- Request frame of `mmio_write_bar0`. Only the eight bytes of the value are
copied; the rest of the buffer is whatever was on the stack. -/
def mmioWriteBar0 (addr : Nat) (val : BitVec 64) (size : Nat) (stack : Nat → Byte) : AccData where
  dataSize := size
  address := addr + barOffsetBar0
  op := .write
  data i := if i < 8 then leByte val i else stack i

/-- Request frame of `mmio_read_bar0`. -/
def mmioReadBar0 (addr size : Nat) (stack : Nat → Byte) : AccData where
  dataSize := size
  address := addr + barOffsetBar0
  op := .read
  data := stack

/-- The frame QEMU sends for an access. -/
def Mmio.frame (access : Mmio) (stack : Nat → Byte) : AccData :=
  match access with
  | .read addr size => mmioReadBar0 addr size stack
  | .write addr val size => mmioWriteBar0 addr val size stack

inductive QemuOp where
  | noop | mRd | mWr | sRd
  deriving DecidableEq, Repr

/-- The sockets that the poller watches. -/
inductive Sock where
  | qemuReq | hdlResp
  deriving DecidableEq, Repr

/-- Rounded-up binary logarithm computed by `log2c`. -/
def log2c (x : Nat) : Nat := (if x &&& (x - 1) ≠ 0 then 1 else 0) + Nat.log2 x

/-- Variables of `axi4_ip` that `C_poll` writes, with the request flags that the
poll loop derives from them. -/
structure PollRegs where
  addr : Nat
  len : Nat
  size : Nat
  strb : Nat → Nat
  data : Nat → Byte
  reqMRvalid : Bool
  reqMWvalid : Bool
  reqSRvalid : Bool

/-- Copy of `count` bytes of a frame to the staging buffer at `offset`. -/
def stage (buffer : Nat → Byte) (offset count : Nat) (data : Nat → Byte) : Nat → Byte :=
  fun i => if offset ≤ i ∧ i < offset + count then data (i - offset) else buffer i

/-- `C_poll`: the request type together with the variables it wrote. -/
def cPoll (regs : PollRegs) (ready : Option (Sock × AccData)) : QemuOp × PollRegs :=
  match ready with
  | none => (.noop, regs)
  | some (.qemuReq, acc) =>
      let alignOffset := acc.address % busw
      let axiLen :=
        if acc.dataSize > busw then
          if acc.dataSize % busw ≠ 0 then acc.dataSize / busw else acc.dataSize / busw - 1
        else 0
      let axiSize := log2c acc.dataSize
      if acc.op = .read then
        (.mRd, { regs with addr := acc.address, len := axiLen, size := axiSize })
      else
        (.mWr, { regs with
          addr := acc.address
          len := axiLen
          size := axiSize
          strb := fun i =>
            if i = 0 then ((2 ^ acc.dataSize - 1) % 2 ^ 32 * 2 ^ alignOffset) % 2 ^ 32
            else regs.strb i
          data := stage regs.data alignOffset (bufsz - alignOffset) acc.data })
  | some (.hdlResp, acc) =>
      (.sRd, { regs with data := stage regs.data (acc.address % busw) acc.dataSize acc.data })

/-- One edge of the poll loop: the request flags follow the request type. -/
def pollLoop (regs : PollRegs) (ready : Option (Sock × AccData)) : PollRegs :=
  let polled := cPoll regs ready
  { polled.2 with
    reqMRvalid := polled.1 = .mRd
    reqMWvalid := polled.1 = .mWr
    reqSRvalid := polled.1 = .sRd }

inductive WriteState where
  | writeIdle | writeData | writeResponse
  deriving DecidableEq, Repr

/-- Registers of `axi4_m_w`. -/
structure WriteMaster where
  state : WriteState
  addr : Nat
  size : Nat
  len : Nat
  lenCnt : Nat
  awvalid : Bool
  data : Nat → Byte
  strb : Nat → Nat
  wdata : Nat → Byte
  wstrb : Nat
  last : Bool
  wvalid : Bool

/-- Reset values of the flip-flops of `axi4_m_w`. -/
def WriteMaster.reset : WriteMaster where
  state := .writeIdle
  addr := 0
  size := 0
  len := 0
  lenCnt := 0
  awvalid := false
  data := fun _ => 0
  strb := fun _ => 0
  wdata := fun _ => 0
  wstrb := 0
  last := false
  wvalid := false

/-- `COMBO_WRITE`: next register values of `axi4_m_w`. -/
def WriteMaster.combo (r : WriteMaster) (barMap : Nat) (req : PollRegs)
    (awready wready bvalid : Bool) : WriteMaster :=
  match r.state with
  | .writeIdle =>
      if req.reqMWvalid then
        { r with
          state := .writeData
          awvalid := true
          wvalid := true
          data := req.data
          strb := req.strb
          wdata := fun i => if i < busw then req.data (busw * r.lenCnt + i) else r.wdata i
          wstrb := req.strb r.lenCnt % 2 ^ busw
          last := true
          lenCnt := 0
          addr := (req.addr + barMap) % 2 ^ adrw
          size := req.size
          len := req.len }
      else r
  | .writeData =>
      let r' := if awready then { r with awvalid := false } else r
      if wready then
        { r' with wvalid := false, last := false, state := .writeResponse }
      else r'
  | .writeResponse =>
      let r' := { r with wvalid := false, last := false }
      -- `n_m_awvalid` keeps its value here, whether or not AW was accepted
      if bvalid then { r' with state := .writeIdle } else r'

inductive ReadState where
  | readIdle | readData
  deriving DecidableEq, Repr

/-- Registers of `axi4_m_r`. -/
structure ReadMaster where
  state : ReadState
  addr : Nat
  size : Nat
  len : Nat
  lenCnt : Nat
  arvalid : Bool
  rready : Bool
  dataTmp : Nat → Byte

/-- Reset values of the flip-flops of `axi4_m_r`. -/
def ReadMaster.reset : ReadMaster where
  state := .readIdle
  addr := 0
  size := 0
  len := 0
  lenCnt := 0
  arvalid := false
  rready := false
  dataTmp := fun _ => 0

/-- `COMBO_READ`: next register values of `axi4_m_r`. -/
def ReadMaster.combo (r : ReadMaster) (barMap : Nat) (req : PollRegs)
    (arready rvalid rlast : Bool) (rdata : Nat → Byte) : ReadMaster :=
  match r.state with
  | .readIdle =>
      if req.reqMRvalid then
        { r with
          state := .readData
          arvalid := true
          rready := true
          lenCnt := 0
          addr := (req.addr + barMap) % 2 ^ adrw
          size := req.size
          len := req.len }
      else r
  | .readData =>
      let r' := if arready then { r with arvalid := false } else r
      if rvalid then
        let filled := { r' with dataTmp := stage r.dataTmp (r.lenCnt * busw) busw rdata }
        if rlast then { filled with rready := false, state := .readIdle }
        else { filled with lenCnt := r.lenCnt + 1 }
      else r'

/-! ## The system -/

/-- An address handshake on AW or AR. -/
structure AddrBeat where
  addr : Nat
  len : Nat
  size : Nat
  deriving DecidableEq, Repr

/-- A data handshake on W. -/
structure DataBeat where
  data : Nat → Byte
  strb : Nat
  last : Bool

/-- A response frame sent to QEMU by `C_resp_write` or `C_resp_read`. -/
inductive Resp where
  | write
  | read (addr : Nat) (data : Nat → Byte)

def Resp.isWrite : Resp → Bool
  | .write => true
  | .read .. => false

/-- The frame of `C_resp_read`: the staged bytes from the aligned offset on. -/
def cRespRead (addr : Nat) (data : Nat → Byte) : Resp :=
  .read addr fun i => data (addr % busw + i)

structure St where
  /-- MMIO accesses issued so far. -/
  issued : List Mmio
  /-- Response frames QEMU has taken from its socket. -/
  received : Nat
  /-- Request frames waiting in the socket. -/
  qemuReq : List AccData
  /-- Response frames sent so far. -/
  qemuResp : List Resp
  poll : PollRegs
  mw : WriteMaster
  mr : ReadMaster
  /-- The reset line has been released. -/
  started : Bool
  /-- Handshakes so far on AW, W and AR. -/
  awLog : List AddrBeat
  wLog : List DataBeat
  arLog : List AddrBeat
  /-- Handshakes so far on B, finished read bursts, and beats of the burst that is
  still running. -/
  bCount : Nat
  rCount : Nat
  rBeat : Nat

/-- The state at the first clock edge with reset asserted. -/
def St.initial : St where
  issued := []
  received := 0
  qemuReq := []
  qemuResp := []
  poll := ⟨0, 0, 0, fun _ => 0, fun _ => 0, false, false, false⟩
  mw := .reset
  mr := .reset
  started := false
  awLog := []
  wLog := []
  arLog := []
  bCount := 0
  rCount := 0
  rBeat := 0

/-- Inputs of one rising clock edge: the reset line, whether the poller finds the
next frame already delivered, and the pins driven by the AXI slave. -/
structure Edge where
  rstN : Bool
  delivered : Bool
  awready : Bool
  wready : Bool
  bvalid : Bool
  arready : Bool
  rvalid : Bool
  rlast : Bool
  rdata : Nat → Byte

/-- What the AXI4 rules and the reset generator let the environment do at an edge:
reset is not asserted again, a write response follows both handshakes of its write,
and read data belongs to an accepted read, with the last beat marked. -/
def Edge.Legal (s : St) (e : Edge) : Prop :=
  (s.started = true → e.rstN = true) ∧
  (e.bvalid = true → s.bCount < s.awLog.length ∧ s.bCount < s.wLog.length) ∧
  (e.rvalid = true → s.rCount < s.arLog.length ∧
    (e.rlast = true ↔ (s.arLog[s.rCount]?.map AddrBeat.len) = some s.rBeat))

instance (s : St) (e : Edge) : Decidable (e.Legal s) :=
  inferInstanceAs (Decidable (_ ∧ _ ∧ _))

/-- The frame that the poller returns at an edge. -/
def St.ready (s : St) (e : Edge) : Option (Sock × AccData) :=
  if e.delivered then s.qemuReq.head?.map fun acc => (.qemuReq, acc) else none

/-- Response frames sent at an edge. -/
def St.responses (s : St) (barMap : Nat) (e : Edge) : List Resp :=
  (if e.bvalid then [.write] else []) ++
  (if s.mr.state = .readData ∧ e.rlast = true ∧ e.rvalid = true then
    let n := s.mr.combo barMap s.poll e.arready e.rvalid e.rlast e.rdata
    [cRespRead n.addr n.dataTmp]
  else [])

/-- One rising clock edge. -/
def St.clock (s : St) (barMap : Nat) (e : Edge) : St where
  issued := s.issued
  received := s.received
  qemuReq := if e.delivered then s.qemuReq.tail else s.qemuReq
  qemuResp := s.qemuResp ++ s.responses barMap e
  poll := pollLoop s.poll (s.ready e)
  mw := if e.rstN then s.mw.combo barMap s.poll e.awready e.wready e.bvalid else .reset
  mr := if e.rstN then s.mr.combo barMap s.poll e.arready e.rvalid e.rlast e.rdata else .reset
  started := s.started || e.rstN
  awLog := s.awLog ++
    if s.mw.awvalid && e.awready then [⟨s.mw.addr, s.mw.len, s.mw.size⟩] else []
  wLog := s.wLog ++
    if s.mw.wvalid && e.wready then [⟨s.mw.wdata, s.mw.wstrb, s.mw.last⟩] else []
  arLog := s.arLog ++
    if s.mr.arvalid && e.arready then [⟨s.mr.addr, s.mr.len, s.mr.size⟩] else []
  bCount := s.bCount + if e.bvalid then 1 else 0
  rCount := s.rCount + if e.rvalid && s.mr.rready && e.rlast then 1 else 0
  rBeat :=
    if e.rvalid && s.mr.rready then (if e.rlast then 0 else s.rBeat + 1) else s.rBeat

/-- Steps of the system: QEMU issues an access, QEMU takes a response frame, or the
clock rises. -/
inductive Label where
  | issue (access : Mmio) (stack : Nat → Byte)
  | receive
  | clock (e : Edge)

/-- When a step can be taken. QEMU blocks after every access until the response
frame has arrived. -/
def Label.Enabled (s : St) : Label → Prop
  | .issue access _ => access.Valid ∧ s.received = s.issued.length
  | .receive => s.received < s.qemuResp.length
  | .clock e => e.Legal s

instance (s : St) : (label : Label) → Decidable (label.Enabled s)
  | .issue access _ =>
      inferInstanceAs (Decidable (access.Valid ∧ s.received = s.issued.length))
  | .receive => inferInstanceAs (Decidable (s.received < s.qemuResp.length))
  | .clock e => inferInstanceAs (Decidable (e.Legal s))

/-- Effect of a step. -/
def St.apply (s : St) (barMap : Nat) : Label → St
  | .issue access stack =>
      { s with issued := s.issued ++ [access], qemuReq := s.qemuReq ++ [access.frame stack] }
  | .receive => { s with received := s.received + 1 }
  | .clock e => s.clock barMap e

/-- The bridge with the BAR mapped at AXI address `barMap`. -/
def bridge (barMap : Nat) : System St Label where
  init s := s = .initial
  step s label next := label.Enabled s ∧ next = s.apply barMap label

end OpaeXilinx.Cosim
