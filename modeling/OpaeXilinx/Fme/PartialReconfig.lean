import OpaeXilinx.Base.Ledger
import OpaeXilinx.Base.Triple
import OpaeXilinx.Port.Reset

/-!
# Partial reconfiguration

`FPGA_FME_PORT_PR` loads the bitstream of an accelerator through the FPGA manager: the port is
put into reset, the PR engine of the FME is reset and started, the padded bitstream is pushed
into it a word at a time while it gives credit, and the port is let go again.

The hardware is on the other side of the registers.  It may answer a read with anything at all,
depending on everything that has happened so far.
-/

namespace OpaeXilinx.Fme

open OpaeXilinx.Base
open OpaeXilinx.Port (PortReset portEnable portDisable)

abbrev Byte := BitVec 8

inductive Errno where
  | eio | einval | efault | enomem | enodev | ebusy | etimedout
  deriving DecidableEq, Repr

/-- The registers of `struct feature_fme_pr` that are read and written. -/
inductive PrReg where
  | control | status | data | err
  deriving DecidableEq, Repr

/-- A register with other bits in a field. -/
def setField {width : Nat} (csr : BitVec 64) (low : Nat) (field : BitVec width) : BitVec 64 :=
  csr &&& ~~~((BitVec.allOnes width).setWidth 64 <<< low) ||| field.setWidth 64 <<< low

/-- `pr_reset_ack` of the control register. -/
def prResetAck (csr : BitVec 64) : BitVec 1 := csr.extractLsb' 4 1

/-- `pr_start_req` of the control register. -/
def prStartReq (csr : BitVec 64) : BitVec 1 := csr.extractLsb' 12 1

/-- `pr_credit` of the status register. -/
def prCredit (csr : BitVec 64) : BitVec 9 := csr.extractLsb' 0 9

/-- `pr_status` of the status register. -/
def prStatus (csr : BitVec 64) : BitVec 1 := csr.extractLsb' 16 1

/-- `pr_host_status` of the status register. -/
def prHostStatus (csr : BitVec 64) : BitVec 4 := csr.extractLsb' 24 4

/-- An access to the PR engine.  `copy512` stores 64 bytes from `fme_pr_data1` on. -/
inductive Access where
  | readq (reg : PrReg) (value : BitVec 64)
  | writeq (reg : PrReg) (value : BitVec 64)
  | copy512 (block : List Byte)
  deriving DecidableEq, Repr

/-- An access, whether the port is in reset at that time, and whether the kernel may use the
vector registers. -/
structure PrEvent where
  access : Access
  sftrst : Bool
  fpu : Bool
  deriving DecidableEq, Repr

/-- What the registers read as, after what has happened so far, the last access first. -/
abbrev Hardware := List PrEvent → PrReg → BitVec 64

/-! ## The state of the driver -/

/-- `enum fpga_mgr_states`, as far as a buffer is loaded. -/
inductive MgrState where
  | unknown | writeInit | writeInitErr | write | writeErr | writeComplete | writeCompleteErr
  | operating
  deriving DecidableEq, Repr

/-- What has to be given back. -/
inductive Resource where
  | lock | buffer | manager | portDevice | fpu
  deriving DecidableEq, Repr

/-- `struct fpga_fme`. -/
structure FpgaFme where
  portId : BitVec 8
  prErr : BitVec 64
  prBandwidth : BitVec 32
  prAvx512 : Bool
  deriving DecidableEq, Repr

/-- An FME with its FPGA manager and the port that is reconfigured.  `userStatus` is what the
call has put into `status` of the caller's `struct fpga_fme_port_pr`. -/
structure World where
  fme : FpgaFme
  mgr : MgrState
  port : PortReset
  events : List PrEvent
  ledger : List (Deal Resource)
  userStatus : Option (BitVec 64)
  deriving DecidableEq, Repr

abbrev Driver := EStateM Errno World

/-- The port is in reset. -/
def World.sftrst (w : World) : Bool := w.port.control.getLsbD 0

/-- Between `kernel_fpu_begin` and `kernel_fpu_end`. -/
def World.fpu (w : World) : Bool := Resource.fpu ∈ Ledger.held w.ledger

def World.log (w : World) (access : Access) : World :=
  { w with events := ⟨access, w.sftrst, w.fpu⟩ :: w.events }

def World.deal (w : World) (deal : Deal Resource) : World := { w with ledger := deal :: w.ledger }

def acquire (resource : Resource) : Driver Unit := modify fun w => w.deal (.acquire resource)

def release (resource : Resource) : Driver Unit := modify fun w => w.deal (.release resource)

def readq (hw : Hardware) (reg : PrReg) : Driver (BitVec 64) := fun w =>
  .ok (hw w.events reg) (w.log (.readq reg (hw w.events reg)))

def writeq (value : BitVec 64) (reg : PrReg) : Driver Unit := modify fun w =>
  w.log (.writeq reg value)

def copy512 (block : List Byte) : Driver Unit := modify fun w => w.log (.copy512 block)

/-- `PR_WAIT_TIMEOUT`. -/
def prWaitTimeout : Nat := 8000000

/-- The rounds of `fpga_wait_register_field` that are left. -/
def waitRegisterField (hw : Hardware) (reg : PrReg) (expected : BitVec 64 → Prop)
    [DecidablePred expected] : Nat → Driver Unit
  | 0 => throw .etimedout
  | rounds + 1 => do
      let value ← readq hw reg
      if expected value then pure () else waitRegisterField hw reg expected rounds

/-- `fpga_wait_register_field`, with the interval of one. -/
def fpgaWaitRegisterField (hw : Hardware) (reg : PrReg) (expected : BitVec 64 → Prop)
    [DecidablePred expected] : Driver Unit :=
  waitRegisterField hw reg expected (prWaitTimeout + 1)

/-- `pr_err_handle`. -/
def prErrHandle (hw : Hardware) : Driver (BitVec 64) := do
  let status ← readq hw .status
  if prStatus status = 0#1 then pure 0#64
  else do
    let fmePrError ← readq hw .err
    writeq fmePrError .err
    pure fmePrError

/-- Set a field of the control register. -/
def updateControl (hw : Hardware) (change : BitVec 64 → BitVec 64) : Driver Unit := do
  let ctl ← readq hw .control
  writeq (change ctl) .control

def setPrErr (prErr : BitVec 64) : Driver Unit := modify fun w =>
  { w with fme := { w.fme with prErr := prErr } }

/-- `fme_pr_write_init`. -/
def fmePrWriteInit (hw : Hardware) : Driver Unit := do
  updateControl hw fun ctl => setField ctl 0 1#1
  fpgaWaitRegisterField hw .control fun ctl => prResetAck ctl = 1#1
  updateControl hw fun ctl => setField ctl 0 0#1
  fpgaWaitRegisterField hw .status fun status => prHostStatus status = 0#4
  let _ ← prErrHandle hw
  pure ()

/-- What `fme_pr_write` has left: the rounds until `delay` passes the limit, and `pr_credit`. -/
structure Pusher where
  rounds : Nat
  credit : Nat
  deriving DecidableEq, Repr

/-- `while (pr_credit <= 1)`. -/
def awaitCredit (hw : Hardware) : Nat → Nat → Driver Pusher
  | 0, credit =>
    if 1 < credit then pure ⟨0, credit⟩
    else do
      let prErr ← prErrHandle hw
      setPrErr prErr
      if prErr ≠ 0#64 then throw .eio else throw .etimedout
  | rounds + 1, credit =>
    if 1 < credit then pure ⟨rounds + 1, credit⟩
    else do
      let status ← readq hw .status
      awaitCredit hw rounds (prCredit status).toNat

/-- The bytes of a `u32` in memory, as a number. -/
def leWord : List Byte → BitVec 32
  | [] => 0
  | byte :: bytes => leWord bytes <<< 8 ||| byte.setWidth 32

/-- One transfer of `fme_pr_write`. -/
def pushWord (bandwidth : Nat) (bytes : List Byte) : Driver Unit :=
  if bandwidth = 4 then writeq ((leWord bytes).setWidth 64) .data else copy512 bytes

/-- `while (count > 0)`. -/
def pushAll (hw : Hardware) (bandwidth : Nat) (buf : List Byte) (pusher : Pusher) : Driver Unit :=
  if buf = [] then pure ()
  else do
    let pusher ← awaitCredit hw pusher.rounds pusher.credit
    if full : bandwidth ≤ buf.length then
      if known : bandwidth = 4 ∨ bandwidth = 64 then do
        pushWord bandwidth (buf.take bandwidth)
        pushAll hw bandwidth (buf.drop bandwidth) ⟨pusher.rounds, pusher.credit - 1⟩
      else throw .efault
    else throw .einval
termination_by buf.length
decreasing_by
  rw [List.length_drop]
  omega

/-- From `kernel_fpu_begin` to `kernel_fpu_end`, if the vector registers are used. -/
def withFpu (avx512 : Bool) (program : Driver Unit) : Driver Unit := do
  runIf (avx512 = true) (acquire .fpu)
  let ret ← attempt program
  runIf (avx512 = true) (release .fpu)
  conclude ret

/-- `fme_pr_write`. -/
def fmePrWrite (hw : Hardware) (buf : List Byte) : Driver Unit := do
  let fme := (← get).fme
  updateControl hw fun ctl => setField (setField ctl 8 (fme.portId.setWidth 2)) 12 1#1
  let status ← readq hw .status
  withFpu fme.prAvx512
    (pushAll hw fme.prBandwidth.toNat buf ⟨prWaitTimeout + 1, (prCredit status).toNat⟩)

/-- `fme_pr_write_complete`. -/
def fmePrWriteComplete (hw : Hardware) : Driver Unit := do
  updateControl hw fun ctl => setField ctl 13 1#1
  fpgaWaitRegisterField hw .control fun ctl => prStartReq ctl = 0#1
  let prErr ← prErrHandle hw
  setPrErr prErr
  throwIf (prErr ≠ 0#64) .eio

def setMgr (state : MgrState) : Driver Unit := modify fun w => { w with mgr := state }

/-- An operation of the manager, between the states that stand for it. -/
def mgrStep (during failed : MgrState) (operation : Driver Unit) : Driver Unit := do
  setMgr during
  match ← attempt operation with
  | .ok _ => pure ()
  | .error err => do
      setMgr failed
      throw err

/-- `fpga_mgr_buf_load`, for a manager with `write`. -/
def fpgaMgrBufLoad (hw : Hardware) (buf : List Byte) : Driver Unit := do
  mgrStep .writeInit .writeInitErr (fmePrWriteInit hw)
  mgrStep .write .writeErr (fmePrWrite hw buf)
  mgrStep .writeComplete .writeCompleteErr (fmePrWriteComplete hw)
  setMgr .operating

/-- The kernel's `ALIGN`, in the type of its first argument. -/
def align (x a : BitVec 32) : BitVec 32 := (x + (a - 1#32)) &&& ~~~(a - 1#32)

/-- `struct fpga_fme_port_pr`, and how its memory and the kernel meet the call: whether the
structure and the bitstream can be copied, what the bitstream is, and what is found. -/
structure PrCall where
  argsz : BitVec 32
  flags : BitVec 32
  portId : BitVec 32
  /-- The memory at `buffer_address`, of `buffer_size` bytes. -/
  image : List Byte
  image_size : image.length < 2 ^ 32
  status : BitVec 64
  argReadable : Bool
  argWritable : Bool
  accessOk : Bool
  imageReadable : Bool
  hasHeader : Bool
  numPorts : BitVec 3
  registered : Bool
  memory : Bool
  hasManager : Bool
  managerFree : Bool
  moduleAlive : Bool

/-- `buffer_size`. -/
def PrCall.bufferSize (call : PrCall) : BitVec 32 := BitVec.ofNat 32 call.image.length

/-- `fpga_mgr_get`. -/
def PrCall.fpgaMgrGet (call : PrCall) : Except Errno Unit :=
  if call.hasManager = false then .error .enodev
  else if call.managerFree = false then .error .ebusy
  else if call.moduleAlive = false then .error .enodev
  else .ok ()

/-- `copy_from_user` into a buffer. -/
def copyFromUser (buf image : List Byte) : List Byte := image ++ buf.drop image.length

/-- `minsz` of `fme_pr`. -/
def prMinsz : BitVec 32 := 32#32

/-- The part of `fme_pr` in which the port is disabled, with `status` as the caller has it. -/
def fmePrLoad (hw : Hardware) (buf : List Byte) : Driver (Except Errno Unit × BitVec 64) := do
  acquire .portDevice
  modify fun w => { w with port := (portDisable w.port).2 }
  let ret ← attempt (fpgaMgrBufLoad hw buf)
  let status := (← get).fme.prErr
  modify fun w => { w with port := portEnable w.port }
  release .portDevice
  pure (ret, status)

/-- The part of `fme_pr` with a buffer. -/
def fmePrBuffered (hw : Hardware) (call : PrCall) (buf : List Byte) :
    Driver (Except Errno Unit × BitVec 64) :=
  if call.imageReadable = false then pure (.error .efault, call.status)
  else match call.fpgaMgrGet with
    | .error err => pure (.error err, call.status)
    | .ok _ => do
        acquire .manager
        modify fun w => { w with fme := { w.fme with
          prErr := 0#64
          portId := call.portId.setWidth 8 } }
        let ret ← fmePrLoad hw (copyFromUser buf call.image)
        release .manager
        pure ret

/-- The part of `fme_pr` under the lock. -/
def fmePrLocked (hw : Hardware) (call : PrCall) : Driver (Except Errno Unit × BitVec 64) := do
  if call.registered = false then pure (.error .einval, call.status)
  else do
    let length := (align call.bufferSize (← get).fme.prBandwidth).toNat
    -- `vzalloc` gives nothing for a length of zero
    if length = 0 ∨ call.memory = false then pure (.error .enomem, call.status)
    else do
      acquire .buffer
      let ret ← fmePrBuffered hw call (List.replicate length 0#8)
      release .buffer
      pure ret

/-- `fme_pr`. -/
def fmePr (hw : Hardware) (call : PrCall) : Driver Unit := do
  throwIf (call.argReadable = false) .efault
  throwIf (call.argsz < prMinsz ∨ call.flags ≠ 0#32) .einval
  throwIf (call.hasHeader = false) .einval
  throwIf (call.numPorts.setWidth 32 ≤ call.portId) .einval
  throwIf (call.accessOk = false) .efault
  acquire .lock
  let ret ← fmePrLocked hw call
  release .lock
  throwIf (call.argWritable = false) .efault
  modify fun w => { w with userStatus := some ret.2 }
  conclude ret.1

/-- `fpga_fme_pr_probe`, with `revision` of the header. -/
def fmePrProbe (fme : FpgaFme) (revision : BitVec 4) : FpgaFme :=
  if revision = 2#4 then { fme with prBandwidth := 64#32, prAvx512 := true }
  else { fme with prBandwidth := 4#32 }

end OpaeXilinx.Fme
