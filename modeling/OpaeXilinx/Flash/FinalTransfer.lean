import OpaeXilinx.Base.Loop
import OpaeXilinx.Flash.Qspi

/-!
# Polled transfers

`finalTransfer` with the registers that it polls.  It fills the transmit FIFO while the
transmitter is inhibited, lets the controller empty it, inhibits the transmitter again and
empties the receive FIFO, until everything has been sent and received.
-/

namespace OpaeXilinx.Flash.Polled

open OpaeXilinx.Base

/-- The controller and the variables of the function.  The buffers are counted from where
they start; without a receive buffer there is nothing to fill. -/
structure Xfer where
  device : Qspi
  controlReg : Word
  statusReg : Word
  data : Word
  sendBufferPtr : Nat
  recvBufferPtr : Nat
  recvBuf : Option (Nat → Byte)
  remainingBytes : Int
  byteCount : Int
  bytesTransferred : Word

/-- The function has returned early, or the run is cut off. -/
inductive Halt where
  | returned (result : Bool)
  | exhausted

abbrev XferM := EStateM Halt Xfer

/-- `SLAVE_SELECT_MASK`. -/
def slaveSelectMask : Word := (1 <<< 2) - 1

/-- `SlaveSelectReg`. -/
def slaveSelectReg : Slave → Word
  | .first => ~~~0x01#32
  | .second => ~~~0x02#32

section Functions

variable (env : QspiEnv) (sendBuf : Nat → Byte)

/-- `Flasher::flashRead`, which never fails. -/
def flashRead (register : Register) : XferM (Int × Word) := fun w =>
  let (value, device) := (w.device.elapse env).read env register
  .ok (0, value) { w with device }

/-- `Flasher::flashWrite`, which never fails. -/
def flashWrite (register : Register) (value : Word) : XferM Int := fun w =>
  .ok 0 { w with device := (w.device.elapse env).write env value register }

def loadControlReg : XferM Unit := do
  let (_, value) ← flashRead env .cr
  modify fun w => { w with controlReg := value }

def loadStatusReg : XferM Unit := do
  let (_, value) ← flashRead env .sr
  modify fun w => { w with statusReg := value }

/-- `if((StatusReg & (1<<10)) != 0) return false;` -/
def checkCommand : XferM Unit := do
  throwIf ((← get).statusReg &&& xspSrCmdErrMask ≠ 0) (.returned false)

/-- A byte for the transmit FIFO. -/
def fillRound : XferM Unit := do
  modify fun w => { w with data := (sendBuf w.sendBufferPtr).setWidth 32 }
  let failed ← flashWrite env .dtr (← get).data
  throwIf (failed ≠ 0) (.returned false)
  modify fun w =>
    { w with
      sendBufferPtr := w.sendBufferPtr + 1
      remainingBytes := w.remainingBytes - 1 }
  loadStatusReg env
  checkCommand

def fill : Fuelled Halt Xfer Unit :=
  whileLoop .exhausted
    (fun w => w.statusReg &&& xspSrTxFullMask = 0 ∧ w.remainingBytes > 0)
    fun _ => fillRound env sendBuf

/-- Wait for the transfer to be done. -/
def pollTxEmpty : Fuelled Halt Xfer Unit := fun fuel => do
  loadStatusReg env
  whileLoop .exhausted (fun w => w.statusReg &&& xspSrTxEmptyMask = 0)
    (fun _ => loadStatusReg env) fuel

/-- Stop the transmitter. -/
def inhibit : XferM Unit := do
  loadControlReg env
  let _ ← flashWrite env .cr ((← get).controlReg ||| xspCrTransInhibitMask)

/-- Start the transmitter. -/
def release : XferM Unit := do
  loadControlReg env
  modify fun w => { w with controlReg := w.controlReg &&& ~~~xspCrTransInhibitMask }
  let _ ← flashWrite env .cr (← get).controlReg

/-- `*RecvBufferPtr++ = (uint8_t)Data;` unless there is no buffer. -/
def Xfer.receive (w : Xfer) : Xfer :=
  match w.recvBuf with
  | none => w
  | some buffer =>
      { w with
        recvBuf := some (Function.update buffer w.recvBufferPtr (w.data.setWidth 8))
        recvBufferPtr := w.recvBufferPtr + 1 }

/-- A byte from the receive FIFO. -/
def drainRound : XferM Unit := do
  let (failed, value) ← flashRead env .drr
  throwIf (failed ≠ 0) (.returned false)
  modify fun w => { w with data := value }
  modify Xfer.receive
  modify fun w =>
    { w with
      bytesTransferred := w.bytesTransferred + 1
      byteCount := w.byteCount - 1 }
  loadStatusReg env
  checkCommand

def drainRx : Fuelled Halt Xfer Unit :=
  whileLoop .exhausted (fun w => w.statusReg &&& xspSrRxEmptyMask = 0) fun _ => drainRound env

/-- Send what has not been sent yet. -/
def refill : Fuelled Halt Xfer Unit := fun fuel => do
  loadStatusReg env
  fill env sendBuf fuel
  release env

def transferRound : Fuelled Halt Xfer Unit := fun fuel => do
  pollTxEmpty env fuel
  inhibit env
  loadControlReg env
  loadStatusReg env
  drainRx env fuel
  runIf ((← get).remainingBytes > 0) (refill env sendBuf fuel)

def transfer (slaveIndex : Slave) : Fuelled Halt Xfer Unit := fun fuel => do
  loadControlReg env
  loadStatusReg env
  let w ← get
  throwIf (w.controlReg &&& xspCrMasterModeMask ≠ 0 ∧ w.controlReg &&& xspCrLoopbackMask = 0 ∧
    slaveSelectReg slaveIndex = slaveSelectMask) (.returned false)
  loadStatusReg env
  checkCommand
  fill env sendBuf fuel
  let _ ← flashWrite env .ssr (slaveSelectReg slaveIndex)
  loadControlReg env
  loadStatusReg env
  checkCommand
  release env
  whileLoop .exhausted (fun w => w.byteCount > 0) (transferRound env sendBuf) fuel
  inhibit env
  let _ ← flashWrite env .ssr slaveSelectMask

/-- The variables when the function is called. -/
def Xfer.start (device : Qspi) (recvBuf : Option (Nat → Byte)) (byteCount : Nat) : Xfer where
  device
  controlReg := 0
  statusReg := 0
  data := 0
  sendBufferPtr := 0
  recvBufferPtr := 0
  recvBuf
  remainingBytes := byteCount
  byteCount
  bytesTransferred := 0

/-- `XSPI_Flasher::finalTransfer`.  There is no result when the fuel is used up. -/
def finalTransfer (slaveIndex : Slave) (recvBuf : Option (Nat → Byte)) (byteCount fuel : Nat)
    (device : Qspi) : Option Bool × Xfer :=
  match transfer env sendBuf slaveIndex fuel (.start device recvBuf byteCount) with
  | .ok () w => (some true, w)
  | .error (.returned result) w => (some result, w)
  | .error .exhausted w => (none, w)

end Functions

end OpaeXilinx.Flash.Polled
