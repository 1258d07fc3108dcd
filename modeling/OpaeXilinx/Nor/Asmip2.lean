import OpaeXilinx.Base.Triple
import OpaeXilinx.Base.History

/-!
# The ASMI Parallel II controller

A transfer on the SPI bus is put together in the FIFO of the controller, started by its action
register and awaited by polling the levels of its FIFOs.  The hardware and the clock are on the
other side: what a register reads as and how long a loop may go on depend on everything that has
happened so far.
-/

namespace OpaeXilinx.Nor

open OpaeXilinx.Base

abbrev Byte := BitVec 8

inductive Errno where
  | einval | eio | etimedout
  deriving DecidableEq, Repr

/-- `lock` of `struct spi_nor` and `bus_mutex` of `struct altera_asmip2`. -/
inductive Mutex where
  | lock | busMutex
  deriving DecidableEq, Repr

/-- What the driver does: `writeb` and `readb` are accesses of `QSPI_DATA_REG`, `writel` is one of
`QSPI_ACTION_REG` and `readl` is one of `QSPI_FIFO_CNT_REG`. -/
inductive Event where
  | mutexLock (mutex : Mutex)
  | mutexUnlock (mutex : Mutex)
  | writeb (byte : Byte)
  | writel (reg : BitVec 32)
  | readl (reg : BitVec 32)
  | readb (byte : Byte)
  deriving DecidableEq, Repr

/-- The controller, the chip behind it and the clock, after what has happened so far. -/
structure Device where
  /-- `QSPI_FIFO_CNT_REG`. -/
  fifoCnt : List Event → BitVec 32
  /-- `QSPI_DATA_REG`. -/
  data : List Event → Byte
  /-- The rounds that the clock leaves to a loop that begins here. -/
  patience : List Event → Nat

abbrev Driver := EStateM Errno (List Event)

/-- `QSPI_FIFO_DEPTH`. -/
def qspiFifoDepth : Nat := 0x200

/-- `QSPI_ACTION_EN`. -/
def qspiActionEn : BitVec 32 := 1#32 <<< 1

/-- `QSPI_ACTION_SC`. -/
def qspiActionSc : BitVec 32 := 1#32 <<< 2

/-- The action register of a transfer that is to be started. -/
def qspiAction (dummy readBack : Nat) : BitVec 32 :=
  qspiActionEn ||| qspiActionSc ||| BitVec.ofNat 32 dummy <<< 8 ||| BitVec.ofNat 32 readBack <<< 16

/-- The level of the transmit FIFO. -/
def fifoTx (reg : BitVec 32) : Nat := (reg >>> 12 &&& 0x3ff#32).toNat

/-- The level of the receive FIFO. -/
def fifoRx (reg : BitVec 32) : Nat := (reg &&& 0x3ff#32).toNat

def note (event : Event) : Driver Unit := modify (event :: ·)

def writeb (byte : Byte) : Driver Unit := note (.writeb byte)

def writel (reg : BitVec 32) : Driver Unit := note (.writel reg)

def iowrite8Rep : List Byte → Driver Unit
  | [] => pure ()
  | byte :: bytes => do
      writeb byte
      iowrite8Rep bytes

section Functions

variable (dev : Device)

def readl : Driver (BitVec 32) := fun history =>
  .ok (dev.fifoCnt history) (.readl (dev.fifoCnt history) :: history)

def readb : Driver Byte := fun history =>
  .ok (dev.data history) (.readb (dev.data history) :: history)

def ioread8Rep : Nat → Driver (List Byte)
  | 0 => pure []
  | count + 1 => do
      let byte ← readb dev
      let bytes ← ioread8Rep count
      pure (byte :: bytes)

/-- The loop of `readx_poll_timeout`, with the rounds until the clock ends it. -/
def pollTimeout (cond : BitVec 32 → Prop) [DecidablePred cond] : Nat → Driver Unit
  | 0 => do
      let reg ← readl dev
      if cond reg then pure ()
      else do
        -- The last look, after the time is over.
        let reg ← readl dev
        throwIf (¬ cond reg) .etimedout
  | rounds + 1 => do
      let reg ← readl dev
      if cond reg then pure () else pollTimeout cond rounds

/-- `readl_poll_timeout` of `QSPI_FIFO_CNT_REG`. -/
def readlPollTimeout (cond : BitVec 32 → Prop) [DecidablePred cond] : Driver Unit := do
  let history ← get
  pollTimeout dev cond (dev.patience history)

/-- A transfer: so many bytes are to be read back, or else the transmit FIFO has to drain. -/
def arrived (readBack : Nat) (reg : BitVec 32) : Prop :=
  if readBack = 0 then fifoTx reg = 0 else fifoRx reg = readBack

instance (readBack : Nat) : DecidablePred (arrived readBack) := fun reg =>
  inferInstanceAs (Decidable (if readBack = 0 then fifoTx reg = 0 else fifoRx reg = readBack))

/-- What the operations of the controller share: the bytes are put into the FIFO, and the transfer
is started, awaited and closed. -/
def transfer (bytes : List Byte) (dummy readBack : Nat) : Driver (List Byte) := do
  iowrite8Rep bytes
  writel (qspiAction dummy readBack)
  let ret ← attempt do
    readlPollTimeout dev (arrived readBack)
    ioread8Rep dev readBack
  writel qspiActionEn
  conclude ret

/-- `altera_asmip2_write_reg`. -/
def alteraAsmip2WriteReg (opcode : Byte) (val : List Byte) : Driver Unit := do
  throwIf (qspiFifoDepth < val.length + 1) .einval
  let _ ← transfer dev (opcode :: val) 0 0
  pure ()

/-- `altera_asmip2_read_reg`, of at least one byte. -/
def alteraAsmip2ReadReg (opcode : Byte) (len : Nat) : Driver (List Byte) := do
  throwIf (qspiFifoDepth < len) .einval
  transfer dev [opcode] 0 len

/-- `altera_asmip2_push_offset`: the highest byte goes first. -/
def offsetBytes : Nat → Nat → List Byte
  | 0, _ => []
  | width + 1, offset => BitVec.ofNat 8 (offset >>> (8 * width)) :: offsetBytes width offset

/-- `altera_asmip2_read`, of at least one byte. -/
def alteraAsmip2Read (readOpcode : Byte) (addrWidth : Nat) (offset len : Nat) :
    Driver (List Byte) := do
  let bytesToRead := min len qspiFifoDepth
  let ret ← attempt (transfer dev (readOpcode :: offsetBytes addrWidth offset) 10 bytesToRead)
  match ret with
  | .ok buf => pure buf
  | .error _ => pure []

/-- `altera_asmip2_write`. -/
def alteraAsmip2Write (programOpcode : Byte) (addrWidth offset : Nat) (buf : List Byte) :
    Driver Nat := do
  let bytesToWrite := min buf.length (qspiFifoDepth - (addrWidth + 1))
  let ret ← attempt
    (transfer dev (programOpcode :: offsetBytes addrWidth offset ++ buf.take bytesToWrite) 0 0)
  match ret with
  | .ok _ => pure bytesToWrite
  | .error _ => pure 0

end Functions

end OpaeXilinx.Nor
