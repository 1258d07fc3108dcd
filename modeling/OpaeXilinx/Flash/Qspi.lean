import OpaeXilinx.Flash.Chip

/-!
# The SPI controller

The AXI QSPI controller, with a transmit and a receive FIFO of one depth.  While the
transmitter is not inhibited, the controller runs beside the processor: between two
accesses to its registers it shifts some bytes out of the transmit FIFO, each of them for a
byte that it puts into the receive FIFO.
-/

namespace OpaeXilinx.Flash

abbrev Word := BitVec 32

def xspCrLoopbackMask : Word := 0x00000001
def xspCrMasterModeMask : Word := 0x00000004
def xspCrTxfifoResetMask : Word := 0x00000020
def xspCrRxfifoResetMask : Word := 0x00000040
def xspCrTransInhibitMask : Word := 0x00000100

def xspSrRxEmptyMask : Word := 0x00000001
def xspSrRxFullMask : Word := 0x00000002
def xspSrTxEmptyMask : Word := 0x00000004
def xspSrTxFullMask : Word := 0x00000008
def xspSrCmdErrMask : Word := 0x00000400

/-- What happens on the bus: the slave select register is written, or a byte is shifted out
for another one. -/
inductive BusEvent where
  | select (value : Word)
  | shift (sent received : Byte)
  deriving DecidableEq, Repr

/-- The controller and what has happened on its bus. -/
structure Qspi where
  control : Word
  slaveSelect : Word
  tx : List Byte
  rx : List Byte
  /-- A byte has been lost because a FIFO was full. -/
  overflowed : Bool
  shifted : Nat
  /-- Accesses to the registers so far. -/
  ticks : Nat
  bus : List BusEvent

/-- What is not up to the program: the depth of the FIFOs, how many bytes can be shifted
before each access, what comes back for each byte, and the status bits that the model does
not have. -/
structure QspiEnv where
  depth : Nat
  drain : Nat → Nat
  reply : Nat → Byte
  other : Nat → Word

inductive Register where
  | cr | sr | dtr | drr | ssr
  deriving DecidableEq, Repr

namespace Qspi

/-- The transmitter is inhibited. -/
def Inhibited (dev : Qspi) : Prop := dev.control &&& xspCrTransInhibitMask ≠ 0

instance (dev : Qspi) : Decidable dev.Inhibited :=
  inferInstanceAs (Decidable (dev.control &&& xspCrTransInhibitMask ≠ 0))

section Env

variable (env : QspiEnv)

/-- Shift the first byte of the transmit FIFO, if there is one. -/
def shift (dev : Qspi) : Qspi :=
  match dev.tx with
  | [] => dev
  | byte :: rest =>
      let received := env.reply dev.shifted
      { dev with
        tx := rest
        rx := if dev.rx.length < env.depth then dev.rx ++ [received] else dev.rx
        overflowed := dev.overflowed || !decide (dev.rx.length < env.depth)
        shifted := dev.shifted + 1
        bus := dev.bus ++ [.shift byte received] }

def shifts : Nat → Qspi → Qspi
  | 0, dev => dev
  | count + 1, dev => shifts count (dev.shift env)

/-- What the controller does before the next access. -/
def elapse (dev : Qspi) : Qspi :=
  let dev' := if dev.Inhibited then dev else dev.shifts env (env.drain dev.ticks)
  { dev' with ticks := dev.ticks + 1 }

/-- The status bits of the FIFOs. -/
def fifoStatus (rxEmpty rxFull txEmpty txFull : Bool) : Word :=
  (if rxEmpty then xspSrRxEmptyMask else 0) ||| (if rxFull then xspSrRxFullMask else 0) |||
    (if txEmpty then xspSrTxEmptyMask else 0) ||| (if txFull then xspSrTxFullMask else 0)

/-- The status register.  There is never a command error. -/
def status (dev : Qspi) : Word :=
  (env.other dev.ticks &&& ~~~0x0000040F#32) |||
    fifoStatus dev.rx.isEmpty (env.depth ≤ dev.rx.length) dev.tx.isEmpty
      (env.depth ≤ dev.tx.length)

/-- A register is read.  The reset bits of the control register clear themselves. -/
def read (dev : Qspi) : Register → Word × Qspi
  | .cr => (dev.control &&& ~~~(xspCrTxfifoResetMask ||| xspCrRxfifoResetMask), dev)
  | .sr => (dev.status env, dev)
  | .drr =>
      match dev.rx with
      | [] => (0, dev)
      | byte :: rest => (byte.setWidth 32, { dev with rx := rest })
  | .ssr => (dev.slaveSelect, dev)
  | .dtr => (0, dev)

/-- A register is written. -/
def write (dev : Qspi) (value : Word) : Register → Qspi
  | .cr =>
      { dev with
        control := value
        tx := if value &&& xspCrTxfifoResetMask = 0 then dev.tx else []
        rx := if value &&& xspCrRxfifoResetMask = 0 then dev.rx else [] }
  | .dtr =>
      if dev.tx.length < env.depth then { dev with tx := dev.tx ++ [value.setWidth 8] }
      else { dev with overflowed := true }
  | .ssr => { dev with slaveSelect := value, bus := dev.bus ++ [.select value] }
  | .sr => dev
  | .drr => dev

end Env

theorem shift_control (env : QspiEnv) (dev : Qspi) : (dev.shift env).control = dev.control := by
  rw [shift]
  split <;> rfl

theorem shifts_control (env : QspiEnv) (count : Nat) (dev : Qspi) :
    (dev.shifts env count).control = dev.control := by
  induction count generalizing dev with
  | zero => rfl
  | succ count ih => rw [shifts, ih, shift_control]

theorem elapse_control (env : QspiEnv) (dev : Qspi) : (dev.elapse env).control = dev.control := by
  rw [elapse]
  dsimp only
  split
  · rfl
  · exact shifts_control ..

section Status

variable (env : QspiEnv) (dev : Qspi)

/-- A bit that is masked out is not set. -/
theorem and_not_and {mask bits : Word} (masked : ~~~mask &&& bits = 0) (value : Word) :
    value &&& ~~~mask &&& bits = 0 := by
  rw [BitVec.and_assoc, masked]
  exact BitVec.and_zero

theorem status_and {bits : Word} (known : ~~~0x0000040F#32 &&& bits = 0) :
    dev.status env &&& bits = fifoStatus dev.rx.isEmpty (env.depth ≤ dev.rx.length)
      dev.tx.isEmpty (env.depth ≤ dev.tx.length) &&& bits := by
  rw [status, BitVec.and_or_distrib_right, and_not_and known]
  exact BitVec.zero_or

theorem fifoStatus_bits : ∀ rxEmpty rxFull txEmpty txFull,
    (fifoStatus rxEmpty rxFull txEmpty txFull &&& xspSrRxEmptyMask = 0 ↔ rxEmpty = false) ∧
    (fifoStatus rxEmpty rxFull txEmpty txFull &&& xspSrTxEmptyMask = 0 ↔ txEmpty = false) ∧
    (fifoStatus rxEmpty rxFull txEmpty txFull &&& xspSrTxFullMask = 0 ↔ txFull = false) ∧
    fifoStatus rxEmpty rxFull txEmpty txFull &&& xspSrCmdErrMask = 0 := by
  decide

theorem status_rxEmpty : dev.status env &&& xspSrRxEmptyMask = 0 ↔ dev.rx ≠ [] := by
  rw [status_and env dev (by decide), (fifoStatus_bits ..).1]
  simp

theorem status_txEmpty : dev.status env &&& xspSrTxEmptyMask = 0 ↔ dev.tx ≠ [] := by
  rw [status_and env dev (by decide), (fifoStatus_bits ..).2.1]
  simp

theorem status_txFull : dev.status env &&& xspSrTxFullMask = 0 ↔ dev.tx.length < env.depth := by
  rw [status_and env dev (by decide), (fifoStatus_bits ..).2.2.1]
  simp

theorem status_cmdErr : dev.status env &&& xspSrCmdErrMask = 0 := by
  rw [status_and env dev (by decide)]
  exact (fifoStatus_bits ..).2.2.2

end Status

end Qspi

end OpaeXilinx.Flash
