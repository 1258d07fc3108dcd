import OpaeXilinx.Base.NorMemory
import OpaeXilinx.Base.Triple

/-!
# The mailbox of the board controller

`avmmi-bmc.c` reaches the memory of a mailbox byte by byte.  A request is announced by its count
and taken when the count is zero again; a response is there when its count has been read twice as
the same.  The board controller works at its own pace between the accesses of the driver.
-/

namespace OpaeXilinx.Bmc

open OpaeXilinx.Base
open OpaeXilinx.Base.NorMemory (programmed contents)

abbrev Byte := BitVec 8

inductive Errno where
  | enodev | einval | etimedout | enomem
  deriving DecidableEq, Repr

/-- What the driver does: accesses of the registers at `ADDR_OFFSET`, `WDATA_OFFSET` and
`RDATA_OFFSET`, and of `bus_mutex`. -/
inductive Event where
  | mutexLock
  | mutexUnlock
  | writeAddr (reg : BitVec 64)
  | writeData (reg : BitVec 64)
  | readData (reg : BitVec 64)
  deriving DecidableEq, Repr

/-- What the driver has to do with: the hardware and the clock answer after what has happened so
far. -/
structure Device where
  /-- The driver has its data. -/
  priv : Bool
  /-- The register at `RDATA_OFFSET`. -/
  rdata : List Event → BitVec 64
  /-- The rounds that the clock leaves to a poll that begins here. -/
  patience : List Event → Nat

abbrev Driver := EStateM Errno (List Event)

/-- `ADDR_RBIT`. -/
def addrRbit : BitVec 64 := 1#64 <<< 17

/-- `ADDR_WBIT`. -/
def addrWbit : BitVec 64 := 1#64 <<< 16

/-- `MAX_PACKET_SIZE`. -/
def maxPacketSize : Nat := 1024

def requestCountAddress : Nat := 0x1000
def requestAddress : Nat := 0x1002
def responseCountAddress : Nat := 0x1800
def responseAddress : Nat := 0x1802

/-- `TIMEOUT_US / POLL_US`. -/
def polls : Nat := 10000000 / 5

/-- The number that two bytes make up, and the bytes of a number; the lowest byte comes first. -/
def number : List Byte → Nat
  | [] => 0
  | byte :: bytes => byte.toNat + 256 * number bytes

def countBytes (count : Nat) : List Byte := [BitVec.ofNat 8 count, BitVec.ofNat 8 (count / 256)]

def note (event : Event) : Driver Unit := modify (event :: ·)

/-- `avmmi_write8`. -/
def avmmiWrite8 (addr : Nat) (val : Byte) : Driver Unit := do
  note (.writeData (val.setWidth 64))
  note (.writeAddr (BitVec.ofNat 64 (addr % 0x10000) ||| addrWbit))

/-- `avmmi_write8s`, whose result nothing looks at. -/
def avmmiWrite8s (addr : Nat) : List Byte → Driver Unit
  | [] => pure ()
  | byte :: bytes => do
      avmmiWrite8 addr byte
      avmmiWrite8s (addr + 1) bytes

/-- `RDATA_VALID`. -/
def valid (reg : BitVec 64) : Bool := reg.getLsbD 8

section Functions

variable (dev : Device)

def readData : Driver (BitVec 64) := fun history =>
  .ok (dev.rdata history) (.readData (dev.rdata history) :: history)

/-- `readq_poll_timeout` of the data, with the rounds until the clock ends it. -/
def pollValid : Nat → Driver (BitVec 64)
  | 0 => do
      let reg ← readData dev
      if valid reg then pure reg
      else do
        -- The last look, after the time is over.
        let reg ← readData dev
        if valid reg then pure reg else throw .etimedout
  | rounds + 1 => do
      let reg ← readData dev
      if valid reg then pure reg else pollValid rounds

/-- `avmmi_read8`. -/
def avmmiRead8 (addr : Nat) : Driver Byte := do
  note (.writeAddr (BitVec.ofNat 64 (addr % 0x10000) ||| addrRbit))
  let history ← get
  let reg ← pollValid dev (dev.patience history)
  pure (reg.setWidth 8)

/-- `avmmi_read8s`, of at least one byte. -/
def avmmiRead8s (addr : Nat) : Nat → Driver (List Byte)
  | 0 => pure []
  | len + 1 => do
      let byte ← avmmiRead8 dev addr
      let bytes ← avmmiRead8s (addr + 1) len
      pure (byte :: bytes)

/-- A count of the mailbox. -/
def readCount (addr : Nat) : Driver Nat := do
  let bytes ← avmmiRead8s dev addr 2
  pure (number bytes)

/-- The first loop of `avmmi_send_one`, with the rounds that are left. -/
def awaitTaken : Nat → Driver Unit
  | 0 => throw .etimedout
  | rounds + 1 => do
      let count ← readCount dev requestCountAddress
      if count = 0 then pure () else awaitTaken rounds

/-- The second loop of `avmmi_send_one`. -/
def awaitResponse (lastCount : Nat) : Nat → Driver Nat
  | 0 => throw .etimedout
  | rounds + 1 => do
      let count ← readCount dev responseCountAddress
      if count = 0 ∨ count ≠ lastCount then awaitResponse count rounds else pure count

/-- What `avmmi_send_one` does with a response of a known length. -/
def takeResponse (count rxlen : Nat) : Driver (List Byte) := do
  let ret ← (if count ≤ maxPacketSize ∧ count ≤ rxlen then do
      let rxbuf ← avmmiRead8s dev responseAddress count
      pure (Except.ok rxbuf)
    else pure (.error .enomem))
  avmmiWrite8s responseCountAddress (countBytes 0)
  conclude ret

/-- The part of `avmmi_send_one` under the lock. -/
def exchange (txbuf : List Byte) (rxlen : Nat) : Driver (List Byte) := do
  avmmiWrite8s requestAddress txbuf
  avmmiWrite8s requestCountAddress (countBytes txbuf.length)
  awaitTaken dev polls
  let count ← awaitResponse dev 0 polls
  takeResponse dev count rxlen

/-- `avmmi_send_one`, with the response; its result is the length of that. -/
def avmmiSendOne (txbuf : List Byte) (rxlen : Nat) : Driver (List Byte) := do
  throwIf (dev.priv = false) .enodev
  throwIf (maxPacketSize < txbuf.length) .einval
  note .mutexLock
  let ret ← attempt (exchange dev txbuf rxlen)
  note .mutexUnlock
  conclude ret

end Functions

/-! ## The board controller -/

/-- The mailbox, with what the board controller is doing and the requests that it has taken, the
last one first. -/
structure Mailbox where
  mem : Nat → Byte
  working : Bool
  taken : List (List Byte)

namespace Mailbox

def count (box : Mailbox) (addr : Nat) : Nat := number (contents box.mem addr 2)

def store (box : Mailbox) (addr : Nat) (bytes : List Byte) : Mailbox :=
  { box with mem := programmed (fun _ new => new) box.mem addr bytes }

/-- A board controller that answers the requests so far: it takes a request that is announced, and
puts down its response where the last one has been taken.  The response comes in one step with both
bytes of its count, which has room for less than 65536. -/
def step (serve : List (List Byte) → List Byte) (box : Mailbox) : Mailbox :=
  if box.working then
    if box.count responseCountAddress = 0 then
      { (box.store responseAddress (serve box.taken)).store responseCountAddress
          (countBytes (serve box.taken).length) with working := false }
    else box
  else if box.count requestCountAddress = 0 then box
  else
    { box.store requestCountAddress (countBytes 0) with
      working := true
      taken := contents box.mem requestAddress (box.count requestCountAddress) :: box.taken }

end Mailbox

/-- What happens without the driver: the board controller goes on, or a byte that has been asked for
is fetched. -/
inductive Act where
  | bmc | fetch
  deriving DecidableEq, Repr

/-- The mailbox behind its registers.  `reading` is the address that is read, with its byte once
that has been fetched. -/
structure Board where
  box : Mailbox
  wdata : Byte
  reading : Option (Nat × Option Byte)

namespace Board

variable (serve : List (List Byte) → List Byte)

def act (board : Board) : Act → Board
  | .bmc => { board with box := board.box.step serve }
  | .fetch =>
    match board.reading with
    | some (addr, none) => { board with reading := some (addr, some (board.box.mem addr)) }
    | _ => board

/-- What an access of the driver makes of the board. -/
def react (board : Board) : Event → Board
  | .writeData reg => { board with wdata := reg.setWidth 8 }
  | .writeAddr reg =>
    if reg.getLsbD 16 then
      { board with box := board.box.store (reg.setWidth 16).toNat [board.wdata] }
    else if reg.getLsbD 17 then { board with reading := some ((reg.setWidth 16).toNat, none) }
    else board
  | _ => board

/-- The board after a history.  `acts` says what happens before each access. -/
def after (acts : List Event → List Act) (start : Board) : List Event → Board
  | [] => start
  | event :: earlier => ((acts earlier).foldl (act serve) (after acts start earlier)).react event

end Board

/-- Data that are valid are those that have been fetched. -/
def Faithful (dev : Device) (serve : List (List Byte) → List Byte)
    (acts : List Event → List Act) (start : Board) : Prop :=
  ∀ history, valid (dev.rdata history) = true → ∃ addr value,
    ((acts history).foldl (Board.act serve) (Board.after serve acts start history)).reading =
      some (addr, some value) ∧ (dev.rdata history).setWidth 8 = value

end OpaeXilinx.Bmc
