import Mathlib.Algebra.Group.Nat.Defs
import Mathlib.Logic.Function.Basic
import OpaeXilinx.Base.History

/-!
# Flash chips on the SPI bus

Two flash chips hang on one SPI bus.  A chip collects the bytes that are shifted while it
is selected and carries out the command they make up when it is released.  It takes
addresses of three bytes, behind its extended address register.
-/

namespace OpaeXilinx.Flash

open OpaeXilinx.Base

abbrev Byte := BitVec 8

/-- Contents of a flash. -/
abbrev Mem := Nat → Byte

/-- `NUM_SLAVES` is 2. -/
inductive Slave where
  | first
  | second
  deriving DecidableEq, Repr

def commandPageProgram : Byte := 0x02
def commandQuadWrite : Byte := 0x32
def command4KbSubsectorErase : Byte := 0x20
def commandIdcodeRead : Byte := 0x9F
def commandStatusregRead : Byte := 0x05
def commandExtendedAddressRegWrite : Byte := 0xC5
def commandWriteEnable : Byte := 0x06

/-- The commands that change a chip.  Addresses are those of the three address bytes. -/
inductive Command where
  | writeEnable
  | writeExtendedAddress (value : Byte)
  | erase (offset : Nat)
  | program (offset : Nat) (data : List Byte)
  deriving DecidableEq, Repr

/-- The opcode of an erase or of a page program. -/
def isWriteOpcode (opcode : Byte) : Bool :=
  opcode == command4KbSubsectorErase || opcode == commandPageProgram || opcode == commandQuadWrite

/-- Three address bytes. -/
def threeBytes (high middle low : Byte) : Nat :=
  high.toNat * 2 ^ 16 + middle.toNat * 2 ^ 8 + low.toNat

/-- The command that a sequence of bytes makes up; other commands only read. -/
def decode : List Byte → Option Command
  | [] => none
  | opcode :: bytes =>
      if opcode = commandWriteEnable then
        match bytes with
        | [] => some .writeEnable
        | _ => none
      else if opcode = commandExtendedAddressRegWrite then
        match bytes with
        | [value] => some (.writeExtendedAddress value)
        | _ => none
      else if opcode = command4KbSubsectorErase then
        match bytes with
        | [high, middle, low] => some (.erase (threeBytes high middle low))
        | _ => none
      else if opcode = commandPageProgram ∨ opcode = commandQuadWrite then
        match bytes with
        | high :: middle :: low :: data => some (.program (threeBytes high middle low) data)
        | _ => none
      else none

/-- Size of a subsector and of a page. -/
def subsectorSize : Nat := 0x1000
def pageSize : Nat := 256

/-- A 4KB subsector erase. -/
def eraseSubsector (address : Nat) (mem : Mem) : Mem :=
  fun x => if x / subsectorSize = address / subsectorSize then 0xFF else mem x

/-- Where the byte number `i` of a page program goes: it stays in the page. -/
def inPage (address i : Nat) : Nat := address / pageSize * pageSize + (address + i) % pageSize

/-- A page program, which can only clear bits. -/
def programFrom (address : Nat) : Nat → List Byte → Mem → Mem
  | _, [], mem => mem
  | i, byte :: data, mem => programFrom address (i + 1) data
      (Function.update mem (inPage address i) (mem (inPage address i) &&& byte))

def programPage (address : Nat) (data : List Byte) (mem : Mem) : Mem :=
  programFrom address 0 data mem

theorem inPage_div_pageSize (address i : Nat) :
    inPage address i / pageSize = address / pageSize := by
  have small : (address + i) % pageSize < pageSize := Nat.mod_lt _ (by decide)
  simp only [inPage, pageSize] at small ⊢
  omega

theorem inPage_div_subsectorSize (address i : Nat) :
    inPage address i / subsectorSize = address / subsectorSize := by
  have page := inPage_div_pageSize address i
  simp only [pageSize, subsectorSize] at page ⊢
  omega

/-- A page program stays in its page. -/
theorem programFrom_other {address x : Nat} (outside : x / pageSize ≠ address / pageSize) (i : Nat)
    (data : List Byte) (mem : Mem) : programFrom address i data mem x = mem x := by
  induction data generalizing i mem with
  | nil => rfl
  | cons byte data ih =>
      have other : x ≠ inPage address i := by
        rintro rfl
        exact outside (inPage_div_pageSize address i)
      rw [programFrom, ih, Function.update_of_ne other]

theorem programPage_other {address x : Nat} (outside : x / subsectorSize ≠ address / subsectorSize)
    (data : List Byte) (mem : Mem) : programPage address data mem x = mem x := by
  refine programFrom_other ?_ 0 data mem
  simp only [pageSize, subsectorSize] at outside ⊢
  omega

theorem eraseSubsector_other {address x : Nat}
    (outside : x / subsectorSize ≠ address / subsectorSize)
    (mem : Mem) : eraseSubsector address mem x = mem x :=
  if_neg outside

structure Chip where
  mem : Mem
  /-- The extended address register. -/
  ear : Byte
  writeEnabled : Bool
  /-- Bytes received, while the chip is selected. -/
  pending : Option (List Byte)

namespace Chip

/-- The address that an offset has behind the extended address register. -/
def full (chip : Chip) (offset : Nat) : Nat := chip.ear.toNat * 2 ^ 24 + offset

/-- The address of an erase or of a page program. -/
def target (chip : Chip) : Command → Option Nat
  | .erase offset => some (chip.full offset)
  | .program offset _ => some (chip.full offset)
  | _ => none

/-- Carry out a command; all but one need the write enable latch, and clear it. -/
def execute (chip : Chip) (command : Command) : Chip :=
  match command with
  | .writeEnable => { chip with writeEnabled := true }
  | .writeExtendedAddress value =>
      if chip.writeEnabled then { chip with ear := value, writeEnabled := false } else chip
  | .erase offset =>
      if chip.writeEnabled then
        { chip with mem := eraseSubsector (chip.full offset) chip.mem, writeEnabled := false }
      else chip
  | .program offset data =>
      if chip.writeEnabled then
        { chip with mem := programPage (chip.full offset) data chip.mem, writeEnabled := false }
      else chip

/-- Carry out what a sequence of bytes makes up. -/
def receive (chip : Chip) (bytes : List Byte) : Chip :=
  match decode bytes with
  | none => chip
  | some command => chip.execute command

def withPending (chip : Chip) (pending : Option (List Byte)) : Chip :=
  { chip with pending := pending }

/-- The chip is released. -/
def release (chip : Chip) : Chip :=
  match chip.pending with
  | none => chip
  | some bytes => (chip.receive bytes).withPending none

end Chip

inductive CallKind where
  | erase
  | program
  deriving DecidableEq, Repr

/-- A call of `sectorErase` or `writePage`: the address, the page that is to be written,
and `MAX_NUM_SECTORS`. -/
structure Call where
  kind : CallKind
  address : Nat
  data : List Byte
  sectors : Nat
  deriving DecidableEq, Repr

/-- Notes of the flasher on what it does. -/
inductive Note where
  | call (call : Call)
  /-- A line of data has been read for a record, and so many bytes of it have been taken. -/
  | line (text : List Char) (taken : Nat)
  /-- `writeBitstreamGuard` has succeeded. -/
  | guardSet
  /-- Erasing and programming of the records begins. -/
  | records
  /-- `clearBitstreamGuard` is called. -/
  | clearIssued
  deriving DecidableEq, Repr

/-- What happens on the bus, with the call that is being executed. -/
inductive Event where
  | note (note : Note)
  | select (slave : Slave) (during : Option Call)
  | shift (bytes : List Byte) (during : Option Call)
  | deselect (during : Option Call)
  deriving DecidableEq, Repr

namespace Event

/-- The call during which the event happens. -/
def during : Event → Option Call
  | .note _ => none
  | .select _ during => during
  | .shift _ during => during
  | .deselect during => during

/-- The event sends an erase or a page program. -/
def sends : Event → Bool
  | .shift (opcode :: _) _ => isWriteOpcode opcode
  | _ => false

/-- The event releases a slave. -/
def releases (slave : Slave) : Event → Bool
  | .select other _ => other != slave
  | .deselect _ => true
  | _ => false

end Event

/-- The notes of a history. -/
def notes : List Event → List Note
  | [] => []
  | .note note :: earlier => note :: notes earlier
  | _ :: earlier => notes earlier

namespace Chip

/-- What an event does to the chip of a slave. -/
def react (slave : Slave) (chip : Chip) (event : Event) : Chip :=
  match event with
  | .note _ => chip
  | .select other _ =>
      if other = slave then chip.withPending (some (chip.pending.getD [])) else chip.release
  | .shift bytes _ => chip.withPending (chip.pending.map (· ++ bytes))
  | .deselect _ => chip.release

/-- The command that an event makes the chip of a slave carry out. -/
def completes (slave : Slave) (chip : Chip) (event : Event) : Option Command :=
  if event.releases slave then chip.pending.bind decode else none

end Chip

namespace Chip

variable {chip : Chip} {x : Nat}

/-- A command changes the memory of its subsector only. -/
theorem execute_mem {command : Command} (misses : ∀ target, chip.target command = some target →
    x / subsectorSize ≠ target / subsectorSize) : (chip.execute command).mem x = chip.mem x := by
  cases command with
  | writeEnable => rfl
  | writeExtendedAddress value =>
      simp only [execute]
      split <;> rfl
  | erase offset =>
      simp only [execute]
      split
      · exact eraseSubsector_other (misses _ rfl) _
      · rfl
  | program offset data =>
      simp only [execute]
      split
      · exact programPage_other (misses _ rfl) data _
      · rfl

theorem release_mem (misses : ∀ command target, chip.pending.bind decode = some command →
    chip.target command = some target → x / subsectorSize ≠ target / subsectorSize) :
    chip.release.mem x = chip.mem x := by
  rw [release]
  cases here : chip.pending with
  | none => rfl
  | some bytes =>
      show (chip.receive bytes).mem x = _
      rw [receive]
      cases decoded : decode bytes with
      | none => rfl
      | some command =>
          refine execute_mem fun target found => misses command target ?_ found
          rw [here]
          exact decoded

/-- An event changes the memory of the subsector of the command it completes only. -/
theorem react_mem {slave : Slave} {event : Event}
    (misses : ∀ command target, chip.completes slave event = some command →
      chip.target command = some target → x / subsectorSize ≠ target / subsectorSize) :
    (chip.react slave event).mem x = chip.mem x := by
  cases event with
  | note note => rfl
  | shift bytes during => rfl
  | select other during =>
      rw [react]
      split
      case isTrue => rfl
      case isFalse different =>
        refine release_mem fun command target decoded => misses command target ?_
        simpa [completes, Event.releases, different] using decoded
  | deselect during =>
      exact release_mem fun command target decoded => misses command target decoded

end Chip

/-- The chips at the start of a run. -/
abbrev Chips := Slave → Chip

/-- The chip of a slave after a history. -/
def Chips.after (start : Chips) (log : List Event) (slave : Slave) : Chip :=
  replay (Chip.react slave) (start slave) log

end OpaeXilinx.Flash
