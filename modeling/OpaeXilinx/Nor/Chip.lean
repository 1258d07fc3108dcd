import OpaeXilinx.Base.NorMemory
import OpaeXilinx.Nor.SpiNor

/-!
# NOR flash chips

What a chip behind the controller makes of the accesses of the driver.  A transfer that has been
seen to go out is a command of the chip, which it carries out unless it is busy.  Once the driver
has closed a transfer before it went out, nothing is known of the chip any more.
-/

namespace OpaeXilinx.Nor

open OpaeXilinx.Base

/-- A chip.  `sr` holds the bits of the status register that are kept. -/
structure Chip where
  mem : Nat → Byte
  sr : Byte
  writeEnabled : Bool
  busy : Bool

/-- The number in the block protect bits. -/
def blockProtect (sr : Byte) : Nat := (sr.extractLsb' 2 3).toNat

/-- The protected portion: nothing, then from one sixty-fourth up to the half, then all. -/
def protectedLen (size : Nat) (sr : Byte) : Nat :=
  if blockProtect sr = 0 then 0 else size / 2 ^ (7 - blockProtect sr)

/-- The portion is the lower one. -/
def SpiNor.bottom (nor : SpiNor) (sr : Byte) : Bool := nor.hasSrTb && sr.getLsbD 5

/-- The chip protects a location. -/
def SpiNor.protects (nor : SpiNor) (sr : Byte) (x : Nat) : Bool :=
  if nor.bottom sr then decide (x < protectedLen nor.size sr)
  else decide (nor.size - protectedLen nor.size sr ≤ x ∧ x < nor.size)

inductive Command where
  | writeEnable
  | writeDisable
  | readStatus
  | writeStatus (value : Byte)
  | read (addr : Nat)
  | program (addr : Nat) (data : List Byte)
  | erase (addr : Nat)
  | eraseChip
  deriving DecidableEq, Repr

/-- The number that bytes make up, the highest first. -/
def bigEndian (bytes : List Byte) : Nat :=
  bytes.foldl (fun number byte => number * 256 + byte.toNat) 0

/-- The command that the bytes of a transfer make up, for a chip that is what `struct spi_nor` says;
`none` does not change it. -/
def decode (nor : SpiNor) : List Byte → Option Command
  | [] => none
  | opcode :: bytes =>
    if opcode = spinorOpWren then
      if bytes = [] then some .writeEnable else none
    else if opcode = spinorOpWrdi then
      if bytes = [] then some .writeDisable else none
    else if opcode = spinorOpRdsr then
      if bytes = [] then some .readStatus else none
    else if opcode = spinorOpWrsr then
      match bytes with
      | [value] => some (.writeStatus value)
      | _ => none
    else if opcode = spinorOpChipErase then
      if bytes = [] then some .eraseChip else none
    else if opcode = nor.readOpcode then
      if bytes.length = nor.addrWidth then some (.read (bigEndian bytes)) else none
    else if opcode = nor.eraseOpcode then
      if bytes.length = nor.addrWidth then some (.erase (bigEndian bytes)) else none
    else if opcode = nor.programOpcode then
      if nor.addrWidth ≤ bytes.length then
        some (.program (bigEndian (bytes.take nor.addrWidth)) (bytes.drop nor.addrWidth))
      else none
    else none

namespace Chip

/-- The bits that `WRSR` does not reach are those of `SR_WIP` and `SR_WEL`. -/
def srKept : Byte := 0xFC

/-- Begin an operation that changes what is not protected. -/
def operate (nor : SpiNor) (chip : Chip) (mem : Nat → Byte) : Chip :=
  { chip with
    mem := NorMemory.keeping (nor.protects chip.sr) chip.mem mem
    writeEnabled := false
    busy := true }

/-- Carry out a command; what changes the chip for good needs the write enable latch. -/
def execute (nor : SpiNor) (chip : Chip) : Command → Chip
  | .writeEnable => { chip with writeEnabled := true }
  | .writeDisable => { chip with writeEnabled := false }
  | .readStatus => chip
  | .read _ => chip
  | .writeStatus value =>
    if chip.writeEnabled then
      { chip with sr := value &&& srKept, writeEnabled := false, busy := true }
    else chip
  | .program addr data =>
    if chip.writeEnabled then
      chip.operate nor (NorMemory.programPage (· &&& ·) nor.pageSize addr chip.mem 0 data)
    else chip
  | .erase addr =>
    if chip.writeEnabled then
      chip.operate nor (NorMemory.eraseSector 0xFF nor.erasesize addr chip.mem)
    else chip
  | .eraseChip =>
    if chip.writeEnabled = true ∧ protectedLen nor.size chip.sr = 0 then
      chip.operate nor (NorMemory.erased 0xFF chip.mem 0 nor.size)
    else chip

/-- What becomes of a chip that receives the bytes of a transfer. -/
def receive (nor : SpiNor) (chip : Chip) (bytes : List Byte) : Chip :=
  if chip.busy then chip
  else match decode nor bytes with
    | none => chip
    | some command => chip.execute nor command

/-- The operation of the chip ends, if it does. -/
def settle (chip : Chip) (finished : Bool) : Chip := { chip with busy := chip.busy && !finished }

/-- The status register as it is read: with `SR_WEL` and `SR_WIP`. -/
def status (chip : Chip) : Byte :=
  chip.sr &&& srKept ||| (if chip.writeEnabled then 2 else 0) ||| (if chip.busy then 1 else 0)

/-- The byte number `i` that the chip answers to the bytes of a transfer, where it is known. -/
def answer (nor : SpiNor) (chip : Chip) (bytes : List Byte) (i : Nat) : Option Byte :=
  match decode nor bytes with
  | some .readStatus => some chip.status
  | some (.read addr) => if chip.busy then none else some (chip.mem (addr + i))
  | _ => none

end Chip

/-- A controller with its chip.  `underway` is a transfer that has been started, with the number of
bytes to be read back; `answering` is one that has gone out, with the number of bytes that have
been read. -/
structure Board where
  chip : Chip
  tx : List Byte
  underway : Option (List Byte × Nat)
  answering : Option (List Byte × Nat)

namespace Board

/-- `QSPI_ACTION_SC` is set. -/
def starts (reg : BitVec 32) : Bool := reg.getLsbD 2

/-- The number of bytes to be read back. -/
def readBack (reg : BitVec 32) : Nat := (reg >>> 16).toNat

/-- What an access makes of the board. -/
def react (nor : SpiNor) (finished : Bool) (board : Board) : Event → Option Board
  | .mutexLock _ => some board
  | .mutexUnlock _ => some board
  | .writeb byte => some { board with tx := board.tx ++ [byte] }
  | .writel reg =>
    if starts reg then
      some { board with tx := [], underway := some (board.tx, readBack reg), answering := none }
    else
      match board.underway with
      | none => some { board with answering := none }
      | some _ => none
  | .readl reg =>
    match board.underway with
    | none => some board
    | some (bytes, count) =>
      if arrived count reg then
        some { board with
          chip := (board.chip.settle finished).receive nor bytes
          underway := none
          answering := some (bytes, 0) }
      else some board
  | .readb _ =>
    match board.answering with
    | none => some board
    | some (bytes, i) =>
      some { board with chip := board.chip.settle finished, answering := some (bytes, i + 1) }

/-- The board after a history, as far as it is known.  `finished` says at which points an operation
of the chip ends. -/
def after (nor : SpiNor) (finished : List Event → Bool) (start : Board) :
    List Event → Option Board
  | [] => some start
  | event :: earlier => (after nor finished start earlier).bind fun board =>
      board.react nor (finished earlier) event

end Board

/-- The controller hands on what the chip answers. -/
def Faithful (dev : Device) (nor : SpiNor) (finished : List Event → Bool) (start : Board) : Prop :=
  ∀ history board, Board.after nor finished start history = some board →
    ∀ bytes i, board.answering = some (bytes, i) →
      ∀ value, (board.chip.settle (finished history)).answer nor bytes i = some value →
        dev.data history = value

/-- A controller that hands on what the chip answers, and is always done at once. -/
def promptDevice (nor : SpiNor) (finished : List Event → Bool) (start : Board) : Device where
  fifoCnt := fun history =>
    match (Board.after nor finished start history).bind (·.underway) with
    | some (_, count) => BitVec.ofNat 32 count
    | none => 0
  data := fun history =>
    match Board.after nor finished start history with
    | some board =>
      match board.answering with
      | some (bytes, i) => ((board.chip.settle (finished history)).answer nor bytes i).getD 0
      | none => 0
    | none => 0
  patience := fun _ => 0

theorem promptDevice_faithful (nor : SpiNor) (finished : List Event → Bool) (start : Board) :
    Faithful (promptDevice nor finished start) nor finished start := by
  intro history board here bytes i answering value known
  simp only [promptDevice, here, answering, known, Option.getD_some]

/-- What the theorems need of `struct spi_nor`: it is no chip in the default addressing mode of
Xilinx, its addresses reach all of the flash, and no opcode has two meanings. -/
structure SpiNor.Supported (nor : SpiNor) : Prop where
  plain : nor.s3anAddrDefault = false
  status : nor.readyXsrRdy = false
  /-- `SPI_NOR_MAX_ADDR_WIDTH`. -/
  width : nor.addrWidth ≤ 4
  reaches : nor.size ≤ 2 ^ (8 * nor.addrWidth)
  opcodes : [spinorOpRdfsr, nor.programOpcode, nor.eraseOpcode, nor.readOpcode, spinorOpChipErase,
    spinorOpWrsr, spinorOpRdsr, spinorOpWrdi, spinorOpWren].Nodup

instance (nor : SpiNor) : Decidable nor.Supported :=
  decidable_of_iff
    (nor.s3anAddrDefault = false ∧ nor.readyXsrRdy = false ∧ nor.addrWidth ≤ 4 ∧
      nor.size ≤ 2 ^ (8 * nor.addrWidth) ∧
      [spinorOpRdfsr, nor.programOpcode, nor.eraseOpcode, nor.readOpcode, spinorOpChipErase,
        spinorOpWrsr, spinorOpRdsr, spinorOpWrdi, spinorOpWren].Nodup)
    ⟨fun ⟨plain, status, width, reaches, opcodes⟩ => ⟨plain, status, width, reaches, opcodes⟩,
      fun ⟨plain, status, width, reaches, opcodes⟩ => ⟨plain, status, width, reaches, opcodes⟩⟩

theorem small_size_lt : 1024 < 2 ^ 32 := by
  decide

/-- A small chip. -/
def smallNor : SpiNor where
  addrWidth := 2
  pageSize := 4
  readOpcode := 0x03
  programOpcode := 0x02
  eraseOpcode := 0x20
  useFsr := false
  hasSrTb := true
  noOpChipErase := false
  s3anAddrDefault := false
  readyXsrRdy := false
  size := 1024
  erasesize := 8
  page_pos := Nat.zero_lt_succ 3
  erase_pos := Nat.zero_lt_succ 7
  size_lt := small_size_lt

theorem smallNor_supported : smallNor.Supported := by
  decide

/-- A board on which nothing is going on, with a chip that protects nothing. -/
def calmBoard : Board := ⟨⟨fun _ => 0x5A, 0, false, false⟩, [], none, none⟩

/-- A board on which nothing is going on, with a chip that protects everything. -/
def lockedBoard : Board := ⟨⟨fun _ => 0x5A, 0x1C, false, false⟩, [], none, none⟩

end OpaeXilinx.Nor
