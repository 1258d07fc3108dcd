import OpaeXilinx.Base.Triple
import OpaeXilinx.Flash.Chip
import OpaeXilinx.Flash.Mcs

/-!
# The flasher

`XSPI_Flasher`, with its test mode off.  What goes over the SPI bus is logged.  How a
transfer ends is up to the controller and the bus: the registers that `finalTransfer`
polls are not part of the model, only what becomes of the bytes it was given.
-/

namespace OpaeXilinx.Flash

open OpaeXilinx.Base

/-- How `finalTransfer` ends: before the slave is selected, with the slave still selected
after some of the bytes, or with the bytes that have been received. -/
inductive Transfer where
  | refused
  | broken (shifted : Nat)
  | done (reply : Nat → Byte)

/-- What is not up to the flasher, for each time it asks. -/
structure Env where
  transfer : Nat → Transfer
  /-- The transmit FIFO is full when writing is to be enabled. -/
  txFull : Nat → Bool
  /-- The transmit FIFO gets empty in time. -/
  txEmpty : Nat → Bool
  /-- Rounds of an erase loop before the run is cut off. -/
  rounds : Nat
  /-- What `recordList.front()` reads from an empty list. -/
  front : Nat

/-- `READ_WRITE_EXTRA_BYTES`, `WRITE_DATA_SIZE` and `BITSTREAM_GUARD_SIZE`. -/
def readWriteExtraBytes : Nat := 4
def writeDataSize : Nat := 128
def bitstreamGuardSize : Nat := 0x1000

/-- `-1` as an `uint32_t`. -/
def noSector : Nat := 0xFFFFFFFF

/-- The globals of the program and the log of the bus. -/
structure Flasher where
  /-- `mMgmtMap` is not null. -/
  mapped : Bool
  writeBuffer : Nat → Byte
  maxNumSectors : Nat
  selectedSector : Nat
  /-- `none` is -1. -/
  flashVendor : Option Byte
  slaveIndex : Slave
  bitstreamStartLoc : Nat
  stream : Stream
  /-- The call of `sectorErase` or `writePage` that is being executed. -/
  during : Option Call
  /-- How often the environment has been asked. -/
  tick : Nat
  log : List Event

abbrev FlashM := EStateM Stop Flasher

def Flasher.note (w : Flasher) (note : Note) : Flasher := { w with log := .note note :: w.log }

def addNote (note : Note) : FlashM Unit := modify (·.note note)

def Flasher.store (w : Flasher) (i : Nat) (value : Byte) : Flasher :=
  { w with writeBuffer := Function.update w.writeBuffer i value }

def setBuffer (i : Nat) (value : Byte) : FlashM Unit := modify (·.store i value)

def clearBuffers : FlashM Unit := modify fun w => { w with writeBuffer := fun _ => 0 }

/-- The page in the buffer. -/
def Flasher.page (w : Flasher) : List Byte :=
  (List.range writeDataSize).map fun i => w.writeBuffer (readWriteExtraBytes + i)

/-- Fill up the page in the buffer, from an index on. -/
def Flasher.fill (w : Flasher) (index : Nat) (bytes : Nat → Byte) : Flasher :=
  { w with writeBuffer := fun i =>
      if readWriteExtraBytes + index ≤ i ∧ i < readWriteExtraBytes + writeDataSize then
        bytes (i - readWriteExtraBytes)
      else w.writeBuffer i }

/-- `if(!...) return ...;`: one failure becomes another. -/
def failing (old new : Stop) (action : FlashM α) : FlashM α := fun w =>
  match action w with
  | .ok value w => .ok value w
  | .error stop w => .error (if stop = old then new else stop) w

/-- An exception of the standard library. -/
def orThrow : Option α → FlashM α
  | none => throw .exception
  | some value => return value

section Functions

variable (env : Env)

def Flasher.asked (w : Flasher) : Flasher := { w with tick := w.tick + 1 }

/-- The next answer of the environment. -/
def ask (answers : Nat → α) : FlashM α := fun w => .ok (answers w.tick) w.asked

/-- The log after the first bytes of a transfer. -/
def Flasher.begun (w : Flasher) (bytes : List Byte) : Flasher :=
  { w with log := .shift bytes w.during :: .select w.slaveIndex w.during :: w.log }

/-- The log after a transfer. -/
def Flasher.transferred (w : Flasher) (bytes : List Byte) : Flasher :=
  { w.begun bytes with log := .deselect w.during :: (w.begun bytes).log }

/-- The first bytes of the buffer. -/
def Flasher.bytes (w : Flasher) (count : Nat) : List Byte := (List.range count).map w.writeBuffer

def finalTransfer (byteCount : Nat) : FlashM (Nat → Byte) := do
  match ← ask env.transfer with
  | .refused => throw .flash
  | .broken shifted =>
      modify fun w => w.begun ((w.bytes byteCount).take shifted)
      throw .flash
  | .done reply =>
      modify fun w => w.transferred (w.bytes byteCount)
      return reply

def waitTxEmpty : FlashM Unit := do
  let empty ← ask env.txEmpty
  throwIf (empty = false) .flash

/-- The loop of `isFlashReady`. -/
def pollFlashReady : Nat → FlashM Unit
  | 0 => throw .flash
  | polls + 1 => do
      setBuffer 0 commandStatusregRead
      let reply ← finalTransfer env 2
      if reply 1 &&& 0x01 = 0 then return else pollFlashReady polls

/-- 30 s, with 5 µs between two polls. -/
def isFlashReady : FlashM Unit := pollFlashReady env 6000000

def writeEnable : FlashM Unit := do
  let full ← ask env.txFull
  throwIf (full = true) .flash
  setBuffer 0 commandWriteEnable
  let _ ← finalTransfer env 1
  waitTxEmpty env

/-- Put the value of a register into the buffer. -/
def setValue (value : Nat) : Nat → FlashM Unit
  | 0 => return
  | 1 => setBuffer 1 (.ofNat 8 value)
  | 2 => do
      setBuffer 1 (.ofNat 8 (value >>> 8))
      setBuffer 2 (.ofNat 8 value)
  | _ => throw .assertion

def writeRegister (commandCode : Byte) (value extraBytes : Nat) : FlashM Unit := do
  isFlashReady env
  writeEnable env
  setBuffer 0 commandCode
  setValue value extraBytes
  let _ ← finalTransfer env (extraBytes + 1)
  waitTxEmpty env

def getSector (address : Nat) : Nat := (address >>> 24) &&& 0xF

def setSector (address : Nat) : FlashM Unit := do
  let w ← get
  throwIf (w.maxNumSectors ≤ getSector address) .flash
  if getSector address = w.selectedSector then return
  else
    writeRegister env commandExtendedAddressRegWrite (getSector address) 1
    modify fun w => { w with selectedSector := getSector address }

/-- The code of a flash's size, in sectors of 16 MB. -/
def sectorsOf (code : Byte) : Option Nat :=
  if code = 0x38 ∨ code = 0x17 ∨ code = 0x18 then some 1
  else if code = 0x39 ∨ code = 0x19 then some 2
  else if code = 0x3A ∨ code = 0x20 then some 4
  else if code = 0x3B ∨ code = 0x21 then some 8
  else if code = 0x3C ∨ code = 0x22 then some 16
  else none

/-- `MICRON_VENDOR_ID` and `MACRONIX_VENDOR_ID`. -/
def micronVendorId : Byte := 0x20
def macronixVendorId : Byte := 0xC2

def getFlashId : FlashM Unit := do
  isFlashReady env
  setBuffer 0 commandIdcodeRead
  let reply ← finalTransfer env 5
  runIf (reply 1 = micronVendorId ∨ reply 1 = macronixVendorId)
    (modify fun w => { w with flashVendor := some (reply 1) })
  match sectorsOf (reply 3) with
  | none => throw .flash
  | some sectors => modify fun w => { w with maxNumSectors := sectors }

/-- A flash that does not answer ends the program. -/
def prepareXSpi : FlashM Unit := do
  modify fun w => { w with selectedSector := noSector }
  failing .flash .exit (getFlashId env)

/-- Put a command with its address into the buffer. -/
def setCommand (command : Byte) (address : Nat) : FlashM Unit := do
  setBuffer 0 command
  setBuffer 1 (.ofNat 8 (address >>> 16))
  setBuffer 2 (.ofNat 8 (address >>> 8))
  setBuffer 3 (.ofNat 8 address)

/-- Note that a call begins. -/
def enter (kind : CallKind) (address : Nat) (data : List Byte) : FlashM Unit :=
  modify fun w =>
    let call : Call := ⟨kind, address, data, w.maxNumSectors⟩
    { w.note (.call call) with during := some call }

/-- Note that the call ends. -/
def leave : FlashM Unit := modify fun w => { w with during := none }

def sectorErase (address : Nat) (eraseCmd : Byte) : FlashM Unit := do
  enter .erase address []
  isFlashReady env
  setSector env address
  writeEnable env
  setCommand eraseCmd address
  let _ ← finalTransfer env 4
  waitTxEmpty env
  leave

/-- The command of a page program: quad, except for one vendor. -/
def Flasher.writeCmd (w : Flasher) : Byte :=
  if w.flashVendor = some macronixVendorId then commandPageProgram else commandQuadWrite

def writePage (address : Nat) : FlashM Unit := do
  let w ← get
  enter .program address w.page
  isFlashReady env
  setSector env address
  writeEnable env
  setCommand w.writeCmd address
  let _ ← finalTransfer env (writeDataSize + readWriteExtraBytes)
  waitTxEmpty env
  leave

/-- `BITSTREAM_GUARD`. -/
def bitstreamGuard : List (BitVec 32) :=
    [0xFFFFFFFF, 0xBB000000, 0x44002211, 0xFFFFFFFF, 0xFFFFFFFF,
  0x665599AA, 0x00000020, 0x00000020, 0x01200230, 0x02000040, 0x00000020, 0x00000020]

/-- A word in memory. -/
def littleEndian (word : BitVec 32) : List Byte :=
  (List.range 4).map fun i => word.extractLsb' (8 * i) 8

/-- The guard, filled up to a page. -/
def guardByte (i : Nat) : Byte := (bitstreamGuard.flatMap littleEndian).getD i 0xFF

def writeBitstreamGuard (address : Nat) : FlashM Unit := do
  sectorErase env address command4KbSubsectorErase
  modify (·.fill 0 guardByte)
  writePage env (u32 (address + writeDataSize))

def clearBitstreamGuard (address : Nat) : FlashM Unit :=
  sectorErase env address command4KbSubsectorErase

/-- Local variables of `programXSpi` for a record. -/
structure Cursor where
  /-- Bytes that are still to come. -/
  index : Nat
  bufferIndex : Nat
  pageIndex : Nat
  prevLine : List Char
  deriving DecidableEq, Repr

/-- Store the bytes of a data field, until the half page is full. -/
def storeBytes : List Char → Nat → FlashM Nat
  | [], bufferIndex => return bufferIndex
  | [digit], bufferIndex => storeByte [digit] bufferIndex
  | high :: low :: data, bufferIndex => do
      let next ← storeByte [high, low] bufferIndex
      if next = writeDataSize then return next else storeBytes data next
where
  storeByte (text : List Char) (bufferIndex : Nat) : FlashM Nat := do
    let value ← orThrow (stoi text)
    setBuffer (readWriteExtraBytes + bufferIndex) (.ofInt 8 value)
    throwIf (writeDataSize < bufferIndex + 1) .assertion
    return bufferIndex + 1

/-- The address of a half page. -/
def ElaRecord.pageAddress (record : ElaRecord) (pageIndex : Nat) : Nat :=
  u32 (record.startAddress + pageIndex * writeDataSize)

/-- What the loop does with a line of data. -/
def programData (record : ElaRecord) (line : List Char) (dataLen : Nat) (c : Cursor) :
    FlashM Cursor := do
  let data ← orThrow (substr line 9 (u32 (dataLen * 2)))
  let bufferIndex ← storeBytes data c.bufferIndex
  addNote (.line line (bufferIndex - c.bufferIndex))
  throwIf (writeDataSize < bufferIndex) .assertion
  if bufferIndex = writeDataSize then
    let _ ← orThrow (address line)
    failing .flash .enxio (writePage env (record.pageAddress c.pageIndex))
    clearBuffers
    return ⟨c.index, 0, c.pageIndex + 1, line⟩
  else return ⟨c.index, bufferIndex, c.pageIndex, line⟩

/-- The body of the loop.  The length of a line is subtracted before its type is known. -/
def programLine (record : ElaRecord) (line : List Char) (c : Cursor) : FlashM Cursor := do
  let dataLen ← orThrow (dataLen line)
  let c := { c with index := u32 (c.index + 2 ^ 32 - dataLen) }
  let recordType ← orThrow (recordType line)
  if recordType ≠ 0 then return c else programData env record line dataLen c

def getline : FlashM (List Char) := fun w =>
  .ok w.stream.getline.1 { w with stream := w.stream.getline.2 }

/-- The loop, with a bound on its rounds. -/
def programLines (record : ElaRecord) : Nat → Cursor → FlashM Cursor
  | 0, _ => throw .cutOff
  | rounds + 1, c =>
      if c.index = 0 then return c
      else do
        let line ← getline
        let c ← programLine env record line c
        programLines record rounds c

/-- The last half page, filled up with 0xFF. -/
def programRest (record : ElaRecord) (c : Cursor) : FlashM Unit := do
  runIf (c.bufferIndex ≠ 0) do
    let _ ← orThrow (address c.prevLine)
    let _ ← orThrow (dataLen c.prevLine)
    modify (·.fill c.bufferIndex fun _ => 0xFF)
    failing .flash .enxio (writePage env (record.pageAddress c.pageIndex))
    clearBuffers

/-- `programXSpi` for a record.  Every round of its loop takes a character or is the last
one. -/
def programRecord (record : ElaRecord) : FlashM Unit := do
  let w ← get
  modify fun w => { w with stream := w.stream.tellg.2 }
  throwIf (record.dataPos ≤ w.stream.tellg.1) .assertion
  modify fun w => { w with stream := w.stream.seekg record.dataPos }
  let c ← programLines env record (w.stream.text.length + 3) ⟨record.dataCount, 0, 0, []⟩
  programRest env record c

/-- Erase the subsectors of a range. -/
def eraseRange : Nat → Nat → Nat → FlashM Unit
  | 0, _, _ => throw .cutOff
  | rounds + 1, j, last => do
      runIf (j < last) do
        failing .flash .einval (sectorErase env j command4KbSubsectorErase)
        eraseRange rounds (u32 (j + 0x1000)) last

def ElaRecord.shifted (shift : Nat) (record : ElaRecord) : ElaRecord :=
  { record with
    startAddress := u32 (record.startAddress + shift)
    endAddress := u32 (record.endAddress + shift) }

def eraseRecords : List ElaRecord → FlashM Unit
  | [] => return
  | record :: rest => do
      eraseRange env env.rounds record.startAddress record.endAddress
      eraseRecords rest

def programRecords : List ElaRecord → FlashM Unit
  | [] => return
  | record :: rest => do
      failing .flash .einval (isFlashReady env)
      clearBuffers
      failing .enxio .einval (programRecord env record)
      programRecords rest

/-- `programXSpi` for a file. -/
def programXSpi (recordList : List ElaRecord) : FlashM Unit := do
  prepareXSpi env
  let w ← get
  runIf (w.bitstreamStartLoc ≠ 0) do
    failing .flash .einval (writeBitstreamGuard env w.bitstreamStartLoc)
    addNote .guardSet
  let shift := if w.bitstreamStartLoc ≠ 0 then bitstreamGuardSize else 0
  addNote .records
  eraseRecords env (recordList.map (.shifted shift))
  programRecords env (recordList.map (.shifted shift))
  runIf (w.bitstreamStartLoc ≠ 0) do
    addNote .clearIssued
    failing .flash .einval (clearBitstreamGuard env w.bitstreamStartLoc)

/-! ## Public operations -/

def xclUpgradeFirmwareXSpi (mcsFile : Option (List Char)) (index : Slave) : FlashM Unit := do
  clearBuffers
  let w ← get
  throwIf (w.mapped = false) .eacces
  modify fun w => { w with slaveIndex := index }
  match mcsFile with
  | none => throw .enoent
  | some text => match Parse.file text with
    | .error stop => throw stop
    | .ok p =>
        let start := (p.recordList.head?.map ElaRecord.startAddress).getD env.front
        modify fun w => { w with stream := p.stream.seekg 0, bitstreamStartLoc := start }
        programXSpi env p.recordList

/-- The state in which a file that has been parsed is programmed. -/
def Flasher.parsed (w : Flasher) (index : Slave) (p : Parse) : Flasher :=
  { w with
    writeBuffer := fun _ => 0
    slaveIndex := index
    stream := p.stream.seekg 0
    bitstreamStartLoc := (p.recordList.head?.map ElaRecord.startAddress).getD env.front }

theorem xclUpgradeFirmwareXSpi_eq {text : List Char} {p : Parse} (parsed : Parse.file text = .ok p)
    {w : Flasher} (mapped : w.mapped = true) (index : Slave) :
    xclUpgradeFirmwareXSpi env (some text) index w =
      programXSpi env p.recordList (w.parsed env index p) := by
  obtain ⟨_, _, _, _, _, _, _, _, _, _, _⟩ := w
  cases mapped
  simp only [xclUpgradeFirmwareXSpi, parsed]
  rfl

def xclUpgradeFirmware2 (file1 file2 : Option (List Char)) : FlashM Unit := do
  xclUpgradeFirmwareXSpi env file1 .first
  clearBuffers
  xclUpgradeFirmwareXSpi env file2 .second

def revertToMFG : FlashM Unit := do
  prepareXSpi env
  modify fun w => { w with bitstreamStartLoc := 0x01002000 }
  failing .flash .einval (writeBitstreamGuard env 0x01002000)

end Functions

end OpaeXilinx.Flash
