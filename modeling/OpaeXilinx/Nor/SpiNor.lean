import Mathlib.Algebra.Group.Nat.Defs
import Mathlib.Data.Nat.Log
import OpaeXilinx.Nor.Asmip2

/-!
# The SPI NOR framework

`spi-nor.c` reads, writes, erases and protects a flash chip through the operations of its
controller, which are those of `altera-asmip2.c`.  The MTD core has checked that a request lies
within the chip and is not empty.
-/

namespace OpaeXilinx.Nor

open OpaeXilinx.Base

/-- `struct spi_nor` with its `struct mtd_info`, and the flags `SNOR_F_*` one by one. -/
structure SpiNor where
  addrWidth : Nat
  pageSize : Nat
  readOpcode : Byte
  programOpcode : Byte
  eraseOpcode : Byte
  useFsr : Bool
  hasSrTb : Bool
  noOpChipErase : Bool
  s3anAddrDefault : Bool
  readyXsrRdy : Bool
  size : Nat
  erasesize : Nat
  page_pos : 0 < pageSize
  erase_pos : 0 < erasesize
  size_lt : size < 2 ^ 32

def spinorOpWren : Byte := 0x06
def spinorOpRdsr : Byte := 0x05
def spinorOpWrsr : Byte := 0x01
def spinorOpWrdi : Byte := 0x04
def spinorOpChipErase : Byte := 0xc7
def spinorOpRdfsr : Byte := 0x70
def spinorOpXrdsr : Byte := 0xd7

/-- `SR_BP2 | SR_BP1 | SR_BP0`. -/
def srBp : Byte := 0x1C

/-- `SR_TB`. -/
def srTb : Byte := 0x20

/-- `SR_SRWD`. -/
def srSrwd : Byte := 0x80

/-- The number of bits that are set. -/
def hweight : Nat → Nat
  | 0 => 0
  | n + 1 => (n + 1) % 2 + hweight ((n + 1) / 2)
decreasing_by omega

/-- The offset of an address in its page, in `spi_nor_write`. -/
def SpiNor.pageOffset (nor : SpiNor) (addr : Nat) : Nat :=
  if hweight nor.pageSize = 1 then addr &&& (nor.pageSize - 1) else addr % nor.pageSize

/-- `spi_nor_s3an_addr_convert`. -/
def spiNorS3anAddrConvert (nor : SpiNor) (addr : Nat) : Nat :=
  let offset := addr % 2 ^ 32 % nor.pageSize
  let page := addr % 2 ^ 32 / nor.pageSize
  (page <<< (if 512 < nor.pageSize then 10 else 9)) % 2 ^ 32 ||| offset

/-- The address that goes to the chip. -/
def SpiNor.address (nor : SpiNor) (addr : Nat) : Nat :=
  if nor.s3anAddrDefault then spiNorS3anAddrConvert nor addr else addr

/-- A region of the flash. -/
structure Region where
  ofs : Nat
  len : Nat
  deriving DecidableEq, Repr

/-- `stm_get_locked_range`. -/
def stmGetLockedRange (nor : SpiNor) (sr : Byte) : Region :=
  if sr &&& srBp = 0 then ⟨0, 0⟩
  else
    let pow := ((sr &&& srBp ^^^ srBp) >>> 2).toNat
    let len := nor.size >>> pow
    if nor.hasSrTb = true ∧ sr &&& srTb ≠ 0 then ⟨0, len⟩ else ⟨nor.size - len, len⟩

/-- `stm_check_lock_status_sr`. -/
def stmCheckLockStatusSr (nor : SpiNor) (ofs len : Nat) (sr : Byte) (locked : Bool) : Bool :=
  if len = 0 then true
  else
    let range := stmGetLockedRange nor sr
    if locked then decide (ofs + len ≤ range.ofs + range.len ∧ range.ofs ≤ ofs)
    else decide (range.ofs + range.len ≤ ofs ∨ ofs + len ≤ range.ofs)

/-- `stm_is_locked_sr`. -/
def stmIsLockedSr (nor : SpiNor) (ofs len : Nat) (sr : Byte) : Bool :=
  stmCheckLockStatusSr nor ofs len sr true

/-- `stm_is_unlocked_sr`. -/
def stmIsUnlockedSr (nor : SpiNor) (ofs len : Nat) (sr : Byte) : Bool :=
  stmCheckLockStatusSr nor ofs len sr false

/-- `order_base_2`. -/
def orderBase2 (n : Nat) : Nat := if n ≤ 1 then 0 else Nat.log2 (n - 1) + 1

/-- The part of `stm_lock` between reading the status register and writing it: what is to be
written, if anything. -/
def stmLockStatus (nor : SpiNor) (ofs len : Nat) (statusOld : Byte) :
    Except Errno (Option Byte) :=
  if stmIsLockedSr nor ofs len statusOld then .ok none
  else
    let canBeBottom := nor.hasSrTb && stmIsLockedSr nor 0 ofs statusOld
    let canBeTop := stmIsLockedSr nor (ofs + len) (nor.size - (ofs + len)) statusOld
    if canBeBottom = false ∧ canBeTop = false then .error .einval
    else
      let lockLen := if canBeTop then nor.size - ofs else ofs + len
      let pow := BitVec.ofNat 8 (Nat.log2 nor.size) - BitVec.ofNat 8 (Nat.log2 lockLen)
      let val := srBp - pow <<< 2
      if val &&& ~~~srBp ≠ 0 then .error .einval
      else if val &&& srBp = 0 then .error .einval
      else
        let statusNew := statusOld &&& ~~~srBp &&& ~~~srTb ||| val ||| srSrwd |||
          (if canBeTop then 0 else srTb)
        if statusNew = statusOld then .ok none
        else if (statusNew &&& srBp).toNat < (statusOld &&& srBp).toNat then .error .einval
        else .ok (some statusNew)

/-- The same part of `stm_unlock`. -/
def stmUnlockStatus (nor : SpiNor) (ofs len : Nat) (statusOld : Byte) :
    Except Errno (Option Byte) :=
  if stmIsUnlockedSr nor ofs len statusOld then .ok none
  else
    let canBeTop := stmIsUnlockedSr nor 0 ofs statusOld
    let canBeBottom := nor.hasSrTb &&
      stmIsUnlockedSr nor (ofs + len) (nor.size - (ofs + len)) statusOld
    if canBeBottom = false ∧ canBeTop = false then .error .einval
    else
      let lockLen := if canBeTop then nor.size - (ofs + len) else ofs
      let pow := BitVec.ofNat 8 (Nat.log2 nor.size) - BitVec.ofNat 8 (orderBase2 lockLen)
      let val : Byte := if lockLen = 0 then 0 else srBp - pow <<< 2
      if val &&& ~~~srBp ≠ 0 then .error .einval
      else
        let statusNew := (statusOld &&& ~~~srBp &&& ~~~srTb ||| val) &&&
          (if lockLen = 0 then ~~~srSrwd else BitVec.allOnes 8) ||| (if canBeTop then 0 else srTb)
        if statusNew = statusOld then .ok none
        else if (statusOld &&& srBp).toNat < (statusNew &&& srBp).toNat then .error .einval
        else .ok (some statusNew)

section Functions

variable (dev : Device) (nor : SpiNor)

/-- What `read_sr` and its like share: one byte of a register. -/
def readRegister (opcode : Byte) : Driver Byte := do
  let val ← alteraAsmip2ReadReg dev opcode 1
  pure (val.headD 0)

/-- `read_sr`. -/
def readSr : Driver Byte := readRegister dev spinorOpRdsr

/-- `read_fsr`. -/
def readFsr : Driver Byte := readRegister dev spinorOpRdfsr

/-- `write_enable`, whose failure its callers ignore. -/
def writeEnable : Driver Unit := do
  let _ ← attempt (alteraAsmip2WriteReg dev spinorOpWren [])
  pure ()

/-- `write_disable`, as its callers use it. -/
def writeDisable : Driver Unit := do
  let _ ← attempt (alteraAsmip2WriteReg dev spinorOpWrdi [])
  pure ()

/-- `write_sr`. -/
def writeSr (val : Byte) : Driver Unit := alteraAsmip2WriteReg dev spinorOpWrsr [val]

/-- `s3an_sr_ready`. -/
def s3anSrReady : Driver Bool := do
  let val ← readRegister dev spinorOpXrdsr
  pure (val.getLsbD 7)

/-- `spi_nor_sr_ready`. -/
def spiNorSrReady : Driver Bool := do
  let sr ← readSr dev
  pure (!sr.getLsbD 0)

/-- `spi_nor_fsr_ready`. -/
def spiNorFsrReady : Driver Bool := do
  let fsr ← readFsr dev
  pure (fsr.getLsbD 7)

/-- `spi_nor_ready`. -/
def spiNorReady : Driver Bool := do
  let sr ← (if nor.readyXsrRdy then s3anSrReady dev else spiNorSrReady dev)
  let fsr ← (if nor.useFsr then spiNorFsrReady dev else pure true)
  pure (sr && fsr)

/-- The loop of `spi_nor_wait_till_ready_with_timeout`, with the rounds until the clock ends it. -/
def waitTillReady : Nat → Driver Unit
  | 0 => do
      let ready ← spiNorReady dev nor
      if ready then pure () else throw .etimedout
  | rounds + 1 => do
      let ready ← spiNorReady dev nor
      if ready then pure () else waitTillReady rounds

/-- `spi_nor_wait_till_ready_with_timeout`. -/
def spiNorWaitTillReady : Driver Unit := do
  let history ← get
  waitTillReady dev nor (dev.patience history)

/-- `spi_nor_lock_and_prep` before a request, and `spi_nor_unlock_and_unprep` after it. -/
def locked {α : Type} (request : Driver α) : Driver α := do
  note (.mutexLock .lock)
  note (.mutexLock .busMutex)
  let ret ← attempt request
  note (.mutexUnlock .busMutex)
  note (.mutexUnlock .lock)
  conclude ret

/-- The address bytes of `spi_nor_erase_sector`. -/
def addrBytes : Nat → Nat → List Byte
  | 0, _ => []
  | width + 1, addr => addrBytes width (addr >>> 8) ++ [BitVec.ofNat 8 addr]

/-- `spi_nor_erase_sector`. -/
def spiNorEraseSector (addr : Nat) : Driver Unit :=
  alteraAsmip2WriteReg dev nor.eraseOpcode (addrBytes nor.addrWidth (nor.address addr))

/-- `erase_chip`, any failure of which is `-EIO` to its caller. -/
def eraseChip : Driver Unit := do
  match ← attempt (alteraAsmip2WriteReg dev spinorOpChipErase []) with
  | .ok _ => pure ()
  | .error _ => throw .eio

/-- `while (len)` of `spi_nor_erase`, with the sectors that are left. -/
def eraseSectors (addr : Nat) : Nat → Driver Unit
  | 0 => pure ()
  | sectors + 1 => do
      writeEnable dev
      spiNorEraseSector dev nor addr
      spiNorWaitTillReady dev nor
      eraseSectors (addr + nor.erasesize) sectors

/-- The whole-chip erase of `spi_nor_erase`. -/
def eraseWhole : Driver Unit := do
  writeEnable dev
  eraseChip dev
  spiNorWaitTillReady dev nor

/-- The part of `spi_nor_erase` under the lock. -/
def eraseLocked (addr len : Nat) : Driver Unit := do
  (if len = nor.size ∧ nor.noOpChipErase = false then eraseWhole dev nor
    else eraseSectors dev nor addr (len / nor.erasesize))
  writeDisable dev

/-- `spi_nor_erase`. -/
def spiNorErase (addr len : Nat) : Driver Unit := do
  throwIf (len % nor.erasesize ≠ 0) .einval
  locked (eraseLocked dev nor addr len)

/-- `while (len)` of `spi_nor_read`: how it ends, and what has been read until then. -/
def readChunks (offset len : Nat) : Driver (Except Errno Unit × List Byte) :=
  if len = 0 then pure (.ok (), [])
  else do
    let data ← alteraAsmip2Read dev nor.readOpcode nor.addrWidth (nor.address offset) len
    if data = [] then pure (.error .eio, [])
    else do
      let (ret, rest) ← readChunks (offset + data.length) (len - data.length)
      pure (ret, data ++ rest)
termination_by len
decreasing_by
  have some : 0 < data.length := List.length_pos_iff.mpr ‹_›
  omega

/-- `spi_nor_read`, with what it puts into the buffer; `*retlen` is the length of that. -/
def spiNorRead (offset len : Nat) : Driver (Except Errno Unit × List Byte) :=
  locked (readChunks dev nor offset len)

theorem SpiNor.pageOffset_lt (addr : Nat) : nor.pageOffset addr < nor.pageSize := by
  rw [SpiNor.pageOffset]
  split
  · exact Nat.lt_of_le_of_lt Nat.and_le_right (Nat.sub_one_lt_of_lt nor.page_pos)
  · exact Nat.mod_lt _ nor.page_pos

/-- `for (i = 0; i < len; )` of `spi_nor_write`: how it ends, and `*retlen`. -/
def writePages (addr : Nat) (buf : List Byte) (i : Nat) : Driver (Except Errno Unit × Nat) :=
  if i < buf.length then do
    let pageRemain := min (nor.pageSize - nor.pageOffset (addr + i)) (buf.length - i)
    writeEnable dev
    let written ← alteraAsmip2Write dev nor.programOpcode nor.addrWidth (nor.address (addr + i))
      ((buf.drop i).take pageRemain)
    match ← attempt (spiNorWaitTillReady dev nor) with
    | .error err => pure (.error err, i)
    | .ok _ =>
      if written = pageRemain then writePages addr buf (i + written)
      else pure (.error .eio, i + written)
  else pure (.ok (), i)
termination_by buf.length - i
decreasing_by
  have inPage := nor.pageOffset_lt (addr + i)
  omega

/-- `spi_nor_write`. -/
def spiNorWrite (addr : Nat) (buf : List Byte) : Driver (Except Errno Unit × Nat) :=
  locked (writePages dev nor addr buf 0)

/-- The part of `stm_lock` and `stm_unlock` that writes the status register. -/
def updateStatus : Option Byte → Driver Unit
  | none => pure ()
  | some statusNew => do
      writeEnable dev
      writeSr dev statusNew
      spiNorWaitTillReady dev nor

/-- `stm_lock`. -/
def stmLock (ofs len : Nat) : Driver Unit := do
  let statusOld ← readSr dev
  let statusNew ← conclude (stmLockStatus nor ofs len statusOld)
  updateStatus dev nor statusNew

/-- `stm_unlock`. -/
def stmUnlock (ofs len : Nat) : Driver Unit := do
  let statusOld ← readSr dev
  let statusNew ← conclude (stmUnlockStatus nor ofs len statusOld)
  updateStatus dev nor statusNew

/-- `stm_is_locked`. -/
def stmIsLocked (ofs len : Nat) : Driver Bool := do
  let status ← readSr dev
  pure (stmIsLockedSr nor ofs len status)

/-- `spi_nor_lock`. -/
def spiNorLock (ofs len : Nat) : Driver Unit := locked (stmLock dev nor ofs len)

/-- `spi_nor_unlock`. -/
def spiNorUnlock (ofs len : Nat) : Driver Unit := locked (stmUnlock dev nor ofs len)

/-- `spi_nor_is_locked`. -/
def spiNorIsLocked (ofs len : Nat) : Driver Bool := locked (stmIsLocked dev nor ofs len)

end Functions

end OpaeXilinx.Nor
