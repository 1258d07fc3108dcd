import OpaeXilinx.Nor.Transfer

/-!
# Commands of the driver

What the chip makes of the transfers of `spi-nor.c`, and what the driver learns from its status
register.
-/

namespace OpaeXilinx.Nor

open OpaeXilinx.Base

theorem offsetBytes_length (width offset : Nat) : (offsetBytes width offset).length = width := by
  induction width with
  | zero => rfl
  | succ width ih => rw [offsetBytes, List.length_cons, ih]

theorem offsetBytes_succ (width addr : Nat) :
    offsetBytes (width + 1) addr = offsetBytes width (addr >>> 8) ++ [BitVec.ofNat 8 addr] := by
  induction width with
  | zero => rfl
  | succ width ih =>
      have shifted : addr >>> (8 * (width + 1)) = (addr >>> 8) >>> (8 * width) := by
        rw [← Nat.shiftRight_add, Nat.mul_succ, Nat.add_comm]
      rw [offsetBytes, ih, offsetBytes, List.cons_append, shifted]

/-- An erase sends an address as the controller does. -/
theorem addrBytes_eq_offsetBytes (width addr : Nat) :
    addrBytes width addr = offsetBytes width addr := by
  induction width generalizing addr with
  | zero => rfl
  | succ width ih => rw [addrBytes, ih, offsetBytes_succ]

theorem bigEndian_append (bytes : List Byte) (byte : Byte) :
    bigEndian (bytes ++ [byte]) = bigEndian bytes * 256 + byte.toNat := by
  simp [bigEndian]

theorem bigEndian_offsetBytes (width addr : Nat) :
    bigEndian (offsetBytes width addr) = addr % 2 ^ (8 * width) := by
  induction width generalizing addr with
  | zero => rw [Nat.mul_zero, Nat.pow_zero, Nat.mod_one]; rfl
  | succ width ih =>
      have byte : (BitVec.ofNat 8 addr).toNat = addr % 2 ^ 8 := BitVec.toNat_ofNat addr 8
      have wider : 2 ^ (8 * (width + 1)) = 2 ^ 8 * 2 ^ (8 * width) := by
        rw [← Nat.pow_add, Nat.add_comm 8, Nat.mul_succ]
      rw [offsetBytes_succ, bigEndian_append, ih, byte, Nat.shiftRight_eq_div_pow, wider,
        Nat.mod_mul, Nat.add_comm, Nat.mul_comm _ 256]
      rfl

variable {nor : SpiNor} {finished : List Event → Bool} {start : Board} {dev : Device}

section Decode

variable {bytes data : List Byte}

theorem decode_writeEnable : decode nor [spinorOpWren] = some .writeEnable := by
  simp [decode]

theorem decode_writeDisable : decode nor [spinorOpWrdi] = some .writeDisable := by
  simp [decode, spinorOpWren, spinorOpWrdi]

theorem decode_readStatus : decode nor [spinorOpRdsr] = some .readStatus := by
  simp [decode, spinorOpWren, spinorOpWrdi, spinorOpRdsr]

theorem decode_writeStatus (value : Byte) :
    decode nor [spinorOpWrsr, value] = some (.writeStatus value) := by
  simp [decode, spinorOpWren, spinorOpWrdi, spinorOpRdsr, spinorOpWrsr]

theorem decode_eraseChip : decode nor [spinorOpChipErase] = some .eraseChip := by
  simp [decode, spinorOpWren, spinorOpWrdi, spinorOpRdsr, spinorOpWrsr, spinorOpChipErase]

variable (supported : nor.Supported)

include supported

theorem decode_readFsr : decode nor [spinorOpRdfsr] = none := by
  have opcodes := supported.opcodes
  simp only [List.nodup_cons, List.mem_cons, not_or] at opcodes
  simp [decode, opcodes]

theorem decode_read (wide : bytes.length = nor.addrWidth) :
    decode nor (nor.readOpcode :: bytes) = some (.read (bigEndian bytes)) := by
  have opcodes := supported.opcodes
  simp only [List.nodup_cons, List.mem_cons, not_or] at opcodes
  simp [decode, opcodes, wide]

theorem decode_erase (wide : bytes.length = nor.addrWidth) :
    decode nor (nor.eraseOpcode :: bytes) = some (.erase (bigEndian bytes)) := by
  have opcodes := supported.opcodes
  simp only [List.nodup_cons, List.mem_cons, not_or] at opcodes
  simp [decode, opcodes, wide]

theorem decode_program (wide : bytes.length = nor.addrWidth) :
    decode nor (nor.programOpcode :: bytes ++ data) = some (.program (bigEndian bytes) data) := by
  have opcodes := supported.opcodes
  simp only [List.nodup_cons, List.mem_cons, not_or] at opcodes
  simp [decode, opcodes, ← wide]

end Decode

/-- Nothing is going on in the controller, and the chip has a property, as far as it is known. -/
abbrev Idle (nor : SpiNor) (finished : List Event → Bool) (start : Board) (P : Chip → Prop) :
    List Event → Prop :=
  Known nor finished start (Ready P)

/-- Nothing is known of the chip any more. -/
abbrev Lost (nor : SpiNor) (finished : List Event → Bool) (start : Board) : List Event → Prop :=
  Known nor finished start fun _ => False

/-- Some time has gone by. -/
def Settled (P : Chip → Prop) (chip : Chip) : Prop :=
  ∃ before, P before ∧ ∃ ended, chip = before.settle ended

section Chips

variable {P Q : Chip → Prop} {chip : Chip} {history : List Event}

theorem Idle.imp (idle : Idle nor finished start P history) (implies : ∀ chip, P chip → Q chip) :
    Idle nor finished start Q history :=
  Known.imp idle fun _ ready => ⟨ready.tx, ready.underway, implies _ ready.chip⟩

theorem Lost.idle (lost : Lost nor finished start history) : Idle nor finished start P history :=
  Known.imp lost fun _ absurd => absurd.elim

@[simp] theorem Chip.settle_false (chip : Chip) : chip.settle false = chip := by
  simp [Chip.settle]

theorem Chip.settle_settle (chip : Chip) (first second : Bool) :
    (chip.settle first).settle second = chip.settle (first || second) := by
  simp [Chip.settle, Bool.and_assoc]

theorem Chip.settle_of_calm (calm : chip.busy = false) (ended : Bool) :
    chip.settle ended = chip := by
  cases chip
  simp_all [Chip.settle]

theorem Chip.receive_of_calm (calm : chip.busy = false) {bytes : List Byte} {command : Command}
    (meaning : decode nor bytes = some command) :
    chip.receive nor bytes = chip.execute nor command := by
  simp [Chip.receive, calm, meaning]

/-- What does not change a chip leaves it as it is. -/
theorem Chip.receive_of_none {bytes : List Byte} (meaning : decode nor bytes = none) :
    chip.receive nor bytes = chip := by
  simp [Chip.receive, meaning]

theorem Chip.receive_readStatus : chip.receive nor [spinorOpRdsr] = chip := by
  simp [Chip.receive, decode_readStatus, Chip.execute]

theorem Chip.busy_eq_status (chip : Chip) : chip.status.getLsbD 0 = chip.busy := by
  cases chip with
  | mk mem sr writeEnabled busy =>
      cases writeEnabled <;> cases busy <;> simp [Chip.status, Chip.srKept]

theorem Settled.of (holds : P chip) : Settled P chip :=
  ⟨chip, holds, false, chip.settle_false.symm⟩

theorem Settled.again (settled : Settled (Settled P) chip) : Settled P chip := by
  obtain ⟨_, ⟨before, holds, first, rfl⟩, second, rfl⟩ := settled
  exact ⟨before, holds, first || second, before.settle_settle first second⟩

end Chips

section Operations

variable {P : Chip → Prop} {fail : Errno → List Event → Prop}

theorem alteraAsmip2WriteReg_spec (faithful : Faithful dev nor finished start) (opcode : Byte)
    {val : List Byte} (short : val.length < qspiFifoDepth) :
    Triple (Idle nor finished start P) (alteraAsmip2WriteReg dev opcode val)
      (fun _ => Idle nor finished start (Received nor (opcode :: val) P))
      (fun _ => Lost nor finished start) := by
  apply Triple.bind (fun _ => Idle nor finished start P)
  · apply Triple.throwIf
    · exact fun long => absurd short (Nat.not_lt.mpr (Nat.le_of_lt_succ long))
    · exact fun _ _ idle => idle
  · intro _
    apply Triple.bind _ (transfer_spec faithful (by decide) (by decide))
    intro values
    apply Triple.pure
    intro history ⟨empty, known⟩
    rw [List.length_eq_zero_iff.mp empty] at known
    apply Idle.imp known
    rintro chip ⟨before, received, rfl⟩
    exact received

/-- The write enable latch is set, if the chip is still known. -/
theorem writeEnable_spec (faithful : Faithful dev nor finished start) :
    Triple (Idle nor finished start P) (writeEnable dev)
      (fun _ => Idle nor finished start (Received nor [spinorOpWren] P)) fail := by
  apply Triple.attempt_bind (alteraAsmip2WriteReg_spec faithful spinorOpWren (by decide))
  · exact fun _ => Triple.pure fun _ idle => idle
  · exact fun _ => Triple.pure fun _ lost => lost.idle

theorem writeDisable_spec (faithful : Faithful dev nor finished start) :
    Triple (Idle nor finished start P) (writeDisable dev)
      (fun _ => Idle nor finished start (Received nor [spinorOpWrdi] P)) fail := by
  apply Triple.attempt_bind (alteraAsmip2WriteReg_spec faithful spinorOpWrdi (by decide))
  · exact fun _ => Triple.pure fun _ idle => idle
  · exact fun _ => Triple.pure fun _ lost => lost.idle

theorem readRegister_spec (faithful : Faithful dev nor finished start) (opcode : Byte) :
    Triple (Idle nor finished start P) (readRegister dev opcode)
      (fun value => Idle nor finished start fun chip => ∃ before, Received nor [opcode] P before ∧
        Reads nor [opcode] 0 [value] before chip)
      (fun _ => Lost nor finished start) := by
  apply Triple.bind (fun values history => values.length = 1 ∧
    Idle nor finished start (fun chip => ∃ before, Received nor [opcode] P before ∧
      Reads nor [opcode] 0 values before chip) history)
  · apply Triple.bind (fun _ => Idle nor finished start P)
    · apply Triple.throwIf
      · exact fun long => absurd long (by decide)
      · exact fun _ _ idle => idle
    · exact fun _ => transfer_spec faithful (by decide) (by decide)
  · intro values
    apply Triple.pure
    intro history ⟨one, idle⟩
    cases values with
    | nil => cases one
    | cons value rest =>
        rw [List.length_eq_zero_iff.mp (Nat.succ.inj one)] at idle
        exact idle

/-- The status register is that of the chip at the end. -/
theorem readSr_spec (faithful : Faithful dev nor finished start) :
    Triple (Idle nor finished start P) (readSr dev)
      (fun value => Idle nor finished start fun chip => Settled P chip ∧ value = chip.status)
      (fun _ => Lost nor finished start) := by
  apply (readRegister_spec faithful spinorOpRdsr).consequence (fun _ idle => idle)
  · intro value history idle
    apply Idle.imp idle
    rintro _ ⟨_, ⟨before, holds, first, rfl⟩, second, told, rfl⟩
    rw [Chip.receive_readStatus] at told ⊢
    constructor
    · exact ⟨before, holds, first || second, before.settle_settle first second⟩
    · apply told
      rw [Chip.answer, decode_readStatus]
  · exact fun _ _ lost => lost

/-- A register that has no part in the state of the chip. -/
theorem readRegister_other_spec (faithful : Faithful dev nor finished start) {opcode : Byte}
    (meaning : decode nor [opcode] = none) :
    Triple (Idle nor finished start P) (readRegister dev opcode)
      (fun _ => Idle nor finished start (Settled P)) (fun _ => Lost nor finished start) := by
  apply (readRegister_spec faithful opcode).consequence (fun _ idle => idle)
  · intro value history idle
    apply Idle.imp idle
    rintro _ ⟨_, ⟨before, holds, first, rfl⟩, second, _, rfl⟩
    rw [Chip.receive_of_none meaning]
    exact ⟨before, holds, first || second, before.settle_settle first second⟩
  · exact fun _ _ lost => lost

/-- A chip that is said to be ready is. -/
theorem spiNorReady_spec (faithful : Faithful dev nor finished start) (supported : nor.Supported) :
    Triple (Idle nor finished start (Settled P)) (spiNorReady dev nor)
      (fun ready => Idle nor finished start fun chip =>
        Settled P chip ∧ (ready = true → chip.busy = false))
      (fun _ => Lost nor finished start) := by
  apply Triple.bind (fun sr => Idle nor finished start fun chip =>
    Settled P chip ∧ (sr = true → chip.busy = false))
  · rw [if_neg (by rw [supported.status]; decide)]
    apply Triple.bind _ (readSr_spec faithful)
    intro value
    apply Triple.pure
    intro history idle
    apply Idle.imp idle
    rintro chip ⟨settled, rfl⟩
    rw [chip.busy_eq_status]
    exact ⟨settled.again, by simp⟩
  · intro sr
    apply Triple.bind (fun _ => Idle nor finished start fun chip =>
      Settled P chip ∧ (sr = true → chip.busy = false))
    · apply Triple.ite
      · intro _
        apply Triple.bind _ (readRegister_other_spec faithful (decode_readFsr supported))
        intro value
        apply Triple.pure
        intro history idle
        apply Idle.imp idle
        rintro _ ⟨before, ⟨settled, calm⟩, ended, rfl⟩
        constructor
        · exact Settled.again ⟨before, settled, ended, rfl⟩
        · intro ready
          simp [Chip.settle, calm ready]
      · exact fun _ => Triple.pure fun _ idle => idle
    · intro fsr
      apply Triple.pure
      intro history idle
      apply Idle.imp idle
      intro chip ⟨settled, calm⟩
      exact ⟨settled, fun ready => calm (Bool.and_eq_true_iff.mp ready).1⟩

theorem waitTillReady_spec (faithful : Faithful dev nor finished start)
    (supported : nor.Supported) (rounds : Nat) :
    Triple (Idle nor finished start (Settled P)) (waitTillReady dev nor rounds)
      (fun _ => Idle nor finished start fun chip => Settled P chip ∧ chip.busy = false)
      (fun _ => Idle nor finished start (Settled P)) := by
  have looked : Triple (Idle nor finished start (Settled P)) (spiNorReady dev nor)
      (fun ready => Idle nor finished start fun chip =>
        Settled P chip ∧ (ready = true → chip.busy = false))
      (fun _ => Idle nor finished start (Settled P)) :=
    (spiNorReady_spec faithful supported).consequence (fun _ idle => idle)
      (fun _ _ idle => idle) fun _ _ lost => lost.idle
  induction rounds with
  | zero =>
      apply Triple.bind _ looked
      intro ready
      apply Triple.ite
      · exact fun done => Triple.pure fun _ idle => idle.imp fun _ here => ⟨here.1, here.2 done⟩
      · exact fun _ => Triple.throw fun _ idle => idle.imp fun _ here => here.1
  | succ rounds ih =>
      apply Triple.bind _ looked
      intro ready
      apply Triple.ite
      · exact fun done => Triple.pure fun _ idle => idle.imp fun _ here => ⟨here.1, here.2 done⟩
      · intro _
        exact ih.consequence (fun _ idle => idle.imp fun _ here => here.1) (fun _ _ idle => idle)
          fun _ _ idle => idle

/-- The operation of the chip is over if the driver has not lost patience. -/
theorem spiNorWaitTillReady_spec (faithful : Faithful dev nor finished start)
    (supported : nor.Supported) :
    Triple (Idle nor finished start P) (spiNorWaitTillReady dev nor)
      (fun _ => Idle nor finished start fun chip => Settled P chip ∧ chip.busy = false)
      (fun _ => Idle nor finished start (Settled P)) := by
  apply Triple.get_bind
  intro history idle
  exact (waitTillReady_spec faithful supported _).consequence
    (fun _ same => same ▸ idle.imp fun _ => Settled.of) (fun _ _ idle => idle)
    fun _ _ idle => idle

theorem alteraAsmip2Write_spec (faithful : Faithful dev nor finished start) (opcode : Byte)
    (addrWidth offset : Nat) (buf : List Byte) :
    Triple (Idle nor finished start P) (alteraAsmip2Write dev opcode addrWidth offset buf)
      (fun written history => written ≤ buf.length ∧
        Idle nor finished start
          (Received nor (opcode :: offsetBytes addrWidth offset ++ buf.take written) P) history)
      fail := by
  apply Triple.attempt_bind (transfer_spec faithful (by decide) (by decide))
  · intro values
    apply Triple.pure
    intro history ⟨empty, idle⟩
    rw [List.length_eq_zero_iff.mp empty] at idle
    constructor
    · exact Nat.min_le_left ..
    · apply Idle.imp idle
      rintro _ ⟨before, received, rfl⟩
      exact received
  · exact fun _ => Triple.pure fun _ lost => ⟨Nat.zero_le _, Lost.idle lost⟩

theorem alteraAsmip2Read_spec (faithful : Faithful dev nor finished start) (opcode : Byte)
    (addrWidth offset len : Nat) :
    Triple (Idle nor finished start P) (alteraAsmip2Read dev opcode addrWidth offset len)
      (fun data history => data.length ≤ len ∧
        Idle nor finished start (fun chip =>
          ∃ before, Received nor (opcode :: offsetBytes addrWidth offset) P before ∧
            Reads nor (opcode :: offsetBytes addrWidth offset) 0 data before chip) history)
      fail := by
  have fits : min len qspiFifoDepth < 65536 :=
    Nat.lt_of_le_of_lt (Nat.min_le_right ..) (by decide)
  apply Triple.attempt_bind (transfer_spec faithful (by decide) fits)
  · intro data
    apply Triple.pure
    intro history ⟨many, idle⟩
    constructor
    · exact many ▸ Nat.min_le_left ..
    · exact idle
  · exact fun _ => Triple.pure fun _ lost => ⟨Nat.zero_le _, Lost.idle lost⟩

/-- What is noted of the mutexes has no part in the state of the board. -/
theorem locked_spec {α : Type} {request : Driver α} {Q : Board → Prop} {ok : α → Board → Prop}
    {error : Errno → Board → Prop}
    (spec : Triple (Known nor finished start Q) request
      (fun value => Known nor finished start (ok value))
      (fun err => Known nor finished start (error err))) :
    Triple (Known nor finished start Q) (locked request)
      (fun value => Known nor finished start (ok value))
      (fun err => Known nor finished start (error err)) := by
  have lock : ∀ (mutex : Mutex) (R : Board → Prop),
      Triple (Known nor finished start R) (note (.mutexLock mutex))
        (fun _ => Known nor finished start R)
        (fun err => Known nor finished start (error err)) := by
    intro mutex R
    apply Known.note
    rintro ended board _ holds ⟨⟩
    exact holds
  have unlock : ∀ (mutex : Mutex) (R : Board → Prop),
      Triple (Known nor finished start R) (note (.mutexUnlock mutex))
        (fun _ => Known nor finished start R)
        (fun err => Known nor finished start (error err)) := by
    intro mutex R
    apply Known.note
    rintro ended board _ holds ⟨⟩
    exact holds
  apply Triple.bind _ (lock .lock Q)
  intro _
  apply Triple.bind _ (lock .busMutex Q)
  intro _
  apply Triple.attempt_bind spec
  · intro value
    apply Triple.bind _ (unlock .busMutex (ok value))
    intro _
    apply Triple.bind _ (unlock .lock (ok value))
    intro _
    exact Triple.pure fun _ known => known
  · intro err
    apply Triple.bind _ (unlock .busMutex (error err))
    intro _
    apply Triple.bind _ (unlock .lock (error err))
    intro _
    exact Triple.throw fun _ known => known

end Operations

end OpaeXilinx.Nor
