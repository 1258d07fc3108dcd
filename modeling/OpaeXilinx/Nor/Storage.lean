import OpaeXilinx.Nor.Commands

/-!
# Reading, writing and erasing

What the requests of the framework make of the memory of a chip, with where they stop if they fail.
A transfer that is closed before it has arrived, as its timeout leaves it, may leave its bytes in the
FIFO: nothing is known about the board from there on, whatever the requests answer.
-/

namespace OpaeXilinx.Nor

open OpaeXilinx.Base
open OpaeXilinx.Base.NorMemory (programmed erased contents)

theorem hweight_succ (n : Nat) : hweight (n + 1) = (n + 1) % 2 + hweight ((n + 1) / 2) := by
  rw [hweight]

theorem hweight_eq_zero {n : Nat} (empty : hweight n = 0) : n = 0 := by
  induction n using Nat.strong_induction_on with
  | h n ih =>
      cases n with
      | zero => rfl
      | succ n =>
          rw [hweight_succ] at empty
          have half := ih ((n + 1) / 2) (by omega) (by omega)
          omega

/-- A number with a single bit is a power of two. -/
theorem hweight_eq_one {n : Nat} (single : hweight n = 1) : ∃ exponent, n = 2 ^ exponent := by
  induction n using Nat.strong_induction_on with
  | h n ih =>
      cases n with
      | zero => exact absurd single (by rw [hweight]; decide)
      | succ n =>
          rw [hweight_succ] at single
          by_cases odd : (n + 1) % 2 = 1
          · have half := hweight_eq_zero (n := (n + 1) / 2) (by omega)
            exact ⟨0, by omega⟩
          · obtain ⟨exponent, half⟩ := ih ((n + 1) / 2) (by omega) (by omega)
            exact ⟨exponent + 1, by rw [Nat.pow_succ]; omega⟩

/-- The quick calculation of the offset agrees with the slow one. -/
theorem SpiNor.pageOffset_eq (nor : SpiNor) (addr : Nat) :
    nor.pageOffset addr = addr % nor.pageSize := by
  rw [SpiNor.pageOffset]
  split
  case isTrue single =>
    obtain ⟨exponent, size⟩ := hweight_eq_one single
    rw [size, Nat.and_two_pow_sub_one_eq_mod]
  case isFalse => rfl

/-- The memory and the status register of a chip. -/
structure Stored (mem : Nat → Byte) (sr : Byte) (chip : Chip) : Prop where
  mem : chip.mem = mem
  sr : chip.sr = sr

/-- The chip is not busy either. -/
structure Quiet (mem : Nat → Byte) (sr : Byte) (chip : Chip) : Prop extends Stored mem sr chip where
  calm : chip.busy = false

variable {nor : SpiNor} {finished : List Event → Bool} {start : Board} {dev : Device}
  {mem : Nat → Byte} {sr : Byte} {chip : Chip} {fail : Errno → List Event → Prop}

theorem calmBoard_idle : Idle nor finished calmBoard (Quiet (fun _ => 0x5A) 0) [] := by
  constructor
  intro board here
  cases here
  exact ⟨rfl, rfl, ⟨rfl, rfl⟩, rfl⟩

theorem lockedBoard_idle : Idle nor finished lockedBoard (Quiet (fun _ => 0x5A) 0x1C) [] := by
  constructor
  intro board here
  cases here
  exact ⟨rfl, rfl, ⟨rfl, rfl⟩, rfl⟩

theorem Stored.of_settled (settled : Settled (Stored mem sr) chip) : Stored mem sr chip := by
  obtain ⟨before, stored, ended, rfl⟩ := settled
  exact ⟨stored.mem, stored.sr⟩

theorem Quiet.of_settled (settled : Settled (Quiet mem sr) chip) : Quiet mem sr chip := by
  obtain ⟨before, quiet, ended, rfl⟩ := settled
  rwa [Chip.settle_of_calm quiet.calm]

/-- What a chip at rest makes of a command. -/
theorem Received.execute {P : Chip → Prop} {bytes : List Byte} {command : Command}
    (received : Received nor bytes P chip) (calm : ∀ before, P before → before.busy = false)
    (meaning : decode nor bytes = some command) :
    ∃ before, P before ∧ chip = before.execute nor command := by
  obtain ⟨before, holds, ended, rfl⟩ := received
  rw [Chip.settle_of_calm (calm before holds), Chip.receive_of_calm (calm before holds) meaning]
  exact ⟨before, holds, rfl⟩

/-- The chip is at rest and may be changed. -/
structure Enabled (mem : Nat → Byte) (sr : Byte) (chip : Chip) : Prop
    extends Quiet mem sr chip where
  latch : chip.writeEnabled = true

theorem writeEnable_quiet (faithful : Faithful dev nor finished start) :
    Triple (Idle nor finished start (Quiet mem sr)) (writeEnable dev)
      (fun _ => Idle nor finished start (Enabled mem sr)) fail := by
  apply (writeEnable_spec faithful).consequence (fun _ idle => idle)
  · intro _ history idle
    apply Idle.imp idle
    intro chip received
    obtain ⟨before, quiet, rfl⟩ := received.execute (fun _ quiet => quiet.calm) decode_writeEnable
    exact ⟨⟨⟨quiet.mem, quiet.sr⟩, quiet.calm⟩, rfl⟩
  · exact fun _ _ failed => failed

theorem writeDisable_quiet (faithful : Faithful dev nor finished start) :
    Triple (Idle nor finished start (Quiet mem sr)) (writeDisable dev)
      (fun _ => Idle nor finished start (Quiet mem sr)) fail := by
  apply (writeDisable_spec faithful).consequence (fun _ idle => idle)
  · intro _ history idle
    apply Idle.imp idle
    intro chip received
    obtain ⟨before, quiet, rfl⟩ := received.execute (fun _ quiet => quiet.calm) decode_writeDisable
    exact ⟨⟨quiet.mem, quiet.sr⟩, quiet.calm⟩
  · exact fun _ _ failed => failed

/-- A chip that has been waited for is at rest. -/
theorem spiNorWaitTillReady_quiet (faithful : Faithful dev nor finished start)
    (supported : nor.Supported) :
    Triple (Idle nor finished start (Stored mem sr)) (spiNorWaitTillReady dev nor)
      (fun _ => Idle nor finished start (Quiet mem sr))
      (fun _ => Idle nor finished start (Stored mem sr)) := by
  apply (spiNorWaitTillReady_spec faithful supported).consequence (fun _ idle => idle)
  · exact fun _ _ idle => idle.imp fun _ here => ⟨Stored.of_settled here.1, here.2⟩
  · exact fun _ _ idle => idle.imp fun _ => Stored.of_settled

theorem address_of_supported (supported : nor.Supported) (addr : Nat) : nor.address addr = addr :=
  if_neg (by rw [supported.plain]; decide)

theorem bigEndian_of_supported (supported : nor.Supported) {addr : Nat} (inside : addr < nor.size) :
    bigEndian (offsetBytes nor.addrWidth addr) = addr := by
  rw [bigEndian_offsetBytes, Nat.mod_eq_of_lt (Nat.lt_of_lt_of_le inside supported.reaches)]

/-- Nothing of an interval is protected. -/
def SpiNor.Free (nor : SpiNor) (sr : Byte) (start len : Nat) : Prop :=
  ∀ x, start ≤ x → x < start + len → nor.protects sr x = false

theorem free_of_unprotected (none : blockProtect sr = 0) (start len : Nat) :
    nor.Free sr start len := by
  intro x _ _
  have empty : protectedLen nor.size sr = 0 := if_pos none
  rw [SpiNor.protects, empty]
  split <;> simp

/-- A page program of data that stay in their page. -/
theorem Enabled.program {addr : Nat} {data : List Byte} (enabled : Enabled mem sr chip)
    (fits : addr % nor.pageSize + data.length ≤ nor.pageSize)
    (free : nor.Free sr addr data.length) :
    Stored (programmed (· &&& ·) mem addr data) sr (chip.execute nor (.program addr data)) := by
  rw [Chip.execute, if_pos enabled.latch, NorMemory.programPage_eq_programmed fits, enabled.mem,
    Nat.add_zero]
  constructor
  · show NorMemory.keeping _ chip.mem _ = _
    rw [enabled.mem, enabled.sr]
    apply NorMemory.keeping_eq
    intro x kept
    apply (NorMemory.programmed_outside _).symm
    apply Decidable.byContradiction
    intro inside
    have unprotected := free x (by omega) (by omega)
    rw [unprotected] at kept
    cases kept
  · exact enabled.sr

/-- How far a write has come: everything that is counted is programmed, and at most a page more. -/
structure Written (nor : SpiNor) (mem : Nat → Byte) (sr : Byte) (addr : Nat) (buf : List Byte)
    (ret : Except Errno Unit) (retlen : Nat) (chip : Chip) : Prop where
  sr : chip.sr = sr
  mem : ∃ count, retlen ≤ count ∧ count ≤ retlen + nor.pageSize ∧ count ≤ buf.length ∧
    chip.mem = programmed (· &&& ·) mem addr (buf.take count)
  done : ret = .ok () → retlen = buf.length ∧ chip.busy = false

theorem sendPage_spec (faithful : Faithful dev nor finished start) (supported : nor.Supported)
    {addr : Nat} {data : List Byte} (inside : addr < nor.size)
    (fits : addr % nor.pageSize + data.length ≤ nor.pageSize)
    (free : nor.Free sr addr data.length) :
    Triple (Idle nor finished start (Enabled mem sr))
      (alteraAsmip2Write dev nor.programOpcode nor.addrWidth (nor.address addr) data)
      (fun written history => written ≤ data.length ∧
        Idle nor finished start (Stored (programmed (· &&& ·) mem addr (data.take written)) sr)
          history) fail := by
  rw [address_of_supported supported]
  apply (alteraAsmip2Write_spec faithful _ _ _ _).consequence (fun _ idle => idle)
  · intro written history ⟨short, idle⟩
    constructor
    · exact short
    · apply Idle.imp idle
      intro chip received
      obtain ⟨before, enabled, rfl⟩ := received.execute (fun _ enabled => enabled.calm)
        (decode_program supported (offsetBytes_length _ _))
      rw [bigEndian_of_supported supported inside]
      have fewer : (data.take written).length ≤ data.length := List.length_take_le' _ _
      apply enabled.program
      · exact Nat.le_trans (Nat.add_le_add_left fewer _) fits
      · exact fun x low high => free x low (Nat.lt_of_lt_of_le high (Nat.add_le_add_left fewer _))
  · exact fun _ _ failed => failed

/-- What is programmed after a piece that follows what has been programmed. -/
theorem programmed_piece {addr i remain written : Nat} {buf : List Byte} (inside : i ≤ buf.length)
    (part : written ≤ remain) :
    programmed (· &&& ·) (programmed (· &&& ·) mem addr (buf.take i)) (addr + i)
        (((buf.drop i).take remain).take written) =
      programmed (· &&& ·) mem addr (buf.take (i + written)) := by
  have taken : (buf.take i).length = i := List.length_take_of_le inside
  rw [List.take_take, Nat.min_eq_left part, List.take_add, NorMemory.programmed_append, taken]

theorem writePages_spec (faithful : Faithful dev nor finished start) (supported : nor.Supported)
    (mem : Nat → Byte) {addr : Nat} {buf : List Byte} (range : addr + buf.length ≤ nor.size)
    (free : nor.Free sr addr buf.length) (left i : Nat) (rest : i + left = buf.length) :
    Triple
      (Idle nor finished start (Quiet (programmed (· &&& ·) mem addr (buf.take i)) sr))
      (writePages dev nor addr buf i)
      (fun out => Idle nor finished start (Written nor mem sr addr buf out.1 out.2)) fail := by
  induction left using Nat.strong_induction_on generalizing i with
  | h left ih =>
      rw [writePages]
      apply Triple.ite
      · intro more
        have offset := nor.pageOffset_eq (addr + i)
        have inPage := nor.pageOffset_lt (addr + i)
        generalize remain : min (nor.pageSize - nor.pageOffset (addr + i)) (buf.length - i)
          = pageRemain
        have piece : ((buf.drop i).take pageRemain).length = pageRemain := by
          rw [List.length_take, List.length_drop]
          omega
        apply Triple.bind _ (writeEnable_quiet faithful)
        intro _
        apply Triple.bind _ (sendPage_spec faithful supported (by omega) (by omega)
          fun x low high => free x (by omega) (by omega))
        intro written
        apply Triple.of_fact
        intro part
        rw [piece] at part
        rw [programmed_piece (by omega) part]
        apply Triple.attempt_bind (spiNorWaitTillReady_quiet faithful supported)
        · intro _
          apply Triple.ite
          · intro whole
            exact ih (left - written) (by omega) (i + written) (by omega)
          · intro _
            apply Triple.pure
            intro history idle
            apply Idle.imp idle
            intro chip quiet
            exact ⟨quiet.sr, ⟨i + written, Nat.le_refl _, by omega, by omega, quiet.mem⟩,
              fun same => by cases same⟩
        · intro err
          apply Triple.pure
          intro history idle
          apply Idle.imp idle
          intro chip stored
          exact ⟨stored.sr, ⟨i + written, by omega, by omega, by omega, stored.mem⟩,
            fun same => by cases same⟩
      · intro finish
        apply Triple.pure
        intro history idle
        apply Idle.imp idle
        intro chip quiet
        have all : i = buf.length := by omega
        exact ⟨quiet.sr, ⟨i, Nat.le_refl i, by omega, by omega, quiet.mem⟩,
          fun _ => ⟨all, quiet.calm⟩⟩

/-- The bytes that a chip at rest answers to a read command are those of its memory. -/
theorem Reads.contents {bytes values : List Byte} {addr i : Nat} {before : Chip}
    (reads : Reads nor bytes i values before chip) (quiet : Quiet mem sr before)
    (meaning : decode nor bytes = some (.read addr)) :
    chip = before ∧ values = NorMemory.contents mem (addr + i) values.length := by
  induction values generalizing i before with
  | nil => exact ⟨reads, rfl⟩
  | cons value values ih =>
      obtain ⟨ended, told, later⟩ := reads
      rw [Chip.settle_of_calm quiet.calm] at told later
      have here : value = mem (addr + i) := by
        apply told
        rw [Chip.answer, meaning, ← quiet.mem]
        simp only [quiet.calm, Bool.false_eq_true, if_false]
      obtain ⟨same, others⟩ := ih later quiet
      constructor
      · exact same
      · rw [List.length_cons, NorMemory.contents_succ, ← here, Nat.add_assoc, ← others]

theorem alteraAsmip2Read_quiet (faithful : Faithful dev nor finished start)
    (supported : nor.Supported) {P : Chip → Prop} (quiet : ∀ chip, P chip → Quiet mem sr chip)
    {offset : Nat} (len : Nat) (inside : offset < nor.size) :
    Triple (Idle nor finished start P)
      (alteraAsmip2Read dev nor.readOpcode nor.addrWidth (nor.address offset) len)
      (fun data history => data.length ≤ len ∧ Idle nor finished start (fun chip => P chip ∧
        data = contents mem offset data.length) history) fail := by
  rw [address_of_supported supported]
  apply (alteraAsmip2Read_spec faithful _ _ _ _).consequence (fun _ idle => idle)
  · intro data history ⟨short, idle⟩
    constructor
    · exact short
    · apply Idle.imp idle
      intro chip ⟨middle, received, reads⟩
      have meaning := decode_read supported (offsetBytes_length nor.addrWidth offset)
      rw [bigEndian_of_supported supported inside] at meaning
      obtain ⟨before, holds, rfl⟩ := received.execute (fun _ holds => (quiet _ holds).calm) meaning
      obtain ⟨rfl, same⟩ := reads.contents (quiet _ holds) meaning
      exact ⟨holds, same⟩
  · exact fun _ _ failed => failed

/-- What has been read when a request ends. -/
structure Fetched (mem : Nat → Byte) (offset len : Nat) (ret : Except Errno Unit)
    (buf : List Byte) : Prop where
  short : buf.length ≤ len
  same : buf = contents mem offset buf.length
  done : ret = .ok () → buf.length = len

/-- What has been read before the rest of a request. -/
theorem Fetched.append {offset len : Nat} {ret : Except Errno Unit} {data rest : List Byte}
    (first : data = contents mem offset data.length) (short : data.length ≤ len)
    (fetched : Fetched mem (offset + data.length) (len - data.length) ret rest) :
    Fetched mem offset len ret (data ++ rest) := by
  have shorter := fetched.short
  constructor
  · rw [List.length_append]
    omega
  · rw [List.length_append, NorMemory.contents_add, ← first, ← fetched.same]
  · intro same
    rw [List.length_append, fetched.done same]
    omega

theorem readChunks_spec (faithful : Faithful dev nor finished start) (supported : nor.Supported)
    {P : Chip → Prop} (quiet : ∀ chip, P chip → Quiet mem sr chip) (len offset : Nat)
    (range : offset + len ≤ nor.size) :
    Triple (Idle nor finished start P) (readChunks dev nor offset len)
      (fun out => Idle nor finished start fun chip =>
        P chip ∧ Fetched mem offset len out.1 out.2) fail := by
  induction len using Nat.strong_induction_on generalizing offset P with
  | h len ih =>
      rw [readChunks]
      apply Triple.ite
      · intro finish
        apply Triple.pure
        intro history idle
        apply Idle.imp idle
        intro chip holds
        exact ⟨holds, Nat.zero_le _, rfl, fun _ => finish.symm⟩
      · intro more
        apply Triple.bind _ (alteraAsmip2Read_quiet faithful supported quiet len (by omega))
        intro data
        apply Triple.of_fact
        intro short
        apply Triple.ite
        · intro empty
          subst empty
          apply Triple.pure
          intro history idle
          apply Idle.imp idle
          intro chip holds
          exact ⟨holds.1, Nat.zero_le _, rfl, fun same => by cases same⟩
        · intro nonempty
          have progress : 0 < data.length := List.length_pos_iff.mpr nonempty
          apply Triple.bind _ (ih (len - data.length) (by omega)
            (fun chip holds => quiet chip holds.1) (offset + data.length) (by omega))
          intro out
          apply Triple.pure
          intro history idle
          apply Idle.imp idle
          intro chip holds
          exact ⟨holds.1.1, holds.2.append holds.1.2 short⟩

/-- The first location of the sector of an address. -/
def SpiNor.sectorStart (nor : SpiNor) (addr : Nat) : Nat := addr / nor.erasesize * nor.erasesize

theorem SpiNor.sectorStart_le (nor : SpiNor) (addr : Nat) : nor.sectorStart addr ≤ addr :=
  Nat.div_mul_le_self ..

theorem SpiNor.sectorStart_next (nor : SpiNor) (addr : Nat) :
    nor.sectorStart (addr + nor.erasesize) = nor.sectorStart addr + nor.erasesize := by
  rw [SpiNor.sectorStart, SpiNor.sectorStart, Nat.add_div_right _ nor.erase_pos, Nat.succ_mul]

/-- What an operation does where nothing that it changes is protected. -/
theorem Enabled.operate {start len : Nat} (enabled : Enabled mem sr chip)
    (free : nor.Free sr start len) :
    Stored (erased 0xFF mem start len) sr (chip.operate nor (erased 0xFF mem start len)) := by
  constructor
  · show NorMemory.keeping _ chip.mem _ = _
    rw [enabled.mem, enabled.sr]
    apply NorMemory.keeping_eq
    intro x kept
    apply (NorMemory.erased_outside _).symm
    apply Decidable.byContradiction
    intro inside
    rw [free x (by omega) (by omega)] at kept
    cases kept
  · exact enabled.sr

theorem Enabled.erase {addr : Nat} (enabled : Enabled mem sr chip)
    (free : nor.Free sr (nor.sectorStart addr) nor.erasesize) :
    Stored (erased 0xFF mem (nor.sectorStart addr) nor.erasesize) sr
      (chip.execute nor (.erase addr)) := by
  rw [Chip.execute, if_pos enabled.latch, NorMemory.eraseSector_eq_erased nor.erase_pos,
    enabled.mem]
  exact enabled.operate free

/-- A chip of which nothing is protected does not protect a portion. -/
theorem SpiNor.Free.protectedLen (free : nor.Free sr 0 nor.size) :
    Nor.protectedLen nor.size sr = 0 := by
  have small : Nor.protectedLen nor.size sr ≤ nor.size := by
    rw [Nor.protectedLen]
    split
    · exact Nat.zero_le _
    · exact Nat.div_le_self ..
  apply Decidable.byContradiction
  intro portion
  by_cases bottom : nor.bottom sr = true
  · have first := free 0 (Nat.le_refl 0) (by omega)
    rw [SpiNor.protects, if_pos bottom, decide_eq_false_iff_not] at first
    omega
  · have last := free (nor.size - 1) (Nat.zero_le _) (by omega)
    rw [SpiNor.protects, if_neg bottom, decide_eq_false_iff_not] at last
    omega

theorem Enabled.eraseChip (enabled : Enabled mem sr chip) (free : nor.Free sr 0 nor.size) :
    Stored (erased 0xFF mem 0 nor.size) sr (chip.execute nor .eraseChip) := by
  rw [Chip.execute, if_pos ⟨enabled.latch, enabled.sr ▸ free.protectedLen⟩, enabled.mem]
  exact enabled.operate free

theorem spiNorEraseSector_spec (faithful : Faithful dev nor finished start)
    (supported : nor.Supported) (mem : Nat → Byte) {addr : Nat} (inside : addr < nor.size)
    (free : nor.Free sr (nor.sectorStart addr) nor.erasesize) :
    Triple (Idle nor finished start (Enabled mem sr)) (spiNorEraseSector dev nor addr)
      (fun _ => Idle nor finished start
        (Stored (erased 0xFF mem (nor.sectorStart addr) nor.erasesize) sr))
      (fun _ => Lost nor finished start) := by
  rw [spiNorEraseSector, address_of_supported supported, addrBytes_eq_offsetBytes]
  have width := supported.width
  have short : (offsetBytes nor.addrWidth addr).length < qspiFifoDepth := by
    rw [offsetBytes_length, qspiFifoDepth]
    omega
  apply (alteraAsmip2WriteReg_spec faithful _ short).consequence (fun _ idle => idle)
  · intro _ history idle
    apply Idle.imp idle
    intro chip received
    obtain ⟨before, enabled, rfl⟩ := received.execute (fun _ enabled => enabled.calm)
      (decode_erase supported (offsetBytes_length _ _))
    rw [bigEndian_of_supported supported inside]
    exact enabled.erase free
  · exact fun _ _ lost => lost

/-- Some of the sectors have been erased. -/
def Erasing (nor : SpiNor) (mem : Nat → Byte) (sr : Byte) (start sectors : Nat) (chip : Chip) :
    Prop :=
  ∃ count ≤ sectors, Stored (erased 0xFF mem start (count * nor.erasesize)) sr chip

theorem eraseSectors_spec (faithful : Faithful dev nor finished start) (supported : nor.Supported)
    (mem : Nat → Byte) (sectors addr : Nat) (range : addr + sectors * nor.erasesize ≤ nor.size)
    (free : nor.Free sr (nor.sectorStart addr) (sectors * nor.erasesize)) :
    Triple (Idle nor finished start (Quiet mem sr)) (eraseSectors dev nor addr sectors)
      (fun _ => Idle nor finished start
        (Quiet (erased 0xFF mem (nor.sectorStart addr) (sectors * nor.erasesize)) sr))
      (fun _ => Idle nor finished start (Erasing nor mem sr (nor.sectorStart addr) sectors)) := by
  induction sectors generalizing addr mem with
  | zero =>
      rw [Nat.zero_mul, NorMemory.erased_zero]
      exact Triple.pure fun _ idle => idle
  | succ sectors ih =>
      have pos := nor.erase_pos
      rw [Nat.succ_mul] at range free ⊢
      apply Triple.bind _ (writeEnable_quiet faithful)
      intro _
      apply Triple.bind (fun _ => Idle nor finished start
        (Stored (erased 0xFF mem (nor.sectorStart addr) nor.erasesize) sr))
      · apply (spiNorEraseSector_spec faithful supported mem
          (Nat.lt_of_lt_of_le (by omega) range) fun x low high => free x low (by omega)).consequence
        · exact fun _ idle => idle
        · exact fun _ _ idle => idle
        · exact fun _ _ lost => Lost.idle lost
      intro _
      apply Triple.bind (fun _ => Idle nor finished start
        (Quiet (erased 0xFF mem (nor.sectorStart addr) nor.erasesize) sr))
      · apply (spiNorWaitTillReady_quiet faithful supported).consequence (fun _ idle => idle)
        · exact fun _ _ idle => idle
        · intro _ history idle
          apply Idle.imp idle
          intro chip stored
          exact ⟨1, Nat.succ_le_succ (Nat.zero_le _), (Nat.one_mul nor.erasesize).symm ▸ stored⟩
      · intro _
        have rest := ih (erased 0xFF mem (nor.sectorStart addr) nor.erasesize)
          (addr + nor.erasesize) (by omega) (by
            rw [SpiNor.sectorStart_next]
            exact fun x low high => free x (by omega) (by omega))
        rw [SpiNor.sectorStart_next, NorMemory.erased_add, Nat.add_comm nor.erasesize] at rest
        apply rest.consequence (fun _ idle => idle) (fun _ _ idle => idle)
        intro _ history idle
        apply Idle.imp idle
        rintro chip ⟨count, few, stored⟩
        rw [NorMemory.erased_add, Nat.add_comm nor.erasesize, ← Nat.succ_mul] at stored
        exact ⟨count + 1, Nat.succ_le_succ few, stored⟩

theorem eraseWhole_spec (faithful : Faithful dev nor finished start) (supported : nor.Supported)
    (free : nor.Free sr 0 nor.size) :
    Triple (Idle nor finished start (Quiet mem sr)) (eraseWhole dev nor)
      (fun _ => Idle nor finished start (Quiet (erased 0xFF mem 0 nor.size) sr))
      (fun _ => Idle nor finished start (Stored (erased 0xFF mem 0 nor.size) sr)) := by
  apply Triple.bind _ (writeEnable_quiet faithful)
  intro _
  apply Triple.bind (fun _ => Idle nor finished start (Stored (erased 0xFF mem 0 nor.size) sr))
  · apply Triple.attempt_bind (alteraAsmip2WriteReg_spec faithful spinorOpChipErase (by decide))
    · intro _
      apply Triple.pure
      intro history idle
      apply Idle.imp idle
      intro chip received
      obtain ⟨before, enabled, rfl⟩ := received.execute (fun _ enabled => enabled.calm)
        decode_eraseChip
      exact enabled.eraseChip free
    · exact fun _ => Triple.throw fun _ lost => Lost.idle lost
  · intro _
    exact spiNorWaitTillReady_quiet faithful supported

theorem eraseLocked_spec (faithful : Faithful dev nor finished start) (supported : nor.Supported)
    {addr len : Nat} (range : addr + len ≤ nor.size) (whole : len % nor.erasesize = 0)
    (free : nor.Free sr (nor.sectorStart addr) len) :
    Triple (Idle nor finished start (Quiet mem sr)) (eraseLocked dev nor addr len)
      (fun _ => Idle nor finished start (Quiet (erased 0xFF mem (nor.sectorStart addr) len) sr))
      (fun _ => Idle nor finished start
        (Erasing nor mem sr (nor.sectorStart addr) (len / nor.erasesize))) := by
  have sectors : len / nor.erasesize * nor.erasesize = len :=
    Nat.div_mul_cancel (Nat.dvd_of_mod_eq_zero whole)
  apply Triple.bind (fun _ => Idle nor finished start
    (Quiet (erased 0xFF mem (nor.sectorStart addr) len) sr))
  · apply Triple.ite
    · intro chip
      have first : nor.sectorStart addr = 0 := by
        have low := nor.sectorStart_le addr
        omega
      rw [first, chip.1] at free ⊢
      rw [chip.1] at sectors
      apply (eraseWhole_spec faithful supported free).consequence (fun _ idle => idle)
      · exact fun _ _ idle => idle
      · intro _ history idle
        apply Idle.imp idle
        intro chip stored
        exact ⟨_, Nat.le_refl _, sectors.symm ▸ stored⟩
    · intro _
      have each := eraseSectors_spec faithful supported mem (len / nor.erasesize) addr
        (sectors.symm ▸ range) (sectors.symm ▸ free)
      rwa [sectors] at each
  · intro _
    exact writeDisable_quiet faithful

/-! ## Requests -/

theorem spiNorErase_spec (faithful : Faithful dev nor finished start) (supported : nor.Supported)
    {addr len : Nat} (range : addr + len ≤ nor.size)
    (free : nor.Free sr (nor.sectorStart addr) len) :
    Triple (Idle nor finished start (Quiet mem sr)) (spiNorErase dev nor addr len)
      (fun _ => Idle nor finished start (Quiet (erased 0xFF mem (nor.sectorStart addr) len) sr))
      (fun _ => Idle nor finished start
        (Erasing nor mem sr (nor.sectorStart addr) (len / nor.erasesize))) := by
  by_cases whole : len % nor.erasesize = 0
  · apply Triple.bind (fun _ => Idle nor finished start (Quiet mem sr))
    · apply Triple.throwIf
      · exact fun part => absurd whole part
      · exact fun _ _ idle => idle
    · intro _
      exact locked_spec (eraseLocked_spec faithful supported range whole free)
  · apply Triple.bind (fun _ _ => False)
    · apply Triple.throwIf
      · intro _ history idle
        apply Idle.imp idle
        intro chip quiet
        refine ⟨0, Nat.zero_le _, ?_⟩
        rw [Nat.zero_mul, NorMemory.erased_zero]
        exact quiet.toStored
      · exact fun part => absurd whole (by simpa using part)
    · exact fun _ _ absurd => absurd.elim

theorem spiNorRead_spec (faithful : Faithful dev nor finished start) (supported : nor.Supported)
    {offset len : Nat} (range : offset + len ≤ nor.size) :
    Triple (Idle nor finished start (Quiet mem sr)) (spiNorRead dev nor offset len)
      (fun out => Idle nor finished start fun chip =>
        Quiet mem sr chip ∧ Fetched mem offset len out.1 out.2)
      (fun _ => Lost nor finished start) := by
  exact locked_spec (readChunks_spec faithful supported (fun _ quiet => quiet) len offset range)

/-- However a write ends, what it counts as written is programmed, and nothing else but at most a
page that follows, unless one of its transfers has been closed before it arrived. -/
theorem spiNorWrite_counts (faithful : Faithful dev nor finished start)
    (supported : nor.Supported) {addr : Nat} {buf : List Byte}
    (range : addr + buf.length ≤ nor.size) (free : nor.Free sr addr buf.length) :
    Triple (Idle nor finished start (Quiet mem sr)) (spiNorWrite dev nor addr buf)
      (fun out => Idle nor finished start (Written nor mem sr addr buf out.1 out.2))
      (fun _ => Lost nor finished start) := by
  exact locked_spec
    (writePages_spec faithful supported mem range free buf.length 0 (Nat.zero_add _))

/-- A write has ended well, with the given count. -/
def wrote (count : Nat) : EStateM.Result Errno (List Event) (Except Errno Unit × Nat) → Bool
  | .ok (.ok (), retlen) _ => retlen = count
  | _ => false

theorem eq_ok_of_wrote {count : Nat}
    {result : EStateM.Result Errno (List Event) (Except Errno Unit × Nat)}
    (normal : wrote count result = true) : result = .ok (.ok (), count) (endState result) := by
  cases result with
  | error err history => cases normal
  | ok value history =>
      obtain ⟨ret, retlen⟩ := value
      cases ret with
      | error err => cases normal
      | ok _ =>
          have same : retlen = count := of_decide_eq_true normal
          rw [same]
          rfl

/-- Three bytes on two pages. -/
theorem spiNorWrite_counts_small :
    Idle smallNor (fun _ => true) calmBoard
      (Written smallNor (fun _ => 0x5A) 0 6 [1, 2, 3] (.ok ()) 3)
      (endState (spiNorWrite (promptDevice smallNor (fun _ => true) calmBoard) smallNor 6 [1, 2, 3]
        [])) := by
  have range : 6 + [1, 2, 3].length ≤ smallNor.size := by
    decide
  have free : smallNor.Free 0 6 3 := free_of_unprotected (by decide) 6 3
  have spec : Triple (Idle smallNor (fun _ => true) calmBoard (Quiet (fun _ => 0x5A) 0))
      (spiNorWrite _ smallNor 6 [1, 2, 3]) _ _ :=
    spiNorWrite_counts (promptDevice_faithful smallNor (fun _ => true) calmBoard)
      smallNor_supported range free
  exact spec.of_ok calmBoard_idle (eq_ok_of_wrote (by decide +kernel))

end OpaeXilinx.Nor
