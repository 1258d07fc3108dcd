import OpaeXilinx.Nor.Keeps
import OpaeXilinx.Nor.Protect

/-!
# Locking and unlocking

What `spi_nor_lock` and `spi_nor_unlock` do to a chip, and what a locked region is worth: no run of
requests changes it.  That is so until a transfer is closed before it has arrived: the driver does
not look at the result of a write enable, and a request whose write enable has timed out may succeed
without an effect.
-/

namespace OpaeXilinx.Nor

open OpaeXilinx.Base

variable {nor : SpiNor} {finished : List Event → Bool} {start : Board} {dev : Device}
  {mem : Nat → Byte} {sr old new : Byte} {ofs len : Nat} {chip : Chip}

/-- The bits that protect are the same. -/
def SameBits (first second : Byte) : Prop :=
  blockProtect first = blockProtect second ∧ first.getLsbD 5 = second.getLsbD 5

theorem SameBits.bottom (same : SameBits old new) : nor.bottom old = nor.bottom new := by
  rw [SpiNor.bottom, SpiNor.bottom, same.2]

theorem SameBits.protects (same : SameBits old new) (x : Nat) :
    nor.protects old x = nor.protects new x := by
  rw [SpiNor.protects, SpiNor.protects, same.bottom, protectedLen, protectedLen, same.1]

theorem SameBits.isLocked (same : SameBits old new) (ofs len : Nat) :
    stmIsLockedSr nor ofs len old = stmIsLockedSr nor ofs len new := by
  rw [Bool.eq_iff_iff, stmIsLockedSr_iff, stmIsLockedSr_iff]
  simp only [SpiNor.Covers, same.protects]

theorem SameBits.isUnlocked (same : SameBits old new) (inside : ofs + len ≤ nor.size) :
    stmIsUnlockedSr nor ofs len old = stmIsUnlockedSr nor ofs len new := by
  rw [Bool.eq_iff_iff, stmIsUnlockedSr_iff inside, stmIsUnlockedSr_iff inside]
  simp only [SpiNor.Free, same.protects]

/-- What is kept of a status that is written protects as it does. -/
theorem sameBits_kept (value : Byte) : SameBits (value &&& Chip.srKept) value := by
  constructor
  · exact blockProtect_and (by decide) value
  · rw [BitVec.getLsbD_and]
    simp [Chip.srKept]

/-- The status register is read with the bits that protect. -/
theorem Chip.sameBits_status (chip : Chip) : SameBits chip.status chip.sr := by
  have latch : blockProtect (if chip.writeEnabled then 2 else 0) = 0 := by
    split <;> decide
  have wip : blockProtect (if chip.busy then 1 else 0) = 0 := by
    split <;> decide
  constructor
  · rw [Chip.status, blockProtect_or wip, blockProtect_or latch, (sameBits_kept chip.sr).1]
  · rw [Chip.status, BitVec.getLsbD_or, BitVec.getLsbD_or, (sameBits_kept chip.sr).2]
    split <;> split <;> simp

theorem Locks.congr {old' new' : Byte} (locks : Locks nor old new ofs len)
    (before : SameBits old old') (after : SameBits new new') : Locks nor old' new' ofs len where
  only := by
    simpa only [before.protects, after.protects] using locks.only
  keeps := by
    simpa only [before.protects, after.protects, before.bottom, after.bottom] using locks.keeps
  whole := by
    simpa only [SpiNor.Covers, SpiNor.lockLen, before.protects, after.protects, before.isLocked]
      using locks.whole

theorem Unlocks.congr {old' new' : Byte} (unlocks : Unlocks nor old new ofs len)
    (inside : ofs + len ≤ nor.size) (before : SameBits old old') (after : SameBits new new') :
    Unlocks nor old' new' ofs len := by
  have first : stmIsUnlockedSr nor 0 ofs old = stmIsUnlockedSr nor 0 ofs old' :=
    before.isUnlocked (by omega)
  constructor
  · simpa only [before.protects, after.protects, before.bottom, after.bottom] using unlocks.only
  · simpa only [SpiNor.keepLen, before.protects, after.protects, first] using unlocks.keeps
  · simpa only [SpiNor.Free, SpiNor.keepLen, before.protects, after.protects, first]
      using unlocks.whole

/-- The status register after an update. -/
def updated (sr : Byte) : Option Byte → Byte
  | none => sr
  | some value => value &&& Chip.srKept

theorem updateStatus_spec (faithful : Faithful dev nor finished start) (supported : nor.Supported)
    (mem : Nat → Byte) (sr : Byte) (out : Option Byte) :
    Triple (Idle nor finished start (Quiet mem sr)) (updateStatus dev nor out)
      (fun _ => Idle nor finished start (Quiet mem (updated sr out)))
      (fun _ => Idle nor finished start (Stored mem (updated sr out))) := by
  cases out with
  | none => exact Triple.pure fun _ idle => idle
  | some value =>
      apply Triple.bind _ (writeEnable_quiet faithful)
      intro _
      apply Triple.bind (fun _ => Idle nor finished start (Stored mem (value &&& Chip.srKept)))
      · have short : [value].length < qspiFifoDepth := by simp [qspiFifoDepth]
        apply (alteraAsmip2WriteReg_spec faithful spinorOpWrsr short).consequence
          (fun _ idle => idle)
        · intro _ history idle
          apply Idle.imp idle
          intro chip received
          obtain ⟨before, enabled, rfl⟩ := received.execute (fun _ enabled => enabled.calm)
            (decode_writeStatus value)
          rw [Chip.execute, if_pos enabled.latch]
          exact ⟨enabled.mem, rfl⟩
        · exact fun _ _ lost => Lost.idle lost
      · exact fun _ => spiNorWaitTillReady_quiet faithful supported

theorem updateStatus_lost (faithful : Faithful dev nor finished start) (out : Option Byte) :
    Maintains (Idle nor finished start fun _ => False) (updateStatus dev nor out) := by
  cases out with
  | none => exact Maintains.pure ()
  | some value =>
      apply Maintains.bind (kept_false.writeEnable faithful)
      intro _
      apply Maintains.bind
      · have short : [value].length < qspiFifoDepth := by simp [qspiFifoDepth]
        apply (alteraAsmip2WriteReg_spec faithful spinorOpWrsr short).consequence
          (fun _ idle => idle)
        · intro _ history idle
          apply Idle.imp idle
          rintro chip ⟨before, absurd, _⟩
          exact absurd
        · exact fun _ _ lost => Lost.idle lost
      · exact fun _ => kept_false.spiNorWaitTillReady faithful

/-- What `stm_lock` and `stm_unlock` share: the status register is read, and a decision on it is
carried out. -/
theorem changeStatus_spec (faithful : Faithful dev nor finished start) (supported : nor.Supported)
    {decision : Byte → Except Errno (Option Byte)} (effect : Byte → Byte → Prop)
    (sound : ∀ status out, SameBits status sr → decision status = .ok out →
      effect sr (updated sr out)) :
    Triple (Idle nor finished start (Quiet mem sr))
      (do
        let statusOld ← readSr dev
        let statusNew ← conclude (decision statusOld)
        updateStatus dev nor statusNew)
      (fun _ => Idle nor finished start fun chip => Quiet mem chip.sr chip ∧ effect sr chip.sr)
      (fun _ => Idle nor finished start fun chip => chip.mem = mem ∧
        (chip.sr = sr ∨ effect sr chip.sr)) := by
  apply Triple.bind (fun status => Idle nor finished start fun chip =>
    Quiet mem sr chip ∧ SameBits status sr)
  · apply (readSr_spec faithful).consequence (fun _ idle => idle)
    · intro status history idle
      apply Idle.imp idle
      rintro chip ⟨settled, rfl⟩
      have quiet := Quiet.of_settled settled
      exact ⟨quiet, quiet.sr ▸ chip.sameBits_status⟩
    · exact fun _ _ lost => Lost.idle lost
  · intro status
    cases decided : decision status with
    | error err =>
        apply Triple.bind (fun _ _ => False)
        · apply Triple.conclude
          · exact fun _ same => by cases same
          · exact fun _ _ _ idle => Idle.imp idle fun chip here => ⟨here.1.mem, .inl here.1.sr⟩
        · exact fun _ _ absurd => absurd.elim
    | ok out =>
        apply Triple.bind (fun next => Idle nor finished start fun chip =>
          Quiet mem sr chip ∧ SameBits status sr ∧ next = out)
        · apply Triple.conclude
          · rintro _ ⟨⟩ history idle
            exact Idle.imp idle fun chip here => ⟨here.1, here.2, rfl⟩
          · exact fun _ same => by cases same
        · intro next
          have carried := Idle.with_fact (updateStatus_lost faithful next)
            fun _ : SameBits status sr ∧ next = out =>
              updateStatus_spec faithful supported mem sr next
          apply carried.consequence (fun _ idle => idle)
          · intro _ history idle
            apply Idle.imp idle
            rintro chip ⟨quiet, same, rfl⟩
            exact ⟨⟨⟨quiet.mem, rfl⟩, quiet.calm⟩, quiet.sr ▸ sound status next same decided⟩
          · intro _ history idle
            apply Idle.imp idle
            rintro chip ⟨stored, same, rfl⟩
            exact ⟨stored.mem, .inr (stored.sr ▸ sound status next same decided)⟩

theorem SameBits.symm (same : SameBits old new) : SameBits new old :=
  ⟨same.1.symm, same.2.symm⟩

theorem updated_sameBits {status : Byte} (same : SameBits status sr) (out : Option Byte) :
    SameBits (out.getD status) (updated sr out) := by
  cases out with
  | none => exact same
  | some value => exact (sameBits_kept value).symm

/-- A lock request without a transfer closed before it arrived locks nothing else, does not unlock
anything unless the side changes, and locks all of the region if it can be told. -/
theorem spiNorLock_locks (faithful : Faithful dev nor finished start) (supported : nor.Supported)
    {exponent : Nat} (ofs len : Nat) (size : nor.size = 2 ^ exponent)
    (inside : ofs + len ≤ nor.size) (pos : 0 < len) :
    Triple (Idle nor finished start (Quiet mem sr)) (spiNorLock dev nor ofs len)
      (fun _ => Idle nor finished start fun chip =>
        Quiet mem chip.sr chip ∧ Locks nor sr chip.sr ofs len)
      (fun _ => Idle nor finished start fun chip => chip.mem = mem ∧
        (chip.sr = sr ∨ Locks nor sr chip.sr ofs len)) := by
  apply locked_spec
  apply changeStatus_spec faithful supported fun old new => Locks nor old new ofs len
  intro status out same decided
  exact (stmLockStatus_spec size inside pos decided).congr same (updated_sameBits same out)

theorem spiNorLock_locks_half :
    Idle smallNor (fun _ => true) calmBoard
      (fun chip => Quiet (fun _ => 0x5A) chip.sr chip ∧ Locks smallNor 0 chip.sr 512 512)
      (endState (spiNorLock (promptDevice smallNor (fun _ => true) calmBoard) smallNor 512 512
        [])) := by
  have spec : Triple (Idle smallNor (fun _ => true) calmBoard (Quiet (fun _ => 0x5A) 0)) _ _ _ :=
    spiNorLock_locks (promptDevice_faithful smallNor (fun _ => true) calmBoard)
      smallNor_supported 512 512 (show smallNor.size = 2 ^ 10 from rfl) (by decide) (by decide)
  exact spec.of_ok calmBoard_idle (eq_ok_of_succeeded (by decide +kernel))

/-- An unlock request without such a transfer locks nothing unless the side changes, keeps what it is
not asked to unlock if that can be told, and unlocks all of the region if what is kept can be told
exactly or not at all. -/
theorem spiNorUnlock_unlocks (faithful : Faithful dev nor finished start)
    (supported : nor.Supported) {exponent : Nat} (ofs len : Nat) (size : nor.size = 2 ^ exponent)
    (inside : ofs + len ≤ nor.size) (pos : 0 < len) :
    Triple (Idle nor finished start (Quiet mem sr)) (spiNorUnlock dev nor ofs len)
      (fun _ => Idle nor finished start fun chip =>
        Quiet mem chip.sr chip ∧ Unlocks nor sr chip.sr ofs len)
      (fun _ => Idle nor finished start fun chip => chip.mem = mem ∧
        (chip.sr = sr ∨ Unlocks nor sr chip.sr ofs len)) := by
  apply locked_spec
  apply changeStatus_spec faithful supported fun old new => Unlocks nor old new ofs len
  intro status out same decided
  exact (stmUnlockStatus_spec size inside pos decided).congr inside same (updated_sameBits same out)

theorem spiNorUnlock_unlocks_half :
    Idle smallNor (fun _ => true) lockedBoard
      (fun chip => Quiet (fun _ => 0x5A) chip.sr chip ∧ Unlocks smallNor 0x1C chip.sr 0 512)
      (endState (spiNorUnlock (promptDevice smallNor (fun _ => true) lockedBoard) smallNor 0 512
        [])) := by
  have spec :
      Triple (Idle smallNor (fun _ => true) lockedBoard (Quiet (fun _ => 0x5A) 0x1C)) _ _ _ :=
    spiNorUnlock_unlocks (promptDevice_faithful smallNor (fun _ => true) lockedBoard)
      smallNor_supported 0 512 (show smallNor.size = 2 ^ 10 from rfl) (by decide) (by decide)
  exact spec.of_ok lockedBoard_idle (eq_ok_of_succeeded (by decide +kernel))

end OpaeXilinx.Nor
