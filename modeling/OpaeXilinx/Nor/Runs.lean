import OpaeXilinx.Nor.Locking
import OpaeXilinx.Nor.Mtd

/-!
# Runs of requests

Users of the MTD device may issue any requests, which succeed or fail.  What is locked stays as it
is as long as nothing that may unlock it is among them.
-/

namespace OpaeXilinx.Nor

open OpaeXilinx.Base
open OpaeXilinx.Base.NorMemory (programmed contents)

/-- The operations of the MTD device. -/
inductive Call where
  | read (offset len : Nat)
  | write (addr : Nat) (buf : List Byte)
  | erase (addr len : Nat)
  | lock (ofs len : Nat)
  | unlock (ofs len : Nat)
  | isLocked (ofs len : Nat)
  deriving DecidableEq, Repr

/-- The call cannot unlock anything: on a flash with a bit for the side, `stm_lock` may change the
side that is protected. -/
def Call.keepsLocks (nor : SpiNor) : Call → Bool
  | .unlock _ _ => false
  | .lock _ _ => !nor.hasSrTb
  | _ => true

section Functions

variable (dev : Device) (nor : SpiNor)

/-- A call, however it ends. -/
def call : Call → Driver Unit
  | .read offset len => do
      let _ ← attempt (spiNorRead dev nor offset len)
      pure ()
  | .write addr buf => do
      let _ ← attempt (spiNorWrite dev nor addr buf)
      pure ()
  | .erase addr len => do
      let _ ← attempt (spiNorErase dev nor addr len)
      pure ()
  | .lock ofs len => do
      let _ ← attempt (spiNorLock dev nor ofs len)
      pure ()
  | .unlock ofs len => do
      let _ ← attempt (spiNorUnlock dev nor ofs len)
      pure ()
  | .isLocked ofs len => do
      let _ ← attempt (spiNorIsLocked dev nor ofs len)
      pure ()

/-- One call after the other. -/
def callAll : List Call → Driver Unit
  | [] => pure ()
  | next :: rest => do
      call dev nor next
      callAll rest

end Functions

variable {nor : SpiNor} {finished : List Event → Bool} {start : Board} {dev : Device}
  {mem : Nat → Byte} {region : Nat → Prop} {old new : Byte} {ofs len : Nat}

/-- Everything of a region is protected and as it was. -/
structure Guarded (nor : SpiNor) (mem : Nat → Byte) (region : Nat → Prop) (chip : Chip) : Prop where
  held : ∀ x, region x → nor.protects chip.sr x = true
  same : ∀ x, region x → chip.mem x = mem x

theorem Guarded.operate {chip : Chip} (guarded : Guarded nor mem region chip)
    (image : Nat → Byte) : Guarded nor mem region (chip.operate nor image) := by
  constructor
  · exact guarded.held
  · intro x inside
    show NorMemory.keeping _ chip.mem image x = mem x
    rw [NorMemory.keeping, if_pos (guarded.held x inside), guarded.same x inside]

/-- Only its own opcode writes the status register. -/
theorem head_of_writeStatus {bytes : List Byte} {value : Byte}
    (meaning : decode nor bytes = some (.writeStatus value)) :
    bytes.head? = some spinorOpWrsr := by
  cases bytes with
  | nil => cases meaning
  | cons opcode rest =>
      by_cases same : opcode = spinorOpWrsr
      · rw [same, List.head?_cons]
      · simp only [decode, if_neg same] at meaning
        split at meaning
        · split at meaning <;> cases meaning
        · split at meaning
          · split at meaning <;> cases meaning
          · split at meaning
            · split at meaning <;> cases meaning
            · split at meaning
              · split at meaning <;> cases meaning
              · split at meaning
                · split at meaning <;> cases meaning
                · split at meaning
                  · split at meaning <;> cases meaning
                  · split at meaning
                    · split at meaning <;> cases meaning
                    · cases meaning

/-- What a chip may be after a transfer that does not write the status register. -/
theorem Chip.receive_keeps {P : Chip → Prop} {chip : Chip} {bytes : List Byte}
    (other : bytes.head? ≠ some spinorOpWrsr) (holds : P chip)
    (latch : ∀ latch, P { chip with writeEnabled := latch })
    (operate : ∀ image, P (chip.operate nor image)) : P (chip.receive nor bytes) := by
  rw [Chip.receive]
  split
  · exact holds
  · cases meaning : decode nor bytes with
    | none => exact holds
    | some command =>
        cases command with
        | writeEnable => exact latch true
        | writeDisable => exact latch false
        | readStatus => exact holds
        | read addr => exact holds
        | writeStatus value => exact absurd (head_of_writeStatus meaning) other
        | program addr data =>
            show P (chip.execute nor (.program addr data))
            rw [Chip.execute]
            split
            · exact operate _
            · exact holds
        | erase addr =>
            show P (chip.execute nor (.erase addr))
            rw [Chip.execute]
            split
            · exact operate _
            · exact holds
        | eraseChip =>
            show P (chip.execute nor .eraseChip)
            rw [Chip.execute]
            split
            · exact operate _
            · exact holds

/-- What is guarded, with the bits that protect as they have been read. -/
structure GuardedAs (nor : SpiNor) (mem : Nat → Byte) (region : Nat → Prop) (status : Byte)
    (chip : Chip) : Prop extends Guarded nor mem region chip where
  bits : SameBits status chip.sr

theorem kept_guarded : Kept nor (Guarded nor mem region) where
  settle := fun _ _ guarded => ⟨guarded.held, guarded.same⟩
  receive := fun _ _ other guarded => Chip.receive_keeps other guarded
    (fun _ => ⟨guarded.held, guarded.same⟩) guarded.operate

theorem kept_guardedAs (status : Byte) : Kept nor (GuardedAs nor mem region status) where
  settle := fun _ _ guarded => ⟨⟨guarded.held, guarded.same⟩, guarded.bits⟩
  receive := fun _ _ other guarded => Chip.receive_keeps other guarded
    (fun _ => ⟨⟨guarded.held, guarded.same⟩, guarded.bits⟩)
    fun image => ⟨guarded.toGuarded.operate image, guarded.bits⟩

/-- A status that `stm_lock` decides on protects everything that the old one protects, if the flash
has no bit for the side. -/
theorem stmLockStatus_covers (top : nor.hasSrTb = false)
    (result : stmLockStatus nor ofs len old = .ok (some new)) (x : Nat)
    (held : nor.protects old x = true) : nor.protects new x = true := by
  have side : nor.bottom new = nor.bottom old := by
    rw [SpiNor.bottom, SpiNor.bottom, top, Bool.false_and, Bool.false_and]
  rcases stmLockStatus_cases result with ⟨_, none⟩ | ⟨_, _, _, _, outcome⟩
  · cases none
  · rcases outcome with ⟨none, _⟩ | ⟨some, more⟩
    · cases none
    · cases some
      exact protects_mono side more held

/-- The status register is read as the one that guards. -/
theorem readSr_guarded (faithful : Faithful dev nor finished start) :
    Triple (Idle nor finished start (Guarded nor mem region)) (readSr dev)
      (fun status => Idle nor finished start (GuardedAs nor mem region status))
      (fun _ => Idle nor finished start (Guarded nor mem region)) := by
  apply (readSr_spec faithful).consequence (fun _ idle => idle)
  · intro status history idle
    apply Idle.imp idle
    rintro _ ⟨⟨before, guarded, ended, rfl⟩, rfl⟩
    exact ⟨⟨guarded.held, guarded.same⟩, (before.settle ended).sameBits_status⟩
  · exact fun _ _ lost => Lost.idle lost

/-- A write of a status that protects at least as much, whether it is carried out or not. -/
theorem writeSr_guarded (faithful : Faithful dev nor finished start)
    (covers : ∀ x, nor.protects old x = true → nor.protects new x = true) :
    Triple (Idle nor finished start (GuardedAs nor mem region old)) (writeSr dev new)
      (fun _ => Idle nor finished start (Guarded nor mem region))
      (fun _ => Idle nor finished start (Guarded nor mem region)) := by
  have short : [new].length < qspiFifoDepth := by simp [qspiFifoDepth]
  apply (alteraAsmip2WriteReg_spec faithful spinorOpWrsr short).consequence (fun _ idle => idle)
  · intro _ history idle
    apply Idle.imp idle
    rintro _ ⟨before, guarded, ended, rfl⟩
    have settled := (kept_guardedAs old).settle before ended guarded
    rw [Chip.receive]
    split
    · exact settled.toGuarded
    · rw [decode_writeStatus]
      show Guarded nor mem region ((before.settle ended).execute nor (.writeStatus new))
      rw [Chip.execute]
      split
      · constructor
        · intro x inside
          show nor.protects (new &&& Chip.srKept) x = true
          rw [(sameBits_kept new).protects]
          apply covers
          rw [settled.bits.protects]
          exact settled.held x inside
        · exact settled.same
      · exact settled.toGuarded
  · exact fun _ _ lost => Lost.idle lost

theorem updateStatus_guarded (faithful : Faithful dev nor finished start) {out : Option Byte}
    (covers : ∀ new, out = some new → ∀ x, nor.protects old x = true → nor.protects new x = true) :
    Triple (Idle nor finished start (GuardedAs nor mem region old)) (updateStatus dev nor out)
      (fun _ => Idle nor finished start (Guarded nor mem region))
      (fun _ => Idle nor finished start (Guarded nor mem region)) := by
  cases out with
  | none => exact Triple.pure fun _ idle => Idle.imp idle fun _ guarded => guarded.toGuarded
  | some new =>
      apply Triple.bind (fun _ => Idle nor finished start (GuardedAs nor mem region old))
      · apply ((kept_guardedAs old).writeEnable faithful).consequence (fun _ idle => idle)
        · exact fun _ _ idle => idle
        · exact fun _ _ idle => Idle.imp idle fun _ guarded => guarded.toGuarded
      · intro _
        apply Triple.bind _ (writeSr_guarded faithful (covers new rfl))
        exact fun _ => kept_guarded.spiNorWaitTillReady faithful

theorem spiNorLock_guarded (faithful : Faithful dev nor finished start)
    (top : nor.hasSrTb = false) (ofs len : Nat) :
    Maintains (Idle nor finished start (Guarded nor mem region)) (spiNorLock dev nor ofs len) := by
  apply locked_spec
  apply Triple.bind _ (readSr_guarded faithful)
  intro old
  cases decided : stmLockStatus nor ofs len old with
  | error err =>
      apply Triple.bind (fun _ _ => False)
      · apply Triple.conclude
        · exact fun _ same => by cases same
        · exact fun _ _ _ idle => Idle.imp idle fun _ guarded => guarded.toGuarded
      · exact fun _ _ absurd => absurd.elim
  | ok out =>
      apply Triple.bind (fun next history => next = out ∧
        Idle nor finished start (GuardedAs nor mem region old) history)
      · apply Triple.conclude
        · rintro _ ⟨⟩ history idle
          exact ⟨rfl, idle⟩
        · exact fun _ same => by cases same
      · intro next
        apply Triple.of_fact
        rintro rfl
        apply updateStatus_guarded faithful
        rintro new rfl
        exact stmLockStatus_covers top decided

theorem call_guarded (faithful : Faithful dev nor finished start) (supported : nor.Supported)
    {next : Call} (keeps : next.keepsLocks nor = true) :
    Maintains (Idle nor finished start (Guarded nor mem region)) (call dev nor next) := by
  cases next with
  | read offset len =>
      exact Maintains.bind
        (Maintains.attempt (kept_guarded.spiNorRead faithful supported offset len))
        fun _ => Maintains.pure ()
  | write addr buf =>
      exact Maintains.bind
        (Maintains.attempt (kept_guarded.spiNorWrite faithful supported addr buf))
        fun _ => Maintains.pure ()
  | erase addr len =>
      exact Maintains.bind
        (Maintains.attempt (kept_guarded.spiNorErase faithful supported addr len))
        fun _ => Maintains.pure ()
  | lock ofs len =>
      have top : nor.hasSrTb = false := by simpa [Call.keepsLocks] using keeps
      exact Maintains.bind (Maintains.attempt (spiNorLock_guarded faithful top ofs len))
        fun _ => Maintains.pure ()
  | unlock ofs len => cases keeps
  | isLocked ofs len =>
      have reads : Maintains (Idle nor finished start (Guarded nor mem region))
          (spiNorIsLocked dev nor ofs len) := by
        apply locked_spec
        exact Maintains.bind (kept_guarded.readRegister faithful (by decide))
          fun _ => Maintains.pure _
      exact Maintains.bind (Maintains.attempt reads) fun _ => Maintains.pure ()

/-- A locked region keeps its contents over every run of calls that cannot unlock it, wherever they
reach and however they end. -/
theorem locked_region_survives (faithful : Faithful dev nor finished start)
    (supported : nor.Supported) (calls : List Call)
    (keeps : ∀ next ∈ calls, next.keepsLocks nor = true) :
    Maintains (Idle nor finished start (Guarded nor mem region)) (callAll dev nor calls) := by
  induction calls with
  | nil => exact Maintains.pure ()
  | cons next rest ih =>
      apply Maintains.bind (call_guarded faithful supported (keeps next (.head rest)))
      intro _
      exact ih fun other member => keeps other (.tail next member)

theorem locked_region_survives_all :
    Idle smallNor (fun _ => true) lockedBoard (Guarded smallNor (fun _ => 0x5A) fun x => x < 1024)
      (endState (callAll (promptDevice smallNor (fun _ => true) lockedBoard) smallNor
        [.write 10 [1, 2], .erase 0 1024, .isLocked 0 8] [])) := by
  apply Triple.at_end (locked_region_survives
    (promptDevice_faithful smallNor (fun _ => true) lockedBoard) smallNor_supported
    [.write 10 [1, 2], .erase 0 1024, .isLocked 0 8] (by decide))
  apply lockedBoard_idle.imp
  intro chip quiet
  constructor
  · intro x inside
    rw [quiet.sr]
    simpa [SpiNor.protects, SpiNor.bottom, protectedLen, blockProtect, smallNor] using inside
  · exact fun x _ => congrFun quiet.mem x

end OpaeXilinx.Nor
