import OpaeXilinx.Nor.Commands

/-!
# What the driver keeps

A property of the chip that no transfer but a write of the status register can end is kept by
everything the driver does but the update of that register.
-/

namespace OpaeXilinx.Nor

open OpaeXilinx.Base

variable {nor : SpiNor} {finished : List Event → Bool} {start : Board} {dev : Device}
  {I : Chip → Prop}

/-- Neither time nor a transfer ends the property, unless it writes the status register. -/
structure Kept (nor : SpiNor) (I : Chip → Prop) : Prop where
  settle : ∀ chip ended, I chip → I (chip.settle ended)
  receive : ∀ chip bytes, bytes.head? ≠ some spinorOpWrsr → I chip → I (chip.receive nor bytes)

theorem Kept.reads (kept : Kept nor I) {bytes values : List Byte} {i : Nat} {before chip : Chip}
    (reads : Reads nor bytes i values before chip) (holds : I before) : I chip := by
  induction values generalizing i before with
  | nil =>
      cases reads
      exact holds
  | cons value values ih =>
      obtain ⟨ended, _, later⟩ := reads
      exact ih later (kept.settle before ended holds)

theorem Kept.received (kept : Kept nor I) {bytes : List Byte} {chip : Chip}
    (other : bytes.head? ≠ some spinorOpWrsr) (received : Received nor bytes I chip) : I chip := by
  obtain ⟨before, holds, ended, rfl⟩ := received
  exact kept.receive _ bytes other (kept.settle before ended holds)

theorem kept_false : Kept nor fun _ => False where
  settle := fun _ _ absurd => absurd
  receive := fun _ _ _ absurd => absurd

/-- A fact that holds if the chip is known holds behind a program that does not make a chip known
again. -/
theorem Idle.with_fact {α : Type} {fact : Prop} {P : Chip → Prop} {program : Driver α}
    {ok : α → Chip → Prop} {error : Errno → Chip → Prop}
    (lost : Maintains (Idle nor finished start fun _ => False) program)
    (holds : fact → Triple (Idle nor finished start P) program
      (fun value => Idle nor finished start (ok value))
      (fun err => Idle nor finished start (error err))) :
    Triple (Idle nor finished start fun chip => P chip ∧ fact) program
      (fun value => Idle nor finished start fun chip => ok value chip ∧ fact)
      (fun err => Idle nor finished start fun chip => error err chip ∧ fact) := by
  by_cases true : fact
  · apply (holds true).consequence
    · exact fun _ idle => Idle.imp idle fun _ here => here.1
    · exact fun _ _ idle => Idle.imp idle fun _ here => ⟨here, true⟩
    · exact fun _ _ idle => Idle.imp idle fun _ here => ⟨here, true⟩
  · apply lost.consequence
    · exact fun _ idle => Idle.imp idle fun _ here => true here.2
    · exact fun _ _ idle => Idle.imp idle fun _ absurd => absurd.elim
    · exact fun _ _ idle => Idle.imp idle fun _ absurd => absurd.elim

namespace Kept

variable (kept : Kept nor I) (faithful : Faithful dev nor finished start)

include kept faithful

theorem transfer {bytes : List Byte} (other : bytes.head? ≠ some spinorOpWrsr) {dummy count : Nat}
    (few : dummy < 256) (fits : count < 65536) :
    Maintains (Idle nor finished start I) (Nor.transfer dev bytes dummy count) := by
  apply (transfer_spec faithful few fits).consequence (fun _ idle => idle)
  · intro values history ⟨_, idle⟩
    apply Idle.imp idle
    intro chip ⟨before, received, reads⟩
    exact kept.reads reads (kept.received other received)
  · exact fun _ _ lost => Lost.idle lost

theorem writeReg {opcode : Byte} (other : opcode ≠ spinorOpWrsr) (val : List Byte) :
    Maintains (Idle nor finished start I) (alteraAsmip2WriteReg dev opcode val) := by
  apply Maintains.bind Maintains.throwIf
  intro _
  apply Maintains.bind (kept.transfer faithful (by simpa using other) (by decide) (by decide))
  intro _
  exact Maintains.pure ()

theorem writeEnable : Maintains (Idle nor finished start I) (Nor.writeEnable dev) := by
  apply Maintains.bind (Maintains.attempt (kept.writeReg faithful (by decide) []))
  intro _
  exact Maintains.pure ()

theorem writeDisable : Maintains (Idle nor finished start I) (Nor.writeDisable dev) := by
  apply Maintains.bind (Maintains.attempt (kept.writeReg faithful (by decide) []))
  intro _
  exact Maintains.pure ()

theorem readRegister {opcode : Byte} (other : opcode ≠ spinorOpWrsr) :
    Maintains (Idle nor finished start I) (Nor.readRegister dev opcode) := by
  apply Maintains.bind
  · apply Maintains.bind Maintains.throwIf
    intro _
    exact kept.transfer faithful (by simpa using other) (by decide) (by decide)
  · exact fun values => Maintains.pure _

theorem spiNorReady : Maintains (Idle nor finished start I) (Nor.spiNorReady dev nor) := by
  apply Maintains.bind
  · apply Maintains.ite
    · exact Maintains.bind (kept.readRegister faithful (by decide)) fun _ => Maintains.pure _
    · exact Maintains.bind (kept.readRegister faithful (by decide)) fun _ => Maintains.pure _
  · intro sr
    apply Maintains.bind
    · apply Maintains.ite
      · exact Maintains.bind (kept.readRegister faithful (by decide)) fun _ => Maintains.pure _
      · exact Maintains.pure true
    · exact fun fsr => Maintains.pure _

theorem waitTillReady (rounds : Nat) :
    Maintains (Idle nor finished start I) (Nor.waitTillReady dev nor rounds) := by
  induction rounds with
  | zero =>
      apply Maintains.bind (kept.spiNorReady faithful)
      intro ready
      exact Maintains.ite (Maintains.pure ()) (Maintains.throw _)
  | succ rounds ih =>
      apply Maintains.bind (kept.spiNorReady faithful)
      intro ready
      exact Maintains.ite (Maintains.pure ()) ih

theorem spiNorWaitTillReady :
    Maintains (Idle nor finished start I) (Nor.spiNorWaitTillReady dev nor) := by
  apply Triple.get_bind
  intro history idle
  exact (kept.waitTillReady faithful _).consequence (fun _ same => same ▸ idle)
    (fun _ _ idle => idle) fun _ _ idle => idle

variable (supported : nor.Supported)

include supported

theorem eraseSectors (sectors addr : Nat) :
    Maintains (Idle nor finished start I) (Nor.eraseSectors dev nor addr sectors) := by
  have opcodes := supported.opcodes
  simp only [List.nodup_cons, List.mem_cons, not_or] at opcodes
  induction sectors generalizing addr with
  | zero => exact Maintains.pure ()
  | succ sectors ih =>
      apply Maintains.bind (kept.writeEnable faithful)
      intro _
      apply Maintains.bind (kept.writeReg faithful (by simp [opcodes]) _)
      intro _
      apply Maintains.bind (kept.spiNorWaitTillReady faithful)
      intro _
      exact ih (addr + nor.erasesize)

theorem spiNorErase (addr len : Nat) :
    Maintains (Idle nor finished start I) (Nor.spiNorErase dev nor addr len) := by
  apply Maintains.bind Maintains.throwIf
  intro _
  apply locked_spec
  apply Maintains.bind
  · apply Maintains.ite
    · apply Maintains.bind (kept.writeEnable faithful)
      intro _
      apply Maintains.bind
      · apply Triple.attempt_bind (kept.writeReg faithful (by decide) [])
        · exact fun _ => Maintains.pure ()
        · exact fun _ => Maintains.throw _
      · exact fun _ => kept.spiNorWaitTillReady faithful
    · exact kept.eraseSectors faithful supported (len / nor.erasesize) addr
  · exact fun _ => kept.writeDisable faithful

theorem asmip2Read (offset len : Nat) :
    Maintains (Idle nor finished start I)
      (alteraAsmip2Read dev nor.readOpcode nor.addrWidth offset len) := by
  have opcodes := supported.opcodes
  simp only [List.nodup_cons, List.mem_cons, not_or] at opcodes
  have fits : min len qspiFifoDepth < 65536 :=
    Nat.lt_of_le_of_lt (Nat.min_le_right ..) (by decide)
  apply Triple.attempt_bind (kept.transfer faithful (by simp [opcodes]) (by decide) fits)
  · exact fun _ => Maintains.pure _
  · exact fun _ => Maintains.pure _

theorem asmip2Write (offset : Nat) (buf : List Byte) :
    Maintains (Idle nor finished start I)
      (alteraAsmip2Write dev nor.programOpcode nor.addrWidth offset buf) := by
  have opcodes := supported.opcodes
  simp only [List.nodup_cons, List.mem_cons, not_or] at opcodes
  apply Triple.attempt_bind (kept.transfer faithful (by simp [opcodes]) (by decide) (by decide))
  · exact fun _ => Maintains.pure _
  · exact fun _ => Maintains.pure _

theorem readChunks (len offset : Nat) :
    Maintains (Idle nor finished start I) (Nor.readChunks dev nor offset len) := by
  induction len using Nat.strong_induction_on generalizing offset with
  | h len ih =>
      rw [Nor.readChunks]
      apply Triple.ite
      · exact fun _ => Maintains.pure _
      · intro more
        apply Maintains.bind (kept.asmip2Read faithful supported _ len)
        intro data
        apply Triple.ite
        · exact fun _ => Maintains.pure _
        · intro nonempty
          have progress : 0 < data.length := List.length_pos_iff.mpr nonempty
          apply Maintains.bind (ih (len - data.length) (by omega) _)
          exact fun _ => Maintains.pure _

theorem spiNorRead (offset len : Nat) :
    Maintains (Idle nor finished start I) (Nor.spiNorRead dev nor offset len) :=
  locked_spec (kept.readChunks faithful supported len offset)

theorem writePages (addr : Nat) (buf : List Byte) (left i : Nat) (rest : buf.length - i = left) :
    Maintains (Idle nor finished start I) (Nor.writePages dev nor addr buf i) := by
  induction left using Nat.strong_induction_on generalizing i with
  | h left ih =>
      rw [Nor.writePages]
      apply Triple.ite
      · intro more
        have inPage := nor.pageOffset_lt (addr + i)
        apply Maintains.bind (kept.writeEnable faithful)
        intro _
        apply Maintains.bind (kept.asmip2Write faithful supported _ _)
        intro written
        apply Triple.attempt_bind (kept.spiNorWaitTillReady faithful)
        · intro _
          apply Triple.ite
          · exact fun whole => ih (buf.length - (i + written)) (by omega) (i + written) rfl
          · exact fun _ => Maintains.pure _
        · exact fun _ => Maintains.pure _
      · exact fun _ => Maintains.pure _

theorem spiNorWrite (addr : Nat) (buf : List Byte) :
    Maintains (Idle nor finished start I) (Nor.spiNorWrite dev nor addr buf) :=
  locked_spec (kept.writePages faithful supported addr buf _ 0 rfl)

end Kept

end OpaeXilinx.Nor
