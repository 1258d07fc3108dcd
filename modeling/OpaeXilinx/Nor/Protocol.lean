import OpaeXilinx.Nor.Runs

/-!
# The protocol of the controller

Whatever the hardware answers and however long it takes, the controller is only touched under both
mutexes, no transfer puts more into its FIFO than that can hold or reads more than has arrived, and
every transfer is closed.  What a transfer that is given up leaves in the FIFO is not followed: it
is closed with `QSPI_ACTION_EN`, and the FIFO is reset at probe only.
-/

namespace OpaeXilinx.Nor

open OpaeXilinx.Base

/-- How far a request has come: the mutexes are free, the first is held, or both are and a transfer
has put so many bytes into the FIFO, has been started, or has arrived with so many bytes to be read.
The bytes are those of this transfer alone. -/
inductive Stage where
  | free
  | lock
  | filling (pushed : Nat)
  | started (readBack : Nat)
  | answered (left : Nat)
  deriving DecidableEq, Repr

/-- What an event does to the stage, where the event is allowed.  A transfer may be closed before it
has arrived; the next one then counts its own bytes from 0, whatever is still in the FIFO. -/
def Stage.next : Stage → Event → Option Stage
  | .free, .mutexLock .lock => some .lock
  | .lock, .mutexLock .busMutex => some (.filling 0)
  | .filling 0, .mutexUnlock .busMutex => some .lock
  | .lock, .mutexUnlock .lock => some .free
  | .filling pushed, .writeb _ =>
    if pushed < qspiFifoDepth then some (.filling (pushed + 1)) else none
  | .filling (_ + 1), .writel reg =>
    if Board.starts reg = true ∧ Board.readBack reg ≤ qspiFifoDepth then
      some (.started (Board.readBack reg))
    else none
  | .started readBack, .readl reg =>
    some (if arrived readBack reg then .answered readBack else .started readBack)
  | .answered (left + 1), .readb _ => some (.answered left)
  | .started _, .writel reg => if Board.starts reg = false then some (.filling 0) else none
  | .answered 0, .writel reg => if Board.starts reg = false then some (.filling 0) else none
  | _, _ => none

/-- The stage after a history, if everything in it has been allowed. -/
def stageAfter : List Event → Option Stage
  | [] => some .free
  | event :: earlier => (stageAfter earlier).bind (·.next event)

/-- Everything has been allowed so far, and this is the stage. -/
def At (stage : Stage) (history : List Event) : Prop := stageAfter history = some stage

section Protocol

variable {dev : Device} {nor : SpiNor} {stage next : Stage} {fail : Errno → List Event → Prop}

theorem At.step {event : Event} {history : List Event} (here : At stage history)
    (allowed : stage.next event = some next) : At next (event :: history) := by
  rw [At, stageAfter, here]
  exact allowed

theorem At.note {event : Event} (allowed : stage.next event = some next) :
    Triple (At stage) (note event) (fun _ => At next) fail :=
  Triple.modify fun _ here => here.step allowed

theorem iowrite8Rep_at (pushed : Nat) {bytes : List Byte}
    (fits : pushed + bytes.length ≤ qspiFifoDepth) :
    Triple (At (.filling pushed)) (iowrite8Rep bytes)
      (fun _ => At (.filling (pushed + bytes.length))) fail := by
  induction bytes generalizing pushed with
  | nil => exact Triple.pure fun _ here => here
  | cons byte bytes ih =>
      rw [List.length_cons] at fits ⊢
      have room : pushed < qspiFifoDepth := by omega
      apply Triple.bind (fun _ => At (.filling (pushed + 1)))
      · apply At.note
        cases pushed with
        | zero => rw [Stage.next, if_pos room]
        | succ pushed => rw [Stage.next, if_pos room]
      · intro _
        rw [Nat.add_comm bytes.length, ← Nat.add_assoc] at fits ⊢
        exact ih (pushed + 1) fits

theorem writel_start_at {pushed dummy count : Nat} (some : 0 < pushed) (few : dummy < 256)
    (fits : count ≤ qspiFifoDepth) :
    Triple (At (.filling pushed)) (writel (qspiAction dummy count))
      (fun _ => At (.started count)) fail := by
  apply At.note
  have level := readBack_qspiAction few (Nat.lt_of_le_of_lt fits (by decide))
  cases pushed with
  | zero => exact absurd some (Nat.lt_irrefl 0)
  | succ pushed =>
      rw [Stage.next, level]
      exact if_pos ⟨starts_qspiAction dummy count, fits⟩

/-- A transfer is closed once everything has been read, or given up before it has arrived. -/
theorem writel_close_at (open' : stage = .answered 0 ∨ ∃ count, stage = .started count) :
    Triple (At stage) (writel qspiActionEn) (fun _ => At (.filling 0)) fail := by
  apply At.note
  rcases open' with rfl | ⟨count, rfl⟩
  · rw [Stage.next, if_pos not_starts_qspiActionEn]
  · rw [Stage.next, if_pos not_starts_qspiActionEn]

theorem readl_at (count : Nat) :
    Triple (At (.started count)) (readl dev)
      (fun reg => At (if arrived count reg then .answered count else .started count)) fail :=
  fun _ here => here.step rfl

theorem pollTimeout_at (count rounds : Nat) :
    Triple (At (.started count)) (pollTimeout dev (arrived count) rounds)
      (fun _ => At (.answered count)) (fun _ => At (.started count)) := by
  induction rounds with
  | zero =>
      apply Triple.bind _ (readl_at count)
      intro reg
      apply Triple.ite
      · intro done
        rw [if_pos done]
        exact Triple.pure fun _ here => here
      · intro waiting
        rw [if_neg waiting]
        apply Triple.bind _ (readl_at count)
        intro reg
        apply Triple.throwIf
        · intro still history here
          rwa [if_neg still] at here
        · intro done history here
          rwa [if_pos (Decidable.not_not.mp done)] at here
  | succ rounds ih =>
      apply Triple.bind _ (readl_at count)
      intro reg
      apply Triple.ite
      · intro done
        rw [if_pos done]
        exact Triple.pure fun _ here => here
      · intro waiting
        rw [if_neg waiting]
        exact ih

theorem ioread8Rep_at (count : Nat) :
    Triple (At (.answered count)) (ioread8Rep dev count) (fun _ => At (.answered 0)) fail := by
  induction count with
  | zero => exact Triple.pure fun _ here => here
  | succ count ih =>
      apply Triple.bind (fun _ => At (.answered count))
      · exact fun _ here => here.step rfl
      · intro value
        apply Triple.bind _ ih
        exact fun values => Triple.pure fun _ here => here

/-- The controller is free for the next transfer, whatever it has answered. -/
abbrev KeepsProtocol {α : Type} (program : Driver α) : Prop := Maintains (At (.filling 0)) program

theorem keepsProtocol_transfer {bytes : List Byte} {dummy count : Nat} (some : bytes ≠ [])
    (short : bytes.length ≤ qspiFifoDepth) (few : dummy < 256) (fits : count ≤ qspiFifoDepth) :
    KeepsProtocol (transfer dev bytes dummy count) := by
  have room : 0 + bytes.length ≤ qspiFifoDepth := by
    rwa [Nat.zero_add]
  apply Triple.bind _ (iowrite8Rep_at 0 room)
  intro _
  rw [Nat.zero_add]
  apply Triple.bind _ (writel_start_at (List.length_pos_iff.mpr some) few fits)
  intro _
  have awaited : Triple (At (.started count))
      (do
        readlPollTimeout dev (arrived count)
        ioread8Rep dev count)
      (fun _ => At (.answered 0)) (fun _ => At (.started count)) := by
    apply Triple.bind _ _ fun _ => ioread8Rep_at count
    apply Triple.get_bind
    intro history here
    exact (pollTimeout_at count (dev.patience history)).consequence (fun _ same => same ▸ here)
      (fun _ _ here => here) fun _ _ here => here
  apply Triple.attempt_bind awaited
  · intro values
    apply Triple.bind _ (writel_close_at (.inl rfl))
    exact fun _ => Triple.pure fun _ here => here
  · intro err
    apply Triple.bind _ (writel_close_at (.inr ⟨count, rfl⟩))
    exact fun _ => Triple.throw fun _ here => here

theorem keepsProtocol_writeReg (opcode : Byte) (val : List Byte) :
    KeepsProtocol (alteraAsmip2WriteReg dev opcode val) := by
  apply Triple.bind (fun _ history => val.length + 1 ≤ qspiFifoDepth ∧ At (.filling 0) history)
  · apply Triple.throwIf
    · exact fun _ _ here => here
    · exact fun short _ here => ⟨Nat.le_of_not_lt short, here⟩
  · intro _
    apply Triple.of_fact
    intro short
    apply Maintains.bind
      (keepsProtocol_transfer (List.cons_ne_nil _ _) short (by decide) (by decide))
    exact fun _ => Maintains.pure ()

theorem keepsProtocol_readReg (opcode : Byte) (len : Nat) :
    KeepsProtocol (alteraAsmip2ReadReg dev opcode len) := by
  apply Triple.bind (fun _ history => len ≤ qspiFifoDepth ∧ At (.filling 0) history)
  · apply Triple.throwIf
    · exact fun _ _ here => here
    · exact fun short _ here => ⟨Nat.le_of_not_lt short, here⟩
  · intro _
    apply Triple.of_fact
    intro fits
    exact keepsProtocol_transfer (List.cons_ne_nil _ _) (by simp [qspiFifoDepth]) (by decide) fits

theorem keepsProtocol_readRegister (opcode : Byte) : KeepsProtocol (readRegister dev opcode) :=
  Maintains.bind (keepsProtocol_readReg opcode 1) fun _ => Maintains.pure _

theorem keepsProtocol_read (opcode : Byte) {addrWidth : Nat} (wide : addrWidth ≤ 4)
    (offset len : Nat) : KeepsProtocol (alteraAsmip2Read dev opcode addrWidth offset len) := by
  have short : (opcode :: offsetBytes addrWidth offset).length ≤ qspiFifoDepth := by
    rw [List.length_cons, offsetBytes_length, qspiFifoDepth]
    omega
  apply Triple.attempt_bind (keepsProtocol_transfer (List.cons_ne_nil _ _) short (by decide)
    (Nat.min_le_right ..))
  · exact fun _ => Maintains.pure _
  · exact fun _ => Maintains.pure _

theorem keepsProtocol_write (opcode : Byte) {addrWidth : Nat} (wide : addrWidth ≤ 4) (offset : Nat)
    (buf : List Byte) : KeepsProtocol (alteraAsmip2Write dev opcode addrWidth offset buf) := by
  have short : (opcode :: offsetBytes addrWidth offset ++
      buf.take (min buf.length (qspiFifoDepth - (addrWidth + 1)))).length ≤ qspiFifoDepth := by
    rw [List.length_append, List.length_cons, offsetBytes_length, List.length_take, qspiFifoDepth]
    omega
  apply Triple.attempt_bind (keepsProtocol_transfer (by simp) short (by decide) (by decide))
  · exact fun _ => Maintains.pure _
  · exact fun _ => Maintains.pure _

theorem keepsProtocol_writeEnable : KeepsProtocol (writeEnable dev) :=
  Maintains.bind (Maintains.attempt (keepsProtocol_writeReg spinorOpWren []))
    fun _ => Maintains.pure ()

theorem keepsProtocol_writeDisable : KeepsProtocol (writeDisable dev) :=
  Maintains.bind (Maintains.attempt (keepsProtocol_writeReg spinorOpWrdi []))
    fun _ => Maintains.pure ()

theorem keepsProtocol_spiNorReady : KeepsProtocol (spiNorReady dev nor) := by
  apply Maintains.bind
  · apply Maintains.ite
    · exact Maintains.bind (keepsProtocol_readRegister _) fun _ => Maintains.pure _
    · exact Maintains.bind (keepsProtocol_readRegister _) fun _ => Maintains.pure _
  · intro sr
    apply Maintains.bind
    · apply Maintains.ite
      · exact Maintains.bind (keepsProtocol_readRegister _) fun _ => Maintains.pure _
      · exact Maintains.pure true
    · exact fun fsr => Maintains.pure _

theorem keepsProtocol_waitTillReady (rounds : Nat) :
    KeepsProtocol (waitTillReady dev nor rounds) := by
  induction rounds with
  | zero =>
      apply Maintains.bind keepsProtocol_spiNorReady
      intro ready
      exact Maintains.ite (Maintains.pure ()) (Maintains.throw Errno.etimedout)
  | succ rounds ih =>
      apply Maintains.bind keepsProtocol_spiNorReady
      intro ready
      exact Maintains.ite (Maintains.pure ()) ih

theorem keepsProtocol_spiNorWaitTillReady : KeepsProtocol (spiNorWaitTillReady dev nor) :=
  Maintains.get_bind fun _ => keepsProtocol_waitTillReady _

theorem keepsProtocol_writePages (wide : nor.addrWidth ≤ 4) (addr : Nat) (buf : List Byte)
    (left i : Nat) (rest : buf.length - i = left) :
    KeepsProtocol (writePages dev nor addr buf i) := by
  induction left using Nat.strong_induction_on generalizing i with
  | h left ih =>
      rw [writePages]
      apply Triple.ite
      · intro more
        have inPage := nor.pageOffset_lt (addr + i)
        apply Maintains.bind keepsProtocol_writeEnable
        intro _
        apply Maintains.bind (keepsProtocol_write _ wide _ _)
        intro written
        apply Triple.attempt_bind keepsProtocol_spiNorWaitTillReady
        · intro _
          apply Triple.ite
          · intro all
            exact ih (buf.length - (i + written)) (by omega) (i + written) rfl
          · exact fun _ => Maintains.pure _
        · exact fun _ => Maintains.pure _
      · exact fun _ => Maintains.pure _

theorem keepsProtocol_readChunks (wide : nor.addrWidth ≤ 4) (len offset : Nat) :
    KeepsProtocol (readChunks dev nor offset len) := by
  induction len using Nat.strong_induction_on generalizing offset with
  | h len ih =>
      rw [readChunks]
      apply Triple.ite
      · exact fun _ => Maintains.pure _
      · intro more
        apply Maintains.bind (keepsProtocol_read _ wide _ _)
        intro data
        apply Triple.ite
        · exact fun _ => Maintains.pure _
        · intro some
          have shorter : 0 < data.length := List.length_pos_iff.mpr some
          apply Maintains.bind (ih (len - data.length) (by omega) (offset + data.length))
          exact fun out => Maintains.pure _

theorem keepsProtocol_eraseSectors (sectors addr : Nat) :
    KeepsProtocol (eraseSectors dev nor addr sectors) := by
  induction sectors generalizing addr with
  | zero => exact Maintains.pure ()
  | succ sectors ih =>
      apply Maintains.bind keepsProtocol_writeEnable
      intro _
      apply Maintains.bind (keepsProtocol_writeReg _ _)
      intro _
      apply Maintains.bind keepsProtocol_spiNorWaitTillReady
      exact fun _ => ih (addr + nor.erasesize)

theorem keepsProtocol_eraseLocked (addr len : Nat) :
    KeepsProtocol (eraseLocked dev nor addr len) := by
  apply Maintains.bind
  · apply Maintains.ite
    · apply Maintains.bind keepsProtocol_writeEnable
      intro _
      apply Maintains.bind
      · apply Triple.attempt_bind (keepsProtocol_writeReg _ _)
        · exact fun _ => Maintains.pure ()
        · exact fun _ => Maintains.throw Errno.eio
      · exact fun _ => keepsProtocol_spiNorWaitTillReady
    · exact keepsProtocol_eraseSectors _ addr
  · exact fun _ => keepsProtocol_writeDisable

/-- `stm_lock` and `stm_unlock`. -/
theorem keepsProtocol_changeStatus (decision : Byte → Except Errno (Option Byte)) :
    KeepsProtocol (do
      let statusOld ← readSr dev
      let statusNew ← conclude (decision statusOld)
      updateStatus dev nor statusNew) := by
  apply Maintains.bind (keepsProtocol_readRegister _)
  intro statusOld
  apply Maintains.bind (Maintains.conclude _)
  intro statusNew
  cases statusNew with
  | none => exact Maintains.pure ()
  | some value =>
      apply Maintains.bind keepsProtocol_writeEnable
      intro _
      apply Maintains.bind (keepsProtocol_writeReg _ _)
      exact fun _ => keepsProtocol_spiNorWaitTillReady

/-- Both mutexes are taken before a request and given back after it. -/
theorem locked_at {α : Type} {request : Driver α} (keeps : KeepsProtocol request) :
    Maintains (At .free) (locked request) := by
  apply Triple.bind (fun _ => At .lock) (At.note rfl)
  intro _
  apply Triple.bind (fun _ => At (.filling 0)) (At.note rfl)
  intro _
  have released : ∀ ret : Except Errno α, Triple (At (.filling 0))
      (do
        note (.mutexUnlock .busMutex)
        note (.mutexUnlock .lock)
        conclude ret)
      (fun _ => At .free) (fun _ => At .free) := by
    intro ret
    apply Triple.bind (fun _ => At .lock) (At.note rfl)
    intro _
    apply Triple.bind (fun _ => At .free) (At.note rfl)
    exact fun _ => Maintains.conclude ret
  apply Triple.attempt_bind keeps
  · exact fun value => released (.ok value)
  · exact fun err => released (.error err)

theorem call_at (wide : nor.addrWidth ≤ 4) (next : Call) :
    Maintains (At .free) (call dev nor next) := by
  cases next with
  | read offset len =>
      exact Maintains.bind
        (Maintains.attempt (locked_at (keepsProtocol_readChunks wide len offset)))
        fun _ => Maintains.pure ()
  | write addr buf =>
      exact Maintains.bind
        (Maintains.attempt (locked_at (keepsProtocol_writePages wide addr buf _ 0 rfl)))
        fun _ => Maintains.pure ()
  | erase addr len =>
      have erases : Maintains (At .free) (spiNorErase dev nor addr len) :=
        Maintains.bind Maintains.throwIf fun _ => locked_at (keepsProtocol_eraseLocked addr len)
      exact Maintains.bind (Maintains.attempt erases) fun _ => Maintains.pure ()
  | lock ofs len =>
      exact Maintains.bind (Maintains.attempt (locked_at (keepsProtocol_changeStatus _)))
        fun _ => Maintains.pure ()
  | unlock ofs len =>
      exact Maintains.bind (Maintains.attempt (locked_at (keepsProtocol_changeStatus _)))
        fun _ => Maintains.pure ()
  | isLocked ofs len =>
      have asks : KeepsProtocol (stmIsLocked dev nor ofs len) :=
        Maintains.bind (keepsProtocol_readRegister _) fun _ => Maintains.pure _
      exact Maintains.bind (Maintains.attempt (locked_at asks)) fun _ => Maintains.pure ()

end Protocol

/-- With any hardware, every run of calls touches the controller only under both mutexes, puts no
more bytes of a transfer into its FIFO than that takes nor reads more than has arrived, and ends
with every transfer closed and the mutexes free. -/
theorem calls_keep_protocol (dev : Device) {nor : SpiNor} (wide : nor.addrWidth ≤ 4)
    (calls : List Call) : Maintains (At .free) (callAll dev nor calls) := by
  induction calls with
  | nil => exact Maintains.pure ()
  | cons next rest ih => exact Maintains.bind (call_at wide next) fun _ => ih

theorem calls_keep_protocol_small :
    At .free (endState (callAll (promptDevice smallNor (fun _ => true) calmBoard) smallNor
      [.erase 0 1024, .write 10 [1, 2], .lock 512 512] [])) :=
  Triple.at_end (calls_keep_protocol _ (by decide) _) rfl

end OpaeXilinx.Nor
