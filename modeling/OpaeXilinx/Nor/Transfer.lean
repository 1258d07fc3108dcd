import OpaeXilinx.Nor.Chip

/-!
# Transfers as commands of the chip

One lemma for each operation of the controller: what the chip is after it, if it is still known.
-/

namespace OpaeXilinx.Nor

open OpaeXilinx.Base

theorem starts_qspiAction (dummy readBack : Nat) :
    Board.starts (qspiAction dummy readBack) = true := by
  simp [Board.starts, qspiAction, qspiActionEn, qspiActionSc]

theorem not_starts_qspiActionEn : Board.starts qspiActionEn = false := by
  decide

theorem readBack_qspiAction {dummy readBack : Nat} (few : dummy < 256) (fits : readBack < 65536) :
    Board.readBack (qspiAction dummy readBack) = readBack := by
  have low : dummy * 256 < 65536 := Nat.mul_lt_mul_of_pos_right few (by decide)
  have high : readBack * 65536 < 4294967296 := Nat.mul_lt_mul_of_pos_right fits (by decide)
  simp only [Board.readBack, qspiAction, qspiActionEn, qspiActionSc, BitVec.toNat_ushiftRight,
    BitVec.toNat_or, BitVec.toNat_shiftLeft, BitVec.toNat_ofNat, Nat.shiftRight_or_distrib]
  simp only [Nat.shiftLeft_eq, Nat.shiftRight_eq_div_pow, Nat.reducePow, Nat.reduceMod,
    Nat.reduceMul, Nat.reduceDiv]
  have dummySmall : dummy % 4294967296 = dummy :=
    Nat.mod_eq_of_lt (Nat.lt_trans few (by decide))
  have readBackSmall : readBack % 4294967296 = readBack :=
    Nat.mod_eq_of_lt (Nat.lt_trans fits (by decide))
  have dummyFits : dummy * 256 % 4294967296 = dummy * 256 :=
    Nat.mod_eq_of_lt (Nat.lt_trans low (by decide))
  have readBackFits : readBack * 65536 % 4294967296 = readBack * 65536 := Nat.mod_eq_of_lt high
  rw [dummySmall, readBackSmall, dummyFits, readBackFits, Nat.div_eq_of_lt low,
    Nat.mul_div_cancel _ (by decide)]
  simp

variable {nor : SpiNor} {finished : List Event → Bool} {start : Board} {dev : Device}

/-- The board has a property, as far as it is known. -/
structure Known (nor : SpiNor) (finished : List Event → Bool) (start : Board)
    (holds : Board → Prop) (history : List Event) : Prop where
  of_after : ∀ board, Board.after nor finished start history = some board → holds board

/-- No transfer is under way; so many bytes are waiting in the FIFO. -/
structure Filled (P : Chip → Prop) (bytes : List Byte) (board : Board) : Prop where
  tx : board.tx = bytes
  underway : board.underway = none
  chip : P board.chip

/-- Nothing is going on in the controller. -/
abbrev Ready (P : Chip → Prop) : Board → Prop := Filled P []

/-- A transfer has been started. -/
structure Sending (P : Chip → Prop) (bytes : List Byte) (count : Nat) (board : Board) : Prop where
  tx : board.tx = []
  underway : board.underway = some (bytes, count)
  chip : P board.chip

/-- A transfer has gone out. -/
structure Answering (P : Chip → Prop) (bytes : List Byte) (i : Nat) (board : Board) : Prop where
  tx : board.tx = []
  underway : board.underway = none
  answering : board.answering = some (bytes, i)
  chip : P board.chip

/-- The chip has received the bytes of a transfer. -/
def Received (nor : SpiNor) (bytes : List Byte) (P : Chip → Prop) (chip : Chip) : Prop :=
  ∃ before, P before ∧ ∃ ended, chip = (before.settle ended).receive nor bytes

/-- The bytes that have been read from a number on, with what the chip was and is. -/
def Reads (nor : SpiNor) (bytes : List Byte) : Nat → List Byte → Chip → Chip → Prop
  | _, [], before, now => now = before
  | i, value :: values, before, now => ∃ ended,
      (∀ known, (before.settle ended).answer nor bytes i = some known → value = known) ∧
        Reads nor bytes (i + 1) values (before.settle ended) now

/-- What is known after a look at the levels of the FIFOs. -/
def Polled (nor : SpiNor) (finished : List Event → Bool) (start : Board) (P : Chip → Prop)
    (bytes : List Byte) (count : Nat) (reg : BitVec 32) (history : List Event) : Prop :=
  if arrived count reg then
    Known nor finished start (Answering (Received nor bytes P) bytes 0) history
  else Known nor finished start (Sending P bytes count) history

namespace Polled

variable {P : Chip → Prop} {bytes : List Byte} {count : Nat} {reg : BitVec 32}
  {history : List Event}

theorem arrived (polled : Polled nor finished start P bytes count reg history)
    (done : Nor.arrived count reg) :
    Known nor finished start (Answering (Received nor bytes P) bytes 0) history := by
  rwa [Polled, if_pos done] at polled

theorem waiting (polled : Polled nor finished start P bytes count reg history)
    (still : ¬ Nor.arrived count reg) :
    Known nor finished start (Sending P bytes count) history := by
  rwa [Polled, if_neg still] at polled

end Polled

namespace Known

variable {P Q : Board → Prop} {history : List Event} {event : Event}

theorem imp (known : Known nor finished start P history) (implies : ∀ board, P board → Q board) :
    Known nor finished start Q history :=
  ⟨fun board here => implies board (known.of_after board here)⟩

/-- What an event makes of what is known. -/
theorem step (known : Known nor finished start P history)
    (reacts : ∀ ended board next, P board → board.react nor ended event = some next → Q next) :
    Known nor finished start Q (event :: history) := by
  constructor
  intro next here
  rw [Board.after, Option.bind_eq_some_iff] at here
  cases here with
  | intro board reached => exact reacts _ board next (known.of_after board reached.1) reached.2

theorem note {fail : Errno → List Event → Prop}
    (reacts : ∀ ended board next, P board → board.react nor ended event = some next → Q next) :
    Triple (Known nor finished start P) (note event) (fun _ => Known nor finished start Q) fail :=
  Triple.modify fun _ known => known.step reacts

end Known

section Operations

variable {P : Chip → Prop} {bytes : List Byte} {fail : Errno → List Event → Prop}

theorem iowrite8Rep_spec (sent bytes : List Byte) :
    Triple (Known nor finished start (Filled P sent)) (iowrite8Rep bytes)
      (fun _ => Known nor finished start (Filled P (sent ++ bytes))) fail := by
  induction bytes generalizing sent with
  | nil =>
      rw [List.append_nil]
      exact Triple.pure fun _ known => known
  | cons byte bytes ih =>
      have rest := ih (sent ++ [byte])
      rw [List.append_assoc] at rest
      apply Triple.bind _ (Known.note _) fun _ => rest
      intro ended board next filled here
      cases here
      exact ⟨by rw [filled.tx], filled.underway, filled.chip⟩

theorem writel_start_spec {dummy count : Nat} (few : dummy < 256) (fits : count < 65536) :
    Triple (Known nor finished start (Filled P bytes)) (writel (qspiAction dummy count))
      (fun _ => Known nor finished start (Sending P bytes count)) fail := by
  apply Known.note
  intro ended board next filled here
  rw [Board.react, if_pos (starts_qspiAction dummy count), readBack_qspiAction few fits] at here
  cases here
  exact ⟨rfl, by rw [filled.tx], filled.chip⟩

theorem writel_close_spec {i : Nat} :
    Triple (Known nor finished start (Answering P bytes i)) (writel qspiActionEn)
      (fun _ => Known nor finished start (Ready P)) fail := by
  apply Known.note
  intro ended board next answering here
  rw [Board.react, if_neg (by rw [not_starts_qspiActionEn]; decide), answering.underway] at here
  cases here
  exact ⟨answering.tx, rfl, answering.chip⟩

/-- A transfer that is closed before it has gone out leaves nothing known. -/
theorem writel_abandon_spec {count : Nat} :
    Triple (Known nor finished start (Sending P bytes count)) (writel qspiActionEn)
      (fun _ => Known nor finished start fun _ => False) fail := by
  apply Known.note
  intro ended board next sending here
  rw [Board.react, if_neg (by rw [not_starts_qspiActionEn]; decide), sending.underway] at here
  cases here

theorem readl_spec (count : Nat) :
    Triple (Known nor finished start (Sending P bytes count)) (readl dev)
      (Polled nor finished start P bytes count) fail := by
  intro history known
  show Polled nor finished start P bytes count (dev.fifoCnt history) _
  by_cases done : arrived count (dev.fifoCnt history)
  · rw [Polled, if_pos done]
    apply Known.step known
    intro ended board next sending here
    rw [Board.react, sending.underway] at here
    simp only [if_pos done] at here
    cases here
    exact ⟨sending.tx, rfl, rfl, board.chip, sending.chip, ended, rfl⟩
  · rw [Polled, if_neg done]
    apply Known.step known
    intro ended board next sending here
    rw [Board.react, sending.underway] at here
    simp only [if_neg done] at here
    cases here
    exact sending

theorem pollTimeout_spec (count rounds : Nat) :
    Triple (Known nor finished start (Sending P bytes count))
      (pollTimeout dev (arrived count) rounds)
      (fun _ => Known nor finished start (Answering (Received nor bytes P) bytes 0))
      (fun _ => Known nor finished start (Sending P bytes count)) := by
  induction rounds with
  | zero =>
      apply Triple.bind _ (readl_spec count)
      intro reg
      apply Triple.ite
      · intro done
        exact Triple.pure fun _ polled => polled.arrived done
      · intro waiting
        apply Triple.bind (Polled nor finished start P bytes count)
        · apply (readl_spec count).consequence
          · exact fun _ polled => polled.waiting waiting
          · exact fun _ _ polled => polled
          · exact fun _ _ known => known
        · intro reg
          apply Triple.throwIf
          · exact fun still _ polled => polled.waiting still
          · exact fun done _ polled => polled.arrived (Decidable.not_not.mp done)
  | succ rounds ih =>
      apply Triple.bind _ (readl_spec count)
      intro reg
      apply Triple.ite
      · intro done
        exact Triple.pure fun _ polled => polled.arrived done
      · intro waiting
        exact ih.consequence (fun _ polled => polled.waiting waiting) (fun _ _ known => known)
          fun _ _ known => known

theorem readb_spec (faithful : Faithful dev nor finished start) (i : Nat) :
    Triple (Known nor finished start (Answering P bytes i)) (readb dev)
      (fun value => Known nor finished start (Answering (fun chip => ∃ before, P before ∧ ∃ ended,
        (∀ known, (before.settle ended).answer nor bytes i = some known → value = known) ∧
          chip = before.settle ended) bytes (i + 1))) fail := by
  intro history known
  constructor
  intro next here
  rw [Board.after, Option.bind_eq_some_iff] at here
  cases here with
  | intro board reached =>
      have answering := known.of_after board reached.1
      have told := faithful history board reached.1 bytes i answering.answering
      have reacted := reached.2
      rw [Board.react, answering.answering] at reacted
      cases reacted
      exact ⟨answering.tx, answering.underway, rfl, board.chip, answering.chip, finished history,
        told, rfl⟩

theorem ioread8Rep_spec (faithful : Faithful dev nor finished start) (i count : Nat) :
    Triple (Known nor finished start (Answering P bytes i)) (ioread8Rep dev count)
      (fun values history => values.length = count ∧
        Known nor finished start (Answering (fun chip => ∃ before, P before ∧
          Reads nor bytes i values before chip) bytes (i + count)) history) fail := by
  induction count generalizing i P with
  | zero =>
      apply Triple.pure
      intro history known
      exact ⟨rfl, known.imp fun board answering =>
        ⟨answering.tx, answering.underway, answering.answering, board.chip, answering.chip, rfl⟩⟩
  | succ count ih =>
      apply Triple.bind _ (readb_spec faithful i)
      intro value
      apply Triple.bind _ (ih (i + 1))
      intro values
      apply Triple.pure
      intro history ⟨many, known⟩
      constructor
      · rw [List.length_cons, many]
      · apply known.imp
        intro board answering
        obtain ⟨middle, ⟨before, here, ended, told, rfl⟩, reads⟩ := answering.chip
        exact ⟨answering.tx, answering.underway,
          by rw [answering.answering, Nat.add_right_comm, Nat.add_assoc],
          before, here, ended, told, reads⟩

/-- A transfer that ends normally has been received and answered. -/
theorem transfer_spec (faithful : Faithful dev nor finished start) {dummy count : Nat}
    (few : dummy < 256) (fits : count < 65536) :
    Triple (Known nor finished start (Ready P)) (transfer dev bytes dummy count)
      (fun values history => values.length = count ∧
        Known nor finished start (Ready fun chip => ∃ before, Received nor bytes P before ∧
          Reads nor bytes 0 values before chip) history)
      (fun _ => Known nor finished start fun _ => False) := by
  apply Triple.bind _ (iowrite8Rep_spec [] bytes)
  intro _
  apply Triple.bind _ (writel_start_spec few fits)
  intro _
  have awaited : Triple (Known nor finished start (Sending P bytes count))
      (do
        readlPollTimeout dev (arrived count)
        ioread8Rep dev count)
      (fun values history => values.length = count ∧
        Known nor finished start (Answering (fun chip => ∃ before, Received nor bytes P before ∧
          Reads nor bytes 0 values before chip) bytes (0 + count)) history)
      (fun _ => Known nor finished start (Sending P bytes count)) := by
    apply Triple.bind _ _ fun _ => ioread8Rep_spec faithful 0 count
    apply Triple.get_bind
    intro history known
    exact (pollTimeout_spec count (dev.patience history)).consequence
      (fun _ same => same ▸ known) (fun _ _ known => known) fun _ _ known => known
  apply Triple.attempt_bind awaited
  · intro values
    apply Triple.bind (fun _ history => values.length = count ∧
      Known nor finished start (Ready fun chip => ∃ before, Received nor bytes P before ∧
        Reads nor bytes 0 values before chip) history)
    · apply Triple.of_fact
      intro many
      apply writel_close_spec.consequence (fun _ known => known)
      · exact fun _ _ known => ⟨many, known⟩
      · exact fun _ _ failed => failed
    · intro _
      exact Triple.pure fun _ known => known
  · intro err
    apply Triple.bind _ writel_abandon_spec
    intro _
    exact Triple.throw fun _ known => known

end Operations

end OpaeXilinx.Nor
