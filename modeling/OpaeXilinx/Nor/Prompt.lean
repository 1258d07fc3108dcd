import Mathlib.Data.ENat.Basic
import OpaeXilinx.Nor.Mtd

/-!
# Prompt hardware

Where the controller is done with every transfer and the chip with every operation before the
driver loses its patience, no request fails.
-/

namespace OpaeXilinx.Nor

open OpaeXilinx.Base

/-- How many looks at the chip in a row have not found its operation over. -/
def waited (finished : List Event → Bool) : List Event → Nat
  | [] => 0
  | .readb _ :: earlier => if finished earlier then 0 else waited finished earlier + 1
  | _ :: earlier => waited finished earlier

/-- One more look at the levels of the FIFOs. -/
def look (dev : Device) (history : List Event) : List Event :=
  .readl (dev.fifoCnt history) :: history

/-- The transfer arrives within so many looks. -/
def Due (dev : Device) (count looks : Nat) (history : List Event) : Prop :=
  ∃ number < looks, arrived count (dev.fifoCnt ((look dev)^[number] history))

/-- What fits into the FIFO arrives in time, operations of the chip end in time, and the flag status
register of a chip at rest says so. -/
structure Prompt (dev : Device) (nor : SpiNor) (finished : List Event → Bool) (start : Board) :
    Prop where
  arrives : ∀ history board bytes count, Board.after nor finished start history = some board →
    board.underway = some (bytes, count) → count ≤ qspiFifoDepth →
      Due dev count (dev.patience history + 2) history
  finishes : ∀ history later, waited finished later ≤ dev.patience history
  flags : nor.useFsr = true → ∀ history board i,
    Board.after nor finished start history = some board →
      board.answering = some ([spinorOpRdfsr], i) → board.chip.busy = false →
        (dev.data history).getLsbD 7 = true

/-- A controller that is always done at once is prompt if its chip is. -/
theorem promptDevice_prompt {nor : SpiNor} (start : Board) (plain : nor.useFsr = false) :
    Prompt (promptDevice nor (fun _ => true) start) nor (fun _ => true) start where
  arrives := by
    intro history board bytes count here underway few
    refine ⟨0, Nat.zero_lt_succ _, ?_⟩
    have level : (promptDevice nor (fun _ => true) start).fifoCnt history =
        BitVec.ofNat 32 count := by
      simp only [promptDevice, here, Option.bind_some, underway]
    have low : count < 1024 := Nat.lt_of_le_of_lt few (by decide)
    rw [Function.iterate_zero_apply, level, arrived]
    split
    case isTrue none =>
      rw [none]
      decide
    case isFalse =>
      have mask : (0x3ff : Nat) = 2 ^ 10 - 1 := by decide
      rw [fifoRx, BitVec.toNat_and, BitVec.toNat_ofNat, BitVec.toNat_ofNat,
        Nat.mod_eq_of_lt (Nat.lt_trans low (by decide)), Nat.mod_eq_of_lt (by decide), mask,
        Nat.and_two_pow_sub_one_eq_mod, Nat.mod_eq_of_lt low]
  finishes := by
    intro history later
    induction later with
    | nil => exact Nat.zero_le _
    | cons event later ih => cases event <;> first | exact ih | exact Nat.zero_le _
  flags := fun uses => by rw [plain] at uses; cases uses

variable {nor : SpiNor} {finished : List Event → Bool} {start : Board} {dev : Device}

/-- The board is known and has a property; where its chip is busy, at least so many looks in a row
have found it so. -/
def Sure (nor : SpiNor) (finished : List Event → Bool) (start : Board) (looks : ℕ∞)
    (holds : Board → Prop) (history : List Event) : Prop :=
  ∃ board, Board.after nor finished start history = some board ∧ holds board ∧
    (board.chip.busy = true → looks ≤ waited finished history)

/-- Any chip. -/
abbrev Any : Chip → Prop := fun _ => True

/-- The board is known, and nothing is going on in the controller. -/
abbrev Alive (nor : SpiNor) (finished : List Event → Bool) (start : Board) : List Event → Prop :=
  Sure nor finished start 0 (Ready Any)

/-- What the flag status register of a chip at rest is read as. -/
def Flagged (nor : SpiNor) (looks : ℕ∞) (bytes : List Byte) (value : Byte) : Prop :=
  nor.useFsr = true → bytes = [spinorOpRdfsr] → looks = ⊤ → value.getLsbD 7 = true

namespace Sure

variable {P Q : Board → Prop} {looks more : ℕ∞} {history : List Event} {event : Event}

theorem known (sure : Sure nor finished start looks P history) :
    Known nor finished start P history := by
  obtain ⟨board, here, holds, _⟩ := sure
  constructor
  intro other there
  rw [here] at there
  cases there
  exact holds

theorem fewer (sure : Sure nor finished start looks P history) (le : more ≤ looks) :
    Sure nor finished start more P history := by
  obtain ⟨board, here, holds, busy⟩ := sure
  exact ⟨board, here, holds, fun still => le_trans le (busy still)⟩

theorem zero (sure : Sure nor finished start looks P history) :
    Sure nor finished start 0 P history :=
  sure.fewer zero_le

/-- What is sure after an event. -/
theorem step (sure : Sure nor finished start looks P history)
    (reacts : ∀ board, Board.after nor finished start history = some board → P board →
      (board.chip.busy = true → looks ≤ waited finished history) →
        ∃ next, board.react nor (finished history) event = some next ∧ Q next ∧
          (next.chip.busy = true → more ≤ waited finished (event :: history))) :
    Sure nor finished start more Q (event :: history) := by
  obtain ⟨board, here, holds, busy⟩ := sure
  obtain ⟨next, reacted, after, still⟩ := reacts board here holds busy
  refine ⟨next, ?_, after, still⟩
  rw [Board.after, here]
  exact reacted

end Sure

section Transfers

variable {bytes : List Byte} {looks : ℕ∞} {fail : Errno → List Event → Prop}

theorem iowrite8Rep_sure (sent bytes : List Byte) :
    Triple (Sure nor finished start looks (Filled Any sent)) (iowrite8Rep bytes)
      (fun _ => Sure nor finished start looks (Filled Any (sent ++ bytes))) fail := by
  induction bytes generalizing sent with
  | nil =>
      rw [List.append_nil]
      exact Triple.pure fun _ sure => sure
  | cons byte bytes ih =>
      have rest := ih (sent ++ [byte])
      rw [List.append_assoc] at rest
      apply Triple.bind _ _ fun _ => rest
      apply Triple.modify
      intro history sure
      apply sure.step
      intro board _ filled busy
      exact ⟨_, rfl, ⟨by rw [filled.tx], filled.underway, trivial⟩, busy⟩

theorem writel_start_sure {dummy count : Nat} (few : dummy < 256) (fits : count < 65536) :
    Triple (Sure nor finished start looks (Filled Any bytes)) (writel (qspiAction dummy count))
      (fun _ => Sure nor finished start looks (Sending Any bytes count)) fail := by
  apply Triple.modify
  intro history sure
  apply sure.step
  intro board _ filled busy
  refine ⟨_, if_pos (starts_qspiAction dummy count), ⟨rfl, ?_, trivial⟩, busy⟩
  rw [filled.tx, readBack_qspiAction few fits]

theorem writel_close_sure {i : Nat} :
    Triple (Sure nor finished start looks (Answering Any bytes i)) (writel qspiActionEn)
      (fun _ => Sure nor finished start looks (Ready Any)) fail := by
  apply Triple.modify
  intro history sure
  apply sure.step
  intro board _ answering busy
  refine ⟨{ board with answering := none }, ?_, ⟨answering.tx, answering.underway, trivial⟩, busy⟩
  rw [Board.react, if_neg (by rw [not_starts_qspiActionEn]; decide), answering.underway]

/-- A transfer that has gone out may have set the chip to work, unless it only asks. -/
theorem readl_sure (asks : looks ≠ 0 → ∀ chip : Chip, chip.receive nor bytes = chip)
    (count left : Nat) :
    Triple (fun history => Sure nor finished start looks (Sending Any bytes count) history ∧
        Due dev count (left + 1) history) (readl dev)
      (fun reg history =>
        if arrived count reg then Sure nor finished start looks (Answering Any bytes 0) history
        else Sure nor finished start looks (Sending Any bytes count) history ∧
          Due dev count left history) fail := by
  intro history ⟨sure, due⟩
  show if arrived count (dev.fifoCnt history) then _ else _
  split
  case isTrue done =>
    apply sure.step
    intro board _ sending busy
    refine ⟨{ board with
      chip := (board.chip.settle (finished history)).receive nor bytes
      underway := none
      answering := some (bytes, 0) }, ?_, ⟨sending.tx, rfl, rfl, trivial⟩, ?_⟩
    · rw [Board.react, sending.underway]
      simp only [if_pos done]
    · intro still
      by_cases none : looks = 0
      · rw [none]
        exact zero_le
      · apply busy
        have working : ((board.chip.settle (finished history)).receive nor bytes).busy = true :=
          still
        rw [asks none] at working
        exact (Bool.and_eq_true_iff.mp working).1
  case isFalse waiting =>
    constructor
    · apply sure.step
      intro board _ sending busy
      refine ⟨board, ?_, sending, busy⟩
      rw [Board.react, sending.underway]
      simp only [if_neg waiting]
    · obtain ⟨number, less, here⟩ := due
      cases number with
      | zero => exact absurd here waiting
      | succ number =>
          rw [Function.iterate_succ_apply] at here
          exact ⟨number, Nat.lt_of_succ_lt_succ less, here⟩

theorem pollTimeout_sure (asks : looks ≠ 0 → ∀ chip : Chip, chip.receive nor bytes = chip)
    (count rounds : Nat) :
    Triple (fun history => Sure nor finished start looks (Sending Any bytes count) history ∧
        Due dev count (rounds + 2) history) (pollTimeout dev (arrived count) rounds)
      (fun _ => Sure nor finished start looks (Answering Any bytes 0)) (fun _ _ => False) := by
  induction rounds with
  | zero =>
      apply Triple.bind _ (readl_sure asks count 1)
      intro reg
      apply Triple.ite
      · intro done
        simp only [if_pos done]
        exact Triple.pure fun _ sure => sure
      · intro waiting
        simp only [if_neg waiting]
        apply Triple.bind _ (readl_sure asks count 0)
        intro reg
        apply Triple.throwIf
        · intro still history looked
          rw [if_neg still] at looked
          obtain ⟨_, number, less, _⟩ := looked
          exact Nat.not_lt_zero number less
        · intro done history looked
          rwa [if_pos (Decidable.not_not.mp done)] at looked
  | succ rounds ih =>
      apply Triple.bind _ (readl_sure asks count (rounds + 2))
      intro reg
      apply Triple.ite
      · intro done
        simp only [if_pos done]
        exact Triple.pure fun _ sure => sure
      · intro waiting
        simp only [if_neg waiting]
        exact ih

theorem readb_sure (prompt : Prompt dev nor finished start) (i : Nat) :
    Triple (Sure nor finished start looks (Answering Any bytes i)) (readb dev)
      (fun value history => Flagged nor looks bytes value ∧
        Sure nor finished start (looks + 1) (Answering Any bytes (i + 1)) history) fail := by
  intro history sure
  constructor
  · intro uses asked calm
    obtain ⟨board, here, answering, busy⟩ := sure
    apply prompt.flags uses history board i here (asked ▸ answering.answering)
    rw [calm] at busy
    simpa using busy
  · apply sure.step
    intro board _ answering busy
    refine ⟨{ board with
      chip := board.chip.settle (finished history)
      answering := some (bytes, i + 1) }, ?_, ⟨answering.tx, answering.underway, rfl, trivial⟩, ?_⟩
    · rw [Board.react, answering.answering]
    · intro still
      have working : (board.chip.busy && !finished history) = true := still
      rw [Bool.and_eq_true_iff, Bool.not_eq_true'] at working
      rw [waited, if_neg (by rw [working.2]; decide), Nat.cast_add, Nat.cast_one]
      exact add_le_add_left (busy working.1) 1

theorem ioread8Rep_sure (prompt : Prompt dev nor finished start) (i count : Nat) :
    Triple (Sure nor finished start looks (Answering Any bytes i)) (ioread8Rep dev count)
      (fun values history =>
        (values.length = count ∧ ∀ value ∈ values, Flagged nor looks bytes value) ∧
        Sure nor finished start (looks + count) (Answering Any bytes (i + count)) history)
      fail := by
  induction count generalizing i looks with
  | zero =>
      apply Triple.pure
      intro history sure
      rw [Nat.cast_zero, add_zero, Nat.add_zero]
      exact ⟨⟨rfl, fun _ member => by cases member⟩, sure⟩
  | succ count ih =>
      apply Triple.bind _ (readb_sure prompt i)
      intro value
      apply Triple.of_fact
      intro flagged
      apply Triple.bind _ (ih (i + 1))
      intro values
      apply Triple.pure
      intro history ⟨⟨many, all⟩, sure⟩
      have later : looks + 1 + (count : ℕ∞) = looks + ((count + 1 : Nat) : ℕ∞) := by
        rw [Nat.cast_add, Nat.cast_one, add_assoc, add_comm (1 : ℕ∞)]
      rw [later, Nat.add_right_comm, Nat.add_assoc] at sure
      refine ⟨⟨by rw [List.length_cons, many], ?_⟩, sure⟩
      intro other member
      cases member with
      | head => exact flagged
      | tail _ member =>
          intro uses asked calm
          exact all other member uses asked (by rw [calm, top_add])

theorem transfer_sure (prompt : Prompt dev nor finished start)
    (asks : looks ≠ 0 → ∀ chip : Chip, chip.receive nor bytes = chip) {dummy count : Nat}
    (few : dummy < 256) (fits : count ≤ qspiFifoDepth) :
    Triple (Sure nor finished start looks (Ready Any)) (transfer dev bytes dummy count)
      (fun values history =>
        (values.length = count ∧ ∀ value ∈ values, Flagged nor looks bytes value) ∧
        Sure nor finished start (looks + count) (Ready Any) history)
      (fun _ _ => False) := by
  apply Triple.bind _ (iowrite8Rep_sure [] bytes)
  intro _
  apply Triple.bind _ (writel_start_sure few (Nat.lt_of_le_of_lt fits (by decide)))
  intro _
  have awaited : Triple (Sure nor finished start looks (Sending Any bytes count))
      (do
        readlPollTimeout dev (arrived count)
        ioread8Rep dev count)
      (fun values history =>
        (values.length = count ∧ ∀ value ∈ values, Flagged nor looks bytes value) ∧
        Sure nor finished start (looks + count) (Answering Any bytes (0 + count)) history)
      (fun _ _ => False) := by
    apply Triple.bind _ _ fun _ => ioread8Rep_sure prompt 0 count
    apply Triple.get_bind
    intro history sure
    obtain ⟨board, here, sending, _⟩ := id sure
    have due := prompt.arrives history board bytes count here sending.underway fits
    exact (pollTimeout_sure asks count (dev.patience history)).consequence
      (fun current same => by rw [same]; exact ⟨sure, due⟩) (fun _ _ sure => sure)
      fun _ _ absurd => absurd
  apply Triple.attempt_bind awaited
  · intro values
    apply Triple.of_fact
    intro facts
    apply Triple.bind _ writel_close_sure
    intro _
    exact Triple.pure fun _ sure => ⟨facts, sure⟩
  · exact fun _ _ absurd => absurd.elim

end Transfers

section Commands

variable {fail : Errno → List Event → Prop}

theorem alteraAsmip2WriteReg_sure (prompt : Prompt dev nor finished start) (opcode : Byte)
    {val : List Byte} (short : val.length < qspiFifoDepth) :
    Triple (Alive nor finished start) (alteraAsmip2WriteReg dev opcode val)
      (fun _ => Alive nor finished start) (fun _ _ => False) := by
  apply Triple.bind (fun _ => Alive nor finished start)
  · apply Triple.throwIf
    · exact fun long => absurd short (Nat.not_lt.mpr (Nat.le_of_lt_succ long))
    · exact fun _ _ alive => alive
  · intro _
    apply Triple.bind _ (transfer_sure prompt (fun some => absurd rfl some) (by decide) (by decide))
    exact fun _ => Triple.pure fun _ sure => sure.2.zero

theorem writeEnable_sure (prompt : Prompt dev nor finished start) :
    Triple (Alive nor finished start) (writeEnable dev) (fun _ => Alive nor finished start)
      fail := by
  apply Triple.attempt_bind (alteraAsmip2WriteReg_sure prompt spinorOpWren (by decide))
  · exact fun _ => Triple.pure fun _ alive => alive
  · exact fun _ _ absurd => absurd.elim

theorem writeDisable_sure (prompt : Prompt dev nor finished start) :
    Triple (Alive nor finished start) (writeDisable dev) (fun _ => Alive nor finished start)
      fail := by
  apply Triple.attempt_bind (alteraAsmip2WriteReg_sure prompt spinorOpWrdi (by decide))
  · exact fun _ => Triple.pure fun _ alive => alive
  · exact fun _ _ absurd => absurd.elim

theorem readRegister_sure (prompt : Prompt dev nor finished start) {opcode : Byte} (looks : ℕ∞)
    (asks : ∀ chip : Chip, chip.receive nor [opcode] = chip) :
    Triple (Sure nor finished start looks (Ready Any)) (readRegister dev opcode)
      (fun value history => Flagged nor looks [opcode] value ∧
        Sure nor finished start (looks + 1) (Ready Any) history)
      (fun _ _ => False) := by
  apply Triple.bind (fun values history => (values.length = 1 ∧
    ∀ value ∈ values, Flagged nor looks [opcode] value) ∧
      Sure nor finished start (looks + 1) (Ready Any) history)
  · apply Triple.bind (fun _ => Sure nor finished start looks (Ready Any))
    · apply Triple.throwIf
      · exact fun long => absurd long (by decide)
      · exact fun _ _ sure => sure
    · exact fun _ => transfer_sure prompt (fun _ => asks) (by decide) (by decide)
  · intro values
    apply Triple.pure
    intro history ⟨⟨one, all⟩, sure⟩
    cases values with
    | nil => cases one
    | cons value rest => exact ⟨all value (.head rest), sure⟩

/-- A chip that is not said to be ready has been found busy once more. -/
theorem spiNorSrReady_sure (faithful : Faithful dev nor finished start)
    (prompt : Prompt dev nor finished start) (looks : Nat) :
    Triple (Sure nor finished start looks (Ready Any)) (spiNorSrReady dev)
      (fun ready history =>
        if ready = true then Sure nor finished start ⊤ (Ready Any) history
        else Sure nor finished start (looks + 1) (Ready Any) history ∧
          looks + 1 ≤ waited finished history)
      (fun _ _ => False) := by
  have read := (readRegister_sure prompt looks fun _ => Chip.receive_readStatus).and
    (readSr_spec (P := Any) faithful)
  apply Triple.bind _
  · apply read.consequence
    · exact fun history sure => ⟨sure, sure.known⟩
    · exact fun _ _ both => both
    · exact fun _ _ absurd => absurd.1
  · intro value
    apply Triple.pure
    rintro history ⟨⟨_, board, here, ready, busy⟩, idle⟩
    have told := ((Known.of_after idle) board here).chip.2
    rw [told, Chip.busy_eq_status]
    cases working : board.chip.busy with
    | false => exact ⟨board, here, ready, fun still => by rw [working] at still; cases still⟩
    | true =>
        constructor
        · exact ⟨board, here, ready, busy⟩
        · have more := busy working
          exact_mod_cast more

/-- What is sure after a look at whether the chip is ready. -/
def Asked (nor : SpiNor) (finished : List Event → Bool) (start : Board) (looks : Nat) (ready : Bool)
    (history : List Event) : Prop :=
  if ready = true then Sure nor finished start ⊤ (Ready Any) history
  else Sure nor finished start (looks + 1) (Ready Any) history ∧
    ∃ earlier, looks + 1 ≤ waited finished earlier

theorem spiNorReady_sure (faithful : Faithful dev nor finished start) (supported : nor.Supported)
    (prompt : Prompt dev nor finished start) (looks : Nat) :
    Triple (Sure nor finished start looks (Ready Any)) (spiNorReady dev nor)
      (Asked nor finished start looks) (fun _ _ => False) := by
  apply Triple.bind (Asked nor finished start looks)
  · rw [if_neg (by rw [supported.status]; decide)]
    apply (spiNorSrReady_sure faithful prompt looks).consequence (fun _ sure => sure)
    · intro ready history told
      rw [Asked]
      cases ready with
      | true => exact told
      | false => exact ⟨told.1, history, told.2⟩
    · exact fun _ _ absurd => absurd
  · intro sr
    apply Triple.bind (fun fsr history => Asked nor finished start looks sr history ∧
      (sr = true → fsr = true))
    · apply Triple.ite
      · intro uses
        cases sr with
        | true =>
            apply Triple.bind _ (readRegister_sure prompt ⊤ fun _ => Chip.receive_of_none
              (decode_readFsr supported))
            intro fsr
            apply Triple.pure
            intro history ⟨flagged, sure⟩
            exact ⟨sure, fun _ => flagged uses rfl rfl⟩
        | false =>
            have again : Triple
                (fun history => (∃ earlier, looks + 1 ≤ waited finished earlier) ∧
                  Sure nor finished start (looks + 1) (Ready Any) history)
                (readRegister dev spinorOpRdfsr) (fun _ => Asked nor finished start looks false)
                (fun _ _ => False) := by
              apply Triple.of_fact
              intro told
              apply (readRegister_sure prompt (looks + 1) fun _ => Chip.receive_of_none
                (decode_readFsr supported)).consequence (fun _ sure => sure)
              · exact fun _ _ both => ⟨both.2.fewer le_self_add, told⟩
              · exact fun _ _ absurd => absurd
            apply Triple.bind (fun _ => Asked nor finished start looks false)
            · exact again.consequence (fun _ asked => ⟨asked.2, asked.1⟩) (fun _ _ asked => asked)
                fun _ _ absurd => absurd
            · intro fsr
              apply Triple.pure
              exact fun _ asked => ⟨asked, fun same => by cases same⟩
      · exact fun _ => Triple.pure fun _ asked => ⟨asked, fun _ => rfl⟩
    · intro fsr
      apply Triple.pure
      intro history ⟨asked, both⟩
      cases sr with
      | true =>
          rw [both rfl]
          exact asked
      | false => exact asked

theorem waitTillReady_sure (faithful : Faithful dev nor finished start)
    (supported : nor.Supported) (prompt : Prompt dev nor finished start) (looks rounds : Nat)
    (enough : ∀ later, waited finished later ≤ looks + rounds) :
    Triple (Sure nor finished start looks (Ready Any)) (waitTillReady dev nor rounds)
      (fun _ => Alive nor finished start) (fun _ _ => False) := by
  induction rounds generalizing looks with
  | zero =>
      apply Triple.bind _ (spiNorReady_sure faithful supported prompt looks)
      intro ready
      apply Triple.ite
      · rintro rfl
        exact Triple.pure fun _ sure => Sure.zero sure
      · intro waiting
        apply Triple.throw
        intro history asked
        rw [Asked, if_neg waiting] at asked
        obtain ⟨_, earlier, many⟩ := asked
        have few := enough earlier
        omega
  | succ rounds ih =>
      apply Triple.bind _ (spiNorReady_sure faithful supported prompt looks)
      intro ready
      apply Triple.ite
      · rintro rfl
        exact Triple.pure fun _ sure => Sure.zero sure
      · intro waiting
        have next := ih (looks + 1) fun later => by
          rw [Nat.add_right_comm, Nat.add_assoc]
          exact enough later
        apply next.consequence
        · intro history asked
          rw [Asked, if_neg waiting] at asked
          rw [Nat.cast_add, Nat.cast_one]
          exact asked.1
        · exact fun _ _ alive => alive
        · exact fun _ _ absurd => absurd

/-- The driver does not lose its patience. -/
theorem spiNorWaitTillReady_sure (faithful : Faithful dev nor finished start)
    (supported : nor.Supported) (prompt : Prompt dev nor finished start) :
    Triple (Alive nor finished start) (spiNorWaitTillReady dev nor)
      (fun _ => Alive nor finished start) (fun _ _ => False) := by
  apply Triple.get_bind
  intro history alive
  have waits := waitTillReady_sure faithful supported prompt 0 (dev.patience history)
    fun later => by
      rw [Nat.zero_add]
      exact prompt.finishes history later
  exact waits.consequence (fun _ same => by rw [same]; exact alive) (fun _ _ alive => alive)
    fun _ _ absurd => absurd

/-- A write that fits into the FIFO goes out as a whole. -/
theorem alteraAsmip2Write_sure (prompt : Prompt dev nor finished start) (opcode : Byte)
    {addrWidth : Nat} (offset : Nat) {buf : List Byte}
    (fits : buf.length + addrWidth + 1 ≤ qspiFifoDepth) :
    Triple (Alive nor finished start) (alteraAsmip2Write dev opcode addrWidth offset buf)
      (fun written history => written = buf.length ∧ Alive nor finished start history) fail := by
  have all : min buf.length (qspiFifoDepth - (addrWidth + 1)) = buf.length := by
    omega
  apply Triple.attempt_bind
    (transfer_sure prompt (fun some => absurd rfl some) (by decide) (Nat.zero_le _))
  · intro values
    apply Triple.pure
    exact fun _ sure => ⟨all, sure.2.zero⟩
  · exact fun _ _ absurd => absurd.elim

/-- A read gets as many bytes as the FIFO takes. -/
theorem alteraAsmip2Read_sure (prompt : Prompt dev nor finished start) (opcode : Byte)
    (addrWidth offset len : Nat) :
    Triple (Alive nor finished start) (alteraAsmip2Read dev opcode addrWidth offset len)
      (fun data history => data.length = min len qspiFifoDepth ∧
        Alive nor finished start history) fail := by
  apply Triple.attempt_bind
    (transfer_sure prompt (fun some => absurd rfl some) (by decide) (Nat.min_le_right ..))
  · intro values
    apply Triple.pure
    exact fun _ sure => ⟨sure.1.1, sure.2.zero⟩
  · exact fun _ _ absurd => absurd.elim

theorem locked_sure {α : Type} {request : Driver α} {ok : α → Prop}
    (spec : Triple (Alive nor finished start) request
      (fun value history => ok value ∧ Alive nor finished start history) (fun _ _ => False)) :
    Triple (Alive nor finished start) (locked request)
      (fun value history => ok value ∧ Alive nor finished start history) (fun _ _ => False) := by
  have lock : ∀ mutex, Triple (Alive nor finished start) (note (.mutexLock mutex))
      (fun _ => Alive nor finished start) (fun _ _ => False) := fun mutex =>
    Triple.modify fun _ alive => alive.step fun board _ ready busy => ⟨board, rfl, ready, busy⟩
  have unlock : ∀ mutex, Triple (Alive nor finished start) (note (.mutexUnlock mutex))
      (fun _ => Alive nor finished start) (fun _ _ => False) := fun mutex =>
    Triple.modify fun _ alive => alive.step fun board _ ready busy => ⟨board, rfl, ready, busy⟩
  apply Triple.bind _ (lock .lock)
  intro _
  apply Triple.bind _ (lock .busMutex)
  intro _
  apply Triple.attempt_bind spec
  · intro value
    apply Triple.of_fact
    intro holds
    apply Triple.bind _ (unlock .busMutex)
    intro _
    apply Triple.bind _ (unlock .lock)
    intro _
    exact Triple.pure fun _ alive => ⟨holds, alive⟩
  · exact fun _ _ absurd => absurd.elim

end Commands

/-! ## Requests -/

/-- The request is one of whole sectors. -/
def Request.Whole (nor : SpiNor) : Request → Prop
  | .read _ _ => True
  | .write _ _ => True
  | .erase _ len => len % nor.erasesize = 0

section Requests

variable (faithful : Faithful dev nor finished start) (supported : nor.Supported)
  (prompt : Prompt dev nor finished start)

include faithful supported prompt

theorem writePages_sure (page : nor.pageSize + nor.addrWidth + 1 ≤ qspiFifoDepth) (addr : Nat)
    (buf : List Byte) (left i : Nat) (rest : i + left = buf.length) :
    Triple (Alive nor finished start) (writePages dev nor addr buf i)
      (fun out history => out.1 = .ok () ∧ Alive nor finished start history)
      (fun _ _ => False) := by
  induction left using Nat.strong_induction_on generalizing i with
  | h left ih =>
      rw [writePages]
      apply Triple.ite
      · intro more
        have inPage := nor.pageOffset_lt (addr + i)
        generalize remain : min (nor.pageSize - nor.pageOffset (addr + i)) (buf.length - i)
          = pageRemain
        have piece : ((buf.drop i).take pageRemain).length = pageRemain := by
          rw [List.length_take, List.length_drop]
          omega
        apply Triple.bind _ (writeEnable_sure prompt)
        intro _
        apply Triple.bind _ (alteraAsmip2Write_sure prompt _ _ (by omega))
        intro written
        apply Triple.of_fact
        intro all
        rw [piece] at all
        apply Triple.attempt_bind (spiNorWaitTillReady_sure faithful supported prompt)
        · intro _
          apply Triple.ite
          · exact fun _ => ih (left - written) (by omega) (i + written) (by omega)
          · exact fun part => absurd all part
        · exact fun _ _ absurd => absurd.elim
      · exact fun _ => Triple.pure fun _ alive => ⟨rfl, alive⟩

omit faithful supported in
theorem readChunks_sure (len offset : Nat) :
    Triple (Alive nor finished start) (readChunks dev nor offset len)
      (fun out history => out.1 = .ok () ∧ Alive nor finished start history)
      (fun _ _ => False) := by
  induction len using Nat.strong_induction_on generalizing offset with
  | h len ih =>
      rw [readChunks]
      apply Triple.ite
      · exact fun _ => Triple.pure fun _ alive => ⟨rfl, alive⟩
      · intro more
        apply Triple.bind _ (alteraAsmip2Read_sure prompt _ _ _ _)
        intro data
        apply Triple.of_fact
        intro many
        have depth : 0 < qspiFifoDepth := by decide
        apply Triple.ite
        · intro none
          rw [none, List.length_nil] at many
          omega
        · intro _
          apply Triple.bind _ (ih (len - data.length) (by omega) (offset + data.length))
          intro out
          exact Triple.pure fun _ done => done

theorem eraseSectors_sure (sectors addr : Nat) (supports : nor.addrWidth ≤ 4) :
    Triple (Alive nor finished start) (eraseSectors dev nor addr sectors)
      (fun _ => Alive nor finished start) (fun _ _ => False) := by
  induction sectors generalizing addr with
  | zero => exact Triple.pure fun _ alive => alive
  | succ sectors ih =>
      apply Triple.bind _ (writeEnable_sure prompt)
      intro _
      apply Triple.bind _ (alteraAsmip2WriteReg_sure prompt _ _)
      · intro _
        apply Triple.bind _ (spiNorWaitTillReady_sure faithful supported prompt)
        exact fun _ => ih (addr + nor.erasesize)
      · rw [addrBytes_eq_offsetBytes, offsetBytes_length]
        exact Nat.lt_of_le_of_lt supports (by decide)

theorem eraseLocked_sure (addr len : Nat) :
    Triple (Alive nor finished start) (eraseLocked dev nor addr len)
      (fun _ => Alive nor finished start) (fun _ _ => False) := by
  apply Triple.bind (fun _ => Alive nor finished start)
  · apply Triple.ite
    · intro _
      apply Triple.bind _ (writeEnable_sure prompt)
      intro _
      apply Triple.bind (fun _ => Alive nor finished start)
      · apply Triple.attempt_bind
          (alteraAsmip2WriteReg_sure prompt spinorOpChipErase (by decide))
        · exact fun _ => Triple.pure fun _ alive => alive
        · exact fun _ _ absurd => absurd.elim
      · exact fun _ => spiNorWaitTillReady_sure faithful supported prompt
    · exact fun _ => eraseSectors_sure faithful supported prompt _ addr supported.width
  · exact fun _ => writeDisable_sure prompt

theorem perform_sure (page : nor.pageSize + nor.addrWidth + 1 ≤ qspiFifoDepth) {request : Request}
    (whole : request.Whole nor) :
    Triple (Alive nor finished start) (perform dev nor request)
      (fun _ => Alive nor finished start) (fun _ _ => False) := by
  cases request with
  | read offset len =>
      apply Triple.bind _ (locked_sure (readChunks_sure prompt len offset))
      intro out
      apply Triple.of_fact
      intro normal
      apply Triple.bind (fun _ => Alive nor finished start)
      · apply Triple.conclude
        · exact fun _ _ _ alive => alive
        · exact fun err failed => by rw [normal] at failed; cases failed
      · exact fun _ => Triple.pure fun _ alive => alive
  | write addr buf =>
      apply Triple.bind _ (locked_sure
        (writePages_sure faithful supported prompt page addr buf buf.length 0 (Nat.zero_add _)))
      intro out
      apply Triple.of_fact
      intro normal
      apply Triple.bind (fun _ => Alive nor finished start)
      · apply Triple.conclude
        · exact fun _ _ _ alive => alive
        · exact fun err failed => by rw [normal] at failed; cases failed
      · exact fun _ => Triple.pure fun _ alive => alive
  | erase addr len =>
      apply Triple.bind (fun _ => Alive nor finished start)
      · apply Triple.bind (fun _ => Alive nor finished start)
        · apply Triple.throwIf
          · exact fun part => absurd whole part
          · exact fun _ _ alive => alive
        · intro _
          have erases := eraseLocked_sure faithful supported prompt addr len
          apply (locked_sure (erases.consequence (fun _ alive => alive)
            (fun _ _ alive => ⟨trivial, alive⟩) fun _ _ absurd => absurd)).consequence
          · exact fun _ alive => alive
          · exact fun _ _ both => both.2
          · exact fun _ _ absurd => absurd
      · exact fun _ => Triple.pure fun _ alive => alive

theorem performAll_sure (page : nor.pageSize + nor.addrWidth + 1 ≤ qspiFifoDepth)
    (requests : List Request) (whole : ∀ request ∈ requests, request.Whole nor) :
    Triple (Alive nor finished start) (performAll dev nor requests)
      (fun _ => Alive nor finished start) (fun _ _ => False) := by
  induction requests with
  | nil => exact Triple.pure fun _ alive => alive
  | cons request rest ih =>
      apply Triple.bind _ (perform_sure faithful supported prompt page (whole request (.head rest)))
      intro buf
      apply Triple.bind _ (ih fun other member => whole other (.tail request member))
      exact fun _ => Triple.pure fun _ alive => alive

end Requests

/-- The board is known, nothing is going on in the controller, and the chip has a property. -/
def Rests (nor : SpiNor) (finished : List Event → Bool) (start : Board) (P : Chip → Prop)
    (history : List Event) : Prop :=
  ∃ board, Board.after nor finished start history = some board ∧ Ready P board

/-- What is known of a chip after a program that does not fail is so. -/
theorem Rests.of_sure {α : Type} {program : Driver α} {P : Chip → Prop} {Q : α → Chip → Prop}
    {fail : Errno → List Event → Prop}
    (sure : Triple (Alive nor finished start) program (fun _ => Alive nor finished start)
      (fun _ _ => False))
    (spec : Triple (Idle nor finished start P) program
      (fun value => Idle nor finished start (Q value)) fail) :
    Triple (Rests nor finished start P) program (fun value => Rests nor finished start (Q value))
      (fun _ _ => False) := by
  apply (sure.and spec).consequence
  · rintro history ⟨board, here, ready⟩
    constructor
    · exact ⟨board, here, ⟨ready.tx, ready.underway, trivial⟩, fun _ => zero_le⟩
    · exact Sure.known ⟨board, here, ready, fun _ => zero_le⟩
  · rintro value history ⟨⟨board, here, _⟩, known⟩
    exact ⟨board, here, Known.of_after known board here⟩
  · exact fun _ _ absurd => absurd.1

/-- Over prompt hardware whose FIFO takes a page, every sequence of requests within the chip
succeeds, with the effects and the answers of the NOR memory. -/
theorem performAll_succeeds (faithful : Faithful dev nor finished start)
    (supported : nor.Supported) (prompt : Prompt dev nor finished start)
    (page : nor.pageSize + nor.addrWidth + 1 ≤ qspiFifoDepth) (mem : Nat → Byte) (sr : Byte)
    (requests : List Request) (allowed : ∀ request ∈ requests, request.Allowed nor sr)
    (whole : ∀ request ∈ requests, request.Whole nor) :
    Triple (Rests nor finished start (Quiet mem sr)) (performAll dev nor requests)
      (fun bufs => Rests nor finished start fun chip =>
        Quiet (Request.effects nor mem requests) sr chip ∧ bufs = Request.answers nor mem requests)
      (fun _ _ => False) :=
  Rests.of_sure (performAll_sure faithful supported prompt page requests whole)
    (performAll_spec faithful supported mem requests allowed)

theorem performAll_succeeds_small : ∃ bufs history,
    performAll (promptDevice smallNor (fun _ => true) calmBoard) smallNor
        [.erase 8 16, .write 10 [1, 2, 3, 4, 5, 6, 7], .read 6 6] [] = .ok bufs history ∧
      bufs = [[], [], [0x5A, 0x5A, 0xFF, 0xFF, 1, 2]] := by
  have total := performAll_succeeds (promptDevice_faithful smallNor (fun _ => true) calmBoard)
    smallNor_supported (promptDevice_prompt calmBoard rfl) (by decide) (fun _ => 0x5A) 0
    [.erase 8 16, .write 10 [1, 2, 3, 4, 5, 6, 7], .read 6 6]
    (by
      intro request member
      simp only [List.mem_cons, List.not_mem_nil, or_false] at member
      rcases member with rfl | rfl | rfl
      · exact ⟨by decide, free_of_unprotected (by decide) _ _⟩
      · exact ⟨by decide, free_of_unprotected (by decide) _ _⟩
      · show 6 + 6 ≤ 1024
        decide)
    (by
      intro request member
      simp only [List.mem_cons, List.not_mem_nil, or_false] at member
      rcases member with rfl | rfl | rfl <;> trivial)
  obtain ⟨bufs, history, ran, _, _, ready⟩ := total.succeeds []
    ⟨calmBoard, rfl, rfl, rfl, ⟨rfl, rfl⟩, rfl⟩
  exact ⟨bufs, history, ran, ready.chip.2⟩

end OpaeXilinx.Nor
