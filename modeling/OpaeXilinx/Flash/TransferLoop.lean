import Mathlib.Data.Nat.Find
import OpaeXilinx.Flash.FinalTransfer
import OpaeXilinx.Flash.Xspi

/-!
# The transfer loop

What has been written, shifted and received so far determines the FIFOs, the record of the
bus and the variables of `finalTransfer`.  The bytes on their way never outnumber the depth
of the FIFOs, every poll ends because the controller goes on shifting, and every round
receives a byte at least.
-/

namespace OpaeXilinx.Flash.Polled

open OpaeXilinx.Base

/-- The bytes of a buffer from one index up to another. -/
def segment (bytes : Nat → Byte) (first last : Nat) : List Byte :=
  (List.range' first (last - first)).map bytes

theorem segment_self (bytes : Nat → Byte) (i : Nat) : segment bytes i i = [] := by
  simp [segment]

theorem segment_length (bytes : Nat → Byte) (first last : Nat) :
    (segment bytes first last).length = last - first := by
  simp [segment]

theorem segment_cons (bytes : Nat → Byte) {first last : Nat} (more : first < last) :
    segment bytes first last = bytes first :: segment bytes (first + 1) last := by
  rw [segment, show last - first = last - (first + 1) + 1 by omega, List.range'_succ]
  rfl

theorem segment_snoc (bytes : Nat → Byte) {first last : Nat} (le : first ≤ last) :
    segment bytes first (last + 1) = segment bytes first last ++ [bytes last] := by
  rw [segment, show last + 1 - first = last - first + 1 by omega, List.range'_1_concat,
    List.map_append, List.map_singleton, show first + (last - first) = last by omega]
  rfl

/-- Bytes have been written, shifted and read: what is in the FIFOs then, and what has been on
the bus. -/
structure Fifos (env : QspiEnv) (sendBuf : Nat → Byte) (lead : List BusEvent)
    (written shifted received : Nat) (dev : Qspi) : Prop where
  tx : dev.tx = segment sendBuf shifted written
  rx : dev.rx = segment env.reply received shifted
  received_le : received ≤ shifted
  shifted_le : shifted ≤ written
  fits : written ≤ received + env.depth
  intact : dev.overflowed = false
  shifted_eq : dev.shifted = shifted
  bus : dev.bus = lead ++ (List.range shifted).map fun i => .shift (sendBuf i) (env.reply i)

namespace Fifos

variable {env : QspiEnv} {sendBuf : Nat → Byte} {lead : List BusEvent}
  {written shifted received : Nat} {dev : Qspi}

theorem shift (fifos : Fifos env sendBuf lead written shifted received dev)
    (more : shifted < written) :
    Fifos env sendBuf lead written (shifted + 1) received (dev.shift env) := by
  have tx : dev.tx = sendBuf shifted :: segment sendBuf (shifted + 1) written := by
    rw [fifos.tx, segment_cons sendBuf more]
  have room : dev.rx.length < env.depth := by
    have fits := fifos.fits
    have order := fifos.received_le
    rw [fifos.rx, segment_length]
    omega
  rw [Qspi.shift, tx]
  refine ⟨rfl, ?_, Nat.le_succ_of_le fifos.received_le, more, fifos.fits, ?_, ?_, ?_⟩
  · simp only [if_pos room]
    rw [fifos.rx, fifos.shifted_eq, segment_snoc env.reply fifos.received_le]
  · simp [fifos.intact, room]
  · exact congrArg (· + 1) fifos.shifted_eq
  · simp only [fifos.bus, fifos.shifted_eq, List.range_succ, List.map_append, List.map_singleton,
      List.append_assoc]

theorem shift_none (fifos : Fifos env sendBuf lead written shifted received dev)
    (done : written ≤ shifted) : dev.shift env = dev := by
  have empty : dev.tx = [] := by
    rw [fifos.tx, Nat.le_antisymm done fifos.shifted_le, segment_self]
  rw [Qspi.shift, empty]

theorem shifts (fifos : Fifos env sendBuf lead written shifted received dev) (count : Nat) :
    Fifos env sendBuf lead written (min (shifted + count) written) received
      (dev.shifts env count) := by
  induction count generalizing dev shifted with
  | zero =>
      rw [Nat.add_zero, Nat.min_eq_left fifos.shifted_le]
      exact fifos
  | succ count ih =>
      rw [Qspi.shifts]
      rcases Nat.lt_or_ge shifted written with more | done
      · have rest := ih (fifos.shift more)
        rwa [Nat.add_assoc, Nat.add_comm 1 count] at rest
      · have rest := ih fifos
        rw [fifos.shift_none done]
        rw [Nat.min_eq_right (Nat.le_add_right_of_le done)] at rest ⊢
        exact rest

/-- While the transmitter is inhibited nothing moves; else bytes move as the schedule has it. -/
theorem elapse (fifos : Fifos env sendBuf lead written shifted received dev) :
    Fifos env sendBuf lead written
      (if dev.Inhibited then shifted else min (shifted + env.drain dev.ticks) written) received
      (dev.elapse env) := by
  rw [Qspi.elapse]
  by_cases stopped : dev.Inhibited
  · simp only [if_pos stopped]
    exact { fifos with }
  · simp only [if_neg stopped]
    exact { fifos.shifts (env.drain dev.ticks) with }

end Fifos

/-- The buffers of a call. -/
structure Job where
  sendBuf : Nat → Byte
  recvBuf : Option (Nat → Byte)
  byteCount : Nat

/-- The variables agree with the FIFOs. -/
structure At (env : QspiEnv) (job : Job) (lead : List BusEvent) (inhibited : Bool)
    (written shifted received : Nat) (w : Xfer) : Prop where
  fifos : Fifos env job.sendBuf lead written shifted received w.device
  stopped : w.device.Inhibited ↔ inhibited = true
  written_le : written ≤ job.byteCount
  sendPtr : w.sendBufferPtr = written
  remaining : w.remainingBytes = job.byteCount - written
  count : w.byteCount = job.byteCount - received
  recvBuf : w.recvBuf =
    job.recvBuf.map fun buffer i => if i < received then env.reply i else buffer i
  recvPtr : w.recvBuf ≠ none → w.recvBufferPtr = received

/-- The status register has been read last. -/
def Fresh (env : QspiEnv) (w : Xfer) : Prop := w.statusReg = w.device.status env

/-- How many bytes are shifted after the next access. -/
def moved (env : QspiEnv) (inhibited : Bool) (written shifted ticks : Nat) : Nat :=
  if inhibited = true then shifted else min (shifted + env.drain ticks) written

theorem moved_all (env : QspiEnv) (inhibited : Bool) (written ticks : Nat) :
    moved env inhibited written written ticks = written := by
  rw [moved]
  split <;> omega

theorem moved_stopped (env : QspiEnv) (written shifted ticks : Nat) :
    moved env true written shifted ticks = shifted := if_pos rfl

section Accesses

variable {env : QspiEnv} {job : Job} {lead : List BusEvent} {inhibited : Bool}
  {written shifted received : Nat} {w : Xfer}

theorem At.elapse (now : At env job lead inhibited written shifted received w) :
    At env job lead inhibited written (moved env inhibited written shifted w.device.ticks) received
      { w with device := w.device.elapse env } := by
  have fifos := now.fifos.elapse
  simp only [now.stopped] at fifos
  refine { now with fifos, stopped := ?_ }
  rw [← now.stopped, Qspi.Inhibited, Qspi.elapse_control]
  rfl

theorem At.loadStatusReg (now : At env job lead inhibited written shifted received w) :
    Ends (fun _ => loadStatusReg env) w fun _ after =>
      At env job lead inhibited written (moved env inhibited written shifted w.device.ticks)
        received after ∧
      Fresh env after ∧ after.device.ticks = w.device.ticks + 1 :=
  .of_ok rfl ⟨{ now.elapse with }, rfl, rfl⟩

theorem At.loadControlReg (now : At env job lead inhibited written shifted received w) :
    Ends (fun _ => loadControlReg env) w fun _ after =>
      At env job lead inhibited written (moved env inhibited written shifted w.device.ticks)
        received after ∧
      after.controlReg =
        after.device.control &&& ~~~(xspCrTxfifoResetMask ||| xspCrRxfifoResetMask) :=
  .of_ok rfl ⟨{ now.elapse with }, rfl⟩

/-- Writing the control register without the reset bits inhibits the transmitter or not. -/
theorem At.writeControl (now : At env job lead inhibited written shifted received w) {value : Word}
    (tx : value &&& xspCrTxfifoResetMask = 0) (rx : value &&& xspCrRxfifoResetMask = 0)
    {stops : Bool} (bit : value &&& xspCrTransInhibitMask ≠ 0 ↔ stops = true) :
    Ends (fun _ => flashWrite env .cr value) w fun _ after =>
      At env job lead stops written (moved env inhibited written shifted w.device.ticks)
        received after := by
  refine .of_ok rfl ?_
  have elapsed := now.elapse
  refine { elapsed with fifos := { elapsed.fifos with tx := ?_, rx := ?_ }, stopped := bit }
  · exact (if_pos tx).trans elapsed.fifos.tx
  · exact (if_pos rx).trans elapsed.fifos.rx

theorem At.txFull (now : At env job lead inhibited written shifted received w)
    (fresh : Fresh env w) :
    w.statusReg &&& xspSrTxFullMask = 0 ↔ written - shifted < env.depth := by
  rw [fresh, Qspi.status_txFull, now.fifos.tx, segment_length]

theorem segment_ne_nil {bytes : Nat → Byte} {first last : Nat} :
    segment bytes first last ≠ [] ↔ first < last := by
  rw [ne_eq, ← List.length_eq_zero_iff, segment_length]
  omega

theorem At.txEmpty (now : At env job lead inhibited written shifted received w)
    (fresh : Fresh env w) : w.statusReg &&& xspSrTxEmptyMask = 0 ↔ shifted < written := by
  rw [fresh, Qspi.status_txEmpty, now.fifos.tx, segment_ne_nil]

theorem At.rxEmpty (now : At env job lead inhibited written shifted received w)
    (fresh : Fresh env w) : w.statusReg &&& xspSrRxEmptyMask = 0 ↔ received < shifted := by
  rw [fresh, Qspi.status_rxEmpty, now.fifos.rx, segment_ne_nil]

theorem Fresh.checkCommand (fresh : Fresh env w) {post : Unit → Xfer → Prop} (holds : post () w) :
    Ends (fun _ => checkCommand) w post := by
  have passes : ¬ w.statusReg &&& xspSrCmdErrMask ≠ 0 := by
    rw [fresh, Qspi.status_cmdErr]
    exact fun differs => differs rfl
  exact .steps (fun _ => rfl) (.throwIf passes holds)

/-- The next byte has been written to the transmit FIFO. -/
def Xfer.sent (env : QspiEnv) (sendBuf : Nat → Byte) (w : Xfer) : Xfer :=
  { w with
    data := (sendBuf w.sendBufferPtr).setWidth 32
    device := (w.device.elapse env).write env ((sendBuf w.sendBufferPtr).setWidth 32) .dtr
    sendBufferPtr := w.sendBufferPtr + 1
    remainingBytes := w.remainingBytes - 1 }

theorem setWidth_byte (byte : Byte) : (byte.setWidth 32).setWidth 8 = byte := by
  rw [BitVec.setWidth_setWidth_of_le _ (by decide), BitVec.setWidth_eq]

theorem At.sent (now : At env job lead true written received received w)
    (more : written < job.byteCount) (room : written - received < env.depth) :
    At env job lead true (written + 1) received received (w.sent env job.sendBuf) := by
  have elapsed := now.elapse
  have order := now.fifos.shifted_le
  have size : (w.device.elapse env).tx.length < env.depth := by
    rw [elapsed.fifos.tx, segment_length]
    exact room
  have device : (w.sent env job.sendBuf).device = { w.device.elapse env with
      tx := (w.device.elapse env).tx ++ [job.sendBuf written] } := by
    show Qspi.write env _ _ .dtr = _
    rw [Qspi.write, if_pos size, setWidth_byte, now.sendPtr]
  refine { now with fifos := ?_, stopped := ?_, written_le := more, sendPtr := ?_, remaining := ?_ }
  · rw [device]
    refine { elapsed.fifos with tx := ?_, shifted_le := Nat.le_succ_of_le order, fits := ?_ }
    · rw [segment_snoc job.sendBuf order]
      exact congrArg (· ++ _) elapsed.fifos.tx
    · omega
  · rw [device]
    exact elapsed.stopped
  · exact congrArg (· + 1) now.sendPtr
  · show w.remainingBytes - 1 = _
    rw [now.remaining]
    omega

/-- A byte goes into a FIFO that has room. -/
theorem At.fillRound (now : At env job lead true written received received w)
    (more : written < job.byteCount) (room : written - received < env.depth) :
    Ends (fun _ => fillRound env job.sendBuf) w fun _ after =>
      At env job lead true (written + 1) received received after ∧ Fresh env after := by
  have rest : Ends (fun _ => do
      Polled.loadStatusReg env
      Polled.checkCommand) (w.sent env job.sendBuf) fun _ after =>
        At env job lead true (written + 1) received received after ∧ Fresh env after :=
    .bind _ (now.sent more room).loadStatusReg fun _ after loaded =>
      loaded.2.1.checkCommand ⟨loaded.1, loaded.2.1⟩
  exact .steps (fun _ => rfl) rest

/-- The loop fills the FIFO with as many bytes as it takes or as there are. -/
theorem At.fill (now : At env job lead true written received received w) (fresh : Fresh env w) :
    Ends (fill env job.sendBuf) w fun _ after => ∃ written',
      At env job lead true written' received received after ∧
      (written' = job.byteCount ∨ written' = received + env.depth) := by
  refine Ends.consequence (Ends.whileLoop
    (InvImage.wf (fun w : Xfer => w.remainingBytes.toNat) Nat.lt_wfRel.wf)
    (fun w => ∃ written', At env job lead true written' received received w ∧ Fresh env w)
    ⟨written, now, fresh⟩ ?_) ?_
  · rintro state ⟨written', there, fresh⟩ ⟨room, more⟩
    rw [there.txFull fresh] at room
    rw [gt_iff_lt, there.remaining] at more
    apply (there.fillRound (by omega) room).consequence
    rintro _ after ⟨next, fresh'⟩
    refine ⟨⟨_, next, fresh'⟩, ?_⟩
    show after.remainingBytes.toNat < state.remainingBytes.toNat
    rw [next.remaining, there.remaining]
    omega
  · rintro _ after ⟨⟨written', there, fresh⟩, ends⟩
    refine ⟨written', there, ?_⟩
    rw [there.txFull fresh, there.remaining] at ends
    have order := there.written_le
    have fits := there.fifos.fits
    have le := there.fifos.shifted_le
    omega

theorem update_received (buffer replies : Nat → Byte) (received : Nat) :
    Function.update (fun i => if i < received then replies i else buffer i) received
        (replies received) =
      fun i => if i < received + 1 then replies i else buffer i := by
  funext i
  rw [Function.update_apply]
  by_cases last : i = received
  · rw [if_pos last, if_pos (by omega), last]
  · rw [if_neg last]
    by_cases before : i < received
    · rw [if_pos before, if_pos (by omega)]
    · rw [if_neg before, if_neg (by omega)]

/-- The next byte has been read from the receive FIFO. -/
def Xfer.drained (env : QspiEnv) (w : Xfer) : Xfer :=
  let (value, device) := (w.device.elapse env).read env .drr
  let w := { w with data := value, device }.receive
  { w with bytesTransferred := w.bytesTransferred + 1, byteCount := w.byteCount - 1 }

theorem At.drained (now : At env job lead true written shifted received w)
    (more : received < shifted) :
    At env job lead true written shifted (received + 1) (w.drained env) := by
  have elapsed := now.elapse
  have rx : (w.device.elapse env).rx =
      env.reply received :: segment env.reply (received + 1) shifted := by
    rw [← segment_cons env.reply more]
    exact elapsed.fifos.rx
  have fits := now.fifos.fits
  have read : (w.device.elapse env).read env .drr =
      ((env.reply received).setWidth 32,
        { w.device.elapse env with rx := segment env.reply (received + 1) shifted }) := by
    simp only [Qspi.read, rx]
  have fifos : Fifos env job.sendBuf lead written shifted (received + 1)
      { w.device.elapse env with rx := segment env.reply (received + 1) shifted } :=
    { elapsed.fifos with
      rx := rfl
      received_le := more
      fits := by omega }
  have count : w.byteCount - 1 = job.byteCount - ((received + 1 : Nat) : Int) := by
    rw [now.count]
    omega
  rw [Xfer.drained, read]
  have recvBuf := now.recvBuf
  cases given : job.recvBuf with
  | none =>
      rw [given, Option.map_none] at recvBuf
      simp only [Xfer.receive, recvBuf]
      exact { now with
        fifos, count
        stopped := elapsed.stopped
        recvBuf := by rw [given]; rfl
        recvPtr := fun some => absurd rfl some }
  | some buffer =>
      rw [given, Option.map_some] at recvBuf
      have recvPtr := now.recvPtr (by rw [recvBuf]; exact nofun)
      simp only [Xfer.receive, recvBuf]
      exact { now with
        fifos, count
        stopped := elapsed.stopped
        recvBuf := by
          rw [given, Option.map_some, recvPtr, setWidth_byte, update_received]
        recvPtr := fun _ => congrArg (· + 1) recvPtr }

/-- A byte is taken from a FIFO that has one. -/
theorem At.drainRound (now : At env job lead true written shifted received w)
    (more : received < shifted) :
    Ends (fun _ => drainRound env) w fun _ after =>
      At env job lead true written shifted (received + 1) after ∧ Fresh env after := by
  have rest : Ends (fun _ => do
      Polled.loadStatusReg env
      Polled.checkCommand) (w.drained env) fun _ after =>
        At env job lead true written shifted (received + 1) after ∧ Fresh env after :=
    .bind _ (now.drained more).loadStatusReg fun _ after loaded =>
      loaded.2.1.checkCommand ⟨loaded.1, loaded.2.1⟩
  exact .steps (fun _ => rfl) rest

/-- The loop reads all there is. -/
theorem At.drainRx (now : At env job lead true written shifted received w) (fresh : Fresh env w) :
    Ends (drainRx env) w fun _ after => At env job lead true written shifted shifted after := by
  refine Ends.consequence (Ends.whileLoop
    (InvImage.wf (fun w : Xfer => w.device.rx.length) Nat.lt_wfRel.wf)
    (fun w => ∃ received', At env job lead true written shifted received' w ∧ Fresh env w)
    ⟨received, now, fresh⟩ ?_) ?_
  · rintro state ⟨received', there, fresh⟩ more
    rw [there.rxEmpty fresh] at more
    apply (there.drainRound more).consequence
    rintro _ after ⟨next, fresh'⟩
    refine ⟨⟨_, next, fresh'⟩, ?_⟩
    show after.device.rx.length < state.device.rx.length
    rw [next.fifos.rx, there.fifos.rx, segment_length, segment_length]
    omega
  · rintro _ after ⟨⟨received', there, fresh⟩, ends⟩
    rw [there.rxEmpty fresh] at ends
    have order := there.fifos.received_le
    rwa [show received' = shifted by omega] at there

/-- Everything that has been written has been shifted when the transmitter is stopped. -/
theorem At.inhibit (now : At env job lead inhibited written written received w) :
    Ends (fun _ => inhibit env) w fun _ after =>
      At env job lead true written written received after := by
  refine .bind _ now.loadControlReg ?_
  rintro _ state ⟨here, read⟩
  rw [moved_all] at here
  have tx : (state.controlReg ||| xspCrTransInhibitMask) &&& xspCrTxfifoResetMask = 0 := by
    rw [BitVec.and_or_distrib_right, read, Qspi.and_not_and (by decide)]
    decide
  have rx : (state.controlReg ||| xspCrTransInhibitMask) &&& xspCrRxfifoResetMask = 0 := by
    rw [BitVec.and_or_distrib_right, read, Qspi.and_not_and (by decide)]
    decide
  have bit : (state.controlReg ||| xspCrTransInhibitMask) &&& xspCrTransInhibitMask ≠ 0 ↔
      true = true := by
    refine iff_of_true (fun clear => ?_) rfl
    have eighth := congrArg (fun value : Word => value.getLsbD 8) clear
    simp [xspCrTransInhibitMask] at eighth
  have stop := here.writeControl tx rx bit
  rw [moved_all] at stop
  have rest : Ends (fun _ => do
      let _ ← flashWrite env .cr (state.controlReg ||| xspCrTransInhibitMask)) state fun _ after =>
        At env job lead true written written received after :=
    .bind _ stop fun _ _ after => .pure after
  exact .steps (fun _ => rfl) rest

theorem At.release (now : At env job lead true written shifted received w) :
    Ends (fun _ => release env) w fun _ after =>
      At env job lead false written shifted received after := by
  refine .bind _ now.loadControlReg ?_
  rintro _ state ⟨here, read⟩
  obtain ⟨value, isValue⟩ : ∃ value, value = state.controlReg &&& ~~~xspCrTransInhibitMask :=
    ⟨_, rfl⟩
  have tx : value &&& xspCrTxfifoResetMask = 0 := by
    rw [isValue, BitVec.and_assoc, read]
    exact Qspi.and_not_and (by decide) _
  have rx : value &&& xspCrRxfifoResetMask = 0 := by
    rw [isValue, BitVec.and_assoc, read]
    exact Qspi.and_not_and (by decide) _
  have bit : value &&& xspCrTransInhibitMask ≠ 0 ↔ false = true := by
    rw [isValue, Qspi.and_not_and (by decide)]
    simp
  have start := At.writeControl (w := { state with controlReg := value }) { here with } tx rx bit
  have rest : Ends (fun _ => do let _ ← flashWrite env .cr value)
      { state with controlReg := value } fun _ after =>
        At env job lead false written shifted received after :=
    .bind _ start fun _ _ after => .pure after
  subst isValue
  exact .steps (fun _ => rfl) rest

end Accesses

section Waiting

variable {env : QspiEnv} {job : Job} {lead : List BusEvent}

/-- The controller always goes on to shift bytes at some time. -/
def Fair (env : QspiEnv) : Prop := ∀ tick, ∃ later, tick ≤ later ∧ 0 < env.drain later

/-- How many accesses it takes until the controller is going to shift a byte. -/
def wait (fair : Fair env) (tick : Nat) : Nat := Nat.find (fair tick) - tick

theorem wait_succ (fair : Fair env) {tick : Nat} (idle : env.drain tick = 0) :
    wait fair (tick + 1) < wait fair tick := by
  obtain ⟨later, drains⟩ := Nat.find_spec (fair tick)
  have differs : Nat.find (fair tick) ≠ tick := by
    intro same
    rw [same, idle] at drains
    exact Nat.lt_irrefl 0 drains
  have least : Nat.find (fair (tick + 1)) ≤ Nat.find (fair tick) :=
    Nat.find_min' _ ⟨by omega, drains⟩
  rw [wait, wait]
  omega

/-- The poll ends when everything has been shifted. -/
theorem At.pollTxEmpty (fair : Fair env) {written shifted received : Nat} {w : Xfer}
    (now : At env job lead false written shifted received w) :
    Ends (pollTxEmpty env) w fun _ after =>
      At env job lead false written written received after := by
  refine .bind _ now.loadStatusReg ?_
  rintro _ state ⟨here, fresh, -⟩
  refine Ends.consequence (Ends.whileLoop
    (InvImage.wf (fun w : Xfer => (w.device.tx.length, wait fair w.device.ticks))
      (Prod.lex Nat.lt_wfRel Nat.lt_wfRel).wf)
    (fun w => ∃ shifted', At env job lead false written shifted' received w ∧ Fresh env w)
    ⟨_, here, fresh⟩ ?_) ?_
  · rintro state ⟨shifted', there, fresh⟩ more
    rw [there.txEmpty fresh] at more
    refine there.loadStatusReg.consequence ?_
    rintro _ after ⟨next, fresh', ticks⟩
    refine ⟨⟨_, next, fresh'⟩, ?_⟩
    show Prod.Lex _ _ (after.device.tx.length, wait fair after.device.ticks)
      (state.device.tx.length, wait fair state.device.ticks)
    rw [next.fifos.tx, there.fifos.tx, segment_length, segment_length, ticks, moved,
      if_neg Bool.false_ne_true]
    by_cases idle : env.drain state.device.ticks = 0
    · -- nothing has been shifted, but the next byte is nearer
      rw [idle, Nat.add_zero, Nat.min_eq_left (Nat.le_of_lt more)]
      exact .right _ (wait_succ fair idle)
    · have fewer : written - min (shifted' + env.drain state.device.ticks) written <
          written - shifted' := by omega
      exact .left _ _ fewer
  · rintro _ after ⟨⟨shifted', there, fresh⟩, ends⟩
    rw [there.txEmpty fresh] at ends
    have order := there.fifos.shifted_le
    rwa [show shifted' = written by omega] at there

/-- Between two rounds, bytes are on their way and the transmitter runs, or all is done. -/
def Between (env : QspiEnv) (job : Job) (lead : List BusEvent) (w : Xfer) : Prop :=
  (∃ written shifted received, received < written ∧
    At env job lead false written shifted received w) ∨
  At env job lead true job.byteCount job.byteCount job.byteCount w

/-- A refill sends more, when there is more to be sent. -/
theorem At.refill (deep : 1 ≤ env.depth) {sent : Nat} {w : Xfer}
    (now : At env job lead true sent sent sent w) (more : sent < job.byteCount) :
    Ends (refill env job.sendBuf) w fun _ after => ∃ written, sent < written ∧
      At env job lead false written sent sent after := by
  refine .bind _ now.loadStatusReg ?_
  rintro _ state ⟨here, fresh, -⟩
  rw [moved_all] at here
  refine .bind _ (here.fill fresh) ?_
  rintro _ state ⟨written, filled, full⟩
  refine filled.release.consequence ?_
  rintro _ after started
  exact ⟨written, by omega, started⟩

/-- Every round receives what was on its way. -/
theorem At.transferRound (deep : 1 ≤ env.depth) (fair : Fair env)
    {written shifted received : Nat} {w : Xfer} (underway : received < written)
    (now : At env job lead false written shifted received w) :
    Ends (transferRound env job.sendBuf) w fun _ after =>
      Between env job lead after ∧ after.byteCount.toNat < w.byteCount.toNat := by
  have order := now.written_le
  refine .bind _ (now.pollTxEmpty fair) ?_
  rintro _ state polled
  refine .bind _ polled.inhibit ?_
  rintro _ state inhibited
  refine .bind _ inhibited.loadControlReg ?_
  rintro _ state ⟨here, -⟩
  rw [moved_all] at here
  refine .bind _ here.loadStatusReg ?_
  rintro _ state ⟨here, fresh, -⟩
  rw [moved_all] at here
  refine .bind _ (here.drainRx fresh) ?_
  rintro _ state drained
  have fewer : ∀ {more shifted : Nat} {stopped : Bool} {after : Xfer},
      At env job lead stopped more shifted written after →
        after.byteCount.toNat < w.byteCount.toNat := by
    intro more shifted stopped after there
    rw [there.count, now.count]
    omega
  refine .get_bind (.runIf (fun more => ?_) fun all => ?_)
  · rw [gt_iff_lt, drained.remaining] at more
    refine (drained.refill deep (by omega)).consequence ?_
    rintro _ after ⟨more, further, started⟩
    exact ⟨.inl ⟨more, written, written, further, started⟩, fewer started⟩
  · rw [gt_iff_lt, drained.remaining] at all
    have whole : written = job.byteCount := by omega
    exact ⟨.inr (whole ▸ drained), fewer drained⟩

/-- The rounds receive everything. -/
theorem Between.rounds (deep : 1 ≤ env.depth) (fair : Fair env) {w : Xfer}
    (between : Between env job lead w) :
    Ends (whileLoop Halt.exhausted (fun w => w.byteCount > 0) (transferRound env job.sendBuf)) w
      fun _ after => At env job lead true job.byteCount job.byteCount job.byteCount after := by
  refine Ends.consequence (Ends.whileLoop
    (InvImage.wf (fun w : Xfer => w.byteCount.toNat) Nat.lt_wfRel.wf)
    (Between env job lead) between ?_) ?_
  · rintro state (⟨written, shifted, received, underway, now⟩ | now) more
    · exact now.transferRound deep fair underway
    · rw [now.count] at more
      omega
  · rintro _ after ⟨⟨written, shifted, received, underway, now⟩ | now, ends⟩
    · have order := now.written_le
      rw [now.count] at ends
      omega
    · exact now

end Waiting

/-! ## The transfer -/

/-- A controller at rest: the FIFOs are empty and the transmitter is inhibited.  The record of
the bus begins here. -/
structure Idle (dev : Qspi) : Prop where
  tx : dev.tx = []
  rx : dev.rx = []
  stopped : dev.Inhibited
  intact : dev.overflowed = false
  shifted : dev.shifted = 0
  bus : dev.bus = []

/-- What has happened on the bus in a transfer of the first bytes of a buffer. -/
def onBus (env : QspiEnv) (sendBuf : Nat → Byte) (slaveIndex : Slave) (byteCount : Nat) :
    List BusEvent :=
  .select (slaveSelectReg slaveIndex) ::
    (List.range byteCount).map (fun i => .shift (sendBuf i) (env.reply i)) ++
      [.select slaveSelectMask]

/-- A transfer has clocked out its bytes while the slave was selected and stored the bytes
that came back, and the controller is at rest with no slave selected. -/
structure Transferred (env : QspiEnv) (job : Job) (slaveIndex : Slave) (w : Xfer) : Prop where
  bus : w.device.bus = onBus env job.sendBuf slaveIndex job.byteCount
  recvBuf : w.recvBuf =
    job.recvBuf.map fun buffer i => if i < job.byteCount then env.reply i else buffer i
  tx : w.device.tx = []
  rx : w.device.rx = []
  intact : w.device.overflowed = false
  stopped : w.device.Inhibited
  deselected : w.device.slaveSelect = slaveSelectMask

theorem Idle.start {env : QspiEnv} {dev : Qspi} (idle : Idle dev) (job : Job) :
    At env job [] true 0 0 0 (.start dev job.recvBuf job.byteCount) where
  fifos := {
    tx := by rw [segment_self]; exact idle.tx
    rx := by rw [segment_self]; exact idle.rx
    received_le := Nat.le_refl _
    shifted_le := Nat.le_refl _
    fits := Nat.zero_le _
    intact := idle.intact
    shifted_eq := idle.shifted
    bus := idle.bus }
  stopped := iff_of_true idle.stopped rfl
  written_le := Nat.zero_le _
  sendPtr := rfl
  remaining := (Int.sub_zero _).symm
  count := (Int.sub_zero _).symm
  recvBuf := by simp [Xfer.start]
  recvPtr _ := rfl

theorem slaveSelectReg_ne (slaveIndex : Slave) : slaveSelectReg slaveIndex ≠ slaveSelectMask := by
  cases slaveIndex <;> decide

/-- The slave is selected before the first byte is shifted. -/
theorem At.select {env : QspiEnv} {job : Job} {written : Nat} {w : Xfer} (value : Word)
    (now : At env job [] true written 0 0 w) :
    Ends (fun _ => flashWrite env .ssr value) w fun _ after =>
      At env job [.select value] true written 0 0 after := by
  refine .of_ok rfl ?_
  have elapsed := now.elapse
  refine { elapsed with fifos := { elapsed.fifos with bus := ?_ } }
  exact congrArg (· ++ [.select value]) elapsed.fifos.bus

/-- Deselecting the slaves completes the record. -/
theorem At.deselect {env : QspiEnv} {job : Job} {slaveIndex : Slave} {w : Xfer}
    (now : At env job [.select (slaveSelectReg slaveIndex)] true job.byteCount job.byteCount
      job.byteCount w) :
    Ends (fun _ => flashWrite env .ssr slaveSelectMask) w fun _ after =>
      Transferred env job slaveIndex after := by
  refine .of_ok rfl ?_
  have elapsed := now.elapse
  rw [moved_all] at elapsed
  have stopped : (w.device.elapse env).control &&& xspCrTransInhibitMask ≠ 0 :=
    elapsed.stopped.mpr rfl
  exact {
    bus := congrArg (· ++ [BusEvent.select slaveSelectMask]) elapsed.fifos.bus
    recvBuf := now.recvBuf
    tx := elapsed.fifos.tx.trans (segment_self ..)
    rx := elapsed.fifos.rx.trans (segment_self ..)
    intact := elapsed.fifos.intact
    stopped
    deselected := rfl }

theorem transfer_ends {env : QspiEnv} (deep : 1 ≤ env.depth) (fair : Fair env) (job : Job)
    (nonempty : 1 ≤ job.byteCount) (slaveIndex : Slave) {dev : Qspi} (idle : Idle dev) :
    Ends (transfer env job.sendBuf slaveIndex) (.start dev job.recvBuf job.byteCount)
      fun _ after => Transferred env job slaveIndex after := by
  refine .bind _ (idle.start job).loadControlReg ?_
  rintro _ state ⟨now, -⟩
  refine .bind _ now.loadStatusReg ?_
  rintro _ state ⟨now, -⟩
  refine .get_bind (.bind (fun _ after => after = state)
    (.throwIf (fun none => slaveSelectReg_ne _ none.2.2) rfl) ?_)
  rintro _ _ rfl
  refine .bind _ now.loadStatusReg ?_
  rintro _ state ⟨now, fresh, -⟩
  simp only [moved_all] at now
  refine .bind (fun _ after => after = state) (fresh.checkCommand rfl) ?_
  rintro _ _ rfl
  -- the first bytes go into the FIFO
  refine .bind _ (now.fill fresh) ?_
  rintro _ state ⟨written, now, full⟩
  refine .bind _ (now.select (slaveSelectReg slaveIndex)) ?_
  rintro _ state now
  refine .bind _ now.loadControlReg ?_
  rintro _ state ⟨now, -⟩
  refine .bind _ now.loadStatusReg ?_
  rintro _ state ⟨now, fresh, -⟩
  simp only [moved_stopped] at now
  refine .bind (fun _ after => after = state) (fresh.checkCommand rfl) ?_
  rintro _ _ rfl
  refine .bind _ now.release ?_
  rintro _ state now
  have between : Between env job [.select (slaveSelectReg slaveIndex)] state :=
    .inl ⟨written, 0, 0, by omega, now⟩
  refine .bind _ (between.rounds deep fair) ?_
  rintro _ state now
  refine .bind _ now.inhibit ?_
  rintro _ state now
  exact .bind _ now.deselect fun _ _ done => .pure done

/-- For every depth, schedule and buffer, `finalTransfer` ends with true.  The bytes of the
send buffer have gone out in order while the chosen slave was selected, those that came
back are in the receive buffer, no FIFO has overflowed, and the controller is left as it
was found, with no slave selected. -/
theorem finalTransfer_transfers (env : QspiEnv) (deep : 1 ≤ env.depth) (fair : Fair env) (job : Job)
    (nonempty : 1 ≤ job.byteCount) (slaveIndex : Slave) (dev : Qspi) (idle : Idle dev) :
    ∃ after, Transferred env job slaveIndex after ∧ ∃ least, ∀ fuel ≥ least,
      finalTransfer env job.sendBuf slaveIndex job.recvBuf job.byteCount fuel dev =
        (some true, after) := by
  obtain ⟨_, after, done, least, ran⟩ := transfer_ends deep fair job nonempty slaveIndex idle
  refine ⟨after, done, least, fun fuel sufficient => ?_⟩
  rw [finalTransfer, ran fuel sufficient]

/-- FIFOs of two bytes, and a byte shifted before every third access. -/
def slowEnv : QspiEnv where
  depth := 2
  drain tick := if tick % 3 = 0 then 1 else 0
  reply i := .ofNat 8 i
  other _ := 0

theorem slowEnv_fair : Fair slowEnv :=
  fun tick => ⟨3 * tick, by omega, by simp [slowEnv]⟩

/-- A master at rest. -/
def atRest : Qspi := ⟨0x186, slaveSelectMask, [], [], false, 0, 0, []⟩

/-- Five bytes go to the second slave over FIFOs of two. -/
theorem finalTransfer_transfers_five :
    ∃ after, Transferred slowEnv ⟨fun i => .ofNat 8 (5 - i), some fun _ => 0, 5⟩ .second after ∧
      ∃ least, ∀ fuel ≥ least,
        finalTransfer slowEnv (fun i => .ofNat 8 (5 - i)) .second (some fun _ => 0) 5 fuel atRest =
          (some true, after) :=
  finalTransfer_transfers slowEnv (show 1 ≤ 2 by decide) slowEnv_fair
    ⟨fun i => .ofNat 8 (5 - i), some fun _ => 0, 5⟩ (show 1 ≤ 5 by decide) .second atRest
    ⟨rfl, rfl, show (0x186 : Word) &&& xspCrTransInhibitMask ≠ 0 by decide, rfl, rfl, rfl⟩

/-- The bytes that have been shifted out. -/
def sentBytes (bus : List BusEvent) : List Byte :=
  bus.filterMap fun
    | .shift sent _ => some sent
    | .select _ => none

theorem sentBytes_onBus (env : QspiEnv) (sendBuf : Nat → Byte) (slaveIndex : Slave) (count : Nat) :
    sentBytes (onBus env sendBuf slaveIndex count) = (List.range count).map sendBuf := by
  simp [sentBytes, onBus, List.filterMap_map]

/-- The flasher's transfer, when it is done. -/
theorem flash_finalTransfer_done (flash : Env) (byteCount : Nat) {w : Flasher}
    {reply : Nat → Byte} (done : flash.transfer w.tick = .done reply) :
    Flash.finalTransfer flash byteCount w =
      .ok reply (w.asked.transferred (w.asked.bytes byteCount)) := by
  have asked : ask flash.transfer w = .ok (.done reply) w.asked := by rw [ask, done]
  simp only [Flash.finalTransfer, Bind.bind, EStateM.bind, asked]
  rfl

/-- Where the flasher takes a transfer to be done with certain replies, the loop is done with
them, and the flasher logs what has been on the bus. -/
theorem finalTransfer_refines (env : QspiEnv) (deep : 1 ≤ env.depth) (fair : Fair env)
    (flash : Env) (w : Flasher) {byteCount : Nat} (nonempty : 1 ≤ byteCount)
    (done : flash.transfer w.tick = .done env.reply) (recvBuf : Option (Nat → Byte)) (dev : Qspi)
    (idle : Idle dev) :
    ∃ after next least, (∀ fuel ≥ least,
        finalTransfer env w.writeBuffer w.slaveIndex recvBuf byteCount fuel dev =
          (some true, after)) ∧
      Flash.finalTransfer flash byteCount w = .ok env.reply next ∧
      next.log = .deselect w.during :: .shift (sentBytes after.device.bus) w.during ::
        .select w.slaveIndex w.during :: w.log := by
  obtain ⟨_, after, transferred, least, ran⟩ := transfer_ends deep fair
    ⟨w.writeBuffer, recvBuf, byteCount⟩ nonempty w.slaveIndex idle
  refine ⟨after, w.asked.transferred (w.asked.bytes byteCount), least, ?_,
    flash_finalTransfer_done flash byteCount done, ?_⟩
  · intro fuel sufficient
    rw [finalTransfer, ran fuel sufficient]
  · rw [transferred.bus, sentBytes_onBus]
    rfl

end OpaeXilinx.Flash.Polled
