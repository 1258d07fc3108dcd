import OpaeXilinx.Fme.PartialReconfig

/-!
# What a request does to the PR engine

Every function of the driver only adds events to those before, and the parts that poll and
handshake add no data.  How many events a function adds is bounded, whatever the hardware
answers, since the rounds spent on waiting for credit are counted over the whole bitstream.
-/

namespace OpaeXilinx.Fme

open OpaeXilinx.Base
open OpaeXilinx.Port (PortReset portEnable portDisable Held)

/-- Data for the engine. -/
def Access.IsPush : Access → Prop
  | .readq _ _ => False
  | .writeq reg _ => reg = .data
  | .copy512 _ => True

/-- What no part of a load changes: only the error, the events and the manager are new, and
what is held is held again. -/
structure Kept (w after : World) : Prop where
  port : after.port = w.port
  portId : after.fme.portId = w.fme.portId
  prBandwidth : after.fme.prBandwidth = w.fme.prBandwidth
  prAvx512 : after.fme.prAvx512 = w.fme.prAvx512
  held : Ledger.held after.ledger = Ledger.held w.ledger
  honest : Ledger.Honest w.ledger → Ledger.Honest after.ledger
  userStatus : after.userStatus = w.userStatus

/-- An event of a load: as deep in reset as the load is, and with the vector registers if it
needs them. -/
structure Proper (kind : Access → Prop) (sftrst : Bool) (event : PrEvent) : Prop where
  kind : kind event.access
  sftrst : event.sftrst = sftrst
  fpu : ∀ block, event.access = .copy512 block → event.fpu = true

/-- A few more events, of some kind. -/
def Adds (kind : Access → Prop) (bound : Nat) (w after : World) : Prop :=
  ∃ new, after.events = new ++ w.events ∧ new.length ≤ bound ∧
    ∀ event ∈ new, Proper kind w.sftrst event

structure Logged (kind : Access → Prop) (bound : Nat) (w after : World) : Prop where
  kept : Kept w after
  adds : Adds kind bound w after

/-- However the program ends, it has been a part of a load. -/
def Logs (kind : Access → Prop) (bound : Nat) {α : Type} (program : Driver α) : Prop :=
  ∀ w, Triple (fun start => start = w) program (fun _ after => Logged kind bound w after)
    fun _ after => Logged kind bound w after

section Logged

variable {kind wider : Access → Prop} {bound more : Nat} {w between after : World} {α β : Type}

namespace Kept

theorem refl (w : World) : Kept w w := ⟨rfl, rfl, rfl, rfl, rfl, id, rfl⟩

theorem trans (one : Kept w between) (two : Kept between after) : Kept w after where
  port := two.port.trans one.port
  portId := two.portId.trans one.portId
  prBandwidth := two.prBandwidth.trans one.prBandwidth
  prAvx512 := two.prAvx512.trans one.prAvx512
  held := two.held.trans one.held
  honest := fun honest => two.honest (one.honest honest)
  userStatus := two.userStatus.trans one.userStatus

theorem sftrst (kept : Kept w after) : after.sftrst = w.sftrst := by
  rw [World.sftrst, World.sftrst, kept.port]

theorem fpu (kept : Kept w after) : after.fpu = w.fpu := by
  rw [World.fpu, World.fpu, kept.held]

end Kept

namespace Logged

theorem refl (w : World) : Logged kind bound w w :=
  ⟨.refl w, [], rfl, Nat.zero_le _, fun _ member => absurd member List.not_mem_nil⟩

theorem of_eq (same : after = w) : Logged kind bound w after := by
  rw [same]
  exact refl w

theorem trans (one : Logged kind bound w between) (two : Logged kind more between after) :
    Logged kind (bound + more) w after := by
  obtain ⟨first, firstEvents, firstFew, firstProper⟩ := one.adds
  obtain ⟨second, secondEvents, secondFew, secondProper⟩ := two.adds
  refine ⟨one.kept.trans two.kept, second ++ first, ?_, ?_, ?_⟩
  · rw [secondEvents, firstEvents, List.append_assoc]
  · rw [List.length_append]
    omega
  · intro event member
    cases List.mem_append.mp member with
    | inl later =>
        rw [← one.kept.sftrst]
        exact secondProper event later
    | inr earlier => exact firstProper event earlier

theorem weaken (logged : Logged kind bound w after) (kinds : ∀ access, kind access → wider access)
    (bounds : bound ≤ more) : Logged wider more w after := by
  obtain ⟨new, events, few, proper⟩ := logged.adds
  refine ⟨logged.kept, new, events, few.trans bounds, ?_⟩
  intro event member
  have this := proper event member
  exact ⟨kinds _ this.kind, this.sftrst, this.fpu⟩

theorem mono (logged : Logged kind bound w after) (bounds : bound ≤ more) :
    Logged kind more w after :=
  logged.weaken (fun _ holds => holds) bounds

/-- One more event. -/
theorem log {access : Access} (holds : kind access)
    (vector : ∀ block, access = .copy512 block → w.fpu = true) :
    Logged kind 1 w (w.log access) := by
  refine ⟨⟨rfl, rfl, rfl, rfl, rfl, id, rfl⟩, [⟨access, w.sftrst, w.fpu⟩], rfl, Nat.le_refl _, ?_⟩
  intro event member
  cases List.mem_singleton.mp member
  exact ⟨holds, rfl, vector⟩

end Logged

namespace Logs

theorem pure (value : α) : Logs kind 0 (Pure.pure value : Driver α) :=
  fun _ => Triple.pure fun _ same => .of_eq same

theorem throw (err : Errno) : Logs kind 0 (MonadExcept.throw err : Driver α) :=
  fun _ => Triple.throw fun _ same => .of_eq same

theorem mono {program : Driver α} (logs : Logs kind bound program) (bounds : bound ≤ more) :
    Logs kind more program :=
  fun w => (logs w).consequence (fun _ same => same) (fun _ _ logged => logged.mono bounds)
    fun _ _ logged => logged.mono bounds

theorem weaken {program : Driver α} (logs : Logs kind bound program)
    (kinds : ∀ access, kind access → wider access) : Logs wider bound program :=
  fun w => (logs w).consequence (fun _ same => same)
    (fun _ _ logged => logged.weaken kinds (Nat.le_refl _))
    fun _ _ logged => logged.weaken kinds (Nat.le_refl _)

theorem bind {first : Driver α} {second : α → Driver β} (one : Logs kind bound first)
    (two : ∀ value, Logs kind more (second value)) : Logs kind (bound + more) (first >>= second) := by
  intro w
  apply Triple.bind_at (fun _ after => Logged kind bound w after)
  · exact (one w).consequence (fun _ same => same) (fun _ _ logged => logged)
      fun _ _ logged => logged.mono (Nat.le_add_right _ _)
  · intro value between logged
    exact (two value between).consequence (fun _ same => same)
      (fun _ _ rest => logged.trans rest) fun _ _ rest => logged.trans rest

theorem ite {condition : Prop} [Decidable condition] {yes no : Driver α}
    (whenTrue : Logs kind bound yes) (whenFalse : Logs kind bound no) :
    Logs kind bound (if condition then yes else no) :=
  fun w => Triple.ite (fun _ => whenTrue w) fun _ => whenFalse w

theorem throwIf {condition : Prop} [Decidable condition] {err : Errno} :
    Logs kind 0 (Base.throwIf condition err : Driver Unit) :=
  ite (throw err) (pure ())

/-- A change of what is not part of `Kept`. -/
theorem modify {image : World → World} (kept : ∀ w, Kept w (image w))
    (events : ∀ w, (image w).events = w.events) : Logs kind 0 (modify image : Driver PUnit) := by
  intro w
  apply Triple.modify
  intro start same
  subst same
  exact ⟨kept start, [], events start, Nat.le_refl _, fun _ member => absurd member List.not_mem_nil⟩

end Logs

end Logged

section Functions

variable (hw : Hardware) {kind : Access → Prop}

/-- No data. -/
def Access.Quiet (access : Access) : Prop := ¬ access.IsPush

theorem logs_readq (reg : PrReg) : Logs Access.Quiet 1 (readq hw reg) := by
  intro w start same
  subst same
  exact .log id (by simp)

theorem logs_writeq (value : BitVec 64) {reg : PrReg} (notData : reg ≠ .data) :
    Logs Access.Quiet 1 (writeq value reg) := by
  intro w start same
  subst same
  exact .log notData (by simp)

theorem logs_updateControl (change : BitVec 64 → BitVec 64) :
    Logs Access.Quiet 2 (updateControl hw change) := by
  have logs := (logs_readq hw .control).bind fun ctl =>
    logs_writeq (change ctl) (by decide : PrReg.control ≠ .data)
  exact logs

theorem logs_waitRegisterField (reg : PrReg) (expected : BitVec 64 → Prop)
    [DecidablePred expected] (rounds : Nat) :
    Logs Access.Quiet rounds (waitRegisterField hw reg expected rounds) := by
  induction rounds with
  | zero => exact .throw .etimedout
  | succ rounds ih =>
      rw [waitRegisterField, Nat.add_comm]
      apply (logs_readq hw reg).bind
      intro value
      exact .ite ((Logs.pure ()).mono (Nat.zero_le _)) ih

theorem logs_prErrHandle : Logs Access.Quiet 3 (prErrHandle hw) := by
  have each : ∀ status, Logs Access.Quiet 2 (if prStatus status = 0#1 then pure 0#64 else do
      let fmePrError ← readq hw .err
      writeq fmePrError .err
      pure fmePrError) := by
    intro status
    apply Logs.ite
    · exact (Logs.pure _).mono (Nat.zero_le _)
    · have logs := (logs_readq hw .err).bind fun fmePrError =>
        (logs_writeq fmePrError (by decide : PrReg.err ≠ .data)).bind fun _ => Logs.pure fmePrError
      exact logs
  exact (logs_readq hw .status).bind each

theorem logs_setPrErr (prErr : BitVec 64) : Logs kind 0 (setPrErr prErr) :=
  .modify (fun _ => ⟨rfl, rfl, rfl, rfl, rfl, id, rfl⟩) fun _ => rfl

/-- The handshake before the data. -/
theorem logs_fmePrWriteInit :
    Logs Access.Quiet (2 * prWaitTimeout + 9) (fmePrWriteInit hw) := by
  have logs := (logs_updateControl hw fun ctl => setField ctl 0 1#1).bind fun _ =>
    (logs_waitRegisterField hw .control (fun ctl => prResetAck ctl = 1#1)
      (prWaitTimeout + 1)).bind fun _ =>
    (logs_updateControl hw fun ctl => setField ctl 0 0#1).bind fun _ =>
    (logs_waitRegisterField hw .status (fun status => prHostStatus status = 0#4)
      (prWaitTimeout + 1)).bind fun _ =>
    (logs_prErrHandle hw).bind fun _ => Logs.pure ()
  exact logs.mono (by omega)

/-- The handshake behind the data. -/
theorem logs_fmePrWriteComplete :
    Logs Access.Quiet (prWaitTimeout + 6) (fmePrWriteComplete hw) := by
  have logs := (logs_updateControl hw fun ctl => setField ctl 13 1#1).bind fun _ =>
    (logs_waitRegisterField hw .control (fun ctl => prStartReq ctl = 0#1)
      (prWaitTimeout + 1)).bind fun _ =>
    (logs_prErrHandle hw).bind fun prErr =>
    (logs_setPrErr prErr).bind fun _ =>
      (Logs.throwIf : Logs Access.Quiet 0 (throwIf (prErr ≠ 0#64) .eio))
  exact logs.mono (by omega)

/-- The rounds that are used up have each cost a read. -/
theorem awaitCredit_logged (rounds credit : Nat) (w : World) :
    Triple (fun start => start = w) (awaitCredit hw rounds credit)
      (fun pusher after => 1 < pusher.credit ∧ pusher.rounds ≤ rounds ∧
        Logged Access.Quiet (rounds - pusher.rounds) w after)
      fun _ after => Logged Access.Quiet (rounds + 3) w after := by
  induction rounds generalizing credit w with
  | zero =>
      rw [awaitCredit]
      apply Triple.ite
      · intro enough
        exact Triple.pure fun _ same => ⟨enough, Nat.le_refl _, .of_eq same⟩
      · intro _
        apply Triple.bind (fun _ after => Logged Access.Quiet 3 w after)
        · exact (logs_prErrHandle hw w).consequence (fun _ same => same) (fun _ _ logged => logged)
            fun _ _ logged => logged.mono (by omega)
        · intro prErr
          apply Triple.bind (fun _ after => Logged Access.Quiet 3 w after)
          · intro between logged
            exact logged.trans (logs_setPrErr prErr between between rfl)
          · intro _
            apply Triple.ite <;> intro _ <;> apply Triple.throw <;> intro after logged <;>
              exact logged.mono (by omega)
  | succ rounds ih =>
      rw [awaitCredit]
      apply Triple.ite
      · intro enough
        exact Triple.pure fun _ same => ⟨enough, Nat.le_refl _, .of_eq same⟩
      · intro _
        apply Triple.bind_at (fun _ after => Logged Access.Quiet 1 w after)
        · exact (logs_readq hw .status w).consequence (fun _ same => same) (fun _ _ logged => logged)
            fun _ _ logged => logged.mono (by omega)
        · intro status between logged
          apply (ih (prCredit status).toNat between).consequence
          · exact fun _ same => same
          · intro pusher after result
            obtain ⟨enough, fewer, rest⟩ := result
            exact ⟨enough, fewer.trans (Nat.le_succ _), (logged.trans rest).mono (by omega)⟩
          · intro err after rest
            exact (logged.trans rest).mono (by omega)

end Functions

end OpaeXilinx.Fme
