import OpaeXilinx.Base.Transition
import OpaeXilinx.Fme.PrRequest

/-!
# Flow control of the PR engine

The engine takes the data out of a FIFO at its own pace and reports how much room there is.  The
driver reads that once and goes on counting itself, so what it believes may be old, but it is
never more than there is: in every run of requests, there is room for all the data.
-/

namespace OpaeXilinx.Fme

open OpaeXilinx.Base
open OpaeXilinx.Port (PortReset portEnable portDisable)

instance Access.IsPush.decidable : (access : Access) → Decidable access.IsPush
  | .readq _ _ => .isFalse nofun
  | .writeq reg _ => inferInstanceAs (Decidable (reg = .data))
  | .copy512 _ => .isTrue trivial

/-- How many transfers there have been. -/
def pushes : List PrEvent → Nat
  | [] => 0
  | event :: earlier => pushes earlier + if event.access.IsPush then 1 else 0

/-- An engine with a FIFO: how many transfers it has taken out so far, and how much room it
reports. -/
structure Engine (hw : Hardware) where
  capacity : Nat
  drained : List PrEvent → Nat
  /-- Nothing comes back into the FIFO. -/
  mono : ∀ event earlier, drained earlier ≤ drained (event :: earlier)
  /-- While nothing has been lost, no more room is reported than there is. -/
  credit : ∀ events, pushes events ≤ capacity + drained events →
    (prCredit (hw events .status)).toNat + pushes events ≤ capacity + drained events

section Flow

variable {hw : Hardware} (engine : Engine hw)

/-- The transfers that there is room for. -/
def Engine.Room (amount : Nat) (events : List PrEvent) : Prop :=
  amount + pushes events ≤ engine.capacity + engine.drained events

/-- Every transfer so far has found room, and an entry was left. -/
def Engine.Flows (events : List PrEvent) : Prop :=
  Throughout (fun event earlier => event.access.IsPush → engine.Room 2 earlier) events

variable {engine}

theorem Engine.Room.less {events : List PrEvent} {amount less : Nat}
    (room : engine.Room amount events) (le : less ≤ amount) : engine.Room less events := by
  rw [Engine.Room] at room ⊢
  omega

/-- Room that there is stays while nothing is pushed. -/
theorem Engine.Room.quiet {events : List PrEvent} {amount : Nat} {event : PrEvent}
    (room : engine.Room amount events) (quiet : event.access.Quiet) :
    engine.Room amount (event :: events) := by
  have more := engine.mono event events
  rw [Engine.Room] at room ⊢
  rw [pushes, if_neg quiet]
  omega

/-- A transfer takes a unit of room. -/
theorem Engine.Room.push {events : List PrEvent} {amount : Nat} (event : PrEvent)
    (room : engine.Room (amount + 1) events) : engine.Room amount (event :: events) := by
  have more := engine.mono event events
  rw [Engine.Room] at room ⊢
  rw [pushes]
  split <;> omega

/-- If every transfer has found room, nothing has been lost. -/
theorem Engine.Flows.room {events : List PrEvent} (flows : engine.Flows events) :
    engine.Room 0 events := by
  induction events with
  | nil =>
      rw [Engine.Room, pushes]
      omega
  | cons event earlier ih =>
      by_cases push : event.access.IsPush
      · exact ((flows.1 push).less (by omega)).push event
      · exact (ih flows.2).quiet push

variable (engine)

/-- The transfers that the driver still believes to have room for. -/
def Engine.Believes (credit : Nat) (w : World) : Prop :=
  engine.Flows w.events ∧ engine.Room credit w.events

/-- A state of the driver in which nothing has been lost. -/
abbrev Engine.Sound (w : World) : Prop := engine.Flows w.events

variable {engine} {credit : Nat}

/-- What the engine reports can be believed. -/
theorem readq_status_credit :
    Triple engine.Sound (readq hw .status)
      (fun status w => engine.Believes (prCredit status).toNat w) fun _ => engine.Sound := by
  intro w flows
  have nothingLost := flows.room
  rw [Engine.Room, Nat.zero_add] at nothingLost
  refine ⟨⟨fun push => push.elim, flows⟩, ?_⟩
  have room : engine.Room (prCredit (hw w.events .status)).toNat w.events :=
    engine.credit w.events nothingLost
  exact room.quiet nofun

theorem maintains_of_logs {α : Type} {bound : Nat} {program : Driver α}
    (logs : Logs Access.Quiet bound program) : Maintains engine.Sound program := by
  have quiet {w after : World} (logged : Logged Access.Quiet bound w after)
      (flows : engine.Sound w) : engine.Sound after := by
    obtain ⟨new, events, -, proper⟩ := logged.adds
    rw [Engine.Sound, events]
    clear events
    induction new with
    | nil => exact flows
    | cons event new ih =>
        have first := (proper event List.mem_cons_self).kind
        exact ⟨fun push => absurd push first, ih fun other member => proper other (.tail _ member)⟩
  intro w flows
  exact (logs w).consequence (fun _ same => same) (fun _ _ logged => quiet logged flows)
    (fun _ _ logged => quiet logged flows) w rfl

theorem awaitCredit_believes (rounds credit : Nat) :
    Triple (engine.Believes credit) (awaitCredit hw rounds credit)
      (fun pusher w => 1 < pusher.credit ∧ engine.Believes pusher.credit w)
      fun _ => engine.Sound := by
  induction rounds generalizing credit with
  | zero =>
      rw [awaitCredit]
      apply Triple.ite
      · exact fun enough => Triple.pure fun _ believes => ⟨enough, believes⟩
      · intro _
        apply Triple.bind fun _ => engine.Sound
        · exact (maintains_of_logs (logs_prErrHandle hw)).consequence (fun _ believes => believes.1)
            (fun _ _ flows => flows) fun _ _ flows => flows
        · intro prErr
          apply Triple.bind fun _ => engine.Sound
          · exact Triple.modify fun _ flows => flows
          · exact fun _ => Triple.ite (fun _ => Triple.throw fun _ flows => flows)
              fun _ => Triple.throw fun _ flows => flows
  | succ rounds ih =>
      rw [awaitCredit]
      apply Triple.ite
      · exact fun enough => Triple.pure fun _ believes => ⟨enough, believes⟩
      · intro _
        apply Triple.bind fun status => engine.Believes (prCredit status).toNat
        · exact readq_status_credit.consequence (fun _ believes => believes.1)
            (fun _ _ believes => believes) fun _ _ flows => flows
        · exact fun status => ih (prCredit status).toNat

/-- A transfer that the driver has credit for, and another one. -/
theorem pushWord_believes (bandwidth : Nat) (bytes : List Byte) :
    Triple (engine.Believes (credit + 2)) (pushWord bandwidth bytes)
      (fun _ => engine.Believes (credit + 1)) fun _ => engine.Sound := by
  have pushed {w : World} (access : Access) (believes : engine.Believes (credit + 2) w) :
      engine.Believes (credit + 1) (w.log access) :=
    ⟨⟨fun _ => believes.2.less (by omega), believes.1⟩, believes.2.push _⟩
  apply Triple.ite
  · exact fun _ => Triple.modify fun _ believes => pushed _ believes
  · exact fun _ => Triple.modify fun _ believes => pushed _ believes

theorem pushAll_flows (bandwidth : Nat) (buf : List Byte) (pusher : Pusher) :
    Triple (engine.Believes pusher.credit) (pushAll hw bandwidth buf pusher)
      (fun _ => engine.Sound) fun _ => engine.Sound := by
  induction buf, pusher using pushAll.induct bandwidth with
  | case1 pusher =>
      rw [pushAll, if_pos rfl]
      exact Triple.pure fun _ believes => believes.1
  | case2 buf pusher some ih =>
      rw [pushAll, if_neg some]
      apply Triple.bind _ (awaitCredit_believes pusher.rounds pusher.credit)
      intro credited
      by_cases full : bandwidth ≤ buf.length
      · rw [dif_pos full]
        by_cases known : bandwidth = 4 ∨ bandwidth = 64
        · rw [dif_pos known]
          apply Triple.bind fun _ => engine.Believes (credited.credit - 1)
          · intro w believes
            obtain ⟨left, isLeft⟩ := Nat.exists_eq_add_of_le' believes.1
            have transfer : Triple (engine.Believes (left + 2)) _ (fun _ => engine.Believes (left + 1))
                fun _ => engine.Sound := pushWord_believes bandwidth (buf.take bandwidth)
            rw [isLeft] at believes ⊢
            exact transfer w believes.2
          · exact fun _ => ih credited full known
        · rw [dif_neg known]
          exact Triple.throw fun _ believes => believes.2.1
      · rw [dif_neg full]
        exact Triple.throw fun _ believes => believes.2.1

theorem withFpu_sound {program : Driver Unit} (sound : Triple (engine.Believes credit) program
      (fun _ => engine.Sound) fun _ => engine.Sound) (avx512 : Bool) :
    Triple (engine.Believes credit) (withFpu avx512 program) (fun _ => engine.Sound)
      fun _ => engine.Sound := by
  have opened : Maintains (engine.Believes credit) (runIf (avx512 = true) (acquire .fpu)) :=
    .ite (Triple.modify fun _ believes => believes) (.pure ())
  have closed : Maintains engine.Sound (runIf (avx512 = true) (release .fpu)) :=
    .ite (Triple.modify fun _ flows => flows) (.pure ())
  have ran : Triple (engine.Believes credit) (attempt program) (fun _ => engine.Sound)
      fun _ => engine.Sound := Triple.attempt sound
  apply Triple.bind fun _ => engine.Believes credit
  · exact opened.consequence (fun _ believes => believes) (fun _ _ believes => believes)
      fun _ _ believes => believes.1
  · exact fun _ => ran.bind _ fun ret => Maintains.bind closed fun _ => .conclude ret

theorem fmePrWrite_sound (buf : List Byte) : Maintains engine.Sound (fmePrWrite hw buf) := by
  apply Maintains.get_bind
  intro w
  apply Maintains.bind (maintains_of_logs (logs_updateControl hw _))
  intro _
  apply Triple.bind _ readq_status_credit
  intro status
  exact withFpu_sound (pushAll_flows w.fme.prBandwidth.toNat buf ⟨_, _⟩) w.fme.prAvx512

theorem acquire_sound (resource : Resource) : Maintains engine.Sound (acquire resource) :=
  .modify fun _ flows => flows

theorem release_sound (resource : Resource) : Maintains engine.Sound (release resource) :=
  .modify fun _ flows => flows

theorem setMgr_sound (state : MgrState) : Maintains engine.Sound (setMgr state) :=
  .modify fun _ flows => flows

theorem mgrStep_sound {operation : Driver Unit} (sound : Maintains engine.Sound operation)
    (during failed : MgrState) : Maintains engine.Sound (mgrStep during failed operation) := by
  apply Maintains.bind (setMgr_sound during)
  intro _
  apply Maintains.bind (.attempt sound)
  intro ret
  cases ret with
  | ok value => exact .pure ()
  | error err => exact .bind (setMgr_sound failed) fun _ => .throw err

theorem fpgaMgrBufLoad_sound (buf : List Byte) :
    Maintains engine.Sound (fpgaMgrBufLoad hw buf) :=
  .bind (mgrStep_sound (maintains_of_logs (logs_fmePrWriteInit hw)) _ _) fun _ =>
    .bind (mgrStep_sound (fmePrWrite_sound buf) _ _) fun _ =>
    .bind (mgrStep_sound (maintains_of_logs (logs_fmePrWriteComplete hw)) _ _) fun _ =>
    setMgr_sound .operating

theorem fmePrLoad_sound (buf : List Byte) : Maintains engine.Sound (fmePrLoad hw buf) := by
  apply Maintains.bind (acquire_sound .portDevice)
  intro _
  refine Maintains.bind (.modify fun _ flows => flows) fun _ => ?_
  apply Maintains.bind (.attempt (fpgaMgrBufLoad_sound buf))
  intro ret
  apply Maintains.get_bind
  intro loaded
  refine Maintains.bind (.modify fun _ flows => flows) fun _ => ?_
  exact .bind (release_sound .portDevice) fun _ => .pure (ret, loaded.fme.prErr)

theorem fmePrBuffered_sound (call : PrCall) (buf : List Byte) :
    Maintains engine.Sound (fmePrBuffered hw call buf) := by
  apply Maintains.ite (.pure _)
  cases call.fpgaMgrGet with
  | error err => exact .pure _
  | ok _ =>
      apply Maintains.bind (acquire_sound .manager)
      intro _
      refine Maintains.bind (.modify fun _ flows => flows) fun _ => ?_
      apply Maintains.bind (fmePrLoad_sound _)
      intro ret
      exact .bind (release_sound .manager) fun _ => .pure ret

theorem fmePrLocked_sound (call : PrCall) : Maintains engine.Sound (fmePrLocked hw call) := by
  apply Maintains.ite (.pure _)
  apply Maintains.get_bind
  intro locked
  apply Maintains.ite (.pure _)
  apply Maintains.bind (acquire_sound .buffer)
  intro _
  apply Maintains.bind (fmePrBuffered_sound call _)
  intro ret
  exact .bind (release_sound .buffer) fun _ => .pure ret

theorem fmePr_sound (call : PrCall) : Maintains engine.Sound (fmePr hw call) := by
  -- the tests of the request come before the lock
  iterate 5 refine Maintains.bind .throwIf fun _ => ?_
  apply Maintains.bind (acquire_sound .lock)
  intro _
  apply Maintains.bind (fmePrLocked_sound call)
  intro ret
  apply Maintains.bind (release_sound .lock)
  intro _
  apply Maintains.bind .throwIf
  intro _
  refine Maintains.bind (.modify fun _ flows => flows) fun _ => ?_
  exact .conclude ret.1

end Flow

/-- What happens to a device: requests, and other operations on its ports between them. -/
inductive PrCalls where
  | request (call : PrCall)
  | others (port : PortReset)

/-- A device from its probing on. -/
def prSystem (hw : Hardware) : System World PrCalls where
  init w := ∃ fme revision port, w = ⟨fmePrProbe fme revision, .unknown, port, [], [], none⟩
  step w calls next := match calls with
    | .request call => next = endState (fmePr hw call { w with userStatus := none })
    | .others port => next = { w with port := port }

/-- In every run of requests, the FIFO of the engine has room for every transfer at the time it
is made, and is not filled up by it. -/
theorem fifo_has_room {hw : Hardware} (engine : Engine hw) {w : World}
    (reachable : (prSystem hw).Reachable w) {event : PrEvent} {earlier : List PrEvent}
    (point : event :: earlier <:+ w.events) (push : event.access.IsPush) :
    pushes (event :: earlier) < engine.capacity + engine.drained earlier := by
  have flows : engine.Sound w := by
    apply reachable.invariant
    · intro w start
      obtain ⟨fme, revision, port, same⟩ := start
      rw [same]
      trivial
    · intro w calls next flows _ step
      cases calls with
      | request call =>
          rw [show next = _ from step]
          exact (fmePr_sound call).at_end flows
      | others port =>
          rw [show next = _ from step]
          exact flows
  have room := flows.at_suffix point push
  rw [Engine.Room] at room
  rw [pushes, if_pos push]
  omega

/-- Take a transfer out at a look at the status, if there are two. -/
def taken : List PrEvent → Nat
  | [] => 0
  | event :: earlier =>
      match event.access with
      | .readq .status _ =>
          if taken earlier + 2 ≤ pushes earlier then taken earlier + 1 else taken earlier
      | _ => taken earlier

/-- An engine with a FIFO of three transfers that is emptied so slowly. -/
def slowHw : Hardware := fun events reg =>
  if reg = .status then BitVec.ofNat 64 (3 + taken events - pushes events) else readyHw events reg

def slowEngine : Engine slowHw where
  capacity := 3
  drained := taken
  mono event earlier := by
    rw [taken]
    split
    · split <;> omega
    · exact Nat.le_refl _
  credit events room := by
    have reported : (prCredit (slowHw events .status)).toNat ≤ 3 + taken events - pushes events := by
      rw [slowHw, if_pos rfl, prCredit, BitVec.extractLsb'_toNat, BitVec.toNat_ofNat]
      simp only [Nat.shiftRight_zero]
      exact (Nat.mod_le _ _).trans (Nat.mod_le _ _)
    omega

/-- A bitstream of 24 bytes for the first port. -/
def sixWords : PrCall where
  __ := sixBytes
  image := (List.range 24).map (BitVec.ofNat 8)
  image_size := by decide

/-- The driver waits for room again and again: the last word is written when four of the
five before it have been taken out, and fills the FIFO but for the entry that is left. -/
theorem fifo_has_room_slow : ∃ event earlier,
    event :: earlier <:+ (endState (fmePr slowHw sixWords freshWorld)).events ∧
      event.access = .writeq .data 0x17161514#64 ∧ pushes (event :: earlier) = 6 ∧
      taken earlier = 4 ∧ pushes (event :: earlier) < 3 + taken earlier := by
  have start : (prSystem slowHw).Reachable freshWorld := .init ⟨_, 1#4, _, rfl⟩
  have loaded : (prSystem slowHw).Reachable (endState (fmePr slowHw sixWords freshWorld)) :=
    System.Reach.step start trivial (show (prSystem slowHw).step _ (.request sixWords) _ from rfl)
  have split : (endState (fmePr slowHw sixWords freshWorld)).events.drop 4 =
      ⟨.writeq .data 0x17161514#64, true, false⟩ ::
        (endState (fmePr slowHw sixWords freshWorld)).events.drop 5 := by
    decide +kernel
  have point := List.drop_suffix 4 (endState (fmePr slowHw sixWords freshWorld)).events
  rw [split] at point
  exact ⟨_, _, point, rfl, by decide +kernel, by decide +kernel,
    fifo_has_room slowEngine loaded point rfl⟩

end OpaeXilinx.Fme
