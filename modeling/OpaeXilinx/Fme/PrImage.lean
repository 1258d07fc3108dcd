import OpaeXilinx.Fme.PrEvents

/-!
# The bitstream in the PR engine

The bytes that reach the engine, read back from the accesses, are the bitstream with zeros
behind it, as far as the load has come; and the state of the manager, the result of the call
and the status for the caller tell how far that is.
-/

namespace OpaeXilinx.Fme

open OpaeXilinx.Base
open OpaeXilinx.Port (PortReset portEnable portDisable)

/-- The bytes of a word in memory. -/
def leBytes (word : BitVec 64) : List Byte :=
  [word.extractLsb' 0 8, word.extractLsb' 8 8, word.extractLsb' 16 8, word.extractLsb' 24 8]

/-- The bytes that an access hands to the engine. -/
def Access.bytes : Access → List Byte
  | .readq _ _ => []
  | .writeq reg value => if reg = .data then leBytes value else []
  | .copy512 block => block

/-- All bytes that the engine has been handed, the first one first. -/
def sent : List PrEvent → List Byte
  | [] => []
  | event :: earlier => sent earlier ++ event.access.bytes

theorem sent_append (new earlier : List PrEvent) :
    sent (new ++ earlier) = sent earlier ++ sent new := by
  induction new with
  | nil => simp [sent]
  | cons event new ih => simp [sent, ih]

theorem Access.Quiet.bytes {access : Access} (quiet : access.Quiet) : access.bytes = [] := by
  cases access with
  | readq reg value => rfl
  | writeq reg value => exact if_neg quiet
  | copy512 block => exact absurd trivial quiet

theorem sent_quiet {new : List PrEvent} (quiet : ∀ event ∈ new, event.access.Quiet) :
    sent new = [] := by
  induction new with
  | nil => rfl
  | cons event new ih =>
      rw [sent, ih fun other member => quiet other (.tail _ member),
        (quiet event List.mem_cons_self).bytes]
      rfl

theorem Logged.sent_eq {bound : Nat} {w after : World}
    (logged : Logged Access.Quiet bound w after) : sent after.events = sent w.events := by
  obtain ⟨new, events, -, proper⟩ := logged.adds
  rw [events, sent_append, sent_quiet fun event member => (proper event member).kind,
    List.append_nil]

theorem leBytes_leWord {bytes : List Byte} (four : bytes.length = 4) :
    leBytes ((leWord bytes).setWidth 64) = bytes := by
  match bytes, four with
  | [first, second, third, fourth], _ =>
      simp only [leBytes, leWord, List.cons.injEq, and_true]
      refine ⟨?_, ?_, ?_, ?_⟩ <;> ext i less <;> simp <;> grind

section Error

variable (hw : Hardware)

/-- `pr_err`. -/
def World.prErr (w : World) : BitVec 64 := w.fme.prErr

theorem readq_prErr (reg : PrReg) : Preserves World.prErr (readq hw reg) := by
  intro P w holds
  exact holds

theorem writeq_prErr (value : BitVec 64) (reg : PrReg) :
    Preserves World.prErr (writeq value reg) :=
  .modify fun _ => rfl

theorem updateControl_prErr (change : BitVec 64 → BitVec 64) :
    Preserves World.prErr (updateControl hw change) :=
  .bind (readq_prErr hw .control) fun _ => writeq_prErr _ .control

theorem waitRegisterField_prErr (reg : PrReg) (expected : BitVec 64 → Prop)
    [DecidablePred expected] (rounds : Nat) :
    Preserves World.prErr (waitRegisterField hw reg expected rounds) := by
  induction rounds with
  | zero => exact .throw Errno.etimedout
  | succ rounds ih =>
      rw [waitRegisterField]
      exact .bind (readq_prErr hw reg) fun _ => .ite (.pure ()) ih

theorem prErrHandle_prErr : Preserves World.prErr (prErrHandle hw) :=
  .bind (readq_prErr hw .status) fun _ => .ite (.pure _)
    (.bind (readq_prErr hw .err) fun _ => .bind (writeq_prErr _ .err) fun _ => .pure _)

theorem prErrHandle_returns :
    Triple (fun _ => True) (prErrHandle hw) (fun _ _ => True) fun _ _ => False := by
  apply Triple.bind (fun _ _ => True)
  · exact fun _ _ => trivial
  · intro status
    apply Triple.ite
    · exact fun _ => Triple.pure fun _ _ => trivial
    · exact fun _ _ _ => trivial

theorem fmePrWriteInit_prErr : Preserves World.prErr (fmePrWriteInit hw) :=
  .bind (updateControl_prErr hw _) fun _ => .bind (waitRegisterField_prErr hw .control _ _) fun _ =>
    .bind (updateControl_prErr hw _) fun _ => .bind (waitRegisterField_prErr hw .status _ _) fun _ =>
    .bind (prErrHandle_prErr hw) fun _ => .pure ()

/-- An error that the hardware reports, or the lack of one. -/
structure Blamed (err : Errno) (prErr : BitVec 64) : Prop where
  eio : err = .eio ↔ prErr ≠ 0#64
  other : err = .eio ∨ err = .etimedout

/-- A wait for credit that succeeds has met no error; one that fails has asked for it. -/
theorem awaitCredit_prErr (rounds credit : Nat) (prErr : BitVec 64) :
    Triple (fun w => w.prErr = prErr) (awaitCredit hw rounds credit)
      (fun _ w => w.prErr = prErr) fun err w => Blamed err w.prErr := by
  induction rounds generalizing credit with
  | zero =>
      rw [awaitCredit]
      apply Triple.ite
      · exact fun _ => Triple.pure fun _ same => same
      · intro _
        apply Triple.bind (fun _ _ => True)
        · exact (prErrHandle_returns hw).consequence (fun _ _ => trivial) (fun _ _ holds => holds)
            fun _ _ never => never.elim
        · intro reported
          apply Triple.bind (fun _ w => w.prErr = reported)
          · exact Triple.modify fun _ _ => rfl
          · intro _
            apply Triple.ite
            · intro some
              apply Triple.throw
              intro w same
              rw [same]
              exact ⟨⟨fun _ => some, fun _ => rfl⟩, .inl rfl⟩
            · intro none
              apply Triple.throw
              intro w same
              rw [same]
              exact ⟨⟨fun same => absurd same (by decide), fun some => absurd some none⟩, .inr rfl⟩
  | succ rounds ih =>
      rw [awaitCredit]
      apply Triple.ite
      · exact fun _ => Triple.pure fun _ same => same
      · intro _
        apply Triple.bind (fun _ w => w.prErr = prErr)
        · exact readq_prErr hw .status (fun current => current = prErr)
        · exact fun status => ih (prCredit status).toNat

end Error

section Pushing

variable (hw : Hardware) {bandwidth : Nat}

/-- A bandwidth that the driver knows. -/
def Known (bandwidth : Nat) : Prop := bandwidth = 4 ∨ bandwidth = 64

theorem Known.pos (known : Known bandwidth) : 0 < bandwidth := by
  cases known with
  | inl word => omega
  | inr block => omega

theorem pushAll_nil (pusher : Pusher) : pushAll hw bandwidth [] pusher = pure () := by
  rw [pushAll, if_pos rfl]

theorem pushAll_more (known : Known bandwidth) {buf : List Byte} (full : bandwidth ≤ buf.length)
    (pusher : Pusher) : pushAll hw bandwidth buf pusher =
      awaitCredit hw pusher.rounds pusher.credit >>= fun pusher =>
        pushWord bandwidth (buf.take bandwidth) >>= fun _ =>
          pushAll hw bandwidth (buf.drop bandwidth) ⟨pusher.rounds, pusher.credit - 1⟩ := by
  have some : buf ≠ [] := by
    intro none
    have positive := known.pos
    rw [none, List.length_nil] at full
    omega
  rw [pushAll, if_neg some]
  apply bind_congr
  intro pusher
  rw [dif_pos full]
  exact dif_pos known

/-- A transfer adds its bytes. -/
structure Pushed (bytes : List Byte) (w after : World) : Prop where
  sent : sent after.events = sent w.events ++ bytes
  prErr : after.prErr = w.prErr

theorem pushWord_pushed (known : Known bandwidth) {bytes : List Byte}
    (length : bytes.length = bandwidth) {w : World} (vector : bandwidth = 64 → w.fpu = true) :
    Triple (fun start => start = w) (pushWord bandwidth bytes)
      (fun _ after => Logged (fun _ => True) 1 w after ∧ Pushed bytes w after)
      fun _ _ => False := by
  rw [pushWord]
  apply Triple.ite
  · intro word start same
    rw [same]
    have read := leBytes_leWord (length.trans word)
    exact ⟨.log trivial (by simp), congrArg (sent w.events ++ ·) read, rfl⟩
  · intro other start same
    rw [same]
    have block := known.resolve_left other
    exact ⟨.log trivial fun _ _ => vector block, rfl, rfl⟩

/-- How a part of the data is pushed: all of it, or as far as there was credit. -/
theorem pushAll_pushed (known : Known bandwidth) {buf : List Byte} {count : Nat}
    (length : buf.length = count * bandwidth) (pusher : Pusher) {w : World}
    (vector : bandwidth = 64 → w.fpu = true) :
    Triple (fun start => start = w) (pushAll hw bandwidth buf pusher)
      (fun _ after => Logged (fun _ => True) (pusher.rounds + count) w after ∧ Pushed buf w after)
      fun err after => Logged (fun _ => True) (pusher.rounds + 3 + count) w after ∧
        Blamed err after.prErr ∧ ∃ first rest, first ++ rest = buf ∧ rest ≠ [] ∧
          sent after.events = sent w.events ++ first := by
  have positive := known.pos
  induction count generalizing buf pusher w with
  | zero =>
      rw [Nat.zero_mul, List.length_eq_zero_iff] at length
      rw [length, pushAll_nil]
      apply Triple.pure
      intro start same
      exact ⟨.of_eq same, by rw [same, List.append_nil], by rw [same]⟩
  | succ count ih =>
      rw [Nat.succ_mul] at length
      have some : buf ≠ [] := by
        intro none
        rw [none, List.length_nil] at length
        omega
      rw [pushAll_more hw known (by omega)]
      apply Triple.bind_at fun credited between => credited.rounds ≤ pusher.rounds ∧
        Logged Access.Quiet (pusher.rounds - credited.rounds) w between ∧ between.prErr = w.prErr
      · have waits := (awaitCredit_logged hw pusher.rounds pusher.credit w).and
          (awaitCredit_prErr hw pusher.rounds pusher.credit w.prErr)
        apply waits.consequence
        · intro start same
          exact ⟨same, by rw [same]⟩
        · intro credited between result
          exact ⟨result.1.2.1, result.1.2.2, result.2⟩
        · intro err after result
          have quiet := result.1.sent_eq
          exact ⟨result.1.weaken (fun _ _ => trivial) (by omega), result.2, [], buf, rfl, some,
            by rw [quiet, List.append_nil]⟩
      · intro credited between result
        obtain ⟨fewer, waited, unchanged⟩ := result
        have vectorStill : bandwidth = 64 → between.fpu = true := by
          intro block
          rw [waited.kept.fpu]
          exact vector block
        have taken : (buf.take bandwidth).length = bandwidth := by
          rw [List.length_take]
          omega
        apply Triple.bind_at fun _ pushed =>
          Logged (fun _ => True) (pusher.rounds - credited.rounds + 1) w pushed ∧
            Pushed (buf.take bandwidth) w pushed
        · apply (pushWord_pushed known taken vectorStill).consequence
          · exact fun _ same => same
          · intro _ pushed result
            have quiet := waited.sent_eq
            refine ⟨(waited.weaken (fun _ _ => trivial) (Nat.le_refl _)).trans result.1, ?_, ?_⟩
            · rw [result.2.sent, quiet]
            · rw [result.2.prErr, unchanged]
          · exact fun _ _ never => never.elim
        · intro _ pushed result
          obtain ⟨logged, first⟩ := result
          have left : (buf.drop bandwidth).length = count * bandwidth := by
            rw [List.length_drop]
            omega
          have vectorThen : bandwidth = 64 → pushed.fpu = true := by
            intro block
            rw [logged.kept.fpu]
            exact vector block
          apply (ih left ⟨credited.rounds, credited.credit - 1⟩ vectorThen).consequence
          · exact fun _ same => same
          · intro _ after result
            refine ⟨(logged.trans result.1).mono ?_, ?_, ?_⟩
            · show pusher.rounds - credited.rounds + 1 + (credited.rounds + count) ≤ _
              omega
            · rw [result.2.sent, first.sent, List.append_assoc, List.take_append_drop]
            · rw [result.2.prErr, first.prErr]
          · intro err after result
            obtain ⟨rest, blamed, more, behind, split, notAll, came⟩ := result
            refine ⟨(logged.trans rest).mono ?_, blamed, buf.take bandwidth ++ more, behind, ?_,
              notAll, ?_⟩
            · show pusher.rounds - credited.rounds + 1 + (credited.rounds + 3 + count) ≤ _
              omega
            · rw [List.append_assoc, split, List.take_append_drop]
            · rw [came, first.sent, List.append_assoc]

/-- A device as it has been probed. -/
structure Probed (fme : FpgaFme) : Prop where
  known : Known fme.prBandwidth.toNat
  vector : fme.prBandwidth.toNat = 64 → fme.prAvx512 = true

theorem probed_fmePrProbe (fme : FpgaFme) (revision : BitVec 4) :
    Probed (fmePrProbe fme revision) := by
  rw [fmePrProbe]
  split
  · exact ⟨.inr rfl, fun _ => rfl⟩
  · exact ⟨.inl rfl, nofun⟩

theorem Kept.probed {w after : World} (kept : Kept w after) (probed : Probed w.fme) :
    Probed after.fme := by
  constructor
  · rw [kept.prBandwidth]
    exact probed.known
  · rw [kept.prBandwidth, kept.prAvx512]
    exact probed.vector

theorem withFpu_false (program : Driver Unit) : withFpu false program = program := by
  funext w
  show (attempt program >>= fun ret => conclude ret) w = _
  simp only [bind, EStateM.bind, attempt]
  cases program w <;> rfl

theorem withFpu_true (program : Driver Unit) : withFpu true program =
    acquire .fpu >>= fun _ => attempt program >>= fun ret => release .fpu >>= fun _ =>
      conclude ret :=
  rfl

/-- What is done with the vector registers is a part of the load around it. -/
theorem Logged.withFpu {kind : Access → Prop} {bound : Nat} {w after : World}
    (inside : Logged kind bound (w.deal (.acquire .fpu)) after) :
    Logged kind bound w (after.deal (.release .fpu)) := by
  have held : Ledger.held after.ledger = .fpu ::ₘ Ledger.held w.ledger := inside.kept.held
  refine ⟨{ inside.kept with held := ?_, honest := ?_ }, inside.adds⟩
  · show (Ledger.held after.ledger).erase .fpu = _
    rw [held, Multiset.erase_cons_head]
  · intro honest
    apply Ledger.honest_release.mpr
    refine ⟨?_, inside.kept.honest (Ledger.honest_acquire.mpr honest)⟩
    rw [held]
    exact Multiset.mem_cons_self _ _

/-- How far the data has come when a write fails. -/
structure Stalled (buf : List Byte) (err : Errno) (w after : World) : Prop where
  blamed : Blamed err after.prErr
  short : ∃ first rest, first ++ rest = buf ∧ rest ≠ [] ∧
    sent after.events = sent w.events ++ first

/-- The part of a write that pushes, with the vector registers or without them. -/
theorem withFpu_pushed {bandwidth : Nat} (known : Known bandwidth) {avx512 : Bool}
    (vector : bandwidth = 64 → avx512 = true) {buf : List Byte} {count : Nat}
    (length : buf.length = count * bandwidth) (pusher : Pusher) (w : World) :
    Triple (fun start => start = w) (withFpu avx512 (pushAll hw bandwidth buf pusher))
      (fun _ after => Logged (fun _ => True) (pusher.rounds + count) w after ∧ Pushed buf w after)
      fun err after => Logged (fun _ => True) (pusher.rounds + 3 + count) w after ∧
        Stalled buf err w after := by
  cases avx512 with
  | false =>
      rw [withFpu_false]
      have word : bandwidth = 64 → w.fpu = true := fun block => nomatch vector block
      apply (pushAll_pushed hw known length pusher word).consequence
      · exact fun _ same => same
      · exact fun _ _ result => result
      · exact fun _ _ result => ⟨result.1, result.2.1, result.2.2⟩
  | true =>
      rw [withFpu_true]
      apply Triple.bind fun _ start => start = w.deal (.acquire .fpu)
      · apply Triple.modify
        intro start same
        rw [same]
      · intro _
        have inside : (w.deal (.acquire .fpu)).fpu = true := by
          simp [World.fpu, World.deal]
        apply Triple.attempt_bind (pushAll_pushed hw known length pusher fun _ => inside)
        · intro _ after result
          exact ⟨result.1.withFpu, result.2.sent, result.2.prErr⟩
        · intro err after result
          exact ⟨result.1.withFpu, result.2.1, result.2.2⟩

theorem updateControl_quiet (change : BitVec 64 → BitVec 64) (w : World) :
    Triple (fun start => start = w) (updateControl hw change)
      (fun _ after => Logged Access.Quiet 2 w after ∧ after.prErr = w.prErr)
      fun _ _ => False := by
  intro start same
  rw [same]
  have logged := (logs_updateControl hw change).bind fun _ => Logs.pure ()
  exact ⟨logged w w rfl, rfl⟩

theorem readq_quiet (reg : PrReg) (w : World) :
    Triple (fun start => start = w) (readq hw reg)
      (fun _ after => Logged Access.Quiet 1 w after ∧ after.prErr = w.prErr)
      fun _ _ => False := by
  intro start same
  rw [same]
  exact ⟨logs_readq hw reg w w rfl, rfl⟩

/-- A write pushes the whole buffer, or reports how it was stopped. -/
theorem fmePrWrite_pushed {buf : List Byte} {count : Nat} {w : World} (probed : Probed w.fme)
    (length : buf.length = count * w.fme.prBandwidth.toNat) :
    Triple (fun start => start = w) (fmePrWrite hw buf)
      (fun _ after => Logged (fun _ => True) (prWaitTimeout + 4 + count) w after ∧
        Pushed buf w after)
      fun err after => Logged (fun _ => True) (prWaitTimeout + 7 + count) w after ∧
        Stalled buf err w after := by
  apply Triple.get_bind
  intro start same
  rw [same]
  apply Triple.bind_at (fun _ between => Logged Access.Quiet 2 w between ∧ between.prErr = w.prErr)
  · exact (updateControl_quiet hw _ w).consequence (fun _ same => same) (fun _ _ holds => holds)
      fun _ _ never => never.elim
  · intro _ started logged
    apply Triple.bind_at (fun _ between => Logged Access.Quiet 3 w between ∧
      between.prErr = w.prErr)
    · apply (readq_quiet hw .status started).consequence
      · exact fun _ same => same
      · exact fun _ _ result => ⟨logged.1.trans result.1, result.2.trans logged.2⟩
      · exact fun _ _ never => never.elim
    · intro status between logged
      have begun : Logged (fun _ => True) 3 w between :=
        logged.1.weaken (fun _ _ => trivial) (Nat.le_refl _)
      have quiet := logged.1.sent_eq
      apply (withFpu_pushed hw probed.known probed.vector length
        ⟨prWaitTimeout + 1, (prCredit status).toNat⟩ between).consequence
      · exact fun _ same => same
      · intro _ after result
        refine ⟨(begun.trans result.1).mono ?_, ?_, ?_⟩
        · show 3 + (prWaitTimeout + 1 + count) ≤ _
          omega
        · rw [result.2.sent, quiet]
        · rw [result.2.prErr, logged.2]
      · intro err after result
        refine ⟨(begun.trans result.1).mono ?_, result.2.blamed, ?_⟩
        · show 3 + (prWaitTimeout + 1 + 3 + count) ≤ _
          omega
        · rw [← quiet]
          exact result.2.short

end Pushing

/-! ## Loading -/

section Loading

variable (hw : Hardware)

theorem waitRegisterField_timeout (reg : PrReg) (expected : BitVec 64 → Prop)
    [DecidablePred expected] (rounds : Nat) :
    Triple (fun _ => True) (waitRegisterField hw reg expected rounds) (fun _ _ => True)
      fun err _ => err = .etimedout := by
  induction rounds with
  | zero => exact Triple.throw fun _ _ => rfl
  | succ rounds ih =>
      rw [waitRegisterField]
      apply Triple.bind fun _ _ => True
      · exact fun _ _ => trivial
      · exact fun _ => Triple.ite (fun _ => Triple.pure fun _ _ => trivial) fun _ => ih

theorem updateControl_returns (change : BitVec 64 → BitVec 64) {fail : Errno → World → Prop} :
    Triple (fun _ => True) (updateControl hw change) (fun _ _ => True) fail :=
  fun _ _ => trivial

/-- The handshake before the data can only time out. -/
theorem fmePrWriteInit_timeout :
    Triple (fun _ => True) (fmePrWriteInit hw) (fun _ _ => True) fun err _ => err = .etimedout := by
  apply Triple.bind _ (updateControl_returns hw _)
  intro _
  apply Triple.bind _ (waitRegisterField_timeout hw .control _ _)
  intro _
  apply Triple.bind _ (updateControl_returns hw _)
  intro _
  apply Triple.bind _ (waitRegisterField_timeout hw .status _ _)
  intro _
  apply Triple.bind fun _ _ => True
  · exact (prErrHandle_returns hw).consequence (fun _ holds => holds) (fun _ _ holds => holds)
      fun _ _ never => never.elim
  · exact fun _ => Triple.pure fun _ _ => trivial

theorem fmePrWriteInit_quiet {w : World} (clean : w.prErr = 0#64) :
    Triple (fun start => start = w) (fmePrWriteInit hw)
      (fun _ after => Logged Access.Quiet (2 * prWaitTimeout + 9) w after ∧ after.prErr = 0#64)
      fun err after => Logged Access.Quiet (2 * prWaitTimeout + 9) w after ∧
        Blamed err after.prErr := by
  have all := ((logs_fmePrWriteInit hw w).and
    (fmePrWriteInit_prErr hw fun prErr => prErr = 0#64)).and (fmePrWriteInit_timeout hw)
  apply all.consequence
  · intro start same
    exact ⟨⟨same, by rw [same, clean]⟩, trivial⟩
  · exact fun _ _ result => result.1
  · intro err after result
    refine ⟨result.1.1, ?_, .inr result.2⟩
    rw [result.1.2, result.2]
    exact ⟨fun same => absurd same (by decide), fun some => absurd rfl some⟩

/-- The end of the handshake reports what the hardware has found. -/
theorem fmePrWriteComplete_blames {w : World} (clean : w.prErr = 0#64) :
    Triple (fun start => start = w) (fmePrWriteComplete hw) (fun _ after => after.prErr = 0#64)
      fun err after => Blamed err after.prErr := by
  apply Triple.bind fun _ after => after.prErr = 0#64
  · exact (updateControl_quiet hw _ w).consequence (fun _ same => same)
      (fun _ _ result => result.2.trans clean) fun _ _ never => never.elim
  · intro _
    apply Triple.bind fun _ _ => True
    · have waits := (waitRegisterField_prErr hw .control (fun ctl => prStartReq ctl = 0#1)
        (prWaitTimeout + 1) fun prErr => prErr = 0#64).and
        (waitRegisterField_timeout hw .control (fun ctl => prStartReq ctl = 0#1) (prWaitTimeout + 1))
      apply waits.consequence
      · exact fun _ none => ⟨none, trivial⟩
      · exact fun _ _ _ => trivial
      · intro err after result
        rw [result.1, result.2]
        exact ⟨⟨fun same => absurd same (by decide), fun some => absurd rfl some⟩, .inr rfl⟩
    · intro _
      apply Triple.bind fun _ _ => True
      · exact (prErrHandle_returns hw).consequence (fun _ holds => holds) (fun _ _ holds => holds)
          fun _ _ never => never.elim
      · intro prErr
        apply Triple.bind fun _ after => after.prErr = prErr
        · exact Triple.modify fun _ _ => rfl
        · intro _
          apply Triple.throwIf
          · intro some after same
            rw [same]
            exact ⟨⟨fun _ => some, fun _ => rfl⟩, .inl rfl⟩
          · intro none after same
            rw [same]
            exact Decidable.not_not.mp none

/-- How far a load has come that has failed, and that the manager knows. -/
inductive Reached (buf : List Byte) (w after : World) : Prop where
  | notBegun (mgr : after.mgr = .writeInitErr) (none : sent after.events = sent w.events)
  | stalled (mgr : after.mgr = .writeErr) (short : ∃ first rest, first ++ rest = buf ∧ rest ≠ [] ∧
      sent after.events = sent w.events ++ first)
  | notCompleted (mgr : after.mgr = .writeCompleteErr)
      (all : sent after.events = sent w.events ++ buf)

theorem Logged.mgr {kind : Access → Prop} {bound : Nat} {w after : World} {state : MgrState}
    (logged : Logged kind bound { w with mgr := state } after) : Logged kind bound w after :=
  ⟨{ logged.kept with }, logged.adds⟩

theorem mgrStep_triple {during failed : MgrState} {operation : Driver Unit} {w : World}
    {post : World → Prop} {fail : Errno → World → Prop}
    (triple : Triple (fun start => start = { w with mgr := during }) operation (fun _ => post)
      fun err after => fail err { after with mgr := failed }) :
    Triple (fun start => start = w) (mgrStep during failed operation) (fun _ => post) fail := by
  apply Triple.bind fun _ start => start = { w with mgr := during }
  · apply Triple.modify
    intro start same
    rw [same]
  · intro _
    apply Triple.attempt_bind triple
    · exact fun _ => Triple.pure fun _ holds => holds
    · exact fun _ _ holds => holds

/-- A load pushes the buffer to its end, or the manager knows where it has failed. -/
theorem fpgaMgrBufLoad_loaded {buf : List Byte} {count : Nat} {w : World}
    (probed : Probed w.fme) (length : buf.length = count * w.fme.prBandwidth.toNat)
    (clean : w.prErr = 0#64) :
    Triple (fun start => start = w) (fpgaMgrBufLoad hw buf)
      (fun _ after => Logged (fun _ => True) (4 * prWaitTimeout + 22 + count) w after ∧
        after.mgr = .operating ∧ Pushed buf w after)
      fun err after => Logged (fun _ => True) (4 * prWaitTimeout + 22 + count) w after ∧
        Blamed err after.prErr ∧ Reached buf w after := by
  apply Triple.bind_at fun _ ready =>
    Logged Access.Quiet (2 * prWaitTimeout + 9) w ready ∧ ready.prErr = 0#64
  · apply mgrStep_triple
    have cleanStill : { w with mgr := .writeInit }.prErr = 0#64 := clean
    apply (fmePrWriteInit_quiet hw cleanStill).consequence
    · exact fun _ same => same
    · exact fun _ _ result => ⟨result.1.mgr, result.2⟩
    · intro err after result
      have quiet := result.1.sent_eq
      have logged := result.1.mgr
      exact ⟨⟨{ logged.kept with }, (logged.weaken (fun _ _ => trivial) (by omega)).adds⟩,
        result.2, .notBegun rfl quiet⟩
  · intro _ ready result
    obtain ⟨prepared, noError⟩ := result
    have quiet := prepared.sent_eq
    have begun : Logged (fun _ => True) (2 * prWaitTimeout + 9) w ready :=
      prepared.weaken (fun _ _ => trivial) (Nat.le_refl _)
    have lengthThen : buf.length = count * ready.fme.prBandwidth.toNat := by
      rw [prepared.kept.prBandwidth]
      exact length
    apply Triple.bind_at fun _ written =>
      Logged (fun _ => True) (3 * prWaitTimeout + 13 + count) w written ∧ Pushed buf ready written
    · apply mgrStep_triple
      have probedThen : Probed { ready with mgr := .write }.fme := prepared.kept.probed probed
      apply (fmePrWrite_pushed hw probedThen lengthThen).consequence
      · exact fun _ same => same
      · intro _ written result
        exact ⟨(begun.trans result.1.mgr).mono (by omega), result.2.sent, result.2.prErr⟩
      · intro err after result
        have logged := begun.trans result.1.mgr
        refine ⟨⟨{ logged.kept with }, (logged.mono (by omega)).adds⟩, result.2.blamed,
          .stalled rfl ?_⟩
        rw [← quiet]
        exact result.2.short
    · intro _ written result
      obtain ⟨logged, pushed⟩ := result
      have all : sent written.events = sent w.events ++ buf := by
        rw [pushed.sent, quiet]
      have cleanThen : { written with mgr := .writeComplete }.prErr = 0#64 :=
        pushed.prErr.trans noError
      apply Triple.bind_at fun _ done =>
        Logged (fun _ => True) (4 * prWaitTimeout + 22 + count) w done ∧ Pushed buf w done
      · apply mgrStep_triple
        apply ((logs_fmePrWriteComplete hw { written with mgr := .writeComplete }).and
          (fmePrWriteComplete_blames hw cleanThen)).consequence
        · exact fun _ same => ⟨same, same⟩
        · intro _ done result
          have rest := (result.1.mgr).weaken (fun _ _ => trivial) (Nat.le_refl _)
          refine ⟨(logged.trans rest).mono (by omega), ?_, result.2.trans clean.symm⟩
          rw [← all]
          exact result.1.sent_eq
        · intro err after result
          have rest := (result.1.mgr).weaken (fun _ _ => trivial) (Nat.le_refl _)
          have ended := logged.trans rest
          refine ⟨⟨{ ended.kept with }, (ended.mono (by omega)).adds⟩, result.2,
            .notCompleted rfl ?_⟩
          rw [← all]
          exact result.1.sent_eq
      · intro _ done result
        apply Triple.modify
        intro start same
        rw [same]
        exact ⟨⟨{ result.1.kept with }, result.1.adds⟩, rfl, result.2.sent, result.2.prErr⟩

end Loading

end OpaeXilinx.Fme
