import OpaeXilinx.Fme.PrRequest

/-!
# The handshake with the PR engine

A request is a conversation: the engine is reset and acknowledges it, is let out of reset and
becomes idle, is started for a region, is handed the data, is told that it is complete, and
gives the resource back.  The driver says nothing before the engine has answered.
-/

namespace OpaeXilinx.Fme

open OpaeXilinx.Base

section Fields

variable {width other : Nat}

theorem getLsbD_setField (csr : BitVec 64) (low : Nat) (field : BitVec width) {i : Nat}
    (inside : i < 64) : (setField csr low field).getLsbD i =
      if low ≤ i ∧ i < low + width then field.getLsbD (i - low) else csr.getLsbD i := by
  rw [setField, BitVec.getLsbD_or, BitVec.getLsbD_and, BitVec.getLsbD_not,
    BitVec.getLsbD_shiftLeft, BitVec.getLsbD_shiftLeft, BitVec.getLsbD_setWidth,
    BitVec.getLsbD_setWidth, BitVec.getLsbD_allOnes]
  by_cases below : i < low
  · simp [below, inside, Nat.not_le.mpr below]
  · have above : low ≤ i := Nat.le_of_not_lt below
    by_cases within : i < low + width
    · have near : i - low < width := by omega
      have few : i - low < 64 := by omega
      simp [below, above, inside, within, near, few]
    · have far : ¬ i - low < width := by omega
      have none := BitVec.getLsbD_of_ge field (i - low) (Nat.le_of_not_lt far)
      simp [below, inside, within, far, none]

theorem extract_setField (csr : BitVec 64) {low : Nat} (field : BitVec width)
    (fits : low + width ≤ 64) : (setField csr low field).extractLsb' low width = field := by
  apply BitVec.eq_of_getLsbD_eq
  intro i less
  rw [BitVec.getLsbD_extractLsb', getLsbD_setField _ _ _ (by omega), if_pos (by omega),
    Nat.add_sub_cancel_left]
  simp [less]

/-- A field keeps its bits when another one is set. -/
theorem extract_setField_other (csr : BitVec 64) {low start : Nat} (field : BitVec width)
    (fits : start + other ≤ 64) (apart : start + other ≤ low ∨ low + width ≤ start) :
    (setField csr low field).extractLsb' start other = csr.extractLsb' start other := by
  apply BitVec.eq_of_getLsbD_eq
  intro i less
  rw [BitVec.getLsbD_extractLsb', BitVec.getLsbD_extractLsb',
    getLsbD_setField _ _ _ (by omega), if_neg (by omega)]

end Fields

/-- How far the conversation has come. -/
inductive Talk where
  | silent | resetting | acknowledged | released | idle | started | complete | done
  deriving DecidableEq, Repr

/-- `pr_reset` of the control register. -/
def prReset (csr : BitVec 64) : BitVec 1 := csr.extractLsb' 0 1

/-- `pr_regionid` of the control register. -/
def prRegionid (csr : BitVec 64) : BitVec 2 := csr.extractLsb' 8 2

/-- `pr_push_complete` of the control register. -/
def prPushComplete (csr : BitVec 64) : BitVec 1 := csr.extractLsb' 13 1

/-- The access that takes the conversation on, about a region; everything else leaves it where
it is. -/
def Talk.next (region : BitVec 2) : Talk → Access → Talk
  | .silent, .writeq .control ctl => if prReset ctl = 1#1 then .resetting else .silent
  | .resetting, .readq .control ctl => if prResetAck ctl = 1#1 then .acknowledged else .resetting
  | .acknowledged, .writeq .control ctl => if prReset ctl = 0#1 then .released else .acknowledged
  | .released, .readq .status status => if prHostStatus status = 0#4 then .idle else .released
  | .idle, .writeq .control ctl =>
    if prStartReq ctl = 1#1 ∧ prRegionid ctl = region then .started else .idle
  | .started, .writeq .control ctl => if prPushComplete ctl = 1#1 then .complete else .started
  | .complete, .readq .control ctl => if prStartReq ctl = 0#1 then .done else .complete
  | talk, _ => talk

/-- The conversation in the events of a request. -/
def talk (region : BitVec 2) : List PrEvent → Talk
  | [] => .silent
  | event :: earlier => (talk region earlier).next region event.access

/-- Data is only handed over while the engine is started. -/
def InOrder (region : BitVec 2) (events : List PrEvent) : Prop :=
  Throughout (fun event earlier => event.access.IsPush → talk region earlier = .started) events

/-- The conversation since the events of `start`, in order so far. -/
def Spoken (region : BitVec 2) (start : List PrEvent) (state : Talk) (w : World) : Prop :=
  ∃ new, w.events = new ++ start ∧ InOrder region new ∧ talk region new = state

/-- The conversation is about the region of the port. -/
structure Talks (region : BitVec 2) (start : List PrEvent) (state : Talk) (w : World) : Prop where
  portId : w.fme.portId.setWidth 2 = region
  spoken : Spoken region start state w

section Handshake

variable {hw : Hardware} {region : BitVec 2} {start : List PrEvent} {state : Talk}

/-- So far everything has been in order. -/
def Orderly (region : BitVec 2) (start : List PrEvent) (w : World) : Prop :=
  ∃ state, Spoken region start state w

theorem Talks.orderly {w : World} (talks : Talks region start state w) :
    Orderly region start w :=
  ⟨state, talks.spoken⟩

/-- The program takes the conversation on from one state to another, or breaks it off. -/
abbrev Leads (region : BitVec 2) (start : List PrEvent) (state next : Talk) {α : Type}
    (program : Driver α) : Prop :=
  Triple (Talks region start state) program (fun _ => Talks region start next)
    fun _ => Orderly region start

namespace Leads

variable {α β : Type} {middle next : Talk}

theorem of_maintains {program : Driver α} (stays : Maintains (Talks region start state) program) :
    Leads region start state state program :=
  stays.consequence (fun _ talks => talks) (fun _ _ talks => talks) fun _ _ talks => talks.orderly

theorem pure (value : α) : Leads region start state state (Pure.pure value : Driver α) :=
  of_maintains (.pure value)

theorem throw (err : Errno) :
    Leads region start state next (MonadExcept.throw err : Driver α) :=
  Triple.throw fun _ talks => talks.orderly

theorem bind {first : Driver α} {second : α → Driver β}
    (one : Leads region start state middle first)
    (two : ∀ value, Leads region start middle next (second value)) :
    Leads region start state next (first >>= second) :=
  Triple.bind _ one two

theorem ite {condition : Prop} [Decidable condition] {yes no : Driver α}
    (whenTrue : Leads region start state next yes) (whenFalse : Leads region start state next no) :
    Leads region start state next (if condition then yes else no) :=
  Triple.ite (fun _ => whenTrue) fun _ => whenFalse

/-- A change of what the conversation does not depend on. -/
theorem modify {image : World → World} (portId : ∀ w, (image w).fme.portId = w.fme.portId)
    (events : ∀ w, (image w).events = w.events) :
    Leads region start state state (modify image : Driver PUnit) := by
  apply Triple.modify
  intro w talks
  obtain ⟨same, spoken⟩ := talks
  refine ⟨?_, ?_⟩
  · rw [portId, same]
  · rw [Spoken, events]
    exact spoken

end Leads

/-- An access that is no data, or data while the engine is started. -/
theorem Talks.log {w : World} (talks : Talks region start state w) (access : Access)
    (allowed : access.IsPush → state = .started) :
    Talks region start (state.next region access) (w.log access) := by
  obtain ⟨portId, new, events, inOrder, came⟩ := talks
  refine ⟨portId, ⟨access, w.sftrst, w.fpu⟩ :: new, ?_,
    ⟨fun push => came.trans (allowed push), inOrder⟩, ?_⟩
  · rw [World.log, events, List.cons_append]
  · rw [talk, came]

/-- Accesses that do not take the conversation on. -/
def Idles (region : BitVec 2) (state : Talk) (access : Access) : Prop :=
  (access.IsPush → state = .started) ∧ state.next region access = state

theorem Talks.stay {w : World} (talks : Talks region start state w) {access : Access}
    (idles : Idles region state access) : Talks region start state (w.log access) := by
  have after := talks.log access idles.1
  rwa [idles.2] at after

theorem readq_stays (reg : PrReg) (idles : ∀ value, Idles region state (.readq reg value)) :
    Maintains (Talks region start state) (readq hw reg) :=
  fun _ talks => talks.stay (idles _)

theorem writeq_stays {reg : PrReg} {value : BitVec 64}
    (idles : Idles region state (.writeq reg value)) :
    Maintains (Talks region start state) (writeq value reg) :=
  Triple.modify fun _ talks => talks.stay idles

/-- A wait takes the conversation on when the answer comes. -/
theorem waitRegisterField_talks {reg : PrReg} {expected : BitVec 64 → Prop}
    [DecidablePred expected] {next : Talk}
    (answer : ∀ value, state.next region (.readq reg value) = if expected value then next else state)
    (rounds : Nat) :
    Leads region start state next (waitRegisterField hw reg expected rounds) := by
  induction rounds with
  | zero => exact Triple.throw fun _ talks => talks.orderly
  | succ rounds ih =>
      rw [waitRegisterField]
      apply Triple.bind fun value =>
        Talks region start (if expected value then next else state)
      · intro w talks
        have read := talks.log (.readq reg (hw w.events reg)) False.elim
        rw [answer] at read
        exact read
      · intro value
        by_cases came : expected value
        · simp only [if_pos came]
          exact Triple.pure fun _ talks => talks
        · simp only [if_neg came]
          exact ih

/-- A control word that takes the conversation on. -/
theorem updateControl_talks {change : BitVec 64 → BitVec 64} {next : Talk}
    (asks : ∀ ctl, Idles region state (.readq .control ctl))
    (moves : ∀ ctl, state.next region (.writeq .control (change ctl)) = next) :
    Leads region start state next (updateControl hw change) := by
  intro w talks
  have read := talks.stay (asks (hw w.events .control))
  have written := read.log (.writeq .control (change (hw w.events .control)))
    fun same => absurd same (show PrReg.control ≠ .data by decide)
  rw [moves] at written
  exact written

/-- Asking for an error takes the conversation on nowhere but from `released`. -/
theorem prErrHandle_stays (notWaiting : state ≠ .released) :
    Maintains (Talks region start state) (prErrHandle hw) := by
  apply Maintains.bind
  · apply readq_stays
    intro value
    refine ⟨False.elim, ?_⟩
    cases state <;> first | rfl | exact absurd rfl notWaiting
  · intro status
    apply Maintains.ite (.pure _)
    apply Maintains.bind
    · apply readq_stays
      intro value
      exact ⟨False.elim, by cases state <;> rfl⟩
    · intro fmePrError
      apply Maintains.bind
      · apply writeq_stays
        exact ⟨fun same => absurd same (show PrReg.err ≠ .data by decide), by cases state <;> rfl⟩
      · exact fun _ => .pure _

theorem setPrErr_leads (prErr : BitVec 64) : Leads region start state state (setPrErr prErr) :=
  .modify (fun _ => rfl) fun _ => rfl

theorem prErrHandle_leads (notWaiting : state ≠ .released) :
    Leads region start state state (prErrHandle hw) :=
  .of_maintains (prErrHandle_stays notWaiting)

/-- The engine has been reset and is idle. -/
theorem fmePrWriteInit_talks : Leads region start .silent .idle (fmePrWriteInit hw) := by
  have resets : Leads region start .silent .resetting
      (updateControl hw fun ctl => setField ctl 0 1#1) :=
    updateControl_talks (fun _ => ⟨False.elim, rfl⟩)
      fun ctl => if_pos (extract_setField ctl 1#1 (by decide))
  have acknowledges : Leads region start .resetting .acknowledged
      (fpgaWaitRegisterField hw .control fun ctl => prResetAck ctl = 1#1) :=
    waitRegisterField_talks (fun _ => rfl) _
  have releases : Leads region start .acknowledged .released
      (updateControl hw fun ctl => setField ctl 0 0#1) :=
    updateControl_talks (fun _ => ⟨False.elim, rfl⟩)
      fun ctl => if_pos (extract_setField ctl 0#1 (by decide))
  have idles : Leads region start .released .idle
      (fpgaWaitRegisterField hw .status fun status => prHostStatus status = 0#4) :=
    waitRegisterField_talks (fun _ => rfl) _
  exact Leads.bind resets fun _ => Leads.bind acknowledges fun _ => Leads.bind releases fun _ =>
    Leads.bind idles fun _ =>
    Leads.bind (prErrHandle_leads (by decide)) fun _ => .pure ()

theorem awaitCredit_talks (rounds credit : Nat) :
    Leads region start .started .started (awaitCredit hw rounds credit) := by
  induction rounds generalizing credit with
  | zero =>
      rw [awaitCredit]
      apply Leads.ite (.pure _)
      apply Leads.bind (prErrHandle_leads (by decide))
      exact fun prErr => .bind (setPrErr_leads prErr) fun _ => .ite (.throw .eio) (.throw .etimedout)
  | succ rounds ih =>
      rw [awaitCredit]
      apply Leads.ite (.pure _)
      apply Leads.bind (.of_maintains (readq_stays .status fun _ => ⟨False.elim, rfl⟩))
      exact fun status => ih (prCredit status).toNat

theorem pushWord_talks (bandwidth : Nat) (bytes : List Byte) :
    Leads region start .started .started (pushWord bandwidth bytes) := by
  apply Leads.ite
  · exact .of_maintains (writeq_stays ⟨fun _ => rfl, rfl⟩)
  · exact Triple.modify fun _ talks => talks.stay ⟨fun _ => rfl, rfl⟩

theorem pushAll_talks (bandwidth : Nat) (buf : List Byte) (pusher : Pusher) :
    Leads region start .started .started (pushAll hw bandwidth buf pusher) := by
  induction buf, pusher using pushAll.induct bandwidth with
  | case1 pusher =>
      rw [pushAll, if_pos rfl]
      exact .pure ()
  | case2 buf pusher some ih =>
      rw [pushAll, if_neg some]
      apply Leads.bind (awaitCredit_talks pusher.rounds pusher.credit)
      intro credited
      by_cases full : bandwidth ≤ buf.length
      · rw [dif_pos full]
        by_cases known : bandwidth = 4 ∨ bandwidth = 64
        · rw [dif_pos known]
          exact .bind (pushWord_talks _ _) fun _ => ih credited full known
        · rw [dif_neg known]
          exact .throw .efault
      · rw [dif_neg full]
        exact .throw .einval

theorem withFpu_talks {program : Driver Unit} {next : Talk}
    (leads : Leads region start state next program) (avx512 : Bool) :
    Leads region start state next (withFpu avx512 program) := by
  cases avx512 with
  | false =>
      rw [withFpu_false]
      exact leads
  | true =>
      rw [withFpu_true]
      have opened : Leads region start state state (acquire .fpu) :=
        .modify (fun _ => rfl) fun _ => rfl
      apply Leads.bind opened
      intro _
      apply Triple.attempt_bind leads
      · exact fun _ _ talks => ⟨talks.portId, talks.spoken⟩
      · exact fun _ _ orderly => orderly

/-- The engine is started for the region, and stays so while it is handed the data. -/
theorem fmePrWrite_talks (buf : List Byte) :
    Leads region start .idle .started (fmePrWrite hw buf) := by
  apply Triple.get_bind
  intro w talks
  have regionIs := talks.portId
  have leads : Leads region start .idle .started (updateControl hw fun ctl =>
      setField (setField ctl 8 (w.fme.portId.setWidth 2)) 12 1#1) := by
    apply updateControl_talks
    · exact fun _ => ⟨False.elim, rfl⟩
    · intro ctl
      apply if_pos
      refine ⟨extract_setField _ 1#1 (by decide), ?_⟩
      rw [prRegionid, extract_setField_other _ 1#1 (by decide) (by decide),
        extract_setField _ _ (by decide), regionIs]
  have rest : Leads region start .idle .started (updateControl hw (fun ctl =>
      setField (setField ctl 8 (w.fme.portId.setWidth 2)) 12 1#1) >>= fun _ =>
        readq hw .status >>= fun status => withFpu w.fme.prAvx512
          (pushAll hw w.fme.prBandwidth.toNat buf
            ⟨prWaitTimeout + 1, (prCredit status).toNat⟩)) :=
    Leads.bind leads fun _ =>
      Leads.bind (.of_maintains (readq_stays .status fun _ => ⟨False.elim, rfl⟩))
        fun _ => withFpu_talks (pushAll_talks _ _ _) _
  exact rest.consequence (fun _ same => same ▸ talks) (fun _ _ talks => talks)
    fun _ _ orderly => orderly

/-- The engine has given the resource back. -/
theorem fmePrWriteComplete_talks :
    Leads region start .started .done (fmePrWriteComplete hw) := by
  have tells : Leads region start .started .complete
      (updateControl hw fun ctl => setField ctl 13 1#1) :=
    updateControl_talks (fun _ => ⟨False.elim, rfl⟩)
      fun ctl => if_pos (extract_setField ctl 1#1 (by decide))
  have ends : Leads region start .complete .done
      (fpgaWaitRegisterField hw .control fun ctl => prStartReq ctl = 0#1) :=
    waitRegisterField_talks (fun _ => rfl) _
  exact Leads.bind tells fun _ => Leads.bind ends fun _ =>
        Leads.bind (prErrHandle_leads (by decide)) fun prErr =>
    Leads.bind (setPrErr_leads prErr) fun _ => .ite (.throw .eio) (.pure ())

theorem mgrStep_talks {during failed : MgrState} {operation : Driver Unit} {next : Talk}
    (leads : Leads region start state next operation) :
    Leads region start state next (mgrStep during failed operation) := by
  have entered : Leads region start state state (setMgr during) :=
    .modify (fun _ => rfl) fun _ => rfl
  apply Leads.bind entered
  intro _
  apply Triple.attempt_bind leads
  · exact fun _ => Triple.pure fun _ talks => talks
  · exact fun _ _ orderly => orderly

theorem fpgaMgrBufLoad_talks (buf : List Byte) :
    Leads region start .silent .done (fpgaMgrBufLoad hw buf) := by
  have left : Leads region start .done .done (setMgr .operating) :=
    .modify (fun _ => rfl) fun _ => rfl
  exact .bind (mgrStep_talks fmePrWriteInit_talks) fun _ =>
    .bind (mgrStep_talks (fmePrWrite_talks buf)) fun _ =>
    .bind (mgrStep_talks fmePrWriteComplete_talks) fun _ => left

/-! ## Requests -/

/-- The bits of the control register that name the region of the port. -/
def PrCall.prRegion (call : PrCall) : BitVec 2 := (call.portId.setWidth 8).setWidth 2

/-- The conversation of a request that ends in some way: to its end, if it succeeds. -/
def Told (region : BitVec 2) (start : List PrEvent) (ret : Except Errno Unit) (w : World) : Prop :=
  match ret with
  | .ok _ => Spoken region start .done w
  | .error _ => Orderly region start w

theorem Spoken.refl (w : World) : Spoken region w.events .silent w :=
  ⟨[], rfl, trivial, rfl⟩

/-- Only the events matter. -/
theorem Told.congr {ret : Except Errno Unit} {w after : World} (told : Told region start ret w)
    (events : after.events = w.events) : Told region start ret after := by
  cases ret with
  | ok value =>
      obtain ⟨new, split, rest⟩ := told
      exact ⟨new, events.trans split, rest⟩
  | error err =>
      obtain ⟨state, new, split, rest⟩ := told
      exact ⟨state, new, events.trans split, rest⟩

theorem fmePrLoad_tells (buf : List Byte) {w : World} (talks : Talks region start .silent w) :
    Triple (fun current => current = w) (fmePrLoad hw buf)
      (fun result => Told region start result.1) fun _ _ => False := by
  apply Triple.modify_bind
  apply Triple.modify_bind
  apply Triple.bind fun ret => Told region start ret
  · apply Triple.attempt
    apply (fpgaMgrBufLoad_talks buf).consequence
    · intro current same
      rw [same]
      exact ⟨talks.portId, talks.spoken⟩
    · exact fun _ _ talks => talks.spoken
    · exact fun _ _ orderly => orderly
  · intro ret
    apply Triple.get_bind
    intro after told current same
    rw [same]
    exact told.congr rfl

theorem fmePrBuffered_tells (call : PrCall) (buf : List Byte) (w : World) :
    Triple (fun current => current = w) (fmePrBuffered hw call buf)
      (fun result => Told call.prRegion w.events result.1)
      fun _ _ => False := by
  have untold {err : Errno} : Told call.prRegion w.events (.error err) w :=
    ⟨.silent, .refl w⟩
  apply Triple.ite
  · intro _
    apply Triple.pure
    intro current same
    rw [same]
    exact untold
  · intro _
    cases call.fpgaMgrGet with
    | error err =>
        apply Triple.pure
        intro current same
        rw [same]
        exact untold
    | ok _ =>
        apply Triple.modify_bind
        apply Triple.modify_bind
        apply Triple.bind fun result =>
          Told call.prRegion w.events result.1
        · exact fmePrLoad_tells _ ⟨rfl, .refl _⟩
        · intro result after told
          exact told.congr rfl

theorem fmePrLocked_tells (call : PrCall) (w : World) :
    Triple (fun current => current = w) (fmePrLocked hw call)
      (fun result => Told call.prRegion w.events result.1)
      fun _ _ => False := by
  have untold {err : Errno} : Told call.prRegion w.events (.error err) w :=
    ⟨.silent, .refl w⟩
  apply Triple.ite
  · intro _
    apply Triple.pure
    intro current same
    rw [same]
    exact untold
  · intro _
    apply Triple.get_bind
    intro current same
    rw [same]
    apply Triple.ite
    · intro _
      apply Triple.pure
      intro current same
      rw [same]
      exact untold
    · intro _
      apply Triple.modify_bind
      apply Triple.bind fun result =>
        Told call.prRegion w.events result.1
      · exact fmePrBuffered_tells call _ _
      · intro result after told
        exact told.congr rfl

/-- Whatever the hardware answers, a request hands data over only after the engine has
acknowledged a reset, has become idle and has been started for the region of the port; and a
request only succeeds if the engine has then been told that the data is complete and has given
the resource back. -/
theorem fmePr_keeps_to_handshake (hw : Hardware) (call : PrCall) (w : World) :
    Triple (fun current => current = w) (fmePr hw call)
      (fun _ => Spoken call.prRegion w.events .done)
      fun _ after => ∃ state, Spoken call.prRegion w.events state after := by
  have refuses {condition : Prop} [Decidable condition] {err : Errno} :
      Triple (fun current => current = w) (throwIf condition err) (fun _ current => current = w)
        fun _ after => ∃ state,
          Spoken call.prRegion w.events state after := by
    apply Triple.throwIf
    · intro _ current same
      rw [same]
      exact ⟨.silent, .refl w⟩
    · exact fun _ _ same => same
  have orderly {ret : Except Errno Unit} {after : World}
      (told : Told call.prRegion w.events ret after) :
      Orderly call.prRegion w.events after := by
    cases ret with
    | ok value => exact ⟨.done, told⟩
    | error err => exact told
  apply refuses.bind
  intro _
  apply refuses.bind
  intro _
  apply refuses.bind
  intro _
  apply refuses.bind
  intro _
  apply refuses.bind
  intro _
  apply Triple.modify_bind
  apply Triple.bind fun result => Told call.prRegion w.events result.1
  · exact (fmePrLocked_tells call _).consequence (fun _ same => same) (fun _ _ told => told)
      fun _ _ never => never.elim
  · intro result
    apply Triple.bind fun _ => Told call.prRegion w.events result.1
    · exact Triple.modify fun _ told => told.congr rfl
    · intro _
      apply Triple.bind fun _ => Told call.prRegion w.events result.1
      · exact Triple.throwIf (fun _ _ told => orderly told) fun _ _ told => told
      · intro _
        apply Triple.bind fun _ => Told call.prRegion w.events result.1
        · exact Triple.modify fun _ told => told.congr rfl
        · intro _
          apply Triple.conclude
          · intro value ok after told
            rw [ok] at told
            exact told
          · intro err error after told
            rw [error] at told
            exact told

end Handshake

end OpaeXilinx.Fme
