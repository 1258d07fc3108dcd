import OpaeXilinx.Fme.PrImage

/-!
# A request for partial reconfiguration

Whatever the hardware answers: the engine is handed the padded bitstream, from its beginning and
without gaps, while the port is in reset; everything that is taken is given back on every path;
the caller learns how far the load has come; and all of it ends.
-/

namespace OpaeXilinx.Fme

open OpaeXilinx.Base
open OpaeXilinx.Port (PortReset portEnable portDisable Held)

/-- The zeros behind a bitstream. -/
def padding (bandwidth size : Nat) : Nat := (bandwidth - size % bandwidth) % bandwidth

/-- The bitstream, up to a multiple of the bandwidth. -/
def padded (bandwidth : Nat) (image : List Byte) : List Byte :=
  image ++ List.replicate (padding bandwidth image.length) 0#8

theorem align_shift {a x : BitVec 32} (bits : Nat)
    (mask : ~~~(a - 1#32) = BitVec.allOnes 32 <<< bits) :
    align x a = (x + (a - 1#32)) >>> bits <<< bits := by
  rw [align, mask, BitVec.shiftLeft_ushiftRight]

theorem toNat_shifts (x : BitVec 32) (bits : Nat) :
    (x >>> bits <<< bits).toNat = x.toNat / 2 ^ bits * 2 ^ bits := by
  have down := Nat.div_mul_le_self x.toNat (2 ^ bits)
  rw [BitVec.toNat_shiftLeft, BitVec.toNat_ushiftRight, Nat.shiftLeft_eq,
    Nat.shiftRight_eq_div_pow, Nat.mod_eq_of_lt (by omega)]

/-- If the sum overflows, nothing is left of it; else the buffer is as long as it should be. -/
theorem align_toNat {a : BitVec 32} (known : Known a.toNat) {size : Nat} (small : size < 2 ^ 32)
    (some : (align (BitVec.ofNat 32 size) a).toNat ≠ 0) :
    (align (BitVec.ofNat 32 size) a).toNat = size + padding a.toNat size := by
  rw [padding]
  cases known with
  | inl word =>
      have four : a = 4#32 := BitVec.eq_of_toNat_eq word
      subst four
      rw [align_shift 2 (by decide), toNat_shifts, BitVec.toNat_add, BitVec.toNat_ofNat] at some ⊢
      simp at some ⊢
      omega
  | inr block =>
      have all : a = 64#32 := BitVec.eq_of_toNat_eq block
      subst all
      rw [align_shift 6 (by decide), toNat_shifts, BitVec.toNat_add, BitVec.toNat_ofNat] at some ⊢
      simp at some ⊢
      omega

/-- How many transfers a bitstream takes. -/
def transfers (bandwidth size : Nat) : Nat := (size + padding bandwidth size) / bandwidth

theorem padded_length {bandwidth : Nat} (known : Known bandwidth) (image : List Byte) :
    (padded bandwidth image).length = transfers bandwidth image.length * bandwidth := by
  rw [padded, List.length_append, List.length_replicate, transfers, padding]
  cases known with
  | inl word =>
      subst word
      omega
  | inr block =>
      subst block
      omega

theorem copyFromUser_zeros (image : List Byte) (more : Nat) :
    copyFromUser (List.replicate (image.length + more) 0#8) image =
      image ++ List.replicate more 0#8 := by
  rw [copyFromUser, List.drop_replicate, Nat.add_sub_cancel_left]

/-- An engine that acknowledges a reset, is idle, and has room. -/
def readyHw : Hardware := fun events reg =>
  match reg with
  | .control => if events.head?.map PrEvent.access = some (.writeq .control 1#64) then 0x10#64 else 0
  | .status => 5#64
  | .data => 0#64
  | .err => 0#64

/-- A device with a narrow PR engine. -/
def freshWorld : World :=
  ⟨fmePrProbe ⟨0#8, 0#64, 0#32, false⟩ 1#4, .unknown, ⟨0#64, 0#32, [], false⟩, [], [], none⟩

/-- A bitstream of six bytes for the first port. -/
def sixBytes : PrCall where
  argsz := 32#32
  flags := 0#32
  portId := 0#32
  image := [1#8, 2#8, 3#8, 4#8, 5#8, 6#8]
  image_size := by decide
  status := 77#64
  argReadable := true
  argWritable := true
  accessOk := true
  imageReadable := true
  hasHeader := true
  numPorts := 1#3
  registered := true
  memory := true
  hasManager := true
  managerFree := true
  moduleAlive := true

theorem probed_freshWorld : Probed freshWorld.fme :=
  probed_fmePrProbe ⟨0#8, 0#64, 0#32, false⟩ 1#4

theorem held_freshWorld : Held 0#64 0 freshWorld.port :=
  ⟨rfl, rfl, fun _ _ => rfl, rfl⟩

/-! ## The call -/

section Request

variable (hw : Hardware) {hardware : BitVec 64} {held : Nat}

/-- How a load that has been begun ends: as `ret` says. -/
inductive LoadEnd (buf : List Byte) (w after : World) : Except Errno Unit → Prop where
  | loaded (mgr : after.mgr = .operating) (all : sent after.events = sent w.events ++ buf)
      (clean : after.prErr = 0#64) : LoadEnd buf w after (.ok ())
  | failed {err : Errno} (blamed : Blamed err after.prErr) (reached : Reached buf w after) :
      LoadEnd buf w after (.error err)

theorem Reached.congr {buf : List Byte} {w after start last : World} (reached : Reached buf w after)
    (before : start.events = w.events) (mgr : last.mgr = after.mgr)
    (events : last.events = after.events) : Reached buf start last := by
  cases reached with
  | notBegun state none =>
      apply Reached.notBegun (mgr.trans state)
      rw [events, before, none]
  | stalled state short =>
      apply Reached.stalled (mgr.trans state)
      rw [events, before]
      exact short
  | notCompleted state all =>
      apply Reached.notCompleted (mgr.trans state)
      rw [events, before, all]

/-- Only the events, the manager and the error matter. -/
theorem LoadEnd.congr {buf : List Byte} {w after start last : World} {ret : Except Errno Unit}
    (ended : LoadEnd buf w after ret) (before : start.events = w.events)
    (mgr : last.mgr = after.mgr) (events : last.events = after.events)
    (prErr : last.prErr = after.prErr) : LoadEnd buf start last ret := by
  cases ended with
  | loaded state all clean =>
      apply LoadEnd.loaded (mgr.trans state) _ (prErr.trans clean)
      rw [events, before, all]
  | failed blamed reached =>
      rw [← prErr] at blamed
      exact .failed blamed (reached.congr before mgr events)

/-- What is the same after every request, whether it begins a load or not. -/
structure Restored (w after : World) : Prop where
  held : Ledger.held after.ledger = Ledger.held w.ledger
  honest : Ledger.Honest w.ledger → Ledger.Honest after.ledger
  prBandwidth : after.fme.prBandwidth = w.fme.prBandwidth
  prAvx512 : after.fme.prAvx512 = w.fme.prAvx512

/-- A load, between disabling the port and enabling it again. -/
structure Carried (buf : List Byte) (bound : Nat) (w after : World) (ret : Except Errno Unit) :
    Prop where
  outcome : LoadEnd buf w after ret
  events : ∃ new, after.events = new ++ w.events ∧ new.length ≤ bound ∧
    ∀ event ∈ new, Proper (fun _ => True) ((portDisable w.port).2.control.getLsbD 0) event
  port : after.port = portEnable (portDisable w.port).2

/-- A request that does not begin a load. -/
structure Refused (w after : World) (ret : Except Errno Unit) : Prop where
  events : after.events = w.events
  fme : after.fme = w.fme
  mgr : after.mgr = w.mgr
  port : after.port = w.port
  ret : ∃ err, ret = .error err ∧ err ≠ .eio

theorem Restored.refl (w : World) : Restored w w := ⟨rfl, id, rfl, rfl⟩

theorem Kept.restored {w after : World} (kept : Kept w after) : Restored w after :=
  ⟨kept.held, kept.honest, kept.prBandwidth, kept.prAvx512⟩

/-- What is taken before and given back behind is restored with the rest. -/
theorem Restored.bracket {w after : World} (resource : Resource)
    (inside : Restored (w.deal (.acquire resource)) after) :
    Restored w (after.deal (.release resource)) := by
  have same : Ledger.held after.ledger = resource ::ₘ Ledger.held w.ledger := inside.held
  refine ⟨?_, ?_, inside.prBandwidth, inside.prAvx512⟩
  · show (Ledger.held after.ledger).erase resource = _
    rw [same, Multiset.erase_cons_head]
  · intro honest
    apply Ledger.honest_release.mpr
    refine ⟨?_, inside.honest (Ledger.honest_acquire.mpr honest)⟩
    rw [same]
    exact Multiset.mem_cons_self _ _

/-- The events that a load may add. -/
def loadBound (count : Nat) : Nat := 4 * prWaitTimeout + 22 + count

theorem fmePrLoad_carried {buf : List Byte} {count : Nat} {w : World} (probed : Probed w.fme)
    (length : buf.length = count * w.fme.prBandwidth.toNat) (clean : w.prErr = 0#64) :
    Triple (fun start => start = w) (fmePrLoad hw buf)
      (fun result after => Carried buf (loadBound count) w after result.1 ∧ Restored w after ∧
        after.userStatus = w.userStatus ∧ result.2 = after.prErr)
      fun _ _ => False := by
  let begun : World := { w.deal (.acquire .portDevice) with port := (portDisable w.port).2 }
  apply Triple.modify_bind
  apply Triple.modify_bind
  apply Triple.bind_at fun ret after => LoadEnd buf begun after ret ∧
    Logged (fun _ => True) (loadBound count) begun after
  · apply Triple.attempt
    apply (fpgaMgrBufLoad_loaded hw (w := begun) probed length clean).consequence
    · exact fun _ same => same
    · intro _ after result
      have cleanThen : after.prErr = 0#64 := result.2.2.prErr.trans clean
      exact ⟨.loaded result.2.1 result.2.2.sent cleanThen, result.1⟩
    · exact fun _ _ result => ⟨.failed result.2.1 result.2.2, result.1⟩
  · intro ret after result
    obtain ⟨ended, logged⟩ := result
    have restored : Restored (w.deal (.acquire .portDevice))
        { after with port := portEnable after.port } := by
      have kept := logged.kept.restored
      exact ⟨kept.held, kept.honest, kept.prBandwidth, kept.prAvx512⟩
    apply Triple.get_bind
    intro start same
    rw [same]
    apply Triple.modify_bind
    apply Triple.modify_bind
    apply Triple.pure
    intro start same
    rw [same]
    exact ⟨⟨ended.congr rfl rfl rfl rfl, logged.adds, congrArg portEnable logged.kept.port⟩,
      restored.bracket .portDevice, logged.kept.userStatus, rfl⟩

/-- How a request ends that has the lock: without a load, with the status as the caller has it,
or with one and the error it has met. -/
inductive PrEnd (call : PrCall) (buf : List Byte) (bound : Nat) (w after : World) :
    Except Errno Unit × BitVec 64 → Prop where
  | refused {ret : Except Errno Unit} (refused : Refused w after ret) :
      PrEnd call buf bound w after (ret, call.status)
  | carried {ret : Except Errno Unit} (carried : Carried buf bound w after ret) :
      PrEnd call buf bound w after (ret, after.prErr)

theorem fpgaMgrGet_error {call : PrCall} {err : Errno} (none : call.fpgaMgrGet = .error err) :
    err ≠ .eio := by
  unfold PrCall.fpgaMgrGet at none
  split at none
  · cases none
    decide
  · split at none
    · cases none
      decide
    · split at none
      · cases none
        decide
      · cases none

theorem fmePrBuffered_ends {call : PrCall} {buf : List Byte} {count : Nat} {w : World}
    (probed : Probed w.fme)
    (length : (copyFromUser buf call.image).length = count * w.fme.prBandwidth.toNat) :
    Triple (fun start => start = w) (fmePrBuffered hw call buf)
      (fun result after => PrEnd call (copyFromUser buf call.image) (loadBound count) w after
        result ∧ Restored w after ∧ after.userStatus = w.userStatus)
      fun _ _ => False := by
  apply Triple.ite
  · intro _
    apply Triple.pure
    intro start same
    rw [same]
    exact ⟨.refused ⟨rfl, rfl, rfl, rfl, _, rfl, by decide⟩, .refl w, rfl⟩
  · intro _
    cases manager : call.fpgaMgrGet with
    | error err =>
        apply Triple.pure
        intro start same
        rw [same]
        exact ⟨.refused ⟨rfl, rfl, rfl, rfl, err, rfl, fpgaMgrGet_error manager⟩, .refl w, rfl⟩
    | ok _ =>
        let begun : World := { w.deal (.acquire .manager) with
          fme := { w.fme with prErr := 0#64, portId := call.portId.setWidth 8 } }
        have probedThen : Probed begun.fme := ⟨probed.known, probed.vector⟩
        apply Triple.modify_bind
        apply Triple.modify_bind
        apply Triple.bind_at fun result after =>
          Carried (copyFromUser buf call.image) (loadBound count) begun after result.1 ∧
            Restored begun after ∧ after.userStatus = begun.userStatus ∧ result.2 = after.prErr
        · exact (fmePrLoad_carried hw probedThen length rfl).consequence (fun _ same => same)
            (fun _ _ result => result) fun _ _ never => never.elim
        · intro result after ended
          obtain ⟨carried, restored, user, status⟩ := ended
          have opened : Restored (w.deal (.acquire .manager)) after :=
            ⟨restored.held, restored.honest, restored.prBandwidth, restored.prAvx512⟩
          apply Triple.modify_bind
          apply Triple.pure
          intro start same
          rw [same, show result = (result.1, after.prErr) from Prod.ext rfl status]
          refine ⟨.carried ⟨carried.outcome.congr rfl rfl rfl rfl, carried.events, carried.port⟩,
            opened.bracket .manager, user⟩

/-- The bytes and the events that a request can come to. -/
theorem fmePrLocked_ends {call : PrCall} {w : World} (probed : Probed w.fme) :
    Triple (fun start => start = w) (fmePrLocked hw call)
      (fun result after => PrEnd call (padded w.fme.prBandwidth.toNat call.image)
        (loadBound (transfers w.fme.prBandwidth.toNat call.image.length)) w after result ∧
        Restored w after ∧ after.userStatus = w.userStatus)
      fun _ _ => False := by
  have refuses {err : Errno} (other : err ≠ .eio) {call : PrCall} {buf : List Byte} {bound : Nat} :
      Triple (fun start => start = w) (pure (.error err, call.status))
        (fun result after => PrEnd call buf bound w after result ∧ Restored w after ∧
          after.userStatus = w.userStatus) fun (_ : Errno) _ => False := by
    apply Triple.pure
    intro start same
    rw [same]
    exact ⟨.refused ⟨rfl, rfl, rfl, rfl, err, rfl, other⟩, .refl w, rfl⟩
  apply Triple.ite
  · exact fun _ => refuses (by decide)
  · intro _
    apply Triple.get_bind
    intro start same
    rw [same]
    apply Triple.ite
    · exact fun _ => refuses (by decide)
    · intro memory
      rw [not_or] at memory
      have length := align_toNat probed.known call.image_size memory.1
      have buffer : copyFromUser (List.replicate (align call.bufferSize w.fme.prBandwidth).toNat 0#8)
          call.image = padded w.fme.prBandwidth.toNat call.image := by
        rw [PrCall.bufferSize, length, copyFromUser_zeros]
        rfl
      apply Triple.modify_bind
      apply Triple.bind_at fun result after => PrEnd call
        (padded w.fme.prBandwidth.toNat call.image)
        (loadBound (transfers w.fme.prBandwidth.toNat call.image.length))
        (w.deal (.acquire .buffer)) after result ∧ Restored (w.deal (.acquire .buffer)) after ∧
        after.userStatus = w.userStatus
      · rw [← buffer]
        apply (fmePrBuffered_ends hw (w := w.deal (.acquire .buffer)) probed ?_).consequence
        · exact fun _ same => same
        · exact fun _ _ result => result
        · exact fun _ _ never => never.elim
        · rw [buffer]
          exact padded_length probed.known call.image
      · intro result after ended
        obtain ⟨ended, restored, user⟩ := ended
        apply Triple.modify_bind
        apply Triple.pure
        intro start same
        rw [same]
        refine ⟨?_, restored.bracket .buffer, user⟩
        cases ended with
        | refused refused =>
            exact .refused ⟨refused.events, refused.fme, refused.mgr, refused.port, refused.ret⟩
        | carried carried =>
            exact PrEnd.carried ⟨carried.outcome.congr rfl rfl rfl rfl, carried.events,
              carried.port⟩

/-- How the call as a whole ends: refused before it has the lock, without being able to tell
the caller the status, or with the status for the caller. -/
inductive Answer (call : PrCall) (buf : List Byte) (bound : Nat) (w after : World) :
    Except Errno Unit → Prop where
  | early {ret : Except Errno Unit} (refused : Refused w after ret)
      (user : after.userStatus = w.userStatus) : Answer call buf bound w after ret
  | silent {result : Except Errno Unit × BitVec 64} (ended : PrEnd call buf bound w after result)
      (user : after.userStatus = w.userStatus) : Answer call buf bound w after (.error .efault)
  | told {ret : Except Errno Unit} {status : BitVec 64}
      (ended : PrEnd call buf bound w after (ret, status))
      (user : after.userStatus = some status) : Answer call buf bound w after ret

theorem PrEnd.congr {call : PrCall} {buf : List Byte} {bound : Nat} {w after start last : World}
    {result : Except Errno Unit × BitVec 64} (ended : PrEnd call buf bound w after result)
    (before : start.events = w.events ∧ start.fme = w.fme ∧ start.mgr = w.mgr ∧
      start.port = w.port)
    (behind : last.events = after.events ∧ last.fme = after.fme ∧ last.mgr = after.mgr ∧
      last.port = after.port) : PrEnd call buf bound start last result := by
  have prErr : last.prErr = after.prErr := congrArg FpgaFme.prErr behind.2.1
  cases ended with
  | refused refused =>
      apply PrEnd.refused
      exact ⟨behind.1.trans (refused.events.trans before.1.symm),
        behind.2.1.trans (refused.fme.trans before.2.1.symm),
        behind.2.2.1.trans (refused.mgr.trans before.2.2.1.symm),
        behind.2.2.2.trans (refused.port.trans before.2.2.2.symm), refused.ret⟩
  | carried carried =>
      rw [← prErr]
      apply PrEnd.carried
      refine ⟨carried.outcome.congr before.1 behind.2.2.1 behind.1 prErr, ?_, ?_⟩
      · rw [behind.1, before.1, before.2.2.2]
        exact carried.events
      · rw [behind.2.2.2, before.2.2.2]
        exact carried.port

theorem fmePr_answers {call : PrCall} {w : World} (probed : Probed w.fme) :
    let holds := fun ret after => Answer call (padded w.fme.prBandwidth.toNat call.image)
      (loadBound (transfers w.fme.prBandwidth.toNat call.image.length)) w after ret ∧
      Restored w after
    Triple (fun start => start = w) (fmePr hw call) (fun _ after => holds (.ok ()) after)
      fun err after => holds (.error err) after := by
  intro holds
  have refuses {condition : Prop} [Decidable condition] {err : Errno} (other : err ≠ .eio) :
      Triple (fun start => start = w) (throwIf condition err) (fun _ start => start = w)
        fun err after => holds (.error err) after := by
    apply Triple.throwIf
    · intro _ start same
      rw [same]
      exact ⟨.early ⟨rfl, rfl, rfl, rfl, err, rfl, other⟩ rfl, .refl w⟩
    · exact fun _ _ same => same
  apply (refuses (by decide)).bind
  intro _
  apply (refuses (by decide)).bind
  intro _
  apply (refuses (by decide)).bind
  intro _
  apply (refuses (by decide)).bind
  intro _
  apply (refuses (by decide)).bind
  intro _
  apply Triple.modify_bind
  apply Triple.bind_at fun result after => PrEnd call
    (padded w.fme.prBandwidth.toNat call.image)
    (loadBound (transfers w.fme.prBandwidth.toNat call.image.length))
    (w.deal (.acquire .lock)) after result ∧ Restored (w.deal (.acquire .lock)) after ∧
    after.userStatus = w.userStatus
  · exact (fmePrLocked_ends hw (w := w.deal (.acquire .lock)) probed).consequence
      (fun _ same => same) (fun _ _ result => result) fun _ _ never => never.elim
  · intro result after ended
    obtain ⟨ended, restored, user⟩ := ended
    apply Triple.modify_bind
    apply Triple.bind_at fun _ start => start = after.deal (.release .lock)
    · apply Triple.throwIf
      · intro _ start same
        rw [same]
        exact ⟨.silent (ended.congr ⟨rfl, rfl, rfl, rfl⟩ ⟨rfl, rfl, rfl, rfl⟩) user,
          restored.bracket .lock⟩
      · exact fun _ _ same => same
    · intro _ start same
      rw [same]
      apply Triple.modify_bind
      have told : holds result.1
          { after.deal (.release .lock) with userStatus := some result.2 } := by
        have back := restored.bracket .lock
        exact ⟨.told (ended.congr ⟨rfl, rfl, rfl, rfl⟩ ⟨rfl, rfl, rfl, rfl⟩) rfl,
          back.held, back.honest, back.prBandwidth, back.prAvx512⟩
      apply Triple.conclude
      · intro value ok start same
        rw [same, ← show result.1 = .ok () from ok]
        exact told
      · intro err error start same
        rw [same, ← show result.1 = .error err from error]
        exact told

/-- What the caller can rely on. -/
structure Honoured (call : PrCall) (w after : World) (ret : Except Errno Unit) : Prop where
  /-- The engine has been handed the bitstream as far as the manager says. -/
  progress : (after.events = w.events ∧ after.mgr = w.mgr) ∨
    (after.mgr = .operating ∧
      sent after.events = sent w.events ++ padded w.fme.prBandwidth.toNat call.image) ∨
    Reached (padded w.fme.prBandwidth.toNat call.image) w after
  ok : ret = .ok () → after.mgr = .operating ∧ after.userStatus = some 0#64 ∧
    sent after.events = sent w.events ++ padded w.fme.prBandwidth.toNat call.image
  eio : ret = .error .eio → ∃ status, after.userStatus = some status ∧ status ≠ 0#64
  status : ∀ status, after.userStatus = some status → status = 0#64 ∨ ret = .error .eio ∨
    (status = call.status ∧ after.events = w.events)

theorem LoadEnd.progress {buf : List Byte} {w after : World} {ret : Except Errno Unit}
    (ended : LoadEnd buf w after ret) :
    (after.mgr = .operating ∧ sent after.events = sent w.events ++ buf) ∨ Reached buf w after := by
  cases ended with
  | loaded mgr all clean => exact .inl ⟨mgr, all⟩
  | failed blamed reached => exact .inr reached

theorem Answer.honoured {call : PrCall} {bound : Nat} {w after : World} {ret : Except Errno Unit}
    (answer : Answer call (padded w.fme.prBandwidth.toNat call.image) bound w after ret)
    (fresh : w.userStatus = none) : Honoured call w after ret := by
  cases answer with
  | early refused user =>
      obtain ⟨err, isError, other⟩ := refused.ret
      rw [isError]
      refine ⟨.inl ⟨refused.events, refused.mgr⟩, nofun, ?_, ?_⟩
      · intro same
        cases same
        exact absurd rfl other
      · intro status told
        rw [user, fresh] at told
        cases told
  | silent ended user =>
      refine ⟨?_, nofun, nofun, ?_⟩
      · cases ended with
        | refused refused => exact .inl ⟨refused.events, refused.mgr⟩
        | carried carried => exact .inr carried.outcome.progress
      · intro status told
        rw [user, fresh] at told
        cases told
  | told ended user =>
      cases ended with
      | refused refused =>
          obtain ⟨err, isError, other⟩ := refused.ret
          rw [isError]
          refine ⟨.inl ⟨refused.events, refused.mgr⟩, nofun, ?_, ?_⟩
          · intro same
            cases same
            exact absurd rfl other
          · intro status told
            rw [user] at told
            cases told
            exact .inr (.inr ⟨rfl, refused.events⟩)
      | carried carried =>
          have progress := carried.outcome.progress
          cases carried.outcome with
          | loaded mgr all clean =>
              refine ⟨.inr progress, fun _ => ⟨mgr, ?_, all⟩, nofun, ?_⟩
              · rw [user, clean]
              · intro status told
                rw [user, clean] at told
                cases told
                exact .inl rfl
          | failed blamed reached =>
              refine ⟨.inr progress, nofun, ?_, ?_⟩
              · intro same
                cases same
                exact ⟨_, user, blamed.eio.mp rfl⟩
              · intro status told
                rw [user] at told
                cases told
                by_cases clean : after.prErr = 0#64
                · exact .inl clean
                · rw [blamed.eio.mpr clean]
                  exact .inr (.inl rfl)

/-- Whatever the hardware answers, the engine is handed the padded bitstream from its beginning
and without gaps, all of it if the call succeeds; the manager knows how far the load has come;
and the status for the caller is an error exactly if the call reports one of the hardware. -/
theorem fmePr_hands_over_bitstream (call : PrCall) {w : World} (probed : Probed w.fme)
    (fresh : w.userStatus = none) :
    Triple (fun start => start = w) (fmePr hw call)
      (fun _ after => Honoured call w after (.ok ()))
      fun err after => Honoured call w after (.error err) :=
  (fmePr_answers hw probed).consequence (fun _ same => same)
    (fun _ _ result => result.1.honoured fresh) fun _ _ result => result.1.honoured fresh

theorem fmePr_hands_over_bitstream_six :
    let after := endState (fmePr readyHw sixBytes freshWorld)
    Honoured sixBytes freshWorld after (.ok ()) ∧
      sent after.events = [1#8, 2#8, 3#8, 4#8, 5#8, 6#8, 0#8, 0#8] := by
  intro after
  have ran : fmePr readyHw sixBytes freshWorld = .ok () after :=
    eq_ok_of_succeeded (by decide +kernel)
  have honoured := (fmePr_hands_over_bitstream readyHw sixBytes probed_freshWorld rfl).of_ok rfl ran
  exact ⟨honoured, (honoured.ok rfl).2.2⟩

theorem fmePr_answered (call : PrCall) {w : World} (probed : Probed w.fme) :
    ∃ ret, Answer call (padded w.fme.prBandwidth.toNat call.image)
      (loadBound (transfers w.fme.prBandwidth.toNat call.image.length)) w
      (endState (fmePr hw call w)) ret ∧ Restored w (endState (fmePr hw call w)) := by
  have ends : Triple (fun start => start = w) (fmePr hw call)
      (fun _ after => ∃ ret, Answer call (padded w.fme.prBandwidth.toNat call.image)
        (loadBound (transfers w.fme.prBandwidth.toNat call.image.length)) w after ret ∧
        Restored w after)
      fun _ after => ∃ ret, Answer call (padded w.fme.prBandwidth.toNat call.image)
        (loadBound (transfers w.fme.prBandwidth.toNat call.image.length)) w after ret ∧
        Restored w after :=
    (fmePr_answers hw probed).consequence (fun _ same => same) (fun _ _ result => ⟨_, result⟩)
      fun _ _ result => ⟨_, result⟩
  exact ends.at_end rfl

/-- The load of a request, if it has begun one. -/
theorem Answer.load {call : PrCall} {buf : List Byte} {bound : Nat} {w after : World}
    {ret : Except Errno Unit} (answer : Answer call buf bound w after ret) :
    (after.events = w.events ∧ after.port = w.port) ∨ ∃ ret, Carried buf bound w after ret := by
  have ends {result : Except Errno Unit × BitVec 64} (ended : PrEnd call buf bound w after result) :
      (after.events = w.events ∧ after.port = w.port) ∨ ∃ ret, Carried buf bound w after ret := by
    cases ended with
    | refused refused => exact .inl ⟨refused.events, refused.port⟩
    | carried carried => exact .inr ⟨_, carried⟩
  cases answer with
  | early refused user => exact .inl ⟨refused.events, refused.port⟩
  | silent ended user => exact ends ended
  | told ended user => exact ends ended

/-- Whatever the hardware answers, a request comes to its end after so many accesses. -/
theorem fmePr_is_bounded (call : PrCall) {w : World} (probed : Probed w.fme) :
    ∃ new, (endState (fmePr hw call w)).events = new ++ w.events ∧
      new.length ≤ 4 * prWaitTimeout + 22 +
        transfers w.fme.prBandwidth.toNat call.image.length := by
  obtain ⟨ret, answer, -⟩ := fmePr_answered hw call probed
  cases answer.load with
  | inl none => exact ⟨[], none.1, Nat.zero_le _⟩
  | inr load =>
      obtain ⟨ret, carried⟩ := load
      obtain ⟨new, events, few, -⟩ := carried.events
      exact ⟨new, events, few⟩

theorem fmePr_is_bounded_six : (endState (fmePr readyHw sixBytes freshWorld)).events.length ≤
    4 * prWaitTimeout + 22 + 2 := by
  obtain ⟨new, events, few⟩ := fmePr_is_bounded readyHw sixBytes probed_freshWorld
  rw [events, show freshWorld.events = [] from rfl, List.append_nil]
  exact few

end Request

end OpaeXilinx.Fme
