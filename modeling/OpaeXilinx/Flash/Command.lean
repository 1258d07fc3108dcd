import OpaeXilinx.Flash.Xspi

/-!
# Commands on the bus

What each step of the flasher does to the chips.  Between two transfers no chip is
selected, and the cached sector is the one in the extended address register; a step that
fails leaves the bus in any state, but the run ends there.  Whatever happens, an erase or
a page program reaches a chip only during a call, and at the address of that call modulo
2^28.
-/

namespace OpaeXilinx.Flash

open OpaeXilinx.Base

/-- The command of the call has been sent. -/
def Sent (call : Call) (earlier : List Event) : Prop :=
  ∃ event ∈ earlier, event.sends = true ∧ event.during = some call

/-- An erase or page program that an event completes belongs to the call, and what was
sent for the call is in the range of the flash.  Before the guard is set, leftovers of an
earlier run may be completed outside of calls. -/
structure Sound (start : Chips) (event : Event) (earlier : List Event) : Prop where
  hits : ∀ slave command target,
    (start.after earlier slave).completes slave event = some command →
    (start.after earlier slave).target command = some target →
    (event.during = none ∧ .guardSet ∉ notes earlier) ∨
      ∃ call, event.during = some call ∧ target = call.address % 2 ^ 28 ∧ Sent call earlier
  inRange : event.sends = true → ∃ call, event.during = some call ∧
    call.address % 2 ^ 28 < call.sectors * 2 ^ 24 ∧ call.sectors ≤ 16
  called : ∀ call, event.during = some call → (notes earlier).head? = some (.call call)

namespace Chip

variable {chip : Chip} {bytes : List Byte}

@[simp]
theorem execute_pending (command : Command) : (chip.execute command).pending = chip.pending := by
  cases command <;> simp only [execute] <;> split <;> rfl

@[simp]
theorem withPending_pending : chip.withPending chip.pending = chip := rfl

theorem execute_withPending (pending : Option (List Byte)) (command : Command) :
    (chip.withPending pending).execute command = (chip.execute command).withPending pending := by
  cases command <;> simp only [execute, full, withPending] <;> split <;> simp_all

theorem receive_withPending (pending : Option (List Byte)) (bytes : List Byte) :
    (chip.withPending pending).receive bytes = (chip.receive bytes).withPending pending := by
  simp only [receive]
  split
  · rfl
  · exact execute_withPending pending _

@[simp]
theorem receive_pending (bytes : List Byte) : (chip.receive bytes).pending = chip.pending := by
  simp only [receive]
  split
  · rfl
  · exact execute_pending _

theorem release_received (idle : chip.pending = none) (bytes : List Byte) :
    (chip.withPending (some bytes)).release = chip.receive bytes := by
  have same : (chip.receive bytes).pending = none := by rw [receive_pending, idle]
  show ((chip.withPending (some bytes)).receive bytes).withPending none = _
  rw [receive_withPending, ← same]
  rfl

theorem release_pending (chip : Chip) : chip.release.pending = none := by
  rw [release]
  split
  · assumption
  · rfl

theorem release_idle (idle : chip.pending = none) : chip.release = chip := by
  rw [release, idle]

/-- Bytes that do not begin with the opcode of an erase or program have no target. -/
theorem target_of_decode {command : Command} {target : Nat} (decoded : decode bytes = some command)
    (found : chip.target command = some target) : (bytes.head?.map isWriteOpcode) = some true := by
  match bytes with
  | [] => simp [decode] at decoded
  | opcode :: rest =>
      simp only [decode] at decoded
      simp only [List.head?_cons, Option.map_some, Option.some.injEq, isWriteOpcode,
        Bool.or_eq_true, beq_iff_eq]
      split at decoded
      · split at decoded <;> cases decoded
        cases found
      · split at decoded
        · split at decoded <;> cases decoded
          cases found
        · split at decoded
          · left; left; assumption
          · split at decoded
            · tauto
            · cases decoded

end Chip

/-- The chip of a slave. -/
def Flasher.chip (start : Chips) (w : Flasher) (slave : Slave) : Chip := start.after w.log slave

/-- The chip that the flasher works on. -/
def Flasher.current (start : Chips) (w : Flasher) : Chip := w.chip start w.slaveIndex

/-- What no transfer changes. -/
structure Still where
  mapped : Bool
  maxNumSectors : Nat
  flashVendor : Option Byte
  slaveIndex : Slave
  bitstreamStartLoc : Nat
  stream : Stream
  during : Option Call
  data : Nat → Byte

def Flasher.still (w : Flasher) : Still := ⟨w.mapped, w.maxNumSectors, w.flashVendor, w.slaveIndex,
  w.bitstreamStartLoc, w.stream, w.during, fun i => w.writeBuffer (readWriteExtraBytes + i)⟩

/-- No chip is selected, and everything up to now has been sound. -/
structure Idle (start : Chips) (w : Flasher) : Prop where
  pending : ∀ slave, (w.chip start slave).pending = none
  sound : Throughout (Sound start) w.log
  called : ∀ call, w.during = some call → (notes w.log).head? = some (.call call)

/-- Between two transfers: the current chip and the cached sector are the given ones, and
all else is as before. -/
structure Moved (start : Chips) (chip : Chip) (sector : Nat) (w₀ w : Flasher) : Prop where
  idle : Idle start w
  still : w.still = w₀.still
  current : w.current start = chip
  selected : w.selectedSector = sector
  others : ∀ slave, slave ≠ w₀.slaveIndex → w.chip start slave = w₀.chip start slave
  noted : notes w.log = notes w₀.log

/-- The state after a transfer that has failed. -/
structure Broken (start : Chips) (w₀ w : Flasher) : Prop where
  sound : Throughout (Sound start) w.log
  noted : notes w.log = notes w₀.log

section Steps

variable (env : Env) {start : Chips} {w₀ w w₁ : Flasher} {chip chip₁ : Chip} {sector sector₁ : Nat}

theorem Moved.trans (first : Moved start chip₁ sector₁ w₀ w₁)
    (second : Moved start chip sector w₁ w) :
    Moved start chip sector w₀ w := by
  have slave : w₁.slaveIndex = w₀.slaveIndex := congrArg Still.slaveIndex first.still
  refine ⟨second.idle, second.still.trans first.still, second.current, second.selected, ?_,
    second.noted.trans first.noted⟩
  intro other different
  rw [second.others other (slave ▸ different), first.others other different]

theorem Moved.broken (first : Moved start chip₁ sector₁ w₀ w₁) (second : Broken start w₁ w) :
    Broken start w₀ w :=
  ⟨second.sound, second.noted.trans first.noted⟩

/-- Changes of the program's own variables do not move anything. -/
theorem Moved.rfl_of_log (idle : Idle start w₀) (log : w.log = w₀.log)
    (still : w.still = w₀.still) :
    Moved start (w₀.current start) w.selectedSector w₀ w := by
  have slave : w.slaveIndex = w₀.slaveIndex := congrArg Still.slaveIndex still
  have same : ∀ slave, w.chip start slave = w₀.chip start slave := fun _ => by
    simp only [Flasher.chip, log]
  have during : w.during = w₀.during := congrArg Still.during still
  refine ⟨⟨fun slave => same slave ▸ idle.pending slave, log ▸ idle.sound, ?_⟩, still, ?_, rfl,
    fun slave _ => same slave, log ▸ rfl⟩
  · rw [during, log]
    exact idle.called
  rw [Flasher.current, Flasher.current, slave, same]

/-- What the bytes of a transfer need: if they begin an erase or program, that is the one
of the call. -/
structure Fits (start : Chips) (w : Flasher) (bytes : List Byte) : Prop where
  hits : ∀ command target, decode bytes = some command →
    (w.current start).target command = some target →
    ∃ call, w.during = some call ∧ target = call.address % 2 ^ 28
  inRange : bytes.head?.map isWriteOpcode = some true → ∃ call, w.during = some call ∧
    call.address % 2 ^ 28 < call.sectors * 2 ^ 24 ∧ call.sectors ≤ 16

theorem Fits.of_head {bytes : List Byte} (reads : bytes.head?.map isWriteOpcode ≠ some true) :
    Fits start w bytes :=
  ⟨fun _ _ decoded found => absurd (Chip.target_of_decode decoded found) reads,
    fun writes => absurd writes reads⟩

theorem sends_iff {bytes : List Byte} {during : Option Call} :
    (Event.shift bytes during).sends = true ↔ bytes.head?.map isWriteOpcode = some true := by
  cases bytes <;> simp [Event.sends]

/-- Selecting a slave of an idle bus and shifting bytes to it is sound. -/
theorem Idle.begun (idle : Idle start w) {bytes : List Byte}
    (inRange : bytes.head?.map isWriteOpcode = some true → ∃ call, w.during = some call ∧
      call.address % 2 ^ 28 < call.sectors * 2 ^ 24 ∧ call.sectors ≤ 16) :
    Throughout (Sound start) (w.begun bytes).log := by
  refine ⟨⟨fun slave command target completes => ?_, ?_, idle.called⟩,
    ⟨fun slave command target completes => ?_, nofun, idle.called⟩, idle.sound⟩
  · simp [Chip.completes, Event.releases] at completes
  · exact fun sends => inRange (sends_iff.mp sends)
  · have none : (start.after w.log slave).pending = none := idle.pending slave
    simp [Chip.completes, none] at completes

theorem after_select_self (log : List Event) (slave : Slave) (during : Option Call)
    (idle : (start.after log slave).pending = none) (bytes : List Byte) :
    start.after (.shift bytes during :: .select slave during :: log) slave =
      (start.after log slave).withPending (some bytes) := by
  simp only [Chips.after, replay, Chip.react, if_true] at idle ⊢
  simp [Chip.withPending, idle]

theorem after_select_other (log : List Event) {slave other : Slave} (different : other ≠ slave)
    (during : Option Call) (idle : (start.after log other).pending = none) (bytes : List Byte) :
    start.after (.shift bytes during :: .select slave during :: log) other =
      start.after log other := by
  simp only [Chips.after, replay, Chip.react, if_neg different.symm] at idle ⊢
  rw [Chip.release_idle idle, idle, Option.map_none, ← idle, Chip.withPending_pending]

/-- A whole transfer from an idle bus. -/
theorem Idle.transferred (idle : Idle start w) {bytes : List Byte} (fits : Fits start w bytes) :
    Moved start ((w.current start).receive bytes) w.selectedSector w (w.transferred bytes) := by
  have self := after_select_self w.log w.slaveIndex w.during (idle.pending _) bytes
  have other : ∀ slave, slave ≠ w.slaveIndex →
      start.after (w.begun bytes).log slave = start.after w.log slave := fun slave different =>
    after_select_other w.log different w.during (idle.pending slave) bytes
  have current :
      (w.transferred bytes).chip start w.slaveIndex = (w.current start).receive bytes := by
    show (start.after (w.begun bytes).log w.slaveIndex).release = _
    rw [Flasher.begun, self]
    exact Chip.release_received (idle.pending w.slaveIndex) bytes
  have others : ∀ slave, slave ≠ w.slaveIndex →
      (w.transferred bytes).chip start slave = w.chip start slave := by
    intro slave different
    show (start.after (w.begun bytes).log slave).release = _
    rw [other slave different]
    exact Chip.release_idle (idle.pending slave)
  refine ⟨⟨fun slave => ?_, ⟨?_, idle.begun fits.inRange⟩, idle.called⟩, rfl, current, rfl, others,
    rfl⟩
  · by_cases same : slave = w.slaveIndex
    · rw [same, current, Chip.receive_pending]
      exact idle.pending _
    · rw [others slave same]
      exact idle.pending slave
  · -- the command is completed when the slave is deselected
    refine ⟨fun slave command target completes found => .inr ?_, nofun, idle.called⟩
    by_cases same : slave = w.slaveIndex
    · subst same
      simp only [Flasher.begun, self, Chip.completes, Event.releases, if_true]
        at completes found
      obtain ⟨call, isCall, hits⟩ := fits.hits command target completes (by
        cases command <;> exact found)
      exact ⟨call, isCall, hits, _, List.mem_cons_self,
        sends_iff.mpr (Chip.target_of_decode completes found), isCall⟩
    · have none : (start.after w.log slave).pending = none := idle.pending slave
      rw [other slave same] at completes
      simp [Chip.completes, none] at completes

theorem Moved.refl (idle : Idle start w₀) :
    Moved start (w₀.current start) w₀.selectedSector w₀ w₀ :=
  .rfl_of_log idle rfl rfl

section Follow

variable (moved : Moved start chip sector w₀ w₁)

include moved

theorem Moved.asked : Moved start chip sector w₀ w₁.asked := by
  have current := moved.current
  subst current
  exact moved.selected ▸ moved.trans (.rfl_of_log (w := w₁.asked) moved.idle rfl rfl)

/-- Writing a byte of the command into the buffer. -/
theorem Moved.store {i : Nat} (inCommand : i < readWriteExtraBytes) (value : Byte) :
    Moved start chip sector w₀ (w₁.store i value) := by
  have still : (w₁.store i value).still = w₁.still := by
    simp only [Flasher.still, Flasher.store, Still.mk.injEq, true_and]
    funext j
    exact Function.update_of_ne (by omega) _ _
  have current := moved.current
  subst current
  exact moved.selected ▸ moved.trans (.rfl_of_log (w := w₁.store i value) moved.idle rfl still)

theorem Moved.failed : Broken start w₀ w₁ := ⟨moved.idle.sound, moved.noted⟩

theorem Moved.finalTransfer {count : Nat} {bytes : List Byte} (sent : w₁.bytes count = bytes)
    (fits : Fits start w₁ bytes) :
    Triple (fun w => w = w₁) (finalTransfer env count)
      (fun _ w => Moved start (chip.receive bytes) sector w₀ w) (fun _ w => Broken start w₀ w) := by
  subst sent
  have asked := moved.asked
  have fits' : Fits start w₁.asked (w₁.asked.bytes count) := ⟨fits.hits, fits.inRange⟩
  apply Triple.bind_at (fun _ w => w = w₁.asked)
  · rintro _ rfl
    rfl
  rintro outcome _ rfl
  cases outcome with
  | refused =>
      apply Triple.throw
      rintro _ rfl
      exact asked.failed
  | broken shifted =>
      refine Triple.bind (fun _ w => Broken start w₀ w) (Triple.modify ?_) fun _ =>
        Triple.throw fun _ holds => holds
      rintro _ rfl
      refine ⟨asked.idle.begun fun writes => fits'.inRange ?_, asked.noted⟩
      cases shifted with
      | zero => simp at writes
      | succ more =>
          rw [List.head?_take] at writes
          simpa using writes
  | done reply =>
      refine Triple.bind (fun _ w => Moved start (chip.receive (w₁.bytes count)) sector w₀ w)
        (Triple.modify ?_) fun _ => Triple.pure fun _ holds => holds
      rintro _ rfl
      have done := asked.idle.transferred fits'
      rw [asked.current, asked.selected] at done
      exact asked.trans done

theorem Moved.waitTxEmpty :
    Triple (fun w => w = w₁) (waitTxEmpty env) (fun _ w => Moved start chip sector w₀ w)
      (fun _ w => Broken start w₀ w) := by
  apply Triple.bind_at (fun _ w => w = w₁.asked)
  · rintro _ rfl
    rfl
  rintro empty _ rfl
  apply Triple.throwIf
  · rintro - _ rfl
    exact moved.asked.failed
  · rintro - _ rfl
    exact moved.asked

/-- A transfer of bytes that are known, and the wait for its end. -/
theorem Moved.transferWait {count : Nat} {bytes : List Byte} (sent : w₁.bytes count = bytes)
    (fits : Fits start w₁ bytes) :
    Triple (fun w => w = w₁) (do let _ ← Flash.finalTransfer env count; Flash.waitTxEmpty env)
      (fun _ w => Moved start (chip.receive bytes) sector w₀ w) (fun _ w => Broken start w₀ w) :=
  Triple.bind_at _ (moved.finalTransfer env sent fits) fun _ _ sent => sent.waitTxEmpty env

end Follow

/-- A step that only stores a byte. -/
theorem setBuffer_bind {program : FlashM α} {i : Nat} {value : Byte} {post : α → Flasher → Prop}
    {fail : Stop → Flasher → Prop}
    (follows : Triple (fun w => w = w₁.store i value) program post fail) :
    Triple (fun w => w = w₁) (do setBuffer i value; program) post fail := by
  rintro _ rfl
  exact follows _ rfl

theorem bytes_succ (count : Nat) :
    w.bytes (count + 1) = w.writeBuffer 0 :: (List.range count).map fun i =>
      w.writeBuffer (i + 1) := by
  simp [Flasher.bytes, List.range_succ_eq_map, Function.comp_def]

/-- The chip does nothing about a command that only reads. -/
theorem receive_reading (chip : Chip) {opcode : Byte} (reads : opcode = commandStatusregRead ∨
    opcode = commandIdcodeRead) (bytes : List Byte) :
    chip.receive (opcode :: bytes) = chip ∧ isWriteOpcode opcode = false := by
  rcases reads with rfl | rfl <;> exact ⟨rfl, rfl⟩

theorem Fits.of_opcode {opcode : Byte} {bytes : List Byte} (reads : isWriteOpcode opcode = false) :
    Fits start w (opcode :: bytes) :=
  .of_head (by simp [reads])

/-- Polling the status, for any invariant that a status transfer keeps.  The first one
may find the bus in a worse state. -/
theorem pollFlashReady_triple {before after failed : Flasher → Prop}
    (closed : ∀ w, after w → before w)
    (store : ∀ w, before w → before (w.store 0 commandStatusregRead))
    (transfer : ∀ w, before w → w.writeBuffer 0 = commandStatusregRead →
      Triple (fun current => current = w) (finalTransfer env 2) (fun _ => after) (fun _ => failed))
    (timeout : ∀ w, before w → failed w) (polls : Nat) {w : Flasher} (holds : before w) :
    Triple (fun current => current = w) (pollFlashReady env polls) (fun _ => after)
      (fun _ => failed) := by
  induction polls generalizing w with
  | zero =>
      apply Triple.throw
      rintro _ rfl
      exact timeout _ holds
  | succ polls ih =>
      refine setBuffer_bind (Triple.bind_at _ (transfer _ (store w holds) rfl) ?_)
      intro reply w₁ sent
      refine Triple.ite (fun _ => Triple.pure ?_) fun _ => ih (closed _ sent)
      rintro _ rfl
      exact sent

theorem Moved.reading (moved : Moved start chip sector w₀ w₁) {opcode : Byte}
    (reads : opcode = commandStatusregRead ∨ opcode = commandIdcodeRead)
    (head : w₁.writeBuffer 0 = opcode) (count : Nat) :
    Triple (fun w => w = w₁) (Flash.finalTransfer env (count + 1))
      (fun _ w => Moved start chip sector w₀ w) (fun _ w => Broken start w₀ w) := by
  obtain ⟨nothing, other⟩ := receive_reading chip reads
    ((List.range count).map fun i => w₁.writeBuffer (i + 1))
  have sent := moved.finalTransfer env ((bytes_succ count).trans (by rw [head])) (.of_opcode other)
  rwa [nothing] at sent

theorem Moved.isFlashReady (moved : Moved start chip sector w₀ w₁) :
    Triple (fun w => w = w₁) (isFlashReady env) (fun _ w => Moved start chip sector w₀ w)
      (fun _ w => Broken start w₀ w) :=
  pollFlashReady_triple env (fun _ holds => holds) (fun _ holds => holds.store (by decide) _)
    (fun _ holds head => holds.reading env (.inl rfl) head 1) (fun _ holds => holds.failed) 6000000
    moved

theorem Moved.writeEnable (moved : Moved start chip sector w₀ w₁) :
    Triple (fun w => w = w₁) (writeEnable env)
      (fun _ w => Moved start { chip with writeEnabled := true } sector w₀ w)
      (fun _ w => Broken start w₀ w) := by
  apply Triple.bind_at (fun _ w => w = w₁.asked)
  · rintro _ rfl
    rfl
  rintro full _ rfl
  refine Triple.bind_at (fun _ w => w = w₁.asked) (Triple.throwIf ?_ fun _ _ same => same) ?_
  · rintro - _ rfl
    exact moved.asked.failed
  rintro - _ rfl
  apply setBuffer_bind
  exact (moved.asked.store (by decide) commandWriteEnable).transferWait env (bytes_succ 0)
    (.of_opcode rfl)

theorem getSector_eq (address : Nat) : getSector address = address / 2 ^ 24 % 16 := by
  rw [getSector, Nat.shiftRight_eq_div_pow, show 0xF = 2 ^ 4 - 1 from rfl,
    Nat.and_two_pow_sub_one_eq_mod]

theorem getSector_lt (address : Nat) : getSector address < 16 := by
  rw [getSector_eq]
  exact Nat.mod_lt _ (by decide)

theorem Moved.writeExtendedAddress (moved : Moved start chip sector w₀ w₁) (value : Nat) :
    Triple (fun w => w = w₁) (writeRegister env commandExtendedAddressRegWrite value 1)
      (fun _ w => Moved start { chip with
        ear := .ofNat 8 value, writeEnabled := false } sector w₀ w)
      (fun _ w => Broken start w₀ w) := by
  apply Triple.bind_at _ (moved.isFlashReady env)
  intro _ w₂ ready
  apply Triple.bind_at _ (ready.writeEnable env)
  intro _ w₃ enabled
  refine setBuffer_bind (setBuffer_bind ?_)
  exact ((enabled.store (i := 0) (by decide) commandExtendedAddressRegWrite).store
    (i := 1) (by decide) (.ofNat 8 value)).transferWait env (bytes_succ 1) (.of_opcode rfl)

/-- The cached sector, if there is one, is the one in the chip. -/
def Coherent (start : Chips) (w : Flasher) : Prop :=
  w.selectedSector ≠ noSector → (w.current start).ear.toNat = w.selectedSector

theorem Moved.setSector (moved : Moved start chip sector w₀ w₁)
    (coherent : sector ≠ noSector → chip.ear.toNat = sector) (address : Nat) :
    Triple (fun w => w = w₁) (setSector env address)
      (fun _ w => getSector address < w₀.maxNumSectors ∧ ∃ next,
        Moved start next (getSector address) w₀ w ∧ next.mem = chip.mem ∧
        next.ear.toNat = getSector address)
      (fun _ w => Broken start w₀ w) := by
  have small := getSector_lt address
  have sectors : w₁.maxNumSectors = w₀.maxNumSectors := congrArg Still.maxNumSectors moved.still
  apply Triple.get_bind
  intro w₁ same
  subst same
  refine Triple.bind_at (fun _ w => w = w₁ ∧ getSector address < w₀.maxNumSectors)
    (Triple.throwIf ?_ ?_) ?_
  · rintro - _ rfl
    exact moved.failed
  · rintro inRange _ rfl
    exact ⟨rfl, by omega⟩
  rintro - _ ⟨rfl, inRange⟩
  rw [moved.selected]
  refine Triple.ite (fun cached => Triple.pure ?_) fun other => ?_
  · rintro _ rfl
    have known : sector ≠ noSector := by
      rw [← cached, noSector]
      omega
    exact ⟨inRange, chip, cached ▸ moved, rfl, cached ▸ coherent known⟩
  · refine Triple.bind _ (moved.writeExtendedAddress env (getSector address)) fun _ =>
      Triple.modify ?_
    intro w written
    have ear : (BitVec.ofNat 8 (getSector address)).toNat = getSector address :=
      Nat.mod_eq_of_lt (by omega)
    have same := Moved.rfl_of_log (w := { w with selectedSector := getSector address }) written.idle
      rfl rfl
    rw [written.current] at same
    exact ⟨inRange, _, written.trans same, rfl, ear⟩

/-! ## Calls -/

/-- The flasher is ready for a call. -/
structure Ready (start : Chips) (w : Flasher) : Prop where
  idle : Idle start w
  coherent : Coherent start w
  outside : w.during = none
  sectors : w.maxNumSectors ≤ 16

/-- The state after a call that has succeeded. -/
structure Called (start : Chips) (call : Call) (mem : Mem) (w₀ w : Flasher) : Prop where
  ready : Ready start w
  still : w.still = w₀.still
  mem : (w.current start).mem = mem
  others : ∀ slave, slave ≠ w₀.slaveIndex → w.chip start slave = w₀.chip start slave
  noted : notes w.log = .call call :: notes w₀.log

/-- The state after a call that has failed. -/
structure Stopped (start : Chips) (call : Call) (w₀ w : Flasher) : Prop where
  sound : Throughout (Sound start) w.log
  noted : notes w.log = .call call :: notes w₀.log

/-- A note is sound. -/
theorem Sound.note (note : Note) (earlier : List Event) : Sound start (.note note) earlier :=
  ⟨fun _ _ _ completes => by simp [Chip.completes, Event.releases] at completes, nofun, nofun⟩

theorem Idle.note (idle : Idle start w) (outside : w.during = none) (note : Note) :
    Idle start (w.note note) :=
  ⟨idle.pending, ⟨.note note w.log, idle.sound⟩, fun call inside => by
    cases outside.symm.trans (show w.during = some call from inside)⟩

/-- The state in which a call begins. -/
def Flasher.entered (w : Flasher) (call : Call) : Flasher :=
  { w.note (.call call) with during := some call }

theorem Ready.entered (ready : Ready start w) (call : Call) :
    Moved start (w.current start) w.selectedSector (w.entered call) (w.entered call) := by
  have noted := ready.idle.note ready.outside (.call call)
  have idle : Idle start (w.entered call) := by
    refine ⟨noted.pending, noted.sound, ?_⟩
    rintro _ ⟨rfl⟩
    rfl
  exact Moved.refl idle

/-- The address bytes of a command. -/
theorem threeBytes_eq (address : Nat) :
    threeBytes (.ofNat 8 (address >>> 16)) (.ofNat 8 (address >>> 8)) (.ofNat 8 address) =
      address % 2 ^ 24 := by
  simp only [threeBytes, BitVec.toNat_ofNat, Nat.shiftRight_eq_div_pow]
  omega

/-- Behind the sector of an address, its three bytes give the address modulo 2^28. -/
theorem full_eq {address : Nat} (sector : chip.ear.toNat = getSector address) :
    chip.full (address % 2 ^ 24) = address % 2 ^ 28 := by
  rw [Chip.full, sector, getSector_eq]
  omega

theorem store_of_ne {i j : Nat} {value : Byte} (different : j ≠ i) :
    (w.store i value).writeBuffer j = w.writeBuffer j :=
  Function.update_of_ne different _ _

/-- The bytes of a command with its address. -/
def commandBytes (command : Byte) (address : Nat) (data : List Byte) : List Byte :=
  command :: .ofNat 8 (address >>> 16) :: .ofNat 8 (address >>> 8) :: .ofNat 8 address :: data

/-- A command with its address, from the buffer. -/
theorem bytes_of_command (command : Byte) (address count : Nat) :
    ((((w.store 0 command).store 1 (.ofNat 8 (address >>> 16))).store 2
      (.ofNat 8 (address >>> 8))).store 3 (.ofNat 8 address)).bytes (count + 4) =
      commandBytes command address
        ((List.range count).map fun i => w.writeBuffer (readWriteExtraBytes + i)) := by
  simp only [Flasher.bytes, List.range_succ_eq_map, List.map_cons, List.map_map]
  refine congrArg₂ _ rfl (congrArg₂ _ rfl (congrArg₂ _ rfl (congrArg₂ _ rfl ?_)))
  apply List.map_congr_left
  intro i _
  rw [readWriteExtraBytes, Nat.add_comm 4 i]
  simp only [Function.comp]
  rw [store_of_ne (by omega), store_of_ne (by omega), store_of_ne (by omega),
    store_of_ne (by omega)]

/-- What `sectorErase` and `writePage` do after their call has begun. -/
theorem Ready.command {call : Call} {mem : Mem} {command : Byte} {data : List Byte}
    (ready : Ready start w₀) (count : Nat) (sectors : call.sectors = w₀.maxNumSectors)
    (sent : (List.range count).map (fun i => w₀.writeBuffer (readWriteExtraBytes + i)) = data)
    (hits : ∀ chip : Chip, ∀ decoded target,
      decode (commandBytes command call.address data) = some decoded →
      chip.target decoded = some target → target = chip.full (call.address % 2 ^ 24))
    (effect : ∀ chip : Chip, chip.writeEnabled = true → chip.ear.toNat = getSector call.address →
      chip.mem = (w₀.current start).mem →
      (chip.receive (commandBytes command call.address data)).mem = mem ∧
        (chip.receive (commandBytes command call.address data)).ear = chip.ear) :
    Triple (fun w => w = w₀.entered call)
      (do isFlashReady env
          setSector env call.address
          writeEnable env
          setCommand command call.address
          let _ ← finalTransfer env (count + 4)
          waitTxEmpty env
          leave)
      (fun _ w => Called start call mem w₀ w) (fun _ w => Stopped start call w₀ w) := by
  have entered := ready.entered call
  let Failed (_ : Stop) (w : Flasher) : Prop := Broken start (w₀.entered call) w
  suffices Triple (fun w => w = w₀.entered call) _
    (fun _ w => Called start call mem w₀ w) Failed from
    this.consequence (fun _ same => same) (fun _ _ holds => holds)
      fun _ _ broken => ⟨broken.sound, broken.noted⟩
  apply Triple.bind_at _ (entered.isFlashReady env)
  intro _ w₁ ready₁
  apply Triple.bind_at _ (ready₁.setSector env ready.coherent call.address)
  rintro - w₂ ⟨inRange, next, moved, sameMem, sector⟩
  apply Triple.bind_at _ (moved.writeEnable env)
  intro _ w₃ enabled
  -- the command goes into the buffer, in front of the data
  let w₄ : Flasher := (((w₃.store 0 command).store 1 (.ofNat 8 (call.address >>> 16))).store 2
    (.ofNat 8 (call.address >>> 8))).store 3 (.ofNat 8 call.address)
  have stored := (((enabled.store (i := 0) (by decide) command).store (i := 1) (by decide)
    (.ofNat 8 (call.address >>> 16))).store (i := 2) (by decide)
    (.ofNat 8 (call.address >>> 8))).store (i := 3) (by decide) (.ofNat 8 call.address)
  apply Triple.bind_at (fun _ w => w = w₄)
  · rintro _ rfl
    rfl
  rintro - _ rfl
  have sameData : (fun i => w₃.writeBuffer (readWriteExtraBytes + i)) =
      fun i => w₀.writeBuffer (readWriteExtraBytes + i) := congrArg Still.data enabled.still
  have bytes : w₄.bytes (count + 4) = commandBytes command call.address data := by
    rw [bytes_of_command, sameData, sent]
  have isCall : w₄.during = some call := congrArg Still.during stored.still
  have fits : Fits start w₄ (commandBytes command call.address data) := by
    refine ⟨fun decoded target isDecoded found => ⟨call, isCall, ?_⟩,
      fun _ => ⟨call, isCall, ?_, ?_⟩⟩
    · rw [stored.current] at found
      rw [hits _ decoded target isDecoded found]
      exact full_eq sector
    · have bound : getSector call.address < call.sectors := sectors ▸ inRange
      rw [getSector_eq] at bound
      omega
    · rw [sectors]
      exact ready.sectors
  apply Triple.bind_at _ (stored.finalTransfer env bytes fits)
  intro _ w₅ transferred
  refine Triple.bind _ (transferred.waitTxEmpty env) fun _ => Triple.modify ?_
  intro w₆ done
  obtain ⟨sameMem', sameEar⟩ := effect { next with writeEnabled := true } rfl sector sameMem
  have outside : Flasher.still { w₆ with during := none } = w₀.still := by
    have still := done.still
    simp only [Flasher.still, Flasher.entered, Flasher.note, Still.mk.injEq] at still ⊢
    exact ⟨still.1, still.2.1, still.2.2.1, still.2.2.2.1, still.2.2.2.2.1, still.2.2.2.2.2.1,
      ready.outside.symm, still.2.2.2.2.2.2.2⟩
  have current := done.current
  refine ⟨⟨⟨done.idle.pending, done.idle.sound, nofun⟩, ?_, rfl, ?_⟩, outside, ?_,
    done.others, done.noted⟩
  · intro _
    show (w₆.current start).ear.toNat = w₆.selectedSector
    rw [current, sameEar, done.selected]
    exact sector
  · exact (congrArg Still.maxNumSectors outside).trans_le ready.sectors
  · show (w₆.current start).mem = mem
    rw [current, sameMem']

theorem sectorErase_triple (ready : Ready start w₀) (address : Nat) :
    Triple (fun w => w = w₀) (sectorErase env address command4KbSubsectorErase)
      (fun _ w => Called start ⟨.erase, address, [], w₀.maxNumSectors⟩
        (eraseSubsector (address % 2 ^ 28) (w₀.current start).mem) w₀ w)
      (fun _ w => Stopped start ⟨.erase, address, [], w₀.maxNumSectors⟩ w₀ w) := by
  let call : Call := ⟨.erase, address, [], w₀.maxNumSectors⟩
  apply Triple.bind_at (fun _ w => w = w₀.entered call)
  · rintro _ rfl
    rfl
  rintro - _ rfl
  have decoded : decode (commandBytes command4KbSubsectorErase address []) =
      some (.erase (address % 2 ^ 24)) := by
    rw [← threeBytes_eq]
    rfl
  apply ready.command env 0 rfl rfl
  · intro chip command target isDecoded found
    cases decoded.symm.trans isDecoded
    cases found
    rfl
  · intro chip enabled sector sameMem
    have received : chip.receive (commandBytes command4KbSubsectorErase address []) =
        chip.execute (.erase (address % 2 ^ 24)) := by rw [Chip.receive, decoded]
    have full : chip.full (address % 2 ^ 24) = address % 2 ^ 28 := full_eq sector
    show (chip.receive (commandBytes command4KbSubsectorErase address [])).mem =
      eraseSubsector (address % 2 ^ 28) _ ∧
        (chip.receive (commandBytes _ address [])).ear = chip.ear
    simp only [received, ← full, ← sameMem, Chip.execute, enabled, if_true, and_self]

theorem writePage_triple (ready : Ready start w₀) (address : Nat) :
    Triple (fun w => w = w₀) (writePage env address)
      (fun _ w => Called start ⟨.program, address, w₀.page, w₀.maxNumSectors⟩
        (programPage (address % 2 ^ 28) w₀.page (w₀.current start).mem) w₀ w)
      (fun _ w => Stopped start ⟨.program, address, w₀.page, w₀.maxNumSectors⟩ w₀ w) := by
  let call : Call := ⟨.program, address, w₀.page, w₀.maxNumSectors⟩
  apply Triple.get_bind
  intro w₀ same
  subst same
  apply Triple.bind_at (fun _ w => w = w₀.entered call)
  · rintro _ rfl
    rfl
  rintro - _ rfl
  have decoded : decode (commandBytes w₀.writeCmd address w₀.page) =
      some (.program (address % 2 ^ 24) w₀.page) := by
    rw [← threeBytes_eq, Flasher.writeCmd]
    split <;> rfl
  apply ready.command env 128 rfl rfl
  · intro chip command target isDecoded found
    cases decoded.symm.trans isDecoded
    cases found
    rfl
  · intro chip enabled sector sameMem
    have received : chip.receive (commandBytes w₀.writeCmd address w₀.page) =
        chip.execute (.program (address % 2 ^ 24) w₀.page) := by rw [Chip.receive, decoded]
    have full : chip.full (address % 2 ^ 24) = address % 2 ^ 28 := full_eq sector
    show (chip.receive (commandBytes w₀.writeCmd address w₀.page)).mem =
      programPage (address % 2 ^ 28) w₀.page _ ∧
      (chip.receive (commandBytes w₀.writeCmd address w₀.page)).ear = chip.ear
    simp only [received, ← full, ← sameMem, Chip.execute, enabled, if_true, and_self]

end Steps

end OpaeXilinx.Flash
