import OpaeXilinx.Flash.Session

/-!
# Effects of calls

What `sectorErase` and `writePage` have done since some point is in the notes they have
left: the memory of the selected chip is the one from then with the noted calls carried
out, and nothing else has changed.  If the controller and the flash do what they are
asked, no call fails.
-/

namespace OpaeXilinx.Flash

open OpaeXilinx.Base

/-- What a call does to the memory of its chip. -/
def Call.applied (call : Call) (mem : Mem) : Mem :=
  match call.kind with
  | .erase => eraseSubsector (call.address % 2 ^ 28) mem
  | .program => programPage (call.address % 2 ^ 28) call.data mem

def Note.applied : Note → Mem → Mem
  | .call made, mem => made.applied mem
  | _, mem => mem

/-- The memory after some work, of which the last note comes first. -/
def imageAfter (work : List Note) (mem : Mem) : Mem := work.foldr Note.applied mem

theorem imageAfter_append (later earlier : List Note) (mem : Mem) :
    imageAfter (later ++ earlier) mem = imageAfter later (imageAfter earlier mem) :=
  List.foldr_append

/-- The flasher has left some notes, has done what they say, and is ready for the next call. -/
structure Worked (start : Chips) (work : List Note) (w₀ w : Flasher) : Prop where
  ready : Ready start w
  noted : notes w.log = work ++ notes w₀.log
  mem : (w.current start).mem = imageAfter work (w₀.current start).mem
  slave : w.slaveIndex = w₀.slaveIndex
  sectors : w.maxNumSectors = w₀.maxNumSectors
  startLoc : w.bitstreamStartLoc = w₀.bitstreamStartLoc

section Work

variable {start : Chips} {work : List Note} {w₀ w w₁ : Flasher}

theorem Worked.refl (ready : Ready start w₀) : Worked start [] w₀ w₀ :=
  ⟨ready, rfl, rfl, rfl, rfl, rfl⟩

theorem Worked.trans {later : List Note} (first : Worked start work w₀ w₁)
    (second : Worked start later w₁ w) : Worked start (later ++ work) w₀ w := by
  refine ⟨second.ready, ?_, ?_, second.slave.trans first.slave, second.sectors.trans first.sectors,
    second.startLoc.trans first.startLoc⟩
  · rw [second.noted, first.noted, List.append_assoc]
  · rw [second.mem, first.mem, imageAfter_append]

/-- Changes of the program's own variables are no work. -/
theorem Worked.congr (worked : Worked start work w₀ w) (log : w₁.log = w.log)
    (slave : w₁.slaveIndex = w.slaveIndex) (selected : w₁.selectedSector = w.selectedSector)
    (during : w₁.during = w.during) (sectors : w₁.maxNumSectors = w.maxNumSectors)
    (startLoc : w₁.bitstreamStartLoc = w.bitstreamStartLoc) : Worked start work w₀ w₁ := by
  have current : w₁.current start = w.current start := by
    rw [Flasher.current, Flasher.current, Flasher.chip, Flasher.chip, log, slave]
  exact ⟨worked.ready.congr log slave selected during sectors, log ▸ worked.noted,
    current ▸ worked.mem, slave.trans worked.slave, sectors.trans worked.sectors,
    startLoc.trans worked.startLoc⟩

/-- A note on something other than a call. -/
theorem Worked.note (worked : Worked start work w₀ w) {note : Note}
    (noCall : ∀ mem, note.applied mem = mem) : Worked start (note :: work) w₀ (w.note note) := by
  refine ⟨worked.ready.note note, ?_, ?_, worked.slave, worked.sectors, worked.startLoc⟩
  · show note :: notes w.log = _
    rw [worked.noted, List.cons_append]
  · show (w.current start).mem = note.applied (imageAfter work (w₀.current start).mem)
    rw [worked.mem, noCall]

theorem Worked.called {call : Call} {mem : Mem} (worked : Worked start work w₀ w₁)
    (called : Called start call mem w₁ w) (applied : mem = call.applied (w₁.current start).mem) :
    Worked start (.call call :: work) w₀ w := by
  have still := called.still
  simp only [Flasher.still, Still.mk.injEq] at still
  obtain ⟨-, sectors, -, slave, startLoc, -⟩ := still
  have later : Worked start [.call call] w₁ w := by
    refine ⟨called.ready, called.noted, ?_, slave, sectors, startLoc⟩
    rw [called.mem, applied]
    rfl
  exact worked.trans later

end Work

/-- The controller and the flash do what they are asked. -/
structure Env.Calm (env : Env) : Prop where
  transfer : ∀ tick, ∃ reply, env.transfer tick = .done reply ∧ reply 1 &&& 0x01 = 0
  txFull : ∀ tick, env.txFull tick = false
  txEmpty : ∀ tick, env.txEmpty tick = true

/-- All sectors can be selected, unless failures are allowed for. -/
def Selectable (fails : Prop) (w : Flasher) : Prop := fails ∨ w.maxNumSectors = 16

/-- The program fails as a flash operation does, and only if failures are allowed for. -/
def StopsIf (fails : Prop) (program : FlashM α) : Prop :=
  Triple (Selectable fails) program (fun _ => Selectable fails) fun stop _ => stop = .flash ∧ fails

section Failures

variable {fails : Prop} {env : Env}

theorem StopsIf.bind {first : FlashM α} {second : α → FlashM β} (one : StopsIf fails first)
    (two : ∀ value, StopsIf fails (second value)) : StopsIf fails (first >>= second) :=
  Triple.bind _ one two

theorem StopsIf.modify {image : Flasher → Flasher}
    (kept : ∀ w, (image w).maxNumSectors = w.maxNumSectors) :
    StopsIf fails (modify image : FlashM PUnit) := by
  apply Triple.modify
  intro w holds
  rw [Selectable, kept w]
  exact holds

/-- An error for a condition that only holds if failures are allowed for. -/
theorem StopsIf.throwIf {condition : Prop} [Decidable condition] (failing : condition → fails) :
    StopsIf fails (throwIf condition .flash) :=
  Triple.throwIf (fun holds _ _ => ⟨rfl, failing holds⟩) fun _ _ kept => kept

theorem failing_stops {pre : Flasher → Prop} {post : α → Flasher → Prop} {action : FlashM α}
    (new : Stop) (triple : Triple pre action post fun stop _ => stop = .flash ∧ fails) :
    Triple pre (failing .flash new action) post fun stop _ => stop = new ∧ fails :=
  failing_mapped triple fun _ _ ⟨same, failing⟩ => ⟨if_pos same, failing⟩

theorem Worked.selectable {start : Chips} {work : List Note} {w₀ w : Flasher}
    (worked : Worked start work w₀ w) (selectable : Selectable fails w₀) : Selectable fails w :=
  selectable.imp_right worked.sectors.trans

variable (reliable : fails ∨ env.Calm)

include reliable

theorem finalTransfer_stops (byteCount : Nat) :
    Triple (Selectable fails) (finalTransfer env byteCount)
      (fun reply w => Selectable fails w ∧ (fails ∨ reply 1 &&& 0x01 = 0))
      fun stop _ => stop = .flash ∧ fails := by
  refine Triple.bind (fun outcome w => Selectable fails w ∧
    (fails ∨ ∃ reply, outcome = .done reply ∧ reply 1 &&& 0x01 = 0)) ?_ ?_
  · exact fun w holds => ⟨holds, reliable.imp_right fun calm => calm.transfer w.tick⟩
  intro outcome
  cases outcome with
  | refused =>
      apply Triple.throw
      rintro w ⟨-, failing | ⟨_, impossible, -⟩⟩
      · exact ⟨rfl, failing⟩
      · cases impossible
  | broken shifted =>
      refine Triple.bind (fun _ _ => fails) (Triple.modify ?_) fun _ =>
        Triple.throw fun _ failing => ⟨rfl, failing⟩
      rintro w ⟨-, failing | ⟨_, impossible, -⟩⟩
      · exact failing
      · cases impossible
  | done reply =>
      refine Triple.bind (fun _ w => Selectable fails w ∧ (fails ∨ reply 1 &&& 0x01 = 0))
        (Triple.modify ?_) fun _ => Triple.pure fun _ holds => holds
      rintro w ⟨selectable, answered⟩
      refine ⟨selectable, answered.imp_right ?_⟩
      rintro ⟨_, ⟨⟩, idle⟩
      exact idle

/-- A transfer whose reply is not looked at. -/
theorem transfer_stops (byteCount : Nat) {rest : FlashM α} (stops : StopsIf fails rest) :
    StopsIf fails (do let _ ← finalTransfer env byteCount; rest) :=
  Triple.bind _ ((finalTransfer_stops reliable byteCount).consequence (fun _ holds => holds)
    (fun _ _ holds => holds.1) fun _ _ holds => holds) fun _ => stops

theorem waitTxEmpty_stops : StopsIf fails (waitTxEmpty env) := by
  refine Triple.bind (fun empty w => Selectable fails w ∧ (fails ∨ empty = true)) ?_ fun empty =>
    Triple.throwIf ?_ fun _ _ holds => holds.1
  · exact fun w holds => ⟨holds, reliable.imp_right fun calm => calm.txEmpty w.tick⟩
  · rintro notEmpty w ⟨-, failing | isEmpty⟩
    · exact ⟨rfl, failing⟩
    · cases notEmpty.symm.trans isEmpty

/-- If failures are not allowed for, the first poll finds the flash ready. -/
theorem pollFlashReady_stops (polls : Nat) :
    Triple (fun w => Selectable fails w ∧ (fails ∨ 0 < polls)) (pollFlashReady env polls)
      (fun _ => Selectable fails) fun stop _ => stop = .flash ∧ fails := by
  induction polls with
  | zero =>
      apply Triple.throw
      rintro w ⟨-, failing | impossible⟩
      · exact ⟨rfl, failing⟩
      · cases impossible
  | succ polls ih =>
      refine Triple.bind (fun _ => Selectable fails) (Triple.modify fun _ holds => holds.1) fun _ =>
        Triple.bind _ (finalTransfer_stops reliable 2) fun reply =>
        Triple.ite (fun _ => Triple.pure fun _ holds => holds.1) fun busy =>
        ih.consequence ?_ (fun _ _ holds => holds) fun _ _ holds => holds
      rintro w ⟨selectable, answered⟩
      exact ⟨selectable, .inl (answered.resolve_right busy)⟩

theorem isFlashReady_stops : StopsIf fails (isFlashReady env) :=
  (pollFlashReady_stops reliable 6000000).consequence (fun _ holds => ⟨holds, .inr (by decide)⟩)
    (fun _ _ holds => holds) fun _ _ holds => holds

theorem writeEnable_stops : StopsIf fails (writeEnable env) := by
  refine Triple.bind (fun full w => Selectable fails w ∧ (fails ∨ full = false)) ?_ fun full => ?_
  · exact fun w holds => ⟨holds, reliable.imp_right fun calm => calm.txFull w.tick⟩
  refine Triple.bind (fun _ => Selectable fails)
      (Triple.throwIf ?_ fun _ _ holds => holds.1) fun _ =>
    StopsIf.bind (.modify fun _ => rfl) fun _ =>
      transfer_stops reliable 1 (waitTxEmpty_stops reliable)
  rintro isFull w ⟨-, failing | notFull⟩
  · exact ⟨rfl, failing⟩
  · cases isFull.symm.trans notFull

theorem writeExtendedAddress_stops (value : Nat) :
    StopsIf fails (writeRegister env commandExtendedAddressRegWrite value 1) :=
  (isFlashReady_stops reliable).bind fun _ => (writeEnable_stops reliable).bind fun _ =>
    .bind (.modify fun _ => rfl) fun _ => .bind (.modify fun _ => rfl) fun _ =>
    transfer_stops reliable 2 (waitTxEmpty_stops reliable)

theorem setSector_stops (address : Nat) : StopsIf fails (setSector env address) := by
  apply Triple.get_bind
  intro w selectable
  have stops : StopsIf fails (do
      throwIf (w.maxNumSectors ≤ getSector address) .flash
      if getSector address = w.selectedSector then return
      else
        writeRegister env commandExtendedAddressRegWrite (getSector address) 1
        modify fun w => { w with selectedSector := getSector address }) := by
    refine .bind (.throwIf fun beyond => ?_) fun _ =>
      Triple.ite (fun _ => Triple.pure fun _ holds => holds) fun _ =>
      (writeExtendedAddress_stops reliable _).bind fun _ => .modify fun _ => rfl
    apply selectable.resolve_right
    intro sectors
    have := getSector_lt address
    omega
  exact stops.consequence (fun _ same => same ▸ selectable) (fun _ _ holds => holds)
    fun _ _ holds => holds

/-- A call that selects a sector and sends a command. -/
theorem command_stops (command : Byte) (address count : Nat) :
    StopsIf fails (do
      isFlashReady env
      setSector env address
      writeEnable env
      setCommand command address
      let _ ← finalTransfer env count
      waitTxEmpty env
      leave) :=
  (isFlashReady_stops reliable).bind fun _ => (setSector_stops reliable address).bind fun _ =>
    (writeEnable_stops reliable).bind fun _ => .bind (.modify fun _ => rfl) fun _ =>
    transfer_stops reliable count ((waitTxEmpty_stops reliable).bind fun _ => .modify fun _ => rfl)

theorem sectorErase_stops (address : Nat) (eraseCmd : Byte) :
    StopsIf fails (sectorErase env address eraseCmd) :=
  .bind (.modify fun _ => rfl) fun _ => command_stops reliable eraseCmd address 4

theorem writePage_stops (address : Nat) : StopsIf fails (writePage env address) := by
  apply Triple.get_bind
  intro w selectable
  have stops : StopsIf fails (enter .program address w.page >>= fun _ => _) :=
    .bind (.modify fun _ => rfl) fun _ =>
      command_stops reliable w.writeCmd address (writeDataSize + readWriteExtraBytes)
  exact stops.consequence (fun _ same => same ▸ selectable) (fun _ _ holds => holds)
    fun _ _ holds => holds

section Calls

variable {start : Chips} {work : List Note} {w₀ w₁ : Flasher} (worked : Worked start work w₀ w₁)
  (selectable : Selectable fails w₀)

include worked selectable

theorem isFlashReady_worked :
    Triple (fun w => w = w₁) (isFlashReady env)
      (fun _ w => Worked start work w₀ w ∧ w.stream = w₁.stream) fun stop _ =>
        stop = .flash ∧ fails := by
  refine (((Moved.refl worked.ready.idle).isFlashReady env).and
    (isFlashReady_stops reliable)).consequence
    (fun _ same => ⟨same, same ▸ worked.selectable selectable⟩) ?_ fun _ _ stopped => stopped.2
  rintro - w ⟨moved, -⟩
  have still := moved.still
  simp only [Flasher.still, Still.mk.injEq] at still
  obtain ⟨-, sectors, -, slave, startLoc, stream, during, -⟩ := still
  have coherent : Coherent start w := by
    rw [Coherent, moved.current, moved.selected]
    exact worked.ready.coherent
  have ready : Ready start w := ⟨moved.idle, coherent, during.trans worked.ready.outside,
    sectors.trans_le worked.ready.sectors⟩
  refine ⟨⟨ready, moved.noted.trans worked.noted, ?_, slave.trans worked.slave,
    sectors.trans worked.sectors, startLoc.trans worked.startLoc⟩, stream⟩
  rw [moved.current, worked.mem]

theorem sectorErase_worked (address : Nat) :
    Triple (fun w => w = w₁) (sectorErase env address command4KbSubsectorErase)
      (fun _ w => Worked start (.call ⟨.erase, address, [], w₀.maxNumSectors⟩ :: work) w₀ w ∧
        w.stream = w₁.stream) fun stop _ => stop = .flash ∧ fails := by
  refine ((sectorErase_triple env worked.ready address).and
    (sectorErase_stops reliable address _)).consequence
    (fun _ same => ⟨same, same ▸ worked.selectable selectable⟩) ?_ fun _ _ stopped => stopped.2
  rintro - w ⟨called, -⟩
  rw [← worked.sectors]
  exact ⟨worked.called called rfl, congrArg Still.stream called.still⟩

theorem writePage_worked (address : Nat) :
    Triple (fun w => w = w₁) (writePage env address)
      (fun _ w => Worked start (.call ⟨.program, address, w₁.page, w₀.maxNumSectors⟩ :: work) w₀ w ∧
        w.stream = w₁.stream) fun stop _ => stop = .flash ∧ fails := by
  refine ((writePage_triple env worked.ready address).and
    (writePage_stops reliable address)).consequence
    (fun _ same => ⟨same, same ▸ worked.selectable selectable⟩) ?_ fun _ _ stopped => stopped.2
  rintro - w ⟨called, -⟩
  rw [← worked.sectors]
  exact ⟨worked.called called rfl, congrArg Still.stream called.still⟩

end Calls

end Failures

end OpaeXilinx.Flash
