import OpaeXilinx.Flash.Bytes
import OpaeXilinx.Flash.Command

/-!
# Sessions

The public operations, one after the other, on two chips that keep what an operation
leaves behind.  An operation begins by asking the flash for its id, which also brings the
bus back into a known state; from there on every erase and every page program is sound.
-/

namespace OpaeXilinx.Flash

open OpaeXilinx.Base

section Prepare

variable (env : Env) {start : Chips} {w₀ w w₁ : Flasher}

/-- No chip is selected. -/
def Released (start : Chips) (w : Flasher) : Prop := ∀ slave, (w.chip start slave).pending = none

/-- While the flash is asked for its id, the bus may hold leftovers of an earlier run,
unless a guard has been set.  If it does not, the chips stay as they are. -/
structure Preparing (start : Chips) (w₀ w : Flasher) : Prop where
  sound : Throughout (Sound start) w.log
  free : Released start w ∨ .guardSet ∉ notes w.log
  kept : Released start w₀ → ∀ slave, w.chip start slave = w₀.chip start slave
  outside : w.during = none
  noted : notes w.log = notes w₀.log
  stream : w.stream = w₀.stream
  startLoc : w.bitstreamStartLoc = w₀.bitstreamStartLoc
  slave : w.slaveIndex = w₀.slaveIndex
  selected : w.selectedSector = w₀.selectedSector

/-- An event outside of calls cannot be blamed for leftovers. -/
theorem sound_of_unguarded {event : Event} {earlier : List Event}
    (unguarded : .guardSet ∉ notes earlier) (outside : event.during = none)
    (reads : event.sends = false) : Sound start event earlier :=
  ⟨fun _ _ _ _ _ => .inl ⟨outside, unguarded⟩, fun sends => absurd sends (by simp [reads]),
    fun call inside => by cases outside.symm.trans inside⟩

/-- Failures of the preparation. -/
def Unprepared (start : Chips) (w₀ w : Flasher) : Prop :=
  Throughout (Sound start) w.log ∧ notes w.log = notes w₀.log

theorem finalTransfer_unguarded {opcode : Byte} (sound : Throughout (Sound start) w₁.log)
    (unguarded : .guardSet ∉ notes w₁.log) (outside : w₁.during = none)
    (reads : isWriteOpcode opcode = false) (head : w₁.writeBuffer 0 = opcode) (count : Nat) :
    Triple (fun w => w = w₁) (finalTransfer env (count + 1))
      (fun _ w => w = w₁.asked.transferred (w₁.bytes (count + 1)) ∧ Throughout (Sound start) w.log)
      (fun _ w => Unprepared start w₁ w) := by
  have quiet : ∀ shifted during,
      (Event.shift ((w₁.bytes (count + 1)).take shifted) during).sends = false := by
    intro shifted during
    cases shifted with
    | zero => rfl
    | succ shifted =>
        rw [bytes_succ, List.take_succ_cons]
        exact head ▸ reads
  have begun : ∀ shifted, Throughout (Sound start)
      (w₁.asked.begun ((w₁.bytes (count + 1)).take shifted)).log := fun shifted =>
    ⟨sound_of_unguarded unguarded outside (quiet shifted _),
      sound_of_unguarded unguarded outside rfl, sound⟩
  apply Triple.bind_at (fun _ w => w = w₁.asked)
  · rintro _ rfl
    rfl
  rintro outcome _ rfl
  cases outcome with
  | refused =>
      apply Triple.throw
      rintro _ rfl
      exact ⟨sound, rfl⟩
  | broken shifted =>
      refine Triple.bind (fun _ => Unprepared start w₁) (Triple.modify ?_) fun _ =>
        Triple.throw fun _ holds => holds
      rintro _ rfl
      exact ⟨begun shifted, rfl⟩
  | done reply =>
      refine Triple.bind (fun _ w => w = w₁.asked.transferred (w₁.bytes (count + 1)) ∧
        Throughout (Sound start) w.log) (Triple.modify ?_) fun _ => Triple.pure fun _ holds => holds
      rintro _ rfl
      have all := begun (w₁.bytes (count + 1)).length
      rw [List.take_length] at all
      exact ⟨rfl, sound_of_unguarded unguarded outside rfl, all⟩

theorem Preparing.reading (preparing : Preparing start w₀ w₁) {opcode : Byte}
    (reads : opcode = commandStatusregRead ∨ opcode = commandIdcodeRead)
    (head : w₁.writeBuffer 0 = opcode) (count : Nat) :
    Triple (fun w => w = w₁) (finalTransfer env (count + 1))
      (fun _ w => Preparing start w₀ w ∧ Released start w) (fun _ w => Unprepared start w₀ w) := by
  by_cases released : Released start w₁
  · -- from an idle bus nothing happens to the chips
    have idle : Idle start w₁ := ⟨released, preparing.sound, fun call inside => by
      cases preparing.outside.symm.trans inside⟩
    refine ((Moved.refl idle).reading env reads head count).consequence (fun _ same => same) ?_
      fun _ _ broken => ⟨broken.sound, broken.noted.trans preparing.noted⟩
    intro _ w moved
    have still := moved.still
    simp only [Flasher.still, Still.mk.injEq] at still
    obtain ⟨-, -, -, slave, startLoc, stream, during, -⟩ := still
    have same : ∀ slave, w.chip start slave = w₁.chip start slave := by
      intro other
      by_cases isCurrent : other = w₁.slaveIndex
      · have current := moved.current
        rw [Flasher.current, slave] at current
        rw [isCurrent, current]
        rfl
      · exact moved.others other isCurrent
    refine ⟨⟨moved.idle.sound, .inl moved.idle.pending, ?_, during.trans preparing.outside,
      moved.noted.trans preparing.noted, stream.trans preparing.stream,
      startLoc.trans preparing.startLoc, slave.trans preparing.slave,
      moved.selected.trans preparing.selected⟩, moved.idle.pending⟩
    exact fun atStart slave => (same slave).trans (preparing.kept atStart slave)
  · have unguarded := preparing.free.resolve_left released
    have other : isWriteOpcode opcode = false := (receive_reading (start .first) reads []).2
    refine (finalTransfer_unguarded env preparing.sound unguarded preparing.outside other head
      count).consequence (fun _ same => same) ?_
      fun _ _ failed => ⟨failed.1, failed.2.trans preparing.noted⟩
    rintro _ w ⟨rfl, sound⟩
    have pending : Released start (w₁.asked.transferred (w₁.bytes (count + 1))) :=
      fun slave => Chip.release_pending _
    refine ⟨⟨sound, .inl pending, fun atStart => ?_, preparing.outside, preparing.noted,
      preparing.stream, preparing.startLoc, preparing.slave, preparing.selected⟩, pending⟩
    have here : Released start w₁ := fun slave => preparing.kept atStart slave ▸ atStart slave
    exact absurd here released

theorem Preparing.store (preparing : Preparing start w₀ w₁) (i : Nat) (value : Byte) :
    Preparing start w₀ (w₁.store i value) :=
  ⟨preparing.sound, preparing.free, preparing.kept, preparing.outside, preparing.noted,
    preparing.stream, preparing.startLoc, preparing.slave, preparing.selected⟩

theorem Preparing.isFlashReady (preparing : Preparing start w₀ w₁) :
    Triple (fun w => w = w₁) (isFlashReady env)
      (fun _ w => Preparing start w₀ w ∧ Released start w) (fun _ w => Unprepared start w₀ w) :=
  pollFlashReady_triple env (fun _ holds => holds.1) (fun _ holds => holds.store _ _)
    (fun _ holds head => holds.reading env (.inl rfl) head 1)
      (fun _ holds => ⟨holds.sound, holds.noted⟩)
    6000000 preparing

/-- The flash has told its id. -/
structure Prepared (start : Chips) (w₀ w : Flasher) : Prop where
  ready : Ready start w
  kept : Released start w₀ → ∀ slave, w.chip start slave = w₀.chip start slave
  noted : notes w.log = notes w₀.log
  stream : w.stream = w₀.stream
  startLoc : w.bitstreamStartLoc = w₀.bitstreamStartLoc
  slave : w.slaveIndex = w₀.slaveIndex

theorem sectorsOf_le {code : Byte} {sectors : Nat} (known : sectorsOf code = some sectors) :
    sectors ≤ 16 := by
  rw [sectorsOf] at known
  split_ifs at known <;> cases known <;> decide

theorem getFlashId_triple (preparing : Preparing start w₀ w₁)
    (unselected : w₁.selectedSector = noSector) :
    Triple (fun w => w = w₁) (getFlashId env) (fun _ w => Prepared start w₀ w)
      (fun _ w => Unprepared start w₀ w) := by
  apply Triple.bind_at _ (preparing.isFlashReady env)
  rintro - w₂ ⟨ready, -⟩
  apply setBuffer_bind
  apply Triple.bind_at _ ((ready.store 0 commandIdcodeRead).reading env (.inr rfl) rfl 4)
  rintro reply w₃ ⟨told, released⟩
  refine Triple.bind_at (fun _ w => Preparing start w₀ w ∧ Released start w)
    (Triple.runIf (fun _ => Triple.modify ?_) ?_) ?_
  · rintro _ rfl
    exact ⟨⟨told.sound, told.free, told.kept, told.outside, told.noted, told.stream, told.startLoc,
      told.slave, told.selected⟩, released⟩
  · rintro - _ rfl
    exact ⟨told, released⟩
  rintro - w₄ ⟨told, released⟩
  cases known : sectorsOf (reply 3) with
  | none =>
      apply Triple.throw
      rintro _ rfl
      exact ⟨told.sound, told.noted⟩
  | some sectors =>
      apply Triple.modify
      rintro _ rfl
      refine ⟨⟨⟨released, told.sound, fun call inside => ?_⟩, fun selected => ?_, told.outside,
        sectorsOf_le known⟩, told.kept, told.noted, told.stream, told.startLoc, told.slave⟩
      · cases told.outside.symm.trans inside
      · exact absurd (told.selected.trans (preparing.selected.symm.trans unselected)) selected

/-- One failure becomes another. -/
theorem failing_mapped {α : Type} {pre : Flasher → Prop} {post : α → Flasher → Prop}
    {fail fail' : Stop → Flasher → Prop} {action : FlashM α} {old new : Stop}
    (triple : Triple pre action post fail)
    (failed : ∀ stop w, fail stop w → fail' (if stop = old then new else stop) w) :
    Triple pre (failing old new action) post fail' := by
  intro w holds
  simp only [failing]
  cases result : action w with
  | ok value after => exact triple.of_ok holds result
  | error stop after => exact failed stop after (triple.of_error holds result)

theorem failing_triple {α : Type} {pre : Flasher → Prop} {post : α → Flasher → Prop}
    {failed : Flasher → Prop} {action : FlashM α} (old new : Stop)
    (triple : Triple pre action post fun _ => failed) :
    Triple pre (failing old new action) post fun _ => failed :=
  failing_mapped triple fun _ _ holds => holds

theorem prepareXSpi_triple (sound : Throughout (Sound start) w₀.log)
    (free : Released start w₀ ∨ .guardSet ∉ notes w₀.log) (outside : w₀.during = none) :
    Triple (fun w => w = w₀) (prepareXSpi env) (fun _ w => Prepared start w₀ w)
      (fun _ w => Unprepared start w₀ w) := by
  let w₁ : Flasher := { w₀ with selectedSector := noSector }
  refine Triple.bind_at (fun _ w => w = w₁) (Triple.modify ?_) ?_
  · rintro _ rfl
    rfl
  rintro - _ rfl
  have preparing : Preparing start w₁ w₁ :=
    ⟨sound, free, fun _ _ => rfl, outside, rfl, rfl, rfl, rfl, rfl⟩
  refine failing_triple .flash .exit ((getFlashId_triple env preparing rfl).consequence
    (fun _ same => same) ?_ fun _ _ failed => failed)
  intro _ w prepared
  exact ⟨prepared.ready, prepared.kept, prepared.noted, prepared.stream, prepared.startLoc,
    prepared.slave⟩

end Prepare

/-- A property of the notes that calls for good addresses keep. -/
structure Permits (good : Nat → Prop) (property : List Note → Prop) : Prop where
  call : ∀ call earlier, good call.address → property earlier → property (.call call :: earlier)
  line : ∀ line taken earlier, property earlier → property (.line line taken :: earlier)

/-- Ready for a call at a place of the text, with a property of the notes. -/
structure Working (start : Chips) (property : List Note → Prop) (s : Stream) (w : Flasher) :
    Prop where
  ready : Ready start w
  notes : property (notes w.log)
  stream : w.stream = s

/-- The end of a run, with a property of the notes. -/
structure Ended (start : Chips) (property : List Note → Prop) (w : Flasher) : Prop where
  sound : Throughout (Sound start) w.log
  notes : property (notes w.log)

/-- So many bytes have been taken for a record. -/
structure Cursor.Counts (c : Cursor) (count : Nat) : Prop where
  size : count = writeDataSize * c.pageIndex + c.bufferIndex
  room : c.bufferIndex < writeDataSize

section Work

variable (env : Env) {start : Chips} {property : List Note → Prop} {s after : Stream}
  {w w₁ : Flasher}

theorem Ready.congr (ready : Ready start w) (log : w₁.log = w.log)
    (slave : w₁.slaveIndex = w.slaveIndex) (selected : w₁.selectedSector = w.selectedSector)
    (during : w₁.during = w.during) (sectors : w₁.maxNumSectors = w.maxNumSectors) :
    Ready start w₁ := by
  have chips : ∀ slave, w₁.chip start slave = w.chip start slave := fun _ => by
    simp only [Flasher.chip, log]
  refine ⟨⟨fun slave => chips slave ▸ ready.idle.pending slave, log ▸ ready.idle.sound, ?_⟩, ?_,
    during ▸ ready.outside, sectors ▸ ready.sectors⟩
  · rw [during, log]
    exact ready.idle.called
  · rw [Coherent, Flasher.current, slave, chips, selected]
    exact ready.coherent

theorem Ready.note (ready : Ready start w) (note : Note) : Ready start (w.note note) :=
  ⟨ready.idle.note ready.outside note, ready.coherent, ready.outside, ready.sectors⟩

theorem Working.ended (working : Working start property s w) : Ended start property w :=
  ⟨working.ready.idle.sound, working.notes⟩

/-- Changes of the program's own variables do no harm. -/
theorem Working.congr (working : Working start property s w) (log : w₁.log = w.log)
    (slave : w₁.slaveIndex = w.slaveIndex) (selected : w₁.selectedSector = w.selectedSector)
    (during : w₁.during = w.during) (sectors : w₁.maxNumSectors = w.maxNumSectors)
    (stream : w₁.stream = after) : Working start property after w₁ :=
  ⟨working.ready.congr log slave selected during sectors, log ▸ working.notes, stream⟩

/-- A value that may be missing. -/
theorem orThrow_bind {α β : Type} {pre : Flasher → Prop} {post : β → Flasher → Prop}
    {fail : Stop → Flasher → Prop} {value : Option α} {second : α → FlashM β}
    (missing : value = none → ∀ w, pre w → fail .exception w)
    (there : ∀ found, value = some found → Triple pre (second found) post fail) :
    Triple pre (orThrow value >>= second) post fail := by
  cases value with
  | none => exact missing rfl
  | some found => exact there found rfl

theorem orThrow_works {α β : Type} {value : Option α} {second : α → FlashM β}
    {post : β → Flasher → Prop}
    (there : ∀ found, value = some found →
      Triple (Working start property s) (second found) post fun _ => Ended start property) :
    Triple (Working start property s) (orThrow value >>= second) post
      fun _ => Ended start property :=
  orThrow_bind (fun _ _ working => working.ended) there

theorem storeByte_works (text : List Char) (bufferIndex : Nat) :
    Triple (Working start property s) (storeBytes.storeByte text bufferIndex)
      (fun next w => next = bufferIndex + 1 ∧ Working start property s w)
      (fun _ => Ended start property) := by
  refine orThrow_works fun value _ =>
    Triple.bind (fun _ => Working start property s) (Triple.modify ?_) fun _ =>
      Triple.bind (fun _ => Working start property s)
        (Triple.throwIf (fun _ _ working => working.ended) fun _ _ working => working) fun _ =>
        Triple.pure fun _ working => ⟨rfl, working⟩
  exact fun w working => working.congr rfl rfl rfl rfl rfl working.stream

/-- As many bytes are stored as there are and fit. -/
theorem storeBytes_works (data : List Char) {bufferIndex : Nat} (room : bufferIndex < writeDataSize) :
    Triple (Working start property s) (storeBytes data bufferIndex)
      (fun next w => next =
          bufferIndex + ((digitsBytes data).take (writeDataSize - bufferIndex)).length ∧
        Working start property s w) (fun _ => Ended start property) := by
  induction data, bufferIndex using storeBytes.induct with
  | case1 bufferIndex => exact Triple.pure fun _ working => ⟨by simp [digitsBytes], working⟩
  | case2 digit bufferIndex =>
      refine (storeByte_works [digit] bufferIndex).consequence (fun _ holds => holds) ?_
        fun _ _ ended => ended
      rintro next w ⟨rfl, working⟩
      refine ⟨?_, working⟩
      rw [digitsBytes, List.length_take, List.length_singleton]
      omega
  | case3 high low data bufferIndex ih =>
      refine Triple.bind _ (storeByte_works [high, low] bufferIndex) fun next =>
        Triple.of_fact fun isNext => ?_
      subst isNext
      have length : (digitsBytes (high :: low :: data)).length = (digitsBytes data).length + 1 := rfl
      refine Triple.ite (fun full => Triple.pure fun _ working => ⟨?_, working⟩) fun free =>
        (ih (bufferIndex + 1) (by omega)).consequence (fun _ holds => holds) ?_
          fun _ _ ended => ended
      · rw [List.length_take, length]
        omega
      · rintro next w ⟨rfl, working⟩
        refine ⟨?_, working⟩
        rw [List.length_take, List.length_take, length]
        omega

theorem clearBuffers_works :
    Triple (Working start property s) clearBuffers (fun _ => Working start property s)
      (fun _ => Ended start property) :=
  Triple.modify fun _ working => working.congr rfl rfl rfl rfl rfl working.stream

theorem isFlashReady_works :
    Triple (Working start property s) (isFlashReady env) (fun _ => Working start property s)
      (fun _ => Ended start property) := by
  intro w working
  refine ((Moved.refl working.ready.idle).isFlashReady env).consequence
    (fun _ same => same) ?_ ?_ w rfl
  · intro _ after moved
    have still := moved.still
    simp only [Flasher.still, Still.mk.injEq] at still
    obtain ⟨-, sectors, -, -, -, stream, during, -⟩ := still
    refine ⟨⟨moved.idle, ?_, during ▸ working.ready.outside, sectors ▸ working.ready.sectors⟩,
      moved.noted ▸ working.notes, stream.trans working.stream⟩
    rw [Coherent, moved.current, moved.selected]
    exact working.ready.coherent
  · intro _ after broken
    exact ⟨broken.sound, broken.noted ▸ working.notes⟩

/-- The call of an erase that the property of the notes allows. -/
theorem sectorErase_works {address : Nat} (allowed : ∀ sectors earlier, property earlier →
      property (.call ⟨.erase, address, [], sectors⟩ :: earlier)) :
    Triple (Working start property s) (sectorErase env address command4KbSubsectorErase)
      (fun _ => Working start property s) (fun _ => Ended start property) := by
  intro w working
  refine (sectorErase_triple env working.ready address).consequence (fun _ same => same) ?_ ?_ w rfl
  · intro _ after called
    exact ⟨called.ready, called.noted ▸ allowed _ _ working.notes,
      (congrArg Still.stream called.still).trans working.stream⟩
  · intro _ after stopped
    exact ⟨stopped.sound, stopped.noted ▸ allowed _ _ working.notes⟩

theorem writePage_works {address : Nat} (allowed : ∀ data sectors earlier, property earlier →
      property (.call ⟨.program, address, data, sectors⟩ :: earlier)) :
    Triple (Working start property s) (writePage env address)
      (fun _ => Working start property s) (fun _ => Ended start property) := by
  intro w working
  refine (writePage_triple env working.ready address).consequence (fun _ same => same) ?_ ?_ w rfl
  · intro _ after called
    exact ⟨called.ready, called.noted ▸ allowed _ _ _ working.notes,
      (congrArg Still.stream called.still).trans working.stream⟩
  · intro _ after stopped
    exact ⟨stopped.sound, stopped.noted ▸ allowed _ _ _ working.notes⟩

/-- The calls of `writeBitstreamGuard`. -/
def Call.SetsGuard (guardStart : Nat) (call : Call) : Prop :=
  call.kind = .erase ∧ call.address = guardStart ∨
    call.kind = .program ∧ call.address = u32 (guardStart + writeDataSize)

theorem writeBitstreamGuard_works {address : Nat}
    (allowed : ∀ call earlier, call.SetsGuard address →
      property earlier → property (.call call :: earlier)) :
    Triple (Working start property s) (writeBitstreamGuard env address)
      (fun _ => Working start property s) (fun _ => Ended start property) := by
  refine Triple.bind _ (sectorErase_works env fun _ _ => allowed _ _ (.inl ⟨rfl, rfl⟩)) fun _ =>
    Triple.bind (fun _ => Working start property s) (Triple.modify ?_) fun _ =>
      writePage_works env fun _ _ _ => allowed _ _ (.inr ⟨rfl, rfl⟩)
  exact fun w working => working.congr rfl rfl rfl rfl rfl working.stream

variable {good : Nat → Prop} (permits : Permits good property)

include permits

theorem eraseRange_works (rounds : Nat) {j last : Nat}
    (within : ∀ address, Swept last j address → good address) :
    Triple (Working start property s) (eraseRange env rounds j last)
      (fun _ => Working start property s) (fun _ => Ended start property) := by
  induction rounds generalizing j with
  | zero => exact Triple.throw fun _ working => working.ended
  | succ rounds ih =>
      refine Triple.runIf (fun more => ?_) fun _ _ working => working
      have here : good j := within j (.here more)
      exact Triple.bind _ (failing_triple .flash .einval
          (sectorErase_works env fun _ earlier => permits.call _ earlier here)) fun _ =>
        ih fun address swept => within address (.later more swept)

theorem eraseRecords_works {records : List ElaRecord}
    (within : ∀ record ∈ records, ∀ address, Swept record.endAddress record.startAddress address →
      good address) :
    Triple (Working start property s) (eraseRecords env records)
      (fun _ => Working start property s) (fun _ => Ended start property) := by
  induction records with
  | nil => exact Triple.pure fun _ working => working
  | cons record rest ih =>
      exact Triple.bind _ (eraseRange_works env permits _ (within record List.mem_cons_self))
        fun _ => ih fun other member => within other (List.mem_cons_of_mem _ member)

/-- A half page of a record is written to an address of its own. -/
theorem writePage_record {record : ElaRecord} {count k : Nat}
    (pages : ∀ address, record.PagesAt count address → good address)
    (begun : writeDataSize * k < count) :
    Triple (Working start property s) (failing .flash .enxio (writePage env (record.pageAddress k)))
      (fun _ => Working start property s) (fun _ => Ended start property) :=
  failing_triple .flash .enxio (writePage_works env fun _ _ earlier =>
    permits.call _ earlier (pages _ ⟨k, begun, rfl⟩))

theorem programData_works {record : ElaRecord} {line : List Char} {c : Cursor} {data : List Byte}
    (isData : recordType line = some 0) (counts : c.Counts data.length)
    (pages : ∀ address, record.PagesAt (data ++ lineTaken line data.length).length address →
      good address) :
    Triple (Working start property s) (programData env record line (declared line) c)
      (fun c' w => (c'.index = c.index ∧ c'.Counts (data ++ lineTaken line data.length).length) ∧
        Working start property s w) (fun _ => Ended start property) := by
  obtain ⟨size, room⟩ := counts
  refine orThrow_works fun field found =>
    Triple.bind _ (storeBytes_works field room) fun next => Triple.of_fact fun isNext => ?_
  have taken : next = c.bufferIndex + (lineTaken line data.length).length := by
    rw [lineTaken, if_pos isData, found, size, Nat.mul_add_mod, Nat.mod_eq_of_lt room]
    exact isNext
  have total : (data ++ lineTaken line data.length).length =
      writeDataSize * c.pageIndex + next := by
    rw [List.length_append, taken, size, Nat.add_assoc]
  have fits : next ≤ writeDataSize := by
    rw [isNext, List.length_take]
    omega
  rw [total] at pages ⊢
  refine Triple.bind (fun _ => Working start property s) (Triple.modify ?_) fun _ => ?_
  · exact fun w working => ⟨working.ready.note _, permits.line _ _ _ working.notes, working.stream⟩
  refine Triple.bind (fun _ => Working start property s)
    (Triple.throwIf (fun _ _ working => working.ended) fun _ _ working => working) fun _ => ?_
  refine Triple.ite (fun full => ?_) fun free => Triple.pure fun _ working => ?_
  · have begun : writeDataSize * c.pageIndex < writeDataSize * c.pageIndex + next := by omega
    refine orThrow_works fun _ _ =>
      Triple.bind _ (writePage_record env permits pages begun) fun _ =>
      Triple.bind _ clearBuffers_works fun _ => Triple.pure fun _ working => ?_
    exact ⟨⟨rfl, by rw [full, Nat.mul_succ]; rfl, Nat.zero_lt_succ _⟩, working⟩
  · exact ⟨⟨rfl, rfl, Nat.lt_of_le_of_ne fits free⟩, working⟩

theorem programLine_works {record : ElaRecord} {line : List Char} {c : Cursor} {data : List Byte}
    (counts : c.Counts data.length)
    (pages : ∀ address, record.PagesAt (data ++ lineTaken line data.length).length address →
      good address) :
    Triple (Working start property s) (programLine env record line c)
      (fun c' w => (c'.index = Pass.left c.index (declared line) ∧
        c'.Counts (data ++ lineTaken line data.length).length) ∧ Working start property s w)
      (fun _ => Ended start property) := by
  refine orThrow_works fun length isLength => orThrow_works fun type isType => ?_
  obtain rfl : declared line = length := by rw [declared, isLength]; rfl
  rw [Pass.left]
  refine Triple.ite (fun other => Triple.pure fun _ working => ?_) fun isData => ?_
  · have noData : recordType line ≠ some 0 := by
      rw [isType]
      exact fun same => other (Option.some.inj same)
    rw [lineTaken, if_neg noData, List.append_nil]
    exact ⟨⟨rfl, counts.size, counts.room⟩, working⟩
  · rw [Decidable.not_not.mp isData] at isType
    exact programData_works env permits isType ⟨counts.size, counts.room⟩ pages

theorem programLines_works {record : ElaRecord} (rounds : Nat) {c : Cursor} {data : List Byte}
    (counts : c.Counts data.length)
    (pages : ∀ address, record.PagesAt (gather rounds c.index data s).1.length address →
      good address) :
    Triple (Working start property s) (programLines env record rounds c)
      (fun c' w => c'.Counts (gather rounds c.index data s).1.length ∧
        Working start property (gather rounds c.index data s).2 w)
      (fun _ => Ended start property) := by
  induction rounds generalizing c data s with
  | zero => exact Triple.throw fun _ working => working.ended
  | succ rounds ih =>
      rw [gather] at pages ⊢
      by_cases done : c.index = 0
      · rw [programLines, if_pos done, if_pos done]
        exact Triple.pure fun _ working => ⟨counts, working⟩
      rw [programLines, if_neg done]
      rw [if_neg done] at pages ⊢
      refine Triple.bind (fun line w => line = s.getline.1 ∧ Working start property s.getline.2 w)
        ?_ fun line => Triple.of_fact fun isLine => ?_
      · intro w working
        exact ⟨by rw [working.stream], working.congr rfl rfl rfl rfl rfl (by rw [working.stream])⟩
      subst isLine
      -- the half pages of this line are among those of the record
      refine Triple.bind _ (programLine_works env permits counts fun address => ?_) fun c' =>
        Triple.of_fact fun after => ?_
      · rintro ⟨k, inside, isPage⟩
        exact pages address ⟨k, Nat.lt_of_lt_of_le inside (length_le_gather _ _ _ _), isPage⟩
      · rw [← after.1] at pages ⊢
        exact ih after.2 pages

theorem programRest_works {record : ElaRecord} {c : Cursor} {count : Nat} (counts : c.Counts count)
    (pages : ∀ address, record.PagesAt count address → good address) :
    Triple (Working start property s) (programRest env record c)
      (fun _ => Working start property s) (fun _ => Ended start property) := by
  refine Triple.runIf (fun some => ?_) fun _ _ working => working
  have begun : writeDataSize * c.pageIndex < count := by
    rw [counts.size]
    omega
  refine orThrow_works fun _ _ => orThrow_works fun _ _ =>
    Triple.bind (fun _ => Working start property s) (Triple.modify ?_) fun _ =>
      Triple.bind _ (writePage_record env permits pages begun) fun _ => clearBuffers_works
  exact fun w working => working.congr rfl rfl rfl rfl rfl working.stream

theorem programRecord_works {record : ElaRecord}
    (pages : ∀ address, record.PagesAt (record.bytes s).1.length address → good address) :
    Triple (Working start property s) (programRecord env record)
      (fun _ => Working start property (record.bytes s).2) (fun _ => Ended start property) := by
  apply Triple.get_bind
  intro w working
  suffices Triple (Working start property s) _ _ _ from this.consequence
    (fun _ same => same ▸ working) (fun _ _ holds => holds) fun _ _ holds => holds
  rw [working.stream]
  refine Triple.bind (fun _ => Working start property s.tellg.2) (Triple.modify ?_) fun _ =>
    Triple.bind (fun _ => Working start property s.tellg.2)
      (Triple.throwIf (fun _ _ working => working.ended) fun _ _ working => working) fun _ =>
      Triple.bind (fun _ => Working start property (record.seek s)) (Triple.modify ?_) fun _ =>
        Triple.bind _ (programLines_works env permits _ ⟨rfl, Nat.zero_lt_succ _⟩ pages) fun c =>
        Triple.of_fact fun counts => programRest_works env permits counts pages
  · exact fun w working => working.congr rfl rfl rfl rfl rfl (by rw [working.stream])
  · exact fun w working => working.congr rfl rfl rfl rfl rfl (by rw [working.stream]; rfl)

theorem programRecords_works {records : List ElaRecord}
    (pages : ∀ entry ∈ withBytes s records, ∀ address, entry.1.PagesAt entry.2.length address →
      good address) :
    Triple (Working start property s) (programRecords env records)
      (fun _ => Working start property (streamBehind s records))
      (fun _ => Ended start property) := by
  induction records generalizing s with
  | nil => exact Triple.pure fun _ working => working
  | cons record rest ih =>
      have here := pages _ List.mem_cons_self
      exact Triple.bind _ (failing_triple .flash .einval (isFlashReady_works env)) fun _ =>
        Triple.bind _ clearBuffers_works fun _ =>
        Triple.bind _
          (failing_triple .enxio .einval (programRecord_works env permits here)) fun _ =>
        ih fun entry member => pages entry (List.mem_cons_of_mem _ member)

end Work

/-! ## Operations -/

/-- All calls have been for good addresses. -/
def CallsAt (good : Nat → Prop) (ns : List Note) : Prop :=
  ∀ call, .call call ∈ ns → good call.address

/-- The guard and the records of a file are erased and programmed at good addresses. -/
structure RecordsAt (good : Nat → Prop) (guardStart : Nat) (s : Stream)
    (records : List ElaRecord) : Prop where
  guard : guardStart ≠ 0 → good guardStart ∧ good (u32 (guardStart + writeDataSize))
  records : ∀ address, GoesTo s (shiftedRecords guardStart records) address → good address

section Operations

variable (env : Env) {start : Chips} {good : Nat → Prop} {property : List Note → Prop}
  {w w₀ : Flasher}

theorem CallsAt.cons {note : Note} {earlier : List Note} (holds : CallsAt good earlier)
    (here : ∀ call, note = .call call → good call.address) : CallsAt good (note :: earlier) := by
  intro call member
  rcases List.mem_cons.mp member with same | before
  · exact here call same.symm
  · exact holds call before

theorem callsAt_permits : Permits good (CallsAt good) :=
  ⟨fun _ _ here holds => holds.cons fun _ same => by cases same; exact here,
    fun _ _ _ holds => holds.cons nofun⟩

/-- An operation can begin. -/
structure Startable (start : Chips) (property : List Note → Prop) (w : Flasher) : Prop where
  sound : Throughout (Sound start) w.log
  free : Released start w ∨ .guardSet ∉ notes w.log
  outside : w.during = none
  notes : property (notes w.log)

/-- Only the log and the call that is under way count. -/
theorem Startable.congr {after : Flasher} (startable : Startable start property w)
    (log : after.log = w.log) (during : after.during = w.during) :
    Startable start property after := by
  have chips : ∀ slave, after.chip start slave = w.chip start slave := fun slave => by
    rw [Flasher.chip, Flasher.chip, log]
  constructor
  · exact log ▸ startable.sound
  · rw [Released, log]
    simp only [chips]
    exact startable.free
  · exact during.trans startable.outside
  · exact log ▸ startable.notes

theorem Working.startable {s : Stream} (working : Working start property s w) :
    Startable start property w :=
  ⟨working.ready.idle.sound, .inl working.ready.idle.pending, working.ready.outside, working.notes⟩

theorem Startable.ended (startable : Startable start property w) : Ended start property w :=
  ⟨startable.sound, startable.notes⟩

/-- A note that is not about a call. -/
theorem addNote_works {s : Stream} (note : Note) (other : ∀ call, note ≠ .call call) :
    Triple (Working start (CallsAt good) s) (addNote note)
      (fun _ => Working start (CallsAt good) s) (fun _ => Ended start (CallsAt good)) :=
  Triple.modify fun _ working => ⟨working.ready.note note,
    working.notes.cons fun call same => absurd same (other call), working.stream⟩

theorem setGuard_works {s : Stream} {guardStart : Nat}
    (guard : good guardStart ∧ good (u32 (guardStart + writeDataSize))) :
    Triple (Working start (CallsAt good) s)
      (failing .flash .einval (writeBitstreamGuard env guardStart))
      (fun _ => Working start (CallsAt good) s) (fun _ => Ended start (CallsAt good)) := by
  refine failing_triple .flash .einval (writeBitstreamGuard_works env fun call earlier sets kept =>
    kept.cons fun _ same => ?_)
  cases same
  rcases sets with ⟨-, address⟩ | ⟨-, address⟩
  · exact address ▸ guard.1
  · exact address ▸ guard.2

theorem prepareXSpi_works (startable : Startable start property w₀) :
    Triple (fun w => w = w₀) (prepareXSpi env)
      (fun _ w => w.bitstreamStartLoc = w₀.bitstreamStartLoc ∧
        Working start property w₀.stream w)
      (fun _ => Ended start property) := by
  refine (prepareXSpi_triple env startable.sound startable.free startable.outside).consequence
    (fun _ same => same) ?_ ?_
  · exact fun _ _ prepared =>
      ⟨prepared.startLoc, prepared.ready, prepared.noted ▸ startable.notes, prepared.stream⟩
  · exact fun _ _ unprepared => ⟨unprepared.1, unprepared.2 ▸ startable.notes⟩

theorem programXSpi_works {records : List ElaRecord} (startable : Startable start (CallsAt good) w₀)
    (holds : RecordsAt good w₀.bitstreamStartLoc w₀.stream records) :
    Triple (fun w => w = w₀) (programXSpi env records)
      (fun _ w => ∃ s, Working start (CallsAt good) s w) (fun _ => Ended start (CallsAt good)) := by
  refine Triple.bind_at _ (prepareXSpi_works env startable) fun _ w ⟨startLoc, working⟩ =>
    Triple.get_bind fun w same => ?_
  subst same
  rw [startLoc]
  let s := w₀.stream
  suffices Triple (Working start (CallsAt good) s) _ _ _ from this.consequence
    (fun _ same => same ▸ working)
    (fun _ _ holds => ⟨streamBehind s (shiftedRecords w₀.bitstreamStartLoc records), holds⟩)
    fun _ _ holds => holds
  refine Triple.bind (fun _ => Working start (CallsAt good) s) (Triple.runIf (fun guarded => ?_) ?_)
    fun _ => ?_
  · exact Triple.bind _ (setGuard_works env (holds.guard guarded)) fun _ =>
      addNote_works .guardSet nofun
  · exact fun _ _ working => working
  refine Triple.bind _ (addNote_works .records nofun) fun _ =>
    Triple.bind _ (eraseRecords_works env callsAt_permits fun record member address swept =>
      holds.records address (.of_swept member swept)) fun _ =>
    Triple.bind _ (programRecords_works env callsAt_permits fun entry member address page =>
      holds.records address ⟨entry, member, .inr page⟩) fun _ =>
    Triple.runIf (fun guarded => ?_) ?_
  · exact Triple.bind _ (addNote_works .clearIssued nofun) fun _ =>
      failing_triple .flash .einval (sectorErase_works env fun _ _ kept =>
        kept.cons fun _ same => by cases same; exact (holds.guard guarded).1)
  · exact fun _ _ working => working

/-- A file that is accepted is programmed at good addresses. -/
def FileAt (good : Nat → Prop) (file : Option (List Char)) : Prop :=
  ∀ text p, file = some text → Parse.file text = .ok p →
    RecordsAt good ((p.recordList.head?.map ElaRecord.startAddress).getD env.front)
      (p.stream.seekg 0) p.recordList

variable {env}

theorem xclUpgradeFirmwareXSpi_works {file : Option (List Char)} (index : Slave)
    (holds : FileAt env good file) :
    Triple (Startable start (CallsAt good)) (xclUpgradeFirmwareXSpi env file index)
      (fun _ w => ∃ s, Working start (CallsAt good) s w) (fun _ => Ended start (CallsAt good)) := by
  refine Triple.bind (fun _ => Startable start (CallsAt good))
    (Triple.modify fun _ startable => startable.congr rfl rfl) fun _ =>
    Triple.get_bind fun w startable => ?_
  suffices Triple (Startable start (CallsAt good)) _ _ _ from this.consequence
    (fun _ same => same ▸ startable) (fun _ _ holds => holds) fun _ _ holds => holds
  refine Triple.bind (fun _ => Startable start (CallsAt good))
    (Triple.throwIf ?_ fun _ _ holds => holds) fun _ =>
    Triple.bind (fun _ => Startable start (CallsAt good)) (Triple.modify ?_) fun _ => ?_
  · exact fun _ _ startable => startable.ended
  · exact fun _ startable => startable.congr rfl rfl
  cases file with
  | none => exact Triple.throw fun _ startable => startable.ended
  | some text =>
      simp only []
      cases parsed : Parse.file text with
      | error stop => exact Triple.throw fun _ startable => startable.ended
      | ok p =>
          refine Triple.bind_at (fun _ w => Startable start (CallsAt good) w ∧
            RecordsAt good w.bitstreamStartLoc w.stream p.recordList) (Triple.modify ?_)
              fun _ w ⟨startable, here⟩ => programXSpi_works env startable here
          exact fun _ startable => ⟨startable.congr rfl rfl, holds text p rfl parsed⟩

variable (env)

/-- The public operations. -/
inductive Operation where
  | upgradeFirmwareXSpi (mcsFile : Option (List Char)) (index : Slave)
  | upgradeFirmware2 (file1 file2 : Option (List Char))
  | revertToMFG

def Operation.run : Operation → FlashM Unit
  | .upgradeFirmwareXSpi mcsFile index => xclUpgradeFirmwareXSpi env mcsFile index
  | .upgradeFirmware2 file1 file2 => xclUpgradeFirmware2 env file1 file2
  | .revertToMFG => Flash.revertToMFG env

/-- The files of an operation are programmed at good addresses, and the guard of
`revertToMFG` is. -/
def Operation.FilesAt (good : Nat → Prop) : Operation → Prop
  | .upgradeFirmwareXSpi mcsFile _ => FileAt env good mcsFile
  | .upgradeFirmware2 file1 file2 => FileAt env good file1 ∧ FileAt env good file2
  | .revertToMFG => good 0x01002000 ∧ good (u32 (0x01002000 + writeDataSize))

theorem Operation.run_works {operation : Operation} (holds : operation.FilesAt env good) :
    Triple (Startable start (CallsAt good)) (operation.run env)
      (fun _ w => ∃ s, Working start (CallsAt good) s w) (fun _ => Ended start (CallsAt good)) := by
  cases operation with
  | upgradeFirmwareXSpi mcsFile index => exact xclUpgradeFirmwareXSpi_works index holds
  | upgradeFirmware2 file1 file2 =>
      refine Triple.bind _ (xclUpgradeFirmwareXSpi_works .first holds.1) fun _ =>
        Triple.bind (fun _ => Startable start (CallsAt good)) (Triple.modify ?_) fun _ =>
        xclUpgradeFirmwareXSpi_works .second holds.2
      rintro _ ⟨_, working⟩
      exact working.startable.congr rfl rfl
  | revertToMFG =>
      intro w startable
      suffices Triple (fun current => current = w) (Flash.revertToMFG env) _ _ from this w rfl
      refine Triple.bind _ (prepareXSpi_works env startable) fun _ =>
        Triple.bind (fun _ => Working start (CallsAt good) w.stream) (Triple.modify ?_) fun _ => ?_
      · exact fun w ⟨_, working⟩ => working.congr rfl rfl rfl rfl rfl working.stream
      exact (setGuard_works env holds).consequence (fun _ working => working)
        (fun _ _ working => ⟨_, working⟩) fun _ _ ended => ended

/-- Nothing is asked of the addresses. -/
theorem Operation.filesAt_any (operation : Operation) :
    operation.FilesAt env fun _ => True := by
  have any : ∀ file, FileAt env (fun _ => True) file := fun _ _ _ _ _ =>
    ⟨fun _ => ⟨trivial, trivial⟩, fun _ _ => trivial⟩
  cases operation with
  | upgradeFirmwareXSpi mcsFile index => exact any mcsFile
  | upgradeFirmware2 file1 file2 => exact ⟨any file1, any file2⟩
  | revertToMFG => exact ⟨trivial, trivial⟩

end Operations

/-- Whether an operation has ended the process. -/
def kills : EStateM.Result Stop Flasher Unit → Bool
  | .error .exit _ | .error .assertion _ | .error .exception _ | .error .cutOff _ => true
  | _ => false

/-- A new process. -/
def Flasher.new (mapped : Bool) : Flasher where
  mapped := mapped
  writeBuffer := fun _ => 0
  maxNumSectors := 0
  selectedSector := noSector
  flashVendor := none
  slaveIndex := .first
  bitstreamStartLoc := 0xFFFFFFFF
  stream := .ofText []
  during := none
  tick := 0
  log := []

/-- The card with its chips, and the process that works on it. -/
structure Board where
  chips : Chips
  flasher : Flasher

/-- The flasher at the beginning of an operation, with a log of its own. -/
def Board.begin (board : Board) : Flasher :=
  { board.flasher with during := none, tick := 0, log := [] }

/-- The end of an operation. -/
def Board.outcome (board : Board) (env : Env) (operation : Operation) : Flasher :=
  endState (operation.run env board.begin)

/-- The card after an operation. -/
def Board.perform (board : Board) (env : Env) (operation : Operation) : Board :=
  let w := board.outcome env operation
  ⟨board.chips.after w.log, if kills (operation.run env board.begin) then .new w.mapped else w⟩

/-- A sequence of operations: for each one, the chips it has found and what has happened on
the bus. -/
def Board.session (board : Board) : List (Env × Operation) → List (Chips × List Event)
  | [] => []
  | (env, operation) :: rest => (board.chips, (board.outcome env operation).log) ::
      (board.perform env operation).session rest

/-- A command that a chip carries out during a call is applied at the address of the
call, and none is sent for an address behind the flash. -/
structure Hits (start : Chips) (event : Event) (earlier : List Event) : Prop where
  exact : ∀ call slave command target, event.during = some call →
    (start.after earlier slave).completes slave event = some command →
    (start.after earlier slave).target command = some target → target = call.address
  refused : ∀ call, event.during = some call → event.sends = true →
    call.address < call.sectors * 2 ^ 24

/-- Every command of a sequence of operations hits its address. -/
def Board.SessionHits (board : Board) (operations : List (Env × Operation)) : Prop :=
  ∀ run ∈ board.session operations, Throughout (Hits run.1) run.2

theorem Board.begin_startable (board : Board) {good : Nat → Prop} :
    Startable board.chips (CallsAt good) board.begin :=
  ⟨trivial, .inr (by simp [Board.begin, notes]), rfl, nofun⟩

/-- An operation whose files are programmed at good addresses calls for no others. -/
theorem Board.outcome_works (board : Board) {env : Env} {operation : Operation}
    {good : Nat → Prop} (holds : operation.FilesAt env good) :
    Ended board.chips (CallsAt good) (board.outcome env operation) := by
  have ends : Triple (Startable board.chips (CallsAt good)) (operation.run env)
      (fun _ => Ended board.chips (CallsAt good)) (fun _ => Ended board.chips (CallsAt good)) :=
    (Operation.run_works env holds).consequence (fun _ holds => holds)
      (fun _ _ ⟨_, working⟩ => working.ended) fun _ _ ended => ended
  exact ends.at_end board.begin_startable

theorem Board.outcome_sound (board : Board) (env : Env) (operation : Operation) :
    Throughout (Sound board.chips) (board.outcome env operation).log :=
  (board.outcome_works (operation.filesAt_any env)).sound

theorem Board.session_works (board : Board) {good : Nat → Prop}
    {operations : List (Env × Operation)}
    (holds : ∀ operation ∈ operations, operation.2.FilesAt operation.1 good) :
    ∀ run ∈ board.session operations,
      Throughout (Sound run.1) run.2 ∧ CallsAt good (notes run.2) := by
  induction operations generalizing board with
  | nil => exact nofun
  | cons operation rest ih =>
      intro run member
      rcases List.mem_cons.mp member with rfl | later
      · have works := board.outcome_works (holds operation List.mem_cons_self)
        exact ⟨works.sound, works.notes⟩
      · exact ih _ (fun other member => holds other (List.mem_cons_of_mem _ member)) run later

/-- In a history of sound events, the commands hit their addresses exactly if these are
below 2^28, behind which the sector number is cut off. -/
theorem Throughout.hits_iff {start : Chips} {log : List Event}
    (sound : Throughout (Sound start) log) :
    Throughout (Hits start) log ↔ ∀ event ∈ log, ∀ call, event.during = some call →
      event.sends = true → call.address < 2 ^ 28 := by
  constructor
  · intro hits event member call isCall sends
    obtain ⟨later, earlier, rfl⟩ := List.append_of_mem member
    have point : event :: earlier <:+ later ++ event :: earlier := List.suffix_append _ _
    have below := (hits.at_suffix point).refused call isCall sends
    obtain ⟨other, isOther, -, small⟩ := (sound.at_suffix point).inRange sends
    cases isOther.symm.trans isCall
    omega
  · intro small
    refine .of_forall fun event earlier point => ?_
    have here := sound.at_suffix point
    have member : event ∈ log := point.subset List.mem_cons_self
    refine ⟨fun call slave command target isCall completes found => ?_, fun call isCall sends => ?_⟩
    · rcases here.hits slave command target completes found with ⟨outside, -⟩
        | ⟨other, isOther, hit, sent⟩
      · cases outside.symm.trans isCall
      cases isOther.symm.trans isCall
      obtain ⟨sender, inEarlier, sends, isCall'⟩ := sent
      have before : sender ∈ log := point.subset (List.mem_cons_of_mem _ inEarlier)
      rw [hit, Nat.mod_eq_of_lt (small sender before call isCall' sends)]
    · obtain ⟨other, isOther, inRange, -⟩ := here.inRange sends
      cases isOther.symm.trans isCall
      rwa [Nat.mod_eq_of_lt (small event member call isCall sends)] at inRange

theorem notes_append (later earlier : List Event) :
    notes (later ++ earlier) = notes later ++ notes earlier := by
  induction later with
  | nil => rfl
  | cons event later ih => cases event <;> simp [notes, ih]

theorem notes_suffix {earlier log : List Event} (point : earlier <:+ log) :
    notes earlier <:+ notes log := by
  obtain ⟨later, rfl⟩ := point
  exact ⟨notes later, (notes_append later earlier).symm⟩

/-- Every transfer succeeds, on a flash of four sectors. -/
def Env.calm : Env where
  transfer := fun _ => .done fun i => if i = 3 then 0x20 else 0
  txFull := fun _ => false
  txEmpty := fun _ => true
  rounds := 1048577
  front := 0

/-- A blank card and a new process. -/
def Board.blank : Board := ⟨fun _ => ⟨fun _ => 0xFF, 0, false, none⟩, .new true⟩

/-- In every sequence of operations on files whose guard and records lie below 2^28, every command
hits the address it was given, and none is sent for an address behind the flash. -/
theorem flash_commands_hit (board : Board) (operations : List (Env × Operation))
    (below : ∀ operation ∈ operations, operation.2.FilesAt operation.1 (· < 2 ^ 28)) :
    board.SessionHits operations := by
  intro run member
  obtain ⟨sound, calls⟩ := board.session_works below run member
  refine (Throughout.hits_iff sound).mpr fun event inLog call isCall _ => calls call ?_
  -- the call of an event has been noted before it
  obtain ⟨later, earlier, whole⟩ := List.append_of_mem inLog
  have point : event :: earlier <:+ run.2 := whole ▸ List.suffix_append _ _
  have noted := List.mem_of_mem_head? ((sound.at_suffix point).called call isCall)
  exact (notes_suffix ((List.suffix_cons _ _).trans point)).subset noted

/-- Two records of two lines, at 0x10000 and at 0x30000. -/
def twoRecordFile : List Char :=
  (":020000040001F9\n:10000000000102030405060708090A0B0C0D0E0F78\n:02001000AABB89\n" ++
    ":020000040003F7\n:10000000DEADBEEFDEADBEEFDEADBEEFDEADBEEF10\n:010010007F70\n" ++
    ":00000001FF\n").toList

def lowerRecord : ElaRecord where
  startAddress := 0x10000
  endAddress := 0x10012
  dataCount := 18
  dataPos := 16
  counted := [":10000000000102030405060708090A0B0C0D0E0F78".toList, ":02001000AABB89".toList]

def upperRecord : ElaRecord where
  startAddress := 0x30000
  endAddress := 0x30011
  dataCount := 17
  dataPos := 92
  counted := [":10000000DEADBEEFDEADBEEFDEADBEEFDEADBEEF10".toList, ":010010007F70".toList]

def twoRecords : List ElaRecord := [lowerRecord, upperRecord]

/-- The end of the parse. -/
def twoRecordParse : Parse :=
  ⟨⟨twoRecordFile, 162, false, false⟩, upperRecord, "0003".toList, twoRecords, true⟩

theorem twoRecordFile_accepted : Parse.file twoRecordFile = .ok twoRecordParse := by
  decide +kernel

/-- The records lie from a step behind the start of the first one on. -/
theorem twoRecords_lie :
    ∀ entry ∈ withBytes (twoRecordParse.stream.seekg 0) (shiftedRecords 0x10000 twoRecords),
      LiesIn 0x11000 0x32000 entry := by decide +kernel

theorem twoRecordFile_below (env : Env) : FileAt env (· < 2 ^ 28) (some twoRecordFile) := by
  intro text p isText accepted
  obtain rfl : twoRecordFile = text := Option.some.inj isText
  obtain rfl : twoRecordParse = p := Except.ok.inj (twoRecordFile_accepted.symm.trans accepted)
  have guard : 0x10000 < 2 ^ 28 ∧ u32 (0x10000 + writeDataSize) < 2 ^ 28 := by decide
  refine ⟨fun _ => guard, fun address goes => ?_⟩
  exact Nat.lt_trans (goes.range (by decide) twoRecords_lie).2 (by decide)

/-- An upgrade, one of both flashes of which a transfer fails, and the way back. -/
def threeOperations : List (Env × Operation) :=
  [(.calm, .upgradeFirmwareXSpi (some twoRecordFile) .second),
    ({ Env.calm with transfer := fun tick => if tick = 60 then .refused else Env.calm.transfer tick },
      .upgradeFirmware2 (some twoRecordFile) (some twoRecordFile)),
    (.calm, .revertToMFG)]

theorem flash_commands_hit_three : Board.blank.SessionHits threeOperations := by
  apply flash_commands_hit
  simp only [threeOperations, List.forall_mem_cons]
  refine ⟨twoRecordFile_below _, ⟨twoRecordFile_below _, twoRecordFile_below _⟩, ?_, nofun⟩
  exact ⟨by decide, by decide⟩

/-- An erase or program that is sent for an address behind the flash. -/
theorem not_hits_of_sent {board : Board} {env : Env} {operation : Operation} {event : Event}
    {call : Call} (sent : event ∈ (board.outcome env operation).log)
    (isCall : event.during = some call)
    (sends : event.sends = true) (beyond : call.sectors * 2 ^ 24 ≤ call.address) :
    ¬ board.SessionHits [(env, operation)] := by
  intro hits
  obtain ⟨earlier, hit⟩ := (hits (board.chips, (board.outcome env operation).log)
    List.mem_cons_self).of_mem sent
  exact absurd (hit.refused call isCall sends) (Nat.not_lt.mpr beyond)

/-- A record at 2^28, behind a flash of four sectors. -/
def beyondFile : List Char := ":020000041000EA\n:00000001FF\n".toList

/-- The erase for its guard is sent all the same. -/
theorem address_beyond_flash_not_refused :
    ¬ Board.blank.SessionHits [(.calm, .upgradeFirmwareXSpi (some beyondFile) .first)] := by
  let record : ElaRecord := ⟨2 ^ 28, 2 ^ 28, 0, 16, []⟩
  let p : Parse := ⟨⟨beyondFile, 28, false, false⟩, record, "1000".toList, [record], true⟩
  have parsed : Parse.file beyondFile = .ok p := by decide
  let operation : Operation := .upgradeFirmwareXSpi (some beyondFile) .first
  have ran : operation.run .calm Board.blank.begin =
      programXSpi .calm [record] (Board.blank.begin.parsed .calm .first p) :=
    xclUpgradeFirmwareXSpi_eq .calm parsed rfl .first
  have sent : .shift [0x20, 0, 0, 0] (some ⟨.erase, 2 ^ 28, [], 4⟩) ∈
      (Board.blank.outcome .calm operation).log := by
    rw [Board.outcome, ran]
    decide +kernel
  exact not_hits_of_sent sent rfl rfl (by decide)

end OpaeXilinx.Flash
