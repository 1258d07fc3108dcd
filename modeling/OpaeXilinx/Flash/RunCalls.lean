import OpaeXilinx.Flash.Passes

/-!
# The calls of a run

Which calls a run of `programXSpi` that succeeds makes follows from its records and from the
text: the guard is set, the range of each record is erased in steps of a subsector, the bytes
that the text has for each record are written in half pages, and the guard is cleared.
-/

namespace OpaeXilinx.Flash

open OpaeXilinx.Base

/-- The erases for so many bytes. -/
def erases (sectors first count : Nat) : List Call :=
  (List.range ((count + (subsectorSize - 1)) / subsectorSize)).map fun i =>
    ⟨.erase, first + subsectorSize * i, [], sectors⟩

/-- The page program of the guard. -/
def guardPage (sectors guardStart : Nat) : Call :=
  ⟨.program, u32 (guardStart + writeDataSize), (List.range writeDataSize).map guardByte, sectors⟩

/-- Setting the guard, if there is one. -/
def settingCalls (sectors guardStart : Nat) : List Call :=
  if guardStart ≠ 0 then [⟨.erase, guardStart, [], sectors⟩, guardPage sectors guardStart] else []

/-- Clearing the guard, if there is one. -/
def clearingCalls (sectors guardStart : Nat) : List Call :=
  if guardStart ≠ 0 then [⟨.erase, guardStart, [], sectors⟩] else []

/-- The calls of a run. -/
def runCalls (sectors guardStart : Nat) (written : List (ElaRecord × List Byte)) : List Call :=
  settingCalls sectors guardStart ++
    (written.flatMap fun entry => erases sectors entry.1.startAddress entry.1.dataCount) ++
    (written.flatMap fun entry => halfPages entry.1 sectors entry.2) ++
    clearingCalls sectors guardStart

theorem takeByte_ok {text : List Char} {page after : List Byte}
    (ok : takeByte text page = .ok after) :
    after = page ++ [digitsByte text] := by
  rw [takeByte] at ok
  cases found : stoi text with
  | none =>
      rw [found] at ok
      cases ok
  | some value =>
      rw [found] at ok
      cases ok
      rw [digitsByte, found]
      rfl

/-- Those bytes of a field are taken that fit. -/
theorem takeBytes_ok {field : List Char} {page after : List Byte}
    (ok : takeBytes field page = .ok after)
    (room : page.length < writeDataSize) :
    after = page ++ (digitsBytes field).take (writeDataSize - page.length) := by
  induction field, page using takeBytes.induct with
  | case1 page =>
      cases ok
      rw [digitsBytes, List.take_nil, List.append_nil]
  | case2 digit page =>
      obtain ⟨more, isMore⟩ : ∃ more, writeDataSize - page.length = more + 1 :=
        ⟨writeDataSize - page.length - 1, by omega⟩
      rw [takeByte_ok ok, digitsBytes, isMore, List.take_succ_cons, List.take_nil]
  | case3 high low data page ih =>
      obtain ⟨more, isMore⟩ : ∃ more, writeDataSize - page.length = more + 1 :=
        ⟨writeDataSize - page.length - 1, by omega⟩
      rw [takeBytes] at ok
      obtain ⟨next, first, ok⟩ := bind_ok ok
      have isNext := takeByte_ok first
      have length : next.length = page.length + 1 := by rw [isNext, List.length_append]; rfl
      rw [digitsBytes, isMore, List.take_succ_cons, List.append_cons, ← isNext]
      split at ok
      next full =>
        cases ok
        have none : more = 0 := by omega
        rw [none, List.take_zero, List.append_nil]
      next free =>
        have rest := ih next ok (by omega)
        have same : writeDataSize - next.length = more := by omega
        rw [same] at rest
        exact rest

section Pass

variable {record : ElaRecord} {sectors : Nat} {data : List Byte} {p after : Pass} {line : List Char}

theorem Paged.length_mod (paged : Paged record sectors data p)
    (room : p.page.length < writeDataSize) :
    data.length % writeDataSize = p.page.length := by
  rw [paged.size, Nat.mul_add_mod, Nat.mod_eq_of_lt room]

theorem Paged.moved (paged : Paged record sectors data p) (index : Nat) (stream : Stream) :
    Paged record sectors data { p with index := index, stream := stream } :=
  ⟨paged.size, paged.page, paged.calls⟩

theorem Paged.flush (paged : Paged record sectors data p) (fits : p.page.length ≤ writeDataSize)
    (ok : p.flush record sectors line = .ok after) :
    Paged record sectors data after ∧ after.page.length < writeDataSize := by
  rw [Pass.flush] at ok
  split at ok
  next full =>
    obtain ⟨_, -, ok⟩ := bind_ok ok
    cases ok
    exact ⟨paged.written full, Nat.zero_lt_succ _⟩
  next free =>
    cases ok
    exact ⟨paged, by omega⟩

theorem Paged.afterData (paged : Paged record sectors data p) (room : p.page.length < writeDataSize)
    (isData : recordType line = some 0)
    (ok : p.data record sectors line (declared line) = .ok after) :
    Paged record sectors (data ++ lineTaken line data.length) after ∧
      after.page.length < writeDataSize := by
  rw [Pass.data] at ok
  obtain ⟨field, isField, ok⟩ := bind_ok ok
  obtain ⟨page, isPage, ok⟩ := bind_ok ok
  have taken : page = p.page ++ lineTaken line data.length := by
    rw [lineTaken, if_pos isData, orStop_ok isField, paged.length_mod room]
    exact takeBytes_ok isPage room
  have fits : page.length ≤ writeDataSize := by
    rw [takeBytes_ok isPage room, List.length_append, List.length_take]
    omega
  subst taken
  exact (paged.taken line _).flush fits ok

theorem Paged.afterLine (paged : Paged record sectors data p) (room : p.page.length < writeDataSize)
    (ok : p.line record sectors line = .ok after) :
    Paged record sectors (data ++ lineTaken line data.length) after ∧
      after.page.length < writeDataSize := by
  rw [Pass.line] at ok
  obtain ⟨length, isLength, ok⟩ := bind_ok ok
  obtain ⟨type, isType, ok⟩ := bind_ok ok
  have hasType := orStop_ok isType
  obtain rfl : declared line = length := by rw [declared, orStop_ok isLength]; rfl
  dsimp only at ok
  split at ok
  next noData =>
    cases ok
    have other : recordType line ≠ some 0 := by
      rw [hasType]
      exact fun same => noData (Option.some.inj same)
    rw [lineTaken, if_neg other, List.append_nil]
    exact ⟨paged.moved _ p.stream, room⟩
  next isData =>
    have here : recordType line = some 0 := by rw [hasType, Decidable.not_not.mp isData]
    exact (paged.moved (Pass.left p.index (declared line)) p.stream).afterData room here ok

/-- The pass takes the bytes that are gathered from the text. -/
theorem Paged.afterLines {rounds : Nat} (paged : Paged record sectors data p)
    (room : p.page.length < writeDataSize) (ok : p.lines record sectors rounds = .ok after) :
    Paged record sectors (gather rounds p.index data p.stream).1 after ∧
      after.page.length < writeDataSize ∧
        after.stream = (gather rounds p.index data p.stream).2 := by
  induction rounds generalizing p data with
  | zero => cases ok
  | succ rounds ih =>
      rw [Pass.lines] at ok
      rw [gather]
      split at ok
      next done =>
        cases ok
        rw [if_pos done]
        exact ⟨paged, room, rfl⟩
      next more =>
        rw [if_neg more]
        obtain ⟨middle, stepped, ok⟩ := bind_ok ok
        have read := Pass.line_read stepped
        obtain ⟨paged', room'⟩ := (paged.moved p.index p.stream.getline.2).afterLine room stepped
        have rest := ih paged' room' ok
        rw [read.index, read.stream] at rest
        exact rest

theorem Paged.rest (paged : Paged record sectors data p) (room : p.page.length < writeDataSize)
    (ok : p.rest record sectors = .ok after) :
    callsOf after.work = halfPages record sectors data ∧ after.stream = p.stream := by
  rw [Pass.rest] at ok
  split at ok
  next empty =>
    cases ok
    exact ⟨paged.whole empty, rfl⟩
  next some =>
    obtain ⟨_, -, ok⟩ := bind_ok ok
    obtain ⟨_, -, ok⟩ := bind_ok ok
    cases ok
    exact ⟨paged.last room some, rfl⟩

/-- A pass that gets through a record writes the bytes that the text has for it. -/
theorem Pass.wholeRecord_calls {s : Stream} (ok : Pass.wholeRecord record sectors s = .ok after) :
    callsOf after.work = halfPages record sectors (record.bytes s).1 ∧
      after.stream = (record.bytes s).2 := by
  rw [Pass.wholeRecord] at ok
  split at ok
  next behind => cases ok
  next before =>
    obtain ⟨middle, ran, ok⟩ := bind_ok ok
    obtain ⟨paged, room, stream⟩ :=
      (Paged.begin record sectors s).afterLines (Nat.zero_lt_succ _) ran
    obtain ⟨calls, same⟩ := paged.rest room ok
    exact ⟨calls, same.trans stream⟩

end Pass

/-! ## Programs and their calls -/

theorem callsOf_append (later earlier : List Note) :
    callsOf (later ++ earlier) = callsOf earlier ++ callsOf later := by
  rw [callsOf, callsOf, callsOf, List.reverse_append, List.filterMap_append]

/-- If the program succeeds, it has made calls with the property, and has left the stream
with it. -/
def Makes (start : Chips) (w₁ : Flasher) (program : FlashM Unit)
    (made : List Call → Stream → Prop) : Prop :=
  Triple (fun w => w = w₁) program
    (fun _ w => ∃ work, Worked start work w₁ w ∧ made (callsOf work) w.stream) fun _ _ => True

section Makes

variable {env : Env} {start : Chips} {w₁ : Flasher} {first second : FlashM Unit}
  {made made' : List Call → Stream → Prop}

theorem Makes.bind (one : Makes start w₁ first made)
    (two : ∀ work w, Worked start work w₁ w → made (callsOf work) w.stream →
      Makes start w second fun calls stream => made' (callsOf work ++ calls) stream) :
    Makes start w₁ (do first; second) made' := by
  apply Triple.bind_at _ one
  rintro - w ⟨work, worked, holds⟩
  refine (two work w worked holds).consequence (fun _ same => same) ?_ fun _ _ ended => ended
  rintro - after ⟨later, done, holds'⟩
  refine ⟨later ++ work, worked.trans done, ?_⟩
  rw [callsOf_append]
  exact holds'

theorem Makes.mono (makes : Makes start w₁ first made)
    (weaker : ∀ calls stream, made calls stream → made' calls stream) :
    Makes start w₁ first made' := by
  refine makes.consequence (fun _ same => same) ?_ fun _ _ ended => ended
  rintro - w ⟨work, worked, holds⟩
  exact ⟨work, worked, weaker _ _ holds⟩

variable (ready : Ready start w₁)

include ready

/-- Nothing but the buffer is changed before the program. -/
theorem Makes.buffer_bind (buffer : Flasher → Nat → Byte)
    (makes : Makes start { w₁ with writeBuffer := buffer w₁ } second made) :
    Makes start w₁ (do modify fun w => { w with writeBuffer := buffer w }; second) made := by
  refine Triple.bind_at (fun _ w => w = { w₁ with writeBuffer := buffer w₁ }) (Triple.modify ?_) ?_
  · rintro _ rfl
    rfl
  rintro - _ rfl
  refine makes.consequence (fun _ same => same) ?_ fun _ _ ended => ended
  rintro - w ⟨work, worked, holds⟩
  have same : Worked start [] w₁ { w₁ with writeBuffer := buffer w₁ } :=
    (Worked.refl ready).congr rfl rfl rfl rfl rfl rfl
  have whole := same.trans worked
  rw [List.append_nil] at whole
  exact ⟨work, whole, holds⟩

theorem Makes.note {note : Note} (noCall : ∀ mem, note.applied mem = mem)
    (other : callsOf [note] = []) :
    Makes start w₁ (addNote note) fun calls stream => calls = [] ∧ stream = w₁.stream := by
  apply Triple.modify
  rintro _ rfl
  exact ⟨[note], (Worked.refl ready).note noCall, other, rfl⟩

theorem sectorErase_makes (address : Nat) :
    Makes start w₁ (sectorErase env address command4KbSubsectorErase) fun calls stream =>
      calls = [⟨.erase, address, [], w₁.maxNumSectors⟩] ∧ stream = w₁.stream := by
  refine (sectorErase_worked (.inl trivial : True ∨ env.Calm) (Worked.refl ready) (.inl trivial)
    address).consequence (fun _ same => same) ?_ fun _ _ _ => trivial
  rintro - w ⟨worked, stream⟩
  exact ⟨_, worked, rfl, stream⟩

theorem writePage_makes (address : Nat) :
    Makes start w₁ (writePage env address) fun calls stream =>
      calls = [⟨.program, address, w₁.page, w₁.maxNumSectors⟩] ∧ stream = w₁.stream := by
  refine (writePage_worked (.inl trivial : True ∨ env.Calm) (Worked.refl ready) (.inl trivial)
    address).consequence (fun _ same => same) ?_ fun _ _ _ => trivial
  rintro - w ⟨worked, stream⟩
  exact ⟨_, worked, rfl, stream⟩

theorem isFlashReady_makes :
    Makes start w₁ (isFlashReady env) fun calls stream => calls = [] ∧ stream = w₁.stream := by
  refine (isFlashReady_worked (.inl trivial : True ∨ env.Calm) (Worked.refl ready)
    (.inl trivial)).consequence (fun _ same => same) ?_ fun _ _ _ => trivial
  rintro - w ⟨worked, stream⟩
  exact ⟨_, worked, rfl, stream⟩

omit ready in
theorem failing_makes (old new : Stop) (makes : Makes start w₁ first made) :
    Makes start w₁ (failing old new first) made :=
  failing_triple old new makes

theorem Makes.nothing :
    Makes start w₁ (Pure.pure ()) fun calls stream => calls = [] ∧ stream = w₁.stream := by
  apply Triple.pure
  rintro _ rfl
  exact ⟨[], Worked.refl ready, rfl, rfl⟩

end Makes

theorem erases_cons {sectors first count : Nat} (some : 0 < count) :
    erases sectors first count =
      ⟨.erase, first, [], sectors⟩ :: erases sectors (first + subsectorSize)
        (count - subsectorSize) := by
  have number : (count + (subsectorSize - 1)) / subsectorSize =
      (count - subsectorSize + (subsectorSize - 1)) / subsectorSize + 1 := by
    simp only [subsectorSize]
    omega
  rw [erases, number, List.range_succ_eq_map, List.map_cons, List.map_map,
    Nat.mul_zero, Nat.add_zero]
  congr 1
  apply List.map_congr_left
  intro i _
  rw [Function.comp_apply, Nat.mul_succ, Nat.add_comm (subsectorSize * i), Nat.add_assoc]

/-- A loop that ends has not come to the end of the address space. -/
theorem next_subsector {j last : Nat} (small : j < 2 ^ 32) (more : j < last)
    (ends : u32 (j + 0x1000) < last → u32 (j + 0x1000) +
      0x1000 * ((last - u32 (j + 0x1000) + 0xFFF) / 0x1000) < 2 ^ 32) :
        u32 (j + 0x1000) = j + 0x1000 := by
  simp only [u32] at ends ⊢
  omega

section Runs

variable {env : Env} {start : Chips} {w₁ : Flasher}

theorem eraseRange_makes (rounds : Nat) {j last : Nat} (ready : Ready start w₁) (small : j < 2 ^ 32)
    (lastSmall : last < 2 ^ 32) :
    Makes start w₁ (eraseRange env rounds j last) fun calls stream =>
      (calls = erases w₁.maxNumSectors j (last - j) ∧ stream = w₁.stream) ∧
        (j < last → j + 0x1000 * ((last - j + 0xFFF) / 0x1000) < 2 ^ 32) := by
  induction rounds generalizing w₁ j with
  | zero => exact Triple.throw fun _ _ => trivial
  | succ rounds ih =>
      rw [eraseRange, runIf]
      by_cases more : j < last
      · rw [if_pos more]
        apply (failing_makes _ _ (sectorErase_makes ready j)).bind
        rintro work w worked ⟨calls, stream⟩
        have bounded : u32 (j + 0x1000) < 2 ^ 32 := Nat.mod_lt _ (Nat.two_pow_pos 32)
        apply (ih worked.ready bounded).mono
        rintro further _ ⟨⟨rfl, rfl⟩, ends⟩
        have next := next_subsector small more ends
        rw [next] at ends ⊢
        refine ⟨⟨?_, stream⟩, fun _ => by omega⟩
        rw [calls, erases_cons (Nat.sub_pos_of_lt more), worked.sectors, Nat.sub_sub]
        rfl
      · rw [if_neg more]
        apply (Makes.nothing ready).mono
        rintro calls _ ⟨rfl, rfl⟩
        rw [Nat.sub_eq_zero_of_le (Nat.not_lt.mp more)]
        exact ⟨⟨rfl, rfl⟩, fun less => absurd less more⟩

/-- The record ends behind its data, inside the address space. -/
structure Spans (record : ElaRecord) : Prop where
  ends : record.endAddress = record.startAddress + record.dataCount
  small : record.endAddress < 2 ^ 32

theorem eraseRecords_makes {records : List ElaRecord} (ready : Ready start w₁)
    (spans : ∀ record ∈ records, Spans record) :
    Makes start w₁ (eraseRecords env records) fun calls stream =>
      calls = (records.flatMap fun record =>
        erases w₁.maxNumSectors record.startAddress record.dataCount) ∧ stream = w₁.stream := by
  induction records generalizing w₁ with
  | nil => exact Makes.nothing ready
  | cons record rest ih =>
      obtain ⟨ends, small⟩ := spans record List.mem_cons_self
      apply (eraseRange_makes env.rounds ready (by omega) small).bind
      rintro work w worked ⟨⟨calls, stream⟩, -⟩
      refine (ih worked.ready
        fun other member => spans other (List.mem_cons_of_mem _ member)).mono ?_
      rintro further _ ⟨rfl, rfl⟩
      refine ⟨?_, stream⟩
      rw [calls, worked.sectors, ends, Nat.add_sub_cancel_left, List.flatMap_cons]

theorem programRecord_makes (record : ElaRecord) (ready : Ready start w₁) :
    Makes start w₁ (programRecord env record) fun calls stream =>
      calls = halfPages record w₁.maxNumSectors (record.bytes w₁.stream).1 ∧
        stream = (record.bytes w₁.stream).2 := by
  have follows := programRecord_follows (.inl trivial : True ∨ env.Calm) (.inl trivial) record ready
  refine Triple.consequence follows (fun _ same => same) ?_ fun _ _ _ => trivial
  rintro - w ⟨p, ran, worked, stream⟩
  obtain ⟨calls, same⟩ := Pass.wholeRecord_calls ran
  exact ⟨p.work, worked, calls, stream.trans same⟩

theorem programRecords_makes {records : List ElaRecord} (ready : Ready start w₁) :
    Makes start w₁ (programRecords env records) fun calls _ =>
      calls = (withBytes w₁.stream records).flatMap fun entry =>
        halfPages entry.1 w₁.maxNumSectors entry.2 := by
  induction records generalizing w₁ with
  | nil => exact (Makes.nothing ready).mono fun _ _ holds => holds.1
  | cons record rest ih =>
      apply (failing_makes _ _ (isFlashReady_makes ready)).bind
      rintro work w worked ⟨none, stream⟩
      let w₂ : Flasher := { w with writeBuffer := fun _ => 0 }
      have cleared : Worked start [] w w₂ :=
        (Worked.refl worked.ready).congr rfl rfl rfl rfl rfl rfl
      apply Makes.buffer_bind worked.ready _
      apply (failing_makes _ _ (programRecord_makes record cleared.ready)).bind
      rintro work' w' worked' ⟨calls, stream'⟩
      apply (ih worked'.ready).mono
      rintro further - rfl
      rw [none, List.nil_append, calls, stream', worked'.sectors, withBytes, List.flatMap_cons]
      show halfPages record w.maxNumSectors _ ++ _ = _
      rw [worked.sectors, stream]

theorem fill_zero_page (w : Flasher) (bytes : Nat → Byte) :
    (w.fill 0 bytes).page = (List.range writeDataSize).map bytes := by
  apply List.map_congr_left
  intro i member
  have inside : i < writeDataSize := List.mem_range.mp member
  simp [Flasher.fill, inside]

theorem writeBitstreamGuard_makes (ready : Ready start w₁) (guardStart : Nat) :
    Makes start w₁ (writeBitstreamGuard env guardStart) fun calls stream =>
      calls = [⟨.erase, guardStart, [], w₁.maxNumSectors⟩, guardPage w₁.maxNumSectors guardStart] ∧
        stream = w₁.stream := by
  apply (sectorErase_makes ready guardStart).bind
  rintro work w worked ⟨calls, stream⟩
  have filled : Worked start [] w (w.fill 0 guardByte) :=
    (Worked.refl worked.ready).congr rfl rfl rfl rfl rfl rfl
  refine Makes.buffer_bind worked.ready _ ((writePage_makes filled.ready _).mono ?_)
  rintro further _ ⟨rfl, rfl⟩
  refine ⟨?_, stream⟩
  rw [calls, fill_zero_page, filled.sectors, worked.sectors]
  rfl

theorem setting_makes (ready : Ready start w₁) (guardStart : Nat) :
    Makes start w₁
      (runIf (guardStart ≠ 0) do
        failing .flash .einval (writeBitstreamGuard env guardStart)
        addNote .guardSet)
      fun calls stream =>
        calls = settingCalls w₁.maxNumSectors guardStart ∧ stream = w₁.stream := by
  rw [runIf, settingCalls]
  by_cases guarded : guardStart ≠ 0
  · rw [if_pos guarded, if_pos guarded]
    apply (failing_makes _ _ (writeBitstreamGuard_makes ready guardStart)).bind
    rintro work w worked ⟨calls, stream⟩
    apply (Makes.note worked.ready (fun _ => rfl) rfl).mono
    rintro _ _ ⟨rfl, rfl⟩
    exact ⟨calls ▸ List.append_nil _, stream⟩
  · rw [if_neg guarded, if_neg guarded]
    exact Makes.nothing ready

theorem clearing_makes (ready : Ready start w₁) (guardStart : Nat) :
    Makes start w₁
      (runIf (guardStart ≠ 0) do
        addNote .clearIssued
        failing .flash .einval (clearBitstreamGuard env guardStart))
      fun calls _ => calls = clearingCalls w₁.maxNumSectors guardStart := by
  rw [runIf, clearingCalls]
  by_cases guarded : guardStart ≠ 0
  · rw [if_pos guarded, if_pos guarded]
    apply (Makes.note ready (fun _ => rfl) rfl).bind
    rintro work w worked ⟨none, -⟩
    apply (failing_makes _ _ (sectorErase_makes worked.ready guardStart)).mono
    rintro _ _ ⟨rfl, -⟩
    rw [none, List.nil_append, worked.sectors]
  · rw [if_neg guarded, if_neg guarded]
    exact (Makes.nothing ready).mono fun _ _ holds => holds.1

/-- What is made of the records alone. -/
theorem flatMap_withBytes (f : ElaRecord → List Call) (s : Stream) (records : List ElaRecord) :
    (withBytes s records).flatMap (fun entry => f entry.1) = records.flatMap f := by
  induction records generalizing s with
  | nil => rfl
  | cons record rest ih => rw [withBytes, List.flatMap_cons, List.flatMap_cons, ih]

variable {w₀ w : Flasher} {records : List ElaRecord}

/-- What follows on the preparation. -/
theorem prepared_makes (ready : Ready start w₁) (guardStart : Nat)
    (spans : ∀ record ∈ records, Spans record) :
    Makes start w₁
      (do
        runIf (guardStart ≠ 0) do
          failing .flash .einval (writeBitstreamGuard env guardStart)
          addNote .guardSet
        addNote .records
        eraseRecords env records
        programRecords env records
        runIf (guardStart ≠ 0) do
          addNote .clearIssued
          failing .flash .einval (clearBitstreamGuard env guardStart))
      fun calls _ =>
        calls = runCalls w₁.maxNumSectors guardStart (withBytes w₁.stream records) := by
  apply (setting_makes ready guardStart).bind
  rintro setting w₂ worked₂ ⟨set, stream₂⟩
  apply (Makes.note worked₂.ready (fun _ => rfl) rfl).bind
  rintro noting w₃ worked₃ ⟨none, stream₃⟩
  apply (eraseRecords_makes worked₃.ready spans).bind
  rintro erasing w₄ worked₄ ⟨erased, stream₄⟩
  apply (programRecords_makes worked₄.ready).bind
  intro programming w₅ worked₅ programmed
  apply (clearing_makes worked₅.ready guardStart).mono
  rintro _ _ rfl
  have sectors₃ : w₃.maxNumSectors = w₁.maxNumSectors := worked₃.sectors.trans worked₂.sectors
  have sectors₄ : w₄.maxNumSectors = w₁.maxNumSectors := worked₄.sectors.trans sectors₃
  have stream : w₄.stream = w₁.stream := stream₄.trans (stream₃.trans stream₂)
  rw [set, none, erased, programmed, worked₅.sectors, sectors₄, sectors₃, stream, runCalls,
    flatMap_withBytes fun record => erases w₁.maxNumSectors record.startAddress record.dataCount]
  simp only [List.nil_append, List.append_assoc]

/-- The calls of a run that succeeds. -/
theorem programXSpi_makes (outside : w₀.during = none) (blank : w₀.log = [])
    (spans : ∀ record ∈ shiftedRecords w₀.bitstreamStartLoc records, Spans record)
    (ok : programXSpi env records w₀ = .ok () w) :
    ∃ w₁ work, Prepared start w₀ w₁ ∧ Worked start work w₁ w ∧ callsOf work =
      runCalls w₁.maxNumSectors w₀.bitstreamStartLoc
        (withBytes w₀.stream (shiftedRecords w₀.bitstreamStartLoc records)) := by
  have sound : Throughout (Sound start) w₀.log := by rw [blank]; trivial
  have unguarded : .guardSet ∉ notes w₀.log := by simp [blank, notes]
  have triple : Triple (fun w => w = w₀) (programXSpi env records) (fun _ w => ∃ w₁ work,
      Prepared start w₀ w₁ ∧ Worked start work w₁ w ∧ callsOf work =
        runCalls w₁.maxNumSectors w₀.bitstreamStartLoc
          (withBytes w₀.stream (shiftedRecords w₀.bitstreamStartLoc records))) fun _ _ => True := by
    refine Triple.bind_at (fun _ => Prepared start w₀)
      ((prepareXSpi_triple env sound (.inr unguarded)
      outside).consequence (fun _ same => same) (fun _ _ holds => holds) fun _ _ _ => trivial) ?_
    rintro - w₁ prepared
    apply Triple.get_bind
    rintro _ rfl
    rw [prepared.startLoc]
    refine Triple.consequence (prepared_makes prepared.ready w₀.bitstreamStartLoc spans)
      (fun _ same => same) ?_ fun _ _ ended => ended
    rintro - w ⟨work, worked, made⟩
    rw [prepared.stream] at made
    exact ⟨_, work, prepared, worked, made⟩
  exact triple.of_ok rfl ok

end Runs

end OpaeXilinx.Flash
