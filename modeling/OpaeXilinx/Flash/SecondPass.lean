import OpaeXilinx.Flash.Effect

/-!
# The second pass

What `programXSpi` makes of a record depends on the text only, as long as the flash
answers: which lines it reads, which bytes it takes from them and which half pages it
writes.  The pass is a function of the text, and the flasher follows it.
-/

namespace OpaeXilinx.Flash

open OpaeXilinx.Base

def orStop : Option α → Except Stop α
  | none => .error .exception
  | some value => .ok value

theorem orStop_some_bind {α β : Type} (found : α) (next : α → Except Stop β) :
    (orStop (some found)).bind next = next found := rfl

theorem ok_bind {α β : Type} (found : α) (next : α → Except Stop β) :
    (Except.ok found).bind next = next found := rfl

/-- A byte is put behind those of the half page. -/
def takeByte (text : List Char) (page : List Byte) : Except Stop (List Byte) :=
  (orStop (stoi text)).map fun value => page ++ [.ofInt 8 value]

/-- Take the bytes of a data field, until the half page is full. -/
def takeBytes : List Char → List Byte → Except Stop (List Byte)
  | [], page => .ok page
  | [digit], page => takeByte [digit] page
  | high :: low :: data, page =>
      (takeByte [high, low] page).bind fun page =>
        if page.length = writeDataSize then .ok page else takeBytes data page

/-- Where the pass is in a record, with the notes of its work. -/
structure Pass where
  stream : Stream
  /-- Bytes that are still to come. -/
  index : Nat
  /-- The bytes of the half page that is being filled. -/
  page : List Byte
  pages : Nat
  prevLine : List Char
  work : List Note

namespace Pass

variable (record : ElaRecord) (sectors : Nat)

/-- Note that a half page is written. -/
def write (p : Pass) (data : List Byte) : Pass :=
  { p with
    page := []
    work := .call ⟨.program, record.pageAddress p.pages, data, sectors⟩ :: p.work }

/-- The bytes of a line have been taken. -/
def taken (p : Pass) (line : List Char) (page : List Byte) : Pass :=
  { p with
    page := page
    prevLine := line
    work := .line line (page.length - p.page.length) :: p.work }

@[simp]
theorem taken_page (p : Pass) (line : List Char) (page : List Byte) :
    (p.taken line page).page = page :=
  rfl

/-- Write the half page when it is full. -/
def flush (p : Pass) (line : List Char) : Except Stop Pass :=
  if p.page.length = writeDataSize then
    (orStop (address line)).bind fun _ =>
      .ok { p.write record sectors p.page with pages := p.pages + 1 }
  else .ok p

def data (p : Pass) (line : List Char) (dataLen : Nat) : Except Stop Pass :=
  (orStop (substr line 9 (u32 (dataLen * 2)))).bind fun field =>
  (takeBytes field p.page).bind fun page => (p.taken line page).flush record sectors line

def line (p : Pass) (line : List Char) : Except Stop Pass :=
  (orStop (dataLen line)).bind fun dataLen =>
  (orStop (recordType line)).bind fun recordType =>
    let p := { p with index := left p.index dataLen }
    if recordType ≠ 0 then .ok p else p.data record sectors line dataLen

/-- Read a line. -/
def step (p : Pass) : Except Stop Pass :=
  { p with stream := p.stream.getline.2 }.line record sectors p.stream.getline.1

def lines : Nat → Pass → Except Stop Pass
  | 0, _ => .error .cutOff
  | rounds + 1, p =>
      if p.index = 0 then .ok p else (p.step record sectors).bind (lines rounds)

/-- The last half page. -/
def rest (p : Pass) : Except Stop Pass :=
  if p.page = [] then .ok p
  else
    (orStop (address p.prevLine)).bind fun _ =>
    (orStop (dataLen p.prevLine)).bind fun _ =>
      .ok (p.write record sectors (p.page ++ List.replicate (writeDataSize - p.page.length) 0xFF))

/-- The pass at the beginning of a record. -/
def begin (stream : Stream) : Pass where
  stream := record.seek stream
  index := record.dataCount
  page := []
  pages := 0
  prevLine := []
  work := []

/-- The pass over a record. -/
def wholeRecord (stream : Stream) : Except Stop Pass :=
  if record.dataPos ≤ stream.tellg.1 then .error .assertion
  else (lines record sectors (stream.text.length + 3) (begin record stream)).bind
    (rest record sectors)

end Pass

/-- The buffer holds the bytes of the half page. -/
def Filled (page : List Byte) (w : Flasher) : Prop :=
  ∀ i < page.length, page[i]? = some (w.writeBuffer (readWriteExtraBytes + i))

/-- Nothing but the buffer has changed, which holds the bytes. -/
structure Buffered (w₁ : Flasher) (page : List Byte) (w : Flasher) : Prop where
  same : w = { w₁ with writeBuffer := w.writeBuffer }
  filled : Filled page w

section Buffer

variable {w w₁ : Flasher} {page : List Byte}

theorem Filled.nil : Filled [] w := nofun

theorem Filled.store (filled : Filled page w) (value : Byte) :
    Filled (page ++ [value]) (w.store (readWriteExtraBytes + page.length) value) := by
  intro i inside
  rw [List.length_append, List.length_singleton] at inside
  by_cases last : i = page.length
  · rw [last, List.getElem?_concat_length]
    simp [Flasher.store]
  · rw [List.getElem?_append_left (by omega), filled i (by omega), store_of_ne (by omega)]

/-- A full half page is the page in the buffer. -/
theorem Filled.page_eq (filled : Filled page w)
    (full : page.length = writeDataSize) : w.page = page := by
  apply List.ext_getElem?
  intro i
  rw [Flasher.page, List.getElem?_map]
  by_cases inside : i < writeDataSize
  · rw [List.getElem?_range inside, filled i (full ▸ inside)]
    rfl
  · rw [List.getElem?_eq_none (by simpa using inside), List.getElem?_eq_none (by omega)]
    rfl

/-- Filling up the page in the buffer. -/
theorem Filled.fill_page (filled : Filled page w) (room : page.length ≤ writeDataSize)
    (value : Byte) :
    (w.fill page.length fun _ => value).page =
      page ++ List.replicate (writeDataSize - page.length) value := by
  apply List.ext_getElem?
  intro i
  rw [Flasher.page, List.getElem?_map]
  by_cases inside : i < writeDataSize
  · rw [List.getElem?_range inside]
    by_cases here : i < page.length
    · rw [List.getElem?_append_left here, filled i here]
      simp only [Option.map_some, Flasher.fill, Option.some.injEq]
      exact if_neg (by omega)
    · rw [List.getElem?_append_right (by omega), List.getElem?_replicate_of_lt (by omega)]
      simp [Flasher.fill, inside]
      omega
  · rw [List.getElem?_eq_none (by simpa using inside),
      List.getElem?_eq_none (by simp; omega)]
    rfl

end Buffer

section Store

variable (w₁ : Flasher)

theorem storeByte_follows (text : List Char) {page : List Byte}
    (room : page.length < writeDataSize) :
    Triple (Buffered w₁ page) (storeBytes.storeByte text page.length)
      (fun next w => ∃ after, takeByte text page = .ok after ∧ next = after.length ∧
        after.length = page.length + 1 ∧ Buffered w₁ after w)
      fun stop _ => takeByte text page = .error stop ∧ stop ≠ .enxio := by
  apply orThrow_bind
  · intro missing _ _
    rw [takeByte, missing]
    exact ⟨rfl, by decide⟩
  intro value found
  let after : List Byte := page ++ [.ofInt 8 value]
  have length : after.length = page.length + 1 := List.length_append
  refine Triple.bind (fun _ => Buffered w₁ after) (Triple.modify ?_) fun _ =>
    Triple.bind (fun _ => Buffered w₁ after) (Triple.throwIf ?_ fun _ _ holds => holds) fun _ =>
    Triple.pure ?_
  · intro w buffered
    refine ⟨?_, buffered.filled.store _⟩
    rw [buffered.same]
    rfl
  · intro full
    simp only [writeDataSize] at room full
    omega
  · intro w buffered
    refine ⟨after, ?_, length.symm, length, buffered⟩
    rw [takeByte, found]
    rfl

theorem storeBytes_follows (data : List Char) {page : List Byte}
    (room : page.length < writeDataSize) :
    Triple (Buffered w₁ page) (storeBytes data page.length)
      (fun next w => ∃ after, takeBytes data page = .ok after ∧ next = after.length ∧
        after.length ≤ writeDataSize ∧ Buffered w₁ after w)
      fun stop _ => takeBytes data page = .error stop ∧ stop ≠ .enxio := by
  induction data, page using takeBytes.induct with
  | case1 page =>
      exact Triple.pure fun w buffered => ⟨page, rfl, rfl, Nat.le_of_lt room, buffered⟩
  | case2 digit page =>
      refine (storeByte_follows w₁ [digit] room).consequence (fun _ holds => holds)
        ?_ fun _ _ holds => holds
      rintro next w ⟨after, taken, rfl, longer, buffered⟩
      exact ⟨after, taken, rfl, longer ▸ room, buffered⟩
  | case3 high low data page ih =>
      have first := storeByte_follows w₁ [high, low] room
      refine Triple.bind _ (first.consequence (fun _ holds => holds) (fun _ _ holds => holds) ?_)
        fun next => ?_
      · rintro stop _ ⟨failed, own⟩
        rw [takeBytes, failed]
        exact ⟨rfl, own⟩
      rintro w ⟨after, taken, rfl, longer, buffered⟩
      have rest : takeBytes (high :: low :: data) page =
          if after.length = writeDataSize then .ok after else takeBytes data after := by
        rw [takeBytes, taken]
        rfl
      rw [rest]
      by_cases full : after.length = writeDataSize
      · rw [if_pos full, if_pos full]
        exact ⟨after, rfl, rfl, Nat.le_of_eq full, buffered⟩
      · rw [if_neg full, if_neg full]
        exact ih after (by omega) w buffered

end Store

/-- The flasher is where the pass is. -/
structure Passing (start : Chips) (w₀ : Flasher) (p : Pass) (c : Cursor) (w : Flasher) : Prop where
  worked : Worked start p.work w₀ w
  stream : w.stream = p.stream
  cursor : c = ⟨p.index, p.page.length, p.pages, p.prevLine⟩
  room : p.page.length < writeDataSize
  filled : Filled p.page w

/-- The program ends as the pass does, unless a failure of the flash ends it before.  The pass
does not end as such a failure does. -/
def Follows (fails : Prop) (pre : Flasher → Prop) (program : FlashM α) (result : Except Stop Pass)
    (post : Pass → α → Flasher → Prop) : Prop :=
  Triple pre program (fun value w => ∃ p, result = .ok p ∧ post p value w)
    fun stop _ => result = .error stop ∧ stop ≠ .enxio ∨ stop = .enxio ∧ fails

section Follow

variable {env : Env} {fails : Prop} {start : Chips} {w₀ w₁ : Flasher} {p : Pass} {c : Cursor}
  {pre : Flasher → Prop} {result : Except Stop Pass}

/-- The program and the pass look at the same value, which may be missing. -/
theorem Follows.orThrow {value : Option α} {program : α → FlashM β} {next : α → Except Stop Pass}
    {post : Pass → β → Flasher → Prop}
    (there : ∀ found, value = some found → Follows fails pre (program found) (next found) post) :
    Follows fails pre (Flash.orThrow value >>= program) ((orStop value).bind next) post := by
  cases value with
  | none => exact fun w _ => .inl ⟨rfl, by decide⟩
  | some found => exact there found rfl

theorem Follows.bind {first : FlashM α} {second : α → FlashM β} {next : Pass → Except Stop Pass}
    {middle : Pass → α → Flasher → Prop} {post : Pass → β → Flasher → Prop}
    (one : Follows fails pre first result middle)
    (two : ∀ p value w, result = .ok p → middle p value w →
      Follows fails (fun current => current = w) (second value) (next p) post) :
    Follows fails pre (first >>= second) (result.bind next) post := by
  refine Triple.bind_at _ (one.consequence (fun _ holds => holds) (fun _ _ holds => holds) ?_) ?_
  · rintro stop _ (⟨failed, own⟩ | broken)
    · rw [failed]
      exact .inl ⟨rfl, own⟩
    · exact .inr broken
  rintro value w ⟨p, done, holds⟩
  rw [done]
  exact two p value w done holds

variable (reliable : fails ∨ env.Calm) (selectable : Selectable fails w₀) (record : ElaRecord)

include reliable selectable

theorem writePage_follows {work : List Note} (worked : Worked start work w₀ w₁) (address : Nat) :
    Triple (fun w => w = w₁) (failing .flash .enxio (writePage env address))
      (fun _ w => Worked start (.call ⟨.program, address, w₁.page, w₀.maxNumSectors⟩ :: work) w₀ w ∧
        w.stream = w₁.stream) fun stop _ =>
          result = .error stop ∧ stop ≠ .enxio ∨ stop = .enxio ∧ fails :=
  (failing_stops .enxio (writePage_worked reliable worked selectable address)).consequence
    (fun _ same => same) (fun _ _ holds => holds) fun _ _ stopped => .inr stopped

theorem programData_follows (line : List Char) (dataLen : Nat) (passing : Passing start w₀ p c w₁) :
    Follows fails (fun w => w = w₁) (programData env record line dataLen c)
      (p.data record w₀.maxNumSectors line dataLen) (Passing start w₀) := by
  obtain ⟨worked, stream, rfl, room, filled⟩ := passing
  apply Follows.orThrow
  intro field found
  have stored := storeBytes_follows w₁ field room
  refine Triple.bind_at _ (stored.consequence ?_ (fun _ _ holds => holds) ?_) ?_
  · rintro _ rfl
    exact ⟨rfl, filled⟩
  · rintro stop _ ⟨failed, own⟩
    rw [failed]
    exact .inl ⟨rfl, own⟩
  rintro next w ⟨page, taken, rfl, fits, buffered⟩
  rw [taken]
  -- the note on the line comes before the half page is written
  let note : Note := .line line (page.length - p.page.length)
  have kept : Worked start p.work w₀ w := by
    rw [buffered.same]
    exact worked.congr rfl rfl rfl rfl rfl rfl
  have noted : Worked start (note :: p.work) w₀ (w.note note) := kept.note fun _ => rfl
  have sameStream : (w.note note).stream = p.stream := by
    rw [← stream, buffered.same]
    rfl
  refine Triple.bind_at (fun _ current => current = w.note note) (Triple.modify ?_) ?_
  · rintro _ rfl
    rfl
  rintro - _ rfl
  refine Triple.bind_at (fun _ current => current = w.note note)
    (Triple.throwIf (fun long => absurd long (by omega)) fun _ _ same => same) ?_
  rintro - _ rfl
  show Follows fails _ _ ((p.taken line page).flush record w₀.maxNumSectors line) (Passing start w₀)
  rw [Pass.flush, Pass.taken_page]
  by_cases full : page.length = writeDataSize
  · rw [if_pos full, if_pos full]
    apply Follows.orThrow
    intro _ _
    have page_eq : (w.note note).page = page := buffered.filled.page_eq full
    refine Triple.bind _ (writePage_follows reliable selectable noted _) fun _ =>
      Triple.bind _ (Triple.modify ?_) fun _ => Triple.pure fun _ holds => holds
    rintro after ⟨done, streamAfter⟩
    rw [page_eq] at done
    exact ⟨_, rfl, done.congr rfl rfl rfl rfl rfl rfl, streamAfter.trans sameStream, rfl,
      Nat.zero_lt_succ _, .nil⟩
  · rw [if_neg full, if_neg full]
    have room' : page.length < writeDataSize := by omega
    apply Triple.pure
    rintro _ rfl
    exact ⟨_, rfl, noted, sameStream, rfl, room', buffered.filled⟩

theorem programLine_follows (line : List Char) (passing : Passing start w₀ p c w₁) :
    Follows fails (fun w => w = w₁) (programLine env record line c)
      (p.line record w₀.maxNumSectors line) (Passing start w₀) := by
  refine Follows.orThrow fun dataLen _ => Follows.orThrow fun recordType _ => ?_
  have next : Passing start w₀ { p with index := Pass.left p.index dataLen }
      { c with index := u32 (c.index + 2 ^ 32 - dataLen) } w₁ := by
    obtain ⟨worked, stream, rfl, room, filled⟩ := passing
    refine ⟨worked, stream, ?_, room, filled⟩
    rw [Pass.left]
  by_cases noData : recordType ≠ 0
  · rw [if_pos noData, if_pos noData]
    apply Triple.pure
    rintro _ rfl
    exact ⟨_, rfl, next⟩
  · rw [if_neg noData, if_neg noData]
    exact programData_follows reliable selectable record line dataLen next

theorem programLines_follows (rounds : Nat) (passing : Passing start w₀ p c w₁) :
    Follows fails (fun w => w = w₁) (programLines env record rounds c)
      (p.lines record w₀.maxNumSectors rounds) (Passing start w₀) := by
  induction rounds generalizing p c w₁ with
  | zero => exact Triple.throw fun _ _ => .inl ⟨rfl, by decide⟩
  | succ rounds ih =>
      have sameIndex : c.index = p.index := by rw [passing.cursor]
      rw [programLines, Pass.lines, sameIndex]
      by_cases done : p.index = 0
      · rw [if_pos done, if_pos done]
        apply Triple.pure
        rintro _ rfl
        exact ⟨p, rfl, passing⟩
      rw [if_neg done, if_neg done]
      let w₂ : Flasher := { w₁ with stream := w₁.stream.getline.2 }
      apply Triple.bind_at (fun line w => line = p.stream.getline.1 ∧ w = w₂)
      · rintro _ rfl
        exact ⟨by rw [← passing.stream], rfl⟩
      rintro _ _ ⟨rfl, rfl⟩
      have next : Passing start w₀ { p with stream := p.stream.getline.2 } c w₂ := by
        refine ⟨passing.worked.congr rfl rfl rfl rfl rfl rfl, ?_, passing.cursor, passing.room,
          passing.filled⟩
        show w₁.stream.getline.2 = p.stream.getline.2
        rw [passing.stream]
      exact (programLine_follows reliable selectable record _ next).bind
        fun _ _ _ _ after => ih after

theorem programRest_follows (passing : Passing start w₀ p c w₁) :
    Follows fails (fun w => w = w₁) (programRest env record c) (p.rest record w₀.maxNumSectors)
      fun p' _ w => Worked start p'.work w₀ w ∧ w.stream = p'.stream := by
  obtain ⟨worked, stream, rfl, room, filled⟩ := passing
  rw [programRest, runIf, Pass.rest]
  by_cases empty : p.page = []
  · rw [if_pos empty, if_neg (by simp [empty])]
    apply Triple.pure
    rintro _ rfl
    exact ⟨p, rfl, worked, stream⟩
  rw [if_neg empty, if_pos (by simpa using empty)]
  refine Follows.orThrow fun _ _ => Follows.orThrow fun _ _ => ?_
  let w₂ : Flasher := w₁.fill p.page.length fun _ => 0xFF
  refine Triple.bind_at (fun _ w => w = w₂) (Triple.modify ?_) ?_
  · rintro _ rfl
    rfl
  rintro - _ rfl
  have filling : Worked start p.work w₀ w₂ := worked.congr rfl rfl rfl rfl rfl rfl
  refine Triple.bind _ (writePage_follows reliable selectable filling _) fun _ => Triple.modify ?_
  rintro after ⟨done, streamAfter⟩
  rw [filled.fill_page (Nat.le_of_lt room)] at done
  exact ⟨_, rfl, done.congr rfl rfl rfl rfl rfl rfl, streamAfter.trans stream⟩

/-- The flasher programs a record as the pass over its text says. -/
theorem programRecord_follows (ready : Ready start w₀) :
    Follows fails (fun w => w = w₀) (programRecord env record)
    (Pass.wholeRecord record w₀.maxNumSectors w₀.stream)
      fun p _ w => Worked start p.work w₀ w ∧ w.stream = p.stream := by
  apply Triple.get_bind
  intro w same
  subst same
  let w₁ : Flasher := { w with stream := w.stream.tellg.2 }
  let w₂ : Flasher := { w with stream := record.seek w.stream }
  refine Triple.bind_at (fun _ current => current = w₁) (Triple.modify ?_) ?_
  · rintro _ rfl
    rfl
  rintro - _ rfl
  rw [Pass.wholeRecord]
  by_cases behind : record.dataPos ≤ w.stream.tellg.1
  · rw [if_pos behind, throwIf, if_pos behind]
    exact fun _ _ => .inl ⟨rfl, by decide⟩
  rw [if_neg behind, throwIf, if_neg behind]
  refine Triple.bind_at (fun _ current => current = w₁) (Triple.pure fun _ same => same) ?_
  rintro - _ rfl
  refine Triple.bind_at (fun _ current => current = w₂) (Triple.modify ?_) ?_
  · rintro _ rfl
    rfl
  rintro - _ rfl
  have begins : Passing start w (.begin record w.stream) ⟨record.dataCount, 0, 0, []⟩ w₂ :=
    ⟨(Worked.refl ready).congr rfl rfl rfl rfl rfl rfl, rfl, rfl, Nat.zero_lt_succ _, .nil⟩
  exact (programLines_follows reliable selectable record _ begins).bind fun _ _ _ _ passing =>
    programRest_follows reliable selectable record passing

end Follow

end OpaeXilinx.Flash
