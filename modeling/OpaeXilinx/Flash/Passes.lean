import Mathlib.Algebra.Ring.Nat
import OpaeXilinx.Flash.SecondPass

/-!
# The two passes over a file

The parse loop counts the data lines of each record.  The second pass finds them again by
the lengths that all lines declare, and by other rules.  The passes agree exactly if, from
the position of each record on, those lengths add up to the data count of the record just
behind its last data line, and the data lines can be taken whole.
-/

namespace OpaeXilinx.Flash

open OpaeXilinx.Base

/-- The bytes of a data field. -/
def fieldBytes : List Char → Option (List Byte)
  | [] => some []
  | [digit] => (stoi [digit]).map fun value => [.ofInt 8 value]
  | high :: low :: data =>
      (stoi [high, low]).bind fun value => (fieldBytes data).map (.ofInt 8 value :: ·)

/-- The bytes of a line that holds as many as it declares. -/
def lineBytes (line : List Char) : Option (List Byte) :=
  (dataLen line).bind fun dataLen =>
  ((substr line 9 (u32 (dataLen * 2))).bind fieldBytes).filter (·.length == dataLen)

def lineData (line : List Char) : List Byte := (lineBytes line).getD []

/-- The number of bytes that lines declare. -/
def total (lines : List (List Char)) : Nat := (lines.map declared).sum

namespace Stream

/-- The next lines of a stream, and the stream behind them. -/
def lines : Nat → Stream → List (List Char)
  | 0, _ => []
  | count + 1, s => s.getline.1 :: lines count s.getline.2

def behind : Nat → Stream → Stream
  | 0, s => s
  | count + 1, s => behind count s.getline.2

end Stream

/-- The lines that have been read for a record, each with the number of bytes taken. -/
def linesOf (work : List Note) : List (List Char × Nat) :=
  work.reverse.filterMap fun
    | .line text taken => some (text, taken)
    | _ => none

def callsOf (work : List Note) : List Call :=
  work.reverse.filterMap fun
    | .call call => some call
    | _ => none

/-- A half page of data at its address, filled up with 0xFF. -/
def halfPage (record : ElaRecord) (sectors : Nat) (data : List Byte) (k : Nat) : Call where
  kind := .program
  address := record.pageAddress k
  data := (List.range writeDataSize).map fun i => data.getD (writeDataSize * k + i) 0xFF
  sectors := sectors

/-- The data of a record. -/
def ElaRecord.data (record : ElaRecord) : List Byte := record.counted.flatMap lineData

/-- What the second pass has to do with a record: read the lines that have been counted,
take all their bytes, and write them in order and once. -/
structure HandsOver (record : ElaRecord) (sectors : Nat) (work : List Note) : Prop where
  lines : linesOf work = record.counted.map fun line => (line, declared line)
  calls : callsOf work =
    (List.range ((record.data.length + (writeDataSize - 1)) / writeDataSize)).map
    (halfPage record sectors record.data)

/-- Programming the record does so, unless a page cannot be written. -/
def RecordAgrees (env : Env) (record : ElaRecord) (w : Flasher) : Prop :=
  match programRecord env record w with
  | .ok _ after =>
    ∃ work, notes after.log = work ++ notes w.log ∧ HandsOver record w.maxNumSectors work
  | .error stop _ => stop = .enxio

/-- The loop of `programXSpi` does so with each record. -/
def RecordsAgree (env : Env) : List ElaRecord → Flasher → Prop
  | [], _ => True
  | record :: rest, w => ∀ w₁,
      (do failing .flash .einval (isFlashReady env); clearBuffers : FlashM Unit) w = .ok () w₁ →
      RecordAgrees env record w₁ ∧
        ∀ w₂, programRecord env record w₁ = .ok () w₂ → RecordsAgree env rest w₂

/-- The passes agree on a text, wherever its records are shifted to. -/
def PassesAgree (text : List Char) : Prop :=
  ∀ p, Parse.file text = .ok p → ∀ env start w shift, Ready start w → w.stream = p.stream.seekg 0 →
    RecordsAgree env (p.recordList.map (.shifted shift)) w

/-- No line crosses the end of a half page. -/
def InPages (lines : List (List Char)) : Prop :=
  ∀ before line after, lines = before ++ line :: after →
    total before % writeDataSize + declared line ≤ writeDataSize

/-- The next lines of a stream feed the second pass with what the first one has counted. -/
structure Feeds (s : Stream) (record : ElaRecord) (count : Nat) : Prop where
  before : s.tellg.1 < record.dataPos
  readable : ∀ line ∈ (record.seek s).lines count, (dataLen line).isSome ∧ (recordType line).isSome
  /-- The declared lengths add up to the data count here, and not before. -/
  sum : ∀ n ≤ count, total ((record.seek s).lines n) % 2 ^ 32 = record.dataCount ↔ n = count
  data : ((record.seek s).lines count).filter (recordType · = some 0) = record.counted
  whole : ∀ line ∈ record.counted, (lineBytes line).isSome
  inPages : InPages record.counted

/-- The stream feeds the second pass for each record in turn. -/
def Consistent : Stream → List ElaRecord → Prop
  | _, [] => True
  | s, record :: rest =>
    ∃ count, Feeds s record count ∧ Consistent ((record.seek s).behind count) rest

theorem takeBytes_of_fieldBytes {field : List Char} {bytes page : List Byte}
    (holds : fieldBytes field = some bytes) (room : page.length < writeDataSize)
    (fits : page.length + bytes.length ≤ writeDataSize) :
    takeBytes field page = .ok (page ++ bytes) := by
  induction field using fieldBytes.induct generalizing bytes page with
  | case1 =>
      cases holds
      rw [takeBytes, List.append_nil]
  | case2 digit =>
      simp only [fieldBytes, Option.map_eq_some_iff] at holds
      obtain ⟨value, found, rfl⟩ := holds
      rw [takeBytes, takeByte, found]
      rfl
  | case3 high low data ih =>
      simp only [fieldBytes, Option.bind_eq_some_iff, Option.map_eq_some_iff] at holds
      obtain ⟨value, found, rest, holds, rfl⟩ := holds
      have length : (page ++ [BitVec.ofInt 8 value]).length = page.length + 1 := List.length_append
      rw [List.length_cons] at fits
      rw [takeBytes, takeByte, found, List.append_cons]
      show (if (page ++ [BitVec.ofInt 8 value]).length = writeDataSize
        then .ok (page ++ [BitVec.ofInt 8 value])
        else takeBytes data (page ++ [BitVec.ofInt 8 value])) =
          .ok (page ++ [BitVec.ofInt 8 value] ++ rest)
      by_cases full : (page ++ [BitVec.ofInt 8 value]).length = writeDataSize
      · have nothing : rest = [] := List.length_eq_zero_iff.mp (by omega)
        rw [if_pos full, nothing, List.append_nil]
      · rw [if_neg full]
        exact ih holds (by omega) (by omega)

/-- If as many bytes have been taken as there are, they are those of the field. -/
theorem fieldBytes_of_takeBytes {field : List Char} {page after : List Byte}
    (taken : takeBytes field page = .ok after) (room : page.length < writeDataSize)
    (all : field.length ≤ 2 * (after.length - page.length)) :
    ∃ bytes, fieldBytes field = some bytes ∧ after = page ++ bytes ∧
      after.length ≤ writeDataSize := by
  induction field, page using takeBytes.induct with
  | case1 page =>
      cases taken
      exact ⟨[], rfl, (List.append_nil _).symm, Nat.le_of_lt room⟩
  | case2 digit page =>
      cases found : stoi [digit] with
      | none => simp [takeBytes, takeByte, found, orStop, Except.map] at taken
      | some value =>
          simp only [takeBytes, takeByte, found, orStop, Except.map, Except.ok.injEq] at taken
          subst taken
          refine ⟨[BitVec.ofInt 8 value], by rw [fieldBytes, found]; rfl, rfl, ?_⟩
          rw [List.length_append]
          exact room
  | case3 high low data page ih =>
      cases found : stoi [high, low] with
      | none => simp [takeBytes, takeByte, found, orStop, Except.map, Except.bind] at taken
      | some value =>
          have length : (page ++ [BitVec.ofInt 8 value]).length = page.length + 1 :=
            List.length_append
          simp only [takeBytes, takeByte, found, orStop, Except.map, Except.bind] at taken
          rw [List.length_cons, List.length_cons] at all
          by_cases full : (page ++ [BitVec.ofInt 8 value]).length = writeDataSize
          · rw [if_pos full] at taken
            cases taken
            have nothing : data = [] := List.length_eq_zero_iff.mp (by omega)
            subst nothing
            exact ⟨[BitVec.ofInt 8 value], by rw [fieldBytes, found]; rfl, rfl, Nat.le_of_eq full⟩
          · rw [if_neg full] at taken
            obtain ⟨rest, holds, same, fits⟩ := ih _ taken (by omega) (by omega)
            refine ⟨.ofInt 8 value :: rest, by rw [fieldBytes, found, holds]; rfl, ?_, fits⟩
            exact same.trans (List.append_assoc page [_] rest)

section HalfPages

variable {record : ElaRecord} {sectors : Nat} {data : List Byte}

/-- A half page of which more data leave the bytes alone. -/
theorem halfPage_append {k : Nat} (inside : writeDataSize * (k + 1) ≤ data.length)
    (more : List Byte) :
    halfPage record sectors (data ++ more) k = halfPage record sectors data k := by
  rw [halfPage, halfPage, Call.mk.injEq]
  refine ⟨rfl, rfl, List.map_congr_left fun i member => ?_, rfl⟩
  have less : i < writeDataSize := List.mem_range.mp member
  rw [Nat.mul_succ] at inside
  rw [List.getD_eq_getElem?_getD, List.getD_eq_getElem?_getD, List.getElem?_append_left (by omega)]

/-- The last half page. -/
theorem halfPage_last {page : List Byte} {k : Nat} (isRest : page = data.drop (writeDataSize * k))
    (room : page.length ≤ writeDataSize) :
    halfPage record sectors data k = ⟨.program, record.pageAddress k,
      page ++ List.replicate (writeDataSize - page.length) 0xFF, sectors⟩ := by
  rw [halfPage, Call.mk.injEq]
  refine ⟨rfl, rfl, List.ext_getElem? fun i => ?_, rfl⟩
  have length : page.length = data.length - writeDataSize * k := by rw [isRest, List.length_drop]
  rw [List.getElem?_map]
  by_cases inside : i < writeDataSize
  · rw [List.getElem?_range inside, Option.map_some, List.getD_eq_getElem?_getD]
    by_cases here : i < page.length
    · rw [List.getElem?_append_left here, isRest, List.getElem?_drop]
      rw [List.getElem?_eq_getElem (by omega : writeDataSize * k + i < data.length)]
      rfl
    · rw [List.getElem?_append_right (by omega), List.getElem?_replicate_of_lt (by omega)]
      rw [List.getElem?_eq_none (by omega : data.length ≤ writeDataSize * k + i)]
      rfl
  · rw [List.getElem?_eq_none (by simpa using inside), List.getElem?_eq_none (by simp; omega)]
    rfl

end HalfPages

theorem linesOf_line (line : List Char) (taken : Nat) (work : List Note) :
    linesOf (.line line taken :: work) = linesOf work ++ [(line, taken)] := by
  simp [linesOf]

theorem linesOf_call (call : Call) (work : List Note) :
    linesOf (.call call :: work) = linesOf work := by
  simp [linesOf]

theorem callsOf_line (line : List Char) (taken : Nat) (work : List Note) :
    callsOf (.line line taken :: work) = callsOf work := by
  simp [callsOf]

theorem callsOf_call (call : Call) (work : List Note) :
    callsOf (.call call :: work) = callsOf work ++ [call] := by
  simp [callsOf]

/-- A list that ends in a line stays in its pages if the line does. -/
theorem InPages.snoc {lines : List (List Char)} {line : List Char} (inPages : InPages lines)
    (last : total lines % writeDataSize + declared line ≤ writeDataSize) :
    InPages (lines ++ [line]) := by
  intro before other after same
  rcases List.eq_nil_or_concat after with rfl | ⟨rest, final, rfl⟩
  · obtain ⟨rfl, single⟩ := List.append_inj' same rfl
    cases single
    exact last
  · rw [List.concat_eq_append, ← List.cons_append, ← List.append_assoc] at same
    exact inPages before other rest (List.append_inj' same rfl).1

/-- The half pages of a record's data, in order. -/
def halfPages (record : ElaRecord) (sectors : Nat) (data : List Byte) : List Call :=
  (List.range ((data.length + (writeDataSize - 1)) / writeDataSize)).map
    (halfPage record sectors data)

/-- The pass has written the half pages that the data it has taken fill, and holds the rest. -/
structure Paged (record : ElaRecord) (sectors : Nat) (data : List Byte) (p : Pass) : Prop where
  size : data.length = writeDataSize * p.pages + p.page.length
  page : p.page = data.drop (writeDataSize * p.pages)
  calls : callsOf p.work = (List.range p.pages).map (halfPage record sectors data)

section Paged

variable {record : ElaRecord} {sectors : Nat} {data : List Byte} {p : Pass}

theorem Paged.begin (record : ElaRecord) (sectors : Nat) (s : Stream) :
    Paged record sectors [] (.begin record s) := ⟨rfl, rfl, rfl⟩

/-- More bytes are taken. -/
theorem Paged.taken (paged : Paged record sectors data p) (line : List Char) (bytes : List Byte) :
    Paged record sectors (data ++ bytes) (p.taken line (p.page ++ bytes)) := by
  have size := paged.size
  constructor
  · rw [List.length_append, size, Pass.taken_page, List.length_append, Nat.add_assoc]
    rfl
  · rw [Pass.taken_page, paged.page]
    exact (List.drop_append_of_le_length (by rw [size]; exact Nat.le_add_right _ _)).symm
  · rw [Pass.taken, callsOf_line, paged.calls]
    refine List.map_congr_left fun k member => (halfPage_append ?_ bytes).symm
    have less : k + 1 ≤ p.pages := List.mem_range.mp member
    have := Nat.mul_le_mul_left writeDataSize less
    omega

/-- The full half page is written. -/
theorem Paged.written (paged : Paged record sectors data p) (full : p.page.length = writeDataSize) :
    Paged record sectors data { p.write record sectors p.page with pages := p.pages + 1 } := by
  have size := paged.size
  have last : halfPage record sectors data p.pages =
      ⟨.program, record.pageAddress p.pages, p.page, sectors⟩ := by
    rw [halfPage_last paged.page (Nat.le_of_eq full), full, Nat.sub_self, List.replicate_zero,
      List.append_nil]
  constructor
  · rw [size, full]
    rfl
  · rw [List.drop_eq_nil_of_le]
    · rfl
    · rw [size, full]
      rfl
  · rw [List.range_succ, List.map_append, ← paged.calls, List.map_singleton, last]
    exact callsOf_call _ _

/-- All half pages are full. -/
theorem Paged.whole (paged : Paged record sectors data p) (empty : p.page = []) :
    callsOf p.work = halfPages record sectors data := by
  have size := paged.size
  have number : (data.length + (writeDataSize - 1)) / writeDataSize = p.pages := by
    rw [size, empty, writeDataSize]
    simp only [List.length_nil]
    omega
  rw [halfPages, number]
  exact paged.calls

/-- The last half page is filled up. -/
theorem Paged.last (paged : Paged record sectors data p) (room : p.page.length < writeDataSize)
    (some : p.page ≠ []) :
    callsOf (p.write record sectors
      (p.page ++ List.replicate (writeDataSize - p.page.length) 0xFF)).work =
        halfPages record sectors data := by
  have size := paged.size
  have number : (data.length + (writeDataSize - 1)) / writeDataSize = p.pages + 1 := by
    have positive : 0 < p.page.length := List.length_pos_iff.mpr some
    rw [writeDataSize] at room size ⊢
    omega
  have last : halfPage record sectors data p.pages = _ :=
    halfPage_last paged.page (Nat.le_of_lt room)
  rw [halfPages, number, List.range_succ, List.map_append, List.map_singleton, last]
  exact (callsOf_call _ _).trans (congrArg (· ++ _) paged.calls)

end Paged

/-- What the pass has made of the data lines it has seen. -/
structure Handed (record : ElaRecord) (sectors : Nat) (seen : List (List Char)) (p : Pass) : Prop where
  lines : linesOf p.work = seen.map fun line => (line, declared line)
  size : (seen.flatMap lineData).length = writeDataSize * p.pages + p.page.length
  page : p.page = (seen.flatMap lineData).drop (writeDataSize * p.pages)
  calls : callsOf p.work =
    (List.range p.pages).map (halfPage record sectors (seen.flatMap lineData))
  prev : p.page ≠ [] → p.prevLine ∈ seen
  whole : ∀ line ∈ seen, (lineBytes line).isSome
  inPages : InPages seen

section Handed

variable {record : ElaRecord} {sectors : Nat} {seen : List (List Char)} {p : Pass}
    {line : List Char} {bytes : List Byte}

theorem Handed.paged (handed : Handed record sectors seen p) :
    Paged record sectors (seen.flatMap lineData) p := ⟨handed.size, handed.page, handed.calls⟩

theorem dataLen_of_lineBytes (holds : lineBytes line = some bytes) :
    dataLen line = some bytes.length ∧
      (substr line 9 (u32 (bytes.length * 2))).bind fieldBytes = some bytes := by
  simp only [lineBytes, Option.bind_eq_some_iff, Option.filter_eq_some_iff, beq_iff_eq] at holds
  obtain ⟨length, found, field, same⟩ := holds
  rw [same]
  exact ⟨found, by simpa [Option.bind_eq_some_iff] using field⟩

theorem declared_of_lineBytes (holds : lineBytes line = some bytes) :
    declared line = bytes.length := by
  rw [declared, (dataLen_of_lineBytes holds).1]
  rfl

/-- The data of whole lines are as long as they declare. -/
theorem length_flatMap_lineData {lines : List (List Char)}
    (whole : ∀ line ∈ lines, (lineBytes line).isSome) :
    (lines.flatMap lineData).length = total lines := by
  rw [List.length_flatMap, total]
  congr 1
  apply List.map_congr_left
  intro line member
  obtain ⟨bytes, holds⟩ := Option.isSome_iff_exists.mp (whole line member)
  rw [lineData, holds, declared_of_lineBytes holds]
  rfl

theorem Handed.total_mod (handed : Handed record sectors seen p)
    (room : p.page.length < writeDataSize) :
    total seen % writeDataSize = p.page.length := by
  rw [← length_flatMap_lineData handed.whole, handed.size, Nat.mul_add_mod, Nat.mod_eq_of_lt room]

/-- A whole line is taken. -/
theorem Handed.taken (handed : Handed record sectors seen p) (room : p.page.length < writeDataSize)
    (holds : lineBytes line = some bytes) (fits : p.page.length + bytes.length ≤ writeDataSize) :
    Handed record sectors (seen ++ [line]) (p.taken line (p.page ++ bytes)) := by
  have data : lineData line = bytes := by rw [lineData, holds]; rfl
  have all : (seen ++ [line]).flatMap lineData = seen.flatMap lineData ++ bytes := by
    rw [List.flatMap_append, List.flatMap_singleton, data]
  have length := declared_of_lineBytes holds
  have paged := handed.paged.taken line bytes
  rw [← all] at paged
  refine ⟨?_, paged.size, paged.page, paged.calls, ?_, ?_, ?_⟩
  · rw [Pass.taken, linesOf_line, handed.lines, List.map_append, List.map_singleton, length,
      List.length_append, Nat.add_sub_cancel_left]
  · exact fun _ => List.mem_append_right _ List.mem_cons_self
  · intro other member
    rcases List.mem_append.mp member with before | last
    · exact handed.whole other before
    · rw [List.mem_singleton.mp last, holds]
      rfl
  · apply handed.inPages.snoc
    rw [handed.total_mod room, length]
    exact fits

/-- The full half page is written. -/
theorem Handed.written (handed : Handed record sectors seen p)
    (full : p.page.length = writeDataSize) :
    Handed record sectors seen { p.write record sectors p.page with pages := p.pages + 1 } := by
  have paged := handed.paged.written full
  exact ⟨(linesOf_call _ _).trans handed.lines, paged.size, paged.page, paged.calls,
    fun some => absurd rfl some, handed.whole, handed.inPages⟩

/-- How much is left does not matter. -/
theorem Handed.moved (handed : Handed record sectors seen p) (index : Nat) :
    Handed record sectors seen { p with index := index } :=
  ⟨handed.lines, handed.size, handed.page, handed.calls, handed.prev, handed.whole, handed.inPages⟩

theorem Handed.flush (handed : Handed record sectors seen p) (fits : p.page.length ≤ writeDataSize)
    (placed : (address line).isSome) :
    ∃ after, p.flush record sectors line = .ok after ∧ after.index = p.index ∧
      after.stream = p.stream ∧ after.page.length < writeDataSize ∧
        Handed record sectors seen after := by
  obtain ⟨place, hasPlace⟩ := Option.isSome_iff_exists.mp placed
  rw [Pass.flush]
  by_cases full : p.page.length = writeDataSize
  · rw [if_pos full, hasPlace]
    exact ⟨_, orStop_some_bind _ _, rfl, rfl, Nat.zero_lt_succ _, handed.written full⟩
  · rw [if_neg full]
    exact ⟨p, rfl, rfl, rfl, by omega, handed⟩

theorem Pass.line_data (room : p.page.length < writeDataSize) (isData : recordType line = some 0)
    (holds : lineBytes line = some bytes) (fits : p.page.length + bytes.length ≤ writeDataSize) :
    p.line record sectors line = Pass.flush record sectors
      (Pass.taken { p with
        index := Pass.left p.index (declared line) } line (p.page ++ bytes)) line := by
  obtain ⟨found, both⟩ := dataLen_of_lineBytes holds
  obtain ⟨field, hasField, hasBytes⟩ := Option.bind_eq_some_iff.mp both
  have bytesTaken := takeBytes_of_fieldBytes hasBytes room fits
  rw [Pass.line, found, orStop_some_bind, isData, orStop_some_bind, declared_of_lineBytes holds]
  simp only [ne_eq, not_true_eq_false, if_false]
  rw [Pass.data, hasField, orStop_some_bind, bytesTaken, ok_bind]

theorem Handed.readAt (handed : Handed record sectors seen p) (room : p.page.length < writeDataSize)
    (placed : (address line).isSome) (holds : lineBytes line = some bytes)
    (fits : p.page.length + bytes.length ≤ writeDataSize) (index : Nat) :
    ∃ after, Pass.flush record sectors
      (Pass.taken { p with index := index } line (p.page ++ bytes)) line =
        .ok after ∧ after.index = index ∧ after.stream = p.stream ∧
      after.page.length < writeDataSize ∧ Handed record sectors (seen ++ [line]) after := by
  refine ((handed.moved index).taken room holds fits).flush ?_ placed
  rw [Pass.taken_page, List.length_append]
  exact fits

/-- A data line that is whole and stays in the half page. -/
theorem Handed.readData (handed : Handed record sectors seen p)
    (room : p.page.length < writeDataSize)
    (isData : recordType line = some 0) (placed : (address line).isSome)
    (holds : lineBytes line = some bytes) (fits : p.page.length + bytes.length ≤ writeDataSize) :
    ∃ after, p.line record sectors line = .ok after ∧
      after.index = Pass.left p.index (declared line) ∧
      after.stream = p.stream ∧ after.page.length < writeDataSize ∧
      Handed record sectors (seen ++ [line]) after := by
  rw [Pass.line_data room isData holds fits]
  exact handed.readAt room placed holds fits _

end Handed

/-- What it takes to read a line, and what the pass makes of it. -/
structure LineRead (p after : Pass) (line : List Char) : Prop where
  length : (dataLen line).isSome
  type : (recordType line).isSome
  index : after.index = Pass.left p.index (declared line)
  stream : after.stream = p.stream
  other : recordType line ≠ some 0 → after = { p with index := Pass.left p.index (declared line) }
  data : recordType line = some 0 →
    ∃ field page, substr line 9 (u32 (declared line * 2)) = some field ∧
    takeBytes field p.page = .ok page ∧
    linesOf after.work = linesOf p.work ++ [(line, page.length - p.page.length)]

theorem bind_ok {α β : Type} {result : Except Stop α} {next : α → Except Stop β} {value : β}
    (ok : result.bind next = .ok value) : ∃ found, result = .ok found ∧ next found = .ok value := by
  cases result with
  | error stop => cases ok
  | ok found => exact ⟨found, rfl, ok⟩

theorem orStop_ok {α : Type} {value : Option α} {found : α} (ok : orStop value = .ok found) :
    value = some found := by
  cases value with
  | none => cases ok
  | some _ => cases ok; rfl

theorem length_substr_le {text found : List Char} {pos count : Nat}
    (here : substr text pos count = some found) : found.length ≤ count := by
  rw [substr] at here
  split at here
  · cases here
    exact List.length_take_le _ _
  · cases here

section Read

variable {record : ElaRecord} {sectors : Nat} {seen : List (List Char)} {p after : Pass}
  {line : List Char}

theorem Pass.flush_read (ok : p.flush record sectors line = .ok after) :
    after.index = p.index ∧ after.stream = p.stream ∧ linesOf after.work = linesOf p.work := by
  rw [Pass.flush] at ok
  split at ok
  · obtain ⟨_, -, ok⟩ := bind_ok ok
    cases ok
    exact ⟨rfl, rfl, linesOf_call _ _⟩
  · cases ok
    exact ⟨rfl, rfl, rfl⟩

theorem Pass.data_read {length : Nat} (ok : p.data record sectors line length = .ok after) :
    after.index = p.index ∧ after.stream = p.stream ∧
      ∃ field page, substr line 9 (u32 (length * 2)) = some field ∧
        takeBytes field p.page = .ok page ∧
        linesOf after.work = linesOf p.work ++ [(line, page.length - p.page.length)] := by
  rw [Pass.data] at ok
  obtain ⟨field, isField, ok⟩ := bind_ok ok
  obtain ⟨page, isPage, ok⟩ := bind_ok ok
  obtain ⟨index, stream, lines⟩ := Pass.flush_read ok
  exact ⟨index, stream, field, page, orStop_ok isField, isPage, lines.trans (linesOf_line _ _ _)⟩

/-- The last part of reading a line, whatever is left behind it. -/
theorem Pass.typed_read {type length index : Nat}
    (ok : (if type ≠ 0 then .ok { p with index := index }
      else Pass.data record sectors { p with index := index } line length) = .ok after) :
    after.index = index ∧ after.stream = p.stream ∧ (type ≠ 0 → after = { p with index := index }) ∧
      (type = 0 → ∃ field page, substr line 9 (u32 (length * 2)) = some field ∧
        takeBytes field p.page = .ok page ∧
        linesOf after.work = linesOf p.work ++ [(line, page.length - p.page.length)]) := by
  split at ok
  case isTrue noData =>
    cases ok
    exact ⟨rfl, rfl, fun _ => rfl, fun isData => absurd isData noData⟩
  case isFalse isData =>
    obtain ⟨sameIndex, sameStream, taken⟩ := Pass.data_read ok
    exact ⟨sameIndex, sameStream, fun noData => absurd noData isData, fun _ => taken⟩

theorem Pass.line_read (ok : p.line record sectors line = .ok after) : LineRead p after line := by
  rw [Pass.line] at ok
  obtain ⟨length, isLength, ok⟩ := bind_ok ok
  obtain ⟨type, isType, ok⟩ := bind_ok ok
  have hasLength := orStop_ok isLength
  have hasType := orStop_ok isType
  obtain rfl : declared line = length := by rw [declared, hasLength]; rfl
  obtain ⟨index, stream, other, data⟩ := Pass.typed_read ok
  refine ⟨hasLength ▸ rfl, hasType ▸ rfl, index, stream, fun noData => other ?_,
    fun isData => data ?_⟩
  · rintro rfl
    exact noData hasType
  · exact Option.some.inj (hasType.symm.trans isData)

/-- A data line that has been taken with all the bytes it declares is whole, and stays in its
half page. -/
theorem LineRead.whole (read : LineRead p after line) (room : p.page.length < writeDataSize)
    (isData : recordType line = some 0)
    (all : ∀ taken, (line, taken) ∈ linesOf after.work → taken = declared line) :
    ∃ bytes, lineBytes line = some bytes ∧ p.page.length + bytes.length ≤ writeDataSize := by
  obtain ⟨field, page, hasField, isPage, lines⟩ := read.data isData
  have taken : page.length - p.page.length = declared line :=
    all _ (by rw [lines]; exact List.mem_append_right _ List.mem_cons_self)
  obtain ⟨length, hasLength⟩ := Option.isSome_iff_exists.mp read.length
  obtain rfl : declared line = length := by rw [declared, hasLength]; rfl
  have short : field.length ≤ 2 * (page.length - p.page.length) := by
    rw [taken, Nat.mul_comm]
    refine (length_substr_le hasField).trans (Nat.mod_le _ _)
  obtain ⟨bytes, hasBytes, rfl, fits⟩ := fieldBytes_of_takeBytes isPage room short
  rw [List.length_append] at taken fits
  refine ⟨bytes, ?_, fits⟩
  rw [lineBytes, hasLength, Option.bind_some, hasField, Option.bind_some, hasBytes]
  exact Option.filter_some_pos (beq_iff_eq.mpr (by omega))

/-- A line without data. -/
theorem Pass.line_other (length : (dataLen line).isSome) (type : (recordType line).isSome)
    (noData : recordType line ≠ some 0) :
    p.line record sectors line = .ok { p with index := Pass.left p.index (declared line) } := by
  obtain ⟨length, hasLength⟩ := Option.isSome_iff_exists.mp length
  obtain ⟨type, hasType⟩ := Option.isSome_iff_exists.mp type
  have other : type ≠ 0 := by
    rintro rfl
    exact noData hasType
  obtain rfl : declared line = length := by rw [declared, hasLength]; rfl
  rw [Pass.line, hasLength, orStop_some_bind, hasType, orStop_some_bind]
  exact if_pos other

end Read

/-! ## The pass over a record -/

theorem declared_lt (line : List Char) : declared line < 2 ^ 32 := by
  rw [declared, dataLen, field]
  cases (substr line 1 2).bind stoi with
  | none => exact Nat.two_pow_pos 32
  | some value =>
      show (value % 2 ^ 32).toNat < 2 ^ 32
      omega

/-- What is left is what all further lines have to add up to. -/
theorem left_spec {index length : Nat} (index_lt : index < 2 ^ 32) (length_lt : length < 2 ^ 32) :
    Pass.left index length < 2 ^ 32 ∧
      ∀ rest, rest % 2 ^ 32 = Pass.left index length ↔ (length + rest) % 2 ^ 32 = index := by
  rw [Pass.left, u32]
  refine ⟨Nat.mod_lt _ (Nat.two_pow_pos 32), fun rest => ?_⟩
  omega

/-- The next lines of the stream, of which the data lines come after those that have been seen. -/
structure Upcoming (counted seen : List (List Char)) (s : Stream) (index count : Nat) : Prop where
  readable : ∀ line ∈ s.lines count, (dataLen line).isSome ∧ (recordType line).isSome
  sum : ∀ n ≤ count, total (s.lines n) % 2 ^ 32 = index ↔ n = count
  data : seen ++ (s.lines count).filter (recordType · = some 0) = counted

section Upcoming

variable {counted seen : List (List Char)} {s : Stream} {index count : Nat}

theorem Upcoming.cons (index_lt : index < 2 ^ 32)
    (upcoming : Upcoming counted seen s index (count + 1)) :
    index ≠ 0 ∧ Upcoming counted
      (if recordType s.getline.1 = some 0 then seen ++ [s.getline.1] else seen) s.getline.2
      (Pass.left index (declared s.getline.1)) count := by
  obtain ⟨readable, sum, data⟩ := upcoming
  obtain ⟨-, left⟩ := left_spec index_lt (declared_lt s.getline.1)
  refine ⟨?_, fun line member => readable line (List.mem_cons_of_mem _ member), fun n le => ?_, ?_⟩
  · rintro rfl
    have := (sum 0 (Nat.zero_le _)).mp rfl
    omega
  · rw [left]
    exact (sum (n + 1) (Nat.succ_le_succ le)).trans Nat.succ_inj
  · rw [← data, Stream.lines, List.filter_cons]
    split_ifs <;> simp_all

theorem Upcoming.of_cons (index_lt : index < 2 ^ 32) (some : index ≠ 0)
    (readable : (dataLen s.getline.1).isSome ∧ (recordType s.getline.1).isSome)
    (upcoming : Upcoming counted
      (if recordType s.getline.1 = Option.some 0 then seen ++ [s.getline.1] else seen) s.getline.2
      (Pass.left index (declared s.getline.1)) count) :
        Upcoming counted seen s index (count + 1) := by
  obtain ⟨readable', sum, data⟩ := upcoming
  obtain ⟨-, left⟩ := left_spec index_lt (declared_lt s.getline.1)
  refine ⟨?_, fun n le => ?_, ?_⟩
  · intro line member
    rcases List.mem_cons.mp member with rfl | later
    · exact readable
    · exact readable' line later
  · cases n with
    | zero => exact ⟨fun zero => absurd zero.symm some, fun zero => by cases zero⟩
    | succ n =>
        have here := sum n (Nat.le_of_succ_le_succ le)
        rw [left] at here
        exact here.trans Nat.succ_inj.symm
  · rw [← data, Stream.lines, List.filter_cons]
    split_ifs <;> simp_all

end Upcoming

section Lines

variable {record : ElaRecord} {sectors : Nat} {counted seen : List (List Char)} {p after : Pass}
  {count rounds : Nat} (placed : ∀ line ∈ counted, (address line).isSome)

theorem Handed.restream (handed : Handed record sectors seen p) (stream : Stream) :
    Handed record sectors seen { p with stream := stream } :=
  ⟨handed.lines, handed.size, handed.page, handed.calls, handed.prev, handed.whole, handed.inPages⟩

include placed

/-- If the next lines are those that have been counted, the pass takes them. -/
theorem Handed.lines_ok (handed : Handed record sectors seen p)
    (room : p.page.length < writeDataSize)
    (index_lt : p.index < 2 ^ 32) (upcoming : Upcoming counted seen p.stream p.index count)
    (whole : ∀ line ∈ counted, (lineBytes line).isSome) (inPages : InPages counted)
    (enough : count < rounds) :
    ∃ after, p.lines record sectors rounds = .ok after ∧ after.stream = p.stream.behind count ∧
      after.page.length < writeDataSize ∧ Handed record sectors counted after := by
  induction count generalizing p seen rounds with
  | zero =>
      obtain ⟨rounds, rfl⟩ := Nat.exists_eq_succ_of_ne_zero (Nat.ne_of_gt enough)
      have done : p.index = 0 := ((upcoming.sum 0 (Nat.le_refl 0)).mpr rfl).symm
      have all : seen = counted := by
        rw [← upcoming.data, Stream.lines, List.filter_nil, List.append_nil]
      rw [Pass.lines, if_pos done]
      exact ⟨p, rfl, rfl, room, all ▸ handed⟩
  | succ count ih =>
      obtain ⟨rounds, rfl⟩ :=
        Nat.exists_eq_succ_of_ne_zero (Nat.ne_of_gt (Nat.zero_lt_of_lt enough))
      obtain ⟨some, next⟩ := upcoming.cons index_lt
      obtain ⟨isLength, isType⟩ := upcoming.readable _ List.mem_cons_self
      have left_lt := (left_spec index_lt (declared_lt p.stream.getline.1)).1
      rw [Pass.lines, if_neg some, Pass.step]
      by_cases isData : recordType p.stream.getline.1 = Option.some 0
      · rw [if_pos isData] at next
        have split : counted = seen ++ p.stream.getline.1 ::
            (p.stream.getline.2.lines count).filter (recordType · = Option.some 0) := by
          rw [← next.data, List.append_assoc]
          rfl
        have member : p.stream.getline.1 ∈ counted := by simp [split]
        obtain ⟨bytes, holds⟩ := Option.isSome_iff_exists.mp (whole _ member)
        have fits := inPages _ _ _ split
        rw [handed.total_mod room, declared_of_lineBytes holds] at fits
        obtain ⟨after, ok, index, stream, room', handed'⟩ :=
          (handed.restream p.stream.getline.2).readData room isData (placed _ member) holds fits
        rw [ok]
        have next' :
            Upcoming counted (seen ++ [p.stream.getline.1]) after.stream after.index count := by
          rw [stream, index]
          exact next
        obtain ⟨final, ran, finalStream, done⟩ := ih handed' room' (index ▸ left_lt) next'
          (Nat.lt_of_succ_lt_succ enough)
        exact ⟨final, ran, finalStream.trans (stream ▸ rfl), done⟩
      · rw [if_neg isData] at next
        rw [Pass.line_other isLength isType isData]
        exact ih ((handed.restream _).moved _) room left_lt next (Nat.lt_of_succ_lt_succ enough)

omit placed in
theorem LineRead.grows {line : List Char} (read : LineRead p after line) :
    linesOf p.work <+: linesOf after.work := by
  by_cases isData : recordType line = some 0
  · obtain ⟨_, _, -, -, lines⟩ := read.data isData
    rw [lines]
    exact List.prefix_append _ _
  · rw [read.other isData]

omit placed in
theorem Pass.lines_grow (ok : p.lines record sectors rounds = .ok after) :
    linesOf p.work <+: linesOf after.work := by
  induction rounds generalizing p with
  | zero => cases ok
  | succ rounds ih =>
      rw [Pass.lines] at ok
      split at ok
      · cases ok
        exact List.prefix_rfl
      · obtain ⟨next, read, ok⟩ := bind_ok ok
        exact (Pass.line_read read).grows.trans (ih ok)

/-- If the pass has taken the lines that have been counted, and all bytes they declare, these
are the next lines. -/
theorem Handed.of_lines_ok (handed : Handed record sectors seen p)
    (room : p.page.length < writeDataSize)
    (index_lt : p.index < 2 ^ 32) (ok : p.lines record sectors rounds = .ok after)
    (lines : linesOf after.work = counted.map fun line => (line, declared line)) :
    ∃ count, after.stream = p.stream.behind count ∧ Upcoming counted seen p.stream p.index count ∧
      after.page.length < writeDataSize ∧ Handed record sectors counted after := by
  induction rounds generalizing p seen with
  | zero => cases ok
  | succ rounds ih =>
      have grows := Pass.lines_grow ok
      rw [Pass.lines] at ok
      split at ok
      case isTrue done =>
        cases ok
        have all : seen = counted := by
          have same := congrArg (List.map Prod.fst) (handed.lines.symm.trans lines)
          simpa [Function.comp_def] using same
        refine ⟨0, rfl, ⟨fun _ member => absurd member List.not_mem_nil, fun n le => ?_, ?_⟩, room,
          all ▸ handed⟩
        · obtain rfl := Nat.le_zero.mp le
          exact ⟨fun _ => rfl, fun _ => done.symm⟩
        · rw [Stream.lines, List.filter_nil, List.append_nil, all]
      case isFalse some =>
        obtain ⟨next, stepped, ok⟩ := bind_ok ok
        have read := Pass.line_read stepped
        have left_lt := (left_spec index_lt (declared_lt p.stream.getline.1)).1
        have entries :
            ∀ entry ∈ linesOf next.work, entry.1 ∈ counted ∧ entry.2 = declared entry.1 := by
          intro entry member
          have inAll := (Pass.lines_grow ok).subset member
          rw [lines, List.mem_map] at inAll
          obtain ⟨line, inCounted, rfl⟩ := inAll
          exact ⟨inCounted, rfl⟩
        have handed' : next.page.length < writeDataSize ∧ Handed record sectors
            (if recordType p.stream.getline.1 = Option.some 0
              then seen ++ [p.stream.getline.1] else seen)
            next := by
          by_cases isData : recordType p.stream.getline.1 = Option.some 0
          · obtain ⟨bytes, holds, fits⟩ := read.whole room isData fun taken member =>
              (entries _ member).2
            obtain ⟨_, _, -, -, last⟩ := read.data isData
            have member := (entries _ (last ▸ List.mem_append_right _ List.mem_cons_self)).1
            obtain ⟨next', ok', -, -, room', handed'⟩ :=
              (handed.restream p.stream.getline.2).readData room isData (placed _ member) holds fits
            cases stepped.symm.trans ok'
            rw [if_pos isData]
            exact ⟨room', handed'⟩
          · rw [if_neg isData, read.other isData]
            exact ⟨room, (handed.restream _).moved _⟩
        obtain ⟨count, stream, upcoming, done⟩ := ih handed'.2 handed'.1 (read.index ▸ left_lt) ok
        rw [read.stream] at stream upcoming
        rw [read.index] at upcoming
        exact ⟨count + 1, stream, upcoming.of_cons index_lt some ⟨read.length, read.type⟩, done⟩

end Lines

theorem getline_of_ne_nil {s : Stream} (some : s.getline.1 ≠ []) :
    s.getline.2.text = s.text ∧ s.pos < s.text.length ∧ s.pos < s.getline.2.pos := by
  rw [Stream.getline] at some ⊢
  split at some
  · exact absurd rfl some
  rename_i good
  rw [if_neg good]
  dsimp only at some ⊢
  have inRest := (List.takeWhile_prefix (· != '\n') (l := s.text.drop s.pos)).length_le
  rw [List.length_drop] at inRest some ⊢
  split_ifs at some ⊢ <;>
  · have positive := List.length_pos_iff.mpr some
    dsimp only at positive ⊢
    exact ⟨rfl, by omega, by omega⟩

/-- There are no more lines than characters. -/
theorem count_le {s : Stream} {count : Nat}
    (readable : ∀ line ∈ s.lines count, (dataLen line).isSome) :
    count ≤ s.text.length - s.pos := by
  induction count generalizing s with
  | zero => exact Nat.zero_le _
  | succ count ih =>
      have some : s.getline.1 ≠ [] := by
        intro empty
        have := readable _ List.mem_cons_self
        rw [empty] at this
        cases this
      obtain ⟨text, inText, further⟩ := getline_of_ne_nil some
      have rest := ih fun line member => readable line (List.mem_cons_of_mem _ member)
      rw [text] at rest
      omega

/-- What the parse loop sees to in all records. -/
structure Sane (record : ElaRecord) : Prop where
  count_lt : record.dataCount < 2 ^ 32
  placed : ∀ line ∈ record.counted, (address line).isSome

section Record

variable {record : ElaRecord} {sectors : Nat} {p after : Pass} {s : Stream} {count : Nat}

theorem seek_text (record : ElaRecord) (s : Stream) : (record.seek s).text = s.text := by
  simp only [ElaRecord.seek, Stream.tellg, Stream.seekg]
  split <;> split
  · rfl
  · split <;> rfl
  · rfl
  · split <;> rfl

theorem Handed.begin (record : ElaRecord) (sectors : Nat) (s : Stream) :
    Handed record sectors [] (.begin record s) :=
  ⟨rfl, rfl, rfl, rfl, fun some => absurd rfl some, nofun, fun _ _ _ same => by simp at same⟩

theorem Handed.rest (handed : Handed record sectors record.counted p)
    (room : p.page.length < writeDataSize) (sane : Sane record) :
    ∃ after, p.rest record sectors = .ok after ∧ after.stream = p.stream ∧
      HandsOver record sectors after.work := by
  rw [Pass.rest]
  by_cases empty : p.page = []
  · rw [if_pos empty]
    exact ⟨p, rfl, rfl, handed.lines, handed.paged.whole empty⟩
  rw [if_neg empty]
  have member := handed.prev empty
  obtain ⟨place, hasPlace⟩ := Option.isSome_iff_exists.mp (sane.placed _ member)
  obtain ⟨bytes, holds⟩ := Option.isSome_iff_exists.mp (handed.whole _ member)
  rw [hasPlace, orStop_some_bind, (dataLen_of_lineBytes holds).1, orStop_some_bind]
  exact ⟨_, rfl, rfl, (linesOf_call _ _).trans handed.lines, handed.paged.last room empty⟩

theorem Pass.rest_read (ok : p.rest record sectors = .ok after) :
    after.stream = p.stream ∧ linesOf after.work = linesOf p.work := by
  rw [Pass.rest] at ok
  split at ok
  · cases ok
    exact ⟨rfl, rfl⟩
  · obtain ⟨_, -, ok⟩ := bind_ok ok
    obtain ⟨_, -, ok⟩ := bind_ok ok
    cases ok
    exact ⟨rfl, linesOf_call _ _⟩

/-- A stream that feeds the second pass lets it do what it has to do. -/
theorem Feeds.wholeRecord (feeds : Feeds s record count) (sane : Sane record) (sectors : Nat) :
    ∃ after, Pass.wholeRecord record sectors s = .ok after ∧
      after.stream = (record.seek s).behind count ∧
      HandsOver record sectors after.work := by
  have enough : count < s.text.length + 3 := by
    have := count_le fun line member => (feeds.readable line member).1
    rw [seek_text] at this
    omega
  obtain ⟨middle, ran, stream, room, handed⟩ := (Handed.begin record sectors s).lines_ok sane.placed
    (Nat.zero_lt_succ _) sane.count_lt ⟨feeds.readable, feeds.sum, feeds.data⟩
      feeds.whole feeds.inPages enough
  obtain ⟨after, last, sameStream, handsOver⟩ := handed.rest room sane
  refine ⟨after, ?_, sameStream.trans stream, handsOver⟩
  rw [Pass.wholeRecord, if_neg (Int.not_le.mpr feeds.before), ran]
  exact last

/-- If the second pass has done what it has to do, the stream has fed it. -/
theorem feeds_of_wholeRecord (ok : Pass.wholeRecord record sectors s = .ok after)
    (handsOver : HandsOver record sectors after.work) (sane : Sane record) :
    ∃ count, Feeds s record count ∧ after.stream = (record.seek s).behind count := by
  rw [Pass.wholeRecord] at ok
  split at ok
  · cases ok
  rename_i before
  obtain ⟨middle, ran, last⟩ := bind_ok ok
  obtain ⟨sameStream, sameLines⟩ := Pass.rest_read last
  obtain ⟨count, stream, upcoming, -, handed⟩ :=
    (Handed.begin record sectors s).of_lines_ok sane.placed
    (Nat.zero_lt_succ _) sane.count_lt ran (sameLines.symm.trans handsOver.lines)
  exact ⟨count, ⟨Int.not_le.mp before, upcoming.readable, upcoming.sum, upcoming.data, handed.whole,
    handed.inPages⟩, sameStream.trans stream⟩

end Record

theorem Parse.place_kept {record placed : ElaRecord} {address : Nat}
    (ok : Parse.place record address = .ok placed) :
    placed.dataCount = record.dataCount ∧ placed.counted = record.counted := by
  rw [Parse.place] at ok
  split_ifs at ok <;> cases ok <;> exact ⟨rfl, rfl⟩

theorem Sane.counted {record placed : ElaRecord} {line : List Char} {length place : Nat}
    (sane : Sane record) (hasPlace : address line = some place)
    (ok : Parse.place record place = .ok placed) :
    Sane { placed with
      dataCount := u32 (placed.dataCount + length)
      endAddress := u32 (placed.endAddress + length)
      counted := placed.counted ++ [line] } := by
  refine ⟨Nat.mod_lt _ (Nat.two_pow_pos 32), fun other member => ?_⟩
  rw [(Parse.place_kept ok).2] at member
  rcases List.mem_append.mp member with before | last
  · exact sane.placed other before
  · rw [List.mem_singleton.mp last, hasPlace]
    rfl

/-- The record that is being counted and those that have been are sane. -/
structure Parse.AllSane (p : Parse) : Prop where
  record : Sane p.record
  recordList : ∀ record ∈ p.recordList, Sane record

theorem Parse.AllSane.push {p : Parse} (sane : p.AllSane) :
    ∀ record ∈ p.recordList ++ [p.record], Sane record := by
  intro record member
  rcases List.mem_append.mp member with before | last
  · exact sane.recordList record before
  · rw [List.mem_singleton.mp last]
    exact sane.record

theorem Parse.AllSane.data {p next : Parse} {line : List Char} {length place : Nat}
    (sane : p.AllSane) (hasPlace : address line = some place)
    (ok : p.data line length place = .ok next) : next.AllSane := by
  obtain ⟨-, record, placed, rfl⟩ := Parse.data_ok ok
  exact ⟨sane.record.counted hasPlace placed, sane.recordList⟩

theorem Parse.AllSane.endOfFile {p : Parse} (sane : p.AllSane) : p.endOfFile.AllSane := by
  rw [Parse.endOfFile]
  split
  · exact sane
  · exact ⟨sane.record, sane.push⟩

theorem Parse.AllSane.extendedAddress {p next : Parse} {line : List Char} {length place : Nat}
    (sane : p.AllSane) (ok : p.extendedAddress line length place = .ok next) : next.AllSane := by
  obtain ⟨newAddress, value, -, -, rfl⟩ := Parse.extendedAddress_ok ok
  refine ⟨⟨Nat.two_pow_pos 32, nofun⟩, ?_⟩
  dsimp only
  split
  · exact sane.recordList
  · exact sane.push

theorem Parse.AllSane.line {p next : Parse} {text : List Char} (sane : p.AllSane)
    (ok : p.line text = .ok next) : next.AllSane := by
  rcases Parse.line_ok ok with ⟨-, rfl⟩ | ⟨-, _, _, _, -, hasPlace, -, typed⟩
  · exact sane
  rcases typed with ⟨-, data⟩ | ⟨-, rfl⟩ | ⟨-, begun⟩ | ⟨-, -, -, rfl⟩
  · exact sane.data hasPlace data
  · exact sane.endOfFile
  · exact sane.extendedAddress begun
  · exact sane

theorem Parse.AllSane.loop {rounds : Nat} {p final : Parse} (sane : p.AllSane)
    (ok : Parse.loop rounds p = .ok final) : final.AllSane := by
  induction rounds generalizing p with
  | zero => cases ok
  | succ rounds ih =>
      rw [Parse.loop] at ok
      split at ok
      · cases ok
        exact sane
      have here : Parse.AllSane { p with stream := p.stream.getline.2 } :=
        ⟨sane.record, sane.recordList⟩
      cases read : Parse.line { p with stream := p.stream.getline.2 } p.stream.getline.1 with
      | error stop =>
          simp only [read] at ok
          cases ok
      | ok next =>
          simp only [read] at ok
          exact ih (here.line read) ok

/-- In a text that has been accepted, all records are sane. -/
theorem Parse.file_sane {text : List Char} {p : Parse} (accepted : Parse.file text = .ok p) :
    ∀ record ∈ p.recordList, Sane record := by
  have begins : (Parse.start text).AllSane := ⟨⟨Nat.two_pow_pos 32, nofun⟩, nofun⟩
  exact (begins.loop accepted).recordList

/-! ## The flasher -/

section Flasher

variable {env : Env} {start : Chips} {w : Flasher} {record : ElaRecord} {count : Nat} {s : Stream}

/-- What the loop of `programXSpi` does before a record. -/
theorem readyForRecord_worked {fails : Prop} (reliable : fails ∨ env.Calm)
    (selectable : Selectable fails w) (ready : Ready start w) :
    Triple (fun current => current = w) (do failing .flash .einval (isFlashReady env); clearBuffers)
      (fun _ w₁ => Worked start [] w w₁ ∧ w₁.stream = w.stream) fun stop _ =>
        stop = .einval ∧ fails := by
  have polled := isFlashReady_worked reliable (Worked.refl ready) selectable
  refine Triple.bind _ (failing_stops .einval polled) fun _ => Triple.modify ?_
  exact fun _ holds => ⟨holds.1.congr rfl rfl rfl rfl rfl rfl, holds.2⟩

theorem Feeds.recordAgrees (feeds : Feeds w.stream record count) (sane : Sane record)
    (ready : Ready start w) : RecordAgrees env record w ∧
      ∀ w₂, programRecord env record w = .ok () w₂ →
        Ready start w₂ ∧ w₂.stream = (record.seek w.stream).behind count := by
  obtain ⟨p, ran, stream, handsOver⟩ := feeds.wholeRecord sane w.maxNumSectors
  have follows := programRecord_follows (.inl trivial : True ∨ env.Calm) (.inl trivial) record
    ready
  rw [RecordAgrees]
  cases result : programRecord env record w with
  | ok value after =>
      obtain ⟨p', ran', worked, sameStream⟩ := follows.of_ok rfl result
      cases ran.symm.trans ran'
      refine ⟨⟨p.work, worked.noted, handsOver⟩, ?_⟩
      rintro _ ⟨⟩
      exact ⟨worked.ready, sameStream.trans stream⟩
  | error stop after =>
      refine ⟨?_, nofun⟩
      rcases follows.of_error rfl result with ⟨failed, -⟩ | ⟨broken, -⟩
      · cases ran.symm.trans failed
      · exact broken

/-- If the flash does what it is asked, agreement on a record means that it is fed. -/
theorem feeds_of_recordAgrees (calm : env.Calm) (sectors : w.maxNumSectors = 16)
    (ready : Ready start w) (sane : Sane record) (agrees : RecordAgrees env record w) :
    ∃ count w₂, Feeds w.stream record count ∧ programRecord env record w = .ok () w₂ ∧
      Ready start w₂ ∧ w₂.maxNumSectors = 16 ∧ w₂.stream = (record.seek w.stream).behind count := by
  have follows := programRecord_follows (.inr calm : False ∨ env.Calm) (.inr sectors) record
    ready
  rw [RecordAgrees] at agrees
  cases result : programRecord env record w with
  | ok value after =>
      rw [result] at agrees
      obtain ⟨p, ran, worked, sameStream⟩ := follows.of_ok rfl result
      obtain ⟨work, noted, handsOver⟩ := agrees
      obtain rfl : work = p.work := List.append_cancel_right (noted.symm.trans worked.noted)
      obtain ⟨count, feeds, stream⟩ := feeds_of_wholeRecord ran handsOver sane
      exact ⟨count, after, feeds, rfl, worked.ready, worked.sectors.trans sectors,
        sameStream.trans stream⟩
  | error stop after =>
      rw [result] at agrees
      rcases follows.of_error rfl result with ⟨-, own⟩ | ⟨-, impossible⟩
      · exact absurd agrees own
      · exact impossible.elim

theorem Consistent.recordsAgree {records : List ElaRecord}
    (consistent : Consistent w.stream records)
    (sane : ∀ record ∈ records, Sane record) (ready : Ready start w) :
    RecordsAgree env records w := by
  induction records generalizing w with
  | nil => trivial
  | cons record rest ih =>
      intro w₁ began
      have prepared := readyForRecord_worked (.inl trivial : True ∨ env.Calm) (.inl trivial)
        ready w rfl
      rw [began] at prepared
      obtain ⟨worked, stream⟩ := prepared
      obtain ⟨count, feeds, others⟩ := consistent
      rw [← stream] at feeds others
      obtain ⟨agrees, after⟩ := feeds.recordAgrees (sane record List.mem_cons_self) worked.ready
      refine ⟨agrees, fun w₂ ran => ?_⟩
      obtain ⟨ready₂, stream₂⟩ := after w₂ ran
      exact ih (stream₂ ▸ others)
        (fun record member => sane record (List.mem_cons_of_mem _ member)) ready₂

theorem consistent_of_recordsAgree {records : List ElaRecord} (calm : env.Calm)
    (sectors : w.maxNumSectors = 16) (ready : Ready start w)
    (sane : ∀ record ∈ records, Sane record)
    (agree : RecordsAgree env records w) : Consistent w.stream records := by
  induction records generalizing w with
  | nil => trivial
  | cons record rest ih =>
      have prepared :=
        readyForRecord_worked (.inr calm : False ∨ env.Calm) (.inr sectors) ready w rfl
      cases began :
        (do failing .flash .einval (isFlashReady env); clearBuffers : FlashM Unit) w with
      | error stop _ =>
          rw [began] at prepared
          exact prepared.2.elim
      | ok value w₁ =>
          rw [began] at prepared
          obtain ⟨worked, stream⟩ := prepared
          obtain ⟨agrees, others⟩ := agree w₁ began
          obtain ⟨count, w₂, feeds, ran, ready₂, sectors₂, stream₂⟩ := feeds_of_recordAgrees calm
            (worked.sectors.trans sectors) worked.ready (sane record List.mem_cons_self) agrees
          rw [stream] at feeds stream₂
          have further := ih sectors₂ ready₂
            (fun record member => sane record (List.mem_cons_of_mem _ member)) (others w₂ ran)
          exact ⟨count, feeds, stream₂ ▸ further⟩

end Flasher

/-- Shifting the addresses of records makes no difference to the lines. -/
theorem consistent_shifted (shift : Nat) {s : Stream} {records : List ElaRecord} :
    Consistent s (records.map (.shifted shift)) ↔ Consistent s records := by
  induction records generalizing s with
  | nil => rfl
  | cons record rest ih =>
      refine exists_congr fun count => and_congr ?_ ih
      exact ⟨fun ⟨before, readable, sum, data, whole, inPages⟩ =>
          ⟨before, readable, sum, data, whole, inPages⟩,
        fun ⟨before, readable, sum, data, whole, inPages⟩ =>
          ⟨before, readable, sum, data, whole, inPages⟩⟩

theorem Env.calm_calm : Env.calm.Calm := ⟨fun _ => ⟨_, rfl, rfl⟩, fun _ => rfl, fun _ => rfl⟩

/-- A flasher that is ready to program, with every sector there is. -/
def Flasher.fresh (stream : Stream) : Flasher :=
  { Flasher.new true with stream := stream, maxNumSectors := 16 }

theorem Flasher.fresh_ready (stream : Stream) : Ready Board.blank.chips (.fresh stream) :=
  ⟨⟨fun _ => rfl, trivial, nofun⟩, fun selected => absurd rfl selected, rfl, Nat.le_refl 16⟩

theorem consistent_of_passesAgree {p : Parse} {text : List Char}
    (accepted : Parse.file text = .ok p)
    (agree : PassesAgree text) : Consistent (p.stream.seekg 0) p.recordList := by
  have sane := Parse.file_sane accepted
  have here := agree p accepted .calm Board.blank.chips (.fresh (p.stream.seekg 0)) 0
    (Flasher.fresh_ready _) rfl
  refine (consistent_shifted 0).mp (consistent_of_recordsAgree Env.calm_calm rfl
    (Flasher.fresh_ready (p.stream.seekg 0)) ?_ here)
  intro record member
  obtain ⟨original, inList, rfl⟩ := List.mem_map.mp member
  exact ⟨(sane original inList).count_lt, (sane original inList).placed⟩

/-- The passes agree on a text exactly if, for each record in turn, the lengths declared from
its position on add up to its data count just behind its data lines, and these can be taken
whole. -/
theorem passes_agree_iff (text : List Char) :
    PassesAgree text ↔
      ∀ p, Parse.file text = .ok p → Consistent (p.stream.seekg 0) p.recordList := by
  constructor
  · exact fun agree p accepted => consistent_of_passesAgree accepted agree
  · intro consistent p accepted env start w shift ready stream
    have sane := Parse.file_sane accepted
    refine Consistent.recordsAgree
      (stream ▸ (consistent_shifted shift).mpr (consistent p accepted)) ?_ ready
    intro record member
    obtain ⟨original, inList, rfl⟩ := List.mem_map.mp member
    exact ⟨(sane original inList).count_lt, (sane original inList).placed⟩

/-- A record of two lines with an empty line between them. -/
def emptyLineFile : List Char :=
  ":020000040000FA\n:02000000AABB99\n\n:02000200CCDD53\n:00000001FF\n".toList

/-- The parse loop skips an empty line, at which the second pass throws. -/
theorem empty_line_stops_second_pass : ¬ PassesAgree emptyLineFile := by
  let record : ElaRecord :=
    ⟨0, 4, 4, 16, [":02000000AABB99".toList, ":02000200CCDD53".toList]⟩
  let p : Parse := ⟨⟨emptyLineFile, 61, false, false⟩, record, "0000".toList, [record], true⟩
  have accepted : Parse.file emptyLineFile = .ok p := by decide
  intro agree
  obtain ⟨count, feeds, -⟩ := consistent_of_passesAgree accepted agree
  match count with
  | 0 => exact absurd feeds.data (by decide)
  | 1 => exact absurd feeds.data (by decide)
  | count + 2 =>
      have empty : ((record.seek (p.stream.seekg 0)).getline.2).getline.1 = [] := by decide
      have := (feeds.readable _ (List.mem_cons_of_mem _ List.mem_cons_self)).1
      rw [empty] at this
      cases this

end OpaeXilinx.Flash
