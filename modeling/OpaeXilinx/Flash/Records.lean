import Mathlib.Data.List.Basic
import OpaeXilinx.Flash.Mcs

/-!
# What the parse loop keeps of a file

A record enters the list only when the next type 04 or type 01 line arrives, and its start
address is moved by the data lines until the first byte has been counted.  The records hold
all data bytes of a file at their addresses exactly if no byte stands before the first type
04 line or behind the end record, the last record is finished or empty, and the lines in
front of a record's first byte leave its start where that byte belongs.
-/

namespace OpaeXilinx.Flash

/-- What a line says. -/
inductive Entry where
  | data (length address : Nat)
  | endOfFile
  | base (address : Nat)
  | other
  deriving DecidableEq, Repr

/-- The number of data bytes of a line. -/
def Entry.length : Entry → Nat
  | .data length _ => length
  | _ => 0

def entry (line : List Char) : Entry :=
  if line.head? ≠ some ':' then .other
  else match dataLen line, address line, recordType line with
    | some length, some address, some type =>
        if type = 0 then .data length address
        else if type = 1 then .endOfFile
        else if type = 4 then
          match (substr line 9 (length * 2)).bind stoi with
          | some value => .base (u32 ((value % 2 ^ 32).toNat * 2 ^ 16))
          | none => .other
        else .other
    | _, _, _ => .other

def entries (text : List Char) : List Entry := (text.splitOn '\n').map entry

/-- Consecutive addresses. -/
def addresses (start count : Nat) : List Nat := (List.range count).map fun i => u32 (start + i)

/-- The addresses of the data bytes of a file in their order: the base of the last type 04
line, the address of the line, and the index in the line. -/
def fileBytes (base : Nat) : List Entry → List Nat
  | [] => []
  | .data length address :: rest => addresses (base + address) length ++ fileBytes base rest
  | .base next :: rest => fileBytes next rest
  | .endOfFile :: rest => fileBytes base rest
  | .other :: rest => fileBytes base rest

/-- The addresses of the bytes that a record holds. -/
def ElaRecord.addresses (record : ElaRecord) : List Nat :=
  Flash.addresses record.startAddress record.dataCount

/-- The records hold the data bytes of the file: one after the other, each byte once, and
each at its address. -/
structure Lossless (text : List Char) (p : Parse) : Prop where
  nonempty : p.recordList ≠ []
  bytes : p.recordList.flatMap ElaRecord.addresses = fileBytes 0 (entries text)
  ends : ∀ record ∈ p.recordList,
    record.endAddress = u32 (record.startAddress + record.dataCount)

/-- Where the loop is in a file. -/
inductive Phase where
  /-- No record has been started. -/
  | outside
  /-- The record has no byte yet, and its data lines have moved its start so far. -/
  | leading (finished : Bool) (moved : Nat)
  /-- The record has bytes; the address of its first one was, or was not, a negative number. -/
  | inside (negative : Bool)
  deriving DecidableEq, Repr

/-- How far a data line moves the start of a record without bytes. -/
def move (moved address : Nat) : Nat :=
  if address = moved % 2 ^ 16 then moved else u32 (moved + address)

/-- Nothing of the lines is lost, nor put elsewhere. -/
def Kept : Phase → List Entry → Prop
  | .outside, [] => False
  | .leading finished _, [] => finished = true
  | .inside _, [] => False
  | phase, .other :: rest => Kept phase rest
  | .outside, .endOfFile :: rest => Kept .outside rest
  | .outside, .base _ :: rest => Kept (.leading false 0) rest
  | .outside, .data length _ :: rest => length = 0 ∧ Kept .outside rest
  | _, .endOfFile :: rest => ∀ entry ∈ rest, entry.length = 0
  | _, .base _ :: rest => Kept (.leading true 0) rest
  | .leading finished moved, .data length address :: rest =>
      if length = 0 then Kept (.leading finished (move moved address)) rest
      else (moved = 0 ∨ moved = address ∧ address < 2 ^ 16) ∧
        Kept (.inside (decide (2 ^ 16 ≤ address))) rest
  | .inside negative, .data length _ :: rest =>
      (negative = true → length = 0) ∧ Kept (.inside negative) rest

/-- The lines that a stream still has. -/
def Stream.ahead (s : Stream) : List (List Char) :=
  if s.eofbit then [] else (s.text.drop s.pos).splitOn '\n'

/-- Only the end of the file lets a read fail. -/
def Stream.Sound (s : Stream) : Prop := s.eofbit = false → s.failbit = false

/-- The parse loop over the lines of its stream. -/
def Parse.lines : List (List Char) → Parse → Except Stop Parse
  | [], p => .ok p
  | text :: rest, p =>
      if p.endRecordFound then .ok p
      else match Parse.line { p with stream := p.stream.getline.2 } text with
        | .error stop => .error stop
        | .ok next => Parse.lines rest next

theorem splitOn_newline (text : List Char) :
    text.splitOn '\n' = text.takeWhile (· != '\n') ::
      if (text.takeWhile (· != '\n')).length < text.length then
        (text.drop ((text.takeWhile (· != '\n')).length + 1)).splitOn '\n'
      else [] := by
  induction text with
  | nil => rfl
  | cons c rest ih =>
      rw [List.splitOn_cons_eq_if_modifyHead]
      by_cases newline : c = '\n'
      · simp [newline]
      · have head : (c != '\n') = true := by simpa using newline
        have other : (c == '\n') = false := by simpa using newline
        simp only [other, ih, List.takeWhile_cons, head, if_true]
        simp

theorem Stream.ahead_getline {s : Stream} (sound : s.Sound) (more : s.eofbit = false) :
    s.ahead = s.getline.1 :: s.getline.2.ahead ∧ s.getline.2.Sound := by
  have free := sound more
  rw [ahead, more, splitOn_newline, getline, more, free]
  simp only [Bool.or_self, Bool.false_eq_true, if_false]
  split
  · refine ⟨?_, fun _ => rfl⟩
    rw [ahead, List.drop_drop, Nat.add_assoc]
    rfl
  · exact ⟨rfl, nofun⟩

/-- `tellg` takes no line. -/
theorem Stream.ahead_tellg {s : Stream} (sound : s.Sound) :
    s.tellg.2.ahead = s.ahead ∧ s.tellg.2.Sound := by
  rw [tellg]
  split
  next met =>
    cases ended : s.eofbit with
    | true => exact ⟨by simp [ahead, ended], nofun⟩
    | false =>
        rw [ended, sound ended] at met
        cases met
  next => exact ⟨rfl, sound⟩

/-- A line leaves the lines behind it. -/
theorem Parse.line_ahead {p next : Parse} {text : List Char} (sound : p.stream.Sound)
    (ok : p.line text = .ok next) : next.stream.ahead = p.stream.ahead ∧ next.stream.Sound := by
  rcases Parse.line_ok ok with ⟨-, rfl⟩ | ⟨-, _, _, _, -, -, -, typed⟩
  · exact ⟨rfl, sound⟩
  rcases typed with ⟨-, data⟩ | ⟨-, rfl⟩ | ⟨-, begun⟩ | ⟨-, -, -, rfl⟩
  · obtain ⟨-, record, -, rfl⟩ := Parse.data_ok data
    exact ⟨rfl, sound⟩
  · rw [Parse.endOfFile]
    split <;> exact ⟨rfl, sound⟩
  · obtain ⟨newAddress, value, -, -, rfl⟩ := Parse.extendedAddress_ok begun
    exact Stream.ahead_tellg sound
  · exact ⟨rfl, sound⟩

theorem Parse.loop_eq {rounds : Nat} {p : Parse} (sound : p.stream.Sound)
    (enough : p.stream.ahead.length < rounds) :
    Parse.loop rounds p = Parse.lines p.stream.ahead p := by
  induction rounds generalizing p with
  | zero => exact absurd enough (Nat.not_lt_zero _)
  | succ rounds ih =>
      rw [Parse.loop]
      cases ended : p.stream.eofbit with
      | true => simp [Stream.ahead, ended, Parse.lines]
      | false =>
          obtain ⟨ahead, sound'⟩ := Stream.ahead_getline sound ended
          rw [ahead] at enough ⊢
          rw [Parse.lines, Bool.false_or]
          split
          · rfl
          cases read : Parse.line { p with stream := p.stream.getline.2 } p.stream.getline.1 with
          | error stop => simp only [read]
          | ok next =>
              obtain ⟨same, soundNext⟩ := Parse.line_ahead sound' read
              simp only [read]
              rw [← same] at enough ⊢
              exact ih soundNext (Nat.lt_of_succ_lt_succ enough)

theorem length_splitOn_le (text : List Char) : (text.splitOn '\n').length ≤ text.length + 1 := by
  induction text with
  | nil => exact Nat.le_refl 1
  | cons c rest ih =>
      rw [List.splitOn_cons_eq_if_modifyHead]
      split
      · exact Nat.succ_le_succ ih
      · rw [List.length_modifyHead]
        exact Nat.le_succ_of_le ih

/-- The parse loop over a file ends, and goes over its lines. -/
theorem Parse.file_eq (text : List Char) :
    Parse.file text = Parse.lines (text.splitOn '\n') (.start text) :=
  Parse.loop_eq (fun _ => rfl) (Nat.lt_succ_of_le (length_splitOn_le text))

/-- A data line has been counted. -/
structure Counted (p : Parse) (length address : Nat) (next : Parse) : Prop where
  short : length ≤ 16
  recordList : next.recordList = p.recordList
  started : next.startAddress = p.startAddress
  running : next.endRecordFound = p.endRecordFound
  count : next.record.dataCount = u32 (p.record.dataCount + length)
  place : (address = u32 (p.record.dataCount + p.record.startAddress % 2 ^ 16) ∧
      next.record.startAddress = p.record.startAddress ∧
      next.record.endAddress = u32 (p.record.endAddress + length)) ∨
    (address ≠ u32 (p.record.dataCount + p.record.startAddress % 2 ^ 16) ∧
      p.record.dataCount = 0 ∧
      next.record.startAddress = u32 (p.record.startAddress + address) ∧
      next.record.endAddress = u32 (u32 (p.record.endAddress + address) + length))

/-- A new record has been started. -/
structure Begun (p : Parse) (base : Nat) (next : Parse) : Prop where
  recordList : next.recordList =
    if p.startAddress.isEmpty then p.recordList else p.recordList ++ [p.record]
  started : next.startAddress ≠ []
  running : next.endRecordFound = p.endRecordFound
  count : next.record.dataCount = 0
  start : next.record.startAddress = base
  ends : next.record.endAddress = base
  aligned : base % 2 ^ 16 = 0
  base_lt : base < 2 ^ 32

/-- Nothing but the stream has changed. -/
structure Skipped (p next : Parse) : Prop where
  record : next.record = p.record
  recordList : next.recordList = p.recordList
  started : next.startAddress = p.startAddress
  running : next.endRecordFound = p.endRecordFound

/-- How a line changes the variables of the loop. -/
def Step (p next : Parse) : Entry → Prop
  | .data length address => Counted p length address next ∧
      (address < 2 ^ 16 ∨ 2 ^ 32 - 2 ^ 12 < address ∧ address < 2 ^ 32)
  | .base base => Begun p base next
  | .endOfFile => p.startAddress = [] ∧ Skipped p next ∨
      p.startAddress ≠ [] ∧ next.recordList = p.recordList ++ [p.record] ∧
        next.endRecordFound = true
  | .other => Skipped p next

theorem Parse.data_counted {p next : Parse} {line : List Char} {length address : Nat}
    (ok : p.data line length address = .ok next) : Counted p length address next := by
  obtain ⟨short, record, found, rfl⟩ := Parse.data_ok ok
  rw [Parse.place] at found
  split at found
  next follows =>
    cases found
    exact ⟨short, rfl, rfl, rfl, rfl, .inl ⟨follows, rfl, rfl⟩⟩
  next apart =>
    split at found
    next first =>
      split at found
      · cases found
      cases found
      exact ⟨short, rfl, rfl, rfl, rfl, .inr ⟨apart, first, rfl, rfl⟩⟩
    next => cases found

/-- A type 04 line starts a record on a 64 KB boundary. -/
theorem Parse.extendedAddress_begun {p next : Parse} {text : List Char} {length place : Nat}
    (ok : p.extendedAddress text length place = .ok next) :
    ∃ value, (substr text 9 (length * 2)).bind stoi = some value ∧
      Begun p (u32 ((value % 2 ^ 32).toNat * 2 ^ 16)) next := by
  obtain ⟨newAddress, value, found, read, rfl⟩ := Parse.extendedAddress_ok ok
  have aligned : u32 ((value % 2 ^ 32).toNat * 2 ^ 16) % 2 ^ 16 = 0 := by
    rw [u32]
    omega
  have digits : newAddress ≠ [] := by
    rintro rfl
    cases read
  refine ⟨value, by rw [found, Option.bind_some, read], rfl, digits, rfl, rfl, rfl, rfl, aligned, ?_⟩
  exact Nat.mod_lt _ (Nat.two_pow_pos 32)

/-- A line does what its entry says. -/
theorem Parse.line_cases {p next : Parse} {text : List Char} (ok : p.line text = .ok next) :
    match entry text with
    | .data length place => Counted p length place next ∧ address text = some place
    | .endOfFile => next = p.endOfFile
    | .base start => Begun p start next
    | .other => next = p := by
  rcases Parse.line_ok ok with ⟨rfl, rfl⟩ | ⟨marked, length, place, type, hasLength, hasPlace,
    hasType, typed⟩
  · rfl
  rw [entry, if_neg (not_not.mpr marked), hasLength, hasPlace, hasType]
  rcases typed with ⟨rfl, data⟩ | ⟨rfl, rfl⟩ | ⟨rfl, begun⟩ | ⟨notData, notDone, notLinear, rfl⟩
  · exact ⟨Parse.data_counted data, rfl⟩
  · rfl
  · obtain ⟨value, read, begun⟩ := Parse.extendedAddress_begun begun
    simpa [read] using begun
  · simp [notData, notDone, notLinear]

theorem hexDigit_lt {c : Char} {digit : Nat} (read : hexDigit c = some digit) : digit < 16 := by
  rw [hexDigit] at read
  have value (c : Char) : c.toNat = c.val.toNat := rfl
  split at read
  next range =>
    have last : c.val.toNat ≤ 57 := range.2
    cases read
    rw [value]
    omega
  next =>
    split at read
    next range =>
      have last : c.val.toNat ≤ 102 := range.2
      cases read
      rw [value]
      omega
    next =>
      split at read
      next range =>
        have last : c.val.toNat ≤ 70 := range.2
        cases read
        rw [value]
        omega
      next => cases read

theorem hexDigits_lt (text : List Char) :
    (hexDigits text).length ≤ text.length ∧ ∀ digit ∈ hexDigits text, digit < 16 := by
  induction text with
  | nil => exact ⟨Nat.le_refl 0, nofun⟩
  | cons c rest ih =>
      rw [hexDigits]
      cases read : hexDigit c with
      | none => exact ⟨Nat.zero_le _, nofun⟩
      | some digit =>
          refine ⟨Nat.succ_le_succ ih.1, ?_⟩
          intro other member
          rcases List.mem_cons.mp member with rfl | tail
          · exact hexDigit_lt read
          · exact ih.2 other tail

theorem number_lt {digits : List Nat} (small : ∀ digit ∈ digits, digit < 16) (value : Nat) :
    digits.foldl (fun value digit => 16 * value + digit)
      value < (value + 1) * 16 ^ digits.length := by
  induction digits generalizing value with
  | nil => simp
  | cons digit rest ih =>
      have head := small digit List.mem_cons_self
      apply Nat.lt_of_lt_of_le
        (ih (fun other member => small other (List.mem_cons_of_mem _ member)) _)
      rw [List.length_cons, Nat.pow_succ, Nat.mul_comm _ 16, ← Nat.mul_assoc]
      apply Nat.mul_le_mul_right
      dsimp only
      omega

theorem length_skipHexMark (text : List Char) : (skipHexMark text).length ≤ text.length := by
  rw [skipHexMark.eq_def]
  split
  · split
    · simp only [List.length_cons]
      omega
    · exact Nat.le_refl _
  · exact Nat.le_refl _

theorem length_splitSign {text rest : List Char} {negative : Bool}
    (split : splitSign text = (negative, rest)) :
    rest.length ≤ text.length ∧ (negative = true → rest.length < text.length) := by
  rw [splitSign.eq_def] at split
  split at split <;> cases split
  · exact ⟨Nat.le_succ _, fun _ => Nat.lt_succ_self _⟩
  · exact ⟨Nat.le_succ _, nofun⟩
  · exact ⟨Nat.le_refl _, nofun⟩

/-- A number of four characters has four digits, or a sign and three. -/
theorem stoi_bounds {text : List Char} {value : Int} (short : text.length ≤ 4)
    (read : stoi text = some value) : -16 ^ 3 < value ∧ value < 16 ^ 4 := by
  have trimmed : (text.dropWhile isSpace).length ≤ 4 :=
    Nat.le_trans (List.dropWhile_sublist _).length_le short
  have magnitude (rest : List Char) :
      (hexDigits (skipHexMark rest)).foldl (fun value digit => 16 * value + digit) 0 <
        16 ^ rest.length := by
    obtain ⟨length, small⟩ := hexDigits_lt (skipHexMark rest)
    have bound := number_lt small 0
    rw [Nat.zero_add, Nat.one_mul] at bound
    apply Nat.lt_of_lt_of_le bound
    exact Nat.pow_le_pow_right (by decide) (Nat.le_trans length (length_skipHexMark rest))
  rw [stoi] at read
  cases sign : splitSign (text.dropWhile isSpace) with
  | mk negative rest =>
      rw [sign] at read
      have signed := length_splitSign sign
      have bound := magnitude rest
      have below : 16 ^ rest.length ≤ 16 ^ 4 := Nat.pow_le_pow_right (by decide) (by omega)
      have negativeBelow (minus : negative = true) : 16 ^ rest.length ≤ 16 ^ 3 := by
        apply Nat.pow_le_pow_right (by decide)
        have := signed.2 minus
        omega
      cases negative with
      | true =>
          have small := negativeBelow rfl
          simp only [if_true] at read
          split at read
          · cases read
          split at read
          · cases read
          cases read
          omega
      | false =>
          simp only [Bool.false_eq_true, if_false] at read
          split at read
          · cases read
          split at read
          · cases read
          cases read
          omega

theorem address_bounds {line : List Char} {place : Nat} (read : address line = some place) :
    place < 2 ^ 16 ∨ 2 ^ 32 - 2 ^ 12 < place ∧ place < 2 ^ 32 := by
  rw [address, field, Option.map_eq_some_iff] at read
  obtain ⟨value, found, rfl⟩ := read
  rw [Option.bind_eq_some_iff] at found
  obtain ⟨text, inLine, number⟩ := found
  have short : text.length ≤ 4 := by
    rw [substr] at inLine
    split at inLine
    · cases inLine
      exact List.length_take_le _ _
    · cases inLine
  obtain ⟨low, high⟩ := stoi_bounds short number
  omega

/-! ## Runs of the loop -/

section Runs

variable {p final : Parse} {rest : List (List Char)} {base : Nat}

theorem Parse.lines_step {text : List Char} (running : p.endRecordFound = false)
    (ok : Parse.lines (text :: rest) p = .ok final) :
    ∃ next, Step p next (entry text) ∧ Parse.lines rest next = .ok final := by
  rw [Parse.lines, if_neg (by simp [running])] at ok
  split at ok
  · cases ok
  rename_i next read
  refine ⟨next, ?_, ok⟩
  have cases := Parse.line_cases read
  cases kind : entry text with
  | data length place =>
      rw [kind] at cases
      obtain ⟨counted, hasPlace⟩ := cases
      exact ⟨⟨counted.short, counted.recordList, counted.started, counted.running, counted.count,
        counted.place⟩, address_bounds hasPlace⟩
  | base start =>
      rw [kind] at cases
      have begun := cases
      exact ⟨begun.recordList, begun.started, begun.running, begun.count, begun.start, begun.ends,
        begun.aligned, begun.base_lt⟩
  | endOfFile =>
      rw [kind] at cases
      simp only [Parse.endOfFile] at cases
      split at cases
      next empty =>
        subst cases
        exact .inl ⟨List.isEmpty_iff.mp empty, rfl, rfl, rfl, rfl⟩
      next some =>
        subst cases
        exact .inr ⟨fun empty => some (List.isEmpty_iff.mpr empty), rfl, rfl⟩
  | other =>
      rw [kind] at cases
      subst cases
      exact ⟨rfl, rfl, rfl, rfl⟩

theorem Parse.lines_ended (ended : p.endRecordFound = true) (rest : List (List Char)) :
    Parse.lines rest p = .ok p := by
  cases rest with
  | nil => rfl
  | cons text rest => rw [Parse.lines, if_pos ended]

theorem length_addresses (start count : Nat) : (addresses start count).length = count := by
  rw [addresses, List.length_map, List.length_range]

/-- The number of bytes that have been counted into a record. -/
def Parse.pending (p : Parse) : Nat := if p.startAddress = [] then 0 else p.record.dataCount

theorem Skipped.pending {next : Parse} (skipped : Skipped p next) : next.pending = p.pending := by
  rw [Parse.pending, Parse.pending, skipped.started, skipped.record]

theorem Counted.pending {next : Parse} {length address : Nat}
    (counted : Counted p length address next) : next.pending ≤ p.pending + length := by
  rw [Parse.pending, Parse.pending, counted.started, counted.count]
  split
  · exact Nat.zero_le _
  · exact Nat.mod_le _ _

/-- The records hold no more bytes than the file has. -/
theorem Parse.lines_few (base : Nat) (ok : Parse.lines rest p = .ok final) :
    ∃ added, final.recordList = p.recordList ++ added ∧
      (added.flatMap ElaRecord.addresses).length ≤
        p.pending + (fileBytes base (rest.map entry)).length := by
  induction rest generalizing p base with
  | nil =>
      cases ok
      exact ⟨[], (List.append_nil _).symm, Nat.zero_le _⟩
  | cons text rest ih =>
      cases running : p.endRecordFound with
      | true =>
          rw [Parse.lines_ended running] at ok
          cases ok
          exact ⟨[], (List.append_nil _).symm, Nat.zero_le _⟩
      | false =>
          obtain ⟨next, step, ok⟩ := Parse.lines_step running ok
          rw [List.map_cons]
          cases kind : entry text with
          | data length address =>
              rw [kind] at step
              obtain ⟨added, records, few⟩ := ih base ok
              refine ⟨added, step.1.recordList ▸ records, ?_⟩
              have counted := step.1.pending
              rw [fileBytes, List.length_append, length_addresses]
              omega
          | base start =>
              rw [kind] at step
              obtain ⟨added, records, few⟩ := ih start ok
              have fresh : next.pending = 0 := by
                rw [Parse.pending, if_neg step.started, step.count]
              rw [fresh] at few
              rw [step.recordList] at records
              rw [fileBytes]
              cases started : p.startAddress with
              | nil =>
                  rw [started] at records
                  exact ⟨added, records, by omega⟩
              | cons c more =>
                  rw [started] at records
                  refine ⟨p.record :: added, records.trans (List.append_assoc _ _ _), ?_⟩
                  rw [List.flatMap_cons, List.length_append, ElaRecord.addresses, length_addresses,
                    Parse.pending, if_neg (by simp [started])]
                  omega
          | endOfFile =>
              rw [kind] at step
              rw [fileBytes]
              rcases step with ⟨-, skipped⟩ | ⟨started, records, ended⟩
              · obtain ⟨added, records, few⟩ := ih base ok
                exact ⟨added, skipped.recordList ▸ records, skipped.pending ▸ few⟩
              · rw [Parse.lines_ended ended] at ok
                cases ok
                refine ⟨[p.record], records, ?_⟩
                rw [List.flatMap_singleton, ElaRecord.addresses, length_addresses, Parse.pending,
                  if_neg started]
                exact Nat.le_add_right _ _
          | other =>
              rw [kind] at step
              obtain ⟨added, records, few⟩ := ih base ok
              rw [fileBytes]
              exact ⟨added, step.recordList ▸ records, step.pending ▸ few⟩

/-- The bytes of a record end where a line that starts in its 64 KB can end. -/
structure Inside (record : ElaRecord) : Prop where
  positive : 0 < record.dataCount
  bound : record.dataCount + record.startAddress % 2 ^ 16 ≤ 2 ^ 16 + 15

/-- A further line of a record follows on. -/
theorem Counted.inside {next : Parse} {length address : Nat}
    (counted : Counted p length address next)
    (place : address < 2 ^ 16 ∨ 2 ^ 32 - 2 ^ 12 < address ∧ address < 2 ^ 32)
    (inside : Inside p.record) :
    next.record.startAddress = p.record.startAddress ∧
      next.record.dataCount = p.record.dataCount + length ∧
      address = p.record.dataCount + p.record.startAddress % 2 ^ 16 ∧ Inside next.record := by
  have positive := inside.positive
  have bound := inside.bound
  have short := counted.short
  rcases counted.place with ⟨follows, start, -⟩ | ⟨-, none, -⟩
  · have exactly : address = p.record.dataCount + p.record.startAddress % 2 ^ 16 := by
      rw [follows, u32]
      omega
    have count : next.record.dataCount = p.record.dataCount + length := by
      rw [counted.count, u32]
      omega
    refine ⟨start, count, exactly, ?_, ?_⟩
    · rw [count]
      exact Nat.lt_of_lt_of_le positive (Nat.le_add_right _ _)
    · rw [count, start]
      omega
  · omega

theorem first_of_cons (record : ElaRecord) (more : List ElaRecord) :
    ∀ first ∈ (record :: more).head?,
      first.startAddress = record.startAddress ∧ record.dataCount ≤ first.dataCount := by
  rintro first ⟨⟩
  exact ⟨rfl, Nat.le_refl _⟩

/-- Once a record has bytes, it goes into the list with its start and no fewer bytes. -/
theorem Parse.lines_first (started : p.startAddress ≠ []) (inside : Inside p.record)
    (ok : Parse.lines rest p = .ok final) :
    ∃ added, final.recordList = p.recordList ++ added ∧ ∀ record ∈ added.head?,
      record.startAddress = p.record.startAddress ∧ p.record.dataCount ≤ record.dataCount := by
  induction rest generalizing p with
  | nil =>
      cases ok
      exact ⟨[], (List.append_nil _).symm, nofun⟩
  | cons text rest ih =>
      cases running : p.endRecordFound with
      | true =>
          rw [Parse.lines_ended running] at ok
          cases ok
          exact ⟨[], (List.append_nil _).symm, nofun⟩
      | false =>
          obtain ⟨next, step, ok⟩ := Parse.lines_step running ok
          cases kind : entry text with
          | data length address =>
              rw [kind] at step
              obtain ⟨counted, place⟩ := step
              obtain ⟨start, count, -, inside'⟩ := counted.inside place inside
              obtain ⟨added, records, first⟩ := ih (counted.started.symm ▸ started) inside' ok
              refine ⟨added, counted.recordList ▸ records, ?_⟩
              intro record member
              obtain ⟨same, more⟩ := first record member
              rw [start] at same
              rw [count] at more
              exact ⟨same, Nat.le_of_add_right_le more⟩
          | base start =>
              rw [kind] at step
              obtain ⟨added, records, -⟩ := Parse.lines_few 0 ok
              rw [step.recordList, if_neg (by simpa using started)] at records
              exact ⟨p.record :: added, records.trans (List.append_assoc _ _ _), first_of_cons _ _⟩
          | endOfFile =>
              rw [kind] at step
              rcases step with ⟨none, -⟩ | ⟨-, records, ended⟩
              · exact absurd none started
              · rw [Parse.lines_ended ended] at ok
                cases ok
                exact ⟨[p.record], records, first_of_cons _ _⟩
          | other =>
              rw [kind] at step
              obtain ⟨added, records, first⟩ := ih (step.started.symm ▸ started)
                (step.record.symm ▸ inside) ok
              rw [step.record] at first
              exact ⟨added, step.recordList ▸ records, first⟩

theorem addresses_add (start left right : Nat) :
    addresses start (left + right) = addresses start left ++ addresses (start + left) right := by
  simp only [addresses, List.range_add, List.map_append, List.map_map]
  congr 1
  apply List.map_congr_left
  intro i _
  simp only [Function.comp_apply, Nat.add_assoc]

theorem addresses_congr {left right : Nat} (same : left % 2 ^ 32 = right % 2 ^ 32) (count : Nat) :
    addresses left count = addresses right count := by
  apply List.map_congr_left
  intro i _
  rw [u32, u32]
  omega

theorem getElem?_addresses {start count i : Nat} (inside : i < count) :
    (addresses start count)[i]? = some (u32 (start + i)) := by
  rw [addresses, List.getElem?_map, List.getElem?_range inside]
  rfl

/-- The records that the lines add hold the bytes. -/
def Complete (p final : Parse) (bytes : List Nat) : Prop :=
  ∃ added, final.recordList = p.recordList ++ added ∧ final.recordList ≠ [] ∧
    added.flatMap ElaRecord.addresses = bytes

/-- A byte that has been counted elsewhere stays there. -/
theorem Inside.not_complete (inside : Inside p.record) (started : p.startAddress ≠ [])
    (ok : Parse.lines rest p = .ok final) {bytes : List Nat} {i address : Nat}
    (counted : i < p.record.dataCount) (byte : bytes[i]? = some address)
    (elsewhere : address ≠ u32 (p.record.startAddress + i)) : ¬ Complete p final bytes := by
  rintro ⟨added, records, -, complete⟩
  obtain ⟨added', records', first⟩ := Parse.lines_first started inside ok
  obtain rfl : added = added' := List.append_cancel_left (records.symm.trans records')
  cases added with
  | nil =>
      rw [← complete] at byte
      cases byte
  | cons record more =>
      obtain ⟨start, count⟩ := first record rfl
      have longer : i < record.dataCount := Nat.lt_of_lt_of_le counted count
      rw [← complete, List.flatMap_cons, List.getElem?_append_left, ElaRecord.addresses,
        getElem?_addresses longer, start] at byte
      · exact elsewhere (Option.some.inj byte).symm
      · rw [ElaRecord.addresses, length_addresses]
        exact longer

/-- The record agrees with the phase. -/
def Phase.Fits (p : Parse) (base : Nat) : Phase → Prop
  | .outside => False
  | .leading finished moved => (finished = true ↔ p.recordList ≠ []) ∧ p.record.dataCount = 0 ∧
      p.record.startAddress = u32 (base + moved) ∧ moved < 2 ^ 32
  | .inside negative => Inside p.record ∧ ∃ first < 2 ^ 32,
      p.record.startAddress = u32 (base + first) ∧ (negative = true ↔ 2 ^ 16 ≤ first)

theorem fileBytes_eq_nil_iff (base : Nat) {entries : List Entry} :
    fileBytes base entries = [] ↔ ∀ entry ∈ entries, entry.length = 0 := by
  induction entries generalizing base with
  | nil => simp [fileBytes]
  | cons entry entries ih =>
      cases entry with
      | data length address =>
          rw [fileBytes, List.append_eq_nil_iff, ih, List.forall_mem_cons, Entry.length,
            ← List.length_eq_zero_iff, length_addresses]
      | base next | endOfFile | other =>
          rw [fileBytes, ih]
          simp [Entry.length]

theorem Complete.congr {next : Parse} (same : next.recordList = p.recordList)
    (bytes : List Nat) : Complete next final bytes ↔ Complete p final bytes := by
  rw [Complete, Complete, same]

/-- A finished record holds its own bytes. -/
theorem Complete.push {next : Parse} (records : next.recordList = p.recordList ++ [p.record])
    (ok : Parse.lines rest next = .ok final) (bytes : List Nat) :
    Complete p final (p.record.addresses ++ bytes) ↔ Complete next final bytes := by
  obtain ⟨more, extended, -⟩ := Parse.lines_few 0 ok
  have all : final.recordList = p.recordList ++ (p.record :: more) := by
    rw [extended, records, List.append_assoc]
    rfl
  constructor
  · rintro ⟨added, appended, some, complete⟩
    obtain rfl : added = p.record :: more := List.append_cancel_left (appended.symm.trans all)
    rw [List.flatMap_cons] at complete
    exact ⟨more, extended, some, List.append_cancel_left complete⟩
  · rintro ⟨added, appended, some, complete⟩
    obtain rfl : added = more := List.append_cancel_left (appended.symm.trans extended)
    exact ⟨p.record :: added, all, some, by rw [List.flatMap_cons, complete]⟩

theorem Skipped.fits {next : Parse} {phase : Phase} (skipped : Skipped p next)
    (fits : phase.Fits p base) :
    phase.Fits next base := by
  cases phase with
  | outside => exact fits
  | leading finished moved =>
      rw [Phase.Fits, skipped.record, skipped.recordList]
      exact fits
  | inside negative =>
      rw [Phase.Fits, skipped.record]
      exact fits

/-- The data lines of a record without bytes move its start. -/
theorem Counted.moved {next : Parse} {length address moved : Nat}
    (counted : Counted p length address next) (none : p.record.dataCount = 0)
    (start : p.record.startAddress = u32 (base + moved)) (aligned : base % 2 ^ 16 = 0) :
    next.record.dataCount = length ∧
      next.record.startAddress = u32 (base + move moved address) := by
  have short := counted.short
  constructor
  · rw [counted.count, none, u32]
    omega
  · have place := counted.place
    rw [none, start] at place
    rw [move]
    simp only [u32] at place ⊢
    rcases place with ⟨follows, same, -⟩ | ⟨apart, -, shifted, -⟩
    · rw [if_pos (by omega), same]
    · rw [if_neg (by omega), shifted]
      omega

/-- The start is where the first byte belongs. -/
theorem move_iff {moved address : Nat} (moved_lt : moved < 2 ^ 32) (address_lt : address < 2 ^ 32) :
    u32 (base + move moved address) = u32 (base + address) ↔
      moved = 0 ∨ moved = address ∧ address < 2 ^ 16 := by
  rw [move]
  split <;> simp only [u32] <;> omega

theorem addresses_zero (start : Nat) : addresses start 0 = [] := rfl

/-- A data line in front of the first byte, or with it. -/
theorem Counted.complete_leading {next : Parse} {length address moved : Nat} {finished : Bool}
    {later : List Entry} {bytes : List Nat} (counted : Counted p length address next)
    (address_lt : address < 2 ^ 32) (fits : (Phase.leading finished moved).Fits p base)
    (started : p.startAddress ≠ []) (aligned : base % 2 ^ 16 = 0)
    (ok : Parse.lines rest next = .ok final)
    (more : ∀ phase : Phase, phase.Fits next base →
      next.record.addresses = p.record.addresses ++ addresses (base + address) length →
      (Complete p final (p.record.addresses ++ addresses (base + address) length ++ bytes) ↔
        Kept phase later)) :
    Complete p final (p.record.addresses ++ addresses (base + address) length ++ bytes) ↔
      Kept (.leading finished moved) (.data length address :: later) := by
  obtain ⟨earlier, none, start, moved_lt⟩ := fits
  obtain ⟨count', start'⟩ := counted.moved none start aligned
  have empty : p.record.addresses = [] := by rw [ElaRecord.addresses, none, addresses_zero]
  rw [Kept]
  split
  next noByte =>
    have fits' : (Phase.leading finished (move moved address)).Fits next base := by
      refine ⟨counted.recordList.symm ▸ earlier, count'.trans noByte, start', ?_⟩
      rw [move]
      split
      · exact moved_lt
      · exact Nat.mod_lt _ (Nat.two_pow_pos 32)
    apply more _ fits'
    rw [empty, ElaRecord.addresses, count', noByte, addresses_zero, addresses_zero]
    rfl
  next someByte =>
    have first : 0 < length := Nat.pos_of_ne_zero someByte
    have short := counted.short
    have inside' : Inside next.record := ⟨by omega, by omega⟩
    by_cases lands : moved = 0 ∨ moved = address ∧ address < 2 ^ 16
    · have placed := start'.trans ((move_iff moved_lt address_lt).mpr lands)
      have fits' : (Phase.inside (decide (2 ^ 16 ≤ address))).Fits next base :=
        ⟨inside', address, address_lt, placed, decide_eq_true_iff⟩
      rw [more _ fits', and_iff_right lands]
      rw [empty, ElaRecord.addresses, count', placed, List.nil_append]
      exact addresses_congr (Nat.mod_mod _ _) length
    · have elsewhere : u32 (base + move moved address) ≠ u32 (base + address) :=
        mt (move_iff moved_lt address_lt).mp lands
      refine iff_of_false ?_ (fun kept => lands kept.1)
      rw [← Complete.congr counted.recordList, empty, List.nil_append]
      have byte :
          (addresses (base + address) length ++ bytes)[0]? = some (u32 (base + address)) := by
        rw [List.getElem?_append_left (by rw [length_addresses]; exact first),
          getElem?_addresses first]
        rfl
      apply inside'.not_complete (counted.started.symm ▸ started) ok inside'.positive byte
      rw [start', Nat.add_zero]
      intro same
      exact elsewhere (same.trans (Nat.mod_mod _ _)).symm

/-- A data line behind the first byte. -/
theorem Counted.complete_inside {next : Parse} {length address : Nat} {negative : Bool}
    {later : List Entry} {bytes : List Nat} (counted : Counted p length address next)
    (place : address < 2 ^ 16 ∨ 2 ^ 32 - 2 ^ 12 < address ∧ address < 2 ^ 32)
    (fits : (Phase.inside negative).Fits p base) (started : p.startAddress ≠ [])
    (aligned : base % 2 ^ 16 = 0) (ok : Parse.lines rest next = .ok final)
    (more : ∀ phase : Phase, phase.Fits next base →
      next.record.addresses = p.record.addresses ++ addresses (base + address) length →
      (Complete p final (p.record.addresses ++ addresses (base + address) length ++ bytes) ↔
        Kept phase later)) :
    Complete p final (p.record.addresses ++ addresses (base + address) length ++ bytes) ↔
      Kept (.inside negative) (.data length address :: later) := by
  obtain ⟨inside, first, first_lt, start, sign⟩ := fits
  obtain ⟨start', count', follows, inside'⟩ := counted.inside place inside
  have bound := inside.bound
  rw [Kept]
  by_cases stays : negative = true → length = 0
  · have fits' : (Phase.inside negative).Fits next base :=
      ⟨inside', first, first_lt, start'.trans start, sign⟩
    rw [more _ fits', and_iff_right stays]
    rw [ElaRecord.addresses, ElaRecord.addresses, start', count', addresses_add]
    congr 1
    cases negative with
    | true => rw [stays rfl, addresses_zero, addresses_zero]
    | false =>
        have small : ¬ 2 ^ 16 ≤ first := fun large => nomatch sign.mpr large
        apply addresses_congr
        rw [start, u32] at follows ⊢
        omega
  · -- the start lies outside the 64 KB that the line's address counts in
    refine iff_of_false ?_ (fun kept => stays kept.1)
    obtain ⟨minus, someByte⟩ := Classical.not_imp.mp stays
    have large := sign.mp minus
    rw [← Complete.congr counted.recordList]
    have byte : (p.record.addresses ++ addresses (base + address) length ++
        bytes)[p.record.dataCount]? = some (u32 (base + address)) := by
      have own : p.record.addresses.length = p.record.dataCount := length_addresses _ _
      have first : 0 < length := Nat.pos_of_ne_zero someByte
      rw [List.append_assoc, List.getElem?_append_right (by omega), own, Nat.sub_self,
        List.getElem?_append_left (by rw [length_addresses]; exact first),
        getElem?_addresses first]
      rfl
    apply inside'.not_complete (counted.started.symm ▸ started) ok (by omega) byte
    rw [start', follows, start]
    simp only [u32]
    omega

/-- At the end of the file the record at work is lost, with the bytes it has. -/
theorem Phase.Fits.complete_nil {phase : Phase} (fits : phase.Fits p base) :
    Complete p p p.record.addresses ↔ Kept phase [] := by
  cases phase with
  | outside => exact fits.elim
  | leading finished moved =>
      obtain ⟨earlier, none, -⟩ := fits
      constructor
      · rintro ⟨added, -, some, -⟩
        exact earlier.mpr some
      · intro before
        refine ⟨[], (List.append_nil _).symm, earlier.mp before, ?_⟩
        rw [ElaRecord.addresses, none]
        rfl
  | inside negative =>
      refine ⟨?_, False.elim⟩
      rintro ⟨added, records, -, complete⟩
      have none : added = [] := List.append_right_eq_self.mp records.symm
      have length := congrArg List.length complete
      rw [none, ElaRecord.addresses, length_addresses] at length
      exact Nat.ne_of_lt fits.1.positive length

/-- Behind the closing line nothing is read. -/
theorem Phase.Fits.complete_endOfFile {phase : Phase} {later : List Entry}
    (fits : phase.Fits p base) (records : final.recordList = p.recordList ++ [p.record])
    (ended : final.endRecordFound = true) :
    Complete p final (p.record.addresses ++ fileBytes base later) ↔
      Kept phase (.endOfFile :: later) := by
  have kept : Kept phase (.endOfFile :: later) ↔ ∀ entry ∈ later, entry.length = 0 := by
    cases phase with
    | outside => exact fits.elim
    | leading | inside => rfl
  rw [kept, Complete.push records (Parse.lines_ended ended []), ← fileBytes_eq_nil_iff base]
  constructor
  · rintro ⟨added, same, -, complete⟩
    have none : added = [] := List.append_right_eq_self.mp same.symm
    rw [← complete, none]
    rfl
  · intro nothing
    refine ⟨[], (List.append_nil _).symm, ?_, nothing.symm⟩
    rw [records]
    exact List.append_ne_nil_of_right_ne_nil _ (List.cons_ne_nil _ _)

/-- From here on nothing is lost exactly if the lines keep everything. -/
theorem complete_iff {phase : Phase} (fits : phase.Fits p base) (started : p.startAddress ≠ [])
    (running : p.endRecordFound = false) (aligned : base % 2 ^ 16 = 0) (base_lt : base < 2 ^ 32)
    (ok : Parse.lines rest p = .ok final) :
    Complete p final (p.record.addresses ++ fileBytes base (rest.map entry)) ↔
      Kept phase (rest.map entry) := by
  induction rest generalizing p base phase with
  | nil =>
      cases ok
      rw [List.map_nil, fileBytes, List.append_nil]
      exact fits.complete_nil
  | cons text rest ih =>
      obtain ⟨next, step, ok⟩ := Parse.lines_step running ok
      rw [List.map_cons]
      cases kind : entry text with
      | other =>
          rw [kind] at step
          have here := ih (step.fits fits) (step.started.symm ▸ started)
            (step.running.trans running) aligned base_lt ok
          rw [step.record, Complete.congr step.recordList] at here
          rw [fileBytes, here]
          cases phase <;> rfl
      | endOfFile =>
          rw [kind] at step
          rcases step with ⟨none, -⟩ | ⟨-, records, ended⟩
          · exact absurd none started
          rw [Parse.lines_ended ended] at ok
          cases ok
          rw [fileBytes]
          exact fits.complete_endOfFile records ended
      | base start =>
          rw [kind] at step
          have records : next.recordList = p.recordList ++ [p.record] := by
            rw [step.recordList, if_neg (by simpa using started)]
          have fresh : (Phase.leading true 0).Fits next start := by
            refine ⟨⟨fun _ => ?_, fun _ => rfl⟩, step.count, ?_, by decide⟩
            · rw [records]
              exact List.append_ne_nil_of_right_ne_nil _ (List.cons_ne_nil _ _)
            · rw [step.start, Nat.add_zero, u32, Nat.mod_eq_of_lt step.base_lt]
          have here := ih fresh step.started (step.running.trans running) step.aligned
            step.base_lt ok
          rw [ElaRecord.addresses, step.count, addresses_zero, List.nil_append] at here
          rw [fileBytes, Complete.push records ok, here]
          cases phase with
          | outside => exact fits.elim
          | leading | inside => rfl
      | data length address =>
          rw [kind] at step
          obtain ⟨counted, place⟩ := step
          have address_lt : address < 2 ^ 32 := by omega
          rw [fileBytes, ← List.append_assoc]
          have more (phase : Phase) (fits : phase.Fits next base)
              (bytes : next.record.addresses =
                p.record.addresses ++ addresses (base + address) length) :
              Complete p final (p.record.addresses ++ addresses (base + address) length ++
                fileBytes base (rest.map entry)) ↔ Kept phase (rest.map entry) := by
            rw [← bytes, ← Complete.congr counted.recordList]
            exact ih fits (counted.started.symm ▸ started) (counted.running.trans running)
              aligned base_lt ok
          cases phase with
          | outside => exact fits.elim
          | leading => exact counted.complete_leading address_lt fits started aligned ok more
          | inside => exact counted.complete_inside place fits started aligned ok more

/-- As long as no record has been started, data bytes are lost. -/
theorem complete_iff_outside (empty : p.recordList = []) (unstarted : p.startAddress = [])
    (running : p.endRecordFound = false) (ok : Parse.lines rest p = .ok final) :
    Complete p final (fileBytes base (rest.map entry)) ↔ Kept .outside (rest.map entry) := by
  induction rest generalizing p with
  | nil =>
      cases ok
      refine ⟨?_, False.elim⟩
      rintro ⟨-, -, some, -⟩
      exact some empty
  | cons text rest ih =>
      obtain ⟨next, step, ok⟩ := Parse.lines_step running ok
      rw [List.map_cons]
      cases kind : entry text with
      | other =>
          rw [kind] at step
          have here := ih (step.recordList.trans empty) (step.started.trans unstarted)
            (step.running.trans running) ok
          rw [Complete.congr step.recordList] at here
          exact here
      | endOfFile =>
          rw [kind] at step
          rcases step with ⟨-, skipped⟩ | ⟨some, -⟩
          · have here := ih (skipped.recordList.trans empty) (skipped.started.trans unstarted)
              (skipped.running.trans running) ok
            rw [Complete.congr skipped.recordList] at here
            exact here
          · exact absurd unstarted some
      | base start =>
          rw [kind] at step
          have records : next.recordList = p.recordList := by
            rw [step.recordList, unstarted]
            rfl
          have fresh : (Phase.leading false 0).Fits next start := by
            refine ⟨⟨nofun, fun some => absurd (records.trans empty) some⟩, step.count, ?_,
              by decide⟩
            rw [step.start, Nat.add_zero, u32, Nat.mod_eq_of_lt step.base_lt]
          have here := complete_iff fresh step.started (step.running.trans running) step.aligned
            step.base_lt ok
          rw [ElaRecord.addresses, step.count, addresses_zero, List.nil_append,
            Complete.congr records] at here
          exact here
      | data length address =>
          rw [kind] at step
          obtain ⟨counted, -⟩ := step
          have here := ih (counted.recordList.trans empty) (counted.started.trans unstarted)
            (counted.running.trans running) ok
          rw [Complete.congr counted.recordList] at here
          rw [fileBytes, Kept]
          by_cases noByte : length = 0
          · rw [noByte, addresses_zero, List.nil_append, here, and_iff_right rfl]
          · refine iff_of_false ?_ (fun kept => noByte kept.1)
            rintro ⟨added, records, -, complete⟩
            obtain ⟨added', records', few⟩ := Parse.lines_few base ok
            rw [counted.recordList] at records'
            obtain rfl : added = added' := List.append_cancel_left (records.symm.trans records')
            have nothing : next.pending = 0 := by
              rw [Parse.pending, counted.started, if_pos unstarted]
            rw [complete, List.length_append, length_addresses, nothing] at few
            omega

/-- A record ends behind its last byte. -/
def ElaRecord.EndsRight (record : ElaRecord) : Prop :=
  record.endAddress = u32 (record.startAddress + record.dataCount)

/-- All records end behind their last bytes. -/
structure Parse.EndRight (p : Parse) : Prop where
  record : p.record.EndsRight
  recordList : ∀ record ∈ p.recordList, record.EndsRight

theorem Parse.EndRight.push (right : p.EndRight) :
    ∀ record ∈ p.recordList ++ [p.record], record.EndsRight := by
  intro record member
  rcases List.mem_append.mp member with before | last
  · exact right.recordList record before
  · rw [List.mem_singleton.mp last]
    exact right.record

theorem Counted.endsRight {next : Parse} {length address : Nat}
    (counted : Counted p length address next) (right : p.record.EndsRight) :
    next.record.EndsRight := by
  rw [ElaRecord.EndsRight] at right ⊢
  rw [counted.count]
  rcases counted.place with ⟨-, start, ends⟩ | ⟨-, none, start, ends⟩
  · rw [start, ends, right]
    simp only [u32]
    omega
  · rw [start, ends, right, none]
    simp only [u32]
    omega

theorem Parse.EndRight.lines (right : p.EndRight) (ok : Parse.lines rest p = .ok final) :
    ∀ record ∈ final.recordList, record.EndsRight := by
  induction rest generalizing p with
  | nil =>
      cases ok
      exact right.recordList
  | cons text rest ih =>
      cases running : p.endRecordFound with
      | true =>
          rw [Parse.lines_ended running] at ok
          cases ok
          exact right.recordList
      | false =>
          obtain ⟨next, step, ok⟩ := Parse.lines_step running ok
          cases kind : entry text with
          | data length address =>
              rw [kind] at step
              apply ih ⟨step.1.endsRight right.record, ?_⟩ ok
              rw [step.1.recordList]
              exact right.recordList
          | base start =>
              rw [kind] at step
              apply ih ⟨?_, ?_⟩ ok
              · rw [ElaRecord.EndsRight, step.ends, step.start, step.count, Nat.add_zero, u32,
                  Nat.mod_eq_of_lt step.base_lt]
              · rw [step.recordList]
                split
                · exact right.recordList
                · exact right.push
          | endOfFile =>
              rw [kind] at step
              rcases step with ⟨-, skipped⟩ | ⟨-, records, ended⟩
              · exact ih ⟨skipped.record.symm ▸ right.record,
                  skipped.recordList.symm ▸ right.recordList⟩ ok
              · rw [Parse.lines_ended ended] at ok
                cases ok
                rw [records]
                exact right.push
          | other =>
              rw [kind] at step
              exact ih ⟨step.record.symm ▸ right.record, step.recordList.symm ▸ right.recordList⟩ ok

end Runs

/-- The records of an accepted file hold all its data bytes at their addresses exactly if the
file keeps everything. -/
theorem parse_lossless_iff {text : List Char} {p : Parse} (accepted : Parse.file text = .ok p) :
    Lossless text p ↔ Kept .outside (entries text) := by
  rw [Parse.file_eq] at accepted
  have begins : (Parse.start text).EndRight := ⟨rfl, nofun⟩
  have complete : Complete (.start text) p (fileBytes 0 (entries text)) ↔
      Kept .outside (entries text) := complete_iff_outside rfl rfl rfl accepted
  rw [← complete]
  constructor
  · intro lossless
    exact ⟨p.recordList, rfl, lossless.nonempty, lossless.bytes⟩
  · rintro ⟨added, records, some, bytes⟩
    have same : p.recordList = added := records
    rw [← same] at bytes
    exact ⟨some, bytes, begins.lines accepted⟩

/-- Two segments, the second one behind a gap. -/
def twoSegments : List Char :=
  (":020000040000FA\n:020000000102FB\n:020000040001F9\n:0180000003FC\n" ++
    ":00000001FF\n").toList

theorem parse_lossless_iff_two_segments : ∃ p,
    Parse.file twoSegments = .ok p ∧ p.recordList.length = 2 ∧ Lossless twoSegments p := by
  have lines : entries twoSegments =
      [.base 0, .data 2 0, .base 0x10000, .data 1 0x8000, .endOfFile, .other] := by decide
  have kept : Kept .outside (entries twoSegments) := by
    rw [lines]
    simp [Kept, Entry.length]
  have two : (Parse.file twoSegments).map (·.recordList.length) = .ok 2 := by decide
  cases accepted : Parse.file twoSegments with
  | error stop => simp [accepted, Except.map] at two
  | ok p =>
      rw [accepted] at two
      exact ⟨p, rfl, Except.ok.inj two, (parse_lossless_iff accepted).mpr kept⟩

/-- Without an end record the last record never enters the list. -/
theorem file_without_end_record_loses_bytes : ∃ text p,
    Parse.file text = .ok p ∧ p.recordList = [] ∧ ¬ Lossless text p := by
  let text := ":020000040000FA\n:02000000AABB99\n".toList
  have none : (Parse.file text).map Parse.recordList = .ok [] := by decide
  cases accepted : Parse.file text with
  | error stop => simp [accepted, Except.map] at none
  | ok p =>
      rw [accepted] at none
      have empty : p.recordList = [] := Except.ok.inj none
      exact ⟨text, p, accepted, empty, fun lossless => lossless.nonempty empty⟩

end OpaeXilinx.Flash
