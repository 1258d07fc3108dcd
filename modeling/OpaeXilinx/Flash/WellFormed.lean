import OpaeXilinx.Flash.Records
import OpaeXilinx.Flash.RunCalls

/-!
# Well-formed files

A file of segments, each of which is a type 04 line with the upper half of its addresses and
lines of 16 bytes that follow on one another, and a closing type 01 line.  The parse loop
makes one record of each segment, and the second pass finds the bytes of the segment behind
the position that the record keeps.
-/

namespace OpaeXilinx.Flash

/-- The number that digits spell. -/
def number (digits : List Nat) : Nat := digits.foldl (fun value digit => 16 * value + digit) 0

/-- The text consists of so many hexadecimal digits, which spell the number. -/
def Spells (count : Nat) (text : List Char) (value : Nat) : Prop :=
  text.length = count ∧ ∃ digits, text.map hexDigit = digits.map some ∧ number digits = value

/-- Two digits for each byte. -/
inductive SpellsBytes : List Char → List Byte → Prop where
  | nil : SpellsBytes [] []
  | cons {high low : Char} {byte : Byte} {text : List Char} {bytes : List Byte} :
      Spells 2 [high, low] byte.toNat → SpellsBytes text bytes →
      SpellsBytes (high :: low :: text) (byte :: bytes)

/-- A line: the number of its bytes, an address, a type, the bytes, and a checksum, which the
flasher does not look at. -/
inductive McsLine (type place : Nat) (data : List Byte) : List Char → Prop where
  | intro {length address kind field check : List Char} :
      Spells 2 length data.length → Spells 4 address place → Spells 2 kind type →
      SpellsBytes field data → '\n' ∉ check →
      McsLine type place data (':' :: (length ++ (address ++ (kind ++ (field ++ check)))))

/-- Data lines from an address on: all but the last one have 16 bytes. -/
inductive DataLines : Nat → List Byte → List (List Char) → Prop where
  | last {place : Nat} {data : List Byte} {line : List Char} :
      0 < data.length → data.length ≤ 16 → McsLine 0 place data line →
      DataLines place data [line]
  | more {place : Nat} {data rest : List Byte} {line : List Char} {lines : List (List Char)} :
      data.length = 16 → McsLine 0 place data line → DataLines (place + 16) rest lines →
      DataLines place (data ++ rest) (line :: lines)

/-- A segment: the upper half of its addresses, the lower half of the first one, and its data. -/
structure Segment where
  upper : Nat
  offset : Nat
  data : List Byte
  deriving DecidableEq, Repr

/-- The address of the first byte. -/
def Segment.start (segment : Segment) : Nat := segment.upper * 2 ^ 16 + segment.offset

/-- The lines of a segment. -/
inductive SegmentLines (segment : Segment) : List (List Char) → Prop where
  | intro {high low : Byte} {head : List Char} {body : List (List Char)} :
      segment.upper = high.toNat * 2 ^ 8 + low.toNat → McsLine 4 0 [high, low] head →
      DataLines segment.offset segment.data body → SegmentLines segment (head :: body)

/-- The lines of all segments, and the closing line. -/
inductive FileLines : List Segment → List (List Char) → Prop where
  | last {place : Nat} {line : List Char} : McsLine 1 place [] line → FileLines [] [line]
  | segment {segment : Segment} {segments : List Segment} {lines rest : List (List Char)} :
      SegmentLines segment lines → FileLines segments rest →
      FileLines (segment :: segments) (lines ++ rest)

/-- A file, whose last line may end in a newline or not. -/
def McsFile (segments : List Segment) (text : List Char) : Prop :=
  ∃ lines, FileLines segments lines ∧
    (text.splitOn '\n' = lines ∨ text.splitOn '\n' = lines ++ [[]])

theorem hexDigit_plain {c : Char} {digit : Nat} (read : hexDigit c = some digit) :
    isSpace c = false ∧ c ≠ '-' ∧ c ≠ '+' ∧ c ≠ 'x' ∧ c ≠ 'X' := by
  refine ⟨?_, ?_, ?_, ?_, ?_⟩
  · rw [isSpace, Bool.or_eq_false_iff]
    constructor
    · apply beq_eq_false_iff_ne.mpr
      rintro rfl
      cases read
    · have value : c.toNat = c.val.toNat := rfl
      have zero : '0'.val.toNat = 48 := rfl
      rw [hexDigit] at read
      apply Bool.and_eq_false_iff.mpr
      right
      apply decide_eq_false
      rw [value]
      split at read
      next range =>
        have first : 48 ≤ c.val.toNat := range.1
        omega
      next =>
        split at read
        next range =>
          have first : 97 ≤ c.val.toNat := range.1
          omega
        next =>
          split at read
          next range =>
            have first : 65 ≤ c.val.toNat := range.1
            omega
          next => cases read
  all_goals
    rintro rfl
    cases read

section Digits

variable {text : List Char} {digits : List Nat}

theorem hexDigits_eq (all : text.map hexDigit = digits.map some) : hexDigits text = digits := by
  induction text generalizing digits with
  | nil =>
      rw [List.map_nil] at all
      exact (List.map_eq_nil_iff.mp all.symm).symm
  | cons c rest ih =>
      cases digits with
      | nil => cases all
      | cons digit more =>
          obtain ⟨head, tail⟩ := List.cons_eq_cons.mp all
          rw [hexDigits, head]
          exact congrArg (digit :: ·) (ih tail)

theorem hexDigit_of_mem (all : text.map hexDigit = digits.map some) {c : Char} (member : c ∈ text) :
    ∃ digit ∈ digits, hexDigit c = some digit := by
  have inMap : hexDigit c ∈ digits.map some := all ▸ List.mem_map_of_mem member
  obtain ⟨digit, inDigits, same⟩ := List.mem_map.mp inMap
  exact ⟨digit, inDigits, same.symm⟩

theorem skipHexMark_eq (all : text.map hexDigit = digits.map some) : skipHexMark text = text := by
  rw [skipHexMark.eq_def]
  split
  next x digit rest =>
    obtain ⟨value, -, read⟩ := hexDigit_of_mem all (List.mem_cons_of_mem _ List.mem_cons_self)
    obtain ⟨-, -, -, small, capital⟩ := hexDigit_plain read
    apply if_neg
    intro mark
    exact mark.1.elim small capital
  next => rfl

end Digits

section Decide

theorem spells_iff {count value : Nat} {text : List Char} : Spells count text value ↔
    text.length = count ∧ text.map hexDigit = (hexDigits text).map some ∧
      number (hexDigits text) = value := by
  refine and_congr_right fun _ => ⟨?_, fun ⟨all, value⟩ => ⟨_, all, value⟩⟩
  rintro ⟨digits, all, value⟩
  rw [hexDigits_eq all]
  exact ⟨all, value⟩

instance (count : Nat) (text : List Char) (value : Nat) : Decidable (Spells count text value) :=
  decidable_of_iff _ spells_iff.symm

theorem spellsBytes_cons {high low : Char} {text : List Char} {byte : Byte} {bytes : List Byte} :
    SpellsBytes (high :: low :: text) (byte :: bytes) ↔
      Spells 2 [high, low] byte.toNat ∧ SpellsBytes text bytes :=
  ⟨fun spells => by cases spells with | cons one rest => exact ⟨one, rest⟩,
    fun ⟨one, rest⟩ => .cons one rest⟩

instance SpellsBytes.decidable : (text : List Char) → (bytes : List Byte) →
    Decidable (SpellsBytes text bytes)
  | [], [] => .isTrue .nil
  | [], _ :: _ => .isFalse fun spells => by cases spells
  | _ :: _, [] => .isFalse fun spells => by cases spells
  | [_], _ :: _ => .isFalse fun spells => by cases spells
  | _ :: _ :: text, _ :: bytes =>
      have : Decidable (SpellsBytes text bytes) := decidable text bytes
      decidable_of_iff _ spellsBytes_cons.symm

/-- A line, with its parts where they belong. -/
theorem McsLine.of_parts {type place : Nat} {data : List Byte} {text : List Char}
    (length : Spells 2 (text.take 2) data.length) (address : Spells 4 ((text.drop 2).take 4) place)
    (kind : Spells 2 ((text.drop 6).take 2) type)
    (field : SpellsBytes ((text.drop 8).take (2 * data.length)) data)
    (check : '\n' ∉ text.drop (8 + 2 * data.length)) : McsLine type place data (':' :: text) := by
  have whole := McsLine.intro length address kind field check
  have parts : text.take 2 ++ ((text.drop 2).take 4 ++ ((text.drop 6).take 2 ++
      ((text.drop 8).take (2 * data.length) ++ text.drop (8 + 2 * data.length)))) = text := by
    rw [← List.drop_drop, List.take_append_drop, show 8 = 6 + 2 from rfl, ← List.drop_drop,
      List.take_append_drop, show 6 = 2 + 4 from rfl, ← List.drop_drop, List.take_append_drop,
      List.take_append_drop]
  rwa [parts] at whole

end Decide

section Numbers

variable {count value : Nat} {text : List Char}

theorem Spells.bound (spells : Spells count text value) : value < 16 ^ count := by
  obtain ⟨length, digits, all, rfl⟩ := spells
  have sameLength : digits.length = count := by
    have := congrArg List.length all
    rw [List.length_map, List.length_map] at this
    omega
  have small : ∀ digit ∈ digits, digit < 16 := by
    intro digit member
    have inMap : some digit ∈ text.map hexDigit := all ▸ List.mem_map_of_mem member
    obtain ⟨c, -, read⟩ := List.mem_map.mp inMap
    exact hexDigit_lt read
  have bound := number_lt small 0
  rw [Nat.zero_add, Nat.one_mul, sameLength] at bound
  exact bound

/-- Digits that spell a number are read as this number. -/
theorem Spells.stoi (spells : Spells count text value) (some : 0 < count) (short : count ≤ 7) :
    stoi text = Option.some (value : Int) := by
  have bound : value < 2 ^ 31 := by
    apply Nat.lt_of_lt_of_le spells.bound
    exact Nat.le_trans (Nat.pow_le_pow_right (by decide) short) (by decide)
  obtain ⟨length, digits, all, rfl⟩ := spells
  cases text with
  | nil =>
      rw [List.length_nil] at length
      omega
  | cons c rest =>
      obtain ⟨digit, -, read⟩ := hexDigit_of_mem all List.mem_cons_self
      obtain ⟨space, minus, plus, -, -⟩ := hexDigit_plain read
      have trimmed : (c :: rest).dropWhile isSpace = c :: rest := by
        rw [List.dropWhile_cons, if_neg (by rw [space]; decide)]
      have unsigned : splitSign (c :: rest) = (false, c :: rest) := by
        rw [splitSign.eq_def]
        split
        next _ same => exact absurd (List.cons_eq_cons.mp same).1 minus
        next _ same => exact absurd (List.cons_eq_cons.mp same).1 plus
        next => rfl
      rw [Flash.stoi, trimmed, unsigned]
      simp only [skipHexMark_eq all, hexDigits_eq all, Bool.false_eq_true, if_false]
      cases digits with
      | nil => cases all
      | cons digit more =>
          apply if_neg
          rw [number] at bound
          omega

theorem number_from (value : Nat) (digits : List Nat) :
    digits.foldl (fun value digit => 16 * value + digit) value =
      value * 16 ^ digits.length + number digits := by
  induction digits generalizing value with
  | nil =>
      rw [List.length_nil, Nat.pow_zero, Nat.mul_one]
      rfl
  | cons digit more ih =>
      rw [number, List.foldl_cons, List.foldl_cons, ih, ih (16 * 0 + digit), List.length_cons,
        Nat.pow_succ', Nat.add_mul, Nat.mul_zero, Nat.zero_add, ← Nat.add_assoc, ← Nat.mul_assoc,
        Nat.mul_comm 16 value]

theorem Spells.append {text' : List Char} {count' value' : Nat} (one : Spells count text value)
    (two : Spells count' text' value') :
    Spells (count + count') (text ++ text') (value * 16 ^ count' + value') := by
  obtain ⟨length, digits, all, rfl⟩ := one
  obtain ⟨length', digits', all', rfl⟩ := two
  have sameLength : digits'.length = count' := by
    have := congrArg List.length all'
    rw [List.length_map, List.length_map] at this
    omega
  constructor
  · rw [List.length_append, length, length']
  · apply Exists.intro (digits ++ digits')
    constructor
    · rw [List.map_append, all, all', List.map_append]
    · rw [number, List.foldl_append, number_from, sameLength]
      rfl

theorem Spells.no_newline (spells : Spells count text value) : '\n' ∉ text := by
  obtain ⟨-, digits, all, -⟩ := spells
  intro member
  obtain ⟨digit, -, read⟩ := hexDigit_of_mem all member
  cases read

end Numbers

theorem substr_append (before found after : List Char) :
    substr (before ++ (found ++ after)) before.length found.length = some found := by
  have inside : before.length ≤ (before ++ (found ++ after)).length := by
    rw [List.length_append]
    exact Nat.le_add_right _ _
  rw [substr, if_pos inside, List.drop_left, List.take_left]

theorem field_append {found : List Char} {count value : Nat} (before : List Char)
    (spells : Spells count found value) (some : 0 < count) (short : count ≤ 7) (after : List Char) :
    field (before ++ (found ++ after)) before.length count = Option.some value := by
  have bound : value < 2 ^ 32 := by
    apply Nat.lt_of_lt_of_le spells.bound
    exact Nat.le_trans (Nat.pow_le_pow_right (by decide) short) (by decide)
  have length : found.length = count := spells.1
  have inside := substr_append before found after
  rw [length] at inside
  rw [field, inside, Option.bind_some, spells.stoi some short, Option.map_some]
  congr 1
  omega

theorem SpellsBytes.length {text : List Char} {bytes : List Byte}
    (spells : SpellsBytes text bytes) :
    text.length = bytes.length * 2 := by
  induction spells with
  | nil => rfl
  | cons _ _ ih =>
      rw [List.length_cons, List.length_cons, List.length_cons, ih, Nat.succ_mul]

theorem SpellsBytes.digitsBytes {text : List Char} {bytes : List Byte}
    (spells : SpellsBytes text bytes) : Flash.digitsBytes text = bytes := by
  induction spells with
  | nil => rfl
  | @cons high low byte text bytes first _ ih =>
      have value : digitsByte [high, low] = byte := by
        rw [digitsByte, first.stoi (by decide) (by decide)]
        show BitVec.ofInt 8 (byte.toNat : Int) = byte
        simp
      rw [Flash.digitsBytes, value, ih]

theorem SpellsBytes.word {text : List Char} {high low : Byte}
    (spells : SpellsBytes text [high, low]) :
    Spells 4 text (high.toNat * 2 ^ 8 + low.toNat) := by
  cases spells with
  | cons first rest =>
      cases rest with
      | cons second none =>
          cases none
          exact first.append second

theorem SpellsBytes.no_newline {text : List Char} {bytes : List Byte}
    (spells : SpellsBytes text bytes) : '\n' ∉ text := by
  induction spells with
  | nil => exact List.not_mem_nil
  | cons first _ ih =>
      have plain := first.no_newline
      simp only [List.mem_cons, List.not_mem_nil, or_false] at plain
      simp only [List.mem_cons]
      tauto

section Line

variable {type place : Nat} {data : List Byte} {line : List Char}

theorem McsLine.short (isLine : McsLine type place data line) : data.length < 2 ^ 8 := by
  obtain ⟨length, -, -, -, -⟩ := isLine
  exact length.bound

theorem McsLine.place_lt (isLine : McsLine type place data line) : place < 2 ^ 16 := by
  obtain ⟨-, isPlace, -, -, -⟩ := isLine
  exact isPlace.bound

theorem McsLine.dataLen (isLine : McsLine type place data line) :
    Flash.dataLen line = some data.length := by
  obtain ⟨length, -, -, -, -⟩ := isLine
  exact field_append [':'] length (by decide) (by decide) _

theorem McsLine.address (isLine : McsLine type place data line) :
    Flash.address line = some place := by
  cases isLine with
  | @intro length place' kind field check isLength isPlace isKind isField plain =>
      have found := field_append (':' :: length) isPlace (by decide) (by decide)
        (kind ++ (field ++ check))
      rw [List.length_cons, isLength.1] at found
      exact found

theorem McsLine.recordType (isLine : McsLine type place data line) :
    Flash.recordType line = some type := by
  cases isLine with
  | @intro length place' kind field check isLength isPlace isKind isField plain =>
      have found := field_append (':' :: (length ++ place')) isKind (by decide) (by decide)
        (field ++ check)
      rw [List.length_cons, List.length_append, isLength.1, isPlace.1, List.cons_append,
        List.append_assoc] at found
      exact found

/-- The digits of the bytes. -/
theorem McsLine.digits (isLine : McsLine type place data line) :
    ∃ field, substr line 9 (data.length * 2) = some field ∧ SpellsBytes field data := by
  cases isLine with
  | @intro length place' kind field check isLength isPlace isKind isField plain =>
      have found := substr_append (':' :: (length ++ (place' ++ kind))) field check
      rw [List.length_cons, List.length_append, List.length_append, isLength.1, isPlace.1, isKind.1,
        isField.length, List.cons_append, List.append_assoc, List.append_assoc] at found
      exact ⟨field, found, isField⟩

theorem McsLine.no_newline (isLine : McsLine type place data line) : '\n' ∉ line := by
  cases isLine with
  | @intro length place' kind field check isLength isPlace isKind isField plain =>
      have inLength := isLength.no_newline
      have inPlace := isPlace.no_newline
      have inKind := isKind.no_newline
      have inField := isField.no_newline
      simp only [List.mem_cons, List.mem_append, not_or]
      exact ⟨by decide, inLength, inPlace, inKind, inField, plain⟩

theorem McsLine.marked (isLine : McsLine type place data line) : ∃ rest, line = ':' :: rest := by
  cases isLine
  exact ⟨_, rfl⟩

theorem McsLine.declared (isLine : McsLine type place data line) :
    Flash.declared line = data.length := by
  rw [Flash.declared, isLine.dataLen]
  rfl

/-- A data line that stays in its half page is taken whole. -/
theorem McsLine.taken (isLine : McsLine 0 place data line) (before : Nat)
    (fits : before % writeDataSize + data.length ≤ writeDataSize) :
    lineTaken line before = data := by
  obtain ⟨field, found, spells⟩ := isLine.digits
  have short := isLine.short
  have small : u32 (data.length * 2) = data.length * 2 := Nat.mod_eq_of_lt (by omega)
  rw [lineTaken, if_pos isLine.recordType, isLine.declared, small, found, Option.getD_some,
    spells.digitsBytes]
  apply List.take_of_length_le
  omega

end Line

/-- The lines that come next in a stream over a text. -/
structure Upon (text : List Char) (lines : List (List Char)) (s : Stream) : Prop where
  text : s.text = text
  free : s.failbit = false
  ahead : s.ahead = lines

section Streams

variable {text line : List Char} {lines : List (List Char)} {s : Stream}

theorem Upon.more (upon : Upon text lines s) (some : lines ≠ []) : s.eofbit = false := by
  have ahead := upon.ahead
  rw [Stream.ahead] at ahead
  cases met : s.eofbit with
  | false => rfl
  | true =>
      rw [met] at ahead
      exact absurd ahead.symm some

theorem Upon.getline (upon : Upon text (line :: lines) s) (some : line ≠ []) :
    s.getline.1 = line ∧ Upon text lines s.getline.2 := by
  have more := upon.more (List.cons_ne_nil _ _)
  obtain ⟨ahead, -⟩ := Stream.ahead_getline (fun _ => upon.free) more
  obtain ⟨head, tail⟩ := List.cons_eq_cons.mp (ahead.symm.trans upon.ahead)
  obtain ⟨sameText, -, -⟩ := getline_of_ne_nil (head ▸ some)
  refine ⟨head, sameText.trans upon.text, ?_, tail⟩
  rw [Stream.getline, more, upon.free] at head ⊢
  simp only [Bool.or_self, Bool.false_eq_true, if_false] at head ⊢
  split at head
  next longer => rw [if_pos longer]
  next whole =>
    rw [if_neg whole]
    cases rest : s.text.drop s.pos with
    | nil =>
        rw [rest] at head
        exact absurd head.symm some
    | cons _ _ => rfl

theorem Upon.tellg (upon : Upon text lines s) (some : lines ≠ []) :
    s.tellg = ((s.pos : Int), s) := by
  rw [Stream.tellg, upon.more some, upon.free]
  rfl

/-- Going back to where a stream has been. -/
theorem Upon.seekg {s' : Stream} (upon : Upon text lines s)
    (some : lines ≠ []) (there : s'.text = text) (free : s'.failbit = false) :
    s'.seekg s.pos = s := by
  have notBefore : ¬ (s.pos : Int) < 0 := by omega
  rw [Stream.seekg, if_neg (by rw [free]; decide), if_neg notBefore]
  cases s with
  | mk sText pos eofbit failbit =>
      have met : eofbit = false := upon.more some
      have good : failbit = false := upon.free
      have same : sText = text := upon.text
      subst met good same
      rw [there, free]
      rfl

theorem Upon.seek {s' : Stream} {lines' : List (List Char)} {record : ElaRecord}
    (upon : Upon text lines s) (some : lines ≠ []) (current : Upon text lines' s')
    (some' : lines' ≠ []) (position : record.dataPos = s.pos) : record.seek s' = s := by
  rw [ElaRecord.seek, current.tellg some', position]
  exact upon.seekg some current.text current.free

theorem Upon.length_le (upon : Upon text lines s) : lines.length ≤ text.length + 1 := by
  rw [← upon.ahead, ← upon.text, Stream.ahead]
  split
  · exact Nat.zero_le _
  · apply Nat.le_trans (length_splitOn_le _)
    rw [List.length_drop]
    omega

end Streams

/-! ## The parse loop -/

section Parse

variable {place : Nat} {data : List Byte} {line : List Char}

theorem Parse.line_marked {p : Parse} {type : Nat} (isLine : McsLine type place data line) :
    Parse.line p line =
      if type = 0 then p.data line data.length place
      else if type = 1 then .ok p.endOfFile
      else if type = 2 then .error .assertion
      else if type = 4 then p.extendedAddress line data.length place
      else .ok p := by
  obtain ⟨rest, rfl⟩ := isLine.marked
  rw [Parse.line.eq_def]
  simp only [isLine.dataLen, isLine.address, isLine.recordType, ne_eq, not_true_eq_false, if_false]

theorem Parse.lines_cons {p final : Parse} {rest : List (List Char)}
    (running : p.endRecordFound = false)
    (ok : Parse.lines (line :: rest) p = .ok final) :
    ∃ next, Parse.line { p with stream := p.stream.getline.2 } line = .ok next ∧
      Parse.lines rest next = .ok final := by
  rw [Parse.lines, if_neg (by rw [running]; decide)] at ok
  split at ok
  · cases ok
  next next read => exact ⟨next, read, ok⟩

/-- The record when so many bytes of its segment have been counted. -/
structure Holds (segment : Segment) (done : Nat) (record : ElaRecord) : Prop where
  count : record.dataCount = done
  start : record.startAddress = if done = 0 then segment.upper * 2 ^ 16 else segment.start
  ends : record.endAddress = record.startAddress + done

/-- Only bytes of the current record have been counted. -/
structure Through (p next : Parse) : Prop where
  recordList : next.recordList = p.recordList
  started : next.startAddress = p.startAddress
  running : next.endRecordFound = p.endRecordFound
  position : next.record.dataPos = p.record.dataPos

theorem Through.trans {p middle next : Parse} (one : Through p middle) (two : Through middle next) :
    Through p next :=
  ⟨two.recordList.trans one.recordList, two.started.trans one.started,
    two.running.trans one.running, two.position.trans one.position⟩

/-- Reading on in the stream counts nothing. -/
theorem Through.of_restreamed {p next : Parse} {stream : Stream}
    (through : Through { p with stream := stream } next) : Through p next :=
  ⟨through.recordList, through.started, through.running, through.position⟩

theorem Parse.data_through {p next : Parse} {length : Nat}
    (ok : p.data line length place = .ok next) :
    Through p next ∧ next.stream = p.stream := by
  have counted := Parse.data_counted ok
  rw [Parse.data] at ok
  split at ok
  · cases ok
  split at ok
  · cases ok
  next placed found =>
    have position : placed.dataPos = p.record.dataPos := by
      rw [Parse.place] at found
      split_ifs at found <;> cases found <;> rfl
    cases ok
    exact ⟨⟨counted.recordList, counted.started, counted.running, position⟩, rfl⟩

/-- A data line that follows on. -/
theorem Holds.further {segment : Segment} {p next : Parse} {done length : Nat}
    (holds : Holds segment done p.record) (upper : segment.upper < 2 ^ 12)
    (follows : place = segment.offset + done) (inside : place + length ≤ 2 ^ 16) (some : 0 < length)
    (ok : p.data line length place = .ok next) : Holds segment (done + length) next.record := by
  have counted := Parse.data_counted ok
  obtain ⟨count, start, ends⟩ := holds
  have total : next.record.dataCount = done + length := by
    rw [counted.count, count, u32]
    omega
  have nonzero : done + length ≠ 0 := by omega
  have moved : next.record.startAddress = segment.start ∧
      next.record.endAddress = next.record.startAddress + (done + length) := by
    have counting := counted.place
    rw [count] at counting
    rw [Segment.start] at start ⊢
    simp only [u32] at counting
    split at start <;> omega
  exact ⟨total, by rw [if_neg nonzero]; exact moved.1, moved.2⟩

/-- One of the data lines. -/
theorem McsLine.data_parsed {segment : Segment} {text : List Char} {rest : List (List Char)}
    {p final : Parse} {done : Nat} (isLine : McsLine 0 place data line)
    (holds : Holds segment done p.record) (upper : segment.upper < 2 ^ 12)
    (follows : place = segment.offset + done) (inside : place + data.length ≤ 2 ^ 16)
    (some : 0 < data.length) (running : p.endRecordFound = false)
    (upon : Upon text (line :: rest) p.stream) (ok : Parse.lines (line :: rest) p = .ok final) :
    ∃ next, Parse.lines rest next = .ok final ∧ Holds segment (done + data.length) next.record ∧
      Through p next ∧ Upon text rest next.stream := by
  obtain ⟨_, rfl⟩ := isLine.marked
  obtain ⟨next, read, remains⟩ := Parse.lines_cons running ok
  obtain ⟨-, further⟩ := upon.getline (List.cons_ne_nil _ _)
  rw [Parse.line_marked isLine, if_pos rfl] at read
  obtain ⟨through, stream⟩ := Parse.data_through read
  have next_holds : Holds segment (done + data.length) next.record :=
    Holds.further (p := { p with stream := p.stream.getline.2 }) holds upper follows inside some
      read
  exact ⟨next, remains, next_holds, through.of_restreamed, stream ▸ further⟩

theorem DataLines.parsed {segment : Segment} {text : List Char} {body more : List (List Char)}
    {p final : Parse} {done : Nat} (lines : DataLines place data body)
    (holds : Holds segment done p.record) (upper : segment.upper < 2 ^ 12)
    (follows : place = segment.offset + done) (aligned : place % 16 = 0)
    (running : p.endRecordFound = false) (upon : Upon text (body ++ more) p.stream)
    (ok : Parse.lines (body ++ more) p = .ok final) :
    ∃ next, Parse.lines more next = .ok final ∧ Holds segment (done + data.length) next.record ∧
      Through p next ∧ Upon text more next.stream := by
  induction lines generalizing p done with
  | last some short isLine =>
      have place_lt := isLine.place_lt
      exact isLine.data_parsed holds upper follows (by omega) some running upon ok
  | more full isLine lines ih =>
      have place_lt := isLine.place_lt
      obtain ⟨next, rest, next_holds, through, further⟩ :=
        isLine.data_parsed holds upper follows (by omega) (by omega) running upon ok
      obtain ⟨last, ok', holds', through', upon'⟩ := ih next_holds (by omega) (by omega)
        (through.running.trans running) further rest
      rw [List.length_append, ← Nat.add_assoc]
      exact ⟨last, ok', holds', through.trans through', upon'⟩

/-- The records that are in the list when the current one has been added. -/
def Parse.pushed (p : Parse) : List ElaRecord :=
  if p.startAddress.isEmpty then p.recordList else p.recordList ++ [p.record]

theorem base_start {upper : Nat} (bound : upper < 16 ^ 4) :
    u32 (((upper : Int) % 2 ^ 32).toNat * 2 ^ 16) = upper * 2 ^ 16 := by
  rw [u32]
  omega

/-- A type 04 line begins a record, which keeps its position. -/
theorem Parse.base_parsed {segment : Segment} {high low : Byte} {p next : Parse} {text : List Char}
    {lines : List (List Char)} (isUpper : segment.upper = high.toNat * 2 ^ 8 + low.toNat)
    (isLine : McsLine 4 0 [high, low] line) (upon : Upon text lines p.stream) (some : lines ≠ [])
    (ok : Parse.line p line = .ok next) :
    next.stream = p.stream ∧ next.record.dataPos = p.stream.pos ∧ Holds segment 0 next.record ∧
      next.startAddress ≠ [] ∧ next.endRecordFound = p.endRecordFound ∧
        next.recordList = p.pushed := by
  obtain ⟨digits, found, spells⟩ := isLine.digits
  have word := spells.word
  have bound := word.bound
  rw [Parse.line_marked isLine] at ok
  change p.extendedAddress line 2 0 = .ok next at ok
  change substr line 9 (2 * 2) = Option.some digits at found
  rw [Parse.extendedAddress, if_neg (by decide), if_neg (by decide), found] at ok
  simp only [word.stoi (by decide) (by decide), upon.tellg some] at ok
  cases ok
  have start := base_start bound
  refine ⟨rfl, rfl, ⟨rfl, ?_, (Nat.add_zero _).symm⟩, ?_, rfl, rfl⟩
  · rw [if_pos rfl, isUpper]
    exact start
  · rintro rfl
    cases word.1

/-- The record of a segment: the data lines come next at the position it keeps. -/
structure Recorded (text : List Char) (segment : Segment) (record : ElaRecord) : Prop where
  holds : Holds segment segment.data.length record
  found : ∃ s body more, Upon text (body ++ more) s ∧ record.dataPos = s.pos ∧ more ≠ [] ∧
    DataLines segment.offset segment.data body

theorem DataLines.some {lines : List (List Char)} (isData : DataLines place data lines) :
    lines ≠ [] := by
  cases isData <;> exact List.cons_ne_nil _ _

theorem SegmentLines.parsed {segment : Segment} {text : List Char} {lines more : List (List Char)}
    {p final : Parse} (isSegment : SegmentLines segment lines) (upper : segment.upper < 2 ^ 12)
    (aligned : segment.offset % 16 = 0) (running : p.endRecordFound = false) (behind : more ≠ [])
    (upon : Upon text (lines ++ more) p.stream) (ok : Parse.lines (lines ++ more) p = .ok final) :
    ∃ next, Parse.lines more next = .ok final ∧ Recorded text segment next.record ∧
      next.startAddress ≠ [] ∧ next.endRecordFound = false ∧ next.recordList = p.pushed ∧
      Upon text more next.stream := by
  cases isSegment with
  | @intro high low head body isUpper isHead isBody =>
      obtain ⟨_, rfl⟩ := isHead.marked
      obtain ⟨begun, read, rest⟩ := Parse.lines_cons running ok
      obtain ⟨-, further⟩ := upon.getline (List.cons_ne_nil _ _)
      have some : body ++ more ≠ [] := List.append_ne_nil_of_right_ne_nil _ behind
      obtain ⟨stream, position, holds, started, running', recordList⟩ :=
        Parse.base_parsed isUpper isHead further some read
      have reading : Upon text (body ++ more) begun.stream := by
        rw [stream]
        exact further
      obtain ⟨next, ok', holds', through, upon'⟩ :=
        isBody.parsed holds upper (Nat.add_zero _).symm aligned
        (running'.trans running) reading rest
      rw [Nat.zero_add] at holds'
      apply Exists.intro next
      refine ⟨ok', ⟨holds', ?_⟩, ?_, through.running.trans (running'.trans running),
        through.recordList.trans recordList, upon'⟩
      · exact ⟨p.stream.getline.2, body, more, further, through.position.trans position,
          behind, isBody⟩
      · rw [through.started]
        exact started

theorem FileLines.some {segments : List Segment} {lines : List (List Char)}
    (isFile : FileLines segments lines) : lines ≠ [] := by
  cases isFile with
  | last => exact List.cons_ne_nil _ _
  | segment _ rest =>
      apply List.append_ne_nil_of_right_ne_nil
      exact FileLines.some rest

/-- The parse loop makes one record of each segment. -/
theorem FileLines.parsed {segments : List Segment} {text : List Char}
    {lines tail : List (List Char)}
    {p final : Parse} (isFile : FileLines segments lines)
    (sane : ∀ segment ∈ segments, segment.upper < 2 ^ 12 ∧ segment.offset % 16 = 0)
    (started : p.startAddress ≠ [] ∨ segments ≠ []) (running : p.endRecordFound = false)
    (upon : Upon text (lines ++ tail) p.stream) (ok : Parse.lines (lines ++ tail) p = .ok final) :
    ∃ added, final.recordList = p.pushed ++ added ∧ List.Forall₂ (Recorded text) segments added ∧
      Upon text tail final.stream := by
  induction isFile generalizing p with
  | last isLine =>
      obtain ⟨_, rfl⟩ := isLine.marked
      obtain ⟨next, read, rest⟩ := Parse.lines_cons running ok
      obtain ⟨-, further⟩ := upon.getline (List.cons_ne_nil _ _)
      have begun : p.startAddress ≠ [] := started.resolve_right fun none => none rfl
      have unempty : p.startAddress.isEmpty = false := by
        cases here : p.startAddress with
        | nil => exact absurd here begun
        | cons _ _ => rfl
      rw [Parse.line_marked isLine, if_neg (by decide), if_pos rfl, Parse.endOfFile] at read
      simp only [unempty, Bool.false_eq_true, if_false] at read
      cases read
      rw [Parse.lines_ended rfl] at rest
      cases rest
      refine ⟨[], ?_, .nil, further⟩
      simp [Parse.pushed, unempty]
  | segment isSegment isFile ih =>
      rw [List.append_assoc] at upon ok
      obtain ⟨upper, aligned⟩ := sane _ List.mem_cons_self
      have behind : _ ++ tail ≠ [] := List.append_ne_nil_of_left_ne_nil isFile.some tail
      obtain ⟨next, rest, recorded, started', running', recordList, upon'⟩ :=
        isSegment.parsed upper aligned running behind upon ok
      obtain ⟨added, records, all, final_upon⟩ := ih
        (fun other member => sane other (List.mem_cons_of_mem _ member))
          (.inl started') running' upon' rest
      apply Exists.intro (next.record :: added)
      refine ⟨?_, .cons recorded all, final_upon⟩
      rw [records, Parse.pushed, if_neg (by simpa using started'), recordList, List.append_assoc]
      rfl

end Parse

section File

variable {segments : List Segment} {text : List Char} {p : Parse}

theorem Upon.ofText (text : List Char) : Upon text (text.splitOn '\n') (.ofText text) := by
  constructor <;> rfl

/-- The records of a file, and the stream from which they are programmed. -/
theorem McsFile.parsed (isFile : McsFile segments text) (some : segments ≠ [])
    (sane : ∀ segment ∈ segments, segment.upper < 2 ^ 12 ∧ segment.offset % 16 = 0)
    (ok : Parse.file text = .ok p) :
    List.Forall₂ (Recorded text) segments p.recordList ∧
      ∃ lines, lines ≠ [] ∧ Upon text lines (p.stream.seekg 0) := by
  obtain ⟨lines, isFile, split⟩ := isFile
  obtain ⟨tail, isSplit⟩ : ∃ tail, text.splitOn '\n' = lines ++ tail := by
    cases split with
    | inl whole => exact ⟨[], whole.trans (List.append_nil _).symm⟩
    | inr newline => exact ⟨[[]], newline⟩
  have begins := Upon.ofText text
  rw [isSplit] at begins
  rw [Parse.file_eq, isSplit] at ok
  obtain ⟨added, records, all, ends⟩ :=
    isFile.parsed (p := .start text) sane (.inr some) rfl begins ok
  obtain rfl : p.recordList = added := records
  constructor
  · exact all
  · apply Exists.intro (lines ++ tail)
    constructor
    · exact List.append_ne_nil_of_left_ne_nil isFile.some tail
    · have back : p.stream.seekg (Stream.ofText text).pos = .ofText text :=
        begins.seekg (List.append_ne_nil_of_left_ne_nil isFile.some tail) ends.text ends.free
      change Upon text (lines ++ tail) (p.stream.seekg (Stream.ofText text).pos)
      rw [back]
      exact begins

end File

/-! ## The second pass -/

theorem left_eq {index length : Nat} (small : index < 2 ^ 32) (le : length ≤ index) :
    Pass.left index length = index - length := by
  have spec := (left_spec small (Nat.lt_of_le_of_lt le small)).2 (index - length)
  rw [Nat.add_sub_cancel' le, Nat.mod_eq_of_lt small, Nat.mod_eq_of_lt (by omega)] at spec
  exact (spec.mpr rfl).symm

theorem gather_zero (rounds : Nat) (data : List Byte) (s : Stream) :
    gather rounds 0 data s = (data, s) := by
  cases rounds with
  | zero => rfl
  | succ rounds => rw [gather, if_pos rfl]

section Second

variable {place : Nat} {data : List Byte} {body more : List (List Char)} {text : List Char}

theorem DataLines.positive (isData : DataLines place data body) : 0 < data.length := by
  cases isData with
  | last some _ _ => exact some
  | more full _ _ =>
      rw [List.length_append, full]
      omega

theorem DataLines.length_le (isData : DataLines place data body) :
    place + data.length ≤ 2 ^ 16 + 15 := by
  induction isData with
  | last _ short isLine =>
      have := isLine.place_lt
      omega
  | more full _ _ ih =>
      rw [List.length_append, full]
      omega

/-- Data lines are gathered whole: their bytes do not cross the end of a half page. -/
theorem DataLines.gathered (isData : DataLines place data body) (rounds : Nat) (before : List Byte)
    {s : Stream} (upon : Upon text (body ++ more) s) (enough : body.length ≤ rounds)
    (even : before.length % 16 = 0) :
    ∃ s', gather rounds data.length before s = (before ++ data, s') ∧ Upon text more s' := by
  induction isData generalizing rounds before s with
  | last some short isLine =>
      obtain ⟨_, rfl⟩ := isLine.marked
      obtain ⟨rounds, rfl⟩ := Nat.exists_eq_add_of_le' enough
      obtain ⟨head, further⟩ := upon.getline (List.cons_ne_nil _ _)
      have taken := isLine.taken before.length (by simp only [writeDataSize]; omega)
      change ∃ s', gather (rounds + 1) _ _ _ = _ ∧ _
      rw [gather, if_neg (by omega), head, isLine.declared, taken,
        left_eq (by omega) (Nat.le_refl _), Nat.sub_self, gather_zero]
      exact ⟨_, rfl, further⟩
  | @more place data rest line lines full isLine isRest ih =>
      obtain ⟨_, rfl⟩ := isLine.marked
      obtain ⟨rounds, rfl⟩ := Nat.exists_eq_add_of_le' enough
      obtain ⟨head, further⟩ := upon.getline (List.cons_ne_nil _ _)
      have taken := isLine.taken before.length (by simp only [writeDataSize]; omega)
      have bound := isRest.length_le
      have left : Pass.left (data ++ rest).length data.length = rest.length := by
        rw [List.length_append, left_eq (by omega) (Nat.le_add_right _ _), Nat.add_sub_cancel_left]
      obtain ⟨s', gathered, upon'⟩ := ih (rounds + lines.length) (before ++ data) further
        (Nat.le_add_left _ _) (by rw [List.length_append]; omega)
      apply Exists.intro s'
      constructor
      · rw [List.length_cons, ← Nat.add_assoc, gather,
          if_neg (by rw [List.length_append]; omega), head, isLine.declared, taken, left, gathered,
          List.append_assoc]
      · exact upon'

/-- The second pass finds the data of a segment. -/
theorem Recorded.bytes {segment : Segment} {record : ElaRecord}
    {lines : List (List Char)} {s : Stream}
    (recorded : Recorded text segment record) (upon : Upon text lines s) (some : lines ≠ []) :
    ∃ s' more, record.bytes s = (segment.data, s') ∧ more ≠ [] ∧ Upon text more s' := by
  obtain ⟨s₀, body, more, there, position, behind, isData⟩ := recorded.found
  have ahead : body ++ more ≠ [] := List.append_ne_nil_of_right_ne_nil _ behind
  have enough := there.length_le
  rw [List.length_append] at enough
  obtain ⟨s', gathered, upon'⟩ := isData.gathered (s.text.length + 3) [] there
    (by rw [upon.text]; omega) rfl
  apply Exists.intro s'
  apply Exists.intro more
  refine ⟨?_, behind, upon'⟩
  rw [ElaRecord.bytes, there.seek ahead upon some position, recorded.holds.count]
  exact gathered

/-- What is programmed for a segment. -/
structure Loaded (shift : Nat) (segment : Segment) (entry : ElaRecord × List Byte) : Prop where
  start : entry.1.startAddress = segment.start + shift
  count : entry.1.dataCount = segment.data.length
  bytes : entry.2 = segment.data

theorem Recorded.loaded {segments : List Segment} {records : List ElaRecord} {shift : Nat}
    {lines : List (List Char)} {s : Stream} (all : List.Forall₂ (Recorded text) segments records)
    (small : ∀ segment ∈ segments, segment.start + shift < 2 ^ 32) (upon : Upon text lines s)
    (some : lines ≠ []) :
    List.Forall₂ (Loaded shift) segments (withBytes s (records.map (.shifted shift))) := by
  induction all generalizing s lines with
  | nil => exact .nil
  | @cons segment record segments records recorded rest ih =>
      obtain ⟨s', more, found, behind, upon'⟩ := recorded.bytes upon some
      have same : (record.shifted shift).bytes s = (segment.data, s') := found
      obtain ⟨_, _, _, _, _, _, isData⟩ := recorded.found
      have positive := isData.positive
      rw [List.map_cons, withBytes, same]
      apply List.Forall₂.cons
      · constructor
        · show u32 (record.startAddress + shift) = segment.start + shift
          rw [recorded.holds.start, if_neg (Nat.ne_of_gt positive), u32,
            Nat.mod_eq_of_lt (small segment List.mem_cons_self)]
        · exact recorded.holds.count
        · rfl
      · exact ih (fun other member => small other (List.mem_cons_of_mem _ member)) upon' behind

end Second

end OpaeXilinx.Flash
