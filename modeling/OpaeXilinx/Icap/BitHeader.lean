import Mathlib.Data.List.Basic
import Mathlib.Tactic.NormNum

/-!
# The header of a bit file

A bit file starts with a magic string, four tagged text fields and the length of the
configuration data that follows.  `bitstream_parse_header` reads it from the first
kilobyte of the user's buffer with a running index that it never compares with the
size of that buffer.
-/

namespace OpaeXilinx.Icap

abbrev Byte := BitVec 8

/-- `DMA_HWICAP_BITFILE_BUFFER_SIZE`. -/
def bufferSize : Nat := 1024

/-- `XHI_EVEN_MAGIC_BYTE`. -/
def evenMagicByte : Byte := 0x0f

/-- `XHI_ODD_MAGIC_BYTE`. -/
def oddMagicByte : Byte := 0xf0

/-- `XHwIcap_Bit_Header`. -/
structure BitHeader where
  headerLength : Nat
  bitstreamLength : Nat
  designName : List Byte
  partName : List Byte
  date : List Byte
  time : List Byte
  magicLength : Nat
  deriving DecidableEq, Repr

/-- How the parser stops early: it returns -1, or it accesses memory it does not own. -/
inductive Halt where
  | invalid
  | fault
  deriving DecidableEq, Repr

/-- The text fields of the header, in file order. -/
inductive Field where
  | designName | partName | date | time
  deriving DecidableEq, Repr

/-- Letter in front of a field. -/
def Field.tag : Field → Byte
  | .designName => 0x61
  | .partName => 0x62
  | .date => 0x63
  | .time => 0x64

/-- A computation over the running index. -/
abbrev Parser := StateT Nat (Except Halt)

section Parser

variable (data : Nat → Byte)

/-- `Data[Index++]`. -/
def next : Parser Byte := fun index =>
  if index < bufferSize then .ok (data index, index + 1) else .error .fault

/-- Two bytes, the most significant first. -/
def nextHalf : Parser Nat := do
  let high ← next data
  let low ← next data
  return high.toNat * 256 + low.toNat

/-- The loop over the magic bytes, from position `i` on. -/
def readMagic : (count i : Nat) → Parser Unit
  | 0, _ => pure ()
  | count + 1, i => do
      let tmp ← next data
      if i % 2 = 0 ∧ tmp ≠ evenMagicByte then throw .invalid
      if i % 2 = 1 ∧ tmp ≠ oddMagicByte then throw .invalid
      readMagic count (i + 1)

/-- A given number of bytes. -/
def readBytes : Nat → Parser (List Byte)
  | 0 => pure []
  | count + 1 => do
      let byte ← next data
      let rest ← readBytes count
      return byte :: rest

/-- A tagged text field.  The result of `kmalloc` is not checked, and the last byte
is looked at also when there is none. -/
def readField (kmallocOk : Field → Bool) (field : Field) : Parser (List Byte) := do
  let tmp ← next data
  if tmp ≠ field.tag then throw .invalid
  let len ← nextHalf data
  if kmallocOk field = false then throw .fault
  let text ← readBytes data len
  match text.getLast? with
  | none => throw .fault
  | some last => if last ≠ 0 then throw .invalid else return text

def bitstreamParseHeader (kmallocOk : Field → Bool) : Parser BitHeader := do
  let magicLength ← nextHalf data
  -- an unsigned loop bound: a zero length wraps around
  readMagic data ((magicLength + (2 ^ 32 - 1)) % 2 ^ 32) 0
  let _ ← next data
  let tmp ← nextHalf data
  if tmp ≠ 1 then throw .invalid
  let designName ← readField data kmallocOk .designName
  let partName ← readField data kmallocOk .partName
  let date ← readField data kmallocOk .date
  let time ← readField data kmallocOk .time
  let tmp ← next data
  if tmp ≠ 0x65 then throw .invalid
  let high ← nextHalf data
  let low ← nextHalf data
  let index ← get
  return ⟨index, high * 65536 + low, designName, partName, date, time, magicLength⟩

end Parser

/-! ## The format -/

/-- The two bytes of a half word, the most significant first. -/
def halfBytes (value : Nat) : List Byte := [BitVec.ofNat 8 (value / 256), BitVec.ofNat 8 value]

@[simp] theorem halfBytes_length (value : Nat) : (halfBytes value).length = 2 := rfl

/-- Alternating magic bytes from position `i` on. -/
def magicBytes : (count i : Nat) → List Byte
  | 0, _ => []
  | count + 1, i => (if i % 2 = 0 then evenMagicByte else oddMagicByte) :: magicBytes count (i + 1)

/-- A field of a valid header: its text, with the closing zero. -/
def fieldBytes (field : Field) (text : List Byte) : List Byte :=
  field.tag :: (halfBytes text.length ++ text)

@[simp] theorem magicBytes_length (count i : Nat) : (magicBytes count i).length = count := by
  induction count generalizing i with
  | zero => rfl
  | succ count ih => simp [magicBytes, ih]

@[simp] theorem fieldBytes_length (field : Field) (text : List Byte) :
    (fieldBytes field text).length = text.length + 3 := by
  simp [fieldBytes]
  omega

/-- A zero-terminated text whose length fits the header's half word. -/
def IsText (text : List Byte) : Prop := text.getLast? = some 0 ∧ text.length < 2 ^ 16

/-- A valid header, by its contents. -/
structure ValidHeader where
  /-- Length of the magic string with its closing zero. -/
  magicLength : Nat
  text : Field → List Byte
  /-- Length of the configuration data. -/
  bitstreamLength : Nat
  magic_pos : 1 ≤ magicLength
  magic_lt : magicLength < 2 ^ 16
  isText : ∀ field, IsText (text field)
  bitstream_lt : bitstreamLength < 2 ^ 32

/-- The bytes of a valid header. -/
def ValidHeader.bytes (header : ValidHeader) : List Byte :=
  halfBytes header.magicLength ++ (magicBytes (header.magicLength - 1) 0 ++ (0 :: (halfBytes 1 ++
    (fieldBytes .designName (header.text .designName) ++
    (fieldBytes .partName (header.text .partName) ++
    (fieldBytes .date (header.text .date) ++
    (fieldBytes .time (header.text .time) ++
    (0x65 :: (halfBytes (header.bitstreamLength / 65536) ++
      halfBytes header.bitstreamLength)))))))))

theorem ValidHeader.bytes_length (header : ValidHeader) :
    header.bytes.length = 0 + 2 + (header.magicLength - 1) + 1 + 2 +
      ((header.text .designName).length + 3) + ((header.text .partName).length + 3) +
      ((header.text .date).length + 3) + ((header.text .time).length + 3) + 1 + 2 + 2 := by
  simp only [ValidHeader.bytes, List.length_append, List.length_cons, fieldBytes_length,
    halfBytes_length, magicBytes_length]
  omega

/-- The buffer holds the given bytes from an index on. -/
def Reads (data : Nat → Byte) (index : Nat) : List Byte → Prop
  | [] => True
  | byte :: rest => index < bufferSize ∧ data index = byte ∧ Reads data (index + 1) rest

theorem reads_append {data : Nat → Byte} {index : Nat} {first second : List Byte} :
    Reads data index (first ++ second) ↔
      Reads data index first ∧ Reads data (index + first.length) second := by
  induction first generalizing index with
  | nil => simp [Reads]
  | cons byte first ih =>
      simp only [List.cons_append, Reads, ih, List.length_cons, and_assoc]
      rw [show index + 1 + first.length = index + (first.length + 1) by omega]

/-- A buffer that agrees with a list holds it. -/
theorem reads_of_getElem {data : Nat → Byte} {index : Nat} {bytes : List Byte}
    (fits : index + bytes.length ≤ bufferSize)
    (agree : ∀ k (inside : k < bytes.length), data (index + k) = bytes[k]) :
    Reads data index bytes := by
  induction bytes generalizing index with
  | nil => trivial
  | cons byte bytes ih =>
      rw [List.length_cons] at fits
      refine ⟨by omega, agree 0 (Nat.succ_pos _), ih (by omega) fun k inside => ?_⟩
      have shifted := agree (k + 1) (by simpa using inside)
      rw [show index + 1 + k = index + (k + 1) by omega]
      simpa using shifted

/-- A successful computation passes its result and index on. -/
theorem bind_ok {α β : Type} {first : Parser α} {rest : α → Parser β} {index after : Nat}
    {value : α} (ok : first index = .ok (value, after)) :
    (first >>= rest) index = rest value after := by
  show (first index >>= fun pair => rest pair.1 pair.2) = _
  rw [ok]
  rfl

/-- A failing computation is the end. -/
theorem bind_error {α β : Type} {first : Parser α} {rest : α → Parser β} {index : Nat} {halt : Halt}
    (failed : first index = .error halt) : (first >>= rest) index = .error halt := by
  show (first index >>= fun pair => rest pair.1 pair.2) = _
  rw [failed]
  rfl

section Accept

variable {data : Nat → Byte} {index : Nat}

theorem next_ok {byte : Byte} (reads : Reads data index [byte]) :
    next data index = .ok (byte, index + 1) := by
  obtain ⟨inside, here, -⟩ := reads
  simp [next, inside, here]

theorem nextHalf_ok {value : Nat} (reads : Reads data index (halfBytes value)) :
    nextHalf data index = .ok (value % 2 ^ 16, index + 2) := by
  obtain ⟨highInside, high, lowInside, low, -⟩ := reads
  rw [nextHalf, bind_ok (next_ok ⟨highInside, high, trivial⟩),
    bind_ok (next_ok ⟨lowInside, low, trivial⟩)]
  have joined : (BitVec.ofNat 8 (value / 256)).toNat * 256 + (BitVec.ofNat 8 value).toNat =
      value % 2 ^ 16 := by
    simp only [BitVec.toNat_ofNat]
    omega
  rw [joined]
  rfl

theorem readMagic_ok {count i : Nat} (reads : Reads data index (magicBytes count i)) :
    readMagic data count i index = .ok ((), index + count) := by
  induction count generalizing i index with
  | zero => rfl
  | succ count ih =>
      obtain ⟨inside, here, rest⟩ := reads
      rw [readMagic, bind_ok (next_ok ⟨inside, here, trivial⟩)]
      have even : ¬ (i % 2 = 0 ∧
          (if i % 2 = 0 then evenMagicByte else oddMagicByte) ≠ evenMagicByte) := by
        rintro ⟨parity, wrong⟩
        exact wrong (if_pos parity)
      have odd : ¬ (i % 2 = 1 ∧
          (if i % 2 = 0 then evenMagicByte else oddMagicByte) ≠ oddMagicByte) := by
        rintro ⟨parity, wrong⟩
        exact wrong (if_neg (by omega))
      simp only [if_neg even, if_neg odd]
      rw [show index + (count + 1) = index + 1 + count by omega]
      exact ih rest

theorem readBytes_ok {bytes : List Byte} (reads : Reads data index bytes) :
    readBytes data bytes.length index = .ok (bytes, index + bytes.length) := by
  induction bytes generalizing index with
  | nil => rfl
  | cons byte bytes ih =>
      obtain ⟨inside, here, rest⟩ := reads
      rw [List.length_cons, readBytes, bind_ok (next_ok ⟨inside, here, trivial⟩),
        bind_ok (ih rest), show index + (bytes.length + 1) = index + 1 + bytes.length by omega]
      rfl

/-- A field of a valid header is read, unless its allocation fails. -/
theorem readField_eq (kmallocOk : Field → Bool) {field : Field} {text : List Byte}
    (isText : IsText text) (reads : Reads data index (fieldBytes field text)) :
    readField data kmallocOk field index =
      if kmallocOk field then .ok (text, index + (text.length + 3)) else .error .fault := by
  obtain ⟨inside, here, rest⟩ := reads
  obtain ⟨lengthReads, textReads⟩ := reads_append.mp rest
  rw [halfBytes_length] at textReads
  obtain ⟨closed, short⟩ := isText
  rw [readField, bind_ok (next_ok ⟨inside, here, trivial⟩)]
  simp only [ne_eq, not_true_eq_false, if_false]
  rw [bind_ok (nextHalf_ok lengthReads), Nat.mod_eq_of_lt short]
  cases granted : kmallocOk field with
  | false => rfl
  | true =>
      simp only [Bool.true_eq_false, if_false, if_true]
      rw [bind_ok (readBytes_ok textReads)]
      simp only [closed, not_true_eq_false, if_false]
      rw [show index + (text.length + 3) = index + 1 + 2 + text.length by omega]
      rfl

/-- What the parser makes of a valid header. -/
def ValidHeader.parsed (header : ValidHeader) : BitHeader :=
  ⟨header.bytes.length, header.bitstreamLength, header.text .designName, header.text .partName,
    header.text .date, header.text .time, header.magicLength⟩

/-- The parser accepts every valid header and finds its length, unless an allocation
fails. -/
theorem bitstreamParseHeader_eq (kmallocOk : Field → Bool) (header : ValidHeader)
    (reads : Reads data 0 header.bytes) :
    bitstreamParseHeader data kmallocOk 0 = .ok (header.parsed, header.bytes.length) ∨
      bitstreamParseHeader data kmallocOk 0 = .error .fault ∧ ∃ field, kmallocOk field = false := by
  simp only [ValidHeader.bytes, reads_append, Reads, fieldBytes_length, halfBytes_length,
    magicBytes_length] at reads
  obtain ⟨length, magic, zeroInside, zero, one, design, part, date, time, tagInside,
      tag, high, low⟩ := reads
  have count : (header.magicLength + (2 ^ 32 - 1)) % 2 ^ 32 = header.magicLength - 1 := by
    have positive := header.magic_pos
    have small := header.magic_lt
    omega
  rw [bitstreamParseHeader, bind_ok (nextHalf_ok length), Nat.mod_eq_of_lt header.magic_lt, count,
    bind_ok (readMagic_ok magic), bind_ok (next_ok ⟨zeroInside, zero, trivial⟩),
    bind_ok (nextHalf_ok one)]
  simp only [Nat.reducePow, Nat.reduceMod, ne_eq, not_true_eq_false, if_false]
  have design := readField_eq kmallocOk (header.isText _) design
  have part := readField_eq kmallocOk (header.isText _) part
  have date := readField_eq kmallocOk (header.isText _) date
  have time := readField_eq kmallocOk (header.isText _) time
  -- the fields in file order: each is read, or its allocation fails and ends the parse
  cases designOk : kmallocOk .designName with
  | false => exact .inr ⟨bind_error (by simpa [designOk] using design), .designName, designOk⟩
  | true =>
  rw [bind_ok (by simpa [designOk] using design)]
  cases partOk : kmallocOk .partName with
  | false => exact .inr ⟨bind_error (by simpa [partOk] using part), .partName, partOk⟩
  | true =>
  rw [bind_ok (by simpa [partOk] using part)]
  cases dateOk : kmallocOk .date with
  | false => exact .inr ⟨bind_error (by simpa [dateOk] using date), .date, dateOk⟩
  | true =>
  rw [bind_ok (by simpa [dateOk] using date)]
  cases timeOk : kmallocOk .time with
  | false => exact .inr ⟨bind_error (by simpa [timeOk] using time), .time, timeOk⟩
  | true =>
  rw [bind_ok (by simpa [timeOk] using time), bind_ok (next_ok ⟨tagInside, tag, trivial⟩)]
  simp only [not_true_eq_false, if_false]
  rw [bind_ok (nextHalf_ok high), bind_ok (nextHalf_ok low)]
  have joined : header.bitstreamLength / 65536 % 2 ^ 16 * 65536 + header.bitstreamLength % 2 ^ 16 =
      header.bitstreamLength := by
    have small := header.bitstream_lt
    omega
  rw [joined, ValidHeader.parsed, header.bytes_length]
  exact .inl rfl

end Accept

end OpaeXilinx.Icap
