import Mathlib.Algebra.Group.Int.Defs
import Mathlib.Algebra.Group.Nat.Defs
import Mathlib.Tactic.SplitIfs

/-!
# MCS files

The text of an MCS file, read through an `std::istream`, and the parse loop of
`xclUpgradeFirmwareXSpi` that turns it into a list of ELA records.  A line is
`:LLAAAATT` followed by the data and a checksum: a length, an address and a type, each
read with `std::stoi` to the base 16, with all that it lets through.
-/

namespace OpaeXilinx.Flash

/-- Values of `unsigned`. -/
def u32 (value : Nat) : Nat := value % 2 ^ 32

/-- How a function ends other than by returning 0 or `true`. -/
inductive Stop where
  /-- A flash operation has returned `false`. -/
  | flash
  | einval | enoent | enxio | eacces
  /-- `exit` has been called, an assertion has failed, or an exception is not caught. -/
  | exit
  | assertion
  | exception
  /-- A loop has been cut off. -/
  | cutOff
  deriving DecidableEq, Repr

/-- `isspace`. -/
def isSpace (c : Char) : Bool := c == ' ' || (9 ≤ c.toNat && c.toNat ≤ 13)

/-- The value of a hexadecimal digit. -/
def hexDigit (c : Char) : Option Nat :=
  if '0' ≤ c ∧ c ≤ '9' then some (c.toNat - 48)
  else if 'a' ≤ c ∧ c ≤ 'f' then some (c.toNat - 87)
  else if 'A' ≤ c ∧ c ≤ 'F' then some (c.toNat - 55)
  else none

/-- The digits at the start of a text. -/
def hexDigits : List Char → List Nat
  | [] => []
  | c :: text => match hexDigit c with
    | none => []
    | some digit => digit :: hexDigits text

/-- An optional `0x`, which counts only with a digit behind it. -/
def skipHexMark (text : List Char) : List Char :=
  match text with
  | '0' :: x :: digit :: rest =>
      if (x = 'x' ∨ x = 'X') ∧ (hexDigit digit).isSome then digit :: rest else text
  | _ => text

/-- The sign of a number, and the text behind it. -/
def splitSign : List Char → Bool × List Char
  | '-' :: text => (true, text)
  | '+' :: text => (false, text)
  | text => (false, text)

/-- `std::stoi` to the base 16; `none` is an exception. -/
def stoi (text : List Char) : Option Int :=
  let (negative, text) := splitSign (text.dropWhile isSpace)
  match hexDigits (skipHexMark text) with
  | [] => none
  | digits =>
      let magnitude : Nat := digits.foldl (fun value digit => 16 * value + digit) 0
      let value : Int := if negative then -magnitude else magnitude
      if value < -2 ^ 31 ∨ 2 ^ 31 ≤ value then none else some value

/-- `std::string::substr`; `none` is an exception. -/
def substr (text : List Char) (pos count : Nat) : Option (List Char) :=
  if pos ≤ text.length then some ((text.drop pos).take count) else none

/-- A number in a line, as an `unsigned`. -/
def field (line : List Char) (pos count : Nat) : Option Nat :=
  ((substr line pos count).bind stoi).map fun value => (value % 2 ^ 32).toNat

/-- The fields of a line. -/
def dataLen (line : List Char) : Option Nat := field line 1 2
def address (line : List Char) : Option Nat := field line 3 4
def recordType (line : List Char) : Option Nat := field line 7 2

/-- `std::istream` over a file. -/
structure Stream where
  text : List Char
  pos : Nat
  eofbit : Bool
  failbit : Bool
  deriving DecidableEq, Repr

namespace Stream

def ofText (text : List Char) : Stream := ⟨text, 0, false, false⟩

/-- `std::getline`. -/
def getline (s : Stream) : List Char × Stream :=
  if s.eofbit || s.failbit then ([], { s with failbit := true })
  else
    let rest := s.text.drop s.pos
    let line := rest.takeWhile (· != '\n')
    if line.length < rest.length then (line, { s with pos := s.pos + line.length + 1 })
    else (line, { s with
      pos := s.pos + line.length, eofbit := true, failbit := rest.isEmpty })

/-- `tellg`, which fails at the end of the file. -/
def tellg (s : Stream) : Int × Stream :=
  if s.eofbit || s.failbit then (-1, { s with failbit := true }) else (s.pos, s)

/-- `seekg`, which forgets that the end of the file has been met, but not a failure. -/
def seekg (s : Stream) (pos : Int) : Stream :=
  if s.failbit then { s with eofbit := false }
  else if pos < 0 then { s with eofbit := false, failbit := true }
  else { s with eofbit := false, pos := pos.toNat }

end Stream

/-- `struct ELARecord`, with the data lines that have been counted into it. -/
structure ElaRecord where
  startAddress : Nat
  endAddress : Nat
  dataCount : Nat
  dataPos : Int
  counted : List (List Char)
  deriving DecidableEq, Repr

def ElaRecord.empty : ElaRecord := ⟨0, 0, 0, 0, []⟩

/-- Variables of the parse loop. -/
structure Parse where
  stream : Stream
  record : ElaRecord
  startAddress : List Char
  recordList : List ElaRecord
  endRecordFound : Bool
  deriving DecidableEq, Repr

namespace Parse

/-- The first line of data moves the start of the record; all others have to follow on. -/
def place (record : ElaRecord) (address : Nat) : Except Stop ElaRecord :=
  if address = u32 (record.dataCount + record.startAddress % 2 ^ 16) then .ok record
  else if record.dataCount = 0 then
    if record.startAddress = 0 ∨ record.endAddress = 0 then .error .assertion
    else .ok { record with
      startAddress := u32 (record.startAddress + address)
      endAddress := u32 (record.endAddress + address) }
  else .error .einval

/-- Type 00: data. -/
def data (p : Parse) (line : List Char) (dataLen address : Nat) : Except Stop Parse :=
  if 16 < dataLen then .error .einval
  else match place p.record address with
    | .error stop => .error stop
    | .ok record => .ok { p with record := { record with
        dataCount := u32 (record.dataCount + dataLen)
        endAddress := u32 (record.endAddress + dataLen)
        counted := record.counted ++ [line] } }

/-- Type 01: the end of the file, once a record has been started. -/
def endOfFile (p : Parse) : Parse :=
  if p.startAddress.isEmpty then p
  else { p with recordList := p.recordList ++ [p.record], endRecordFound := true }

/-- Type 04: a new record, which ends the old one. -/
def extendedAddress (p : Parse) (line : List Char) (dataLen address : Nat) : Except Stop Parse :=
  if address ≠ 0 then .error .einval
  else if dataLen ≠ 2 then .error .einval
  else match substr line 9 (dataLen * 2) with
    | none => .error .exception
    | some newAddress => match stoi newAddress with
      | none => .error .exception
      | some value =>
          let start := u32 ((value % 2 ^ 32).toNat * 2 ^ 16)
          let (dataPos, stream) := p.stream.tellg
          .ok { p with
            stream := stream
            record := ⟨start, start, 0, dataPos, []⟩
            startAddress := newAddress
            recordList := if p.startAddress.isEmpty then p.recordList
              else p.recordList ++ [p.record] }

/-- The body of the loop, once a line has been read. -/
def line (p : Parse) (line : List Char) : Except Stop Parse :=
  match line with
  | [] => .ok p
  | first :: _ =>
      if first ≠ ':' then .error .einval
      else match dataLen line, address line, recordType line with
        | some dataLen, some address, some recordType =>
            if recordType = 0 then p.data line dataLen address
            else if recordType = 1 then .ok p.endOfFile
            else if recordType = 2 then .error .assertion
            else if recordType = 4 then p.extendedAddress line dataLen address
            else .ok p
        | _, _, _ => .error .exception

/-- The loop, with a bound on its rounds. -/
def loop : Nat → Parse → Except Stop Parse
  | 0, _ => .error .cutOff
  | rounds + 1, p =>
      if p.stream.eofbit || p.endRecordFound then .ok p
      else
        let (text, stream) := p.stream.getline
        match Parse.line { p with stream := stream } text with
        | .error stop => .error stop
        | .ok p => loop rounds p

def start (text : List Char) : Parse := ⟨.ofText text, .empty, [], [], false⟩

/-- The parse loop over a file.  Every round but the last takes a character. -/
def file (text : List Char) : Except Stop Parse := loop (text.length + 2) (.start text)

end Parse

section Inversion

variable {p next : Parse} {text : List Char} {length place : Nat}

theorem Parse.data_ok (ok : p.data text length place = .ok next) :
    length ≤ 16 ∧ ∃ record, Parse.place p.record place = .ok record ∧
      next = { p with record := { record with
        dataCount := u32 (record.dataCount + length)
        endAddress := u32 (record.endAddress + length)
        counted := record.counted ++ [text] } } := by
  rw [Parse.data] at ok
  split at ok
  · cases ok
  next short =>
    split at ok
    · cases ok
    next record placed =>
      cases ok
      exact ⟨Nat.not_lt.mp short, record, placed, rfl⟩

theorem Parse.extendedAddress_ok (ok : p.extendedAddress text length place = .ok next) :
    ∃ newAddress value, substr text 9 (length * 2) = some newAddress ∧
      stoi newAddress = some value ∧
      next = { p with
        stream := p.stream.tellg.2
        record := ⟨u32 ((value % 2 ^ 32).toNat * 2 ^ 16), u32 ((value % 2 ^ 32).toNat * 2 ^ 16), 0,
          p.stream.tellg.1, []⟩
        startAddress := newAddress
        recordList := if p.startAddress.isEmpty then p.recordList
          else p.recordList ++ [p.record] } := by
  rw [Parse.extendedAddress] at ok
  split at ok
  · cases ok
  split at ok
  · cases ok
  split at ok
  · cases ok
  next newAddress found =>
    split at ok
    · cases ok
    next value read =>
      cases ok
      exact ⟨newAddress, value, found, read, rfl⟩

/-- What a line can do that is accepted. -/
theorem Parse.line_ok (ok : p.line text = .ok next) :
    text = [] ∧ next = p ∨
    text.head? = some ':' ∧ ∃ length place type, dataLen text = some length ∧
      address text = some place ∧ recordType text = some type ∧
      (type = 0 ∧ p.data text length place = .ok next ∨
        type = 1 ∧ next = p.endOfFile ∨
        type = 4 ∧ p.extendedAddress text length place = .ok next ∨
        type ≠ 0 ∧ type ≠ 1 ∧ type ≠ 4 ∧ next = p) := by
  rw [Parse.line.eq_def] at ok
  split at ok
  · cases ok
    exact .inl ⟨rfl, rfl⟩
  next first rest =>
    split at ok
    · cases ok
    next colon =>
      have marked : (first :: rest).head? = some ':' := by simpa using colon
      split at ok
      next length place type hasLength hasPlace hasType =>
        refine .inr ⟨marked, length, place, type, hasLength, hasPlace, hasType, ?_⟩
        split_ifs at ok with data done segment linear
        · exact .inl ⟨data, ok⟩
        · cases ok
          exact .inr (.inl ⟨done, rfl⟩)
        · exact .inr (.inr (.inl ⟨linear, ok⟩))
        · cases ok
          exact .inr (.inr (.inr ⟨data, done, linear, rfl⟩))
      next => cases ok

end Inversion

end OpaeXilinx.Flash
