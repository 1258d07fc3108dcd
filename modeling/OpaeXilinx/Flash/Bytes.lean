import OpaeXilinx.Flash.Xspi

/-!
# The bytes and the addresses of records

Which bytes the text has for each record, and which addresses the flasher goes to for them:
the erase loop steps from the start of the record to its end, and the bytes are written in
half pages.  Both are functions of the file alone, whatever the flash does.
-/

namespace OpaeXilinx.Flash

open OpaeXilinx.Base

/-- The length that a line declares. -/
def declared (line : List Char) : Nat := (dataLen line).getD 0

/-- What is still to come behind a line. -/
@[irreducible]
def Pass.left (index dataLen : Nat) : Nat := u32 (index + 2 ^ 32 - dataLen)

/-- The stream in which the data of a record come next. -/
def ElaRecord.seek (record : ElaRecord) (stream : Stream) : Stream :=
  stream.tellg.2.seekg record.dataPos

/-- The byte that two digits stand for. -/
def digitsByte (text : List Char) : Byte := .ofInt 8 ((stoi text).getD 0)

def digitsBytes : List Char → List Byte
  | [] => []
  | [digit] => [digitsByte [digit]]
  | high :: low :: data => digitsByte [high, low] :: digitsBytes data

/-- The bytes of a line that fit into the half page, behind those that have come before. -/
def lineTaken (line : List Char) (before : Nat) : List Byte :=
  if recordType line = some 0 then
    (digitsBytes ((substr line 9 (u32 (declared line * 2))).getD [])).take
      (writeDataSize - before % writeDataSize)
  else []

/-- Add the bytes of lines, until their declared lengths have used up what is to come. -/
def gather : Nat → Nat → List Byte → Stream → List Byte × Stream
  | 0, _, data, s => (data, s)
  | rounds + 1, index, data, s =>
      if index = 0 then (data, s)
      else gather rounds (Pass.left index (declared s.getline.1))
        (data ++ lineTaken s.getline.1 data.length) s.getline.2

/-- What has been gathered is kept. -/
theorem length_le_gather (rounds index : Nat) (data : List Byte) (s : Stream) :
    data.length ≤ (gather rounds index data s).1.length := by
  induction rounds generalizing index data s with
  | zero => exact Nat.le_refl _
  | succ rounds ih =>
      rw [gather]
      split
      · exact Nat.le_refl _
      · refine Nat.le_trans ?_ (ih _ _ _)
        rw [List.length_append]
        exact Nat.le_add_right _ _

/-- The bytes that the text has for a record, and the stream behind them. -/
def ElaRecord.bytes (record : ElaRecord) (s : Stream) : List Byte × Stream :=
  gather (s.text.length + 3) record.dataCount [] (record.seek s)

/-- The records of a file, each with its bytes. -/
def withBytes : Stream → List ElaRecord → List (ElaRecord × List Byte)
  | _, [] => []
  | s, record :: rest => (record, (record.bytes s).1) :: withBytes (record.bytes s).2 rest

/-- The stream behind the bytes of all records. -/
def streamBehind : Stream → List ElaRecord → Stream
  | s, [] => s
  | s, record :: rest => streamBehind (record.bytes s).2 rest

/-- How far the records are shifted. -/
def shiftOf (guardStart : Nat) : Nat := if guardStart ≠ 0 then bitstreamGuardSize else 0

/-- The records as they are programmed. -/
def shiftedRecords (guardStart : Nat) (records : List ElaRecord) : List ElaRecord :=
  records.map (.shifted (shiftOf guardStart))

/-- The erase loop comes from one address to another before it reaches the last. -/
inductive Swept (last : Nat) : Nat → Nat → Prop
  | here {j : Nat} : j < last → Swept last j j
  | later {j address : Nat} : j < last → Swept last (u32 (j + 0x1000)) address →
      Swept last j address

/-- The start of a half page of so many bytes. -/
def ElaRecord.PagesAt (record : ElaRecord) (count address : Nat) : Prop :=
  ∃ k, writeDataSize * k < count ∧ address = record.pageAddress k

/-- An erase or a half page for the records goes to the address. -/
def GoesTo (s : Stream) (records : List ElaRecord) (address : Nat) : Prop :=
  ∃ entry ∈ withBytes s records, Swept entry.1.endAddress entry.1.startAddress address ∨
    entry.1.PagesAt entry.2.length address

theorem GoesTo.of_swept {s : Stream} {records : List ElaRecord} {record : ElaRecord} {address : Nat}
    (member : record ∈ records) (swept : Swept record.endAddress record.startAddress address) :
    GoesTo s records address := by
  induction records generalizing s with
  | nil => cases member
  | cons first rest ih =>
      rcases List.mem_cons.mp member with rfl | later
      · exact ⟨_, List.mem_cons_self, .inl swept⟩
      · obtain ⟨entry, inRest, goes⟩ := ih later
        exact ⟨entry, List.mem_cons_of_mem _ inRest, goes⟩

/-- A record with its bytes lies in a range. -/
structure LiesIn (lower upper : Nat) (entry : ElaRecord × List Byte) : Prop where
  start : lower ≤ entry.1.startAddress
  ends : entry.1.endAddress ≤ upper
  bytes : entry.1.startAddress + entry.2.length ≤ upper

instance (lower upper : Nat) (entry : ElaRecord × List Byte) : Decidable (LiesIn lower upper entry) :=
  decidable_of_iff (lower ≤ entry.1.startAddress ∧ entry.1.endAddress ≤ upper ∧
      entry.1.startAddress + entry.2.length ≤ upper)
    ⟨fun ⟨start, ends, bytes⟩ => ⟨start, ends, bytes⟩, fun lies => ⟨lies.start, lies.ends, lies.bytes⟩⟩

/-- In a range that ends a step before the addresses do, the loop does not come round. -/
theorem Swept.range {lower last upper j address : Nat} (swept : Swept last j address)
    (start : lower ≤ j) (ends : last ≤ upper) (room : upper + 0x1000 ≤ 2 ^ 32) :
    lower ≤ address ∧ address < upper := by
  induction swept with
  | here before => exact ⟨start, Nat.lt_of_lt_of_le before ends⟩
  | later before _ ih =>
      apply ih
      rw [u32, Nat.mod_eq_of_lt (by omega)]
      omega

theorem GoesTo.range {s : Stream} {records : List ElaRecord} {lower upper address : Nat}
    (goes : GoesTo s records address) (room : upper + 0x1000 ≤ 2 ^ 32)
    (lie : ∀ entry ∈ withBytes s records, LiesIn lower upper entry) :
    lower ≤ address ∧ address < upper := by
  obtain ⟨entry, member, swept | ⟨k, inside, rfl⟩⟩ := goes
  · exact swept.range (lie entry member).start (lie entry member).ends room
  · have lies := lie entry member
    have start := lies.start
    have bytes := lies.bytes
    rw [ElaRecord.pageAddress, u32, Nat.mul_comm k, Nat.mod_eq_of_lt (by omega)]
    omega

end OpaeXilinx.Flash
