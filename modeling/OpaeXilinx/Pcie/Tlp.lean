import Mathlib.Data.List.Infix

/-!
# Requests and completions on the streams of the PCIe core

The bridge `pcie_2_axilite` takes memory requests from the completer request stream and puts
completions on the completer completion stream.  Both are read here as the descriptors of
the core describe them; 256 bits make a beat.  In one thing what a request asks for follows the
bridge: the second word of a write has the byte enables of the first, and `last_be` of the
stream, which the bridge does not look at, is left out.
-/

namespace OpaeXilinx.Pcie

abbrev Word := BitVec 32
abbrev Beat := BitVec 256

section Descriptor

variable (tdata : Beat)

def address : Word := tdata.extractLsb' 0 32
def lowerAddr : BitVec 7 := tdata.extractLsb' 0 7
def dwordCount : BitVec 11 := tdata.extractLsb' 64 11
def reqType : BitVec 4 := tdata.extractLsb' 75 4
def requesterId : BitVec 16 := tdata.extractLsb' 80 16
def tagOf : BitVec 8 := tdata.extractLsb' 96 8
def completerFunc : BitVec 1 := tdata.extractLsb' 104 1
def barHit : BitVec 3 := tdata.extractLsb' 112 3
def trafficClass : BitVec 3 := tdata.extractLsb' 121 3
def attrOf : BitVec 3 := tdata.extractLsb' 124 3
def writeData : BitVec 64 := tdata.extractLsb' 128 64

end Descriptor

/-- The first beat of a packet, with `first_be` of `tuser`. -/
structure Request where
  tdata : Beat
  firstBe : BitVec 4
  deriving DecidableEq, Repr

/-- What a packet asks for.  The bridge serves requests of one or two double words; a longer
read gets a completion with Unsupported Request, a longer write is dropped. -/
inductive Kind where
  | read (two : Bool)
  | write (two : Bool)
  | longRead
  | longWrite
  | other
  deriving DecidableEq, Repr

namespace Request

def kind (t : Request) : Kind :=
  if reqType t.tdata = 0#4 then
    if dwordCount t.tdata = 1#11 then .read false
    else if dwordCount t.tdata = 2#11 then .read true
    else .longRead
  else if reqType t.tdata = 1#4 then
    if dwordCount t.tdata = 1#11 then .write false
    else if dwordCount t.tdata = 2#11 then .write true
    else .longWrite
  else .other

/-- A memory read is answered by a completion. -/
def isRead (t : Request) : Bool := reqType t.tdata == 0#4

/-- The words a write carries. -/
def words (t : Request) (two : Bool) : List Word :=
  let low := (writeData t.tdata).extractLsb' 0 32
  if two then [low, (writeData t.tdata).extractLsb' 32 32] else [low]

end Request

/-- The base addresses `BARnAXI` and sizes `BARnSIZE` of the six BARs. -/
structure Bars where
  axi : Nat → Word
  size : Nat → Nat

/-- `{ BARnAXI[M_AXI_ADDR_WIDTH-1:BARnSIZE], mem_req_pcie_address[BARnSIZE-1:2], 2'b00 }`. -/
def translate (axi : Word) (size : Nat) (pcieAddress : Word) : Word :=
  (axi >>> size <<< size) ||| (pcieAddress &&& ~~~(BitVec.allOnes 32 <<< size) &&& ~~~3#32)

/-- `m_axi_addr_c`. -/
def Bars.axiAddr (bars : Bars) (barHit : BitVec 3) (pcieAddress : Word) : Word :=
  if barHit.toNat < 6 then
    translate (bars.axi barHit.toNat) (bars.size barHit.toNat) pcieAddress
  else 0

/-- The low bits come from the packet, on a word boundary, the others from the base. -/
theorem getLsbD_translate (axi : Word) (size : Nat) (pcieAddress : Word) {i : Nat}
    (inside : i < 32) :
    (translate axi size pcieAddress).getLsbD i =
      if size ≤ i then axi.getLsbD i else decide (2 ≤ i) && pcieAddress.getLsbD i := by
  have three : ∀ j < 32, (3#32).getLsbD j = decide (j < 2) := by decide
  by_cases above : size ≤ i
  · have back : i - size + size = i := Nat.sub_add_cancel above
    simp only [translate, BitVec.getLsbD_or, BitVec.getLsbD_shiftLeft, BitVec.getLsbD_ushiftRight,
      BitVec.getLsbD_and, BitVec.getLsbD_not, BitVec.getLsbD_allOnes, three i inside, inside]
    have sub : i - size < 32 := by omega
    simp [above, show size + (i - size) = i by omega, Nat.not_lt.mpr above, sub]
  · have below : i < size := Nat.lt_of_not_le above
    simp only [translate, BitVec.getLsbD_or, BitVec.getLsbD_shiftLeft, BitVec.getLsbD_ushiftRight,
      BitVec.getLsbD_and, BitVec.getLsbD_not, BitVec.getLsbD_allOnes, three i inside, inside]
    simp only [below, above, decide_true, Bool.not_true, Bool.and_false, Bool.false_and,
      Bool.false_or, Bool.not_false, Bool.true_and, Bool.and_true, if_false]
    rw [Bool.and_comm]
    simp only [← decide_not, Nat.not_lt]

/-- `get_size`: the position of the last rising bit of a BAR mask. -/
def getSize (size : BitVec 64) : Nat :=
  (List.range' 5 59).foldl
    (fun found i => if size.getLsbD i && !size.getLsbD (i - 1) then i else found) 0

/-- The mask of a window of `2 ^ n` bytes gives `n`. -/
theorem getSize_mask {n : Nat} (low : 5 ≤ n) (high : n < 64) :
    getSize (BitVec.allOnes 64 <<< n) = n := by
  have all : ∀ i : Fin 64, 5 ≤ i.val → getSize (BitVec.allOnes 64 <<< i.val) = i.val := by
    decide +kernel
  exact all ⟨n, high⟩ low

/-- The handshakes of the AXI bus. -/
inductive AxiEvent where
  | aw (addr : Word)
  | w (data : Word) (strb : BitVec 4)
  | b
  | ar (addr : Word)
  | r (data : Word)
  deriving DecidableEq, Repr

/-- A handshake, without the data that comes from the slave. -/
inductive AxiOp where
  | aw (addr : Word)
  | w (data : Word) (strb : BitVec 4)
  | b
  | ar (addr : Word)
  | r
  deriving DecidableEq, Repr

def AxiEvent.op : AxiEvent → AxiOp
  | .aw addr => .aw addr
  | .w data strb => .w data strb
  | .b => .b
  | .ar addr => .ar addr
  | .r _ => .r

/-- The data that comes from the slave. -/
def AxiEvent.data? : AxiEvent → Option Word
  | .r data => some data
  | _ => none

/-- One write for each word, each after the response to the last. -/
def writeOps (strb : BitVec 4) : Word → List Word → List AxiOp
  | _, [] => []
  | addr, word :: words => .aw addr :: .w word strb :: .b :: writeOps strb (addr + 4) words

/-- One read for each word, each after the data of the last. -/
def readOps : Word → Nat → List AxiOp
  | _, 0 => []
  | addr, left + 1 => .ar addr :: .r :: readOps (addr + 4) left

namespace Request

variable (bars : Bars)

def axiAddr (t : Request) : Word := bars.axiAddr (barHit t.tdata) (address t.tdata)

/-- Both words of a write have the byte enables of the first. -/
def ops (t : Request) : List AxiOp :=
  match t.kind with
  | .read two => readOps (t.axiAddr bars) (if two then 2 else 1)
  | .write two => writeOps t.firstBe (t.axiAddr bars) (t.words two)
  | _ => []

end Request

/-- A beat of the completion stream. -/
structure CcBeat where
  tdata : Beat
  tkeep : BitVec 8
  deriving DecidableEq, Repr

/-- A completion, by the fields of its descriptor and the double words kept after it. -/
structure Completion where
  lowerAddr : BitVec 7
  byteCount : BitVec 13
  dwordCount : BitVec 11
  status : BitVec 3
  requesterId : BitVec 16
  tag : BitVec 8
  trafficClass : BitVec 3
  attr : BitVec 3
  payload : List Word
  deriving DecidableEq, Repr

/-- Unsupported Request. -/
def unsupported : BitVec 3 := 1

/-- The double words of a beat that are kept, after the three of the descriptor. -/
def CcBeat.payload (beat : CcBeat) : List Word :=
  ((List.range' 3 5).filter beat.tkeep.getLsbD).map fun i => beat.tdata.extractLsb' (32 * i) 32

def CcBeat.completion (beat : CcBeat) : Completion where
  lowerAddr := beat.tdata.extractLsb' 0 7
  byteCount := beat.tdata.extractLsb' 16 13
  dwordCount := beat.tdata.extractLsb' 32 11
  status := beat.tdata.extractLsb' 43 3
  requesterId := beat.tdata.extractLsb' 48 16
  tag := beat.tdata.extractLsb' 64 8
  trafficClass := beat.tdata.extractLsb' 89 3
  attr := beat.tdata.extractLsb' 92 3
  payload := beat.payload

/-- The number of bytes from the first that is enabled to the last, and 1 if none is. -/
def byteSpan (firstBe : BitVec 4) : Nat :=
  match (List.range 4).filter firstBe.getLsbD with
  | [] => 1
  | first :: rest => rest.getLastD first + 1 - first

namespace Request

/-- The completion of a read, with the data that has been read. -/
def completion (t : Request) (data : List Word) : Completion where
  lowerAddr := lowerAddr t.tdata
  byteCount := if data.length = 2 then 8 else BitVec.ofNat 13 (byteSpan t.firstBe)
  dwordCount := BitVec.ofNat 11 data.length
  status := 0
  requesterId := requesterId t.tdata
  tag := tagOf t.tdata
  trafficClass := trafficClass t.tdata
  attr := attrOf t.tdata
  payload := data

/-- The completion of a read that is not supported. -/
def rejection (t : Request) : Completion :=
  { t.completion [] with status := unsupported }

/-- The number of words that a request reads. -/
def reads (t : Request) : Nat :=
  match t.kind with
  | .read two => if two then 2 else 1
  | _ => 0

end Request

/-- The completions that are due, once some words have been read: every read has one, in
order, as soon as the slave has sent all its data. -/
def answers : List Request → List Word → List Completion
  | [], _ => []
  | t :: ts, data =>
      match t.kind with
      | .read _ =>
          if t.reads ≤ data.length then
            t.completion (data.take t.reads) :: answers ts (data.drop t.reads)
          else []
      | .longRead => t.rejection :: answers ts data
      | _ => answers ts data

/-- The number of words that a list of requests reads. -/
def readsOf : List Request → Nat
  | [] => 0
  | t :: ts => t.reads + readsOf ts

@[simp] theorem readsOf_nil : readsOf [] = 0 := rfl

@[simp] theorem readsOf_append (ts us : List Request) :
    readsOf (ts ++ us) = readsOf ts + readsOf us := by
  induction ts with
  | nil => simp
  | cons t ts ih => simp [readsOf, ih, Nat.add_assoc]

@[simp] theorem readsOf_singleton (t : Request) : readsOf [t] = t.reads := by
  simp [readsOf]

/-- Once all the words of some requests are there, the rest belong to the requests after
them. -/
theorem answers_append {ts : List Request} {data : List Word} (us : List Request)
    (more : List Word) (complete : data.length = readsOf ts) :
    answers (ts ++ us) (data ++ more) = answers ts data ++ answers us more := by
  induction ts generalizing data with
  | nil =>
      cases data with
      | nil => rfl
      | cons word data => simp [readsOf] at complete
  | cons t ts ih =>
      have split : data.length = t.reads + readsOf ts := by simpa [readsOf] using complete
      rw [List.cons_append, answers, answers]
      cases isKind : t.kind with
      | read two =>
          have enough : t.reads ≤ data.length := by omega
          have dropped : (data.drop t.reads).length = readsOf ts := by
            rw [List.length_drop]
            omega
          have enough' : t.reads ≤ (data ++ more).length := by
            rw [List.length_append]
            omega
          simp only [if_pos enough, if_pos enough', List.cons_append,
            List.take_append_of_le_length enough, List.drop_append_of_le_length enough, ih dropped]
      | longRead =>
          have none : t.reads = 0 := by simp [Request.reads, isKind]
          simp only [List.cons_append]
          rw [ih (by omega)]
      | write two | longWrite | other =>
          have none : t.reads = 0 := by simp [Request.reads, isKind]
          simp only
          rw [ih (by omega)]

/-- Every read that is complete has one answer. -/
theorem length_answers {ts : List Request} {data : List Word}
    (complete : data.length = readsOf ts) :
    (answers ts data).length = (ts.filter Request.isRead).length := by
  induction ts generalizing data with
  | nil => rfl
  | cons t ts ih =>
      have split : data.length = t.reads + readsOf ts := by simpa [readsOf] using complete
      have isRead : t.isRead = true ↔ reqType t.tdata = 0#4 := by simp [Request.isRead]
      rw [answers, List.filter_cons]
      cases isKind : t.kind with
      | read two =>
          have enough : t.reads ≤ data.length := by omega
          have dropped : (data.drop t.reads).length = readsOf ts := by
            rw [List.length_drop]
            omega
          have read : t.isRead = true := by
            rw [isRead]
            rw [Request.kind] at isKind
            grind
          simp [enough, read, ih dropped]
      | longRead =>
          have none : t.reads = 0 := by simp [Request.reads, isKind]
          have read : t.isRead = true := by
            rw [isRead]
            rw [Request.kind] at isKind
            grind
          simp [read, ih (show data.length = readsOf ts by omega)]
      | write two | longWrite | other =>
          have none : t.reads = 0 := by simp [Request.reads, isKind]
          have notRead : ¬ t.isRead = true := by
            rw [isRead]
            rw [Request.kind] at isKind
            grind
          simp [notRead, ih (show data.length = readsOf ts by omega)]

end OpaeXilinx.Pcie
