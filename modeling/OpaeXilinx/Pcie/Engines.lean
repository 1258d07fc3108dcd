import OpaeXilinx.Pcie.Tlp

/-!
# The AXI engines of the bridge

`axi_write_controller` and `axi_read_controller`, each by its flip-flops and what a rising
clock edge does to them.  An engine that has been given a request still has a list of
handshakes to do; an edge takes from the front of the list the handshakes that happen at it.
-/

namespace OpaeXilinx.Pcie

/-- `mem_req_*`: the request that is put before the engines. -/
structure MemReq where
  barHit : BitVec 3
  pcieAddress : Word
  byteEnable : BitVec 4
  writeReadn : Bool
  writeData : BitVec 64
  dwordNum : BitVec 2

/-- What the AXI slave drives. -/
structure AxiSlave where
  awready : Bool
  wready : Bool
  bvalid : Bool
  arready : Bool
  rvalid : Bool
  rdata : Word
  deriving DecidableEq, Repr

/-- An entry for a handshake that happens. -/
def happens {α : Type} (valid ready : Bool) (event : α) : List α :=
  if valid && ready then [event] else []

variable (bars : Bars)

/-! ## The write engine -/

inductive WrSm where
  | idle | writePre | writeReq | writeData | waitAck
  deriving DecidableEq, Repr

/-- The flip-flops of `axi_write_controller`. -/
structure AxiWriteController where
  sm : WrSm
  smOld : WrSm
  ready : Bool
  awvalid : Bool
  wvalid : Bool
  addr : Word
  byteEnable : BitVec 4
  barHit : BitVec 3
  pcieAddress : Word
  writeData : BitVec 64
  dwordNum : BitVec 2
  dwordCnt : BitVec 2

namespace AxiWriteController

variable (w : AxiWriteController)

/-- `m_axi_wdata`. -/
def wdata : Word :=
  if w.dwordNum = 1#2 then w.writeData.extractLsb' 0 32
  else if w.dwordCnt = 1#2 then w.writeData.extractLsb' 0 32
  else w.writeData.extractLsb' 32 32

/-- The registers that hold the request. -/
def capture (valid : Bool) (req : MemReq) : AxiWriteController :=
  if valid && w.ready && req.writeReadn then
    { w with
      byteEnable := req.byteEnable, barHit := req.barHit, pcieAddress := req.pcieAddress
      writeData := req.writeData, dwordNum := req.dwordNum }
  else w

/-- The state machine, with the values before the edge in `w`. -/
def machine (valid : Bool) (req : MemReq) (slave : AxiSlave) (next : AxiWriteController) :
    AxiWriteController :=
  let next := { next with smOld := w.sm }
  match w.sm with
  | .idle =>
      if valid && req.writeReadn then
        { next with sm := .writePre, ready := false, dwordCnt := req.dwordNum }
      else { next with sm := .idle, ready := true, dwordCnt := 0#2 }
  | .writePre =>
      if w.smOld = .idle then
        { next with sm := .writeReq, awvalid := true
                    addr := bars.axiAddr w.barHit w.pcieAddress }
      else { next with sm := .writeReq, awvalid := true, addr := w.addr + 4 }
  | .writeReq =>
      if slave.awready then
        { next with sm := .writeData, awvalid := false, wvalid := true, dwordCnt := w.dwordCnt - 1#2 }
      else next
  | .writeData => if slave.wready then { next with sm := .waitAck, wvalid := false } else next
  | .waitAck =>
      if slave.bvalid then
        if w.dwordCnt = 0#2 then { next with sm := .idle, ready := true }
        else { next with sm := .writePre, ready := false }
      else next

def edge (valid : Bool) (req : MemReq) (slave : AxiSlave) : AxiWriteController :=
  w.machine bars valid req slave (w.capture valid req)

/-- The handshakes of the write channels at an edge. -/
def events (slave : AxiSlave) : List AxiEvent :=
  happens slave.bvalid true .b ++ happens w.awvalid slave.awready (.aw w.addr) ++
    happens w.wvalid slave.wready (.w w.wdata w.byteEnable)

/-- The words that are to be written when `left` of them are left. -/
def wordsLeft (left : BitVec 2) : List Word :=
  let low := w.writeData.extractLsb' 0 32
  let high := w.writeData.extractLsb' 32 32
  if left = 0#2 then []
  else if w.dwordNum = 1#2 then [low]
  else if left = 1#2 then [high]
  else [low, high]

/-- The handshakes that are left to do. -/
def left : List AxiOp :=
  match w.sm with
  | .idle => []
  | .writePre =>
      writeOps w.byteEnable
        (if w.smOld = .idle then bars.axiAddr w.barHit w.pcieAddress else w.addr + 4)
        (w.wordsLeft w.dwordCnt)
  | .writeReq => writeOps w.byteEnable w.addr (w.wordsLeft w.dwordCnt)
  | .writeData =>
      .w w.wdata w.byteEnable :: .b :: writeOps w.byteEnable (w.addr + 4) (w.wordsLeft w.dwordCnt)
  | .waitAck => .b :: writeOps w.byteEnable (w.addr + 4) (w.wordsLeft w.dwordCnt)

/-- The number of words and the count of those left, in each state. -/
def Counts : Prop :=
  match w.sm with
  | .idle => True
  | .writePre | .writeReq =>
      (w.dwordNum = 1#2 ∨ w.dwordNum = 2#2) ∧
        (w.dwordCnt = w.dwordNum ∨ w.dwordNum = 2#2 ∧ w.dwordCnt = 1#2)
  | .writeData | .waitAck =>
      w.dwordNum = 1#2 ∧ w.dwordCnt = 0#2 ∨
        w.dwordNum = 2#2 ∧ (w.dwordCnt = 0#2 ∨ w.dwordCnt = 1#2)

/-- What the registers are in each state. -/
structure Inv (owed : Nat) : Prop where
  ready : w.ready = true → w.sm = .idle
  awvalid : w.awvalid = decide (w.sm = .writeReq)
  wvalid : w.wvalid = decide (w.sm = .writeData)
  /-- The slave owes a response when one is waited for. -/
  owed : owed = if w.sm = .waitAck then 1 else 0
  counts : w.Counts

/-- The handshakes that a request makes the write engine do. -/
def opsOf (req : MemReq) : List AxiOp :=
  let low := req.writeData.extractLsb' 0 32
  let high := req.writeData.extractLsb' 32 32
  writeOps req.byteEnable (bars.axiAddr req.barHit req.pcieAddress)
    (if req.dwordNum = 1#2 then [low] else [low, high])

/-- The responses that the slave owes after an edge. -/
def owedAfter (owed : Nat) (slave : AxiSlave) : Nat :=
  owed + (happens w.wvalid slave.wready ()).length - (happens slave.bvalid true ()).length

variable {w} {bars}

theorem Inv.left_of_ready {owed : Nat} (inv : w.Inv owed) (ready : w.ready = true) :
    w.left bars = [] := by
  rw [left, inv.ready ready]

/-- The next word goes onto the bus as the count goes down. -/
theorem wordsLeft_succ (one : w.dwordNum = 1#2 ∨ w.dwordNum = 2#2)
    (more : w.dwordCnt = w.dwordNum ∨ w.dwordNum = 2#2 ∧ w.dwordCnt = 1#2) :
    w.wordsLeft w.dwordCnt =
      { w with dwordCnt := w.dwordCnt - 1#2 }.wdata :: w.wordsLeft (w.dwordCnt - 1#2) := by
  rcases more with all | ⟨two, last⟩
  · rcases one with one | two
    · simp [wordsLeft, wdata, all, one]
    · simp [wordsLeft, wdata, all, two]
  · simp [wordsLeft, wdata, last, two]

/-- The count after a word has gone onto the bus. -/
theorem counts_succ (one : w.dwordNum = 1#2 ∨ w.dwordNum = 2#2)
    (more : w.dwordCnt = w.dwordNum ∨ w.dwordNum = 2#2 ∧ w.dwordCnt = 1#2) :
    w.dwordNum = 1#2 ∧ w.dwordCnt - 1#2 = 0#2 ∨
      w.dwordNum = 2#2 ∧ (w.dwordCnt - 1#2 = 0#2 ∨ w.dwordCnt - 1#2 = 1#2) := by
  rcases more with all | ⟨two, last⟩
  · rcases one with one | two
    · exact .inl ⟨one, by rw [all, one]; rfl⟩
    · exact .inr ⟨two, .inr (by rw [all, two]; rfl)⟩
  · exact .inr ⟨two, .inl (by rw [last]; rfl)⟩

variable {owed : Nat} {valid : Bool} {req : MemReq} {slave : AxiSlave}

theorem capture_of_not_started (notStarted : (valid && req.writeReadn) = false) :
    w.capture valid req = w := by
  rw [capture, if_neg]
  revert notStarted
  cases valid <;> cases req.writeReadn <;> simp

/-- An engine that is given no request does the next handshakes on its list. -/
theorem Inv.edge (inv : w.Inv owed) (bars : Bars) (req : MemReq)
    (legal : slave.bvalid = true → 0 < owed) (notStarted : (valid && req.writeReadn) = false) :
    (w.events slave).map AxiEvent.op ++ (w.edge bars valid req slave).left bars = w.left bars ∧
      (w.edge bars valid req slave).Inv (w.owedAfter owed slave) := by
  obtain ⟨ready, awvalid, wvalid, owes, counts⟩ := inv
  rw [AxiWriteController.edge, capture_of_not_started notStarted]
  cases state : w.sm with
  | idle =>
      simp only [state] at awvalid wvalid owes
      have silent : slave.bvalid = false := by simpa [owes] using legal
      simp only [machine, state, notStarted]
      constructor
      · simp [events, happens, awvalid, wvalid, silent, left, state]
      · constructor <;> simp [owedAfter, happens, owes, awvalid, wvalid, silent, Counts]
  | writePre =>
      simp only [state, Counts] at ready awvalid wvalid owes counts
      have silent : slave.bvalid = false := by simpa [owes] using legal
      have notReady : w.ready = false := by simpa using ready
      by_cases fresh : w.smOld = .idle
      · simp only [machine, state, fresh, if_true]
        constructor
        · simp [events, happens, awvalid, wvalid, silent, left, state, fresh, wordsLeft]
        · constructor <;>
            simp [owedAfter, happens, owes, notReady, wvalid, silent, Counts, counts]
      · simp only [machine, state, fresh, if_false]
        constructor
        · simp [events, happens, awvalid, wvalid, silent, left, state, fresh, wordsLeft]
        · constructor <;>
            simp [owedAfter, happens, owes, notReady, wvalid, silent, Counts, counts]
  | writeReq =>
      simp only [state, Counts] at ready awvalid wvalid owes counts
      have silent : slave.bvalid = false := by simpa [owes] using legal
      have notReady : w.ready = false := by simpa using ready
      simp only [machine, state]
      cases taken : slave.awready with
      | false =>
          constructor
          · simp [events, happens, awvalid, taken, wvalid, silent, left, state, wordsLeft]
          · constructor <;>
              simp [owedAfter, happens, owes, notReady, wvalid, silent, awvalid, Counts, counts]
      | true =>
          simp only [if_true]
          constructor
          · have unfolded : w.left bars = writeOps w.byteEnable w.addr (w.wordsLeft w.dwordCnt) := by
              rw [left, state]
            rw [unfolded, wordsLeft_succ counts.1 counts.2]
            simp [events, happens, awvalid, taken, wvalid, silent, left, writeOps, AxiEvent.op,
              wdata, wordsLeft]
          · constructor <;>
              simp [owedAfter, happens, owes, notReady, wvalid, silent, Counts,
                counts_succ counts.1 counts.2]
  | writeData =>
      simp only [state, Counts] at ready awvalid wvalid owes counts
      have silent : slave.bvalid = false := by simpa [owes] using legal
      have notReady : w.ready = false := by simpa using ready
      simp only [machine, state]
      cases taken : slave.wready with
      | false =>
          constructor
          · simp [events, happens, awvalid, wvalid, taken, silent, left, state, wordsLeft, wdata]
          · constructor <;>
              simp [owedAfter, happens, owes, notReady, awvalid, silent, wvalid, taken, Counts,
                counts]
      | true =>
          constructor
          · simp [events, happens, awvalid, wvalid, taken, silent, left, state, wordsLeft,
              AxiEvent.op]
          · constructor <;>
              simp [owedAfter, happens, owes, notReady, awvalid, silent, wvalid, taken,
                Counts, counts]
  | waitAck =>
      simp only [state, Counts] at ready awvalid wvalid owes counts
      have notReady : w.ready = false := by simpa using ready
      simp only [machine, state]
      cases answered : slave.bvalid with
      | false =>
          constructor
          · simp [events, happens, awvalid, wvalid, answered, left, state, wordsLeft]
          · constructor <;>
              simp [owedAfter, happens, owes, notReady, awvalid, wvalid, answered, Counts, counts]
      | true =>
          by_cases last : w.dwordCnt = 0#2
          · simp only [last, if_true]
            constructor
            · simp [events, happens, awvalid, wvalid, answered, left, state, wordsLeft, last,
                writeOps, AxiEvent.op]
            · constructor <;> simp [owedAfter, happens, owes, awvalid, wvalid, answered, Counts]
          · simp only [last, if_false, if_true]
            have count : w.dwordNum = 2#2 ∧ w.dwordCnt = 1#2 := by simpa [last] using counts
            constructor
            · simp [events, happens, awvalid, wvalid, answered, left, state, wordsLeft,
                AxiEvent.op]
            · constructor <;>
                simp [owedAfter, happens, owes, awvalid, wvalid, answered, Counts, count]

/-- An idle engine that is given a request has its handshakes to do. -/
theorem Inv.start (inv : w.Inv owed) (bars : Bars) (req : MemReq) (ready : w.ready = true)
    (isWrite : req.writeReadn = true) (legal : slave.bvalid = true → 0 < owed)
    (one : req.dwordNum = 1#2 ∨ req.dwordNum = 2#2) :
    w.events slave = [] ∧ (w.edge bars true req slave).left bars = opsOf bars req ∧
      (w.edge bars true req slave).Inv (w.owedAfter owed slave) := by
  obtain ⟨idle, awvalid, wvalid, owes, counts⟩ := inv
  have state := idle ready
  simp only [state] at awvalid wvalid owes
  have silent : slave.bvalid = false := by simpa [owes] using legal
  have captured : w.capture true req =
      { w with
        byteEnable := req.byteEnable, barHit := req.barHit, pcieAddress := req.pcieAddress
        writeData := req.writeData, dwordNum := req.dwordNum } := by
    simp [capture, ready, isWrite]
  rw [AxiWriteController.edge, captured]
  simp only [machine, state, isWrite, Bool.and_self, if_true]
  constructor
  · simp [events, happens, awvalid, wvalid, silent]
  · constructor
    · rcases one with one | two
      · simp [left, opsOf, wordsLeft, one]
      · simp [left, opsOf, wordsLeft, two]
    · constructor <;>
        simp [owedAfter, happens, owes, awvalid, wvalid, silent, Counts, one]

end AxiWriteController

/-! ## The read engine -/

inductive RdSm where
  | idle | readReq | readRes
  deriving DecidableEq, Repr

/-- The flip-flops of `axi_read_controller`. -/
structure AxiReadController where
  sm : RdSm
  araddr : Word
  arvalid : Bool
  ready : Bool
  dwordNum : BitVec 2
  cpldData : Word

namespace AxiReadController

variable (r : AxiReadController)

def edge (valid : Bool) (req : MemReq) (slave : AxiSlave) : AxiReadController :=
  match r.sm with
  | .idle =>
      if valid && !req.writeReadn then
        { r with sm := .readReq, araddr := bars.axiAddr req.barHit req.pcieAddress
                 arvalid := true, ready := false, dwordNum := req.dwordNum, cpldData := 0 }
      else if r.dwordNum ≠ 0#2 then
        { r with sm := .readReq, araddr := r.araddr + 4, arvalid := true, ready := false }
      else { r with arvalid := false, ready := true }
  | .readReq =>
      if slave.arready && r.dwordNum == 1#2 then
        { r with sm := .idle, arvalid := false, ready := true, dwordNum := r.dwordNum - 1#2 }
      else if slave.arready && decide (1#2 < r.dwordNum) then
        { r with sm := .readRes, arvalid := false, ready := true, dwordNum := r.dwordNum - 1#2 }
      else r
  | .readRes =>
      -- the data is taken over whether or not `m_axi_rready` is up
      if slave.rvalid then { r with sm := .idle, cpldData := slave.rdata } else r

/-- `axi_cpld_valid`. -/
def cpldValid (slave : AxiSlave) : Bool := slave.rvalid && r.dwordNum == 0#2

/-- `axi_cpld_data`, by the request that is in front of the engine by then. -/
def cpldDataOut (req : MemReq) (slave : AxiSlave) : BitVec 64 :=
  if req.dwordNum = 2#2 then slave.rdata ++ r.cpldData else 0#32 ++ slave.rdata

/-- The handshakes of the read channels at an edge. -/
def events (slave : AxiSlave) (rready : Bool) : List AxiEvent :=
  happens r.arvalid slave.arready (.ar r.araddr) ++ happens slave.rvalid rready (.r slave.rdata)

/-- The data words that the slave owes after an edge. -/
def owedAfter (owed : Nat) (slave : AxiSlave) (rready : Bool) : Nat :=
  owed + (happens r.arvalid slave.arready ()).length - (happens slave.rvalid rready ()).length

/-- The handshakes that are left to do. -/
def left (owed : Nat) : List AxiOp :=
  match r.sm with
  | .idle =>
      if r.dwordNum = 0#2 then .replicate owed .r else readOps (r.araddr + 4) r.dwordNum.toNat
  | .readReq => readOps r.araddr r.dwordNum.toNat
  | .readRes => .r :: readOps (r.araddr + 4) r.dwordNum.toNat

/-- Nothing is being read. -/
structure Rests (owed : Nat) : Prop where
  sm : r.sm = .idle
  arvalid : r.arvalid = false
  dwordNum : r.dwordNum = 0#2
  owed : owed = 0

/-- One or two words are being read, and some of them have come in. -/
structure Serves (two : Bool) (got : List Word) (owed : Nat) : Prop where
  arvalid : r.arvalid = decide (r.sm = .readReq)
  progress : match r.sm with
    | .idle =>
        if r.dwordNum = 0#2 then owed = 1 ∧ got = if two then [r.cpldData] else []
        else r.dwordNum = 1#2 ∧ owed = 0 ∧ two = true ∧ got = [r.cpldData]
    | .readReq =>
        owed = 0 ∧ (r.dwordNum = (if two then 2#2 else 1#2) ∧ got = [] ∨
          two = true ∧ r.dwordNum = 1#2 ∧ got = [r.cpldData])
    | .readRes => owed = 1 ∧ two = true ∧ r.dwordNum = 1#2 ∧ got = []

variable {bars} {r} {owed : Nat} {valid : Bool} {req : MemReq} {slave : AxiSlave} {rready : Bool}

namespace Rests

theorem left (rests : r.Rests owed) : r.left owed = [] := by
  rw [AxiReadController.left, rests.sm]
  simp [rests.dwordNum, rests.owed]

theorem silent (rests : r.Rests owed) (legal : slave.rvalid = true → 0 < owed) :
    slave.rvalid = false := by
  simpa [rests.owed] using legal

theorem events (rests : r.Rests owed) (rready : Bool) (legal : slave.rvalid = true → 0 < owed) :
    r.events slave rready = [] := by
  simp [AxiReadController.events, happens, rests.arvalid, rests.silent legal]

/-- An engine that is given no request rests, and is ready. -/
theorem edge (rests : r.Rests owed) (bars : Bars) (req : MemReq) (rready : Bool)
    (legal : slave.rvalid = true → 0 < owed) (notStarted : (valid && !req.writeReadn) = false) :
    (r.edge bars valid req slave).Rests (r.owedAfter owed slave rready) ∧
      (r.edge bars valid req slave).ready = true := by
  simp only [AxiReadController.edge, rests.sm, notStarted, rests.dwordNum]
  constructor
  · constructor <;>
      simp [owedAfter, happens, rests.arvalid, rests.silent legal, rests.owed]
  · simp

/-- A request is taken on. -/
theorem start {two : Bool} (rests : r.Rests owed) (bars : Bars) (req : MemReq) (rready : Bool)
    (legal : slave.rvalid = true → 0 < owed)
    (isRead : req.writeReadn = false) (count : req.dwordNum = if two then 2#2 else 1#2) :
    (r.edge bars true req slave).Serves two [] (r.owedAfter owed slave rready) ∧
      (r.edge bars true req slave).left (r.owedAfter owed slave rready) =
        readOps (bars.axiAddr req.barHit req.pcieAddress) (if two then 2 else 1) := by
  simp only [AxiReadController.edge, rests.sm, isRead]
  constructor
  · constructor <;>
      simp [owedAfter, happens, rests.arvalid, rests.silent legal, rests.owed, count]
  · cases two <;> simp [AxiReadController.left, count]

end Rests

namespace Serves

variable {two : Bool} {got : List Word}

/-- The last word comes in when the engine has no address left to send. -/
theorem of_cpldValid (serves : r.Serves two got owed) (valid : r.cpldValid slave = true) :
    r.sm = .idle ∧ r.dwordNum = 0#2 ∧ slave.rvalid = true ∧ owed = 1 ∧
      got = if two then [r.cpldData] else [] := by
  simp only [cpldValid, Bool.and_eq_true, beq_iff_eq] at valid
  obtain ⟨rvalid, none⟩ := valid
  have progress := serves.progress
  cases state : r.sm with
  | idle =>
      simp only [state, none, if_true] at progress
      exact ⟨rfl, none, rvalid, progress⟩
  | readReq =>
      simp only [state, none] at progress
      cases two <;> simp at progress
  | readRes =>
      simp only [state, none] at progress
      simp at progress

/-- The words that have come in when the last one does. -/
theorem complete (serves : r.Serves two got owed) (req : MemReq)
    (valid : r.cpldValid slave = true) (count : req.dwordNum = if two then 2#2 else 1#2) :
    got ++ [slave.rdata] = if two then [(r.cpldDataOut req slave).extractLsb' 0 32,
      (r.cpldDataOut req slave).extractLsb' 32 32]
      else [(r.cpldDataOut req slave).extractLsb' 0 32] := by
  obtain ⟨-, -, -, -, received⟩ := serves.of_cpldValid valid
  rw [received, cpldDataOut, count]
  cases two with
  | true =>
      simp only [if_true, List.cons_append, List.nil_append, BitVec.extractLsb'_append_eq_left,
        BitVec.extractLsb'_append_eq_right]
  | false =>
      have low : (0#32 ++ slave.rdata).extractLsb' 0 32 = slave.rdata :=
        BitVec.extractLsb'_append_eq_right
      simp only [Bool.false_eq_true, if_false, List.nil_append,
        show (1#2 : BitVec 2) ≠ 2#2 by decide, low]

/-- An engine that serves a read does the next handshakes on its list, until the last word
has come in. -/
theorem edge (serves : r.Serves two got owed) (bars : Bars) (req : MemReq)
    (legal : slave.rvalid = true → 0 < owed) :
    (r.events slave true).map AxiEvent.op ++
        (r.edge bars false req slave).left (r.owedAfter owed slave true) = r.left owed ∧
      if r.cpldValid slave then
        r.events slave true = [.r slave.rdata] ∧
          (r.edge bars false req slave).Rests (r.owedAfter owed slave true)
      else (r.edge bars false req slave).Serves two
        (got ++ (r.events slave true).filterMap AxiEvent.data?) (r.owedAfter owed slave true) := by
  obtain ⟨arvalid, progress⟩ := serves
  cases state : r.sm with
  | idle =>
      simp only [state] at arvalid progress
      by_cases none : r.dwordNum = 0#2
      · simp only [none, if_true] at progress
        obtain ⟨owes, received⟩ := progress
        simp only [AxiReadController.edge, state, none]
        cases taken : slave.rvalid with
        | true =>
            constructor
            · simp [events, happens, arvalid, taken, left, owedAfter, owes, state, none,
                AxiEvent.op]
            · simp only [cpldValid, taken, none]
              simp only [beq_self_eq_true, Bool.and_self, if_true]
              constructor
              · simp [events, happens, arvalid, taken]
              · constructor <;> simp [owedAfter, happens, arvalid, taken, owes]
        | false =>
            constructor
            · simp [events, happens, arvalid, taken, left, owedAfter, owes, state, none]
            · simp only [cpldValid, taken, Bool.false_and, Bool.false_eq_true, if_false]
              constructor
              · simp
              · simp [owedAfter, happens, arvalid, taken, owes, received, events]
      · simp only [none, if_false] at progress
        obtain ⟨one, owes, both, received⟩ := progress
        have silent : slave.rvalid = false := by simpa [owes] using legal
        simp only [AxiReadController.edge, state, one]
        constructor
        · simp [events, happens, arvalid, silent, left, state, one]
        · simp only [cpldValid, silent, Bool.false_and, Bool.false_eq_true, if_false]
          constructor
          · simp
          · simp [owedAfter, happens, arvalid, silent, owes, received, both, events]
  | readReq =>
      simp only [state] at arvalid progress
      obtain ⟨owes, count⟩ := progress
      have silent : slave.rvalid = false := by simpa [owes] using legal
      have notValid : r.cpldValid slave = false := by simp [cpldValid, silent]
      simp only [notValid, Bool.false_eq_true, if_false]
      cases taken : slave.arready with
      | false =>
          simp only [AxiReadController.edge, state, taken, Bool.false_and, Bool.false_eq_true,
            if_false]
          constructor
          · simp [events, happens, arvalid, taken, silent, left, state]
          · constructor
            · simp [arvalid, state]
            · simp [state, owedAfter, happens, taken, silent, owes, count, events]
      | true =>
          by_cases last : r.dwordNum = 1#2
          · simp only [AxiReadController.edge, state, taken, last]
            constructor
            · simp [events, happens, arvalid, taken, silent, left, state, last, owedAfter, owes,
                readOps, AxiEvent.op]
            · constructor
              · simp
              · have received : got = if two then [r.cpldData] else [] := by
                  cases two <;> simpa [last] using count
                simp [owedAfter, happens, arvalid, taken, silent, owes, received, events,
                  AxiEvent.data?]
          · have both : two = true ∧ r.dwordNum = 2#2 ∧ got = [] := by
              cases two with
              | true => simpa [last] using count
              | false => simp [last] at count
            obtain ⟨both, two, received⟩ := both
            simp only [AxiReadController.edge, state, taken, two]
            constructor
            · simp [events, happens, arvalid, taken, silent, left, state, two, readOps,
                AxiEvent.op]
            · constructor
              · simp
              · simp [owedAfter, happens, arvalid, taken, silent, owes, received, both, events,
                  AxiEvent.data?]
  | readRes =>
      simp only [state] at arvalid progress
      obtain ⟨owes, both, one, received⟩ := progress
      have notValid : r.cpldValid slave = false := by simp [cpldValid, one]
      simp only [notValid, Bool.false_eq_true, if_false]
      cases taken : slave.rvalid with
      | false =>
          simp only [AxiReadController.edge, state, taken, Bool.false_eq_true, if_false]
          constructor
          · simp [events, happens, arvalid, taken, left, state]
          · constructor
            · simp [arvalid, state]
            · simp [state, owedAfter, happens, arvalid, taken, owes, received, both, one, events]
      | true =>
          simp only [AxiReadController.edge, state, taken, if_true]
          constructor
          · simp [events, happens, arvalid, taken, left, state, one, AxiEvent.op]
          · constructor
            · simp [arvalid]
            · simp [owedAfter, happens, arvalid, taken, owes, received, both, one, events,
                AxiEvent.data?]

end Serves

end AxiReadController

end OpaeXilinx.Pcie
