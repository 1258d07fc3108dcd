import OpaeXilinx.Cosim.MmioOrder

/-!
# MMIO accesses against a memory slave

The lanes of an access are computed in three places: `C_poll` shifts the strobes and the
data of a write by the address modulo the bus width, the slave selects the word by the
address, and `C_resp_read` shifts the data of a read back.  Against a slave that keeps one
byte for every address, and as long as no data beat overtakes its address beat, the
accesses of the guest behave like plain little-endian memory.
-/

namespace OpaeXilinx.Cosim

open OpaeXilinx.Base

abbrev Memory := Nat → Byte

/-- The number formed by the first bytes of a buffer, the lowest byte first. -/
def leNumber : Nat → (Nat → Byte) → Nat
  | 0, _ => 0
  | size + 1, data => (data 0).toNat + 2 ^ 8 * leNumber size fun i => data (i + 1)

/-- The number that `mmio_read_bar0` takes out of the data of a response frame. -/
def mmioReadBar0Data (size : Nat) (data : Nat → Byte) : BitVec 64 :=
  match size with
  | 1 | 2 | 4 | 8 => .ofNat 64 (leNumber size data)
  | _ => 0

namespace Memory

def store (mem : Memory) (addr : Nat) (val : BitVec 64) (size : Nat) : Memory := fun a =>
  if addr ≤ a ∧ a < addr + size then leByte val (a - addr) else mem a

def load (mem : Memory) (addr size : Nat) : BitVec 64 :=
  .ofNat 64 (leNumber size fun i => mem (addr + i))

/-- What an access does to plain memory. -/
def after (mem : Memory) : Mmio → Memory
  | .read .. => mem
  | .write addr val size => mem.store addr val size

end Memory

theorem leNumber_congr {size : Nat} {left right : Nat → Byte}
    (same : ∀ i < size, left i = right i) : leNumber size left = leNumber size right := by
  induction size generalizing left right with
  | zero => rfl
  | succ size ih =>
      have tail : ∀ i < size, left (i + 1) = right (i + 1) := fun i inside =>
        same (i + 1) (Nat.succ_lt_succ inside)
      rw [leNumber, leNumber, same 0 (Nat.succ_pos size), ih tail]

theorem leNumber_leByte (val : BitVec 64) (size offset : Nat) :
    leNumber size (fun i => leByte val (offset + i)) =
      val.toNat / 2 ^ (8 * offset) % 2 ^ (8 * size) := by
  induction size generalizing offset with
  | zero => simp [leNumber, Nat.mod_one]
  | succ size ih =>
      have tail : (fun i => leByte val (offset + (i + 1))) =
          fun i => leByte val (offset + 1 + i) := by
        funext i
        congr 1
        omega
      have split : val.toNat / 2 ^ (8 * offset) % 2 ^ (8 * (size + 1)) =
          val.toNat / 2 ^ (8 * offset) % 2 ^ 8 +
            2 ^ 8 * (val.toNat / 2 ^ (8 * offset) / 2 ^ 8 % 2 ^ (8 * size)) := by
        rw [Nat.mul_succ, Nat.add_comm (8 * size), Nat.pow_add, Nat.mod_mul]
      rw [leNumber, tail, ih, split, Nat.div_div_eq_div_mul, ← Nat.pow_add, Nat.add_zero]
      congr 1
      simp [leByte, BitVec.extractLsb'_toNat, Nat.shiftRight_eq_div_pow]

/-- A load gets back the bytes that the last store put there. -/
theorem Memory.load_store (mem : Memory) (addr : Nat) (val : BitVec 64) (size : Nat) :
    (mem.store addr val size).load addr size = .ofNat 64 (val.toNat % 2 ^ (8 * size)) := by
  have bytes : ∀ i < size, mem.store addr val size (addr + i) = leByte val (0 + i) := by
    intro i inside
    rw [store, if_pos ⟨Nat.le_add_right addr i, Nat.add_lt_add_left inside addr⟩,
      Nat.add_sub_cancel_left, Nat.zero_add]
  rw [load, leNumber_congr bytes, leNumber_leByte, Nat.mul_zero, Nat.pow_zero, Nat.div_one]

/-- `REGION_SIZE_BAR0`. -/
def regionSizeBar0 : Nat := 512 * 2 ^ 20

/-- The accesses that reach the callbacks: inside the BAR and naturally aligned. -/
def Mmio.InBar (access : Mmio) : Prop :=
  access.addr + access.size ≤ regionSizeBar0 ∧ access.addr % access.size = 0

instance (access : Mmio) : Decidable access.InBar := inferInstanceAs (Decidable (_ ∧ _))

/-- The memory behind the BAR, seen from the guest. -/
def Memory.barView (mem : Memory) (barMap : Nat) : Memory := fun a => mem ((a + barMap) % 2 ^ adrw)

/-- What a memory does with a data beat: the strobed bytes of the addressed word. -/
def Memory.strobe (mem : Memory) (beats : AddrBeat × DataBeat) : Memory := fun a =>
  if a / busw = beats.1.addr / busw ∧ beats.2.strb.testBit (a % busw) = true then
    beats.2.data (a % busw)
  else mem a

/-- The slave's memory when it has performed the given number of writes.  It takes the
address beats and the data beats in their orders. -/
def St.slaveMemory (s : St) (mem : Memory) (performed : Nat) : Memory :=
  ((s.awLog.zip s.wLog).take performed).foldl Memory.strobe mem

/-- Read data comes from memory, on the lanes that the address beat selects.  The slave
has performed every write that it has answered, and none that it has not got. -/
def Served (mem : Memory) (s : St) : Label → Prop
  | .clock e => e.rvalid = true → s.rBeat = 0 →
      ∃ performed ≤ min s.awLog.length s.wLog.length, s.bCount ≤ performed ∧
        ∀ beat ∈ s.arLog[s.rCount]?, ∀ lane < busw,
          beat.addr % busw ≤ lane ∧ lane < beat.addr % busw + 2 ^ beat.size →
            e.rdata lane = s.slaveMemory mem performed (beat.addr / busw * busw + lane)
  | _ => True

instance (mem : Memory) (s : St) : (label : Label) → Decidable (Served mem s label)
  | .clock e => inferInstanceAs (Decidable (e.rvalid = true → s.rBeat = 0 →
      ∃ performed ≤ min s.awLog.length s.wLog.length, s.bCount ≤ performed ∧
        ∀ beat ∈ s.arLog[s.rCount]?, ∀ lane < busw,
          beat.addr % busw ≤ lane ∧ lane < beat.addr % busw + 2 ^ beat.size →
            e.rdata lane = s.slaveMemory mem performed (beat.addr / busw * busw + lane)))
  | .issue .. | .receive => isTrue trivial

/-- What the guest issues lies in the BAR. -/
def Label.InBar : Label → Prop
  | .issue access _ => access.InBar
  | _ => True

instance : (label : Label) → Decidable label.InBar
  | .issue access _ => inferInstanceAs (Decidable access.InBar)
  | .clock _ | .receive => isTrue trivial

/-- The bridge with a memory slave that starts with the content `mem`. -/
def memoryBridge (barMap : Nat) (mem : Memory) : System St Label where
  init s := s = .initial
  step s label next := (bridge barMap).step s label next ∧ label.InBar ∧ Served mem s label

/-- The beats of a write: its address, its size, and its bytes on exactly their lanes of
the addressed word. -/
def Writes (barMap : Nat) : Mmio → AddrBeat × DataBeat → Prop
  | .read .., _ => False
  | .write addr val size, (aw, w) => aw.addr = (addr + barMap) % 2 ^ adrw ∧ aw.len = 0 ∧
      2 ^ aw.size = size ∧ w.last = true ∧ aw.addr % busw + size ≤ busw ∧
      LanesHold aw.addr val size w.strb w.data

/-- The response of an access: a read returns what plain memory holds after the accesses
before it. -/
def Returns (mem : Memory) (before : List Mmio) : Mmio → Resp → Prop
  | .read addr size, .read _ data =>
      mmioReadBar0Data size data = (before.foldl Memory.after mem).load addr size
  | .write .., .write => True
  | _, _ => False

/-- The beats that the write master offers hold the bytes of the write issued last. -/
def Offered (barMap : Nat) (s : St) : Prop :=
  s.mw.wvalid = true → ∃ access ∈ s.issued.getLast?, Writes barMap access
    (⟨s.mw.addr, s.mw.len, s.mw.size⟩, ⟨s.mw.wdata, s.mw.wstrb, s.mw.last⟩)

/-- The beats that the slave has accepted hold the bytes of the writes. -/
def Written (barMap : Nat) (s : St) : Prop :=
  ∃ sent, sent <+: writes s.issued ∧ List.Forall₂ (Writes barMap) sent (s.awLog.zip s.wLog)

def Returned (plain : Memory) (s : St) : Prop :=
  ∀ k access resp, s.issued[k]? = some access → s.qemuResp[k]? = some resp →
    Returns plain (s.issued.take k) access resp

/-- The accesses behave like plain little-endian memory. -/
structure PlainMemory (barMap : Nat) (mem : Memory) (s : St) : Prop where
  offered : Offered barMap s
  written : Written barMap s
  returned : Returned (mem.barView barMap) s

section Beat

variable {barMap : Nat} {mem : Memory} {access : Mmio}

/-- A naturally aligned access stays inside its word. -/
theorem Mmio.InBar.fits (inBar : access.InBar) (valid : access.Valid) :
    access.addr % busw + access.size ≤ busw := by
  have aligned := inBar.2
  simp only [busw]
  rcases valid with equal | equal | equal | equal <;>
    rw [equal] at aligned ⊢ <;>
    omega

theorem Mmio.Valid.size_pos (valid : access.Valid) : 0 < access.size := by
  rcases valid with equal | equal | equal | equal <;> omega

theorem two_pow_log2c (valid : access.Valid) : 2 ^ log2c access.size = access.size := by
  rcases valid with equal | equal | equal | equal <;>
    rw [equal] <;>
    rfl

/-- The lane of a bus address is that of the access. -/
theorem busAddr_mod (aligned : barMap % busw = 0) (access : Mmio) :
    busAddr barMap access % busw = access.addr % busw := by
  simp only [busAddr, adrw, busw] at *
  omega

/-- Bytes of the BAR share a word on the bus exactly if they do in the BAR. -/
theorem word_eq_iff (aligned : barMap % busw = 0) {a b : Nat} (left : a < regionSizeBar0)
    (right : b < regionSizeBar0) :
    (a + barMap) % 2 ^ adrw / busw = (b + barMap) % 2 ^ adrw / busw ↔ a / busw = b / busw := by
  simp only [adrw, busw, regionSizeBar0] at *
  omega

theorem lane_eq (aligned : barMap % busw = 0) (a : Nat) :
    (a + barMap) % 2 ^ adrw % busw = a % busw := by
  simp only [adrw, busw] at *
  omega

/-- The lanes of an access inside its word are its bytes. -/
theorem lanes_iff {addr size a : Nat} (fits : addr % busw + size ≤ busw) :
    (a / busw = addr / busw ∧ addr % busw ≤ a % busw ∧ a % busw < addr % busw + size) ↔
      addr ≤ a ∧ a < addr + size := by
  simp only [busw] at *
  omega

/-- A write's beats store its bytes. -/
theorem Writes.store {beats : AddrBeat × DataBeat} (writes : Writes barMap access beats)
    (aligned : barMap % busw = 0) (valid : access.Valid) (inBar : access.InBar) {a : Nat}
    (inside : a < regionSizeBar0) :
    (mem.strobe beats).barView barMap a = (mem.barView barMap).after access a := by
  cases access with
  | read addr size => exact writes.elim
  | write addr val size =>
      obtain ⟨address, -, -, -, -, lanes⟩ := writes
      have fits : addr % busw + size ≤ busw := inBar.fits valid
      have positive : 0 < size := valid.size_pos
      have addrInside : addr < regionSizeBar0 :=
        Nat.lt_of_lt_of_le (Nat.lt_add_of_pos_right positive) inBar.1
      have strobed := lanes (a % busw) (Nat.mod_lt a (by decide))
      rw [address, lane_eq aligned] at strobed
      have selected : (((a + barMap) % 2 ^ adrw / busw = beats.1.addr / busw) ∧
          beats.2.strb.testBit ((a + barMap) % 2 ^ adrw % busw) = true) ↔
          addr ≤ a ∧ a < addr + size := by
        rw [address, word_eq_iff aligned inside addrInside, lane_eq aligned, strobed.1,
          decide_eq_true_iff, lanes_iff fits]
      simp only [Memory.barView, Memory.strobe, Memory.after, Memory.store, selected]
      split
      next bytes =>
        have word := (lanes_iff fits).mpr bytes
        rw [lane_eq aligned, strobed.2 (by rw [strobed.1, decide_eq_true word.2])]
        congr 1
        simp only [busw] at word ⊢
        omega
      next => rfl

/-- The memories agree on the BAR. -/
def Agree (barMap : Nat) (mem plain : Memory) : Prop :=
  ∀ a < regionSizeBar0, mem.barView barMap a = plain a

/-- What writes leave in the slave is what they leave in plain memory. -/
theorem Agree.writes {plain : Memory} {accesses : List Mmio} {beats : List (AddrBeat × DataBeat)}
    (agree : Agree barMap mem plain) (aligned : barMap % busw = 0)
    (sound : ∀ access ∈ accesses, access.Valid ∧ access.InBar)
    (written : List.Forall₂ (Writes barMap) accesses beats) :
    Agree barMap (beats.foldl Memory.strobe mem) (accesses.foldl Memory.after plain) := by
  induction written generalizing mem plain with
  | nil => exact agree
  | @cons access beat accesses beats writes _ ih =>
      apply ih
      · intro a inside
        obtain ⟨valid, inBar⟩ := sound access List.mem_cons_self
        rw [writes.store aligned valid inBar inside]
        cases access with
        | read addr size => exact agree a inside
        | write addr val size =>
            simp only [Memory.after, Memory.store, agree a inside]
      · intro access member
        exact sound access (List.mem_cons_of_mem _ member)

/-- Reads leave memory alone. -/
theorem after_writes (plain : Memory) (accesses : List Mmio) :
    (writes accesses).foldl Memory.after plain = accesses.foldl Memory.after plain := by
  induction accesses generalizing plain with
  | nil => rfl
  | cons access accesses ih => cases access <;> exact ih _

theorem Agree.load {plain : Memory} (agree : Agree barMap mem plain) (aligned : barMap % busw = 0)
    {addr size : Nat} (valid : (Mmio.read addr size).Valid) (inBar : (Mmio.read addr size).InBar)
    {data : Nat → Byte} (bytes : ∀ i < size, data i = mem ((addr + barMap) % 2 ^ adrw + i)) :
    mmioReadBar0Data size data = plain.load addr size := by
  have fits : addr % busw + size ≤ busw := inBar.fits valid
  have inside : addr + size ≤ regionSizeBar0 := inBar.1
  have same : leNumber size data = leNumber size fun i => plain (addr + i) := by
    apply leNumber_congr
    intro i below
    have step : (addr + barMap) % 2 ^ adrw + i = (addr + i + barMap) % 2 ^ adrw := by
      simp only [adrw, busw] at *
      omega
    rw [bytes i below, step]
    exact agree (addr + i) (by omega)
  rw [Memory.load, ← same]
  rcases valid with equal | equal | equal | equal <;>
    cases equal <;>
    rfl

end Beat

/-- The address beat of an access. -/
def addrBeat (barMap : Nat) (access : Mmio) : AddrBeat :=
  ⟨busAddr barMap access, 0, log2c access.size⟩

/-- A register belongs to the access issued last. -/
def St.Latest (s : St) (property : Mmio → Prop) : Prop :=
  ∀ access ∈ s.issued.getLast?, property access

/-- The sizes of the access issued last, wherever its request is, and the address beats. -/
structure Sized (barMap : Nat) (s : St) : Prop where
  sound : ∀ access ∈ s.issued, access.Valid ∧ access.InBar
  queue : ∀ acc ∈ s.qemuReq, s.Latest fun access => acc.dataSize = access.size
  poll : s.poll.reqMRvalid = true ∨ s.poll.reqMWvalid = true →
    s.Latest fun access => s.poll.size = log2c access.size ∧ s.poll.len = 0
  mw : s.mw.state = .writeData →
    s.Latest fun access => s.mw.size = log2c access.size ∧ s.mw.len = 0
  mr : s.mr.state = .readData →
    s.Latest fun access => s.mr.size = log2c access.size ∧ s.mr.len = 0 ∧ s.mr.lenCnt = 0
  aw : s.awLog <+: (writes s.issued).map (addrBeat barMap)
  ar : s.arLog <+: (reads s.issued).map (addrBeat barMap)

section Sizes

variable {barMap : Nat} {done pending : List Mmio} {s : St} {e : Edge}

/-- An address beat that the write master offers is the one of the pending write. -/
theorem Stage.writeAddr (stage : Stage barMap done s pending) (offered : s.mw.awvalid = true) :
    ∃ access, pending = [access] ∧ access.isWrite = true ∧ s.mw.addr = busAddr barMap access ∧
      s.mw.state = .writeData ∧ s.awLog.length = (writes done).length := by
  cases stage with
  | idle _ quiet | queued _ quiet | presented _ quiet | readData _ _ quiet =>
      rw [quiet.awvalid] at offered
      cases offered
  | @writeData access aw isWrite logs busy =>
      rcases busy.aw with ⟨-, rfl⟩ | ⟨taken, -⟩
      · exact ⟨access, rfl, isWrite, busy.addr, busy.state, logs.awLength⟩
      · rw [taken] at offered
        cases offered
  | writeResponse _ _ await =>
      rw [await.awvalid] at offered
      cases offered

theorem Stage.readAddr (stage : Stage barMap done s pending) (offered : s.mr.arvalid = true) :
    ∃ access, pending = [access] ∧ access.isWrite = false ∧ s.mr.addr = busAddr barMap access ∧
      s.mr.state = .readData ∧ s.arLog.length = (reads done).length := by
  cases stage with
  | idle _ _ quiet | queued _ _ quiet | presented _ _ quiet | writeData _ _ _ quiet
  | writeResponse _ _ _ quiet =>
      rw [quiet.arvalid] at offered
      cases offered
  | @readData access ar isRead logs _ busy =>
      rcases busy.ar with ⟨-, rfl⟩ | ⟨taken, -⟩
      · exact ⟨access, rfl, isRead, busy.addr, busy.state, logs.arLength⟩
      · rw [taken] at offered
        cases offered

/-- One more beat of a list that is delivered in order. -/
theorem prefix_snoc {α : Type} {sent before : List α} {next : α}
    (delivered : sent <+: before ++ [next]) (all : sent.length = before.length) :
    sent ++ [next] <+: before ++ [next] := by
  have equal : sent = before := by
    have whole := List.prefix_iff_eq_take.mp delivered
    rw [all, List.take_left' rfl] at whole
    exact whole
  exact equal ▸ List.prefix_rfl

theorem prefix_of_append {α : Type} {sent before more : List α} (delivered : sent <+: before) :
    sent <+: before ++ more := delivered.trans (List.prefix_append _ _)

/-- The flags of the poll loop are raised by the frame it took. -/
theorem pollLoop_flags {regs : PollRegs} {ready : Option (Sock × AccData)}
    (flags : (pollLoop regs ready).reqMRvalid = true ∨ (pollLoop regs ready).reqMWvalid = true) :
    ∃ acc, ready = some (.qemuReq, acc) ∧ (pollLoop regs ready).size = log2c acc.dataSize ∧
      (acc.dataSize ≤ busw → (pollLoop regs ready).len = 0) := by
  rcases ready with _ | ⟨_ | _, acc⟩
  · simp [pollLoop, cPoll] at flags
  · refine ⟨acc, rfl, ?_, fun short => ?_⟩
    · by_cases isRead : acc.op = .read <;> simp [pollLoop, cPoll, isRead]
    · have oneBeat : ¬ acc.dataSize > busw := Nat.not_lt.mpr short
      by_cases isRead : acc.op = .read <;> simp [pollLoop, cPoll, isRead, oneBeat]
  · simp [pollLoop, cPoll] at flags

/-- A write master at work took the request up at this edge, or is still at it. -/
theorem WriteMaster.combo_busy {r : WriteMaster} {req : PollRegs} {awready wready bvalid : Bool}
    (busy : (r.combo barMap req awready wready bvalid).state = .writeData) :
    (req.reqMWvalid = true ∧ (r.combo barMap req awready wready bvalid).size = req.size ∧
      (r.combo barMap req awready wready bvalid).len = req.len) ∨
    (r.state = .writeData ∧ (r.combo barMap req awready wready bvalid).size = r.size ∧
      (r.combo barMap req awready wready bvalid).len = r.len) := by
  cases state : r.state with
  | writeIdle =>
      cases request : req.reqMWvalid with
      | true => exact .inl (by simp [combo, state, request])
      | false => simp [combo, state, request] at busy
  | writeData =>
      cases awready <;> cases wready <;>
        simp_all [combo]
  | writeResponse =>
      cases bvalid <;>
        simp [combo, state] at busy

/-- A read master at work took the request up at this edge, or is still at it. -/
theorem ReadMaster.combo_busy {r : ReadMaster} {req : PollRegs} {arready rvalid rlast : Bool}
    {rdata : Nat → Byte} (busy : (r.combo barMap req arready rvalid rlast rdata).state = .readData)
    (last : rvalid = true → rlast = true) :
    (req.reqMRvalid = true ∧ (r.combo barMap req arready rvalid rlast rdata).size = req.size ∧
      (r.combo barMap req arready rvalid rlast rdata).len = req.len ∧
      (r.combo barMap req arready rvalid rlast rdata).lenCnt = 0) ∨
    (r.state = .readData ∧ (r.combo barMap req arready rvalid rlast rdata).size = r.size ∧
      (r.combo barMap req arready rvalid rlast rdata).len = r.len ∧
      (r.combo barMap req arready rvalid rlast rdata).lenCnt = r.lenCnt) := by
  cases state : r.state with
  | readIdle =>
      cases request : req.reqMRvalid with
      | true => exact .inl (by simp [combo, state, request])
      | false => simp [combo, state, request] at busy
  | readData =>
      cases answered : rvalid with
      | true => simp [combo, state, answered, last answered] at busy
      | false => cases arready <;> simp [combo, state]

/-- When nothing is pending, nothing is on its way. -/
theorem Stage.free (stage : Stage barMap done s []) :
    s.mw.state = .writeIdle ∧ s.mr.state = .readIdle ∧ NoRequest s.poll ∧ s.qemuReq = [] := by
  cases stage with
  | idle _ wQuiet rQuiet noRequest queue =>
      exact ⟨wQuiet.state, rQuiet.state, noRequest, queue⟩

/-- A read is answered by its only beat. -/
theorem Stage.lastBeat (stage : Stage barMap done s pending) (legal : e.Legal s)
    (answered : e.rvalid = true) : e.rlast = true := by
  have bound := legal.2.2 answered
  obtain ⟨aw, w, ar, logs⟩ := stage.logs
  apply bound.2.mpr
  rw [logs.rBeat, List.getElem?_eq_getElem bound.1, Option.map_some,
    logs.arLen _ (List.getElem_mem bound.1)]

theorem Sized.issue {access : Mmio} {stack : Nat → Byte} (sized : Sized barMap s)
    (stage : Stage barMap done s []) (valid : access.Valid) (inBar : access.InBar) :
    Sized barMap (s.apply barMap (.issue access stack)) := by
  obtain ⟨wIdle, rIdle, ⟨noWrite, noRead⟩, queue⟩ := stage.free
  constructor
  case sound =>
    intro other member
    rcases List.mem_append.mp member with old | new
    · exact sized.sound other old
    · rw [List.mem_singleton.mp new]
      exact ⟨valid, inBar⟩
  case queue =>
    intro acc member last latest
    simp only [St.apply, queue, List.nil_append, List.mem_singleton] at member
    simp only [St.apply, List.getLast?_concat, Option.mem_some_iff] at latest
    rw [member, ← latest]
    cases access <;> rfl
  case poll => simp [St.apply, noWrite, noRead]
  case mw => simp [St.apply, wIdle]
  case mr => simp [St.apply, rIdle]
  case aw =>
    simp only [St.apply, writes_append, List.map_append]
    exact prefix_of_append sized.aw
  case ar =>
    simp only [St.apply, reads_append, List.map_append]
    exact prefix_of_append sized.ar

theorem Sized.clock_queue (sized : Sized barMap s) :
    ∀ acc ∈ (s.clock barMap e).qemuReq,
      (s.clock barMap e).Latest fun access => acc.dataSize = access.size := by
  intro acc member
  apply sized.queue
  simp only [St.clock] at member
  split at member
  · exact List.mem_of_mem_tail member
  · exact member

theorem Sized.clock_poll (sized : Sized barMap s)
    (flags : (s.clock barMap e).poll.reqMRvalid = true ∨
      (s.clock barMap e).poll.reqMWvalid = true) :
    (s.clock barMap e).Latest fun access => (s.clock barMap e).poll.size = log2c access.size ∧
      (s.clock barMap e).poll.len = 0 := by
  intro access latest
  obtain ⟨acc, ready, size, len⟩ := pollLoop_flags flags
  have member : acc ∈ s.qemuReq := by
    simp only [St.ready] at ready
    split at ready
    · obtain ⟨head, found, same⟩ := Option.map_eq_some_iff.mp ready
      cases same
      exact List.mem_of_mem_head? found
    · cases ready
  have sizeEq := sized.queue acc member access latest
  have small : acc.dataSize ≤ busw := by
    have valid := (sized.sound access (List.mem_of_getLast? latest)).1
    rw [sizeEq]
    exact Nat.le_trans valid.size_le (by decide)
  exact ⟨size.trans (congrArg log2c sizeEq), len small⟩

theorem Sized.clock_mw (sized : Sized barMap s)
    (busy : (s.clock barMap e).mw.state = .writeData) :
    (s.clock barMap e).Latest fun access => (s.clock barMap e).mw.size = log2c access.size ∧
      (s.clock barMap e).mw.len = 0 := by
  intro access latest
  simp only [St.clock] at busy ⊢
  split at busy
  next running =>
    rw [if_pos running]
    rcases WriteMaster.combo_busy busy with ⟨request, size, len⟩ | ⟨before, size, len⟩
    · rw [size, len]
      exact sized.poll (.inr request) access latest
    · rw [size, len]
      exact sized.mw before access latest
  next => cases busy

theorem Sized.clock_mr (sized : Sized barMap s) (stage : Stage barMap done s pending)
    (legal : e.Legal s) (busy : (s.clock barMap e).mr.state = .readData) :
    (s.clock barMap e).Latest fun access => (s.clock barMap e).mr.size = log2c access.size ∧
      (s.clock barMap e).mr.len = 0 ∧ (s.clock barMap e).mr.lenCnt = 0 := by
  intro access latest
  simp only [St.clock] at busy ⊢
  split at busy
  next running =>
    rw [if_pos running]
    rcases ReadMaster.combo_busy busy (stage.lastBeat legal) with
      ⟨request, size, len, lenCnt⟩ | ⟨before, size, len, lenCnt⟩
    · rw [size, len, lenCnt]
      have polled := sized.poll (.inl request) access latest
      exact ⟨polled.1, polled.2, rfl⟩
    · rw [size, len, lenCnt]
      exact sized.mr before access latest
  next => cases busy

/-- A write's address beat that is accepted at an edge is the next one of the writes. -/
theorem Sized.clock_aw (sized : Sized barMap s) (issued : s.issued = done ++ pending)
    (stage : Stage barMap done s pending) :
    (s.clock barMap e).awLog <+: (writes s.issued).map (addrBeat barMap) := by
  simp only [St.clock]
  split
  next accepted =>
    obtain ⟨access, rfl, isWrite, addr, state, length⟩ :=
      stage.writeAddr (Bool.and_eq_true_iff.mp accepted).1
    have latest : access ∈ s.issued.getLast? := by simp [issued]
    have registers := sized.mw state access latest
    have delivered := sized.aw
    simp only [issued, writes_append, writes_single isWrite, List.map_append, List.map_cons,
      List.map_nil] at delivered ⊢
    have beat : (⟨s.mw.addr, s.mw.len, s.mw.size⟩ : AddrBeat) = addrBeat barMap access := by
      rw [addr, registers.1, registers.2]
      rfl
    rw [beat]
    exact prefix_snoc delivered (length.trans (List.length_map _).symm)
  next =>
    rw [List.append_nil]
    exact sized.aw

theorem Sized.clock_ar (sized : Sized barMap s) (issued : s.issued = done ++ pending)
    (stage : Stage barMap done s pending) :
    (s.clock barMap e).arLog <+: (reads s.issued).map (addrBeat barMap) := by
  simp only [St.clock]
  split
  next accepted =>
    obtain ⟨access, rfl, isRead, addr, state, length⟩ :=
      stage.readAddr (Bool.and_eq_true_iff.mp accepted).1
    have latest : access ∈ s.issued.getLast? := by simp [issued]
    have registers := sized.mr state access latest
    have delivered := sized.ar
    simp only [issued, reads_append, reads_single isRead, List.map_append, List.map_cons,
      List.map_nil] at delivered ⊢
    have beat : (⟨s.mr.addr, s.mr.len, s.mr.size⟩ : AddrBeat) = addrBeat barMap access := by
      rw [addr, registers.1, registers.2.1]
      rfl
    rw [beat]
    exact prefix_snoc delivered (length.trans (List.length_map _).symm)
  next =>
    rw [List.append_nil]
    exact sized.ar

theorem Sized.clock (sized : Sized barMap s) (issued : s.issued = done ++ pending)
    (stage : Stage barMap done s pending) (legal : e.Legal s) :
    Sized barMap (s.clock barMap e) where
  sound := sized.sound
  queue := sized.clock_queue
  poll := sized.clock_poll
  mw := sized.clock_mw
  mr := sized.clock_mr stage legal
  aw := sized.clock_aw issued stage
  ar := sized.clock_ar issued stage

end Sizes

/-! ## Answers -/

section Answers

variable {barMap : Nat} {mem : Memory} {done pending : List Mmio} {s : St} {e : Edge}

/-- The response frames of an edge: none, that of the pending write, or that of the pending
read, whose address beat has been accepted. -/
theorem Stage.responses (now : Stage barMap done s pending) (legal : e.Legal s) :
    s.responses barMap e = [] ∨
    (∃ access, pending = [access] ∧ access.isWrite = true ∧ s.responses barMap e = [.write]) ∨
    ∃ access, pending = [access] ∧ access.isWrite = false ∧ e.rvalid = true ∧
      s.mr.state = .readData ∧ Logs barMap done [] [] [access] s ∧
      s.responses barMap e = [cRespRead (busAddr barMap access)
        (stage s.mr.dataTmp (s.mr.lenCnt * busw) busw e.rdata)] := by
  cases now with
  | idle logs _ quiet | queued logs _ quiet | presented logs _ quiet =>
      have noB := logs.noResponse legal (.inl rfl)
      exact .inl (by simp [St.responses, noB, quiet.state])
  | writeData _ logs _ quiet =>
      have noB := logs.noResponse legal (.inr rfl)
      exact .inl (by simp [St.responses, noB, quiet.state])
  | @writeResponse access isWrite logs _ quiet =>
      cases answered : e.bvalid with
      | true =>
          exact .inr (.inl ⟨access, rfl, isWrite, by simp [St.responses, answered, quiet.state]⟩)
      | false => exact .inl (by simp [St.responses, answered, quiet.state])
  | @readData access ar isRead logs wQuiet busy noRequest queue started =>
      have noB := logs.noResponse legal (.inl rfl)
      cases answered : e.rvalid with
      | false => exact .inl (by simp [St.responses, noB, answered])
      | true =>
          have last := (Stage.readData isRead logs wQuiet busy noRequest queue started).lastBeat
            legal answered
          have taken : ar = [access] := by
            have bound := (legal.2.2 answered).1
            rw [logs.arLength, logs.rCount] at bound
            rcases busy.ar with ⟨-, rfl⟩ | ⟨-, equal⟩
            · simp at bound
            · exact equal
          subst taken
          refine .inr (.inr ⟨access, rfl, isRead, rfl, busy.state, logs, ?_⟩)
          cases ready : e.arready <;>
            simp [St.responses, noB, answered, last, busy.state, ReadMaster.combo, ready, busy.addr]

theorem Carries.writes {access : Mmio} {beat : DataBeat} (carries : Carries access beat)
    (aligned : barMap % busw = 0) (valid : access.Valid) (inBar : access.InBar) :
    Writes barMap access (addrBeat barMap access, beat) := by
  have fits := inBar.fits valid
  have lane := busAddr_mod aligned access
  cases access with
  | read => exact carries.elim
  | write addr val size =>
      refine ⟨rfl, rfl, two_pow_log2c valid, carries.1, ?_, ?_⟩
      · rw [addrBeat, lane]
        exact fits
      · intro place inWord
        rw [addrBeat, lane]
        exact carries.2 place inWord

/-- The data beats meet their address beats. -/
theorem carried_zip {sent : List Mmio} {beats : List DataBeat} (aligned : barMap % busw = 0)
    (sound : ∀ access ∈ sent, access.Valid ∧ access.InBar)
    (carried : List.Forall₂ Carries sent beats) (more : List AddrBeat) :
    List.Forall₂ (Writes barMap) sent ((sent.map (addrBeat barMap) ++ more).zip beats) := by
  induction carried with
  | nil => simp
  | @cons access beat sent beats carries _ ih =>
      obtain ⟨valid, inBar⟩ := sound access List.mem_cons_self
      apply List.Forall₂.cons (carries.writes aligned valid inBar)
      exact ih fun other member => sound other (List.mem_cons_of_mem _ member)

/-- What the data beats say, when as many address beats have been accepted. -/
theorem Sized.writes_zip (sized : Sized barMap s) (aligned : barMap % busw = 0) {sent : List Mmio}
    (inOrder : sent <+: writes s.issued) (carried : List.Forall₂ Carries sent s.wLog)
    (reached : sent.length ≤ s.awLog.length) :
    List.Forall₂ (Writes barMap) sent (s.awLog.zip s.wLog) := by
  have beats : sent.map (addrBeat barMap) <+: s.awLog :=
    List.prefix_of_prefix_length_le (inOrder.map _) sized.aw (by simpa using reached)
  obtain ⟨more, split⟩ := beats
  rw [← split]
  apply carried_zip aligned _ carried
  intro access member
  exact sized.sound access (List.mem_of_mem_filter (inOrder.subset member))

theorem Stage.offered (stage : Stage barMap done s pending) (sized : Sized barMap s)
    (issued : s.issued = done ++ pending) (aligned : barMap % busw = 0) : Offered barMap s := by
  intro offered
  cases stage with
  | idle _ quiet | queued _ quiet | presented _ quiet | readData _ _ quiet
  | writeResponse _ _ quiet =>
      rw [quiet.wvalid] at offered
      cases offered
  | @writeData access aw isWrite logs busy =>
      have latest : access ∈ s.issued.getLast? := by simp [issued]
      obtain ⟨valid, inBar⟩ := sized.sound access (by simp [issued])
      have registers := sized.mw busy.state access latest
      rw [busy.addr, registers.1, registers.2]
      exact ⟨access, latest, busy.beat.writes aligned valid inBar⟩

theorem Stage.written (stage : Stage barMap done s pending) (sized : Sized barMap s)
    (issued : s.issued = done ++ pending) (aligned : barMap % busw = 0) : Written barMap s := by
  have early : writes done <+: writes s.issued := by
    rw [issued, writes_append]
    exact List.prefix_append _ _
  have dataLater {aw w ar : List Mmio} (logs : Logs barMap done aw w ar s) (none : w = []) :
      Written barMap s := by
    subst none
    have carried := logs.w
    rw [List.append_nil] at carried
    have reached : (writes done).length ≤ s.awLog.length := by
      rw [logs.awLength]
      exact Nat.le_add_right _ _
    exact ⟨writes done, early, sized.writes_zip aligned early carried reached⟩
  cases stage with
  | idle logs | queued logs | presented logs | writeData _ logs | readData _ logs =>
      exact dataLater logs rfl
  | @writeResponse access isWrite logs =>
      have all : writes done ++ [access] = writes s.issued := by
        rw [issued, writes_append, writes_single isWrite]
      have reached : (writes done ++ [access]).length ≤ s.awLog.length := by
        exact Nat.le_of_eq (by rw [logs.awLength, List.length_append])
      exact ⟨_, all ▸ List.prefix_rfl,
        sized.writes_zip aligned (all ▸ List.prefix_rfl) logs.w reached⟩

/-- When every write has been answered, the slave has performed exactly the writes. -/
theorem Logs.agree {ar : List Mmio} (logs : Logs barMap done [] [] ar s) (sized : Sized barMap s)
    (issued : s.issued = done ++ pending) (aligned : barMap % busw = 0) {performed : Nat}
    (enough : s.bCount ≤ performed) :
    Agree barMap (s.slaveMemory mem performed)
      (done.foldl Memory.after (mem.barView barMap)) := by
  have carried := logs.w
  rw [List.append_nil] at carried
  have early : writes done <+: writes s.issued := by
    rw [issued, writes_append]
    exact List.prefix_append _ _
  have aw : s.awLog.length = (writes done).length := logs.awLength
  have w : s.wLog.length = (writes done).length := logs.wLength
  have all : (s.awLog.zip s.wLog).take performed = s.awLog.zip s.wLog := by
    apply List.take_of_length_le
    rw [List.length_zip, aw, w, Nat.min_self, ← logs.bCount]
    exact enough
  rw [St.slaveMemory, all, ← after_writes]
  have start : Agree barMap mem (mem.barView barMap) := fun _ _ => rfl
  apply start.writes aligned
  · intro access member
    exact sized.sound access (List.mem_of_mem_filter (early.subset member))
  · exact sized.writes_zip aligned early carried (Nat.le_of_eq aw.symm)

/-- The read of the slave's memory returns what plain memory holds. -/
theorem Logs.readReturns {access : Mmio} (logs : Logs barMap done [] [] [access] s)
    (sized : Sized barMap s) (issued : s.issued = done ++ [access])
    (isRead : access.isWrite = false)
    (aligned : barMap % busw = 0) (busy : s.mr.state = .readData) (answered : e.rvalid = true)
    (served : Served mem s (.clock e)) :
    Returns (mem.barView barMap) done access (cRespRead (busAddr barMap access)
      (stage s.mr.dataTmp (s.mr.lenCnt * busw) busw e.rdata)) := by
  obtain ⟨performed, -, enough, lanes⟩ := served answered logs.rBeat
  have agree : Agree barMap (s.slaveMemory mem performed)
      (done.foldl Memory.after (mem.barView barMap)) := logs.agree sized issued aligned enough
  have latest : access ∈ s.issued.getLast? := by simp [issued]
  obtain ⟨-, -, first⟩ := sized.mr busy access latest
  obtain ⟨valid, inBar⟩ := sized.sound access (by simp [issued])
  have beat : addrBeat barMap access ∈ s.arLog[s.rCount]? := by
    have delivered := sized.ar
    rw [issued, reads_append, reads_single isRead, List.map_append] at delivered
    have whole := delivered.eq_of_length (by simp [logs.arLength])
    rw [whole, logs.rCount]
    simp
  cases access with
  | write => cases isRead
  | read addr size =>
      have fits : addr % busw + size ≤ busw := inBar.fits valid
      have lane : busAddr barMap (.read addr size) % busw = addr % busw := busAddr_mod aligned _
      have sizeEq : 2 ^ log2c size = size := two_pow_log2c valid
      apply agree.load aligned valid inBar
      intro i below
      have inWord : busAddr barMap (.read addr size) % busw + i < busw := by omega
      rw [first, stage, if_pos (by omega), Nat.zero_mul, Nat.sub_zero]
      rw [lanes _ beat _ inWord ⟨Nat.le_add_right _ _, ?_⟩]
      · rw [← Nat.add_assoc, addrBeat, Nat.div_add_mod']
        rfl
      · rw [addrBeat]
        simp only [Mmio.size, sizeEq]
        omega

theorem Returned.edge {plain : Memory} (returned : Returned plain s)
    (issued : s.issued = done ++ pending) (now : Stage barMap done s pending) (legal : e.Legal s)
    (answer : ∀ access, pending = [access] → access.isWrite = false → e.rvalid = true →
      s.mr.state = .readData → Logs barMap done [] [] [access] s →
      Returns plain done access (cRespRead (busAddr barMap access)
        (stage s.mr.dataTmp (s.mr.lenCnt * busw) busw e.rdata))) :
    Returned plain (s.clock barMap e) := by
  have length : s.qemuResp.length = done.length := by
    obtain ⟨aw, w, ar, logs⟩ := now.logs
    exact logs.resp.length_eq.symm
  have next {access : Mmio} {resp : Resp} (last : pending = [access])
      (only : s.responses barMap e = [resp]) (returns : Returns plain done access resp) :
      Returned plain (s.clock barMap e) := by
    intro k other answered found response
    simp only [St.clock, only] at found response ⊢
    rcases Nat.lt_trichotomy k s.qemuResp.length with below | equal | above
    · rw [List.getElem?_append_left below] at response
      exact returned k other answered found response
    · rw [equal, List.getElem?_concat_length] at response
      rw [equal, length, issued, last, List.getElem?_concat_length] at found
      cases response
      cases found
      rw [equal, length, issued, List.take_left' rfl]
      exact returns
    · rw [List.getElem?_eq_none (by rw [List.length_append]; exact above)] at response
      cases response
  rcases now.responses legal with none | ⟨access, last, isWrite, only⟩ |
    ⟨access, last, isRead, answered, busy, logs, only⟩
  · intro k other response found answered
    simp only [St.clock, none, List.append_nil] at found answered ⊢
    exact returned k other response found answered
  · apply next last only
    cases access with
    | read => cases isWrite
    | write => trivial
  · exact next last only (answer access last isRead answered busy logs)

/-- The invariant of the bridge with a memory slave. -/
structure MemoryInv (barMap : Nat) (mem : Memory) (s : St) : Prop where
  inv : Inv barMap s
  sized : Sized barMap s
  returned : Returned (mem.barView barMap) s

theorem MemoryInv.step {label : Label} {next : St} (holds : MemoryInv barMap mem s)
    (aligned : barMap % busw = 0) (order : AddressFirst s label)
    (taken : (memoryBridge barMap mem).step s label next) : MemoryInv barMap mem next := by
  obtain ⟨inv, sized, returned⟩ := holds
  obtain ⟨step, inBar, served⟩ := taken
  have inv' := inv.step order step
  obtain ⟨enabled, rfl⟩ := step
  obtain ⟨done, pending, issued, short, now⟩ := inv
  cases label with
  | receive =>
      exact ⟨inv', ⟨sized.sound, sized.queue, sized.poll, sized.mw, sized.mr, sized.aw, sized.ar⟩,
        returned⟩
  | clock e =>
      refine ⟨inv', sized.clock issued now enabled, ?_⟩
      apply returned.edge issued now enabled
      rintro access rfl isRead answered busy logs
      exact logs.readReturns sized issued isRead aligned busy answered served
  | issue access stack =>
      have queued : Stage barMap done (s.apply barMap (.issue access stack)) [access] ∧
          pending = [] := now.issue issued enabled.1 enabled.2
      obtain ⟨-, rfl⟩ := queued
      refine ⟨inv', sized.issue now enabled.1 inBar, ?_⟩
      intro k other resp found response
      have answered : k < s.issued.length := by
        obtain ⟨aw, w, ar, logs⟩ := now.logs
        have bound := (List.getElem?_eq_some_iff.mp response).1
        rw [St.apply, ← logs.resp.length_eq] at bound
        rw [issued, List.append_nil]
        exact bound
      simp only [St.apply, List.getElem?_append_left answered] at found response ⊢
      rw [List.take_append_of_le_length (Nat.le_of_lt answered)]
      exact returned k other resp found response

end Answers

/-- As long as no data beat overtakes its address beat, MMIO accesses behave like plain
little-endian memory. -/
theorem mmio_plain_memory {barMap : Nat} (aligned : barMap % busw = 0) (mem : Memory) {s : St}
    (reach : (memoryBridge barMap mem).Reach AddressFirst s) : PlainMemory barMap mem s := by
  have holds : MemoryInv barMap mem s := by
    apply reach.invariant
    · rintro _ rfl
      refine ⟨.initial barMap, ?_, ?_⟩
      · constructor <;>
          simp [St.initial, WriteMaster.reset, ReadMaster.reset]
      · intro k access resp found
        simp [St.initial] at found
    · intro state label next before order taken
      exact before.step aligned order taken
  obtain ⟨done, pending, issued, -, now⟩ := holds.inv
  exact ⟨now.offered holds.sized issued aligned, now.written holds.sized issued aligned,
    holds.returned⟩

/-- A step of the bridge with a memory slave that no data beat overtakes. -/
def Ordered (mem : Memory) (s : St) (label : Label) : Prop :=
  AddressFirst s label ∧ label.Enabled s ∧ label.InBar ∧ Served mem s label

/-- A step of the bridge with a memory slave. -/
def Unordered (mem : Memory) (s : St) (label : Label) : Prop :=
  label.Enabled s ∧ label.InBar ∧ Served mem s label

instance (mem : Memory) (s : St) (label : Label) : Decidable (Ordered mem s label) :=
  inferInstanceAs (Decidable (_ ∧ _))

instance (mem : Memory) (s : St) (label : Label) : Decidable (Unordered mem s label) :=
  inferInstanceAs (Decidable (_ ∧ _))

/-- Two bytes are written at 0x26, accepted with both beats at once, and read back. -/
def writeThenRead : List Label :=
  [.issue (.write 0x26 0xABCD 2) fun _ => 0, writeEdge true false false false,
    writeEdge false false false false, writeEdge false true true false,
    writeEdge false false false true, .receive,
    .issue (.read 0x26 2) fun _ => 0, readEdge true false false fun _ => 0,
    readEdge false false false fun _ => 0, readEdge false true false fun _ => 0,
    readEdge false false true fun lane => if lane = 6 then 0xCD else if lane = 7 then 0xAB else 0,
    .receive]

theorem mmio_plain_memory_read_back :
    ∃ s, (memoryBridge 0x40 fun _ => 0).Reach AddressFirst s ∧ s.issued.length = 2 ∧
      s.qemuResp.length = 2 ∧ PlainMemory 0x40 (fun _ => 0) s := by
  let final := writeThenRead.foldl (St.apply · 0x40) .initial
  have reach : (memoryBridge 0x40 fun _ => 0).Reach AddressFirst final := by
    apply (System.Reach.init rfl).along (Ordered fun _ => 0) (St.apply · 0x40)
    · intro s label good
      exact ⟨good.1, ⟨good.2.1, rfl⟩, good.2.2⟩
    · decide
  exact ⟨final, reach, by decide, by decide, mmio_plain_memory (by decide) _ reach⟩

/-- Two writes whose data the slave takes first.  The address of the first one is accepted
twice, and the slave pairs the second data beat with it. -/
def dataFirst : List Label :=
  [.issue (.write 0 0xAB 4) fun _ => 0, writeEdge true false false false,
    writeEdge false false false false, writeEdge false false true false,
    writeEdge false true false false, writeEdge false true false false,
    writeEdge false false false true, .receive,
    .issue (.write 32 0xCD 4) fun _ => 0, writeEdge true false false false,
    writeEdge false false false false, writeEdge false false true false,
    writeEdge false false false true, .receive,
    .issue (.read 32 4) fun _ => 0, readEdge true false false fun _ => 0,
    readEdge false false false fun _ => 0, readEdge false true false fun _ => 0,
    readEdge false false true fun _ => 0]

theorem write_lands_at_old_address :
    ∃ s, (memoryBridge 0 fun _ => 0).Reachable s ∧ ¬ PlainMemory 0 (fun _ => 0) s := by
  let final := dataFirst.foldl (St.apply · 0) .initial
  have reach : (memoryBridge 0 fun _ => 0).Reachable final := by
    apply (System.Reach.init rfl).along (Unordered fun _ => 0) (St.apply · 0)
    · intro s label good
      exact ⟨trivial, ⟨good.1, rfl⟩, good.2⟩
    · decide
  have read : (final.qemuResp[2]?.map fun
      | .read _ data => mmioReadBar0Data 4 data
      | .write => 1) = some 0 := by decide
  have held : (((final.issued.take 2).foldl Memory.after fun _ => 0).load 32 4) = 0xCD := by decide
  refine ⟨final, reach, fun plain => ?_⟩
  obtain ⟨resp, response, value⟩ := Option.map_eq_some_iff.mp read
  have returned := plain.returned 2 (.read 32 4) resp rfl response
  cases resp with
  | write => exact returned
  | read addr data => exact absurd (value.symm.trans (returned.trans held)) (by decide)

end OpaeXilinx.Cosim
