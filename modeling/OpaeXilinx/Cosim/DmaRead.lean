import Mathlib.Tactic.IntervalCases
import OpaeXilinx.Cosim.SlaveRead

/-!
# DMA reads over the bridge

A read burst becomes one frame with its address and the product of its length and size.
QEMU fills the frame with as many bytes of host memory; they are staged at the lane of the
address, and the beats are cut out of the staging buffer, a bus word each.  So beat `i`
carries the bus word number `i` behind the address, which is the word that the beat is
about only if each beat has a word of its own.
-/

namespace OpaeXilinx.Cosim

/-- An INCR burst. -/
structure Burst where
  addr : Nat
  size : Nat
  len : Nat
  deriving DecidableEq, Repr

namespace Burst

/-- The address, rounded down to the size of a transfer. -/
def aligned (b : Burst) : Nat := b.addr / 2 ^ b.size * 2 ^ b.size

/-- The address of a beat. -/
def beatAddr (b : Burst) (i : Nat) : Nat := if i = 0 then b.addr else b.aligned + i * 2 ^ b.size

/-- The bus word of a beat. -/
def wordAddr (b : Burst) (i : Nat) : Nat := b.beatAddr i / busw * busw

/-- The byte lanes of a beat. -/
def Active (b : Burst) (i lane : Nat) : Prop :=
  b.beatAddr i % busw ≤ lane ∧ lane < (b.aligned + i * 2 ^ b.size) % busw + 2 ^ b.size

/-- Bytes of the burst, as the bridge counts them. -/
def bytes (b : Burst) : Nat := (b.len + 1) * 2 ^ b.size

/-- A burst is legal on the 256 bit bus if it does not cross a 4 KB page. -/
structure Legal (b : Burst) : Prop where
  addr : b.addr < 2 ^ adrw
  size : b.size ≤ 5
  len : b.len < 256
  page : b.aligned % 4096 + b.bytes ≤ 4096

end Burst

/-- `C_req_read`. -/
def cReqRead (addr width len : Nat) (stack : Nat → Byte) : AccData where
  dataSize := (len + 1) * 2 ^ width % 2 ^ 32
  address := addr
  op := .read
  data := stack

/-- The `READ` case of `handle_hdl_request`: the frame that is sent back. -/
def handleRead (mem : Nat → Byte) (acc : AccData) : AccData :=
  { acc with data := fun i => if i < acc.dataSize then mem (acc.address + i) else acc.data i }

/-- The beats that the slave puts out until it is done with the burst. -/
def SlaveRead.putOut : SlaveRead → List SlaveReadPins → List (List Byte)
  | _, [] => []
  | r, pins :: edges =>
      if r.state = .readResponse then
        if pins.rready then (r.combo pins).rdata :: (r.combo pins).putOut edges
        else (r.combo pins).putOut edges
      else []

/-- The slave is about to put out the beats of a burst from the staging buffer. -/
structure AboutTo (b : Burst) (mem stack : Nat → Byte) (regs : PollRegs) (r : SlaveRead) : Prop where
  state : r.state = .readResponse
  len : r.len.toNat = b.len
  lenCnt : r.lenCnt = 0
  data : r.data =
    (cPoll regs (some (.hdlResp, handleRead mem (cReqRead b.addr b.size b.len stack)))).2.data

/-- The beats carry host memory, and no copy leaves its buffer. -/
structure ReadRight (b : Burst) : Prop where
  frame : ∀ stack, (cReqRead b.addr b.size b.len stack).dataSize ≤ bufsz
  staging : ∀ stack, b.addr % busw + (cReqRead b.addr b.size b.len stack).dataSize ≤ bufsz
  /-- There is a beat for every edge at which the master is ready. -/
  count : ∀ mem stack regs r edges, AboutTo b mem stack regs r →
    (r.putOut edges).length = min (edges.countP (·.rready)) (b.len + 1)
  beats : ∀ mem stack regs r edges, AboutTo b mem stack regs r →
    ∀ i beat, (r.putOut edges)[i]? = some beat →
      ∀ lane < busw, b.Active i lane → beat[lane]? = some (mem (b.wordAddr i + lane))

/-- Every beat has a bus word of its own. -/
def Burst.WordPerBeat (b : Burst) : Prop :=
  b.size = 5 ∨ b.len = 0 ∨ b.len = 1 ∧ b.aligned % busw + 2 ^ b.size = busw

/-- A burst that fills the staging buffer starts at the beginning of a bus word. -/
def Burst.FitsStaging (b : Burst) : Prop := b.addr % busw = 0 ∨ b.len < 127

theorem word_lane (data : Nat → Byte) (i : Nat) {lane : Nat} (bound : lane < busw) :
    (word data i)[lane]? =
      some (if busw * i + lane < bufsz then data (busw * i + lane) else 0) := by
  simp [word, bound]

/-- The beats are the bus words of the buffer, one after the other. -/
theorem putOut_eq (edges : List SlaveReadPins) {r : SlaveRead} (state : r.state = .readResponse)
    (room : r.lenCnt.toNat ≤ r.len.toNat) :
    r.putOut edges = ((List.range' r.lenCnt.toNat (r.len.toNat + 1 - r.lenCnt.toNat)).take
      (edges.countP (·.rready))).map (word r.data) := by
  induction edges generalizing r with
  | nil => simp [SlaveRead.putOut]
  | cons pins edges ih =>
      cases ready : pins.rready with
      | false =>
          have after : r.combo pins = r := by simp [SlaveRead.combo, state, ready]
          simp [SlaveRead.putOut, state, ready, after, ih state room]
      | true =>
          have beat : (r.combo pins).rdata = word r.data r.lenCnt.toNat := by
            simp only [SlaveRead.combo, state, ready]
            split_ifs <;> rfl
          by_cases isLast : r.lenCnt = r.len
          · have idle : (r.combo pins).state = .readIdle := by
              simp [SlaveRead.combo, state, ready, isLast]
            have nothing : (r.combo pins).putOut edges = [] := by
              cases edges <;> simp [SlaveRead.putOut, idle]
            have one : r.len.toNat + 1 - r.lenCnt.toNat = 1 := by simp [isLast]
            simp [SlaveRead.putOut, state, ready, beat, nothing, one]
          · have after := combo_beat state ready isLast
            obtain ⟨less, counted⟩ := lenCnt_succ room isLast
            have rest := @ih (r.combo pins) (by simp [after, state]) (by
              rw [after]
              show (r.lenCnt + 1).toNat ≤ r.len.toNat
              omega)
            have left : r.len.toNat + 1 - r.lenCnt.toNat = r.len.toNat - r.lenCnt.toNat + 1 := by
              omega
            have left' : r.len.toNat + 1 - (r.lenCnt.toNat + 1) = r.len.toNat - r.lenCnt.toNat := by
              omega
            have data : (r.combo pins).data = r.data := by rw [after]
            have len : (r.combo pins).len = r.len := by rw [after]
            have lenCnt :
              (r.combo pins).lenCnt.toNat = r.lenCnt.toNat + 1 := by rw [after, ← counted]
            rw [data, len, lenCnt, left'] at rest
            simp [SlaveRead.putOut, state, ready, beat, rest, left, List.range'_succ]

section Burst

variable {b : Burst} {mem stack : Nat → Byte} {regs : PollRegs} {r : SlaveRead}

/-- The product of length and size does not wrap around in a page. -/
theorem Burst.Legal.dataSize (legal : b.Legal) (stack : Nat → Byte) :
    (cReqRead b.addr b.size b.len stack).dataSize = b.bytes := by
  have page := legal.page
  have small : b.bytes < 2 ^ 32 := by omega
  exact Nat.mod_eq_of_lt small

/-- The byte of the staging buffer behind a lane of a beat. -/
theorem AboutTo.staged (about : AboutTo b mem stack regs r) (legal : b.Legal) (at' : Nat) :
    r.data at' = if b.addr % busw ≤ at' ∧ at' < b.addr % busw + b.bytes then
      mem (b.addr + (at' - b.addr % busw)) else regs.data at' := by
  have size := legal.dataSize stack
  rw [about.data]
  simp only [cPoll, handleRead, size, stage]
  have address : (cReqRead b.addr b.size b.len stack).address = b.addr := rfl
  by_cases inside : b.addr % busw ≤ at' ∧ at' < b.addr % busw + b.bytes
  · simp [address, inside, show at' - b.addr % busw < b.bytes by omega]
  · simp [address, inside]

theorem AboutTo.putOut (about : AboutTo b mem stack regs r) (edges : List SlaveReadPins) :
    r.putOut edges =
      ((List.range (b.len + 1)).take (edges.countP (·.rready))).map (word r.data) := by
  rw [putOut_eq edges about.state (by simp [about.lenCnt])]
  simp [about.lenCnt, about.len, List.range_eq_range']

/-- The beat number `i` is the bus word number `i` of the staging buffer. -/
theorem AboutTo.beat (about : AboutTo b mem stack regs r) {edges : List SlaveReadPins} {i : Nat}
    {beat : List Byte} (isBeat : (r.putOut edges)[i]? = some beat) :
    i ≤ b.len ∧ beat = word r.data i := by
  rw [about.putOut edges, List.getElem?_map, List.getElem?_take, Option.map_eq_some_iff] at isBeat
  obtain ⟨number, isNumber, rfl⟩ := isBeat
  split_ifs at isNumber
  obtain ⟨bound, rfl⟩ := List.getElem?_eq_some_iff.mp isNumber
  simp only [List.length_range] at bound
  exact ⟨by omega, by simp⟩

/-- Where each beat has a bus word of its own, the word has been staged for the beat. -/
theorem Burst.WordPerBeat.active (own : b.WordPerBeat) (fits : b.FitsStaging) (legal : b.Legal)
    {i lane : Nat} (isBeat : i ≤ b.len) (bound : lane < busw) (active : b.Active i lane) :
    b.addr % busw ≤ busw * i + lane ∧ busw * i + lane < b.addr % busw + b.bytes ∧
      busw * i + lane < bufsz ∧
        b.addr + (busw * i + lane - b.addr % busw) = b.wordAddr i + lane := by
  obtain ⟨addr, size, len⟩ := b
  obtain ⟨-, sizeBound, -, page⟩ := legal
  simp only [Burst.WordPerBeat, Burst.FitsStaging, Burst.Active, Burst.aligned, Burst.beatAddr,
    Burst.bytes, Burst.wordAddr, busw, bufsz] at *
  by_cases first : i = 0
  · subst first
    interval_cases size <;> simp only [if_pos] at * <;> omega
  · rcases own with rfl | rfl | ⟨rfl, ends⟩
    · simp only [if_neg first] at *
      omega
    · omega
    · obtain rfl : i = 1 := by omega
      interval_cases size <;> simp only [if_neg first] at * <;> omega

/-- Where beats share a bus word, some beat is not about the word that it carries. -/
theorem Burst.exists_active (legal : b.Legal) (shared : ¬ b.WordPerBeat) :
    ∃ i ≤ b.len, ∃ lane < busw, b.Active i lane ∧
      b.addr - b.addr % busw + busw * i + lane ≠ b.wordAddr i + lane := by
  obtain ⟨addr, size, len⟩ := b
  obtain ⟨-, sizeBound, -, page⟩ := legal
  simp only [Burst.WordPerBeat, Burst.Active, Burst.aligned, Burst.beatAddr,
    Burst.bytes, Burst.wordAddr, busw] at *
  have narrow : size < 5 := by omega
  clear sizeBound
  -- the second beat is in the first word, or the third in the second
  by_cases inside : addr / 2 ^ size * 2 ^ size % 32 + 2 ^ size < 32
  · refine ⟨1, by omega, addr / 2 ^ size * 2 ^ size % 32 + 2 ^ size, inside, ?_⟩
    interval_cases size <;> simp only [if_neg Nat.one_ne_zero] at * <;> omega
  · have word : addr / 2 ^ size * 2 ^ size % 32 + 2 ^ size = 32 := by
      interval_cases size <;> omega
    refine ⟨2, by omega, 2 ^ size, ?_, ?_⟩
    · interval_cases size <;> omega
    · interval_cases size <;> simp only [if_neg (show ¬ 2 = 0 by decide)] at * <;> omega

theorem readRight_of (legal : b.Legal) (own : b.WordPerBeat)
    (fits : b.FitsStaging) : ReadRight b := by
  refine ⟨fun stack => ?_, fun stack => ?_, ?_, ?_⟩
  · rw [legal.dataSize]
    have := legal.page
    simp only [bufsz]
    omega
  · rw [legal.dataSize]
    obtain ⟨addr, size, len⟩ := b
    obtain ⟨-, sizeBound, -, page⟩ := legal
    simp only [Burst.WordPerBeat, Burst.FitsStaging, Burst.aligned, Burst.bytes, busw, bufsz] at *
    interval_cases size <;> omega
  · intro mem stack regs r edges about
    rw [about.putOut edges]
    simp
  · intro mem stack regs r edges about i beat isBeat lane bound active
    obtain ⟨le, rfl⟩ := about.beat isBeat
    obtain ⟨from', upto, inside, same⟩ := own.active fits legal le bound active
    rw [word_lane _ _ bound, if_pos inside, about.staged legal, if_pos ⟨from', upto⟩, same]

/-- Pins of a master that is ready. -/
def SlaveReadPins.ready : SlaveReadPins := ⟨false, 0, 0, true, false, fun _ => 0⟩

/-- A slave that is about to put out a burst, after a bridge whose buffers are empty. -/
def Burst.slave (b : Burst) (mem : Nat → Byte) : SlaveRead :=
  { SlaveRead.reset with
    state := .readResponse
    len := BitVec.ofNat 8 b.len
    data := (cPoll ⟨0, 0, 0, fun _ => 0, fun _ => 0, false, false, false⟩
      (some (.hdlResp, handleRead mem (cReqRead b.addr b.size b.len fun _ => 0)))).2.data }

theorem Burst.slave_aboutTo (legal : b.Legal) (mem : Nat → Byte) :
    AboutTo b mem (fun _ => 0)
      ⟨0, 0, 0, fun _ => 0, fun _ => 0, false, false, false⟩ (b.slave mem) := by
  refine ⟨rfl, ?_, rfl, rfl⟩
  have len := legal.len
  simp only [Burst.slave, BitVec.toNat_ofNat]
  omega

theorem wordPerBeat_of_readRight (legal : b.Legal) (right : ReadRight b) : b.WordPerBeat := by
  by_contra shared
  obtain ⟨i, le, lane, bound, active, differs⟩ := b.exists_active legal shared
  -- a memory that is zero but for the byte that the lane should carry
  let mem : Nat → Byte := fun at' => if at' = b.wordAddr i + lane then 1 else 0
  have about := b.slave_aboutTo legal mem
  have isBeat : ((b.slave mem).putOut (List.replicate (b.len + 1) .ready))[i]? =
      some (word (b.slave mem).data i) := by
    rw [about.putOut]
    have all : (List.replicate (b.len + 1) SlaveReadPins.ready).countP (·.rready) = b.len + 1 := by
      simp [List.countP_replicate, SlaveReadPins.ready]
    simp [all, Nat.lt_succ_of_le le]
  have carried := right.beats _ _ _ _ _ about i _ isBeat lane bound active
  rw [word_lane _ _ bound, about.staged legal] at carried
  have one : mem (b.wordAddr i + lane) = 1 := if_pos rfl
  have other : mem (b.addr + (busw * i + lane - b.addr % busw)) ≠ 1 ∨
      ¬ (b.addr % busw ≤ busw * i + lane) := by
    by_cases from' : b.addr % busw ≤ busw * i + lane
    · refine .inl ?_
      have small := Nat.mod_le b.addr busw
      simp only [mem]
      rw [if_neg (by omega)]
      decide
    · exact .inr from'
  rw [one] at carried
  split_ifs at carried with inside range
  · rcases other with wrong | outside
    · exact wrong (Option.some.inj carried)
    · exact outside range.1
  all_goals simp at carried

theorem fitsStaging_of_readRight (legal : b.Legal) (right : ReadRight b) (own : b.WordPerBeat) :
    b.FitsStaging := by
  have staging := right.staging fun _ => 0
  rw [legal.dataSize] at staging
  obtain ⟨addr, size, len⟩ := b
  simp only [Burst.WordPerBeat, Burst.FitsStaging, Burst.bytes, bufsz] at *
  rcases own with rfl | rfl | ⟨rfl, -⟩ <;> omega

end Burst

/-- A burst is read right if and only if each of its beats has a bus word of its own, and it
does not start inside a word when it fills the staging buffer. -/
theorem dma_read_right {b : Burst} (legal : b.Legal) :
    ReadRight b ↔ b.WordPerBeat ∧ b.FitsStaging := by
  constructor
  · intro right
    have own := wordPerBeat_of_readRight legal right
    exact ⟨own, fitsStaging_of_readRight legal right own⟩
  · rintro ⟨own, fits⟩
    exact readRight_of legal own fits

/-- Two full words, from the middle of a word on. -/
theorem dma_read_right_unaligned : ReadRight ⟨0x1010, 5, 1⟩ :=
  (dma_read_right ⟨by decide, by decide, by decide, by decide⟩).mpr ⟨.inl rfl, .inr (by decide)⟩

/-- Two beats of four bytes share a word. -/
theorem narrow_read_wrong : Burst.Legal ⟨0x1000, 2, 1⟩ ∧ ¬ ReadRight ⟨0x1000, 2, 1⟩ := by
  have legal : Burst.Legal ⟨0x1000, 2, 1⟩ := ⟨by decide, by decide, by decide, by decide⟩
  refine ⟨legal, fun right => ?_⟩
  have own := wordPerBeat_of_readRight legal right
  simp [Burst.WordPerBeat, Burst.aligned, busw] at own

end OpaeXilinx.Cosim
