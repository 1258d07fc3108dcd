import OpaeXilinx.Base.Chunks
import OpaeXilinx.Cosim.DmaRead

/-!
# DMA writes over the bridge

`axi4_s_w` collects the beats of a write burst and hands them to `C_req_write`, which packs
the strobed bytes into a frame and lets go of their lanes.  QEMU copies the frame to host
memory in one piece, as many bytes as the length and the size of the burst make, and so
stores the bytes where they belong only if there are exactly that many.
-/

namespace OpaeXilinx.Cosim

open OpaeXilinx.Base

/-- A write burst with its beats. -/
structure WriteBurst extends Burst where
  wdata : Nat → Nat → Byte
  wstrb : Nat → BitVec 32

namespace WriteBurst

/-- A lane of a beat is written. -/
def Strobed (b : WriteBurst) (i lane : Nat) : Prop := (b.wstrb i).getLsbD lane = true

/-- Strobes are high only on active lanes. -/
structure Legal (b : WriteBurst) : Prop extends b.toBurst.Legal where
  strobes : ∀ i ≤ b.len, ∀ lane, b.Strobed i lane → b.Active i lane

end WriteBurst

/-- Integers of `strb_tmp`, `STMP`. -/
def stmp : Nat := bufsz / 32

inductive SlaveWriteState where
  | writeIdle | writeResponse | writeData
  deriving DecidableEq, Repr

/-- Registers of `axi4_s_w`. -/
structure SlaveWrite where
  state : SlaveWriteState
  id : BitVec 3
  addr : Nat
  size : Nat
  len : BitVec 8
  lenCnt : BitVec 8
  awready : Bool
  wready : Bool
  bid : BitVec 3
  bvalid : Bool
  dataTmp : Nat → Byte
  strbTmp : Nat → BitVec 32

/-- Inputs of `axi4_s_w` at a clock edge. -/
structure SlaveWritePins where
  awvalid : Bool
  awid : BitVec 3
  awaddr : Nat
  awsize : Nat
  awlen : BitVec 8
  wvalid : Bool
  wdata : Nat → Byte
  wstrb : BitVec 32
  bready : Bool

/-- The registers with a beat in the staging arrays.  A write behind the end of an array does
nothing. -/
def SlaveWrite.store (r : SlaveWrite) (pins : SlaveWritePins) : SlaveWrite :=
  let first := r.lenCnt.toNat * busw
  { r with
    dataTmp := fun at' =>
      if first ≤ at' ∧ at' < first + busw ∧ at' < bufsz then pins.wdata (at' - first)
        else r.dataTmp at'
    strbTmp := fun at' => if at' = r.lenCnt.toNat ∧ at' < stmp then pins.wstrb else r.strbTmp at' }

/-- `COMBO_WRITE`: next register values of `axi4_s_w`, and `send_to_qemu`. -/
def SlaveWrite.combo (r : SlaveWrite) (pins : SlaveWritePins) : SlaveWrite × Bool :=
  match r.state with
  | .writeIdle =>
      if pins.awvalid then
        ({ r with
          state := .writeData
          awready := false
          wready := true
          id := pins.awid
          addr := pins.awaddr
          size := pins.awsize
          len := pins.awlen
          lenCnt := 0 }, false)
      else (r, false)
  | .writeData =>
      if pins.wvalid then
        if r.lenCnt ≠ r.len then ({ r.store pins with lenCnt := r.lenCnt + 1 }, false)
        else
          ({ r.store pins with
            bid := r.id, bvalid := true, wready := false, state := .writeResponse },
            true)
      else (r, false)
  | .writeResponse =>
      if pins.bready then ({ r with state := .writeIdle, awready := true, bvalid := false }, false)
      else (r, false)

/-- The pins while the beat number `i` is on the bus or held back. -/
def WriteBurst.pins (b : WriteBurst) (i : Nat) (wvalid bready : Bool) : SlaveWritePins where
  awvalid := false
  awid := 0
  awaddr := 0
  awsize := 0
  awlen := 0
  wvalid := wvalid
  wdata := b.wdata i
  wstrb := b.wstrb i
  bready := bready

/-- The slave takes the beats of a burst from number `i` on; the registers with which it sends
the burst to QEMU. -/
def SlaveWrite.accept (b : WriteBurst) : SlaveWrite → Nat → List (Bool × Bool) → Option SlaveWrite
  | _, _, [] => none
  | r, i, (wvalid, bready) :: edges =>
      let next := r.combo (b.pins i wvalid bready)
      if next.2 then some next.1
      else next.1.accept b (if wvalid && r.wready then i + 1 else i) edges

/-- The frame that is being filled, how far it is, and the strobes of the beat. -/
structure Packing where
  data : Nat → Byte
  k : Nat
  strb : BitVec 32

/-- A lane in the inner loop of `C_req_write`. -/
def Packing.lane (p : Packing) (byte : Byte) : Packing where
  data := if p.strb &&& 1 ≠ 0 then fun at' => if at' = p.k then byte else p.data at' else p.data
  k := if p.strb &&& 1 ≠ 0 then p.k + 1 else p.k
  strb := p.strb >>> 1

/-- A beat in the outer loop. -/
def Packing.beat (p : Packing) (data : Nat → Byte) (strb : BitVec 32) (i : Nat) : Packing :=
  (List.range 32).foldl (fun p j => p.lane (data (i * 32 + j))) { p with strb := strb }

/-- The loops of `C_req_write`. -/
def pack (len : Nat) (data : Nat → Byte) (strb : Nat → BitVec 32) (stack : Nat → Byte) : Packing :=
  (List.range (len + 1)).foldl (fun p i => p.beat data (strb i) i) ⟨stack, 0, 0⟩

/-- `C_req_write`. -/
def cReqWrite (addr width len : Nat) (data : Nat → Byte) (strb : Nat → BitVec 32)
    (stack : Nat → Byte) : AccData where
  dataSize := (len + 1) * 2 ^ width % 2 ^ 32
  address := addr
  op := .write
  data := (pack len data strb stack).data

/-- The `WRITE` case of `handle_hdl_request`. -/
def handleWrite (mem : Nat → Byte) (acc : AccData) : Nat → Byte := fun at' =>
  if acc.address ≤ at' ∧ at' < acc.address + acc.dataSize
    then acc.data (at' - acc.address) else mem at'

/-- The bytes around the buffers of `C_req_write`: on its stack, and behind the two arrays. -/
structure Around where
  stack : Nat → Byte
  data : Nat → Byte
  strb : Nat → BitVec 32

/-- The data as `C_req_write` reads them. -/
def SlaveWrite.data (r : SlaveWrite) (around : Around) (at' : Nat) : Byte :=
  if at' < bufsz then r.dataTmp at' else around.data at'

def SlaveWrite.strb (r : SlaveWrite) (around : Around) (at' : Nat) : BitVec 32 :=
  if at' < stmp then r.strbTmp at' else around.strb at'

/-- The frame for the burst in the registers. -/
def SlaveWrite.frame (r : SlaveWrite) (around : Around) : AccData :=
  cReqWrite r.addr r.size r.len.toNat (r.data around) (r.strb around) around.stack

/-- The pins while the address of a burst is on the bus. -/
def WriteBurst.addrPins (b : WriteBurst) (id : BitVec 3) (wvalid bready : Bool) : SlaveWritePins :=
  { b.pins 0 wvalid bready with
    awvalid := true
    awid := id
    awaddr := b.addr
    awsize := b.size
    awlen := BitVec.ofNat 8 b.len }

/-- An idle slave takes a burst and sends it. -/
def Sends (b : WriteBurst) (sent : SlaveWrite) : Prop :=
  ∃ (r : SlaveWrite) (id : BitVec 3) (wvalid bready : Bool) (edges : List (Bool × Bool)),
    r.state = .writeIdle ∧ (r.combo (b.addrPins id wvalid bready)).1.accept b 0 edges = some sent

/-- Host memory takes the strobed bytes of a burst and nothing else, and no write leaves its
buffer. -/
structure WriteRight (b : WriteBurst) : Prop where
  /-- The slave sends the burst once all its beats have been valid. -/
  sends : ∀ (r : SlaveWrite) id wvalid bready edges, r.state = .writeIdle →
    b.len + 1 ≤ edges.countP Prod.fst →
    ∃ sent, (r.combo (b.addrPins id wvalid bready)).1.accept b 0 edges = some sent
  stored : ∀ mem around sent, Sends b sent → ∀ i ≤ b.len, ∀ lane < busw, b.Strobed i lane →
    handleWrite mem (sent.frame around) (b.wordAddr i + lane) = b.wdata i lane
  kept : ∀ mem around sent, Sends b sent → ∀ at',
    (∀ i ≤ b.len, ∀ lane < busw, b.Strobed i lane → b.wordAddr i + lane ≠ at') →
    handleWrite mem (sent.frame around) at' = mem at'
  /-- `acc.data` and the bytes that are copied out of it. -/
  frame : ∀ around sent, Sends b sent →
    (pack sent.len.toNat (sent.data around) (sent.strb around) around.stack).k ≤ bufsz ∧
      (sent.frame around).dataSize ≤ bufsz
  /-- `data_tmp` and `strb_tmp`. -/
  staging : ∀ i ≤ b.len, i * busw + busw ≤ bufsz ∧ i < stmp

/-- The burst is aligned, all its active lanes are strobed, and its beats fit the staging
arrays. -/
structure WriteBurst.Dense (b : WriteBurst) : Prop where
  aligned : b.addr % 2 ^ b.size = 0
  strobed : ∀ i ≤ b.len, ∀ lane, b.Active i lane → b.Strobed i lane
  fits : b.len < stmp

/-- The first beats of a burst are in the staging arrays. -/
structure Filled (b : WriteBurst) (r : SlaveWrite) (count : Nat) : Prop where
  addr : r.addr = b.addr
  size : r.size = b.size
  len : r.len.toNat = b.len
  data : ∀ i < count, i < stmp → ∀ lane < busw, r.dataTmp (i * busw + lane) = b.wdata i lane
  strb : ∀ i < count, i < stmp → r.strbTmp i = b.wstrb i

section Accept

variable {b : WriteBurst} {r : SlaveWrite} {count : Nat}

theorem Filled.store (filled : Filled b r count) (pins : SlaveWritePins)
    (lenCnt : r.lenCnt.toNat = count) (wdata : pins.wdata = b.wdata count)
    (wstrb : pins.wstrb = b.wstrb count) :
    Filled b (r.store pins) (count + 1) := by
  refine ⟨filled.addr, filled.size, filled.len, ?_, ?_⟩
  · intro i less fits lane bound
    simp only [SlaveWrite.store, lenCnt, wdata]
    by_cases last : i = count
    · subst last
      have inside : i * busw + lane < bufsz := by
        simp only [stmp, bufsz, busw] at *
        omega
      rw [if_pos ⟨Nat.le_add_right .., by omega, inside⟩, Nat.add_sub_cancel_left]
    · have other : ¬ (count * busw ≤ i * busw + lane) := by
        simp only [busw] at *
        omega
      rw [if_neg (by simp [other])]
      exact filled.data i (by omega) fits lane bound
  · intro i less fits
    simp only [SlaveWrite.store, lenCnt, wstrb]
    by_cases last : i = count
    · rw [if_pos ⟨last, fits⟩, last]
    · rw [if_neg (by simp [last])]
      exact filled.strb i (by omega) fits

/-- The slave has taken some beats and waits for the next. -/
structure Taking (b : WriteBurst) (r : SlaveWrite) (count : Nat) :
    Prop extends Filled b r count where
  state : r.state = .writeData
  wready : r.wready = true
  lenCnt : r.lenCnt.toNat = count
  room : count ≤ b.len

/-- What an edge does while the slave waits. -/
theorem Taking.edge (taking : Taking b r count) (wvalid bready : Bool) :
    (wvalid = false ∧ r.combo (b.pins count wvalid bready) = (r, false)) ∨
    (wvalid = true ∧ count < b.len ∧ (r.combo (b.pins count wvalid bready)).2 = false ∧
      Taking b (r.combo (b.pins count wvalid bready)).1 (count + 1)) ∨
    (wvalid = true ∧ count = b.len ∧ (r.combo (b.pins count wvalid bready)).2 = true ∧
      Filled b (r.combo (b.pins count wvalid bready)).1 (count + 1)) := by
  have state := taking.state
  have stored := taking.toFilled.store (b.pins count wvalid bready) taking.lenCnt rfl rfl
  cases wvalid with
  | false => exact .inl ⟨rfl, by simp [SlaveWrite.combo, state, WriteBurst.pins]⟩
  | true =>
      refine .inr ?_
      have lenCnt := taking.lenCnt
      have len := taking.len
      by_cases last : r.lenCnt = r.len
      · have combo : r.combo (b.pins count true bready) =
            ({ r.store (b.pins count true bready) with
              bid := r.id, bvalid := true, wready := false, state := .writeResponse }, true) := by
          simp [SlaveWrite.combo, state, WriteBurst.pins, last]
        rw [combo]
        rw [last] at lenCnt
        exact .inr ⟨rfl, by omega, rfl, stored.addr, stored.size, stored.len,
          stored.data, stored.strb⟩
      · have combo : r.combo (b.pins count true bready) =
            ({ r.store (b.pins count true bready) with lenCnt := r.lenCnt + 1 }, false) := by
          simp [SlaveWrite.combo, state, WriteBurst.pins, last]
        have differs : r.lenCnt.toNat ≠ r.len.toNat := fun same => last (BitVec.eq_of_toNat_eq same)
        have room := taking.room
        have bound := r.len.isLt
        have counted : (r.lenCnt + 1).toNat = count + 1 := by
          rw [BitVec.toNat_add, show (1 : BitVec 8).toNat = 1 from rfl]
          omega
        rw [combo]
        exact .inl ⟨rfl, by omega, rfl,
          ⟨stored.addr, stored.size, stored.len, stored.data, stored.strb⟩,
          state, taking.wready, counted, by omega⟩

theorem Taking.accept (taking : Taking b r count) {edges : List (Bool × Bool)} {sent : SlaveWrite}
    (accept : r.accept b count edges = some sent) : Filled b sent (b.len + 1) := by
  induction edges generalizing r count with
  | nil => simp [SlaveWrite.accept] at accept
  | cons pair edges ih =>
      obtain ⟨wvalid, bready⟩ := pair
      simp only [SlaveWrite.accept, taking.wready] at accept
      rcases taking.edge wvalid bready with ⟨rfl, quiet⟩ | ⟨rfl, -, waits, next⟩ |
        ⟨rfl, isLast, sends, filled⟩
      · rw [quiet] at accept
        exact ih taking accept
      · rw [waits] at accept
        exact ih next accept
      · rw [sends] at accept
        cases accept
        rw [← isLast]
        exact filled

theorem Taking.sends (taking : Taking b r count) {edges : List (Bool × Bool)}
    (enough : b.len + 1 ≤ count + edges.countP Prod.fst) :
    ∃ sent, r.accept b count edges = some sent := by
  induction edges generalizing r count with
  | nil =>
      have := taking.room
      simp only [List.countP_nil] at enough
      omega
  | cons pair edges ih =>
      obtain ⟨wvalid, bready⟩ := pair
      simp only [SlaveWrite.accept, taking.wready]
      rcases taking.edge wvalid bready with ⟨rfl, quiet⟩ | ⟨rfl, -, waits, next⟩ |
        ⟨rfl, isLast, sends, filled⟩
      · rw [quiet]
        exact ih taking (by simpa using enough)
      · rw [waits]
        apply ih next
        simp only [List.countP_cons, if_true] at enough ⊢
        omega
      · rw [sends]
        exact ⟨_, rfl⟩

/-- The address is accepted. -/
theorem taking_of_idle (idle : r.state = .writeIdle) (legal : b.Legal) (id : BitVec 3)
    (wvalid bready : Bool) : Taking b (r.combo (b.addrPins id wvalid bready)).1 0 := by
  have len := legal.len
  refine ⟨⟨?_, ?_, ?_, nofun, nofun⟩, ?_, ?_, ?_, Nat.zero_le _⟩ <;>
    simp [SlaveWrite.combo, idle, WriteBurst.addrPins, WriteBurst.pins, Nat.mod_eq_of_lt len]

theorem Sends.filled {sent : SlaveWrite} (sends : Sends b sent) (legal : b.Legal) :
    Filled b sent (b.len + 1) := by
  obtain ⟨r, id, wvalid, bready, edges, idle, accept⟩ := sends
  exact (taking_of_idle idle legal id wvalid bready).accept accept

end Accept

/-- The lanes that are strobed. -/
def lanes (strb : BitVec 32) : List Nat := (List.range 32).filter (strb.getLsbD ·)

/-- The strobed bytes of a burst, in the order of the beats and lanes. -/
def packedBytes (len : Nat) (data : Nat → Byte) (strb : Nat → BitVec 32) : List Byte :=
  (List.range (len + 1)).flatMap fun i => (lanes (strb i)).map fun j => data (i * 32 + j)

/-- The frame begins with some bytes; behind them there is what was on the stack. -/
structure Packing.Holds (p : Packing) (stack : Nat → Byte) (bytes : List Byte) : Prop where
  k : p.k = bytes.length
  data : ∀ at', p.data at' = bytes[at']?.getD (stack at')

section Pack

variable {p : Packing} {stack : Nat → Byte} {bytes : List Byte}

theorem Packing.Holds.lane (holds : p.Holds stack bytes) (byte : Byte) :
    (p.lane byte).Holds stack (bytes ++ if p.strb.getLsbD 0 then [byte] else []) := by
  have bit : p.strb &&& 1 = (BitVec.ofBool (p.strb.getLsbD 0)).setWidth 32 :=
    BitVec.and_one_eq_setWidth_ofBool_getLsbD
  cases low : p.strb.getLsbD 0 with
  | false =>
      have clear : ¬ (p.strb &&& 1 ≠ 0) := by
        rw [bit, low]
        decide
      refine ⟨?_, fun at' => ?_⟩
      · simp only [Packing.lane, if_neg clear, holds.k, List.length_append]
        rfl
      · simp only [Packing.lane, if_neg clear, holds.data]
        simp
  | true =>
      have set : p.strb &&& 1 ≠ 0 := by
        rw [bit, low]
        decide
      refine ⟨?_, fun at' => ?_⟩
      · simp only [Packing.lane, if_pos set, holds.k, if_true, List.length_append]
        rfl
      · simp only [Packing.lane, if_pos set, holds.k, holds.data, if_true]
        by_cases last : at' = bytes.length
        · simp [last]
        · rw [if_neg last]
          rcases Nat.lt_or_gt_of_ne last with before | behind
          · rw [List.getElem?_append_left before]
          · rw [List.getElem?_eq_none (by omega), List.getElem?_eq_none (by simp; omega)]

/-- The inner loop, up to a lane. -/
theorem Packing.Holds.upto (holds : p.Holds stack bytes) (data : Nat → Byte) (i count : Nat) :
    ((List.range count).foldl (fun p j => p.lane (data (i * 32 + j))) p).Holds stack
        (bytes ++ ((List.range count).filter (p.strb.getLsbD ·)).map fun j => data (i * 32 + j)) ∧
      ((List.range count).foldl (fun p j => p.lane (data (i * 32 + j))) p).strb =
        p.strb >>> count := by
  induction count with
  | zero => exact ⟨by simpa using holds, by simp⟩
  | succ count ih =>
      obtain ⟨holds', strb⟩ := ih
      have next := holds'.lane (data (i * 32 + count))
      rw [strb, BitVec.getLsbD_ushiftRight, Nat.add_zero] at next
      simp only [List.range_succ, List.foldl_append, List.foldl_cons, List.foldl_nil]
      constructor
      · convert next using 1
        cases bit : p.strb.getLsbD count <;> simp [bit]
      · rw [BitVec.shiftRight_add, ← strb]
        rfl

theorem Packing.Holds.beat (holds : p.Holds stack bytes) (data : Nat → Byte) (strb : BitVec 32)
    (i : Nat) :
    (p.beat data strb i).Holds stack (bytes ++ (lanes strb).map fun j => data (i * 32 + j)) := by
  have start : ({ p with strb := strb } : Packing).Holds stack bytes := ⟨holds.k, holds.data⟩
  exact (start.upto data i 32).1

/-- The loops of `C_req_write` fill the frame with the strobed bytes. -/
theorem pack_holds (len : Nat) (data : Nat → Byte) (strb : Nat → BitVec 32) (stack : Nat → Byte) :
    (pack len data strb stack).Holds stack (packedBytes len data strb) := by
  have all : ∀ count, ((List.range count).foldl (fun (p : Packing) i => p.beat data (strb i) i)
      (⟨stack, 0, 0⟩ : Packing)).Holds stack
        ((List.range count).flatMap fun i => (lanes (strb i)).map fun j => data (i * 32 + j)) := by
    intro count
    induction count with
    | zero => exact ⟨rfl, fun _ => rfl⟩
    | succ count ih =>
        simp only [List.range_succ, List.foldl_append, List.foldl_cons, List.foldl_nil,
          List.flatMap_append, List.flatMap_singleton]
        exact ih.beat data (strb count) count
  exact all (len + 1)

end Pack

/-- The first lane of a beat. -/
def Burst.low (b : Burst) (i : Nat) : Nat := b.beatAddr i % busw

/-- How many lanes a beat has. -/
def Burst.width (b : Burst) (i : Nat) : Nat :=
  (b.aligned + i * 2 ^ b.size) % busw + 2 ^ b.size - b.low i

section Lanes

variable {b : Burst} {i lane : Nat}

theorem Burst.active_iff : b.Active i lane ↔ b.low i ≤ lane ∧ lane < b.low i + b.width i := by
  simp only [Burst.Active, Burst.width, Burst.low]
  omega

theorem Burst.Legal.width (legal : b.Legal) (i : Nat) :
    b.width i ≤ 2 ^ b.size ∧ b.low i + b.width i ≤ 32 ∧
      (b.width 0 = 2 ^ b.size → b.addr % 2 ^ b.size = 0) := by
  obtain ⟨addr, size, len⟩ := b
  obtain ⟨-, sizeBound, -, -⟩ := legal
  simp only [Burst.width, Burst.low, Burst.beatAddr, Burst.aligned, busw]
  by_cases first : i = 0
  · subst first
    interval_cases size <;> simp only [if_pos] <;> omega
  · interval_cases size <;> simp only [if_neg first, if_pos] <;> omega

/-- The beats of an aligned burst. -/
theorem Burst.beat_of_aligned (aligned : b.addr % 2 ^ b.size = 0) (i : Nat) :
    b.width i = 2 ^ b.size ∧ b.wordAddr i + b.low i = b.addr + i * 2 ^ b.size := by
  have start : b.aligned = b.addr := Nat.div_mul_cancel (Nat.dvd_of_mod_eq_zero aligned)
  have beat : b.beatAddr i = b.addr + i * 2 ^ b.size := by
    simp only [Burst.beatAddr, start]
    split_ifs with first
    · simp [first]
    · rfl
  constructor
  · simp only [Burst.width, Burst.low, start, beat]
    omega
  · simp only [Burst.wordAddr, Burst.low, ← beat]
    exact Nat.div_add_mod' ..

end Lanes

section Strobes

variable {b : WriteBurst} {i lane : Nat}

/-- The strobed lanes are among the lanes of the beat. -/
theorem WriteBurst.Legal.lanes (legal : b.Legal) (isBeat : i ≤ b.len) :
    (lanes (b.wstrb i)).Sublist (List.range' (b.low i) (b.width i)) := by
  rw [← filter_range_interval (legal.toLegal.width i).2.1]
  apply List.monotone_filter_right _
  intro lane strobed
  have active := Burst.active_iff.mp (legal.strobes i isBeat lane strobed)
  simpa using active

theorem mem_lanes : lane ∈ lanes (b.wstrb i) ↔ lane < 32 ∧ b.Strobed i lane := by
  simp [Cosim.lanes, WriteBurst.Strobed]

/-- The strobed bytes of the burst, in order. -/
def WriteBurst.strobedBytes (b : WriteBurst) : List Byte :=
  (List.range (b.len + 1)).flatMap fun i => (Cosim.lanes (b.wstrb i)).map (b.wdata i)

/-- If there are as many strobed bytes as the bridge counts, all active lanes are strobed. -/
theorem dense_of_full (legal : b.Legal) (fits : b.len < stmp)
    (full : b.bytes ≤ b.strobedBytes.length) :
    b.Dense := by
  have short :
      ∀ i < b.len + 1, ((Cosim.lanes (b.wstrb i)).map (b.wdata i)).length ≤ 2 ^ b.size := by
    intro i less
    have sub := (legal.lanes (Nat.le_of_lt_succ less)).length_le
    have width := (legal.toLegal.width i).1
    simp only [List.length_map, List.length_range'] at sub ⊢
    omega
  have every := length_chunk_of_full short full
  have widths : ∀ i ≤ b.len, b.width i = 2 ^ b.size ∧
      Cosim.lanes (b.wstrb i) = List.range' (b.low i) (b.width i) := by
    intro i le
    have exact' := every i (Nat.lt_succ_of_le le)
    have sub := (legal.lanes le).length_le
    have width := (legal.toLegal.width i).1
    simp only [List.length_map, List.length_range'] at exact' sub
    refine ⟨by omega, (legal.lanes le).eq_of_length_le ?_⟩
    simp only [List.length_range']
    omega
  refine ⟨(legal.toLegal.width 0).2.2 (widths 0 (Nat.zero_le _)).1,
    fun i le lane active => ?_, fits⟩
  have member : lane ∈ Cosim.lanes (b.wstrb i) := by
    rw [(widths i le).2]
    simpa using Burst.active_iff.mp active
  exact (mem_lanes.mp member).2

/-- All lanes of the beats of a dense burst are strobed. -/
theorem WriteBurst.Dense.lanes (dense : b.Dense) (legal : b.Legal) (isBeat : i ≤ b.len) :
    Cosim.lanes (b.wstrb i) = List.range' (b.low i) (2 ^ b.size) := by
  have aligned := (Burst.beat_of_aligned dense.aligned i).1
  have room := (legal.toLegal.width i).2.1
  rw [← aligned, ← filter_range_interval room]
  apply List.filter_congr
  intro lane _
  rw [Bool.eq_iff_iff, decide_eq_true_iff, ← Burst.active_iff]
  exact ⟨legal.strobes i isBeat lane, dense.strobed i isBeat lane⟩

/-- Where the byte of a lane is in the frame. -/
theorem WriteBurst.Dense.byte (dense : b.Dense) (legal : b.Legal) (isBeat : i ≤ b.len) {t : Nat}
    (inside : t < 2 ^ b.size) :
    b.strobedBytes[i * 2 ^ b.size + t]? = some (b.wdata i (b.low i + t)) := by
  rw [WriteBurst.strobedBytes, getElem?_chunks ?_ (Nat.lt_succ_of_le isBeat) inside,
    dense.lanes legal isBeat]
  · simp [inside]
  · intro j less
    simp [dense.lanes legal (Nat.le_of_lt_succ less)]

end Strobes

/-! ## Host memory -/

section Memory

variable {b : WriteBurst} {sent : SlaveWrite} {around : Around}

theorem Sends.frame (sends : Sends b sent) (legal : b.Legal) (around : Around) :
    (sent.frame around).address = b.addr ∧ (sent.frame around).dataSize = b.bytes := by
  have filled := sends.filled legal
  have page := legal.page
  have small : (b.len + 1) * 2 ^ b.size < 2 ^ 32 := by
    have : b.bytes = (b.len + 1) * 2 ^ b.size := rfl
    omega
  refine ⟨filled.addr, ?_⟩
  simp only [SlaveWrite.frame, cReqWrite, filled.size, filled.len]
  exact Nat.mod_eq_of_lt small

/-- The frame begins with the strobed bytes. -/
theorem Sends.packed (sends : Sends b sent) (legal : b.Legal) (fits : b.len < stmp)
    (around : Around) :
    (pack sent.len.toNat (sent.data around) (sent.strb around) around.stack).Holds around.stack
      b.strobedBytes := by
  have filled := sends.filled legal
  have same :
      packedBytes sent.len.toNat (sent.data around) (sent.strb around) = b.strobedBytes := by
    rw [packedBytes, WriteBurst.strobedBytes, filled.len]
    apply List.flatMap_congr
    intro i member
    have less : i < b.len + 1 := List.mem_range.mp member
    have room : i < stmp := by omega
    have strb : sent.strb around i = b.wstrb i := by
      rw [SlaveWrite.strb, if_pos room, filled.strb i less room]
    rw [strb]
    apply List.map_congr_left
    intro lane isLane
    have bound : lane < 32 := (mem_lanes.mp isLane).1
    have inside : i * 32 + lane < bufsz := by
      simp only [stmp, bufsz] at *
      omega
    rw [SlaveWrite.data, if_pos inside]
    exact filled.data i less room lane bound
  exact same ▸ pack_holds ..

theorem writeRight_of_dense (legal : b.Legal) (dense : b.Dense) : WriteRight b := by
  have fits := dense.fits
  -- the byte that is written to an address
  have place : ∀ mem around sent, Sends b sent → ∀ i ≤ b.len, ∀ t < 2 ^ b.size,
      handleWrite mem (sent.frame around) (b.addr + i * 2 ^ b.size + t) =
        b.wdata i (b.low i + t) := by
    intro mem around sent sends i le t inside
    obtain ⟨address, size⟩ := sends.frame legal around
    have upto : i * 2 ^ b.size + t < b.bytes := by
      have := Nat.mul_le_mul_right (2 ^ b.size) (Nat.succ_le_succ le)
      simp only [Nat.succ_mul, Burst.bytes] at this ⊢
      omega
    have byte := dense.byte legal le inside
    have offset : b.addr + i * 2 ^ b.size + t - b.addr = i * 2 ^ b.size + t := by omega
    rw [handleWrite, address, size, if_pos (by omega), offset]
    have data := (sends.packed legal fits around).data (i * 2 ^ b.size + t)
    rw [byte, Option.getD_some] at data
    exact data
  refine ⟨?_, ?_, ?_, ?_, ?_⟩
  · intro r id wvalid bready edges idle enough
    exact (taking_of_idle idle legal id wvalid bready).sends (by omega)
  · intro mem around sent sends i le lane bound strobed
    obtain ⟨from', upto⟩ := Burst.active_iff.mp (legal.strobes i le lane strobed)
    obtain ⟨width, start⟩ := Burst.beat_of_aligned dense.aligned i
    have stored := place mem around sent sends i le (lane - b.low i) (by omega)
    rw [show b.low i + (lane - b.low i) = lane by omega] at stored
    rw [← stored]
    congr 1
    omega
  · intro mem around sent sends at' untouched
    obtain ⟨address, size⟩ := sends.frame legal around
    rw [handleWrite, address, size, if_neg ?_]
    rintro ⟨from', upto⟩
    -- the address belongs to a lane of a beat, and all of these are strobed
    have positive : 0 < 2 ^ b.size := Nat.two_pow_pos _
    let i := (at' - b.addr) / 2 ^ b.size
    let t := (at' - b.addr) % 2 ^ b.size
    have cut : i * 2 ^ b.size + t = at' - b.addr := Nat.div_add_mod' ..
    have inside : t < 2 ^ b.size := Nat.mod_lt _ positive
    have less : i < b.len + 1 := by
      apply (Nat.div_lt_iff_lt_mul positive).mpr
      simp only [Burst.bytes] at upto
      omega
    obtain ⟨width, start⟩ := Burst.beat_of_aligned dense.aligned i
    have room := (legal.toLegal.width i).2.1
    have active : b.Active i (b.low i + t) := Burst.active_iff.mpr (by omega)
    refine untouched i (by omega) (b.low i + t) (by simp only [busw]; omega)
      (dense.strobed i (by omega) _ active) ?_
    omega
  · intro around sent sends
    obtain ⟨-, size⟩ := sends.frame legal around
    have page := legal.page
    have upto : b.bytes ≤ bufsz := by
      simp only [bufsz]
      omega
    refine ⟨?_, size ▸ upto⟩
    rw [(sends.packed legal fits around).k]
    refine le_trans (length_chunks_le fun i less => ?_) upto
    simp [dense.lanes legal (Nat.le_of_lt_succ less)]
  · intro i le
    have room : i < stmp := by omega
    refine ⟨?_, room⟩
    simp only [stmp, bufsz, busw] at *
    omega

/-- Reset values of `axi4_s_w`. -/
def SlaveWrite.reset : SlaveWrite where
  state := .writeIdle
  id := 0
  addr := 0
  size := 0
  len := 0
  lenCnt := 0
  awready := true
  wready := false
  bid := 0
  bvalid := false
  dataTmp := fun _ => 0
  strbTmp := fun _ => 0

/-- If the frame is not full, a byte of the stack ends up in host memory. -/
theorem full_of_writeRight (legal : b.Legal) (right : WriteRight b) :
    b.bytes ≤ b.strobedBytes.length := by
  have fits : b.len < stmp := (right.staging b.len (Nat.le_refl _)).2
  obtain ⟨sent, accept⟩ := right.sends .reset 0 false false
    (List.replicate (b.len + 1) (true, false)) rfl (by simp [List.countP_replicate])
  have sends : Sends b sent := ⟨.reset, 0, false, false, _, rfl, accept⟩
  by_contra notFull
  have leaks : ∀ mem around, handleWrite mem (sent.frame around) (b.addr + b.strobedBytes.length) =
      around.stack b.strobedBytes.length := by
    intro mem around
    obtain ⟨address, size⟩ := sends.frame legal around
    have data := (sends.packed legal fits around).data b.strobedBytes.length
    rw [List.getElem?_eq_none (Nat.le_refl _), Option.getD_none] at data
    rw [handleWrite, address, size, if_pos (by omega), Nat.add_sub_cancel_left]
    exact data
  by_cases target : ∃ i ≤ b.len, ∃ lane < busw, b.Strobed i lane ∧
      b.wordAddr i + lane = b.addr + b.strobedBytes.length
  · obtain ⟨i, le, lane, bound, strobed, same⟩ := target
    have stored :=
      right.stored (fun _ => 0) ⟨fun _ => b.wdata i lane + 1, fun _ => 0, fun _ => 0⟩ sent
      sends i le lane bound strobed
    rw [same, leaks] at stored
    have wrong : b.wdata i lane + 1 = b.wdata i lane := stored
    bv_omega
  · have kept := right.kept (fun _ => 0) ⟨fun _ => 1, fun _ => 0, fun _ => 0⟩ sent sends
      (b.addr + b.strobedBytes.length)
      fun i le lane bound strobed same => target ⟨i, le, lane, bound, strobed, same⟩
    rw [leaks] at kept
    exact absurd (show (1 : Byte) = 0 from kept) (by decide)

end Memory

/-- Host memory takes exactly the strobed bytes of a burst if and only if the burst is aligned,
all its active lanes are strobed, and its beats fit the staging arrays. -/
theorem dma_write_right {b : WriteBurst} (legal : b.Legal) : WriteRight b ↔ b.Dense := by
  constructor
  · intro right
    have fits : b.len < stmp := (right.staging b.len (Nat.le_refl _)).2
    exact dense_of_full legal fits (full_of_writeRight legal right)
  · exact writeRight_of_dense legal

/-- All lanes of whole bus words are active. -/
theorem active_of_words {b : Burst} (size : b.size = 5) (aligned : b.addr % busw = 0)
    (i lane : Nat) : b.Active i lane ↔ lane < busw := by
  have start : b.beatAddr i % busw = 0 := by
    rw [Burst.beatAddr, Burst.aligned, size]
    split
    · exact aligned
    · simp only [busw]
      omega
  have base : (b.aligned + i * 2 ^ 5) % busw = 0 := by
    rw [Burst.aligned, size]
    simp only [busw]
    omega
  rw [Burst.Active, start, size, base]
  exact ⟨fun active => by simpa [busw] using active.2, fun inside =>
    ⟨Nat.zero_le _, by simpa [busw] using inside⟩⟩

/-- Four full bus words. -/
def fullWords : WriteBurst :=
    ⟨⟨0x1000, 5, 3⟩, fun i lane => BitVec.ofNat 8 (32 * i + lane), fun _ => BitVec.allOnes 32⟩

/-- They are written as they should be. -/
theorem dma_write_right_full : WriteRight fullWords := by
  have legal : fullWords.Legal :=
    { addr := by decide, size := by decide, len := by decide, page := by decide
      strobes := fun i _ lane strobed =>
        (active_of_words rfl (by decide) i lane).mpr (BitVec.lt_of_getLsbD strobed) }
  refine (dma_write_right legal).mpr ⟨by decide, fun i _ lane active => ?_, by decide⟩
  have bound := (active_of_words rfl (by decide) i lane).mp active
  show (BitVec.allOnes 32).getLsbD lane = true
  rw [BitVec.getLsbD_allOnes]
  exact decide_eq_true bound

/-- A bus word of which only the first lane is strobed. -/
def firstByte : WriteBurst :=
    ⟨⟨0x1000, 5, 0⟩, fun _ lane => BitVec.ofNat 8 lane, fun _ => 1⟩

/-- The bytes that are not strobed are overwritten. -/
theorem sparse_write_wrong : firstByte.Legal ∧ ¬ WriteRight firstByte := by
  have legal : firstByte.Legal :=
    { addr := by decide, size := by decide, len := by decide, page := by decide
      strobes := fun i _ lane strobed =>
        (active_of_words rfl (by decide) i lane).mpr (BitVec.lt_of_getLsbD strobed) }
  exact ⟨legal, fun right => absurd (full_of_writeRight legal right) (by decide)⟩

end OpaeXilinx.Cosim
