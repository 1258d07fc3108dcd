import OpaeXilinx.Cosim.Bridge

/-!
# The read slave

`axi4_s_r` accepts a read address, waits for the buffer with the data and puts it out, a
bus word a beat.  It puts out a beat when the master is ready for the one before; after the
last beat there is no one after, and the slave goes idle and takes it back at the next edge
whether or not it has been accepted.  If the master is ready at that edge, no beat is lost.
-/

namespace OpaeXilinx.Cosim

open OpaeXilinx.Base

inductive SlaveReadState where
  | readIdle | readData | readResponse
  deriving DecidableEq, Repr

/-- Registers of `axi4_s_r`. -/
structure SlaveRead where
  state : SlaveReadState
  id : BitVec 3
  len : BitVec 8
  lenCnt : BitVec 8
  arready : Bool
  rdata : List Byte
  rlast : Bool
  rvalid : Bool
  data : Nat → Byte

/-- Inputs of `axi4_s_r` at a clock edge. -/
structure SlaveReadPins where
  arvalid : Bool
  arid : BitVec 3
  arlen : BitVec 8
  rready : Bool
  reqValid : Bool
  reqData : Nat → Byte

/-- A bus word of the buffer; behind its end there are zeros. -/
def word (data : Nat → Byte) (i : Nat) : List Byte :=
  (List.range busw).map fun lane => if busw * i + lane < bufsz then data (busw * i + lane) else 0

def SlaveRead.reset : SlaveRead where
  state := .readIdle
  id := 0
  len := 0
  lenCnt := 0
  arready := true
  rdata := List.replicate busw 0xAA
  rlast := false
  rvalid := false
  data := fun _ => 0

/-- `COMBO_READ`: next register values of `axi4_s_r`. -/
def SlaveRead.combo (r : SlaveRead) (pins : SlaveReadPins) : SlaveRead :=
  match r.state with
  | .readIdle =>
      let r := { r with rvalid := false, rlast := false }
      if pins.arvalid then
        { r with
          arready := false, len := pins.arlen, lenCnt := 0, id := pins.arid, state := .readData }
      else r
  | .readData =>
      if pins.reqValid then { r with state := .readResponse, data := pins.reqData } else r
  | .readResponse =>
      if pins.rready then
        let r := { r with rvalid := true, rdata := word r.data r.lenCnt.toNat }
        if r.lenCnt = r.len then { r with rlast := true, state := .readIdle, arready := true }
        else { r with lenCnt := r.lenCnt + 1 }
      else r

/-- A read: its length, the buffer that was handed over for it, and the beats that have been
accepted. -/
structure ReadBurst where
  len : BitVec 8
  data : Nat → Byte
  beats : List (List Byte × Bool)

/-- The slave, the read it is working on, and the reads that a next one has ended. -/
structure Reading where
  regs : SlaveRead
  current : Option ReadBurst
  done : List ReadBurst

/-- The accepted beat of an edge. -/
def SlaveRead.accepted (r : SlaveRead) (pins : SlaveReadPins) : List (List Byte × Bool) :=
  if r.rvalid && pins.rready then [(r.rdata, r.rlast)] else []

/-- The read that is being worked on, after an edge at which no other is accepted. -/
def ReadBurst.next (burst : ReadBurst) (r : SlaveRead) (pins : SlaveReadPins) : ReadBurst where
  len := burst.len
  data := if r.state = .readData ∧ pins.reqValid = true then pins.reqData else burst.data
  beats := burst.beats ++ r.accepted pins

/-- A rising clock edge.  A beat that is accepted at the edge at which the next address is
belongs to the read before. -/
def Reading.clock (s : Reading) (pins : SlaveReadPins) : Reading :=
  let current := s.current.map (·.next s.regs pins)
  if pins.arvalid && s.regs.arready then
    { regs := s.regs.combo pins
      current := some ⟨pins.arlen, fun _ => 0, []⟩
      done := s.done ++ current.toList }
  else { s with regs := s.regs.combo pins, current := current }

def readSystem : System Reading SlaveReadPins where
  init s := s = ⟨.reset, none, []⟩
  step s pins next := next = s.clock pins

/-- The beat number `i` of a read. -/
def readBeat (data : Nat → Byte) (len : BitVec 8) (i : Nat) : List Byte × Bool :=
  (word data i, i = len.toNat)

/-- All the beats of a read have been accepted, in order, and the last one is marked. -/
def ReadBurst.Complete (burst : ReadBurst) : Prop :=
  burst.beats = (List.range (burst.len.toNat + 1)).map (readBeat burst.data burst.len)

/-- A beat that is not accepted stays on the bus. -/
def Steady (r : SlaveRead) (pins : SlaveReadPins) : Prop :=
  r.rvalid = true → pins.rready = false →
    (r.combo pins).rvalid = true ∧ (r.combo pins).rdata = r.rdata ∧ (r.combo pins).rlast = r.rlast

/-- The master is ready at the edge after the last beat has been put out. -/
def TakesLast (s : Reading) (pins : SlaveReadPins) : Prop :=
  s.regs.state = .readIdle → s.regs.rvalid = true → pins.rready = true

instance (s : Reading) (pins : SlaveReadPins) : Decidable (TakesLast s pins) :=
  inferInstanceAs (Decidable (_ → _ → _))

/-- Beats that have been put out, accepted or not. -/
def SlaveRead.put (r : SlaveRead) : Nat :=
  match r.state with
  | .readIdle => r.len.toNat + 1
  | .readData => 0
  | .readResponse => r.lenCnt.toNat

/-- The read that the registers belong to. -/
structure Follows (r : SlaveRead) (burst : ReadBurst) : Prop where
  len : r.len = burst.len
  data : r.state ≠ .readData → r.data = burst.data
  /-- The beat on the bus is the last that was put out; all before have been accepted. -/
  beats : burst.beats ++ (if r.rvalid then [(r.rdata, r.rlast)] else []) =
    (List.range r.put).map (readBeat burst.data burst.len)
  room : r.state = .readResponse → r.lenCnt.toNat ≤ r.len.toNat
  zero : r.state = .readData → r.lenCnt = 0
  last : r.state ≠ .readIdle → r.rlast = false

structure ReadInv (s : Reading) : Prop where
  arready : s.regs.arready = true ↔ s.regs.state = .readIdle
  none : s.current = none → s.regs.state = .readIdle ∧ s.regs.rvalid = false
  current : ∀ burst ∈ s.current, Follows s.regs burst
  done : ∀ burst ∈ s.done, burst.Complete

section Clock

variable {r : SlaveRead} {burst : ReadBurst} {pins : SlaveReadPins}

/-- A beat that is put out is the next one. -/
theorem readBeat_put (follows : Follows r burst) (state : r.state = .readResponse) :
    (word r.data r.lenCnt.toNat, decide (r.lenCnt = r.len)) =
      readBeat burst.data burst.len r.put := by
  have data := follows.data (by simp [state])
  simp only [readBeat, SlaveRead.put, state, data, follows.len, Prod.mk.injEq, true_and]
  exact decide_eq_decide.mpr BitVec.toNat_inj.symm

/-- Once a beat has been accepted, all that were put out have been. -/
theorem Follows.accept (follows : Follows r burst) (taken : r.rvalid = true → pins.rready = true) :
    (burst.next r pins).beats = (List.range r.put).map (readBeat burst.data burst.len) := by
  rw [← follows.beats, ReadBurst.next, SlaveRead.accepted]
  cases valid : r.rvalid with
  | false => rfl
  | true => simp [taken valid]

/-- The slave is idle. -/
theorem Follows.idle (follows : Follows r burst) (state : r.state = .readIdle)
    (quiet : pins.arvalid = false) (takes : r.rvalid = true → pins.rready = true) :
    Follows (r.combo pins) (burst.next r pins) := by
  have after : r.combo pins = { r with rvalid := false, rlast := false } := by
    simp [SlaveRead.combo, state, quiet]
  have sameData : (burst.next r pins).data = burst.data := by simp [ReadBurst.next, state]
  rw [after]
  refine ⟨follows.len, fun _ => ?_, ?_, by simp [state], by simp [state], fun _ => rfl⟩
  · rw [sameData]
    exact follows.data (by simp [state])
  · rw [sameData, follows.accept takes]
    simp [ReadBurst.next, SlaveRead.put, state]

/-- The slave waits for data. -/
theorem Follows.wait (follows : Follows r burst) (state : r.state = .readData) :
    Follows (r.combo pins) (burst.next r pins) := by
  have nothing := follows.beats
  simp only [SlaveRead.put, state, List.range_zero, List.map_nil, List.append_eq_nil_iff] at nothing
  have notValid : r.rvalid = false := by
    cases valid : r.rvalid with
    | false => rfl
    | true => simp [valid] at nothing
  have noBeats : (burst.next r pins).beats = [] := by
    simp [ReadBurst.next, SlaveRead.accepted, nothing.1, notValid]
  have zero := follows.zero state
  have last := follows.last (by simp [state])
  cases arrives : pins.reqValid with
  | true =>
      have after : r.combo pins = { r with state := .readResponse, data := pins.reqData } := by
        simp [SlaveRead.combo, state, arrives]
      rw [after]
      refine ⟨follows.len, fun _ => by simp [ReadBurst.next, state, arrives], ?_, fun _ => ?_,
        nofun, fun _ => last⟩
      · simp [noBeats, notValid, SlaveRead.put, zero]
      · simp [zero]
  | false =>
      have after : r.combo pins = r := by simp [SlaveRead.combo, state, arrives]
      rw [after]
      refine ⟨follows.len, by simp [state], ?_, by simp [state], fun _ => zero, fun _ => last⟩
      simp [noBeats, notValid, SlaveRead.put, state]

/-- A beat that is not the last one. -/
theorem combo_beat (state : r.state = .readResponse) (ready : pins.rready = true)
    (more : r.lenCnt ≠ r.len) : r.combo pins =
      { r with rvalid := true, rdata := word r.data r.lenCnt.toNat, lenCnt := r.lenCnt + 1 } := by
  simp [SlaveRead.combo, state, ready, more]

theorem lenCnt_succ (room : r.lenCnt.toNat ≤ r.len.toNat) (more : r.lenCnt ≠ r.len) :
    r.lenCnt.toNat < r.len.toNat ∧ (r.lenCnt + 1).toNat = r.lenCnt.toNat + 1 := by
  have less : r.lenCnt.toNat < r.len.toNat :=
    Nat.lt_of_le_of_ne room fun same => more (BitVec.eq_of_toNat_eq same)
  have bound := r.len.isLt
  refine ⟨less, ?_⟩
  rw [BitVec.toNat_add, show (1 : BitVec 8).toNat = 1 from rfl]
  omega

/-- The slave puts out the next beat, or waits for the master. -/
theorem Follows.respond (follows : Follows r burst) (state : r.state = .readResponse) :
    Follows (r.combo pins) (burst.next r pins) := by
  have data := follows.data (by simp [state])
  have last := follows.last (by simp [state])
  have room := follows.room state
  have sameData : (burst.next r pins).data = burst.data := by simp [ReadBurst.next, state]
  have sameLen : (burst.next r pins).len = burst.len := rfl
  cases ready : pins.rready with
  | false =>
      have after : r.combo pins = r := by simp [SlaveRead.combo, state, ready]
      have same : burst.next r pins = burst := by
        simp [ReadBurst.next, SlaveRead.accepted, state, ready]
      rw [after, same]
      exact follows
  | true =>
      have next := readBeat_put follows state
      have accepted := follows.accept fun _ => ready
      have put : r.put = r.lenCnt.toNat := by simp [SlaveRead.put, state]
      by_cases isLast : r.lenCnt = r.len
      · have after : r.combo pins = { r with
            rvalid := true, rdata := word r.data r.lenCnt.toNat, rlast := true
            state := .readIdle, arready := true } := by
          simp [SlaveRead.combo, state, ready, isLast]
        rw [after]
        refine ⟨follows.len, fun _ => data.trans sameData.symm, ?_, nofun, nofun, nofun⟩
        have marked : (word r.data r.lenCnt.toNat, true) = readBeat burst.data burst.len r.put := by
          rw [← next]
          simp [isLast]
        rw [accepted, sameData, sameLen, if_pos rfl, marked]
        simp only [SlaveRead.put, state, isLast, List.range_succ, List.map_append,
          List.map_singleton]
      · obtain ⟨less, counted⟩ := lenCnt_succ room isLast
        rw [combo_beat state ready isLast]
        refine ⟨follows.len, fun _ => data.trans sameData.symm, ?_, fun _ => ?_, by simp [state],
          fun _ => last⟩
        · have unmarked : (word r.data r.lenCnt.toNat, r.rlast) =
              readBeat burst.data burst.len r.put := by
            rw [← next]
            simp [isLast, last]
          rw [accepted, sameData, sameLen, if_pos rfl, unmarked]
          simp only [SlaveRead.put, state, counted, List.range_succ, List.map_append,
            List.map_singleton]
        · show (r.lenCnt + 1).toNat ≤ r.len.toNat
          omega

/-- Beats stay on the bus until they are accepted, but for the last one. -/
theorem steady_of_takes (takes : r.state = .readIdle → r.rvalid = true → pins.rready = true)
    (waiting : r.state = .readData → r.rvalid = false) : Steady r pins := by
  intro valid notReady
  cases state : r.state with
  | readIdle => cases notReady.symm.trans (takes state valid)
  | readData => cases valid.symm.trans (waiting state)
  | readResponse => simp [SlaveRead.combo, state, notReady, valid]

end Clock

section Runs

variable {s : Reading} {pins : SlaveReadPins}

/-- While a read is being worked on, no other is accepted. -/
theorem ReadInv.busy (inv : ReadInv s) (busy : s.regs.state ≠ .readIdle)
    (follows : ∀ burst, Follows s.regs burst → Follows (s.regs.combo pins) (burst.next s.regs pins))
    (arready : (s.regs.combo pins).arready = true ↔ (s.regs.combo pins).state = .readIdle) :
    ReadInv (s.clock pins) := by
  have notReady : s.regs.arready = false :=
    Bool.eq_false_iff.mpr fun ready => busy (inv.arready.mp ready)
  have clocked :
      s.clock pins = ⟨s.regs.combo pins, s.current.map (·.next s.regs pins), s.done⟩ := by
    simp [Reading.clock, notReady]
  rw [clocked]
  refine ⟨arready, fun isNone => ?_, fun burst member => ?_, inv.done⟩
  · exact absurd (inv.none (Option.map_eq_none_iff.mp isNone)).1 busy
  · obtain ⟨old, isCurrent, rfl⟩ := Option.map_eq_some_iff.mp member
    exact follows old (inv.current old isCurrent)

theorem ReadInv.clock (inv : ReadInv s) (takes : TakesLast s pins) : ReadInv (s.clock pins) := by
  cases state : s.regs.state with
  | readIdle =>
      have arready := inv.arready.mpr state
      cases offered : pins.arvalid with
      | true =>
          have after : s.regs.combo pins = { s.regs with
              rvalid := false, rlast := false, arready := false, len := pins.arlen, lenCnt := 0
              id := pins.arid, state := .readData } := by
            simp [SlaveRead.combo, state, offered]
          have clocked : s.clock pins = ⟨s.regs.combo pins, some ⟨pins.arlen, fun _ => 0, []⟩,
              s.done ++ (s.current.map (·.next s.regs pins)).toList⟩ := by
            simp [Reading.clock, offered, arready]
          rw [clocked, after]
          refine ⟨by simp, nofun, fun burst member => ?_, fun burst member => ?_⟩
          · cases member
            exact ⟨rfl, by simp, rfl, nofun, fun _ => rfl, fun _ => rfl⟩
          · rcases List.mem_append.mp member with before | now
            · exact inv.done burst before
            · obtain ⟨old, isCurrent, rfl⟩ := by simpa using now
              have follows := inv.current old isCurrent
              rw [ReadBurst.Complete, follows.accept (takes state)]
              simp [ReadBurst.next, SlaveRead.put, state, follows.len]
      | false =>
          have after : s.regs.combo pins = { s.regs with rvalid := false, rlast := false } := by
            simp [SlaveRead.combo, state, offered]
          have clocked : s.clock pins = ⟨s.regs.combo pins, s.current.map (·.next s.regs pins),
              s.done⟩ := by
            simp [Reading.clock, offered]
          rw [clocked]
          refine ⟨by simp [after, state, arready], fun _ => by simp [after, state], ?_, inv.done⟩
          intro burst member
          obtain ⟨old, isCurrent, rfl⟩ := Option.map_eq_some_iff.mp member
          exact (inv.current old isCurrent).idle state offered (takes state)
  | readData =>
      have arready := inv.arready
      apply inv.busy (by simp [state]) (fun _ follows => follows.wait state)
      cases arrives : pins.reqValid <;> simp [SlaveRead.combo, state, arrives, arready]
  | readResponse =>
      have arready := inv.arready
      apply inv.busy (by simp [state]) (fun _ follows => follows.respond state)
      simp only [SlaveRead.combo, state]
      split_ifs <;> simp [state, arready]

theorem ReadInv.reach (reach : readSystem.Reach TakesLast s) : ReadInv s := by
  refine System.Reach.invariant ?_ ?_ reach
  · rintro _ rfl
    exact ⟨by simp [SlaveRead.reset], fun _ => ⟨rfl, rfl⟩, nofun, nofun⟩
  · rintro s pins _ inv takes rfl
    exact inv.clock takes

/-- While the slave waits for data, there is no beat on the bus. -/
theorem ReadInv.waiting (inv : ReadInv s) (state : s.regs.state = .readData) :
    s.regs.rvalid = false := by
  cases isCurrent : s.current with
  | none => exact (inv.none isCurrent).2
  | some burst =>
      have nothing := (inv.current burst isCurrent).beats
      simp only [SlaveRead.put, state, List.range_zero, List.map_nil,
        List.append_eq_nil_iff] at nothing
      cases valid : s.regs.rvalid with
      | false => rfl
      | true => simp [valid] at nothing

end Runs

/-- If the master is ready at the edge after each last beat has been put out, every read
has exactly its beats accepted before the next one begins, and no beat changes before it
is accepted. -/
theorem read_loses_no_beat {s : Reading} (reach : readSystem.Reach TakesLast s) :
    (∀ burst ∈ s.done, burst.Complete) ∧ ∀ pins, TakesLast s pins → Steady s.regs pins := by
  have inv := ReadInv.reach reach
  exact ⟨inv.done, fun pins takes => steady_of_takes takes inv.waiting⟩

/-- The slave after reset. -/
theorem read_reach_reset (allowed : Reading → SlaveReadPins → Prop) :
    readSystem.Reach allowed ⟨.reset, none, []⟩ := .init rfl

/-- The pins at an edge, with a buffer full of ones. -/
def readPins (arvalid rready reqValid : Bool) : SlaveReadPins :=
  ⟨arvalid, 0, 1, rready, reqValid, fun _ => 1⟩

/-- A read of two beats, and the address of the next one. -/
theorem read_loses_no_beat_two : ∃ s, readSystem.Reach TakesLast s ∧
    s.done.map (fun burst => burst.beats.map Prod.snd) = [[false, true]] ∧
    ∀ burst ∈ s.done, burst.Complete := by
  let edges : List SlaveReadPins := [readPins true false false, readPins false false true,
    readPins false true false, readPins false false false, readPins false true false,
    readPins true true false]
  have reach : readSystem.Reach TakesLast (edges.foldl Reading.clock ⟨.reset, none, []⟩) :=
    (read_reach_reset _).along TakesLast Reading.clock (fun _ _ takes => ⟨takes, rfl⟩) (by decide)
  exact ⟨_, reach, by decide, (read_loses_no_beat reach).1⟩

/-- A read of two beats, at the last of which the master is not ready for one edge. -/
def lateEdges : List SlaveReadPins :=
  [readPins true false false, readPins false false true, readPins false true false,
    readPins false true false]

/-- The last beat is withdrawn. -/
theorem last_beat_lost : readSystem.Reachable (lateEdges.foldl Reading.clock ⟨.reset, none, []⟩) ∧
    ¬ ((∀ burst ∈ (lateEdges.foldl Reading.clock ⟨.reset, none, []⟩).done, burst.Complete) ∧
      ∀ pins, Steady (lateEdges.foldl Reading.clock ⟨.reset, none, []⟩).regs pins) := by
  have reach : readSystem.Reachable (lateEdges.foldl Reading.clock ⟨.reset, none, []⟩) :=
    (read_reach_reset _).along (fun _ _ => True) Reading.clock (fun _ _ _ => ⟨trivial, rfl⟩)
      (by decide)
  refine ⟨reach, fun right => ?_⟩
  have kept := (right.2 (readPins false false false) (by decide) rfl).1
  exact absurd kept (by decide)

end OpaeXilinx.Cosim
