import OpaeXilinx.Pcie.Service

/-!
# The bridge in front of a memory

A memory on the AXI bus takes the address of a write, then its data, and answers a read with
what it holds.  Its requesters see through the bridge a memory that carries out one packet at
a time, in the order of acceptance.
-/

namespace OpaeXilinx.Pcie

open OpaeXilinx.Base

abbrev Memory := Word → Word

/-- Write words to consecutive addresses, the strobed bytes of each. -/
def Memory.write (strb : BitVec 4) : Memory → Word → List Word → Memory
  | memory, _, [] => memory
  | memory, addr, word :: words =>
      Memory.write strb (Function.update memory addr (Csr.strobed (memory addr) word strb))
        (addr + 4) words

/-- The words at consecutive addresses. -/
def Memory.read (memory : Memory) : Word → Nat → List Word
  | _, 0 => []
  | addr, left + 1 => memory addr :: memory.read (addr + 4) left

/-- Carry out one packet. -/
def Request.serve (bars : Bars) (memory : Memory) (t : Request) : Memory × List Completion :=
  match t.kind with
  | .read two => (memory, [t.completion (memory.read (t.axiAddr bars) (if two then 2 else 1))])
  | .write two => (memory.write t.firstBe (t.axiAddr bars) (t.words two), [])
  | .longRead => (memory, [t.rejection])
  | _ => (memory, [])

/-- Carry out packets, one after the other. -/
def serveAll (bars : Bars) : Memory → List Request → Memory × List Completion
  | memory, [] => (memory, [])
  | memory, t :: ts =>
      let served := t.serve bars memory
      let rest := serveAll bars served.1 ts
      (rest.1, served.2 ++ rest.2)

/-- A memory with the last addresses it has been given. -/
structure BusMemory where
  memory : Memory
  aw : Word
  ar : Word

namespace BusMemory

/-- The effect of a handshake. -/
def apply (m : BusMemory) : AxiOp → BusMemory
  | .aw addr => { m with aw := addr }
  | .w data strb =>
      { m with memory := Function.update m.memory m.aw (Csr.strobed (m.memory m.aw) data strb) }
  | .ar addr => { m with ar := addr }
  | .b | .r => m

def after (m : BusMemory) (ops : List AxiOp) : BusMemory := ops.foldl apply m

/-- What the memory holds at the address that is read. -/
def value (m : BusMemory) : Word := m.memory m.ar

/-- The data of the reads among some handshakes. -/
def reads : BusMemory → List AxiOp → List Word
  | _, [] => []
  | m, .r :: ops => m.value :: reads m ops
  | m, op :: ops => reads (m.apply op) ops

theorem after_append (m : BusMemory) (ops more : List AxiOp) :
    m.after (ops ++ more) = (m.after ops).after more :=
  List.foldl_append

theorem reads_append (m : BusMemory) (ops more : List AxiOp) :
    m.reads (ops ++ more) = m.reads ops ++ (m.after ops).reads more := by
  induction ops generalizing m with
  | nil => rfl
  | cons op ops ih =>
      cases op with
      | r => simp only [List.cons_append, reads, ih]; rfl
      | aw _ | w _ _ | b | ar _ => exact ih _

theorem write_ops (m : BusMemory) (strb : BitVec 4) (addr : Word) (words : List Word) :
    (m.after (writeOps strb addr words)).memory = m.memory.write strb addr words ∧
      m.reads (writeOps strb addr words) = [] := by
  induction words generalizing m addr with
  | nil => exact ⟨rfl, rfl⟩
  | cons word words ih => exact ih _ _

theorem read_ops (m : BusMemory) (addr : Word) (left : Nat) :
    (m.after (readOps addr left)).memory = m.memory ∧
      m.reads (readOps addr left) = m.memory.read addr left := by
  induction left generalizing m addr with
  | zero => exact ⟨rfl, rfl⟩
  | succ left ih =>
      obtain ⟨same, words⟩ := ih ((m.apply (.ar addr)).apply .r) (addr + 4)
      exact ⟨same, congrArg (m.memory addr :: ·) words⟩

end BusMemory

section Serve

variable {bars : Bars}

@[simp] theorem length_read (memory : Memory) (addr : Word) (left : Nat) :
    (memory.read addr left).length = left := by
  induction left generalizing addr with
  | zero => rfl
  | succ left ih => simp [Memory.read, ih]

/-- The handshakes of a packet carry it out. -/
theorem after_ops (m : BusMemory) (t : Request) :
    (m.after (t.ops bars)).memory = (t.serve bars m.memory).1 := by
  rw [Request.ops, Request.serve]
  cases t.kind with
  | read two => exact (m.read_ops _ _).1
  | write two => exact (m.write_ops _ _ _).1
  | longRead | longWrite | other => rfl

variable (bars) in
/-- The data of packets that are carried out gives the completions that are due. -/
theorem answers_reads (m : BusMemory) (ts : List Request) :
    (m.after (ts.flatMap (Request.ops bars))).memory = (serveAll bars m.memory ts).1 ∧
      answers ts (m.reads (ts.flatMap (Request.ops bars))) = (serveAll bars m.memory ts).2 := by
  induction ts generalizing m with
  | nil => exact ⟨rfl, rfl⟩
  | cons t ts ih =>
      obtain ⟨memory, completions⟩ := ih (m.after (t.ops bars))
      rw [after_ops] at memory completions
      rw [List.flatMap_cons, BusMemory.after_append, BusMemory.reads_append]
      refine ⟨memory, ?_⟩
      simp only [serveAll, ← completions, answers]
      cases isKind : t.kind with
      | read two =>
          have words : m.reads (t.ops bars) =
              m.memory.read (t.axiAddr bars) (if two then 2 else 1) := by
            rw [Request.ops, isKind]
            exact (m.read_ops _ _).2
          have reads : t.reads = if two then 2 else 1 := by rw [Request.reads, isKind]
          simp [words, reads, Request.serve, isKind]
      | write two =>
          have none : m.reads (t.ops bars) = [] := by
            rw [Request.ops, isKind]
            exact (m.write_ops _ _ _).2
          simp [none, Request.serve, isKind]
      | longRead =>
          have none : m.reads (t.ops bars) = [] := by
            rw [Request.ops, isKind]
            rfl
          simp [none, Request.serve, isKind]
      | longWrite | other =>
          have none : m.reads (t.ops bars) = [] := by
            rw [Request.ops, isKind]
            rfl
          simp [none, Request.serve, isKind]

end Serve

/-- The data of a read is what the memory holds. -/
def Coherent (m : BusMemory) (s : St) (pins : Pins) : Prop :=
  pins.axi.rvalid = true → pins.axi.rdata = (m.after (s.axi.map AxiEvent.op)).value

instance (m : BusMemory) (s : St) (pins : Pins) : Decidable (Coherent m s pins) :=
  inferInstanceAs (Decidable (_ → _))

section Runs

variable {bars : Bars} {m : BusMemory} {s : St} {pins : Pins}

theorem reads_of_no_data (m : BusMemory) {events : List AxiEvent}
    (none : events.filterMap AxiEvent.data? = []) : m.reads (events.map AxiEvent.op) = [] := by
  induction events generalizing m with
  | nil => rfl
  | cons event events ih =>
      cases event with
      | r data => simp [AxiEvent.data?] at none
      | aw _ | w _ _ | b | ar _ => exact ih _ (by simpa [AxiEvent.data?] using none)

/-- Data is only taken by a read engine that reads, and then nothing else happens. -/
theorem Round.data_alone (round : Round bars s) (legal : Legal s pins) (patient : Patient s pins)
    (taken : pins.axi.rvalid = true) :
    (s.clock pins bars).axi = s.axi ++ [.r pins.axi.rdata] := by
  have resting (rests : s.regs.read.Rests s.rOwed) :
      (s.clock pins bars).axi = s.axi ++ [.r pins.axi.rdata] :=
    absurd (rests.silent legal.r) (by simp [taken])
  cases round with
  | waiting waiting => exact resting waiting.read
  | writing writing => exact resting writing.read
  | queued queued => exact resting queued.read
  | completing completing => exact resting completing.read
  | rejecting rejecting => exact resting rejecting.read
  | reading reading =>
      have quiet := patient
        (awaiting_of_settled reading.settled reading.tlps (isRead_of_kind reading.kind))
      have silent := (reading.toPassed.still reading.write legal quiet).2
      have owed := legal.r taken
      have notOffered : s.regs.read.arvalid = false := by
        rw [reading.read.arvalid]
        have progress := reading.read.progress
        cases state : s.regs.read.sm with
        | readReq =>
            simp only [state] at progress
            omega
        | idle | readRes => rfl
      simp [St.clock, silent, AxiReadController.events, happens, notOffered, taken,
        reading.cpldReady]

/-- The data that has been read is what the memory held. -/
theorem data_coherent (reach : (bridgeSystem bars).Reach
    (fun s pins => Patient s pins ∧ Coherent m s pins) s) :
    s.data = m.reads (s.axi.map AxiEvent.op) := by
  induction reach with
  | init start => simp [St.data, start.2.2.2.1, BusMemory.reads]
  | @step s next pins reach condition taken ih =>
      obtain ⟨legal, rfl⟩ := taken
      have round := Round.reach (reach.mono fun _ _ condition => condition.1)
      cases valid : pins.axi.rvalid with
      | true =>
          have alone := round.data_alone legal condition.1 valid
          have value := condition.2 valid
          rw [St.data, alone, List.filterMap_append, List.map_append, BusMemory.reads_append, ← ih,
            value]
          rfl
      | false =>
          have none : (s.regs.write.events pins.axi ++
              s.regs.read.events pins.axi s.regs.maxis.cpldReady).filterMap AxiEvent.data? = [] := by
            simp only [List.filterMap_append, write_events_data, AxiReadController.events, happens,
              valid, Bool.false_and, List.nil_append]
            split <;> rfl
          have axi : (s.clock pins bars).axi = s.axi ++ (s.regs.write.events pins.axi ++
              s.regs.read.events pins.axi s.regs.maxis.cpldReady) :=
            List.append_assoc ..
          rw [St.data, axi, List.filterMap_append, List.map_append, BusMemory.reads_append, ← ih,
            reads_of_no_data _ none, none, List.append_nil, List.append_nil]
          rfl

/-- What the requesters see, and what the memory holds once nothing is under way. -/
structure Sequential (bars : Bars) (m : BusMemory) (s : St) : Prop where
  ccs : s.ccs.map CcBeat.completion <+: (serveAll bars m.memory s.tlps).2
  complete : Quiet s →
    s.ccs.map CcBeat.completion = (serveAll bars m.memory s.tlps).2 ∧
      (m.after (s.axi.map AxiEvent.op)).memory = (serveAll bars m.memory s.tlps).1

end Runs

end OpaeXilinx.Pcie
