import OpaeXilinx.Pcie.Service

/-!
# The bridge always gets on

Every edge brings the bridge nearer to the end of what it has taken on, except those at
which the slave or the PCIe core holds back the very handshake that it waits for.
-/

namespace OpaeXilinx.Pcie

open OpaeXilinx.Base

namespace AxiWriteController

/-- Each word takes four edges. -/
def rank (w : AxiWriteController) : Nat :=
  match w.sm with
  | .idle => if w.ready then 0 else 1
  | .writePre => 4 * w.dwordCnt.toNat
  | .writeReq => 4 * w.dwordCnt.toNat - 1
  | .writeData => 4 * w.dwordCnt.toNat + 2
  | .waitAck => 4 * w.dwordCnt.toNat + 1

/-- The slave holds back what the engine waits for. -/
def Stalled (w : AxiWriteController) (owed : Nat) (slave : AxiSlave) : Prop :=
  w.awvalid = true ∧ slave.awready = false ∨ w.wvalid = true ∧ slave.wready = false ∨
    0 < owed ∧ slave.bvalid = false

instance (w : AxiWriteController) (owed : Nat) (slave : AxiSlave) :
    Decidable (w.Stalled owed slave) :=
  inferInstanceAs (Decidable (_ ∨ _))

variable {w : AxiWriteController} {owed : Nat} {valid : Bool} {req : MemReq} {slave : AxiSlave}

/-- The count of the words left, in each state that has one. -/
theorem Inv.count (inv : w.Inv owed) :
    (w.sm = .writePre ∨ w.sm = .writeReq →
      1 ≤ w.dwordCnt.toNat ∧ w.dwordCnt.toNat ≤ 2 ∧
        (w.dwordCnt - 1#2).toNat = w.dwordCnt.toNat - 1) ∧
      (w.sm = .writeData ∨ w.sm = .waitAck → w.dwordCnt.toNat ≤ 1) := by
  have pairs : ∀ num cnt : BitVec 2,
      ((num = 1#2 ∨ num = 2#2) ∧ (cnt = num ∨ num = 2#2 ∧ cnt = 1#2) →
        1 ≤ cnt.toNat ∧ cnt.toNat ≤ 2 ∧ (cnt - 1#2).toNat = cnt.toNat - 1) ∧
      (num = 1#2 ∧ cnt = 0#2 ∨ num = 2#2 ∧ (cnt = 0#2 ∨ cnt = 1#2) → cnt.toNat ≤ 1) := by
    decide
  have counts := inv.counts
  constructor
  · rintro (state | state)
    · simp only [Counts, state] at counts
      exact (pairs _ _).1 counts
    · simp only [Counts, state] at counts
      exact (pairs _ _).1 counts
  · rintro (state | state)
    · simp only [Counts, state] at counts
      exact (pairs _ _).2 counts
    · simp only [Counts, state] at counts
      exact (pairs _ _).2 counts

theorem Inv.rank_le (inv : w.Inv owed) : w.rank ≤ 8 := by
  obtain ⟨more, fewer⟩ := inv.count
  rw [rank]
  cases state : w.sm with
  | idle =>
      simp only
      split <;> omega
  | writePre =>
      have bound := more (.inl state)
      simp only
      omega
  | writeReq =>
      have bound := more (.inr state)
      simp only
      omega
  | writeData =>
      have bound := fewer (.inl state)
      simp only
      omega
  | waitAck =>
      have bound := fewer (.inr state)
      simp only
      omega

theorem Inv.ready_of_rank (inv : w.Inv owed) (none : w.rank = 0) :
    w.sm = .idle ∧ w.ready = true := by
  rw [rank] at none
  cases state : w.sm with
  | idle =>
      cases isReady : w.ready with
      | true => exact ⟨rfl, rfl⟩
      | false => simp [state, isReady] at none
  | writePre =>
      have bound := inv.count.1 (.inl state)
      simp only [state] at none
      omega
  | writeReq =>
      have bound := inv.count.1 (.inr state)
      simp only [state] at none
      omega
  | writeData | waitAck =>
      simp only [state] at none
      omega

/-- An engine that is given no request gets nearer to its end, unless it is stalled. -/
theorem Inv.rank_edge (inv : w.Inv owed) (bars : Bars) (slave : AxiSlave)
    (notStarted : (valid && req.writeReadn) = false) :
    (w.edge bars valid req slave).rank ≤ w.rank ∧
      (w.rank ≠ 0 → ¬ w.Stalled owed slave → (w.edge bars valid req slave).rank < w.rank) := by
  obtain ⟨more, fewer⟩ := inv.count
  have owes := inv.owed
  have awvalid := inv.awvalid
  have wvalid := inv.wvalid
  rw [AxiWriteController.edge, capture_of_not_started notStarted]
  cases state : w.sm with
  | idle =>
      cases isReady : w.ready <;> simp [machine, state, notStarted, rank, isReady]
  | writePre =>
      have bound := more (.inl state)
      by_cases fresh : w.smOld = .idle
      · simp only [machine, state, rank, fresh, if_true]
        omega
      · simp only [machine, state, rank, fresh, if_false]
        omega
  | writeReq =>
      have bound := more (.inr state)
      simp only [state, decide_true] at awvalid
      cases taken : slave.awready with
      | true =>
          simp only [machine, state, rank, taken, if_true]
          omega
      | false =>
          simp only [machine, state, rank, taken, Stalled, awvalid]
          simp
  | writeData =>
      simp only [state, decide_true] at wvalid
      cases taken : slave.wready with
      | true =>
          simp only [machine, state, rank, taken, if_true]
          omega
      | false =>
          simp only [machine, state, rank, taken, Stalled, wvalid]
          simp
  | waitAck =>
      simp only [state, if_true] at owes
      cases answered : slave.bvalid with
      | true =>
          by_cases last : w.dwordCnt = 0#2
          · simp [machine, state, rank, answered, last]
          · simp only [machine, state, rank, answered, last, if_true, if_false]
            omega
      | false =>
          simp only [machine, state, rank, answered, Stalled, owes]
          simp

end AxiWriteController

namespace AxiReadController

/-- The last edge of a read, at which its data is handed over, is worth three. -/
def rank (r : AxiReadController) (owed : Nat) : Nat :=
  match r.sm with
  | .idle =>
      if r.dwordNum = 0#2 then 3 * owed + (if r.ready then 0 else 1) else 3 * r.dwordNum.toNat + 2
  | .readReq => 3 * r.dwordNum.toNat + 1
  | .readRes => 3 * r.dwordNum.toNat + 3

/-- The slave holds back what the engine waits for. -/
def Stalled (r : AxiReadController) (owed : Nat) (slave : AxiSlave) : Prop :=
  r.arvalid = true ∧ slave.arready = false ∨ 0 < owed ∧ slave.rvalid = false

instance (r : AxiReadController) (owed : Nat) (slave : AxiSlave) :
    Decidable (r.Stalled owed slave) :=
  inferInstanceAs (Decidable (_ ∨ _))

variable {r : AxiReadController} {owed : Nat} {valid : Bool} {req : MemReq} {slave : AxiSlave}

theorem Rests.rank_eq (rests : r.Rests owed) : r.rank owed = if r.ready then 0 else 1 := by
  simp [rank, rests.sm, rests.dwordNum, rests.owed]

/-- A resting engine is ready after the edge. -/
theorem Rests.rank_edge (rests : r.Rests owed) (bars : Bars)
    (legal : slave.rvalid = true → 0 < owed)
    (notStarted : (valid && !req.writeReadn) = false) (rready : Bool) :
    (r.edge bars valid req slave).rank (r.owedAfter owed slave rready) = 0 := by
  obtain ⟨next, ready⟩ := rests.edge bars req rready legal notStarted
  rw [next.rank_eq, ready]
  rfl

theorem Rests.rank_start {two : Bool} (rests : r.Rests owed) (bars : Bars)
    (isRead : req.writeReadn = false)
    (count : req.dwordNum = if two then 2#2 else 1#2) (rready : Bool) :
    (r.edge bars true req slave).rank (r.owedAfter owed slave rready) ≤ 7 := by
  cases two <;> simp [AxiReadController.edge, rests.sm, isRead, rank, count]

theorem Serves.rank_bounds {two : Bool} {got : List Word} (serves : r.Serves two got owed) :
    1 ≤ r.rank owed ∧ r.rank owed ≤ 7 := by
  have progress := serves.progress
  rw [rank]
  cases state : r.sm with
  | idle =>
      simp only [state] at progress
      by_cases none : r.dwordNum = 0#2
      · simp only [none, if_true] at progress ⊢
        rw [progress.1]
        split <;> omega
      · simp only [none, if_false] at progress ⊢
        rw [progress.1]
        decide
  | readReq =>
      simp only [state] at progress ⊢
      rcases progress.2 with ⟨num, -⟩ | ⟨-, one, -⟩
      · rw [num]
        cases two <;> decide
      · rw [one]
        decide
  | readRes =>
      simp only [state] at progress ⊢
      rw [progress.2.2.1]
      decide

/-- An engine that serves a read gets nearer to its end, unless it is stalled; at the end two
edges are left for the completion. -/
theorem Serves.rank_edge {two : Bool} {got : List Word} (serves : r.Serves two got owed)
    (bars : Bars) (req : MemReq) (legal : slave.rvalid = true → 0 < owed) :
    (if r.cpldValid slave then
        (r.edge bars false req slave).rank (r.owedAfter owed slave true) + 2 < r.rank owed
      else (r.edge bars false req slave).rank (r.owedAfter owed slave true) ≤ r.rank owed ∧
        (¬ r.Stalled owed slave →
          (r.edge bars false req slave).rank (r.owedAfter owed slave true) < r.rank owed)) := by
  obtain ⟨arvalid, progress⟩ := serves
  cases state : r.sm with
  | idle =>
      simp only [state] at arvalid progress
      by_cases none : r.dwordNum = 0#2
      · simp only [none, if_true] at progress
        cases taken : slave.rvalid with
        | true =>
            simp only [cpldValid, taken, none]
            simp [AxiReadController.edge, state, none, rank, owedAfter, happens, arvalid, taken,
              progress.1]
            omega
        | false =>
            simp only [cpldValid, taken]
            simp [AxiReadController.edge, state, none, rank, owedAfter, happens, arvalid, taken,
              progress.1, Stalled]
      · simp only [none, if_false] at progress
        obtain ⟨one, owes, -, -⟩ := progress
        have silent : slave.rvalid = false := by simpa [owes] using legal
        simp [cpldValid, silent, AxiReadController.edge, state, one, rank]
  | readReq =>
      simp only [state] at arvalid progress
      obtain ⟨owes, count⟩ := progress
      have silent : slave.rvalid = false := by simpa [owes] using legal
      have which : r.dwordNum = 1#2 ∨ r.dwordNum = 2#2 := by
        rcases count with ⟨num, -⟩ | ⟨-, one, -⟩
        · rw [num]
          cases two with
          | true => exact .inr rfl
          | false => exact .inl rfl
        · exact .inl one
      cases taken : slave.arready with
      | false =>
          simp [cpldValid, silent, AxiReadController.edge, state, rank, taken, Stalled, arvalid]
      | true =>
          rcases which with one | two
          · simp [cpldValid, silent, AxiReadController.edge, state, rank, taken, one, owedAfter,
              happens, arvalid, owes]
          · simp [cpldValid, silent, AxiReadController.edge, state, rank, taken, two]
  | readRes =>
      simp only [state] at arvalid progress
      obtain ⟨owes, -, one, -⟩ := progress
      cases taken : slave.rvalid with
      | false => simp [cpldValid, AxiReadController.edge, state, rank, taken, Stalled, owes]
      | true => simp [cpldValid, AxiReadController.edge, state, rank, taken, one]

end AxiReadController

/-- The edges that the request controller and the completion controller have left. -/
def Regs.streamRank (r : Regs) : Nat :=
  match r.saxis.sm with
  | .idle | .waitForLast =>
      if r.maxis.sm = .tlpBeat1 then if r.maxis.tvalid then 1 else 2 else 0
  | .readProcess => 8
  | .writeData | .holdValid => 9
  | .completionUr =>
      if r.maxis.sm = .tlpBeat1Ur then if r.maxis.tvalid then 2 else 3
      else if r.maxis.completionUrDone then 1
      else if r.saxis.completionUrReq then 4
      else 5

namespace St

/-- A bound of the edges that are left. -/
def rank (s : St) : Nat :=
  s.regs.write.rank + s.regs.read.rank s.rOwed + s.regs.streamRank

/-- Something that the bridge waits for is held back. -/
def Stalled (s : St) (pins : Pins) : Prop :=
  s.regs.write.Stalled s.bOwed pins.axi ∨ s.regs.read.Stalled s.rOwed pins.axi ∨
    s.regs.maxis.tvalid = true ∧ pins.ccTready = false

instance (s : St) (pins : Pins) : Decidable (s.Stalled pins) :=
  inferInstanceAs (Decidable (_ ∨ _))

/-- The edge brings the bridge nearer to its end. -/
structure GetsOn (s next : St) (pins : Pins) : Prop where
  le : next.rank ≤ s.rank
  lt : s.rank ≠ 0 → ¬ s.Stalled pins → next.rank < s.rank

end St

section Edges

variable {bars : Bars} {s : St} {pins : Pins}

variable (bars) in
/-- The engines get on while no request is passed on. -/
theorem engines_get_on (write : s.regs.write.Inv s.bOwed) (read : s.regs.read.Rests s.rOwed)
    (legal : Legal s pins) (notStarted : s.regs.memReqValidWr = false) :
    (s.clock pins bars).regs.read.rank (s.clock pins bars).rOwed = 0 ∧
      (s.clock pins bars).regs.write.rank ≤ s.regs.write.rank ∧
      (s.regs.write.rank ≠ 0 → ¬ s.Stalled pins →
        (s.clock pins bars).regs.write.rank < s.regs.write.rank) := by
  have noWrite : (s.regs.memReqValidWr && s.regs.saxis.memReq.writeReadn) = false := by
    rw [notStarted, Bool.false_and]
  have noRead : (s.regs.memReqValidWr && !s.regs.saxis.memReq.writeReadn) = false := by
    rw [notStarted, Bool.false_and]
  obtain ⟨le, lt⟩ := write.rank_edge bars pins.axi noWrite
  refine ⟨read.rank_edge bars legal.r noRead _, le, fun busy notStalled => lt busy fun stalled => ?_⟩
  exact notStalled (.inl stalled)

theorem Waiting.streamRank (waiting : Waiting bars s) : s.regs.streamRank = 0 := by
  rw [Regs.streamRank]
  cases waiting.sm with
  | inl idle => simp [idle.1, waiting.maxis.sm]
  | inr waits => simp [waits.1, waiting.maxis.sm]

theorem Waiting.getsOn (waiting : Waiting bars s) (legal : Legal s pins)
    (none : pins.cq.tvalid = false) : St.GetsOn s (s.clock pins bars) pins := by
  have notStarted : s.regs.memReqValidWr = false := by
    simp [Regs.memReqValidWr, waiting.memReqValid]
  obtain ⟨read, le, lt⟩ := engines_get_on bars waiting.write waiting.read legal notStarted
  have next : Waiting bars (s.clock pins bars) := by
    cases waiting.sm with
    | inl idle =>
        exact waiting.step_of_not_accepts legal idle.1 idle.2 (by simp [St.cqAccepts, none])
    | inr waits => exact waiting.step_waitForLast legal waits.1 waits.2.1 waits.2.2
  constructor
  · rw [St.rank, St.rank, waiting.streamRank, next.streamRank, read]
    omega
  · intro busy notStalled
    rw [St.rank, waiting.streamRank] at busy
    rw [St.rank, St.rank, waiting.streamRank, next.streamRank, read]
    by_cases write : s.regs.write.rank = 0
    · omega
    · have near := lt write notStalled
      omega

theorem Writing.streamRank (writing : Writing bars s) : s.regs.streamRank = 9 := by
  rw [Regs.streamRank]
  cases writing.sm with
  | inl first => simp [first]
  | inr hold => simp [hold]

/-- If the engines are not both ready, one of them has edges left. -/
theorem busy_of_not_ready (write : s.regs.write.Inv s.bOwed) (read : s.regs.read.Rests s.rOwed)
    (notReady : s.regs.memReqReady = false) :
    s.regs.write.rank ≠ 0 ∨ s.regs.read.rank s.rOwed = 1 := by
  rw [read.rank_eq]
  by_cases free : s.regs.write.rank = 0
  · right
    have ready := (write.ready_of_rank free).2
    simp only [Regs.memReqReady, ready, Bool.true_and] at notReady
    simp [notReady]
  · exact .inl free

theorem Writing.getsOn (writing : Writing bars s) (legal : Legal s pins) :
    St.GetsOn s (s.clock pins bars) pins := by
  cases ready : s.regs.memReqReady with
  | true =>
      have next := writing.step_of_ready legal ready
      have write := next.write.rank_le
      have both := ready
      simp only [Regs.memReqReady, Bool.and_eq_true] at both
      have notRead : (s.regs.memReqValidWr && !s.regs.saxis.memReq.writeReadn) = false := by
        simp [SaxisController.memReq, writing.memReqWriteReadn]
      have read : (s.clock pins bars).regs.read.rank (s.clock pins bars).rOwed = 0 :=
        writing.read.rank_edge bars legal.r notRead _
      have near : (s.clock pins bars).rank < s.rank := by
        rw [St.rank, St.rank, writing.streamRank, next.streamRank, read]
        omega
      exact ⟨near.le, fun _ _ => near⟩
  | false =>
      have notStarted : s.regs.memReqValidWr = false := by
        have notReady := ready
        simp only [Regs.memReqReady] at notReady
        simp [Regs.memReqValidWr, notReady]
      obtain ⟨read, le, lt⟩ :=
        engines_get_on bars writing.write writing.read legal notStarted
      have next := writing.step_of_not_ready legal ready
      have busy := busy_of_not_ready writing.write writing.read ready
      constructor
      · rw [St.rank, St.rank, writing.streamRank, next.streamRank, read]
        omega
      · intro _ notStalled
        rw [St.rank, St.rank, writing.streamRank, next.streamRank, read]
        cases busy with
        | inl write =>
            have near := lt write notStalled
            omega
        | inr readBusy => omega

theorem Queued.streamRank {done : List Request} {t : Request} {two : Bool}
    (queued : Queued bars s done t two) : s.regs.streamRank = 8 := by
  simp [Regs.streamRank, queued.sm]

theorem Reading.streamRank {done : List Request} {t : Request} {two : Bool} {got : List Word}
    (reading : Reading bars s done t two got) : s.regs.streamRank = 0 := by
  simp [Regs.streamRank, reading.sm, reading.maxis.sm]

theorem Completing.streamRank {done : List Request} {t : Request} {two : Bool} {got : List Word}
    (completing : Completing bars s done t two got) :
    s.regs.streamRank = if s.regs.maxis.tvalid then 1 else 2 := by
  simp [Regs.streamRank, completing.sm, completing.maxisSm]

theorem Queued.getsOn {done : List Request} {t : Request} {two : Bool}
    (queued : Queued bars s done t two) (legal : Legal s pins) :
    St.GetsOn s (s.clock pins bars) pins := by
  cases ready : s.regs.memReqReady with
  | true =>
      have next := queued.step_of_ready legal ready
      have both := ready
      simp only [Regs.memReqReady, Bool.and_eq_true] at both
      have started : s.regs.memReqValidWr = true := by
        simp [Regs.memReqValidWr, both.1, both.2, queued.memReqValid]
      have notWrite : (s.regs.memReqValidWr && s.regs.saxis.memReq.writeReadn) = false := by
        simp [SaxisController.memReq, queued.memReqWriteReadn]
      have write : (s.clock pins bars).regs.write.rank ≤ s.regs.write.rank :=
        (queued.write.rank_edge bars pins.axi notWrite).1
      have read : (s.clock pins bars).regs.read.rank (s.clock pins bars).rOwed ≤ 7 := by
        simp only [St.clock, Regs.edge, started]
        exact queued.read.rank_start bars queued.memReqWriteReadn queued.memReqDwordNum _
      have near : (s.clock pins bars).rank < s.rank := by
        rw [St.rank, St.rank, queued.streamRank, next.streamRank]
        omega
      exact ⟨near.le, fun _ _ => near⟩
  | false =>
      have notStarted : s.regs.memReqValidWr = false := by
        have notReady := ready
        simp only [Regs.memReqReady] at notReady
        simp [Regs.memReqValidWr, notReady]
      obtain ⟨read, le, lt⟩ :=
        engines_get_on bars queued.write queued.read legal notStarted
      have next := queued.step_of_not_ready legal ready
      have busy := busy_of_not_ready queued.write queued.read ready
      constructor
      · rw [St.rank, St.rank, queued.streamRank, next.streamRank, read]
        omega
      · intro _ notStalled
        rw [St.rank, St.rank, queued.streamRank, next.streamRank, read]
        cases busy with
        | inl write =>
            have near := lt write notStalled
            omega
        | inr readBusy => omega

/-- The write engine does not start while a read is unanswered. -/
theorem Passed.write_rank (passed : Passed bars s) (write : s.regs.write.Inv s.bOwed) :
    (s.clock pins bars).regs.write.rank ≤ s.regs.write.rank := by
  have noWrite : (s.regs.memReqValidWr && s.regs.saxis.memReq.writeReadn) = false := by
    rw [passed.notStarted, Bool.false_and]
  exact (write.rank_edge bars pins.axi noWrite).1

theorem Reading.getsOn {done : List Request} {t : Request} {two : Bool} {got : List Word}
    (reading : Reading bars s done t two got) (legal : Legal s pins)
    (none : pins.cq.tvalid = false) : St.GetsOn s (s.clock pins bars) pins := by
  have write : (s.clock pins bars).regs.write.rank ≤ s.regs.write.rank :=
    reading.toPassed.write_rank reading.write
  have read := reading.read.rank_edge bars s.regs.saxis.memReq legal.r
  cases cpld : s.regs.read.cpldValid pins.axi with
  | true =>
      have next := reading.step_of_cpld legal none cpld
      have stream : (s.clock pins bars).regs.streamRank ≤ 2 := by
        rw [next.streamRank]
        split <;> omega
      have near : (s.clock pins bars).rank < s.rank := by
        rw [if_pos cpld] at read
        rw [St.rank, St.rank, reading.streamRank]
        simp only [St.clock, Regs.edge, reading.notStarted, reading.cpldReady] at write stream ⊢
        omega
      exact ⟨near.le, fun _ _ => near⟩
  | false =>
      have next := reading.step_of_not_cpld legal none cpld
      rw [if_neg (by simp [cpld])] at read
      constructor
      · rw [St.rank, St.rank, reading.streamRank, next.streamRank]
        simp only [St.clock, Regs.edge, reading.notStarted, reading.cpldReady] at write ⊢
        omega
      · intro _ notStalled
        have near := read.2 fun stalled => notStalled (.inr (.inl stalled))
        rw [St.rank, St.rank, reading.streamRank, next.streamRank]
        simp only [St.clock, Regs.edge, reading.notStarted, reading.cpldReady] at write ⊢
        omega

theorem streamRank_of_idle {r : Regs} (idle : r.saxis.sm = .idle) :
    r.streamRank = if r.maxis.sm = .tlpBeat1 then if r.maxis.tvalid then 1 else 2 else 0 := by
  rw [Regs.streamRank, idle]

theorem Completing.getsOn {done : List Request} {t : Request} {two : Bool} {got : List Word}
    (completing : Completing bars s done t two got) (legal : Legal s pins)
    (none : pins.cq.tvalid = false) : St.GetsOn s (s.clock pins bars) pins := by
  obtain ⟨still, -⟩ := completing.toPassed.still completing.write legal none
  obtain ⟨read, write, -⟩ :=
    engines_get_on bars completing.write completing.read legal completing.notStarted
  have noCpld := no_cpld completing.read legal
  have stream : (s.clock pins bars).regs.streamRank ≤ s.regs.streamRank ∧
      (¬ s.Stalled pins → (s.clock pins bars).regs.streamRank < s.regs.streamRank) := by
    rw [completing.streamRank]
    have noUr := completing.completionUrReq
    cases valid : s.regs.maxis.tvalid with
    | false =>
        have next : (s.clock pins bars).regs.streamRank = 1 := by
          rw [streamRank_of_idle still.sm]
          simp [St.clock, Regs.edge, MaxisController.edge, MaxisController.machine,
            completing.maxisSm, valid]
        simp [next]
    | true =>
        cases taken : pins.ccTready with
        | true =>
            have next : (s.clock pins bars).regs.streamRank = 0 := by
              rw [streamRank_of_idle still.sm]
              simp [St.clock, Regs.edge, MaxisController.edge, MaxisController.machine,
                completing.maxisSm, valid, taken, Regs.cpldPins, noUr]
            simp [next]
        | false =>
            have next : (s.clock pins bars).regs.streamRank = 1 := by
              rw [streamRank_of_idle still.sm]
              simp [St.clock, Regs.edge, MaxisController.edge, MaxisController.machine,
                completing.maxisSm, valid, taken]
            simp [next, St.Stalled, valid, taken]
  constructor
  · rw [St.rank, St.rank, read]
    omega
  · intro _ notStalled
    have near := stream.2 notStalled
    rw [St.rank, St.rank, read]
    omega

/-- How far a rejection is after the edge. -/
theorem Rejecting.stream_gets_on {done : List Request} {t : Request}
    (rejecting : Rejecting bars s done t) (legal : Legal s pins) :
    (s.clock pins bars).regs.streamRank ≤ s.regs.streamRank ∧
      (¬ s.Stalled pins → (s.clock pins bars).regs.streamRank < s.regs.streamRank) := by
  have noCpld := no_cpld rejecting.read legal
  have state := rejecting.sm
  cases rejecting.rejection with
  | asked idle settled =>
      cases ur : s.regs.saxis.completionUrReq <;>
        simp [Regs.streamRank, St.clock, Regs.edge, SaxisController.edge, state, idle.sm, ur,
          idle.completionUrDone, MaxisController.edge, MaxisController.machine, Regs.cpldPins,
          noCpld]
  | sending sm notDone tkeep beat settled =>
      cases valid : s.regs.maxis.tvalid with
      | false =>
          simp [Regs.streamRank, St.clock, Regs.edge, SaxisController.edge, state, sm, notDone,
            valid, MaxisController.edge, MaxisController.machine]
      | true =>
          cases taken : pins.ccTready <;>
            simp [Regs.streamRank, St.clock, Regs.edge, SaxisController.edge, state, sm, notDone,
              valid, taken, MaxisController.edge, MaxisController.machine, St.Stalled]
  | sent idle silent isDone settled =>
      simp [Regs.streamRank, St.clock, Regs.edge, SaxisController.edge, state, idle, isDone,
        MaxisController.edge, MaxisController.machine, Regs.cpldPins, noCpld]

theorem Rejecting.getsOn {done : List Request} {t : Request}
    (rejecting : Rejecting bars s done t) (legal : Legal s pins) :
    St.GetsOn s (s.clock pins bars) pins := by
  have notStarted : s.regs.memReqValidWr = false := by
    simp [Regs.memReqValidWr, rejecting.memReqValid]
  obtain ⟨read, write, -⟩ :=
    engines_get_on bars rejecting.write rejecting.read legal notStarted
  obtain ⟨le, lt⟩ := rejecting.stream_gets_on legal
  constructor
  · rw [St.rank, St.rank, read]
    omega
  · intro _ notStalled
    have near := lt notStalled
    rw [St.rank, St.rank, read]
    omega

theorem Round.getsOn (round : Round bars s) (legal : Legal s pins)
    (none : pins.cq.tvalid = false) : St.GetsOn s (s.clock pins bars) pins := by
  cases round with
  | waiting waiting => exact waiting.getsOn legal none
  | writing writing => exact writing.getsOn legal
  | queued queued => exact queued.getsOn legal
  | reading reading => exact reading.getsOn legal none
  | completing completing => exact completing.getsOn legal none
  | rejecting rejecting => exact rejecting.getsOn legal

theorem Rests.rank_le {r : AxiReadController} {owed : Nat} (rests : r.Rests owed) :
    r.rank owed ≤ 1 := by
  rw [rests.rank_eq]
  split <;> omega

theorem Round.rank_le (round : Round bars s) : s.rank ≤ 18 := by
  rw [St.rank]
  cases round with
  | waiting waiting =>
      have write := waiting.write.rank_le
      have read := Rests.rank_le waiting.read
      rw [waiting.streamRank]
      omega
  | writing writing =>
      have write := writing.write.rank_le
      have read := Rests.rank_le writing.read
      rw [writing.streamRank]
      omega
  | queued queued =>
      have write := queued.write.rank_le
      have read := Rests.rank_le queued.read
      rw [queued.streamRank]
      omega
  | reading reading =>
      have write := reading.write.rank_le
      have read := reading.read.rank_bounds
      rw [reading.streamRank]
      omega
  | completing completing =>
      have write := completing.write.rank_le
      have read := Rests.rank_le completing.read
      rw [completing.streamRank]
      split <;> omega
  | rejecting rejecting =>
      have write := rejecting.write.rank_le
      have read := Rests.rank_le rejecting.read
      have stream : s.regs.streamRank ≤ 5 := by
        rw [Regs.streamRank, rejecting.sm]
        simp only
        grind
      omega

/-- Nothing is under way once no edges are left. -/
theorem Round.quiet_of_rank (round : Round bars s) (none : s.rank = 0) : Quiet s := by
  rw [St.rank] at none
  cases round with
  | waiting waiting =>
      have write := waiting.write.ready_of_rank (by omega)
      refine ⟨waiting.sm.imp And.left And.left, write.1, ?_⟩
      obtain ⟨old, -, complete, sent⟩ := waiting.settled
      have count := congrArg List.length sent
      rw [List.length_map, length_answers complete] at count
      rw [St.Awaiting, count]
      omega
  | writing writing =>
      rw [writing.streamRank] at none
      omega
  | queued queued =>
      rw [queued.streamRank] at none
      omega
  | reading reading =>
      have read := reading.read.rank_bounds
      omega
  | completing completing =>
      rw [completing.streamRank] at none
      split at none <;> omega
  | rejecting rejecting =>
      have stream : 0 < s.regs.streamRank := by
        rw [Regs.streamRank, rejecting.sm]
        simp only
        grind
      omega

end Edges

/-! ## Runs -/

section Runs

variable {bars : Bars}

/-- The edges at which nothing is held back. -/
def unstalled (bars : Bars) : St → List Pins → Nat
  | _, [] => 0
  | s, pins :: rest =>
      (if s.Stalled pins then 0 else 1) + unstalled bars (s.clock pins bars) rest

/-- Legal pins with which nothing is sent. -/
def Unsent (s : St) (pins : Pins) : Prop := Legal s pins ∧ pins.cq.tvalid = false

instance (s : St) (pins : Pins) : Decidable (Unsent s pins) := inferInstanceAs (Decidable (_ ∧ _))

/-- The edges at which nothing is held back use up the rank. -/
theorem Round.run {s : St} (round : Round bars s) {pins : List Pins}
    (unsent : System.Along Unsent (fun s pins => s.clock pins bars) s pins) :
    Round bars (pins.foldl (fun s pins => s.clock pins bars) s) ∧
      (pins.foldl (fun s pins => s.clock pins bars) s).tlps = s.tlps ∧
      (s.rank ≤ unstalled bars s pins →
        (pins.foldl (fun s pins => s.clock pins bars) s).rank = 0) := by
  induction pins generalizing s with
  | nil =>
      refine ⟨round, rfl, fun enough => ?_⟩
      exact Nat.le_zero.mp enough
  | cons first rest ih =>
      obtain ⟨⟨legal, none⟩, along⟩ := unsent
      obtain ⟨le, lt⟩ := round.getsOn legal none
      have next := round.step legal fun _ => none
      obtain ⟨final, kept, used⟩ := ih next along
      have same : (s.clock first bars).tlps = s.tlps := by simp [St.clock, St.cqAccepts, none]
      refine ⟨final, kept.trans same, fun enough => used ?_⟩
      rw [unstalled] at enough
      by_cases busy : s.rank = 0
      · omega
      · by_cases stalled : s.Stalled first
        · rw [if_pos stalled] at enough
          omega
        · have near := lt busy stalled
          rw [if_neg stalled] at enough
          omega

end Runs

end OpaeXilinx.Pcie
