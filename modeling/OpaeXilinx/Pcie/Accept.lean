import OpaeXilinx.Pcie.Fields

/-!
# How requests are accepted

What the request controller is after an edge at which it has accepted the first beat of a
packet, for each kind of packet.
-/

namespace OpaeXilinx.Pcie

theorem kind_read_iff {t : Request} {two : Bool} : t.kind = .read two ↔
    reqType t.tdata = 0#4 ∧ dwordCount t.tdata = if two then 2#11 else 1#11 := by
  rw [Request.kind]
  cases two <;> grind

theorem kind_write_iff {t : Request} {two : Bool} : t.kind = .write two ↔
    reqType t.tdata = 1#4 ∧ dwordCount t.tdata = if two then 2#11 else 1#11 := by
  rw [Request.kind]
  cases two <;> grind

theorem kind_longRead_iff {t : Request} : t.kind = .longRead ↔
    reqType t.tdata = 0#4 ∧ dwordCount t.tdata ≠ 1#11 ∧ dwordCount t.tdata ≠ 2#11 := by
  rw [Request.kind]
  grind

theorem kind_longWrite_iff {t : Request} : t.kind = .longWrite ↔
    reqType t.tdata = 1#4 ∧ dwordCount t.tdata ≠ 1#11 ∧ dwordCount t.tdata ≠ 2#11 := by
  rw [Request.kind]
  grind

theorem kind_other_iff {t : Request} : t.kind = .other ↔
    reqType t.tdata ≠ 0#4 ∧ reqType t.tdata ≠ 1#4 := by
  rw [Request.kind]
  grind

namespace SaxisController

variable {s : SaxisController} {cq : Cq} {ready done : Bool}

/-- No beat is accepted. -/
theorem edge_idle_of_not_accepts (idle : s.sm = .idle)
    (notAccepts : (cq.tvalid && s.tready) = false) :
    s.edge cq ready done = { s with tready := true } := by
  simp [edge, idle, notAccepts]

/-- What the controller is after it has accepted a read. -/
structure TakenRead (s next : SaxisController) (t : Request) (two : Bool) : Prop where
  sm : next.sm = .readProcess
  memReqWriteReadn : next.memReqWriteReadn = false
  memReadPulse : next.memReadPulse = true
  memReqValid : next.memReqValid = true
  memReqDwordNum : next.memReqDwordNum = TagRecord.dwordNum two
  tready : next.tready = false
  completionUrReq : next.completionUrReq = s.completionUrReq
  holds : next.Holds t

theorem edge_idle_read {two : Bool} (idle : s.sm = .idle)
    (accepts : (cq.tvalid && s.tready) = true) (isKind : cq.request.kind = .read two) :
    TakenRead s (s.edge cq ready done) cq.request two := by
  obtain ⟨isRead, count⟩ := kind_read_iff.mp isKind
  simp only [Cq.request] at isRead count
  have narrow : (latch 128 s.tdataWide cq.tdata).extractLsb' 0 128 = cq.tdata.extractLsb' 0 128 :=
    extractLsb'_latch _ _ (by omega) (by omega)
  cases two with
  | false =>
      constructor <;> simp [edge, idle, accepts, isRead, count, TagRecord.dwordNum]
      exact ⟨narrow, rfl⟩
  | true =>
      constructor <;> simp [edge, idle, accepts, isRead, count, TagRecord.dwordNum]
      exact ⟨rfl, rfl⟩

/-- What the controller is after it has accepted a write. -/
structure TakenWrite (bars : Bars) (s next : SaxisController) (t : Request) : Prop where
  sm : next.sm = .writeData
  memReqWriteReadn : next.memReqWriteReadn = true
  memReadPulse : next.memReadPulse = s.memReadPulse
  memReqValid : next.memReqValid = true
  memReqDwordNum : next.memReqDwordNum = 1#2 ∨ next.memReqDwordNum = 2#2
  tready : next.tready = false
  completionUrReq : next.completionUrReq = s.completionUrReq
  ops : AxiWriteController.opsOf bars next.memReq = t.ops bars

theorem extractLsb'_writeData {start : Nat} (inside : start + 32 ≤ 64) (tdata : Beat) :
    (writeData tdata).extractLsb' start 32 = tdata.extractLsb' (128 + start) 32 := by
  apply BitVec.eq_of_getLsbD_eq
  intro i small
  have bound : start + i < 64 := by omega
  simp [writeData, small, bound, Nat.add_assoc]

/-- A controller that holds a write, with the words it carries. -/
theorem Holds.opsOf {t : Request} {two : Bool} (holds : s.Holds t) (isKind : t.kind = .write two)
    (count : s.memReqDwordNum = TagRecord.dwordNum two)
    (low : s.tdataWide.extractLsb' 128 32 = t.tdata.extractLsb' 128 32)
    (high : two = true → s.tdataWide.extractLsb' 160 32 = t.tdata.extractLsb' 160 32)
    (bars : Bars) : AxiWriteController.opsOf bars s.memReq = t.ops bars := by
  rw [AxiWriteController.opsOf, holds.axiAddr bars]
  simp only [Request.ops, isKind, Request.words, memReq, count, holds.firstBe,
    extractLsb'_writeData (show 0 + 32 ≤ 64 by omega),
    extractLsb'_writeData (show 32 + 32 ≤ 64 by omega), low]
  cases two with
  | false => simp [TagRecord.dwordNum]
  | true => simp [TagRecord.dwordNum, high]

theorem edge_idle_write (bars : Bars) {two : Bool} (idle : s.sm = .idle)
    (accepts : (cq.tvalid && s.tready) = true) (isKind : cq.request.kind = .write two) :
    TakenWrite bars s (s.edge cq ready done) cq.request := by
  obtain ⟨isWrite, count⟩ := kind_write_iff.mp isKind
  simp only [Cq.request] at isWrite count
  have latched {n start len : Nat} (inside : start + len ≤ n) (wide : n ≤ 256) :
      (latch n s.tdataWide cq.tdata).extractLsb' start len = cq.tdata.extractLsb' start len :=
    extractLsb'_latch _ _ inside wide
  cases two with
  | false =>
      constructor <;> simp [edge, idle, accepts, isWrite, count]
      apply Holds.opsOf ⟨latched (by omega) (by omega), rfl⟩ isKind rfl (latched (by omega) (by omega))
      intro narrow
      cases narrow
  | true =>
      constructor <;> simp [edge, idle, accepts, isWrite, count]
      apply Holds.opsOf ⟨latched (by omega) (by omega), rfl⟩ isKind rfl (latched (by omega) (by omega))
      intro _
      exact latched (by omega) (by omega)

/-- What the controller is after it has accepted a read that is not supported. -/
structure TakenLongRead (s next : SaxisController) (t : Request) : Prop where
  sm : next.sm = .completionUr
  memReadPulse : next.memReadPulse = s.memReadPulse
  memReqValid : next.memReqValid = s.memReqValid
  tready : next.tready = false
  completionUrReq : next.completionUrReq = s.completionUrReq
  holds : next.Holds t

theorem edge_idle_longRead (idle : s.sm = .idle) (accepts : (cq.tvalid && s.tready) = true)
    (isKind : cq.request.kind = .longRead) :
    TakenLongRead s (s.edge cq ready done) cq.request := by
  obtain ⟨isRead, notOne, notTwo⟩ := kind_longRead_iff.mp isKind
  simp only [Cq.request] at isRead notOne notTwo
  have narrow : (latch 128 s.tdataWide cq.tdata).extractLsb' 0 128 = cq.tdata.extractLsb' 0 128 :=
    extractLsb'_latch _ _ (by omega) (by omega)
  constructor <;> simp [edge, idle, accepts, isRead, notOne, notTwo]
  exact ⟨narrow, rfl⟩

theorem edge_idle_longWrite (idle : s.sm = .idle) (accepts : (cq.tvalid && s.tready) = true)
    (isKind : cq.request.kind = .longWrite) :
    s.edge cq ready done = if cq.tlast then s else { s with sm := .waitForLast } := by
  obtain ⟨isWrite, notOne, notTwo⟩ := kind_longWrite_iff.mp isKind
  simp only [Cq.request] at isWrite notOne notTwo
  cases last : cq.tlast with
  | true => simp [edge, idle, accepts, isWrite, notOne, notTwo, last]; cases s; cases idle; rfl
  | false => simp [edge, idle, accepts, isWrite, notOne, notTwo, last]

theorem edge_idle_other (idle : s.sm = .idle) (accepts : (cq.tvalid && s.tready) = true)
    (isKind : cq.request.kind = .other) :
    s.edge cq ready done = { s with tready := true } := by
  obtain ⟨notRead, notWrite⟩ := kind_other_iff.mp isKind
  simp only [Cq.request] at notRead notWrite
  simp [edge, idle, accepts, notRead, notWrite]

end SaxisController

end OpaeXilinx.Pcie
