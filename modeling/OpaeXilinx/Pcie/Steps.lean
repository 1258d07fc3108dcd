import OpaeXilinx.Pcie.Rounds

/-!
# From one round to the next
-/

namespace OpaeXilinx.Pcie

open OpaeXilinx.Base

variable {bars : Bars} {s : St} {pins : Pins}

variable (bars) in
/-- The records of reads are left alone. -/
theorem tags_kept (noPulse : s.regs.saxis.memReadPulse = false)
    (noCpld : s.regs.read.cpldValid pins.axi = false) :
    (s.clock pins bars).regs.tags = s.regs.tags := by
  simp [St.clock, Regs.edge, TagManager.edge, noPulse, noCpld]

/-- What goes on while no request is passed on and no completion is sent. -/
structure Calm (bars : Bars) (s next : St) : Prop where
  write : next.regs.write.Inv next.bOwed
  read : next.regs.read.Rests next.rOwed
  axi : next.axi.map AxiEvent.op ++ next.regs.write.left bars =
    s.axi.map AxiEvent.op ++ s.regs.write.left bars
  data : next.data = s.data
  maxis : next.regs.maxis.Idle
  cpldReady : next.regs.maxis.cpldReady = true
  ccs : next.ccs = s.ccs

variable (bars) in
theorem Calm.of_clock (write : s.regs.write.Inv s.bOwed) (read : s.regs.read.Rests s.rOwed)
    (maxis : s.regs.maxis.Idle) (legal : Legal s pins) (notStarted : s.regs.memReqValidWr = false)
    (noUr : s.regs.saxis.completionUrReq = false) : Calm bars s (s.clock pins bars) := by
  obtain ⟨write', read', axi, data⟩ := writes_go_on bars write read legal notStarted
  have noRequest : ((s.regs.cpldPins pins.axi).completionUrReq &&
      !s.regs.maxis.completionUrDone) = false := by
    simp [Regs.cpldPins, noUr]
  have idle : (s.clock pins bars).regs.maxis.Idle ∧
      (s.clock pins bars).regs.maxis.cpldReady = true :=
    MaxisController.edge_idle maxis.sm (no_cpld read legal) noRequest
  exact ⟨write', read', axi, data, idle.1, idle.2, ccs_of_not_valid _ _ maxis.tvalid⟩

namespace Waiting

/-- A beat that is not the first of a packet, or no beat, is accepted. -/
theorem step_of_same (waiting : Waiting bars s) (legal : Legal s pins)
    (same : (s.clock pins bars).tlps = s.tlps)
    (sm : (s.clock pins bars).regs.saxis.sm = .idle ∧ (s.clock pins bars).inPacket = false ∨
      (s.clock pins bars).regs.saxis.sm = .waitForLast ∧ (s.clock pins bars).inPacket = true ∧
        (s.clock pins bars).regs.saxis.tready = true)
    (valid : (s.clock pins bars).regs.saxis.memReqValid = false)
    (pulse : (s.clock pins bars).regs.saxis.memReadPulse = false)
    (ur : (s.clock pins bars).regs.saxis.completionUrReq = false) :
    Waiting bars (s.clock pins bars) := by
  have notStarted : s.regs.memReqValidWr = false := by
    simp [Regs.memReqValidWr, waiting.memReqValid]
  have calm := Calm.of_clock bars waiting.write waiting.read waiting.maxis legal notStarted
    waiting.completionUrReq
  have tags := tags_kept bars waiting.memReadPulse (no_cpld waiting.read legal)
  refine ⟨sm, valid, pulse, ur, calm.write, calm.read, calm.maxis, ?_, ?_, ?_⟩
  · rw [tags]
    exact waiting.tags
  · rw [Ordered, calm.axi, same]
    exact waiting.ordered
  · rw [same]
    exact waiting.settled.of_same calm.data calm.ccs

/-- No beat is accepted. -/
theorem step_of_not_accepts (waiting : Waiting bars s) (legal : Legal s pins)
    (idle : s.regs.saxis.sm = .idle) (outside : s.inPacket = false)
    (notAccepts : s.cqAccepts pins = false) : Waiting bars (s.clock pins bars) := by
  have next : (s.clock pins bars).regs.saxis = { s.regs.saxis with tready := true } :=
    SaxisController.edge_idle_of_not_accepts idle notAccepts
  have still : (s.clock pins bars).inPacket = false := by simp [St.clock, notAccepts, outside]
  apply waiting.step_of_same legal
  · simp [St.clock, notAccepts]
  · rw [next]
    exact .inl ⟨idle, still⟩
  · rw [next]
    exact waiting.memReqValid
  · rw [next]
    exact waiting.memReadPulse
  · rw [next]
    exact waiting.completionUrReq

/-- A further beat of a packet that is dropped. -/
theorem step_waitForLast (waiting : Waiting bars s) (legal : Legal s pins)
    (state : s.regs.saxis.sm = .waitForLast) (inside : s.inPacket = true)
    (ready : s.regs.saxis.tready = true) : Waiting bars (s.clock pins bars) := by
  have next : (s.clock pins bars).regs.saxis =
      if pins.cq.tlast then { s.regs.saxis with sm := .idle } else s.regs.saxis := by
    simp [St.clock, Regs.edge, SaxisController.edge, state]
  have still : (s.clock pins bars).inPacket = !pins.cq.tlast := by
    cases last : pins.cq.tlast with
    | true => simp [St.clock, St.cqAccepts, legal.last last, ready, last]
    | false => simp [St.clock, inside, last]
  apply waiting.step_of_same legal
  · simp [St.clock, inside]
  · rw [next, still]
    cases last : pins.cq.tlast with
    | true => exact .inl ⟨rfl, rfl⟩
    | false => exact .inr ⟨state, rfl, ready⟩
  · rw [next]
    split <;> exact waiting.memReqValid
  · rw [next]
    split <;> exact waiting.memReadPulse
  · rw [next]
    split <;> exact waiting.completionUrReq

/-- The first beat of a packet is accepted. -/
theorem step_of_accepts (waiting : Waiting bars s) (legal : Legal s pins)
    (idle : s.regs.saxis.sm = .idle) (outside : s.inPacket = false)
    (accepts : s.cqAccepts pins = true) : Round bars (s.clock pins bars) := by
  have notStarted : s.regs.memReqValidWr = false := by
    simp [Regs.memReqValidWr, waiting.memReqValid]
  have calm := Calm.of_clock bars waiting.write waiting.read waiting.maxis legal notStarted
    waiting.completionUrReq
  have tags := tags_kept bars waiting.memReadPulse (no_cpld waiting.read legal)
  have tlps : (s.clock pins bars).tlps = s.tlps ++ [pins.cq.request] := by
    simp [St.clock, accepts, outside]
  have inPacket : (s.clock pins bars).inPacket = !pins.cq.tlast := by simp [St.clock, accepts]
  have valid : pins.cq.tvalid = true := by
    simp only [St.cqAccepts, Bool.and_eq_true] at accepts
    exact accepts.1
  have last := legal.single valid outside
  have ids : (s.clock pins bars).regs.tags.writeId = (s.clock pins bars).regs.tags.readId + 1 := by
    rw [tags]
    exact waiting.tags
  have more {rest : List AxiOp} (ops : rest = pins.cq.request.ops bars) :
      Ordered bars (s.clock pins bars) ((s.clock pins bars).regs.write.left bars ++ rest) := by
    rw [Ordered, ← List.append_assoc, calm.axi, tlps, List.flatMap_append, ops]
    exact congrArg (· ++ _) waiting.ordered |>.trans (by simp)
  have nothing (none : pins.cq.request.ops bars = []) :
      Ordered bars (s.clock pins bars) ((s.clock pins bars).regs.write.left bars) := by
    have ordered := more none.symm
    rwa [List.append_nil] at ordered
  have unanswered (none : answers [pins.cq.request] [] = []) (reads : pins.cq.request.reads = 0) :
      Settled (s.clock pins bars) (s.clock pins bars).tlps [] := by
    rw [tlps]
    exact waiting.settled.append none reads calm.data calm.ccs
  cases isKind : pins.cq.request.kind with
  | read two =>
      have taken : SaxisController.TakenRead s.regs.saxis (s.clock pins bars).regs.saxis
          pins.cq.request two := SaxisController.edge_idle_read idle accepts isKind
      have single := last (by rw [isKind]; exact Kind.noConfusion)
      have settled : Settled (s.clock pins bars) s.tlps [] :=
        waiting.settled.of_same calm.data calm.ccs
      apply Round.queued
      exact {
        tlps := tlps, kind := isKind, inPacket := by rw [inPacket, single]; rfl
        memReqDwordNum := taken.memReqDwordNum
        completionUrReq := taken.completionUrReq.trans waiting.completionUrReq
        write := calm.write, settled := settled, sm := taken.sm, tready := taken.tready
        memReqValid := taken.memReqValid, memReqWriteReadn := taken.memReqWriteReadn
        holds := taken.holds, read := calm.read, maxis := calm.maxis, cpldReady := calm.cpldReady
        tags := by rw [taken.memReadPulse]; exact ids
        ordered := more rfl }
  | write two =>
      have taken : SaxisController.TakenWrite bars s.regs.saxis (s.clock pins bars).regs.saxis
          pins.cq.request := SaxisController.edge_idle_write bars idle accepts isKind
      have single := last (by rw [isKind]; exact Kind.noConfusion)
      apply Round.writing
      exact {
        sm := .inl taken.sm, inPacket := by rw [inPacket, single]; rfl
        tready := taken.tready, memReqValid := taken.memReqValid
        memReqWriteReadn := taken.memReqWriteReadn, memReqDwordNum := taken.memReqDwordNum
        memReadPulse := taken.memReadPulse.trans waiting.memReadPulse
        completionUrReq := taken.completionUrReq.trans waiting.completionUrReq
        write := calm.write, read := calm.read, maxis := calm.maxis, tags := ids
        ordered := more taken.ops
        settled := unanswered (by simp [answers, isKind]) (by simp [Request.reads, isKind]) }
  | longRead =>
      have taken : SaxisController.TakenLongRead s.regs.saxis (s.clock pins bars).regs.saxis
          pins.cq.request := SaxisController.edge_idle_longRead idle accepts isKind
      have single := last (by rw [isKind]; exact Kind.noConfusion)
      have settled : Settled (s.clock pins bars) s.tlps [] :=
        waiting.settled.of_same calm.data calm.ccs
      apply Round.rejecting
      exact {
        tlps := tlps, kind := isKind, inPacket := by rw [inPacket, single]; rfl
        sm := taken.sm, tready := taken.tready
        memReqValid := taken.memReqValid.trans waiting.memReqValid
        memReadPulse := taken.memReadPulse.trans waiting.memReadPulse
        holds := taken.holds, write := calm.write, read := calm.read, tags := ids
        ordered := nothing (by simp [Request.ops, isKind])
        rejection := .asked calm.maxis settled }
  | longWrite =>
      have next : (s.clock pins bars).regs.saxis =
          if pins.cq.tlast then s.regs.saxis else { s.regs.saxis with sm := .waitForLast } :=
        SaxisController.edge_idle_longWrite idle accepts isKind
      have ready : s.regs.saxis.tready = true := by
        simp only [St.cqAccepts, Bool.and_eq_true] at accepts
        exact accepts.2
      apply Round.waiting
      refine ⟨?_, ?_, ?_, ?_, calm.write, calm.read, calm.maxis, ids,
        nothing (by simp [Request.ops, isKind]),
        unanswered (by simp [answers, isKind]) (by simp [Request.reads, isKind])⟩
      · rw [next, inPacket]
        cases pins.cq.tlast with
        | true => exact .inl ⟨idle, rfl⟩
        | false => exact .inr ⟨rfl, rfl, ready⟩
      · rw [next]
        split <;> exact waiting.memReqValid
      · rw [next]
        split <;> exact waiting.memReadPulse
      · rw [next]
        split <;> exact waiting.completionUrReq
  | other =>
      have next : (s.clock pins bars).regs.saxis = { s.regs.saxis with tready := true } :=
        SaxisController.edge_idle_other idle accepts isKind
      have single := last (by rw [isKind]; exact Kind.noConfusion)
      apply Round.waiting
      refine ⟨?_, ?_, ?_, ?_, calm.write, calm.read, calm.maxis, ids,
        nothing (by simp [Request.ops, isKind]),
        unanswered (by simp [answers, isKind]) (by simp [Request.reads, isKind])⟩
      · rw [next, inPacket, single]
        exact .inl ⟨idle, rfl⟩
      · rw [next]
        exact waiting.memReqValid
      · rw [next]
        exact waiting.memReadPulse
      · rw [next]
        exact waiting.completionUrReq

theorem step (waiting : Waiting bars s) (legal : Legal s pins) : Round bars (s.clock pins bars) := by
  cases waiting.sm with
  | inl idle =>
      cases accepts : s.cqAccepts pins with
      | true => exact waiting.step_of_accepts legal idle.1 idle.2 accepts
      | false => exact .waiting (waiting.step_of_not_accepts legal idle.1 idle.2 accepts)
  | inr waits => exact .waiting (waiting.step_waitForLast legal waits.1 waits.2.1 waits.2.2)

end Waiting

/-! ## Writing -/

namespace Writing

/-- The write engine takes the write. -/
theorem step_of_ready (writing : Writing bars s) (legal : Legal s pins)
    (ready : s.regs.memReqReady = true) : Waiting bars (s.clock pins bars) := by
  have both := ready
  simp only [Regs.memReqReady, Bool.and_eq_true] at both
  have started : s.regs.memReqValidWr = true := by
    simp [Regs.memReqValidWr, both.1, both.2, writing.memReqValid]
  have notRead : (true && !s.regs.saxis.memReq.writeReadn) = false := by
    simp [SaxisController.memReq, writing.memReqWriteReadn]
  obtain ⟨events, left, write⟩ := writing.write.start bars s.regs.saxis.memReq both.1
    writing.memReqWriteReadn legal.b writing.memReqDwordNum
  have read := (writing.read.edge bars s.regs.saxis.memReq s.regs.maxis.cpldReady legal.r notRead).1
  have silent := writing.read.events s.regs.maxis.cpldReady legal.r
  have tags := tags_kept bars writing.memReadPulse (no_cpld writing.read legal)
  have noRequest : ((s.regs.cpldPins pins.axi).completionUrReq &&
      !s.regs.maxis.completionUrDone) = false := by
    simp [Regs.cpldPins, writing.completionUrReq]
  have maxis : (s.clock pins bars).regs.maxis.Idle :=
    (MaxisController.edge_idle writing.maxis.sm (no_cpld writing.read legal) noRequest).1
  have next : (s.clock pins bars).regs.saxis =
      { s.regs.saxis with sm := .idle, memReqValid := false, tready := true } := by
    cases writing.sm with
    | inl first => simp [St.clock, Regs.edge, SaxisController.edge, first, ready]
    | inr hold => simp [St.clock, Regs.edge, SaxisController.edge, hold, ready]
  have outside : s.cqAccepts pins = false := by simp [St.cqAccepts, writing.tready]
  have tlps : (s.clock pins bars).tlps = s.tlps := by simp [St.clock, outside]
  have axi : (s.clock pins bars).axi = s.axi := by simp [St.clock, events, silent]
  have ccs := ccs_of_not_valid bars pins writing.maxis.tvalid
  exact {
    sm := by rw [next]; exact .inl ⟨rfl, by simp [St.clock, outside, writing.inPacket]⟩
    memReqValid := by rw [next]
    memReadPulse := by rw [next]; exact writing.memReadPulse
    completionUrReq := by rw [next]; exact writing.completionUrReq
    write := by
      show (s.regs.write.edge bars s.regs.memReqValidWr s.regs.saxis.memReq pins.axi).Inv _
      rw [started]
      exact write
    read := by
      show (s.regs.read.edge bars s.regs.memReqValidWr s.regs.saxis.memReq pins.axi).Rests _
      rw [started]
      exact read
    maxis := maxis
    tags := by rw [tags]; exact writing.tags
    ordered := by
      have ordered := writing.ordered
      rw [writing.write.left_of_ready both.1, List.nil_append, ← left] at ordered
      rw [Ordered, axi, tlps, St.clock, Regs.edge, started]
      exact ordered
    settled := by
      rw [tlps]
      exact writing.settled.of_same (by rw [St.data, axi]; rfl) ccs }

theorem step_of_not_ready (writing : Writing bars s) (legal : Legal s pins)
    (notReady : s.regs.memReqReady = false) : Writing bars (s.clock pins bars) := by
  have notStarted : s.regs.memReqValidWr = false := by
    simp only [Regs.memReqReady] at notReady
    simp [Regs.memReqValidWr, notReady]
  have calm := Calm.of_clock bars writing.write writing.read writing.maxis legal notStarted
    writing.completionUrReq
  have tags := tags_kept bars writing.memReadPulse (no_cpld writing.read legal)
  have next : (s.clock pins bars).regs.saxis = { s.regs.saxis with sm := .holdValid } := by
    have valid := writing.memReqValid
    have blocked := writing.tready
    cases writing.sm with
    | inl first => simp [St.clock, Regs.edge, SaxisController.edge, first, notReady, valid, blocked]
    | inr hold =>
        simp only [St.clock, Regs.edge, SaxisController.edge, hold, notReady]
        rw [← hold]
        rfl
  have outside : s.cqAccepts pins = false := by simp [St.cqAccepts, writing.tready]
  have tlps : (s.clock pins bars).tlps = s.tlps := by simp [St.clock, outside]
  have req : (s.clock pins bars).regs.saxis.memReq = s.regs.saxis.memReq := by rw [next]; rfl
  exact {
    sm := by rw [next]; exact .inr rfl
    inPacket := by simp [St.clock, outside, writing.inPacket]
    tready := by rw [next]; exact writing.tready
    memReqValid := by rw [next]; exact writing.memReqValid
    memReqWriteReadn := by rw [next]; exact writing.memReqWriteReadn
    memReqDwordNum := by rw [next]; exact writing.memReqDwordNum
    memReadPulse := by rw [next]; exact writing.memReadPulse
    completionUrReq := by rw [next]; exact writing.completionUrReq
    write := calm.write, read := calm.read, maxis := calm.maxis
    tags := by rw [tags]; exact writing.tags
    ordered := by
      rw [Ordered, ← List.append_assoc, calm.axi, tlps, req, List.append_assoc]
      exact writing.ordered
    settled := by rw [tlps]; exact writing.settled.of_same calm.data calm.ccs }

theorem step (writing : Writing bars s) (legal : Legal s pins) : Round bars (s.clock pins bars) := by
  cases ready : s.regs.memReqReady with
  | true => exact .waiting (writing.step_of_ready legal ready)
  | false => exact .writing (writing.step_of_not_ready legal ready)

end Writing

/-! ## Reading -/

theorem isRead_of_kind {t : Request} {two : Bool} (isKind : t.kind = .read two) :
    t.isRead = true := by
  simp [Request.isRead, (kind_read_iff.mp isKind).1]

/-- A packet that is read and not settled has not been answered. -/
theorem awaiting_of_settled {done : List Request} {t : Request} {got : List Word}
    (settled : Settled s done got) (tlps : s.tlps = done ++ [t]) (isRead : t.isRead = true) :
    s.Awaiting := by
  obtain ⟨old, -, complete, sent⟩ := settled
  have count := congrArg List.length sent
  rw [List.length_map, length_answers complete] at count
  rw [St.Awaiting, count, tlps, List.filter_append, List.length_append]
  simp [isRead]

namespace Queued

variable {done : List Request} {t : Request} {two : Bool}

/-- The packet is on record after the edge. -/
theorem marked (queued : Queued bars s done t two) (legal : Legal s pins) :
    (s.clock pins bars).regs.tags.writeId = (s.clock pins bars).regs.tags.readId + 1 + 1 ∧
      (s.clock pins bars).regs.tags.storage ((s.clock pins bars).regs.tags.readId + 1) =
        t.record := by
  have tags := queued.tags
  have noCpld := no_cpld queued.read legal
  cases pulse : s.regs.saxis.memReadPulse with
  | true =>
      have next : s.regs.tags.writeId = s.regs.tags.readId + 1 := by simpa [pulse] using tags
      simp [St.clock, Regs.edge, TagManager.edge, pulse, noCpld, next, queued.holds.record]
  | false =>
      have kept := tags_kept bars pulse noCpld
      rw [kept]
      simpa [pulse] using tags

theorem step_of_ready (queued : Queued bars s done t two) (legal : Legal s pins)
    (ready : s.regs.memReqReady = true) : Reading bars (s.clock pins bars) done t two [] := by
  have both := ready
  simp only [Regs.memReqReady, Bool.and_eq_true] at both
  have started : s.regs.memReqValidWr = true := by
    simp [Regs.memReqValidWr, both.1, both.2, queued.memReqValid]
  have isRead : s.regs.saxis.memReq.writeReadn = false := queued.memReqWriteReadn
  have notWrite : (true && s.regs.saxis.memReq.writeReadn) = false := by simp [isRead]
  obtain ⟨steps, write⟩ := queued.write.edge bars s.regs.saxis.memReq legal.b notWrite
  rw [queued.write.left_of_ready both.1, List.append_eq_nil_iff, List.map_eq_nil_iff] at steps
  obtain ⟨read, left⟩ := queued.read.start bars s.regs.saxis.memReq s.regs.maxis.cpldReady legal.r
    isRead queued.memReqDwordNum
  have silent := queued.read.events s.regs.maxis.cpldReady legal.r
  have noRequest : ((s.regs.cpldPins pins.axi).completionUrReq &&
      !s.regs.maxis.completionUrDone) = false := by
    simp [Regs.cpldPins, queued.completionUrReq]
  have maxis : (s.clock pins bars).regs.maxis.Idle ∧
      (s.clock pins bars).regs.maxis.cpldReady = true :=
    MaxisController.edge_idle queued.maxis.sm (no_cpld queued.read legal) noRequest
  have next : (s.clock pins bars).regs.saxis =
      { s.regs.saxis with
        sm := .idle, tready := true, memReqValid := false, memReadPulse := false } := by
    simp [St.clock, Regs.edge, SaxisController.edge, queued.sm, ready]
  have outside : s.cqAccepts pins = false := by simp [St.cqAccepts, queued.tready]
  have tlps : (s.clock pins bars).tlps = s.tlps := by simp [St.clock, outside]
  have axi : (s.clock pins bars).axi = s.axi := by simp [St.clock, steps.1, silent]
  have ccs := ccs_of_not_valid bars pins queued.maxis.tvalid
  have ops : t.ops bars = readOps (t.axiAddr bars) (if two then 2 else 1) := by
    rw [Request.ops, queued.kind]
  have marked := queued.marked legal
  exact {
    tlps := tlps.trans queued.tlps, kind := queued.kind
    inPacket := by simp [St.clock, outside, queued.inPacket]
    memReqDwordNum := by rw [next]; exact queued.memReqDwordNum
    completionUrReq := by rw [next]; exact queued.completionUrReq
    write := by
      show (s.regs.write.edge bars s.regs.memReqValidWr s.regs.saxis.memReq pins.axi).Inv _
      rw [started]
      exact write
    settled := queued.settled.of_same (by rw [St.data, axi]; rfl) ccs
    sm := by rw [next], memReqValid := by rw [next], memReadPulse := by rw [next]
    written := by
      show (s.regs.write.edge bars s.regs.memReqValidWr s.regs.saxis.memReq pins.axi).left bars = []
      rw [started]
      exact steps.2
    read := by
      show (s.regs.read.edge bars s.regs.memReqValidWr s.regs.saxis.memReq pins.axi).Serves two [] _
      rw [started]
      exact read
    maxis := maxis.1, cpldReady := maxis.2, writeId := marked.1, record := marked.2
    ordered := by
      have ordered := queued.ordered
      rw [queued.write.left_of_ready both.1, List.nil_append, ops, ← queued.holds.axiAddr,
        ← left] at ordered
      rw [Ordered, axi, tlps, St.clock, Regs.edge, started]
      exact ordered }

theorem step_of_not_ready (queued : Queued bars s done t two) (legal : Legal s pins)
    (notReady : s.regs.memReqReady = false) : Queued bars (s.clock pins bars) done t two := by
  have notStarted : s.regs.memReqValidWr = false := by
    simp only [Regs.memReqReady] at notReady
    simp [Regs.memReqValidWr, notReady]
  have calm := Calm.of_clock bars queued.write queued.read queued.maxis legal notStarted
    queued.completionUrReq
  have next : (s.clock pins bars).regs.saxis =
      { s.regs.saxis with tready := false, memReadPulse := false } := by
    simp [St.clock, Regs.edge, SaxisController.edge, queued.sm, notReady]
  have outside : s.cqAccepts pins = false := by simp [St.cqAccepts, queued.tready]
  have tlps : (s.clock pins bars).tlps = s.tlps := by simp [St.clock, outside]
  exact {
    tlps := tlps.trans queued.tlps, kind := queued.kind
    inPacket := by simp [St.clock, outside, queued.inPacket]
    memReqDwordNum := by rw [next]; exact queued.memReqDwordNum
    completionUrReq := by rw [next]; exact queued.completionUrReq
    write := calm.write, settled := queued.settled.of_same calm.data calm.ccs
    sm := by rw [next]; exact queued.sm
    tready := by rw [next]
    memReqValid := by rw [next]; exact queued.memReqValid
    memReqWriteReadn := by rw [next]; exact queued.memReqWriteReadn
    holds := by rw [next]; exact ⟨queued.holds.header, queued.holds.firstBe⟩
    read := calm.read, maxis := calm.maxis, cpldReady := calm.cpldReady
    tags := by rw [next]; exact queued.marked legal
    ordered := by
      rw [Ordered, ← List.append_assoc, calm.axi, tlps, List.append_assoc]
      exact queued.ordered }

theorem step (queued : Queued bars s done t two) (legal : Legal s pins) :
    Round bars (s.clock pins bars) := by
  cases ready : s.regs.memReqReady with
  | true => exact .reading (queued.step_of_ready legal ready)
  | false => exact .queued (queued.step_of_not_ready legal ready)

end Queued

/-- While a read that has been passed on is unanswered, the request controller and the write
engine rest. -/
structure Still (bars : Bars) (s next : St) : Prop extends Passed bars next where
  write : next.regs.write.Inv next.bOwed
  inPacket : next.inPacket = s.inPacket
  tlps : next.tlps = s.tlps
  memReqDwordNum : next.regs.saxis.memReqDwordNum = s.regs.saxis.memReqDwordNum
  completionUrReq : next.regs.saxis.completionUrReq = s.regs.saxis.completionUrReq

theorem Passed.notStarted (passed : Passed bars s) : s.regs.memReqValidWr = false := by
  simp [Regs.memReqValidWr, passed.memReqValid]

theorem Passed.still (passed : Passed bars s) (write : s.regs.write.Inv s.bOwed)
    (legal : Legal s pins) (quiet : pins.cq.tvalid = false) :
    Still bars s (s.clock pins bars) ∧ s.regs.write.events pins.axi = [] := by
  have notWrite : (s.regs.memReqValidWr && s.regs.saxis.memReq.writeReadn) = false := by
    rw [passed.notStarted, Bool.false_and]
  obtain ⟨steps, write'⟩ := write.edge bars s.regs.saxis.memReq legal.b notWrite
  rw [passed.written, List.append_eq_nil_iff, List.map_eq_nil_iff] at steps
  have outside : s.cqAccepts pins = false := by simp [St.cqAccepts, quiet]
  have next : (s.clock pins bars).regs.saxis = { s.regs.saxis with tready := true } :=
    SaxisController.edge_idle_of_not_accepts passed.sm outside
  have still : Still bars s (s.clock pins bars) := {
    sm := by rw [next]; exact passed.sm
    memReqValid := by rw [next]; exact passed.memReqValid
    memReadPulse := by rw [next]; exact passed.memReadPulse
    written := steps.2
    write := write'
    inPacket := by simp [St.clock, outside]
    tlps := by simp [St.clock, outside]
    memReqDwordNum := by rw [next]
    completionUrReq := by rw [next] }
  exact ⟨still, steps.1⟩

namespace Reading

variable {done : List Request} {t : Request} {two : Bool} {got : List Word}

/-- What the read engine does at the edge. -/
theorem engine (reading : Reading bars s done t two got) (legal : Legal s pins) :
    (s.regs.read.events pins.axi true).map AxiEvent.op ++
        (s.clock pins bars).regs.read.left (s.clock pins bars).rOwed =
          s.regs.read.left s.rOwed ∧
      if s.regs.read.cpldValid pins.axi then
        s.regs.read.events pins.axi true = [.r pins.axi.rdata] ∧
          (s.clock pins bars).regs.read.Rests (s.clock pins bars).rOwed
      else (s.clock pins bars).regs.read.Serves two
        (got ++ (s.regs.read.events pins.axi true).filterMap AxiEvent.data?)
        (s.clock pins bars).rOwed := by
  have engine := reading.read.edge bars s.regs.saxis.memReq legal.r
  simp only [St.clock, Regs.edge, reading.notStarted, reading.cpldReady]
  exact engine

/-- The handshakes and data after the edge. -/
theorem logs (reading : Reading bars s done t two got) (legal : Legal s pins)
    (quiet : pins.cq.tvalid = false) :
    Ordered bars (s.clock pins bars)
        ((s.clock pins bars).regs.read.left (s.clock pins bars).rOwed) ∧
      Settled (s.clock pins bars) done
        (got ++ (s.regs.read.events pins.axi true).filterMap AxiEvent.data?) := by
  obtain ⟨still, silent⟩ := reading.toPassed.still reading.write legal quiet
  have steps := (reading.engine legal).1
  have axi : (s.clock pins bars).axi = s.axi ++ s.regs.read.events pins.axi true := by
    simp [St.clock, silent, reading.cpldReady]
  have ccs := ccs_of_not_valid bars pins reading.maxis.tvalid
  constructor
  · rw [Ordered, still.tlps, axi, List.map_append, List.append_assoc, steps]
    exact reading.ordered
  · obtain ⟨old, all, complete, sent⟩ := reading.settled
    refine ⟨old, ?_, complete, by rw [ccs, sent]⟩
    rw [St.data, axi, List.filterMap_append]
    rw [St.data] at all
    rw [all, List.append_assoc]

theorem step_of_cpld (reading : Reading bars s done t two got) (legal : Legal s pins)
    (quiet : pins.cq.tvalid = false) (cpld : s.regs.read.cpldValid pins.axi = true) :
    Completing bars (s.clock pins bars) done t two (got ++ [pins.axi.rdata]) := by
  obtain ⟨still, silent⟩ := reading.toPassed.still reading.write legal quiet
  obtain ⟨steps, rests⟩ := reading.engine legal
  obtain ⟨ordered, settled⟩ := reading.logs legal quiet
  rw [if_pos cpld] at rests
  have maxis : (s.clock pins bars).regs.maxis =
      { s.regs.maxis with
        cpldData := s.regs.read.cpldDataOut s.regs.saxis.memReq pins.axi, cpldReady := false
        sm := .tlpBeat1, tkeep := MaxisController.keepOf s.regs.saxis.memReqDwordNum
        tvalid := false, completionUrDone := false } :=
    MaxisController.edge_idle_cpld reading.maxis.sm cpld reading.cpldReady
  have words := reading.read.complete s.regs.saxis.memReq cpld reading.memReqDwordNum
  rw [rests.1] at settled
  exact {
    toServing := {
      tlps := still.tlps.trans reading.tlps, kind := reading.kind
      inPacket := still.inPacket.trans reading.inPacket
      memReqDwordNum := still.memReqDwordNum.trans reading.memReqDwordNum
      completionUrReq := still.completionUrReq.trans reading.completionUrReq
      write := still.write, settled := settled }
    toPassed := still.toPassed
    read := rests.2
    maxisSm := by rw [maxis]
    completionUrDone := by rw [maxis]
    cpldData := by rw [maxis, words, cpldWords]
    tkeep := by rw [maxis, reading.memReqDwordNum]
    beat := by
      rw [maxis]
      intro valid
      cases valid
    writeId := by
      have tags := reading.writeId
      simp [St.clock, Regs.edge, TagManager.edge, reading.memReadPulse, cpld, reading.cpldReady,
        tags]
    record := by
      simpa [St.clock, Regs.edge, TagManager.edge, TagManager.read, reading.memReadPulse, cpld,
        reading.cpldReady] using reading.record
    ordered := by rwa [rests.2.left] at ordered }

theorem step_of_not_cpld (reading : Reading bars s done t two got) (legal : Legal s pins)
    (quiet : pins.cq.tvalid = false) (noCpld : s.regs.read.cpldValid pins.axi = false) :
    Reading bars (s.clock pins bars) done t two
      (got ++ (s.regs.read.events pins.axi true).filterMap AxiEvent.data?) := by
  obtain ⟨still, silent⟩ := reading.toPassed.still reading.write legal quiet
  obtain ⟨steps, serves⟩ := reading.engine legal
  obtain ⟨ordered, settled⟩ := reading.logs legal quiet
  rw [if_neg (by simp [noCpld])] at serves
  have noRequest : ((s.regs.cpldPins pins.axi).completionUrReq &&
      !s.regs.maxis.completionUrDone) = false := by
    simp [Regs.cpldPins, reading.completionUrReq]
  have maxis : (s.clock pins bars).regs.maxis.Idle ∧
      (s.clock pins bars).regs.maxis.cpldReady = true :=
    MaxisController.edge_idle reading.maxis.sm noCpld noRequest
  have tags := tags_kept bars reading.memReadPulse noCpld
  exact {
    toServing := {
      tlps := still.tlps.trans reading.tlps, kind := reading.kind
      inPacket := still.inPacket.trans reading.inPacket
      memReqDwordNum := still.memReqDwordNum.trans reading.memReqDwordNum
      completionUrReq := still.completionUrReq.trans reading.completionUrReq
      write := still.write, settled := settled }
    toPassed := still.toPassed
    read := serves, maxis := maxis.1, cpldReady := maxis.2
    writeId := by rw [tags]; exact reading.writeId
    record := by rw [tags]; exact reading.record
    ordered := ordered }

theorem step (reading : Reading bars s done t two got) (legal : Legal s pins)
    (patient : Patient s pins) : Round bars (s.clock pins bars) := by
  have quiet := patient
    (awaiting_of_settled reading.settled reading.tlps (isRead_of_kind reading.kind))
  cases cpld : s.regs.read.cpldValid pins.axi with
  | true => exact .completing (reading.step_of_cpld legal quiet cpld)
  | false => exact .reading (reading.step_of_not_cpld legal quiet cpld)

end Reading

namespace Completing

variable {done : List Request} {t : Request} {two : Bool} {got : List Word}

/-- All words have come in. -/
theorem full (completing : Completing bars s done t two got) : got.length = t.reads := by
  rw [← completing.cpldData, cpldWords, Request.reads, completing.kind]
  cases two <;> rfl

/-- A packet is answered with its completion. -/
theorem answered (completing : Completing bars s done t two got) {next : St}
    (tlps : next.tlps = s.tlps) (data : next.data = s.data)
    (ccs : next.ccs.map CcBeat.completion =
      s.ccs.map CcBeat.completion ++ [t.completion got]) : Settled next next.tlps [] := by
  obtain ⟨old, all, complete, sent⟩ := completing.settled
  have full := completing.full
  refine ⟨s.data, by rw [data, List.append_nil], ?_, ?_⟩
  · rw [all, tlps, completing.tlps, List.length_append, complete, full]
    simp
  · have last : answers [t] got = [t.completion got] := by
      rw [answers, completing.kind]
      simp [← full, answers]
    rw [ccs, sent, all, tlps, completing.tlps, answers_append _ _ complete, last]

theorem step (completing : Completing bars s done t two got) (legal : Legal s pins)
    (patient : Patient s pins) : Round bars (s.clock pins bars) := by
  have quiet := patient
    (awaiting_of_settled completing.settled completing.tlps (isRead_of_kind completing.kind))
  obtain ⟨still, silent⟩ := completing.toPassed.still completing.write legal quiet
  have noRead : (s.regs.memReqValidWr && !s.regs.saxis.memReq.writeReadn) = false := by
    rw [completing.notStarted, Bool.false_and]
  have read := (completing.read.edge bars s.regs.saxis.memReq s.regs.maxis.cpldReady legal.r
    noRead).1
  have noEvents := completing.read.events s.regs.maxis.cpldReady legal.r
  have noCpld := no_cpld completing.read legal
  have tags := tags_kept bars completing.memReadPulse noCpld
  have axi : (s.clock pins bars).axi = s.axi := by simp [St.clock, silent, noEvents]
  have data : (s.clock pins bars).data = s.data := by rw [St.data, axi]; rfl
  have ordered : Ordered bars (s.clock pins bars) [] := by
    rw [Ordered, axi, still.tlps]
    exact completing.ordered
  have noUr := completing.completionUrReq
  cases taken : (pins.ccTready && s.regs.maxis.tvalid) with
  | true =>
      simp only [Bool.and_eq_true] at taken
      have maxis : (s.clock pins bars).regs.maxis.Idle := by
        constructor <;>
          simp [St.clock, Regs.edge, MaxisController.edge, MaxisController.machine,
            completing.maxisSm, taken, Regs.cpldPins, noUr, completing.completionUrDone]
      have ccs : (s.clock pins bars).ccs.map CcBeat.completion =
          s.ccs.map CcBeat.completion ++ [t.completion got] := by
        simp [St.clock, happens, taken, completing.beat taken.2]
      apply Round.waiting
      exact {
        sm := .inl ⟨still.sm, still.inPacket.trans completing.inPacket⟩
        memReqValid := still.memReqValid, memReadPulse := still.memReadPulse
        completionUrReq := still.completionUrReq.trans noUr
        write := still.write, read := read, maxis := maxis
        tags := by rw [tags]; exact completing.writeId
        ordered := by rw [still.written]; exact ordered
        settled := completing.answered still.tlps data ccs }
  | false =>
      have maxis : (s.clock pins bars).regs.maxis =
          { s.regs.maxis with
            tlast := true, tvalid := true
            tdata := s.regs.maxis.cpldBeat (s.regs.cpldPins pins.axi) } := by
        simp [St.clock, Regs.edge, MaxisController.edge, MaxisController.machine,
          completing.maxisSm, taken, Regs.cpldPins, noCpld]
      have ccs : (s.clock pins bars).ccs = s.ccs := by
        rw [Bool.and_comm] at taken
        simp [St.clock, happens, taken]
      apply Round.completing
      exact {
        toServing := {
          tlps := still.tlps.trans completing.tlps, kind := completing.kind
          inPacket := still.inPacket.trans completing.inPacket
          memReqDwordNum := still.memReqDwordNum.trans completing.memReqDwordNum
          completionUrReq := still.completionUrReq.trans noUr
          write := still.write, settled := completing.settled.of_same data ccs }
        toPassed := still.toPassed
        read := read
        maxisSm := by rw [maxis]; exact completing.maxisSm
        completionUrDone := by rw [maxis]; exact completing.completionUrDone
        cpldData := by rw [maxis]; exact completing.cpldData
        tkeep := by rw [maxis]; exact completing.tkeep
        beat := by
          intro _
          rw [maxis, completing.tkeep, ← completing.cpldData]
          exact completion_cpldBeat completing.record completing.memReqDwordNum
        writeId := by rw [tags]; exact completing.writeId
        record := by rw [tags]; exact completing.record
        ordered := ordered }

end Completing

namespace Rejecting

variable {done : List Request} {t : Request}

theorem answers_rejected (isKind : t.kind = .longRead) : answers [t] [] = [t.rejection] := by
  simp [answers, isKind]

/-- What goes on beside the rejection. -/
structure Beside (bars : Bars) (s next : St) : Prop where
  write : next.regs.write.Inv next.bOwed
  read : next.regs.read.Rests next.rOwed
  tags : next.regs.tags.writeId = next.regs.tags.readId + 1
  ordered : Ordered bars next (next.regs.write.left bars)
  data : next.data = s.data
  tlps : next.tlps = s.tlps
  inPacket : next.inPacket = false

theorem beside (rejecting : Rejecting bars s done t) (legal : Legal s pins) :
    Beside bars s (s.clock pins bars) := by
  have notStarted : s.regs.memReqValidWr = false := by
    simp [Regs.memReqValidWr, rejecting.memReqValid]
  obtain ⟨write, read, axi, data⟩ :=
    writes_go_on bars rejecting.write rejecting.read legal notStarted
  have tags := tags_kept bars rejecting.memReadPulse (no_cpld rejecting.read legal)
  have outside : s.cqAccepts pins = false := by simp [St.cqAccepts, rejecting.tready]
  have tlps : (s.clock pins bars).tlps = s.tlps := by simp [St.clock, outside]
  refine ⟨write, read, by rw [tags]; exact rejecting.tags, ?_, data, tlps, ?_⟩
  · rw [Ordered, axi, tlps]
    exact rejecting.ordered
  · simp [St.clock, outside, rejecting.inPacket]

/-- The rejection goes on. -/
theorem step_of_rejection (rejecting : Rejecting bars s done t) (legal : Legal s pins)
    (notDone : s.regs.maxis.completionUrDone = false)
    (rejection : Rejection (s.clock pins bars) done t) :
    Round bars (s.clock pins bars) := by
  have beside := rejecting.beside legal
  have next : (s.clock pins bars).regs.saxis = { s.regs.saxis with completionUrReq := true } := by
    simp [St.clock, Regs.edge, SaxisController.edge, rejecting.sm, notDone]
  apply Round.rejecting
  exact {
    tlps := beside.tlps.trans rejecting.tlps, kind := rejecting.kind
    inPacket := beside.inPacket
    sm := by rw [next]; exact rejecting.sm
    tready := by rw [next]; exact rejecting.tready
    memReqValid := by rw [next]; exact rejecting.memReqValid
    memReadPulse := by rw [next]; exact rejecting.memReadPulse
    holds := by rw [next]; exact ⟨rejecting.holds.header, rejecting.holds.firstBe⟩
    write := beside.write, read := beside.read, tags := beside.tags, ordered := beside.ordered
    rejection := rejection }

/-- The rejection has been sent. -/
theorem step_of_sent (rejecting : Rejecting bars s done t) (legal : Legal s pins)
    (idle : s.regs.maxis.sm = .idle) (silent : s.regs.maxis.tvalid = false)
    (isDone : s.regs.maxis.completionUrDone = true) (settled : Settled s s.tlps []) :
    Round bars (s.clock pins bars) := by
  have beside := rejecting.beside legal
  have next : (s.clock pins bars).regs.saxis =
      { s.regs.saxis with sm := .idle, completionUrReq := false } := by
    simp [St.clock, Regs.edge, SaxisController.edge, rejecting.sm, isDone]
  have noRequest : ((s.regs.cpldPins pins.axi).completionUrReq &&
      !s.regs.maxis.completionUrDone) = false := by
    simp [isDone]
  have maxis : (s.clock pins bars).regs.maxis.Idle :=
    (MaxisController.edge_idle idle (no_cpld rejecting.read legal) noRequest).1
  apply Round.waiting
  exact {
    sm := by rw [next]; exact .inl ⟨rfl, beside.inPacket⟩
    memReqValid := by rw [next]; exact rejecting.memReqValid
    memReadPulse := by rw [next]; exact rejecting.memReadPulse
    completionUrReq := by rw [next]
    write := beside.write, read := beside.read, maxis := maxis, tags := beside.tags
    ordered := beside.ordered
    settled := by
      rw [beside.tlps]
      exact settled.of_same beside.data (ccs_of_not_valid _ _ silent) }

theorem step (rejecting : Rejecting bars s done t) (legal : Legal s pins) :
    Round bars (s.clock pins bars) := by
  have beside := rejecting.beside legal
  have noCpld := no_cpld rejecting.read legal
  cases rejecting.rejection with
  | asked idle settled =>
      have settled' : Settled (s.clock pins bars) done [] :=
        settled.of_same beside.data (ccs_of_not_valid _ _ idle.tvalid)
      apply rejecting.step_of_rejection legal idle.completionUrDone
      cases ur : s.regs.saxis.completionUrReq with
      | true =>
          have maxis : (s.clock pins bars).regs.maxis =
              { s.regs.maxis with
                cpldReady := false, sm := .tlpBeat1Ur, tkeep := 0x07#8, tvalid := false
                completionUrDone := false } :=
            MaxisController.edge_idle_ur idle noCpld ur
          apply Rejection.sending (by rw [maxis]) (by rw [maxis]) (by rw [maxis]) _ settled'
          rw [maxis]
          intro valid
          cases valid
      | false =>
          have noRequest : ((s.regs.cpldPins pins.axi).completionUrReq &&
              !s.regs.maxis.completionUrDone) = false := by
            simp [Regs.cpldPins, ur]
          exact .asked (MaxisController.edge_idle idle.sm noCpld noRequest).1 settled'
  | sending sm notDone tkeep beat settled =>
      apply rejecting.step_of_rejection legal notDone
      cases taken : (pins.ccTready && s.regs.maxis.tvalid) with
      | true =>
          simp only [Bool.and_eq_true] at taken
          have maxis : (s.clock pins bars).regs.maxis.sm = .idle ∧
              (s.clock pins bars).regs.maxis.tvalid = false ∧
              (s.clock pins bars).regs.maxis.completionUrDone = true := by
            simp [St.clock, Regs.edge, MaxisController.edge, MaxisController.machine, sm, taken]
          obtain ⟨old, all, complete, sent⟩ := settled
          apply Rejection.sent maxis.1 maxis.2.1 maxis.2.2
          refine ⟨old, by rw [beside.data, all], ?_, ?_⟩
          · rw [beside.tlps, rejecting.tlps, complete]
            simp [Request.reads, rejecting.kind]
          · have more := answers_append [t] [] complete
            rw [List.append_nil, answers_rejected rejecting.kind] at more
            rw [beside.tlps, rejecting.tlps, more, ← sent]
            simp [St.clock, happens, taken, beat taken.2]
      | false =>
          have maxis : (s.clock pins bars).regs.maxis =
              { s.regs.maxis with
                tlast := true, tvalid := true
                tdata := MaxisController.urBeat (s.regs.cpldPins pins.axi) } := by
            simp [St.clock, Regs.edge, MaxisController.edge, MaxisController.machine, sm, taken,
              Regs.cpldPins, noCpld]
          have ccs : (s.clock pins bars).ccs = s.ccs := by
            rw [Bool.and_comm] at taken
            simp [St.clock, happens, taken]
          apply Rejection.sending (by rw [maxis]; exact sm) (by rw [maxis]; exact notDone)
            (by rw [maxis]; exact tkeep) _ (settled.of_same beside.data ccs)
          intro _
          rw [maxis, tkeep]
          exact completion_urBeat rejecting.holds.record
  | sent idle silent isDone settled =>
      exact rejecting.step_of_sent legal idle silent isDone settled

end Rejecting

/-! ## Runs -/

theorem Round.step (round : Round bars s) (legal : Legal s pins) (patient : Patient s pins) :
    Round bars (s.clock pins bars) := by
  cases round with
  | waiting waiting => exact waiting.step legal
  | writing writing => exact writing.step legal
  | queued queued => exact queued.step legal
  | reading reading => exact reading.step legal patient
  | completing completing => exact completing.step legal patient
  | rejecting rejecting => exact rejecting.step legal

theorem Round.init {s : St} (start : (bridgeSystem bars).init s) : Round bars s := by
  obtain ⟨reset, tlps, inPacket, axi, bOwed, rOwed, ccs⟩ := start
  apply Round.waiting
  exact {
    sm := .inl ⟨reset.saxisSm, inPacket⟩
    memReqValid := reset.memReqValid, memReadPulse := reset.memReadPulse
    completionUrReq := reset.completionUrReq
    write := by
      constructor <;>
        simp [reset.writeSm, reset.awvalid, reset.wvalid, bOwed, AxiWriteController.Counts]
    read := ⟨reset.readSm, reset.arvalid, reset.dwordNum, rOwed⟩
    maxis := ⟨reset.maxisSm, reset.ccTvalid, reset.completionUrDone⟩
    tags := by rw [reset.writeId, reset.readId]; rfl
    ordered := by simp [Ordered, axi, tlps, AxiWriteController.left, reset.writeSm]
    settled := ⟨[], by simp [St.data, axi], by simp [tlps], by simp [ccs, tlps, answers]⟩ }

theorem Round.reach {s : St} (reach : (bridgeSystem bars).Reach Patient s) : Round bars s := by
  apply reach.invariant
  · intro s start
    exact Round.init start
  · intro s pins next round patient step
    rw [step.2]
    exact round.step step.1 patient

end OpaeXilinx.Pcie
