import OpaeXilinx.Cosim.Bridge

/-!
# MMIO accesses reach the AXI slave exactly once and in order

The write master leaves its data state on `wready` alone.  When the slave accepts
the data beat before the address beat, `awvalid` is never taken back and the slave
can accept the same address again.  Under the condition that no data beat is
accepted ahead of its address beat, every access is presented once, in the order
in which QEMU issued it, and is answered by its own response frame.
-/

namespace OpaeXilinx.Cosim

open OpaeXilinx.Base

/-- The AXI address of an access. -/
def busAddr (barMap : Nat) (access : Mmio) : Nat := (access.addr + barMap) % 2 ^ adrw

/-- MMIO writes of a list of accesses. -/
def writes (accesses : List Mmio) : List Mmio := accesses.filter Mmio.isWrite

/-- MMIO reads of a list of accesses. -/
def reads (accesses : List Mmio) : List Mmio := accesses.filter fun access => !access.isWrite

/-- The strobes select the lanes of a write and the bytes on them are its value. -/
def LanesHold (addr : Nat) (val : BitVec 64) (size strb : Nat) (data : Nat → Byte) : Prop :=
  ∀ lane < busw,
    (strb.testBit lane = decide (addr % busw ≤ lane ∧ lane < addr % busw + size)) ∧
    (strb.testBit lane = true → data lane = leByte val (lane - addr % busw))

/-- The beat is the last of its burst and carries the write. -/
def Carries : Mmio → DataBeat → Prop
  | .read .., _ => False
  | .write addr val size, beat => beat.last = true ∧ LanesHold addr val size beat.strb beat.data

/-- The response frame belongs to the access. -/
def Answers (barMap : Nat) : Mmio → Resp → Prop
  | .write .., .write => True
  | .read addr size, .read respAddr _ => respAddr = busAddr barMap (.read addr size)
  | _, _ => False

/-- Exactly-once delivery of the accesses issued so far. -/
structure ExactlyOnce (barMap : Nat) (s : St) : Prop where
  aw : s.awLog.map AddrBeat.addr <+: (writes s.issued).map (busAddr barMap)
  w : ∃ sent, sent <+: writes s.issued ∧ List.Forall₂ Carries sent s.wLog
  ar : s.arLog.map AddrBeat.addr <+: (reads s.issued).map (busAddr barMap)
  /-- Every write whose response frame has been sent has had both handshakes. -/
  answered : (s.qemuResp.filter Resp.isWrite).length ≤ s.awLog.length ∧
    (s.qemuResp.filter Resp.isWrite).length ≤ s.wLog.length
  resp : ∃ sent, sent <+: s.issued ∧ List.Forall₂ (Answers barMap) sent s.qemuResp

/-- The slave accepts no data beat while the address beat of that write is still
waiting and not accepted at the same edge. -/
def AddressFirst (s : St) : Label → Prop
  | .clock e => s.mw.state = .writeData → s.mw.awvalid = true → e.wready = true →
      e.awready = true
  | _ => True

instance (s : St) : (label : Label) → Decidable (AddressFirst s label)
  | .clock e => inferInstanceAs (Decidable (s.mw.state = .writeData → s.mw.awvalid = true →
      e.wready = true → e.awready = true))
  | .issue .. => isTrue trivial
  | .receive => isTrue trivial

/-- The handshake logs hold the accesses in `done` and, beyond them, the given
ones. -/
structure Logs (barMap : Nat) (done aw w ar : List Mmio) (s : St) : Prop where
  aw : s.awLog.map AddrBeat.addr = (writes done ++ aw).map (busAddr barMap)
  w : List.Forall₂ Carries (writes done ++ w) s.wLog
  ar : s.arLog.map AddrBeat.addr = (reads done ++ ar).map (busAddr barMap)
  arLen : ∀ beat ∈ s.arLog, beat.len = 0
  bCount : s.bCount = (writes done).length
  rCount : s.rCount = (reads done).length
  rBeat : s.rBeat = 0
  resp : List.Forall₂ (Answers barMap) done s.qemuResp
  received : s.received ≤ s.qemuResp.length

/-- The write master has nothing on its channels. -/
structure WriteQuiet (mw : WriteMaster) : Prop where
  state : mw.state = .writeIdle
  awvalid : mw.awvalid = false
  wvalid : mw.wvalid = false
  lenCnt : mw.lenCnt = 0

/-- The read master has nothing on its channels. -/
structure ReadQuiet (mr : ReadMaster) : Prop where
  state : mr.state = .readIdle
  arvalid : mr.arvalid = false
  rready : mr.rready = false

/-- The write master presents the data beat of `access`; `aw` holds the access once
its address beat has been accepted. -/
structure WriteBusy (barMap : Nat) (access : Mmio) (aw : List Mmio) (mw : WriteMaster) : Prop where
  state : mw.state = .writeData
  wvalid : mw.wvalid = true
  lenCnt : mw.lenCnt = 0
  aw : mw.awvalid = true ∧ aw = [] ∨ mw.awvalid = false ∧ aw = [access]
  addr : mw.addr = busAddr barMap access
  beat : Carries access ⟨mw.wdata, mw.wstrb, mw.last⟩

/-- The write master waits for the response of a write whose beats were accepted. -/
structure WriteAwait (mw : WriteMaster) : Prop where
  state : mw.state = .writeResponse
  awvalid : mw.awvalid = false
  wvalid : mw.wvalid = false
  lenCnt : mw.lenCnt = 0

/-- The read master works on `access`; `ar` holds the access once its address beat
has been accepted. -/
structure ReadBusy (barMap : Nat) (access : Mmio) (ar : List Mmio) (mr : ReadMaster) : Prop where
  state : mr.state = .readData
  rready : mr.rready = true
  len : mr.len = 0
  ar : mr.arvalid = true ∧ ar = [] ∨ mr.arvalid = false ∧ ar = [access]
  addr : mr.addr = busAddr barMap access

/-- The poll loop presents no request. -/
def NoRequest (poll : PollRegs) : Prop := poll.reqMWvalid = false ∧ poll.reqMRvalid = false

/-- The request registers hold the access that the poll loop presents. -/
def Presents (regs : PollRegs) : Mmio → Prop
  | .read addr _ => regs.reqMRvalid = true ∧ regs.reqMWvalid = false ∧
      regs.addr = addr ∧ regs.len = 0
  | .write addr val size => regs.reqMWvalid = true ∧ regs.reqMRvalid = false ∧
      regs.addr = addr ∧ LanesHold addr val size (regs.strb 0) regs.data

/-- Where the access that QEMU waits for currently is. -/
inductive Stage (barMap : Nat) (done : List Mmio) (s : St) : List Mmio → Prop where
  /-- Nothing is on its way, or a request was taken from the socket while reset was
  asserted and is gone. -/
  | idle {pending : List Mmio} (logs : Logs barMap done [] [] [] s)
      (wQuiet : WriteQuiet s.mw) (rQuiet : ReadQuiet s.mr) (noRequest : NoRequest s.poll)
      (queue : s.qemuReq = []) : Stage barMap done s pending
  | queued {access : Mmio} {stack : Nat → Byte} (logs : Logs barMap done [] [] [] s)
      (wQuiet : WriteQuiet s.mw) (rQuiet : ReadQuiet s.mr) (noRequest : NoRequest s.poll)
      (valid : access.Valid) (queue : s.qemuReq = [access.frame stack]) :
      Stage barMap done s [access]
  | presented {access : Mmio} (logs : Logs barMap done [] [] [] s)
      (wQuiet : WriteQuiet s.mw) (rQuiet : ReadQuiet s.mr)
      (presents : Presents s.poll access) (queue : s.qemuReq = []) :
      Stage barMap done s [access]
  | writeData {access : Mmio} {aw : List Mmio} (isWrite : access.isWrite = true)
      (logs : Logs barMap done aw [] [] s) (busy : WriteBusy barMap access aw s.mw)
      (rQuiet : ReadQuiet s.mr) (noRequest : NoRequest s.poll) (queue : s.qemuReq = [])
      (started : s.started = true) : Stage barMap done s [access]
  | writeResponse {access : Mmio} (isWrite : access.isWrite = true)
      (logs : Logs barMap done [access] [access] [] s) (await : WriteAwait s.mw)
      (rQuiet : ReadQuiet s.mr) (noRequest : NoRequest s.poll) (queue : s.qemuReq = [])
      (started : s.started = true) : Stage barMap done s [access]
  | readData {access : Mmio} {ar : List Mmio} (isRead : access.isWrite = false)
      (logs : Logs barMap done [] [] ar s) (wQuiet : WriteQuiet s.mw)
      (busy : ReadBusy barMap access ar s.mr) (noRequest : NoRequest s.poll)
      (queue : s.qemuReq = []) (started : s.started = true) : Stage barMap done s [access]

/-- The accesses split into the answered ones and at most one that is on its way. -/
def Inv (barMap : Nat) (s : St) : Prop :=
  ∃ done pending, s.issued = done ++ pending ∧ pending.length ≤ 1 ∧ Stage barMap done s pending

@[simp] theorem writes_append (left right : List Mmio) :
    writes (left ++ right) = writes left ++ writes right := List.filter_append ..

@[simp] theorem reads_append (left right : List Mmio) :
    reads (left ++ right) = reads left ++ reads right := List.filter_append ..

theorem writes_single {access : Mmio} (isWrite : access.isWrite = true) :
    writes [access] = [access] := by simp [writes, isWrite]

theorem reads_single {access : Mmio} (isRead : access.isWrite = false) :
    reads [access] = [access] := by simp [reads, isRead]

theorem reads_write {access : Mmio} (isWrite : access.isWrite = true) :
    reads [access] = [] := by simp [reads, isWrite]

theorem writes_read {access : Mmio} (isRead : access.isWrite = false) :
    writes [access] = [] := by simp [writes, isRead]

/-- Answering response frames agree with their accesses on being a write. -/
theorem writes_answered {barMap : Nat} {accesses : List Mmio} {frames : List Resp}
    (answered : List.Forall₂ (Answers barMap) accesses frames) :
    (frames.filter Resp.isWrite).length = (writes accesses).length := by
  induction answered with
  | nil => rfl
  | @cons access frame accesses frames answers _ ih =>
      cases access <;> cases frame <;>
        simp_all [Answers, writes, Mmio.isWrite, Resp.isWrite, List.filter_cons]

namespace Logs

variable {barMap : Nat} {done aw w ar : List Mmio} {s : St}

theorem awLength (logs : Logs barMap done aw w ar s) :
    s.awLog.length = (writes done).length + aw.length := by
  have lengths := congrArg List.length logs.aw
  simpa using lengths

theorem wLength (logs : Logs barMap done aw w ar s) :
    s.wLog.length = (writes done).length + w.length := by
  have lengths := logs.w.length_eq
  simpa using lengths.symm

theorem arLength (logs : Logs barMap done aw w ar s) :
    s.arLog.length = (reads done).length + ar.length := by
  have lengths := congrArg List.length logs.ar
  simpa using lengths

theorem exactlyOnce {pending : List Mmio} (logs : Logs barMap done aw w ar s)
    (issued : s.issued = done ++ pending) (awSub : aw <+: writes pending)
    (wSub : w <+: writes pending) (arSub : ar <+: reads pending) : ExactlyOnce barMap s where
  aw := by
    rw [logs.aw, issued, writes_append]
    exact ((List.prefix_append_right_inj _).mpr awSub).map _
  w := by
    refine ⟨_, ?_, logs.w⟩
    rw [issued, writes_append]
    exact (List.prefix_append_right_inj _).mpr wSub
  ar := by
    rw [logs.ar, issued, reads_append]
    exact ((List.prefix_append_right_inj _).mpr arSub).map _
  answered := by
    rw [writes_answered logs.resp, logs.awLength, logs.wLength]
    omega
  resp := ⟨done, issued ▸ List.prefix_append _ _, logs.resp⟩

end Logs

theorem Inv.exactlyOnce {barMap : Nat} {s : St} (inv : Inv barMap s) : ExactlyOnce barMap s := by
  obtain ⟨done, pending, issued, -, stage⟩ := inv
  cases stage with
  | idle logs => exact logs.exactlyOnce issued (by simp) (by simp) (by simp)
  | queued logs => exact logs.exactlyOnce issued (by simp) (by simp) (by simp)
  | presented logs => exact logs.exactlyOnce issued (by simp) (by simp) (by simp)
  | @writeData access aw isWrite logs busy =>
      refine logs.exactlyOnce issued ?_ (by simp) (by simp)
      rw [writes_single isWrite]
      rcases busy.aw with ⟨-, rfl⟩ | ⟨-, rfl⟩ <;> simp
  | @writeResponse access isWrite logs =>
      have sent : [access] <+: writes [access] := by simp [writes_single isWrite]
      exact logs.exactlyOnce issued sent sent (by simp)
  | @readData access ar isRead logs _ busy =>
      apply logs.exactlyOnce issued (by simp) (by simp)
      rw [reads_single isRead]
      rcases busy.ar with ⟨-, rfl⟩ | ⟨-, rfl⟩ <;> simp

section Edges

variable {barMap : Nat} {done aw w ar : List Mmio} {s : St} {e : Edge}

theorem Logs.noResponse (logs : Logs barMap done aw w ar s) (legal : e.Legal s)
    (empty : aw = [] ∨ w = []) : e.bvalid = false := by
  rw [Bool.eq_false_iff]
  intro bvalid
  have bound := legal.2.1 bvalid
  rw [logs.awLength, logs.wLength, logs.bCount] at bound
  rcases empty with rfl | rfl <;> simp at bound

theorem Logs.noData (logs : Logs barMap done aw w [] s) (legal : e.Legal s) :
    e.rvalid = false := by
  rw [Bool.eq_false_iff]
  intro rvalid
  have bound := (legal.2.2 rvalid).1
  rw [logs.arLength, logs.rCount] at bound
  simp at bound

/-- An edge without a response adds the accepted beats to the logs. -/
theorem Logs.edge (logs : Logs barMap done aw w ar s) (access : Mmio)
    (noB : e.bvalid = false) (noR : e.rvalid = false)
    (awBeat : s.mw.awvalid = true → s.mw.addr = busAddr barMap access)
    (wBeat : s.mw.wvalid = true → Carries access ⟨s.mw.wdata, s.mw.wstrb, s.mw.last⟩)
    (arBeat : s.mr.arvalid = true → s.mr.addr = busAddr barMap access ∧ s.mr.len = 0) :
    Logs barMap done (aw ++ if s.mw.awvalid && e.awready then [access] else [])
      (w ++ if s.mw.wvalid && e.wready then [access] else [])
      (ar ++ if s.mr.arvalid && e.arready then [access] else []) (s.clock barMap e) where
  aw := by
    simp only [St.clock, List.map_append, logs.aw, ← List.append_assoc]
    congr 1
    split <;> simp_all
  w := by
    simp only [St.clock, ← List.append_assoc]
    apply List.rel_append logs.w
    split <;> simp_all
  ar := by
    simp only [St.clock, List.map_append, logs.ar, ← List.append_assoc]
    congr 1
    split <;> simp_all
  arLen := by
    simp only [St.clock, List.mem_append]
    rintro beat (old | new)
    · exact logs.arLen beat old
    · split at new <;> simp_all
  bCount := by simp [St.clock, noB, logs.bCount]
  rCount := by simp [St.clock, noR, logs.rCount]
  rBeat := by simp [St.clock, noR, logs.rBeat]
  resp := by simpa [St.clock, St.responses, noB, noR] using logs.resp
  received := by simpa [St.clock, St.responses, noB, noR] using logs.received

/-- An edge at which both masters are quiet leaves the logs alone. -/
theorem Logs.quietEdge (logs : Logs barMap done [] [] [] s) (legal : e.Legal s)
    (wQuiet : WriteQuiet s.mw) (rQuiet : ReadQuiet s.mr) :
    Logs barMap done [] [] [] (s.clock barMap e) := by
  have noB := logs.noResponse legal (.inl rfl)
  have noR := logs.noData legal
  have next := logs.edge (.read 0 0) noB noR (by simp [wQuiet.awvalid])
    (by simp [wQuiet.wvalid]) (by simp [rQuiet.arvalid])
  simpa [wQuiet.awvalid, wQuiet.wvalid, rQuiet.arvalid] using next

theorem WriteQuiet.reset : WriteQuiet .reset := ⟨rfl, rfl, rfl, rfl⟩

theorem ReadQuiet.reset : ReadQuiet .reset := ⟨rfl, rfl, rfl⟩

theorem WriteQuiet.edge (quiet : WriteQuiet s.mw) (noRequest : s.poll.reqMWvalid = false) :
    WriteQuiet (s.clock barMap e).mw := by
  simp only [St.clock]
  split
  · simpa [WriteMaster.combo, quiet.state, noRequest] using quiet
  · exact .reset

theorem ReadQuiet.edge (quiet : ReadQuiet s.mr) (noRequest : s.poll.reqMRvalid = false) :
    ReadQuiet (s.clock barMap e).mr := by
  simp only [St.clock]
  split
  · simpa [ReadMaster.combo, quiet.state, noRequest] using quiet
  · exact .reset

/-- With an empty socket the poll loop presents nothing after the edge. -/
theorem noRequest_edge (queue : s.qemuReq = []) : NoRequest (s.clock barMap e).poll := by
  simp [St.clock, St.ready, queue, pollLoop, cPoll, NoRequest]

theorem queue_edge (queue : s.qemuReq = []) : (s.clock barMap e).qemuReq = [] := by
  simp [St.clock, queue]

/-- Lanes strobed by `C_poll` for an access of at most eight bytes. -/
theorem lanesHold_poll (addr : Nat) (val : BitVec 64) {size : Nat} (buffer : Nat → Byte)
    {data : Nat → Byte} (small : size ≤ 8) (bytes : ∀ i < 8, data i = leByte val i) :
    LanesHold addr val size (((2 ^ size - 1) % 2 ^ 32 * 2 ^ (addr % busw)) % 2 ^ 32)
      (stage buffer (addr % busw) (bufsz - addr % busw) data) := by
  intro lane inWord
  have fits : (2 ^ size - 1) % 2 ^ 32 = 2 ^ size - 1 := by
    apply Nat.mod_eq_of_lt
    have grow : 2 ^ size ≤ 2 ^ 8 := Nat.pow_le_pow_right (by decide) small
    omega
  have strobes : (((2 ^ size - 1) % 2 ^ 32 * 2 ^ (addr % busw)) % 2 ^ 32).testBit lane =
      decide (addr % busw ≤ lane ∧ lane < addr % busw + size) := by
    rw [fits, Nat.testBit_mod_two_pow, Nat.testBit_mul_two_pow, Nat.testBit_two_pow_sub_one,
      decide_eq_true (by simpa [busw] using inWord), Bool.true_and, ← Bool.decide_and]
    exact decide_eq_decide.mpr (by omega)
  refine ⟨strobes, fun selected => ?_⟩
  rw [strobes, decide_eq_true_eq] at selected
  have inBuffer : lane < addr % busw + (bufsz - addr % busw) := by
    simp only [busw, bufsz] at inWord ⊢
    omega
  simp only [stage, selected.1, inBuffer, and_self, if_true]
  exact bytes _ (by omega)

/-- Polling the frame of an access presents that access. -/
theorem presents_poll {access : Mmio} (regs : PollRegs) (stack : Nat → Byte)
    (valid : access.Valid) :
    Presents (pollLoop regs (some (.qemuReq, access.frame stack))) access := by
  have small := valid.size_le
  cases access with
  | read addr size =>
      simp only [Mmio.size] at small
      have short : ¬ size > busw := by simp only [busw]; omega
      simp [Presents, pollLoop, cPoll, Mmio.frame, mmioReadBar0, barOffsetBar0, short]
  | write addr val size =>
      have bytes : ∀ i < 8, (if i < 8 then leByte val i else stack i) = leByte val i :=
        fun i inValue => if_pos inValue
      have sized : size ≤ 8 := small
      have lanes := lanesHold_poll addr val regs.data sized bytes
      simpa [Presents, pollLoop, cPoll, Mmio.frame, mmioWriteBar0, barOffsetBar0] using lanes

/-- What an edge does to a busy write master when the address beat is not overtaken. -/
theorem WriteBusy.edge {access : Mmio} (busy : WriteBusy barMap access aw s.mw)
    (running : e.rstN = true)
    (order : s.mw.awvalid = true → e.wready = true → e.awready = true) :
    (e.wready = true ∧ WriteAwait (s.clock barMap e).mw ∧
      (aw ++ if s.mw.awvalid && e.awready then [access] else []) = [access]) ∨
    (e.wready = false ∧ WriteBusy barMap access
      (aw ++ if s.mw.awvalid && e.awready then [access] else []) (s.clock barMap e).mw) := by
  obtain ⟨state, wvalid, lenCnt, awCase, addr, beat⟩ := busy
  cases accepted : e.wready with
  | true =>
      refine .inl ⟨rfl, ?_, ?_⟩
      · rcases awCase with ⟨waiting, -⟩ | ⟨taken, -⟩
        · have taken := order waiting accepted
          constructor <;>
            simp [St.clock, running, WriteMaster.combo, state, accepted, taken, lenCnt]
        · constructor <;> cases ready : e.awready <;>
            simp [St.clock, running, WriteMaster.combo, state, accepted, ready, taken, lenCnt]
      · rcases awCase with ⟨waiting, rfl⟩ | ⟨taken, rfl⟩
        · simp [waiting, order waiting accepted]
        · simp [taken]
  | false =>
      refine .inr ⟨rfl, ?_⟩
      rcases awCase with ⟨waiting, rfl⟩ | ⟨taken, rfl⟩ <;> cases ready : e.awready <;>
        constructor <;>
        simp_all [St.clock, WriteMaster.combo]

/-- What an edge does to a busy read master. -/
theorem ReadBusy.edge {access : Mmio} (busy : ReadBusy barMap access ar s.mr)
    (running : e.rstN = true) (noData : e.rvalid = false) :
    ReadBusy barMap access (ar ++ if s.mr.arvalid && e.arready then [access] else [])
      (s.clock barMap e).mr := by
  obtain ⟨state, rready, len, arCase, addr⟩ := busy
  rcases arCase with ⟨waiting, rfl⟩ | ⟨taken, rfl⟩ <;> cases ready : e.arready <;>
    constructor <;>
    simp_all [St.clock, ReadMaster.combo]

/-- The response of a write moves it to the answered accesses. -/
theorem Logs.writeAnswered {access : Mmio} (isWrite : access.isWrite = true)
    (logs : Logs barMap done [access] [access] [] s) (await : WriteAwait s.mw)
    (rQuiet : ReadQuiet s.mr) (noR : e.rvalid = false) (answered : e.bvalid = true) :
    Logs barMap (done ++ [access]) [] [] [] (s.clock barMap e) where
  aw := by simp [St.clock, await.awvalid, logs.aw, writes_single isWrite]
  w := by simpa [St.clock, await.wvalid, writes_single isWrite] using logs.w
  ar := by simpa [St.clock, rQuiet.arvalid, reads_write isWrite] using logs.ar
  arLen := by simpa [St.clock, rQuiet.arvalid] using logs.arLen
  bCount := by simp [St.clock, answered, logs.bCount, writes_single isWrite]
  rCount := by simp [St.clock, noR, logs.rCount, reads_write isWrite]
  rBeat := by simp [St.clock, noR, logs.rBeat]
  resp := by
    have answers : Answers barMap access .write := by
      cases access <;> simp_all [Mmio.isWrite, Answers]
    simpa [St.clock, St.responses, answered, noR] using
      List.rel_append logs.resp (List.Forall₂.cons answers .nil)
  received := by
    have before := logs.received
    simp only [St.clock, St.responses, answered, noR]
    simp
    omega

/-- The data of a read moves it to the answered accesses. -/
theorem Logs.readAnswered {access : Mmio} (isRead : access.isWrite = false)
    (logs : Logs barMap done [] [] [access] s) (wQuiet : WriteQuiet s.mw)
    (busy : ReadBusy barMap access [access] s.mr) (noB : e.bvalid = false)
    (answered : e.rvalid = true) (last : e.rlast = true) :
    Logs barMap (done ++ [access]) [] [] [] (s.clock barMap e) where
  aw := by simp [St.clock, wQuiet.awvalid, logs.aw, writes_read isRead]
  w := by simpa [St.clock, wQuiet.wvalid, writes_read isRead] using logs.w
  ar := by
    have taken : s.mr.arvalid = false := by simpa using busy.ar
    simpa [St.clock, taken, reads_single isRead] using logs.ar
  arLen := by
    have taken : s.mr.arvalid = false := by simpa using busy.ar
    simpa [St.clock, taken] using logs.arLen
  bCount := by simp [St.clock, noB, logs.bCount, writes_read isRead]
  rCount := by simp [St.clock, answered, last, busy.rready, logs.rCount, reads_single isRead]
  rBeat := by simp [St.clock, answered, last, busy.rready]
  resp := by
    simp only [St.clock, St.responses, noB, answered, last, busy.state]
    apply List.rel_append logs.resp
    have addr : (s.mr.combo barMap s.poll e.arready true true e.rdata).addr =
        busAddr barMap access := by
      cases e.arready <;> simp [ReadMaster.combo, busy.state, busy.addr]
    cases access <;> simp_all [Mmio.isWrite, Answers, cRespRead]
  received := by
    have before := logs.received
    simp only [St.clock, St.responses, noB, answered, last, busy.state]
    simp
    omega

end Edges

/-! ## Steps of the system -/

section Steps

variable {barMap : Nat} {done pending : List Mmio} {s : St} {e : Edge}

/-- The stage after an edge, with the access possibly answered at that edge. -/
def Advances (barMap : Nat) (done pending : List Mmio) (next : St) : Prop :=
  ∃ done' pending', done ++ pending = done' ++ pending' ∧ pending'.length ≤ 1 ∧
    Stage barMap done' next pending'

/-- A presented request is taken up by its master, unless reset is asserted. -/
theorem presented_clock {access : Mmio} (logs : Logs barMap done [] [] [] s)
    (wQuiet : WriteQuiet s.mw) (rQuiet : ReadQuiet s.mr) (presents : Presents s.poll access)
    (queue : s.qemuReq = []) (legal : e.Legal s) :
    Stage barMap done (s.clock barMap e) [access] := by
  have next := logs.quietEdge legal wQuiet rQuiet
  have noRequest : NoRequest (s.clock barMap e).poll := noRequest_edge queue
  have drained : (s.clock barMap e).qemuReq = [] := queue_edge queue
  cases running : e.rstN with
  | false =>
      refine .idle next ?_ ?_ noRequest drained
      · simpa [St.clock, running] using WriteQuiet.reset
      · simpa [St.clock, running] using ReadQuiet.reset
  | true =>
      have started : (s.clock barMap e).started = true := by simp [St.clock, running]
      cases access with
      | read addr size =>
          obtain ⟨valid, noWrite, addrEq, lenEq⟩ := presents
          refine .readData rfl next (wQuiet.edge noWrite) ?_ noRequest drained started
          constructor <;>
            simp [St.clock, running, ReadMaster.combo, rQuiet.state, valid, lenEq, addrEq, busAddr,
              Mmio.addr]
      | write addr val size =>
          obtain ⟨valid, noRead, addrEq, lanes⟩ := presents
          refine .writeData rfl next ?_ (rQuiet.edge noRead) noRequest drained started
          have beat : LanesHold addr val size (s.poll.strb 0 % 2 ^ busw)
              (fun i => if i < busw then s.poll.data i else s.mw.wdata i) := by
            intro lane inWord
            simpa [Nat.testBit_mod_two_pow, inWord] using lanes lane inWord
          constructor <;>
            simp_all [St.clock, WriteMaster.combo, wQuiet.state, wQuiet.lenCnt, busAddr, Mmio.addr,
              Carries]

theorem Stage.clock (stage : Stage barMap done s pending) (short : pending.length ≤ 1)
    (legal : e.Legal s) (order : AddressFirst s (.clock e)) :
    Advances barMap done pending (s.clock barMap e) := by
  cases stage with
  | idle logs wQuiet rQuiet noRequest queue =>
      exact ⟨done, pending, rfl, short, .idle (logs.quietEdge legal wQuiet rQuiet)
        (wQuiet.edge noRequest.1) (rQuiet.edge noRequest.2) (noRequest_edge queue)
        (queue_edge queue)⟩
  | @queued access stack logs wQuiet rQuiet noRequest valid queue =>
      have next := logs.quietEdge legal wQuiet rQuiet
      have wNext : WriteQuiet (s.clock barMap e).mw := wQuiet.edge noRequest.1
      have rNext : ReadQuiet (s.clock barMap e).mr := rQuiet.edge noRequest.2
      refine ⟨done, [access], rfl, by simp, ?_⟩
      cases seen : e.delivered with
      | false =>
          exact .queued next wNext rNext
            (by simp [St.clock, St.ready, seen, pollLoop, cPoll, NoRequest]) valid
            (by simpa [St.clock, seen] using queue)
      | true =>
          exact .presented next wNext rNext
            (by simpa [St.clock, St.ready, seen, queue] using presents_poll s.poll stack valid)
            (by simp [St.clock, seen, queue])
  | presented logs wQuiet rQuiet presents queue =>
      exact ⟨done, _, rfl, by simp, presented_clock logs wQuiet rQuiet presents queue legal⟩
  | @writeData access aw isWrite logs busy rQuiet noRequest queue started =>
      have running := legal.1 started
      have noB := logs.noResponse legal (.inr rfl)
      have noR := logs.noData legal
      have next := logs.edge access noB noR (fun _ => busy.addr) (fun _ => busy.beat)
        (by simp [rQuiet.arvalid])
      have awake : (s.clock barMap e).started = true := by simp [St.clock, started]
      refine ⟨done, [access], rfl, by simp, ?_⟩
      rcases busy.edge running (order busy.state) with ⟨accepted, await, all⟩ | ⟨waiting, still⟩
      · refine .writeResponse isWrite ?_ await (rQuiet.edge noRequest.2) (noRequest_edge queue)
          (queue_edge queue) awake
        rw [all] at next
        simpa [accepted, busy.wvalid, rQuiet.arvalid] using next
      · refine .writeData isWrite ?_ still (rQuiet.edge noRequest.2) (noRequest_edge queue)
          (queue_edge queue) awake
        simpa [waiting, rQuiet.arvalid] using next
  | @writeResponse access isWrite logs await rQuiet noRequest queue started =>
      have running := legal.1 started
      have noR := logs.noData legal
      cases answered : e.bvalid with
      | true =>
          refine ⟨done ++ [access], [], by simp, by simp, .idle
            (logs.writeAnswered isWrite await rQuiet noR answered) ?_ (rQuiet.edge noRequest.2)
            (noRequest_edge queue) (queue_edge queue)⟩
          constructor <;>
            simp [St.clock, running, WriteMaster.combo, await.state, answered, await.awvalid,
              await.lenCnt]
      | false =>
          have next := logs.edge access answered noR (by simp [await.awvalid])
            (by simp [await.wvalid]) (by simp [rQuiet.arvalid])
          refine ⟨done, [access], rfl, by simp, .writeResponse isWrite
            (by simpa [await.awvalid, await.wvalid, rQuiet.arvalid] using next) ?_
            (rQuiet.edge noRequest.2) (noRequest_edge queue) (queue_edge queue)
            (by simp [St.clock, started])⟩
          constructor <;>
            simp [St.clock, running, WriteMaster.combo, await.state, answered, await.awvalid,
              await.lenCnt]
  | @readData access ar isRead logs wQuiet busy noRequest queue started =>
      have running := legal.1 started
      have noB := logs.noResponse legal (.inl rfl)
      cases answered : e.rvalid with
      | true =>
          have bound := legal.2.2 answered
          have taken : ar = [access] := by
            rcases busy.ar with ⟨-, rfl⟩ | ⟨-, equal⟩
            · rw [logs.arLength, logs.rCount] at bound
              simp at bound
            · exact equal
          subst taken
          have last : e.rlast = true := by
            apply bound.2.mpr
            rw [logs.rBeat, List.getElem?_eq_getElem bound.1, Option.map_some,
              logs.arLen _ (List.getElem_mem bound.1)]
          refine ⟨done ++ [access], [], by simp, by simp, .idle
            (logs.readAnswered isRead wQuiet busy noB answered last) (wQuiet.edge noRequest.1) ?_
            (noRequest_edge queue) (queue_edge queue)⟩
          have noAddr : s.mr.arvalid = false := by simpa using busy.ar
          constructor <;> cases ready : e.arready <;>
            simp [St.clock, running, ReadMaster.combo, busy.state, answered, last, ready, noAddr]
      | false =>
          have next := logs.edge access noB answered (by simp [wQuiet.awvalid])
            (by simp [wQuiet.wvalid]) (fun _ => ⟨busy.addr, busy.len⟩)
          exact ⟨done, [access], rfl, by simp, .readData isRead
            (by simpa [wQuiet.awvalid, wQuiet.wvalid] using next) (wQuiet.edge noRequest.1)
            (busy.edge running answered) (noRequest_edge queue) (queue_edge queue)
            (by simp [St.clock, started])⟩

theorem Stage.logs (stage : Stage barMap done s pending) :
    ∃ aw w ar, Logs barMap done aw w ar s := by
  cases stage with
  | idle logs | queued logs | presented logs => exact ⟨_, _, _, logs⟩
  | writeData _ logs | writeResponse _ logs | readData _ logs => exact ⟨_, _, _, logs⟩

theorem Stage.receive (stage : Stage barMap done s pending)
    (available : s.received < s.qemuResp.length) :
    Stage barMap done (s.apply barMap .receive) pending := by
  have keep : ∀ {aw w ar : List Mmio}, Logs barMap done aw w ar s →
      Logs barMap done aw w ar (s.apply barMap .receive) := fun logs =>
    ⟨logs.aw, logs.w, logs.ar, logs.arLen, logs.bCount, logs.rCount, logs.rBeat, logs.resp,
      available⟩
  cases stage with
  | idle logs wQuiet rQuiet noRequest queue =>
      exact .idle (keep logs) wQuiet rQuiet noRequest queue
  | queued logs wQuiet rQuiet noRequest valid queue =>
      exact .queued (keep logs) wQuiet rQuiet noRequest valid queue
  | presented logs wQuiet rQuiet presents queue =>
      exact .presented (keep logs) wQuiet rQuiet presents queue
  | writeData isWrite logs busy rQuiet noRequest queue started =>
      exact .writeData isWrite (keep logs) busy rQuiet noRequest queue started
  | writeResponse isWrite logs await rQuiet noRequest queue started =>
      exact .writeResponse isWrite (keep logs) await rQuiet noRequest queue started
  | readData isRead logs wQuiet busy noRequest queue started =>
      exact .readData isRead (keep logs) wQuiet busy noRequest queue started

/-- QEMU issues an access only when every earlier one has been answered. -/
theorem Stage.issue {access : Mmio} {stack : Nat → Byte} (stage : Stage barMap done s pending)
    (issued : s.issued = done ++ pending) (valid : access.Valid)
    (unblocked : s.received = s.issued.length) :
    Stage barMap done (s.apply barMap (.issue access stack)) [access] ∧ pending = [] := by
  have answered : pending = [] := by
    obtain ⟨aw, w, ar, logs⟩ := stage.logs
    have bound := logs.received
    rw [unblocked, issued, ← logs.resp.length_eq, List.length_append] at bound
    exact List.eq_nil_of_length_eq_zero (by omega)
  subst answered
  cases stage with
  | idle logs wQuiet rQuiet noRequest queue =>
      have filled : (s.apply barMap (.issue access stack)).qemuReq = [access.frame stack] := by
        simp [St.apply, queue]
      refine ⟨.queued ?_ wQuiet rQuiet noRequest valid filled, rfl⟩
      exact ⟨logs.aw, logs.w, logs.ar, logs.arLen, logs.bCount, logs.rCount, logs.rBeat, logs.resp,
        logs.received⟩

theorem Inv.step {label : Label} {next : St} (inv : Inv barMap s) (order : AddressFirst s label)
    (taken : (bridge barMap).step s label next) : Inv barMap next := by
  obtain ⟨done, pending, issued, short, stage⟩ := inv
  obtain ⟨enabled, rfl⟩ := taken
  cases label with
  | issue access stack =>
      obtain ⟨queued, rfl⟩ := stage.issue issued enabled.1 enabled.2
      exact ⟨done, [access], by simp [St.apply, issued], by simp, queued⟩
  | receive => exact ⟨done, pending, issued, short, stage.receive enabled⟩
  | clock e =>
      obtain ⟨done', pending', split, short', advanced⟩ := stage.clock short enabled order
      exact ⟨done', pending', issued.trans split, short', advanced⟩

end Steps

theorem Inv.initial (barMap : Nat) : Inv barMap .initial := by
  refine ⟨[], [], rfl, by simp, .idle ?_ .reset .reset ⟨rfl, rfl⟩ rfl⟩
  exact ⟨rfl, .nil, rfl, by simp [St.initial], rfl, rfl, rfl, .nil, Nat.zero_le _⟩

/-- Runs a list of steps, each of which has to be enabled and allowed. -/
def run (barMap : Nat) (allowed : St → Label → Prop) [∀ s label, Decidable (allowed s label)]
    (s : St) : List Label → Option St
  | [] => some s
  | label :: labels =>
      if label.Enabled s ∧ allowed s label then run barMap allowed (s.apply barMap label) labels
      else none

theorem reach_of_run {barMap : Nat} {allowed : St → Label → Prop}
    [∀ s label, Decidable (allowed s label)] {labels : List Label} {s final : St}
    (reach : (bridge barMap).Reach allowed s) (ran : run barMap allowed s labels = some final) :
    (bridge barMap).Reach allowed final := by
  induction labels generalizing s with
  | nil => exact Option.some.inj ran ▸ reach
  | cons label labels ih =>
      simp only [run] at ran
      split at ran
      next taken => exact ih (.step reach taken.2 ⟨taken.1, rfl⟩) ran
      next => cases ran

/-- As long as no data beat overtakes its address beat, every reachable state of the
bridge has delivered the accesses exactly once and in order. -/
theorem mmio_exactly_once (barMap : Nat) {s : St}
    (reach : (bridge barMap).Reach AddressFirst s) : ExactlyOnce barMap s := by
  refine Inv.exactlyOnce (reach.invariant ?_ ?_)
  · rintro _ rfl
    exact .initial barMap
  · intro state label next inv order taken
    exact inv.step order taken

/-- An edge outside reset with the given pins of the write channels. -/
def writeEdge (delivered awready wready bvalid : Bool) : Label :=
  .clock ⟨true, delivered, awready, wready, bvalid, false, false, false, fun _ => 0⟩

/-- An edge outside reset with the given pins of the read channels. -/
def readEdge (delivered arready rvalid : Bool) (rdata : Nat → Byte) : Label :=
  .clock ⟨true, delivered, false, false, false, arready, rvalid, rvalid, rdata⟩

/-- A write whose address is accepted before its data, a read, and a write both of whose beats
are accepted at the same edge, with a late response. -/
def orderedAccesses : List Label :=
  [.issue (.write 16 0xAB 4) fun _ => 0, writeEdge true false false false,
    writeEdge false false false false, writeEdge false true false false,
    writeEdge false false true false, writeEdge false false false true, .receive,
    .issue (.read 32 4) fun _ => 0, readEdge true false false fun _ => 0,
    readEdge false false false fun _ => 0, readEdge false true false fun _ => 0,
    readEdge false false true fun _ => 7, .receive,
    .issue (.write 20 0xCD 4) fun _ => 0, writeEdge true false false false,
    writeEdge false false false false, writeEdge false true true false,
    writeEdge false false false false, writeEdge false false false true, .receive]

/-- The addresses of the accesses that have been accepted, and the number of responses. -/
def St.accepted (s : St) : List Nat × List Nat × Nat :=
  (s.awLog.map AddrBeat.addr, s.arLog.map AddrBeat.addr, s.received)

theorem mmio_exactly_once_three :
    ∃ s, run 0 AddressFirst .initial orderedAccesses = some s ∧
      s.accepted = ([16, 20], [32], 3) ∧ ExactlyOnce 0 s := by
  have ran : (run 0 AddressFirst .initial orderedAccesses).map St.accepted =
      some ([16, 20], [32], 3) := by decide
  obtain ⟨s, final, logged⟩ := Option.map_eq_some_iff.mp ran
  exact ⟨s, final, logged, mmio_exactly_once 0 (reach_of_run (.init rfl) final)⟩

/-- A write to a slave that accepts the data beat first and then keeps
`awready` high. -/
def overtakingWrite : List Label :=
  [.issue (.write 16 0xAB 4) fun _ => 0, writeEdge true false false false,
    writeEdge false false false false, writeEdge false false true false,
    writeEdge false true false false, writeEdge false true false false]

theorem mmio_write_address_repeated :
    ∃ s, (bridge 0).Reachable s ∧ ¬ ExactlyOnce 0 s := by
  have ran : (run 0 (fun _ _ => True) .initial overtakingWrite).map
      (fun s => (s.awLog.map AddrBeat.addr, s.issued)) =
        some ([16, 16], [.write 16 0xAB 4]) := by decide
  obtain ⟨s, final, logged⟩ := Option.map_eq_some_iff.mp ran
  refine ⟨s, reach_of_run (.init rfl) final, fun once => ?_⟩
  have order := once.aw
  rw [(Prod.mk.inj logged).1, (Prod.mk.inj logged).2] at order
  exact absurd order (by decide)

end OpaeXilinx.Cosim
