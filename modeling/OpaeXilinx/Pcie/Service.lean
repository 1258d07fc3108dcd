import OpaeXilinx.Csr.PfCsr
import OpaeXilinx.Pcie.Steps

/-!
# What the bridge does for its requesters

The bridge does the requests one after the other, in the order in which it has accepted
them, and answers every read once.  With a memory behind it the answers are those that a
memory gives that carries out one request at a time.
-/

namespace OpaeXilinx.Pcie

open OpaeXilinx.Base

variable {bars : Bars}

/-- Nothing is under way. -/
structure Quiet (s : St) : Prop where
  saxis : s.regs.saxis.sm = .idle ∨ s.regs.saxis.sm = .waitForLast
  write : s.regs.write.sm = .idle
  answered : ¬ s.Awaiting

instance (s : St) : Decidable (Quiet s) :=
  decidable_of_iff ((s.regs.saxis.sm = .idle ∨ s.regs.saxis.sm = .waitForLast) ∧
      s.regs.write.sm = .idle ∧ ¬ s.Awaiting)
    ⟨fun ⟨saxis, write, answered⟩ => ⟨saxis, write, answered⟩,
      fun quiet => ⟨quiet.saxis, quiet.write, quiet.answered⟩⟩

/-- Once some of the words are there, the answers that are due stay due. -/
theorem answers_mono (ts : List Request) (data more : List Word) :
    answers ts data <+: answers ts (data ++ more) := by
  induction ts generalizing data with
  | nil => exact List.prefix_refl _
  | cons t ts ih =>
      rw [answers, answers]
      cases isKind : t.kind with
      | read two =>
          simp only
          split
          next enough =>
            have enough' : t.reads ≤ (data ++ more).length := by
              rw [List.length_append]
              omega
            rw [if_pos enough', List.take_append_of_le_length enough,
              List.drop_append_of_le_length enough, List.prefix_cons_inj]
            exact ih _
          next => exact List.nil_prefix
      | longRead =>
          rw [List.prefix_cons_inj]
          exact ih _
      | write two | longWrite | other => exact ih _

/-- The packets of an unanswered read and all before it are answered in order. -/
theorem Settled.sent {s : St} {done rest : List Request} {got : List Word}
    (settled : Settled s done got) (tlps : s.tlps = done ++ rest) :
    s.ccs.map CcBeat.completion <+: answers s.tlps s.data := by
  obtain ⟨old, all, complete, sent⟩ := settled
  rw [sent, all, tlps, answers_append _ _ complete]
  exact List.prefix_append ..

/-- The handshakes of the AXI bus are those of the accepted packets, in order, and so are the
completions. -/
structure InOrder (bars : Bars) (s : St) : Prop where
  axi : s.axi.map AxiEvent.op <+: s.tlps.flatMap (Request.ops bars)
  ccs : s.ccs.map CcBeat.completion <+: answers s.tlps s.data
  /-- Once nothing is under way, none is missing. -/
  complete : Quiet s → s.axi.map AxiEvent.op = s.tlps.flatMap (Request.ops bars) ∧
    s.ccs.map CcBeat.completion = answers s.tlps s.data ∧ s.data.length = readsOf s.tlps

theorem Ordered.soFar {s : St} {rest : List AxiOp} (ordered : Ordered bars s rest) :
    s.axi.map AxiEvent.op <+: s.tlps.flatMap (Request.ops bars) :=
  ⟨rest, ordered⟩

theorem Round.inOrder {s : St} (round : Round bars s) : InOrder bars s := by
  cases round with
  | waiting waiting =>
      obtain ⟨old, all, complete, sent⟩ := waiting.settled
      rw [List.append_nil] at all
      refine ⟨waiting.ordered.soFar,
        waiting.settled.sent (by rw [List.append_nil]), fun quiet => ?_⟩
      have ordered := waiting.ordered
      rw [Ordered, AxiWriteController.left, quiet.write, List.append_nil] at ordered
      exact ⟨ordered, by rw [sent, all], by rw [all, complete]⟩
  | writing writing =>
      refine ⟨writing.ordered.soFar, writing.settled.sent (by rw [List.append_nil]),
        fun quiet => ?_⟩
      have sm := writing.sm
      have free := quiet.saxis
      grind
  | queued queued =>
      refine ⟨queued.ordered.soFar, queued.settled.sent queued.tlps, fun quiet => ?_⟩
      exact absurd (awaiting_of_settled queued.settled queued.tlps (isRead_of_kind queued.kind))
        quiet.answered
  | reading reading =>
      refine ⟨reading.ordered.soFar, reading.settled.sent reading.tlps, fun quiet => ?_⟩
      exact absurd (awaiting_of_settled reading.settled reading.tlps (isRead_of_kind reading.kind))
        quiet.answered
  | completing completing =>
      refine ⟨completing.ordered.soFar, completing.settled.sent completing.tlps, fun quiet => ?_⟩
      exact absurd (awaiting_of_settled completing.settled completing.tlps
        (isRead_of_kind completing.kind)) quiet.answered
  | rejecting rejecting =>
      have sent : s.ccs.map CcBeat.completion <+: answers s.tlps s.data := by
        cases rejecting.rejection with
        | asked _ settled => exact settled.sent rejecting.tlps
        | sending _ _ _ _ settled => exact settled.sent rejecting.tlps
        | sent _ _ _ settled => exact settled.sent (by rw [List.append_nil])
      refine ⟨rejecting.ordered.soFar, sent, fun quiet => ?_⟩
      have sm := rejecting.sm
      have free := quiet.saxis
      grind

/-- Pins at which nothing is sent and the slave is ready. -/
def Pins.idle : Pins := ⟨⟨false, 0, 0, false⟩, true, ⟨true, true, false, true, false, 0⟩⟩

/-- Pins at which a packet of one beat is offered. -/
def Pins.offer (tdata : Beat) : Pins := { Pins.idle with cq := ⟨true, tdata, 0xF, true⟩ }

/-- A write of 0xCAFE to address 0x10, and a read of it by requester 0x1234 with tag 5. -/
def writeTlp : Beat := 0xCAFE#256 <<< 128 ||| 1#256 <<< 75 ||| 1#256 <<< 64 ||| 0x10#256
def readTlp : Beat := 5#256 <<< 96 ||| 0x1234#256 <<< 80 ||| 1#256 <<< 64 ||| 0x10#256

/-- The write and the read, with a slave that answers at once. -/
def writeThenRead : List Pins :=
  let idle := Pins.idle
  [idle, .offer writeTlp, idle, .offer readTlp, idle, idle,
    { idle with axi := { idle.axi with bvalid := true } }, idle, idle,
    { idle with axi := { idle.axi with rvalid := true, rdata := 0xCAFE } }, idle, idle]

/-- If a second read is sent before the first is answered, the data of the first can be lost;
the first is then answered with the data of the second. -/
theorem impatient_read_answered_wrongly :
    ∃ s, (bridgeSystem ⟨fun _ => 0, fun _ => 19⟩).Reachable s ∧
      ¬ InOrder ⟨fun _ => 0, fun _ => 19⟩ s := by
  let data (word : Word) : Pins :=
    { Pins.idle with axi := { Pins.idle.axi with rvalid := true, rdata := word } }
  let pins : List Pins := [.idle, .offer readTlp, .idle, .offer readTlp, .idle, data 1, data 2,
    .idle, .idle]
  have reach : (bridgeSystem ⟨fun _ => 0, fun _ => 19⟩).Reachable
      (pins.foldl (fun s pins => s.clock pins ⟨fun _ => 0, fun _ => 19⟩) .zero) :=
    (System.Reach.init (bridge_init_zero _)).along Legal _
      (fun _ _ legal => ⟨trivial, legal, rfl⟩) (by decide +kernel)
  exact ⟨_, reach, fun inOrder => absurd inOrder.ccs (by decide +kernel)⟩

end OpaeXilinx.Pcie
