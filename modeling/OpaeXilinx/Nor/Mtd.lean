import OpaeXilinx.Nor.Keeps
import OpaeXilinx.Nor.Storage

/-!
# The device of the MTD layer

Over a faithful controller, the requests of the framework are those of a plain NOR memory: one after
the other they have its effects and its answers, up to the first one that fails.
-/

namespace OpaeXilinx.Nor

open OpaeXilinx.Base
open OpaeXilinx.Base.NorMemory (programmed erased contents)

inductive Request where
  | read (offset len : Nat)
  | write (addr : Nat) (buf : List Byte)
  | erase (addr len : Nat)
  deriving DecidableEq, Repr

namespace Request

/-- What a request makes of the memory. -/
def effect (nor : SpiNor) (mem : Nat → Byte) : Request → Nat → Byte
  | .read _ _ => mem
  | .write addr buf => programmed (· &&& ·) mem addr buf
  | .erase addr len => erased 0xFF mem (nor.sectorStart addr) len

/-- What a request puts into the buffer of the caller. -/
def answer (mem : Nat → Byte) : Request → List Byte
  | .read offset len => contents mem offset len
  | .write _ _ => []
  | .erase _ _ => []

/-- What a request that fails may leave: part of the data, or part of the sectors. -/
def Stopped (nor : SpiNor) (mem mem' : Nat → Byte) : Request → Prop
  | .read _ _ => mem' = mem
  | .write addr buf => ∃ count ≤ buf.length, mem' = programmed (· &&& ·) mem addr (buf.take count)
  | .erase addr len => ∃ count ≤ len / nor.erasesize,
      mem' = erased 0xFF mem (nor.sectorStart addr) (count * nor.erasesize)

/-- The request lies within the chip, and nothing that it changes is protected. -/
def Allowed (nor : SpiNor) (sr : Byte) : Request → Prop
  | .read offset len => offset + len ≤ nor.size
  | .write addr buf => addr + buf.length ≤ nor.size ∧ nor.Free sr addr buf.length
  | .erase addr len => addr + len ≤ nor.size ∧ nor.Free sr (nor.sectorStart addr) len

/-- The effect of one request after the other. -/
def effects (nor : SpiNor) (mem : Nat → Byte) : List Request → Nat → Byte
  | [] => mem
  | request :: rest => effects nor (request.effect nor mem) rest

/-- The answers to one request after the other. -/
def answers (nor : SpiNor) (mem : Nat → Byte) : List Request → List (List Byte)
  | [] => []
  | request :: rest => request.answer mem :: answers nor (request.effect nor mem) rest

end Request

section Functions

variable (dev : Device) (nor : SpiNor)

/-- A request to the driver, with what it puts into the buffer. -/
def perform : Request → Driver (List Byte)
  | .read offset len => do
      let (ret, buf) ← spiNorRead dev nor offset len
      conclude ret
      pure buf
  | .write addr buf => do
      let (ret, _) ← spiNorWrite dev nor addr buf
      conclude ret
      pure []
  | .erase addr len => do
      spiNorErase dev nor addr len
      pure []

/-- One request after the other, up to the first one that fails. -/
def performAll : List Request → Driver (List (List Byte))
  | [] => pure []
  | request :: rest => do
      let buf ← perform dev nor request
      let bufs ← performAll rest
      pure (buf :: bufs)

end Functions

variable {nor : SpiNor} {finished : List Event → Bool} {start : Board} {dev : Device}
  {mem : Nat → Byte} {sr : Byte}

theorem conclude_ok {out : Except Errno Unit} {P Q : Chip → Prop} {R : Chip → Prop}
    (ok : ∀ chip, P chip → out = .ok () → Q chip) (error : ∀ chip, P chip → R chip) :
    Triple (Idle nor finished start P) (conclude out) (fun _ => Idle nor finished start Q)
      (fun _ => Idle nor finished start R) := by
  apply Triple.conclude
  · exact fun _ same _ idle => Idle.imp idle fun chip holds => ok chip holds same
  · exact fun _ _ _ idle => Idle.imp idle error

/-- A request has the effect and the answer of the memory, or it stops somewhere. -/
theorem perform_spec (faithful : Faithful dev nor finished start) (supported : nor.Supported)
    (mem : Nat → Byte) {request : Request} (allowed : request.Allowed nor sr) :
    Triple (Idle nor finished start (Quiet mem sr)) (perform dev nor request)
      (fun buf => Idle nor finished start fun chip =>
        Quiet (request.effect nor mem) sr chip ∧ buf = request.answer mem)
      (fun _ => Idle nor finished start fun chip =>
        chip.sr = sr ∧ request.Stopped nor mem chip.mem) := by
  cases request with
  | read offset len =>
      apply Triple.bind (fun out => Idle nor finished start fun chip =>
        Quiet mem sr chip ∧ Fetched mem offset len out.1 out.2)
      · apply (spiNorRead_spec faithful supported allowed).consequence (fun _ idle => idle)
        · exact fun _ _ idle => idle
        · exact fun _ _ lost => Lost.idle lost
      · intro out
        apply Triple.bind (fun _ => Idle nor finished start fun chip =>
          Quiet mem sr chip ∧ out.2 = contents mem offset len)
        · apply conclude_ok
          · intro chip ⟨quiet, fetched⟩ same
            exact ⟨quiet, fetched.done same ▸ fetched.same⟩
          · exact fun chip holds => ⟨holds.1.sr, holds.1.mem⟩
        · exact fun _ => Triple.pure fun _ idle => idle
  | write addr buf =>
      apply Triple.bind (fun out =>
        Idle nor finished start (Written nor mem sr addr buf out.1 out.2))
      · apply locked_spec
        exact writePages_spec faithful supported mem allowed.1 allowed.2 buf.length 0
          (Nat.zero_add _)
      · intro out
        apply Triple.bind (fun _ => Idle nor finished start
          (Quiet (programmed (· &&& ·) mem addr buf) sr))
        · apply conclude_ok
          · intro chip written same
            obtain ⟨all, calm⟩ := written.done same
            obtain ⟨count, low, _, high, here⟩ := written.mem
            have whole : count = buf.length := by omega
            rw [whole, List.take_length] at here
            exact ⟨⟨here, written.sr⟩, calm⟩
          · intro chip written
            obtain ⟨count, _, _, high, here⟩ := written.mem
            exact ⟨written.sr, count, high, here⟩
        · exact fun _ => Triple.pure fun _ idle => Idle.imp idle fun _ quiet => ⟨quiet, rfl⟩
  | erase addr len =>
      apply Triple.bind (fun _ => Idle nor finished start
        (Quiet (erased 0xFF mem (nor.sectorStart addr) len) sr))
      · apply (spiNorErase_spec faithful supported allowed.1 allowed.2).consequence
          (fun _ idle => idle)
        · exact fun _ _ idle => idle
        · intro _ history idle
          apply Idle.imp idle
          rintro chip ⟨count, few, stored⟩
          exact ⟨stored.sr, count, few, stored.mem⟩
      · exact fun _ => Triple.pure fun _ idle => Idle.imp idle fun _ quiet => ⟨quiet, rfl⟩

theorem perform_lost (faithful : Faithful dev nor finished start) (supported : nor.Supported)
    (request : Request) :
    Maintains (Idle nor finished start fun _ => False) (perform dev nor request) := by
  cases request with
  | read offset len =>
      apply Maintains.bind (kept_false.spiNorRead faithful supported offset len)
      intro out
      exact Maintains.bind (Maintains.conclude _) fun _ => Maintains.pure _
  | write addr buf =>
      apply Maintains.bind (kept_false.spiNorWrite faithful supported addr buf)
      intro out
      exact Maintains.bind (Maintains.conclude _) fun _ => Maintains.pure _
  | erase addr len =>
      apply Maintains.bind (kept_false.spiNorErase faithful supported addr len)
      exact fun _ => Maintains.pure _

theorem performAll_lost (faithful : Faithful dev nor finished start) (supported : nor.Supported)
    (requests : List Request) :
    Maintains (Idle nor finished start fun _ => False) (performAll dev nor requests) := by
  induction requests with
  | nil => exact Maintains.pure _
  | cons request rest ih =>
      apply Maintains.bind (perform_lost faithful supported request)
      intro buf
      exact Maintains.bind ih fun _ => Maintains.pure _

/-- Where a sequence of requests has stopped: some of them are done, and the next one may have left
part of its effect. -/
def StoppedIn (nor : SpiNor) (mem mem' : Nat → Byte) (requests : List Request) : Prop :=
  ∃ done next later, requests = done ++ next :: later ∧
    next.Stopped nor (Request.effects nor mem done) mem'

/-- Over a faithful controller the driver is the NOR memory: requests within the chip have the
effects and the answers of the memory, in their order, up to one that fails. -/
theorem performAll_spec (faithful : Faithful dev nor finished start)
    (supported : nor.Supported) (mem : Nat → Byte) (requests : List Request)
    (allowed : ∀ request ∈ requests, request.Allowed nor sr) :
    Triple (Idle nor finished start (Quiet mem sr)) (performAll dev nor requests)
      (fun bufs => Idle nor finished start fun chip =>
        Quiet (Request.effects nor mem requests) sr chip ∧
          bufs = Request.answers nor mem requests)
      (fun _ => Idle nor finished start fun chip =>
        chip.sr = sr ∧ StoppedIn nor mem chip.mem requests) := by
  induction requests generalizing mem with
  | nil => exact Triple.pure fun _ idle => Idle.imp idle fun _ quiet => ⟨quiet, rfl⟩
  | cons request rest ih =>
      have first := perform_spec faithful supported mem (allowed request (.head rest))
      have later := ih (request.effect nor mem) fun other member =>
        allowed other (.tail request member)
      apply Triple.bind (fun buf => Idle nor finished start fun chip =>
        Quiet (request.effect nor mem) sr chip ∧ buf = request.answer mem)
      · apply first.consequence (fun _ idle => idle) (fun _ _ idle => idle)
        intro _ history idle
        apply Idle.imp idle
        intro chip ⟨same, stopped⟩
        exact ⟨same, [], request, rest, rfl, stopped⟩
      · intro buf
        have told := Idle.with_fact (performAll_lost faithful supported rest)
          fun _ : buf = request.answer mem => later
        apply Triple.bind (fun bufs => Idle nor finished start fun chip =>
          (Quiet (Request.effects nor (request.effect nor mem) rest) sr chip ∧
            bufs = Request.answers nor (request.effect nor mem) rest) ∧ buf = request.answer mem)
        · apply told.consequence (fun _ idle => idle) (fun _ _ idle => idle)
          intro _ history idle
          apply Idle.imp idle
          rintro chip ⟨⟨same, done, next, last, rfl, stopped⟩, _⟩
          exact ⟨same, request :: done, next, last, rfl, stopped⟩
        · intro bufs
          apply Triple.pure
          intro history idle
          apply Idle.imp idle
          rintro chip ⟨⟨quiet, rfl⟩, rfl⟩
          exact ⟨quiet, rfl⟩

end OpaeXilinx.Nor
