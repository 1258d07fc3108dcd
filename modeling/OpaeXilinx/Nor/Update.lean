import OpaeXilinx.Nor.Prompt

/-!
# Updating a flash

A flash is updated by erasing sectors, writing an image into them and reading it back, the image and
the reading cut into any pieces.  The sectors are not protected, and nothing is known any more once a
transfer has been closed before it arrived.
-/

namespace OpaeXilinx.Nor

open OpaeXilinx.Base
open OpaeXilinx.Base.NorMemory (programmed erased contents)

namespace Request

variable {nor : SpiNor} {mem mem' : Nat → Byte} {request : Request}

theorem answers_append (first second : List Request) :
    answers nor mem (first ++ second) =
      answers nor mem first ++ answers nor (effects nor mem first) second := by
  induction first generalizing mem with
  | nil => rfl
  | cons request first ih =>
      rw [List.cons_append, answers, ih]
      rfl

/-- Writes of one piece behind the other. -/
def writes (addr : Nat) : List (List Byte) → List Request
  | [] => []
  | piece :: pieces => .write addr piece :: writes (addr + piece.length) pieces

/-- Reads of one piece behind the other. -/
def reads (offset : Nat) : List Nat → List Request
  | [] => []
  | len :: lens => .read offset len :: reads (offset + len) lens

/-- The length of all pieces. -/
def total : List Nat → Nat
  | [] => 0
  | len :: lens => len + total lens

/-- It does not matter how the data are cut. -/
theorem effects_writes (addr : Nat) (pieces : List (List Byte)) :
    effects nor mem (writes addr pieces) = programmed (· &&& ·) mem addr pieces.flatten := by
  induction pieces generalizing mem addr with
  | nil => rfl
  | cons piece pieces ih =>
      rw [writes, effects, ih, List.flatten_cons, NorMemory.programmed_append]
      rfl

theorem answers_writes (addr : Nat) (pieces : List (List Byte)) :
    (answers nor mem (writes addr pieces)).flatten = [] := by
  induction pieces generalizing mem addr with
  | nil => rfl
  | cons piece pieces ih =>
      rw [writes, answers, List.flatten_cons, ih]
      rfl

theorem answers_reads (offset : Nat) (lens : List Nat) :
    (answers nor mem (reads offset lens)).flatten = contents mem offset (total lens) := by
  induction lens generalizing offset with
  | nil => rfl
  | cons len lens ih =>
      rw [reads, answers, List.flatten_cons, total, NorMemory.contents_add]
      exact congrArg (contents mem offset len ++ ·) (ih (offset + len))

/-- What a request changes lies in an interval. -/
def Within (nor : SpiNor) (start len : Nat) : Request → Prop
  | .read _ _ => True
  | .write addr buf => start ≤ addr ∧ addr + buf.length ≤ start + len
  | .erase addr size => start ≤ nor.sectorStart addr ∧ nor.sectorStart addr + size ≤ start + len

theorem effect_outside {start len x : Nat} (within : request.Within nor start len)
    (outside : x < start ∨ start + len ≤ x) : request.effect nor mem x = mem x := by
  cases request with
  | read offset size => rfl
  | write addr buf =>
      have range : start ≤ addr ∧ addr + buf.length ≤ start + len := within
      exact NorMemory.programmed_outside (by omega)
  | erase addr size =>
      have range : start ≤ nor.sectorStart addr ∧
        nor.sectorStart addr + size ≤ start + len := within
      exact NorMemory.erased_outside (by omega)

theorem stopped_outside {start len x : Nat} (within : request.Within nor start len)
    (outside : x < start ∨ start + len ≤ x) (stopped : request.Stopped nor mem mem') :
    mem' x = mem x := by
  cases request with
  | read offset size => exact congrFun stopped x
  | write addr buf =>
      obtain ⟨count, few, rfl⟩ := stopped
      have range : start ≤ addr ∧ addr + buf.length ≤ start + len := within
      apply NorMemory.programmed_outside
      rw [List.length_take]
      omega
  | erase addr size =>
      obtain ⟨count, few, rfl⟩ := stopped
      have range : start ≤ nor.sectorStart addr ∧
        nor.sectorStart addr + size ≤ start + len := within
      have sectors : count * nor.erasesize ≤ size :=
        Nat.le_trans (Nat.mul_le_mul_right _ few) (Nat.div_mul_le_self ..)
      exact NorMemory.erased_outside (by omega)

theorem effects_outside {start len x : Nat} {requests : List Request}
    (within : ∀ request ∈ requests, request.Within nor start len)
    (outside : x < start ∨ start + len ≤ x) : effects nor mem requests x = mem x := by
  induction requests generalizing mem with
  | nil => rfl
  | cons request rest ih =>
      rw [effects, ih fun other member => within other (.tail request member)]
      exact effect_outside (within request (.head rest)) outside

theorem stoppedIn_outside {start len x : Nat} {requests : List Request}
    (within : ∀ request ∈ requests, request.Within nor start len)
    (outside : x < start ∨ start + len ≤ x) (stopped : StoppedIn nor mem mem' requests) :
    mem' x = mem x := by
  obtain ⟨done, next, later, rfl, here⟩ := stopped
  have before : ∀ request ∈ done, request.Within nor start len :=
    fun request member => within request (List.mem_append_left _ member)
  have last : next.Within nor start len := within next (by simp)
  rw [stopped_outside last outside here, effects_outside before outside]

theorem mem_writes {addr : Nat} {pieces : List (List Byte)}
    (member : request ∈ writes addr pieces) :
    ∃ offset buf, request = .write offset buf ∧ addr ≤ offset ∧
      offset + buf.length ≤ addr + pieces.flatten.length := by
  induction pieces generalizing addr with
  | nil => cases member
  | cons piece pieces ih =>
      rw [List.flatten_cons, List.length_append]
      cases member with
      | head => exact ⟨addr, piece, rfl, Nat.le_refl _, by omega⟩
      | tail _ later =>
          obtain ⟨offset, buf, same, low, high⟩ := ih later
          exact ⟨offset, buf, same, by omega, by omega⟩

theorem mem_reads {offset : Nat} {lens : List Nat} (member : request ∈ reads offset lens) :
    ∃ from' len, request = .read from' len ∧ from' + len ≤ offset + total lens := by
  induction lens generalizing offset with
  | nil => cases member
  | cons len lens ih =>
      rw [total]
      cases member with
      | head => exact ⟨offset, len, rfl, by omega⟩
      | tail _ later =>
          obtain ⟨start, count, same, high⟩ := ih later
          exact ⟨start, count, same, by omega⟩

end Request

variable {nor : SpiNor} {finished : List Event → Bool} {start : Board} {dev : Device}
  {mem : Nat → Byte} {sr : Byte}

/-- An image that is written into erased sectors is what is read from them, however both are cut
into requests; and nothing outside of the sectors changes, even if a request fails.  Both are said of
runs in which no transfer has been closed before it arrived. -/
theorem update_round_trip (faithful : Faithful dev nor finished start)
    (supported : nor.Supported) (sector len addr : Nat) (pieces : List (List Byte))
    (lens : List Nat) (range : sector + len ≤ nor.size)
    (free : nor.Free sr (nor.sectorStart sector) len) (low : nor.sectorStart sector ≤ addr)
    (high : addr + pieces.flatten.length ≤ nor.sectorStart sector + len)
    (all : Request.total lens = pieces.flatten.length) :
    Triple (Idle nor finished start (Quiet mem sr))
      (performAll dev nor
        (.erase sector len :: (Request.writes addr pieces ++ Request.reads addr lens)))
      (fun bufs => Idle nor finished start fun chip => bufs.flatten = pieces.flatten ∧
        ∀ x, x < nor.sectorStart sector ∨ nor.sectorStart sector + len ≤ x → chip.mem x = mem x)
      (fun _ => Idle nor finished start fun chip =>
        ∀ x, x < nor.sectorStart sector ∨ nor.sectorStart sector + len ≤ x →
          chip.mem x = mem x) := by
  have first := nor.sectorStart_le sector
  have within : ∀ request ∈ (.erase sector len :: (Request.writes addr pieces ++
      Request.reads addr lens) : List Request),
      request.Within nor (nor.sectorStart sector) len := by
    intro request member
    rcases List.mem_cons.mp member with rfl | inside
    · exact ⟨Nat.le_refl _, Nat.le_refl _⟩
    · rcases List.mem_append.mp inside with written | read
      · obtain ⟨offset, buf, rfl, below, above⟩ := Request.mem_writes written
        exact ⟨by omega, by omega⟩
      · obtain ⟨offset, count, rfl, _⟩ := Request.mem_reads read
        trivial
  have allowed : ∀ request ∈ (.erase sector len :: (Request.writes addr pieces ++
      Request.reads addr lens) : List Request), request.Allowed nor sr := by
    intro request member
    rcases List.mem_cons.mp member with rfl | inside
    · exact ⟨range, free⟩
    · rcases List.mem_append.mp inside with written | read
      · obtain ⟨offset, buf, rfl, below, above⟩ := Request.mem_writes written
        exact ⟨by omega, fun x from' to' => free x (by omega) (by omega)⟩
      · obtain ⟨offset, count, rfl, above⟩ := Request.mem_reads read
        show offset + count ≤ nor.size
        omega
  apply (performAll_spec faithful supported mem _ allowed).consequence
    (fun _ idle => idle)
  · intro bufs history idle
    apply Idle.imp idle
    rintro chip ⟨quiet, rfl⟩
    constructor
    · rw [Request.answers, Request.answers_append, List.flatten_cons, List.flatten_append,
        Request.answers_writes, Request.answers_reads, Request.effects_writes, all,
        Request.effect]
      apply NorMemory.contents_programmed
      · exact fun datum => BitVec.allOnes_and
      · exact fun x from' to' => NorMemory.erased_inside (by omega)
    · intro x outside
      rw [quiet.mem]
      exact Request.effects_outside within outside
  · intro _ history idle
    apply Idle.imp idle
    intro chip ⟨_, stopped⟩ x outside
    exact Request.stoppedIn_outside within outside stopped

theorem update_round_trip_small : ∃ bufs history,
    performAll (promptDevice smallNor (fun _ => true) calmBoard) smallNor
        (.erase 8 16 :: (Request.writes 10 [[1, 2, 3], [4, 5, 6, 7]] ++ Request.reads 10 [5, 2])) []
          = .ok bufs history ∧ bufs.flatten = [1, 2, 3, 4, 5, 6, 7] := by
  have faithful := promptDevice_faithful smallNor (fun _ => true) calmBoard
  have round : Triple (Idle smallNor (fun _ => true) calmBoard (Quiet (fun _ => 0x5A) 0)) _ _ _ :=
    update_round_trip faithful smallNor_supported 8 16 10 [[1, 2, 3], [4, 5, 6, 7]] [5, 2]
      (by decide) (free_of_unprotected (by decide) _ _) (by decide) (by decide) (by decide)
  have sure := performAll_sure faithful smallNor_supported (promptDevice_prompt calmBoard rfl)
    (by decide) (.erase 8 16 ::
      (Request.writes 10 [[1, 2, 3], [4, 5, 6, 7]] ++ Request.reads 10 [5, 2]))
    (by
      intro request member
      simp only [Request.writes, Request.reads, List.cons_append, List.nil_append, List.mem_cons,
        List.not_mem_nil, or_false] at member
      rcases member with rfl | rfl | rfl | rfl | rfl <;> trivial)
  obtain ⟨bufs, history, ran, _, _, ready⟩ := (Rests.of_sure sure round).succeeds []
    ⟨calmBoard, rfl, rfl, rfl, ⟨rfl, rfl⟩, rfl⟩
  exact ⟨bufs, history, ran, ready.chip.1⟩

end OpaeXilinx.Nor
