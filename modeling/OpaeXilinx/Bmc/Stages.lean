import OpaeXilinx.Bmc.Mailbox

/-!
# Stages of a transaction

A request is written, announced, worked on and answered.  Only the board controller takes it from
announced to answered.
-/

namespace OpaeXilinx.Bmc

open OpaeXilinx.Base
open OpaeXilinx.Base.NorMemory (programmed contents)

section Bytes

variable {mem : Nat → Byte} {addr x : Nat} {bytes : List Byte} {box : Mailbox}

theorem store_outside (outside : x < addr ∨ addr + bytes.length ≤ x) :
    (box.store addr bytes).mem x = box.mem x :=
  NorMemory.programmed_outside outside

theorem contents_stored : contents (box.store addr bytes).mem addr bytes.length = bytes := by
  apply List.ext_get
  · exact NorMemory.contents_length
  · intro i inside within
    have here : (box.store addr bytes).mem (addr + i) = bytes.get ⟨i, within⟩ :=
      NorMemory.programmed_inside within
    simpa [contents] using here

theorem contents_store_outside {start len : Nat}
    (outside : start + len ≤ addr ∨ addr + bytes.length ≤ start) :
    contents (box.store addr bytes).mem start len = contents box.mem start len := by
  apply List.map_congr_left
  intro x member
  have range := List.mem_range'_1.mp member
  exact store_outside (by omega)

theorem contents_two (mem : Nat → Byte) (addr : Nat) :
    contents mem addr 2 = [mem addr, mem (addr + 1)] := rfl

theorem count_eq_zero (low : box.mem addr = 0) (high : box.mem (addr + 1) = 0) :
    box.count addr = 0 := by
  rw [Mailbox.count, contents_two, low, high]
  decide

theorem number_countBytes {count : Nat} (small : count < 65536) :
    number (countBytes count) = count := by
  simp only [number, countBytes, BitVec.toNat_ofNat, Nat.reducePow]
  omega

end Bytes

variable {serve : List (List Byte) → List Byte} {acts : List Event → List Act} {start : Board}
  {dev : Device}

/-- Nothing is announced, and nothing is under way. -/
structure Calm (taken : List (List Byte)) (box : Mailbox) : Prop where
  idle : box.working = false
  taken : box.taken = taken
  requestLow : box.mem requestCountAddress = 0
  requestHigh : box.mem (requestCountAddress + 1) = 0

/-- Nothing is there for the driver either. -/
structure Quiet (taken : List (List Byte)) (box : Mailbox) : Prop extends Calm taken box where
  responseLow : box.mem responseCountAddress = 0
  responseHigh : box.mem (responseCountAddress + 1) = 0

/-- Some of a request has been written. -/
structure Writing (taken : List (List Byte)) (bytes : List Byte) (box : Mailbox) : Prop
    extends Quiet taken box where
  request : contents box.mem requestAddress bytes.length = bytes

/-- A request is announced. -/
structure Announced (taken : List (List Byte)) (txbuf : List Byte) (box : Mailbox) : Prop where
  idle : box.working = false
  taken : box.taken = taken
  requestLow : box.mem requestCountAddress = BitVec.ofNat 8 txbuf.length
  requestHigh : box.mem (requestCountAddress + 1) = 0
  responseLow : box.mem responseCountAddress = 0
  responseHigh : box.mem (responseCountAddress + 1) = 0
  request : contents box.mem requestAddress txbuf.length = txbuf

/-- The board controller is at work on its last request. -/
structure Working (taken : List (List Byte)) (box : Mailbox) : Prop where
  working : box.working = true
  taken : box.taken = taken
  requestLow : box.mem requestCountAddress = 0
  requestHigh : box.mem (requestCountAddress + 1) = 0
  responseLow : box.mem responseCountAddress = 0
  responseHigh : box.mem (responseCountAddress + 1) = 0

/-- A response is there. -/
structure Answered (taken : List (List Byte)) (reply : List Byte) (box : Mailbox) : Prop
    extends Calm taken box where
  responseLow : box.mem responseCountAddress = BitVec.ofNat 8 reply.length
  responseHigh : box.mem (responseCountAddress + 1) = BitVec.ofNat 8 (reply.length / 256)
  response : contents box.mem responseAddress reply.length = reply

/-- A request is announced, worked on or answered. -/
inductive Asked (serve : List (List Byte) → List Byte) (taken : List (List Byte))
    (txbuf : List Byte) (box : Mailbox) : Prop
  | announced (stage : Announced taken txbuf box)
  | working (stage : Working (txbuf :: taken) box)
  | answered (stage : Answered (txbuf :: taken) (serve (txbuf :: taken)) box)

/-- The board controller does not end the property. -/
def Stable (serve : List (List Byte) → List Byte) (P : Mailbox → Prop) : Prop :=
  ∀ box, P box → P (box.step serve)

section Stages

variable {taken : List (List Byte)} {txbuf bytes reply : List Byte} {box : Mailbox}

theorem Calm.step (calm : Calm taken box) : box.step serve = box := by
  rw [Mailbox.step, if_neg (by rw [calm.idle]; decide),
    if_pos (count_eq_zero calm.requestLow calm.requestHigh)]

theorem stable_of_calm {P : Mailbox → Prop} (calm : ∀ box, P box → Calm taken box) :
    Stable serve P := by
  intro box holds
  rwa [(calm box holds).step]

theorem Announced.step (announced : Announced taken txbuf box) (some : 0 < txbuf.length)
    (short : txbuf.length < 256) : Working (txbuf :: taken) (box.step serve) := by
  have count : box.count requestCountAddress = txbuf.length := by
    rw [Mailbox.count, contents_two, announced.requestLow, announced.requestHigh]
    show (BitVec.ofNat 8 txbuf.length).toNat + 256 * (0 + 256 * 0) = txbuf.length
    rw [BitVec.toNat_ofNat, Nat.mod_eq_of_lt short]
    omega
  rw [Mailbox.step, if_neg (by rw [announced.idle]; decide), if_neg (by omega), count,
    announced.request, announced.taken]
  have low : (box.store requestCountAddress (countBytes 0)).mem requestCountAddress = 0 :=
    NorMemory.programmed_inside (x := 0) (by decide)
  have high : (box.store requestCountAddress (countBytes 0)).mem (requestCountAddress + 1) = 0 :=
    NorMemory.programmed_inside (x := 1) (by decide)
  constructor
  · rfl
  · rfl
  · exact low
  · exact high
  · exact (store_outside (by decide)).trans announced.responseLow
  · exact (store_outside (by decide)).trans announced.responseHigh

theorem Working.step (working : Working taken box) :
    Answered taken (serve taken) (box.step serve) := by
  rw [Mailbox.step, if_pos working.working,
    if_pos (count_eq_zero working.responseLow working.responseHigh), working.taken]
  generalize serve taken = reply
  have low : ((box.store responseAddress reply).store responseCountAddress
      (countBytes reply.length)).mem responseCountAddress = BitVec.ofNat 8 reply.length :=
    NorMemory.programmed_inside (x := 0) (by exact Nat.zero_lt_two)
  have high : ((box.store responseAddress reply).store responseCountAddress
      (countBytes reply.length)).mem (responseCountAddress + 1) =
        BitVec.ofNat 8 (reply.length / 256) :=
    NorMemory.programmed_inside (x := 1) (by exact Nat.one_lt_two)
  have request : ∀ x < responseCountAddress, ((box.store responseAddress reply).store
      responseCountAddress (countBytes reply.length)).mem x = box.mem x := by
    intro x below
    rw [store_outside (.inl below)]
    exact store_outside (.inl (Nat.lt_trans below (by decide)))
  refine ⟨⟨rfl, working.taken, ?_, ?_⟩, low, high, ?_⟩
  · exact (request _ (by decide)).trans working.requestLow
  · exact (request _ (by decide)).trans working.requestHigh
  · exact (contents_store_outside (.inr (Nat.le_refl responseAddress))).trans contents_stored

theorem stable_asked (some : 0 < txbuf.length) (short : txbuf.length < 256) :
    Stable serve (Asked serve taken txbuf) := by
  intro box asked
  cases asked with
  | announced stage => exact .working (stage.step some short)
  | working stage => exact .answered stage.step
  | answered stage =>
      rw [stage.toCalm.step]
      exact .answered stage

end Stages

end OpaeXilinx.Bmc
