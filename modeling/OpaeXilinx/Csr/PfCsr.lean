import Mathlib.Data.List.Infix
import Mathlib.Logic.Function.Basic
import OpaeXilinx.Base.Transition

/-!
# The control and status registers of the physical function

`pf_csr_v1_0_S00_AXI`: 32 registers behind an AXI4-Lite slave.  One step is a rising clock
edge after reset; every flip-flop takes its next value from the values before the edge and
from the pins that the master drives.  The handshakes that have happened are recorded, and
so are the offers that the master must keep up until they are accepted.
-/

namespace OpaeXilinx.Csr

open OpaeXilinx.Base

abbrev Word := BitVec 32
abbrev Addr := BitVec 7
abbrev Strb := BitVec 4

/-- The bits `[ADDR_LSB+OPT_MEM_ADDR_BITS:ADDR_LSB]` of an address. -/
def index (addr : Addr) : BitVec 5 := addr.extractLsb' 2 5

/-- A byte of a word. -/
def byteAt (word : Word) (i : Nat) : BitVec 8 := word.extractLsb' (8 * i) 8

/-- The word after the strobed bytes have been replaced. -/
def strobed (old data : Word) (strb : Strb) : Word :=
  let pick (i : Nat) : BitVec 8 := if strb.getLsbD i then byteAt data i else byteAt old i
  pick 3 ++ pick 2 ++ pick 1 ++ pick 0

theorem byteAt_strobed (old data : Word) (strb : Strb) {i : Nat} (inside : i < 4) :
    byteAt (strobed old data strb) i = if strb.getLsbD i then byteAt data i else byteAt old i := by
  have which : i = 0 ∨ i = 1 ∨ i = 2 ∨ i = 3 := by omega
  have bits : ∀ (a b c d : BitVec 8) (j : Nat), j < 8 →
      (a ++ b ++ c ++ d : BitVec 32).getLsbD (8 * i + j) =
        (if i = 0 then d else if i = 1 then c else if i = 2 then b else a).getLsbD j := by
    intro a b c d j small
    rcases which with rfl | rfl | rfl | rfl <;> simp [small] <;> grind
  apply BitVec.eq_of_getLsbD_eq
  intro j small
  rw [byteAt, BitVec.getLsbD_extractLsb', strobed]
  simp only [small, decide_true, Bool.true_and]
  rw [bits _ _ _ _ j small]
  rcases which with rfl | rfl | rfl | rfl <;> rfl

/-- The pins that the master drives, at a clock edge. -/
structure Pins where
  awvalid : Bool
  awaddr : Addr
  wvalid : Bool
  wdata : Word
  wstrb : Strb
  bready : Bool
  arvalid : Bool
  araddr : Addr
  rready : Bool
  deriving DecidableEq, Repr

/-- The flip-flops. -/
structure Regs where
  awready : Bool
  awEn : Bool
  awaddr : Addr
  wready : Bool
  bvalid : Bool
  slvReg : BitVec 5 → Word
  arready : Bool
  araddr : Addr
  rvalid : Bool
  rdata : Word

/-- `slv_reg0` to `slv_reg31` at reset. -/
def slvRegReset : BitVec 5 → Word := fun i => if i = 4 then 3 else 0

def Regs.reset : Regs where
  awready := false
  awEn := true
  awaddr := 0
  wready := false
  bvalid := false
  slvReg := slvRegReset
  arready := false
  araddr := 0
  rvalid := false
  rdata := 0

namespace Regs

variable (r : Regs) (pins : Pins)

def slvRegWren : Bool := r.wready && pins.wvalid && r.awready && pins.awvalid

def slvRegRden : Bool := r.arready && pins.arvalid && !r.rvalid

/-- A write address and write data are there, and no write is being processed. -/
def starts : Bool := !r.awready && pins.awvalid && pins.wvalid && r.awEn

/-- The registers after a write of the latched address. -/
def writeReg : BitVec 5 → Word :=
  Function.update r.slvReg (index r.awaddr)
    (strobed (r.slvReg (index r.awaddr)) pins.wdata pins.wstrb)

/-- A rising clock edge. -/
def edge : Regs where
  awready := r.starts pins
  awEn := if r.starts pins then false else if pins.bready && r.bvalid then true else r.awEn
  awaddr := if r.starts pins then pins.awaddr else r.awaddr
  wready := !r.wready && pins.wvalid && pins.awvalid && r.awEn
  bvalid :=
    if r.awready && pins.awvalid && !r.bvalid && r.wready && pins.wvalid then true
    else if pins.bready && r.bvalid then false else r.bvalid
  slvReg := if r.slvRegWren pins then r.writeReg pins else r.slvReg
  arready := !r.arready && pins.arvalid
  araddr := if !r.arready && pins.arvalid then pins.araddr else r.araddr
  rvalid :=
    if r.arready && pins.arvalid && !r.rvalid then true
    else if r.rvalid && pins.rready then false else r.rvalid
  rdata := if r.slvRegRden pins then r.slvReg (index r.araddr) else r.rdata

/-- `slv_reg4_out`. -/
def slvReg4Out : Word := r.slvReg 4

end Regs

/-- The slave with what its master is offering and the handshakes so far. -/
structure St where
  regs : Regs
  /-- Offers that have not been accepted. -/
  aw : Option Addr
  w : Option (Word × Strb)
  ar : Option Addr
  /-- Accepted write addresses and write data. -/
  aws : List Addr
  ws : List (Word × Strb)
  /-- Number of write responses that have been taken. -/
  bs : Nat
  /-- Accepted read addresses, with the value of their register at that edge. -/
  ars : List (Addr × Word)
  /-- Data of the read responses that have been taken. -/
  rs : List Word

/-- An entry for a handshake that happens. -/
def happens {α : Type} (valid ready : Bool) (value : α) : List α :=
  if valid && ready then [value] else []

/-- An offer that is not accepted. -/
def waits {α : Type} (valid ready : Bool) (value : α) : Option α :=
  if valid && !ready then some value else none

def St.clock (s : St) (pins : Pins) : St where
  regs := s.regs.edge pins
  aw := waits pins.awvalid s.regs.awready pins.awaddr
  w := waits pins.wvalid s.regs.wready (pins.wdata, pins.wstrb)
  ar := waits pins.arvalid s.regs.arready pins.araddr
  aws := s.aws ++ happens pins.awvalid s.regs.awready pins.awaddr
  ws := s.ws ++ happens pins.wvalid s.regs.wready (pins.wdata, pins.wstrb)
  bs := s.bs + (happens s.regs.bvalid pins.bready ()).length
  ars := s.ars ++ happens pins.arvalid s.regs.arready
    (pins.araddr, s.regs.slvReg (index pins.araddr))
  rs := s.rs ++ happens s.regs.rvalid pins.rready s.regs.rdata

/-- A legal master keeps up its offers until they are accepted. -/
structure Legal (s : St) (pins : Pins) : Prop where
  aw : ∀ addr ∈ s.aw, pins.awvalid = true ∧ pins.awaddr = addr
  w : ∀ data ∈ s.w, pins.wvalid = true ∧ (pins.wdata, pins.wstrb) = data
  ar : ∀ addr ∈ s.ar, pins.arvalid = true ∧ pins.araddr = addr

def St.reset : St := ⟨.reset, none, none, none, [], [], 0, [], []⟩

def csrSystem : System St Pins where
  init s := s = .reset
  step s pins next := Legal s pins ∧ next = s.clock pins

theorem legal_iff_all (s : St) (pins : Pins) :
    (s.aw.all fun addr => pins.awvalid && pins.awaddr == addr) = true ∧
      (s.w.all fun data => pins.wvalid && (pins.wdata, pins.wstrb) == data) = true ∧
      (s.ar.all fun addr => pins.arvalid && pins.araddr == addr) = true ↔ Legal s pins := by
  simp only [Option.all_eq_true, Bool.and_eq_true, beq_iff_eq]
  exact ⟨fun ⟨aw, w, ar⟩ => ⟨aw, w, ar⟩, fun legal => ⟨legal.aw, legal.w, legal.ar⟩⟩

instance (s : St) (pins : Pins) : Decidable (Legal s pins) :=
    decidable_of_iff _ (legal_iff_all s pins)

theorem csr_reach_reset (allowed : St → Pins → Prop) : csrSystem.Reach allowed .reset := .init rfl

end OpaeXilinx.Csr
