import Mathlib.Logic.Function.Basic

/-!
# Probing and removing HWICAP cards

`PCIe_probe` enables a card, allocates its book keeping, requests its regions, maps its BARs
and creates a character device whose minor number is the value of a counter.  When a step
fails it undoes the ones before.
-/

namespace OpaeXilinx.Icap

abbrev Dev := Nat

/-- `PF_MAX_BAR`: the enumeration starts again from 0 before it. -/
def pfMaxBar : Nat := 1

/-- `XCLMGMT_MINOR_COUNT`. -/
def xclmgmtMinorCount : Nat := 16

/-- What the kernel keeps for a PCI device. -/
structure PciDev where
  enabled : Int
  regions : Bool
  maps : Nat → Int
  drvdata : Option Nat

/-- `struct mgmt_dev`, as far as probing goes. -/
structure Lro where
  pciDev : Option Dev
  inst : Nat
  bar : Nat → Bool
  userCharDev : Option Nat

/-- `struct mgmt_char_dev`. -/
structure MgmtCharDev where
  lro : Nat
  minor : Nat
  sysDevice : Bool
  deriving DecidableEq

/-- The driver, and what it holds of the kernel's resources. -/
structure Driver where
  pci : Dev → PciDev
  mgmt : Nat → Option Lro
  char : Nat → Option MgmtCharDev
  cdevs : Nat → Bool
  nodes : Nat → Bool
  xclmgmtDevTable : Nat → Option Nat
  inst : Nat
  fresh : Nat
  /-- Indices and minor numbers that have been used. -/
  used : List Nat

def PciDev.clean : PciDev := ⟨0, false, fun _ => 0, none⟩

/-- `kzalloc` of a `struct mgmt_dev`. -/
def Lro.zeroed : Lro := ⟨none, 0, fun _ => false, none⟩

/-- The driver after it has been loaded. -/
def Driver.loaded : Driver where
  pci _ := .clean
  mgmt _ := none
  char _ := none
  cdevs _ := false
  nodes _ := false
  xclmgmtDevTable _ := none
  inst := 0
  fresh := 0
  used := []

/-- How the kernel answers during a probe; `some e` is the error `-(e + 1)`. -/
structure Answers where
  pciEnableDevice : Option Nat
  kzalloc : Bool
  pciRequestRegions : Option Nat
  pciIomap : Nat → Bool
  kzallocChar : Bool
  cdevAdd : Option Nat
  deviceCreate : Bool

/-- The mappings of a device, and the pointers to them in its book keeping. -/
structure Bars where
  maps : Nat → Int
  bar : Nat → Bool

def Bars.unmapBar (b : Bars) (i : Nat) : Bars :=
  if b.bar i then ⟨Function.update b.maps i (b.maps i - 1), Function.update b.bar i false⟩ else b

/-- `unmap_bars`. -/
def Bars.unmapBars (b : Bars) : Bars := (List.range pfMaxBar).foldl Bars.unmapBar b

/-- The loop of `map_bars`, from a BAR on. -/
def Bars.mapFrom (length : Nat → Nat) (pciIomap : Nat → Bool) : Nat → Nat → Bars → Bars × Int
  | _, 0, b => (b, 0)
  | i, left + 1, b =>
      let b := { b with bar := Function.update b.bar i false }
      -- a BAR that is not there is skipped
      if length i = 0 then mapFrom length pciIomap (i + 1) left b
      else if pciIomap i then
        mapFrom length pciIomap (i + 1) left
          ⟨Function.update b.maps i (b.maps i + 1), Function.update b.bar i true⟩
      else (b.unmapBars, -5)

/-- `map_bars`. -/
def Bars.mapBars (length : Nat → Nat) (pciIomap : Nat → Bool) (b : Bars) : Bars × Int :=
  b.mapFrom length pciIomap 0 pfMaxBar

namespace Driver

def setPci (s : Driver) (d : Dev) (dev : PciDev) : Driver :=
    { s with pci := Function.update s.pci d dev }

def store (s : Driver) (p : Nat) (lro : Option Lro) : Driver :=
  { s with mgmt := Function.update s.mgmt p lro }

def setTable (s : Driver) (n : Nat) (entry : Option Nat) : Driver :=
  { s with xclmgmtDevTable := Function.update s.xclmgmtDevTable n entry, used := n :: s.used }

/-- `create_char`. -/
def createChar (s : Driver) (p inst : Nat) (answers : Answers) : Driver × Option Nat :=
  if answers.kzallocChar then
    let c := s.fresh
    let s := { s with
      char := Function.update s.char c (some ⟨p, inst, false⟩), fresh := c + 1
      used := inst :: s.used }
    if answers.cdevAdd = none then
      let s := { s with cdevs := Function.update s.cdevs inst true }
      if answers.deviceCreate then
        ({ s with
          nodes := Function.update s.nodes inst true
          char := Function.update s.char c (some ⟨p, inst, true⟩) }, some c)
      else
        ({ s with
          cdevs := Function.update s.cdevs inst false, char :=
            Function.update s.char c none }, none)
    else ({ s with char := Function.update s.char c none }, none)
  else (s, none)

/-- `destroy_sg_char`. -/
def destroySgChar (s : Driver) (c : Nat) : Driver :=
  match s.char c with
  | none => s
  | some lroChar =>
      { s with
        nodes := if lroChar.sysDevice then Function.update s.nodes lroChar.minor false else s.nodes
        cdevs := Function.update s.cdevs lroChar.minor false
        char := Function.update s.char c none }

def errAlloc (s : Driver) (d : Dev) (rc : Int) : Driver × Int :=
  (s.setPci d { s.pci d with enabled := (s.pci d).enabled - 1 }, rc)

def errRegions (s : Driver) (d : Dev) (p : Nat) (rc : Int) : Driver × Int :=
  let s := s.store p none
  errAlloc (s.setPci d { s.pci d with drvdata := none }) d rc

def errMap (s : Driver) (d : Dev) (p : Nat) (rc : Int) : Driver × Int :=
  errRegions (s.setPci d { s.pci d with regions := false }) d p rc

def errCdev (s : Driver) (d : Dev) (p : Nat) (lro : Lro) (rc : Int) : Driver × Int :=
  let s := s.setTable lro.inst none
  let bars := Bars.unmapBars ⟨(s.pci d).maps, lro.bar⟩
  let s := s.setPci d { s.pci d with maps := bars.maps }
  errMap (s.store p (some { lro with bar := bars.bar })) d p rc

/-- `PCIe_probe`, with the lengths of the BARs of the device. -/
def probe (s : Driver) (length : Nat → Nat) (d : Dev) (answers : Answers) : Driver × Int :=
  match answers.pciEnableDevice with
  | some e => (s, -(e + 1))
  | none =>
    let s := s.setPci d { s.pci d with enabled := (s.pci d).enabled + 1 }
    if !answers.kzalloc then s.errAlloc d 0
    else
      let p := s.fresh
      let lro := { Lro.zeroed with pciDev := some d }
      let s := { s with fresh := p + 1 }
      let s := (s.setPci d { s.pci d with drvdata := some p }).store p (some lro)
      match answers.pciRequestRegions with
      | some e => s.errRegions d p (-(e + 1))
      | none =>
        let s := s.setPci d { s.pci d with regions := true }
        let mapped := Bars.mapBars length answers.pciIomap ⟨(s.pci d).maps, lro.bar⟩
        let lro := { lro with bar := mapped.1.bar }
        let s := (s.setPci d { s.pci d with maps := mapped.1.maps }).store p (some lro)
        if mapped.2 ≠ 0 then s.errMap d p mapped.2
        else
          let lro := { lro with inst := s.inst }
          let s := { s with inst := s.inst + 1 }
          let created := (s.store p (some lro)).createChar p lro.inst answers
          let lro := { lro with userCharDev := created.2 }
          let s := created.1.store p (some lro)
          if created.2.isNone then s.errCdev d p lro 0
          else (s.setTable lro.inst (some p), 0)

/-- `PCIe_remove`. -/
def remove (s : Driver) (d : Dev) : Driver :=
  match (s.pci d).drvdata with
  | none => s
  | some p =>
    match s.mgmt p with
    | none => s
    | some lro =>
      let s := s.setTable lro.inst none
      let s := match lro.userCharDev with
        | some c => (s.destroySgChar c).store p (some { lro with userCharDev := none })
        | none => s
      let bars := Bars.unmapBars ⟨(s.pci d).maps, lro.bar⟩
      let s := s.setPci d { s.pci d with maps := bars.maps }
      let s := s.setPci d { s.pci d with enabled := (s.pci d).enabled - 1 }
      let s := s.setPci d { s.pci d with regions := false }
      let s := s.store p none
      s.setPci d { s.pci d with drvdata := none }

end Driver

/-- A BAR that is there. -/
def present (length : Nat → Nat) (i : Nat) : Bool := i < pfMaxBar ∧ length i ≠ 0

/-- All the BARs that are there can be mapped. -/
def Answers.mapsAll (answers : Answers) (length : Nat → Nat) : Bool :=
  (List.range pfMaxBar).all fun i => length i = 0 || answers.pciIomap i

section Bars

variable {length : Nat → Nat} {pciIomap : Nat → Bool} {b : Bars}

/-- The mappings behind the pointers are given back. -/
theorem unmapBars_eq (b : Bars) (inside : ∀ i, b.bar i = true → i < pfMaxBar) :
    b.unmapBars = ⟨fun i => b.maps i - if b.bar i then 1 else 0, fun _ => false⟩ := by
  have upto : ∀ count, (List.range count).foldl Bars.unmapBar b =
      ⟨fun i => b.maps i - if i < count ∧ b.bar i = true then 1 else 0,
        fun i => b.bar i && decide (count ≤ i)⟩ := by
    intro count
    induction count with
    | zero => simp
    | succ count ih =>
        simp only [List.range_succ, List.foldl_append, List.foldl_cons, List.foldl_nil, ih,
          Bars.unmapBar]
        cases mapped : b.bar count with
        | true =>
            simp only [Nat.le_refl, decide_true, Bool.and_self, if_true, Bars.mk.injEq]
            refine ⟨funext fun i => ?_, funext fun i => ?_⟩ <;> by_cases same : i = count
            · simp [same, mapped]
            · have : i < count + 1 ↔ i < count := by omega
              simp only [this, Function.update_of_ne same]
            · simp [same]
            · have : count ≤ i ↔ count + 1 ≤ i := by omega
              simp [same, this]
        | false =>
            simp only [Bool.false_and, if_false, Bars.mk.injEq, Bool.false_eq_true]
            refine ⟨funext fun i => ?_, funext fun i => ?_⟩ <;> by_cases same : i = count
            · simp [same, mapped]
            · have : i < count + 1 ↔ i < count := by omega
              simp only [this]
            · simp [same, mapped]
            · have : count ≤ i ↔ count + 1 ≤ i := by omega
              simp [this]
  rw [Bars.unmapBars, upto, Bars.mk.injEq]
  refine ⟨funext fun i => ?_, funext fun i => ?_⟩
  · cases mapped : b.bar i with
    | true => simp [inside i mapped]
    | false => simp
  · cases mapped : b.bar i with
    | true => simp [inside i mapped]
    | false => rfl

/-- The BARs up to a number, mapped. -/
def mappedUpto (length : Nat → Nat) (maps : Nat → Int) (count : Nat) : Bars where
  maps i := maps i + if i < count ∧ length i ≠ 0 then 1 else 0
  bar i := i < count ∧ length i ≠ 0

/-- One BAR more. -/
theorem mappedUpto_succ (length : Nat → Nat) (maps : Nat → Int) (i : Nat) :
    mappedUpto length maps (i + 1) =
      ⟨Function.update (mappedUpto length maps i).maps i
        ((mappedUpto length maps i).maps i + if length i ≠ 0 then 1 else 0),
        Function.update (mappedUpto length maps i).bar i (length i ≠ 0)⟩ := by
  simp only [mappedUpto, Bars.mk.injEq]
  refine ⟨funext fun j => ?_, funext fun j => ?_⟩ <;> by_cases last : j = i
  · simp [last]
  · have : j < i + 1 ↔ j < i := by omega
    simp only [this, Function.update_of_ne last]
  · simp [last]
  · have : j < i + 1 ↔ j < i := by omega
    simp only [this, Function.update_of_ne last]

theorem mapFrom_eq (maps : Nat → Int) {i left : Nat} (all : i + left = pfMaxBar) :
    (mappedUpto length maps i).mapFrom length pciIomap i left =
      if (List.range' i left).all fun i => length i = 0 || pciIomap i then
        (mappedUpto length maps pfMaxBar, 0)
      else (mappedUpto length maps 0, -5) := by
  induction left generalizing i with
  | zero =>
      obtain rfl : i = pfMaxBar := all
      simp [Bars.mapFrom]
  | succ left ih =>
      have rest := ih (show i + 1 + left = pfMaxBar by omega)
      have cleared : Function.update (mappedUpto length maps i).bar i false =
          (mappedUpto length maps i).bar := by
        simp [mappedUpto]
      simp only [Bars.mapFrom, cleared, List.range'_succ, List.all_cons]
      by_cases absent : length i = 0
      · have same : mappedUpto length maps (i + 1) = mappedUpto length maps i := by
          rw [mappedUpto_succ]
          simp [mappedUpto, absent]
        rw [if_pos absent, ← same, rest]
        rw [show (decide (length i = 0) || pciIomap i) = true by simp [absent], Bool.true_and]
      · rw [if_neg absent]
        cases mapped : pciIomap i with
        | true =>
            have next : mappedUpto length maps (i + 1) =
                ⟨Function.update (mappedUpto length maps i).maps i
                  ((mappedUpto length maps i).maps i + 1),
                  Function.update (mappedUpto length maps i).bar i true⟩ := by
              rw [mappedUpto_succ]
              simp [absent]
            rw [if_pos rfl, ← next, rest, Bool.or_true, Bool.true_and]
        | false =>
            have undone : (mappedUpto length maps i).unmapBars = mappedUpto length maps 0 := by
              rw [unmapBars_eq _ fun j mapped => ?_]
              · simp [mappedUpto]
              · have : j < i := (of_decide_eq_true mapped).1
                omega
            simp [undone, absent]

theorem mapBars_eq (answers : Answers) (length : Nat → Nat) (maps : Nat → Int) :
    Bars.mapBars length answers.pciIomap ⟨maps, fun _ => false⟩ =
      if answers.mapsAll length then
        (⟨fun i => maps i + if present length i then 1 else 0, present length⟩, 0)
      else (⟨maps, fun _ => false⟩, -5) := by
  have start : (⟨maps, fun _ => false⟩ : Bars) = mappedUpto length maps 0 := by
    simp [mappedUpto]
  have whole : mappedUpto length maps pfMaxBar =
      ⟨fun i => maps i + if present length i then 1 else 0, present length⟩ := by
    simp only [mappedUpto, present, Bars.mk.injEq, decide_eq_true_eq, true_and]
    rfl
  rw [start, Bars.mapBars, mapFrom_eq maps (Nat.zero_add _), ← List.range_eq_range', whole,
    Answers.mapsAll]

end Bars

end OpaeXilinx.Icap
