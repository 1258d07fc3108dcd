import OpaeXilinx.Base.Transition
import OpaeXilinx.Icap.Probe

/-!
# HWICAP cards

Cards come and go.  A probe that fails leaves nothing behind, and a remove takes away what
the probe has set up; but not every failing step of a probe sets the return code, and the
counter of the instances, which are minor numbers and indices of a table, only grows.
-/

namespace OpaeXilinx.Icap

open OpaeXilinx.Base

/-- The driver, and the devices that are bound to it. -/
structure Cards where
  driver : Driver
  bound : Dev → Bool

inductive CardStep where
  | probe (d : Dev) (answers : Answers)
  | remove (d : Dev)

/-- The kernel binds a device when its probe returns 0, and removes devices that are bound. -/
def Cards.take (length : Dev → Nat → Nat) (s : Cards) : CardStep → Cards
  | .probe d answers =>
      let probed := s.driver.probe (length d) d answers
      ⟨probed.1, Function.update s.bound d (probed.2 = 0)⟩
  | .remove d => ⟨s.driver.remove d, Function.update s.bound d false⟩

def CardStep.Enabled (s : Cards) : CardStep → Prop
  | .probe d _ => s.bound d = false
  | .remove d => s.bound d = true

instance (s : Cards) : (step : CardStep) → Decidable (step.Enabled s)
  | .probe d _ => inferInstanceAs (Decidable (s.bound d = false))
  | .remove d => inferInstanceAs (Decidable (s.bound d = true))

def cardSystem (length : Dev → Nat → Nat) : System Cards CardStep where
  init s := s = ⟨.loaded, fun _ => false⟩
  step s step next := step.Enabled s ∧ next = s.take length step

/-- A device that is set up, with the pointers to its book keeping and its instance. -/
structure SetUpAs (length : Nat → Nat) (s : Driver) (d : Dev) (p c n : Nat) : Prop where
  pci : s.pci d = ⟨1, true, fun i => if present length i then 1 else 0, some p⟩
  mgmt : s.mgmt p = some ⟨some d, n, present length, some c⟩
  char : s.char c = some ⟨p, n, true⟩
  cdev : s.cdevs n = true
  node : s.nodes n = true
  table : s.xclmgmtDevTable n = some p

/-- BARs mapped, character device present, driver data and table entry set. -/
def SetUp (length : Nat → Nat) (s : Driver) (d : Dev) : Prop := ∃ p c n, SetUpAs length s d p c n

/-- No BAR, no region, no allocation for the device, and no driver data. -/
structure Clean (s : Driver) (d : Dev) : Prop where
  pci : s.pci d = .clean
  mgmt : ∀ p lro, s.mgmt p = some lro → lro.pciDev ≠ some d

/-- Everything that the driver holds belongs to a device. -/
structure NoLeak (s : Driver) : Prop where
  mgmt : ∀ p lro, s.mgmt p = some lro → ∃ d, lro.pciDev = some d ∧ (s.pci d).drvdata = some p
  char : ∀ c ch, s.char c = some ch → ∃ lro, s.mgmt ch.lro = some lro ∧ lro.userCharDev = some c
  cdev : ∀ n, s.cdevs n = true → ∃ c ch, s.char c = some ch ∧ ch.minor = n
  node : ∀ n, s.nodes n = true → ∃ c ch, s.char c = some ch ∧ ch.minor = n
  table : ∀ n p, s.xclmgmtDevTable n = some p → ∃ lro, s.mgmt p = some lro ∧ lro.inst = n

/-- What is right in every state. -/
structure CardsRight (length : Dev → Nat → Nat) (s : Cards) : Prop where
  bound : ∀ d, s.bound d = true → SetUp (length d) s.driver d
  free : ∀ d, s.bound d = false → Clean s.driver d
  noLeak : NoLeak s.driver
  used : ∀ n ∈ s.driver.used, n < xclmgmtMinorCount
  unique : ∀ d e p c q f n, SetUpAs (length d) s.driver d p c n →
    SetUpAs (length e) s.driver e q f n →
    d = e

/-- What is right about a step: a probe returns 0 if and only if the device is set up, and
leaves nothing of it behind otherwise; and the state after is right again. -/
structure StepRight (length : Dev → Nat → Nat) (s : Cards) (step : CardStep) : Prop where
  after : CardsRight length (s.take length step)
  zero : ∀ d answers, step = .probe d answers →
    ((s.driver.probe (length d) d answers).2 = 0 ↔
      SetUp (length d) (s.driver.probe (length d) d answers).1 d)
  undone : ∀ d, step = .remove d → Clean (s.driver.remove d) d
  /-- The other devices stay as they are. -/
  others : ∀ e p c n, (∀ answers, step ≠ .probe e answers) → step ≠ .remove e →
    (SetUpAs (length e) s.driver e p c n → SetUpAs (length e) (s.take length step).driver e p c n) ∧
    (Clean s.driver e → Clean (s.take length step).driver e)

/-- The book keeping is allocated; and when a character device is created, there is a minor
number left and creating it works. -/
def Fine (length : Dev → Nat → Nat) (s : Cards) : CardStep → Prop
  | .probe d answers => answers.pciEnableDevice = none → answers.kzalloc = true ∧
      (answers.pciRequestRegions = none → answers.mapsAll (length d) = true →
        s.driver.inst < xclmgmtMinorCount ∧ answers.kzallocChar = true ∧ answers.cdevAdd = none ∧
          answers.deviceCreate = true)
  | .remove _ => True

instance (length : Dev → Nat → Nat) (s : Cards) : (step : CardStep) → Decidable (Fine length s step)
  | .probe _ _ => inferInstanceAs (Decidable (_ → _ ∧ (_ → _ → _ ∧ _ ∧ _ ∧ _)))
  | .remove _ => inferInstanceAs (Decidable True)

/-- The driver with a device added. -/
def Driver.added (s : Driver) (length : Nat → Nat) (d : Dev) : Driver where
  pci := Function.update s.pci d ⟨1, true, fun i => if present length i then 1 else 0, some s.fresh⟩
  mgmt := Function.update s.mgmt s.fresh (some ⟨some d, s.inst, present length, some (s.fresh + 1)⟩)
  char := Function.update s.char (s.fresh + 1) (some ⟨s.fresh, s.inst, true⟩)
  cdevs := Function.update s.cdevs s.inst true
  nodes := Function.update s.nodes s.inst true
  xclmgmtDevTable := Function.update s.xclmgmtDevTable s.inst (some s.fresh)
  inst := s.inst + 1
  fresh := s.fresh + 2
  used := s.inst :: s.inst :: s.used

/-- The driver without a device. -/
def Driver.without (s : Driver) (d : Dev) (p c n : Nat) : Driver :=
  { s with
    pci := Function.update s.pci d .clean
    mgmt := Function.update s.mgmt p none
    char := Function.update s.char c none
    cdevs := Function.update s.cdevs n false
    nodes := Function.update s.nodes n false
    xclmgmtDevTable := Function.update s.xclmgmtDevTable n none
    used := n :: s.used }

section Steps

variable {length : Dev → Nat → Nat} {s : Cards} {d : Dev} {answers : Answers}

/-- A probe adds the device, or fails and leaves nothing behind. -/
theorem probe_cases (fine : Fine length s (.probe d answers)) (clean : s.driver.pci d = .clean)
    (unused : s.driver.mgmt s.driver.fresh = none) :
    ((s.driver.probe (length d) d answers).2 ≠ 0 ∧ ∃ fresh, s.driver.fresh ≤ fresh ∧
      (s.driver.probe (length d) d answers).1 = { s.driver with fresh := fresh }) ∨
    ((s.driver.probe (length d) d answers).2 = 0 ∧ s.driver.inst < xclmgmtMinorCount ∧
      (s.driver.probe (length d) d answers).1 = s.driver.added (length d) d) := by
  have restored : Function.update s.driver.pci d ⟨0, false, fun _ => 0, none⟩ = s.driver.pci := by
    rw [← PciDev.clean, ← clean, Function.update_eq_self]
  have freed : Function.update s.driver.mgmt s.driver.fresh none = s.driver.mgmt := by
    rw [← unused, Function.update_eq_self]
  cases enable : answers.pciEnableDevice with
  | some e =>
      refine .inl ⟨?_, s.driver.fresh, Nat.le_refl _, ?_⟩
      · simp only [Driver.probe, enable]
        omega
      · simp [Driver.probe, enable]
  | none =>
      obtain ⟨allocated, character⟩ := fine enable
      cases regions : answers.pciRequestRegions with
      | some e =>
          refine .inl ⟨?_, s.driver.fresh + 1, Nat.le_succ _, ?_⟩
          · simp only [Driver.probe, enable, allocated, regions, Driver.errRegions, Driver.errAlloc,
              Bool.not_true, Bool.false_eq_true, if_false]
            omega
          · simp [Driver.probe, enable, allocated, regions, Driver.errRegions, Driver.errAlloc,
              Driver.setPci, Driver.store, clean, PciDev.clean, restored, freed]
      | none =>
          cases maps : answers.mapsAll (length d) with
          | false =>
              have failed := mapBars_eq answers (length d) fun _ => 0
              rw [maps, if_neg (by decide)] at failed
              refine .inl ⟨?_, s.driver.fresh + 1, Nat.le_succ _, ?_⟩
              · simp [Driver.probe, enable, allocated, regions, Driver.errMap, Driver.errRegions,
                  Driver.errAlloc, Driver.setPci, Driver.store, clean, PciDev.clean,
                  Lro.zeroed, failed]
              · simp [Driver.probe, enable, allocated, regions, Driver.errMap, Driver.errRegions,
                  Driver.errAlloc, Driver.setPci, Driver.store, clean, PciDev.clean,
                  Lro.zeroed, failed, restored, freed]
          | true =>
              have mapped := mapBars_eq answers (length d) fun _ => 0
              rw [maps, if_pos rfl] at mapped
              obtain ⟨room, allocatedChar, added, created⟩ := character regions maps
              refine .inr ⟨?_, room, ?_⟩
              · simp [Driver.probe, enable, allocated, regions, Driver.setPci, Driver.store, clean,
                  PciDev.clean, Lro.zeroed, mapped, Driver.createChar, allocatedChar,
                  added, created]
              · simp [Driver.probe, enable, allocated, regions, Driver.setPci, Driver.store, clean,
                  PciDev.clean, Lro.zeroed, mapped, Driver.createChar, allocatedChar,
                  added, created, Driver.setTable, Driver.added]

/-- A remove takes away what its probe added. -/
theorem remove_eq {s : Driver} {length : Nat → Nat} {p c n : Nat}
    (up : SetUpAs length s d p c n) : s.remove d = s.without d p c n := by
  have unmapped := unmapBars_eq ⟨fun i => if present length i then 1 else 0, present length⟩
    fun i isPresent => (of_decide_eq_true isPresent).1
  have pci := up.pci
  have mgmt := up.mgmt
  have char := up.char
  simp [Driver.remove, pci, mgmt, char, Driver.setTable, Driver.destroySgChar, Driver.setPci,
    Driver.store, unmapped, Driver.without, PciDev.clean]

end Steps

/-! ## Invariant -/

/-- Pointers and instances that have been given out. -/
structure Given (s : Driver) : Prop where
  mgmt : ∀ p lro, s.mgmt p = some lro → p < s.fresh ∧ lro.inst < s.inst
  char : ∀ c ch, s.char c = some ch → c < s.fresh

section Driver

variable {s : Driver} {length : Nat → Nat} {d e : Dev} {p c q f n : Nat}

theorem SetUpAs.unique {length' : Nat → Nat} (up : SetUpAs length s d p c n)
    (other : SetUpAs length' s e q f n) : d = e := by
  obtain rfl : p = q := Option.some.inj (up.table.symm.trans other.table)
  have same := up.mgmt.symm.trans other.mgmt
  simp only [Option.some.injEq, Lro.mk.injEq] at same
  exact same.1

theorem added_setUpAs (s : Driver) (length : Nat → Nat) (d : Dev) :
    SetUpAs length (s.added length d) d s.fresh (s.fresh + 1) s.inst := by
  refine ⟨?_, ?_, ?_, ?_, ?_, ?_⟩ <;> simp [Driver.added]

theorem Given.added (given : Given s) (length : Nat → Nat) (d : Dev) :
    Given (s.added length d) := by
  refine ⟨fun p lro isLro => ?_, fun c ch isChar => ?_⟩
  · by_cases new : p = s.fresh
    · subst new
      simp only [Driver.added, Function.update_self, Option.some.injEq] at isLro
      subst isLro
      simp [Driver.added]
    · simp only [Driver.added, Function.update_of_ne new] at isLro
      have old := given.mgmt p lro isLro
      simp only [Driver.added]
      omega
  · by_cases new : c = s.fresh + 1
    · simp [Driver.added, new]
    · simp only [Driver.added, Function.update_of_ne new] at isChar
      have old := given.char c ch isChar
      simp only [Driver.added]
      omega

/-- Adding a device leaves the others set up. -/
theorem SetUpAs.added {other : Nat → Nat} (up : SetUpAs length s e p c n) (given : Given s)
    (differs : e ≠ d) : SetUpAs length (s.added other d) e p c n := by
  have oldPtr := given.mgmt p _ up.mgmt
  have oldChar := given.char c _ up.char
  have oldInst : n < s.inst := oldPtr.2
  refine ⟨?_, ?_, ?_, ?_, ?_, ?_⟩ <;> simp only [Driver.added]
  · rw [Function.update_of_ne differs, up.pci]
  · rw [Function.update_of_ne (by omega), up.mgmt]
  · rw [Function.update_of_ne (by omega), up.char]
  · rw [Function.update_of_ne (by omega), up.cdev]
  · rw [Function.update_of_ne (by omega), up.node]
  · rw [Function.update_of_ne (by omega), up.table]

theorem Clean.added (clean : Clean s e) (differs : e ≠ d) : Clean (s.added length d) e := by
  refine ⟨?_, fun p lro isLro => ?_⟩
  · simp only [Driver.added, Function.update_of_ne differs, clean.pci]
  · by_cases new : p = s.fresh
    · subst new
      simp only [Driver.added, Function.update_self, Option.some.injEq] at isLro
      subst isLro
      simpa using differs.symm
    · simp only [Driver.added, Function.update_of_ne new] at isLro
      exact clean.mgmt p lro isLro

theorem NoLeak.added (noLeak : NoLeak s) (given : Given s) (clean : Clean s d) :
    NoLeak (s.added length d) := by
  have up := added_setUpAs s length d
  -- what was held before is held still
  have keptMgmt : ∀ p lro, s.mgmt p = some lro → (s.added length d).mgmt p = some lro := by
    intro p lro isLro
    have old := (given.mgmt p lro isLro).1
    simp only [Driver.added]
    rw [Function.update_of_ne (by omega), isLro]
  have keptChar : ∀ c ch, s.char c = some ch → (s.added length d).char c = some ch := by
    intro c ch isChar
    have old := given.char c ch isChar
    simp only [Driver.added]
    rw [Function.update_of_ne (by omega), isChar]
  refine ⟨fun p lro isLro => ?_, fun c ch isChar => ?_, fun n isCdev => ?_, fun n isNode => ?_,
    fun n p isEntry => ?_⟩
  · by_cases new : p = s.fresh
    · subst new
      rw [up.mgmt, Option.some.injEq] at isLro
      exact ⟨d, by simp [← isLro], by simp [up.pci]⟩
    · simp only [Driver.added, Function.update_of_ne new] at isLro
      obtain ⟨e, isDev, drvdata⟩ := noLeak.mgmt p lro isLro
      have differs : e ≠ d := fun same => clean.mgmt p lro isLro (same ▸ isDev)
      exact ⟨e, isDev, by simp only [Driver.added, Function.update_of_ne differs, drvdata]⟩
  · by_cases new : c = s.fresh + 1
    · subst new
      rw [up.char, Option.some.injEq] at isChar
      exact ⟨_, by rw [← isChar]; exact up.mgmt, rfl⟩
    · simp only [Driver.added, Function.update_of_ne new] at isChar
      obtain ⟨lro, isLro, back⟩ := noLeak.char c ch isChar
      exact ⟨lro, keptMgmt _ _ isLro, back⟩
  · by_cases new : n = s.inst
    · exact ⟨_, _, up.char, new.symm⟩
    · simp only [Driver.added, Function.update_of_ne new] at isCdev
      obtain ⟨c, ch, isChar, minor⟩ := noLeak.cdev n isCdev
      exact ⟨c, ch, keptChar _ _ isChar, minor⟩
  · by_cases new : n = s.inst
    · exact ⟨_, _, up.char, new.symm⟩
    · simp only [Driver.added, Function.update_of_ne new] at isNode
      obtain ⟨c, ch, isChar, minor⟩ := noLeak.node n isNode
      exact ⟨c, ch, keptChar _ _ isChar, minor⟩
  · by_cases new : n = s.inst
    · subst new
      rw [up.table, Option.some.injEq] at isEntry
      subst isEntry
      exact ⟨_, up.mgmt, rfl⟩
    · simp only [Driver.added, Function.update_of_ne new] at isEntry
      obtain ⟨lro, isLro, inst⟩ := noLeak.table n p isEntry
      exact ⟨lro, keptMgmt _ _ isLro, inst⟩

/-- Two devices have nothing in common. -/
theorem SetUpAs.apart {length' : Nat → Nat} {m : Nat} (up : SetUpAs length s d p c n)
    (other : SetUpAs length' s e q f m) (differs : e ≠ d) : q ≠ p ∧ f ≠ c ∧ m ≠ n := by
  have ptr : q ≠ p := by
    rintro rfl
    have same := up.mgmt.symm.trans other.mgmt
    simp only [Option.some.injEq, Lro.mk.injEq] at same
    exact differs same.1.symm
  refine ⟨ptr, ?_, ?_⟩
  · rintro rfl
    have same := up.char.symm.trans other.char
    simp only [Option.some.injEq, MgmtCharDev.mk.injEq] at same
    exact ptr same.1.symm
  · rintro rfl
    exact ptr (Option.some.inj (other.table.symm.trans up.table))

/-- Removing a device leaves the others set up. -/
theorem SetUpAs.without {length' : Nat → Nat} {m : Nat} (other : SetUpAs length' s e q f m)
    (up : SetUpAs length s d p c n) (differs : e ≠ d) :
    SetUpAs length' (s.without d p c n) e q f m := by
  obtain ⟨ptr, char, inst⟩ := up.apart other differs
  refine ⟨?_, ?_, ?_, ?_, ?_, ?_⟩ <;> simp only [Driver.without]
  · rw [Function.update_of_ne differs, other.pci]
  · rw [Function.update_of_ne ptr, other.mgmt]
  · rw [Function.update_of_ne char, other.char]
  · rw [Function.update_of_ne inst, other.cdev]
  · rw [Function.update_of_ne inst, other.node]
  · rw [Function.update_of_ne inst, other.table]

theorem Clean.without (clean : Clean s e) (differs : e ≠ d) : Clean (s.without d p c n) e := by
  refine ⟨?_, fun q lro isLro => ?_⟩
  · simp only [Driver.without, Function.update_of_ne differs, clean.pci]
  · by_cases gone : q = p
    · simp [Driver.without, gone] at isLro
    · simp only [Driver.without, Function.update_of_ne gone] at isLro
      exact clean.mgmt q lro isLro

theorem without_clean (up : SetUpAs length s d p c n) (noLeak : NoLeak s) :
    Clean (s.without d p c n) d := by
  refine ⟨by simp [Driver.without], fun q lro isLro isDev => ?_⟩
  by_cases gone : q = p
  · simp [Driver.without, gone] at isLro
  · simp only [Driver.without, Function.update_of_ne gone] at isLro
    obtain ⟨e, isDev', drvdata⟩ := noLeak.mgmt q lro isLro
    obtain rfl : d = e := Option.some.inj (isDev.symm.trans isDev')
    rw [up.pci] at drvdata
    exact gone (Option.some.inj drvdata).symm

theorem NoLeak.without (noLeak : NoLeak s) (up : SetUpAs length s d p c n) :
    NoLeak (s.without d p c n) := by
  -- what is not the device's own is held still
  have keptMgmt : ∀ q lro, q ≠ p → s.mgmt q = some lro →
      (s.without d p c n).mgmt q = some lro := by
    intro q lro differs isLro
    simp only [Driver.without, Function.update_of_ne differs, isLro]
  have keptChar : ∀ f ch, ch.minor ≠ n → s.char f = some ch →
      (s.without d p c n).char f = some ch := by
    intro f ch minor isChar
    have differs : f ≠ c := by
      rintro rfl
      exact minor (congrArg MgmtCharDev.minor (Option.some.inj (isChar.symm.trans up.char)))
    simp only [Driver.without, Function.update_of_ne differs, isChar]
  refine ⟨fun q lro isLro => ?_, fun f ch isChar => ?_, fun m isCdev => ?_, fun m isNode => ?_,
    fun m q isEntry => ?_⟩
  · by_cases gone : q = p
    · simp [Driver.without, gone] at isLro
    · simp only [Driver.without, Function.update_of_ne gone] at isLro
      obtain ⟨e, isDev, drvdata⟩ := noLeak.mgmt q lro isLro
      have differs : e ≠ d := by
        rintro rfl
        rw [up.pci] at drvdata
        exact gone (Option.some.inj drvdata).symm
      exact ⟨e, isDev, by simp only [Driver.without, Function.update_of_ne differs, drvdata]⟩
  · by_cases gone : f = c
    · simp [Driver.without, gone] at isChar
    · simp only [Driver.without, Function.update_of_ne gone] at isChar
      obtain ⟨lro, isLro, back⟩ := noLeak.char f ch isChar
      refine ⟨lro, keptMgmt _ _ (fun same => ?_) isLro, back⟩
      rw [same, up.mgmt, Option.some.injEq] at isLro
      rw [← isLro] at back
      exact gone (Option.some.inj back).symm
  · by_cases gone : m = n
    · simp [Driver.without, gone] at isCdev
    · simp only [Driver.without, Function.update_of_ne gone] at isCdev
      obtain ⟨f, ch, isChar, rfl⟩ := noLeak.cdev m isCdev
      exact ⟨f, ch, keptChar _ _ gone isChar, rfl⟩
  · by_cases gone : m = n
    · simp [Driver.without, gone] at isNode
    · simp only [Driver.without, Function.update_of_ne gone] at isNode
      obtain ⟨f, ch, isChar, rfl⟩ := noLeak.node m isNode
      exact ⟨f, ch, keptChar _ _ gone isChar, rfl⟩
  · by_cases gone : m = n
    · simp [Driver.without, gone] at isEntry
    · simp only [Driver.without, Function.update_of_ne gone] at isEntry
      obtain ⟨lro, isLro, rfl⟩ := noLeak.table m q isEntry
      refine ⟨lro, keptMgmt _ _ (fun same => ?_) isLro, rfl⟩
      rw [same, up.mgmt, Option.some.injEq] at isLro
      exact gone (congrArg Lro.inst isLro).symm

theorem Given.without (given : Given s) : Given (s.without d p c n) := by
  refine ⟨fun q lro isLro => ?_, fun f ch isChar => ?_⟩
  · by_cases gone : q = p
    · simp [Driver.without, gone] at isLro
    · simp only [Driver.without, Function.update_of_ne gone] at isLro
      exact given.mgmt q lro isLro
  · by_cases gone : f = c
    · simp [Driver.without, gone] at isChar
    · simp only [Driver.without, Function.update_of_ne gone] at isChar
      exact given.char f ch isChar

end Driver

section Runs

variable {length : Dev → Nat → Nat} {s : Cards}

structure CardInv (length : Dev → Nat → Nat) (s : Cards) : Prop extends CardsRight length s where
  given : Given s.driver
  small : ∀ p lro, s.driver.mgmt p = some lro → lro.inst < xclmgmtMinorCount

/-- Pointers that are lost do no harm. -/
theorem CardInv.skip (inv : CardInv length s) {fresh : Nat} (grows : s.driver.fresh ≤ fresh) :
    CardInv length ⟨{ s.driver with fresh := fresh }, s.bound⟩ := by
  refine ⟨⟨fun d bound => ?_, fun d free => ?_, ?_, inv.used, ?_⟩, ?_, inv.small⟩
  · obtain ⟨p, c, n, up⟩ := inv.bound d bound
    exact ⟨p, c, n, up.pci, up.mgmt, up.char, up.cdev, up.node, up.table⟩
  · have clean := inv.free d free
    exact ⟨clean.pci, clean.mgmt⟩
  · have noLeak := inv.noLeak
    exact ⟨noLeak.mgmt, noLeak.char, noLeak.cdev, noLeak.node, noLeak.table⟩
  · intro d e p c q f n up other
    exact up.unique other
  · have given := inv.given
    exact ⟨fun p lro isLro => ⟨Nat.lt_of_lt_of_le (given.mgmt p lro isLro).1 grows,
      (given.mgmt p lro isLro).2⟩, fun c ch isChar =>
        Nat.lt_of_lt_of_le (given.char c ch isChar) grows⟩

theorem SetUp.notClean {length : Nat → Nat} {s : Driver} {d : Dev} (up : SetUp length s d) :
    ¬ Clean s d := by
  obtain ⟨p, c, n, up⟩ := up
  exact fun clean => clean.mgmt p _ up.mgmt rfl

/-- A device is added. -/
theorem CardInv.added (inv : CardInv length s) {d : Dev} (free : s.bound d = false)
    (room : s.driver.inst < xclmgmtMinorCount) :
    CardInv length ⟨s.driver.added (length d) d, Function.update s.bound d true⟩ := by
  have clean := inv.free d free
  refine ⟨⟨fun e bound => ?_, fun e notBound => ?_, inv.noLeak.added inv.given clean, ?_, ?_⟩,
    inv.given.added .., ?_⟩
  · by_cases same : e = d
    · subst same
      exact ⟨_, _, _, added_setUpAs ..⟩
    · simp only [Function.update_of_ne same] at bound
      obtain ⟨p, c, n, up⟩ := inv.bound e bound
      exact ⟨p, c, n, up.added inv.given same⟩
  · by_cases same : e = d
    · simp [same] at notBound
    · simp only [Function.update_of_ne same] at notBound
      exact (inv.free e notBound).added same
  · intro n member
    rcases List.mem_cons.mp member with rfl | member
    · exact room
    · rcases List.mem_cons.mp member with rfl | member
      · exact room
      · exact inv.used n member
  · intro d e p c q f n up other
    exact up.unique other
  · intro p lro isLro
    by_cases new : p = s.driver.fresh
    · simp only [Driver.added, new, Function.update_self, Option.some.injEq] at isLro
      rw [← isLro]
      exact room
    · simp only [Driver.added, Function.update_of_ne new] at isLro
      exact inv.small p lro isLro

/-- A device is removed. -/
theorem CardInv.without (inv : CardInv length s) {d : Dev} {p c n : Nat}
    (up : SetUpAs (length d) s.driver d p c n) :
    CardInv length ⟨s.driver.without d p c n, Function.update s.bound d false⟩ := by
  refine ⟨⟨fun e bound => ?_, fun e notBound => ?_, inv.noLeak.without up, ?_, ?_⟩,
    inv.given.without, ?_⟩
  · by_cases same : e = d
    · simp [same] at bound
    · simp only [Function.update_of_ne same] at bound
      obtain ⟨q, f, m, other⟩ := inv.bound e bound
      exact ⟨q, f, m, other.without up same⟩
  · by_cases same : e = d
    · subst same
      exact without_clean up inv.noLeak
    · simp only [Function.update_of_ne same] at notBound
      exact (inv.free e notBound).without same
  · intro m member
    rcases List.mem_cons.mp member with rfl | member
    · exact inv.small p _ up.mgmt
    · exact inv.used m member
  · intro d e p c q f n up other
    exact up.unique other
  · intro q lro isLro
    by_cases gone : q = p
    · simp [Driver.without, gone] at isLro
    · simp only [Driver.without, Function.update_of_ne gone] at isLro
      exact inv.small q lro isLro

/-- A probe, and what it means for the other devices. -/
theorem CardInv.probe (inv : CardInv length s) {d : Dev} {answers : Answers}
    (free : s.bound d = false) (fine : Fine length s (.probe d answers)) :
    CardInv length (s.take length (.probe d answers)) ∧ StepRight length s (.probe d answers) := by
  have clean := inv.free d free
  have unused : s.driver.mgmt s.driver.fresh = none := by
    cases isLro : s.driver.mgmt s.driver.fresh with
    | none => rfl
    | some lro => exact absurd (inv.given.mgmt _ lro isLro).1 (Nat.lt_irrefl _)
  rcases probe_cases fine clean.pci unused with ⟨failed, fresh, grows, same⟩ | ⟨zero, room, added⟩
  · have taken :
        s.take length (.probe d answers) = ⟨{ s.driver with fresh := fresh }, s.bound⟩ := by
      simp only [Cards.take, same, failed, decide_false, Cards.mk.injEq, true_and]
      rw [← free, Function.update_eq_self]
    have next : CardInv length (s.take length (.probe d answers)) := taken ▸ inv.skip grows
    refine ⟨next, next.toCardsRight, ?_, nofun, ?_⟩
    · rintro d answers ⟨⟩
      have left : Clean (s.driver.probe (length d) d answers).1 d := by
        rw [same]
        exact ⟨clean.pci, clean.mgmt⟩
      exact ⟨fun zero => absurd zero failed, fun up => absurd left up.notClean⟩
    · intro e p c n _ _
      rw [taken]
      exact ⟨fun up => ⟨up.pci, up.mgmt, up.char, up.cdev, up.node, up.table⟩,
        fun clean => ⟨clean.pci, clean.mgmt⟩⟩
  · have taken : s.take length (.probe d answers) =
        ⟨s.driver.added (length d) d, Function.update s.bound d true⟩ := by
      simp [Cards.take, added, zero]
    have next : CardInv length (s.take length (.probe d answers)) := taken ▸ inv.added free room
    refine ⟨next, next.toCardsRight, ?_, nofun, ?_⟩
    · rintro d answers ⟨⟩
      rw [added]
      exact ⟨fun _ => ⟨_, _, _, added_setUpAs ..⟩, fun _ => zero⟩
    · intro e p c n notProbed _
      have differs : e ≠ d := fun same => notProbed answers (by rw [same])
      rw [taken]
      exact ⟨fun up => up.added inv.given differs, fun clean => clean.added differs⟩

theorem CardInv.remove (inv : CardInv length s) {d : Dev} (bound : s.bound d = true) :
    CardInv length (s.take length (.remove d)) ∧ StepRight length s (.remove d) := by
  obtain ⟨p, c, n, up⟩ := inv.bound d bound
  have removed := remove_eq up
  have taken : s.take length (.remove d) =
      ⟨s.driver.without d p c n, Function.update s.bound d false⟩ := by
    simp only [Cards.take, removed]
  have next : CardInv length (s.take length (.remove d)) := taken ▸ inv.without up
  refine ⟨next, next.toCardsRight, nofun, ?_, ?_⟩
  · rintro d ⟨⟩
    rw [removed]
    exact without_clean up inv.noLeak
  · intro e q f m _ notRemoved
    have differs : e ≠ d := fun same => notRemoved (by rw [same])
    rw [taken]
    exact ⟨fun other => other.without up differs, fun clean => clean.without differs⟩

theorem CardInv.take (inv : CardInv length s) {step : CardStep} (enabled : step.Enabled s)
    (fine : Fine length s step) :
    CardInv length (s.take length step) ∧ StepRight length s step := by
  cases step with
  | probe d answers => exact inv.probe enabled fine
  | remove d => exact inv.remove enabled

theorem CardInv.reach (reach : (cardSystem length).Reach (Fine length) s) : CardInv length s := by
  refine System.Reach.invariant ?_ ?_ reach
  · rintro _ rfl
    refine ⟨⟨nofun, fun _ _ => ⟨rfl, nofun⟩, ⟨nofun, nofun, nofun, nofun, nofun⟩, nofun, ?_⟩,
      ⟨nofun, nofun⟩, nofun⟩
    intro d e p c q f n up other
    exact up.unique other
  · rintro s step _ inv fine ⟨enabled, rfl⟩
    exact (inv.take enabled fine).1

end Runs

/-- As long as the book keeping can be allocated, there are minor numbers left and character
devices can be created, every state is right and every step does what it should. -/
theorem hwicap_cards_right {length : Dev → Nat → Nat} {s : Cards}
    (reach : (cardSystem length).Reach (Fine length) s) :
    CardsRight length s ∧
      ∀ step : CardStep, step.Enabled s → Fine length s step → StepRight length s step := by
  have inv := CardInv.reach reach
  exact ⟨inv.toCardsRight, fun step enabled fine => (inv.take enabled fine).2⟩

/-- The kernel grants everything. -/
def Answers.granted : Answers := ⟨none, true, none, fun _ => true, true, none, true⟩

/-- A card is probed, removed and probed again, beside another one. -/
theorem hwicap_cards_right_twice :
    ∃ s, (cardSystem fun _ _ => 4096).Reach (Fine fun _ _ => 4096) s ∧
    s.driver.inst = 3 ∧ s.bound 0 = true ∧ SetUp (fun _ => 4096) s.driver 0 := by
  let steps : List CardStep := [.probe 0 .granted, .probe 1 .granted, .remove 0, .probe 0 .granted]
  let start : Cards := ⟨.loaded, fun _ => false⟩
  have loaded : (cardSystem fun _ _ => 4096).Reach (Fine fun _ _ => 4096) start := .init rfl
  have reach : (cardSystem fun _ _ => 4096).Reach (Fine fun _ _ => 4096)
      (steps.foldl (Cards.take fun _ _ => 4096) start) :=
    loaded.along (fun s step => Fine (fun _ _ => 4096) s step ∧ step.Enabled s)
      (Cards.take fun _ _ => 4096) (fun _ _ good => ⟨good.1, good.2, rfl⟩) (by decide)
  exact ⟨_, reach, by decide, by decide, (hwicap_cards_right reach).1.bound 0 (by decide)⟩

/-- When the book keeping cannot be allocated, a probe says that it has worked. -/
theorem failed_probe_returns_zero : ∃ s, (cardSystem fun _ _ => 4096).Reachable s ∧
    ¬ (CardsRight (fun _ _ => 4096) s ∧
      ∀ step : CardStep, step.Enabled s → StepRight (fun _ _ => 4096) s step) := by
  let start : Cards := ⟨.loaded, fun _ => false⟩
  refine ⟨start, .init rfl, fun right => ?_⟩
  let answers : Answers := { Answers.granted with kzalloc := false }
  obtain ⟨p, c, n, up⟩ := ((right.2 (.probe 0 answers) rfl).zero 0 answers rfl).mp (by decide)
  exact absurd up.mgmt (by simp [Driver.probe, answers, Answers.granted, start, Driver.errAlloc,
    Driver.setPci, Driver.loaded])

end OpaeXilinx.Icap
