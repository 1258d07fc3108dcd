import Mathlib.Algebra.Group.Nat.Defs
import Mathlib.Logic.Function.Basic

/-!
# NOR memories

Programming a NOR memory combines what a location holds with what is written, and erasing
makes a whole sector blank.  A page program runs round within its page.
-/

namespace OpaeXilinx.Base.NorMemory

variable {α : Type} (meet : α → α → α) (blank : α)

/-- What programming data from an address on makes of a memory. -/
def programmed (mem : Nat → α) (start : Nat) : List α → Nat → α
  | [] => mem
  | datum :: data =>
      programmed (Function.update mem start (meet (mem start) datum)) (start + 1) data

/-- The location that the byte number `i` of a page program goes to. -/
def inPage (page address i : Nat) : Nat := address / page * page + (address + i) % page

/-- A page program, from the byte number `i` on. -/
def programPage (page address : Nat) (mem : Nat → α) (i : Nat) : List α → Nat → α
  | [] => mem
  | datum :: data =>
      programPage page address
        (Function.update mem (inPage page address i) (meet (mem (inPage page address i)) datum))
        (i + 1) data

/-- What erasing an interval makes of a memory. -/
def erased (mem : Nat → α) (start len : Nat) : Nat → α :=
  fun x => if start ≤ x ∧ x < start + len then blank else mem x

/-- What erasing the sector of an address makes of a memory. -/
def eraseSector (sector address : Nat) (mem : Nat → α) : Nat → α :=
  fun x => if x / sector = address / sector then blank else mem x

/-- The contents of an interval. -/
def contents (mem : Nat → α) (start len : Nat) : List α :=
  (List.range' start len).map mem

/-- A memory in which some locations keep what they hold. -/
def keeping (kept : Nat → Bool) (old new : Nat → α) : Nat → α :=
  fun x => if kept x then old x else new x

variable {meet blank} {mem : Nat → α} {start len x : Nat} {data : List α}

@[simp] theorem programmed_nil : programmed meet mem start [] = mem := rfl

theorem programmed_append (first second : List α) :
    programmed meet mem start (first ++ second) =
      programmed meet (programmed meet mem start first) (start + first.length) second := by
  induction first generalizing mem start with
  | nil => rfl
  | cons datum first ih =>
      rw [List.cons_append, programmed, programmed, ih, List.length_cons, Nat.add_right_comm,
        Nat.add_assoc]

theorem programmed_outside (outside : x < start ∨ start + data.length ≤ x) :
    programmed meet mem start data x = mem x := by
  induction data generalizing mem start with
  | nil => rfl
  | cons datum data ih =>
      rw [List.length_cons] at outside
      rw [programmed, ih (by omega), Function.update_of_ne (by omega)]

theorem programmed_inside (inside : x < data.length) :
    programmed meet mem start data (start + x) = meet (mem (start + x)) (data.get ⟨x, inside⟩) := by
  induction data generalizing mem start x with
  | nil => exact absurd inside (Nat.not_lt_zero x)
  | cons datum data ih =>
      rw [programmed]
      cases x with
      | zero =>
          show programmed meet _ (start + 1) data start = meet (mem start) datum
          rw [programmed_outside (.inl (Nat.lt_succ_self start)), Function.update_self]
      | succ x =>
          have within : x < data.length := Nat.lt_of_succ_lt_succ inside
          have next : start + (x + 1) = start + 1 + x := by omega
          rw [next, ih within, Function.update_of_ne (by omega)]
          rfl

/-- A page program that does not reach the end of its page runs straight on. -/
theorem programPage_eq_programmed {page address i : Nat}
    (fits : address % page + i + data.length ≤ page) :
    programPage meet page address mem i data = programmed meet mem (address + i) data := by
  induction data generalizing mem i with
  | nil => rfl
  | cons datum data ih =>
      rw [List.length_cons] at fits
      have straight : inPage page address i = address + i := by
        have small : address % page + i < page := by omega
        rw [inPage, Nat.add_mod, Nat.mod_eq_of_lt (a := i) (by omega), Nat.mod_eq_of_lt small,
          ← Nat.add_assoc, Nat.div_add_mod']
      rw [programPage, programmed, straight, ih (by omega), Nat.add_assoc]

theorem erased_zero : erased blank mem start 0 = mem := by
  funext x
  exact if_neg (by omega)

theorem erased_add (first second : Nat) :
    erased blank (erased blank mem start first) (start + first) second =
      erased blank mem start (first + second) := by
  funext x
  simp only [erased]
  by_cases later : start + first ≤ x ∧ x < start + first + second
  · rw [if_pos later, if_pos (by omega)]
  · rw [if_neg later]
    by_cases early : start ≤ x ∧ x < start + first
    · rw [if_pos early, if_pos (by omega)]
    · rw [if_neg early, if_neg (by omega)]

theorem erased_inside (inside : start ≤ x ∧ x < start + len) :
    erased blank mem start len x = blank :=
  if_pos inside

theorem erased_outside (outside : x < start ∨ start + len ≤ x) :
    erased blank mem start len x = mem x :=
  if_neg (by omega)

/-- Erasing a sector erases the interval from its first location on. -/
theorem eraseSector_eq_erased {sector address : Nat} (pos : 0 < sector) :
    eraseSector blank sector address mem = erased blank mem (address / sector * sector) sector := by
  funext x
  simp only [eraseSector, erased]
  have same : x / sector = address / sector ↔
      address / sector * sector ≤ x ∧ x < address / sector * sector + sector := by
    rw [Nat.div_eq_iff pos]
    omega
  simp only [same]

@[simp] theorem contents_length : (contents mem start len).length = len := by
  simp [contents]

theorem contents_succ :
    contents mem start (len + 1) = mem start :: contents mem (start + 1) len := by
  simp [contents, List.range'_succ]

theorem contents_add (first second : Nat) :
    contents mem start (first + second) =
      contents mem start first ++ contents mem (start + first) second := by
  simp [contents, ← List.range'_append_1]

/-- Where programming starts from a blank memory, what is read back is what was written. -/
theorem contents_programmed (neutral : ∀ datum, meet blank datum = datum)
    (blanks : ∀ x, start ≤ x → x < start + data.length → mem x = blank) :
    contents (programmed meet mem start data) start data.length = data := by
  apply List.ext_get
  · exact contents_length
  · intro i inside within
    have here : programmed meet mem start data (start + i) =
        meet (mem (start + i)) (data.get ⟨i, within⟩) := programmed_inside within
    rw [blanks (start + i) (Nat.le_add_right ..) (Nat.add_lt_add_left within start),
      neutral] at here
    simpa [contents] using here

/-- What is kept does not matter where nothing is kept. -/
theorem keeping_eq {kept : Nat → Bool} {old new : Nat → α}
    (same : ∀ x, kept x = true → old x = new x) : keeping kept old new = new := by
  funext x
  simp only [keeping]
  split
  case isTrue here => exact same x here
  case isFalse => rfl

end OpaeXilinx.Base.NorMemory
