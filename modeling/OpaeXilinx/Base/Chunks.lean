import Mathlib.Data.List.Flatten
import Mathlib.Data.List.Range

/-!
# Chunks

A list that is made of chunks of the same width: where an element is, and what it means
that the list is as long as it can be.
-/

namespace OpaeXilinx.Base

theorem filter_range_interval {low width count : Nat} (inside : low + width ≤ count) :
    (List.range count).filter (fun j => low ≤ j ∧ j < low + width) = List.range' low width := by
  obtain ⟨rest, rfl⟩ := Nat.exists_eq_add_of_le inside
  have cut : List.range (low + width + rest) =
      List.range' 0 low ++ List.range' low width ++ List.range' (low + width) rest := by
    simp [List.range_eq_range', ← List.range'_append_1]
  rw [cut, List.filter_append, List.filter_append]
  have before : (List.range' 0 low).filter (fun j => low ≤ j ∧ j < low + width) = [] := by
    simp
    omega
  have among : (List.range' low width).filter (fun j => low ≤ j ∧ j < low + width) =
      List.range' low width := by
    simp
  have behind :
      (List.range' (low + width) rest).filter (fun j => low ≤ j ∧ j < low + width) = [] := by
    simp
    omega
  rw [before, among, behind, List.nil_append, List.append_nil]

section Chunks

variable {α : Type} {chunk : Nat → List α} {width count : Nat}

theorem length_chunks_le (short : ∀ i < count, (chunk i).length ≤ width) :
    ((List.range count).flatMap chunk).length ≤ count * width := by
  induction count with
  | zero => simp
  | succ count ih =>
      have rest := ih fun i less => short i (by omega)
      have last := short count (by omega)
      simp only [List.range_succ, List.flatMap_append, List.flatMap_singleton, List.length_append,
        Nat.succ_mul]
      omega

/-- If there are as many elements as there is room for, every chunk is full. -/
theorem length_chunk_of_full (short : ∀ i < count, (chunk i).length ≤ width)
    (full : count * width ≤ ((List.range count).flatMap chunk).length) :
    ∀ i < count, (chunk i).length = width := by
  induction count with
  | zero => nofun
  | succ count ih =>
      have rest := length_chunks_le fun i (less : i < count) => short i (by omega)
      have last := short count (by omega)
      simp only [List.range_succ, List.flatMap_append, List.flatMap_singleton, List.length_append,
        Nat.succ_mul] at full
      intro i less
      by_cases isLast : i = count
      · subst isLast
        omega
      · exact ih (fun i less => short i (by omega)) (by omega) i (by omega)

theorem getElem?_chunks (even : ∀ i < count, (chunk i).length = width) {i t : Nat}
    (less : i < count) (inside : t < width) :
    ((List.range count).flatMap chunk)[i * width + t]? = (chunk i)[t]? := by
  induction count with
  | zero => omega
  | succ count ih =>
      have length : ((List.range count).flatMap chunk).length = count * width := by
        have same : (List.range count).map (fun i => (chunk i).length) =
            (List.range count).map fun _ => width :=
          List.map_congr_left fun i member => even i (by simp at member; omega)
        rw [List.length_flatMap, same, List.map_const', List.sum_replicate_nat, List.length_range]
      simp only [List.range_succ, List.flatMap_append, List.flatMap_singleton]
      by_cases isLast : i = count
      · subst isLast
        rw [List.getElem?_append_right (by omega), length, Nat.add_sub_cancel_left]
      · have before : i * width + t < count * width := by
          have := Nat.mul_le_mul_right width (show i + 1 ≤ count by omega)
          rw [Nat.succ_mul] at this
          omega
        rw [List.getElem?_append_left (by omega)]
        exact ih (fun i less => even i (by omega)) (by omega)

end Chunks

end OpaeXilinx.Base
