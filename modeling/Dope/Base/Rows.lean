import Mathlib.Data.List.Nodup
import Mathlib.Data.List.Range

/-! # Rows of a plane

A plane marks some of the rows below a bound. Its rows are listed in ascending
order, a search from a start finds the next of them, and unmarking one takes it
out of the list.
-/

namespace Dope.Index

variable {bound : Nat} {plane : Nat → Bool} {start row : Nat}

/-- The marked rows in ascending order. -/
def rows (bound : Nat) (plane : Nat → Bool) : List Nat := (List.range bound).filter plane

/-- The first marked row from `start` on. -/
def findFrom (bound : Nat) (plane : Nat → Bool) (start : Nat) : Option Nat :=
  (List.range bound).find? fun row => decide (start ≤ row) && plane row

def mark (plane : Nat → Bool) (row : Nat) (value : Bool) : Nat → Bool :=
  fun r => if r = row then value else plane r

@[simp] theorem mark_self (plane : Nat → Bool) (row : Nat) (value : Bool) :
    mark plane row value row = value := by
  simp [mark]

theorem mark_of_ne (plane : Nat → Bool) {row r : Nat} (value : Bool) (h : r ≠ row) :
    mark plane row value r = plane r := by
  simp [mark, h]

theorem mem_rows : row ∈ rows bound plane ↔ row < bound ∧ plane row = true := by
  simp [rows]

theorem rows_sorted (bound : Nat) (plane : Nat → Bool) : (rows bound plane).Pairwise (· < ·) :=
  List.Pairwise.filter _ List.pairwise_lt_range

theorem findFrom_eq (bound : Nat) (plane : Nat → Bool) (start : Nat) :
    findFrom bound plane start = (rows bound plane).find? fun row => decide (start ≤ row) := by
  unfold findFrom rows
  rw [List.find?_filter]
  congr 1
  funext row
  simp [Bool.and_comm]

theorem findFrom_some (h : findFrom bound plane start = some row) :
    start ≤ row ∧ row < bound ∧ plane row = true := by
  have holds := List.find?_some h
  have inside := List.mem_range.mp (List.mem_of_find?_eq_some h)
  rw [Bool.and_eq_true, decide_eq_true_eq] at holds
  exact ⟨holds.1, inside, holds.2⟩

/-- No marked row was passed over. -/
theorem findFrom_least (h : findFrom bound plane start = some row) {r : Nat} (after : start ≤ r)
    (marked : plane r = true) : row ≤ r := by
  rcases Nat.lt_or_ge r row with lt | le
  · obtain ⟨-, inside, -⟩ := findFrom_some h
    rw [findFrom_eq] at h
    obtain ⟨-, before, rest, split, none⟩ := List.find?_eq_some_iff_append.mp h
    have mem : r ∈ rows bound plane := mem_rows.mpr ⟨by omega, marked⟩
    have sorted := rows_sorted bound plane
    rw [split] at mem sorted
    rcases List.mem_append.mp mem with mem | mem
    · have passed := none r mem
      simp [after] at passed
    · have order := (List.pairwise_append.mp sorted).2.1
      rcases List.mem_cons.mp mem with rfl | mem
      · exact Nat.le_refl _
      · have lt' := (List.pairwise_cons.mp order).1 r mem
        omega
  · exact le

theorem findFrom_none (h : findFrom bound plane start = none) {r : Nat} (after : start ≤ r)
    (inside : r < bound) : plane r = false := by
  have none := List.find?_eq_none.mp h r (List.mem_range.mpr inside)
  simpa [after] using none

/-- A search that begins behind some of the rows finds the next one. -/
theorem findFrom_cons {before after : List Nat}
    (split : rows bound plane = before ++ row :: after) (passed : ∀ r ∈ before, r < start)
    (here : start ≤ row) : findFrom bound plane start = some row := by
  rw [findFrom_eq, split]
  apply List.find?_eq_some_iff_append.mpr
  refine ⟨by simp [here], before, after, rfl, ?_⟩
  intro r mem
  have lt := passed r mem
  simp only [Bool.not_eq_eq_eq_not, Bool.not_true, decide_eq_false_iff_not]
  omega

/-- A search behind all rows finds none. -/
theorem findFrom_end (passed : ∀ r ∈ rows bound plane, r < start) :
    findFrom bound plane start = none := by
  rw [findFrom_eq, List.find?_eq_none]
  intro r mem
  have lt := passed r mem
  simp only [decide_eq_true_eq]
  omega

end Dope.Index
