import Mathlib.Logic.Basic

/-! # Summaries of packed words

For every plane, a summary knows which rows of a table are not empty. The rows
themselves are kept by its owner, who reports each change.
-/

namespace Dope.Index

/-- The operations of a summary `S` with planes `κ`. -/
structure Summary (S κ : Type) where
  new : S
  get : S → κ → Nat → Bool
  update : Bool → S → κ → Nat → S
  find : S → κ → Nat → Option Nat
  isEmpty : S → κ → Bool

namespace Summary

variable {S κ : Type} [DecidableEq κ]

/-- The summary of `rows` rows is exact. -/
structure Lawful (summary : Summary S κ) (rows : Nat) : Prop where
  new : ∀ plane row, summary.get summary.new plane row = false
  update : ∀ set s plane row plane' row',
    summary.get (summary.update set s plane row) plane' row' =
      if plane' = plane ∧ row' = row then set else summary.get s plane' row'
  find_some : ∀ {s plane start row}, summary.find s plane start = some row →
    start ≤ row ∧ row < rows ∧ summary.get s plane row = true
  find_none : ∀ {s plane start}, summary.find s plane start = none →
    ∀ row, start ≤ row → row < rows → summary.get s plane row = false
  isEmpty : ∀ {s plane}, summary.isEmpty s plane = true ↔
    ∀ row, row < rows → summary.get s plane row = false

/-- A summary that keeps one bit for every row. -/
def bits (κ : Type) [DecidableEq κ] (rows : Nat) : Summary (κ → Nat → Bool) κ where
  new := fun _ _ => false
  get s := s
  update set s plane row := fun plane' row' =>
    if plane' = plane ∧ row' = row then set else s plane' row'
  find s plane start := (List.range rows).find? fun row => decide (start ≤ row) && s plane row
  isEmpty s plane := (List.range rows).all fun row => !s plane row

theorem bits_lawful (rows : Nat) : (bits κ rows).Lawful rows where
  new _ _ := rfl
  update _ _ _ _ _ _ := rfl
  find_some := by
    intro s plane start row found
    have holds := List.find?_some found
    have inside := List.mem_range.mp (List.mem_of_find?_eq_some found)
    rw [Bool.and_eq_true, decide_eq_true_eq] at holds
    exact ⟨holds.1, inside, holds.2⟩
  find_none := by
    intro s plane start missing row after inside
    have holds := List.find?_eq_none.mp missing row (List.mem_range.mpr inside)
    show s plane row = false
    simpa [after] using holds
  isEmpty := by
    intro s plane
    simp [bits]

end Summary

end Dope.Index
