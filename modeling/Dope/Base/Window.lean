import Mathlib.Logic.Function.Basic
import Mathlib.Data.Nat.ModEq

/-! # Windows on a circular buffer

A sequence without end is kept in `n` cells, its member `i` in the cell
`(base + i) % n`. The last `n` members have cells of their own.
-/

namespace Dope.Window

variable {E : Type} {n base lo i j : Nat} {cells : Nat → E} {log : List E} {entry : E}

/-- Two members less than `n` apart do not share a cell. -/
theorem slot_ne (less : i < j) (near : j < i + n) : (base + i) % n ≠ (base + j) % n := by
  intro same
  have apart : base + i ≡ base + j [MOD n] := same
  have divides : n ∣ base + j - (base + i) := (Nat.modEq_iff_dvd' (by omega)).mp apart
  have le := Nat.le_of_dvd (by omega) divides
  omega

/-- The members from `lo` on are in their cells. -/
def Holds (n base : Nat) (cells : Nat → E) (log : List E) (lo : Nat) : Prop :=
  ∀ i, lo ≤ i → i < log.length → log[i]? = some (cells ((base + i) % n))

theorem Holds.empty : Holds n base cells [] lo := by
  intro i _ inside
  cases inside

theorem Holds.mono {lo' : Nat} (h : Holds n base cells log lo) (le : lo ≤ lo') :
    Holds n base cells log lo' :=
  fun i above inside => h i (Nat.le_trans le above) inside

/-- The cells after writing members from position `base` on. -/
def written (n : Nat) : Nat → List E → (Nat → E) → Nat → E
  | _, [], cells => cells
  | base, entry :: rest, cells =>
      written n (base + 1) rest (Function.update cells (base % n) entry)

variable {entries : List E}

/-- Only the cell of the first member counts. -/
theorem written_congr {base' : Nat} (same : base % n = base' % n) :
    written n base entries cells = written n base' entries cells := by
  induction entries generalizing base base' cells with
  | nil => rfl
  | cons entry rest ih =>
    have next : (base + 1) % n = (base' + 1) % n := by
      rw [Nat.add_mod, same, ← Nat.add_mod]
    rw [written, written, same, ih next]

/-- A cell that no member has is not written. -/
theorem written_of_ne {cell : Nat} (other : ∀ i, i < entries.length → (base + i) % n ≠ cell) :
    written n base entries cells cell = cells cell := by
  induction entries generalizing base cells with
  | nil => rfl
  | cons entry rest ih =>
    have first : cell ≠ base % n := (other 0 (by simp)).symm
    have later : ∀ i, i < rest.length → (base + 1 + i) % n ≠ cell := by
      intro i inside
      have here := other (i + 1) (by simpa using inside)
      rwa [Nat.add_comm i 1, ← Nat.add_assoc] at here
    rw [written, ih later, Function.update_of_ne first]

/-- Up to `n` members at once are all written. -/
theorem written_apply {entries : List E} (fits : entries.length ≤ n) (inside : i < entries.length) :
    entries[i]? = some (written n base entries cells ((base + i) % n)) := by
  induction entries generalizing base cells i with
  | nil => cases inside
  | cons entry rest ih =>
    rw [List.length_cons] at fits inside
    cases i with
    | zero =>
      have later : ∀ j, j < rest.length → (base + 1 + j) % n ≠ base % n := by
        intro j below
        have apart : (base + 0) % n ≠ (base + (j + 1)) % n := slot_ne (by omega) (by omega)
        rw [Nat.add_comm j 1, ← Nat.add_assoc] at apart
        exact apart.symm
      have place : base + 0 = base := Nat.add_zero base
      rw [written, place, written_of_ne later, Function.update_self]
      rfl
    | succ i =>
      have place : base + (i + 1) = base + 1 + i := by omega
      rw [written, place, List.getElem?_cons_succ]
      exact ih (by omega) (by omega)

/-- Members that fit behind the kept ones leave them in their cells. -/
theorem Holds.written (h : Holds n base cells log lo) (le : lo ≤ log.length)
    (fits : log.length + entries.length ≤ lo + n) :
    Holds n base (written n (base + log.length) entries cells) (log ++ entries) lo := by
  intro i above inside
  rw [List.length_append] at inside
  by_cases old : i < log.length
  · have apart : ∀ j, j < entries.length → (base + log.length + j) % n ≠ (base + i) % n := by
      intro j below
      rw [Nat.add_assoc]
      exact (slot_ne (by omega) (by omega)).symm
    rw [List.getElem?_append_left old, h i above old, written_of_ne apart]
  · have place : base + i = base + log.length + (i - log.length) := by omega
    rw [List.getElem?_append_right (by omega), place]
    exact written_apply (by omega) (by omega)

/-- The cells of the kept members are not written. -/
theorem written_kept (above : lo ≤ i) (below : i < log.length)
    (fits : log.length + entries.length ≤ lo + n) :
    written n (base + log.length) entries cells ((base + i) % n) = cells ((base + i) % n) := by
  apply written_of_ne
  intro j inside
  rw [Nat.add_assoc]
  exact (slot_ne (by omega) (by omega)).symm

end Dope.Window
