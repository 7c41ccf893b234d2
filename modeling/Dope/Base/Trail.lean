import Mathlib.Data.List.Basic
import Mathlib.Logic.Relator

/-! # Trails

A trail follows the steps of a relation and keeps the places that it left. Where
every place has at most one step out, two trails from one place are one trail
up to the end of the shorter, and a place that comes back can be passed as often
as one likes.
-/

namespace Dope

/-- From `a` to `c`, with the places on the way before `c`. -/
inductive Trail {α : Type} (step : α → α → Prop) : α → List α → α → Prop where
  | here {a : α} : Trail step a [] a
  | hop {a b c : α} {visited : List α} :
      step a b → Trail step b visited c → Trail step a (a :: visited) c

namespace Trail

variable {α : Type} {step : α → α → Prop} {a b c : α} {left right visited : List α}

theorem append (h : Trail step a left b) (h' : Trail step b right c) :
    Trail step a (left ++ right) c := by
  induction h with
  | here => exact h'
  | hop first _ ih => exact .hop first (ih h')

theorem snoc (h : Trail step a visited b) (next : step b c) : Trail step a (visited ++ [b]) c :=
  h.append (.hop next .here)

/-- Every place on the way was left by a step. -/
theorem leaves (h : Trail step a visited b) : ∀ place ∈ visited, ∃ next, step place next := by
  induction h with
  | here => simp
  | hop first _ ih =>
    intro place mem
    rcases List.mem_cons.mp mem with rfl | mem
    · exact ⟨_, first⟩
    · exact ih place mem

/-- The part of a trail from a place on the way. -/
theorem tail (h : Trail step a visited b) {place : α} (mem : place ∈ visited) :
    ∃ rest, rest ≠ [] ∧ Trail step place rest b := by
  induction h with
  | here => simp at mem
  | @hop a b c visited first rest ih =>
    rcases List.mem_cons.mp mem with rfl | mem
    · exact ⟨place :: visited, by simp, .hop first rest⟩
    · exact ih mem

/-- A trail that comes back goes on for ever. -/
theorem loop (h : Trail step a visited b) (back : b ∈ visited) (n : Nat) :
    ∃ longer, n ≤ longer.length ∧ Trail step a longer b := by
  obtain ⟨round, some, circle⟩ := h.tail back
  have long := List.length_pos_iff.mpr some
  induction n with
  | zero => exact ⟨visited, Nat.zero_le _, h⟩
  | succ n ih =>
    obtain ⟨longer, enough, trail⟩ := ih
    refine ⟨longer ++ round, ?_, trail.append circle⟩
    rw [List.length_append]
    omega

/-- The first `n` steps of a trail. -/
theorem take (h : Trail step a visited b) (n : Nat) :
    ∃ place, Trail step a (visited.take n) place := by
  induction h generalizing n with
  | here => exact ⟨_, by simpa using Trail.here⟩
  | hop first rest ih =>
    cases n with
    | zero => exact ⟨_, .here⟩
    | succ n =>
      obtain ⟨place, trail⟩ := ih n
      exact ⟨place, .hop first trail⟩

section

variable (single : Relator.RightUnique step) (h : Trail step a left b)

include single h

/-- With one step out of every place, the longer trail goes on where the shorter
one ends. -/
theorem extend (h' : Trail step a right c) (short : left.length ≤ right.length) :
    ∃ rest, right = left ++ rest ∧ Trail step b rest c := by
  induction h generalizing right with
  | here => exact ⟨right, rfl, h'⟩
  | hop first _ ih =>
    cases h' with
    | here => simp at short
    | hop first' trail =>
      obtain rfl := single first first'
      obtain ⟨rest, same, trail⟩ := ih trail (by simpa using short)
      exact ⟨rest, by rw [same, List.cons_append], trail⟩

/-- A trail does not go beyond a place without a step out. -/
theorem length_le (stuck : ∀ next, ¬ step b next) (h' : Trail step a right c) :
    right.length ≤ left.length := by
  rcases Nat.le_total right.length left.length with le | le
  · exact le
  · obtain ⟨rest, same, trail⟩ := h.extend single h' le
    cases trail with
    | here => simp [same]
    | hop first _ => exact absurd first (stuck _)

/-- Two trails to places without a step out are one. -/
theorem unique (stuck : ∀ next, ¬ step b next) (h' : Trail step a right c)
    (stuck' : ∀ next, ¬ step c next) : left = right ∧ b = c := by
  have le := h'.length_le single stuck' h
  obtain ⟨rest, same, trail⟩ := h.extend single h' le
  cases trail with
  | here => exact ⟨by rw [same, List.append_nil], rfl⟩
  | hop first _ => exact absurd first (stuck _)

end

end Trail

end Dope
