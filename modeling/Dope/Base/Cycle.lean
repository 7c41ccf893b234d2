import Mathlib.Data.List.Rotate

/-! # Rings without duplicates

A ring is the list of its members from its head on. A member enters at the
back, leaves from anywhere, and a step moves the head to the back.
-/

namespace Dope.Cycle

variable {α : Type} {ring : List α} {a b : α}

/-! ## Steps -/

/-- The head, and the ring after the step. -/
def next (ring : List α) : Option α × List α := (ring.head?, ring.rotate 1)

@[simp] theorem mem_next : a ∈ (next ring).2 ↔ a ∈ ring := List.mem_rotate

theorem nodup_next (nodup : ring.Nodup) : (next ring).2.Nodup := List.nodup_rotate.mpr nodup

theorem next_mem (head : (next ring).1 = some a) : a ∈ ring := List.mem_of_mem_head? head

theorem next_isSome : (∃ a, (next ring).1 = some a) ↔ ∃ a, a ∈ ring := by
  cases ring with
  | nil | cons => simp [next]

/-- The ring after `k` steps. -/
def turn : Nat → List α → List α
  | 0, ring => ring
  | k + 1, ring => turn k (next ring).2

theorem turn_eq (k : Nat) (ring : List α) : turn k ring = ring.rotate k := by
  induction k generalizing ring with
  | zero => simp [turn]
  | succ k ih =>
    rw [turn, ih, next, List.rotate_rotate]
    congr 1
    omega

/-- The step after `k` steps answers with the member `k` places on, around the ring. -/
theorem next_turn (k : Nat) (ring : List α) : (next (turn k ring)).1 = ring[k % ring.length]? := by
  rw [turn_eq]
  cases ring with
  | nil => simp [next]
  | cons a rest =>
    have short : k % (a :: rest).length < (a :: rest).length := Nat.mod_lt _ (by simp)
    rw [next, ← List.rotate_mod, List.head?_rotate short]

/-! ## Members -/

variable [DecidableEq α]

/-- A member that is in the ring stays where it is. -/
def push (ring : List α) (a : α) : List α := if a ∈ ring then ring else ring ++ [a]

def unlink (ring : List α) (a : α) : List α := ring.erase a

theorem mem_push : b ∈ push ring a ↔ b ∈ ring ∨ b = a := by
  unfold push
  by_cases linked : a ∈ ring
  · rw [if_pos linked]
    constructor
    · exact Or.inl
    · rintro (mem | rfl)
      · exact mem
      · exact linked
  · simp [linked]

theorem nodup_push (nodup : ring.Nodup) : (push ring a).Nodup := by
  unfold push
  by_cases linked : a ∈ ring
  · rw [if_pos linked]
    exact nodup
  · rw [if_neg linked]
    exact nodup.append (List.nodup_singleton a) (by simpa using linked)

theorem mem_unlink (nodup : ring.Nodup) : b ∈ unlink ring a ↔ b ∈ ring ∧ b ≠ a := by
  rw [unlink, nodup.mem_erase_iff]
  exact And.comm

theorem nodup_unlink (nodup : ring.Nodup) : (unlink ring a).Nodup := nodup.erase a

end Dope.Cycle
