import Mathlib.Data.List.Range
import Mathlib.Logic.Function.Basic

/-! # Spans of a sequence

A sequence gives a value to every position. A span of it is reversed in place by
swaps, and two neighbouring spans change places by three reversals.
-/

namespace Dope.Span

variable {α : Type} {m : Nat → α}

def swap (m : Nat → α) (i j : Nat) : Nat → α :=
  Function.update (Function.update m i (m j)) j (m i)

theorem swap_apply (m : Nat → α) (i j k : Nat) :
    swap m i j k = if k = j then m i else if k = i then m j else m k := by
  unfold swap
  rw [Function.update_apply, Function.update_apply]

/-! ## Reversal -/

/-- The first `n` swaps of a reversal, from the two ends inwards. -/
def swaps (m : Nat → α) (start stop : Nat) : Nat → Nat → α
  | 0 => m
  | n + 1 => swap (swaps m start stop n) (start + n) (stop - 1 - n)

def reverse (m : Nat → α) (start stop : Nat) : Nat → α :=
  swaps m start stop ((stop - start) / 2)

theorem swaps_apply {start stop : Nat} (n : Nat) (fit : 2 * n ≤ stop - start) (k : Nat) :
    swaps m start stop n k =
      if (start ≤ k ∧ k < start + n) ∨ (stop - n ≤ k ∧ k < stop) then m (start + stop - 1 - k)
      else m k := by
  induction n generalizing k with
  | zero =>
    rw [if_neg (by omega)]
    rfl
  | succ n ih =>
    have inner := ih (by omega)
    show swap (swaps m start stop n) (start + n) (stop - 1 - n) k = _
    rw [swap_apply, inner (start + n), inner (stop - 1 - n), inner k]
    by_cases right : k = stop - 1 - n
    · rw [if_pos right, if_neg (by omega), if_pos (by omega), right]
      congr 1
      omega
    · rw [if_neg right]
      by_cases left : k = start + n
      · rw [if_pos left, if_neg (by omega), if_pos (by omega), left]
        congr 1
        omega
      · rw [if_neg left]
        by_cases inside : (start ≤ k ∧ k < start + n) ∨ (stop - n ≤ k ∧ k < stop)
        · rw [if_pos inside, if_pos (by omega)]
        · rw [if_neg inside, if_neg (by omega)]

theorem reverse_apply (m : Nat → α) (start stop k : Nat) :
    reverse m start stop k =
      if start ≤ k ∧ k < stop then m (start + stop - 1 - k) else m k := by
  unfold reverse
  rw [swaps_apply _ (by omega)]
  by_cases inside : start ≤ k ∧ k < stop
  · rw [if_pos inside]
    by_cases swapped : (start ≤ k ∧ k < start + (stop - start) / 2) ∨
        (stop - (stop - start) / 2 ≤ k ∧ k < stop)
    · rw [if_pos swapped]
    · -- the middle of an odd span stays
      rw [if_neg swapped]
      congr 1
      omega
  · rw [if_neg inside, if_neg (by omega)]

theorem reverse_out {start stop k : Nat} (out : k < start ∨ stop ≤ k) :
    reverse m start stop k = m k := by
  rw [reverse_apply, if_neg (by omega)]

/-! ## Rotation -/

def rotate (m : Nat → α) (start middle stop : Nat) : Nat → α :=
  reverse (reverse (reverse m start middle) middle stop) start stop

section
variable {start middle stop k : Nat} (low : start ≤ middle) (high : middle ≤ stop)
include low high

/-- The second span comes first. -/
theorem rotate_first (lower : start ≤ k) (upper : k < start + (stop - middle)) :
    rotate m start middle stop k = m (k + (middle - start)) := by
  unfold rotate
  rw [reverse_apply, if_pos (by omega), reverse_apply, if_pos (by omega), reverse_apply,
    if_neg (by omega)]
  congr 1
  omega

omit low in
/-- The first span comes second. -/
theorem rotate_second (lower : start + (stop - middle) ≤ k) (upper : k < stop) :
    rotate m start middle stop k = m (k - (stop - middle)) := by
  unfold rotate
  rw [reverse_apply, if_pos (by omega), reverse_apply, if_neg (by omega), reverse_apply,
    if_pos (by omega)]
  congr 1
  omega

theorem rotate_out (out : k < start ∨ stop ≤ k) : rotate m start middle stop k = m k := by
  unfold rotate
  rw [reverse_out out, reverse_out (by omega), reverse_out (by omega)]

end

/-! ## Counting -/

/-- A count in a span where one position is judged anew. -/
theorem countP_update {p q : Nat → Bool} {start len k : Nat} (lower : start ≤ k)
    (upper : k < start + len) (same : ∀ j, start ≤ j → j < start + len → j ≠ k → q j = p j) :
    (List.range' start len).countP q + (p k).toNat =
      (List.range' start len).countP p + (q k).toNat := by
  induction len generalizing start with
  | zero => omega
  | succ len ih =>
    rw [List.range'_succ, List.countP_cons, List.countP_cons]
    by_cases first : start = k
    · have rest : (List.range' (start + 1) len).countP q =
          (List.range' (start + 1) len).countP p := by
        refine List.countP_congr ?_
        intro j mem
        have inside := List.mem_range'_1.mp mem
        rw [same j (by omega) (by omega) (by omega)]
      rw [rest, first]
      cases p k <;> cases q k <;> simp
    · have rest := @ih (start + 1) (by omega) (by omega)
        (fun j low high => same j (by omega) (by omega))
      rw [same start (Nat.le_refl _) (by omega) first]
      omega

theorem countP_zero {p : Nat → Bool} {start len : Nat} :
    (List.range' start len).countP p = 0 ↔ ∀ k, start ≤ k → k < start + len → p k = false := by
  rw [List.countP_eq_zero]
  refine ⟨?_, ?_⟩
  · intro none k low high
    exact eq_false_of_ne_true (none k (List.mem_range'_1.mpr ⟨low, high⟩))
  · intro none k mem
    rw [none k (List.mem_range'_1.mp mem).1 (List.mem_range'_1.mp mem).2]
    exact Bool.false_ne_true

end Dope.Span
