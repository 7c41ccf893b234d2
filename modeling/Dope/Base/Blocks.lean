import Mathlib.Data.List.Basic
import Mathlib.Data.List.TakeDrop

/-! # Blocks of a stream

A stream is consumed in blocks of one size, and what is too short for a block is
kept. However a stream is cut into pieces, the same blocks come out.
-/

namespace Dope.Blocks

universe u v

variable {σ : Type u} {α : Type v}

/-- The state after every whole block, and what is left over. -/
def feed (size : Nat) (step : σ → List α → σ) (state : σ) (items : List α) : σ × List α :=
  if _ : 0 < size ∧ size ≤ items.length then
    feed size step (step state (items.take size)) (items.drop size)
  else (state, items)
termination_by items.length
decreasing_by
  rw [List.length_drop]
  omega

variable {size : Nat} {step : σ → List α → σ}

theorem feed_short {state : σ} {items : List α} (short : items.length < size) :
    feed size step state items = (state, items) := by
  rw [feed, dif_neg (by omega)]

theorem feed_block (positive : 0 < size) {state : σ} {items : List α} (long : size ≤ items.length) :
    feed size step state items =
      feed size step (step state (items.take size)) (items.drop size) := by
  rw [feed, dif_pos ⟨positive, long⟩]

/-- What is left over comes before what follows. -/
theorem feed_append (state : σ) (items more : List α) :
    feed size step state (items ++ more) =
      feed size step (feed size step state items).1
        ((feed size step state items).2 ++ more) := by
  induction state, items using feed.induct size step with
  | case1 state items long ih =>
    rw [feed_block long.1 long.2, ← ih, feed_block long.1 (by
      rw [List.length_append]
      omega), List.take_append_of_le_length long.2, List.drop_append_of_le_length long.2]
  | case2 state items short =>
    have kept : feed size step state items = (state, items) := by
      rw [feed, dif_neg short]
    rw [kept]

theorem feed_rest_length (positive : 0 < size) (state : σ) (items : List α) :
    (feed size step state items).2.length = items.length % size := by
  induction state, items using feed.induct size step with
  | case1 state items long ih =>
    rw [feed_block long.1 long.2, ih, List.length_drop, Nat.mod_eq_sub_mod long.2]
  | case2 state items short =>
    have below : items.length < size := by omega
    rw [feed_short below, Nat.mod_eq_of_lt below]

/-- The blocks one by one, counted from the front of the stream. -/
theorem feed_eq_foldl (positive : 0 < size) (state : σ) (items : List α) :
    (feed size step state items).1 =
      (List.range (items.length / size)).foldl
        (fun state block => step state ((items.drop (size * block)).take size)) state := by
  induction state, items using feed.induct size step with
  | case1 state items long ih =>
    have count : items.length / size = (items.drop size).length / size + 1 := by
      rw [List.length_drop, Nat.div_eq_sub_div long.1 long.2]
    rw [feed_block long.1 long.2, ih, count, List.range_succ_eq_map, List.foldl_cons,
      List.foldl_map, Nat.mul_zero, List.drop_zero]
    simp only [List.drop_drop, Nat.mul_succ, Nat.add_comm]
  | case2 state items short =>
    have below : items.length < size := by omega
    rw [feed_short below, Nat.div_eq_of_lt below]
    rfl

end Dope.Blocks
