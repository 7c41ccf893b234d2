import Mathlib.Data.Fintype.Card
import Mathlib.Data.Finset.Card

/-! # Counting occupied slots

A table of slots, and how many of them hold something of a kind.
-/

namespace Dope.Tally

open Function

variable {m : Nat} {α : Type}

/-- How many slots hold a value of the kind `p`. -/
def tally (p : α → Prop) [DecidablePred p] (slots : Fin m → Option α) : Nat :=
  (Finset.univ.filter fun i => ∃ a ∈ slots i, p a).card

variable {p : α → Prop} [DecidablePred p] {slots : Fin m → Option α} {i : Fin m}

theorem tally_empty : tally p (fun _ : Fin m => (none : Option α)) = 0 := by
  simp [tally]

theorem tally_le : tally p slots ≤ m := by
  have le := Finset.card_filter_le (Finset.univ : Finset (Fin m)) fun i => ∃ a ∈ slots i, p a
  simpa [tally] using le

theorem tally_pos {a : α} (held : slots i = some a) (kind : p a) : 0 < tally p slots := by
  apply Finset.card_pos.mpr
  exact ⟨i, by simp [held, kind]⟩

theorem exists_of_tally_pos (h : 0 < tally p slots) : ∃ i a, slots i = some a ∧ p a := by
  rcases Finset.card_pos.mp h with ⟨i, mem⟩
  rcases (Finset.mem_filter.mp mem).2 with ⟨a, held, kind⟩
  exact ⟨i, a, held, kind⟩

/-- A vacant slot is filled. -/
theorem tally_place (vacant : slots i = none) (a : α) :
    tally p (update slots i (some a)) = tally p slots + if p a then 1 else 0 := by
  by_cases kind : p a
  · have grown : (Finset.univ.filter fun j => ∃ b ∈ update slots i (some a) j, p b) =
        insert i (Finset.univ.filter fun j => ∃ b ∈ slots j, p b) := by
      ext j
      by_cases same : j = i
      · subst same
        simp [kind]
      · simp [same]
    have fresh : i ∉ Finset.univ.filter fun j => ∃ b ∈ slots j, p b := by simp [vacant]
    rw [tally, grown, Finset.card_insert_of_notMem fresh, if_pos kind, tally]
  · have same : (Finset.univ.filter fun j => ∃ b ∈ update slots i (some a) j, p b) =
        Finset.univ.filter fun j => ∃ b ∈ slots j, p b := by
      ext j
      by_cases same : j = i
      · subst same
        simp [kind, vacant]
      · simp [same]
    rw [tally, same, if_neg kind, tally, Nat.add_zero]

theorem tally_clear {a : α} (held : slots i = some a) :
    tally p slots = tally p (update slots i none) + if p a then 1 else 0 := by
  have back : slots = update (update slots i none) i (some a) := by
    rw [update_idem, ← held, update_eq_self]
  have placed : tally p (update (update slots i none) i (some a)) =
      tally p (update slots i none) + if p a then 1 else 0 :=
    tally_place (update_self ..) a
  rw [← back] at placed
  exact placed

/-- A value is replaced by another of the same kind. -/
theorem tally_change {a b : α} (held : slots i = some a) (same : p a ↔ p b) :
    tally p (update slots i (some b)) = tally p slots := by
  have cleared : tally p slots =
      tally p (update slots i none) + if p a then 1 else 0 := tally_clear held
  have placed : tally p (update (update slots i none) i (some b)) =
      tally p (update slots i none) + if p b then 1 else 0 :=
    tally_place (update_self ..) b
  rw [update_idem] at placed
  rw [placed, cleared]
  simp [same]

theorem tally_mono {β : Type} {q : β → Prop} [DecidablePred q] {slots' : Fin m → Option β}
    (h : ∀ i a, slots i = some a → p a → ∃ b, slots' i = some b ∧ q b) :
    tally p slots ≤ tally q slots' := by
  apply Finset.card_le_card
  intro i mem
  rcases (Finset.mem_filter.mp mem).2 with ⟨a, held, kind⟩
  rcases h i a held kind with ⟨b, held', kind'⟩
  exact Finset.mem_filter.mpr ⟨Finset.mem_univ i, b, held', kind'⟩

/-- As many slots are occupied as a list of them holds. -/
theorem length_filterMap (slots : Fin m → Option α) :
    ((List.finRange m).filterMap slots).length = tally (fun _ => True) slots := by
  rw [List.length_filterMap_eq_countP, List.countP_eq_length_filter,
    ← List.toFinset_card_of_nodup ((List.nodup_finRange m).filter _)]
  congr 1
  ext i
  simp [Option.isSome_iff_exists]

/-- What one slot counts for. -/
def unit (p : α → Prop) [DecidablePred p] (slot : Option α) : Nat :=
  if ∃ a ∈ slot, p a then 1 else 0

@[simp] theorem unit_none : unit p (none : Option α) = 0 := by simp [unit]

@[simp] theorem unit_some (a : α) : unit p (some a) = if p a then 1 else 0 := by simp [unit]

/-- One slot is overwritten. -/
theorem tally_update (slots : Fin m → Option α) (i : Fin m) (slot : Option α) :
    tally p (update slots i slot) + unit p (slots i) = tally p slots + unit p slot := by
  -- Both tables come out of the one where the slot is vacant.
  have fill : ∀ slot : Option α, tally p (update slots i slot) =
      tally p (update slots i none) + unit p slot := by
    intro slot
    cases slot with
    | none => simp
    | some a =>
      have placed : tally p (update (update slots i none) i (some a)) =
          tally p (update slots i none) + if p a then 1 else 0 :=
        tally_place (update_self ..) a
      rw [update_idem] at placed
      rw [placed, unit_some]
  have same := fill (slots i)
  rw [update_eq_self] at same
  rw [fill slot, same]
  omega

/-- A kind that only one slot can hold. -/
theorem tally_unique {j : Fin m} {a b : α} (le : tally p slots ≤ 1) (first : slots i = some a)
    (second : slots j = some b) (left : p a) (right : p b) : i = j :=
  Finset.card_le_one.mp le i (by simp [first, left]) j (by simp [second, right])

end Dope.Tally
