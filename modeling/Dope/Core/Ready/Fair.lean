import Dope.Core.Ready.Log

/-! # Fairness of the ready set

While a side is drained, every index on it is activated at most once, and what
comes meanwhile goes to the other side. An index that waits is passed by another
one at most once on either side.
-/

namespace Dope.Core.Ready

theorem Side.other_ne (side : Side) : side.other ≠ side := by cases side <;> decide

@[simp] theorem Side.other_other (side : Side) : side.other.other = side := by cases side <;> rfl

open Event

variable {queued queued' : Side → Nat → Bool} {log : List Event} {side : Side} {index : Nat}

/-- While a side is drained, what it has not handed over yet still counts
against the indices that wait. -/
def Fair (queued : Side → Nat → Bool) (log : List Event) (side : Side) : Prop :=
  ∀ i j, j ≠ i →
    (queued side i = true → since i j log + (queued side j).toNat ≤ 2) ∧
    (queued side.other i = true → since i j log + (queued side j).toNat ≤ 1)

/-- An idle set has activated nothing since its indices came. -/
def Rested (queued : Side → Nat → Bool) (log : List Event) (active : Side) : Prop :=
  (∀ i, queued active.other i = false) ∧
    ∀ i, queued active i = true → ∀ j, since i j log = 0

def Settled (queued : Side → Nat → Bool) (log : List Event) (mode : Mode) : Prop :=
  match mode.phase with
  | .idle => Rested queued log mode.active
  | .draining | .paused _ => Fair queued log mode.active.other

theorem Rested.fair (h : Rested queued log side) : Fair queued log side := by
  intro i j _
  refine ⟨?_, ?_⟩
  · intro on
    have zero := h.2 i on j
    have small := Bool.toNat_le (queued side j)
    omega
  · intro on
    rw [h.1 i] at on
    cases on

/-- When a side is empty the other one takes its turn. -/
theorem Fair.turn (h : Fair queued log side) (empty : ∀ i, queued side i = false) :
    Fair queued log side.other := by
  intro i j apart
  rcases h i j apart with ⟨-, behind⟩
  refine ⟨?_, ?_⟩
  · intro on
    have before := behind on
    have small := Bool.toNat_le (queued side.other j)
    omega
  · intro on
    rw [Side.other_other, empty i] at on
    cases on

theorem Fair.insert (h : Fair queued log side)
    (turned : ∀ s i, queued' s i = if s = side.other ∧ i = index then true else queued s i)
    (free : ∀ s, queued s index = false) : Fair queued' (.inserted index :: log) side := by
  have same : ∀ i, queued' side i = queued side i := by
    intro i
    rw [turned, if_neg (fun both => side.other_ne both.1.symm)]
  intro i j apart
  rcases h i j apart with ⟨ahead, behind⟩
  rw [same, same]
  unfold since
  by_cases mine : index = i
  · rw [if_pos mine, ← mine, free side]
    refine ⟨(nomatch ·), ?_⟩
    intro _
    have small := Bool.toNat_le (queued side j)
    omega
  · rw [if_neg mine, turned side.other i, if_neg (fun both => mine both.2.symm)]
    exact ⟨ahead, behind⟩

variable {side' : Side}

theorem Fair.remove (h : Fair queued log side)
    (turned : ∀ s i, queued' s i = if s = side' ∧ i = index then false else queued s i) :
    Fair queued' (.removed index :: log) side := by
  have less : ∀ s i, queued' s i = true → queued s i = true := by
    intro s i on
    rw [turned] at on
    split at on
    · cases on
    · exact on
  have fewer : ∀ j, (queued' side j).toNat ≤ (queued side j).toNat := by
    intro j
    cases on : queued' side j with
    | false => exact Nat.zero_le _
    | true =>
      exact Nat.le_of_eq (by rw [less side j on])
  intro i j apart
  rcases h i j apart with ⟨ahead, behind⟩
  have small := fewer j
  unfold since
  refine ⟨?_, ?_⟩
  · intro on
    have before := ahead (less side i on)
    omega
  · intro on
    have before := behind (less side.other i on)
    omega

theorem Fair.activate (h : Fair queued log side) (on : queued side index = true)
    (single : queued side.other index = false)
    (turned : ∀ s i, queued' s i = if s = side ∧ i = index then false else queued s i) :
    Fair queued' (.activated index :: log) side := by
  have other : ∀ i, queued' side.other i = queued side.other i := by
    intro i
    rw [turned, if_neg (fun both => side.other_ne both.1)]
  intro i j apart
  rcases h i j apart with ⟨ahead, behind⟩
  rw [other]
  unfold since
  by_cases here : i = index
  · subst here
    rw [turned, if_pos ⟨rfl, rfl⟩, single]
    exact ⟨(nomatch ·), (nomatch ·)⟩
  · rw [turned side i, if_neg (fun both => here both.2)]
    by_cases mine : index = j
    · -- its bit leaves the side as it is counted
      subst mine
      rw [if_pos rfl, turned side index, if_pos ⟨rfl, rfl⟩]
      rw [on] at ahead behind
      exact ⟨ahead, behind⟩
    · rw [if_neg mine, turned side j, if_neg (fun both => mine both.2.symm)]
      exact ⟨ahead, behind⟩

theorem Fair.bound (h : Fair queued log side) {i j : Nat} (apart : j ≠ i)
    (on : queued side' i = true) : since i j log ≤ 2 := by
  rcases h i j apart with ⟨ahead, behind⟩
  by_cases same : side' = side
  · subst same
    have before := ahead on
    omega
  · rw [Side.eq_other same] at on
    have before := behind on
    omega

theorem Rested.insert (h : Rested queued log side)
    (turned : ∀ s i, queued' s i = if s = side ∧ i = index then true else queued s i) :
    Rested queued' (.inserted index :: log) side := by
  refine ⟨?_, ?_⟩
  · intro i
    rw [turned, if_neg (fun both => side.other_ne both.1)]
    exact h.1 i
  · intro i on j
    unfold since
    by_cases mine : index = i
    · rw [if_pos mine]
    · rw [turned, if_neg (fun both => mine both.2.symm)] at on
      rw [if_neg mine]
      exact h.2 i on j

theorem Rested.remove (h : Rested queued log side)
    (turned : ∀ s i, queued' s i = if s = side' ∧ i = index then false else queued s i) :
    Rested queued' (.removed index :: log) side := by
  refine ⟨?_, ?_⟩
  · intro i
    rw [turned]
    split
    · rfl
    · exact h.1 i
  · intro i on j
    rw [turned] at on
    split at on
    · cases on
    · exact h.2 i on j

variable {mode : Mode}

theorem Settled.insert (h : Settled queued log mode)
    (turned : ∀ s i, queued' s i = if s = mode.active ∧ i = index then true else queued s i)
    (free : ∀ s, queued s index = false) : Settled queued' (.inserted index :: log) mode := by
  unfold Settled at h ⊢
  split at h
  · exact h.insert turned
  all_goals
    refine Fair.insert h ?_ free
    rw [Side.other_other]
    exact turned

theorem Settled.remove (h : Settled queued log mode)
    (turned : ∀ s i, queued' s i = if s = side' ∧ i = index then false else queued s i) :
    Settled queued' (.removed index :: log) mode := by
  unfold Settled at h ⊢
  split at h
  · exact h.remove turned
  all_goals exact Fair.remove h turned

theorem Settled.bound (h : Settled queued log mode) {i j : Nat} (apart : j ≠ i)
    (on : queued side' i = true) : since i j log ≤ 2 := by
  unfold Settled at h
  split at h
  · exact h.fair.bound apart on
  all_goals exact Fair.bound h apart on

theorem settled_draining : Settled queued log (.draining side) ↔ Fair queued log side := by
  cases side <;> rfl

theorem settled_paused : Settled queued log (.paused side) ↔ Fair queued log side := by
  cases side <;> rfl

theorem settled_idle : Settled queued log (.idle side) ↔ Rested queued log side := by
  cases side <;> rfl

end Dope.Core.Ready
