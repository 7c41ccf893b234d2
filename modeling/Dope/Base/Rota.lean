import Mathlib.Data.List.Perm.Basic
import Mathlib.Data.List.Nodup
import Mathlib.Logic.Function.Basic

/-! # Chains in a ring

Members stand in chains, one chain a key, and a ring holds the keys whose chains
are not empty. A member joins its chain at the back and leaves from anywhere. Its
key joins the ring with the first member and leaves with the last one.
-/

namespace Dope.Rota

open Function

variable {κ α : Type} [DecidableEq κ] [DecidableEq α]

/-- Every member stands where `filed` says, and once, and the ring has what waits. -/
structure Joined (chains : κ → List α) (ring : List κ) (filed : α → Option κ) : Prop where
  nodup : ∀ k, (chains k).Nodup
  mem : ∀ k a, a ∈ chains k ↔ filed a = some k
  once : ring.Nodup
  waits : ∀ k, k ∈ ring ↔ chains k ≠ []

variable {chains : κ → List α} {ring ring' : List κ} {filed : α → Option κ} {a : α} {k : κ}

omit [DecidableEq κ] [DecidableEq α] in
theorem joined_empty : Joined (fun _ : κ => ([] : List α)) [] fun _ => none :=
  ⟨fun _ => List.nodup_nil, by simp, List.nodup_nil, by simp⟩

theorem Joined.insert (h : Joined chains ring filed) (out : filed a = none) :
    Joined (update chains k (chains k ++ [a]))
      (if chains k = [] then ring ++ [k] else ring) (update filed a (some k)) where
  nodup l := by
    by_cases here : l = k
    · subst here
      rw [update_self]
      refine (h.nodup l).append (List.nodup_singleton a) ?_
      simp [h.mem, out]
    · rw [update_of_ne here]
      exact h.nodup l
  mem l b := by
    by_cases here : l = k <;> by_cases same : b = a
    · subst here same
      simp
    · subst here
      rw [update_self, update_of_ne same, List.mem_append, h.mem]
      simp [same]
    · subst same
      rw [update_of_ne here, update_self, h.mem, out]
      simp [Ne.symm here]
    · rw [update_of_ne here, update_of_ne same, h.mem]
  once := by
    split
    · next empty =>
        refine h.once.append (List.nodup_singleton k) ?_
        simp [h.waits, empty]
    · exact h.once
  waits l := by
    by_cases here : l = k
    · subst here
      rw [update_self]
      split
      · simp
      · next waits => simp [h.waits, waits]
    · rw [update_of_ne here]
      split
      · simp [here, h.waits]
      · exact h.waits l

theorem Joined.erase (h : Joined chains ring filed) (stands : filed a = some k) :
    Joined (update chains k ((chains k).erase a))
      (if (chains k).erase a = [] then ring.erase k else ring)
      (update filed a none) where
  nodup l := by
    by_cases here : l = k
    · subst here
      rw [update_self]
      exact (h.nodup l).erase a
    · rw [update_of_ne here]
      exact h.nodup l
  mem l b := by
    by_cases here : l = k <;> by_cases same : b = a
    · subst here same
      rw [update_self, update_self, (h.nodup l).mem_erase_iff]
      simp
    · subst here
      rw [update_self, update_of_ne same, (h.nodup l).mem_erase_iff, h.mem]
      simp [same]
    · subst same
      rw [update_of_ne here, update_self, h.mem, stands]
      simp [Ne.symm here]
    · rw [update_of_ne here, update_of_ne same, h.mem]
  once := by
    split
    · exact h.once.erase k
    · exact h.once
  waits l := by
    by_cases here : l = k
    · subst here
      rw [update_self]
      split
      · next empty => simp [h.once.mem_erase_iff, empty]
      · next more =>
          rw [h.waits]
          exact iff_of_true (List.ne_nil_of_mem ((h.mem l a).mpr stands)) more
    · rw [update_of_ne here]
      split
      · rw [h.once.mem_erase_iff, h.waits]
        simp [here]
      · exact h.waits l

omit [DecidableEq κ] [DecidableEq α] in
/-- The ring may turn. -/
theorem Joined.turn (h : Joined chains ring filed) (perm : ring'.Perm ring) :
    Joined chains ring' filed where
  nodup := h.nodup
  mem := h.mem
  once := perm.nodup_iff.mpr h.once
  waits k := perm.mem_iff.trans (h.waits k)

/-- The first member of a chain leaves, and the ring may turn if it has more. -/
theorem Joined.behead (h : Joined chains ring filed) {rest : List α} (chain : chains k = a :: rest)
    (perm : k ∈ ring → ring'.Perm ring) :
    Joined (update chains k rest) (if rest = [] then ring.erase k else ring')
      (update filed a none) := by
  have stands := (h.mem k a).mp (by rw [chain]; exact List.mem_cons_self)
  have left := h.erase stands
  have same : (chains k).erase a = rest := by rw [chain, List.erase_cons_head]
  rw [same] at left
  by_cases last : rest = []
  · rw [if_pos last] at left ⊢
    exact left
  · rw [if_neg last] at left ⊢
    exact left.turn (perm ((h.waits k).mpr (by simp [chain])))

end Dope.Rota
