import Mathlib.Data.List.Nodup
import Mathlib.Logic.Function.Basic

/-! # Members filed in lanes

A member stands in one lane at most. It moves to the back of a lane, leaving
the lane it stood in, or leaves its lane.
-/

namespace Dope.Lanes

open Function

variable {L : Nat} {α : Type} [DecidableEq α]

def unlink (lanes : Fin L → List α) (a : α) : Fin L → List α := fun K => (lanes K).erase a

def moveToBack (lanes : Fin L → List α) (a : α) (K : Fin L) : Fin L → List α :=
  update (unlink lanes a) K (unlink lanes a K ++ [a])

/-- Every member stands where `filed` says, and once. -/
structure Filed (lanes : Fin L → List α) (filed : α → Option (Fin L)) : Prop where
  nodup : ∀ K, (lanes K).Nodup
  mem : ∀ K a, a ∈ lanes K ↔ filed a = some K

variable {lanes : Fin L → List α} {filed : α → Option (Fin L)} {a : α} {K : Fin L}

omit [DecidableEq α] in
theorem filed_empty : Filed (fun _ : Fin L => ([] : List α)) fun _ => none :=
  ⟨fun _ => List.nodup_nil, by simp⟩

theorem Filed.unlink (h : Filed lanes filed) :
    Filed (unlink lanes a) (update filed a none) where
  nodup K := (h.nodup K).erase a
  mem K b := by
    rw [Lanes.unlink, (h.nodup K).mem_erase_iff, h.mem]
    by_cases same : b = a
    · subst same
      simp
    · simp [same]

theorem Filed.moveToBack (h : Filed lanes filed) :
    Filed (moveToBack lanes a K) (update filed a (some K)) where
  nodup J := by
    have out : a ∉ Lanes.unlink lanes a K := (h.nodup K).not_mem_erase
    by_cases here : J = K
    · subst here
      rw [Lanes.moveToBack, update_self]
      exact ((h.nodup J).erase a).append (List.nodup_singleton a)
        (by simpa [Lanes.unlink] using out)
    · rw [Lanes.moveToBack, update_of_ne here]
      exact (h.nodup J).erase a
  mem J b := by
    have rest := (h.unlink (a := a)).mem J b
    by_cases here : J = K
    · subst here
      rw [Lanes.moveToBack, update_self, List.mem_append, rest]
      by_cases same : b = a
      · subst same
        simp
      · simp [same]
    · rw [Lanes.moveToBack, update_of_ne here, rest]
      by_cases same : b = a
      · subst same
        simpa using fun eq : K = J => here eq.symm
      · simp [same]

omit [DecidableEq α] in
theorem Filed.front (h : Filed lanes filed) (front : (lanes K).head? = some a) : filed a = some K :=
  (h.mem K a).mp (List.mem_of_mem_head? front)

end Dope.Lanes
