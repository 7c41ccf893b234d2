import Mathlib.Algebra.GroupWithZero.Nat
import Mathlib.Data.List.Perm.Basic
import Dope.Tasks.World

/-! # Counts of owners

The bound of a lane counts the reservations and the tasks of its owner, and the
owner changes only when there are none.
-/

namespace Dope.Tasks

open Function

variable {G : Type}

/-- How many handles and tasks a lane has. -/
def outstanding (reserved : List (Reserved G)) (attached : List (Attached G)) (lane : Nat) : Nat :=
  reserved.countP (·.lane = lane) + attached.countP (·.lane = lane)

structure Counted (owners : Nat → Owner G) (reserved : List (Reserved G))
    (attached : List (Attached G)) : Prop where
  bound : ∀ lane, (owners lane).bound = outstanding reserved attached lane
  retired : ∀ lane, (owners lane).generation = none → (owners lane).bound = 0
  reserved : ∀ held ∈ reserved, (owners held.lane).generation = some held.generation
  attached : ∀ task ∈ attached, (owners task.lane).generation = some task.generation

variable {owners owners' : Nat → Owner G} {reserved reserved' : List (Reserved G)}
  {attached attached' : List (Attached G)} {lane : Nat}

theorem outstanding_cons (held : Reserved G) (lane : Nat) :
    outstanding (held :: reserved) attached lane =
      outstanding reserved attached lane + if held.lane = lane then 1 else 0 := by
  unfold outstanding
  rw [List.countP_cons]
  simp only [decide_eq_true_eq]
  omega

theorem outstanding_attach (task : Attached G) (lane : Nat) :
    outstanding reserved (task :: attached) lane =
      outstanding reserved attached lane + if task.lane = lane then 1 else 0 := by
  unfold outstanding
  rw [List.countP_cons]
  simp only [decide_eq_true_eq]
  omega

theorem outstanding_perm (perm : reserved.Perm reserved') (perm' : attached.Perm attached')
    (lane : Nat) : outstanding reserved attached lane = outstanding reserved' attached' lane := by
  unfold outstanding
  rw [perm.countP_eq, perm'.countP_eq]

section

variable (h : Counted owners reserved attached)

include h

/-- Without handles and tasks, nothing stands in the lane. -/
theorem Counted.nothing (zero : (owners lane).bound = 0) :
    (∀ held ∈ reserved, held.lane ≠ lane) ∧ ∀ task ∈ attached, task.lane ≠ lane := by
  have none := (h.bound lane).symm.trans zero
  unfold outstanding at none
  rw [Nat.add_eq_zero_iff, List.countP_eq_zero, List.countP_eq_zero] at none
  simpa using none

theorem Counted.congr (bound : ∀ l, (owners' l).bound = (owners l).bound)
    (generation : ∀ l, (owners' l).generation = (owners l).generation) :
    Counted owners' reserved attached where
  bound l := (bound l).trans (h.bound l)
  retired l := by
    rw [generation, bound]
    exact h.retired l
  reserved held member := (generation _).trans (h.reserved held member)
  attached task member := (generation _).trans (h.attached task member)

theorem Counted.perm (perm : reserved.Perm reserved') (perm' : attached.Perm attached') :
    Counted owners reserved' attached' where
  bound l := (h.bound l).trans (outstanding_perm perm perm' l)
  retired := h.retired
  reserved held member := h.reserved held (perm.mem_iff.mpr member)
  attached task member := h.attached task (perm'.mem_iff.mpr member)

/-- A lane without handles and tasks may change its owner. -/
theorem Counted.setGeneration (zero : (owners lane).bound = 0) (generation : Option G) :
    Counted (update owners lane { owners lane with generation }) reserved attached where
  bound l := (Owner.field_update Owner.bound (by rfl) l).trans (h.bound l)
  retired l := by
    by_cases same : l = lane
    · subst same
      rw [update_self]
      exact fun _ => zero
    · rw [update_of_ne same]
      exact h.retired l
  reserved held member := by
    rw [update_of_ne ((h.nothing zero).1 held member)]
    exact h.reserved held member
  attached task member := by
    rw [update_of_ne ((h.nothing zero).2 task member)]
    exact h.attached task member

/-- One more reservation, for the owner the lane has. -/
theorem Counted.reserve (held : Reserved G)
    (current : (owners held.lane).generation = some held.generation) :
    Counted (update owners held.lane
      { owners held.lane with bound := (owners held.lane).bound + 1 })
      (held :: reserved) attached := by
  have generation : ∀ l, (update owners held.lane
      { owners held.lane with bound := (owners held.lane).bound + 1 } l).generation =
        (owners l).generation := Owner.field_update Owner.generation rfl
  constructor
  · intro l
    rw [outstanding_cons, ← h.bound l]
    by_cases same : l = held.lane
    · subst same
      simp
    · rw [update_of_ne same, if_neg (Ne.symm same)]
      rfl
  · intro l quiet
    rw [generation] at quiet
    by_cases same : l = held.lane
    · subst same
      rw [current] at quiet
      cases quiet
    · rw [update_of_ne same]
      exact h.retired l quiet
  · intro other member
    rw [generation]
    rcases List.mem_cons.mp member with rfl | member
    · exact current
    · exact h.reserved other member
  · intro task member
    rw [generation]
    exact h.attached task member

end

theorem release_generation (owners : Nat → Owner G) (lane l : Nat) :
    (update owners lane
      { owners lane with bound := (owners lane).bound - 1 } l).generation =
        (owners l).generation := Owner.field_update Owner.generation (by rfl) l

theorem Counted.release (h : Counted owners reserved attached)
    (less : ∀ l, outstanding reserved attached l =
      outstanding reserved' attached' l + if lane = l then 1 else 0)
    (held : ∀ held ∈ reserved', held ∈ reserved) (task : ∀ task ∈ attached', task ∈ attached) :
    Counted (update owners lane { owners lane with bound := (owners lane).bound - 1 })
      reserved' attached' := by
  constructor
  · intro l
    have counts := (h.bound l).trans (less l)
    by_cases same : l = lane
    · subst same
      rw [update_self, counts, if_pos rfl]
      rfl
    · rw [update_of_ne same, counts, if_neg (Ne.symm same)]
      rfl
  · intro l quiet
    rw [release_generation] at quiet
    have zero := h.retired l quiet
    by_cases same : l = lane
    · subst same
      rw [update_self]
      dsimp only
      omega
    · rw [update_of_ne same]
      exact zero
  · intro other member
    rw [release_generation]
    exact h.reserved other (held other member)
  · intro other member
    rw [release_generation]
    exact h.attached other (task other member)

theorem Counted.drop [DecidableEq G] (h : Counted owners reserved attached) {held : Reserved G}
    (member : held ∈ reserved) :
    (owners held.lane).bound ≠ 0 ∧ Counted (update owners held.lane
      { owners held.lane with bound := (owners held.lane).bound - 1 })
      (reserved.erase held) attached := by
  have split := List.perm_cons_erase member
  constructor
  · intro zero
    exact (h.nothing zero).1 held member rfl
  · apply h.release
    · intro l
      rw [outstanding_perm split (.refl _) l, outstanding_cons]
    · exact fun _ inside => List.mem_of_mem_erase inside
    · exact fun _ inside => inside

variable {task : Attached G}

theorem Counted.attach [DecidableEq G] (h : Counted owners reserved attached) {index : Option Nat}
    (member : ⟨task.lane, index, task.generation⟩ ∈ reserved) :
    Counted owners (reserved.erase ⟨task.lane, index, task.generation⟩) (task :: attached) where
  bound l := by
    have split := List.perm_cons_erase member
    rw [h.bound l, outstanding_perm split (.refl _) l, outstanding_cons, outstanding_attach]
  retired := h.retired
  reserved held inside := h.reserved held (List.mem_of_mem_erase inside)
  attached other inside := by
    rcases List.mem_cons.mp inside with rfl | inside
    · exact h.reserved _ member
    · exact h.attached other inside

theorem forget_perm (distinct : (attached.map Attached.index).Nodup) (member : task ∈ attached) :
    attached.Perm (task :: attached.filter fun other => other.index ≠ task.index) := by
  induction attached with
  | nil => cases member
  | cons first rest ih =>
    rw [List.map_cons, List.nodup_cons] at distinct
    rcases List.mem_cons.mp member with rfl | member
    · have whole : rest.filter (fun other => other.index ≠ task.index) = rest := by
        rw [List.filter_eq_self]
        intro other inside
        exact decide_eq_true fun same => distinct.1 (same ▸ List.mem_map_of_mem inside)
      rw [List.filter_cons_of_neg (by simp), whole]
    · have apart : first.index ≠ task.index := fun same =>
        distinct.1 (same ▸ List.mem_map_of_mem member)
      rw [List.filter_cons_of_pos (by simpa using apart)]
      exact ((ih distinct.2 member).cons first).trans (.swap ..)

theorem Counted.leave (h : Counted owners reserved attached)
    (distinct : (attached.map Attached.index).Nodup) (member : task ∈ attached) :
    (owners task.lane).bound ≠ 0 ∧ Counted (update owners task.lane
      { owners task.lane with bound := (owners task.lane).bound - 1 }) reserved
      (attached.filter fun other => other.index ≠ task.index) := by
  have split := forget_perm distinct member
  constructor
  · intro zero
    exact (h.nothing zero).2 task member rfl
  · apply h.release
    · intro l
      rw [outstanding_perm (.refl _) split l, outstanding_attach]
    · exact fun _ inside => inside
    · exact fun _ inside => (List.mem_filter.mp inside).1

end Dope.Tasks
