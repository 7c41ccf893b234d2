import Mathlib.Data.List.FinRange

/-! # Index sets with planes

Several sets of indices kept side by side. Taking an index from a plane lets
the set choose which one; all that is known is that the choice is a member and
that it fails only on an empty plane.
-/

namespace Dope.Index

universe u v

/-- A choice of a member of a set of indices. -/
structure Picker (ι : Type u) where
  pick : (ι → Bool) → Option ι
  mem : ∀ {set : ι → Bool} {index : ι}, pick set = some index → set index = true
  empty : ∀ {set : ι → Bool}, pick set = none → ∀ index, set index = false

/-- The first member in the order of a list of all indices. -/
def Picker.ofList {ι : Type u} (order : List ι) (all : ∀ index, index ∈ order) : Picker ι where
  pick set := order.find? set
  mem h := by
    simpa using List.find?_some h
  empty h index := by
    have absent := List.find?_eq_none.mp h index (all index)
    simpa using absent

/-- The cyclic choice that begins at `start`. -/
def Picker.startingAt {n : Nat} (start : Fin n) : Picker (Fin n) :=
  .ofList (start :: List.finRange n) (fun index => by simp)

def Planes (κ : Type u) (ι : Type v) := κ → ι → Bool

namespace Planes

variable {κ : Type u} {ι : Type v} [DecidableEq κ] [DecidableEq ι]

def put (planes : Planes κ ι) (plane : κ) (index : ι) (value : Bool) : Planes κ ι :=
  fun k i => if k = plane ∧ i = index then value else planes k i

def insert (planes : Planes κ ι) (plane : κ) (index : ι) : Planes κ ι :=
  planes.put plane index true

def clear (planes : Planes κ ι) (plane : κ) (index : ι) : Planes κ ι :=
  planes.put plane index false

/-- Remove a member of a plane. -/
def take (planes : Planes κ ι) (picker : Picker ι) (plane : κ) : Option (ι × Planes κ ι) :=
  (picker.pick (planes plane)).map fun index => (index, planes.clear plane index)

variable {planes : Planes κ ι} {plane k : κ} {index i : ι}

@[simp] theorem insert_apply :
    planes.insert plane index k i = if k = plane ∧ i = index then true else planes k i := rfl

@[simp] theorem clear_apply :
    planes.clear plane index k i = if k = plane ∧ i = index then false else planes k i := rfl

theorem take_some {picker : Picker ι} {rest : Planes κ ι}
    (h : planes.take picker plane = some (index, rest)) :
    planes plane index = true ∧ rest = planes.clear plane index := by
  unfold take at h
  obtain ⟨chosen, picked, same⟩ := Option.map_eq_some_iff.mp h
  cases same
  exact ⟨picker.mem picked, rfl⟩

/-- Putting a taken member back restores the planes. -/
theorem insert_clear (member : planes plane index = true) :
    (planes.clear plane index).insert plane index = planes := by
  funext k i
  simp only [insert_apply, clear_apply]
  split
  · rename_i same
    rw [same.1, same.2, member]
  · rfl

end Planes

end Dope.Index
