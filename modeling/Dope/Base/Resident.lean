import Mathlib.Logic.Function.Basic

/-! # Heaps with resident rows

A heap of keys with a priority, where every physical row keeps a resident value
whether or not a key stands in it. Two keys of one row exclude each other.
-/

namespace Dope.Resident

structure Row (K P R : Type) where
  occupant : Option (K × P)
  resident : R

/-- What a key finds in its row. -/
inductive View (P R : Type) where
  | occupied (priority : P) (resident : R)
  | vacant
  | conflict

/-- The operations of a heap `H` of keys `K` in rows `ι`. -/
structure Heap (H K ι P R : Type) where
  index : K → ι
  row : H → ι → Row K P R
  new : R → H
  first : H → Option (K × P)
  update : H → K → R × P → (R → R × P) → H
  edit : H → K → R → H
  set : H → K → P → H
  retire : H → K → H
  remove : H → K → H
  reinsert : H → K → P → H
  clear : H → K → R → H

namespace Heap

variable {H K ι P R : Type}

def view [DecidableEq K] (heap : Heap H K ι P R) (h : H) (key : K) : View P R :=
  match (heap.row h (heap.index key)).occupant with
  | none => .vacant
  | some (other, priority) =>
      if other = key then .occupied priority (heap.row h (heap.index key)).resident
      else .conflict

/-- Every operation on a key changes its row and no other. What a key does to
the row of another key is left open: it may take the row or leave it. -/
structure Lawful [DecidableEq K] [DecidableEq ι] (heap : Heap H K ι P R) (le : P → P → Prop) :
    Prop where
  new : ∀ resident i, heap.row (heap.new resident) i = ⟨none, resident⟩
  filed : ∀ {h i key priority}, (heap.row h i).occupant = some (key, priority) →
    heap.index key = i
  first_none : ∀ {h}, heap.first h = none → ∀ i, (heap.row h i).occupant = none
  first_some : ∀ {h key priority}, heap.first h = some (key, priority) →
    (heap.row h (heap.index key)).occupant = some (key, priority) ∧
      ∀ i other priority', (heap.row h i).occupant = some (other, priority') →
        le priority priority'
  update_vacant : ∀ {h key}, heap.view h key = .vacant → ∀ init edit,
    heap.row (heap.update h key init edit) =
      Function.update (heap.row h) (heap.index key) ⟨some (key, init.2), init.1⟩
  update_occupied : ∀ {h key priority resident}, heap.view h key = .occupied priority resident →
    ∀ init edit, heap.row (heap.update h key init edit) =
      Function.update (heap.row h) (heap.index key)
        ⟨some (key, (edit resident).2), (edit resident).1⟩
  update_conflict : ∀ {h key}, heap.view h key = .conflict → ∀ init edit,
    heap.row (heap.update h key init edit) = heap.row h ∨
      heap.row (heap.update h key init edit) =
        Function.update (heap.row h) (heap.index key) ⟨some (key, init.2), init.1⟩
  edit : ∀ h key resident, heap.row (heap.edit h key resident) =
    Function.update (heap.row h) (heap.index key)
      ⟨(heap.row h (heap.index key)).occupant, resident⟩
  set : ∀ {h key priority resident}, heap.view h key = .occupied priority resident →
    ∀ next, heap.row (heap.set h key next) =
      Function.update (heap.row h) (heap.index key) ⟨some (key, next), resident⟩
  retire : ∀ {h key priority resident}, heap.view h key = .occupied priority resident →
    heap.row (heap.retire h key) =
      Function.update (heap.row h) (heap.index key) ⟨none, resident⟩
  remove : ∀ {h key priority resident}, heap.view h key = .occupied priority resident →
    heap.row (heap.remove h key) =
      Function.update (heap.row h) (heap.index key) ⟨none, resident⟩
  reinsert : ∀ {h key}, heap.view h key = .vacant → ∀ next,
    heap.row (heap.reinsert h key next) =
      Function.update (heap.row h) (heap.index key)
        ⟨some (key, next), (heap.row h (heap.index key)).resident⟩
  clear : ∀ {h key}, heap.view h key ≠ .conflict → ∀ resident,
    heap.row (heap.clear h key resident) =
      Function.update (heap.row h) (heap.index key) ⟨none, resident⟩
  clear_conflict : ∀ {h key}, heap.view h key = .conflict → ∀ resident,
    heap.row (heap.clear h key resident) = heap.row h ∨
      heap.row (heap.clear h key resident) =
        Function.update (heap.row h) (heap.index key) ⟨none, resident⟩

variable [DecidableEq K] {heap : Heap H K ι P R} {h : H} {key : K}

theorem view_vacant (found : heap.view h key = .vacant) :
    (heap.row h (heap.index key)).occupant = none := by
  unfold view at found
  split at found
  · assumption
  · split at found
    · cases found
    · cases found

variable {resident : R}

theorem view_occupied {priority : P} (found : heap.view h key = .occupied priority resident) :
    heap.row h (heap.index key) = ⟨some (key, priority), resident⟩ := by
  unfold view at found
  split at found
  · cases found
  · rename_i other priority' at_
    split at found
    · rename_i same
      subst same
      cases found
      cases row : heap.row h (heap.index other)
      rw [row] at at_
      dsimp only at at_
      rw [at_]
    · cases found

theorem view_conflict (found : heap.view h key = .conflict) :
    ∃ other priority, (heap.row h (heap.index key)).occupant = some (other, priority) ∧
      other ≠ key := by
  unfold view at found
  split at found
  · cases found
  · rename_i other priority at_
    split at found
    · cases found
    · rename_i apart
      exact ⟨other, priority, at_, apart⟩

theorem view_of_row {priority : P}
    (row : heap.row h (heap.index key) = ⟨some (key, priority), resident⟩) :
    heap.view h key = .occupied priority resident := by
  unfold view
  rw [row]
  exact if_pos rfl

theorem view_of_none (row : heap.row h (heap.index key) = ⟨none, resident⟩) :
    heap.view h key = .vacant := by
  unfold view
  rw [row]

/-! ## One row -/

/-- A heap with a single row, which a key takes from any other. -/
def single (K P R : Type) [DecidableEq K] : Heap (Row K P R) K Unit P R where
  index _ := ()
  row row _ := row
  new resident := ⟨none, resident⟩
  first row := row.occupant
  update row key init edit :=
    match row.occupant with
    | none => ⟨some (key, init.2), init.1⟩
    | some (other, _) =>
        if other = key then ⟨some (key, (edit row.resident).2), (edit row.resident).1⟩
        else ⟨some (key, init.2), init.1⟩
  edit row _ resident := ⟨row.occupant, resident⟩
  set row key priority := ⟨some (key, priority), row.resident⟩
  retire row _ := ⟨none, row.resident⟩
  remove row _ := ⟨none, row.resident⟩
  reinsert row key priority := ⟨some (key, priority), row.resident⟩
  clear _ _ resident := ⟨none, resident⟩

theorem single_row (row next : Row K P R) :
    (single K P R).row next = Function.update ((single K P R).row row) () next := by
  funext i
  cases i
  rw [Function.update_self]
  rfl

theorem single_lawful {le : P → P → Prop} (refl : ∀ priority, le priority priority) :
    (single K P R).Lawful le where
  new _ _ := rfl
  filed _ := rfl
  first_none none _ := none
  first_some := by
    intro row key priority top
    refine ⟨top, ?_⟩
    intro _ other priority' stands
    have same : row.occupant = some (other, priority') := stands
    rw [show row.occupant = some (key, priority) from top] at same
    cases same
    exact refl _
  update_vacant := by
    intro row key found init edit
    have empty : row.occupant = none := view_vacant found
    rw [← single_row]
    simp [single, empty]
  update_occupied := by
    intro row key priority resident found init edit
    have here : row = ⟨some (key, priority), resident⟩ := view_occupied found
    rw [← single_row, here]
    simp [single]
  update_conflict := by
    intro row key found init edit
    rcases view_conflict found with ⟨other, priority, stands, apart⟩
    have here : row.occupant = some (other, priority) := stands
    right
    rw [← single_row]
    simp [single, here, apart]
  edit row key resident := single_row row _
  set := by
    intro row key priority resident found next
    have here : row = ⟨some (key, priority), resident⟩ := view_occupied found
    rw [here]
    exact single_row _ _
  retire := by
    intro row key priority resident found
    have here : row = ⟨some (key, priority), resident⟩ := view_occupied found
    rw [here]
    exact single_row _ _
  remove := by
    intro row key priority resident found
    have here : row = ⟨some (key, priority), resident⟩ := view_occupied found
    rw [here]
    exact single_row _ _
  reinsert := by
    intro row key _ next
    exact single_row row _
  clear := by
    intro row key _ resident
    exact single_row row _
  clear_conflict := by
    intro row key _ resident
    exact .inr (single_row row _)

end Heap

end Dope.Resident
