import Dope.Base.Tally
import Dope.Manifold.Side.Registry

/-! # What the lanes, the values and the results agree on

An operation changes the entry of one position. The invariant is stated on the cells,
an entry with its mark, and kept by any change that keeps its books.
-/

namespace Dope.Manifold.Side

open Run Tally

variable {I P W C : Type} {n : Nat}

/-- An entry with what is recorded about it. -/
structure Cell (I P W C : Type) where
  key : Key
  state : State (I × Nat) (P × Nat) W C
  mark : Mark W

/-- The waiter of an entry that waits for its result. -/
def State.waiter : State I P W C → Option (Option W)
  | .queued pending => some pending.waiter
  | .inFlight waiter => some waiter
  | .deferred pending => some pending.waiter
  | .settled _ | .abandoned => none

def State.isSettled : State I P W C → Prop
  | .settled _ => True
  | .queued _ | .inFlight _ | .deferred _ | .abandoned => False

/-- The lane that an entry belongs in. -/
def Cell.lane (cell : Cell I P W C) : Option (Fin 3) :=
  match cell.state with
  | .queued _ => some QUEUED
  | .deferred _ => some (if cell.mark.retried then QUEUED else DEFERRED)
  | .abandoned => if cell.mark.swept then none else some ABANDONED
  | .inFlight _ | .settled _ => none

def laneOf (cell : Option (Cell I P W C)) : Option (Fin 3) := cell.bind Cell.lane

abbrev Holds (s : Nat) (cell : Cell I P W C) : Prop := cell.state.value = some s

abbrev Numbered (s : Nat) (cell : Cell I P W C) : Prop := cell.mark.serial = s

namespace World

def cell (world : World I P W C n) (p : Fin n) : Option (Cell I P W C) :=
  (world.registry.slots.slots p).map fun slot => ⟨slot.1, slot.2, world.marks p⟩

/-- How often the value `s` is outside the table. -/
def outside (world : World I P W C n) (s : Nat) : Nat :=
  world.taken.countP (fun request => request.payload.2 = s) + world.dropped.count s

/-- How often the entry of request `s` left the table. -/
def gone (world : World I P W C n) (s : Nat) : Nat :=
  (world.yielded.map Prod.fst).count s + world.lost.count s

/-- Whether request `s` was accepted. -/
def issued (world : World I P W C n) (s : Nat) : Nat := if s < world.accepted then 1 else 0

/-- What the records say of one entry. -/
structure Good (world : World I P W C n) (p : Fin n) (cell : Cell I P W C) : Prop where
  located : Table.locate n cell.key = some p
  waiter : ∀ waiter, cell.state.waiter = some waiter → waiter = cell.mark.latest
  settled : ∀ result, cell.state = .settled result → (cell.mark.serial, result) ∈ world.settled
  unsettled : ¬ cell.state.isSettled → ∀ result, (cell.mark.serial, result) ∉ world.settled
  abandoned : cell.state = .abandoned → cell.mark.serial ∈ world.abandoned
  cancels : cell.key ∈ world.cancels → cell.state = .abandoned ∧ cell.mark.swept = true

/-- What the records say of each other. -/
structure Ledger (world : World I P W C n) : Prop where
  nodup : (world.settled.map Prod.fst).Nodup
  yielded : ∀ entry ∈ world.yielded, entry ∈ world.settled
  bound : ∀ entry ∈ world.settled, entry.1 < world.accepted
  lost : ∀ s ∈ world.lost, s ∈ world.abandoned

structure Inv (world : World I P W C n) : Prop where
  filed : Lanes.Filed world.registry.slots.lanes fun p => laneOf (world.cell p)
  good : ∀ p cell, world.cell p = some cell → world.Good p cell
  values : ∀ s, tally (Holds s) world.cell + world.outside s = world.issued s
  entries : ∀ s, tally (Numbered s) world.cell + world.gone s = world.issued s
  ledger : world.Ledger

variable {world after : World I P W C n} {p q : Fin n} {cell other : Cell I P W C}

theorem cell_of_slot {key : Key} {state : State (I × Nat) (P × Nat) W C}
    (slot : world.registry.slots.slots p = some (key, state)) :
    world.cell p = some ⟨key, state, world.marks p⟩ := by
  rw [World.cell, slot]
  rfl

theorem Inv.serial_inj (inv : world.Inv) (first : world.cell p = some cell)
    (second : world.cell q = some other) (same : cell.mark.serial = other.mark.serial) : p = q := by
  have count := inv.entries cell.mark.serial
  have one : world.issued cell.mark.serial ≤ 1 := by
    unfold issued
    split <;> omega
  have le : tally (Numbered cell.mark.serial) world.cell ≤ 1 := by omega
  exact tally_unique le first second rfl same.symm

theorem Inv.serial_lt (inv : world.Inv) (held : world.cell p = some cell) :
    cell.mark.serial < world.accepted := by
  have count := inv.entries cell.mark.serial
  have pos : 0 < tally (Numbered cell.mark.serial) world.cell := tally_pos held rfl
  by_contra above
  rw [issued, if_neg above] at count
  omega

/-- The records of the request `s` change, and no others; a cancellation may come out
for the position `p`. -/
structure Apart (world after : World I P W C n) (p : Fin n) (s : Nat) : Prop where
  settled : ∀ entry, entry ∈ after.settled → entry ∈ world.settled ∨ entry.1 = s
  kept : ∀ entry, entry ∈ world.settled → entry ∈ after.settled
  abandoned : ∀ t, t ∈ world.abandoned → t ∈ after.abandoned
  cancels : ∀ key, key ∈ after.cancels → key ∈ world.cancels ∨ Table.locate n key = some p

theorem Good.apart {s : Nat} (good : world.Good q other) (apart : Apart world after p s)
    (ne : q ≠ p) (number : other.mark.serial ≠ s) : after.Good q other where
  located := good.located
  waiter := good.waiter
  settled result settled := apart.kept _ (good.settled result settled)
  unsettled open_ result mem := by
    rcases apart.settled _ mem with old | new
    · exact good.unsettled open_ result old
    · exact number new
  abandoned abandoned := apart.abandoned _ (good.abandoned abandoned)
  cancels mem := by
    rcases apart.cancels _ mem with old | new
    · exact good.cancels old
    · rw [good.located] at new
      exact absurd (Option.some.inj new) ne

/-- A change of the cell at `p`, with records that keep up with it. -/
structure Edit (world after : World I P W C n) (p : Fin n) (cell : Option (Cell I P W C)) :
    Prop where
  cells : after.cell = Function.update world.cell p cell
  filed : Lanes.Filed after.registry.slots.lanes
    (Function.update (fun q => laneOf (world.cell q)) p (laneOf cell))
  values : ∀ s, unit (Holds s) cell + after.outside s + world.issued s =
    unit (Holds s) (world.cell p) + world.outside s + after.issued s
  entries : ∀ s, unit (Numbered s) cell + after.gone s + world.issued s =
    unit (Numbered s) (world.cell p) + world.gone s + after.issued s
  good : ∀ new, cell = some new → after.Good p new
  rest : ∀ q other, q ≠ p → world.cell q = some other → after.Good q other
  ledger : after.Ledger

theorem Inv.edit {cell : Option (Cell I P W C)} (inv : world.Inv)
    (edit : Edit world after p cell) : after.Inv where
  filed := by
    have same : (fun q => laneOf (after.cell q)) =
        Function.update (fun q => laneOf (world.cell q)) p (laneOf cell) := by
      funext q
      rw [edit.cells]
      by_cases here : q = p
      · subst here
        simp
      · simp [here]
    rw [same]
    exact edit.filed
  good q other held := by
    rw [edit.cells] at held
    by_cases here : q = p
    · subst here
      rw [Function.update_self] at held
      exact edit.good other held
    · rw [Function.update_of_ne here] at held
      exact edit.rest q other here held
  values s := by
    have moved := tally_update (p := Holds s) world.cell p cell
    have before := inv.values s
    have balance := edit.values s
    rw [edit.cells]
    omega
  entries s := by
    have moved := tally_update (p := Numbered s) world.cell p cell
    have before := inv.entries s
    have balance := edit.entries s
    rw [edit.cells]
    omega
  ledger := edit.ledger

/-- The others stay good when the records of the entry at `p` change. -/
theorem Inv.rest (inv : world.Inv) (held : world.cell p = some cell)
    (apart : Apart world after p cell.mark.serial) :
    ∀ q other, q ≠ p → world.cell q = some other → after.Good q other := by
  intro q other ne second
  refine (inv.good q other second).apart apart ne ?_
  intro same
  exact ne (inv.serial_inj second held same)

theorem Inv.congr (inv : world.Inv) (cells : after.cell = world.cell)
    (lanes : after.registry.slots.lanes = world.registry.slots.lanes)
    (outside : ∀ s, after.outside s = world.outside s) (gone : after.gone = world.gone)
    (issued : after.issued = world.issued) (ledger : after.Ledger)
    (good : ∀ q other, world.cell q = some other → after.Good q other) : after.Inv where
  filed := by
    rw [lanes, cells]
    exact inv.filed
  good q other held := good q other (cells ▸ held)
  values s := by rw [cells, outside, issued, inv.values]
  entries s := by rw [cells, gone, issued, inv.entries]
  ledger := ledger

end World

end Dope.Manifold.Side
