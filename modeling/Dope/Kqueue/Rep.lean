import Mathlib.Data.Fintype.Card
import Mathlib.Data.Fintype.Prod
import Mathlib.Data.List.Flatten
import Dope.Kqueue.Ledger

/-! # Cells, rows and entries

The bitmap and the count describe the occupied cells, and a walk over the
bitmap is a walk over the entries of the map in their order.
-/

namespace Dope.Kqueue

open Run Dope.Index Cells Function

variable {n : Nat}

/-! ## Ordinals -/

variable {cells : Cells n} {cell : Fin n × Filter}

namespace Cells

def row (cell : Fin n × Filter) : Nat := ordinal n cell.1 cell.2

theorem row_lt (cell : Fin n × Filter) : row cell < 2 * n := by
  obtain ⟨⟨slot, inside⟩, filter⟩ := cell
  unfold row ordinal
  cases filter <;> simp only [Filter.lane] <;> omega

theorem row_injective {a b : Fin n × Filter} (h : row a = row b) : a = b := by
  obtain ⟨⟨slot, inside⟩, filter⟩ := a
  obtain ⟨⟨slot', inside'⟩, filter'⟩ := b
  unfold row ordinal at h
  cases filter <;> cases filter' <;> simp only [Filter.lane] at h <;>
    simp only [Prod.mk.injEq, Fin.mk.injEq, and_true, reduceCtorEq, and_false] <;> omega

theorem range_pairs (m : Nat) :
    (List.range m).flatMap (fun i => [i * 2, i * 2 + 1]) = List.range (2 * m) := by
  induction m with
  | zero => rfl
  | succ m ih =>
    rw [List.range_succ, List.flatMap_append, ih, Nat.mul_add, List.range_succ, List.range_succ]
    simp [Nat.mul_comm]

theorem slots_descend (n : Nat) :
    (List.finRange n).reverse.map (fun slot => n - 1 - slot.val) = List.range n := by
  apply List.ext_getElem
  · simp
  · intro i h h'
    simp only [List.length_range] at h'
    simp
    omega

/-- The order of the cells is the order of their rows. -/
theorem order_rows (n : Nat) : (order n).map row = List.range (2 * n) := by
  unfold order
  rw [List.map_flatMap, ← range_pairs, ← slots_descend, List.flatMap_map]
  rfl

theorem mem_order (cell : Fin n × Filter) : cell ∈ order n := by
  obtain ⟨slot, filter⟩ := cell
  unfold order
  cases filter <;> simp

theorem order_nodup (n : Nat) : (order n).Nodup := by
  apply List.Nodup.of_map row
  rw [order_rows]
  exact List.nodup_range

theorem exists_cell {r : Nat} (inside : r < 2 * n) : ∃ cell : Fin n × Filter, row cell = r := by
  have mem : r ∈ (order n).map row := by
    rw [order_rows]
    exact List.mem_range.mpr inside
  obtain ⟨cell, -, same⟩ := List.mem_map.mp mem
  exact ⟨cell, same⟩

/-! ## Entries -/

theorem mem_entries {entry : (Fin n × Filter) × Event} :
    entry ∈ cells.entries ↔ cells entry.1 = some entry.2 := by
  unfold entries
  rw [List.mem_filterMap]
  constructor
  · rintro ⟨cell, -, found⟩
    cases held : cells cell with
    | none => simp [held] at found
    | some event =>
      rw [held] at found
      cases found
      exact held
  · intro held
    exact ⟨entry.1, mem_order _, by simp [held]⟩

theorem filterMap_map {α β γ : Type} (l : List α) (f : α → Option β) (g : α → γ) :
    (l.filterMap fun a => (f a).map fun b => (a, b)).map (fun e => g e.1) =
      (l.filter fun a => (f a).isSome).map g := by
  induction l with
  | nil => rfl
  | cons a l ih =>
    cases found : f a with
    | none | some => simp [found, ih]

theorem entries_rows (cells : Cells n) :
    cells.entries.map (fun e => row e.1) = ((order n).filter fun c => (cells c).isSome).map row :=
  filterMap_map (order n) cells row

theorem entries_keys (cells : Cells n) :
    cells.entries.map (·.1) = (order n).filter fun c => (cells c).isSome := by
  have keys := filterMap_map (order n) cells id
  rw [List.map_id] at keys
  exact keys

theorem entries_sorted (cells : Cells n) : cells.entries.Pairwise fun a b => row a.1 < row b.1 := by
  apply List.Pairwise.of_map (fun e : (Fin n × Filter) × Event => row e.1) (S := (· < ·))
  · exact fun _ _ h => h
  · have part : (((order n).filter fun c => (cells c).isSome).map row).Sublist
        ((order n).map row) := List.Sublist.map row List.filter_sublist
    rw [order_rows] at part
    rw [entries_rows]
    exact List.Pairwise.sublist part List.pairwise_lt_range

theorem entries_nodup (cells : Cells n) : (cells.entries.map (·.1)).Nodup := by
  rw [entries_keys]
  exact (order_nodup n).filter _

theorem entries_length_le (cells : Cells n) : cells.entries.length ≤ 2 * n := by
  have keys : (cells.entries.map (·.1)).length ≤ (order n).length := by
    rw [entries_keys]
    exact List.length_filter_le _ _
  have rows := congrArg List.length (order_rows n)
  rw [List.length_map, List.length_range] at rows
  rw [List.length_map] at keys
  omega

theorem entries_clear (cells : Cells n) (taken : List (Fin n × Filter)) :
    (cells.clear taken).entries = cells.entries.filter fun e => e.1 ∉ taken := by
  unfold entries
  rw [List.filter_filterMap]
  congr 1
  funext cell
  unfold clear
  by_cases mem : cell ∈ taken
  · cases cells cell <;> simp [mem, Option.filter]
  · cases cells cell <;> simp [mem, Option.filter]

theorem update_none (cells : Cells n) (cell : Fin n × Filter) :
    update cells cell none = cells.clear [cell] := by
  funext other
  unfold clear
  by_cases same : other = cell
  · simp [same]
  · simp [same]

theorem clear_clear (cells : Cells n) (cell : Fin n × Filter) (taken : List (Fin n × Filter)) :
    (cells.clear [cell]).clear taken = cells.clear (cell :: taken) := by
  funext other
  unfold clear
  by_cases mem : other ∈ taken
  · simp [mem]
  · by_cases same : other = cell <;> simp [mem, same]

theorem length_filter_ne {α β : Type} [DecidableEq β] (f : α → β) {l : List α}
    (nodup : (l.map f).Nodup) {a : α} (mem : a ∈ l) :
    (l.filter fun b => f b ≠ f a).length + 1 = l.length := by
  induction l with
  | nil => simp at mem
  | cons b l ih =>
    rw [List.map_cons, List.nodup_cons] at nodup
    rcases List.mem_cons.mp mem with rfl | mem
    · have others : ∀ b ∈ l, f b ≠ f a := by
        intro b hb same
        exact nodup.1 (same ▸ List.mem_map_of_mem hb)
      simpa using others
    · have ne : f b ≠ f a := by
        intro same
        exact nodup.1 (same ▸ List.mem_map_of_mem mem)
      have rest := ih nodup.2 mem
      simp only [List.filter_cons, ne, ne_eq, not_false_eq_true, decide_true, if_true,
        List.length_cons]
      simp only [ne_eq] at rest
      omega

theorem length_update_none {event : Event} (held : cells cell = some event) :
    (entries (update cells cell none)).length + 1 = cells.entries.length := by
  have mem : (cell, event) ∈ cells.entries := mem_entries.mpr held
  have dropped := length_filter_ne (·.1) (entries_nodup cells) mem
  rw [update_none, entries_clear]
  simpa using dropped

theorem length_update_some (free : cells cell = none) (event : Event) :
    (entries (update cells cell (some event))).length = cells.entries.length + 1 := by
  have back : update (update cells cell (some event)) cell none = cells := by
    rw [update_idem, ← free, update_eq_self]
  have filled : update cells cell (some event) cell = some event :=
    update_self _ _ _
  have dropped := length_update_none filled
  rw [back] at dropped
  exact dropped.symm

theorem length_update_same {old : Event} (held : cells cell = some old) (event : Event) :
    (entries (update cells cell (some event))).length = cells.entries.length := by
  have first := length_update_none held
  have filled : update cells cell (some event) cell = some event :=
    update_self _ _ _
  have second := length_update_none filled
  rw [update_idem] at second
  omega

end Cells

/-! ## The representation -/

/-- The bitmap and the count describe the occupied cells, and the staging array
has room for all of them. -/
structure Holds (changes : Changes n) (cells : Cells n) : Prop where
  slots : changes.slots = cells
  live : ∀ cell, changes.live (row cell) = (cells cell).isSome
  count : changes.count = cells.entries.length
  size : changes.staged.size = 2 * n

/-- Nothing changes but the cells. -/
structure Kept (before after : Changes n) : Prop where
  plan : after.plan = before.plan
  staged : after.staged = before.staged
  stagedLen : after.stagedLen = before.stagedLen
  stagedDelete : after.stagedDelete = before.stagedDelete

theorem Kept.refl (changes : Changes n) : Kept changes changes := ⟨rfl, rfl, rfl, rfl⟩

theorem Kept.trans {a b c : Changes n} (h : Kept a b) (h' : Kept b c) : Kept a c :=
  ⟨h'.plan.trans h.plan, h'.staged.trans h.staged, h'.stagedLen.trans h.stagedLen,
    h'.stagedDelete.trans h.stagedDelete⟩

theorem live_mark {live : Nat → Bool} (h : ∀ cell, live (row cell) = (cells cell).isSome)
    (cell : Fin n × Filter) (event : Option Event) (other : Fin n × Filter) :
    mark live (row cell) event.isSome (row other) =
      (update cells cell event other).isSome := by
  by_cases same : other = cell
  · subst same
    simp
  · rw [mark_of_ne _ _ fun rows => same (row_injective rows), update_of_ne same, h other]

theorem live_same {live : Nat → Bool} (h : ∀ cell, live (row cell) = (cells cell).isSome)
    {event : Option Event} (same : (cells cell).isSome = event.isSome) (other : Fin n × Filter) :
    live (row other) = (update cells cell event other).isSome := by
  by_cases eq : other = cell
  · subst eq
    rw [update_self, ← same, h other]
  · rw [update_of_ne eq, h other]

variable {changes : Changes n}

theorem Holds.set (h : Holds changes cells) (cell : Fin n × Filter) (event : Option Event) :
    ∃ changes', Entry.set ⟨cell, row cell⟩ changes event = .ok changes' ∧
      Holds changes' (update cells cell event) ∧ Kept changes changes' := by
  obtain rfl := h.slots
  unfold Entry.set
  dsimp only
  cases held : changes.slots cell with
  | none =>
    cases event with
    | none =>
      have same : update changes.slots cell none = changes.slots := by
        rw [← held, update_eq_self]
      refine ⟨_, rfl, ?_, ⟨rfl, rfl, rfl, rfl⟩⟩
      rw [same]
      exact ⟨rfl, h.live, h.count, h.size⟩
    | some event =>
      refine ⟨_, rfl, ⟨rfl, live_mark h.live cell (some event), ?_, h.size⟩,
        ⟨rfl, rfl, rfl, rfl⟩⟩
      rw [length_update_some held, ← h.count]
  | some old =>
    cases event with
    | none =>
      have length := length_update_none held
      have count := h.count
      have some : changes.count ≠ 0 := by omega
      dsimp only
      rw [if_neg some]
      refine ⟨_, rfl, ⟨rfl, live_mark h.live cell none, ?_, h.size⟩, ⟨rfl, rfl, rfl, rfl⟩⟩
      dsimp only
      omega
    | some event =>
      refine ⟨_, rfl, ⟨rfl, live_same h.live (by simp [held]), ?_, h.size⟩,
        ⟨rfl, rfl, rfl, rfl⟩⟩
      rw [length_update_same held, ← h.count]

/-! ## Walks -/

theorem rows_eq (h : Holds changes cells) :
    rows (2 * n) changes.live = cells.entries.map fun e => row e.1 := by
  rw [entries_rows, rows, ← order_rows, List.filter_map]
  congr 1
  apply List.filter_congr
  intro cell _
  exact h.live cell

theorem row_lane (cell : Fin n × Filter) : Filter.ofLane (row cell % 2) = cell.2 := by
  obtain ⟨slot, filter⟩ := cell
  unfold row ordinal
  cases filter <;> simp [Filter.lane, Filter.ofLane, Nat.add_mod]

theorem row_slot (cell : Fin n × Filter) : n - 1 - row cell / 2 = cell.1.val := by
  obtain ⟨⟨slot, below⟩, filter⟩ := cell
  unfold row ordinal
  cases filter <;> simp only [Filter.lane] <;> omega

theorem project_row (changes : Changes n) (cell : Fin n × Filter) :
    changes.project (row cell) = .ok ⟨cell, row cell⟩ := by
  have inside := row_lt cell
  unfold Changes.project
  rw [dif_pos (by omega)]
  congr 3
  · exact Fin.ext (row_slot cell)
  · exact row_lane cell

/-- The walk comes to the entry after those that it passed. -/
theorem Holds.next_some (h : Holds changes cells) {before after : List ((Fin n × Filter) × Event)}
    {event : Event} {cursor : Nat} (split : cells.entries = before ++ (cell, event) :: after)
    (passed : ∀ e ∈ before, row e.1 < cursor) (here : cursor ≤ row cell) :
    changes.next cursor = .ok (some (row cell + 1, ⟨cell, row cell⟩)) := by
  have parts : rows (2 * n) changes.live =
      (before.map fun e => row e.1) ++ row cell :: after.map fun e => row e.1 := by
    rw [rows_eq h, split, List.map_append, List.map_cons]
  have found : findFrom (2 * n) changes.live cursor = some (row cell) := by
    apply findFrom_cons parts
    · intro r mem
      obtain ⟨e, held, rfl⟩ := List.mem_map.mp mem
      exact passed e held
    · exact here
  unfold Changes.next
  rw [found]
  dsimp only
  rw [project_row]
  rfl

theorem Holds.next_none (h : Holds changes cells) {cursor : Nat}
    (passed : ∀ e ∈ cells.entries, row e.1 < cursor) : changes.next cursor = .ok none := by
  have missing : findFrom (2 * n) changes.live cursor = none := by
    apply findFrom_end
    intro r mem
    rw [rows_eq h] at mem
    obtain ⟨e, held, rfl⟩ := List.mem_map.mp mem
    exact passed e held
  unfold Changes.next
  rw [missing]

end Dope.Kqueue
