import Mathlib.Algebra.Group.Int.Defs
import Mathlib.Algebra.Group.Nat.Defs
import Dope.Kqueue.Refines

/-! # Deletion plans and runs

A plan is kept on its own plane of the bitmap until it is committed. With the
plans, every step of the change list is one of the map, and so is every run.
-/

namespace Dope.Kqueue

open Run Dope.Index Cells Function

variable {n : Nat} {changes : Changes n} {cells : Cells n}

/-! ## Plans -/

/-- The plane and the staging array hold the deletions of a plan. -/
structure Planned (changes : Changes n) (plan : Cells n) : Prop where
  marked : ∀ cell, changes.plan (row cell) = (plan cell).isSome
  stored : ∀ cell event, plan cell = some event → changes.staged[row cell]? = some event

variable {b : Nat}

/-- Popping the first row of the plane leaves no row up to it. -/
theorem popPlan_some {changes' : Changes n} {r : Nat}
    (popped : changes.popPlan = some (r, changes')) (low : ∀ i < b, changes.plan i = false) :
    changes' = { changes with plan := mark changes.plan r false } ∧ b ≤ r ∧ r < 2 * n ∧
      changes.plan r = true ∧ (∀ i < r, changes.plan i = false) ∧
      ∀ i < r + 1, changes'.plan i = false := by
  unfold Changes.popPlan at popped
  obtain ⟨found, search, same⟩ := Option.map_eq_some_iff.mp popped
  cases same
  obtain ⟨-, inside, marked⟩ := findFrom_some search
  have least : ∀ i < r, changes.plan i = false := by
    intro i lt
    cases held : changes.plan i with
    | false => rfl
    | true =>
      have le := findFrom_least search (Nat.zero_le i) held
      omega
  refine ⟨rfl, ?_, inside, marked, least, ?_⟩
  · rcases Nat.lt_or_ge r b with lt | le
    · rw [low r lt] at marked
      cases marked
    · exact le
  · intro i lt
    dsimp only
    by_cases last : i = r
    · rw [last, mark_self]
    · rw [mark_of_ne _ _ last]
      exact least i (by omega)

theorem popPlan_none (empty : changes.popPlan = none) : ∀ i < 2 * n, changes.plan i = false := by
  unfold Changes.popPlan at empty
  have search := Option.map_eq_none_iff.mp empty
  exact fun i lt => findFrom_none search (Nat.zero_le i) lt

theorem clearPlanFrom_cleared {fuel : Nat} (holds : Holds changes cells)
    (low : ∀ i < b, changes.plan i = false) (below : b ≤ 2 * n) (enough : 2 * n + 1 ≤ fuel + b) :
    ∃ changes', Changes.clearPlanFrom fuel changes = .ok changes' ∧ Holds changes' cells ∧
      Planned changes' fun _ => none := by
  induction fuel generalizing changes b with
  | zero => omega
  | succ fuel ih =>
    rw [Changes.clearPlanFrom]
    cases popped : changes.popPlan with
    | none =>
      refine ⟨changes, rfl, holds, ?_, by simp⟩
      intro cell
      exact popPlan_none popped _ (row_lt cell)
    | some next =>
      obtain ⟨r, middle⟩ := next
      obtain ⟨rfl, after, inside, -, -, low'⟩ := popPlan_some popped low
      exact ih ⟨holds.slots, holds.live, holds.count, holds.size⟩ low' inside (by omega)

variable {plan : Cells n}

theorem Planned.add (holds : Holds changes cells) (h : Planned changes plan)
    (cell : Fin n × Filter) (event : Event) :
    ∃ changes', Changes.write { changes with plan := mark changes.plan (row cell) true }
        (row cell) event = .ok changes' ∧ Holds changes' cells ∧
      Planned changes' (update plan cell (some event)) := by
  have inside : row cell < changes.staged.size := by
    rw [holds.size]
    exact row_lt cell
  unfold Changes.write
  rw [dif_pos inside]
  refine ⟨_, rfl, ⟨holds.slots, holds.live, holds.count, ?_⟩, ?_⟩
  · dsimp only
    rw [Array.size_set]
    exact holds.size
  · constructor
    · intro other
      by_cases same : other = cell
      · subst same
        simp
      · have apart : row other ≠ row cell := fun rows => same (row_injective rows)
        dsimp only
        rw [mark_of_ne _ _ apart, update_of_ne same]
        exact h.marked other
    · intro other e found
      by_cases same : other = cell
      · subst same
        rw [update_self] at found
        dsimp only
        rw [Array.getElem?_set_self inside, found]
      · have apart : row cell ≠ row other := fun rows => same (row_injective rows).symm
        rw [update_of_ne same] at found
        dsimp only
        rw [Array.getElem?_set_ne inside apart]
        exact h.stored other e found

theorem planFrom_planned (entries : List (Except Index (Option (Id × Filter))))
    (holds : Holds changes cells) (h : Planned changes plan) :
    ∃ result changes', Changes.planFrom entries changes = .ok (result, changes') ∧
      Holds changes' cells ∧
      match planned entries plan with
      | .error index => result = .error index
      | .ok plan' => result = .ok () ∧ Planned changes' plan' := by
  induction entries generalizing changes plan with
  | nil => exact ⟨.ok (), changes, rfl, holds, rfl, h⟩
  | cons entry rest ih =>
    match entry with
    | .error index => exact ⟨.error index, changes, rfl, holds, rfl⟩
    | .ok none => exact ih holds h
    | .ok (some (id, filter)) =>
      rw [Changes.planFrom, planned]
      by_cases inside : id.offset < n
      · obtain ⟨middle, write, holds', h'⟩ := h.add holds (⟨id.offset, inside⟩, filter)
          (event id.fd filter.raw evDelete 0)
        rw [entry_inside changes inside, dif_pos inside]
        dsimp only
        rw [write, ok_bind]
        exact ih holds' h'
      · rw [entry_outside changes (by omega), dif_neg inside]
        exact ⟨_, changes, rfl, holds, rfl⟩

/-- The part of a plan below a row. -/
def upTo (plan : Cells n) (b : Nat) : Cells n := fun cell => if row cell < b then plan cell else none

theorem commitPlanFrom_committed {fuel : Nat} (holds : Holds changes (upTo plan b))
    (low : ∀ i < b, changes.plan i = false)
    (marked : ∀ cell, b ≤ row cell → changes.plan (row cell) = (plan cell).isSome)
    (stored : ∀ cell event, plan cell = some event → changes.staged[row cell]? = some event)
    (below : b ≤ 2 * n) (enough : 2 * n + 1 ≤ fuel + b) :
    ∃ changes', Changes.commitPlanFrom fuel changes = .ok changes' ∧ Holds changes' plan := by
  induction fuel generalizing changes b with
  | zero => omega
  | succ fuel ih =>
    rw [Changes.commitPlanFrom]
    cases popped : changes.popPlan with
    | none =>
      have whole : upTo plan b = plan := by
        funext cell
        unfold upTo
        by_cases lt : row cell < b
        · rw [if_pos lt]
        · have free := marked cell (by omega)
          rw [popPlan_none popped _ (row_lt cell)] at free
          rw [if_neg lt]
          cases held : plan cell with
          | none => rfl
          | some event => simp [held] at free
      rw [whole] at holds
      exact ⟨changes, rfl, holds⟩
    | some next =>
      obtain ⟨r, middle⟩ := next
      obtain ⟨rfl, after, inside, here, gap, low'⟩ := popPlan_some popped low
      obtain ⟨cell, rfl⟩ := exists_cell inside
      have full := marked cell after
      rw [here] at full
      obtain ⟨event, held⟩ := Option.isSome_iff_exists.mp full.symm
      have found := stored cell event held
      have size : row cell < changes.staged.size := by
        rw [holds.size]
        exact inside
      rw [Array.getElem?_eq_getElem size] at found
      have same : changes.staged[row cell] = event := Option.some.inj found
      have popped' : Holds { changes with plan := mark changes.plan (row cell) false }
          (upTo plan b) := ⟨holds.slots, holds.live, holds.count, holds.size⟩
      obtain ⟨last, set, holds', kept⟩ := popped'.set cell (some event)
      have grown : update (upTo plan b) cell (some event) =
          upTo plan (row cell + 1) := by
        funext other
        unfold upTo
        by_cases eq : other = cell
        · subst eq
          rw [update_self, if_pos (by omega), held]
        · have apart : row other ≠ row cell := fun rows => eq (row_injective rows)
          rw [update_of_ne eq]
          by_cases lt : row other < b
          · rw [if_pos lt, if_pos (by omega)]
          · rw [if_neg lt]
            by_cases lt' : row other < row cell + 1
            · have none := marked other (by omega)
              rw [gap _ (by omega)] at none
              rw [if_pos lt']
              cases held' : plan other with
              | none => rfl
              | some event => simp [held'] at none
            · rw [if_neg lt']
      rw [grown] at holds'
      dsimp only
      rw [dif_pos size, project_row, ok_bind, same, set, ok_bind]
      apply ih holds' _ _ _ inside (by omega)
      · rw [kept.plan]
        exact low'
      · intro other le
        rw [kept.plan]
        dsimp only
        rw [mark_of_ne _ _ (by omega)]
        exact marked other (by omega)
      · intro other e found
        rw [kept.staged]
        exact stored other e found

theorem Holds.tryDelete (h : Holds changes cells)
    (entries : List (Except Index (Option (Id × Filter)))) :
    ∃ result changes', changes.tryDelete entries = .ok (result, changes') ∧
      Holds changes' cells ∧
      match planned entries (fun _ => none : Cells n) with
      | .error index => result = .error index
      | .ok plan => result = .ok () ∧ Planned changes' plan := by
  obtain ⟨middle, cleared, holds, empty⟩ :=
    clearPlanFrom_cleared h (b := 0) (by simp) (Nat.zero_le _) (Nat.le_refl (2 * n + 1))
  obtain ⟨result, changes', run, rest⟩ := planFrom_planned entries holds empty
  refine ⟨result, changes', ?_, rest⟩
  unfold Changes.tryDelete Changes.clearPlan
  rw [cleared]
  exact run

/-- The whole map goes, and the plan takes its place. -/
theorem Planned.commit (holds : Holds changes cells) (h : Planned changes plan)
    (small : 2 * n ≤ 2 ^ 64 - 1) :
    ∃ changes', changes.commitDelete = .ok changes' ∧ Holds changes' plan := by
  obtain ⟨middle, removed, holds', kept⟩ := holds.remove (2 ^ 64 - 1)
  have all : cells.entries.take (2 ^ 64 - 1) = cells.entries :=
    List.take_of_length_le ((entries_length_le cells).trans small)
  have emptied : cells.clear (cells.entries.map (·.1)) = upTo plan 0 := by
    funext cell
    unfold clear upTo
    rw [if_neg (Nat.not_lt_zero _)]
    split
    · rfl
    · rename_i away
      cases held : cells cell with
      | none => rfl
      | some event =>
        have mem : (cell, event) ∈ cells.entries := mem_entries.mpr held
        exact absurd (List.mem_map_of_mem mem) away
  rw [all, emptied] at holds'
  obtain ⟨last, committed, holds''⟩ := commitPlanFrom_committed holds' (by simp)
    (fun cell _ => by rw [kept.plan]; exact h.marked cell)
    (fun cell event found => by rw [kept.staged]; exact h.stored cell event found)
    (Nat.zero_le _) (Nat.le_refl (2 * n + 1))
  refine ⟨last, ?_, holds''⟩
  unfold Changes.commitDelete
  rw [removed]
  exact committed

/-! ## Runs -/

/-- What the open borrow retains of the map. -/
inductive Borrows (changes : Changes n) (cells : Cells n) : Phase → Stage n → Prop where
  | idle : Borrows changes cells .idle .idle
  | tail {events : List Event} : Staged changes events →
      Borrows changes cells .tail
        (.tail ((cells.entries.take events.length).map (·.1)) events)
  | plan {plan : Cells n} : Planned changes plan → Borrows changes cells .plan (.plan plan)

structure Related (world : World n) (ledger : Ledger n) : Prop where
  holds : Holds world.changes ledger.cells
  borrows : Borrows world.changes ledger.cells world.phase ledger.stage

theorem related_start (n : Nat) : Related (World.start n) ⟨fun _ => none, .idle⟩ := by
  constructor
  · constructor
    · rfl
    · simp [World.start, Changes.tryNew]
    · have empty : entries (fun _ => none : Cells n) = [] := by
        simp [entries]
      rw [empty]
      rfl
    · simp [World.start, Changes.tryNew]
  · exact .idle

/-- The cells of a tail, by the number of its events. -/
theorem taken_length (cells : Cells n) (k : Nat) :
    cells.entries.take ((cells.entries.take k).map (·.2)).length = cells.entries.take k := by
  rw [List.length_map, List.length_take, ← List.take_take, List.take_length]

theorem Related.tail {world : World n} {changes : Changes n} {k : Nat}
    (holds : Holds changes cells)
    (staged : Staged changes ((cells.entries.take k).map (·.2))) (same : world = ⟨changes, .tail⟩) :
    Related world ⟨cells, .tail ((cells.entries.take k).map (·.1))
      ((cells.entries.take k).map (·.2))⟩ := by
  subst same
  have borrows : Borrows changes cells .tail (.tail _ _) := .tail staged
  rw [taken_length] at borrows
  exact ⟨holds, borrows⟩

theorem isEmpty_count (holds : Holds changes cells) :
    (changes.count == 0) = cells.entries.isEmpty := by
  rw [holds.count]
  cases cells.entries <;> simp

theorem Related.step {world : World n} {ledger : Ledger n} (h : Related world ledger)
    (small : 2 * n ≤ 2 ^ 64 - 1) {input : Input} (ok : world.allowed input) :
    ∃ output world' ledger', world.step input = .ok (output, world') ∧
      Ledger.Step ledger input output ledger' ∧ Related world' ledger' := by
  obtain ⟨changes, phase⟩ := world
  obtain ⟨cells, stage⟩ := ledger
  obtain ⟨holds, borrows⟩ := h
  dsimp only at holds borrows
  cases input with
  | update id filter act =>
    obtain ⟨rfl, -⟩ := ok
    cases borrows
    by_cases inside : id.offset < n
    · obtain ⟨changes', acted, holds', -⟩ := holds.act (⟨id.offset, inside⟩, filter) id.fd act
      refine ⟨.done, ⟨changes', .idle⟩, _, ?_, .update inside, holds', .idle⟩
      simp only [World.step]
      rw [entry_inside changes inside]
      dsimp only
      rw [acted]
      rfl
    · refine ⟨.missing, ⟨changes, .idle⟩, _, ?_, .missing (by omega), holds, .idle⟩
      simp only [World.step]
      rw [entry_outside changes (by omega)]
  | close offset =>
    obtain ⟨rfl, inside⟩ := ok
    cases borrows
    obtain ⟨changes', closed, holds', -⟩ := holds.close inside
    refine ⟨.done, ⟨changes', .idle⟩, _, ?_, .close inside, holds', .idle⟩
    simp only [World.step]
    rw [closed]
    rfl
  | len =>
    obtain rfl : phase = .idle := ok
    cases borrows
    refine ⟨_, ⟨changes, .idle⟩, _, ?_, .len, holds, .idle⟩
    simp only [World.step]
    rw [isEmpty_count holds, holds.count]
  | batch grants =>
    obtain rfl : phase = .idle := ok
    cases borrows
    obtain ⟨k, changes', run, holds', staged, admits⟩ := holds.batch grants
    refine ⟨_, ⟨changes', .tail⟩, _, ?_, .batch admits, .tail holds' staged rfl⟩
    simp only [World.step]
    rw [run, ok_bind, staged.tailEvents]
    rfl
  | tail limit =>
    obtain rfl : phase = .idle := ok
    cases borrows
    obtain ⟨changes', run, holds', staged⟩ := holds.tail limit
    refine ⟨_, ⟨changes', .tail⟩, _, ?_, .tail, .tail holds' staged rfl⟩
    simp only [World.step]
    rw [run, ok_bind, staged.tailEvents]
    rfl
  | edit events' =>
    obtain ⟨rfl, length⟩ := ok
    cases borrows with
    | @tail events staged =>
      rw [staged.length] at length
      obtain ⟨holds', staged'⟩ := staged.edit holds length
      refine ⟨.done, ⟨changes.edit events', .tail⟩, _, rfl, .edit length, holds', ?_⟩
      rw [← length]
      exact .tail staged'
  | receipt index =>
    obtain ⟨rfl, inside⟩ := ok
    cases borrows with
    | @tail events staged =>
      rw [staged.length] at inside
      obtain ⟨changes', run, holds', staged'⟩ := staged.receipt holds inside
      have borrows' : Borrows changes' cells .tail (.tail _ _) := .tail staged'
      rw [List.length_set] at borrows'
      refine ⟨.done, ⟨changes', .tail⟩, _, ?_, .receipt inside, holds', borrows'⟩
      simp only [World.step]
      rw [run]
      rfl
  | split =>
    obtain rfl : phase = .tail := ok
    cases borrows with
    | @tail events staged =>
      obtain ⟨deletes, updates, changes', run, holds', staged', perm, front, back⟩ :=
        staged.split holds
      have borrows' : Borrows changes' cells .tail (.tail _ _) := .tail staged'
      rw [perm.length_eq] at borrows'
      refine ⟨_, ⟨changes', .tail⟩, _, ?_, .split perm front back, holds', borrows'⟩
      simp only [World.step]
      rw [run]
      rfl
  | commit =>
    obtain rfl : phase = .tail := ok
    cases borrows with
    | @tail events staged =>
      obtain ⟨changes', removed, holds', -⟩ := holds.remove changes.stagedLen
      rw [staged.length] at holds'
      refine ⟨.done, ⟨changes', .idle⟩, _, ?_, .commit, holds', .idle⟩
      simp only [World.step]
      rw [removed]
      rfl
  | drop =>
    obtain rfl : phase = .tail := ok
    cases borrows with
    | tail => exact ⟨.done, ⟨changes, .idle⟩, _, rfl, .drop, holds, .idle⟩
  | tryDelete entries =>
    obtain rfl : phase = .idle := ok
    cases borrows
    obtain ⟨result, changes', run, holds', outcome⟩ := holds.tryDelete entries
    simp only [World.step]
    rw [run, ok_bind]
    dsimp only
    cases plan : planned entries (fun _ => none : Cells n) with
    | error index =>
      rw [plan] at outcome
      dsimp only at outcome
      subst outcome
      exact ⟨_, ⟨changes', .idle⟩, _, rfl, .failed plan, holds', .idle⟩
    | ok plan' =>
      rw [plan] at outcome
      obtain ⟨rfl, kept⟩ := outcome
      exact ⟨_, ⟨changes', .plan⟩, _, rfl, .planned plan, holds', .plan kept⟩
  | commitDelete =>
    obtain rfl : phase = .plan := ok
    cases borrows with
    | plan kept =>
      obtain ⟨changes', run, holds'⟩ := kept.commit holds small
      refine ⟨.done, ⟨changes', .idle⟩, _, ?_, .commitDelete, holds', .idle⟩
      simp only [World.step]
      rw [run]
      rfl
  | dropDelete =>
    obtain rfl : phase = .plan := ok
    cases borrows with
    | plan => exact ⟨.done, ⟨changes, .idle⟩, _, rfl, .dropDelete, holds, .idle⟩

theorem refines (capacity : Capacity) :
    (World.machine capacity).Refines (Ledger.spec capacity.count) Related where
  start := by
    intro world same
    exact ⟨_, rfl, by rw [same]; exact related_start capacity.count⟩
  step := by
    intro world ledger input related ok
    have bound := capacity.bound
    obtain ⟨output, world', ledger', run, step, related'⟩ := related.step (by omega) ok
    exact ⟨output, world', ledger', run, step, related'⟩

/-- Whatever a run of the change list answers, the map answers: the bitmap and
the count are exact, a tail holds the first entries in their order, and no
access is out of range. -/
theorem reachable_mapped (capacity : Capacity) {events : List (Input × Output)}
    {world : World capacity.count} (run : (World.machine capacity).Traces events world) :
    (∃ ledger, (Ledger.spec capacity.count).Traces events ledger ∧ Related world ledger) ∧
      ∀ input, world.allowed input → ∃ output world', world.step input = .ok (output, world') := by
  obtain ⟨ledger, traces, related⟩ := (refines capacity).traces run
  refine ⟨⟨ledger, traces, related⟩, ?_⟩
  intro input ok
  have bound := capacity.bound
  obtain ⟨output, world', -, step, -⟩ := related.step (by omega) ok
  exact ⟨output, world', step⟩

/-- One event is armed, submitted and committed, and a deletion is planned. -/
def exampleInputs : List Input :=
  [.update ⟨1, 7⟩ .read (.arm evAdd 3), .batch fun _ => true, .split, .commit,
    .tryDelete [.ok (some (⟨0, 5⟩, .write))], .commitDelete]

theorem reachable_mapped_example :
    ∃ events world, (World.machine ⟨2, by decide⟩).Traces events world ∧
      events.map (·.1) = exampleInputs ∧
      ∃ ledger, (Ledger.spec 2).Traces events ledger ∧ Related world ledger := by
  have traced : ∃ events world, (World.machine ⟨2, by decide⟩).Traces events world ∧
      events.map (·.1) = exampleInputs := by
    refine ⟨_, _, ((((((Machine.Traces.start rfl).call (.update ⟨1, 7⟩ .read (.arm evAdd 3)) ?_
      rfl).call (.batch fun _ => true) ?_ rfl).call .split ?_ rfl).call .commit ?_ rfl).call
      (.tryDelete [.ok (some (⟨0, 5⟩, .write))]) ?_ rfl).call .commitDelete ?_ rfl, rfl⟩
    · exact ⟨rfl, by simp⟩
    · exact rfl
    · exact rfl
    · exact rfl
    · exact rfl
    · exact rfl
  obtain ⟨events, world, run, inputs⟩ := traced
  obtain ⟨ledger, traces, related⟩ := (reachable_mapped ⟨2, by decide⟩ run).1
  exact ⟨events, world, run, inputs, ledger, traces, related⟩

end Dope.Kqueue
