import Dope.Kqueue.Rep

/-! # The change list is the map

Each operation of the change list is one of the map: what is staged, what is
removed and what a plan leaves are parts of it. No run faults.
-/

namespace Dope.Kqueue

open Run Dope.Index Cells

variable {n : Nat} {changes : Changes n} {cells : Cells n}

/-! ## Interests -/

variable {offset : Nat}

theorem entry_inside (changes : Changes n) (inside : offset < n) (filter : Filter) :
    changes.entry offset filter =
      some ⟨(⟨offset, inside⟩, filter), row ((⟨offset, inside⟩ : Fin n), filter)⟩ := by
  have fits : ordinal n offset filter < 2 * n := row_lt ((⟨offset, inside⟩ : Fin n), filter)
  unfold Changes.entry
  rw [dif_pos inside, if_pos fits]
  rfl

theorem entry_outside (changes : Changes n) (outside : n ≤ offset) (filter : Filter) :
    changes.entry offset filter = none := by
  unfold Changes.entry
  rw [dif_neg (by omega)]

theorem Holds.upsert (h : Holds changes cells) (cell : Fin n × Filter) (fd : Int)
    (flags : BitVec 16) (data : Nat) :
    ∃ changes', changes.upsert ⟨cell, row cell⟩ fd flags data = .ok changes' ∧
      Holds changes' (Function.update cells cell (some (merge (cells cell) fd cell.2 flags data))) ∧
      Kept changes changes' := by
  obtain rfl := h.slots
  unfold Changes.upsert merge
  simp only [Entry.get]
  cases held : changes.slots cell with
  | none => exact h.set cell _
  | some current =>
    dsimp only
    split
    · exact h.set cell _
    · exact h.set cell _

theorem Holds.act (h : Holds changes cells) (cell : Fin n × Filter) (fd : Int) (act : Changes.Act) :
    ∃ changes', changes.act ⟨cell, row cell⟩ fd act = .ok changes' ∧
      Holds changes' (Function.update cells cell (acted (cells cell) fd cell.2 act)) ∧
      Kept changes changes' := by
  cases act with
  | arm flags data => exact h.upsert cell fd flags data
  | delete => exact h.upsert cell fd evDelete 0
  | discard => exact h.set cell none
  | cancel =>
    obtain rfl := h.slots
    have run : changes.act ⟨cell, row cell⟩ fd .cancel =
        if (changes.slots cell).isNone then changes.upsert ⟨cell, row cell⟩ fd evDelete 0
        else Entry.set ⟨cell, row cell⟩ changes none := rfl
    rw [run]
    unfold acted
    dsimp only
    by_cases free : (changes.slots cell).isNone = true
    · rw [if_pos free, if_pos free]
      exact h.upsert cell fd evDelete 0
    · rw [if_neg free, if_neg free]
      exact h.set cell none

theorem Holds.close (h : Holds changes cells) (inside : offset < n) :
    ∃ changes', changes.close offset = .ok changes' ∧
      Holds changes' (cells.clear [(⟨offset, inside⟩, .write), (⟨offset, inside⟩, .read)]) ∧
      Kept changes changes' := by
  obtain ⟨middle, first, holds, kept⟩ := h.set (⟨offset, inside⟩, .write) none
  obtain ⟨last, second, holds', kept'⟩ := holds.set (⟨offset, inside⟩, .read) none
  refine ⟨last, ?_, ?_, kept.trans kept'⟩
  · have low : (n - 1 - offset) * 2 = row ((⟨offset, inside⟩ : Fin n), Filter.write) := rfl
    have high : (n - 1 - offset) * 2 + 1 = row ((⟨offset, inside⟩ : Fin n), Filter.read) := rfl
    unfold Changes.close
    dsimp only
    rw [if_pos (by omega), low, project_row, ok_bind, first, ok_bind, ← low, high, project_row,
      ok_bind]
    exact second
  · rw [update_none, update_none, clear_clear] at holds'
    exact holds'

/-! ## Staging -/

/-- The staged prefix. A flag that is not set proves that it has no deletion. -/
structure Staged (changes : Changes n) (events : List Event) : Prop where
  length : changes.stagedLen = events.length
  stored : changes.staged.toList.take events.length = events
  fits : events.length ≤ changes.staged.size
  flag : changes.stagedDelete = false → ∀ event ∈ events, event.isDelete = false

variable {events : List Event}

theorem Staged.tailEvents (h : Staged changes events) : changes.tailEvents = .ok events := by
  have fits := h.fits
  unfold Changes.tailEvents
  rw [h.length, if_pos fits, h.stored]

theorem Staged.stage (holds : Holds changes cells) (h : Staged changes events)
    (room : events.length < 2 * n) (event : Event) :
    ∃ changes', changes.stage event = .ok changes' ∧ Holds changes' cells ∧
      Staged changes' (events ++ [event]) := by
  have inside : changes.stagedLen < changes.staged.size := by
    rw [h.length, holds.size]
    exact room
  unfold Changes.stage Changes.write
  dsimp only
  rw [dif_pos inside]
  refine ⟨_, rfl, ⟨holds.slots, holds.live, holds.count, ?_⟩, ?_⟩
  · dsimp only
    rw [Array.size_set]
    exact holds.size
  · have lt : events.length < changes.staged.toList.length := by
      simpa [holds.size] using room
    constructor
    · simp [h.length]
    · dsimp only
      rw [Array.toList_set, List.length_append, List.length_singleton]
      simp only [h.length]
      rw [List.take_succ_eq_append_getElem (by simpa using lt)]
      simp [List.take_set_of_le, h.stored]
    · simp only [Array.size_set, List.length_append, List.length_singleton]
      rw [holds.size]
      omega
    · intro flag e mem
      rw [Bool.or_eq_false_iff] at flag
      rcases List.mem_append.mp mem with mem | mem
      · exact h.flag flag.1 e mem
      · rw [List.mem_singleton.mp mem]
        exact flag.2

theorem Staged.start (holds : Holds changes cells) :
    Holds { changes with stagedLen := 0, stagedDelete := false } cells ∧
      Staged { changes with stagedLen := 0, stagedDelete := false } [] :=
  ⟨⟨holds.slots, holds.live, holds.count, holds.size⟩, ⟨rfl, rfl, Nat.zero_le _, by simp⟩⟩

variable {before after : List ((Fin n × Filter) × Event)}

/-- Behind an entry the walk has passed everything up to it. -/
theorem beyond {entry : (Fin n × Filter) × Event}
    (split : cells.entries = before ++ entry :: after) :
    (∀ e ∈ before ++ [entry], row e.1 < row entry.1 + 1) ∧
      ∀ e ∈ after, row entry.1 + 1 ≤ row e.1 := by
  have sorted := entries_sorted cells
  rw [split, List.pairwise_append] at sorted
  obtain ⟨-, order, cross⟩ := sorted
  constructor
  · intro e mem
    rcases List.mem_append.mp mem with mem | mem
    · have lt := cross e mem entry List.mem_cons_self
      omega
    · rw [List.mem_singleton.mp mem]
      omega
  · exact (List.pairwise_cons.mp order).1

theorem Holds.at_entry (h : Holds changes cells) {cell : Fin n × Filter} {event : Event}
    (split : cells.entries = before ++ (cell, event) :: after) :
    Entry.get ⟨cell, row cell⟩ changes = some event := by
  have mem : (cell, event) ∈ cells.entries := by
    rw [split]
    simp
  unfold Entry.get
  rw [h.slots]
  exact mem_entries.mp mem

theorem room_of_split {entry : (Fin n × Filter) × Event}
    (split : cells.entries = before ++ entry :: after) : (before.map (·.2)).length < 2 * n := by
  have le := entries_length_le cells
  rw [split, List.length_append, List.length_cons] at le
  rw [List.length_map]
  omega

theorem batchFrom_staged {grants : Nat → Bool} {before after : List ((Fin n × Filter) × Event)}
    {cursor : Nat} (holds : Holds changes cells) (staged : Staged changes (before.map (·.2)))
    (split : cells.entries = before ++ after) (passed : ∀ e ∈ before, row e.1 < cursor)
    (here : ∀ e ∈ after, cursor ≤ row e.1) (granted : ∀ turn < before.length, grants turn = true) :
    ∃ k changes', Changes.batchFrom grants after.length before.length cursor changes =
        .ok changes' ∧ Holds changes' cells ∧
      Staged changes' ((cells.entries.take k).map (·.2)) ∧
      Admits grants cells.entries.length k := by
  have stops : Staged changes ((cells.entries.take before.length).map (·.2)) := by
    rw [split, List.take_left]
    exact staged
  have le : before.length ≤ cells.entries.length := by
    rw [split, List.length_append]
    omega
  induction after generalizing before changes cursor with
  | nil =>
    refine ⟨before.length, changes, rfl, holds, stops, le, granted, .inl ?_⟩
    rw [split, List.append_nil]
  | cons entry after ih =>
    obtain ⟨cell, event⟩ := entry
    rw [List.length_cons, Changes.batchFrom]
    by_cases grant : grants before.length = true
    · obtain ⟨middle, stage, holds', staged'⟩ :=
        staged.stage holds (room_of_split split) event
      obtain ⟨behind, ahead⟩ := beyond split
      have split' : cells.entries = (before ++ [(cell, event)]) ++ after := by
        simp [split]
      have staged'' : Staged middle ((before ++ [(cell, event)]).map (·.2)) := by
        simpa using staged'
      have le' : (before ++ [(cell, event)]).length ≤ cells.entries.length := by
        rw [split']
        exact (List.prefix_append _ _).length_le
      have granted' : ∀ turn < (before ++ [(cell, event)]).length, grants turn = true := by
        intro turn lt
        rw [List.length_append, List.length_singleton] at lt
        by_cases last : turn = before.length
        · rw [last]
          exact grant
        · exact granted turn (by omega)
      have rest := ih holds' staged'' split' behind ahead granted' (by
        rw [split', List.take_left]
        exact staged'') le'
      rw [List.length_append, List.length_singleton] at rest
      rw [if_pos grant, holds.next_some split passed (here _ List.mem_cons_self), ok_bind]
      dsimp only
      rw [holds.at_entry split]
      dsimp only
      rw [stage]
      exact rest
    · rw [if_neg grant]
      have refused : grants before.length = false := by simpa using grant
      exact ⟨before.length, changes, rfl, holds, stops, le, granted, .inr refused⟩

theorem tailFrom_staged {before after : List ((Fin n × Filter) × Event)} {left cursor : Nat}
    (holds : Holds changes cells) (staged : Staged changes (before.map (·.2)))
    (split : cells.entries = before ++ after) (passed : ∀ e ∈ before, row e.1 < cursor)
    (here : ∀ e ∈ after, cursor ≤ row e.1) (few : left ≤ after.length) :
    ∃ changes', Changes.tailFrom left cursor changes = .ok changes' ∧ Holds changes' cells ∧
      Staged changes' ((before ++ after.take left).map (·.2)) := by
  induction left generalizing before after changes cursor with
  | zero =>
    refine ⟨changes, rfl, holds, ?_⟩
    simpa using staged
  | succ left ih =>
    cases after with
    | nil => simp at few
    | cons entry after =>
      obtain ⟨cell, event⟩ := entry
      obtain ⟨middle, stage, holds', staged'⟩ :=
        staged.stage holds (room_of_split split) event
      obtain ⟨behind, ahead⟩ := beyond split
      have split' : cells.entries = (before ++ [(cell, event)]) ++ after := by
        simp [split]
      have staged'' : Staged middle ((before ++ [(cell, event)]).map (·.2)) := by
        simpa using staged'
      have rest := ih holds' staged'' split' behind ahead (by simpa using few)
      rw [List.append_assoc] at rest
      rw [Changes.tailFrom, holds.next_some split passed (here _ List.mem_cons_self), ok_bind]
      dsimp only
      rw [holds.at_entry split]
      dsimp only
      rw [stage]
      exact rest

theorem Holds.batch (h : Holds changes cells) (grants : Nat → Bool) :
    ∃ k changes', changes.batch grants = .ok changes' ∧ Holds changes' cells ∧
      Staged changes' ((cells.entries.take k).map (·.2)) ∧
      Admits grants cells.entries.length k := by
  obtain ⟨holds, staged⟩ := Staged.start h
  have run := @batchFrom_staged n _ cells grants [] cells.entries 0 holds staged rfl (by simp)
    (by simp) (by simp)
  rw [← h.count] at run
  rw [← h.count]
  exact run

theorem Holds.tail (h : Holds changes cells) (limit : Nat) :
    ∃ changes', changes.tail limit = .ok changes' ∧ Holds changes' cells ∧
      Staged changes' ((cells.entries.take limit).map (·.2)) := by
  obtain ⟨holds, staged⟩ := Staged.start h
  have turns : cells.entries.take limit = cells.entries.take (min cells.entries.length limit) := by
    rw [Nat.min_comm, ← List.take_take, List.take_length]
  have run := @tailFrom_staged n _ cells [] cells.entries (min cells.entries.length limit) 0 holds
    staged rfl (by simp) (by simp) (Nat.min_le_left _ _)
  rw [List.nil_append, ← turns, ← h.count] at run
  exact run

/-! ## Removal -/

theorem removeFrom_cleared {left cursor : Nat} (h : Holds changes cells)
    (here : ∀ e ∈ cells.entries, cursor ≤ row e.1) :
    ∃ changes', Changes.removeFrom left cursor changes = .ok changes' ∧
      Holds changes' (cells.clear ((cells.entries.take left).map (·.1))) ∧
      Kept changes changes' := by
  induction left generalizing changes cells cursor with
  | zero =>
    refine ⟨changes, rfl, ?_, .refl _⟩
    have same : cells.clear [] = cells := by
      funext cell
      simp [clear]
    rw [List.take_zero, List.map_nil, same]
    exact h
  | succ left ih =>
    rw [Changes.removeFrom]
    cases split : cells.entries with
    | nil =>
      refine ⟨changes, ?_, ?_, .refl _⟩
      · rw [h.next_none (by simp [split]), ok_bind]
      · have same : cells.clear [] = cells := by
          funext cell
          simp [clear]
        rw [List.take_nil, List.map_nil, same]
        exact h
    | cons entry after =>
      obtain ⟨cell, event⟩ := entry
      have split' : cells.entries = [] ++ (cell, event) :: after := split
      obtain ⟨middle, set, holds, kept⟩ := h.set cell none
      have rest : (entries (Function.update cells cell none)) = after := by
        have nodup := entries_nodup cells
        rw [split, List.map_cons, List.nodup_cons] at nodup
        rw [update_none, entries_clear, split]
        rw [List.filter_cons_of_neg (by simp)]
        apply List.filter_eq_self.mpr
        intro e mem
        have ne : e.1 ≠ cell := by
          intro same
          have held : e.1 ∈ after.map (·.1) := List.mem_map_of_mem mem
          rw [same] at held
          exact nodup.1 held
        simpa using ne
      obtain ⟨-, ahead⟩ := beyond split'
      have onward : ∀ e ∈ entries (Function.update cells cell none),
          row cell + 1 ≤ row e.1 := by
        rw [rest]
        exact ahead
      obtain ⟨last, removed, holds', kept'⟩ := ih holds onward
      refine ⟨last, ?_, ?_, kept.trans kept'⟩
      · rw [h.next_some split' (by simp) (here (cell, event) (by simp [split])), ok_bind]
        dsimp only
        rw [set]
        exact removed
      · rw [rest, update_none, clear_clear] at holds'
        exact holds'

theorem Holds.remove (h : Holds changes cells) (count : Nat) :
    ∃ changes', changes.remove count = .ok changes' ∧
      Holds changes' (cells.clear ((cells.entries.take count).map (·.1))) ∧
      Kept changes changes' := by
  have turns : cells.entries.take count = cells.entries.take (min cells.entries.length count) := by
    rw [Nat.min_comm, ← List.take_take, List.take_length]
  unfold Changes.remove
  rw [h.count, turns]
  exact removeFrom_cleared h (by simp)

/-! ## The split -/

/-- Below `index` the deletions come first, and there are `deletes` of them. -/
structure Parted (staged : Array Event) (index deletes : Nat) : Prop where
  le : deletes ≤ index
  front : ∀ i e, i < deletes → staged[i]? = some e → e.isDelete = true
  back : ∀ i e, deletes ≤ i → i < index → staged[i]? = some e → e.isDelete = false

/-- The events below `len` change places. -/
structure Permuted (staged staged' : Array Event) (len : Nat) : Prop where
  size : staged'.size = staged.size
  perm : staged'.Perm staged
  rest : ∀ i, len ≤ i → staged'[i]? = staged[i]?

theorem Permuted.take {staged staged' : Array Event} {len : Nat} (h : Permuted staged staged' len) :
    (staged'.toList.take len).Perm (staged.toList.take len) := by
  have perm := Array.perm_iff_toList_perm.mp h.perm
  have same : staged'.toList.drop len = staged.toList.drop len := by
    apply List.ext_getElem?
    intro i
    rw [List.getElem?_drop, List.getElem?_drop, Array.getElem?_toList, Array.getElem?_toList]
    exact h.rest _ (Nat.le_add_right _ _)
  rw [← List.take_append_drop len staged'.toList, ← List.take_append_drop len staged.toList,
    same] at perm
  exact (List.perm_append_right_iff _).mp perm

theorem splitFrom_parted {staged : Array Event} {left index deletes len : Nat}
    (turns : index + left = len) (fits : len ≤ staged.size) (h : Parted staged index deletes) :
    ∃ staged' count, Changes.splitFrom left index deletes staged = .ok (staged', count) ∧
      Parted staged' len count ∧ Permuted staged staged' len := by
  induction left generalizing index deletes staged with
  | zero =>
    obtain rfl : index = len := turns
    exact ⟨staged, deletes, rfl, h, rfl, .refl _, fun _ _ => rfl⟩
  | succ left ih =>
    have le := h.le
    have inside : index < staged.size := by omega
    rw [Changes.splitFrom, dif_pos inside]
    by_cases delete : staged[index].isDelete = true
    · rw [if_pos delete, dif_pos (by omega)]
      dsimp only
      by_cases away : index = deletes
      · rw [if_neg (by simpa using away)]
        apply ih (by omega) fits
        constructor
        · omega
        · intro i e lt found
          by_cases last : i = index
          · rw [last, Array.getElem?_eq_getElem inside] at found
            rw [← Option.some.inj found]
            exact delete
          · exact h.front i e (by omega) found
        · intro i e ge lt found
          omega
      · rw [if_pos (by simpa using away)]
        have below : deletes < staged.size := by omega
        have swapped : Parted (staged.swap index deletes) (index + 1) (deletes + 1) := by
          constructor
          · omega
          · intro i e lt found
            rw [Array.getElem?_swap] at found
            by_cases last : i = deletes
            · rw [if_pos last.symm] at found
              rw [← Option.some.inj found]
              exact delete
            · rw [if_neg (fun same => last same.symm), if_neg (by omega)] at found
              exact h.front i e (by omega) found
          · intro i e ge lt found
            rw [Array.getElem?_swap, if_neg (by omega)] at found
            by_cases last : i = index
            · rw [if_pos last.symm] at found
              apply h.back deletes e (Nat.le_refl _) (by omega)
              rw [Array.getElem?_eq_getElem below]
              exact found
            · rw [if_neg (fun same => last same.symm)] at found
              exact h.back i e (by omega) (by omega) found
        obtain ⟨staged', count, run, parted, permuted⟩ :=
          ih (by omega) (by rw [Array.size_swap]; exact fits) swapped
        refine ⟨staged', count, run, parted, ?_, ?_, ?_⟩
        · rw [permuted.size, Array.size_swap]
        · exact permuted.perm.trans (Array.swap_perm inside below)
        · intro i ge
          rw [permuted.rest i ge, Array.getElem?_swap, if_neg (by omega), if_neg (by omega)]
    · rw [if_neg delete]
      apply ih (by omega) fits
      constructor
      · omega
      · exact h.front
      · intro i e ge lt found
        by_cases last : i = index
        · rw [last, Array.getElem?_eq_getElem inside] at found
          rw [← Option.some.inj found]
          simpa using delete
        · exact h.back i e ge (by omega) found

theorem Staged.split (holds : Holds changes cells) (h : Staged changes events) :
    ∃ deletes updates changes', changes.split = .ok ((deletes, updates), changes') ∧
      Holds changes' cells ∧ Staged changes' (deletes ++ updates) ∧
      (deletes ++ updates).Perm events ∧ (∀ event ∈ deletes, event.isDelete = true) ∧
      ∀ event ∈ updates, event.isDelete = false := by
  have fits := h.fits
  have stored := h.stored
  unfold Changes.split
  by_cases flag : changes.stagedDelete = true
  · have begins : Parted changes.staged 0 0 := ⟨Nat.le_refl _, by simp, by simp⟩
    obtain ⟨staged', count, run, parted, permuted⟩ :=
      splitFrom_parted (Nat.zero_add events.length) fits begins
    have size := permuted.size
    have perm := permuted.take
    rw [stored] at perm
    have length : (staged'.toList.take events.length).length = events.length := perm.length_eq
    have staged : Staged { changes with staged := staged' }
        (staged'.toList.take events.length) := by
      constructor
      · rw [length]
        exact h.length
      · rw [length]
      · rw [length]
        dsimp only
        omega
      · intro other
        rw [flag] at other
        cases other
    refine ⟨(staged'.toList.take events.length).take count,
      (staged'.toList.take events.length).drop count, { changes with staged := staged' }, ?_,
      ⟨holds.slots, holds.live, holds.count, size.trans holds.size⟩, ?_, ?_, ?_, ?_⟩
    · rw [← h.length] at run
      rw [if_pos flag, run, ok_bind]
      dsimp only
      rw [staged.tailEvents]
      rfl
    · rw [List.take_append_drop]
      exact staged
    · rw [List.take_append_drop]
      exact perm
    · intro event mem
      obtain ⟨i, found⟩ := List.mem_iff_getElem?.mp mem
      rw [List.getElem?_take] at found
      split at found
      · rename_i lt
        rw [List.getElem?_take] at found
        split at found
        · exact parted.front i event lt (by simpa using found)
        · cases found
      · cases found
    · intro event mem
      obtain ⟨i, found⟩ := List.mem_iff_getElem?.mp mem
      rw [List.getElem?_drop, List.getElem?_take] at found
      split at found
      · rename_i lt
        exact parted.back (count + i) event (Nat.le_add_right _ _) lt (by simpa using found)
      · cases found
  · have unset : changes.stagedDelete = false := by simpa using flag
    refine ⟨[], events, changes, ?_, holds, h, .refl _, by simp, h.flag unset⟩
    rw [if_neg flag, ok_bind]
    dsimp only
    rw [h.tailEvents]
    rfl

/-! ## Edits -/

theorem Staged.edit {events' : List Event} (holds : Holds changes cells)
    (h : Staged changes events) (length : events'.length = events.length) :
    Holds (changes.edit events') cells ∧ Staged (changes.edit events') events' := by
  have fits := h.fits
  have size : (changes.edit events').staged.size = changes.staged.size := by
    simp [Changes.edit]
    omega
  refine ⟨⟨holds.slots, holds.live, holds.count, size.trans holds.size⟩, ?_⟩
  constructor
  · rw [length]
    exact h.length
  · simp [Changes.edit]
  · rw [size, length]
    exact fits
  · intro flag
    cases flag

theorem receipt_isDelete (event : Event) :
    ({ event with flags := event.flags ||| evReceipt } : Event).isDelete = event.isDelete := by
  have apart : evReceipt &&& evDelete = 0 := by decide
  have spread : (event.flags ||| evReceipt) &&& evDelete = event.flags &&& evDelete := by
    rw [BitVec.and_or_distrib_right, apart]
    exact BitVec.or_zero
  unfold Event.isDelete
  dsimp only
  rw [spread]

theorem Staged.receipt (holds : Holds changes cells) (h : Staged changes events) {index : Nat}
    (inside : index < events.length) :
    ∃ changes', changes.receipt index = .ok changes' ∧ Holds changes' cells ∧
      Staged changes' (events.set index
        { events[index] with flags := events[index].flags ||| evReceipt }) := by
  have fits := h.fits
  have stored := h.stored
  have below : index < changes.staged.size := by omega
  have same : changes.staged[index] = events[index] := by
    have found : changes.staged.toList[index]? = events[index]? := by
      conv_rhs => rw [← stored]
      rw [List.getElem?_take, if_pos inside]
    rw [Array.getElem?_toList, Array.getElem?_eq_getElem below,
      List.getElem?_eq_getElem inside] at found
    exact Option.some.inj found
  unfold Changes.receipt Changes.write
  rw [dif_pos below]
  dsimp only
  rw [dif_pos below, same]
  refine ⟨_, rfl, ⟨holds.slots, holds.live, holds.count, ?_⟩, ?_⟩
  · dsimp only
    rw [Array.size_set]
    exact holds.size
  · constructor
    · rw [List.length_set]
      exact h.length
    · dsimp only
      rw [List.length_set, Array.toList_set, List.take_set, stored]
    · dsimp only
      rw [List.length_set, Array.size_set]
      exact fits
    · intro flag event mem
      rcases List.mem_or_eq_of_mem_set mem with mem | rfl
      · exact h.flag flag event mem
      · rw [receipt_isDelete]
        exact h.flag flag _ (List.getElem_mem inside)

end Dope.Kqueue
