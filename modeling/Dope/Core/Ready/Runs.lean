import Dope.Core.Ready.Fair
import Mathlib.Data.List.Perm.Subperm

/-! # Runs of the ready set

A drain takes the indices that are on its side when it starts, and no other.
With the fairness of the sides this holds over every run, with callbacks in
between.
-/

namespace Dope.Core.Ready

open Event

/-! ## Calls -/

/-- A call that has `left` of its budget: what is on its side has waited there
from the start, and what was there has been activated or removed. -/
structure Live (queued : Side → Nat → Bool) (call : Call) (left : Nat) : Prop where
  stable : Stable call.initial call.events
  fresh : ∀ i, queued call.side i = true →
    i ∈ call.initial ∧ .activated i ∉ call.events ∧ .inserted i ∉ call.events
  kept : ∀ i ∈ call.initial,
    queued call.side i = true ∨ .activated i ∈ call.events ∨ .removed i ∈ call.events
  spent : (activations call.events).length + left = call.budget

namespace Live

variable {queued queued' : Side → Nat → Bool} {call : Call} {left index : Nat}

theorem insert (h : Live queued call left) (free : ∀ s, queued s index = false)
    (turned : ∀ s i, queued' s i = if s = call.side.other ∧ i = index then true else queued s i) :
    Live queued' (call.note (.inserted index)) left := by
  have same : ∀ i, queued' call.side i = queued call.side i := by
    intro i
    rw [turned, if_neg (fun both => call.side.other_ne both.1.symm)]
  refine ⟨h.stable, ?_, ?_, h.spent⟩
  · intro i on
    replace on : queued call.side i = true := by
      rw [← same]
      exact on
    rcases h.fresh i on with ⟨first, idle, old⟩
    have apart : i ≠ index := by
      intro equal
      rw [equal, free] at on
      cases on
    refine ⟨first, ?_, ?_⟩
    · simp [Call.note, idle]
    · simp [Call.note, old, apart]
  · intro i first
    rcases h.kept i first with on | gone | gone
    · left
      show queued' call.side i = true
      rw [same]
      exact on
    · exact .inr (.inl (List.mem_cons_of_mem _ gone))
    · exact .inr (.inr (List.mem_cons_of_mem _ gone))

theorem remove {side : Side} (h : Live queued call left)
    (turned : ∀ s i, queued' s i = if s = side ∧ i = index then false else queued s i) :
    Live queued' (call.note (.removed index)) left := by
  refine ⟨h.stable, ?_, ?_, h.spent⟩
  · intro i on
    have before : queued call.side i = true := by
      have now : queued' call.side i = true := on
      rw [turned] at now
      split at now
      · cases now
      · exact now
    rcases h.fresh i before with ⟨first, idle, old⟩
    refine ⟨first, ?_, ?_⟩
    · simp [Call.note, idle]
    · simp [Call.note, old]
  · intro i first
    by_cases mine : i = index
    · rw [mine]
      exact .inr (.inr List.mem_cons_self)
    · rcases h.kept i first with on | gone | gone
      · left
        show queued' call.side i = true
        rw [turned, if_neg (fun both => mine both.2)]
        exact on
      · exact .inr (.inl (List.mem_cons_of_mem _ gone))
      · exact .inr (.inr (List.mem_cons_of_mem _ gone))

theorem activate (h : Live queued call left) (on : queued call.side index = true) (more : left ≠ 0)
    (turned : ∀ s i, queued' s i = if s = call.side ∧ i = index then false else queued s i) :
    Live queued' (call.note (.activated index)) (left - 1) := by
  refine ⟨⟨h.fresh index on, h.stable⟩, ?_, ?_, ?_⟩
  · intro i now
    replace now : queued' call.side i = true := now
    rw [turned] at now
    split at now
    · cases now
    · rename_i other
      rcases h.fresh i now with ⟨first, idle, old⟩
      have apart : i ≠ index := fun equal => other ⟨rfl, equal⟩
      refine ⟨first, ?_, ?_⟩
      · simp [Call.note, idle, apart]
      · simp [Call.note, old]
  · intro i first
    by_cases mine : i = index
    · rw [mine]
      exact .inr (.inl List.mem_cons_self)
    · rcases h.kept i first with waits | gone | gone
      · left
        show queued' call.side i = true
        rw [turned, if_neg (fun both => mine both.2)]
        exact waits
      · exact .inr (.inl (List.mem_cons_of_mem _ gone))
      · exact .inr (.inr (List.mem_cons_of_mem _ gone))
  · have spent := h.spent
    show (activations call.events).length + 1 + (left - 1) = call.budget
    omega

/-- A call that stops has used up its budget, or its side is empty. -/
theorem complete (h : Live queued call left)
    (ended : left = 0 ∨ ∀ i, queued call.side i = false) : call.Complete := by
  intro within i first
  rcases ended with spent | empty
  · -- as many activations as there were indices, all of them different
    have total := h.spent
    rcases h.stable.nodup with ⟨nodup, among⟩
    have room : call.initial.length ≤ (activations call.events).length := by omega
    have all := (List.subperm_of_subset nodup among).perm_of_length_le room
    exact .inl (mem_activations.mp (all.mem_iff.mpr first))
  · rcases h.kept i first with on | gone
    · rw [empty i] at on
      cases on
    · exact gone

end Live

variable {S : Type} {summary : Index.Summary S Side} {store : Store S}

theorem live_start (valid : store.Valid summary) (side : Side) (budget : Nat) :
    Live store.queued (Call.start store side budget) budget := by
  refine ⟨trivial, ?_, ?_, Nat.zero_add budget⟩
  · intro i on
    have inside := valid.inside side i on
    refine ⟨?_, (nomatch ·), (nomatch ·)⟩
    exact List.mem_filter.mpr ⟨List.mem_range.mpr inside, on⟩
  · intro i first
    exact .inl (List.mem_filter.mp first).2

/-! ## Modes -/

namespace Store

/-- The mode is not part of what the words, the summary and the cursors say. -/
theorem Valid.withMode (valid : Valid summary store) (mode : Mode) :
    Valid summary { store with mode } :=
  ⟨valid.rows, valid.inside, valid.single, valid.cursor⟩

section

variable (lawful : summary.Lawful store.capacity.words) (valid : Valid summary store)

include lawful valid

/-- A pause only sets the mode, and leaves the side that is due. -/
theorem pause_spec {side : Side} {log : List Event} (fair : Fair store.queued log side) :
    ∃ mode, store.pause summary side = { store with mode } ∧ mode.phase ≠ .draining ∧
      Settled store.queued log mode := by
  unfold pause
  by_cases empty : store.isEmpty summary side = true
  · rw [if_pos empty]
    rw [isEmpty_iff lawful valid] at empty
    unfold sealSide
    by_cases empty' : store.isEmpty summary side.other = true
    · rw [if_pos empty']
      rw [isEmpty_iff lawful valid] at empty'
      refine ⟨_, rfl, by cases side <;> decide, settled_idle.mpr ⟨?_, ?_⟩⟩
      · intro i
        rw [Side.other_other]
        exact empty i
      · intro i on
        rw [empty' i] at on
        cases on
    · rw [if_neg empty']
      exact ⟨_, rfl, by cases side <;> decide, settled_paused.mpr (fair.turn empty)⟩
  · rw [if_neg empty]
    exact ⟨_, rfl, by cases side <;> decide, settled_paused.mpr fair⟩

theorem start_spec {log : List Event} (settled : Settled store.queued log store.mode) :
    match store.start summary with
    | none => store.mode.phase = .draining
    | some side => store.mode.phase ≠ .draining ∧ Fair store.queued log side := by
  unfold start
  unfold Settled at settled
  cases phase : store.mode.phase with
  | draining => rfl
  | idle =>
    rw [phase] at settled
    exact ⟨(nomatch ·), settled.fair⟩
  | paused side =>
    rw [phase] at settled
    have same : store.mode.active = side.other := by
      cases mode : store.mode <;> rw [mode] at phase <;> cases phase <;> rfl
    dsimp only at settled ⊢
    rw [same, Side.other_other] at settled
    refine ⟨(nomatch ·), ?_⟩
    by_cases empty : store.isEmpty summary side = true
    · rw [if_pos empty, same]
      exact settled.turn ((isEmpty_iff lawful valid side).mp empty)
    · rw [if_neg empty]
      exact settled

theorem admitNext_spec (side : Side) (budget : Nat) :
    match store.admitNext summary side budget with
    | none => budget = 0 ∨ ∀ index, store.queued side index = false
    | some taken => budget ≠ 0 ∧ Takes summary store side taken := by
  unfold admitNext
  by_cases zero : budget = 0
  · rw [if_pos zero]
    exact .inl zero
  · rw [if_neg zero]
    have found := next_spec lawful valid side
    cases next : store.next summary side with
    | none =>
      rw [next] at found
      exact .inr found
    | some taken =>
      rw [next] at found
      exact ⟨zero, found⟩

end

end Store

/-! ## Steps -/

/-- Either no drain runs, or one does, with its frame and its call. A drain that
is called from a callback returns at once. -/
inductive Holding (store : Store S) : List Frame → List Call → Prop where
  | rest (quiet : store.mode.phase ≠ .draining) : Holding store [] []
  | busy {frame : Frame} {call : Call} (mode : store.mode = .draining frame.side)
      (same : call.side = frame.side) (live : Live store.queued call frame.left) :
      Holding store [frame] [call]

/-- An event that keeps the mode is noted by the call that waits. -/
theorem Holding.note {next : Store S} {frames : List Frame} {calls : List Call} {event : Event}
    (h : Holding store frames calls) (mode : next.mode = store.mode)
    (live : ∀ call left, store.mode = .draining call.side → Live store.queued call left →
      Live next.queued (call.note event) left) :
    Holding next frames (calls.map (Call.note event)) := by
  cases h with
  | rest quiet =>
    rw [← mode] at quiet
    exact .rest quiet
  | @busy frame call drains same old =>
    rw [← same] at drains
    have new := live call frame.left drains old
    rw [← mode, same] at drains
    exact .busy drains same new

theorem Holding.quiet {frames : List Frame} {calls : List Call} (h : Holding store frames calls)
    (quiet : store.mode.phase ≠ .draining) : frames = [] ∧ calls = [] := by
  cases h with
  | rest _ => exact ⟨rfl, rfl⟩
  | @busy frame call mode _ _ =>
    exfalso
    apply quiet
    rw [mode]
    cases frame.side <;> rfl

namespace Watch

/-- What holds of the set and its log between two inputs. -/
structure Inv (summary : Index.Summary S Side) (capacity : Capacity) (watch : Watch S) : Prop where
  capacity : watch.set.store.capacity = capacity
  valid : watch.set.store.Valid summary
  waits : ∀ i, waits i watch.log = watch.waiting i
  settled : Settled watch.set.store.queued watch.log watch.set.store.mode
  holding : Holding watch.set.store watch.set.frames watch.calls
  closed : ∀ call ∈ watch.closed, Stable call.initial call.events ∧ call.Complete

variable {capacity : Capacity} {watch : Watch S} {next : Store S} {side : Side} {index : Nat}

theorem waiting_iff : watch.waiting index = true ↔
    ∃ side, watch.set.store.queued side index = true := by
  unfold waiting
  rw [Bool.or_eq_true]
  constructor
  · rintro (on | on)
    · exact ⟨.a, on⟩
    · exact ⟨.b, on⟩
  · rintro ⟨side, on⟩
    cases side with
    | a => exact .inl on
    | b => exact .inr on

theorem free_iff : watch.waiting index = false ↔
    ∀ side, watch.set.store.queued side index = false := by
  unfold waiting
  rw [Bool.or_eq_false_iff]
  constructor
  · rintro ⟨low, high⟩ side
    cases side with
    | a => exact low
    | b => exact high
  · intro off
    exact ⟨off .a, off .b⟩

theorem waiting_turned {value : Bool} (frames : List Frame)
    (turns : watch.set.store.Turns next side index value)
    (off : watch.set.store.queued side.other index = false) (i : Nat) :
    (if index = i then value else watch.waiting i) =
      waiting { watch with set := ⟨next, frames⟩ } i := by
  unfold waiting
  dsimp only
  rw [turns.queued, turns.queued]
  by_cases here : index = i
  · subst here
    cases side <;> simp_all [Side.other]
  · rw [if_neg here, if_neg (fun both => here both.2.symm), if_neg (fun both => here both.2.symm)]

theorem Inv.insert (h : watch.Inv summary capacity) (free : watch.waiting index = false)
    (turns : watch.set.store.Turns next watch.set.store.mode.active index true)
    (valid : next.Valid summary) :
    Inv summary capacity
      { watch.note (.inserted index) with set := { watch.set with store := next } } where
  capacity := turns.capacity.trans h.capacity
  valid := valid
  waits := by
    intro i
    show (if index = i then true else Event.waits i watch.log) = _
    rw [h.waits]
    exact waiting_turned watch.set.frames turns (free_iff.mp free _) i
  settled := by
    show Settled next.queued (.inserted index :: watch.log) next.mode
    rw [turns.mode]
    exact h.settled.insert turns.queued (free_iff.mp free)
  holding := by
    refine h.holding.note turns.mode ?_
    intro call left drains live
    refine live.insert (free_iff.mp free) ?_
    have active : watch.set.store.mode.active = call.side.other := by
      rw [drains]
      cases call.side <;> rfl
    rw [← active]
    exact turns.queued
  closed := h.closed

theorem Inv.remove (h : watch.Inv summary capacity) (on : watch.set.store.queued side index = true)
    (turns : watch.set.store.Turns next side index false) (valid : next.Valid summary) :
    Inv summary capacity
      { watch.note (.removed index) with set := { watch.set with store := next } } where
  capacity := turns.capacity.trans h.capacity
  valid := valid
  waits := by
    intro i
    show (if index = i then false else Event.waits i watch.log) = _
    rw [h.waits]
    exact waiting_turned watch.set.frames turns (h.valid.opposite on) i
  settled := by
    show Settled next.queued (.removed index :: watch.log) next.mode
    rw [turns.mode]
    exact h.settled.remove turns.queued
  holding := h.holding.note turns.mode (fun _ _ _ live => live.remove turns.queued)
  closed := h.closed

theorem Inv.activate (h : watch.Inv summary capacity) {call : Call} {left drained : Nat}
    (fair : Fair watch.set.store.queued watch.log call.side)
    (live : Live watch.set.store.queued call left) (more : left ≠ 0)
    (on : watch.set.store.queued call.side index = true)
    (turns : watch.set.store.Turns next call.side index false) (valid : next.Valid summary) :
    Inv summary capacity
      { set := ⟨{ next with mode := .draining call.side }, [⟨call.side, left - 1, drained⟩]⟩
        log := .activated index :: watch.log
        calls := [call.note (.activated index)]
        closed := watch.closed } where
  capacity := turns.capacity.trans h.capacity
  valid := valid.withMode _
  waits := by
    intro i
    show (if index = i then false else Event.waits i watch.log) = _
    rw [h.waits]
    exact waiting_turned [] turns (h.valid.opposite on) i
  settled := settled_draining.mpr (fair.activate on (h.valid.opposite on) turns.queued)
  holding := .busy rfl rfl (live.activate on more turns.queued)
  closed := h.closed

section

variable (h : watch.Inv summary capacity) (lawful : summary.Lawful capacity.words)

include h lawful

theorem Inv.pause {call : Call} {left : Nat}
    (fair : Fair watch.set.store.queued watch.log call.side)
    (live : Live watch.set.store.queued call left)
    (ended : left = 0 ∨ ∀ i, watch.set.store.queued call.side i = false) :
    Inv summary capacity
      { set := ⟨watch.set.store.pause summary call.side, []⟩
        log := watch.log
        calls := []
        closed := call :: watch.closed } := by
  rw [← h.capacity] at lawful
  rcases Store.pause_spec lawful h.valid fair with ⟨mode, same, quiet, settled⟩
  rw [same]
  refine ⟨h.capacity, h.valid.withMode mode, h.waits, settled, .rest quiet, ?_⟩
  intro call' mem
  rcases List.mem_cons.mp mem with rfl | old
  · exact ⟨live.stable, live.complete ended⟩
  · exact h.closed call' old

theorem step_insert (inside : index < capacity.raw) :
    Inv summary capacity (watch.step summary (.insert index)).2 := by
  rw [← h.capacity] at lawful inside
  show Inv summary capacity { (if watch.waiting index then watch else watch.note (.inserted index))
    with set := { watch.set with
      store := (watch.set.store.insert summary watch.set.store.mode.active index) } }
  rcases Store.insert_spec lawful h.valid watch.set.store.mode.active inside with
    ⟨same, on⟩ | ⟨off, turns, valid⟩
  · rw [if_pos (waiting_iff.mpr on), same]
    exact h
  · have free := free_iff.mpr off
    rw [if_neg (by rw [free]; decide)]
    exact h.insert free turns valid

theorem step_remove (inside : index < capacity.raw) :
    Inv summary capacity
      { (if watch.waiting index then watch.note (.removed index) else watch) with
        set := { watch.set with store := (watch.set.store.remove summary index).2 } } := by
  rw [← h.capacity] at lawful inside
  rcases Store.remove_spec lawful h.valid inside with
    ⟨same, off⟩ | ⟨side, next, taken, on, turns, valid⟩
  · rw [if_neg (by rw [free_iff.mpr off]; decide), same]
    exact h
  · rw [if_pos (waiting_iff.mpr ⟨side, on⟩), taken]
    exact h.remove on turns valid

theorem step_drain (budget : Nat) :
    Inv summary capacity (watch.step summary (.drain budget)).2 := by
  have lawful' := lawful
  rw [← h.capacity] at lawful'
  have started := Store.start_spec lawful' h.valid h.settled
  rcases watch with ⟨⟨store, frames⟩, log, calls, closed⟩
  unfold step Set.step record enter Set.drain
  dsimp only at started lawful' ⊢
  cases begun : store.start summary with
  | none => exact h
  | some side =>
    rw [begun] at started
    rcases started with ⟨quiet, fair⟩
    rcases h.holding.quiet quiet with ⟨none, none'⟩
    dsimp only at none none'
    subst none none'
    have live := live_start h.valid side budget
    have found := Store.admitNext_spec lawful' h.valid side budget
    dsimp only
    cases taken : store.admitNext summary side budget with
    | none =>
      rw [taken] at found
      exact h.pause lawful fair live found
    | some item =>
      rw [taken] at found
      rcases found with ⟨more, on, turns, valid⟩
      exact h.activate fair live more on turns valid

theorem step_resume (waits : watch.set.frames ≠ []) :
    Inv summary capacity (watch.step summary .resume).2 := by
  have lawful' := lawful
  rw [← h.capacity] at lawful'
  have holding := h.holding
  rcases watch with ⟨⟨store, frames⟩, log, calls, closed⟩
  unfold step Set.step record Set.resume
  dsimp only at holding lawful' ⊢
  cases holding with
  | rest quiet => exact absurd rfl waits
  | @busy frame call mode same live =>
    have fair : Fair store.queued log call.side := by
      have settled := h.settled
      dsimp only at settled
      rw [mode, ← same] at settled
      exact settled_draining.mp settled
    have found := Store.admitNext_spec lawful' h.valid call.side frame.left
    dsimp only at found ⊢
    rw [same] at found
    cases taken : store.admitNext summary frame.side frame.left with
    | none =>
      rw [taken, ← same] at found
      have next := h.pause lawful fair live found
      rw [same] at next
      exact next
    | some item =>
      rw [taken, ← same] at found
      rcases found with ⟨more, on, turns, valid⟩
      have next := @Inv.activate _ _ _ _ _ _ h call frame.left (frame.drained + 1) fair live
        more on turns valid
      have mode' : item.2.mode = .draining call.side := by
        rw [turns.mode, same]
        exact mode
      rw [← mode', same] at next
      exact next

theorem step_inv (input : Input) (ok : watch.set.allowed input) :
    Inv summary capacity (watch.step summary input).2 := by
  cases input with
  | insert index =>
    have inside : index < watch.set.store.capacity.raw := ok
    rw [h.capacity] at inside
    exact step_insert h lawful inside
  | remove index =>
    have inside : index < watch.set.store.capacity.raw := ok
    rw [h.capacity] at inside
    exact step_remove h lawful inside
  | clear index =>
    have inside : index < watch.set.store.capacity.raw := ok
    rw [h.capacity] at inside
    exact step_remove h lawful inside
  | drain budget => exact step_drain h lawful budget
  | resume => exact step_resume h lawful ok

end

theorem start_inv (lawful : summary.Lawful capacity.words) :
    Inv summary capacity (⟨Set.tryNew summary capacity, [], [], []⟩ : Watch S) := by
  have none : ∀ side index, (Store.tryNew summary capacity).queued side index = false := by
    intro side index
    show (0 : BitVec 64).getLsbD _ = false
    simp
  refine ⟨rfl, Store.tryNew_valid capacity lawful, ?_, ?_, .rest (nomatch ·), fun _ no => nomatch no⟩
  · intro i
    exact (free_iff.mpr (fun side => none side i)).symm
  · show Settled (Store.tryNew summary capacity).queued [] (.idle .a)
    refine settled_idle.mpr ⟨fun i => none _ i, ?_⟩
    intro i on
    rw [none] at on
    cases on

theorem inv_invariant (lawful : summary.Lawful capacity.words) :
    (machine summary capacity).Invariant (Inv summary capacity) where
  start := by
    intro watch started
    rw [started]
    exact start_inv lawful
  step := by
    intro watch input h ok
    exact ⟨_, _, rfl, step_inv h lawful input ok⟩

/-- In every run an index is on one side at most, and the summary describes the
words. An index waits from its insertion until it is activated or removed. No
drain activates an index twice, or one that came in while it ran, and it leaves
none behind within its budget. While an index waits, no other one is activated
more than twice. -/
theorem reachable_stable (lawful : summary.Lawful capacity.words)
    (h : (machine summary capacity).Reachable watch) :
    (∀ i, ¬ (watch.set.store.queued .a i = true ∧ watch.set.store.queued .b i = true)) ∧
    (∀ side row, row < capacity.words →
      (summary.get watch.set.store.summary side row = true ↔
        watch.set.store.words row &&& sideMask side ≠ 0)) ∧
    (∀ i, waits i watch.log = true ↔ ∃ side, watch.set.store.queued side i = true) ∧
    (∀ call ∈ watch.calls ++ watch.closed, Stable call.initial call.events) ∧
    (∀ call ∈ watch.closed, call.Complete) ∧
    ∀ i j, j ≠ i → waits i watch.log = true → since i j watch.log ≤ 2 := by
  have inv := (inv_invariant lawful).holds h
  refine ⟨?_, ?_, ?_, ?_, fun call mem => (inv.closed call mem).2, ?_⟩
  · intro i both
    rw [inv.valid.single i both.1] at both
    exact nomatch both.2
  · intro side row within
    rw [← inv.capacity] at within
    rw [inv.valid.rows side row within, Ne, Store.row_clear_iff]
  · intro i
    rw [inv.waits]
    exact waiting_iff
  · intro call mem
    rcases List.mem_append.mp mem with now | ended
    · have holding := inv.holding
      generalize watch.set.frames = frames at holding
      generalize watch.calls = calls at holding now
      cases holding with
      | rest _ => cases now
      | busy _ _ live =>
          rw [List.mem_singleton.mp now]
          exact live.stable
    · exact (inv.closed call ended).1
  · intro i j apart waits
    rw [inv.waits, waiting_iff] at waits
    rcases waits with ⟨side, on⟩
    exact inv.settled.bound apart on

/-- Index 40 waits on the second side while 1 is activated on both. -/
theorem reachable_stable_example :
    ∃ watch, (machine (Index.Summary.bits Side 2) ⟨50, by decide, by decide⟩).Reachable watch ∧
      waits 40 watch.log = true ∧ since 40 1 watch.log = 2 ∧ since 40 1 watch.log ≤ 2 ∧
      (∀ call ∈ watch.closed, call.Complete) ∧ watch.closed.length = 1 := by
  have start : (machine (Index.Summary.bits Side 2) ⟨50, by decide, by decide⟩).Reachable _ :=
    .start rfl
  have one := start.call (.insert 0) (by decide : 0 < 50) rfl
  have two := one.call (.insert 1) (by decide : 1 < 50) rfl
  have three := two.call (.drain 9) trivial rfl
  have four := three.call (.insert 40) (by decide : 40 < 50) rfl
  have five := four.call .resume (List.cons_ne_nil _ _) rfl
  have six := five.call (.insert 1) (by decide : 1 < 50) rfl
  have seven := six.call .resume (List.cons_ne_nil _ _) rfl
  have eight := seven.call (.drain 9) trivial rfl
  have all := reachable_stable (Index.Summary.bits_lawful 2) eight
  exact ⟨_, eight, rfl, rfl, all.2.2.2.2.2 40 1 (by decide) rfl, all.2.2.2.2.1, rfl⟩

end Watch

end Dope.Core.Ready
