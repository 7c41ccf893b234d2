import Dope.Tasks.Steps

/-! # Places of tasks

An attached task is linked in the chain of its own lane, or dequeued, or rests.
The operations that move tasks take one task from a place to another.
-/

namespace Dope.Tasks

open Function

open Run (ok_bind)

variable {G : Type}

/-- The attached tasks have their nodes, and no other node is linked or parked. -/
structure Stands (store : Store G) (attached : List (Attached G)) (claim : Option Entry) :
    Prop where
  linked : store.Linked claim
  nodes : ∀ task ∈ attached, ∃ hook, store.nodes task.index = some ⟨hook, task.lane⟩
  idle : ∀ index, (∀ task ∈ attached, task.index ≠ index) →
    ∀ node, store.nodes index = some node → node.hook = .idle
  distinct : (attached.map Attached.index).Nodup

variable {store store' : Store G} {attached : List (Attached G)} {claim claim' : Option Entry}
  {task : Attached G} {hook : Hook} {index lane : Nat}

/-- The owners and what waits in the lanes stay, and the first of a lane stays first. -/
structure Store.Keeps (store store' : Store G) : Prop where
  tasks : store'.tasks = store.tasks
  lanes : store'.lanes = store.lanes
  generation : ∀ l, (store'.owners l).generation = (store.owners l).generation
  bound : ∀ l, (store'.owners l).bound = (store.owners l).bound
  first : ∀ l first,
    (store.owners l).chain.head? = some first → (store'.owners l).chain.head? = some first
  waits : ∀ l, ∀ index ∈ (store.owners l).chain, index ∈ (store'.owners l).chain

theorem Store.Keeps.refl (store : Store G) : store.Keeps store :=
  ⟨rfl, rfl, fun _ => rfl, fun _ => rfl, fun _ _ first => first, fun _ _ member => member⟩

theorem Stands.rests (h : Stands store attached claim) (rests : store.Rests store') :
    Stands store' attached claim where
  linked := h.linked.rests rests
  nodes := by
    rw [rests.nodes]
    exact h.nodes
  idle := by
    rw [rests.nodes]
    exact h.idle
  distinct := h.distinct

/-- A task leaves, and its lane counts one less. -/
structure Store.Loses (store store' : Store G) (reserved : List (Reserved G))
    (attached : List (Attached G)) (task : Attached G) : Prop where
  stands : Stands store' (attached.filter fun other => other.index ≠ task.index) none
  counted : Counted store'.owners reserved (attached.filter fun other => other.index ≠ task.index)
  tasks : store'.tasks = store.tasks
  lanes : store'.lanes = store.lanes
  generation : ∀ l, (store'.owners l).generation = (store.owners l).generation
  others : ∀ index, index ≠ task.index → store'.nodes index = store.nodes index

theorem Stands.same (h : Stands store attached claim) {task other : Attached G}
    (member : task ∈ attached) (member' : other ∈ attached) (same : task.index = other.index) :
    task = other :=
  List.inj_on_of_nodup_map h.distinct member member' same

theorem Stands.moves (h : Stands store attached claim) (member : task ∈ attached)
    (linked : store'.Linked claim') (moves : store.Moves store' task.index task.lane hook) :
    Stands store' attached claim' where
  linked := linked
  nodes other member' := by
    rw [moves.nodes]
    by_cases same : other.index = task.index
    · cases h.same member' member same
      exact ⟨hook, update_self ..⟩
    · rw [update_of_ne same]
      exact h.nodes other member'
  idle index apart node has := by
    rw [moves.nodes, update_of_ne (Ne.symm (apart task member))] at has
    exact h.idle index apart node has
  distinct := h.distinct

theorem Stands.leave (h : Stands store attached claim) (member : task ∈ attached)
    (linked : store'.Linked none) (moves : store.Moves store' task.index task.lane .idle) :
    Stands store' (attached.filter fun other => other.index ≠ task.index) none where
  linked := linked
  nodes other member' := (h.moves member linked moves).nodes other (List.mem_filter.mp member').1
  idle index apart node has := by
    by_cases here : index = task.index
    · subst here
      rw [moves.nodes, update_self] at has
      cases has
      rfl
    · apply (h.moves member linked moves).idle index ?_ node has
      rintro other member' rfl
      exact apart other (List.mem_filter.mpr ⟨member', by simpa using here⟩) rfl
  distinct := h.distinct.sublist (List.filter_sublist.map _)

theorem Stands.attach (h : Stands store attached none)
    (fresh : ∀ other ∈ attached, other.index ≠ task.index) :
    Stands { store with
      nodes := update store.nodes task.index (some ⟨.parked, task.lane⟩) }
      (task :: attached) (some ⟨task.index, task.lane⟩) where
  linked := by
    apply h.linked.park
    cases has : store.nodes task.index with
    | none => rfl
    | some node =>
      have rests := h.idle task.index fresh node has
      rcases node with ⟨hook, lane⟩
      exact Store.filed_of_ne (by rw [show hook = .idle from rests]; simp) _
  nodes other member := by
    rcases List.mem_cons.mp member with rfl | member
    · exact ⟨_, update_self ..⟩
    · dsimp only
      rw [update_of_ne (fresh other member)]
      exact h.nodes other member
  idle index apart node has := by
    dsimp only at has
    rw [update_of_ne (Ne.symm (apart task List.mem_cons_self))] at has
    exact h.idle index (fun other member => apart other (List.mem_cons_of_mem _ member)) node has
  distinct := by
    rw [List.map_cons, List.nodup_cons]
    refine ⟨?_, h.distinct⟩
    intro member
    rcases List.mem_map.mp member with ⟨other, member, same⟩
    exact fresh other member same

section

variable (h : Stands store attached claim)

include h

/-- A node that is linked or parked is that of a task. -/
theorem Stands.attends (has : store.nodes index = some ⟨hook, lane⟩) (moving : hook ≠ .idle) :
    ∃ task ∈ attached, task.index = index ∧ task.lane = lane := by
  by_contra none
  apply moving
  refine h.idle index ?_ ⟨hook, lane⟩ has
  rintro task member rfl
  rcases h.nodes task member with ⟨hook', has'⟩
  rw [has] at has'
  cases has'
  exact none ⟨task, member, rfl, rfl⟩

/-- What waits in its lane still does after a task moved, or is the one that was dequeued. -/
theorem Stands.waits (h' : Stands store' attached claim')
    (moves : store.Moves store' index lane hook)
    (apart : hook = .idle → ∀ l, index ∉ (store.owners l).chain) :
    ∀ l, ∀ i ∈ (store.owners l).chain,
      i ∈ (store'.owners l).chain ∨ claim' = some ⟨i, l⟩ := by
  intro l i inside
  have linked := (h.linked.mem l i).mp inside
  by_cases same : i = index
  · subst same
    rcases h.attends linked (by simp) with ⟨task, member, rfl, rfl⟩
    rcases h'.nodes task member with ⟨hook', has⟩
    rw [moves.nodes, update_self] at has
    cases has
    have here : store'.nodes task.index = some ⟨hook, task.lane⟩ := by
      rw [moves.nodes, update_self]
    cases hook with
    | linked => exact .inl ((h'.linked.mem _ _).mpr here)
    | parked => exact .inr ((h'.linked.parked _ _).mp here)
    | idle => exact absurd inside (apart rfl _)
  · refine .inl ((h'.linked.mem l i).mpr ?_)
    rw [moves.nodes, update_of_ne same]
    exact linked

theorem Stands.claimed {entry : Entry} (claimed : claim = some entry) :
    ∃ task ∈ attached, task.index = entry.index ∧ task.lane = entry.lane :=
  h.attends ((h.linked.parked entry.index entry.lane).mpr claimed) (by simp)

theorem Stands.front (front : (store.owners lane).chain.head? = some index) :
    ∃ task ∈ attached, task.index = index ∧ task.lane = lane :=
  h.attends ((h.linked.mem lane index).mp (List.mem_of_mem_head? front)) (by simp)

end

namespace Queue

variable [DecidableEq G] {queue : Queue G} {scope : Scope G}

/-- The owner asked for has the lane. -/
def Current (queue : Queue G) (scope : Scope G) (entry : Entry) : Prop :=
  ∀ owner, scope = .exact owner → entry.lane = owner.lane ∧
    (queue.store.owners owner.lane).generation = some owner.generation

/-- A front is the first task of its lane. -/
structure Leads (queue : Queue G) (scope : Scope G) (entry : Entry) : Prop where
  first : (queue.store.owners entry.lane).chain.head? = some entry.index
  current : queue.Current scope entry

theorem frontEntry_spec (linked : queue.store.Linked claim) (scope : Scope G) :
    ∃ front, queue.frontEntry scope = .ok front ∧
      (∀ entry, front = some (.ready entry) → queue.Leads scope entry) ∧
      (front = some .pending → queue.slot.list ≠ []) := by
  have pending : (if queue.slot.isEmpty then none else some Front.pending) = some .pending →
      queue.slot.list ≠ [] := by
    intro waits empty
    rw [if_pos (Slot.isEmpty_iff.mpr empty)] at waits
    cases waits
  have unready : ∀ entry, (if queue.slot.isEmpty then none else some Front.pending) ≠
      some (.ready entry) := by
    intro entry
    split <;> simp
  unfold frontEntry
  cases scope with
  | exact owner =>
    dsimp only
    cases found : queue.store.get owner.lane with
    | none => exact ⟨none, rfl, by rintro _ ⟨⟩, by rintro ⟨⟩⟩
    | some state =>
      rcases Store.get_some found with ⟨-, rfl⟩
      dsimp only
      by_cases stale : (queue.store.owners owner.lane).generation ≠ some owner.generation
      · rw [if_pos stale]
        exact ⟨none, rfl, by rintro _ ⟨⟩, by rintro ⟨⟩⟩
      · rw [if_neg stale]
        cases first : (queue.store.owners owner.lane).chain.head? with
        | some index =>
          refine ⟨_, rfl, ?_, by rintro ⟨⟩⟩
          rintro _ ⟨⟩
          refine ⟨first, ?_⟩
          rintro _ ⟨⟩
          exact ⟨rfl, not_not.mp stale⟩
        | none => exact ⟨_, rfl, fun entry same => absurd same (unready entry), pending⟩
  | any =>
    dsimp only
    cases top : queue.store.first.head? with
    | none => exact ⟨_, rfl, fun entry same => absurd same (unready entry), pending⟩
    | some lane =>
      have waits := (linked.rota.waits lane).mp (List.mem_of_mem_head? top)
      dsimp only at waits ⊢
      cases chain : (queue.store.owners lane).chain with
      | nil => exact absurd chain waits
      | cons index rest =>
        refine ⟨_, rfl, ?_, by rintro ⟨⟩⟩
        rintro _ ⟨⟩
        exact ⟨by rw [chain]; rfl, by rintro _ ⟨⟩⟩

omit [DecidableEq G] in
theorem take_spec (h : Stands queue.store attached none) (rounds : Rounds) {entry : Entry}
    (first : (queue.store.owners entry.lane).chain.head? = some entry.index) :
    ∃ store, queue.take rounds entry = .ok { queue with store } ∧
      Stands store attached (some entry) ∧
      queue.store.Moves store entry.index entry.lane .parked := by
  rcases h.front first with ⟨task, member, index, lane⟩
  rcases h.linked.head rounds first with ⟨store, run, linked, moves⟩
  have moved : queue.store.Moves store task.index task.lane .parked := by
    rw [index, lane]
    exact moves
  unfold take
  rw [run, ok_bind]
  exact ⟨store, rfl, h.moves member linked moved, moves⟩

/-- The task at the front is dequeued, or nothing happens. -/
theorem dequeue_spec (h : Stands queue.store attached none) (rounds : Rounds) (scope : Scope G) :
    queue.dequeue rounds scope = .ok (none, queue) ∨
      ∃ entry store, queue.dequeue rounds scope = .ok (some entry, { queue with store }) ∧
        queue.Leads scope entry ∧ Stands store attached (some entry) ∧
        queue.store.Moves store entry.index entry.lane .parked := by
  unfold dequeue
  rcases frontEntry_spec h.linked scope with ⟨front, run, leads, -⟩
  rw [run, ok_bind]
  rcases front with - | ⟨entry⟩ | -
  · exact .inl rfl
  · rcases take_spec h rounds (leads entry rfl).first with ⟨store, run, stands, moves⟩
    dsimp only
    rw [run, ok_bind]
    exact .inr ⟨entry, store, rfl, leads entry rfl, stands, moves⟩
  · exact .inl rfl

omit [DecidableEq G] in
theorem resident_ok (has : queue.store.nodes index = some ⟨hook, lane⟩) :
    queue.resident index = .ok (⟨index, lane⟩, hook = .linked) := by
  unfold resident
  rw [Store.node_ok has]
  rfl

omit [DecidableEq G] in
/-- A report is moved into its own lane, unless there is none. -/
theorem sync_spec (h : Stands queue.store attached none) (sound : queue.slot.Sound)
    (reports : ∀ index ∈ queue.slot.list, ∃ task ∈ attached, task.index = index) :
    queue.slot.list = [] ∧ queue.sync = .ok (none, queue) ∨
      ∃ task ∈ attached, ∃ queue', queue.sync = .ok (some ⟨task.index, task.lane⟩, queue') ∧
        queue.slot.pop = (some task.index, queue'.slot) ∧
        queue.slot.list.Perm (task.index :: queue'.slot.list) ∧
        Stands queue'.store attached none ∧ queue.store.Keeps queue'.store ∧
        task.index ∈ (queue'.store.owners task.lane).chain := by
  unfold sync
  rcases sound.pop with ⟨-, -, ⟨run, empty⟩ | ⟨index, popped, perm⟩⟩
  · rw [run]
    exact .inl ⟨empty, rfl⟩
  · cases run : queue.slot.pop with
    | mk taken slot =>
      rw [run] at popped perm
      cases popped
      rcases reports index (perm.mem_iff.mpr List.mem_cons_self) with ⟨task, member, rfl⟩
      rcases h.nodes task member with ⟨hook, has⟩
      refine .inr ⟨task, member, ?_⟩
      dsimp only
      have here : resident { queue with slot } task.index = _ := resident_ok has
      rw [here, ok_bind]
      cases hook with
      | linked =>
        refine ⟨{ queue with slot }, rfl, rfl, perm, h, .refl _, ?_⟩
        exact (h.linked.mem _ _).mpr has
      | parked => cases (h.linked.parked _ _).mp has
      | idle =>
        rcases h.linked.enqueue has (.inl ⟨rfl, rfl⟩) with ⟨store, run, linked, moves, heads⟩
        dsimp only
        rw [if_neg (by simp), enqueue, run]
        have stands := h.moves member linked moves
        have waits : ∀ l, ∀ index ∈ (queue.store.owners l).chain,
            index ∈ (store.owners l).chain := by
          intro l index inside
          exact (h.waits stands moves (by simp) l index inside).resolve_right (by simp)
        refine ⟨⟨store, slot⟩, rfl, rfl, perm, stands,
          ⟨moves.tasks, moves.lanes, moves.generation, moves.bound, heads, waits⟩, ?_⟩
        rw [linked.mem, moves.nodes]
        exact update_self ..

omit [DecidableEq G] in
theorem detach_spec (queue : Queue G) (h : Stands queue.store attached claim)
    {reserved : List (Reserved G)} (counted : Counted queue.store.owners reserved attached)
    (member : task ∈ attached) (has : queue.store.nodes task.index = some ⟨hook, task.lane⟩)
    (out : claim = none ∧ hook = .idle ∨ claim = some ⟨task.index, task.lane⟩) :
    ∃ store, queue.detach ⟨task.index, task.lane⟩ = .ok { queue with store } ∧
      queue.store.Loses store reserved attached task := by
  rcases h.linked.rest has out with ⟨store, run, linked, owners, moves⟩
  rcases counted.leave h.distinct member with ⟨bound, counted⟩
  rw [← owners] at bound counted
  unfold detach Store.detach
  rw [run, ok_bind, release_ok bound]
  refine ⟨_, rfl, (h.leave member linked moves).rests ?_, counted, moves.tasks, moves.lanes, ?_, ?_⟩
  · exact Store.rests_modify _ _ (f := fun owner => { owner with bound := owner.bound - 1 }) rfl
  · intro l
    rw [generation_release, owners]
  · intro index apart
    exact (congrFun moves.nodes index).trans (update_of_ne apart ..)

omit [DecidableEq G] in
theorem detachIndex_spec (h : Stands queue.store attached none) {reserved : List (Reserved G)}
    (counted : Counted queue.store.owners reserved attached) (member : task ∈ attached) :
    ∃ store, queue.detachIndex task.index = .ok { queue with store } ∧
      queue.store.Loses store reserved attached task := by
  rcases h.nodes task member with ⟨hook, has⟩
  unfold detachIndex
  rw [resident_ok has, ok_bind]
  dsimp only
  cases hook with
  | linked =>
    rcases h.linked.remove ((h.linked.mem _ _).mpr has) with ⟨store, run, linked, moves⟩
    rw [if_pos (by simp), run, ok_bind]
    have counted' := counted.congr moves.bound moves.generation
    have parked : store.nodes task.index = some ⟨.parked, task.lane⟩ := by
      rw [moves.nodes, update_self]
    rcases detach_spec { queue with store } (h.moves member linked moves) counted'
      member parked (.inr rfl) with ⟨store', run', stands, counted, tasks, lanes, generation, others⟩
    refine ⟨store', run', stands, counted, tasks.trans moves.tasks, lanes.trans moves.lanes,
      fun l => (generation l).trans (moves.generation l), ?_⟩
    intro index apart
    refine (others index apart).trans ?_
    rw [moves.nodes, update_of_ne apart]
  | parked => cases (h.linked.parked _ _).mp has
  | idle =>
    rw [if_neg (by simp)]
    exact detach_spec queue h counted member has (.inl ⟨rfl, rfl⟩)

/-- A turn with a permit moves one report, and then dequeues. -/
theorem next_spec (h : Stands queue.store attached none) (sound : queue.slot.Sound)
    (reports : ∀ index ∈ queue.slot.list, ∃ task ∈ attached, task.index = index)
    (rounds : Rounds) (scope : Scope G) (permit : Bool) :
    (∃ answer, queue.next rounds scope permit = .ok (answer, queue) ∧
        ∀ dequeued moved, answer ≠ .item dequeued moved) ∨
      ∃ synced mid dequeued moved store, queue.sync = .ok (synced, mid) ∧
        queue.next rounds scope permit = .ok (.item dequeued moved, { mid with store }) ∧
        Stands store attached dequeued ∧
        (dequeued = none ∧ store = mid.store ∨ ∃ entry, dequeued = some entry ∧
          queue.Current scope entry ∧ mid.store.Moves store entry.index entry.lane .parked) := by
  unfold next
  rcases frontEntry_spec h.linked scope with ⟨front, run, leads, -⟩
  rw [run, ok_bind]
  cases front with
  | none => exact .inl ⟨.empty, rfl, by rintro _ _ ⟨⟩⟩
  | some front =>
    dsimp only
    cases permit with
    | false =>
      refine .inl ?_
      cases front with
      | ready entry => exact ⟨.exhausted entry.index, rfl, by rintro _ _ ⟨⟩⟩
      | pending =>
        refine ⟨queue.slot.peek.elim .empty .exhausted, rfl, ?_⟩
        cases queue.slot.peek <;> (rintro _ _ ⟨⟩)
    | true =>
      refine .inr ?_
      rw [if_pos rfl]
      have synced : ∃ synced mid, queue.sync = .ok (synced, mid) ∧
          Stands mid.store attached none ∧ queue.store.Keeps mid.store := by
        rcases sync_spec h sound reports with ⟨-, run⟩ | ⟨task, -, mid, run, -, -, stands, kept, -⟩
        · exact ⟨none, queue, run, h, .refl _⟩
        · exact ⟨_, mid, run, stands, kept⟩
      rcases synced with ⟨synced, mid, run, stands, kept⟩
      rw [run, ok_bind]
      cases front with
      | ready entry =>
        have first := kept.first _ _ (leads entry rfl).first
        rcases take_spec stands rounds first with ⟨store, run', stands', moves⟩
        dsimp only
        rw [run', ok_bind]
        exact ⟨synced, mid, some entry, _, store, rfl, rfl, stands',
          .inr ⟨entry, rfl, (leads entry rfl).current, moves⟩⟩
      | pending =>
        dsimp only
        rcases dequeue_spec stands rounds scope with run' | ⟨entry, store, run', leads', stands',
          moves⟩
        · rw [run', ok_bind]
          exact ⟨synced, mid, none, _, mid.store, rfl, rfl, stands, .inl ⟨rfl, rfl⟩⟩
        · rw [run', ok_bind]
          refine ⟨synced, mid, some entry, _, store, rfl, rfl, stands',
            .inr ⟨entry, rfl, ?_, moves⟩⟩
          intro owner exact_
          rcases leads'.current owner exact_ with ⟨lane, generation⟩
          exact ⟨lane, (kept.generation _).symm.trans generation⟩

end Queue

end Dope.Tasks
