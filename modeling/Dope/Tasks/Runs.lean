import Dope.Tasks.Places

/-! # Runs of a queue

In every reachable state the bounds count what is outstanding, a task runs under the
owner it was reserved for, every task has one place, and no report is lost.
-/

namespace Dope.Tasks

open Run (ok_bind bind_ok)

variable {G : Type} [DecidableEq G]

/-- The slots of the reservations are their own. -/
structure Spare (reserved : List (Reserved G)) (attached : List (Attached G)) (tasks lanes : Nat) :
    Prop where
  fresh : ∀ held ∈ reserved, ∀ task ∈ attached, held.index ≠ some task.index
  once : (reserved.filterMap Reserved.index).Nodup
  held : ∀ held ∈ reserved, held.lane < lanes ∧ ∀ index, held.index = some index → index < tasks
  task : ∀ task ∈ attached, task.lane < lanes ∧ task.index < tasks

variable {task : Attached G} {reserved' : List (Reserved G)}

section

variable {reserved : List (Reserved G)} {attached : List (Attached G)} {tasks lanes : Nat}
  {held : Reserved G}

omit [DecidableEq G] in
theorem Spare.sublist {attached' : List (Attached G)} (h : Spare reserved attached tasks lanes)
    (sub : reserved'.Sublist reserved) (sub' : ∀ task ∈ attached', task ∈ attached) :
    Spare reserved' attached' tasks lanes where
  fresh held member task member' := h.fresh held (sub.subset member) task (sub' task member')
  once := h.once.sublist (sub.filterMap _)
  held held member := h.held held (sub.subset member)
  task task member := h.task task (sub' task member)

omit [DecidableEq G] in
theorem Spare.reserve (h : Spare reserved attached tasks lanes) (inside : held.lane < lanes)
    (fresh : ∀ index, held.index = some index → index < tasks ∧
      (∀ task ∈ attached, task.index ≠ index) ∧ ∀ other ∈ reserved, other.index ≠ some index) :
    Spare (held :: reserved) attached tasks lanes where
  fresh other member task member' := by
    rcases List.mem_cons.mp member with rfl | member
    · intro same
      exact (fresh _ same).2.1 task member' rfl
    · exact h.fresh other member task member'
  once := by
    cases index : held.index with
    | none =>
      rw [List.filterMap_cons_none index]
      exact h.once
    | some index =>
      rw [List.filterMap_cons_some ‹_›, List.nodup_cons]
      refine ⟨?_, h.once⟩
      intro member
      rcases List.mem_filterMap.mp member with ⟨other, member, same⟩
      exact (fresh _ ‹_›).2.2 other member same
  held other member := by
    rcases List.mem_cons.mp member with rfl | member
    · exact ⟨inside, fun index same => (fresh index same).1⟩
    · exact h.held other member
  task := h.task

theorem Spare.attach (h : Spare reserved attached tasks lanes)
    (member : ⟨task.lane, some task.index, task.generation⟩ ∈ reserved) :
    Spare (reserved.erase ⟨task.lane, some task.index, task.generation⟩) (task :: attached)
      tasks lanes where
  fresh held member' other member'' := by
    rcases List.mem_cons.mp member'' with rfl | member''
    · intro same
      have once := h.once
      rw [((List.perm_cons_erase member).filterMap _).nodup_iff,
        List.filterMap_cons_some (f := Reserved.index) rfl, List.nodup_cons] at once
      exact once.1 (List.mem_filterMap.mpr ⟨held, member', same⟩)
    · exact h.fresh held (List.mem_of_mem_erase member') other member''
  once := h.once.sublist (List.erase_sublist.filterMap _)
  held held member' := h.held held (List.mem_of_mem_erase member')
  task other member' := by
    rcases List.mem_cons.mp member' with rfl | member'
    · exact ⟨(h.held _ member).1, (h.held _ member).2 _ rfl⟩
    · exact h.task other member'

end

variable {reserved : List (Reserved G)} {index : Nat} {queue : Queue G} {store : Store G}
  {slot : Slot}

namespace World

variable {world next : World G} {tasks lanes : Nat} {rounds : Rounds}

/-- A reported task has its attachment, and the topology is there. -/
structure Slotted (slot : Slot) (reserved : List (Reserved G)) (attached : List (Attached G)) :
    Prop where
  sound : slot.Sound
  rooted : (∃ held ∈ reserved, held.index ≠ none) ∨ attached ≠ [] → slot.isSome
  reports : ∀ index ∈ slot.list, ∃ task ∈ attached, task.index = index

structure Inv (world : World G) (tasks lanes : Nat) : Prop where
  extent : world.queue.store.tasks = tasks ∧ world.queue.store.lanes = lanes
  counted : Counted world.queue.store.owners world.reserved world.attached
  stands : Stands world.queue.store world.attached world.claim
  spare : Spare world.reserved world.attached tasks lanes
  slotted : Slotted world.queue.slot world.reserved world.attached
  log : world.reports.Perm (world.moves ++ world.dropped ++ world.queue.slot.list)

/-- The task waits in its lane, or is dequeued. -/
def Runnable (world : World G) (index : Nat) : Prop :=
  ∃ task ∈ world.attached, task.index = index ∧
    (index ∈ (world.queue.store.owners task.lane).chain ∨ world.claim = some ⟨index, task.lane⟩)

/-- What a step keeps. -/
structure Keeps (world next : World G) : Prop where
  steady : world.queue.store.Steady next.queue.store
  moved : next.moves = world.moves ∨ ∃ index ∈ world.queue.slot.list,
    next.moves = index :: world.moves ∧ index ∉ next.queue.slot.list ∧ next.Runnable index
  reports : ∀ index ∈ world.queue.slot.list, index ∈ next.queue.slot.list ∨
    next.moves = index :: world.moves ∨ ¬ next.Attends index
  waits : ∀ lane, ∀ index ∈ (world.queue.store.owners lane).chain,
    (index ∈ (next.queue.store.owners lane).chain ∨ next.claim = some ⟨index, lane⟩) ∨
      ¬ next.Attends index

def Succeeds (world : World G) (tasks lanes : Nat) (rounds : Rounds) (input : Input G) : Prop :=
  ∃ out next, world.step rounds input = .ok (out, next) ∧ next.Inv tasks lanes ∧ world.Keeps next

omit [DecidableEq G] in
theorem Keeps.of_slot (steady : world.queue.store.Steady next.queue.store)
    (moves : next.moves = world.moves) (slot : next.queue.slot.list = world.queue.slot.list)
    (waits : ∀ lane, ∀ index ∈ (world.queue.store.owners lane).chain,
      index ∈ (next.queue.store.owners lane).chain ∨ next.claim = some ⟨index, lane⟩) :
    world.Keeps next where
  steady := steady
  moved := .inl moves
  reports _ member := .inl (slot ▸ member)
  waits lane index member := .inl (waits lane index member)

omit [DecidableEq G] in
theorem Keeps.of_rests (same : next.queue = world.queue) (moves : next.moves = world.moves) :
    world.Keeps next := by
  refine .of_slot (.of_generation fun _ => by rw [same]) moves (by rw [same]) ?_
  intro lane index member
  rw [same]
  exact .inl member

omit [DecidableEq G] in
theorem new_inv (tasks lanes : Nat) : (new tasks lanes : World G).Inv tasks lanes where
  extent := ⟨rfl, rfl⟩
  counted := ⟨fun _ => rfl, fun _ _ => rfl, by rintro _ ⟨⟩, by rintro _ ⟨⟩⟩
  stands := ⟨Store.new_linked tasks lanes, by rintro _ ⟨⟩, by rintro _ _ _ ⟨⟩, List.nodup_nil⟩
  spare := ⟨by rintro _ ⟨⟩, List.nodup_nil, by rintro _ ⟨⟩, by rintro _ ⟨⟩⟩
  slotted := ⟨by rintro _ ⟨⟩, by simp [new], by rintro _ ⟨⟩⟩
  log := .refl _

omit [DecidableEq G] in
/-- What only changes owners, counts and reservations. -/
theorem Inv.administer (inv : world.Inv tasks lanes)
    (administers : world.queue.Administers queue reserved world.attached)
    (spare : Spare reserved world.attached tasks lanes)
    (slotted : Slotted slot reserved world.attached) (list : slot.list = world.queue.slot.list) :
    Inv { world with queue := { queue with slot }, reserved } tasks lanes ∧
      world.Keeps { world with queue := { queue with slot }, reserved } where
  left := {
    extent :=
      ⟨administers.rests.tasks.trans inv.extent.1, administers.rests.lanes.trans inv.extent.2⟩
    counted := administers.counted
    stands := inv.stands.rests administers.rests
    spare := spare
    slotted := slotted
    log := by
      dsimp only
      rw [list]
      exact inv.log }
  right := .of_slot administers.steady rfl list fun lane _ member =>
    .inl ((administers.rests.chain lane).symm ▸ member)

omit [DecidableEq G] in
theorem Slotted.congr {attached : List (Attached G)} (h : Slotted slot reserved attached)
    (sub : ∀ held ∈ reserved', held.index ≠ none → held ∈ reserved) :
    Slotted slot reserved' attached where
  sound := h.sound
  rooted := by
    rintro (⟨held, member, given⟩ | some)
    · exact h.rooted (.inl ⟨held, sub held member given, given⟩)
    · exact h.rooted (.inr some)
  reports := h.reports

omit [DecidableEq G] in
theorem Slotted.tryAttach {slot' : Slot} {attached : List (Attached G)}
    (h : Slotted slot reserved attached) {room : Except Nat Unit}
    (made : slot.tryAttach room = .ok slot') :
    Slotted slot' reserved' attached ∧ slot'.list = slot.list := by
  rcases h.sound.tryAttach made with ⟨sound, list, there⟩
  refine ⟨⟨sound, fun _ => there, ?_⟩, list⟩
  rw [list]
  exact h.reports

section

variable (inv : world.Inv tasks lanes)

include inv

omit [DecidableEq G] in
theorem Inv.administrates
    (administers : world.queue.Administers queue world.reserved world.attached) :
    Inv { world with queue } tasks lanes ∧ world.Keeps { world with queue } :=
  have slot : queue.slot = world.queue.slot := administers.slot
  inv.administer administers inv.spare (slot ▸ inv.slotted) (congrArg Slot.list slot)

theorem Inv.unreserve (held : Reserved G)
    (administers : world.queue.Administers queue (world.reserved.erase held) world.attached) :
    Inv { world with queue, reserved := world.reserved.erase held } tasks lanes ∧
      world.Keeps { world with queue, reserved := world.reserved.erase held } := by
  have slot : queue.slot = world.queue.slot := administers.slot
  refine inv.administer administers (inv.spare.sublist List.erase_sublist fun _ member => member)
    ?_ (congrArg Slot.list slot)
  rw [slot]
  exact inv.slotted.congr fun _ member _ => List.mem_of_mem_erase member

theorem Inv.rebind (owner : OwnerId G) : world.Succeeds tasks lanes rounds (.rebind owner) := by
  unfold Succeeds step
  dsimp only
  have rebound := Queue.rebind_administers inv.counted owner
  cases run : world.queue.rebind owner with
  | mk answer queue =>
    rw [run] at rebound
    rcases rebound with ⟨same, inside, administers⟩ | ⟨⟨cause, same⟩, administers⟩
    · cases same
      have slot : queue.slot = world.queue.slot := administers.slot
      refine ⟨_, _, rfl, inv.administer administers ?_ ?_ (congrArg Slot.list slot)⟩
      · exact inv.spare.reserve (inv.extent.2 ▸ inside) (by rintro _ ⟨⟩)
      · rw [slot]
        apply inv.slotted.congr
        intro held member given
        rcases List.mem_cons.mp member with rfl | member
        · exact absurd rfl given
        · exact member
    · cases same
      exact ⟨_, _, rfl, inv.administrates administers⟩

theorem Inv.tryPrepare (owner : OwnerId G) (room : Except Nat Unit) (free : world.Free index) :
    world.Succeeds tasks lanes rounds (.tryPrepare index owner room) := by
  unfold Succeeds step
  dsimp only
  rcases Queue.tryPrepare_administers inv.counted index owner room with
    ⟨queue, slot, run, inside, within, made, administers⟩ | ⟨cause, queue, run, administers⟩
  · rw [run, ok_bind]
    rcases inv.slotted.tryAttach made with ⟨slotted, list⟩
    refine ⟨_, _, rfl, inv.administer administers ?_ slotted list⟩
    apply inv.spare.reserve (inv.extent.2 ▸ inside)
    rintro _ ⟨⟩
    exact ⟨inv.extent.1 ▸ within, free⟩
  · rw [run, ok_bind]
    exact ⟨_, _, rfl, inv.administrates administers⟩

theorem Inv.prepare {held : Reserved G} (room : Except Nat Unit) (member : held ∈ world.reserved)
    (free : world.Free index) : world.Succeeds tasks lanes rounds (.prepare held index room) := by
  unfold Succeeds step
  dsimp only
  rcases (Queue.Administers.refl inv.counted).prepare member index room with
    ⟨slot, run, within, made⟩ | ⟨cause, queue, run, administers⟩
  · rw [run, ok_bind]
    rcases inv.slotted.tryAttach made with ⟨slotted, list⟩
    have counted : Counted world.queue.store.owners
        ({ held with index := some index } :: world.reserved.erase held) world.attached := by
      have before := inv.counted.perm (List.perm_cons_erase member) (.refl _)
      refine ⟨fun l => (before.bound l).trans ?_, before.retired, ?_, before.attached⟩
      · rw [outstanding_cons, outstanding_cons]
      · intro other inside
        rcases List.mem_cons.mp inside with rfl | inside
        · exact inv.counted.reserved held member
        · exact inv.counted.reserved other (List.mem_of_mem_erase inside)
    refine ⟨_, _, rfl, inv.administer ⟨rfl, .refl _, .of_generation fun _ => rfl, counted⟩ ?_
      slotted list⟩
    apply (inv.spare.sublist List.erase_sublist fun _ member => member).reserve
    · exact (inv.spare.held held member).1
    · rintro _ ⟨⟩
      exact ⟨inv.extent.1 ▸ within, free.1,
        fun other inside => free.2 other (List.mem_of_mem_erase inside)⟩
  · rw [run, ok_bind]
    exact ⟨_, _, rfl, inv.unreserve held administers⟩

theorem Inv.drop {held : Reserved G} (member : held ∈ world.reserved) :
    world.Succeeds tasks lanes rounds (.drop held) := by
  unfold Succeeds step
  dsimp only
  rcases (Queue.Administers.refl inv.counted).drop member with ⟨queue, run, administers⟩
  rw [run, ok_bind]
  exact ⟨_, _, rfl, inv.unreserve held administers⟩

theorem Inv.attach (member : ⟨task.lane, some task.index, task.generation⟩ ∈ world.reserved)
    (unclaimed : world.claim = none) : world.Succeeds tasks lanes rounds (.attach task) := by
  refine ⟨_, _, rfl, ⟨inv.extent, inv.counted.attach member, ?_, inv.spare.attach member, ?_,
    inv.log⟩, .of_slot (.of_generation fun _ => rfl) rfl rfl fun _ _ member => .inl member⟩
  · have stands := inv.stands
    rw [unclaimed] at stands
    exact stands.attach fun other inside same =>
      inv.spare.fresh _ member other inside (congrArg some same.symm)
  · refine ⟨inv.slotted.sound, fun _ => inv.slotted.rooted (.inl ⟨_, member, by simp⟩), ?_⟩
    intro index reported
    rcases inv.slotted.reports index reported with ⟨other, inside, same⟩
    exact ⟨other, List.mem_cons_of_mem _ inside, same⟩

theorem Inv.report (attends : world.Attends index) :
    world.Succeeds tasks lanes rounds (.report index) := by
  rcases attends with ⟨task, member, rfl⟩
  have there := inv.slotted.rooted (.inr (List.ne_nil_of_mem member))
  rcases Option.isSome_iff_exists.mp there with ⟨endpoint, has⟩
  have log := inv.log
  have reports := inv.slotted.reports
  have list : world.queue.slot.list = endpoint.list := by
    rw [has]
    rfl
  rw [list] at log reports
  rcases (inv.slotted.sound endpoint has).activate task.index with ⟨sound, turn⟩
  unfold Succeeds step
  rw [has]
  dsimp only
  generalize endpoint.activate task.index = run at sound turn ⊢
  rcases run with ⟨activation, endpoint'⟩
  have rooted : Slot.Sound (some endpoint') := by
    rintro _ ⟨⟩
    exact sound
  refine ⟨_, _, rfl, ⟨inv.extent, inv.counted, inv.stands, inv.spare,
    ⟨rooted, fun _ => rfl, ?_⟩, ?_⟩, ⟨.of_generation fun _ => rfl, .inl rfl, ?_,
      fun _ _ member => .inl (.inl member)⟩⟩
  all_goals
    rcases turn with ⟨rfl, reported, rfl⟩ | ⟨rfl, fresh, perm⟩
  · exact reports
  · intro index inside
    rcases List.mem_cons.mp (perm.mem_iff.mp inside) with rfl | inside
    · exact ⟨task, member, rfl⟩
    · exact reports index inside
  · exact log
  · exact (log.cons _).trans (List.perm_middle.symm.trans (perm.symm.append_left _))
  · intro index inside
    rw [list] at inside
    exact .inl inside
  · intro index inside
    exact .inl (perm.mem_iff.mpr (List.mem_cons_of_mem _ (list ▸ inside)))

omit [DecidableEq G] in
/-- The state after one report was moved, or after there was none. -/
theorem Inv.synced (unclaimed : world.claim = none) :
    ∃ entry queue, world.queue.sync = .ok (entry, queue) ∧
      world.queue.slot.pop.1 = entry.map Entry.index ∧
      Inv (world.moved queue (entry.map Entry.index)) tasks lanes ∧
      world.queue.store.Keeps queue.store ∧
      (entry = none ∧ world.queue.slot.list = [] ∧ queue = world.queue ∨
        ∃ task ∈ world.attached, entry = some ⟨task.index, task.lane⟩ ∧
          world.queue.slot.list.Perm (task.index :: queue.slot.list) ∧
          task.index ∈ (queue.store.owners task.lane).chain) := by
  have stands := inv.stands
  rw [unclaimed] at stands
  rcases Queue.sync_spec stands inv.slotted.sound inv.slotted.reports with
    ⟨empty, run⟩ | ⟨task, member, queue, run, popped, perm, stands', kept, waits⟩
  · have none : world.queue.slot.pop.1 = none := by
      rcases inv.slotted.sound.pop with ⟨-, -, ⟨run, -⟩ | ⟨index, -, perm⟩⟩
      · rw [run]
      · rw [empty] at perm
        exact absurd perm.symm.eq_nil (by simp)
    exact ⟨Option.none, world.queue, run, none, inv, .refl _, .inl ⟨rfl, empty, rfl⟩⟩
  · rcases inv.slotted.sound.pop with ⟨sound, there, -⟩
    rw [popped] at sound there
    refine ⟨_, queue, run, by rw [popped]; rfl, ⟨?_, ?_, ?_, inv.spare, ⟨sound, ?_, ?_⟩, ?_⟩, kept,
      .inr ⟨task, member, rfl, perm, waits⟩⟩
    · exact ⟨kept.tasks.trans inv.extent.1, kept.lanes.trans inv.extent.2⟩
    · exact inv.counted.congr kept.bound kept.generation
    · exact unclaimed ▸ stands'
    · exact fun some => there.symm ▸ inv.slotted.rooted some
    · exact fun index inside =>
        inv.slotted.reports index (perm.mem_iff.mpr (List.mem_cons_of_mem _ inside))
    · refine inv.log.trans ((perm.append_left _).trans ?_)
      exact List.perm_middle

end

omit [DecidableEq G] in
/-- A step that moved the report of a task, which waits in its lane or was dequeued. -/
theorem Keeps.of_moved (steady : world.queue.store.Steady next.queue.store)
    (moves : next.moves = task.index :: world.moves)
    (perm : world.queue.slot.list.Perm (task.index :: next.queue.slot.list))
    (once : world.queue.slot.list.Nodup) (runnable : next.Runnable task.index)
    (waits : ∀ lane, ∀ index ∈ (world.queue.store.owners lane).chain, index ∈
      (next.queue.store.owners lane).chain ∨ next.claim = some ⟨index, lane⟩) :
    world.Keeps next where
  steady := steady
  moved := by
    have gone := (List.nodup_cons.mp (perm.nodup_iff.mp once)).1
    exact .inr ⟨task.index, perm.mem_iff.mpr List.mem_cons_self, moves, gone, runnable⟩
  reports index reported := by
    rcases List.mem_cons.mp (perm.mem_iff.mp reported) with rfl | stays
    · exact .inr (.inl moves)
    · exact .inl stays
  waits lane index member := .inl (waits lane index member)

theorem Inv.sync (inv : world.Inv tasks lanes) (unclaimed : world.claim = none) :
    ∃ entry next, world.step rounds .sync = .ok (.entry entry, next) ∧ next.Inv tasks lanes ∧
      world.Keeps next ∧ (entry = none → world.queue.slot.list = []) := by
  rcases inv.synced unclaimed with ⟨entry, queue, run, -, inv', kept, course⟩
  unfold step
  dsimp only
  rw [run, ok_bind]
  refine ⟨entry, _, rfl, inv', ?_⟩
  rcases course with ⟨rfl, empty, rfl⟩ | ⟨task, member, rfl, perm, waits⟩
  · exact ⟨.of_rests rfl rfl, fun _ => empty⟩
  · exact ⟨.of_moved (.of_generation kept.generation) rfl perm inv.slotted.sound.nodup
      ⟨task, member, rfl, .inl waits⟩ fun l i inside => .inl (kept.waits l i inside), by rintro ⟨⟩⟩

omit [DecidableEq G] in
/-- The state after a task was moved between its places. -/
theorem Inv.moves (inv : world.Inv tasks lanes) {claim : Option Entry} {lane : Nat} {hook : Hook}
    (moves : world.queue.store.Moves store index lane hook)
    (stands : Stands store world.attached claim) :
    Inv { world with queue := { world.queue with store }, claim } tasks lanes where
  extent := ⟨moves.tasks.trans inv.extent.1, moves.lanes.trans inv.extent.2⟩
  counted := inv.counted.congr moves.bound moves.generation
  stands := stands
  spare := inv.spare
  slotted := inv.slotted
  log := inv.log

/-- The task that is dequeued is its owner's. -/
def Serves (world : World G) (scope : Scope G) (dequeued : Option Entry) : Prop :=
  ∀ owner entry, scope = .exact owner → dequeued = some entry →
    ∃ task ∈ world.attached, task.index = entry.index ∧ task.lane = owner.lane ∧
      task.generation = owner.generation

section

variable (inv : world.Inv tasks lanes)

include inv

omit [DecidableEq G] in
theorem Inv.serves {scope : Scope G} {entry : Entry}
    (stands : Stands store world.attached (some entry)) (current : world.queue.Current scope entry) :
     world.Serves scope (some entry) := by
  rintro owner _ exact_ ⟨⟩
  rcases current owner exact_ with ⟨lane, generation⟩
  rcases stands.claimed rfl with ⟨task, member, index, lane'⟩
  refine ⟨task, member, index, lane'.trans lane, ?_⟩
  have same := inv.counted.attached task member
  rw [lane', lane, generation] at same
  exact (Option.some.inj same).symm

theorem Inv.dequeue (scope : Scope G) (unclaimed : world.claim = none) :
    ∃ entry next, world.step rounds (.dequeue scope) = .ok (.entry entry, next) ∧
      next.Inv tasks lanes ∧ world.Keeps next ∧ next.claim = entry ∧ world.Serves scope entry := by
  have stands := inv.stands
  rw [unclaimed] at stands
  unfold step
  dsimp only
  rcases Queue.dequeue_spec stands rounds scope with run | ⟨entry, store, run, leads, stands', moves⟩
  · rw [run, ok_bind]
    refine ⟨none, _, rfl, ⟨inv.extent, inv.counted, stands, inv.spare, inv.slotted, inv.log⟩,
      .of_rests rfl rfl, rfl, by rintro _ _ - ⟨⟩⟩
  · rw [run, ok_bind]
    refine ⟨some entry, _, rfl, inv.moves moves stands', ?_, rfl, inv.serves stands' leads.current⟩
    exact .of_slot (.of_generation moves.generation) rfl rfl (stands.waits stands' moves (by simp))

theorem Inv.turn (scope : Scope G) (permit : Bool) (unclaimed : world.claim = none) :
    ∃ answer next, world.step rounds (.next scope permit) = .ok (.next answer, next) ∧
      next.Inv tasks lanes ∧ world.Keeps next ∧
      ∀ dequeued moved, answer = .item dequeued moved →
        next.claim = dequeued ∧ world.Serves scope dequeued := by
  have stands := inv.stands
  rw [unclaimed] at stands
  unfold step
  dsimp only
  rcases Queue.next_spec stands inv.slotted.sound inv.slotted.reports rounds scope permit with
    ⟨answer, run, others⟩ | ⟨synced, mid, dequeued, moved, store, run', run, stands', turn⟩
  · rw [run, ok_bind]
    cases answer with
    | item dequeued moved => exact absurd rfl (others dequeued moved)
    | exhausted index =>
      exact ⟨_, _, rfl, inv, .of_rests rfl rfl, by rintro _ _ ⟨⟩⟩
    | empty =>
      exact ⟨_, _, rfl, inv, .of_rests rfl rfl, by rintro _ _ ⟨⟩⟩
  · rcases inv.synced unclaimed with ⟨entry, queue, ran, popped, inv', kept, course⟩
    rw [ran] at run'
    cases run'
    rw [run, ok_bind]
    have between : Stands mid.store world.attached none := unclaimed ▸ inv'.stands
    have waits : ∀ l, ∀ i ∈ (mid.store.owners l).chain,
        i ∈ (store.owners l).chain ∨ dequeued = some ⟨i, l⟩ := by
      rcases turn with ⟨-, rfl⟩ | ⟨entry, -, -, moves⟩
      · exact fun _ _ inside => .inl inside
      · exact between.waits stands' moves (by simp)
    have generation : ∀ l, (store.owners l).generation =
        (world.queue.store.owners l).generation := by
      intro l
      rcases turn with ⟨-, rfl⟩ | ⟨entry, -, -, moves⟩
      · exact kept.generation l
      · exact (moves.generation l).trans (kept.generation l)
    have after : Inv { world.moved { mid with store } (synced.map Entry.index) with
        claim := dequeued } tasks lanes := by
      rcases turn with ⟨rfl, rfl⟩ | ⟨entry, rfl, -, moves⟩
      · exact ⟨inv'.extent, inv'.counted, stands', inv'.spare, inv'.slotted, inv'.log⟩
      · exact inv'.moves moves stands'
    rw [← popped] at after
    refine ⟨_, _, rfl, after, ?_, ?_⟩
    · rcases course with ⟨rfl, empty, rfl⟩ | ⟨task, member, rfl, perm, here⟩
      · refine .of_slot (.of_generation generation) ?_ rfl waits
        dsimp only [World.moved]
        rw [popped]
        rfl
      · refine .of_moved (.of_generation generation) ?_ perm inv.slotted.sound.nodup
          ⟨task, member, rfl, waits _ _ here⟩ fun l i inside => waits l i (kept.waits l i inside)
        dsimp only [World.moved]
        rw [popped]
        rfl
    · rintro _ _ ⟨⟩
      refine ⟨rfl, ?_⟩
      rcases turn with ⟨rfl, -⟩ | ⟨entry, rfl, current, -⟩
      · rintro _ _ - ⟨⟩
      · exact inv.serves stands' current

omit [DecidableEq G] in
theorem Inv.forget (loses : world.queue.store.Loses store world.reserved world.attached task) :
    Inv (world.forget { world.queue with store } task.index) tasks lanes ∧
      world.Keeps (world.forget { world.queue with store } task.index) := by
  have inside : ∀ other ∈ world.attached.filter fun other => other.index ≠ task.index,
      other ∈ world.attached ∧ other.index ≠ task.index := by
    intro other member
    simpa using member
  have gone : ¬ (world.forget { world.queue with store } task.index).Attends task.index := by
    rintro ⟨other, member, same⟩
    exact (inside other member).2 same
  rcases inv.slotted.sound.leave task.index with ⟨sound, turn⟩
  have stays : ∀ index ∈ Slot.list (world.queue.slot.map fun endpoint =>
      endpoint.leave task.index), index ∈ world.queue.slot.list ∧ index ≠ task.index := by
    intro index member
    rcases turn with ⟨-, perm⟩ | ⟨quiet, same⟩
    · have nodup := perm.nodup_iff.mp inv.slotted.sound.nodup
      refine ⟨perm.mem_iff.mpr (List.mem_cons_of_mem _ member), ?_⟩
      rintro rfl
      exact (List.nodup_cons.mp nodup).1 member
    · rw [same] at member
      refine ⟨member, ?_⟩
      rintro rfl
      exact quiet member
  constructor
  · refine ⟨⟨loses.tasks.trans inv.extent.1, loses.lanes.trans inv.extent.2⟩, loses.counted,
      loses.stands, inv.spare.sublist (.refl _) fun other member => (inside other member).1,
      ⟨sound, ?_, ?_⟩, ?_⟩
    · intro some
      refine (Option.isSome_map ..).trans (inv.slotted.rooted ?_)
      rcases some with held | some
      · exact .inl held
      · rcases List.exists_mem_of_ne_nil _ some with ⟨other, member⟩
        exact .inr (List.ne_nil_of_mem (inside other member).1)
    · intro index member
      rcases stays index member with ⟨reported, apart⟩
      rcases inv.slotted.reports index reported with ⟨other, member', rfl⟩
      exact ⟨other, List.mem_filter.mpr ⟨member', by simpa using apart⟩, rfl⟩
    · dsimp only [World.forget]
      rcases turn with ⟨reported, perm⟩ | ⟨quiet, same⟩
      · rw [if_pos reported]
        refine inv.log.trans ((perm.append_left _).trans ?_)
        rw [List.append_assoc, List.append_assoc]
        exact List.perm_middle.append_left _
      · rw [if_neg quiet, same]
        exact inv.log
  · refine ⟨.of_generation loses.generation, .inl rfl, ?_, ?_⟩
    · intro index reported
      rcases turn with ⟨-, perm⟩ | ⟨-, same⟩
      · rcases List.mem_cons.mp (perm.mem_iff.mp reported) with rfl | stays
        · exact .inr (.inr gone)
        · exact .inl stays
      · refine .inl ?_
        dsimp only [World.forget]
        rw [same]
        exact reported
    · intro lane index waits
      by_cases same : index = task.index
      · exact .inr (same ▸ gone)
      · have linked := (inv.stands.linked.mem lane index).mp waits
        exact .inl (.inl ((loses.stands.linked.mem lane index).mpr
          ((loses.others index same).trans linked)))

omit [DecidableEq G] in
theorem Inv.claimed (claimed : world.claim ≠ none) :
    ∃ task ∈ world.attached, world.claim = some ⟨task.index, task.lane⟩ ∧
      world.queue.store.nodes task.index = some ⟨.parked, task.lane⟩ := by
  rcases Option.ne_none_iff_exists'.mp claimed with ⟨⟨index, lane⟩, claim⟩
  rcases inv.stands.claimed claim with ⟨task, member, rfl, rfl⟩
  exact ⟨task, member, claim, (inv.stands.linked.parked _ _).mpr claim⟩

theorem Inv.enqueue (claimed : world.claim ≠ none) :
    ∃ next, world.step rounds .enqueue = .ok (.done, next) ∧ next.Inv tasks lanes ∧
      world.Keeps next ∧ ∀ entry, world.claim = some entry →
        entry.index ∈ (next.queue.store.owners entry.lane).chain := by
  rcases inv.claimed claimed with ⟨task, member, claim, has⟩
  rcases inv.stands.linked.enqueue has (.inr claim) with ⟨store, run, linked, moves, -⟩
  have stands := inv.stands.moves member linked moves
  unfold step Queue.enqueue
  rw [claim]
  dsimp only
  rw [run, ok_bind]
  refine ⟨_, rfl, inv.moves moves stands, .of_slot (.of_generation moves.generation) rfl rfl
    (inv.stands.waits stands moves (by simp)), ?_⟩
  rintro _ ⟨⟩
  refine (linked.mem _ _).mpr ?_
  rw [moves.nodes, Function.update_self]

theorem Inv.idle (claimed : world.claim ≠ none) : world.Succeeds tasks lanes rounds .idle := by
  rcases inv.claimed claimed with ⟨task, member, claim, has⟩
  rcases inv.stands.linked.rest has (.inr claim) with ⟨store, run, linked, -, moves⟩
  have stands := inv.stands.moves member linked moves
  unfold Succeeds step Queue.idle
  rw [claim]
  dsimp only
  rw [run, ok_bind]
  refine ⟨_, _, rfl, inv.moves moves stands, .of_slot (.of_generation moves.generation) rfl rfl ?_⟩
  refine inv.stands.waits stands moves fun _ lane inside => ?_
  cases has.symm.trans ((inv.stands.linked.mem lane _).mp inside)

end

theorem Inv.complete (inv : world.Inv tasks lanes) (claimed : world.claim ≠ none) :
    world.Succeeds tasks lanes rounds .complete := by
  rcases inv.claimed claimed with ⟨task, member, claim, has⟩
  rcases Queue.detach_spec world.queue inv.stands inv.counted member has (.inr claim) with
    ⟨store, run, loses⟩
  unfold Succeeds step
  rw [claim]
  dsimp only
  rw [run, ok_bind]
  exact ⟨_, _, rfl, inv.forget loses⟩

theorem Inv.detach (inv : world.Inv tasks lanes) (attends : world.Attends index)
    (unclaimed : world.claim = none) : world.Succeeds tasks lanes rounds (.detach index) := by
  rcases attends with ⟨task, member, rfl⟩
  have stands := inv.stands
  rw [unclaimed] at stands
  rcases Queue.detachIndex_spec stands inv.counted member with ⟨store, run, loses⟩
  unfold Succeeds step
  dsimp only
  rw [run, ok_bind]
  exact ⟨_, _, rfl, inv.forget loses⟩

theorem Inv.queries (inv : world.Inv tasks lanes) (scope : Scope G) :
    (∃ out, world.step rounds (.readiness scope) = .ok (out, world)) ∧
      ∃ out, world.step rounds (.front scope) = .ok (out, world) := by
  rcases Queue.frontEntry_spec inv.stands.linked scope with ⟨front, run, -⟩
  unfold step Queue.readiness Queue.front
  dsimp only
  rw [run, ok_bind, ok_bind]
  rcases front with - | ⟨entry⟩ | -
  · exact ⟨⟨_, rfl⟩, _, rfl⟩
  · exact ⟨⟨_, rfl⟩, _, rfl⟩
  · exact ⟨⟨_, rfl⟩, _, rfl⟩

/-- A task that is dequeued stays so until its caller puts it somewhere. -/
theorem step_claim {input : Input G} {out : Output G} {entry : Entry}
    (run : world.step rounds input = .ok (out, next)) (ok : world.allowed input)
    (claimed : world.claim = some entry) :
    next.claim = some entry ∨ input = .enqueue ∨ input = .idle ∨ input = .complete := by
  have busy : world.claim ≠ none := by simp [claimed]
  unfold step at run
  cases input with
  | sync | dequeue _ | next _ _ => exact absurd ok busy
  | attach _ | detach _ => exact absurd ok.2 busy
  | enqueue => exact .inr (.inl rfl)
  | idle => exact .inr (.inr (.inl rfl))
  | complete => exact .inr (.inr (.inr rfl))
  | register _ | tryRetire _ =>
    cases run
    exact .inl claimed
  | rebind _ =>
    dsimp only at run
    split at run <;> (cases run; exact .inl claimed)
  | report _ =>
    dsimp only at run
    split at run
    · cases run
    · cases run
      exact .inl claimed
  | tryPrepare _ _ _ | prepare _ _ _ =>
    rcases bind_ok.mp run with ⟨⟨_ | _, queue⟩, -, rest⟩ <;> (cases rest; exact .inl claimed)
  | drop _ | readiness _ | front _ =>
    rcases bind_ok.mp run with ⟨_, -, rest⟩
    cases rest
    exact .inl claimed

/-- What the turns answer, and what becomes of the task that is dequeued. -/
structure Answers (world : World G) (input : Input G) (out : Output G) (next : World G) :
    Prop where
  sync : input = .sync → out = .entry none → world.queue.slot.list = []
  dequeue : ∀ scope, input = .dequeue scope →
    ∃ entry, out = .entry entry ∧ next.claim = entry ∧ world.Serves scope entry
  turn : ∀ scope permit, input = .next scope permit → ∀ dequeued moved,
    out = .next (.item dequeued moved) → next.claim = dequeued ∧ world.Serves scope dequeued
  enqueue : input = .enqueue → ∀ entry, world.claim = some entry →
    entry.index ∈ (next.queue.store.owners entry.lane).chain
  claim : ∀ entry, world.claim = some entry →
    next.claim = some entry ∨ input = .enqueue ∨ input = .idle ∨ input = .complete

theorem Inv.step (inv : world.Inv tasks lanes) (rounds : Rounds) {input : Input G}
    (ok : world.allowed input) :
    ∃ out next, world.step rounds input = .ok (out, next) ∧ next.Inv tasks lanes ∧
      world.Keeps next ∧ world.Answers input out next := by
  have plain : input ≠ .sync → (∀ scope, input ≠ .dequeue scope) →
      (∀ scope permit, input ≠ .next scope permit) → input ≠ .enqueue →
      world.Succeeds tasks lanes rounds input →
      ∃ out next, world.step rounds input = .ok (out, next) ∧ next.Inv tasks lanes ∧
        world.Keeps next ∧ world.Answers input out next := by
    rintro one two three four ⟨out, after, run, inv', keeps⟩
    exact ⟨out, after, run, inv', keeps, fun same => absurd same one,
      fun scope same => absurd same (two scope),
      fun scope permit same => absurd same (three scope permit), fun same => absurd same four,
      fun _ => step_claim run ok⟩
  cases input with
  | register owner =>
    exact plain (by simp) (by simp) (by simp) (by simp)
      ⟨_, _, rfl, inv.administrates (Queue.register_administers inv.counted)⟩
  | rebind owner => exact plain (by simp) (by simp) (by simp) (by simp) (inv.rebind owner)
  | tryRetire owner =>
    exact plain (by simp) (by simp) (by simp) (by simp)
      ⟨_, _, rfl, inv.administrates (Queue.tryRetire_administers inv.counted)⟩
  | tryPrepare index owner room =>
    exact plain (by simp) (by simp) (by simp) (by simp) (inv.tryPrepare owner room ok)
  | prepare held index room =>
    exact plain (by simp) (by simp) (by simp) (by simp) (inv.prepare room ok.1 ok.2.2)
  | drop held => exact plain (by simp) (by simp) (by simp) (by simp) (inv.drop ok)
  | attach task => exact plain (by simp) (by simp) (by simp) (by simp) (inv.attach ok.1 ok.2)
  | report index => exact plain (by simp) (by simp) (by simp) (by simp) (inv.report ok)
  | sync =>
    rcases inv.sync ok with ⟨entry, after, run, inv', keeps, empty⟩
    refine ⟨_, after, run, inv', keeps, ⟨?_, by simp, by simp, by simp, fun _ => step_claim run ok⟩⟩
    rintro - ⟨⟩
    exact empty rfl
  | dequeue scope =>
    rcases inv.dequeue scope ok with ⟨entry, after, run, inv', keeps, claim, serves⟩
    refine ⟨_, after, run, inv', keeps, ⟨by simp, ?_, by simp, by simp, fun _ => step_claim run ok⟩⟩
    rintro _ ⟨⟩
    exact ⟨entry, rfl, claim, serves⟩
  | next scope permit =>
    rcases inv.turn scope permit ok with ⟨answer, after, run, inv', keeps, serves⟩
    refine ⟨_, after, run, inv', keeps, ⟨by simp, by simp, ?_, by simp, fun _ => step_claim run ok⟩⟩
    rintro _ _ ⟨⟩ dequeued moved same
    exact serves dequeued moved (Output.next.inj same)
  | enqueue =>
    rcases inv.enqueue ok with ⟨after, run, inv', keeps, linked⟩
    exact ⟨_, after, run, inv', keeps, by simp, by simp, by simp, fun _ => linked,
      fun _ => step_claim run ok⟩
  | idle => exact plain (by simp) (by simp) (by simp) (by simp) (inv.idle ok)
  | complete => exact plain (by simp) (by simp) (by simp) (by simp) (inv.complete ok)
  | detach index => exact plain (by simp) (by simp) (by simp) (by simp) (inv.detach ok.1 ok.2)
  | readiness scope =>
    rcases (inv.queries scope).1 with ⟨out, run⟩
    exact plain (by simp) (by simp) (by simp) (by simp)
      ⟨out, world, run, inv, .of_rests rfl rfl⟩
  | front scope =>
    rcases (inv.queries scope).2 with ⟨out, run⟩
    exact plain (by simp) (by simp) (by simp) (by simp)
      ⟨out, world, run, inv, .of_rests rfl rfl⟩

theorem invariant (rounds : Rounds) (tasks lanes : Nat) :
    (machine rounds tasks lanes : Run.Machine (World G) _ _ _).Invariant
      fun world => world.Inv tasks lanes where
  start := by
    rintro _ rfl
    exact new_inv tasks lanes
  step world input inv ok := by
    rcases inv.step rounds ok with ⟨out, after, run, inv', -⟩
    exact ⟨out, after, run, inv'⟩

/-- Where an attached task is. -/
inductive Place where
  | linked
  | dequeued
  | idle
deriving DecidableEq, Repr

def At (world : World G) (task : Attached G) : Place → Prop
  | .linked => (world.queue.store.owners task.lane).chain.count task.index = 1 ∧
      (∀ lane, lane ≠ task.lane → task.index ∉ (world.queue.store.owners lane).chain) ∧
      ∀ entry, world.claim = some entry → entry.index ≠ task.index
  | .dequeued => world.claim = some ⟨task.index, task.lane⟩ ∧
      ∀ lane, task.index ∉ (world.queue.store.owners lane).chain
  | .idle => (∀ entry, world.claim = some entry → entry.index ≠ task.index) ∧
      ∀ lane, task.index ∉ (world.queue.store.owners lane).chain

omit [DecidableEq G] in
theorem Inv.place (inv : world.Inv tasks lanes) (member : task ∈ world.attached) :
    ∃! place, world.At task place := by
  have linked := inv.stands.linked
  rcases inv.stands.nodes task member with ⟨hook, has⟩
  have chain : ∀ lane, task.index ∈ (world.queue.store.owners lane).chain ↔
      hook = .linked ∧ lane = task.lane := by
    intro lane
    rw [linked.mem, has]
    simp [eq_comm]
  have claim : ∀ entry, world.claim = some entry → entry.index = task.index →
      hook = .parked ∧ entry = ⟨task.index, task.lane⟩ := by
    intro entry claimed same
    rcases inv.stands.claimed claimed with ⟨other, member', index, lane⟩
    cases inv.stands.same member' member (index.trans same)
    have entry' : entry = ⟨task.index, task.lane⟩ := by rw [index, lane]
    have parked := (linked.parked _ _).mpr (entry' ▸ claimed)
    rw [has] at parked
    cases parked
    exact ⟨rfl, entry'⟩
  cases hook with
  | linked =>
    have stands := (chain task.lane).mpr ⟨rfl, rfl⟩
    refine ⟨.linked, ⟨List.count_eq_one_of_mem (linked.rota.nodup _) stands, ?_, ?_⟩, ?_⟩
    · intro lane apart inside
      exact apart ((chain lane).mp inside).2
    · intro entry claimed same
      cases (claim entry claimed same).1
    · rintro (- | - | -) there
      · rfl
      · exact absurd stands (there.2 _)
      · exact absurd stands (there.2 _)
  | parked =>
    have claimed := (linked.parked _ _).mp has
    have out : ∀ lane, task.index ∉ (world.queue.store.owners lane).chain := by
      intro lane inside
      cases ((chain lane).mp inside).1
    refine ⟨.dequeued, ⟨claimed, out⟩, ?_⟩
    rintro (- | - | -) there
    · exact absurd rfl (there.2.2 _ claimed)
    · rfl
    · exact absurd rfl (there.1 _ claimed)
  | idle =>
    have out : ∀ lane, task.index ∉ (world.queue.store.owners lane).chain := by
      intro lane inside
      cases ((chain lane).mp inside).1
    refine ⟨.idle, ⟨?_, out⟩, ?_⟩
    · intro entry claimed same
      cases (claim entry claimed same).1
    · rintro (- | - | -) there
      · have inside := List.count_pos_iff.mp (there.1 ▸ Nat.one_pos)
        exact absurd inside (out _)
      · cases (claim _ there.1 rfl).1
      · rfl

/-- In every reachable state the bound of a lane counts its reservations and its tasks,
all of them of the owner the lane has; every task has one place, its own lane's chain,
its caller's hands or rest; the ring has the lanes with tasks; and every report so far
was moved once, left with its task, or is still there. Every step then succeeds, changes
the owner of a lane only at bound zero, moves reports into the lanes of their tasks, and
dequeues under the owner that was asked for; a task in its lane waits on until it is
dequeued or leaves, and one that is dequeued is its caller's, who may put it back. -/
theorem reachable_partitioned (rounds : Rounds) (tasks lanes : Nat) {world : World G}
    (h : (machine rounds tasks lanes).Reachable world) :
    (∀ lane, (world.queue.store.owners lane).bound =
      outstanding world.reserved world.attached lane) ∧
    (∀ held ∈ world.reserved, held.lane < lanes ∧
      (world.queue.store.owners held.lane).generation = some held.generation) ∧
    (∀ task ∈ world.attached, task.lane < lanes ∧ task.index < tasks ∧
      (world.queue.store.owners task.lane).generation = some task.generation ∧
      ∃! place, world.At task place) ∧
    (∀ lane, ∀ index ∈ (world.queue.store.owners lane).chain,
      ∃ task ∈ world.attached, task.index = index ∧ task.lane = lane) ∧
    (world.queue.store.first.Nodup ∧ ∀ lane, lane ∈ world.queue.store.first ↔
      (world.queue.store.owners lane).chain ≠ []) ∧
    (world.reports.Perm (world.moves ++ world.dropped ++ world.queue.slot.list) ∧
      world.queue.slot.list.Nodup ∧ ∀ index ∈ world.queue.slot.list, world.Attends index) ∧
    ∀ input, world.allowed input → ∃ out next, world.step rounds input = .ok (out, next) ∧
      world.Keeps next ∧ world.Answers input out next := by
  have inv := (invariant rounds tasks lanes).holds h
  have linked := inv.stands.linked
  refine ⟨inv.counted.bound, ?_, ?_, ?_, ⟨linked.rota.once, linked.rota.waits⟩,
    ⟨inv.log, inv.slotted.sound.nodup, inv.slotted.reports⟩, ?_⟩
  · intro held member
    exact ⟨(inv.spare.held held member).1, inv.counted.reserved held member⟩
  · intro task member
    rcases inv.spare.task task member with ⟨lane, index⟩
    exact ⟨lane, index, inv.counted.attached task member, inv.place member⟩
  · intro lane index inside
    exact inv.stands.attends ((linked.mem lane index).mp inside) (by simp)
  · intro input ok
    rcases inv.step rounds ok with ⟨out, after, run, -, keeps, answers⟩
    exact ⟨out, after, run, keeps, answers⟩

/-- A task that rests is woken, moved into its lane and dequeued. -/
theorem reachable_partitioned_example :
    ∃ world : World Nat, (machine Rounds.fair 2 1).Reachable world ∧
      world.claim = some ⟨0, 0⟩ ∧ world.moves = [0] ∧
      (world.queue.store.owners 0).bound = outstanding world.reserved world.attached 0 ∧
      ∀ input, world.allowed input → ∃ out next, world.step .fair input = .ok (out, next) ∧
        world.Keeps next ∧ world.Answers input out next := by
  have start : (machine Rounds.fair 2 1 : Run.Machine (World Nat) _ _ _).Reachable (new 2 1) :=
    .start rfl
  have run := start.call (.register ⟨0, 7⟩) trivial rfl
  have run := run.call (.tryPrepare 0 ⟨0, 7⟩ (.ok ())) ⟨by rintro _ ⟨⟩, by rintro _ ⟨⟩⟩ rfl
  have run := run.call (.attach ⟨0, 0, 7⟩) ⟨List.mem_cons_self, rfl⟩ rfl
  have run := run.call .idle (by rintro ⟨⟩) rfl
  have run := run.call (.report 0) ⟨_, List.mem_cons_self, rfl⟩ rfl
  have run := run.call (.next .any true) rfl rfl
  rcases reachable_partitioned Rounds.fair 2 1 run with ⟨bound, -, -, -, -, -, steps⟩
  exact ⟨_, run, rfl, rfl, bound 0, steps⟩

end World

end Dope.Tasks
