import Dope.Tasks.Counts
import Dope.Tasks.Lanes
import Dope.Tasks.Reports

/-! # Steps of a queue

What the operations of a queue do to the owners, the links and the reports.
-/

namespace Dope.Tasks

open Run (ok_bind)

variable {G : Type} {lane : Nat}

namespace Store

variable {store store' store'' : Store G} {claim : Option Entry}

/-- Nothing moves. -/
structure Rests (store store' : Store G) : Prop where
  tasks : store'.tasks = store.tasks
  lanes : store'.lanes = store.lanes
  nodes : store'.nodes = store.nodes
  first : store'.first = store.first
  chain : ∀ l, (store'.owners l).chain = (store.owners l).chain

theorem Rests.refl (store : Store G) : store.Rests store := ⟨rfl, rfl, rfl, rfl, fun _ => rfl⟩

theorem Rests.trans (h : store.Rests store') (h' : store'.Rests store'') : store.Rests store'' :=
  ⟨h'.tasks.trans h.tasks, h'.lanes.trans h.lanes, h'.nodes.trans h.nodes,
    h'.first.trans h.first, fun l => (h'.chain l).trans (h.chain l)⟩

@[simp] theorem owners_modify (store : Store G) (lane : Nat) (f : Owner G → Owner G) :
    (store.modify lane f).owners =
      Function.update store.owners lane (f (store.owners lane)) := rfl

theorem rests_modify (store : Store G) (lane : Nat) {f : Owner G → Owner G}
    (chain : (f (store.owners lane)).chain = (store.owners lane).chain) :
    store.Rests (store.modify lane f) where
  tasks := rfl
  lanes := rfl
  nodes := rfl
  first := rfl
  chain := Owner.field_update Owner.chain chain

theorem Linked.rests (h : store.Linked claim) (rests : store.Rests store') : store'.Linked claim :=
  h.congr rests.nodes rests.first rests.chain

/-- The owner of a lane changes only while nothing counts on it. -/
def Steady (store store' : Store G) : Prop :=
  ∀ lane, (store'.owners lane).generation ≠ (store.owners lane).generation →
    (store.owners lane).bound = 0

theorem Steady.of_generation
    (same : ∀ l, (store'.owners l).generation = (store.owners l).generation) :
    store.Steady store' :=
  fun l apart => absurd (same l) apart

theorem steady_setGeneration (zero : (store.owners lane).bound = 0) (generation : Option G) :
    store.Steady (store.modify lane fun owner => { owner with generation }) := by
  intro l apart
  by_cases same : l = lane
  · subst same
    exact zero
  · exact absurd (congrArg Owner.generation (Function.update_of_ne same _ _)) apart

theorem get_some {owner : Owner G} (found : store.get lane = some owner) :
    lane < store.lanes ∧ owner = store.owners lane := by
  unfold get at found
  split at found
  · next inside => exact ⟨inside, (Option.some.inj found).symm⟩
  · cases found

end Store

namespace Queue

variable {queue queue' : Queue G} {reserved : List (Reserved G)} {attached : List (Attached G)}
  {owner : OwnerId G}

/-- Only owners and their counts change. -/
structure Administers (queue queue' : Queue G) (reserved : List (Reserved G))
    (attached : List (Attached G)) : Prop where
  slot : queue'.slot = queue.slot
  rests : queue.store.Rests queue'.store
  steady : queue.store.Steady queue'.store
  counted : Counted queue'.store.owners reserved attached

theorem Administers.refl (h : Counted queue.store.owners reserved attached) :
    queue.Administers queue reserved attached :=
  ⟨rfl, .refl _, .of_generation fun _ => rfl, h⟩

variable [DecidableEq G]

theorem current_ok {state : Owner G} (run : queue.current owner = .ok state) :
    owner.lane < queue.store.lanes ∧ state = queue.store.owners owner.lane ∧
      state.generation = some owner.generation := by
  unfold current at run
  split at run
  · cases run
  · next state' found =>
      split at run
      · cases run
      · next same =>
          cases run
          exact ⟨(Store.get_some found).1, (Store.get_some found).2, not_not.mp same⟩

section

variable (h : Counted queue.store.owners reserved attached)

include h

omit [DecidableEq G] in
theorem setGeneration_administers (zero : (queue.store.owners lane).bound = 0)
    (generation : Option G) :
    queue.Administers (queue.setGeneration lane generation) reserved attached :=
  ⟨rfl, Store.rests_modify _ _ (f := fun owner => { owner with generation }) rfl,
    Store.steady_setGeneration zero generation, h.setGeneration zero generation⟩

/-- A lane takes the owner it has, or any while it has none. -/
theorem bindState_administers (owner : OwnerId G) :
    queue.Administers (queue.bindState owner).2 reserved attached ∧
      ((queue.bindState owner).1 = .ok () →
        ((queue.bindState owner).2.store.owners owner.lane).generation =
          some owner.generation) := by
  unfold bindState
  cases generation : (queue.store.owners owner.lane).generation with
  | none =>
    refine ⟨setGeneration_administers h (h.retired _ generation) _, fun _ => ?_⟩
    simp [setGeneration]
  | some current =>
    dsimp only
    by_cases same : current = owner.generation
    · rw [if_pos same]
      exact ⟨.refl h, fun _ => by rw [generation, same]⟩
    · rw [if_neg same]
      exact ⟨.refl h, by rintro ⟨⟩⟩

theorem register_administers : queue.Administers (queue.register owner).2 reserved attached := by
  unfold register
  cases queue.store.get owner.lane with
  | none => exact .refl h
  | some state => exact (bindState_administers h owner).1

end

omit [DecidableEq G] in
theorem reserve_administers (h : queue.Administers queue' reserved attached) (index : Option Nat)
    (current : (queue'.store.owners owner.lane).generation = some owner.generation) :
    queue.Administers (queue'.reserve owner.lane)
      (⟨owner.lane, index, owner.generation⟩ :: reserved) attached where
  slot := h.slot
  rests := h.rests.trans
    (Store.rests_modify _ _ (f := fun owner => { owner with bound := owner.bound + 1 }) rfl)
  steady lane apart := by
    apply h.steady
    intro same
    apply apart
    exact (Owner.field_update Owner.generation (by rfl) lane).trans same
  counted := h.counted.reserve ⟨owner.lane, index, owner.generation⟩ current

theorem rebind_administers (h : Counted queue.store.owners reserved attached) (owner : OwnerId G) :
    (queue.rebind owner).1 = .ok () ∧ owner.lane < queue.store.lanes ∧
        queue.Administers (queue.rebind owner).2
          (⟨owner.lane, none, owner.generation⟩ :: reserved) attached ∨
      (∃ cause, (queue.rebind owner).1 = .error cause) ∧
        queue.Administers (queue.rebind owner).2 reserved attached := by
  unfold rebind
  cases found : queue.store.get owner.lane with
  | none => exact .inr ⟨⟨_, rfl⟩, .refl h⟩
  | some state =>
    rcases Store.get_some found with ⟨inside, rfl⟩
    dsimp only
    by_cases zero : (queue.store.owners owner.lane).bound = 0
    · rw [if_pos zero]
      refine .inl ⟨rfl, inside, reserve_administers (setGeneration_administers h zero _) none ?_⟩
      simp [setGeneration]
    · rw [if_neg zero]
      rcases bindState_administers h owner with ⟨administers, current⟩
      cases run : queue.bindState owner with
      | mk answer queue' =>
        rw [run] at administers current
        cases answer with
        | ok => exact .inl ⟨rfl, inside, reserve_administers administers none (current rfl)⟩
        | error cause => exact .inr ⟨⟨cause, rfl⟩, administers⟩

theorem tryRetire_administers (h : Counted queue.store.owners reserved attached) :
    queue.Administers (queue.tryRetire owner).2 reserved attached := by
  unfold tryRetire
  cases run : queue.current owner with
  | error cause => exact .refl h
  | ok state =>
    rcases current_ok run with ⟨-, rfl, -⟩
    dsimp only
    by_cases zero : (queue.store.owners owner.lane).bound = 0
    · rw [if_pos zero]
      exact setGeneration_administers h zero none
    · rw [if_neg zero]
      exact .refl h

omit [DecidableEq G] in
theorem release_ok {store : Store G} (bound : (store.owners lane).bound ≠ 0) :
    store.release lane =
      .ok (store.modify lane fun owner => { owner with bound := owner.bound - 1 }) := by
  unfold Store.release
  rw [if_neg bound]

omit [DecidableEq G] in
theorem generation_release (store : Store G) (lane l : Nat) :
    ((store.modify lane fun owner => { owner with bound := owner.bound - 1 }).owners l).generation =
      (store.owners l).generation :=
  release_generation store.owners lane l

/-- A reservation goes, and every lane keeps its owner. -/
theorem Administers.drop (h : queue.Administers queue' reserved attached) {held : Reserved G}
    (member : held ∈ reserved) :
    ∃ queue'', queue'.dropPrepared held.lane = .ok queue'' ∧
      queue.Administers queue'' (reserved.erase held) attached := by
  rcases h.counted.drop member with ⟨bound, counted⟩
  unfold dropPrepared
  rw [release_ok bound, ok_bind]
  refine ⟨_, rfl, h.slot, h.rests.trans ?_, ?_, counted⟩
  · exact Store.rests_modify _ _ (f := fun owner => { owner with bound := owner.bound - 1 }) rfl
  · intro lane apart
    apply h.steady
    rw [← generation_release queue'.store held.lane lane]
    exact apart

/-- A reservation gets its task and a place in the topology, or is dropped. -/
theorem Administers.prepare (h : queue.Administers queue' reserved attached) {held : Reserved G}
    (member : held ∈ reserved) (index : Nat) (room : Except Nat Unit) :
    (∃ slot, queue'.prepare held.lane index room = .ok (.ok (), { queue' with slot }) ∧
        index < queue'.store.tasks ∧ queue'.slot.tryAttach room = .ok slot) ∨
      ∃ cause queue'', queue'.prepare held.lane index room = .ok (.error cause, queue'') ∧
        queue.Administers queue'' (reserved.erase held) attached := by
  unfold Queue.prepare attachSlot
  rcases h.drop member with ⟨queue'', run, administers⟩
  by_cases outside : queue'.store.tasks ≤ index
  · rw [if_pos outside]
    dsimp only
    rw [run, ok_bind]
    exact .inr ⟨_, queue'', rfl, administers⟩
  · rw [if_neg outside]
    cases queue'.slot.tryAttach room with
    | ok slot => exact .inl ⟨slot, rfl, Nat.lt_of_not_le outside, rfl⟩
    | error cause =>
      dsimp only
      rw [run, ok_bind]
      exact .inr ⟨cause, queue'', rfl, administers⟩

theorem tryPrepare_administers (h : Counted queue.store.owners reserved attached) (index : Nat)
    (owner : OwnerId G) (room : Except Nat Unit) :
    (∃ queue' slot, queue.tryPrepare index owner room = .ok (.ok (), { queue' with slot }) ∧
        owner.lane < queue.store.lanes ∧ index < queue.store.tasks ∧
        queue.slot.tryAttach room = .ok slot ∧
        queue.Administers queue' (⟨owner.lane, some index, owner.generation⟩ :: reserved)
          attached) ∨
      ∃ cause queue', queue.tryPrepare index owner room = .ok (.error cause, queue') ∧
        queue.Administers queue' reserved attached := by
  unfold tryPrepare
  cases run : queue.current owner with
  | error cause => exact .inr ⟨_, queue, rfl, .refl h⟩
  | ok state =>
    rcases current_ok run with ⟨inside, rfl, current⟩
    have reserves := fun index => reserve_administers (.refl h) index current
    dsimp only
    rcases (reserves none).prepare List.mem_cons_self index room with
      ⟨slot, run, within, made⟩ | ⟨cause, queue', run, administers⟩
    · rw [run, ok_bind]
      exact .inl ⟨_, slot, rfl, inside, within, made, reserves (some index)⟩
    · rw [run, ok_bind]
      rw [List.erase_cons_head] at administers
      exact .inr ⟨_, queue', rfl, administers⟩

end Queue

end Dope.Tasks
