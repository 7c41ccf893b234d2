import Mathlib.Algebra.Group.Nat.Defs
import Dope.Core.Ready.Arena.Live

/-! # Slots that turn live, and back

A reserved slot is dispatched to, bound as a task or made a topology. A live slot
is reserved again before it is recycled. The last task of a root that is closed
takes the root with it.
-/

namespace Dope.Core.Ready.Arena

variable {S G : Type} [DecidableEq G] {epochs : Epochs G} {summary : Index.Summary S Side}
  {layout : Layout} {home : Option Nat → List Nat} {lanes lanes' : Nat → Lane → List Nat}
  {held : List (Key G)} {world : World S G} {slots' : Slots G}

omit [DecidableEq G] in
theorem Cell.setDispatch_dispatch (cell : Cell G) (target : Token) :
    ((cell.setDispatch target).setKind .dispatch).dispatch = some target :=
  Token.restore_words target

variable {key : Key G}

namespace Inv

/-! ## Ready slots -/

theorem to_dispatch (h : Inv epochs summary layout home lanes (key :: held) world) (target : Token) :
    Inv epochs summary layout home lanes held
      { world.store world.arena.pool (world.arena.slots.dispatch key target) with
        dispatches := (key, target) :: world.dispatches } := by
  rcases h.held_live with ⟨inside, kind, epoch⟩
  have turn : Becomes world.arena.slots (world.arena.slots.dispatch key target) key.index
      .dispatch := .modify _ rfl rfl
  have dispatched : ∀ d ∈ world.dispatches, d.1.index ≠ key.index := by
    intro d mem same
    have old := (h.busy.dispatch.live d.1 (List.mem_map.mpr ⟨d, mem, rfl⟩)).2.1
    rw [same, kind] at old
    cases old
  have bound : Bound epochs (world.store world.arena.pool (world.arena.slots.dispatch key target))
      lanes := by
    refine h.busy.bound_congr _ (fun j live => turn.others j ?_)
    rintro rfl
    rw [kind] at live
    rcases live with no | no <;> cases no
  refine ⟨h.same, h.homes.other turn (by rw [kind]; decide) (by decide), h.pool, h.chains,
    h.reserved.lose turn (by decide), h.leased, ?_⟩
  have inside' : world.arena.layout.Inside key.index := h.same ▸ inside
  refine ⟨h.busy.dispatch.gain turn (by rw [kind]; decide) inside' epoch,
    h.busy.task.other turn (by rw [kind]; decide) (by decide),
    h.busy.topology.other turn (by rw [kind]; decide) (by decide), ?_,
    ⟨bound.rooted, bound.task, bound.endpoint, bound.drain, bound.single, bound.drained⟩,
    ⟨h.busy.queued.capacity, h.busy.queued.valid, ?_⟩,
    h.busy.dead_turn turn (by rw [kind]; decide)⟩
  · intro d mem
    show (world.arena.slots.dispatch key target d.1.index).dispatch = some d.2
    rcases List.mem_cons.mp mem with rfl | old
    · show (Slots.modify _ _ _ _).dispatch = _
      rw [Slots.modify_self]
      exact Cell.setDispatch_dispatch ..
    · rw [turn.others _ (dispatched d old)]
      exact h.busy.token d old
  · intro side i on
    rcases h.busy.queued.named side i on with low | old
    · exact .inl low
    · right
      show (world.arena.slots.dispatch key target i).kind = .dispatch
      have apart : i ≠ key.index := by
        rintro rfl
        rw [kind] at old
        cases old
      rw [turn.others i apart]
      exact old

/-- The sets and tokens of the ready slots when another slot changes. -/
theorem ready_other (h : Inv epochs summary layout home lanes held world) {index : Nat}
    {kind : Kind} (turn : Becomes world.arena.slots slots' index kind)
    (before : (world.arena.slots index).kind ≠ .dispatch) :
    (∀ d ∈ world.dispatches, (slots' d.1.index).dispatch = some d.2) ∧
      ∀ side i, world.arena.ready.store.queued side i = true →
        i < world.arena.layout.descriptors ∨ (slots' i).kind = .dispatch := by
  constructor
  · intro d mem
    have live := (h.busy.dispatch.live d.1 (List.mem_map.mpr ⟨d, mem, rfl⟩)).2.1
    have apart : d.1.index ≠ index := by
      intro same
      rw [same] at live
      exact before live
    rw [turn.others _ apart]
    exact h.busy.token d mem
  · intro side i on
    rcases h.busy.queued.named side i on with low | old
    · exact .inl low
    · right
      have apart : i ≠ index := by
        rintro rfl
        exact before old
      rw [turn.others i apart]
      exact old

/-! ## Topologies -/

theorem to_topology (h : Inv epochs summary layout home lanes (key :: held) world) :
    Inv epochs summary layout home (Function.update lanes key.index fun _ => []) held
      { world.store world.arena.pool (world.arena.slots.topology key) with
        roots := key :: world.roots
        endpoints := key :: world.endpoints } := by
  rcases h.held_live with ⟨inside, kind, epoch⟩
  have turn : Becomes world.arena.slots (world.arena.slots.topology key) key.index .topology :=
    .modify _ rfl rfl
  have inside' : world.arena.layout.Inside key.index := h.same ▸ inside
  have fresh : key ∉ world.roots := by
    intro mem
    have old := h.busy.root_kind mem
    rw [kind] at old
    cases old
  have none : attached world.tasks key = [] := by
    refine List.eq_nil_iff_forall_not_mem.mpr ?_
    intro x mem
    rcases mem_attached.mp mem with ⟨task, here, -⟩
    exact fresh (h.busy.bound.task _ here).1
  have away : ∀ r ∈ world.roots, r.index ≠ key.index := by
    intro r mem same
    have old := h.busy.root_kind mem
    rw [same, kind] at old
    cases old
  have task_away : ∀ t ∈ world.tasks, t.1.index ≠ key.index := by
    intro t mem same
    have old := (h.busy.task_live mem).2.1
    rw [same, kind] at old
    cases old
  have ready := h.ready_other turn (by rw [kind]; decide)
  have bound : Bound epochs
      { world.store world.arena.pool (world.arena.slots.topology key) with
        roots := key :: world.roots
        endpoints := key :: world.endpoints } (Function.update lanes key.index fun _ => []) := by
    have stays : ∀ d ∈ world.drains, d.root ∈ world.endpoints :=
      fun d mem => (h.busy.bound.drain d mem).1
    have self : world.arena.slots.topology key key.index =
        ((world.arena.slots key.index).overwrite (0, 0, 0)).setKind .topology :=
      Slots.modify_self ..
    refine h.busy.bound.change key ?_ (Nat.le_refl _) ?_ ?_ ?_ (fun _ mem _ => mem) ?_ ?_
      h.busy.bound.single ?_ fun d mem _ => ⟨d, mem, rfl⟩
    · intro r mem apart
      have old : r ∈ world.roots := (List.mem_cons.mp mem).resolve_left apart
      refine ⟨old, turn.others _ (away r old), rfl, ?_, fun _ _ => rfl,
        Function.update_of_ne (away r old) .., ?_⟩
      · intro x task
        rcases mem_attached.mp task with ⟨k, here, rfl⟩
        exact turn.others _ (task_away _ here)
      · exact List.mem_cons.trans (or_iff_right apart)
    · intro _
      have open_ : decide (key ∉ key :: world.endpoints) = false := by simp
      rw [Function.update_self, open_]
      show Rooted _ _ (attached world.tasks key) _ _ _ _
      rw [none]
      exact Rooted.new self
    · intro t mem
      have old := h.busy.bound.task t mem
      refine ⟨List.mem_cons_of_mem _ old.1, ?_⟩
      show ((world.arena.slots.topology key t.1.index).record epochs).topology = _
      rw [turn.others _ (task_away t mem)]
      exact old.2
    · intro r mem
      rcases List.mem_cons.mp mem with rfl | old
      · exact List.mem_cons_self
      · exact List.mem_cons_of_mem _ (h.busy.bound.endpoint r old)
    · intro d mem same
      exact absurd (h.busy.bound.endpoint _ (same ▸ stays d mem)) fresh
    · exact fun d mem _ => List.mem_cons_of_mem _ (stays d mem)
    · intro _ on
      have off : (world.arena.slots.topology key key.index).state.view.draining = false := by
        rw [self]
        show (State.view 0#64).draining = false
        decide
      exact absurd (off.symm.trans on) (by decide)
  refine ⟨h.same, h.homes.other turn (by rw [kind]; decide) (by decide), h.pool, h.chains,
    h.reserved.lose turn (by decide), h.leased, ?_⟩
  exact ⟨h.busy.dispatch.other turn (by rw [kind]; decide) (by decide),
    h.busy.task.other turn (by rw [kind]; decide) (by decide),
    h.busy.topology.gain turn (by rw [kind]; decide) inside' epoch, ready.1, bound,
    ⟨h.busy.queued.capacity, h.busy.queued.valid, ready.2⟩,
    h.busy.dead_turn turn (by rw [kind]; decide)⟩

end Inv

/-! ## Tasks -/

theorem State.low_count {state : State} (small : state.view.count < 2 ^ 16) :
    (state.setWidth 16).toNat = state.view.count := by
  have low : state.view.count = state.toNat % 2 ^ 32 := BitVec.toNat_setWidth ..
  rw [BitVec.toNat_setWidth]
  omega

theorem State.attach_view {state : State} (small : state.view.count + 1 < 2 ^ 16) :
    (state.setCount ((state.setWidth 16).setWidth 32 + 1)).view =
      { state.view with count := state.view.count + 1 } := by
  rw [State.setCount_view]
  have low : (state.setWidth 16).toNat = state.view.count := State.low_count (by omega)
  have next : ((state.setWidth 16).setWidth 32 + 1 : BitVec 32).toNat = state.view.count + 1 := by
    rw [BitVec.toNat_add, BitVec.toNat_setWidth, low]
    show (state.view.count % 2 ^ 32 + 1) % 2 ^ 32 = _
    omega
  rw [next]

theorem attached_cons (tasks : List (Key G × Key G)) (key root : Key G) :
    attached ((key, root) :: tasks) root = key.index :: attached tasks root := by
  unfold attached
  rw [List.filter_cons_of_pos (by simp), List.map_cons]

variable {root : Key G}

theorem attached_cons_ne (tasks : List (Key G × Key G)) (key : Key G) {r : Key G}
    (apart : r ≠ root) : attached ((key, root) :: tasks) r = attached tasks r := by
  unfold attached
  rw [List.filter_cons_of_neg (by simpa using apart.symm)]

namespace Busy

theorem attached_nodup (h : Busy epochs summary world lanes) (root : Key G) :
    (attached world.tasks root).Nodup := by
  have nodup := h.task.nodup
  rw [List.map_map] at nodup
  exact nodup.sublist (List.filter_sublist.map _)

theorem attached_inside (h : Busy epochs summary world lanes) (root : Key G) :
    ∀ x ∈ attached world.tasks root, world.arena.layout.Inside x := by
  intro x mem
  rcases mem_attached.mp mem with ⟨key, here, rfl⟩
  exact (h.task_live here).1

end Busy

namespace Inv

theorem bind {parent : Key G} {local_ : BitVec 32}
    (h : Inv epochs summary layout home lanes (key :: held) world) (mem : root ∈ world.endpoints) :
    Inv epochs summary layout home lanes held
      { world.store world.arena.pool (Topology.attach
          (world.arena.slots.task epochs key parent root.index local_) root.index) with
        tasks := (key, root) :: world.tasks } := by
  rcases h.held_live with ⟨inside, kind, epoch⟩
  have here := h.busy.bound.endpoint root mem
  have inside' : world.arena.layout.Inside key.index := h.same ▸ inside
  have away : ∀ r ∈ world.roots, r.index ≠ key.index := by
    intro r live same
    have old := h.busy.root_kind live
    rw [same, kind] at old
    cases old
  have task_away : ∀ r, ∀ x ∈ attached world.tasks r, x ≠ key.index := by
    intro r x task same
    have old := h.busy.attached_kind task
    rw [same, kind] at old
    cases old
  have turn : Becomes world.arena.slots
      (world.arena.slots.task epochs key parent root.index local_) key.index .task :=
    .modify _ rfl rfl
  have bound_self : world.arena.slots.task epochs key parent root.index local_ key.index =
      ((world.arena.slots key.index).overwrite
        (taskWords epochs parent root.index local_)).setKind .task := Slots.modify_self ..
  generalize world.arena.slots.task epochs key parent root.index local_ = slots at turn bound_self ⊢
  -- then the root counts it
  have root_same := turn.others _ (away root here)
  have attach : Topology.attach slots root.index = slots.modify root.index
      (·.setState ((slots root.index).state.setCount
        (((slots root.index).state.setWidth 16).setWidth 32 + 1))) := rfl
  have quiet : Quiet slots (Topology.attach slots root.index) := by
    rw [attach]
    refine .modify _ (.inr ?_) rfl rfl
    rw [root_same]
    exact h.busy.root_kind here
  have self : Topology.attach slots root.index root.index =
      (world.arena.slots root.index).setState ((world.arena.slots root.index).state.setCount
        (((world.arena.slots root.index).state.setWidth 16).setWidth 32 + 1)) := by
    rw [← root_same, attach]
    exact Slots.modify_self ..
  have others : ∀ j, j ≠ root.index → Topology.attach slots root.index j = slots j := by
    intro j apart
    rw [attach]
    exact Slots.modify_other _ _ apart
  generalize Topology.attach slots root.index = slots' at quiet self others ⊢
  have same : ∀ j, j ≠ key.index → j ≠ root.index → slots' j = world.arena.slots j :=
    fun j apart apart' => (others j apart').trans (turn.others j apart)
  have new : slots' key.index = ((world.arena.slots key.index).overwrite
      (taskWords epochs parent root.index local_)).setKind .task :=
    (others _ (away root here).symm).trans bound_self
  have ready := h.ready_other turn (by rw [kind]; decide)
  have bound : Bound epochs
      { world.store world.arena.pool slots' with tasks := (key, root) :: world.tasks } lanes := by
    have view : (slots' root.index).state.view.draining =
          (world.arena.slots root.index).state.view.draining ∧
        (slots' root.index).state.view.active =
          (world.arena.slots root.index).state.view.active := by
      rw [self]
      show (State.setCount _ _).view.draining = _ ∧ (State.setCount _ _).view.active = _
      rw [State.setCount_view]
      exact ⟨rfl, rfl⟩
    refine h.busy.bound.change root ?_ (Nat.le_refl _) ?_ ?_ h.busy.bound.endpoint
      (fun _ there _ => there) ?_ (fun d there _ => (h.busy.bound.drain d there).1)
      h.busy.bound.single (fun _ on => h.busy.bound.drained root here (view.1.symm.trans on))
      fun d there _ => ⟨d, there, rfl⟩
    · intro r live apart
      have index : r.index ≠ root.index := fun equal => apart (h.busy.root_injective here live equal)
      refine ⟨live, same _ (away r live) index, attached_cons_ne _ _ apart, ?_, fun _ _ => rfl, rfl,
        Iff.rfl⟩
      intro x task
      refine same x (task_away r x task) ?_
      exact fun equal => h.busy.root_not_attached here (equal ▸ task)
    · intro _
      have old := h.busy.bound.rooted root here
      have out : root.index ∉ attached world.tasks root := h.busy.root_not_attached here
      show Rooted slots' root.index (attached ((key, root) :: world.tasks) root)
        (decide (root ∉ world.endpoints)) _ _ _
      rw [attached_cons]
      have fresh : key.index ∉ attached world.tasks root :=
        fun task => task_away root _ task rfl
      have room : (key.index :: attached world.tasks root).length ≤ maxCount := by
        have within : ∀ x ∈ key.index :: attached world.tasks root, world.arena.layout.Inside x := by
          intro x task
          rcases List.mem_cons.mp task with rfl | before
          · exact inside'
          · exact h.busy.attached_inside root x before
        exact Homes.length_le (List.nodup_cons.mpr ⟨fresh, h.busy.attached_nodup root⟩) within
      have count := old.count
      rw [List.length_cons] at room
      have view : (slots' root.index).state.view =
          { (world.arena.slots root.index).state.view with
            count := (world.arena.slots root.index).state.view.count + 1 } := by
        rw [self]
        refine State.attach_view ?_
        unfold maxCount at room
        omega
      refine old.rebase ?_ ?_ ?_ ?_ ?_ ?_ ?_ (fun _ => List.cons_ne_nil _ _)
      · intro side
        rw [self, Cell.setState_links]
      · intro x task _
        refine same x (task_away root x task) ?_
        exact fun equal => out (equal ▸ task)
      · exact fun x task gone => absurd (List.mem_cons_of_mem _ task) gone
      · intro x task come
        rw [(List.mem_cons.mp task).resolve_right come, new]
        rfl
      · exact old.phased.of_view (by rw [view]) (by rw [view])
      · rw [view, List.length_cons]
        exact congrArg (· + 1) count
      · rw [view]
        exact old.shut
    · intro t there
      show _ ∧ ((slots' t.1.index).record epochs).topology = t.2.index
      rcases List.mem_cons.mp there with rfl | before
      · refine ⟨here, ?_⟩
        rw [new]
        exact bindingRoot_word (Homes.fits _ (h.busy.topology.live root here).1) local_
      · have facts := h.busy.bound.task t before
        have task : t.1.index ∈ attached world.tasks t.2 := mem_attached.mpr ⟨t.1, before, rfl⟩
        refine ⟨facts.1, ?_⟩
        rw [same _ (task_away _ _ task) fun equal => h.busy.root_not_attached here (equal ▸ task)]
        exact facts.2
    · intro d there equal
      have facts := h.busy.bound.drain d there
      rw [equal] at facts
      show root ∈ world.endpoints ∧ (slots' root.index).state.view.draining = true ∧
        d.side ≠ (slots' root.index).state.view.active ∧ _
      rw [view.1, view.2]
      exact facts
  refine ⟨h.same, (h.homes.other turn (by rw [kind]; decide) (by decide)).quiet quiet, h.pool,
    h.chains, (h.reserved.lose turn (by decide)).congr quiet.kind quiet.generation, h.leased, ?_⟩
  refine ⟨(h.busy.dispatch.other turn (by rw [kind]; decide) (by decide)).congr quiet.kind
      quiet.generation,
    (h.busy.task.gain turn (by rw [kind]; decide) inside' epoch).congr quiet.kind quiet.generation,
    (h.busy.topology.other turn (by rw [kind]; decide) (by decide)).congr quiet.kind
      quiet.generation, ?_, bound, ⟨h.busy.queued.capacity, h.busy.queued.valid, ?_⟩, ?_⟩
  · intro d there
    have live := (h.busy.dispatch.live d.1 (List.mem_map.mpr ⟨d, there, rfl⟩)).2.1
    have apart : d.1.index ≠ root.index := by
      intro equal
      rw [equal, h.busy.root_kind here] at live
      cases live
    show (slots' d.1.index).dispatch = _
    rw [others _ apart]
    exact ready.1 d there
  · intro side i on
    show _ ∨ (slots' i).kind = _
    rw [quiet.kind]
    exact ready.2 side i on
  · intro key' dead
    have turned := h.busy.dead_turn turn (by rw [kind]; decide) key' dead
    refine ⟨turned.1, ?_⟩
    have old : Dead epochs slots key' := turned.2
    unfold Dead at old
    show Dead epochs slots' key'
    unfold Dead
    rw [quiet.kind, quiet.generation]
    exact old

/-! ## The ready set -/

/-- A round of the ready set, and an insert of what may be queued. -/
theorem serve (lawful : summary.Lawful layout.capacity.words)
    (h : Inv epochs summary layout home lanes held world) (input : Ready.Input)
    (ok : world.arena.ready.allowed input)
    (named : ∀ i, input = .insert i →
      i < world.arena.layout.descriptors ∨ (world.arena.slots i).kind = .dispatch) :
    Inv epochs summary layout home lanes held (world.queue summary input) := by
  have capacity : world.arena.ready.store.capacity = layout.capacity := by
    rw [h.busy.queued.capacity, h.same]
  have serves := Set.step_serves (capacity ▸ lawful) h.busy.queued.valid input ok
  have queued : Queued summary (world.queue summary input).arena := by
    refine ⟨serves.capacity.trans h.busy.queued.capacity, serves.valid, ?_⟩
    intro side i on
    rcases serves.old side i on with ⟨side', before⟩ | new
    · exact h.busy.queued.named side' i before
    · exact named i new
  exact ⟨h.same, h.homes, h.pool, h.chains, h.reserved, h.leased,
    ⟨h.busy.dispatch, h.busy.task, h.busy.topology, h.busy.token,
      ⟨h.busy.bound.rooted, h.busy.bound.task, h.busy.bound.endpoint, h.busy.bound.drain,
        h.busy.bound.single, h.busy.bound.drained⟩, queued, h.busy.freed⟩⟩

/-- A slot that is not queued is not dispatched to any more. -/
theorem unbind_dispatch (h : Inv epochs summary layout home lanes held world) {target : Token}
    (mem : (key, target) ∈ world.dispatches)
    (gone : ∀ side, world.arena.ready.store.queued side key.index = false) :
    Inv epochs summary layout home lanes (key :: held)
      { world.store world.arena.pool (world.arena.slots.unbind key.index) with
        dispatches := world.dispatches.filter (·.1 ≠ key) } := by
  have there : key ∈ world.dispatches.map Prod.fst := List.mem_map.mpr ⟨_, mem, rfl⟩
  rcases h.busy.dispatch.live key there with ⟨inside, kind, epoch⟩
  have turn : Becomes world.arena.slots (world.arena.slots.unbind key.index) key.index .reserved :=
    .modify _ rfl rfl
  have rest := h.busy.dispatch.perm (h.busy.dispatch.front there)
  rw [List.filter_map] at rest
  have bound : Bound epochs (world.store world.arena.pool (world.arena.slots.unbind key.index))
      lanes := by
    refine h.busy.bound_congr _ (fun j live => turn.others j ?_)
    rintro rfl
    rw [kind] at live
    rcases live with no | no <;> cases no
  refine ⟨h.same, h.homes.other turn (by rw [kind]; decide) (by decide), h.pool, h.chains, ?_,
    h.leased, ?_⟩
  · exact h.reserved.gain turn (by rw [kind]; decide) (h.same ▸ inside) epoch
  refine ⟨rest.lose turn (by decide), h.busy.task.other turn (by rw [kind]; decide) (by decide),
    h.busy.topology.other turn (by rw [kind]; decide) (by decide), ?_,
    ⟨bound.rooted, bound.task, bound.endpoint, bound.drain, bound.single, bound.drained⟩,
    ⟨h.busy.queued.capacity, h.busy.queued.valid, ?_⟩,
    h.busy.dead_turn turn (by rw [kind]; decide)⟩
  · intro d left
    rcases List.mem_filter.mp left with ⟨old, apart⟩
    rw [decide_eq_true_eq] at apart
    have other : d.1.index ≠ key.index := by
      intro same
      exact apart (h.busy.dispatch.injective there (List.mem_map.mpr ⟨d, old, rfl⟩) same)
    show (world.arena.slots.unbind key.index d.1.index).dispatch = _
    rw [turn.others _ other]
    exact h.busy.token d old
  · intro side i on
    rcases h.busy.queued.named side i on with low | old
    · exact .inl low
    · right
      have other : i ≠ key.index := by
        intro same
        have off := gone side
        rw [← same] at off
        exact absurd (off.symm.trans on) (by decide)
      show (world.arena.slots.unbind key.index i).kind = _
      rw [turn.others i other]
      exact old

/-- A ready slot is taken off the ready set and reserved again. -/
theorem undispatch (lawful : summary.Lawful layout.capacity.words)
    (h : Inv epochs summary layout home lanes held world) {target : Token}
    (mem : (key, target) ∈ world.dispatches) :
    Inv epochs summary layout home lanes (key :: held)
      { (world.store world.arena.pool (world.arena.slots.unbind key.index)).queue summary
          (.clear key.index) with
        dispatches := world.dispatches.filter (·.1 ≠ key) } := by
  have inside := (h.busy.dispatch.live key (List.mem_map.mpr ⟨_, mem, rfl⟩)).1
  have capacity : world.arena.ready.store.capacity = layout.capacity := by
    rw [h.busy.queued.capacity, h.same]
  have ok : world.arena.ready.allowed (.clear key.index) := by
    show key.index < world.arena.ready.store.capacity.raw
    rw [h.busy.queued.capacity]
    exact inside.2
  have serves := Set.step_serves (capacity ▸ lawful) h.busy.queued.valid _ ok
  have cleared := h.serve lawful (.clear key.index) ok (fun _ no => nomatch no)
  exact cleared.unbind_dispatch mem (serves.gone key.index (.inr rfl))

end Inv

/-! ## Tasks that leave -/

namespace Busy

section

variable (h : Busy epochs summary world lanes) (mem : (key, root) ∈ world.tasks)

include h mem

theorem attached_perm :
    (attached world.tasks root).Perm
      (key.index :: attached (world.tasks.filter (·.1 ≠ key)) root) := by
  have nodup : (world.tasks.map Prod.fst).Nodup := h.task.nodup.of_map _
  have erased : world.tasks.filter (·.1 ≠ key) = world.tasks.erase (key, root) := by
    rw [(nodup.of_map _).erase_eq_filter]
    refine List.filter_congr (fun t there => ?_)
    rw [Bool.eq_iff_iff, decide_eq_true_eq]
    have same : t.1 = key ↔ t = (key, root) := by
      constructor
      · exact fun equal => List.inj_on_of_nodup_map nodup there mem equal
      · exact fun equal => congrArg Prod.fst equal
    simpa using not_congr same
  rw [← attached_cons, erased]
  exact ((List.perm_cons_erase mem).filter _).map _

theorem attached_without {r : Key G} (apart : r ≠ root) :
    attached (world.tasks.filter (·.1 ≠ key)) r = attached world.tasks r := by
  have nodup : (world.tasks.map Prod.fst).Nodup := h.task.nodup.of_map _
  unfold attached
  rw [List.filter_filter]
  refine congrArg _ (List.filter_congr (fun t there => ?_))
  rw [Bool.eq_iff_iff, Bool.and_eq_true, decide_eq_true_eq, decide_eq_true_eq]
  refine ⟨And.left, fun same => ⟨same, ?_⟩⟩
  intro equal
  have whole := List.inj_on_of_nodup_map nodup there mem equal
  exact apart (same.symm.trans (congrArg Prod.snd whole))

/-- What is left when a task is given up, with its root or without it. -/
theorem bound_leave {roots : List (Key G)}
    (same : ∀ j, j ≠ key.index → j ≠ root.index → slots' j = world.arena.slots j)
    (others : ∀ r, r ≠ root → (r ∈ roots ↔ r ∈ world.roots))
    (rooted : root ∈ roots → Rooted slots' root.index (attached (world.tasks.filter (·.1 ≠ key))
      root) (decide (root ∉ world.endpoints)) (lanes root.index) world.stamps world.clock)
    (gone : root ∉ roots → attached (world.tasks.filter (·.1 ≠ key)) root = [] ∧ root ∉
      world.endpoints)
    (state : root ∈ roots → (slots' root.index).state.view.draining = (world.arena.slots
      root.index).state.view.draining ∧ (slots' root.index).state.view.active = (world.arena.slots
      root.index).state.view.active) :
    Bound epochs { world.store world.arena.pool slots' with
      roots, tasks := world.tasks.filter (·.1 ≠ key) } lanes := by
  have here := (h.bound.task _ mem).1
  have task_away : ∀ t ∈ world.tasks, t.1.index ≠ root.index := by
    intro t there equal
    have kind := (h.task_live there).2.1
    rw [equal, h.root_kind here] at kind
    cases kind
  have key_away : ∀ t ∈ world.tasks, t.1 ≠ key → t.1.index ≠ key.index := by
    intro t there apart equal
    have first : key ∈ world.tasks.map Prod.fst := List.mem_map.mpr ⟨_, mem, rfl⟩
    have second : t.1 ∈ world.tasks.map Prod.fst := List.mem_map.mpr ⟨t, there, rfl⟩
    exact apart (h.task.injective first second equal)
  have root_away : ∀ r ∈ world.roots, r.index ≠ key.index := by
    intro r there equal
    have kind := h.root_kind there
    rw [equal, (h.task_live mem).2.1] at kind
    cases kind
  refine h.bound.change root ?_ (Nat.le_refl _) rooted ?_ ?_ (fun _ there _ => there) ?_
    (fun d there _ => (h.bound.drain d there).1) h.bound.single
    (fun live on => h.bound.drained root here ((state live).1.symm.trans on))
    fun d there _ => ⟨d, there, rfl⟩
  · intro r there apart
    have old := (others r apart).mp there
    have index : r.index ≠ root.index := fun equal => apart (h.root_injective here old equal)
    refine ⟨old, same _ (root_away r old) index, h.attached_without mem apart, ?_, fun _ _ => rfl,
      rfl, Iff.rfl⟩
    intro x task
    rcases mem_attached.mp task with ⟨k, live, rfl⟩
    refine same _ (key_away _ live ?_) (task_away _ live)
    rintro rfl
    have whole := h.attached_one task (mem_attached.mpr ⟨k, mem, rfl⟩)
    exact apart whole.symm
  · intro t left
    rcases List.mem_filter.mp left with ⟨there, apart⟩
    rw [decide_eq_true_eq] at apart
    have facts := h.bound.task t there
    constructor
    · by_cases equal : t.2 = root
      · rw [equal]
        by_contra out
        have member : t.1.index ∈ attached (world.tasks.filter (·.1 ≠ key)) root :=
          mem_attached.mpr ⟨t.1, equal ▸ left, rfl⟩
        rw [(gone out).1] at member
        cases member
      · exact (others _ equal).mpr facts.1
    · show ((slots' t.1.index).record epochs).topology = _
      rw [same _ (key_away t there apart) (task_away t there)]
      exact facts.2
  · intro r ends
    by_cases equal : r = root
    · subst equal
      by_contra out
      exact (gone out).2 ends
    · exact (others r equal).mpr (h.bound.endpoint r ends)
  · intro d there equal
    have facts := h.bound.drain d there
    rw [equal] at facts
    have stays : root ∈ roots := by
      by_contra out
      exact (gone out).2 facts.1
    show root ∈ world.endpoints ∧ (slots' root.index).state.view.draining = true ∧
      d.side ≠ (slots' root.index).state.view.active ∧ _
    rw [(state stays).1, (state stays).2]
    exact facts

end

end Busy

end Dope.Core.Ready.Arena
