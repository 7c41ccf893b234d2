import Dope.Core.Ready.Arena.Moves

/-! # Moves of live slots

How a reserved slot becomes one that is dispatched to, a task or a topology, and
back, and what the operations on the tasks of one root change. Other roots are
left alone by each of them.
-/

namespace Dope.Core.Ready.Arena

open Function (update update_eq_self update_of_ne update_self)

variable {S G : Type} [DecidableEq G] {epochs : Epochs G} {summary : Index.Summary S Side}
  {layout : Layout} {home : Option Nat → List Nat} {lanes lanes' : Nat → Lane → List Nat}
  {held : List (Key G)} {world world' : World S G} {slots' : Slots G}

/-! ## Frames -/

/-- A root that an operation on another root does not see. -/
structure Framed (world world' : World S G) (lanes lanes' : Nat → Lane → List Nat)
    (root : Key G) : Prop where
  old : root ∈ world.roots
  self : world'.arena.slots root.index = world.arena.slots root.index
  tasks : attached world'.tasks root = attached world.tasks root
  cells : ∀ x ∈ attached world.tasks root, world'.arena.slots x = world.arena.slots x
  times : ∀ x ∈ attached world.tasks root, world'.stamps x = world.stamps x
  lanes : lanes' root.index = lanes root.index
  endpoint : root ∈ world'.endpoints ↔ root ∈ world.endpoints

namespace Bound

/-- Only what is said of one root has to be shown again. -/
theorem change (h : Bound epochs world lanes) (root : Key G)
    (frame : ∀ r ∈ world'.roots, r ≠ root → Framed world world' lanes lanes' r)
    (later : world.clock ≤ world'.clock)
    (rooted : root ∈ world'.roots →
      Rooted world'.arena.slots root.index (attached world'.tasks root)
        (decide (root ∉ world'.endpoints)) (lanes' root.index) world'.stamps world'.clock)
    (task : ∀ t ∈ world'.tasks, t.2 ∈ world'.roots ∧
      ((world'.arena.slots t.1.index).record epochs).topology = t.2.index)
    (endpoint : ∀ r ∈ world'.endpoints, r ∈ world'.roots)
    (old : ∀ d ∈ world'.drains, d.root ≠ root → d ∈ world.drains)
    (drain : ∀ d ∈ world'.drains, d.root = root → root ∈ world'.endpoints ∧
      (world'.arena.slots root.index).state.view.draining = true ∧
      d.side ≠ (world'.arena.slots root.index).state.view.active ∧
      ∀ x ∈ lanes' root.index d.side, x ∉ d.activated)
    (stays : ∀ d ∈ world'.drains, d.root ≠ root → d.root ∈ world'.endpoints)
    (single : (world'.drains.map Drain.root).Nodup)
    (drained : root ∈ world'.roots →
      (world'.arena.slots root.index).state.view.draining = true →
      ∃ d ∈ world'.drains, d.root = root)
    (kept : ∀ d ∈ world.drains, d.root ≠ root → ∃ d' ∈ world'.drains, d'.root = d.root) :
    Bound epochs world' lanes' where
  rooted := by
    intro r mem
    by_cases same : r = root
    · subst same
      exact rooted mem
    · have framed := frame r mem same
      rw [framed.tasks, framed.lanes, decide_eq_decide.mpr (not_congr framed.endpoint)]
      exact (h.rooted r framed.old).congr framed.self framed.cells framed.times later
  task := task
  endpoint := endpoint
  drain := by
    intro d mem
    by_cases same : d.root = root
    · have facts := drain d mem same
      rw [same]
      exact facts
    · have here := stays d mem same
      have framed := frame d.root (endpoint _ here) same
      have facts := h.drain d (old d mem same)
      rw [framed.self, framed.lanes]
      exact ⟨here, facts.2⟩
  single := single
  drained := by
    intro r mem on
    by_cases same : r = root
    · subst same
      exact drained mem on
    · have framed := frame r mem same
      rcases h.drained r framed.old (framed.self ▸ on) with ⟨d, there, rfl⟩
      exact kept d there same

end Bound

variable {root : Key G} {endpoints : List (Key G)} {drains : List (Drain G)}

/-- The tasks of one root are edited, and what is kept of the root. -/
theorem Busy.edit (h : Busy epochs summary world lanes) (mem : root ∈ world.roots)
    (quiet : Quiet world.arena.slots slots')
    (others : ∀ j, j ≠ root.index → j ∉ attached world.tasks root → slots' j = world.arena.slots j)
    (words : ∀ j, j ≠ root.index → (slots' j).word1 = (world.arena.slots j).word1)
    {l : Lane → List Nat} {stamps : Nat → Nat} {clock : Nat}
    (rooted : Rooted slots' root.index (attached world.tasks root) (decide (root ∉ endpoints)) l
      stamps clock) (times : ∀ x, x ∉ attached world.tasks root → stamps x = world.stamps x)
    (later : world.clock ≤ clock)
    (endpoint : ∀ r ∈ world.roots, r ≠ root → (r ∈ endpoints ↔ r ∈ world.endpoints))
    (inside : ∀ r ∈ endpoints, r ∈ world.roots)
    (old : ∀ d ∈ drains, d.root ≠ root → d ∈ world.drains)
    (drain : ∀ d ∈ drains, d.root = root → root ∈ endpoints ∧ (slots'
      root.index).state.view.draining = true ∧ d.side ≠ (slots' root.index).state.view.active ∧ ∀
      x ∈ l d.side, x ∉ d.activated) (single : (drains.map Drain.root).Nodup)
    (drained : (slots' root.index).state.view.draining = true → ∃ d ∈ drains, d.root = root)
    (kept : ∀ d ∈ world.drains, d.root ≠ root → ∃ d' ∈ drains, d'.root = d.root) :
    Busy epochs summary
      { world.store world.arena.pool slots' with endpoints, drains, stamps, clock }
      (update lanes root.index l) := by
  have away : ∀ r ∈ world.roots, r ≠ root → r.index ≠ root.index :=
    fun r here apart same => apart (h.root_injective mem here same)
  have bound : Bound epochs
      { world.store world.arena.pool slots' with endpoints, drains, stamps, clock }
      (update lanes root.index l) := by
    refine h.bound.change root ?_ later ?_ ?_ inside old ?_ ?_ single (fun _ => drained) kept
    · intro r here apart
      refine ⟨here, others _ (away r here apart) (h.root_not_attached here), rfl, ?_, ?_,
        update_of_ne (away r here apart) .., endpoint r here apart⟩
      · intro x task
        refine others x (fun same => h.root_not_attached mem (same ▸ task)) ?_
        exact fun task' => apart (h.attached_one task' task)
      · exact fun x task => times x fun task' => apart (h.attached_one task' task)
    · intro _
      rw [update_self]
      exact rooted
    · intro t here
      have facts := h.bound.task t here
      refine ⟨facts.1, ?_⟩
      have apart : t.1.index ≠ root.index := by
        intro same
        have kind := (h.task_live here).2.1
        rw [same, h.root_kind mem] at kind
        cases kind
      show bindingRoot (slots' t.1.index).word1 = _
      rw [words _ apart]
      exact facts.2
    · intro d here same
      rw [update_self]
      exact drain d here same
    · intro d here apart
      have facts := h.bound.drain d (old d here apart)
      exact (endpoint _ (h.bound.endpoint _ facts.1) apart).mpr facts.1
  refine ⟨h.dispatch.congr quiet.kind quiet.generation, h.task.congr quiet.kind quiet.generation,
    h.topology.congr quiet.kind quiet.generation, ?_, bound,
    ⟨h.queued.capacity, h.queued.valid, ?_⟩, ?_⟩
  · intro d here
    have kind := (h.dispatch.live d.1 (List.mem_map.mpr ⟨d, here, rfl⟩)).2.1
    show (slots' d.1.index).dispatch = _
    rw [quiet.others _ (by rw [kind]; decide) (by rw [kind]; decide)]
    exact h.token d here
  · intro side i on
    show _ ∨ (slots' i).kind = .dispatch
    rw [quiet.kind]
    exact h.queued.named side i on
  · exact h.dead_congr fun j => .inr ⟨quiet.generation j, fun retired => (quiet.kind j).trans retired⟩

/-- What only concerns live slots leaves the reserved and the free ones alone. -/
theorem Inv.quiet (h : Inv epochs summary layout home lanes held world)
    (quiet : Quiet world.arena.slots slots') {tasks : List (Key G × Key G)} {stamps : Nat → Nat}
    {clock : Nat} (busy : Busy epochs summary
      { world.store world.arena.pool slots' with tasks, endpoints, drains, stamps, clock } lanes') :
    Inv epochs summary layout home lanes' held
      { world.store world.arena.pool slots' with tasks, endpoints, drains, stamps, clock } :=
  ⟨h.same, h.homes.quiet quiet, h.pool, h.chains, h.reserved.congr quiet.kind quiet.generation,
    h.leased, busy⟩

/-! ## Tasks -/

theorem Topology.removedState_view (state : State) (side : Lane) (next : Option Nat) :
    (removedState state side next).view.draining = state.view.draining ∧
      (removedState state side next).view.active = state.view.active := by
  unfold removedState
  split
  · rw [State.setPaused_view]
    exact ⟨rfl, rfl⟩
  · exact ⟨rfl, rfl⟩

namespace Inv

theorem task_root (h : Inv epochs summary layout home lanes held world) {key : Key G}
    (mem : (key, root) ∈ world.tasks) :
    root ∈ world.roots ∧ root.index ∉ attached world.tasks root ∧
      key.index ∈ attached world.tasks root ∧
      ((world.arena.slots key.index).record epochs).topology = root.index := by
  have facts := h.busy.bound.task _ mem
  exact ⟨facts.1, h.busy.root_not_attached facts.1, mem_attached.mpr ⟨key, mem, rfl⟩, facts.2⟩

/-- The edits of a root and of its tasks keep kinds and generations. -/
theorem quiet_of (h : Inv epochs summary layout home lanes held world) (mem : root ∈ world.roots)
    (others : ∀ j, j ≠ root.index → j ∉ attached world.tasks root → slots' j = world.arena.slots j)
    (kept : ∀ j, (slots' j).kind = (world.arena.slots j).kind ∧ (slots' j).generation =
      (world.arena.slots j).generation) : Quiet world.arena.slots slots' := by
  refine ⟨fun j => (kept j).1, fun j => (kept j).2, ?_⟩
  intro j task topology
  refine others j ?_ (fun here => task (h.busy.attached_kind here))
  rintro rfl
  exact topology (h.busy.root_kind mem)

/-- A task that is not queued is activated into the active lane of its root. -/
theorem push (h : Inv epochs summary layout home lanes held world) {key root : Key G}
    (mem : (key, root) ∈ world.tasks) (vacant : (world.arena.slots key.index).queue = none)
    {side : Lane} (active : (world.arena.slots root.index).state.active = side) :
    Inv epochs summary layout home
      (update lanes root.index
        (update (lanes root.index) side (lanes root.index side ++ [key.index]))) held
      { world.store world.arena.pool (Topology.push world.arena.slots root.index key.index side) with
        drains := world.drains.map fun drain =>
          if drain.root.index = root.index then
            { drain with activated := key.index :: drain.activated } else drain
        stamps := update world.stamps key.index world.clock
        clock := world.clock + 1 } := by
  rcases h.task_root mem with ⟨here, out, task, -⟩
  have old := h.busy.bound.rooted root here
  have others : ∀ j, j ≠ root.index → j ∉ attached world.tasks root →
      Topology.push world.arena.slots root.index key.index side j = world.arena.slots j :=
    fun j away apart => Topology.push_other old.listed out task vacant away apart
  have quiet := h.quiet_of here others (Topology.push_kept old.listed out task vacant)
  have unlinked : ∀ side', key.index ∉ lanes root.index side' := by
    intro side' there
    rw [((old.listed.member side' key.index).mp there).2] at vacant
    cases vacant
  have kept : ∀ d ∈ world.drains, ∃ d' ∈ world.drains.map fun drain =>
      if drain.root.index = root.index then
        { drain with activated := key.index :: drain.activated } else drain, d'.root = d.root := by
    intro d before
    refine ⟨_, List.mem_map.mpr ⟨d, before, rfl⟩, ?_⟩
    split <;> rfl
  refine h.quiet quiet (h.busy.edit here quiet others
    (fun j away => (Topology.push_words old.listed out task vacant away).2)
    (old.push out task vacant (h.busy.small root) active) ?_ (Nat.le_succ _) (fun _ _ _ => Iff.rfl)
    h.busy.bound.endpoint ?_ ?_ ?_ ?_ fun d before _ => kept d before)
  · intro x apart
    have other : x ≠ key.index := fun same => apart (same ▸ task)
    exact update_of_ne other ..
  · intro d mem apart
    rcases List.mem_map.mp mem with ⟨drain, before, rfl⟩
    split
    · rename_i same
      rw [if_pos same] at apart
      have equal := h.busy.root_injective here
        (h.busy.bound.endpoint _ (h.busy.bound.drain _ before).1) same
      exact absurd equal apart
    · exact before
  · intro d mem same
    rcases List.mem_map.mp mem with ⟨drain, before, rfl⟩
    have facts := h.busy.bound.drain drain before
    have equal : drain.root = root := by
      split at same <;> exact same
    rw [if_pos (congrArg Key.index equal)]
    rw [equal] at facts
    rw [Topology.push_state old.listed out task vacant]
    refine ⟨facts.1, facts.2.1, facts.2.2.1, ?_⟩
    intro x there
    have apart : drain.side ≠ side := active ▸ facts.2.2.1
    rw [update_of_ne apart] at there
    intro now
    rcases List.mem_cons.mp now with rfl | before
    · exact unlinked drain.side there
    · exact facts.2.2.2 x there before
  · have roots : (world.drains.map fun drain =>
        if drain.root.index = root.index then
          { drain with activated := key.index :: drain.activated } else drain).map Drain.root =
        world.drains.map Drain.root := by
      rw [List.map_map]
      refine List.map_congr_left (fun d _ => ?_)
      show Drain.root (ite _ _ _) = _
      split <;> rfl
    rw [roots]
    exact h.busy.bound.single
  · intro on
    rw [Topology.push_state old.listed out task vacant] at on
    rcases h.busy.bound.drained root here on with ⟨d, before, rfl⟩
    exact kept d before

section

variable (h : Inv epochs summary layout home lanes held world)

include h

theorem unlink {index : Nat} {side : Lane} (mem : root ∈ world.roots)
    (there : index ∈ lanes root.index side) :
    Inv epochs summary layout home
      (update lanes root.index
        (update (lanes root.index) side ((lanes root.index side).erase index))) held
      (world.store world.arena.pool (Topology.remove world.arena.slots root.index index side)) := by
  have out : root.index ∉ attached world.tasks root := h.busy.root_not_attached mem
  have old := h.busy.bound.rooted root mem
  have others : ∀ j, j ≠ root.index → j ∉ attached world.tasks root →
      Topology.remove world.arena.slots root.index index side j = world.arena.slots j :=
    fun j away apart => Topology.remove_other old.listed out there away apart
  have quiet := h.quiet_of mem others (Topology.remove_kept old.listed out there)
  have next := old.remove out there (h.busy.small root)
  have state := Topology.remove_state old.listed out there
  have view := Topology.removedState_view (world.arena.slots root.index).state side
    ((lanes root.index side).erase index).head?
  refine h.quiet quiet (h.busy.edit mem quiet others
    (fun j away => (Topology.remove_words old.listed out there away).2) next (fun _ _ => rfl)
    (Nat.le_refl _) (fun _ _ _ => Iff.rfl) h.busy.bound.endpoint (fun _ here _ => here) ?_
    h.busy.bound.single (fun on => h.busy.bound.drained root mem (view.1 ▸ state ▸ on))
    fun d here _ => ⟨d, here, rfl⟩)
  intro d here same
  have facts := h.busy.bound.drain d here
  rw [same] at facts
  rw [state, view.1, view.2]
  refine ⟨facts.1, facts.2.1, facts.2.2.1, ?_⟩
  intro x left
  refine facts.2.2.2 x ?_
  by_cases equal : d.side = side
  · rw [equal, update_self] at left
    rw [equal]
    exact List.mem_of_mem_erase left
  · rw [update_of_ne equal] at left
    exact left

theorem restate (mem : root ∈ world.roots) {state : State}
    (rooted : Rooted (Topology.setState world.arena.slots root.index state) root.index (attached
      world.tasks root) (decide (root ∉ endpoints)) (lanes root.index) world.stamps world.clock)
    (endpoint : ∀ r ∈ world.roots, r ≠ root → (r ∈ endpoints ↔ r ∈ world.endpoints))
    (inside : ∀ r ∈ endpoints, r ∈ world.roots)
    (old : ∀ d ∈ drains, d.root ≠ root → d ∈ world.drains)
    (drain : ∀ d ∈ drains, d.root = root → root ∈ endpoints ∧ state.view.draining = true ∧ d.side
      ≠ state.view.active ∧ ∀ x ∈ lanes root.index d.side, x ∉ d.activated)
    (single : (drains.map Drain.root).Nodup)
    (drained : state.view.draining = true → ∃ d ∈ drains, d.root = root)
    (kept : ∀ d ∈ world.drains, d.root ≠ root → ∃ d' ∈ drains, d'.root = d.root) :
    Inv epochs summary layout home lanes held
      { world.store world.arena.pool (Topology.setState world.arena.slots root.index state) with
        endpoints, drains } := by
  have self : Topology.setState world.arena.slots root.index state root.index =
      (world.arena.slots root.index).setState state := Slots.modify_self ..
  have others : ∀ j, j ≠ root.index →
      Topology.setState world.arena.slots root.index state j = world.arena.slots j :=
    fun j apart => Slots.modify_other _ _ apart
  have quiet : Quiet world.arena.slots (Topology.setState world.arena.slots root.index state) :=
    .modify _ (.inr (h.busy.root_kind mem)) rfl rfl
  have busy := h.busy.edit mem quiet (fun j apart _ => others j apart)
    (fun j apart => by rw [others j apart]) rooted (fun _ _ => rfl) (Nat.le_refl _) endpoint inside
    old (by rw [self]; exact drain) single (by rw [self]; exact drained) kept
  rw [update_eq_self] at busy
  exact h.quiet quiet busy

theorem begin (mem : root ∈ world.endpoints) :
    Inv epochs summary layout home lanes held (world.begin root).2 := by
  have here := h.busy.bound.endpoint root mem
  have out : root.index ∉ attached world.tasks root := h.busy.root_not_attached here
  rcases (h.busy.bound.rooted root here).begin_spec out with
    ⟨none, -⟩ | ⟨state, started, idle, -, draining, active, -, rooted⟩
  · unfold World.begin
    rw [none]
    exact h
  · unfold World.begin
    rw [started]
    have apart : ∀ d ∈ world.drains, d.root ≠ root := by
      intro d before same
      have busy := (h.busy.bound.drain d before).2.1
      rw [same, idle] at busy
      cases busy
    refine h.restate here rooted (fun _ _ _ => Iff.rfl) h.busy.bound.endpoint ?_ ?_ ?_
      (fun _ => ⟨_, List.mem_cons_self, rfl⟩) fun d there _ => ⟨d, List.mem_cons_of_mem _ there, rfl⟩
    · intro d now other
      rcases List.mem_cons.mp now with rfl | before
      · exact absurd rfl other
      · exact before
    · intro d now same
      rcases List.mem_cons.mp now with rfl | before
      · refine ⟨mem, draining, ?_, fun _ _ no => nomatch no⟩
        rw [active]
        exact (Lane.flip_ne _).symm
      · exact absurd same (apart d before)
    · refine List.nodup_cons.mpr ⟨?_, h.busy.bound.single⟩
      intro before
      rcases List.mem_map.mp before with ⟨d, there, same⟩
      exact apart d there same

theorem finish {side : Lane} (mem : ∃ drain ∈ world.drains, drain.root = root ∧ drain.side = side) :
    Inv epochs summary layout home lanes held (world.finish root side) := by
  rcases mem with ⟨drain, before, rfl, rfl⟩
  have ends := (h.busy.bound.drain drain before).1
  have here := h.busy.bound.endpoint _ ends
  have out : drain.root.index ∉ attached world.tasks drain.root := h.busy.root_not_attached here
  -- the drain that ends is the only one of its root
  have gone : ∀ d ∈ world.drains.filter fun d => (d.root, d.side) ≠ (drain.root, drain.side),
      d.root ≠ drain.root := by
    intro d left same
    rcases List.mem_filter.mp left with ⟨there, apart⟩
    have equal := List.inj_on_of_nodup_map h.busy.bound.single there before same
    rw [equal, decide_eq_true_eq] at apart
    exact apart rfl
  refine h.restate here ((h.busy.bound.rooted _ here).finish out) (fun _ _ _ => Iff.rfl)
    h.busy.bound.endpoint (fun d left _ => (List.mem_filter.mp left).1) ?_ ?_ ?_ ?_
  · intro d left same
    exact absurd same (gone d left)
  · exact h.busy.bound.single.sublist (List.filter_sublist.map _)
  · intro on
    have view := State.finish_view (world.arena.slots drain.root.index).state
    cases (congrArg (·.draining) view).symm.trans on
  · intro d there apart
    refine ⟨d, List.mem_filter.mpr ⟨there, ?_⟩, rfl⟩
    simp [apart]

theorem shut (mem : root ∈ world.endpoints) (idle : ∀ drain ∈ world.drains, drain.root ≠ root)
    (some : attached world.tasks root ≠ []) :
    Inv epochs summary layout home lanes held
      { world.store world.arena.pool (Topology.setState world.arena.slots root.index
          (world.arena.slots root.index).state.close) with
        endpoints := world.endpoints.filter (· ≠ root) } := by
  have here := h.busy.bound.endpoint root mem
  have out : root.index ∉ attached world.tasks root := h.busy.root_not_attached here
  have closed := (h.busy.bound.rooted root here).close out some
  have gone : root ∉ world.endpoints.filter (· ≠ root) := by simp
  refine h.restate here ?_ ?_ (fun r left => h.busy.bound.endpoint r (List.mem_filter.mp left).1)
    (fun _ before _ => before) ?_ h.busy.bound.single ?_ fun d there _ => ⟨d, there, rfl⟩
  · rw [decide_eq_true gone]
    exact closed
  · intro r _ apart
    rw [List.mem_filter, decide_eq_true_eq]
    exact and_iff_left apart
  · intro d before same
    exact absurd same (idle d before)
  · rw [State.close_view]
    exact h.busy.bound.drained root here

end

end Inv

end Dope.Core.Ready.Arena
