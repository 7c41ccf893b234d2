import Dope.Core.Ready.Arena.Climbs

/-! # Wakes along the parents

Model of `Arena::complete` with `queue_entry`: a task that is queued goes on to its
parent, and so do the parents, until one is queued already or has no parent. A wake
needs one step more than there are parents to climb, and leaves everything on its way
queued.
-/

namespace Dope.Core.Ready.Arena

variable {S G : Type} [DecidableEq G]

/-- Wake a key and the parents after it, in at most `fuel` steps. Returns the parents
that were followed. -/
def World.activate (epochs : Epochs G) (summary : Index.Summary S Side) (live : Nat → G → Bool) :
    Nat → World S G → Key G → Option (Nat × World S G)
  | 0, _, _ => none
  | fuel + 1, world, key =>
      match world.wake epochs summary live key with
      | (.parent (some parent), world) =>
          (activate epochs summary live fuel world parent).map fun (hops, after) =>
            (hops + 1, after)
      | (_, world) => some (0, world)

/-- What a wake that followed so many parents has done to a key and to them: all are
queued up to the first that was queued before, that is a ready slot, or that is stale. -/
inductive Woken (epochs : Epochs G) (live : Nat → G → Bool) (before after : World S G) :
    Nat → Key G → Prop where
  | stale {key : Key G} : before.arena.resolve live key = none →
      Woken epochs live before after 0 key
  | ready {key : Key G} {index : Nat} :
      before.arena.resolve live key = some (.dispatch index) →
      (∃ side, after.arena.ready.store.queued side index = true) →
      Woken epochs live before after 0 key
  | coalesced {key : Key G} {index : Nat} :
      before.arena.resolve live key = some (.task index) →
      (before.arena.slots index).queue ≠ none → (after.arena.slots index).queue ≠ none →
      Woken epochs live before after 0 key
  | queued {n : Nat} {key : Key G} {index : Nat} :
      before.arena.resolve live key = some (.task index) →
      (before.arena.slots index).queue = none → (after.arena.slots index).queue ≠ none →
      Woken epochs live before after n ((before.arena.slots index).record epochs).parent →
      Woken epochs live before after (n + 1) key

variable {epochs : Epochs G} {summary : Index.Summary S Side} {layout : Layout}
  {home : Option Nat → List Nat} {lanes : Nat → Lane → List Nat}
  {held : List (Key G)} {world world' after : World S G} {key : Key G} {live : Nat → G → Bool}

/-! ## One wake -/

/-- One task is queued, and nothing else that a wake looks at changes. -/
structure Wakes (epochs : Epochs G) (world world' : World S G) (index : Nat) : Prop where
  resolve : ∀ live key, world'.arena.resolve live key = world.arena.resolve live key
  parent : ∀ j, (world.arena.slots j).kind = .task →
    ((world'.arena.slots j).record epochs).parent = ((world.arena.slots j).record epochs).parent
  queue : (world'.arena.slots index).queue ≠ none
  others : ∀ j, j ≠ index → (world'.arena.slots j).queue = (world.arena.slots j).queue

namespace Inv

/-- A task that is not queued is pushed, and its parent is next. -/
theorem wake_task (h : Inv epochs summary layout home lanes held world) {root : Key G}
    (mem : (key, root) ∈ world.tasks) (vacant : (world.arena.slots key.index).queue = none) :
    (world.wake epochs summary live key).1 =
        .parent (some ((world.arena.slots key.index).record epochs).parent) ∧
      (world.wake epochs summary live key).2.arena.layout = world.arena.layout ∧
      (world.wake epochs summary live key).2.arena.slots = Topology.push world.arena.slots
        root.index key.index (Topology.state world.arena.slots root.index).active := by
  rcases h.task_root mem with ⟨-, -, -, topology⟩
  unfold World.wake
  rw [h.resolve_live mem]
  dsimp only
  rw [topology]
  unfold Topology.activate
  rw [vacant]
  exact ⟨rfl, rfl, rfl⟩

theorem wake_wakes (h : Inv epochs summary layout home lanes held world) {root : Key G}
    (mem : (key, root) ∈ world.tasks) (vacant : (world.arena.slots key.index).queue = none) :
    Wakes epochs world (world.wake epochs summary live key).2 key.index := by
  rcases h.task_root mem with ⟨here, out, task, -⟩
  have listed := (h.busy.bound.rooted root here).listed
  rcases @Inv.wake_task _ _ _ _ summary _ _ _ _ _ _ live h _ mem vacant with ⟨-, same, pushed⟩
  generalize (Topology.state world.arena.slots root.index).active = side at pushed
  refine ⟨?_, ?_, ?_, ?_⟩
  · intro live' key'
    have kept := @Topology.push_kept _ _ _ _ _ _ side listed out task vacant key'.index
    unfold Arena.resolve
    rw [same, pushed]
    dsimp only
    rw [kept.1, kept.2]
  · intro j old
    have away : j ≠ root.index := by
      rintro rfl
      exact h.root_not_task here old
    rw [pushed]
    unfold Cell.record
    rw [(Topology.push_words listed out task vacant away).1]
  · rw [pushed, Topology.push_queue listed out task vacant, if_pos rfl]
    exact Option.some_ne_none _
  · intro j apart
    rw [pushed, Topology.push_queue listed out task vacant, if_neg apart]

end Inv

/-! ## Earlier worlds -/

/-- What was woken after a task was queued is woken from before, when the climb is shorter
than that of the task. -/
theorem Woken.before {index : Nat} (wakes : Wakes epochs world world' index) {n m : Nat}
    {task : Key G} {live' : Nat → G → Bool}
    (named : world.arena.resolve live' task = some (.task index))
    (high : world.arena.Climbs epochs n task) {hops : Nat}
    (woken : Woken epochs live world' after hops key) (climbs : world.arena.Climbs epochs m key)
    (lower : m < n) : Woken epochs live world after hops key := by
  -- a task on the way is in another slot
  have apart : ∀ {key m i}, world.arena.resolve live key = some (.task i) →
      world.arena.Climbs epochs m key → m < n → i ≠ index := by
    intro key m i found climbs lower same
    subst same
    rw [Arena.resolve_injective found named] at high
    rw [high.unique climbs] at lower
    exact Nat.lt_irrefl _ lower
  induction woken generalizing m with
  | stale none => exact .stale (wakes.resolve .. ▸ none)
  | ready found queued => exact .ready (wakes.resolve .. ▸ found) queued
  | coalesced found busy queued =>
    rw [wakes.resolve] at found
    rw [wakes.others _ (apart found climbs lower)] at busy
    exact .coalesced found busy queued
  | @queued hops key i found vacant queued rest ih =>
    rw [wakes.resolve] at found
    rw [wakes.others _ (apart found climbs lower)] at vacant
    have kind := (Arena.resolve_names found).2.1
    rw [wakes.parent _ kind] at ih
    have edge : world.arena.Parent epochs key ((world.arena.slots i).record epochs).parent :=
      ⟨live, i, found, rfl⟩
    cases climbs with
    | stop none => exact absurd edge (none _)
    | hop edge' below =>
      rw [edge.unique edge'] at below
      exact .queued found vacant queued (ih below (Nat.lt_of_succ_lt lower))

/-! ## All wakes -/

/-- What is kept by a wake and by the wakes that follow. -/
structure Stays (epochs : Epochs G) (summary : Index.Summary S Side) (layout : Layout)
    (world after : World S G) : Prop where
  inv : ∃ home lanes, Inv epochs summary layout home lanes [] after
  elder : Elder epochs world after
  edge : ∀ key parent, after.arena.Parent epochs key parent → world.arena.Parent epochs key parent
  queue : ∀ j, (world.arena.slots j).queue ≠ none → (after.arena.slots j).queue ≠ none

theorem Stays.trans (h : Stays epochs summary layout world world')
    (h' : Stays epochs summary layout world' after) : Stays epochs summary layout world after where
  inv := h'.inv
  elder := h.elder.trans h'.elder
  edge key parent now := h.edge key parent (h'.edge key parent now)
  queue j busy := h'.queue j (h.queue j busy)

theorem Stays.sound (h : Stays epochs summary layout world after) (sound : world.Sound epochs) :
    after.Sound epochs :=
  fun key parent now => (sound key parent (h.edge key parent now)).carried h.elder.carries

namespace Inv

theorem insert_queued (h : Inv epochs summary layout home lanes held world)
    (words : summary.Lawful layout.capacity.words) {i : Nat}
    (inside : i < world.arena.ready.store.capacity.raw) :
    ∃ side, (world.queue summary (.insert i)).arena.ready.store.queued side i = true := by
  have capacity : world.arena.ready.store.capacity = layout.capacity := by
    rw [h.busy.queued.capacity, h.same]
  show ∃ side, (world.arena.ready.store.insert summary world.arena.ready.store.mode.active i).queued
    side i = true
  rcases Store.insert_spec (capacity ▸ words) h.busy.queued.valid
    world.arena.ready.store.mode.active inside with ⟨same, on⟩ | ⟨-, turns, -⟩
  · rw [same]
    exact on
  · exact ⟨_, (turns.queued ..).trans (if_pos ⟨rfl, rfl⟩)⟩

theorem wake_stays (h : Inv epochs summary layout home lanes [] world) (lawful : epochs.Lawful)
    (words : summary.Lawful layout.capacity.words) (live : Nat → G → Bool) (key : Key G)
    (queue : ∀ j, (world.arena.slots j).queue ≠ none →
      ((world.wake epochs summary live key).2.arena.slots j).queue ≠ none) :
    Stays epochs summary layout world (world.wake epochs summary live key).2 := by
  have ok : world.allowed (.wake live key) := trivial
  rcases h.step lawful words ok with ⟨home', lanes', next, -⟩
  refine ⟨⟨home', lanes', next⟩, h.step_elder lawful words ok, ?_, queue⟩
  intro key' parent now
  rcases h.step_edge lawful words ok now with old | ⟨root, local_, no⟩
  · exact old
  · cases no

/-- A wake ends after as many steps as there are parents, and all on its way is queued. -/
theorem activate_spec (lawful : epochs.Lawful) (words : summary.Lawful layout.capacity.words)
    (live : Nat → G → Bool) {fuel n : Nat} (h : Inv epochs summary layout home lanes [] world)
    (sound : world.Sound epochs) (climbs : world.arena.Climbs epochs n key) (enough : n < fuel) :
    ∃ hops after, world.activate epochs summary live fuel key = some (hops, after) ∧ hops ≤ n ∧
      Stays epochs summary layout world after ∧ Woken epochs live world after hops key := by
  induction fuel generalizing world n key home lanes with
  | zero => omega
  | succ fuel ih =>
    cases found : world.arena.resolve live key with
    | none =>
      have ran : world.wake epochs summary live key = (.parent none, world) := by
        unfold World.wake
        rw [found]
      have stays := h.wake_stays lawful words live key (by rw [ran]; exact fun _ => id)
      rw [ran] at stays
      refine ⟨0, world, ?_, Nat.zero_le _, stays, .stale found⟩
      rw [World.activate, ran]
    | some entry =>
      rcases h.resolve_spec live key found with ⟨i, rfl, inside, -⟩ | ⟨rfl, root, mem⟩
      · have ran : world.wake epochs summary live key =
            (.parent none, world.queue summary (.insert i)) := by
          unfold World.wake
          rw [found]
        have stays := h.wake_stays lawful words live key (by rw [ran]; exact fun _ => id)
        rw [ran] at stays
        refine ⟨0, _, ?_, Nat.zero_le _, stays, .ready found (h.insert_queued words inside)⟩
        rw [World.activate, ran]
      · by_cases vacant : (world.arena.slots key.index).queue = none
        · have wakes : Wakes epochs world (world.wake epochs summary live key).2 key.index :=
            h.wake_wakes mem vacant
          have next : (world.wake epochs summary live key).1 =
              .parent (some ((world.arena.slots key.index).record epochs).parent) :=
            (h.wake_task mem vacant).1
          have stays := h.wake_stays lawful words live key ?_
          · have edge : world.arena.Parent epochs key
                ((world.arena.slots key.index).record epochs).parent := ⟨live, _, found, rfl⟩
            cases climbs with
            | stop none => exact absurd edge (none _)
            | @hop below _ parent edge' rest =>
              cases edge'.unique edge
              rcases stays.elder.climbs sound (sound _ _ edge) rest with ⟨m, less, rest'⟩
              rcases stays.inv with ⟨home', lanes', inv⟩
              rcases ih inv (stays.sound sound) rest' (by omega) with
                ⟨hops, after, ran, few, later, woken⟩
              refine ⟨hops + 1, after, ?_, by omega, stays.trans later, ?_⟩
              · have both : world.wake epochs summary live key =
                    (.parent (some ((world.arena.slots key.index).record epochs).parent),
                      (world.wake epochs summary live key).2) := Prod.ext next rfl
                rw [World.activate, both]
                dsimp only
                rw [ran]
                rfl
              · exact .queued found vacant (later.queue _ wakes.queue)
                  (woken.before wakes found (.hop edge rest) rest (Nat.lt_succ_self _))
          · intro j busy
            by_cases same : j = key.index
            · rw [same]
              exact wakes.queue
            · rw [wakes.others j same]
              exact busy
        · have ran : world.wake epochs summary live key = (.parent none, world) := by
            rcases h.task_root mem with ⟨-, -, -, topology⟩
            unfold World.wake
            rw [found]
            dsimp only
            unfold Topology.activate
            cases queue : (world.arena.slots key.index).queue with
            | none => exact absurd queue vacant
            | some side => rfl
          have stays := h.wake_stays lawful words live key
            (by rw [ran]; exact fun _ => id)
          rw [ran] at stays
          refine ⟨0, world, ?_, Nat.zero_le _, stays, .coalesced found vacant vacant⟩
          rw [World.activate, ran]

end Inv

theorem World.activate_more (live : Nat → G → Bool) {fuel : Nat} (more : Nat)
    {answer : Nat × World S G} (ran : world.activate epochs summary live fuel key = some answer) :
    world.activate epochs summary live (fuel + more) key = some answer := by
  induction fuel generalizing world key answer with
  | zero => cases ran
  | succ fuel ih =>
    rw [World.activate] at ran
    rw [Nat.succ_add, World.activate]
    generalize world.wake epochs summary live key = turn at ran ⊢
    rcases turn with ⟨output, next⟩
    cases output with
    | parent parent =>
      cases parent with
      | none => exact ran
      | some parent =>
        dsimp only at ran ⊢
        rcases Option.map_eq_some_iff.mp ran with ⟨rest, below, same⟩
        rw [ih below, Option.map_some, same]
    | _ => exact ran

end Dope.Core.Ready.Arena
