import Mathlib.Algebra.Group.Nat.Defs
import Dope.Core.Ready.Arena.Filed
import Dope.Core.Ready.Arena.Tasks

/-! # Moves of slots

What holds of an arena and of the owners of its slots, and how each operation of
the sources moves one slot between the chains, the reserved ones and the live
ones. A reserved slot that an operation has in its hands is owned by nobody else.
-/

namespace Dope.Core.Ready.Arena

open Function (update update_of_ne update_self)

variable {S G : Type} [DecidableEq G]

/-- The indices of the tasks that are attached to a root. -/
def attached (tasks : List (Key G × Key G)) (root : Key G) : List Nat :=
  (tasks.filter (·.2 = root)).map (·.1.index)

/-- The roots, their tasks and their drains. -/
structure Bound (epochs : Epochs G) (world : World S G) (lanes : Nat → Lane → List Nat) :
    Prop where
  rooted : ∀ root ∈ world.roots,
    Rooted world.arena.slots root.index (attached world.tasks root)
      (decide (root ∉ world.endpoints)) (lanes root.index) world.stamps world.clock
  task : ∀ t ∈ world.tasks, t.2 ∈ world.roots ∧
    ((world.arena.slots t.1.index).record epochs).topology = t.2.index
  endpoint : ∀ root ∈ world.endpoints, root ∈ world.roots
  drain : ∀ d ∈ world.drains, d.root ∈ world.endpoints ∧
    (world.arena.slots d.root.index).state.view.draining = true ∧
    d.side ≠ (world.arena.slots d.root.index).state.view.active ∧
    ∀ x ∈ lanes d.root.index d.side, x ∉ d.activated
  single : (world.drains.map Drain.root).Nodup
  drained : ∀ root ∈ world.roots, (world.arena.slots root.index).state.view.draining = true →
    ∃ d ∈ world.drains, d.root = root

/-- The ready set names descriptors and dispatch slots. -/
structure Queued (summary : Index.Summary S Side) (arena : Arena S G) : Prop where
  capacity : arena.ready.store.capacity = arena.layout.capacity
  valid : arena.ready.store.Valid summary
  named : ∀ side i, arena.ready.store.queued side i = true →
    i < arena.layout.descriptors ∨ (arena.slots i).kind = .dispatch

/-- A generation comes after one that was not the last. -/
def Advances (epochs : Epochs G) (epoch epoch' : G) : Prop :=
  (epochs.raw epoch).toNat < (epochs.raw epoch').toNat ∧ epochs.next epoch ≠ none

/-- The key was good once and is not any more. -/
def Dead (epochs : Epochs G) (slots : Slots G) (key : Key G) : Prop :=
  Advances epochs key.epoch (slots key.index).generation ∨
    (slots key.index).generation = key.epoch ∧ (slots key.index).kind = .retired

/-- The slots that are dispatched to, tasks, topologies and retired. -/
structure Busy (epochs : Epochs G) (summary : Index.Summary S Side) (world : World S G)
    (lanes : Nat → Lane → List Nat) : Prop where
  dispatch : Owns world.arena.layout world.arena.slots .dispatch (world.dispatches.map Prod.fst)
  task : Owns world.arena.layout world.arena.slots .task (world.tasks.map Prod.fst)
  topology : Owns world.arena.layout world.arena.slots .topology world.roots
  token : ∀ d ∈ world.dispatches, (world.arena.slots d.1.index).dispatch = some d.2
  bound : Bound epochs world lanes
  queued : Queued summary world.arena
  freed : ∀ key ∈ world.freed,
    world.arena.layout.Inside key.index ∧ Dead epochs world.arena.slots key

/-- The slots that are reserved, with those that an operation has in its hands. -/
def reserved (held : List (Key G)) (world : World S G) : List (Key G) :=
  held ++ (world.admissions ++ world.leases.map Prod.fst)

structure Inv (epochs : Epochs G) (summary : Index.Summary S Side) (layout : Layout)
    (home : Option Nat → List Nat) (lanes : Nat → Lane → List Nat) (held : List (Key G))
    (world : World S G) : Prop where
  same : world.arena.layout = layout
  homes : Homes layout world.arena.slots home
  pool : world.arena.pool = poolOf (home none)
  chains : ∀ id, world.chains id = none ∧ home (some id) = [] ∨
    world.chains id = some (chainOf (home (some id)))
  reserved : Owns layout world.arena.slots .reserved (reserved held world)
  leased : ∀ l ∈ world.leases, world.chains l.2 ≠ none
  busy : Busy epochs summary world lanes

/-! ## Slots that are not busy -/

variable {key root : Key G} {id x : Nat} {root' : Key G}

section
variable {epochs : Epochs G} {summary : Index.Summary S Side} {layout : Layout}
  {home : Option Nat → List Nat} {lanes : Nat → Lane → List Nat} {held : List (Key G)}
  {world : World S G} {slots' : Slots G}

def Kind.IsBusy (kind : Kind) : Prop := kind = .dispatch ∨ kind = .task ∨ kind = .topology

theorem mem_attached {tasks : List (Key G × Key G)} :
    x ∈ attached tasks root ↔ ∃ key, (key, root) ∈ tasks ∧ key.index = x := by
  unfold attached
  rw [List.mem_map]
  constructor
  · rintro ⟨⟨key, root'⟩, mem, rfl⟩
    rcases List.mem_filter.mp mem with ⟨here, same⟩
    rw [decide_eq_true_eq] at same
    exact ⟨key, same ▸ here, rfl⟩
  · rintro ⟨key, mem, rfl⟩
    exact ⟨(key, root), List.mem_filter.mpr ⟨mem, by simp⟩, rfl⟩

namespace Busy

section

variable (h : Busy epochs summary world lanes)

include h

theorem root_kind (mem : root ∈ world.roots) :
    (world.arena.slots root.index).kind = .topology := (h.topology.live root mem).2.1

theorem task_live {t : Key G × Key G} (mem : t ∈ world.tasks) :
    world.arena.layout.Inside t.1.index ∧ (world.arena.slots t.1.index).kind = .task ∧
      (world.arena.slots t.1.index).generation = t.1.epoch :=
  h.task.live t.1 (List.mem_map.mpr ⟨t, mem, rfl⟩)

theorem attached_kind (mem : x ∈ attached world.tasks root) :
    (world.arena.slots x).kind = .task := by
  rcases mem_attached.mp mem with ⟨key, here, rfl⟩
  exact (h.task_live here).2.1

theorem root_not_attached (mem : root ∈ world.roots) : root.index ∉ attached world.tasks root' := by
  intro there
  have kind := h.attached_kind there
  rw [h.root_kind mem] at kind
  cases kind

theorem attached_one (mem : x ∈ attached world.tasks root) (mem' : x ∈ attached world.tasks root') :
    root' = root := by
  rcases mem_attached.mp mem with ⟨key, here, rfl⟩
  rcases mem_attached.mp mem' with ⟨key', here', same⟩
  have nodup := h.task.nodup
  rw [List.map_map] at nodup
  have equal := List.inj_on_of_nodup_map nodup here' here same
  exact congrArg Prod.snd equal

theorem small (root : Key G) : ∀ x ∈ attached world.tasks root, x + 1 < 2 ^ 16 := by
  intro x mem
  rcases mem_attached.mp mem with ⟨key, here, rfl⟩
  exact Homes.fits _ (h.task_live here).1

theorem root_injective (mem : root ∈ world.roots) (mem' : root' ∈ world.roots)
    (same : root'.index = root.index) :
    root' = root := h.topology.injective mem mem' same

theorem bound_congr (pool : Pool)
    (live : ∀ j, (world.arena.slots j).kind = .task ∨ (world.arena.slots j).kind = .topology →
      slots' j = world.arena.slots j) : Bound epochs (world.store pool slots') lanes := by
  have root : ∀ root ∈ world.roots, slots' root.index = world.arena.slots root.index :=
    fun root mem => live _ (.inr (h.root_kind mem))
  refine ⟨?_, ?_, h.bound.endpoint, ?_, h.bound.single, ?_⟩
  · intro r mem
    exact (h.bound.rooted r mem).congr (root r mem)
      (fun x here => live x (.inl (h.attached_kind here))) (fun _ _ => rfl) (Nat.le_refl _)
  · intro t mem
    show _ ∧ ((slots' t.1.index).record epochs).topology = _
    rw [live _ (.inl (h.task_live mem).2.1)]
    exact h.bound.task t mem
  · intro d mem
    have old := h.bound.drain d mem
    show _ ∧ (slots' d.root.index).state.view.draining = true ∧
      d.side ≠ (slots' d.root.index).state.view.active ∧ _
    rw [root d.root (h.bound.endpoint _ old.1)]
    exact old
  · intro r mem on
    exact h.bound.drained r mem (root r mem ▸ on)

theorem dead_congr
    (dead : ∀ j, Advances epochs (world.arena.slots j).generation (slots' j).generation ∨ (slots'
      j).generation = (world.arena.slots j).generation ∧ ((world.arena.slots j).kind = .retired →
      (slots' j).kind = .retired)) :
    ∀ key ∈ world.freed, world.arena.layout.Inside key.index ∧ Dead epochs slots' key := by
  intro key mem
  rcases h.freed key mem with ⟨inside, less | ⟨same, retired⟩⟩
  · refine ⟨inside, .inl ?_⟩
    rcases dead key.index with more | ⟨equal, -⟩
    · exact ⟨Nat.lt_trans less.1 more.1, less.2⟩
    · rw [equal]
      exact less
  · refine ⟨inside, ?_⟩
    rcases dead key.index with more | ⟨equal, stay⟩
    · left
      rw [← same]
      exact more
    · exact .inr ⟨equal.trans same, stay retired⟩

/-- A slot that turns is not retired, and keeps its generation. -/
theorem dead_turn {index : Nat} {kind : Kind} (turn : Becomes world.arena.slots slots' index kind)
    (used : (world.arena.slots index).kind ≠ .retired) :
    ∀ key ∈ world.freed, world.arena.layout.Inside key.index ∧ Dead epochs slots' key := by
  refine h.dead_congr (fun j => .inr ?_)
  by_cases here : j = index
  · rw [here]
    exact ⟨turn.generation, fun retired => absurd retired used⟩
  · rw [turn.others j here]
    exact ⟨rfl, id⟩

/-- Slots that are not busy may change as they like, within their generations. -/
theorem congr (pool : Pool)
    (live : ∀ j, (world.arena.slots j).kind.IsBusy → slots' j = world.arena.slots j)
    (none : ∀ j, (slots' j).kind.IsBusy → (world.arena.slots j).kind.IsBusy)
    (dead : ∀ j, Advances epochs (world.arena.slots j).generation (slots' j).generation ∨ (slots'
      j).generation = (world.arena.slots j).generation ∧ ((world.arena.slots j).kind = .retired →
      (slots' j).kind = .retired)) : Busy epochs summary (world.store pool slots') lanes := by
  have owns : ∀ kind keys, kind.IsBusy →
      Owns world.arena.layout world.arena.slots kind keys →
      Owns world.arena.layout slots' kind keys := by
    intro kind keys busy owns
    refine ⟨?_, owns.nodup, ?_⟩
    · intro key mem
      have old := owns.live key mem
      rw [live key.index (by rw [old.2.1]; exact busy)]
      exact old
    · intro i inside here
      have was := none i (by rw [here]; exact busy)
      rw [live i was] at here
      exact owns.every i inside here
  refine ⟨owns _ _ (.inl rfl) h.dispatch, owns _ _ (.inr (.inl rfl)) h.task,
    owns _ _ (.inr (.inr rfl)) h.topology, ?_, h.bound_congr pool (fun j kind => live j (.inr kind)),
    ⟨h.queued.capacity, h.queued.valid, ?_⟩, h.dead_congr dead⟩
  · intro d mem
    have kind := (h.dispatch.live d.1 (List.mem_map.mpr ⟨d, mem, rfl⟩)).2.1
    show (slots' d.1.index).dispatch = _
    rw [live _ (.inl kind)]
    exact h.token d mem
  · intro side i on
    rcases h.queued.named side i on with low | kind
    · exact .inl low
    · right
      show (slots' i).kind = .dispatch
      rw [live i (.inl kind)]
      exact kind

theorem owners (chains : Nat → Option Chain) (admissions : List (Key G))
    (leases : List (Key G × Nat)) :
    Busy epochs summary { world with chains, admissions, leases } lanes :=
  ⟨h.dispatch, h.task, h.topology, h.token,
    ⟨h.bound.rooted, h.bound.task, h.bound.endpoint, h.bound.drain, h.bound.single,
      h.bound.drained⟩, h.queued,
    h.freed⟩

theorem forgets {freed : List (Key G)}
    (dead : ∀ key ∈ freed, world.arena.layout.Inside key.index ∧ Dead epochs world.arena.slots key) :
     Busy epochs summary { world with freed } lanes :=
  ⟨h.dispatch, h.task, h.topology, h.token,
    ⟨h.bound.rooted, h.bound.task, h.bound.endpoint, h.bound.drain, h.bound.single,
      h.bound.drained⟩, h.queued,
    dead⟩

/-- A slot turns from a kind that is not busy into another. -/
theorem turn (pool : Pool) {index : Nat} {kind : Kind}
    (turn : Becomes world.arena.slots slots' index kind)
    (before : ¬ (world.arena.slots index).kind.IsBusy)
    (used : (world.arena.slots index).kind ≠ .retired) (after : ¬ kind.IsBusy) :
    Busy epochs summary (world.store pool slots') lanes := by
  refine h.congr pool ?_ ?_ ?_
  · intro j busy
    refine turn.others j ?_
    rintro rfl
    exact before busy
  · intro j busy
    by_cases here : j = index
    · rw [here, turn.kind] at busy
      exact absurd busy after
    · rw [turn.others j here] at busy
      exact busy
  · intro j
    right
    by_cases here : j = index
    · rw [here]
      exact ⟨turn.generation, fun retired => absurd retired used⟩
    · rw [turn.others j here]
      exact ⟨rfl, id⟩

end

end Busy

theorem not_busy_free : ¬ Kind.free.IsBusy := by
  rintro (no | no | no) <;> cases no

theorem not_busy_reserved : ¬ Kind.reserved.IsBusy := by
  rintro (no | no | no) <;> cases no

theorem not_busy_retired : ¬ Kind.retired.IsBusy := by
  rintro (no | no | no) <;> cases no

namespace Inv

theorem held_live (h : Inv epochs summary layout home lanes (key :: held) world) :
    layout.Inside key.index ∧ (world.arena.slots key.index).kind = .reserved ∧
      (world.arena.slots key.index).generation = key.epoch :=
  h.reserved.live key List.mem_cons_self

/-! ## Claims and returns -/

theorem claim_pool (h : Inv epochs summary layout home lanes held world) :
    world.arena.pool.claim world.arena.slots = none ∨
      ∃ key pool slots' rest, world.arena.pool.claim world.arena.slots = some (key, pool, slots') ∧
        Inv epochs summary layout (update home none rest) lanes (key :: held)
          (world.store pool slots') := by
  rw [h.pool]
  cases chain : home none with
  | nil => exact .inl rfl
  | cons index rest =>
    right
    have linked := h.homes.linked none
    rw [chain] at linked
    have kind : (world.arena.slots index).kind = .free :=
      h.homes.kind_of_mem (chain ▸ List.mem_cons_self)
    have inside := h.homes.inside none index (chain ▸ List.mem_cons_self)
    have turn : Becomes world.arena.slots (world.arena.slots.modify index (·.setKind .reserved))
        index .reserved := .modify _ rfl rfl
    refine ⟨_, _, _, rest, claim_cons linked, h.same, h.homes.claim chain turn (by decide), ?_, ?_,
      ?_, h.leased, ?_⟩
    · show poolOf rest = poolOf (update home none rest none)
      rw [update_self]
    · intro id
      rw [update_of_ne (by simp)]
      exact h.chains id
    · exact @Owns.gain _ _ _ _ _ _ h.reserved ⟨index, _⟩ turn (by rw [kind]; decide) inside rfl
    · exact h.busy.turn _ turn (by rw [kind]; exact not_busy_free) (by rw [kind]; decide)
        not_busy_reserved

theorem claim_chain (h : Inv epochs summary layout home lanes held world) (id : Nat) :
    (world.chains id).bind (·.tryClaim world.arena.slots) = none ∨
      ∃ key chain slots' rest,
        (world.chains id).bind (·.tryClaim world.arena.slots) = some (key, chain, slots') ∧
        Inv epochs summary layout (update home (some id) rest) lanes (key :: held)
          { world.store world.arena.pool slots' with
            chains := update world.chains id (some chain) } := by
  rcases h.chains id with ⟨none, -⟩ | kept
  · rw [none]
    exact .inl rfl
  · rw [kept]
    show (chainOf (home (some id))).tryClaim world.arena.slots = none ∨
      ∃ key chain slots' rest,
        (chainOf (home (some id))).tryClaim world.arena.slots = some (key, chain, slots') ∧ _
    cases chain : home (some id) with
    | nil => exact .inl rfl
    | cons index rest =>
      right
      have linked := h.homes.linked (some id)
      rw [chain] at linked
      have kind : (world.arena.slots index).kind = .free :=
        h.homes.kind_of_mem (chain ▸ List.mem_cons_self)
      have inside := h.homes.inside (some id) index (chain ▸ List.mem_cons_self)
      have turn : Becomes world.arena.slots
          (world.arena.slots.modify index (·.setKind .reserved)) index .reserved :=
        .modify _ rfl rfl
      have busy : Busy epochs summary (world.store world.arena.pool
          (world.arena.slots.modify index (·.setKind .reserved))) lanes :=
        h.busy.turn _ turn (by rw [kind]; exact not_busy_free) (by rw [kind]; decide)
          not_busy_reserved
      refine ⟨_, _, _, rest, tryClaim_cons linked, h.same, h.homes.claim chain turn (by decide),
        ?_, ?_, ?_, ?_, busy.owners _ _ _⟩
      · rw [update_of_ne (by simp)]
        exact h.pool
      · intro id'
        by_cases same : id' = id
        · subst same
          right
          show update world.chains id' _ id' = _
          rw [update_self, update_self]
        · show update world.chains id _ id' = none ∧ _ ∨
            update world.chains id _ id' = _
          rw [update_of_ne same, update_of_ne (by simpa using same)]
          exact h.chains id'
      · exact @Owns.gain _ _ _ _ _ _ h.reserved ⟨index, _⟩ turn (by rw [kind]; decide) inside rfl
      · intro l mem
        show update world.chains id _ l.2 ≠ Option.none
        by_cases same : l.2 = id
        · rw [same, update_self]
          exact Option.some_ne_none _
        · rw [update_of_ne same]
          exact h.leased l mem

theorem publish_pool (h : Inv epochs summary layout home lanes (key :: held) world) :
    Inv epochs summary layout (update home none (key.index :: home none)) lanes held
      (world.store (world.arena.pool.prepend key.index 1)
        (world.arena.slots.publish key (world.arena.pool.link key.index))) := by
  rcases h.held_live with ⟨inside, kind, -⟩
  have turn : Becomes world.arena.slots
      (world.arena.slots.publish key (world.arena.pool.link key.index)) key.index .free :=
    .modify _ rfl rfl
  have homes : Homes layout (world.arena.slots.publish key (world.arena.pool.link key.index))
      (update home none (key.index :: home none)) := by
    refine h.homes.publish none inside (by rw [kind]; decide) ?_
    rw [h.pool]
    exact link_eq key.index
  refine ⟨h.same, homes, ?_, ?_, h.reserved.lose turn (by decide), h.leased,
    h.busy.turn _ turn (by rw [kind]; exact not_busy_reserved) (by rw [kind]; decide)
      not_busy_free⟩
  · rw [update_self]
    show world.arena.pool.prepend key.index 1 = _
    have room := Homes.length_le (homes.nodup none) (homes.inside none)
    rw [update_self, List.length_cons] at room
    rw [h.pool]
    exact prepend_eq room [] rfl
  · intro id
    rw [update_of_ne (by simp)]
    exact h.chains id

/-- A slot in hand goes in front of the chain of a domain. -/
theorem publish_chain (h : Inv epochs summary layout home lanes (key :: held) world)
    (here : world.chains id ≠ none) :
    Inv epochs summary layout (update home (some id) (key.index :: home (some id))) lanes
      held (world.giveBack key id) := by
  rcases h.held_live with ⟨inside, kind, -⟩
  have kept : world.chains id = some (chainOf (home (some id))) := by
    rcases h.chains id with ⟨none, -⟩ | kept
    · exact absurd none here
    · exact kept
  have turn : Becomes world.arena.slots
      (world.arena.slots.publish key ((home (some id)).headD key.index)) key.index .free :=
    .modify _ rfl rfl
  have homes := h.homes.publish (some id) inside (by rw [kind]; decide)
    (rfl : (home (some id)).headD key.index = _)
  have room := Homes.length_le (homes.nodup (some id)) (homes.inside (some id))
  rw [update_self, List.length_cons] at room
  have ran : world.giveBack key id =
      { world.store world.arena.pool
          (world.arena.slots.publish key ((home (some id)).headD key.index)) with
        chains := update world.chains id (some (chainOf (key.index :: home (some id)))) } := by
    unfold World.giveBack
    rw [kept]
    dsimp only
    rw [restore_key _ _ room]
  have busy : Busy epochs summary (world.store world.arena.pool
      (world.arena.slots.publish key ((home (some id)).headD key.index))) lanes :=
    h.busy.turn _ turn (by rw [kind]; exact not_busy_reserved) (by rw [kind]; decide)
      not_busy_free
  rw [ran]
  refine ⟨h.same, homes, ?_, ?_, h.reserved.lose turn (by decide), ?_, busy.owners _ _ _⟩
  · rw [update_of_ne (by simp)]
    exact h.pool
  · intro id'
    show update world.chains id _ id' = none ∧ _ ∨
      update world.chains id _ id' = _
    by_cases same : id' = id
    · subst same
      right
      rw [update_self, update_self]
    · rw [update_of_ne same, update_of_ne (by simpa using same)]
      exact h.chains id'
  · intro l mem
    show update world.chains id _ l.2 ≠ none
    by_cases same : l.2 = id
    · rw [same, update_self]
      exact Option.some_ne_none _
    · rw [update_of_ne same]
      exact h.leased l mem

/-- A slot in hand gets its next generation, or it is retired. Its key is dead. -/
theorem renew (lawful : epochs.Lawful)
    (h : Inv epochs summary layout home lanes (key :: held) world) :
    ∃ slots', (∃ next, world.arena.slots.renew epochs key = (some next, slots') ∧
        next.index = key.index ∧
        Inv epochs summary layout home lanes (next :: held)
          { world.store world.arena.pool slots' with freed := key :: world.freed }) ∨
      world.arena.slots.renew epochs key = (none, slots') ∧
        Inv epochs summary layout home lanes held
          { world.store world.arena.pool slots' with freed := key :: world.freed } := by
  rcases h.held_live with ⟨inside, kind, generation⟩
  unfold Slots.renew
  cases next : epochs.next (world.arena.slots key.index).generation with
  | some epoch =>
    refine ⟨_, .inl ⟨_, rfl, rfl, ?_⟩⟩
    have self : world.arena.slots.modify key.index (·.setEpoch epoch) key.index =
        (world.arena.slots key.index).setEpoch epoch := Slots.modify_self ..
    have others : ∀ j, j ≠ key.index →
        world.arena.slots.modify key.index (·.setEpoch epoch) j = world.arena.slots j :=
      fun j apart => Slots.modify_other _ _ apart
    have more : Advances epochs (world.arena.slots key.index).generation epoch :=
      ⟨lawful.advance next, by rw [next]; exact Option.some_ne_none _⟩
    have homes : Homes layout (world.arena.slots.modify key.index (·.setEpoch epoch)) home := by
      refine h.homes.congr ?_ ?_
      · intro i _
        by_cases same : i = key.index
        · rw [same, self]
          exact Iff.rfl
        · rw [others i same]
      · intro i free
        have apart : i ≠ key.index := by
          rintro rfl
          rw [kind] at free
          cases free
        rw [others i apart]
    have busy : Busy epochs summary (world.store world.arena.pool
        (world.arena.slots.modify key.index (·.setEpoch epoch))) lanes := by
      refine h.busy.congr _ ?_ ?_ ?_
      · intro j busy
        refine others j ?_
        rintro rfl
        rw [kind] at busy
        exact not_busy_reserved busy
      · intro j busy
        by_cases same : j = key.index
        · rw [same, self] at busy
          rw [same]
          exact busy
        · rw [others j same] at busy
          exact busy
      · intro j
        by_cases same : j = key.index
        · rw [same, self]
          exact .inl more
        · rw [others j same]
          exact .inr ⟨rfl, id⟩
    refine ⟨h.same, homes, h.pool, h.chains, ?_, h.leased, ?_⟩
    · have stays : (world.arena.slots.modify key.index (·.setEpoch epoch) key.index).kind =
          .reserved := by
        rw [self]
        exact kind
      have turned : (world.arena.slots.modify key.index (·.setEpoch epoch)
          key.index).generation = epoch := by
        rw [self]
        rfl
      exact h.reserved.renew stays turned others
    · refine busy.forgets ?_
      intro key' mem
      rcases List.mem_cons.mp mem with rfl | old
      · refine ⟨h.same ▸ inside, .inl ?_⟩
        show Advances epochs _ (world.arena.slots.modify key'.index (·.setEpoch epoch)
          key'.index).generation
        rw [self, ← generation]
        exact more
      · exact busy.freed key' old
  | none =>
    refine ⟨_, .inr ⟨rfl, ?_⟩⟩
    have turn : Becomes world.arena.slots
        (world.arena.slots.modify key.index (·.setKind .retired)) key.index .retired :=
      .modify _ rfl rfl
    have busy : Busy epochs summary (world.store world.arena.pool
        (world.arena.slots.modify key.index (·.setKind .retired))) lanes :=
      h.busy.turn _ turn (by rw [kind]; exact not_busy_reserved) (by rw [kind]; decide)
        not_busy_retired
    refine ⟨h.same, h.homes.other turn (by rw [kind]; decide) (by decide), h.pool, h.chains,
      h.reserved.lose turn (by decide), h.leased, ?_⟩
    refine busy.forgets ?_
    intro key' mem
    rcases List.mem_cons.mp mem with rfl | old
    · exact ⟨h.same ▸ inside, .inr ⟨turn.generation.trans generation, turn.kind⟩⟩
    · exact busy.freed key' old

/-- The keys that died in an operation need not be remembered. -/
theorem forgets (h : Inv epochs summary layout home lanes held world) {freed : List (Key G)}
    (sub : ∀ key ∈ freed, key ∈ world.freed) :
    Inv epochs summary layout home lanes held { world with freed } :=
  ⟨h.same, h.homes, h.pool, h.chains, h.reserved, h.leased,
    h.busy.forgets fun key mem => h.busy.freed key (sub key mem)⟩

theorem recycle (lawful : epochs.Lawful)
    (h : Inv epochs summary layout home lanes (key :: held) world) :
    ∃ home', Inv epochs summary layout home' lanes held
      { world.store (world.arena.pool.recycle epochs world.arena.slots key).1
          (world.arena.pool.recycle epochs world.arena.slots key).2 with
        freed := key :: world.freed } := by
  rcases h.renew lawful with ⟨slots', ⟨next, renewed, -, after⟩ | ⟨renewed, after⟩⟩
  · refine ⟨update home none (next.index :: home none), ?_⟩
    unfold Pool.recycle
    rw [renewed]
    exact after.publish_pool
  · refine ⟨home, ?_⟩
    unfold Pool.recycle
    rw [renewed]
    exact after

/-! ## Domains -/

theorem shared (h : Inv epochs summary layout home lanes held world) {pool : Pool}
    {chain : Option Chain} {first second : List Nat} {tail next : Nat}
    (homes : Homes layout (world.arena.slots.link tail next) (Homes.share home id first second))
    (free : (world.arena.slots tail).kind = .free) (kept : pool = poolOf first)
    (made : chain = none ∧ second = [] ∨ chain = some (chainOf second))
    (leased : ∀ l ∈ world.leases, l.2 = id → chain ≠ none) :
    Inv epochs summary layout (Homes.share home id first second) lanes held
      { world.store pool (world.arena.slots.link tail next) with
        chains := update world.chains id chain } := by
  have turn : Becomes world.arena.slots (world.arena.slots.link tail next) tail .free :=
    .modify _ free rfl
  have busy : Busy epochs summary (world.store pool (world.arena.slots.link tail next)) lanes :=
    h.busy.turn _ turn (by rw [free]; exact not_busy_free) (by rw [free]; decide) not_busy_free
  refine ⟨h.same, homes, ?_, ?_, h.reserved.other turn (by rw [free]; decide) (by decide), ?_,
    busy.owners _ _ _⟩
  · rw [Homes.share_none]
    exact kept
  · intro id'
    show update world.chains id chain id' = none ∧ _ ∨
      update world.chains id chain id' = _
    by_cases same : id' = id
    · subst same
      rw [update_self, Homes.share_some]
      exact made
    · rw [update_of_ne same, Homes.share_other _ _ _ _ (by simp) (by simpa using same)]
      exact h.chains id'
  · intro l mem
    show update world.chains id chain l.2 ≠ none
    by_cases same : l.2 = id
    · rw [same, update_self]
      exact leased l mem same
    · rw [update_of_ne same]
      exact h.leased l mem

theorem split_last {xs : List Nat} {count : Nat} (pos : 0 < count) (enough : count ≤ xs.length) :
    ∃ before tail after, xs = before ++ tail :: after ∧ before.length + 1 = count := by
  have inside : count - 1 < xs.length := by omega
  have step := List.drop_eq_getElem_cons inside
  rw [Nat.sub_add_cancel pos] at step
  refine ⟨xs.take (count - 1), xs[count - 1], xs.drop count, ?_, ?_⟩
  · rw [← step, List.take_append_drop]
  · rw [List.length_take, Nat.min_eq_left (by omega), Nat.sub_add_cancel pos]

theorem take (h : Inv epochs summary layout home lanes held world) {id : Nat}
    (fresh : world.chains id = none) {count : Nat} (pos : 0 < count) :
    (∃ available, world.arena.pool.tryTake world.arena.slots count = .error available) ∨
      ∃ chain pool slots' home',
        world.arena.pool.tryTake world.arena.slots count = .ok (chain, pool, slots') ∧
        Inv epochs summary layout home' lanes held
          { world.store pool slots' with
            chains := update world.chains id (some chain) } := by
  have empty : home (some id) = [] := by
    rcases h.chains id with ⟨-, empty⟩ | kept
    · exact empty
    · rw [fresh] at kept
      cases kept
  rw [h.pool]
  by_cases few : (home none).length < count
  · exact .inl (tryTake_error few)
  · right
    rcases split_last pos (Nat.le_of_not_lt few) with ⟨before, tail, after, chain, length⟩
    have linked := h.homes.linked none
    rw [chain] at linked ⊢
    have free : (world.arena.slots tail).kind = .free :=
      h.homes.kind_of_mem (chain ▸ List.mem_append.mpr (.inr List.mem_cons_self))
    have taken := tryTake_append linked
    rw [length] at taken
    refine ⟨_, _, _, Homes.share home id after (before ++ [tail]), taken, ?_⟩
    refine h.shared (h.homes.split chain empty) free rfl (.inr rfl) ?_
    intro l mem same
    exact absurd (same ▸ fresh) (h.leased l mem)

section

variable (h : Inv epochs summary layout home lanes held world)

include h

/-- A domain that nobody leases from gives its slots back. -/
theorem restore (free : ∀ key, (key, id) ∉ world.leases) :
    ∃ home', Inv epochs summary layout home' lanes held (world.dropDomain id) := by
  have unleased : ∀ l ∈ world.leases, l.2 = id → (none : Option Chain) ≠ none := by
    rintro ⟨key, id'⟩ mem rfl
    exact absurd mem (free key)
  rcases h.chains id with ⟨none, -⟩ | kept
  · refine ⟨home, ?_⟩
    unfold World.dropDomain
    rw [none]
    exact h
  · unfold World.dropDomain
    rw [kept, h.pool]
    dsimp only
    rcases List.eq_nil_or_concat (home (some id)) with empty | ⟨before, tail, chain⟩
    · refine ⟨home, ?_⟩
      rw [empty, restore_nil]
      refine ⟨h.same, h.homes, rfl, ?_, h.reserved, ?_, ?_⟩
      · intro id'
        show update world.chains id _ id' = none ∧ _ ∨
          update world.chains id _ id' = _
        by_cases same : id' = id
        · subst same
          rw [update_self]
          exact .inl ⟨rfl, empty⟩
        · rw [update_of_ne same]
          exact h.chains id'
      · intro l mem
        show update world.chains id _ l.2 ≠ none
        have other : l.2 ≠ id := fun same => unleased l mem same rfl
        rw [update_of_ne other]
        exact h.leased l mem
      · have busy := h.busy.owners (update world.chains id Option.none) world.admissions
          world.leases
        rw [← h.pool]
        exact busy
    · rw [List.concat_eq_append] at chain
      have member : tail ∈ home (some id) := by
        rw [chain]
        exact List.mem_append.mpr (.inr List.mem_cons_self)
      have homes := h.homes.join chain rfl
      have room := Homes.length_le (homes.nodup none) (homes.inside none)
      rw [Homes.share_none, List.length_append, List.length_cons] at room
      rw [chain, restore_append _ (by omega)]
      exact ⟨_, h.shared homes (h.homes.kind_of_mem member) rfl (.inl ⟨rfl, rfl⟩) unleased⟩

/-! ## Owners of reserved slots -/

theorem pick_admission (mem : key ∈ world.admissions) :
    Inv epochs summary layout home lanes (key :: held)
      { world with admissions := world.admissions.filter (· ≠ key) } := by
  refine ⟨h.same, h.homes, h.pool, h.chains, ?_, h.leased, h.busy.owners _ _ _⟩
  have nodup : world.admissions.Nodup := by
    have whole : (Arena.reserved held world).Nodup := h.reserved.nodup.of_map _
    exact (whole.of_append_right).of_append_left
  refine h.reserved.perm ?_
  have erased : world.admissions.filter (· ≠ key) = world.admissions.erase key := by
    rw [nodup.erase_eq_filter]
    refine List.filter_congr (fun x _ => ?_)
    rw [Bool.eq_iff_iff]
    simp
  show (held ++ (world.admissions ++ _)).Perm
    (key :: (held ++ (world.admissions.filter (· ≠ key) ++ world.leases.map Prod.fst)))
  rw [erased]
  refine (List.Perm.append_left held ((List.perm_cons_erase mem).append_right _)).trans ?_
  exact List.perm_middle

theorem pick_lease (mem : (key, id) ∈ world.leases) :
    Inv epochs summary layout home lanes (key :: held)
      { world with leases := world.leases.filter (· ≠ (key, id)) } := by
  have nodup : world.leases.Nodup := by
    have whole : (Arena.reserved held world).Nodup := h.reserved.nodup.of_map _
    exact ((whole.of_append_right).of_append_right).of_map _
  refine ⟨h.same, h.homes, h.pool, h.chains, h.reserved.perm ?_, ?_, h.busy.owners _ _ _⟩
  · have erased : world.leases.filter (· ≠ (key, id)) = world.leases.erase (key, id) := by
      rw [nodup.erase_eq_filter]
      refine List.filter_congr (fun x _ => ?_)
      rw [Bool.eq_iff_iff]
      simp
    have front := (List.perm_cons_erase mem).map Prod.fst
    show (held ++ (world.admissions ++ world.leases.map Prod.fst)).Perm
      (key :: (held ++ (world.admissions ++ (world.leases.filter (· ≠ (key, id))).map Prod.fst)))
    rw [erased]
    have inner : (world.admissions ++ world.leases.map Prod.fst).Perm
        (key :: (world.admissions ++ (world.leases.erase (key, id)).map Prod.fst)) :=
      (List.Perm.append_left world.admissions front).trans List.perm_middle
    exact (List.Perm.append_left held inner).trans List.perm_middle
  · intro l there
    exact h.leased l (List.mem_filter.mp there).1

end

theorem put_admission (h : Inv epochs summary layout home lanes (key :: held) world) :
    Inv epochs summary layout home lanes held
      { world with admissions := key :: world.admissions } := by
  refine ⟨h.same, h.homes, h.pool, h.chains, h.reserved.perm ?_, h.leased, h.busy.owners _ _ _⟩
  exact List.perm_middle.symm

theorem put_lease (h : Inv epochs summary layout home lanes (key :: held) world)
    (here : world.chains id ≠ none) :
    Inv epochs summary layout home lanes held
      { world with leases := (key, id) :: world.leases } := by
  refine ⟨h.same, h.homes, h.pool, h.chains, h.reserved.perm ?_, ?_, h.busy.owners _ _ _⟩
  · show (key :: (held ++ (world.admissions ++ world.leases.map Prod.fst))).Perm
      (held ++ (world.admissions ++ key :: world.leases.map Prod.fst))
    refine (List.perm_middle.symm).trans ?_
    exact List.Perm.append_left held List.perm_middle.symm
  · intro l mem
    rcases List.mem_cons.mp mem with rfl | old
    · exact here
    · exact h.leased l old

end Inv

end

end Dope.Core.Ready.Arena
