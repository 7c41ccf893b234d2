import Dope.Core.Ready.Arena.Leaves

/-! # Steps of the arena

Each input keeps the invariant. A queued task stays queued unless its lane is
popped or it is detached itself, and a root that goes is among the freed keys.
-/

namespace Dope.Core.Ready.Arena

open Function

variable {S G : Type} [DecidableEq G] {epochs : Epochs G} {summary : Index.Summary S Side}
  {layout : Layout} {home : Option Nat → List Nat} {lanes lanes' : Nat → Lane → List Nat}
  {held : List (Key G)} {world world' : World S G} {input : Input G} {output : Output G}

/-- What a step does to the tasks that wait, to the roots and to the freed keys. -/
structure Follows (epochs : Epochs G) (input : Input G) (output : Output G)
    (world world' : World S G) (lanes lanes' : Nat → Lane → List Nat) : Prop where
  queued : ∀ root ∈ world.roots, ∀ side, ∀ x ∈ lanes root.index side,
    x ∈ lanes' root.index side ∨
    (input = .pop root side ∧ (lanes root.index side).head? = some x ∧
      output = .task (some ((world.arena.slots x).record epochs).local_)) ∨
    ∃ key, (key, root) ∈ world.tasks ∧ key.index = x ∧
      (input = .release key ∨ ∃ id, input = .reclaim key id)
  freed : ∀ key ∈ world.freed, key ∈ world'.freed
  roots : ∀ root ∈ world.roots, root ∈ world'.roots ∨ root ∈ world'.freed

omit [DecidableEq G] in
theorem Follows.same (roots : ∀ root ∈ world.roots, root ∈ world'.roots)
    (freed : ∀ key ∈ world.freed, key ∈ world'.freed) :
    Follows epochs input output world world' lanes lanes :=
  ⟨fun _ _ _ _ mem => .inl mem, freed, fun root mem => .inl (roots root mem)⟩

/-- The invariant after a step, which follows from the world before. -/
def Kept (epochs : Epochs G) (summary : Index.Summary S Side) (layout : Layout)
    (input : Input G) (world : World S G) (lanes : Nat → Lane → List Nat)
    (next : Output G × World S G) : Prop :=
  ∃ home' lanes', Inv epochs summary layout home' lanes' [] next.2 ∧
    Follows epochs input next.1 world next.2 lanes lanes'

variable {key root : Key G} {id : Nat} {side : Lane}

namespace Inv

theorem keeps {home' : Option Nat → List Nat} (h : Inv epochs summary layout home' lanes [] world')
    (roots : world'.roots = world.roots) (freed : ∀ key ∈ world.freed, key ∈ world'.freed) :
    Kept epochs summary layout input world lanes (output, world') :=
  ⟨home', lanes, h, .same (fun _ mem => roots ▸ mem) freed⟩

section

variable (h : Inv epochs summary layout home lanes [] world)

include h

theorem stays : Kept epochs summary layout input world lanes (output, world) :=
  h.keeps rfl fun _ => id

/-! ## Ready slots -/

theorem step_makeSlot (target : Token) :
    Kept epochs summary layout input world lanes (world.makeSlot target) := by
  unfold World.makeSlot
  rcases h.claim_pool with none | ⟨key, pool, slots', rest, claimed, after⟩
  · rw [none]
    exact h.stays
  · rw [claimed]
    exact (after.to_dispatch target).keeps rfl fun _ => id

theorem step_dropSlot (lawful : epochs.Lawful) (words : summary.Lawful layout.capacity.words)
    (ok : ∃ target, (key, target) ∈ world.dispatches) :
    Kept epochs summary layout input world lanes (output, world.dropSlot epochs summary key) := by
  rcases ok with ⟨target, mem⟩
  rcases (h.undispatch words mem).recycle lawful with ⟨home', after⟩
  have ran : Inv epochs summary layout home' lanes [] (world.dropSlot epochs summary key) := after
  exact ran.keeps rfl fun _ => List.mem_cons_of_mem _

/-- An index below the capacity is queued or taken off. -/
theorem step_queue (words : summary.Lawful layout.capacity.words) {served : Ready.Input}
    (ok : world.arena.ready.allowed served)
    (named : ∀ i, served = .insert i → i < world.arena.layout.descriptors ∨ (world.arena.slots
      i).kind = .dispatch) :
    Kept epochs summary layout input world lanes (output, world.queue summary served) :=
  (h.serve words served ok named).keeps rfl fun _ => id

end

section

variable (h : Inv epochs summary layout home lanes held world)

include h

theorem inside_ready {i : Nat} (inside : i < world.arena.layout.capacity.raw) :
    i < world.arena.ready.store.capacity.raw := by
  rw [h.busy.queued.capacity]
  exact inside

theorem descriptor_ready {i : Nat} (low : i < world.arena.layout.descriptors) :
    i < world.arena.ready.store.capacity.raw :=
  h.inside_ready (Nat.lt_of_lt_of_le low (Nat.le_add_right _ _))

theorem dispatch_ready (ok : ∃ target, (key, target) ∈ world.dispatches) :
    key.index < world.arena.ready.store.capacity.raw ∧
      (world.arena.slots key.index).kind = .dispatch := by
  rcases ok with ⟨target, mem⟩
  have live := h.busy.dispatch.live key (List.mem_map.mpr ⟨_, mem, rfl⟩)
  exact ⟨h.inside_ready live.1.2, live.2.1⟩

theorem resolve_spec (live : Nat → G → Bool) (key : Key G) {entry : Entry}
    (found : world.arena.resolve live key = some entry) :
    (∃ i, entry = .dispatch i ∧ i < world.arena.ready.store.capacity.raw ∧
      (i < world.arena.layout.descriptors ∨ (world.arena.slots i).kind = .dispatch)) ∨
    entry = .task key.index ∧ ∃ root, (key, root) ∈ world.tasks := by
  unfold Arena.resolve at found
  split at found
  · rename_i low
    split at found
    · left
      exact ⟨key.index, (Option.some.inj found).symm, h.descriptor_ready low, .inl low⟩
    · cases found
  · rename_i high
    split at found
    · cases found
    · rename_i inside
      dsimp only at found
      split at found
      · cases found
      · rename_i epoch
        have within : world.arena.layout.Inside key.index :=
          ⟨Nat.le_of_not_lt high, Nat.lt_of_not_le inside⟩
        cases kind : (world.arena.slots key.index).kind with
        | dispatch =>
          rw [kind] at found
          left
          exact ⟨key.index, (Option.some.inj found).symm, h.inside_ready within.2, .inr kind⟩
        | task =>
          rw [kind] at found
          right
          refine ⟨(Option.some.inj found).symm, ?_⟩
          rcases h.busy.task.every _ within kind with ⟨key', mem, same⟩
          rcases List.mem_map.mp mem with ⟨⟨k, root⟩, there, rfl⟩
          have epoch' := (h.busy.task_live there).2.2
          refine ⟨root, ?_⟩
          have equal : k = key := by
            cases k
            cases key
            dsimp only at same epoch' epoch
            subst same
            rw [← epoch', not_not.mp epoch]
          rw [← equal]
          exact there
        | free | reserved | topology | retired => rw [kind] at found; cases found

end

section

variable (h : Inv epochs summary layout home lanes [] world)

include h

/-- A task that wakes is queued already, or goes behind the others in the active lane. -/
theorem wake_queued {live : Nat → G → Bool}
    (found : world.arena.resolve live key = some (.task key.index))
    (mem : (key, root) ∈ world.tasks) :
    (∃ side, key.index ∈ lanes root.index side) ∧
        world.wake epochs summary live key = (.parent none, world) ∨
      (world.wake epochs summary live key).2.roots = world.roots ∧
        (world.wake epochs summary live key).2.tasks = world.tasks ∧
        (world.wake epochs summary live key).2.freed = world.freed ∧
        Inv epochs summary layout home (update lanes root.index
          (update (lanes root.index) (world.arena.slots root.index).state.view.active
            (lanes root.index (world.arena.slots root.index).state.view.active ++ [key.index]))) []
          (world.wake epochs summary live key).2 := by
  rcases h.task_root mem with ⟨here, -, task, topology⟩
  unfold World.wake
  rw [found]
  dsimp only
  rw [topology]
  unfold Topology.activate
  cases queue : (world.arena.slots key.index).queue with
  | some side =>
    exact .inl ⟨⟨side, ((h.busy.bound.rooted root here).listed.member side _).mpr ⟨task, queue⟩⟩,
      rfl⟩
  | none => exact .inr ⟨rfl, rfl, rfl, h.push mem queue rfl⟩

theorem step_wake (words : summary.Lawful layout.capacity.words) (live : Nat → G → Bool)
    (key : Key G) :
    Kept epochs summary layout input world lanes (world.wake epochs summary live key) := by
  cases found : world.arena.resolve live key with
  | none =>
    unfold World.wake
    rw [found]
    exact h.stays
  | some entry =>
    rcases h.resolve_spec live key found with ⟨i, rfl, inside, named⟩ | ⟨rfl, root, mem⟩
    · unfold World.wake
      rw [found]
      refine h.step_queue words inside ?_
      intro j same
      cases same
      exact named
    · rcases h.wake_queued found mem with ⟨-, same⟩ | ⟨roots, -, freed, next⟩
      · rw [same]
        exact h.stays
      · refine ⟨home, _, next, ?_, fun _ old => freed ▸ old, fun _ old => .inl (roots ▸ old)⟩
        intro r _ side x there
        left
        by_cases same : r.index = root.index
        · rw [same] at there ⊢
          rw [update_self]
          by_cases lane : side = (world.arena.slots root.index).state.view.active
          · subst lane
            rw [update_self]
            exact List.mem_append.mpr (.inl there)
          · rw [update_of_ne lane]
            exact there
        · rw [update_of_ne same]
          exact there

theorem step_tryActivate (words : summary.Lawful layout.capacity.words) (live : Nat → G → Bool)
    (key : Key G) :
    Kept epochs summary layout input world lanes (world.tryActivate summary live key) := by
  unfold World.tryActivate Arena.tryIndex
  cases found : world.arena.resolve live key with
  | none => exact h.stays
  | some entry =>
    rcases h.resolve_spec live key found with ⟨i, rfl, inside, named⟩ | ⟨rfl, root, mem⟩
    · refine h.step_queue words inside ?_
      intro j same
      cases same
      exact named
    · exact h.stays

theorem step_dispatch (words : summary.Lawful layout.capacity.words) (targets : Nat → Option Token)
    {served : Ready.Input} (ok : world.arena.ready.allowed served)
    (drains : ∀ i, served ≠ .insert i) :
    Kept epochs summary layout input world lanes (world.dispatch summary targets served) := by
  have after := h.serve words served ok (fun i same => absurd same (drains i))
  unfold World.dispatch
  split <;> exact after.keeps rfl fun _ => id

/-! ## Admissions and domains -/

theorem step_admission (live : Nat → G → Bool) (parent : Key G) :
    Kept epochs summary layout input world lanes (world.admission epochs live parent) := by
  unfold World.admission
  split
  · exact h.stays
  · rcases h.claim_pool with none | ⟨key, pool, slots', rest, claimed, after⟩
    · rw [none]
      exact h.stays
    · rw [claimed]
      exact after.put_admission.keeps rfl fun _ => id

theorem step_dropAdmission (lawful : epochs.Lawful) (mem : key ∈ world.admissions) :
    Kept epochs summary layout input world lanes (output, world.dropAdmission epochs key) := by
  rcases (h.pick_admission mem).recycle lawful with ⟨home', after⟩
  have ran : Inv epochs summary layout home' lanes [] (world.dropAdmission epochs key) := after
  exact ran.keeps rfl fun _ => List.mem_cons_of_mem _

theorem step_makePool (fresh : world.chains id = none) (count : Nat) :
    Kept epochs summary layout input world lanes (world.makePool id count) := by
  unfold World.makePool
  split
  · exact h.stays
  · rename_i some
    rcases h.take fresh (Nat.pos_of_ne_zero some) with ⟨available, few⟩ | ⟨_, _, _, _, taken, after⟩
    · rw [few]
      exact h.stays
    · rw [taken]
      exact after.keeps rfl fun _ old => old

theorem step_makeDomain (live : Nat → G → Bool) (parent : Key G) (fresh : world.chains id = none)
    (count : Nat) :
    Kept epochs summary layout input world lanes
      (world.makeDomain epochs live parent id count) := by
  unfold World.makeDomain
  split
  · exact h.stays
  · exact h.step_makePool fresh count

theorem step_claim (id : Nat) : Kept epochs summary layout input world lanes (world.claim id) := by
  unfold World.claim
  rcases h.claim_chain id with none | ⟨key, chain, slots', rest, claimed, after⟩
  · rw [none]
    exact h.stays
  · rw [claimed]
    have here : update world.chains id (some chain) id ≠ none := by
      rw [update_self]
      exact Option.some_ne_none _
    exact (after.put_lease here).keeps rfl fun _ old => old

end

omit [DecidableEq G] in
theorem giveBack_leases (world : World S G) (key : Key G) (id : Nat) (leases : List (Key G × Nat)) :
    { world with leases }.giveBack key id = { world.giveBack key id with leases } := by
  unfold World.giveBack
  dsimp only
  cases world.chains id <;> rfl

section

variable (h : Inv epochs summary layout home lanes [] world)

include h

theorem step_dropLease (mem : (key, id) ∈ world.leases) :
    Kept epochs summary layout input world lanes (output, world.dropLease key id) := by
  have after := (h.pick_lease mem).publish_chain (h.leased _ mem)
  rw [giveBack_leases] at after
  have ran : Inv epochs summary layout _ lanes [] (world.dropLease key id) := after
  have frame : (world.giveBack key id).roots = world.roots ∧
      (world.giveBack key id).freed = world.freed := by
    unfold World.giveBack
    cases world.chains id <;> exact ⟨rfl, rfl⟩
  refine ran.keeps frame.1 ?_
  intro key' old
  show key' ∈ (world.giveBack key id).freed
  rw [frame.2]
  exact old

theorem step_takeLease (mem : (key, id) ∈ world.leases) :
    Kept epochs summary layout input world lanes (output, world.takeLease key id) := by
  have after : Inv epochs summary layout home lanes [] (world.takeLease key id) :=
    (h.pick_lease mem).put_admission
  exact after.keeps rfl fun _ old => old

theorem step_dropDomain (free : ∀ key, (key, id) ∉ world.leases) :
    Kept epochs summary layout input world lanes (output, world.dropDomain id) := by
  rcases h.restore free with ⟨home', after⟩
  have frame : (world.dropDomain id).roots = world.roots ∧
      (world.dropDomain id).freed = world.freed := by
    unfold World.dropDomain
    cases world.chains id <;> exact ⟨rfl, rfl⟩
  exact after.keeps frame.1 fun key old => by rw [frame.2]; exact old

/-! ## Topologies -/

theorem step_makeTopology : Kept epochs summary layout input world lanes world.makeTopology := by
  unfold World.makeTopology
  rcases h.claim_pool with none | ⟨key, pool, slots', rest, claimed, after⟩
  · rw [none]
    exact h.stays
  · rw [claimed]
    refine ⟨_, _, after.to_topology, ?_, fun _ old => old,
      fun _ mem => .inl (List.mem_cons_of_mem _ mem)⟩
    intro root mem side x there
    left
    have apart : root.index ≠ key.index := by
      intro same
      have kind := after.busy.root_kind mem
      rw [same, after.held_live.2.1] at kind
      cases kind
    rw [update_of_ne apart]
    exact there

theorem step_dropTopology (lawful : epochs.Lawful)
    (ok : key ∈ world.endpoints ∧ ∀ drain ∈ world.drains, drain.root ≠ key) :
    Kept epochs summary layout input world lanes (output, world.dropTopology epochs key) := by
  rcases h.close ok.1 ok.2 with ⟨slots', closed, -, after⟩ | ⟨slots', closed, -, after⟩
  · have ran : Inv epochs summary layout home lanes [] (world.dropTopology epochs key) := by
      unfold World.dropTopology Pool.releaseRoot
      rw [closed]
      exact after
    have frame : (world.dropTopology epochs key).roots = world.roots ∧
        (world.dropTopology epochs key).freed = world.freed := by
      unfold World.dropTopology Pool.releaseRoot
      rw [closed]
      exact ⟨rfl, rfl⟩
    exact ran.keeps frame.1 fun key' old => by rw [frame.2]; exact old
  · rcases after.recycle lawful with ⟨home', after⟩
    have ran : Inv epochs summary layout home' lanes [] (world.dropTopology epochs key) := by
      unfold World.dropTopology Pool.releaseRoot
      rw [closed]
      exact after
    have frame : (world.dropTopology epochs key).roots = world.roots.filter (· ≠ key) ∧
        (world.dropTopology epochs key).freed = key :: world.freed := by
      unfold World.dropTopology Pool.releaseRoot
      rw [closed]
      exact ⟨rfl, rfl⟩
    refine ⟨home', lanes, ran, fun _ _ _ _ there => .inl there, ?_, ?_⟩
    · intro key' old
      show key' ∈ (world.dropTopology epochs key).freed
      rw [frame.2]
      exact List.mem_cons_of_mem _ old
    · intro root mem
      show root ∈ (world.dropTopology epochs key).roots ∨ root ∈ (world.dropTopology epochs key).freed
      rw [frame.1, frame.2]
      by_cases same : root = key
      · rw [same]
        exact .inr List.mem_cons_self
      · exact .inl (List.mem_filter.mpr ⟨mem, decide_eq_true same⟩)

theorem step_bind {parent : Key G} {local_ : BitVec 32} (mem : key ∈ world.admissions)
    (ends : root ∈ world.endpoints) :
    Kept epochs summary layout input world lanes
      (output, world.bind epochs key parent root local_) := by
  have after : Inv epochs summary layout home lanes []
      (world.bind epochs key parent root local_) := (h.pick_admission mem).bind ends
  exact after.keeps rfl fun _ old => old

end

theorem leave_eq (world : World S G) (key : Key G) {root : Option (Key G)} {slots' : Slots G}
    (detached : Topology.detach epochs world.arena.slots key.index = (root, slots')) :
    world.leave epochs key = { world.forget root with
      tasks := world.tasks.filter (·.1 ≠ key), freed := key :: (world.forget root).freed } := by
  unfold World.leave
  rw [detached]

/-- The roots and the freed keys after a task has left. -/
theorem leave_follows (h : Inv epochs summary layout home lanes [] world) {key root : Key G}
    (mem : (key, root) ∈ world.tasks)
    (stay : ∀ r side x, x ∈ lanes r side → x ≠ key.index → x ∈ lanes' r side)
    (detached : ∃ gone slots', Topology.detach epochs world.arena.slots key.index = (gone, slots') ∧
      (gone = none ∨ gone = some root))
    (own : input = .release key ∨ ∃ id, input = .reclaim key id)
    (roots : world'.roots = (world.leave epochs key).roots)
    (freed : world'.freed = (world.leave epochs key).freed) :
    Follows epochs input output world world' lanes lanes' := by
  rcases detached with ⟨gone, slots', ran, either⟩
  rw [leave_eq world key ran] at roots freed
  refine ⟨?_, ?_, ?_⟩
  · intro r here side x there
    by_cases same : x = key.index
    · right; right
      have task := (h.busy.bound.rooted r here).listed.subset there
      have equal := h.busy.attached_one (mem_attached.mpr ⟨key, mem, rfl⟩) (same ▸ task)
      exact ⟨key, equal ▸ mem, same.symm, own⟩
    · exact .inl (stay _ _ _ there same)
  · intro key' old
    rw [freed]
    rcases either with rfl | rfl
    · exact List.mem_cons_of_mem _ old
    · exact List.mem_cons_of_mem _ (List.mem_cons_of_mem _ old)
  · intro r here
    rw [roots, freed]
    rcases either with rfl | rfl
    · exact .inl here
    · by_cases same : r = root
      · rw [same]
        exact .inr (List.mem_cons_of_mem _ List.mem_cons_self)
      · exact .inl (List.mem_filter.mpr ⟨here, decide_eq_true same⟩)

theorem step_release (h : Inv epochs summary layout home lanes [] world) (lawful : epochs.Lawful)
    (ok : ∃ root, (key, root) ∈ world.tasks) :
    Kept epochs summary layout (.release key) world lanes (output, world.release epochs key) := by
  rcases ok with ⟨root, mem⟩
  rcases h.detach mem with ⟨lanes', stay, left⟩
  rcases left with ⟨slots', detached, -, after⟩ | ⟨slots', detached, -, after⟩
  · rcases after.recycle lawful with ⟨home', done⟩
    refine ⟨home', lanes', ?_, h.leave_follows mem stay ⟨_, _, detached, .inl rfl⟩ (.inl rfl) rfl rfl⟩
    show Inv epochs summary layout home' lanes' [] (world.release epochs key)
    unfold World.release Pool.freeTask
    rw [leave_eq world key detached, detached]
    exact done
  · rcases after.recycle lawful with ⟨home', done⟩
    rcases done.recycle lawful with ⟨home'', done⟩
    refine ⟨home'', lanes', ?_, h.leave_follows mem stay ⟨_, _, detached, .inr rfl⟩ (.inl rfl) rfl rfl⟩
    show Inv epochs summary layout home'' lanes' [] (world.release epochs key)
    unfold World.release Pool.freeTask
    rw [leave_eq world key detached, detached]
    refine done.forgets ?_
    intro key' old
    show key' ∈ root :: key :: world.freed
    exact (List.Perm.swap _ _ _).mem_iff.mp old

omit [DecidableEq G] in
theorem giveBack_frame (world : World S G) (key : Key G) (id : Nat) :
    (world.giveBack key id).roots = world.roots ∧ (world.giveBack key id).freed = world.freed := by
  unfold World.giveBack
  cases world.chains id <;> exact ⟨rfl, rfl⟩

/-- What is left of a reclaim once the roots are settled. -/
theorem renew_back (h : Inv epochs summary layout home lanes [key] world) (lawful : epochs.Lawful)
    (here : world.chains id ≠ none) :
    (∃ slots' home', world.arena.slots.renew epochs key = (none, slots') ∧
      Inv epochs summary layout home' lanes []
        { world.store world.arena.pool slots' with freed := key :: world.freed }) ∨
    ∃ next slots' home', world.arena.slots.renew epochs key = (some next, slots') ∧
      Inv epochs summary layout home' lanes []
        ({ world.store world.arena.pool slots'
            with freed := key :: world.freed }.giveBack next id) := by
  rcases h.renew lawful with ⟨slots', ⟨next, renewed, -, after⟩ | ⟨renewed, after⟩⟩
  · exact .inr ⟨next, slots', _, renewed, after.publish_chain here⟩
  · exact .inl ⟨slots', home, renewed, after⟩

section

variable (h : Inv epochs summary layout home lanes [] world)

include h

theorem step_reclaim (lawful : epochs.Lawful)
    (ok : (∃ root, (key, root) ∈ world.tasks) ∧ world.chains id ≠ none) :
    Kept epochs summary layout (.reclaim key id) world lanes (world.reclaim epochs key id) := by
  rcases ok with ⟨⟨root, mem⟩, here⟩
  rcases h.detach mem with ⟨lanes', stay, left⟩
  unfold World.reclaim
  rcases left with ⟨slots', detached, -, after⟩ | ⟨slots', detached, -, after⟩
  · rw [detached]
    dsimp only [Pool.recycleSome]
    have follows := fun output world' roots freed =>
      @leave_follows _ _ _ _ _ _ _ _ lanes' _ world' (.reclaim key id) output h _ _ mem stay
        ⟨_, _, detached, .inl rfl⟩ (.inr ⟨id, rfl⟩) roots freed
    rw [leave_eq world key detached] at follows ⊢
    rcases after.renew_back lawful here with
      ⟨slots'', home', renewed, done⟩ | ⟨next, slots'', home', renewed, done⟩
    · rw [show (slots'.unbind key.index).renew epochs key = _ from renewed]
      exact ⟨home', lanes', done, follows _ _ rfl rfl⟩
    · rw [show (slots'.unbind key.index).renew epochs key = _ from renewed]
      refine ⟨home', lanes', done, follows _ _ (giveBack_frame ..).1 (giveBack_frame ..).2⟩
  · rcases (after.perm_held (List.Perm.swap _ _ _)).recycle lawful with ⟨home₁, after⟩
    rw [detached]
    dsimp only [Pool.recycleSome]
    have follows := fun output world' roots freed =>
      @leave_follows _ _ _ _ _ _ _ _ lanes' _ world' (.reclaim key id) output h _ _ mem stay
        ⟨_, _, detached, .inr rfl⟩ (.inr ⟨id, rfl⟩) roots freed
    rw [leave_eq world key detached] at follows ⊢
    rcases after.renew_back lawful here with
      ⟨slots'', home', renewed, done⟩ | ⟨next, slots'', home', renewed, done⟩
    · rw [show (world.arena.pool.recycle epochs (slots'.unbind key.index) root).2.renew epochs key = _
        from renewed]
      exact ⟨home', lanes', done, follows _ _ rfl rfl⟩
    · rw [show (world.arena.pool.recycle epochs (slots'.unbind key.index) root).2.renew epochs key = _
        from renewed]
      refine ⟨home', lanes', done, follows _ _ (giveBack_frame ..).1 (giveBack_frame ..).2⟩

/-! ## Drains -/

/-- A pop takes the first task of the lane, and nothing else. -/
theorem pop_first (ok : ∃ drain ∈ world.drains, drain.root = root ∧ drain.side = side) :
    (world.pop epochs root side).1 = .task ((lanes root.index side).head?.map fun x =>
      ((world.arena.slots x).record epochs).local_) ∧
    Inv epochs summary layout home (update lanes root.index
      (update (lanes root.index) side (lanes root.index side).tail)) []
      (world.pop epochs root side).2 := by
  rcases ok with ⟨drain, mem, rfl, rfl⟩
  have here := h.busy.bound.endpoint _ (h.busy.bound.drain drain mem).1
  have old := h.busy.bound.rooted _ here
  unfold World.pop Topology.pop
  rw [old.head_eq]
  cases lane : lanes drain.root.index drain.side with
  | nil =>
    have same : update lanes drain.root.index
        (update (lanes drain.root.index) drain.side []) = lanes := by
      rw [← lane, update_eq_self, update_eq_self]
    rw [List.tail_nil, same]
    exact ⟨rfl, h⟩
  | cons index rest =>
    have next := h.unlink here (lane ▸ List.mem_cons_self : index ∈ lanes drain.root.index drain.side)
    rw [lane, List.erase_cons_head] at next
    exact ⟨rfl, next⟩

theorem step_pop (ok : ∃ drain ∈ world.drains, drain.root = root ∧ drain.side = side) :
    Kept epochs summary layout (.pop root side) world lanes (world.pop epochs root side) := by
  rcases h.pop_first ok with ⟨out, next⟩
  refine ⟨home, _, next, ?_, fun _ old => old, fun _ => .inl⟩
  rcases ok with ⟨drain, mem, rfl, rfl⟩
  have here := h.busy.bound.endpoint _ (h.busy.bound.drain drain mem).1
  intro r live side x waits
  by_cases same : r.index = drain.root.index
  · have equal := h.busy.root_injective here live same
    subst equal
    rw [update_self]
    by_cases lane : side = drain.side
    · subst lane
      rw [update_self]
      cases first : lanes drain.root.index drain.side with
      | nil =>
        rw [first] at waits
        cases waits
      | cons index rest =>
        rw [first] at waits out
        rcases List.mem_cons.mp waits with rfl | waits
        · exact .inr (.inl ⟨rfl, rfl, out⟩)
        · exact .inl waits
    · rw [update_of_ne lane]
      exact .inl waits
  · rw [update_of_ne same]
    exact .inl waits

theorem step_begin (ends : root ∈ world.endpoints) :
    Kept epochs summary layout input world lanes (world.begin root) := by
  have frame : (world.begin root).2.roots = world.roots ∧
      (world.begin root).2.freed = world.freed := by
    unfold World.begin
    split <;> exact ⟨rfl, rfl⟩
  exact (h.begin ends).keeps frame.1 fun key old => by rw [frame.2]; exact old

theorem step_finish (ok : ∃ drain ∈ world.drains, drain.root = root ∧ drain.side = side) :
    Kept epochs summary layout input world lanes (output, world.finish root side) :=
  (h.finish ok).keeps rfl fun _ old => old

/-! ## Every input -/

end

theorem step (h : Inv epochs summary layout home lanes [] world) (lawful : epochs.Lawful)
    (words : summary.Lawful layout.capacity.words) (ok : world.allowed input) :
    Kept epochs summary layout input world lanes (world.step epochs summary input) := by
  cases input with
  | makeSlot target => exact h.step_makeSlot target
  | dropSlot key => exact h.step_dropSlot lawful words ok
  | activateSlot key =>
    have ready := h.dispatch_ready ok
    refine h.step_queue words ready.1 ?_
    intro i same
    cases same
    exact .inr ready.2
  | takeSlot key => exact h.step_queue words (h.dispatch_ready ok).1 (fun _ no => nomatch no)
  | wake live key => exact h.step_wake words live key
  | tryActivate live key => exact h.step_tryActivate words live key
  | activateFd index =>
    refine h.step_queue words (h.descriptor_ready ok) ?_
    intro i same
    cases same
    exact .inl ok
  | unqueueFd index => exact h.step_queue words (h.descriptor_ready ok) (fun _ no => nomatch no)
  | admission live parent => exact h.step_admission live parent
  | dropAdmission key => exact h.step_dropAdmission lawful ok
  | makePool id count => exact h.step_makePool ok count
  | makeDomain live parent id count => exact h.step_makeDomain live parent ok count
  | claim id => exact h.step_claim id
  | dropLease key id => exact h.step_dropLease ok
  | takeLease key id => exact h.step_takeLease ok
  | dropDomain id => exact h.step_dropDomain ok.2
  | makeTopology => exact h.step_makeTopology
  | dropTopology key => exact h.step_dropTopology lawful ok
  | bind key parent root local_ => exact h.step_bind ok.1 ok.2.2
  | release key => exact h.step_release lawful ok
  | reclaim key id => exact h.step_reclaim lawful ok
  | begin root => exact h.step_begin ok
  | pop root side => exact h.step_pop ok
  | finish root side => exact h.step_finish ok
  | drain targets budget => exact h.step_dispatch words targets trivial (fun _ no => nomatch no)
  | resume targets => exact h.step_dispatch words targets ok (fun _ no => nomatch no)

end Inv

end Dope.Core.Ready.Arena
