import Dope.Core.Ready.Arena.Steps

/-! # Parents stay what they are

A task is bound with its parent, and no other operation of the arena writes that
word of a slot that is a task afterwards.
-/

namespace Dope.Core.Ready.Arena

variable {S G : Type} {epochs : Epochs G} {slots slots' slots'' : Slots G}

/-! ## Slots -/

/-- Every task was one before, with the same parent. -/
structure Inherits (slots slots' : Slots G) : Prop where
  kept : ∀ j, (slots' j).kind = .task →
    (slots j).kind = .task ∧ (slots' j).word0 = (slots j).word0

namespace Inherits

theorem refl (slots : Slots G) : Inherits slots slots := ⟨fun _ task => ⟨task, rfl⟩⟩

theorem trans (h : Inherits slots slots') (h' : Inherits slots' slots'') :
    Inherits slots slots'' where
  kept := by
    intro j task
    rcases h'.kept j task with ⟨middle, same'⟩
    rcases h.kept j middle with ⟨first, same⟩
    exact ⟨first, same'.trans same⟩

theorem modify (slots : Slots G) {index : Nat} {edit : Cell G → Cell G}
    (kept : (edit (slots index)).kind = .task →
      (slots index).kind = .task ∧ (edit (slots index)).word0 = (slots index).word0) :
    Inherits slots (slots.modify index edit) where
  kept := by
    intro j task
    by_cases here : j = index
    · subst here
      rw [Slots.modify_self] at task ⊢
      exact kept task
    · rw [Slots.modify_other _ _ here] at task ⊢
      exact ⟨task, rfl⟩

theorem turn (slots : Slots G) (index : Nat) (edit : Cell G → Cell G) (kind : Kind)
    (turned : (edit (slots index)).kind = kind) (other : kind ≠ .task) :
    Inherits slots (slots.modify index edit) := by
  apply modify
  intro task
  exact absurd (turned.symm.trans task) other

theorem reserve (slots : Slots G) (index : Nat) : Inherits slots (slots.reserve index).2 :=
  turn slots index (·.setKind .reserved) .reserved rfl (by decide)

theorem unbind (slots : Slots G) (index : Nat) : Inherits slots (slots.unbind index) :=
  turn slots index (·.setKind .reserved) .reserved rfl (by decide)

theorem dispatch (slots : Slots G) (key : Key G) (target : Token) :
    Inherits slots (slots.dispatch key target) :=
  turn slots key.index (fun cell => (cell.setDispatch target).setKind .dispatch) .dispatch rfl
    (by decide)

theorem topology (slots : Slots G) (key : Key G) : Inherits slots (slots.topology key) :=
  turn slots key.index (fun cell => (cell.overwrite (0, 0, 0)).setKind .topology) .topology rfl
    (by decide)

theorem publish (slots : Slots G) (key : Key G) (next : Nat) :
    Inherits slots (slots.publish key next) :=
  turn slots key.index (fun cell => (cell.setFree next).setKind .free) .free rfl (by decide)

theorem renew (epochs : Epochs G) (slots : Slots G) (key : Key G) :
    Inherits slots (slots.renew epochs key).2 := by
  unfold Slots.renew
  split
  · rename_i next _
    have kept : Inherits slots (slots.modify key.index (·.setEpoch next)) := by
      apply modify
      intro task
      exact ⟨task, rfl⟩
    exact kept
  · exact turn slots key.index (·.setKind .retired) .retired rfl (by decide)

theorem link {tail : Nat} (free : (slots tail).kind = .free) (next : Nat) :
    Inherits slots (slots.link tail next) :=
  turn slots tail (·.setFree next) .free free (by decide)

theorem setState (slots : Slots G) (root : Nat) (state : State) :
    Inherits slots (Topology.setState slots root state) := by
  apply modify
  intro task
  exact ⟨task, rfl⟩

end Inherits

/-! ## Pool -/

variable {key : Key G}

theorem Pool.claim_inherits {pool pool' : Pool}
    (claimed : pool.claim slots = some (key, pool', slots')) : Inherits slots slots' := by
  unfold Pool.claim at claimed
  split at claimed
  · cases claimed
  · cases claimed
    exact .reserve ..

theorem Chain.tryClaim_inherits {chain chain' : Chain}
    (claimed : chain.tryClaim slots = some (key, chain', slots')) : Inherits slots slots' := by
  unfold Chain.tryClaim at claimed
  split at claimed
  · cases claimed
  · cases claimed
    exact .reserve ..

theorem Chain.restore_inherits (chain : Chain) (slots : Slots G) (key : Key G) :
    Inherits slots (chain.restore slots key).2 := by
  unfold Chain.restore
  split <;> exact .publish ..

theorem Pool.recycle_inherits (epochs : Epochs G) (pool : Pool) (slots : Slots G) (key : Key G) :
    Inherits slots (pool.recycle epochs slots key).2 := by
  have renewed := Inherits.renew epochs slots key
  unfold Pool.recycle
  split
  · rename_i _ slots' ran
    rw [ran] at renewed
    exact renewed
  · rename_i _ next slots' ran
    rw [ran] at renewed
    exact renewed.trans (.publish ..)

theorem Pool.recycleSome_inherits (epochs : Epochs G) (pool : Pool) (slots : Slots G)
    (key : Option (Key G)) : Inherits slots (pool.recycleSome epochs slots key).2 := by
  cases key with
  | none => exact .refl _
  | some key => exact Pool.recycle_inherits ..

/-! ## Topologies -/

namespace Topology

variable {root index : Nat} {mine : List Nat} {lanes : Lane → List Nat} {side : Lane}

/-- The ends of the lanes lie in the words of the root, which is no task. -/
theorem push_inherits (h : Lanes slots root mine lanes) (out : root ∉ mine) (task : index ∈ mine)
    (vacant : (slots index).queue = none) (other : (slots root).kind ≠ .task) :
    Inherits slots (push slots root index side) where
  kept := by
    intro j now
    rw [(push_kept h out task vacant j).1] at now
    have away : j ≠ root := fun same => other (same ▸ now)
    exact ⟨now, (push_words h out task vacant away).1⟩

theorem remove_inherits (h : Lanes slots root mine lanes) (out : root ∉ mine)
    (mem : index ∈ lanes side) (other : (slots root).kind ≠ .task) :
    Inherits slots (remove slots root index side) where
  kept := by
    intro j now
    rw [(remove_kept h out mem j).1] at now
    have away : j ≠ root := fun same => other (same ▸ now)
    exact ⟨now, (remove_words h out mem away).1⟩

theorem uncount_inherits (slots : Slots G) (root : Nat) : Inherits slots (uncount slots root).2 := by
  unfold uncount
  dsimp only
  split
  · exact (Inherits.setState ..).trans (.unbind ..)
  · exact .setState ..

theorem close_inherits (slots : Slots G) (key : Key G) : Inherits slots (close slots key).2 := by
  unfold close
  split
  · exact .unbind ..
  · exact .setState ..

theorem begin_inherits (slots : Slots G) (root : Nat) : Inherits slots (begin slots root).2 := by
  have started : ∀ state, Inherits slots (begin.start slots root state).2 := by
    intro state
    unfold begin.start
    dsimp only
    split
    · exact .refl _
    · exact .setState ..
  unfold begin
  dsimp only
  split
  · exact .refl _
  · split
    · split
      · exact .setState ..
      · exact started _
    · exact started _

end Topology

/-! ## Owners -/

variable {world world' : World S G}

/-- Tasks and ready slots are kept until their keys are freed. -/
structure Carries (world world' : World S G) : Prop where
  layout : world'.arena.layout = world.arena.layout
  tasks : ∀ t ∈ world.tasks, t ∈ world'.tasks ∨ t.1 ∈ world'.freed
  dispatches : ∀ d ∈ world.dispatches, d ∈ world'.dispatches ∨ d.1 ∈ world'.freed
  freed : ∀ key ∈ world.freed, key ∈ world'.freed

theorem Carries.same (layout : world'.arena.layout = world.arena.layout)
    (tasks : world'.tasks = world.tasks) (dispatches : world'.dispatches = world.dispatches)
    (freed : ∀ key ∈ world.freed, key ∈ world'.freed) : Carries world world' where
  layout := layout
  tasks _ mem := .inl (tasks ▸ mem)
  dispatches _ mem := .inl (dispatches ▸ mem)
  freed := freed

theorem Carries.kept (layout : world'.arena.layout = world.arena.layout)
    (tasks : world'.tasks = world.tasks) (dispatches : world'.dispatches = world.dispatches)
    (freed : world'.freed = world.freed) : Carries world world' :=
  .same layout tasks dispatches fun _ mem => freed ▸ mem

theorem Carries.refl (world : World S G) : Carries world world := .kept rfl rfl rfl rfl

theorem Carries.trans {world'' : World S G} (h : Carries world world')
    (h' : Carries world' world'') : Carries world world'' where
  layout := h'.layout.trans h.layout
  tasks := by
    intro t mem
    rcases h.tasks t mem with kept | gone
    · exact h'.tasks t kept
    · exact .inr (h'.freed _ gone)
  dispatches := by
    intro d mem
    rcases h.dispatches d mem with kept | gone
    · exact h'.dispatches d kept
    · exact .inr (h'.freed _ gone)
  freed key mem := h'.freed key (h.freed key mem)

namespace World

theorem giveBack_carries (world : World S G) (key : Key G) (id : Nat) :
    Carries world (world.giveBack key id) := by
  unfold giveBack
  split
  · exact .refl _
  · exact .kept rfl rfl rfl rfl

theorem makePool_carries (world : World S G) (id count : Nat) :
    Carries world (world.makePool id count).2 := by
  unfold makePool
  split
  · exact .refl _
  · split
    · exact .refl _
    · exact .kept rfl rfl rfl rfl

variable [DecidableEq G]

theorem forget_carries (world : World S G) (root : Option (Key G)) :
    Carries world (world.forget root) := by
  cases root with
  | none => exact .refl _
  | some root => exact .same rfl rfl rfl fun _ => List.mem_cons_of_mem _

theorem leave_carries (epochs : Epochs G) (world : World S G) (key : Key G) :
    Carries world (world.leave epochs key) := by
  unfold leave
  generalize (Topology.detach epochs world.arena.slots key.index).1 = root
  have first := forget_carries world root
  have tasks : (world.forget root).tasks = world.tasks := by cases root <;> rfl
  have dispatches : (world.forget root).dispatches = world.dispatches := by cases root <;> rfl
  refine ⟨first.layout, ?_, ?_, fun key' mem => List.mem_cons_of_mem _ (first.freed key' mem)⟩
  · intro t mem
    by_cases same : t.1 = key
    · right
      rw [same]
      exact List.mem_cons_self
    · left
      exact List.mem_filter.mpr ⟨mem, decide_eq_true same⟩
  · intro d mem
    left
    rw [dispatches]
    exact mem

theorem step_carries (epochs : Epochs G) (summary : Index.Summary S Side) (world : World S G)
    (input : Input G) : Carries world (world.step epochs summary input).2 := by
  cases input with
  | activateSlot _ | takeSlot _ | activateFd _ | unqueueFd _ | takeLease _ _ | pop _ _ | finish _ _ =>
    exact .kept rfl rfl rfl rfl
  | dropAdmission key => exact .same rfl rfl rfl fun _ => List.mem_cons_of_mem _
  | makeSlot target =>
    dsimp only [step]
    unfold makeSlot
    split
    · exact .refl _
    · exact ⟨rfl, fun _ => .inl, fun _ mem => .inl (List.mem_cons_of_mem _ mem), fun _ => id⟩
  | dropSlot key =>
    refine ⟨rfl, fun _ => .inl, ?_, fun _ => List.mem_cons_of_mem _⟩
    intro d mem
    by_cases same : d.1 = key
    · right
      rw [same]
      exact List.mem_cons_self
    · left
      exact List.mem_filter.mpr ⟨mem, decide_eq_true same⟩
  | wake live key =>
    dsimp only [step]
    unfold wake
    split
    · exact .refl _
    · exact .kept rfl rfl rfl rfl
    · dsimp only
      split
      · exact .refl _
      · exact .kept rfl rfl rfl rfl
  | tryActivate live key =>
    dsimp only [step]
    unfold tryActivate
    split
    · exact .refl _
    · exact .kept rfl rfl rfl rfl
  | admission live parent =>
    dsimp only [step]
    unfold admission
    split
    · exact .refl _
    · split
      · exact .refl _
      · exact .kept rfl rfl rfl rfl
  | makePool id count => exact makePool_carries ..
  | makeDomain live parent id count =>
    dsimp only [step]
    unfold makeDomain
    split
    · exact .refl _
    · exact makePool_carries ..
  | claim id =>
    dsimp only [step]
    unfold claim
    split
    · exact .refl _
    · exact .kept rfl rfl rfl rfl
  | dropLease key id =>
    have back := giveBack_carries world key id
    exact ⟨back.layout, back.tasks, back.dispatches, back.freed⟩
  | dropDomain id =>
    dsimp only [step]
    unfold dropDomain
    split
    · exact .refl _
    · exact .kept rfl rfl rfl rfl
  | makeTopology =>
    dsimp only [step]
    unfold makeTopology
    split
    · exact .refl _
    · exact .kept rfl rfl rfl rfl
  | dropTopology key =>
    have gone := forget_carries (world.store
      (world.arena.pool.releaseRoot epochs world.arena.slots key).1
      (world.arena.pool.releaseRoot epochs world.arena.slots key).2)
      (Topology.close world.arena.slots key).1
    exact ⟨gone.layout, gone.tasks, gone.dispatches, gone.freed⟩
  | bind key parent root local_ =>
    exact ⟨rfl, fun _ mem => .inl (List.mem_cons_of_mem _ mem), fun _ => .inl, fun _ => id⟩
  | release key =>
    have left := leave_carries epochs world key
    exact ⟨left.layout, left.tasks, left.dispatches, left.freed⟩
  | reclaim key id =>
    have left := leave_carries epochs world key
    dsimp only [step]
    unfold reclaim
    dsimp only
    split
    · exact ⟨left.layout, left.tasks, left.dispatches, left.freed⟩
    · refine Carries.trans ?_ (giveBack_carries _ _ id)
      exact ⟨left.layout, left.tasks, left.dispatches, left.freed⟩
  | begin root =>
    dsimp only [step]
    unfold begin
    split
    · exact .kept rfl rfl rfl rfl
    · exact .kept rfl rfl rfl rfl
  | drain targets budget =>
    dsimp only [step]
    unfold dispatch
    split <;> exact .kept rfl rfl rfl rfl
  | resume targets =>
    dsimp only [step]
    unfold dispatch
    split <;> exact .kept rfl rfl rfl rfl

end World

/-! ## Steps -/

theorem World.giveBack_inherits (world : World S G) (key : Key G) (id : Nat) :
    Inherits world.arena.slots (world.giveBack key id).arena.slots := by
  unfold World.giveBack
  split
  · exact .refl _
  · exact Chain.restore_inherits ..

variable {root : Key G}

namespace Inv

variable [DecidableEq G] {summary : Index.Summary S Side} {layout : Layout}
  {home : Option Nat → List Nat} {lanes : Nat → Lane → List Nat} {held : List (Key G)}

section

variable (h : Inv epochs summary layout home lanes held world)

include h

theorem root_not_task (mem : root ∈ world.roots) : (world.arena.slots root.index).kind ≠ .task := by
  rw [h.busy.root_kind mem]
  decide

theorem detach_inherits (mem : (key, root) ∈ world.tasks) :
    Inherits world.arena.slots (Topology.detach epochs world.arena.slots key.index).2 := by
  rcases h.task_root mem with ⟨here, out, task, topology⟩
  have listed := (h.busy.bound.rooted root here).listed
  rw [Topology.detach_eq]
  dsimp only
  rw [topology]
  cases queue : (world.arena.slots key.index).queue with
  | none => exact Topology.uncount_inherits ..
  | some side =>
    have there := (listed.member side key.index).mpr ⟨task, queue⟩
    exact (Topology.remove_inherits listed out there (h.root_not_task here)).trans
      (Topology.uncount_inherits ..)

theorem tryTake_inherits {count : Nat} (pos : 0 < count) {chain : Chain} {pool : Pool}
    (taken : world.arena.pool.tryTake world.arena.slots count = .ok (chain, pool, slots')) :
    Inherits world.arena.slots slots' := by
  rw [h.pool] at taken
  by_cases few : (home none).length < count
  · rcases tryTake_error few with ⟨available, failed⟩
    rw [failed] at taken
    cases taken
  · rcases split_last pos (Nat.le_of_not_lt few) with ⟨before, tail, after, whole, length⟩
    have linked := h.homes.linked none
    rw [whole] at taken linked
    have free : (world.arena.slots tail).kind = .free :=
      h.homes.kind_of_mem (whole ▸ List.mem_append.mpr (.inr List.mem_cons_self))
    rw [← length, tryTake_append linked] at taken
    cases taken
    exact .link free _

theorem makePool_inherits (id count : Nat) :
    Inherits world.arena.slots (world.makePool id count).2.arena.slots := by
  unfold World.makePool
  split
  · exact .refl _
  · rename_i some
    split
    · exact .refl _
    · rename_i chain pool slots' taken
      exact h.tryTake_inherits (Nat.pos_of_ne_zero some) taken

theorem dropDomain_inherits (id : Nat) :
    Inherits world.arena.slots (world.dropDomain id).arena.slots := by
  unfold World.dropDomain
  rcases h.chains id with ⟨none, -⟩ | kept
  · rw [none]
    exact .refl _
  · rw [kept]
    dsimp only
    rcases List.eq_nil_or_concat (home (some id)) with empty | ⟨before, tail, whole⟩
    · rw [empty]
      exact .refl _
    · rw [List.concat_eq_append] at whole
      have free : (world.arena.slots tail).kind = .free :=
        h.homes.kind_of_mem (whole ▸ List.mem_append.mpr (.inr List.mem_cons_self))
      rw [whole, chainOf_append]
      exact .link free _

theorem wake_inherits (live : Nat → G → Bool) (key : Key G) :
    Inherits world.arena.slots (world.wake epochs summary live key).2.arena.slots := by
  unfold World.wake
  cases found : world.arena.resolve live key with
  | none => exact .refl _
  | some entry =>
    rcases h.resolve_spec live key found with ⟨i, rfl, -, -⟩ | ⟨rfl, root, mem⟩
    · exact .refl _
    · dsimp only
      rcases h.task_root mem with ⟨here, out, task, topology⟩
      rw [topology]
      unfold Topology.activate
      cases queue : (world.arena.slots key.index).queue with
      | some side => exact .refl _
      | none =>
        have listed := (h.busy.bound.rooted root here).listed
        exact Topology.push_inherits listed out task queue (h.root_not_task here)

theorem release_inherits (mem : (key, root) ∈ world.tasks) :
    Inherits world.arena.slots (world.release epochs key).arena.slots := by
  have detached := h.detach_inherits mem
  unfold World.release Pool.freeTask
  generalize Topology.detach epochs world.arena.slots key.index = answer at detached ⊢
  rcases answer with ⟨gone, slots'⟩
  exact ((detached.trans (.unbind slots' key.index)).trans (Pool.recycle_inherits ..)).trans
    (Pool.recycleSome_inherits ..)

theorem reclaim_inherits (mem : (key, root) ∈ world.tasks) (id : Nat) :
    Inherits world.arena.slots (world.reclaim epochs key id).2.arena.slots := by
  have detached := h.detach_inherits mem
  unfold World.reclaim
  generalize Topology.detach epochs world.arena.slots key.index = answer at detached ⊢
  rcases answer with ⟨gone, slots'⟩
  have freed := (detached.trans (.unbind slots' key.index)).trans
    (Pool.recycleSome_inherits epochs world.arena.pool (slots'.unbind key.index) gone)
  dsimp only
  generalize world.arena.pool.recycleSome epochs (slots'.unbind key.index) gone = answer at freed ⊢
  rcases answer with ⟨pool, slots''⟩
  have renewed := freed.trans (.renew epochs slots'' key)
  dsimp only at renewed ⊢
  generalize slots''.renew epochs key = answer at renewed ⊢
  rcases answer with ⟨next, last⟩
  cases next with
  | none => exact renewed
  | some next =>
    exact renewed.trans
      (((world.leave epochs key).store pool last).giveBack_inherits next id)

theorem step_inherits {input : Input G} (ok : world.allowed input)
    (other : ∀ key parent root local_, input ≠ .bind key parent root local_) :
    Inherits world.arena.slots (world.step epochs summary input).2.arena.slots := by
  cases input with
  | activateSlot _ | takeSlot _ | activateFd _ | unqueueFd _ | takeLease _ _ => exact .refl _
  | makeSlot target =>
    dsimp only [World.step]
    unfold World.makeSlot
    split
    · exact .refl _
    · rename_i key pool slots' claimed
      exact (Pool.claim_inherits claimed).trans (.dispatch slots' key target)
  | dropSlot key => exact (Inherits.unbind ..).trans (Pool.recycle_inherits ..)
  | wake live key => exact h.wake_inherits live key
  | tryActivate live key =>
    dsimp only [World.step]
    unfold World.tryActivate
    split <;> exact .refl _
  | admission live parent =>
    dsimp only [World.step]
    unfold World.admission
    split
    · exact .refl _
    · split
      · exact .refl _
      · rename_i claimed
        exact Pool.claim_inherits claimed
  | dropAdmission key => exact Pool.recycle_inherits ..
  | makePool id count => exact h.makePool_inherits id count
  | makeDomain live parent id count =>
    dsimp only [World.step]
    unfold World.makeDomain
    split
    · exact .refl _
    · exact h.makePool_inherits id count
  | claim id =>
    dsimp only [World.step]
    unfold World.claim
    split
    · exact .refl _
    · rename_i claimed
      rcases Option.bind_eq_some_iff.mp claimed with ⟨chain, -, claimed⟩
      exact Chain.tryClaim_inherits claimed
  | dropLease key id => exact World.giveBack_inherits ..
  | dropDomain id => exact h.dropDomain_inherits id
  | makeTopology =>
    dsimp only [World.step]
    unfold World.makeTopology
    split
    · exact .refl _
    · rename_i key pool slots' claimed
      exact (Pool.claim_inherits claimed).trans (.topology slots' key)
  | dropTopology key =>
    have closed := (Topology.close_inherits world.arena.slots key).trans
      (Pool.recycleSome_inherits epochs world.arena.pool
        (Topology.close world.arena.slots key).2 (Topology.close world.arena.slots key).1)
    dsimp only [World.step]
    unfold World.dropTopology
    dsimp only
    cases (Topology.close world.arena.slots key).1 <;> exact closed
  | bind key parent root local_ => exact absurd rfl (other key parent root local_)
  | release key =>
    rcases ok with ⟨root, mem⟩
    exact h.release_inherits mem
  | reclaim key id =>
    rcases ok.1 with ⟨root, mem⟩
    exact h.reclaim_inherits mem id
  | begin root =>
    have begun := Topology.begin_inherits world.arena.slots root.index
    dsimp only [World.step]
    unfold World.begin
    generalize Topology.begin world.arena.slots root.index = answer at begun ⊢
    rcases answer with ⟨side, slots'⟩
    cases side <;> exact begun
  | pop root side =>
    rcases ok with ⟨drain, mem, rfl, rfl⟩
    have here := h.busy.bound.endpoint _ (h.busy.bound.drain drain mem).1
    have old := h.busy.bound.rooted _ here
    dsimp only [World.step]
    unfold World.pop Topology.pop
    rw [old.head_eq]
    cases first : (lanes drain.root.index drain.side).head? with
    | none => exact .refl _
    | some index =>
      exact Topology.remove_inherits old.listed (h.busy.root_not_attached here)
        (List.mem_of_mem_head? first) (h.root_not_task here)
  | finish root side => exact .setState ..
  | drain targets budget =>
    dsimp only [World.step]
    unfold World.dispatch
    split <;> exact .refl _
  | resume targets =>
    dsimp only [World.step]
    unfold World.dispatch
    split <;> exact .refl _

end

end Inv

end Dope.Core.Ready.Arena
