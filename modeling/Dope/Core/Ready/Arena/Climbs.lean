import Mathlib.Algebra.Group.Nat.Defs
import Dope.Core.Ready.Arena.Parents
import Dope.Core.Ready.Arena.Runs

/-! # Climbs along the parents

A key that was good once never gets another parent: it keeps the one of its task
until the task is gone, and the slot is in another generation after that. So a climb
along the parents only becomes shorter, whatever the slots are used for.
-/

set_option linter.dupNamespace false

namespace Dope.Core.Ready.Arena

variable {S G : Type} [DecidableEq G]

/-- The key names a task that was bound with this parent. -/
def Arena.Parent (epochs : Epochs G) (arena : Arena S G) (key parent : Key G) : Prop :=
  ∃ live index, arena.resolve live key = some (.task index) ∧
    ((arena.slots index).record epochs).parent = parent

/-- From the key there are so many parents, one after the other. -/
inductive Arena.Climbs (epochs : Epochs G) (arena : Arena S G) : Nat → Key G → Prop where
  | stop {key : Key G} : (∀ parent, ¬ arena.Parent epochs key parent) → Climbs epochs arena 0 key
  | hop {n : Nat} {key parent : Key G} :
      arena.Parent epochs key parent → Climbs epochs arena n parent →
      Climbs epochs arena (n + 1) key

/-- A key that was good once: of a descriptor, of a task or a ready slot, or freed. -/
def World.Settled (world : World S G) (key : Key G) : Prop :=
  key.index < world.arena.layout.descriptors ∨ (∃ root, (key, root) ∈ world.tasks) ∨
    (∃ target, (key, target) ∈ world.dispatches) ∨ key ∈ world.freed

variable {epochs : Epochs G} {summary : Index.Summary S Side} {layout : Layout}
  {home home' : Option Nat → List Nat} {lanes lanes' : Nat → Lane → List Nat} {held : List (Key G)}
  {world world' world'' : World S G} {arena : Arena S G} {key : Key G}

/-! ## Keys of tasks -/

variable {live : Nat → G → Bool} {index : Nat}

section

variable (found : arena.resolve live key = some (.task index))

include found

theorem Arena.resolve_task {live' : Nat → G → Bool} :
    arena.resolve live' key = some (.task index) := by
  unfold resolve at found ⊢
  split at found
  · split at found <;> cases found
  · rename_i high
    rw [if_neg high]
    exact found

theorem Arena.resolve_names :
    index = key.index ∧ (arena.slots index).kind = .task ∧
      (arena.slots index).generation = key.epoch := by
  unfold resolve at found
  split at found
  · split at found <;> cases found
  · split at found
    · cases found
    · dsimp only at found
      split at found
      · cases found
      · rename_i same
        split at found <;> cases found
        rename_i kind
        exact ⟨rfl, kind, not_not.mp same⟩

theorem Arena.resolve_injective {live' : Nat → G → Bool} {key' : Key G}
    (found' : arena.resolve live' key' = some (.task index)) : key' = key := by
  rcases Arena.resolve_names found with ⟨at_, -, epoch⟩
  rcases Arena.resolve_names found' with ⟨at', -, epoch'⟩
  cases key
  cases key'
  dsimp only at at_ at' epoch epoch'
  rw [← at_, ← at', ← epoch, ← epoch']

end

variable {parent : Key G}

theorem Arena.Parent.unique {parent' : Key G} (h : arena.Parent epochs key parent)
    (h' : arena.Parent epochs key parent') : parent' = parent := by
  rcases h with ⟨live, index, found, rfl⟩
  rcases h' with ⟨live', index', found', rfl⟩
  rw [(Arena.resolve_names found).1, (Arena.resolve_names found').1]

variable {n : Nat}

theorem Arena.Climbs.unique {m : Nat} (h : arena.Climbs epochs m key)
    (h' : arena.Climbs epochs n key) : m = n := by
  induction h generalizing n with
  | stop none =>
    cases h' with
    | stop _ => rfl
    | hop edge _ => exact absurd edge (none _)
  | hop edge _ ih =>
    cases h' with
    | stop none => exact absurd edge (none _)
    | hop edge' rest =>
      rw [edge.unique edge'] at rest
      rw [ih rest]

/-- Where every key has an end to climb to, the climb is shorter from above. -/
theorem Arena.Climbs.lower {above : Key G}
    (path : Relation.TransGen (arena.Parent epochs) key above) {m : Nat}
    (climbs : arena.Climbs epochs n key) (climbs' : arena.Climbs epochs m above) : m < n := by
  induction path generalizing m with
  | single edge =>
    rw [climbs.unique (.hop edge climbs')]
    exact Nat.lt_succ_self m
  | tail _ edge ih =>
    have less := ih (.hop edge climbs')
    omega

theorem Arena.Climbs.acyclic (ends : ∀ key, ∃ n, arena.Climbs epochs n key) :
    ¬ Relation.TransGen (arena.Parent epochs) key key := by
  intro path
  rcases ends key with ⟨n, climbs⟩
  exact absurd (Arena.Climbs.lower path climbs climbs) (Nat.lt_irrefl n)

variable {root : Key G}

namespace Inv

section

variable (h : Inv epochs summary layout home lanes held world)

include h

theorem resolve_live (mem : (key, root) ∈ world.tasks) (live : Nat → G → Bool) :
    world.arena.resolve live key = some (.task key.index) := by
  rcases h.busy.task_live mem with ⟨inside, kind, generation⟩
  unfold Arena.resolve
  rw [if_neg (Nat.not_lt_of_le inside.1), if_neg (Nat.not_le_of_lt inside.2)]
  dsimp only at kind generation ⊢
  rw [if_neg (not_not.mpr generation), kind]

theorem parent_iff :
    world.arena.Parent epochs key parent ↔ (∃ root, (key, root) ∈ world.tasks) ∧
      ((world.arena.slots key.index).record epochs).parent = parent := by
  constructor
  · rintro ⟨live, index, found, rfl⟩
    rcases h.resolve_spec live key found with ⟨i, no, -⟩ | ⟨same, task⟩
    · cases no
    · cases same
      exact ⟨task, rfl⟩
  · rintro ⟨⟨root, mem⟩, rfl⟩
    exact ⟨fun _ _ => false, key.index, h.resolve_live mem _, rfl⟩

theorem not_task
    (other : key.index < world.arena.layout.descriptors ∨ (∃ target, (key, target) ∈
      world.dispatches) ∨ key ∈ world.freed) : ∀ root, (key, root) ∉ world.tasks := by
  intro root mem
  have live := h.busy.task_live mem
  rcases other with low | ⟨target, there⟩ | gone
  · exact absurd live.1.1 (Nat.not_le_of_lt low)
  · have kind := (h.busy.dispatch.live key (List.mem_map.mpr ⟨_, there, rfl⟩)).2.1
    rw [live.2.1] at kind
    cases kind
  · have dead := (h.busy.freed key gone).2.resolve live.1 fun _ _ => false
    rw [h.resolve_live mem] at dead
    cases dead

end

end Inv

/-! ## Later worlds -/

omit [DecidableEq G] in
theorem World.Settled.carried (settled : world.Settled key) (h : Carries world world') :
    world'.Settled key := by
  rcases settled with low | ⟨root, task⟩ | ⟨target, there⟩ | gone
  · exact .inl (h.layout ▸ low)
  · rcases h.tasks _ task with kept | gone
    · exact .inr (.inl ⟨root, kept⟩)
    · exact .inr (.inr (.inr gone))
  · rcases h.dispatches _ there with kept | gone
    · exact .inr (.inr (.inl ⟨target, kept⟩))
    · exact .inr (.inr (.inr gone))
  · exact .inr (.inr (.inr (h.freed key gone)))

/-- In a later world a key that was good once has no other parent than before. -/
structure Elder (epochs : Epochs G) (world world' : World S G) : Prop where
  carries : Carries world world'
  parent : ∀ key, world.Settled key → ∀ parent,
    world'.arena.Parent epochs key parent → world.arena.Parent epochs key parent

theorem Elder.refl (epochs : Epochs G) (world : World S G) : Elder epochs world world :=
  ⟨.refl world, fun _ _ _ => id⟩

theorem Elder.trans (h : Elder epochs world world') (h' : Elder epochs world' world'') :
    Elder epochs world world'' where
  carries := h.carries.trans h'.carries
  parent := by
    intro key settled parent edge
    exact h.parent key settled parent (h'.parent key (settled.carried h.carries) parent edge)

/-- The tasks have good parents. -/
def World.Sound (epochs : Epochs G) (world : World S G) : Prop :=
  ∀ key parent, world.arena.Parent epochs key parent → world.Settled parent

theorem Elder.climbs (h : Elder epochs world world') (sound : world.Sound epochs)
    (settled : world.Settled key) (climbs : world.arena.Climbs epochs n key) :
    ∃ m ≤ n, world'.arena.Climbs epochs m key := by
  induction climbs with
  | stop none =>
    exact ⟨0, Nat.le_refl _, .stop fun parent edge => none parent (h.parent _ settled _ edge)⟩
  | @hop n key parent edge _ ih =>
    rcases ih (sound _ _ edge) with ⟨m, less, rest⟩
    by_cases stays : world'.arena.Parent epochs key parent
    · exact ⟨m + 1, Nat.succ_le_succ less, .hop stays rest⟩
    · refine ⟨0, Nat.zero_le _, .stop ?_⟩
      intro parent' edge'
      rw [edge.unique (h.parent _ settled _ edge')] at edge'
      exact stays edge'

/-- A step whose tasks were there before, with the words they were bound with. -/
theorem Inv.elder (h : Inv epochs summary layout home lanes held world)
    (h' : Inv epochs summary layout home' lanes' [] world') (carries : Carries world world')
    (words : ∀ t ∈ world.tasks, t ∈ world'.tasks →
      (world'.arena.slots t.1.index).word0 = (world.arena.slots t.1.index).word0) :
    Elder epochs world world' where
  carries := carries
  parent := by
    intro key settled parent edge
    rcases h'.parent_iff.mp edge with ⟨⟨root', now⟩, rfl⟩
    have other : (key.index < world'.arena.layout.descriptors ∨
        (∃ target, (key, target) ∈ world'.dispatches) ∨ key ∈ world'.freed) →
        ∀ root, (key, root) ∉ world'.tasks := h'.not_task
    rcases settled with low | ⟨root, task⟩ | ⟨target, there⟩ | gone
    · exact absurd now (other (.inl (carries.layout ▸ low)) root')
    · rcases carries.tasks _ task with kept | gone
      · refine h.parent_iff.mpr ⟨⟨root, task⟩, ?_⟩
        unfold Cell.record
        rw [words _ task kept]
      · exact absurd now (other (.inr (.inr gone)) root')
    · rcases carries.dispatches _ there with kept | gone
      · exact absurd now (other (.inr (.inl ⟨target, kept⟩)) root')
      · exact absurd now (other (.inr (.inr gone)) root')
    · exact absurd now (other (.inr (.inr (carries.freed key gone))) root')

/-! ## Steps -/

variable {input : Input G}

namespace World

/-- What a bind leaves of the other slots that are no topology. -/
theorem bind_other (world : World S G) (local_ : BitVec 32) {i : Nat} (apart : i ≠ key.index) :
    ((world.bind epochs key parent root local_).arena.slots i).word0 =
      (world.arena.slots i).word0 := by
  have kept : (world.arena.slots.task epochs key parent root.index local_) i =
      world.arena.slots i := Slots.modify_other _ _ apart
  show ((Topology.attach (world.arena.slots.task epochs key parent root.index local_)
    root.index) i).word0 = _
  unfold Topology.attach Topology.setState
  by_cases here : i = root.index
  · subst here
    rw [Slots.modify_self]
    show ((world.arena.slots.task epochs key parent root.index local_) root.index).word0 = _
    rw [kept]
  · rw [Slots.modify_other _ _ here, kept]

theorem bind_parent (lawful : epochs.Lawful) (world : World S G) (local_ : BitVec 32)
    (fits : parent.index + 1 < 2 ^ 16) (apart : key.index ≠ root.index) :
    (((world.bind epochs key parent root local_).arena.slots key.index).record epochs).parent =
      parent := by
  have kept : (world.bind epochs key parent root local_).arena.slots key.index =
      ((world.arena.slots key.index).overwrite
        (taskWords epochs parent root.index local_)).setKind .task := by
    show (Topology.setState _ _ _) key.index = _
    unfold Topology.setState
    rw [Slots.modify_other _ _ apart]
    exact Slots.modify_self ..
  rw [kept]
  show (⟨identityIndex (identityWord parent.index (epochs.raw parent.epoch)),
    epochs.fromRaw (identityEpoch (identityWord parent.index (epochs.raw parent.epoch)))⟩ : Key G)
    = parent
  rw [identityIndex_word fits, identityEpoch_word, lawful.fromRaw_raw]

theorem step_tasks (world : World S G)
    (other : ∀ key parent root local_, input ≠ .bind key parent root local_) :
    ∀ t ∈ (world.step epochs summary input).2.tasks, t ∈ world.tasks := by
  have pooled : ∀ id count, (world.makePool id count).2.tasks = world.tasks := by
    intro id count
    unfold makePool
    split
    · rfl
    · split <;> rfl
  cases input with
  | bind key parent root local_ => exact absurd rfl (other key parent root local_)
  | dropLease key id =>
    dsimp only [step]
    unfold dropLease giveBack
    split <;> exact fun _ mem => mem
  | release key =>
    dsimp only [step]
    unfold release leave
    exact fun _ left => (List.mem_filter.mp left).1
  | reclaim key id =>
    dsimp only [step]
    unfold reclaim leave
    dsimp only
    split
    · exact fun _ left => (List.mem_filter.mp left).1
    · unfold giveBack
      split <;> exact fun _ left => (List.mem_filter.mp left).1
  | dropTopology key =>
    dsimp only [step]
    unfold dropTopology
    dsimp only
    cases (Topology.close world.arena.slots key).1 <;> exact fun _ mem => mem
  | makePool id count => exact fun _ mem => pooled id count ▸ mem
  | makeDomain live parent id count =>
    dsimp only [step]
    unfold makeDomain
    split
    · exact fun _ mem => mem
    · exact fun _ mem => pooled id count ▸ mem
  | wake live key =>
    dsimp only [step]
    unfold wake
    split
    · exact fun _ mem => mem
    · exact fun _ mem => mem
    · dsimp only
      split <;> exact fun _ mem => mem
  | admission live parent =>
    dsimp only [step]
    unfold admission
    split
    · exact fun _ mem => mem
    · split <;> exact fun _ mem => mem
  | makeSlot _ =>
    dsimp only [step]
    unfold makeSlot
    split <;> exact fun _ mem => mem
  | tryActivate _ _ =>
    dsimp only [step]
    unfold tryActivate
    split <;> exact fun _ mem => mem
  | claim _ =>
    dsimp only [step]
    unfold claim
    split <;> exact fun _ mem => mem
  | dropDomain _ =>
    dsimp only [step]
    unfold dropDomain
    split <;> exact fun _ mem => mem
  | makeTopology =>
    dsimp only [step]
    unfold makeTopology
    split <;> exact fun _ mem => mem
  | begin _ =>
    dsimp only [step]
    unfold begin
    split <;> exact fun _ mem => mem
  | drain _ _ | resume _ =>
    dsimp only [step]
    unfold dispatch
    split <;> exact fun _ mem => mem
  | dropSlot _ | activateSlot _ | takeSlot _ | activateFd _ | unqueueFd _ | dropAdmission _
  | takeLease _ _ | pop _ _ | finish _ _ => exact fun _ mem => mem

end World

namespace Inv

theorem bind_apart (h : Inv epochs summary layout home lanes held world) {t : Key G × Key G}
    (task : t ∈ world.tasks) (mem : key ∈ world.admissions) : t.1.index ≠ key.index := by
  intro same
  have kind := (h.busy.task_live task).2.1
  have reserved := (h.reserved.live key (by simp [Arena.reserved, mem])).2.1
  rw [same, reserved] at kind
  cases kind

theorem root_apart (h : Inv epochs summary layout home lanes held world)
    (ends : root ∈ world.endpoints) (mem : key ∈ world.admissions) : key.index ≠ root.index := by
  intro same
  have kind := h.busy.root_kind (h.busy.bound.endpoint root ends)
  have reserved := (h.reserved.live key (by simp [Arena.reserved, mem])).2.1
  rw [← same, reserved] at kind
  cases kind

/-- Every step leaves the keys that were good once with the parents they have. -/
theorem step_elder (h : Inv epochs summary layout home lanes [] world) (lawful : epochs.Lawful)
    (words : summary.Lawful layout.capacity.words) (ok : world.allowed input) :
    Elder epochs world (world.step epochs summary input).2 := by
  rcases h.step lawful words ok with ⟨home', lanes', next, -⟩
  refine h.elder next (world.step_carries epochs summary input) ?_
  intro t mem kept
  by_cases bound : ∃ key parent root local_, input = .bind key parent root local_
  · rcases bound with ⟨key, parent, root, local_, rfl⟩
    exact world.bind_other local_ (h.bind_apart mem ok.1)
  · have other : ∀ key parent root local_, input ≠ .bind key parent root local_ :=
      fun key parent root local_ same => bound ⟨key, parent, root, local_, same⟩
    exact ((h.step_inherits ok other).kept _ (next.busy.task_live kept).2.1).2

/-- A task has the parent it had, or the one it is bound with. -/
theorem step_edge (h : Inv epochs summary layout home lanes [] world) (lawful : epochs.Lawful)
    (words : summary.Lawful layout.capacity.words) (ok : world.allowed input)
    (edge : (world.step epochs summary input).2.arena.Parent epochs key parent) :
    world.arena.Parent epochs key parent ∨
      ∃ root local_, input = .bind key parent root local_ := by
  rcases h.step lawful words ok with ⟨home', lanes', next, -⟩
  have elder := h.step_elder lawful words ok
  rcases next.parent_iff.mp edge with ⟨⟨root, now⟩, same⟩
  have kept : (key, root) ∈ world.tasks → world.arena.Parent epochs key parent :=
    fun task => elder.parent key (.inr (.inl ⟨root, task⟩)) parent edge
  by_cases bound : ∃ key parent root local_, input = .bind key parent root local_
  · rcases bound with ⟨key', parent', root', local_, rfl⟩
    rcases List.mem_cons.mp now with new | old
    · cases new
      right
      have fits : parent'.index + 1 < 2 ^ 16 := by
        have inside : parent'.index < world.arena.layout.descriptors + world.arena.layout.dynamic :=
          ok.2.1
        have bound := world.arena.layout.bound
        omega
      have named := world.bind_parent lawful local_ fits (h.root_apart ok.2.2 ok.1)
      refine ⟨root, local_, ?_⟩
      rw [← same]
      show _ = Input.bind key (((world.bind epochs key parent' root local_).arena.slots
        key.index).record epochs).parent root local_
      rw [named]
    · exact .inl (kept old)
  · have other : ∀ key parent root local_, input ≠ .bind key parent root local_ :=
      fun key parent root local_ same => bound ⟨key, parent, root, local_, same⟩
    exact .inl (kept (world.step_tasks other _ now))

/-- What resolves to a ready slot or to a descriptor was good once. -/
theorem resolve_settled (h : Inv epochs summary layout home lanes held world) {entry : Entry}
    (found : world.arena.resolve live key = some entry) : world.Settled key := by
  by_cases low : key.index < world.arena.layout.descriptors
  · exact .inl low
  · rcases h.resolve_spec live key found with ⟨i, rfl, -, named⟩ | ⟨rfl, root, mem⟩
    · right; right; left
      unfold Arena.resolve at found
      rw [if_neg low] at found
      split at found
      · cases found
      · rename_i inside
        dsimp only at found
        split at found
        · cases found
        · rename_i epoch
          have at_ : key.index = i := by
            split at found <;> cases found
            rfl
          subst at_
          rcases named with no | kind
          · exact absurd no low
          · have within : world.arena.layout.Inside key.index :=
              ⟨Nat.le_of_not_lt low, Nat.lt_of_not_le inside⟩
            rcases h.busy.dispatch.every _ within kind with ⟨key', mem, same⟩
            rcases List.mem_map.mp mem with ⟨⟨k, target⟩, there, rfl⟩
            have epoch' := (h.busy.dispatch.live k mem).2.2
            refine ⟨target, ?_⟩
            have equal : k = key := by
              cases k
              cases key
              dsimp only at same epoch' epoch
              subst same
              rw [← epoch', not_not.mp epoch]
            rw [← equal]
            exact there
    · exact .inr (.inl ⟨root, mem⟩)

/-- A parent that is accepted was good once, and the climb from it is short. -/
theorem validate_climbs (h : Inv epochs summary layout home lanes held world)
    (live : Nat → G → Bool) {maximum hops : Nat}
    (accepted : world.arena.validate epochs live maximum hops key = .ok ()) :
    world.Settled key ∧ ∃ n ≤ hops, world.arena.Climbs epochs n key := by
  induction hops generalizing key with
  | zero =>
    unfold Arena.validate at accepted
    split at accepted
    · cases accepted
    · rename_i found
      refine ⟨h.resolve_settled found, 0, Nat.le_refl _, .stop ?_⟩
      rintro parent ⟨live', index, named, -⟩
      rw [Arena.resolve_task named] at found
      cases found
    · cases accepted
  | succ hops ih =>
    unfold Arena.validate at accepted
    split at accepted
    · cases accepted
    · rename_i found
      refine ⟨h.resolve_settled found, 0, Nat.zero_le _, .stop ?_⟩
      rintro parent ⟨live', index, named, -⟩
      rw [Arena.resolve_task named] at found
      cases found
    · rename_i index found
      rcases (ih accepted).2 with ⟨n, few, climbs⟩
      exact ⟨h.resolve_settled found, n + 1, Nat.succ_le_succ few,
        .hop ⟨live, index, found, rfl⟩ climbs⟩

end Inv

end Dope.Core.Ready.Arena
