import Dope.Core.Ready.Arena.Steps
import Dope.Base.Run

/-! # Runs of the arena

In every reachable state the dynamic slots are split between the chains, the
reserved ones, the live ones and the retired ones, and the lanes of every
topology hold its queued tasks in the order of their activations.
-/

namespace Dope.Core.Ready.Arena

open Links

variable {S G : Type} [DecidableEq G] {epochs : Epochs G} {summary : Index.Summary S Side}
  {layout : Layout} {home : Option Nat → List Nat} {lanes : Nat → Lane → List Nat}
  {world : World S G}

/-! ## Start -/

theorem nextFree_linked {next : Nat → Nat} {last : Nat} (n : Nat) {first : Nat}
    (ends : first + n = last) (follow : ∀ i, i < last → next i = if i + 1 = last then i else i + 1) :
    Linked next (List.range' first n) := by
  induction n generalizing first with
  | zero => exact trivial
  | succ n ih =>
    have step := follow first (by omega)
    have rest : Linked next (List.range' (first + 1) n) := ih (by omega)
    rw [List.range'_succ]
    refine rest.cons ?_
    rw [step]
    cases n with
    | zero => rw [if_pos (by omega)]; rfl
    | succ n => rw [if_neg (by omega), List.range'_succ]; rfl

/-- All dynamic slots are in the chain of the pool. -/
def firstHome (layout : Layout) : Option Nat → List Nat
  | none => List.range' layout.descriptors layout.dynamic
  | some _ => []

variable {i : Nat}

omit [DecidableEq G] in
theorem new_kind (epochs : Epochs G) (inside : layout.Inside i) :
    (Slots.new epochs layout i).kind = .free := by
  unfold Slots.new
  rw [if_neg (Nat.not_le_of_lt inside.2)]

omit [DecidableEq G] in
theorem new_homes (epochs : Epochs G) (layout : Layout) :
    Homes layout (Slots.new epochs layout) (firstHome layout) where
  linked := by
    intro c
    cases c with
    | some id => exact trivial
    | none =>
      refine nextFree_linked _ rfl ?_
      intro i inside
      have below : i < layout.capacity.raw := inside
      have bound := layout.bound
      have raw : layout.capacity.raw = layout.descriptors + layout.dynamic := rfl
      unfold Slots.next Slots.new
      rw [if_neg (Nat.not_le_of_lt below)]
      show reserveWord (freeWord (layout.nextFree i)) = _
      rw [reserve_free]
      · rfl
      · unfold Layout.nextFree
        split <;> omega
  nodup := by
    intro c
    cases c with
    | none => exact List.nodup_range' ..
    | some id => exact List.nodup_nil
  disjoint := by
    intro c c' i mem mem'
    cases c with
    | some id => cases mem
    | none =>
      cases c' with
      | some id => cases mem'
      | none => rfl
  inside := by
    intro c i mem
    cases c with
    | some id => cases mem
    | none => exact List.mem_range'_1.mp mem
  free := by
    intro i inside
    rw [new_kind epochs inside]
    exact iff_of_true rfl ⟨none, List.mem_range'_1.mpr inside⟩

omit [DecidableEq G] in
theorem new_owns (epochs : Epochs G) (layout : Layout) {kind : Kind} (other : kind ≠ .free) :
    Owns layout (Slots.new epochs layout) kind [] where
  live := fun _ no => nomatch no
  nodup := List.nodup_nil
  every := by
    intro i inside here
    rw [new_kind epochs inside] at here
    exact absurd here.symm other

theorem start_inv (words : summary.Lawful layout.capacity.words) :
    Inv epochs summary layout (firstHome layout) (fun _ _ => []) []
      (World.start epochs summary layout) where
  same := rfl
  homes := new_homes epochs layout
  pool := by
    show Pool.new layout = poolOf (List.range' layout.descriptors layout.dynamic)
    unfold Pool.new Layout.available
    cases dynamic : layout.dynamic with
    | zero => rfl
    | succ n =>
      rw [if_neg (Nat.succ_ne_zero n), List.range'_succ]
      show some _ = some _
      rw [List.length_range']
  chains := fun _ => .inl ⟨rfl, rfl⟩
  reserved := new_owns epochs layout (by decide)
  leased := fun _ no => nomatch no
  busy := {
    dispatch := new_owns epochs layout (by decide)
    task := new_owns epochs layout (by decide)
    topology := new_owns epochs layout (by decide)
    token := fun _ no => nomatch no
    bound := ⟨(fun _ no => nomatch no), (fun _ no => nomatch no), (fun _ no => nomatch no),
      (fun _ no => nomatch no), List.nodup_nil, fun _ no => nomatch no⟩
    queued := {
      capacity := rfl
      valid := Store.tryNew_valid layout.capacity words
      named := by
        intro side i on
        have off : (Store.tryNew summary layout.capacity).queued side i = false := by
          show (0 : BitVec 64).getLsbD _ = false
          simp
        exact absurd (off.symm.trans on) (by decide) }
    freed := fun _ no => nomatch no }

theorem machine_invariant (lawful : epochs.Lawful) (words : summary.Lawful layout.capacity.words) :
    (World.machine epochs summary layout).Invariant fun world =>
      ∃ home lanes, Inv epochs summary layout home lanes [] world where
  start := by
    intro world start
    cases start
    exact ⟨_, _, start_inv words⟩
  step := by
    intro world input inv ok
    rcases inv with ⟨home, lanes, inv⟩
    rcases inv.step lawful words ok with ⟨home', lanes', next, -⟩
    exact ⟨_, _, rfl, home', lanes', next⟩

/-! ## What holds of a reachable arena -/

/-- A key that is freed never resolves, and its slot is retired for good when the
generation was the last one. -/
theorem Dead.resolve {key : Key G} (h : Dead epochs world.arena.slots key)
    (inside : world.arena.layout.Inside key.index) (live : Nat → G → Bool) :
    world.arena.resolve live key = none := by
  unfold Arena.resolve
  rw [if_neg (Nat.not_lt_of_le inside.1), if_neg (Nat.not_le_of_lt inside.2)]
  rcases h with ⟨less, -⟩ | ⟨same, retired⟩
  · have apart : (world.arena.slots key.index).generation ≠ key.epoch := by
      intro equal
      rw [equal] at less
      exact Nat.lt_irrefl _ less
    exact if_pos apart
  · dsimp only
    rw [if_neg (not_not.mpr same), retired]

omit [DecidableEq G] in
theorem Dead.last {slots : Slots G} {key : Key G} (h : Dead epochs slots key)
    (last : epochs.next key.epoch = none) : (slots key.index).kind = .retired := by
  rcases h with ⟨-, more⟩ | ⟨-, retired⟩
  · exact absurd last more
  · exact retired

variable {root : Key G}

namespace Inv

section

variable (h : Inv epochs summary layout home lanes [] world)

include h

theorem queued_target {side : Side} (on : world.arena.ready.store.queued side i = true)
    (high : layout.descriptors ≤ i) :
    ∃ key target, (key, target) ∈ world.dispatches ∧ key.index = i ∧
      (world.arena.slots i).kind = .dispatch ∧ (world.arena.slots i).dispatch = some target := by
  have kind : (world.arena.slots i).kind = .dispatch := by
    rcases h.busy.queued.named side i on with low | kind
    · rw [h.same] at low
      exact absurd high (Nat.not_le_of_lt low)
    · exact kind
  have below : i < world.arena.layout.capacity.raw := by
    have within := h.busy.queued.valid.inside side i on
    rw [h.busy.queued.capacity] at within
    exact within
  rcases h.busy.dispatch.every i ⟨h.same ▸ high, below⟩ kind with ⟨key, mem, same⟩
  rcases List.mem_map.mp mem with ⟨⟨key', target⟩, there, rfl⟩
  refine ⟨key', target, there, same, kind, ?_⟩
  rw [← same]
  exact h.busy.token _ there

theorem dispatched_target (words : summary.Lawful layout.capacity.words)
    {targets : Nat → Option Token} {served : Ready.Input} (ok : world.arena.ready.allowed served)
    {target : Option Token}
    (out : (world.dispatch summary targets served).1 = .dispatched i target)
    (high : layout.descriptors ≤ i) :
    ∃ key token, (key, token) ∈ world.dispatches ∧ key.index = i ∧ target = some token := by
  have capacity : world.arena.ready.store.capacity = layout.capacity := by
    rw [h.busy.queued.capacity, h.same]
  have serves := Set.step_serves (capacity ▸ words) h.busy.queued.valid served ok
  unfold World.dispatch at out
  cases answer : (world.arena.ready.step summary served).1 with
  | activated index =>
    rw [answer] at out serves
    injection out with same decoded
    subst same
    rcases serves.activated index rfl with ⟨side, on⟩
    rcases h.queued_target on high with ⟨key, token, mem, at_, -, dispatch⟩
    refine ⟨key, token, mem, at_, ?_⟩
    rw [← decoded, if_neg (by rw [h.same]; exact Nat.not_lt_of_le high)]
    exact dispatch
  | finished | done | readiness => rw [answer] at out; cases out

/-- What is shown first is what the next drain takes first. -/
theorem peek_pop (mem : root ∈ world.roots)
    (idle : (world.arena.slots root.index).state.view.draining = false) :
    match Topology.begin world.arena.slots root.index with
    | (none, _) => Topology.peek epochs world.arena.slots root.index = none
    | (some side, slots) => (Topology.pop epochs slots root.index side).1 =
        Topology.peek epochs world.arena.slots root.index := by
  have old := h.busy.bound.rooted root mem
  have out : root.index ∉ attached world.tasks root := h.busy.root_not_attached mem
  rw [old.peek_eq]
  rcases old.begin_spec out with ⟨none, busy | empty⟩ | ⟨state, begun, -, -, -, -, due, rooted⟩
  · rw [idle] at busy
    cases busy
  · rw [none]
    show Option.map _ (lanes root.index (Rooted.due _)).head? = Option.none
    rw [empty]
    rfl
  · rw [begun]
    show (Topology.pop epochs (Topology.setState world.arena.slots root.index state) root.index
      (Rooted.due (world.arena.slots root.index).state)).1 = _
    unfold Topology.pop
    rw [rooted.head_eq]
    cases first : (lanes root.index (Rooted.due (world.arena.slots root.index).state)).head? with
    | none => rfl
    | some x =>
      have task := old.listed.subset (List.mem_of_mem_head? first)
      have apart : x ≠ root.index := fun same => out (same ▸ task)
      have kept : Topology.setState world.arena.slots root.index state x = world.arena.slots x :=
        Slots.modify_other _ _ apart
      show some ((Topology.setState world.arena.slots root.index state x).record epochs).local_ = _
      rw [kept]
      rfl

theorem root_not_freed (mem : root ∈ world.roots) : root ∉ world.freed := by
  intro freed
  have live := h.busy.topology.live root mem
  rcases (h.busy.freed root freed).2 with ⟨less, -⟩ | ⟨-, retired⟩
  · rw [live.2.2] at less
    exact Nat.lt_irrefl _ less
  · rw [live.2.1] at retired
    cases retired

theorem root_held :
    root ∈ world.roots ↔ root ∈ world.endpoints ∨ attached world.tasks root ≠ [] := by
  constructor
  · intro mem
    by_cases ends : root ∈ world.endpoints
    · exact .inl ends
    · exact .inr ((h.busy.bound.rooted root mem).held (decide_eq_true ends))
  · intro either
    rcases either with ends | some
    · exact h.busy.bound.endpoint root ends
    · rcases List.exists_mem_of_ne_nil _ some with ⟨x, mem⟩
      rcases mem_attached.mp mem with ⟨key, there, -⟩
      exact (h.busy.bound.task _ there).1

end

end Inv

/-! ## Results -/

/-- The dynamic slots are split between the chains of the pool and of the domains,
the reserved ones, those of the three live kinds, and the retired ones. -/
structure Partition (layout : Layout) (world : World S G) (home : Option Nat → List Nat) :
    Prop where
  pool : world.arena.pool = poolOf (home none)
  chains : ∀ id, world.chains id = none ∧ home (some id) = [] ∨
    world.chains id = some (chainOf (home (some id)))
  homes : Homes layout world.arena.slots home
  reserved : Owns layout world.arena.slots .reserved
    (world.admissions ++ world.leases.map Prod.fst)
  dispatch : Owns layout world.arena.slots .dispatch (world.dispatches.map Prod.fst)
  task : Owns layout world.arena.slots .task (world.tasks.map Prod.fst)
  topology : Owns layout world.arena.slots .topology world.roots

/-- In every reachable state the dynamic slots are split, freed keys are dead for
good, and a drain finds a target in every dynamic slot it is given. -/
theorem World.reachable_divided (lawful : epochs.Lawful)
    (words : summary.Lawful layout.capacity.words)
    (h : (World.machine epochs summary layout).Reachable world) :
    (∃ home, Partition layout world home) ∧
      (∀ key ∈ world.freed, layout.Inside key.index ∧
        (∀ live, world.arena.resolve live key = none) ∧
        (epochs.next key.epoch = none → (world.arena.slots key.index).kind = .retired)) ∧
      (∀ input, world.allowed input →
        ∀ key ∈ world.freed, key ∈ (world.step epochs summary input).2.freed) ∧
      (∀ side i, world.arena.ready.store.queued side i = true → layout.descriptors ≤ i →
        ∃ key target, (key, target) ∈ world.dispatches ∧ key.index = i ∧
          (world.arena.slots i).kind = .dispatch ∧
          (world.arena.slots i).dispatch = some target) ∧
      ∀ targets served i target, world.arena.ready.allowed served →
        (world.dispatch summary targets served).1 = .dispatched i target →
        layout.descriptors ≤ i →
        ∃ key token, (key, token) ∈ world.dispatches ∧ key.index = i ∧ target = some token := by
  rcases (machine_invariant lawful words).holds h with ⟨home, lanes, inv⟩
  refine ⟨⟨home, inv.pool, inv.chains, inv.homes, inv.reserved, ?_, ?_, ?_⟩, ?_, ?_, ?_, ?_⟩
  · exact inv.same ▸ inv.busy.dispatch
  · exact inv.same ▸ inv.busy.task
  · exact inv.same ▸ inv.busy.topology
  · intro key mem
    rcases inv.busy.freed key mem with ⟨inside, dead⟩
    exact ⟨inv.same ▸ inside, dead.resolve inside, dead.last⟩
  · intro input ok
    rcases inv.step lawful words ok with ⟨_, _, -, follows⟩
    exact follows.freed
  · intro side i on high
    exact inv.queued_target on high
  · intro targets served i target ok out high
    exact inv.dispatched_target words ok out high

/-- A ready slot is dropped while it is queued. Its key is dead in its next
generation, and the slot is in front of the pool. -/
theorem World.reachable_divided_example :
    ∃ world, (World.machine Epochs.counter (Index.Summary.bits Side 1)
        ⟨1, 3, by decide, by decide⟩).Reachable world ∧
      world.freed = [⟨1, 0⟩] ∧ world.arena.pool = some ⟨1, 3⟩ ∧
      (∃ home, Partition ⟨1, 3, by decide, by decide⟩ world home) ∧
      world.arena.resolve (fun _ _ => true) ⟨1, 0⟩ = none := by
  have start : (World.machine Epochs.counter (Index.Summary.bits Side 1)
      ⟨1, 3, by decide, by decide⟩).Reachable _ := .start rfl
  have one := start.call (.makeSlot ⟨3, 5, by decide, by decide⟩) trivial rfl
  have two := one.call (.activateSlot ⟨1, 0⟩) ⟨_, List.mem_cons_self⟩ rfl
  have three := two.call (.dropSlot ⟨1, 0⟩) ⟨_, List.mem_cons_self⟩ rfl
  have all := World.reachable_divided Epochs.counter_lawful (Index.Summary.bits_lawful 1) three
  exact ⟨_, three, rfl, rfl, all.1, (all.2.1 ⟨1, 0⟩ List.mem_cons_self).2.1 _⟩

/-- In every reachable state the lanes of each topology are linked in the order of
the activations, it drains if and only if a drain of it is open, and that has none
of the tasks that were activated since it began. A pop takes the first task of the
lane and nothing else, one that wakes goes behind the others, and a task waits
until it is popped or detached. A root stays for its owner and for its tasks, and
goes once. -/
theorem World.reachable_lanes (lawful : epochs.Lawful)
    (words : summary.Lawful layout.capacity.words)
    (h : (World.machine epochs summary layout).Reachable world) :
    ∃ lanes : Nat → Lane → List Nat,
      (∀ root ∈ world.roots,
        Lanes world.arena.slots root.index (attached world.tasks root) (lanes root.index) ∧
        (world.arena.slots root.index).state.view.count = (attached world.tasks root).length ∧
        Phased (world.arena.slots root.index).state (lanes root.index) ∧
        (∀ side, (lanes root.index side).Pairwise fun x y => world.stamps x < world.stamps y) ∧
        ((world.arena.slots root.index).state.view.draining = false →
          match Topology.begin world.arena.slots root.index with
          | (none, _) => Topology.peek epochs world.arena.slots root.index = none
          | (some side, slots) => (Topology.pop epochs slots root.index side).1 =
              Topology.peek epochs world.arena.slots root.index) ∧
        root ∉ world.freed ∧
        ((world.arena.slots root.index).state.view.draining = true ↔
          ∃ drain ∈ world.drains, drain.root = root)) ∧
      (∀ root, root ∈ world.roots ↔ root ∈ world.endpoints ∨ attached world.tasks root ≠ []) ∧
      (∀ drain ∈ world.drains, ∀ x ∈ lanes drain.root.index drain.side, x ∉ drain.activated) ∧
      (∀ root side, world.allowed (.pop root side) →
        (world.pop epochs root side).1 = .task ((lanes root.index side).head?.map fun x =>
          ((world.arena.slots x).record epochs).local_) ∧
        ∀ r ∈ world.roots,
          Lanes (world.pop epochs root side).2.arena.slots r.index (attached world.tasks r)
            (Function.update lanes root.index
              (Function.update (lanes root.index) side (lanes root.index side).tail) r.index)) ∧
      (∀ live key root, (key, root) ∈ world.tasks →
        world.arena.resolve live key = some (.task key.index) →
        (∃ side, key.index ∈ lanes root.index side) ∧
            world.wake epochs summary live key = (.parent none, world) ∨
          ∀ r ∈ world.roots,
            Lanes (world.wake epochs summary live key).2.arena.slots r.index
              (attached world.tasks r)
              (Function.update lanes root.index (Function.update (lanes root.index)
                (world.arena.slots root.index).state.view.active
                (lanes root.index (world.arena.slots root.index).state.view.active ++
                  [key.index])) r.index)) ∧
      ∀ input, world.allowed input → ∃ lanes',
        (∀ root ∈ (world.step epochs summary input).2.roots,
          Lanes (world.step epochs summary input).2.arena.slots root.index
            (attached (world.step epochs summary input).2.tasks root) (lanes' root.index)) ∧
        Follows epochs input (world.step epochs summary input).1 world
          (world.step epochs summary input).2 lanes lanes' := by
  rcases (machine_invariant lawful words).holds h with ⟨home, lanes, inv⟩
  refine ⟨lanes, ?_, fun root => inv.root_held, ?_, ?_, ?_, ?_⟩
  · intro root mem
    have rooted := inv.busy.bound.rooted root mem
    refine ⟨rooted.listed, rooted.count, rooted.phased, rooted.order, inv.peek_pop mem,
      inv.root_not_freed mem, inv.busy.bound.drained root mem, ?_⟩
    rintro ⟨drain, there, rfl⟩
    exact (inv.busy.bound.drain drain there).2.1
  · intro drain mem
    exact (inv.busy.bound.drain drain mem).2.2.2
  · intro root side ok
    rcases inv.pop_first ok with ⟨out, next⟩
    exact ⟨out, fun r mem => (next.busy.bound.rooted r mem).listed⟩
  · intro live key root mem found
    rcases inv.wake_queued found mem with queued | ⟨roots, tasks, -, next⟩
    · exact .inl queued
    · refine .inr fun r there => ?_
      have rooted := next.busy.bound.rooted r (roots ▸ there)
      rw [tasks] at rooted
      exact rooted.listed
  · intro input ok
    rcases inv.step lawful words ok with ⟨home', lanes', next, follows⟩
    exact ⟨lanes', fun root mem => (next.busy.bound.rooted root mem).listed, follows⟩

/-- A task is bound to a topology and woken before a drain, and again during it. -/
theorem World.reachable_lanes_example :
    ∃ world, (World.machine Epochs.counter (Index.Summary.bits Side 1)
        ⟨0, 3, by decide, by decide⟩).Reachable world ∧
      (world.arena.slots 1).state.view.active = .second ∧
      (∃ lanes : Nat → Lane → List Nat,
        Lanes world.arena.slots 1 (attached world.tasks ⟨1, 0⟩) (lanes 1) ∧
        ∀ drain ∈ world.drains, ∀ x ∈ lanes drain.root.index drain.side, x ∉ drain.activated) ∧
      world.drains = [⟨⟨1, 0⟩, .first, [2]⟩] := by
  have start : (World.machine Epochs.counter (Index.Summary.bits Side 1)
      ⟨0, 3, by decide, by decide⟩).Reachable _ := .start rfl
  have one := start.call (.makeSlot ⟨3, 5, by decide, by decide⟩) trivial rfl
  have two := one.call .makeTopology trivial rfl
  have three := two.call (.admission (fun _ _ => false) ⟨0, 0⟩) trivial rfl
  have four := three.call (.bind ⟨2, 0⟩ ⟨0, 0⟩ ⟨1, 0⟩ 7)
    ⟨List.mem_cons_self, by decide, List.mem_cons_self⟩ rfl
  have five := four.call (.wake (fun _ _ => false) ⟨2, 0⟩) trivial rfl
  have six := five.call (.begin ⟨1, 0⟩) List.mem_cons_self rfl
  have seven := six.call (.pop ⟨1, 0⟩ .first) ⟨_, List.mem_cons_self, rfl, rfl⟩ rfl
  have eight := seven.call (.wake (fun _ _ => false) ⟨2, 0⟩) trivial rfl
  rcases World.reachable_lanes Epochs.counter_lawful (Index.Summary.bits_lawful 1) eight with
    ⟨lanes, listed, -, apart, -⟩
  exact ⟨_, eight, rfl, ⟨lanes, (listed ⟨1, 0⟩ List.mem_cons_self).1, apart⟩, rfl⟩

end Dope.Core.Ready.Arena
