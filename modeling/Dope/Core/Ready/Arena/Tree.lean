import Dope.Core.Ready.Arena.Wakes

/-! # Trees of tasks

Model of `driver/schedule/ready/task`: the admissions and leases with the parents they
were given, and the roots that were accepted for pools and domains. A task is bound under
the parent of its admission. A wake goes on to the parents at once.
-/

namespace Dope.Core.Ready.Arena

variable {S G : Type} [DecidableEq G]

/-- An arena whose reserved slots carry their parents. -/
structure Tree (S G : Type) where
  world : World S G
  parents : List (Key G × Key G)
  validated : List (Key G)

namespace Tree

/-- What is done to an arena. `root` accepts a parent for pools, a `claim` takes a slot
for a task under an accepted root, and `complete` wakes a key. -/
inductive Input (G : Type) where
  | arena (input : Arena.Input G)
  | root (live : Nat → G → Bool) (parent : Key G)
  | claim (id : Nat) (root : Key G)
  | complete (live : Nat → G → Bool) (key : Key G)

inductive Output (G : Type) where
  | arena (output : Arena.Output G)
  | root (answer : Except TaskError Unit)
  | hops (count : Nat)

/-- A wake that goes on for more parents than any task may have. -/
inductive Fault where
  | endless
deriving DecidableEq, Repr

variable (epochs : Epochs G) (summary : Index.Summary S Side)

/-- The parents after an operation. A slot that is given back or bound has none. -/
def note (tree : Tree S G) : Arena.Input G → Arena.Output G → Tree S G
  | .admission _ parent, .key key => { tree with parents := (key, parent) :: tree.parents }
  | .makeDomain _ parent _ _, .done => { tree with validated := parent :: tree.validated }
  | .dropAdmission key, _ | .dropLease key _, _ | .bind key _ _ _, _ =>
      { tree with parents := tree.parents.filter (·.1 ≠ key) }
  | _, _ => tree

def step (tree : Tree S G) : Input G → Except Fault (Output G × Tree S G)
  | .arena input =>
      let (output, world) := tree.world.step epochs summary input
      .ok (.arena output, { tree.note input output with world })
  | .root live parent =>
      match tree.world.arena.validate epochs live (maxWakeHops - 1) (maxWakeHops - 1) parent with
      | .error error => .ok (.root (.error error), tree)
      | .ok () => .ok (.root (.ok ()), { tree with validated := parent :: tree.validated })
  | .claim id root =>
      match tree.world.claim id with
      | (.key key, world) =>
          .ok (.arena (.key key), { tree with world, parents := (key, root) :: tree.parents })
      | (output, world) => .ok (.arena output, { tree with world })
  | .complete live key =>
      match tree.world.activate epochs summary live (maxWakeHops + 1) key with
      | none => .error .endless
      | some (hops, world) => .ok (.hops hops, { tree with world })

/-- A task is bound under the parent it was admitted with, and claimed under a root
that was accepted. -/
def allowed (tree : Tree S G) : Input G → Prop
  | .arena (.wake _ _) | .arena (.claim _) => False
  | .arena (.bind key parent root _) =>
      (key, parent) ∈ tree.parents ∧ key ∈ tree.world.admissions ∧ root ∈ tree.world.endpoints
  | .arena input => tree.world.allowed input
  | .root _ _ | .complete _ _ => True
  | .claim id root => root ∈ tree.validated ∧ tree.world.chains id ≠ none

def machine (layout : Layout) : Run.Machine (Tree S G) (Input G) (Output G) Fault where
  start tree := tree = ⟨World.start epochs summary layout, [], []⟩
  allowed := allowed
  step := step epochs summary

end Tree

variable {epochs : Epochs G} {summary : Index.Summary S Side} {layout : Layout} {tree : Tree S G}
  {world world' : World S G} {key : Key G}

/-! ## Good parents -/

/-- A parent that may be given to a task. -/
def World.Good (epochs : Epochs G) (world : World S G) (key : Key G) : Prop :=
  world.Settled key ∧ ∃ n ≤ maxWakeHops - 1, world.arena.Climbs epochs n key

theorem World.Good.later (good : world.Good epochs key) (elder : Elder epochs world world')
    (sound : world.Sound epochs) : world'.Good epochs key := by
  rcases good with ⟨settled, n, few, climbs⟩
  rcases elder.climbs sound settled climbs with ⟨m, less, climbs'⟩
  exact ⟨settled.carried elder.carries, m, Nat.le_trans less few, climbs'⟩

/-- The parents of tasks and of admissions, and the accepted roots, are good. -/
structure Tree.Inv (epochs : Epochs G) (summary : Index.Summary S Side) (layout : Layout)
    (tree : Tree S G) : Prop where
  world : ∃ home lanes, Arena.Inv epochs summary layout home lanes [] tree.world
  task : ∀ key parent, tree.world.arena.Parent epochs key parent → tree.world.Good epochs parent
  parent : ∀ p ∈ tree.parents, tree.world.Good epochs p.2
  validated : ∀ root ∈ tree.validated, tree.world.Good epochs root

namespace Tree.Inv

theorem sound (h : tree.Inv epochs summary layout) : tree.world.Sound epochs :=
  fun key parent edge => (h.task key parent edge).1

theorem climbs (h : tree.Inv epochs summary layout) (key : Key G) :
    ∃ n ≤ maxWakeHops, tree.world.arena.Climbs epochs n key := by
  by_cases edge : ∃ parent, tree.world.arena.Parent epochs key parent
  · rcases edge with ⟨parent, edge⟩
    rcases (h.task key parent edge).2 with ⟨n, few, climbs⟩
    exact ⟨n + 1, Nat.succ_le_succ few, .hop edge climbs⟩
  · exact ⟨0, Nat.zero_le _, .stop fun parent here => edge ⟨parent, here⟩⟩

/-- The tree in a later world. Parents that were not there are good. -/
theorem later (h : tree.Inv epochs summary layout) {tree' : Tree S G}
    (world : ∃ home lanes, Arena.Inv epochs summary layout home lanes [] tree'.world)
    (elder : Elder epochs tree.world tree'.world)
    (task : ∀ key parent, tree'.world.arena.Parent epochs key parent →
      tree.world.arena.Parent epochs key parent ∨ tree.world.Good epochs parent)
    (parent : ∀ p ∈ tree'.parents, p ∈ tree.parents ∨ tree.world.Good epochs p.2)
    (validated : ∀ root ∈ tree'.validated, root ∈ tree.validated ∨ tree.world.Good epochs root) :
    tree'.Inv epochs summary layout where
  world := world
  task := by
    intro key parent edge
    rcases task key parent edge with old | good
    · exact (h.task key parent old).later elder h.sound
    · exact good.later elder h.sound
  parent := by
    intro p mem
    rcases parent p mem with old | good
    · exact (h.parent p old).later elder h.sound
    · exact good.later elder h.sound
  validated := by
    intro root mem
    rcases validated root mem with old | good
    · exact (h.validated root old).later elder h.sound
    · exact good.later elder h.sound

end Tree.Inv

/-! ## Steps -/

variable {live : Nat → G → Bool}

theorem World.admission_accepts {parent key : Key G}
    (made : (world.admission epochs live parent).1 = .key key) :
    world.arena.validate epochs live (maxWakeHops - 1) (maxWakeHops - 1) parent = .ok () := by
  unfold admission at made
  split at made
  · cases made
  · assumption

theorem World.makeDomain_accepts {parent : Key G} {id count : Nat}
    (made : (world.makeDomain epochs live parent id count).1 = .done) :
    world.arena.validate epochs live (maxWakeHops - 1) (maxWakeHops - 1) parent = .ok () := by
  unfold makeDomain at made
  split at made
  · cases made
  · assumption

variable {input : Arena.Input G}

theorem Tree.note_parents {output : Arena.Output G} {p : Key G × Key G}
    (mem : p ∈ (tree.note input output).parents) :
    p ∈ tree.parents ∨ ∃ live, input = .admission live p.2 ∧ output = .key p.1 := by
  unfold note at mem
  split at mem
  · rename_i live parent key
    rcases List.mem_cons.mp mem with rfl | old
    · exact .inr ⟨live, rfl, rfl⟩
    · exact .inl old
  · exact .inl mem
  · exact .inl (List.mem_filter.mp mem).1
  · exact .inl (List.mem_filter.mp mem).1
  · exact .inl (List.mem_filter.mp mem).1
  · exact .inl mem

theorem Tree.note_validated {output : Arena.Output G} {root : Key G}
    (mem : root ∈ (tree.note input output).validated) :
    root ∈ tree.validated ∨
      ∃ live id count, input = .makeDomain live root id count ∧ output = .done := by
  unfold note at mem
  split at mem
  · exact .inl mem
  · rename_i live parent id count
    rcases List.mem_cons.mp mem with rfl | old
    · exact .inr ⟨live, id, count, rfl, rfl⟩
    · exact .inl old
  · exact .inl mem
  · exact .inl mem
  · exact .inl mem
  · exact .inl mem

namespace Tree.Inv

theorem settled_inside (h : tree.Inv epochs summary layout) (settled : tree.world.Settled key) :
    key.index < tree.world.arena.layout.capacity.raw := by
  rcases h.world with ⟨home, lanes, inv⟩
  rcases settled with low | ⟨root, task⟩ | ⟨target, there⟩ | gone
  · exact Nat.lt_of_lt_of_le low (Nat.le_add_right _ _)
  · exact (inv.busy.task_live task).1.2
  · exact (inv.busy.dispatch.live key (List.mem_map.mpr ⟨_, there, rfl⟩)).1.2
  · exact (inv.busy.freed key gone).1.2

/-- An operation of the arena under the parents that are good. -/
theorem step_arena (h : tree.Inv epochs summary layout) (lawful : epochs.Lawful)
    (words : summary.Lawful layout.capacity.words) (ok : tree.world.allowed input)
    (bound : ∀ key parent root local_, input = .bind key parent root local_ → tree.world.Good
      epochs parent) {tree' : Tree S G}
    (next : tree'.world = (tree.world.step epochs summary input).2)
    (parent : ∀ p ∈ tree'.parents, p ∈ tree.parents ∨ tree.world.Good epochs p.2)
    (validated : ∀ root ∈ tree'.validated, root ∈ tree.validated ∨ tree.world.Good epochs root) :
    tree'.Inv epochs summary layout ∧ Elder epochs tree.world tree'.world := by
  rcases h.world with ⟨home, lanes, inv⟩
  rcases inv.step lawful words ok with ⟨home', lanes', inv', -⟩
  have elder := inv.step_elder lawful words ok
  rw [← next] at inv' elder
  refine ⟨h.later ⟨home', lanes', inv'⟩ elder ?_ parent validated, elder⟩
  intro key parent edge
  rw [next] at edge
  rcases inv.step_edge lawful words ok edge with old | ⟨root, local_, same⟩
  · exact .inl old
  · exact .inr (bound _ _ _ _ same)

theorem accepted_good (h : tree.Inv epochs summary layout)
    (accepted : tree.world.arena.validate epochs live (maxWakeHops - 1) (maxWakeHops - 1) key =
      .ok ()) : tree.world.Good epochs key := by
  rcases h.world with ⟨home, lanes, inv⟩
  exact inv.validate_climbs live accepted

/-- No wake is endless, and every step keeps the parents good. -/
theorem step (h : tree.Inv epochs summary layout) (lawful : epochs.Lawful)
    (words : summary.Lawful layout.capacity.words) {input : Input G} (ok : tree.allowed input) :
    ∃ output tree', tree.step epochs summary input = .ok (output, tree') ∧
      tree'.Inv epochs summary layout ∧ Elder epochs tree.world tree'.world := by
  cases input with
  | arena input =>
    have all : tree.world.allowed input ∧ ∀ key parent root local_,
        input = .bind key parent root local_ → tree.world.Good epochs parent := by
      cases input with
      | wake live key => exact absurd ok id
      | claim id => exact absurd ok (fun no => no)
      | bind key parent root local_ =>
        have good := h.parent _ ok.1
        refine ⟨⟨ok.2.1, h.settled_inside good.1, ok.2.2⟩, ?_⟩
        intro _ _ _ _ same
        cases same
        exact good
      | _ => exact ⟨ok, fun _ _ _ _ no => nomatch no⟩
    refine ⟨_, _, rfl, h.step_arena lawful words all.1 all.2 rfl ?_ ?_⟩
    · intro p mem
      rcases Tree.note_parents mem with old | ⟨live, rfl, made⟩
      · exact .inl old
      · exact .inr (h.accepted_good (World.admission_accepts made))
    · intro root mem
      rcases Tree.note_validated mem with old | ⟨live, id, count, rfl, made⟩
      · exact .inl old
      · exact .inr (h.accepted_good (World.makeDomain_accepts made))
  | root live parent =>
    dsimp only [Tree.step]
    split
    · exact ⟨_, _, rfl, h, .refl _ _⟩
    · rename_i accepted
      refine ⟨_, _, rfl, h.later h.world (.refl _ _) (fun _ _ => .inl) (fun _ => .inl) ?_,
        .refl _ _⟩
      intro root mem
      rcases List.mem_cons.mp mem with rfl | old
      · exact .inr (h.accepted_good accepted)
      · exact .inl old
  | claim id root =>
    have none : ∀ key parent root local_, Arena.Input.claim id = .bind key parent root local_ →
        tree.world.Good epochs parent := fun _ _ _ _ no => nomatch no
    have free : tree.world.allowed (.claim id) := ok.2
    dsimp only [Tree.step]
    split
    · rename_i key world ran
      have next : world = (tree.world.step epochs summary (.claim id)).2 :=
        (congrArg Prod.snd ran).symm
      refine ⟨_, _, rfl, h.step_arena lawful words free none next ?_ (fun _ => .inl)⟩
      intro p mem
      rcases List.mem_cons.mp mem with rfl | old
      · exact .inr (h.validated root ok.1)
      · exact .inl old
    · rename_i world _ ran
      have next : world = (tree.world.step epochs summary (.claim id)).2 :=
        (congrArg Prod.snd ran).symm
      exact ⟨_, _, rfl, h.step_arena lawful words free none next (fun _ => .inl) (fun _ => .inl)⟩
  | complete live key =>
    rcases h.world with ⟨home, lanes, inv⟩
    rcases h.climbs key with ⟨n, few, climbs⟩
    rcases inv.activate_spec lawful words live h.sound climbs (Nat.lt_succ_of_le few) with
      ⟨hops, after, ran, -, stays, -⟩
    refine ⟨.hops hops, { tree with world := after }, ?_, ?_, stays.elder⟩
    · dsimp only [Tree.step]
      rw [ran]
    · exact h.later stays.inv stays.elder (fun _ _ edge => .inl (stays.edge _ _ edge))
        (fun _ => .inl) (fun _ => .inl)

end Tree.Inv

/-! ## Results -/

theorem Tree.machine_invariant (lawful : epochs.Lawful)
    (words : summary.Lawful layout.capacity.words) :
    (Tree.machine epochs summary layout).Invariant (Tree.Inv epochs summary layout) where
  start := by
    intro tree start
    cases start
    have inv := @start_inv _ _ _ epochs summary layout words
    refine ⟨⟨_, _, inv⟩, ?_, (fun _ no => nomatch no), (fun _ no => nomatch no)⟩
    intro key parent edge
    rcases (inv.parent_iff.mp edge).1 with ⟨root, no⟩
    cases no
  step := by
    intro tree input inv ok
    rcases inv.step lawful words ok with ⟨output, tree', ran, next, -⟩
    exact ⟨output, tree', ran, next⟩

/-- A run leaves the keys that were good once with the parents they have. -/
theorem Tree.Inv.steps (h : tree.Inv epochs summary layout) (lawful : epochs.Lawful)
    (words : summary.Lawful layout.capacity.words) {later : Tree S G} {P : Tree S G → Prop}
    (run : (Tree.machine epochs summary layout).Steps P tree later) :
    later.Inv epochs summary layout ∧ Elder epochs tree.world later.world := by
  induction run with
  | refl => exact ⟨h, .refl _ _⟩
  | next _ ok ran _ ih =>
    rcases ih with ⟨inv, elder⟩
    rcases inv.step lawful words ok with ⟨output, tree', ran', next, elder'⟩
    cases ran.symm.trans ran'
    exact ⟨next, elder.trans elder'⟩

/-- In every reachable arena a wake of any key ends and follows at most `maxWakeHops`
parents, more steps would change nothing, and the key and its parents up to the first
that was queued, is a ready slot or is stale are queued afterwards. No key comes after
itself. A parent that is accepted was good once and has one parent less than that, and
the climb from a key that was good once is no longer in any later state. -/
theorem Tree.reachable_wakes (lawful : epochs.Lawful)
    (words : summary.Lawful layout.capacity.words)
    (h : (Tree.machine epochs summary layout).Reachable tree) :
    (∀ live key, ∃ hops after,
      (∀ more, tree.world.activate epochs summary live (maxWakeHops + 1 + more) key =
        some (hops, after)) ∧
      hops ≤ maxWakeHops ∧ Woken epochs live tree.world after hops key ∧
      ∃ lanes : Nat → Lane → List Nat, ∀ root ∈ after.roots,
        Lanes after.arena.slots root.index (attached after.tasks root) (lanes root.index)) ∧
    (∀ key, ¬ Relation.TransGen (tree.world.arena.Parent epochs) key key) ∧
    (∀ live key,
      tree.world.arena.validate epochs live (maxWakeHops - 1) (maxWakeHops - 1) key = .ok () →
      tree.world.Settled key ∧
        ∃ n ≤ maxWakeHops - 1, tree.world.arena.Climbs epochs n key) ∧
    ∀ key n, tree.world.Settled key → tree.world.arena.Climbs epochs n key →
      ∀ later, (Tree.machine epochs summary layout).Steps (fun _ => True) tree later →
        later.world.Settled key ∧ ∃ m ≤ n, later.world.arena.Climbs epochs m key := by
  have inv := (Tree.machine_invariant lawful words).holds h
  rcases inv.world with ⟨home, lanes, here⟩
  refine ⟨?_, ?_, ?_, ?_⟩
  · intro live key
    rcases inv.climbs key with ⟨n, few, climbs⟩
    rcases here.activate_spec lawful words live inv.sound climbs (Nat.lt_succ_of_le few) with
      ⟨hops, after, ran, less, stays, woken⟩
    rcases stays.inv with ⟨home', lanes', last⟩
    exact ⟨hops, after, fun more => World.activate_more live more ran, Nat.le_trans less few, woken,
      lanes', fun root mem => (last.busy.bound.rooted root mem).listed⟩
  · intro key
    apply Arena.Climbs.acyclic
    intro key'
    rcases inv.climbs key' with ⟨n, -, climbs⟩
    exact ⟨n, climbs⟩
  · intro live key accepted
    exact inv.accepted_good accepted
  · intro key n settled climbs later run
    rcases inv.steps lawful words run with ⟨-, elder⟩
    exact ⟨settled.carried elder.carries, elder.climbs inv.sound settled climbs⟩

/-- A task under a task under a ready slot: the wake of the lower one follows both
parents, and when the upper one is gone it follows one. -/
theorem Tree.reachable_wakes_example :
    ∃ tree, (Tree.machine Epochs.counter (Index.Summary.bits Side 1)
        ⟨0, 4, by decide, by decide⟩).Reachable tree ∧
      tree.world.tasks = [(⟨3, 0⟩, ⟨1, 0⟩), (⟨2, 0⟩, ⟨1, 0⟩)] ∧
      ∃ hops after, tree.world.activate Epochs.counter (Index.Summary.bits Side 1)
          (fun _ _ => false) (maxWakeHops + 1) ⟨3, 0⟩ = some (hops, after) ∧
        hops = 2 ∧
        Woken Epochs.counter (fun _ _ => false) tree.world after hops ⟨3, 0⟩ := by
  have start : (Tree.machine Epochs.counter (Index.Summary.bits Side 1)
      ⟨0, 4, by decide, by decide⟩).Reachable _ := .start rfl
  have one := start.call (.arena (.makeSlot ⟨3, 5, by decide, by decide⟩)) trivial rfl
  have two := one.call (.arena .makeTopology) trivial rfl
  have three := two.call (.arena (.admission (fun _ _ => false) ⟨0, 0⟩)) trivial rfl
  have four := three.call (.arena (.bind ⟨2, 0⟩ ⟨0, 0⟩ ⟨1, 0⟩ 7))
    ⟨List.mem_cons_self, List.mem_cons_self, List.mem_cons_self⟩ rfl
  have five := four.call (.arena (.admission (fun _ _ => false) ⟨2, 0⟩)) trivial rfl
  have six := five.call (.arena (.bind ⟨3, 0⟩ ⟨2, 0⟩ ⟨1, 0⟩ 8))
    ⟨List.mem_cons_self, List.mem_cons_self, List.mem_cons_self⟩ rfl
  rcases (Tree.reachable_wakes Epochs.counter_lawful (Index.Summary.bits_lawful 1) six).1
    (fun _ _ => false) ⟨3, 0⟩ with ⟨hops, after, ran, -, woken, -⟩
  have two : hops = 2 := by
    have count := congrArg (Option.map Prod.fst) (ran 0)
    exact Option.some.inj (count.symm.trans rfl)
  exact ⟨_, six, rfl, hops, after, ran 0, two, woken⟩

end Dope.Core.Ready.Arena
