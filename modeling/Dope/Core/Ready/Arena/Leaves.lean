import Dope.Core.Ready.Arena.Turns

/-! # Tasks and topologies that leave

A task is detached before its slot is reserved again. The root goes when it is
closed and nothing is attached to it, at the later of the two.
-/

namespace Dope.Core.Ready.Arena

variable {S G : Type} [DecidableEq G] {epochs : Epochs G} {summary : Index.Summary S Side}
  {layout : Layout} {home : Option Nat → List Nat} {lanes lanes' : Nat → Lane → List Nat}
  {held : List (Key G)} {world : World S G} {slots' : Slots G}

theorem State.detach_count {state : State} {n : Nat} (count : state.view.count = n + 1) :
    (state.count - 1).toNat = n := by
  have total : state.count.toNat = n + 1 := count
  have bound := state.count.isLt
  rw [BitVec.toNat_sub]
  show (2 ^ 32 - 1 + state.count.toNat) % 2 ^ 32 = n
  omega

variable {root key : Key G}

namespace Inv

section

variable (h : Inv epochs summary layout home lanes held world)

include h

/-- A reserved slot may be looked for anywhere in the list. -/
theorem perm_held {held' : List (Key G)} (same : held.Perm held') :
    Inv epochs summary layout home lanes held' world :=
  ⟨h.same, h.homes, h.pool, h.chains, h.reserved.perm (same.append_right _), h.leased, h.busy⟩

/-- A task that is not queued is given up, and its root stays. -/
theorem leave_stay (mem : (key, root) ∈ world.tasks)
    (vacant : (world.arena.slots key.index).queue = none) {state : State}
    (view : state.view = { (world.arena.slots root.index).state.view with
      count := (attached (world.tasks.filter (·.1 ≠ key)) root).length })
    (stays : attached (world.tasks.filter (·.1 ≠ key)) root = [] → root ∈ world.endpoints) :
    Inv epochs summary layout home lanes (key :: held)
      { world.store world.arena.pool
          ((Topology.setState world.arena.slots root.index state).unbind key.index) with
        tasks := world.tasks.filter (·.1 ≠ key) } := by
  rcases h.task_root mem with ⟨here, out, task, -⟩
  rcases h.busy.task_live mem with ⟨inside, kind, epoch⟩
  have away : root.index ≠ key.index := fun same => out (same ▸ task)
  have quiet : Quiet world.arena.slots (Topology.setState world.arena.slots root.index state) :=
    .modify _ (.inr (h.busy.root_kind here)) rfl rfl
  have self : Topology.setState world.arena.slots root.index state root.index =
      (world.arena.slots root.index).setState state := Slots.modify_self ..
  have others : ∀ j, j ≠ root.index →
      Topology.setState world.arena.slots root.index state j = world.arena.slots j :=
    fun j apart => Slots.modify_other _ _ apart
  generalize Topology.setState world.arena.slots root.index state = slots at quiet self others ⊢
  have turn : Becomes slots (slots.unbind key.index) key.index .reserved := .modify _ rfl rfl
  generalize slots.unbind key.index = slots' at turn ⊢
  have kind' : (slots key.index).kind = .task := by rw [quiet.kind]; exact kind
  have root_self : slots' root.index = (world.arena.slots root.index).setState state :=
    (turn.others _ away).trans self
  have said : (slots' root.index).state.view = { (world.arena.slots root.index).state.view with
      count := (attached (world.tasks.filter (·.1 ≠ key)) root).length } := by
    rw [root_self]
    exact view
  have same : ∀ j, j ≠ key.index → j ≠ root.index → slots' j = world.arena.slots j :=
    fun j apart apart' => (turn.others j apart).trans (others j apart')
  have there : key ∈ world.tasks.map Prod.fst := List.mem_map.mpr ⟨_, mem, rfl⟩
  have rest := (h.busy.task.congr quiet.kind quiet.generation).perm (h.busy.task.front there)
  rw [List.filter_map] at rest
  have perm := h.busy.attached_perm mem
  have fresh : key.index ∉ attached (world.tasks.filter (·.1 ≠ key)) root :=
    (List.nodup_cons.mp (perm.nodup_iff.mp (h.busy.attached_nodup root))).1
  have bound : Bound epochs { world.store world.arena.pool slots' with
      roots := world.roots, tasks := world.tasks.filter (·.1 ≠ key) } lanes := by
    refine h.busy.bound_leave mem same (fun _ _ => Iff.rfl) ?_ (fun gone => absurd here gone) ?_
    · intro _
      have old := h.busy.bound.rooted root here
      refine old.rebase ?_ ?_ ?_ ?_ ?_ ?_ ?_ ?_
      · intro side
        rw [root_self, Cell.setState_links]
      · intro x before after
        have apart : x ≠ key.index := fun equal => fresh (equal ▸ after)
        exact same x apart fun equal => out (equal ▸ before)
      · intro x before gone
        rcases List.mem_cons.mp (perm.mem_iff.mp before) with rfl | left
        · exact vacant
        · exact absurd left gone
      · intro x after come
        exact absurd (perm.mem_iff.mpr (List.mem_cons_of_mem _ after)) come
      · exact old.phased.of_view (by rw [said]) (by rw [said])
      · rw [said]
      · rw [said]
        exact old.shut
      · intro closed empty
        exact absurd (stays empty) (of_decide_eq_true closed)
    · intro _
      rw [said]
      exact ⟨rfl, rfl⟩
  refine ⟨h.same, (h.homes.quiet quiet).other turn (by rw [kind']; decide) (by decide), h.pool,
    h.chains, ?_, h.leased, ?_⟩
  · exact (h.reserved.congr quiet.kind quiet.generation).gain turn (by rw [kind']; decide)
      (h.same ▸ inside) ((quiet.generation _).trans epoch)
  refine ⟨(h.busy.dispatch.congr quiet.kind quiet.generation).other turn (by rw [kind']; decide)
      (by decide), rest.lose turn (by decide),
    (h.busy.topology.congr quiet.kind quiet.generation).other turn (by rw [kind']; decide)
      (by decide), ?_,
    ⟨bound.rooted, bound.task, bound.endpoint, bound.drain, bound.single, bound.drained⟩,
    ⟨h.busy.queued.capacity, h.busy.queued.valid, ?_⟩, ?_⟩
  · intro d dispatched
    have live := (h.busy.dispatch.live d.1 (List.mem_map.mpr ⟨d, dispatched, rfl⟩)).2.1
    show (slots' d.1.index).dispatch = _
    rw [same]
    · exact h.busy.token d dispatched
    · intro equal
      rw [equal, kind] at live
      cases live
    · intro equal
      rw [equal, h.busy.root_kind here] at live
      cases live
  · intro side i on
    rcases h.busy.queued.named side i on with low | old
    · exact .inl low
    · right
      show (slots' i).kind = _
      have apart : i ≠ key.index := by
        rintro rfl
        rw [kind] at old
        cases old
      rw [turn.others i apart, quiet.kind]
      exact old
  · refine h.busy.dead_congr fun j => .inr ?_
    by_cases equal : j = key.index
    · subst equal
      exact ⟨turn.generation.trans (quiet.generation _),
        fun retired => absurd (kind.symm.trans retired) (by decide)⟩
    · show (slots' j).generation = _ ∧ (_ → (slots' j).kind = _)
      rw [turn.others j equal, quiet.kind, quiet.generation]
      exact ⟨rfl, id⟩

/-- The last task of a root that is closed is given up, and the root with it. -/
theorem leave_last (mem : (key, root) ∈ world.tasks) {slots : Slots G}
    (turn : Becomes world.arena.slots slots root.index .reserved)
    (last : attached (world.tasks.filter (·.1 ≠ key)) root = []) (closed : root ∉ world.endpoints) :
    Inv epochs summary layout home lanes (key :: root :: held)
      { world.store world.arena.pool (slots.unbind key.index) with
        roots := world.roots.filter (· ≠ root)
        tasks := world.tasks.filter (·.1 ≠ key) } := by
  rcases h.task_root mem with ⟨here, out, task, -⟩
  rcases h.busy.task_live mem with ⟨inside, kind, epoch⟩
  rcases h.busy.topology.live root here with ⟨inside', kind', epoch'⟩
  have away : key.index ≠ root.index := fun same => out (same ▸ task)
  have key_same := turn.others _ away
  have turn' : Becomes slots (slots.unbind key.index) key.index .reserved := .modify _ rfl rfl
  generalize slots.unbind key.index = slots' at turn' ⊢
  have same : ∀ j, j ≠ key.index → j ≠ root.index → slots' j = world.arena.slots j :=
    fun j apart apart' => (turn'.others j apart).trans (turn.others j apart')
  have kind_ : (slots key.index).kind = .task := by rw [key_same]; exact kind
  have there : key ∈ world.tasks.map Prod.fst := List.mem_map.mpr ⟨_, mem, rfl⟩
  have tasks := (h.busy.task.other turn (by rw [kind']; decide) (by decide)).perm
    (h.busy.task.front there)
  rw [List.filter_map] at tasks
  have roots := (h.busy.topology.perm (h.busy.topology.front here)).lose turn (by decide)
  have gone : root ∉ world.roots.filter (· ≠ root) := by simp
  have bound : Bound epochs { world.store world.arena.pool slots' with
      roots := world.roots.filter (· ≠ root), tasks := world.tasks.filter (·.1 ≠ key) } lanes := by
    refine h.busy.bound_leave mem same ?_ (fun here' => absurd here' gone) (fun _ => ⟨last, closed⟩)
      (fun here' => absurd here' gone)
    intro r apart
    rw [List.mem_filter, decide_eq_true_eq]
    exact and_iff_left apart
  refine ⟨h.same, (h.homes.other turn (by rw [kind']; decide) (by decide)).other turn'
      (by rw [kind_]; decide) (by decide), h.pool, h.chains, ?_, h.leased, ?_⟩
  · have reserved := h.reserved.gain turn (by rw [kind']; decide) (h.same ▸ inside') epoch'
    exact reserved.gain turn' (by rw [kind_]; decide) (h.same ▸ inside) (key_same ▸ epoch)
  refine ⟨(h.busy.dispatch.other turn (by rw [kind']; decide) (by decide)).other turn'
      (by rw [kind_]; decide) (by decide), tasks.lose turn' (by decide),
    roots.other turn' (by rw [kind_]; decide) (by decide), ?_, bound,
    ⟨h.busy.queued.capacity, h.busy.queued.valid, ?_⟩, ?_⟩
  · intro d dispatched
    have live := (h.busy.dispatch.live d.1 (List.mem_map.mpr ⟨d, dispatched, rfl⟩)).2.1
    show (slots' d.1.index).dispatch = _
    rw [same]
    · exact h.busy.token d dispatched
    · intro equal
      rw [equal, kind] at live
      cases live
    · intro equal
      rw [equal, kind'] at live
      cases live
  · intro side i on
    rcases h.busy.queued.named side i on with low | old
    · exact .inl low
    · right
      show (slots' i).kind = _
      rw [same]
      · exact old
      · rintro rfl
        rw [kind] at old
        cases old
      · rintro rfl
        rw [kind'] at old
        cases old
  · refine h.busy.dead_congr fun j => .inr ?_
    show (slots' j).generation = _ ∧ (_ → (slots' j).kind = _)
    by_cases task_ : j = key.index
    · subst task_
      exact ⟨turn'.generation.trans (key_same ▸ rfl),
        fun retired => absurd (kind.symm.trans retired) (by decide)⟩
    · rw [turn'.others j task_]
      by_cases root_ : j = root.index
      · subst root_
        exact ⟨turn.generation, fun retired => absurd (kind'.symm.trans retired) (by decide)⟩
      · rw [turn.others j root_]
        exact ⟨rfl, id⟩

/-- A topology without tasks is closed, and its root goes. -/
theorem leave_root (mem : root ∈ world.endpoints)
    (idle : ∀ drain ∈ world.drains, drain.root ≠ root) (none : attached world.tasks root = []) :
    Inv epochs summary layout home lanes (root :: held)
      { world.store world.arena.pool (world.arena.slots.unbind root.index) with
        roots := world.roots.filter (· ≠ root)
        endpoints := world.endpoints.filter (· ≠ root) } := by
  have here := h.busy.bound.endpoint root mem
  rcases h.busy.topology.live root here with ⟨inside, kind, epoch⟩
  have turn : Becomes world.arena.slots (world.arena.slots.unbind root.index) root.index
      .reserved := .modify _ rfl rfl
  generalize world.arena.slots.unbind root.index = slots' at turn ⊢
  have roots := (h.busy.topology.perm (h.busy.topology.front here)).lose turn (by decide)
  have ready := h.ready_other turn (by rw [kind]; decide)
  have stays : ∀ (keys : List (Key G)) r, r ≠ root → (r ∈ keys.filter (· ≠ root) ↔ r ∈ keys) := by
    intro keys r apart
    rw [List.mem_filter, decide_eq_true_eq]
    exact and_iff_left apart
  have gone : ∀ keys : List (Key G), root ∉ keys.filter (· ≠ root) := by
    intro keys
    simp
  have other : ∀ t ∈ world.tasks, t.2 ≠ root := by
    intro t there equal
    have member : t.1.index ∈ attached world.tasks root := mem_attached.mpr ⟨t.1, equal ▸ there, rfl⟩
    rw [none] at member
    cases member
  have away : ∀ r ∈ world.roots, r ≠ root → r.index ≠ root.index :=
    fun r live apart equal => apart (h.busy.root_injective here live equal)
  have task_away : ∀ t ∈ world.tasks, t.1.index ≠ root.index := by
    intro t there equal
    have live := (h.busy.task_live there).2.1
    rw [equal, kind] at live
    cases live
  have bound : Bound epochs { world.store world.arena.pool slots' with
      roots := world.roots.filter (· ≠ root)
      endpoints := world.endpoints.filter (· ≠ root) } lanes := by
    refine h.busy.bound.change root ?_ (Nat.le_refl _) (fun live => absurd live (gone _)) ?_ ?_
      (fun _ there _ => there) ?_ ?_ h.busy.bound.single (fun live => absurd live (gone _))
      fun d there _ => ⟨d, there, rfl⟩
    · intro r live apart
      have old := (stays _ r apart).mp live
      refine ⟨old, turn.others _ (away r old apart), rfl, ?_, fun _ _ => rfl, rfl,
        stays _ r apart⟩
      intro x task
      rcases mem_attached.mp task with ⟨k, there, rfl⟩
      exact turn.others _ (task_away _ there)
    · intro t there
      have facts := h.busy.bound.task t there
      refine ⟨(stays _ _ (other t there)).mpr facts.1, ?_⟩
      show ((slots' t.1.index).record epochs).topology = _
      rw [turn.others _ (task_away t there)]
      exact facts.2
    · intro r ends
      have apart : r ≠ root := by
        rintro rfl
        exact gone _ ends
      exact (stays _ r apart).mpr (h.busy.bound.endpoint r ((stays _ r apart).mp ends))
    · exact fun d there equal => absurd equal (idle d there)
    · exact fun d there apart => (stays _ _ apart).mpr (h.busy.bound.drain d there).1
  refine ⟨h.same, h.homes.other turn (by rw [kind]; decide) (by decide), h.pool, h.chains,
    h.reserved.gain turn (by rw [kind]; decide) (h.same ▸ inside) epoch, h.leased, ?_⟩
  exact ⟨h.busy.dispatch.other turn (by rw [kind]; decide) (by decide),
    h.busy.task.other turn (by rw [kind]; decide) (by decide), roots, ready.1, bound,
    ⟨h.busy.queued.capacity, h.busy.queued.valid, ready.2⟩,
    h.busy.dead_turn turn (by rw [kind]; decide)⟩

end

end Inv

/-- What a detach does once the task is in no lane. -/
def Topology.uncount (slots : Slots G) (root : Nat) : Option (Key G) × Slots G :=
  let state := state slots root
  let next := state.count - 1
  let slots := setState slots root (state.setCount next)
  if next = 0 ∧ state.closed then (some ⟨root, (slots root).generation⟩, slots.unbind root)
  else (none, slots)

omit [DecidableEq G] in
theorem Topology.detach_eq (epochs : Epochs G) (slots : Slots G) (index : Nat) :
    detach epochs slots index =
      let root := ((slots index).record epochs).topology
      uncount (match (slots index).queue with
        | some side => remove slots root index side
        | none => slots) root := rfl

namespace Inv

section

variable (h : Inv epochs summary layout home lanes held world)

include h

theorem uncount (mem : (key, root) ∈ world.tasks)
    (vacant : (world.arena.slots key.index).queue = none) :
    (∃ slots', Topology.uncount world.arena.slots root.index = (none, slots') ∧
      (attached (world.tasks.filter (·.1 ≠ key)) root = [] → root ∈ world.endpoints) ∧
      Inv epochs summary layout home lanes (key :: held)
        { world.store world.arena.pool (slots'.unbind key.index) with
          tasks := world.tasks.filter (·.1 ≠ key) }) ∨
    ∃ slots', Topology.uncount world.arena.slots root.index = (some root, slots') ∧
      (attached (world.tasks.filter (·.1 ≠ key)) root = [] ∧ root ∉ world.endpoints) ∧
      Inv epochs summary layout home lanes (key :: root :: held)
        { world.store world.arena.pool (slots'.unbind key.index) with
          roots := world.roots.filter (· ≠ root)
          tasks := world.tasks.filter (·.1 ≠ key) } := by
  rcases h.task_root mem with ⟨here, out, task, -⟩
  have old := h.busy.bound.rooted root here
  have live := h.busy.topology.live root here
  have length := (h.busy.attached_perm mem).length_eq
  rw [List.length_cons] at length
  have next : ((world.arena.slots root.index).state.count - 1).toNat =
      (attached (world.tasks.filter (·.1 ≠ key)) root).length :=
    State.detach_count (old.count.trans length)
  have zero : (world.arena.slots root.index).state.count - 1 = 0 ↔
      attached (world.tasks.filter (·.1 ≠ key)) root = [] := by
    rw [← List.length_eq_zero_iff, ← next]
    constructor
    · intro equal
      rw [equal]
      rfl
    · exact fun equal => BitVec.eq_of_toNat_eq equal
  have closed : (world.arena.slots root.index).state.closed = true ↔ root ∉ world.endpoints := by
    have shut := old.shut
    exact (Bool.eq_iff_iff.mp shut).trans decide_eq_true_iff
  have view := State.setCount_view (world.arena.slots root.index).state
    ((world.arena.slots root.index).state.count - 1)
  rw [next] at view
  unfold Topology.uncount Topology.state
  dsimp only
  by_cases last : (world.arena.slots root.index).state.count - 1 = 0 ∧
      (world.arena.slots root.index).state.closed = true
  · right
    rw [if_pos last]
    have empty := zero.mp last.1
    have gone := closed.mp last.2
    have epoch : (Topology.setState world.arena.slots root.index
        ((world.arena.slots root.index).state.setCount
          ((world.arena.slots root.index).state.count - 1)) root.index).generation = root.epoch := by
      unfold Topology.setState
      rw [Slots.modify_self]
      exact live.2.2
    rw [epoch]
    refine ⟨_, rfl, ⟨empty, gone⟩, h.leave_last mem ?_ empty gone⟩
    refine ⟨?_, ?_, ?_⟩
    · show (Slots.modify _ _ _ _).kind = _
      rw [Slots.modify_self]
      rfl
    · show (Slots.modify _ _ _ _).generation = _
      rw [Slots.modify_self]
      show (Slots.modify _ _ _ _).generation = _
      rw [Slots.modify_self]
      rfl
    · intro j apart
      show Slots.modify _ _ _ _ = _
      rw [Slots.modify_other _ _ apart]
      exact Slots.modify_other _ _ apart
  · left
    rw [if_neg last]
    have stays : attached (world.tasks.filter (·.1 ≠ key)) root = [] → root ∈ world.endpoints := by
      intro empty
      by_contra gone
      exact last ⟨zero.mpr empty, closed.mpr gone⟩
    exact ⟨_, rfl, stays, h.leave_stay mem vacant view stays⟩

/-- A task is detached and its slot is reserved, with its root if that goes too. -/
theorem detach (mem : (key, root) ∈ world.tasks) :
    ∃ lanes', (∀ r side x, x ∈ lanes r side → x ≠ key.index → x ∈ lanes' r side) ∧
      ((∃ slots', Topology.detach epochs world.arena.slots key.index = (none, slots') ∧
        (attached (world.tasks.filter (·.1 ≠ key)) root = [] → root ∈ world.endpoints) ∧
        Inv epochs summary layout home lanes' (key :: held)
          { world.store world.arena.pool (slots'.unbind key.index) with
            tasks := world.tasks.filter (·.1 ≠ key) }) ∨
      ∃ slots', Topology.detach epochs world.arena.slots key.index = (some root, slots') ∧
        (attached (world.tasks.filter (·.1 ≠ key)) root = [] ∧ root ∉ world.endpoints) ∧
        Inv epochs summary layout home lanes' (key :: root :: held)
          { world.store world.arena.pool (slots'.unbind key.index) with
            roots := world.roots.filter (· ≠ root)
            tasks := world.tasks.filter (·.1 ≠ key) }) := by
  rcases h.task_root mem with ⟨here, out, task, topology⟩
  have listed := (h.busy.bound.rooted root here).listed
  rw [Topology.detach_eq]
  dsimp only
  rw [topology]
  cases queue : (world.arena.slots key.index).queue with
  | none => exact ⟨lanes, fun _ _ _ there _ => there, h.uncount mem queue⟩
  | some side =>
    have there := (listed.member side key.index).mpr ⟨task, queue⟩
    refine ⟨_, ?_, (h.unlink here there).uncount mem ?_⟩
    · intro r side' x old apart
      by_cases same : r = root.index
      · subst same
        rw [Function.update_self]
        by_cases lane : side' = side
        · subst lane
          rw [Function.update_self]
          exact (List.mem_erase_of_ne apart).mpr old
        · rw [Function.update_of_ne lane]
          exact old
      · rw [Function.update_of_ne same]
        exact old
    · show (Topology.remove world.arena.slots root.index key.index side key.index).queue = _
      rw [Topology.remove_queue listed out there]
      exact if_pos rfl

/-- A topology is closed: it stays for its tasks, or its root goes. -/
theorem close (mem : root ∈ world.endpoints) (idle : ∀ drain ∈ world.drains, drain.root ≠ root) :
    (∃ slots', Topology.close world.arena.slots root = (none, slots') ∧
      attached world.tasks root ≠ [] ∧
      Inv epochs summary layout home lanes held
        { world.store world.arena.pool slots' with
          endpoints := world.endpoints.filter (· ≠ root) }) ∨
    ∃ slots', Topology.close world.arena.slots root = (some root, slots') ∧
      attached world.tasks root = [] ∧
      Inv epochs summary layout home lanes (root :: held)
        { world.store world.arena.pool slots' with
          roots := world.roots.filter (· ≠ root)
          endpoints := world.endpoints.filter (· ≠ root) } := by
  have here := h.busy.bound.endpoint root mem
  have old := h.busy.bound.rooted root here
  have room := Homes.length_le (h.busy.attached_nodup root) (h.busy.attached_inside root)
  have count := old.count
  have low : ((world.arena.slots root.index).state.setWidth 16).toNat =
      (attached world.tasks root).length := by
    unfold maxCount at room
    rw [← count]
    exact State.low_count (by omega)
  have zero : (Topology.state world.arena.slots root.index).setWidth 16 = 0 ↔
      attached world.tasks root = [] := by
    rw [← List.length_eq_zero_iff, ← low]
    constructor
    · intro equal
      show ((Topology.state world.arena.slots root.index).setWidth 16).toNat = 0
      rw [equal]
      rfl
    · exact fun equal => BitVec.eq_of_toNat_eq equal
  unfold Topology.close
  by_cases none : attached world.tasks root = []
  · right
    rw [if_pos (zero.mpr none)]
    exact ⟨_, rfl, none, h.leave_root mem idle none⟩
  · left
    rw [if_neg (fun equal => none (zero.mp equal))]
    exact ⟨_, rfl, none, h.shut mem idle none⟩

end

end Inv

end Dope.Core.Ready.Arena
