import Dope.Base.Rota
import Dope.Tasks.Owned

/-! # Lanes of tasks

The links of a store agree with its chains and its ring, and the one parked task is
the one that is claimed. Each operation moves one task and nothing else.
-/

namespace Dope.Tasks

open Function

open Run (ok_bind)

variable {G : Type}

/-- The lane a task is linked in. -/
def filed : Option Node → Option Nat
  | some ⟨.linked, lane⟩ => some lane
  | _ => none

namespace Store

variable {store store' : Store G} {claim : Option Entry} {index lane : Nat} {hook : Hook}

structure Linked (store : Store G) (claim : Option Entry) : Prop where
  rota : Rota.Joined (fun lane => (store.owners lane).chain) store.first
    fun index => filed (store.nodes index)
  parked : ∀ index lane,
    store.nodes index = some ⟨.parked, lane⟩ ↔ claim = some ⟨index, lane⟩

/-- A task moves. -/
structure Moves (store store' : Store G) (index lane : Nat) (hook : Hook) : Prop where
  tasks : store'.tasks = store.tasks
  lanes : store'.lanes = store.lanes
  nodes : store'.nodes = update store.nodes index (some ⟨hook, lane⟩)
  generation : ∀ l, (store'.owners l).generation = (store.owners l).generation
  bound : ∀ l, (store'.owners l).bound = (store.owners l).bound

theorem new_linked (tasks lanes : Nat) : (new tasks lanes : Store G).Linked none :=
  ⟨Rota.joined_empty, fun _ _ => ⟨by rintro ⟨⟩, by rintro ⟨⟩⟩⟩

theorem filed_linked (lane : Nat) : filed (some ⟨.linked, lane⟩) = some lane := rfl

theorem filed_of_ne (apart : hook ≠ .linked) (lane : Nat) : filed (some ⟨hook, lane⟩) = none := by
  cases hook with
  | linked => exact absurd rfl apart
  | parked | idle => rfl

theorem filed_update (nodes : Nat → Option Node) (index : Nat) (node : Option Node) :
    (fun i => filed (update nodes index node i)) =
      update (fun i => filed (nodes i)) index (filed node) :=
  funext fun i => apply_update (fun _ => filed) nodes index node i

theorem chain_modify (store : Store G) (lane : Nat) (chain : List Nat) :
    (fun l => ((store.modify lane fun owner => { owner with chain }).owners l).chain) =
      update (fun l => (store.owners l).chain) lane chain :=
  funext fun l => apply_update (fun _ (owner : Owner G) => owner.chain) store.owners lane
    { store.owners lane with chain } l

theorem Linked.mem (h : store.Linked claim) (lane index : Nat) :
    index ∈ (store.owners lane).chain ↔ store.nodes index = some ⟨.linked, lane⟩ := by
  refine (h.rota.mem lane index).trans ?_
  generalize store.nodes index = node
  rcases node with - | ⟨hook, other⟩
  · simp [filed]
  · cases hook <;> simp [filed]

/-- The chain of a lane and the hook of its task are written. -/
theorem moves_rechain (store : Store G) (index lane : Nat) (hook : Hook) (node : Node)
    (here : node.lane = lane) (chain first : List Nat) :
    Moves store { ((store.setHook index node hook).modify lane fun owner =>
      { owner with chain }) with first } index lane hook where
  tasks := rfl
  lanes := rfl
  nodes := by
    subst here
    rfl
  generation := Owner.field_update Owner.generation rfl
  bound := Owner.field_update Owner.bound rfl

theorem parked_update {nodes : Nat → Option Node} {claim' : Option Entry}
    (parked : ∀ i l, nodes i = some ⟨.parked, l⟩ ↔ claim = some ⟨i, l⟩)
    (here : ∀ l, some (Node.mk hook lane) = some ⟨.parked, l⟩ ↔ claim' = some ⟨index, l⟩)
    (others : ∀ i l, i ≠ index → (claim' = some ⟨i, l⟩ ↔ claim = some ⟨i, l⟩)) (i l : Nat) :
    update nodes index (some ⟨hook, lane⟩) i = some ⟨.parked, l⟩ ↔
      claim' = some ⟨i, l⟩ := by
  by_cases same : i = index
  · subst same
    rw [update_self]
    exact here l
  · rw [update_of_ne same, others i l same]
    exact parked i l

theorem node_ok (has : store.nodes index = some ⟨hook, lane⟩) :
    store.node index = .ok ⟨hook, lane⟩ := by
  unfold node
  rw [has]

theorem Linked.unlinked (h : store.Linked claim) (has : store.nodes index = some ⟨hook, lane⟩)
    (out : claim = none ∧ hook = .idle ∨ claim = some ⟨index, lane⟩) : hook ≠ .linked := by
  rcases out with ⟨-, rfl⟩ | claimed
  · simp
  · have parked := (h.parked index lane).mpr claimed
    rw [has] at parked
    cases parked
    simp

/-- A task that is claimed, or rests, joins its lane. -/
theorem Linked.enqueue (h : store.Linked claim) (has : store.nodes index = some ⟨hook, lane⟩)
    (out : claim = none ∧ hook = .idle ∨ claim = some ⟨index, lane⟩) :
    ∃ store', store.enqueue lane index = .ok store' ∧ store'.Linked none ∧
      store.Moves store' index lane .linked ∧ ∀ l first,
        (store.owners l).chain.head? = some first → (store'.owners l).chain.head? = some first := by
  have unlinked := h.unlinked has out
  have others : ∀ i l, i ≠ index → ((none : Option Entry) = some ⟨i, l⟩ ↔ claim = some ⟨i, l⟩) := by
    intro i l apart
    rcases out with ⟨rfl, -⟩ | rfl
    · exact Iff.rfl
    · simp [Ne.symm apart]
  unfold Store.enqueue
  rw [node_ok has, ok_bind]
  dsimp only
  rw [if_neg unlinked]
  refine ⟨_, rfl, ⟨?_, parked_update h.parked (by simp) others⟩, moves_rechain _ _ _ _ _ rfl _ _,
    ?_⟩
  · have joined := h.rota.insert (k := lane) (a := index)
      (by rw [has]; exact filed_of_ne unlinked _)
    rw [← filed_linked lane, ← filed_update, ← chain_modify] at joined
    exact joined
  · intro l first top
    by_cases same : l = lane
    · subst same
      simp [modify, setHook, List.head?_append, top]
    · simpa [modify, setHook, same] using top

theorem Linked.remove (h : store.Linked none) (member : index ∈ (store.owners lane).chain) :
    ∃ store', store.remove lane index = .ok store' ∧ store'.Linked (some ⟨index, lane⟩) ∧
      store.Moves store' index lane .parked := by
  have has := (h.mem lane index).mp member
  unfold Store.remove
  rw [node_ok has, ok_bind, if_neg (not_not_intro member)]
  refine ⟨_, rfl, ⟨?_, parked_update h.parked (by simp) ?_⟩, moves_rechain _ _ _ _ _ rfl _ _⟩
  · have left := h.rota.erase (k := lane) (a := index) (by rw [has]; rfl)
    rw [← filed_of_ne (show Hook.parked ≠ .linked by simp) lane, ← filed_update,
      ← chain_modify] at left
    exact left
  · intro i l apart
    simp [Ne.symm apart]

theorem Linked.head (h : store.Linked none) (rounds : Rounds)
    (first : (store.owners lane).chain.head? = some index) :
    ∃ store', store.head rounds lane index = .ok store' ∧ store'.Linked (some ⟨index, lane⟩) ∧
      store.Moves store' index lane .parked := by
  cases chain : (store.owners lane).chain with
  | nil =>
    rw [chain] at first
    cases first
  | cons top rest =>
    rw [chain] at first
    cases first
    have has := (h.mem lane index).mp (by rw [chain]; exact List.mem_cons_self)
    unfold Store.head
    rw [node_ok has, ok_bind, chain]
    dsimp only
    rw [if_neg (fun apart => apart rfl)]
    refine ⟨_, rfl, ⟨?_, parked_update h.parked (by simp) ?_⟩, moves_rechain _ _ _ _ _ rfl _ _⟩
    · have left := h.rota.behead chain (rounds.perm lane store.first)
      rw [← filed_of_ne (show Hook.parked ≠ .linked by simp) lane, ← filed_update,
        ← chain_modify] at left
      exact left
    · intro i l apart
      simp [Ne.symm apart]

theorem Linked.rest (h : store.Linked claim) (has : store.nodes index = some ⟨hook, lane⟩)
    (out : claim = none ∧ hook = .idle ∨ claim = some ⟨index, lane⟩) :
    ∃ store', store.rest index = .ok store' ∧ store'.Linked none ∧
      store'.owners = store.owners ∧ store.Moves store' index lane .idle := by
  have unlinked := h.unlinked has out
  unfold Store.rest
  rw [node_ok has, ok_bind]
  dsimp only
  rw [if_neg unlinked]
  refine ⟨_, rfl, ⟨?_, parked_update h.parked (by simp) ?_⟩, rfl,
    ⟨rfl, rfl, rfl, fun _ => rfl, fun _ => rfl⟩⟩
  · have same : (fun i => filed ((store.setHook index ⟨hook, lane⟩ .idle).nodes i)) =
        fun i => filed (store.nodes i) := by
      refine (filed_update store.nodes index _).trans ?_
      rw [filed_of_ne (by simp), ← filed_of_ne unlinked lane, ← has]
      exact update_eq_self ..
    rw [same]
    exact h.rota
  · intro i l apart
    rcases out with ⟨rfl, -⟩ | rfl
    · exact Iff.rfl
    · simp [Ne.symm apart]

/-- The bounds and the generations do not matter to the links. -/
theorem Linked.congr (h : store.Linked claim) (nodes : store'.nodes = store.nodes)
    (first : store'.first = store.first)
    (chain : ∀ l, (store'.owners l).chain = (store.owners l).chain) : store'.Linked claim where
  rota := by
    rw [nodes, first, show (fun l => (store'.owners l).chain) = fun l => (store.owners l).chain from
      funext chain]
    exact h.rota
  parked := by
    rw [nodes]
    exact h.parked

theorem Linked.park (h : store.Linked none) (out : filed (store.nodes index) = none) :
    ({ store with nodes := update store.nodes index (some ⟨.parked, lane⟩) } :
      Store G).Linked (some ⟨index, lane⟩) where
  rota := by
    have same : (fun i => filed (update store.nodes index (some ⟨.parked, lane⟩) i)) =
        fun i => filed (store.nodes i) := by
      rw [filed_update, filed_of_ne (by simp), ← out]
      exact update_eq_self ..
    dsimp only
    rw [same]
    exact h.rota
  parked := parked_update h.parked (by simp) fun i l apart => by simp [Ne.symm apart]

end Store

end Dope.Tasks
