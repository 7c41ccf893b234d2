import Dope.OneShot.Pool
import Mathlib.Data.List.Nodup

/-! # Invariant of a one-shot pool

What the phase of a cell says about the kernel, the descriptor, the retry queue, the
deadline and the authority of its position. A call leaves its position resident, or
vacates it, and every other position is as it was.
-/

namespace Dope.OneShot

variable {A P : Type}

/-! ## Cells -/

/-- The operation that a phase waits for. -/
def Cell.op? (cell : Cell A P) (key : Local) : Option (Op P) :=
  match cell.phase with
  | .creating slot flight _ | .creatingCancelled slot flight =>
      some ⟨key, flight, .socket slot⟩
  | .connecting fd flight _ | .connectingCancelled fd flight =>
      some ⟨key, flight, .connect cell.address fd⟩
  | .sending fd flight bytes => some ⟨key, flight, .send fd cell.offset bytes⟩
  | .connectRetry .. | .sendRetry _ | .retired => none

variable {cell : Cell A P} {key : Local}

theorem Cell.op?_key {op : Op P} (h : cell.op? key = some op) : op.key = key := by
  unfold Cell.op? at h
  split at h <;> cases h <;> rfl

/-- A submission is waiting to be made again. -/
def Phase.waits : Phase → Bool
  | .connectRetry .. | .sendRetry _ => true
  | .creating .. | .creatingCancelled .. | .connecting .. | .connectingCancelled .. | .sending ..
  | .retired => false

/-- A send covers the payload from the offset on, and only an operation that the
kernel is to end is kept without an authority. -/
def Cell.Good (bounds : Bounds) (cell : Cell A P) : Prop :=
  cell.offset ≤ cell.payload.length ∧
    match cell.phase with
    | .creating .. | .connecting .. => True
    | .creatingCancelled .. | .connectingCancelled .. => cell.authority = none
    | .connectRetry .. | .sendRetry _ => cell.authority ≠ none
    | .sending _ _ bytes =>
        bytes = min (cell.payload.length - cell.offset) bounds.transfer ∧ 0 < bytes
    | .retired => False

namespace World

/-! ## Invariant -/

/-- What is true of one position. -/
structure At (bounds : Bounds) (world : World A P) (i : Nat) : Prop where
  inside : ∀ cell, (world.pool.slots i).state = .occupied cell → i < world.pool.capacity
  good : ∀ cell, (world.pool.slots i).state = .occupied cell →
    cell.Good bounds ∧ cell.offset = world.acked ⟨i, (world.pool.slots i).epoch⟩
  ops : ∀ op : Op P, op.key.index = i → (op ∈ world.driver.outstanding ↔
    op.key.epoch = (world.pool.slots i).epoch ∧
      ∃ cell, (world.pool.slots i).state = .occupied cell ∧ cell.op? op.key = some op)
  due : ∀ due, world.pool.deadlines i = some due → due.epoch = (world.pool.slots i).epoch ∧
    ∃ cell, (world.pool.slots i).state = .occupied cell ∧ cell.authority ≠ none
  armed : ∀ cell, (world.pool.slots i).state = .occupied cell → cell.authority ≠ none →
    world.pool.deadlines i ≠ none
  retries : ∀ g, ⟨i, g⟩ ∈ world.pool.retries ↔ g = (world.pool.slots i).epoch ∧
    ∃ cell, (world.pool.slots i).state = .occupied cell ∧
      (cell.phase.waits ∨ ⟨i, g⟩ ∈ world.stalled)
  stalled : ∀ g, ⟨i, g⟩ ∈ world.stalled → g < (world.pool.slots i).epoch ∨
    g = (world.pool.slots i).epoch ∧ (world.pool.slots i).state ≠ .free ∧
      ∀ cell, (world.pool.slots i).state = .occupied cell →
        cell.authority = none ∧ cell.phase.stops
  accepted : ∀ g a, (⟨i, g⟩, a) ∈ world.accepted → g < (world.pool.slots i).epoch ∨
    g = (world.pool.slots i).epoch ∧ (world.pool.slots i).state ≠ .free
  handed : ∀ g a, (⟨i, g⟩, a) ∈ world.handed → (⟨i, g⟩, a) ∈ world.accepted
  owed : ∀ g a, (⟨i, g⟩, a) ∈ world.accepted → ((⟨i, g⟩, a) ∉ world.handed ↔
    g = (world.pool.slots i).epoch ∧
      ∃ cell, (world.pool.slots i).state = .occupied cell ∧ cell.authority = some a)
  owner : ∀ cell a, (world.pool.slots i).state = .occupied cell → cell.authority = some a →
    (⟨i, (world.pool.slots i).epoch⟩, a) ∈ world.accepted
  created : ∀ g fd, (⟨i, g⟩, fd) ∈ world.driver.created → g < (world.pool.slots i).epoch ∨
    g = (world.pool.slots i).epoch ∧ (world.pool.slots i).state ≠ .free
  closed : ∀ g fd, (⟨i, g⟩, fd) ∈ world.driver.closed → (⟨i, g⟩, fd) ∈ world.driver.created ∧
    (g = (world.pool.slots i).epoch → ∀ cell, (world.pool.slots i).state ≠ .occupied cell)
  unclosed : ∀ g fd, (⟨i, g⟩, fd) ∈ world.driver.created → (⟨i, g⟩, fd) ∉ world.driver.closed →
    g = (world.pool.slots i).epoch ∧
      ∃ cell, (world.pool.slots i).state = .occupied cell ∧ cell.phase.fd? = some fd
  holds : ∀ cell fd, (world.pool.slots i).state = .occupied cell → cell.phase.fd? = some fd →
    (⟨i, (world.pool.slots i).epoch⟩, fd) ∈ world.driver.created

/-- Nothing is submitted, queued, accepted, handed back, created or closed twice. -/
structure Once (world : World A P) : Prop where
  outstanding : world.driver.outstanding.Nodup
  retries : world.pool.retries.Nodup
  accepted : (world.accepted.map Prod.fst).Nodup
  handed : (world.handed.map Prod.fst).Nodup
  created : (world.driver.created.map Prod.fst).Nodup
  closed : (world.driver.closed.map Prod.fst).Nodup

structure Inv (bounds : Bounds) (world : World A P) : Prop where
  «at» : ∀ i, world.At bounds i
  once : world.Once

/-- Two worlds differ at one position only. -/
structure Apart (i : Nat) (old new : World A P) : Prop where
  capacity : new.pool.capacity = old.pool.capacity
  slots : ∀ j, j ≠ i → new.pool.slots j = old.pool.slots j
  deadlines : ∀ j, j ≠ i → new.pool.deadlines j = old.pool.deadlines j
  retries : ∀ k : Local, k.index ≠ i → (k ∈ new.pool.retries ↔ k ∈ old.pool.retries)
  stalled : ∀ k : Local, k.index ≠ i → (k ∈ new.stalled ↔ k ∈ old.stalled)
  acked : ∀ k : Local, k.index ≠ i → new.acked k = old.acked k
  ops : ∀ op : Op P, op.key.index ≠ i →
    (op ∈ new.driver.outstanding ↔ op ∈ old.driver.outstanding)
  created : ∀ (k : Local) fd, k.index ≠ i →
    ((k, fd) ∈ new.driver.created ↔ (k, fd) ∈ old.driver.created)
  closed : ∀ (k : Local) fd, k.index ≠ i →
    ((k, fd) ∈ new.driver.closed ↔ (k, fd) ∈ old.driver.closed)
  accepted : ∀ (k : Local) a, k.index ≠ i → ((k, a) ∈ new.accepted ↔ (k, a) ∈ old.accepted)
  handed : ∀ (k : Local) a, k.index ≠ i → ((k, a) ∈ new.handed ↔ (k, a) ∈ old.handed)

theorem nodup_fst_cons {α β : Type} {list : List (α × β)} {a : α} (b : β)
    (nodup : (list.map Prod.fst).Nodup) (fresh : ∀ b, (a, b) ∉ list) :
    (((a, b) :: list).map Prod.fst).Nodup := by
  refine List.nodup_cons.mpr ⟨?_, nodup⟩
  intro mem
  rcases List.mem_map.mp mem with ⟨x, there, same⟩
  have pair : x = (a, x.2) := Prod.ext same rfl
  rw [pair] at there
  exact fresh x.2 there

variable {bounds : Bounds} {old new : World A P}

theorem Inv.change (h : old.Inv bounds) (i : Nat) (apart : Apart i old new)
    (here : new.At bounds i) (once : new.Once) : new.Inv bounds := by
  refine ⟨?_, once⟩
  intro j
  by_cases same : j = i
  · rw [same]
    exact here
  · have before := h.at j
    constructor
    · rw [apart.slots j same, apart.capacity]
      exact before.inside
    · rw [apart.slots j same, apart.acked ⟨j, _⟩ same]
      exact before.good
    · intro op index
      rw [apart.slots j same, apart.ops op (index ▸ same)]
      exact before.ops op index
    · rw [apart.slots j same, apart.deadlines j same]
      exact before.due
    · rw [apart.slots j same, apart.deadlines j same]
      exact before.armed
    · intro g
      rw [apart.slots j same, apart.retries ⟨j, g⟩ same, apart.stalled ⟨j, g⟩ same]
      exact before.retries g
    · intro g
      rw [apart.slots j same, apart.stalled ⟨j, g⟩ same]
      exact before.stalled g
    · intro g a
      rw [apart.slots j same, apart.accepted ⟨j, g⟩ a same]
      exact before.accepted g a
    · intro g a
      rw [apart.handed ⟨j, g⟩ a same, apart.accepted ⟨j, g⟩ a same]
      exact before.handed g a
    · intro g a
      rw [apart.slots j same, apart.handed ⟨j, g⟩ a same, apart.accepted ⟨j, g⟩ a same]
      exact before.owed g a
    · intro cell a
      rw [apart.slots j same, apart.accepted ⟨j, _⟩ a same]
      exact before.owner cell a
    · intro g fd
      rw [apart.slots j same, apart.created ⟨j, g⟩ fd same]
      exact before.created g fd
    · intro g fd
      rw [apart.slots j same, apart.created ⟨j, g⟩ fd same, apart.closed ⟨j, g⟩ fd same]
      exact before.closed g fd
    · intro g fd
      rw [apart.slots j same, apart.created ⟨j, g⟩ fd same, apart.closed ⟨j, g⟩ fd same]
      exact before.unclosed g fd
    · intro cell fd
      rw [apart.slots j same, apart.created ⟨j, _⟩ fd same]
      exact before.holds cell fd

/-! ## A resident that stays -/

/-- A cell is the resident of its key. -/
abbrev Holds (world : World A P) (key : Local) (cell : Cell A P) : Prop :=
  world.pool.slots key.index = ⟨key.epoch, .occupied cell⟩

/-- A resident stays, with another cell. -/
structure Kept (bounds : Bounds) (old new : World A P) (key : Local) (cell cell' : Cell A P) :
    Prop where
  slots : new.pool.slots = Function.update old.pool.slots key.index ⟨key.epoch, .occupied cell'⟩
  capacity : new.pool.capacity = old.pool.capacity
  good : cell'.Good bounds
  offset : cell'.offset = new.acked key
  acked : ∀ k, k ≠ key → new.acked k = old.acked k
  authority : ∀ a, cell'.authority = some a → cell.authority = some a
  deadlines : ∀ j, j ≠ key.index → new.pool.deadlines j = old.pool.deadlines j
  due : ∀ due, new.pool.deadlines key.index = some due →
    due.epoch = key.epoch ∧ cell'.authority ≠ none
  armed : cell'.authority ≠ none → new.pool.deadlines key.index ≠ none
  retries : ∀ k, k ≠ key → (k ∈ new.pool.retries ↔ k ∈ old.pool.retries)
  queued : key ∈ new.pool.retries ↔ cell'.phase.waits ∨ key ∈ new.stalled
  queue : new.pool.retries.Nodup
  stalled : ∀ k, k ≠ key → (k ∈ new.stalled ↔ k ∈ old.stalled)
  stall : key ∈ new.stalled → cell'.authority = none ∧ cell'.phase.stops
  ops : ∀ op, op ∈ new.driver.outstanding ↔
    op ∈ old.driver.outstanding ∧ op.key ≠ key ∨ cell'.op? key = some op
  outstanding : new.driver.outstanding.Nodup
  others : ∀ k fd, k ≠ key → ((k, fd) ∈ new.driver.created ↔ (k, fd) ∈ old.driver.created)
  holds : ∀ fd, (key, fd) ∈ new.driver.created ↔ cell'.phase.fd? = some fd
  created : (new.driver.created.map Prod.fst).Nodup
  closed : new.driver.closed = old.driver.closed
  accepted : new.accepted = old.accepted
  handed : new.handed = old.handed ∧ cell'.authority = cell.authority ∨
    ∃ a, cell.authority = some a ∧ cell'.authority = none ∧ new.handed = (key, a) :: old.handed

theorem Inv.unhanded (h : old.Inv bounds) (slot : old.Holds key cell) {a : A}
    (held : cell.authority = some a) : (key, a) ∈ old.accepted ∧ ∀ b, (key, b) ∉ old.handed := by
  cases key with
  | mk i e =>
    have before := h.at i
    have accepted := before.owner cell a (by rw [slot]) held
    rw [slot] at accepted
    refine ⟨accepted, ?_⟩
    intro b mem
    have other := before.handed e b mem
    have same : b = a :=
      congrArg Prod.snd (List.inj_on_of_nodup_map h.once.accepted other accepted rfl)
    rw [same] at mem
    exact (before.owed e a accepted).mpr ⟨by rw [slot], cell, by rw [slot], held⟩ mem

theorem Inv.kept (h : old.Inv bounds) {cell' : Cell A P} (slot : old.Holds key cell)
    (kept : Kept bounds old new key cell cell') : new.Inv bounds := by
  cases key with
  | mk i e =>
    have before := h.at i
    have here : new.pool.slots i = ⟨e, .occupied cell'⟩ := by
      rw [kept.slots]
      exact Function.update_self ..
    refine h.change i ?_ ?_ ?_
    · constructor
      · exact kept.capacity
      · intro j apart
        rw [kept.slots, Function.update_of_ne apart]
      · exact kept.deadlines
      · exact fun k apart => kept.retries k (by grind)
      · exact fun k apart => kept.stalled k (by grind)
      · exact fun k apart => kept.acked k (by grind)
      · intro op apart
        rw [kept.ops]
        have := @Cell.op?_key _ _ cell' ⟨i, e⟩ op
        grind
      · exact fun k fd apart => kept.others k fd (by grind)
      · intro k fd _
        rw [kept.closed]
      · intro k a _
        rw [kept.accepted]
      · intro k a apart
        rcases kept.handed with ⟨same, -⟩ | ⟨b, -, -, more⟩
        · rw [same]
        · rw [more]
          grind
    · constructor
      · intro _ _
        rw [kept.capacity]
        exact before.inside cell (by rw [slot])
      · rw [here]
        intro other same
        cases same
        exact ⟨kept.good, kept.offset⟩
      · rw [here]
        intro op index
        rw [kept.ops]
        have was := before.ops op index
        have named := @Cell.op?_key _ _ cell' ⟨i, e⟩ op
        rw [slot] at was
        by_cases epoch : op.key.epoch = e
        · have key : op.key = ⟨i, e⟩ := by rw [← index, ← epoch]
          rw [key]
          simp
        · have key : op.key ≠ ⟨i, e⟩ := fun same => epoch (congrArg Local.epoch same)
          grind
      · rw [here]
        intro due set
        have := kept.due due set
        grind
      · rw [here]
        intro other same held
        cases same
        exact kept.armed held
      · rw [here]
        intro g
        have was := before.retries g
        have same := kept.queued
        have others := kept.retries ⟨i, g⟩
        rw [slot] at was
        grind
      · rw [here]
        intro g mem
        have was := before.stalled g
        have same := kept.stall
        have others := kept.stalled ⟨i, g⟩
        rw [slot] at was
        by_cases epoch : g = e
        · subst epoch
          refine .inr ⟨rfl, nofun, ?_⟩
          intro other held
          cases held
          exact same mem
        · grind
      · rw [here, kept.accepted]
        intro g a mem
        have was := before.accepted g a mem
        rw [slot] at was
        grind
      · rw [kept.accepted]
        intro g a mem
        rcases kept.handed with ⟨same, -⟩ | ⟨b, held, -, more⟩
        · rw [same] at mem
          exact before.handed g a mem
        · rw [more] at mem
          rcases List.mem_cons.mp mem with new | old
          · cases new
            exact (h.unhanded slot held).1
          · exact before.handed g a old
      · rw [here, kept.accepted]
        intro g a mem
        have was := before.owed g a mem
        rw [slot] at was
        rcases kept.handed with ⟨same, keep⟩ | ⟨b, held, gone, more⟩
        · rw [same]
          grind
        · rw [more]
          have only : g = e → a = b := by
            intro same
            subst same
            exact congrArg Prod.snd (List.inj_on_of_nodup_map h.once.accepted mem
              (h.unhanded slot held).1 rfl)
          grind
      · rw [here, kept.accepted]
        intro other a same held
        cases same
        exact (h.unhanded slot (kept.authority a held)).1
      · rw [here]
        intro g fd mem
        have was := before.created g fd
        have others := kept.others ⟨i, g⟩ fd
        rw [slot] at was
        grind
      · rw [here, kept.closed]
        intro g fd mem
        have was := before.closed g fd mem
        have others := kept.others ⟨i, g⟩ fd
        rw [slot] at was
        grind
      · rw [here, kept.closed]
        intro g fd mem
        by_cases epoch : g = e
        · subst epoch
          intro _
          exact ⟨rfl, cell', rfl, (kept.holds fd).mp mem⟩
        · have was := before.unclosed g fd
          have others := kept.others ⟨i, g⟩ fd
          rw [slot] at was
          grind
      · rw [here]
        intro other fd same held
        cases same
        exact (kept.holds fd).mpr held
    · constructor
      · exact kept.outstanding
      · exact kept.queue
      · rw [kept.accepted]
        exact h.once.accepted
      · rcases kept.handed with ⟨same, -⟩ | ⟨b, held, -, more⟩
        · rw [same]
          exact h.once.handed
        · rw [more]
          exact nodup_fst_cons b h.once.handed (h.unhanded slot held).2
      · exact kept.created
      · rw [kept.closed]
        exact h.once.closed

/-! ## A resident that leaves -/

/-- The position of a resident is vacated. Its descriptor is closed, and its
authority is handed back. -/
structure Gone (old new : World A P) (key : Local) (cell : Cell A P) : Prop where
  others : ∀ i, i ≠ key.index → new.pool.slots i = old.pool.slots i
  vacant : new.pool.slots key.index = ⟨key.epoch, .retired⟩ ∨
    new.pool.slots key.index = ⟨key.epoch + 1, .free⟩
  capacity : new.pool.capacity = old.pool.capacity
  acked : ∀ k, k ≠ key → new.acked k = old.acked k
  deadlines : new.pool.deadlines = Function.update old.pool.deadlines key.index none
  retries : new.pool.retries = old.pool.retries.erase key
  stalled : ∀ k, k ≠ key → (k ∈ new.stalled ↔ k ∈ old.stalled)
  ops : ∀ op, op ∈ new.driver.outstanding ↔ op ∈ old.driver.outstanding ∧ op.key ≠ key
  outstanding : new.driver.outstanding.Nodup
  made : new.driver.created = old.driver.created ∧ (∀ fd, cell.phase.fd? = some fd →
      new.driver.closed = (key, fd) :: old.driver.closed) ∧
        (cell.phase.fd? = none → new.driver.closed = old.driver.closed) ∨
    ∃ fd, cell.phase.fd? = none ∧ new.driver.created = (key, fd) :: old.driver.created ∧
      new.driver.closed = (key, fd) :: old.driver.closed
  accepted : new.accepted = old.accepted
  handed : cell.authority = none ∧ new.handed = old.handed ∨
    ∃ a, cell.authority = some a ∧ new.handed = (key, a) :: old.handed

section

variable {key : Local} {cell : Cell A P}

theorem Gone.past (gone : Gone old new key cell) {g : Nat} (le : g ≤ key.epoch) :
    g < (new.pool.slots key.index).epoch ∨
      g = (new.pool.slots key.index).epoch ∧ (new.pool.slots key.index).state ≠ .free := by
  rcases gone.vacant with same | same
  · rw [same]
    rcases Nat.lt_or_eq_of_le le with less | equal
    · exact .inl less
    · exact .inr ⟨equal, nofun⟩
  · rw [same]
    exact .inl (Nat.lt_succ_of_le le)

theorem Gone.empty (gone : Gone old new key cell) (other : Cell A P) :
    (new.pool.slots key.index).state ≠ .occupied other := by
  rcases gone.vacant with same | same
  · rw [same]
    nofun
  · rw [same]
    nofun

theorem Gone.handed_mem (gone : Gone old new key cell) {a : A} (held : cell.authority = some a) :
    (key, a) ∈ new.handed := by
  rcases gone.handed with ⟨none, -⟩ | ⟨b, some, more⟩
  · rw [held] at none
    cases none
  · rw [held] at some
    cases some
    rw [more]
    exact List.mem_cons_self

theorem Gone.closed_of_closed (gone : Gone old new key cell) {x : Local × Nat}
    (mem : x ∈ old.driver.closed) : x ∈ new.driver.closed := by
  rcases gone.made with ⟨-, some, none⟩ | ⟨fd, -, -, shut⟩
  · cases fd : cell.phase.fd? with
    | none =>
      rw [none fd]
      exact mem
    | some fd' =>
      rw [some fd' fd]
      exact List.mem_cons_of_mem _ mem
  · rw [shut]
    exact List.mem_cons_of_mem _ mem

theorem Gone.created_iff (gone : Gone old new key cell) (x : Local × Nat) :
    x ∈ new.driver.created ↔ x ∈ old.driver.created ∨ x.1 = key ∧ x ∈ new.driver.created := by
  rcases gone.made with ⟨same, -⟩ | ⟨fd, -, more, -⟩
  · rw [same]
    grind
  · rw [more]
    grind

variable (h : old.Inv bounds) (slot : old.Holds key cell)
include h slot

theorem Inv.unclosed (fd : Nat) : (key, fd) ∉ old.driver.closed := by
  intro closed
  exact ((h.at key.index).closed key.epoch fd closed).2 (by rw [slot]) cell (by rw [slot])

/-- Nothing that a resident without a descriptor had created is left. -/
theorem Inv.uncreated {fd : Nat} (mem : (key, fd) ∈ old.driver.created) :
    cell.phase.fd? = some fd := by
  rcases (h.at key.index).unclosed key.epoch fd mem (h.unclosed slot fd) with ⟨-, other, same, held⟩
  rw [slot] at same
  cases same
  exact held

section

variable (gone : Gone old new key cell)

include gone

theorem Gone.handed_iff (x : Local × A) :
    x ∈ new.handed ↔ x ∈ old.handed ∨ x.1 = key ∧ x ∈ new.handed ∧ x ∈ old.accepted := by
  rcases gone.handed with ⟨-, same⟩ | ⟨a, held, more⟩
  · rw [same]
    grind
  · rw [more]
    have accepted := (h.unhanded slot held).1
    grind

theorem Gone.closed_of_created {fd : Nat} (mem : (key, fd) ∈ new.driver.created) :
    (key, fd) ∈ new.driver.closed := by
  rcases gone.made with ⟨same, shut, -⟩ | ⟨fd', none, more, shut⟩
  · rw [same] at mem
    rw [shut fd (h.uncreated slot mem)]
    exact List.mem_cons_self
  · rw [more] at mem
    rw [shut]
    rcases List.mem_cons.mp mem with new | was
    · rw [new]
      exact List.mem_cons_self
    · have held := h.uncreated slot was
      rw [none] at held
      cases held

theorem Gone.closed_cases {x : Local × Nat} (mem : x ∈ new.driver.closed) :
    x ∈ old.driver.closed ∨ x.1 = key ∧ x ∈ new.driver.created := by
  rcases gone.made with ⟨same, some, none⟩ | ⟨fd, -, more, shut⟩
  · cases fd : cell.phase.fd? with
    | none =>
      rw [none fd] at mem
      exact .inl mem
    | some fd' =>
      rw [some fd' fd] at mem
      rcases List.mem_cons.mp mem with new | was
      · have held := (h.at key.index).holds cell fd' (by rw [slot]) fd
        rw [slot] at held
        rw [new, same]
        exact .inr ⟨rfl, held⟩
      · exact .inl was
  · rw [shut] at mem
    rcases List.mem_cons.mp mem with new | was
    · rw [new, more]
      exact .inr ⟨rfl, List.mem_cons_self⟩
    · exact .inl was

theorem Inv.gone_apart : Apart key.index old new where
  capacity := gone.capacity
  slots := gone.others
  deadlines j apart := by rw [gone.deadlines, Function.update_of_ne apart]
  retries k apart := by
    rw [gone.retries, h.once.retries.mem_erase_iff]
    grind
  stalled k apart := gone.stalled k (by grind)
  acked k apart := gone.acked k (by grind)
  ops op apart := by
    rw [gone.ops]
    grind
  created k fd apart := by
    have := gone.created_iff (k, fd)
    grind
  closed k fd apart := by
    refine ⟨?_, gone.closed_of_closed⟩
    intro mem
    rcases gone.closed_cases h slot mem with was | ⟨here, -⟩
    · exact was
    · exact absurd (congrArg Local.index here) apart
  accepted k a _ := by rw [gone.accepted]
  handed k a apart := by
    have := gone.handed_iff h slot (k, a)
    grind

theorem Inv.gone_at : new.At bounds key.index := by
  have past := @gone.past
  have empty := gone.empty
  cases key with
  | mk i e =>
    dsimp only at slot past empty ⊢
    have before := h.at i
    constructor
    · exact fun other same => absurd same (empty other)
    · exact fun other same => absurd same (empty other)
    · intro op index
      rw [gone.ops]
      have was := before.ops op index
      rw [slot] at was
      have key : op.key.epoch = e → op.key = ⟨i, e⟩ := by
        intro epoch
        rw [← index, ← epoch]
      grind
    · rw [gone.deadlines]
      intro due set
      simp at set
    · exact fun other same => absurd same (empty other)
    · intro g
      rw [gone.retries, h.once.retries.mem_erase_iff]
      have was := before.retries g
      rw [slot] at was
      grind
    · intro g mem
      have before : g ≤ e := by
        by_cases epoch : g = e
        · exact Nat.le_of_eq epoch
        · have was := before.stalled g ((gone.stalled ⟨i, g⟩ (by grind)).mp mem)
          rw [slot] at was
          grind
      rcases past before with less | ⟨same, state⟩
      · exact .inl less
      · exact .inr ⟨same, state, fun other held => absurd held (empty other)⟩
    · rw [gone.accepted]
      intro g a mem
      have was := before.accepted g a mem
      rw [slot] at was
      exact past (by grind)
    · rw [gone.accepted]
      intro g a mem
      rcases (gone.handed_iff h slot _).mp mem with was | ⟨-, -, accepted⟩
      · exact before.handed g a was
      · exact accepted
    · rw [gone.accepted]
      intro g a mem
      refine iff_of_false ?_ ?_
      · intro owed
        have was := (before.owed g a mem).mp
          (fun no => owed ((gone.handed_iff h slot _).mpr (.inl no)))
        rw [slot] at was
        rcases was with ⟨epoch, other, same, held⟩
        cases same
        cases epoch
        exact owed (gone.handed_mem held)
      · rintro ⟨-, other, same, -⟩
        exact empty other same
    · exact fun other a same => absurd same (empty other)
    · intro g fd mem
      rcases (gone.created_iff _).mp mem with was | ⟨same, -⟩
      · have was := before.created g fd was
        rw [slot] at was
        exact past (by grind)
      · exact past (by grind)
    · intro g fd mem
      refine ⟨?_, fun _ => empty⟩
      rcases gone.closed_cases h slot mem with was | ⟨-, made⟩
      · exact (gone.created_iff _).mpr (.inl (before.closed g fd was).1)
      · exact made
    · intro g fd mem unclosed
      exfalso
      by_cases epoch : g = e
      · subst epoch
        exact unclosed (gone.closed_of_created h slot mem)
      · have was := (gone.created_iff _).mp mem
        have old := before.unclosed g fd (by grind) (fun no => unclosed (gone.closed_of_closed no))
        rw [slot] at old
        exact epoch old.1
    · exact fun other fd same => absurd same (empty other)

theorem Inv.gone_once : new.Once where
  outstanding := gone.outstanding
  retries := by
    rw [gone.retries]
    exact h.once.retries.erase _
  accepted := by
    rw [gone.accepted]
    exact h.once.accepted
  handed := by
    rcases gone.handed with ⟨-, same⟩ | ⟨b, held, more⟩
    · rw [same]
      exact h.once.handed
    · rw [more]
      exact nodup_fst_cons b h.once.handed (h.unhanded slot held).2
  created := by
    rcases gone.made with ⟨same, -⟩ | ⟨fd, none, more, -⟩
    · rw [same]
      exact h.once.created
    · rw [more]
      refine nodup_fst_cons fd h.once.created ?_
      intro fd' there
      have held := h.uncreated slot there
      rw [none] at held
      cases held
  closed := by
    rcases gone.made with ⟨-, some, none⟩ | ⟨fd, -, -, shut⟩
    · cases fd : cell.phase.fd? with
      | none =>
        rw [none fd]
        exact h.once.closed
      | some fd' =>
        rw [some fd' fd]
        exact nodup_fst_cons fd' h.once.closed (h.unclosed slot)
    · rw [shut]
      exact nodup_fst_cons fd h.once.closed (h.unclosed slot)

end

theorem Inv.gone (gone : Gone old new key cell) : new.Inv bounds :=
  h.change key.index (h.gone_apart slot gone) (h.gone_at slot gone) (h.gone_once slot gone)

end

/-! ## A new resident -/

theorem Inv.publish (h : old.Inv bounds) {i e : Nat} (inside : i < old.pool.capacity)
    (here : old.pool.slots i = ⟨e, .free⟩) (request : Request A P) (slot flight : Nat) :
    Inv bounds { old with
      pool := (old.pool.put ⟨i, e⟩ (Cell.new request slot flight).1).due i
        (some (.connect e (Cell.new request slot flight).2))
      driver := old.driver.submit ⟨⟨i, e⟩, flight, .socket slot⟩
      accepted := (⟨i, e⟩, request.authority) :: old.accepted
      acked := Function.update old.acked ⟨i, e⟩ 0 } := by
  have before := h.at i
  have unaccepted : ∀ a, (⟨i, e⟩, a) ∉ old.accepted := by
    intro a mem
    have := before.accepted _ a mem
    rw [here] at this
    grind
  have uncreated : ∀ fd, (⟨i, e⟩, fd) ∉ old.driver.created := by
    intro fd mem
    have := before.created _ fd mem
    rw [here] at this
    grind
  have unhanded : ∀ a, (⟨i, e⟩, a) ∉ old.handed :=
    fun a mem => unaccepted a (before.handed _ a mem)
  have unsent : ∀ op : Op P, op.key.index = i → op ∉ old.driver.outstanding := by
    intro op index mem
    have := (before.ops op index).mp mem
    rw [here] at this
    grind
  have unstalled : ⟨i, e⟩ ∉ old.stalled := by
    intro mem
    have := before.stalled _ mem
    rw [here] at this
    grind
  refine h.change i ?_ ?_ ?_
  · constructor <;> simp [Pool.put, Pool.due, Driver.submit] <;> grind
  · constructor <;> simp [Pool.put, Pool.due, Driver.submit, Cell.new]
    · exact inside
    · simp [Cell.Good]
    · intro op index
      have := unsent op index
      cases op with
      | mk key flight' action =>
        cases key with
        | mk j g =>
          simp [Cell.op?, this]
          grind
    · simp [Due.epoch]
    · intro g
      have := before.retries g
      rw [here] at this
      simp [Phase.waits]
      grind
    · intro g mem
      have := before.stalled g mem
      rw [here] at this
      grind
    · intro g a mem
      have := before.accepted g a
      rw [here] at this
      grind
    · intro g a mem
      exact .inr (before.handed g a mem)
    · intro g a mem
      have := before.owed g a
      rw [here] at this
      grind
    · intro cell a same held
      subst same
      cases held
      exact .inl rfl
    · intro g fd mem
      have := before.created g fd mem
      rw [here] at this
      grind
    · intro g fd mem
      have := (before.closed g fd mem).1
      refine ⟨this, ?_⟩
      intro same
      subst same
      exact uncreated fd this
    · intro g fd mem
      have := before.unclosed g fd mem
      rw [here] at this
      grind
    · intro cell fd same held
      subst same
      cases held
  · constructor
    · exact List.nodup_cons.mpr ⟨fun mem => unsent _ rfl mem, h.once.outstanding⟩
    · exact h.once.retries
    · exact nodup_fst_cons _ h.once.accepted unaccepted
    · exact h.once.handed
    · exact h.once.created
    · exact h.once.closed

end World

end Dope.OneShot
