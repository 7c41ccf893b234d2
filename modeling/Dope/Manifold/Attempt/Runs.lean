import Dope.Manifold.Attempt.Table
import Mathlib.Data.List.Nodup

/-! # Runs of an attempt queue

The phase of an attempt says which lane it is on, who holds its key, and which
variant is stored. Every lease that is used up while a connection is open is owed
one cancellation, until that is polled or the connection goes away by itself.
-/

namespace Dope.Manifold.Attempt

variable {P L : Type}

/-! ## Invariant -/

/-- The generation is over. -/
def Slot.Spent (slot : Slot P L) (generation : Nat) : Prop :=
  generation < slot.generation ∨ generation = slot.generation ∧ slot.state = .retired

theorem Slot.Spent.le {slot : Slot P L} {generation : Nat} (spent : slot.Spent generation) :
    generation ≤ slot.generation := by
  rcases spent with less | ⟨same, -⟩
  · omega
  · omega

/-- What is read without a look at the phase is there, and is what was bound. -/
def Entry.Stored (entry : Entry P L) (bound : Option L) : Prop :=
  match entry.phase with
  | .queued => ∃ plan, entry.body = .plan plan
  | .submitted | .connected | .active | .cancelled =>
      ∃ link, entry.body = .bound link ∧ bound = some link
  | .opening | .done => True

def Table.key (table : Table P L) (index : Nat) : Key := ⟨index, (table.slots index).generation⟩

/-- The attempts whose cancellation is to be polled, in order. -/
def Table.owed (table : Table P L) : List Key := table.lane1.map table.key

namespace World

/-- What is true of one index. -/
structure At (world : World P L) (index : Nat) : Prop where
  inside : (world.table.slots index).state ≠ .free → index < world.table.capacity
  lane0 : index ∈ world.table.lane0 ↔ (world.table.slots index).phase? = some .queued
  lane1 : index ∈ world.table.lane1 ↔ (world.table.slots index).phase? = some .cancelled
  reserved : ∀ generation, ⟨index, generation⟩ ∈ world.reserves ↔
    generation = (world.table.slots index).generation ∧
      (world.table.slots index).state = .reserved
  leased : ∀ generation, ⟨index, generation⟩ ∈ world.leases ↔
    generation = (world.table.slots index).generation ∧
      ∃ phase, (world.table.slots index).phase? = some phase ∧ phase.Pending
  stored : ∀ entry, (world.table.slots index).state = .occupied entry →
    entry.Stored (world.bindings (world.table.key index))
  polled : ∀ generation, ⟨index, generation⟩ ∈ world.polled →
    (world.table.slots index).Spent generation ∨
      generation = (world.table.slots index).generation ∧
        ((world.table.slots index).phase? = some .opening ∨
          (world.table.slots index).phase? = some .done)
  dropped : ∀ generation, ⟨index, generation⟩ ∈ world.dropped →
    (world.table.slots index).Spent generation ∨
      generation = (world.table.slots index).generation ∧
        (world.table.slots index).phase? = some .cancelled
  cancelled : ∀ generation link, (⟨index, generation⟩, link) ∈ world.cancelled →
    (world.table.slots index).Spent generation ∧
      world.bindings ⟨index, generation⟩ = some link

/-- What is true of the lists. A deferred attempt is the front of its lane, and the
leases that were used up while a connection was open are accounted for. -/
structure Orders (world : World P L) : Prop where
  lane0 : world.table.lane0.Nodup
  lane1 : world.table.lane1.Nodup
  reserves : world.reserves.Nodup
  leases : world.leases.Nodup
  polled : world.polled.Nodup
  dropped : world.dropped.Nodup
  deferred : ∀ key, world.table.deferred = some key →
    world.table.lane0.head? = some key.index ∧ world.table.key key.index = key
  balance : world.dropped.Perm (world.cancelled.map Prod.fst ++ world.removed ++ world.table.owed)

structure Inv (world : World P L) : Prop where
  «at» : ∀ index, world.At index
  orders : world.Orders

/-- Two worlds differ at one index only. -/
structure Apart (index : Nat) (old new : World P L) : Prop where
  capacity : new.table.capacity = old.table.capacity
  slots : ∀ i, i ≠ index → new.table.slots i = old.table.slots i
  lane0 : ∀ i, i ≠ index → (i ∈ new.table.lane0 ↔ i ∈ old.table.lane0)
  lane1 : ∀ i, i ≠ index → (i ∈ new.table.lane1 ↔ i ∈ old.table.lane1)
  reserves : ∀ key : Key, key.index ≠ index → (key ∈ new.reserves ↔ key ∈ old.reserves)
  leases : ∀ key : Key, key.index ≠ index → (key ∈ new.leases ↔ key ∈ old.leases)
  polled : ∀ key : Key, key.index ≠ index → (key ∈ new.polled ↔ key ∈ old.polled)
  dropped : ∀ key : Key, key.index ≠ index → (key ∈ new.dropped ↔ key ∈ old.dropped)
  cancelled : ∀ key : Key, key.index ≠ index → ∀ link,
    ((key, link) ∈ new.cancelled ↔ (key, link) ∈ old.cancelled)
  bindings : ∀ key : Key, key.index ≠ index → new.bindings key = old.bindings key

theorem Inv.change {old new : World P L} (h : old.Inv) (index : Nat) (apart : Apart index old new)
    (here : new.At index) (orders : new.Orders) : new.Inv := by
  refine ⟨?_, orders⟩
  intro i
  by_cases same : i = index
  · rw [same]
    exact here
  · have before := h.at i
    have key : new.table.key i = old.table.key i := by
      unfold Table.key
      rw [apart.slots i same]
    constructor
    · rw [apart.slots i same, apart.capacity]
      exact before.inside
    · rw [apart.slots i same, apart.lane0 i same]
      exact before.lane0
    · rw [apart.slots i same, apart.lane1 i same]
      exact before.lane1
    · intro generation
      rw [apart.slots i same, apart.reserves ⟨i, generation⟩ same]
      exact before.reserved generation
    · intro generation
      rw [apart.slots i same, apart.leases ⟨i, generation⟩ same]
      exact before.leased generation
    · rw [apart.slots i same, key, apart.bindings (old.table.key i) same]
      exact before.stored
    · intro generation
      rw [apart.slots i same, apart.polled ⟨i, generation⟩ same]
      exact before.polled generation
    · intro generation
      rw [apart.slots i same, apart.dropped ⟨i, generation⟩ same]
      exact before.dropped generation
    · intro generation link
      rw [apart.slots i same, apart.cancelled ⟨i, generation⟩ same,
        apart.bindings ⟨i, generation⟩ same]
      exact before.cancelled generation link

end World

/-! ## Lookups -/

variable {entry : Entry P L} {table : Table P L}

namespace Table

theorem trySlot_ok {key : Key} (found : table.trySlot key = .ok entry) :
    key.index < table.capacity ∧ table.slots key.index = ⟨key.generation, .occupied entry⟩ := by
  unfold trySlot at found
  by_cases outside : table.capacity ≤ key.index
  · rw [if_pos outside] at found
    cases found
  · rw [if_neg outside] at found
    refine ⟨Nat.lt_of_not_le outside, ?_⟩
    cases slot : table.slots key.index with
    | mk generation state =>
      rw [slot] at found
      cases state with
      | free | reserved | retired => cases found
      | occupied other =>
        dsimp only at found
        split at found
        · cases found
          subst generation
          rfl
        · cases found

theorem trySlot_of {key : Key} (inside : key.index < table.capacity)
    (slot : table.slots key.index = ⟨key.generation, .occupied entry⟩) :
    table.trySlot key = .ok entry := by
  unfold trySlot
  rw [if_neg (Nat.not_le.mpr inside), slot]
  exact if_pos rfl

theorem setState_key (table : Table P L) (index : Nat) (state : State P L) :
    (table.setState index state).key = table.key := by
  funext i
  by_cases same : i = index
  · simp [key, setState, same]
  · simp [key, setState, same]

/-- A slot that was vacated is free or retired, and holds nothing. -/
theorem vacate_slot (table : Table P L) (index : Nat) :
    (((table.vacate index).slots index).state = .free ∨
      ((table.vacate index).slots index).state = .retired) ∧
    ∀ generation, ((table.vacate index).slots index).Spent generation ↔
      generation ≤ (table.slots index).generation := by
  simp only [vacate, Function.update_self]
  split
  · refine ⟨.inr rfl, ?_⟩
    intro generation
    simp only [Slot.Spent, and_true]
    omega
  · refine ⟨.inl rfl, ?_⟩
    intro generation
    simp only [Slot.Spent, reduceCtorEq, and_false, or_false]
    omega

theorem key_injective (table : Table P L) : Function.Injective table.key :=
  fun _ _ same => congrArg Key.index same

/-- What is owed after a removal is what is owed to the others. -/
theorem remove_owed (nodup : table.lane1.Nodup) (index : Nat) :
    (table.remove index).owed = table.owed.erase (table.key index) := by
  have same : (table.lane1.erase index).map (table.remove index).key =
      (table.lane1.erase index).map table.key := by
    apply List.map_congr_left
    intro i mem
    have apart := (nodup.mem_erase_iff.mp mem).1
    simp [key, remove, vacate, detach, apart]
  show (table.lane1.erase index).map (table.remove index).key = _
  rw [same, owed, List.map_erase table.key_injective]

/-- The deferred key, unless it is this one. -/
def cleared (table : Table P L) (key : Key) : Option Key :=
  if table.deferred = some key then none else table.deferred

theorem clear_eq (table : Table P L) (key : Key) :
    table.clear key = { table with deferred := table.cleared key } := by
  unfold clear cleared
  split
  · rfl
  · rfl

theorem cleared_cases (table : Table P L) (key : Key) :
    table.cleared key = none ∨
      table.cleared key = table.deferred ∧ table.deferred ≠ some key := by
  unfold cleared
  split
  · exact .inl rfl
  · next other => exact .inr ⟨rfl, other⟩

end Table

variable {world : World P L} {i g : Nat}

namespace World

theorem Inv.restate (h : world.Inv) (slot : world.table.slots i = ⟨g, .occupied entry⟩)
    (entry' : Entry P L) (leases polled : List Key) (bindings : Key → Option L)
    (off : entry.phase ≠ .queued ∧ entry.phase ≠ .cancelled)
    (off' : entry'.phase ≠ .queued ∧ entry'.phase ≠ .cancelled)
    (leased : ∀ k, k ≠ ⟨i, g⟩ → (k ∈ leases ↔ k ∈ world.leases))
    (pending : ⟨i, g⟩ ∈ leases ↔ entry'.phase.Pending) (once : leases.Nodup)
    (out : ∀ k, k ∈ polled → k ∈ world.polled) (out' : polled.Nodup)
    (others : ∀ k, k.index ≠ i → k ∈ world.polled → k ∈ polled)
    (again : ⟨i, g⟩ ∈ polled → entry'.phase = .opening ∨ entry'.phase = .done)
    (bound : ∀ k, k ≠ ⟨i, g⟩ → bindings k = world.bindings k)
    (stored : entry'.Stored (bindings ⟨i, g⟩)) :
    Inv { world with
      table := world.table.setState i (.occupied entry')
      leases, polled, bindings } := by
  have before := h.at i
  have orders := h.orders
  refine h.change i ?_ ?_ ?_
  · constructor <;> simp [Table.setState] <;> grind
  · constructor
    · have := before.inside
      simp [Table.setState, slot] at this ⊢
      exact this
    · have := before.lane0
      simp [Table.setState, slot, Slot.phase?] at this ⊢
      grind
    · have := before.lane1
      simp [Table.setState, slot, Slot.phase?] at this ⊢
      grind
    · have := before.reserved
      simp [Table.setState, slot] at this ⊢
      grind
    · have := before.leased
      simp [Table.setState, slot, Slot.phase?] at this ⊢
      grind
    · simp [Table.setState, slot, Table.key]
      exact stored
    · have := before.polled
      simp [Table.setState, slot, Slot.phase?, Slot.Spent] at this ⊢
      grind
    · have := before.dropped
      simp [Table.setState, slot, Slot.phase?, Slot.Spent] at this ⊢
      grind
    · have := before.cancelled
      simp [Table.setState, slot, Slot.Spent] at this ⊢
      grind
  · constructor
    · exact orders.lane0
    · exact orders.lane1
    · exact orders.reserves
    · exact once
    · exact out'
    · exact orders.dropped
    · show ∀ k, world.table.deferred = some k → _ ∧ (world.table.setState i _).key _ = _
      rw [Table.setState_key]
      exact orders.deferred
    · show world.dropped.Perm (_ ++ List.map (world.table.setState i _).key _)
      rw [Table.setState_key]
      exact orders.balance

theorem Orders.front (orders : world.Orders) (gen : (world.table.slots i).generation = g) {k : Key}
    (deferred : world.table.deferred = some k) (apart : k ≠ ⟨i, g⟩) :
    k.index ≠ i ∧ (world.table.lane0.erase i).head? = some k.index := by
  rcases orders.deferred k deferred with ⟨front, named⟩
  have other : k.index ≠ i := by
    intro same
    apply apart
    rw [← named, Table.key, same, gen]
  refine ⟨other, ?_⟩
  cases lane : world.table.lane0 with
  | nil => rw [lane] at front; cases front
  | cons x rest =>
    rw [lane] at front
    cases front
    rw [List.erase_cons_tail (by simpa using other)]
    rfl

theorem Inv.vacate (h : world.Inv) (gen : (world.table.slots i).generation = g)
    (held : (world.table.slots i).state = .reserved ∨ ∃ entry, (world.table.slots i).state =
      .occupied entry) (reserves leases removed : List Key) (cancelled : List (Key × L))
    (deferred : Option Key) (reserved : ∀ k, k ∈ reserves ↔ k ∈ world.reserves ∧ k ≠ ⟨i, g⟩)
    (once : reserves.Nodup) (leased : ∀ k, k ∈ leases ↔ k ∈ world.leases ∧ k ≠ ⟨i, g⟩)
    (once' : leases.Nodup)
    (cleared : deferred = none ∨ deferred = world.table.deferred ∧ world.table.deferred ≠ some ⟨i,
      g⟩)
    (logged : ∀ k l, (k, l) ∈ cancelled ↔ (k, l) ∈ world.cancelled ∨ k = ⟨i, g⟩ ∧ (k, l) ∈
      cancelled ∧ world.bindings k = some l)
    (balance : world.dropped.Perm (cancelled.map Prod.fst ++ removed ++ world.table.owed.erase ⟨i,
      g⟩)) :
    Inv { world with
      table := { world.table.remove i with deferred }
      reserves, leases, cancelled, removed } := by
  have before := h.at i
  have orders := h.orders
  have slots : ∀ j, j ≠ i → (world.table.remove i).slots j = world.table.slots j := by
    intro j apart
    simp [Table.remove, Table.vacate, Table.detach, apart]
  rcases (world.table.detach i).vacate_slot i with ⟨state, spent⟩
  have phase : ((world.table.remove i).slots i).phase? = none := by
    unfold Slot.phase?
    rcases state with free | retired
    · rw [show ((world.table.remove i).slots i).state = _ from free]
    · rw [show ((world.table.remove i).slots i).state = _ from retired]
  have lane0 : (world.table.remove i).lane0 = world.table.lane0.erase i := rfl
  have lane1 : (world.table.remove i).lane1 = world.table.lane1.erase i := rfl
  have capacity : (world.table.remove i).capacity = world.table.capacity := rfl
  have ended : ∀ generation, generation ≤ (world.table.slots i).generation →
      ((world.table.remove i).slots i).Spent generation := fun generation => (spent generation).mpr
  change ((world.table.remove i).slots i).state = .free ∨
    ((world.table.remove i).slots i).state = .retired at state
  clear spent
  have owed : (world.table.remove i).owed = world.table.owed.erase ⟨i, g⟩ := by
    rw [Table.remove_owed orders.lane1, Table.key, gen]
  generalize world.table.remove i = table at *
  have key : ∀ j, j ≠ i → table.key j = world.table.key j := by
    intro j apart
    simp [Table.key, slots j apart]
  refine h.change i ?_ ?_ ?_
  · constructor <;> simp [lane0, lane1] <;> grind
  · constructor
    · have := before.inside
      simp at this ⊢
      grind
    · simp [lane0, phase, orders.lane0.mem_erase_iff]
    · simp [lane1, phase, orders.lane1.mem_erase_iff]
    · have := before.reserved
      simp at this ⊢
      grind
    · have := before.leased
      simp [phase] at this ⊢
      grind [Slot.phase?]
    · simp
      grind
    · intro generation out
      refine .inl (ended generation ?_)
      rcases before.polled generation out with spent | ⟨same, -⟩
      · exact spent.le
      · omega
    · intro generation out
      refine .inl (ended generation ?_)
      rcases before.dropped generation out with spent | ⟨same, -⟩
      · exact spent.le
      · omega
    · intro generation link out
      rcases (logged ⟨i, generation⟩ link).mp out with old | ⟨same, -, bound⟩
      · rcases before.cancelled generation link old with ⟨spent, bound⟩
        exact ⟨ended generation spent.le, bound⟩
      · cases same
        exact ⟨ended g (Nat.le_of_eq gen.symm), bound⟩
  · constructor
    · show table.lane0.Nodup
      rw [lane0]
      exact orders.lane0.erase i
    · show table.lane1.Nodup
      rw [lane1]
      exact orders.lane1.erase i
    · exact once
    · exact once'
    · exact orders.polled
    · exact orders.dropped
    · have := orders.deferred
      show ∀ k, deferred = some k → table.lane0.head? = _ ∧ table.key _ = _
      rw [lane0]
      intro k here
      rcases cleared with none | ⟨same, apart⟩
      · rw [none] at here
        cases here
      · rw [same] at here
        rw [here] at apart
        rcases orders.front gen here (fun no => apart (congrArg some no)) with ⟨other, front⟩
        rw [key k.index other]
        exact ⟨front, (orders.deferred k here).2⟩
    · show world.dropped.Perm (_ ++ table.owed)
      rw [owed]
      exact balance

theorem Inv.unlink (h : world.Inv) (slot : world.table.slots i = ⟨g, .occupied entry⟩)
    (pending : entry.phase.Pending) (entry' : Entry P L) (polled : List Key)
    (deferred : Option Key) (next : entry'.phase = .opening ∨ entry'.phase = .done)
    (cleared : deferred = none ∨ deferred = world.table.deferred ∧ world.table.deferred ≠ some ⟨i,
      g⟩) (out : polled = world.polled ∨ polled = ⟨i, g⟩ :: world.polled ∧ entry.phase = .queued) :
    Inv { world with
      table := { (world.table.setState i (.occupied entry')).detach i with deferred }
      polled } := by
  have before := h.at i
  have orders := h.orders
  have quiet : i ∉ world.table.lane1 := by
    rw [before.lane1]
    simp [slot, Slot.phase?]
    intro same
    rw [same] at pending
    exact pending
  have fresh : ⟨i, g⟩ ∈ world.polled → entry.phase = .opening ∨ entry.phase = .done := by
    intro mem
    have := before.polled g mem
    simpa [slot, Slot.Spent, Slot.phase?] using this
  have after : entry'.phase.Pending := by
    rcases next with same | same
    · rw [same]
      trivial
    · rw [same]
      trivial
  refine h.change i ?_ ?_ ?_
  · constructor <;> simp [Table.setState, Table.detach] <;> grind
  · constructor
    · have := before.inside
      simp [Table.setState, Table.detach, slot] at this ⊢
      exact this
    · simp [Table.setState, Table.detach, slot, Slot.phase?, orders.lane0.mem_erase_iff]
      grind
    · simp [Table.setState, Table.detach, slot, Slot.phase?, orders.lane1.mem_erase_iff]
      grind
    · have := before.reserved
      simp [Table.setState, Table.detach, slot] at this ⊢
      exact this
    · have := before.leased
      simp [Table.setState, Table.detach, slot, Slot.phase?, pending, after] at this ⊢
      exact this
    · simp [Table.setState, Table.detach, slot, Entry.Stored]
      rcases next with same | same
      · simp [same]
      · simp [same]
    · have := before.polled
      simp [Table.setState, Table.detach, slot, Slot.phase?, Slot.Spent] at this ⊢
      grind
    · have := before.dropped
      simp [Table.setState, Table.detach, slot, Slot.phase?, Slot.Spent] at this ⊢
      grind [Phase.Pending]
    · have := before.cancelled
      simp [Table.setState, Table.detach, slot, Slot.Spent] at this ⊢
      exact this
  · constructor
    · exact orders.lane0.erase i
    · exact orders.lane1.erase i
    · exact orders.reserves
    · exact orders.leases
    · rcases out with same | ⟨same, queued⟩
      · show polled.Nodup
        rw [same]
        exact orders.polled
      · show polled.Nodup
        rw [same]
        refine List.nodup_cons.mpr ⟨?_, orders.polled⟩
        intro mem
        rcases fresh mem with other | other
        · rw [queued] at other
          cases other
        · rw [queued] at other
          cases other
    · exact orders.dropped
    · intro k (here : deferred = some k)
      show (world.table.lane0.erase i).head? = _ ∧ (world.table.setState i _).key _ = _
      rw [Table.setState_key]
      rcases cleared with none | ⟨same, apart⟩
      · rw [none] at here
        cases here
      · rw [same] at here
        rw [here] at apart
        exact ⟨(orders.front (by rw [slot]) here (fun no => apart (congrArg some no))).2,
          (orders.deferred k here).2⟩
    · show world.dropped.Perm (_ ++ (world.table.lane1.erase i).map
        (world.table.setState i (.occupied entry')).key)
      rw [Table.setState_key, List.erase_of_not_mem quiet]
      exact orders.balance

/-- An attempt with a new or a returned plan comes on lane 0. -/
theorem Inv.enqueue (h : world.Inv) (plan : P) (gen : (world.table.slots i).generation = g)
    (source : (world.table.slots i).state = .reserved ∨ (world.table.slots i).phase? = some
      .opening ∨ (world.table.slots i).phase? = some .done) (reserves leases polled : List Key)
    (deferred : Option Key) (lane0 : List Nat)
    (reserved : ∀ k, k ∈ reserves ↔ k ∈ world.reserves ∧ k ≠ ⟨i, g⟩) (once : reserves.Nodup)
    (leased : ∀ k, k ∈ leases ↔ k ∈ world.leases ∨ k = ⟨i, g⟩) (once' : leases.Nodup)
    (out : ∀ k, k ∈ polled ↔ k ∈ world.polled ∧ k ≠ ⟨i, g⟩) (once'' : polled.Nodup)
    (place : deferred = world.table.deferred ∧ lane0 = world.table.lane0 ++ [i] ∨ deferred = some
      ⟨i, g⟩ ∧ lane0 = i :: world.table.lane0) :
    Inv { world with
      table := { world.table.setState i (.occupied (.queued plan)) with deferred, lane0 }
      reserves, leases, polled } := by
  have before := h.at i
  have orders := h.orders
  have off : i ∉ world.table.lane0 ∧ i ∉ world.table.lane1 := by
    rw [before.lane0, before.lane1]
    rcases source with reserved | opening | done
    · simp [Slot.phase?, reserved]
    · simp [opening]
    · simp [done]
  refine h.change i ?_ ?_ ?_
  · constructor <;> simp [Table.setState] <;> grind
  · constructor
    · have := before.inside
      simp [Table.setState] at this ⊢
      grind [Slot.phase?]
    · simp [Table.setState, Slot.phase?, Entry.queued]
      grind
    · simp [Table.setState, Slot.phase?, Entry.queued]
      exact off.2
    · have := before.reserved
      simp [Table.setState] at this ⊢
      grind
    · have := before.leased
      simp [Table.setState, Slot.phase?, Entry.queued, Phase.Pending] at this ⊢
      grind
    · simp [Table.setState, Entry.Stored, Entry.queued]
    · have := before.polled
      simp [Table.setState, Slot.phase?, Slot.Spent, Entry.queued] at this ⊢
      grind
    · have := before.dropped
      simp [Table.setState, Slot.Spent] at this ⊢
      grind [Slot.phase?]
    · have := before.cancelled
      simp [Table.setState, Slot.Spent] at this ⊢
      grind [Slot.phase?]
  · constructor
    · show lane0.Nodup
      have := orders.lane0
      grind
    · exact orders.lane1
    · exact once
    · exact once'
    · exact once''
    · exact orders.dropped
    · intro k (here : deferred = some k)
      show lane0.head? = _ ∧ (world.table.setState i _).key _ = _
      rw [Table.setState_key]
      rcases place with ⟨same, lane⟩ | ⟨same, lane⟩
      · rw [same] at here
        rcases orders.deferred k here with ⟨front, named⟩
        refine ⟨?_, named⟩
        rw [lane]
        cases old : world.table.lane0 with
        | nil => rw [old] at front; cases front
        | cons x rest => rw [old] at front; exact front
      · rw [same] at here
        cases here
        rw [lane]
        exact ⟨rfl, by rw [Table.key, gen]⟩
    · show world.dropped.Perm (_ ++ world.table.lane1.map (world.table.setState i _).key)
      rw [Table.setState_key]
      exact orders.balance

/-- A lease is used up while a connection is open. Its cancellation is owed. -/
theorem Inv.queue (h : world.Inv) (slot : world.table.slots i = ⟨g, .occupied entry⟩)
    (opened : entry.phase = .submitted ∨ entry.phase = .connected) {leases : List Key}
    (leased : ∀ k, k ∈ leases ↔ k ∈ world.leases ∧ k ≠ ⟨i, g⟩) (once : leases.Nodup) :
    Inv { world with
      table := { world.table.setState i (.occupied { entry with phase := .cancelled }) with
        lane1 := world.table.lane1 ++ [i] }
      leases, dropped := ⟨i, g⟩ :: world.dropped } := by
  have before := h.at i
  have orders := h.orders
  have off : i ∉ world.table.lane0 ∧ i ∉ world.table.lane1 := by
    rw [before.lane0, before.lane1]
    rcases opened with same | same
    · simp [Slot.phase?, slot, same]
    · simp [Slot.phase?, slot, same]
  have fresh : ⟨i, g⟩ ∉ world.dropped := by
    intro mem
    have := before.dropped g mem
    simp [slot, Slot.Spent, Slot.phase?] at this
    grind
  refine h.change i ?_ ?_ ?_
  · constructor <;> simp [Table.setState] <;> grind
  · constructor
    · have := before.inside
      simp [Table.setState, slot] at this ⊢
      exact this
    · simp [Table.setState, Slot.phase?]
      exact off.1
    · simp [Table.setState, Slot.phase?]
    · have := before.reserved
      simp [Table.setState, slot] at this ⊢
      exact this
    · have := before.leased
      simp [Table.setState, Slot.phase?, slot, Phase.Pending] at this ⊢
      grind
    · have := before.stored
      simp [Table.setState, Entry.Stored, slot, Table.key] at this ⊢
      rcases opened with same | same
      · simpa [same] using this
      · simpa [same] using this
    · have := before.polled
      simp [Table.setState, Slot.phase?, Slot.Spent, slot] at this ⊢
      grind
    · have := before.dropped
      simp [Table.setState, Slot.phase?, Slot.Spent, slot] at this ⊢
      grind
    · have := before.cancelled
      simp [Table.setState, Slot.Spent, slot] at this ⊢
      grind
  · constructor
    · exact orders.lane0
    · show (world.table.lane1 ++ [i]).Nodup
      have := orders.lane1
      grind
    · exact orders.reserves
    · exact once
    · exact orders.polled
    · exact List.nodup_cons.mpr ⟨fresh, orders.dropped⟩
    · intro k here
      show world.table.lane0.head? = _ ∧ (world.table.setState i _).key _ = _
      rw [Table.setState_key]
      exact orders.deferred k here
    · show (⟨i, g⟩ :: world.dropped).Perm (_ ++ (world.table.lane1 ++ [i]).map
        (world.table.setState i _).key)
      have same : world.table.key i = ⟨i, g⟩ := by
        simp [Table.key, slot]
      rw [Table.setState_key, List.map_append, List.map_singleton, same, ← List.append_assoc]
      exact (orders.balance.cons _).trans (List.perm_append_singleton _ _).symm

theorem Inv.reserve (h : world.Inv) (inside : i < world.table.capacity)
    (free : (world.table.slots i).state = .free) :
    Inv { world with
      table := world.table.setState i .reserved
      reserves := world.table.key i :: world.reserves } := by
  have before := h.at i
  have orders := h.orders
  have fresh : world.table.key i ∉ world.reserves := by
    intro mem
    have := (before.reserved _).mp mem
    rw [free] at this
    exact nomatch this.2
  refine h.change i ?_ ?_ ?_
  · constructor <;> simp [Table.setState] <;> grind [Table.key]
  · constructor
    · intro _
      exact inside
    · have := before.lane0
      simp [Table.setState, Slot.phase?, free] at this ⊢
      exact this
    · have := before.lane1
      simp [Table.setState, Slot.phase?, free] at this ⊢
      exact this
    · have := before.reserved
      simp [Table.setState, free, Table.key] at this ⊢
      grind
    · have := before.leased
      simp [Table.setState, Slot.phase?, free] at this ⊢
      exact this
    · simp [Table.setState]
    · have := before.polled
      simp [Table.setState, Slot.phase?, Slot.Spent, free] at this ⊢
      grind
    · have := before.dropped
      simp [Table.setState, Slot.phase?, Slot.Spent, free] at this ⊢
      grind
    · have := before.cancelled
      simp [Table.setState, Slot.Spent, free] at this ⊢
      grind
  · constructor
    · exact orders.lane0
    · exact orders.lane1
    · exact List.nodup_cons.mpr ⟨fresh, orders.reserves⟩
    · exact orders.leases
    · exact orders.polled
    · exact orders.dropped
    · intro k here
      show world.table.lane0.head? = _ ∧ (world.table.setState i _).key _ = _
      rw [Table.setState_key]
      exact orders.deferred k here
    · show world.dropped.Perm (_ ++ world.table.lane1.map (world.table.setState i _).key)
      rw [Table.setState_key]
      exact orders.balance

/-! ## Steps -/

/-- What is owed after an input. -/
def owedAfter (world : World P L) : Input P L → List Key
  | .pollCancel => world.table.owed.tail
  | .failed key | .disconnect key => world.table.owed.erase key
  | .commit key =>
      if (world.table.slots key.index).phase? = some .submitted then world.table.owed ++ [key]
      else world.table.owed
  | .drop key =>
      if (world.table.slots key.index).phase? = some .submitted ∨
          (world.table.slots key.index).phase? = some .connected then world.table.owed ++ [key]
      else world.table.owed
  | .reserve _ | .dropReserve _ | .start _ _ | .poll | .bind _ _ | .defer _ _ | .reject _
  | .connected _ | .close _ => world.table.owed

/-- What an input does. A lease is only lost by its owner, and a cancellation that is
owed is answered in turn, with what the attempt was bound to. -/
structure Proper (world : World P L) (input : Input P L) (output : Output P L)
    (next : World P L) : Prop where
  leases : ∀ key ∈ world.leases, input ≠ .commit key → input ≠ .drop key → key ∈ next.leases
  owed : next.table.owed = world.owedAfter input
  active : ∀ key, input = .commit key →
    ((next.table.slots key.index).phase? = some .active ↔
      (world.table.slots key.index).phase? = some .connected)
  cancel : input = .pollCancel → match world.table.owed with
    | [] => output = .cancel none
    | key :: _ => ∃ link, world.bindings key = some link ∧ output = .cancel (some (key, link))
  deferred : ∀ key plan, input = .defer key plan → output = .done →
    if world.table.deferred = none then
      next.table.deferred = some key ∧ next.table.lane0 = key.index :: world.table.lane0
    else
      next.table.deferred = world.table.deferred ∧
        next.table.lane0 = world.table.lane0 ++ [key.index]

/-- An input does not fault, keeps the invariant, and does what it is for. -/
def Follows (world : World P L) (input : Input P L) : Prop :=
  ∃ output next, world.step input = .ok (output, next) ∧ next.Inv ∧
    Proper world input output next

theorem Inv.mem_owed (h : world.Inv) {key : Key} :
    key ∈ world.table.owed ↔ key.generation = (world.table.slots key.index).generation ∧
      (world.table.slots key.index).phase? = some .cancelled := by
  cases key with
  | mk i g =>
    simp only [Table.owed, List.mem_map, Table.key, Key.mk.injEq]
    constructor
    · rintro ⟨j, mem, same, gen⟩
      subst same
      exact ⟨gen.symm, (h.at j).lane1.mp mem⟩
    · rintro ⟨gen, phase⟩
      exact ⟨i, (h.at i).lane1.mpr phase, rfl, gen.symm⟩

theorem Inv.unowed (h : world.Inv) {key : Key} {lookup : Lookup}
    (missing : world.table.trySlot key = .error lookup) :
    world.table.owed.erase key = world.table.owed := by
  apply List.erase_of_not_mem
  intro mem
  rcases h.mem_owed.mp mem with ⟨gen, phase⟩
  cases slot : world.table.slots key.index with
  | mk generation state =>
    rw [slot] at gen phase
    cases state with
    | free | reserved | retired => cases phase
    | occupied entry =>
      have inside := (h.at key.index).inside
      rw [slot] at inside
      change key.generation = generation at gen
      subst gen
      rw [Table.trySlot_of (inside (by simp)) slot] at missing
      cases missing

theorem Proper.plain {next : World P L} {input : Input P L} {output : Output P L}
    (leases : ∀ key ∈ world.leases, key ∈ next.leases)
    (owed : next.table.owed = world.owedAfter input) (commit : ∀ key, input ≠ .commit key)
    (cancel : input ≠ .pollCancel) (defer : ∀ key plan, input ≠ .defer key plan) :
    Proper world input output next where
  leases key mem _ _ := leases key mem
  owed := owed
  active key same := absurd same (commit key)
  cancel same := absurd same cancel
  deferred key plan same := absurd same (defer key plan)

theorem mem_filter_ne {keys : List Key} (key : Key) (k : Key) :
    k ∈ keys.filter (· ≠ key) ↔ k ∈ keys ∧ k ≠ key := by
  rw [List.mem_filter, decide_eq_true_iff]

theorem absent_iff {keys : List Key} {key : Key} (absent : key ∉ keys) (k : Key) :
    k ∈ keys ↔ k ∈ keys ∧ k ≠ key :=
  ⟨fun mem => ⟨mem, fun same => absent (same ▸ mem)⟩, And.left⟩

theorem setState_owed (table : Table P L) (index : Nat) (state : State P L) :
    (table.setState index state).owed = table.owed := by
  unfold Table.owed
  rw [Table.setState_key]
  rfl

section

variable (h : world.Inv)

include h

theorem step_reserve (inside : i < world.table.capacity)
    (free : (world.table.slots i).state = .free) : world.Follows (.reserve i) :=
  ⟨_, _, rfl, h.reserve inside free,
    .plain (fun _ mem => mem) (setState_owed ..) nofun nofun nofun⟩

theorem step_dropReserve {key : Key} (held : key ∈ world.reserves) :
    world.Follows (.dropReserve key) := by
  cases key with
  | mk i g =>
    rcases ((h.at i).reserved g).mp held with ⟨gen, state⟩
    have off0 : i ∉ world.table.lane0 := by
      rw [(h.at i).lane0]
      simp [Slot.phase?, state]
    have off1 : i ∉ world.table.lane1 := by
      rw [(h.at i).lane1]
      simp [Slot.phase?, state]
    have unowed : ⟨i, g⟩ ∉ world.table.owed := by
      rw [h.mem_owed]
      simp [Slot.phase?, state]
    have unleased : ⟨i, g⟩ ∉ world.leases := by
      rw [(h.at i).leased]
      simp [Slot.phase?, state]
    have other : world.table.deferred ≠ some ⟨i, g⟩ := by
      intro same
      rcases h.orders.deferred _ same with ⟨front, -⟩
      exact off0 (List.mem_of_mem_head? front)
    have table : world.table.remove i = world.table.vacate i := by
      unfold Table.remove Table.detach
      rw [List.erase_of_not_mem off0, List.erase_of_not_mem off1]
    have after := h.vacate gen.symm (.inl state) _ world.leases world.removed world.cancelled _
      (mem_filter_ne ⟨i, g⟩) (List.Nodup.filter _ h.orders.reserves) (absent_iff unleased)
      h.orders.leases (.inr ⟨rfl, other⟩) (fun k l => by grind)
      (by rw [List.erase_of_not_mem unowed]; exact h.orders.balance)
    refine ⟨_, _, rfl, ?_, .plain (fun _ mem => mem) ?_ nofun nofun nofun⟩
    · rw [table] at after
      exact after
    · show (world.table.vacate i).owed = world.table.owed
      rw [← table, Table.remove_owed h.orders.lane1, Table.key, ← gen,
        List.erase_of_not_mem unowed]

theorem step_start {key : Key} (plan : P) (held : key ∈ world.reserves) :
    world.Follows (.start key plan) := by
  cases key with
  | mk i g =>
    have before := h.at i
    rcases (before.reserved g).mp held with ⟨gen, state⟩
    have unleased : ⟨i, g⟩ ∉ world.leases := by
      rw [before.leased]
      simp [Slot.phase?, state]
    have unpolled : ⟨i, g⟩ ∉ world.polled := by
      intro mem
      have := before.polled g mem
      simp [Slot.Spent, Slot.phase?, state] at this
      omega
    have after := h.enqueue plan gen.symm (.inl state) _ (⟨i, g⟩ :: world.leases) world.polled _ _
      (mem_filter_ne ⟨i, g⟩) (List.Nodup.filter _ h.orders.reserves)
      (fun k => by rw [List.mem_cons, or_comm])
      (List.nodup_cons.mpr ⟨unleased, h.orders.leases⟩) (absent_iff unpolled) h.orders.polled
      (.inl ⟨rfl, rfl⟩)
    exact ⟨_, _, rfl, after,
      .plain (fun _ mem => List.mem_cons_of_mem _ mem) (setState_owed ..) nofun nofun nofun⟩

/-- An attempt is on a lane in its phase, with what that phase stores. -/
theorem Inv.resident {phase : Phase} (here : (world.table.slots i).phase? = some phase) :
    ∃ entry, world.table.slots i = ⟨(world.table.slots i).generation, .occupied entry⟩ ∧
      entry.phase = phase ∧ entry.Stored (world.bindings (world.table.key i)) := by
  have stored := (h.at i).stored
  cases slot : world.table.slots i with
  | mk generation state =>
    rw [slot] at here stored
    cases state with
    | free | reserved | retired => cases here
    | occupied entry =>
      cases here
      exact ⟨entry, rfl, rfl, stored entry rfl⟩

theorem step_poll : world.Follows .poll := by
  cases head : world.table.lane0.head? with
  | none =>
    have poll : world.table.poll = .ok (none, world.table) := by
      unfold Table.poll
      rw [head]
    refine ⟨.connect none, world, ?_, h, .plain (fun _ mem => mem) rfl nofun nofun nofun⟩
    simp only [step, poll]
  | some i =>
    rcases h.resident ((h.at i).lane0.mp (List.mem_of_mem_head? head)) with
      ⟨entry, slot, queued, stored⟩
    have unlane1 : i ∉ world.table.lane1 := by
      rw [(h.at i).lane1, slot]
      simp [Slot.phase?, queued]
    simp only [Entry.Stored, queued] at stored
    rcases stored with ⟨plan, body⟩
    have after := h.unlink slot (by rw [queued]; trivial) { entry with phase := .opening }
      (world.table.key i :: world.polled) (world.table.cleared (world.table.key i)) (.inl rfl)
      (world.table.cleared_cases _) (.inr ⟨rfl, queued⟩)
    have poll : world.table.poll = .ok (some (world.table.key i, plan),
        { (world.table.setState i (.occupied { entry with phase := .opening })).detach i with
          deferred := world.table.cleared (world.table.key i) }) := by
      unfold Table.poll
      rw [head]
      dsimp only
      rw [slot]
      simp only [Entry.open, body, Table.clear_eq]
      rfl
    refine ⟨.connect (some (world.table.key i, plan)), _, ?_, after,
      .plain (fun _ mem => mem) ?_ nofun nofun nofun⟩
    · simp only [step, poll]
    · show (world.table.lane1.erase i).map (world.table.setState i _).key = _
      rw [Table.setState_key, List.erase_of_not_mem unlane1]
      rfl

theorem Inv.forget (key : Key) : Inv { world with polled := world.polled.filter (· ≠ key) } := by
  have orders := h.orders
  refine ⟨?_, orders.lane0, orders.lane1, orders.reserves, orders.leases, orders.polled.filter _,
    orders.dropped, orders.deferred, orders.balance⟩
  intro i
  have before := h.at i
  refine ⟨before.inside, before.lane0, before.lane1, before.reserved, before.leased,
    before.stored, ?_, before.dropped, before.cancelled⟩
  intro generation mem
  exact before.polled generation (List.mem_of_mem_filter mem)

theorem Inv.found (slot : world.table.slots i = ⟨g, .occupied entry⟩) (out : ⟨i, g⟩ ∈ world.polled) :
    entry.phase = .opening ∨ entry.phase = .done := by
  have := (h.at i).polled g out
  simpa [slot, Slot.Spent, Slot.phase?] using this

/-- The lease of an attempt is out exactly while its phase is pending. -/
theorem Inv.leased_iff (slot : world.table.slots i = ⟨g, .occupied entry⟩) :
    ⟨i, g⟩ ∈ world.leases ↔ entry.phase.Pending := by
  rw [(h.at i).leased, slot]
  simp [Slot.phase?]

theorem Inv.found_leased (slot : world.table.slots i = ⟨g, .occupied entry⟩)
    (out : ⟨i, g⟩ ∈ world.polled) : ⟨i, g⟩ ∈ world.leases := by
  rw [h.leased_iff slot]
  rcases h.found slot out with same | same
  · rw [same]; trivial
  · rw [same]; trivial

/-- A polled attempt is answered, and its lease stays out. -/
theorem Inv.answered (slot : world.table.slots i = ⟨g, .occupied entry⟩)
    (out : ⟨i, g⟩ ∈ world.polled) (entry' : Entry P L) (bindings : Key → Option L)
    (off : entry'.phase ≠ .queued ∧ entry'.phase ≠ .cancelled) (pending : entry'.phase.Pending)
    (bound : ∀ k, k ≠ ⟨i, g⟩ → bindings k = world.bindings k)
    (stored : entry'.Stored (bindings ⟨i, g⟩)) :
    Inv { world with
      table := world.table.setState i (.occupied entry')
      polled := world.polled.filter (· ≠ ⟨i, g⟩)
      bindings } := by
  refine h.restate slot entry' world.leases _ bindings ?_ off (fun _ _ => Iff.rfl)
    (iff_of_true (h.found_leased slot out) pending) h.orders.leases
    (fun k mem => List.mem_of_mem_filter mem) (List.Nodup.filter _ h.orders.polled) ?_
    (fun mem => absurd rfl ((mem_filter_ne _ _).mp mem).2) bound stored
  · rcases h.found slot out with same | same <;> simp [same]
  · exact fun k apart mem => (mem_filter_ne _ k).mpr
      ⟨mem, fun same => apart (congrArg Key.index same)⟩

theorem step_bind {key : Key} (link : L) (out : key ∈ world.polled) :
    world.Follows (.bind key link) := by
  cases found : world.table.trySlot key with
  | error lookup =>
    refine ⟨.lookup lookup, _, ?_, h.forget key, .plain (fun _ mem => mem) rfl nofun nofun nofun⟩
    simp only [step, Table.bind, found]
  | ok entry =>
    cases key with
    | mk i g =>
      rcases Table.trySlot_ok found with ⟨-, slot⟩
      have after := h.answered slot out (entry.bind link)
        (Function.update world.bindings ⟨i, g⟩ (some link)) ⟨nofun, nofun⟩ trivial
        (fun k apart => Function.update_of_ne apart ..) ⟨link, rfl, Function.update_self ..⟩
      refine ⟨.done, _, ?_, after,
        .plain (fun _ mem => mem) (setState_owed ..) nofun nofun nofun⟩
      simp only [step, Table.bind, found]

theorem step_reject {key : Key} (out : key ∈ world.polled) : world.Follows (.reject key) := by
  cases found : world.table.trySlot key with
  | error lookup =>
    refine ⟨.lookup lookup, _, ?_, h.forget key, .plain (fun _ mem => mem) rfl nofun nofun nofun⟩
    simp only [step, Table.reject, found]
  | ok entry =>
    cases key with
    | mk i g =>
      rcases Table.trySlot_ok found with ⟨-, slot⟩
      have after := h.answered slot out entry.reject world.bindings ⟨nofun, nofun⟩ trivial
        (fun k _ => rfl) trivial
      refine ⟨.done, _, ?_, after,
        .plain (fun _ mem => mem) (setState_owed ..) nofun nofun nofun⟩
      simp only [step, Table.reject, found]

theorem step_defer {key : Key} (plan : P) (out : key ∈ world.polled) :
    world.Follows (.defer key plan) := by
  cases found : world.table.trySlot key with
  | error lookup =>
    refine ⟨.refused lookup plan, _, ?_, h.forget key, ?_⟩
    · simp only [step, Table.defer, found]
    · exact ⟨fun _ mem _ _ => mem, rfl, nofun, nofun, nofun⟩
  | ok entry =>
    cases key with
    | mk i g =>
      rcases Table.trySlot_ok found with ⟨-, slot⟩
      have polled := h.found slot out
      have held := h.found_leased slot out
      have unreserved : ⟨i, g⟩ ∉ world.reserves := by
        rw [(h.at i).reserved, slot]
        simp
      have off0 : i ∉ world.table.lane0 := by
        rw [(h.at i).lane0, slot]
        rcases polled with same | same <;> simp [Slot.phase?, same]
      have off1 : i ∉ world.table.lane1 := by
        rw [(h.at i).lane1, slot]
        rcases polled with same | same <;> simp [Slot.phase?, same]
      have enqueue := h.enqueue plan (by rw [slot])
        (.inr (by rw [slot]; simpa [Slot.phase?] using polled)) world.reserves world.leases
        (world.polled.filter (· ≠ ⟨i, g⟩))
      have detach : (world.table.setState i (.occupied (.queued plan))).detach i =
          world.table.setState i (.occupied (.queued plan)) := by
        unfold Table.detach
        rw [show (world.table.setState i (.occupied (.queued plan))).lane0 =
          world.table.lane0 from rfl, List.erase_of_not_mem off0,
          show (world.table.setState i (.occupied (.queued plan))).lane1 =
          world.table.lane1 from rfl, List.erase_of_not_mem off1]
        rfl
      cases first : world.table.deferred with
      | none =>
        have after := enqueue (some ⟨i, g⟩) (i :: world.table.lane0) (absent_iff unreserved)
          h.orders.reserves
          (fun k => ⟨.inl, fun either => either.elim id (fun same => same ▸ held)⟩)
          h.orders.leases (mem_filter_ne ⟨i, g⟩) (List.Nodup.filter _ h.orders.polled)
          (.inr ⟨rfl, rfl⟩)
        refine ⟨.done, _, ?_, after, ?_⟩
        · simp only [step, Table.defer, found, first, Option.isNone_none, if_true, detach]
          rfl
        · refine ⟨fun _ mem _ _ => mem, setState_owed .., nofun, nofun, ?_⟩
          intro key plan' same _
          cases same
          rw [if_pos first]
          exact ⟨rfl, rfl⟩
      | some k =>
        have after := enqueue (some k) (world.table.lane0 ++ [i]) (absent_iff unreserved)
          h.orders.reserves
          (fun k => ⟨.inl, fun either => either.elim id (fun same => same ▸ held)⟩)
          h.orders.leases (mem_filter_ne ⟨i, g⟩) (List.Nodup.filter _ h.orders.polled)
          (.inl ⟨first.symm, rfl⟩)
        refine ⟨.done, _, ?_, after, ?_⟩
        · simp only [step, Table.defer, found, first, Option.isNone_some, detach]
          rw [← first]
          rfl
        · refine ⟨fun _ mem _ _ => mem, setState_owed .., nofun, nofun, ?_⟩
          intro key plan' same _
          cases same
          rw [if_neg (by rw [first]; nofun)]
          exact ⟨first.symm, rfl⟩

end

theorem setState_same {state : State P L} (slot : table.slots i = ⟨g, state⟩) :
    table.setState i state = table := by
  have here : (⟨(table.slots i).generation, state⟩ : Slot P L) = table.slots i := by rw [slot]
  show { table with slots := Function.update table.slots i ⟨(table.slots i).generation, state⟩ } = _
  rw [here, Function.update_eq_self]

/-- A driver event moves an attempt with a lease to another pending phase. -/
theorem Inv.turn (h : world.Inv) (slot : world.table.slots i = ⟨g, .occupied entry⟩)
    {phase : Phase}
    (turn : entry.phase = .opening ∧ phase = .done ∨ entry.phase = .submitted ∧ phase = .done ∨
      entry.phase = .submitted ∧ phase = .connected) :
    Inv { world with
      table := world.table.setState i (.occupied { entry with phase }) } := by
  have stored := (h.at i).stored entry (by rw [slot])
  have key : world.table.key i = ⟨i, g⟩ := by rw [Table.key, slot]
  rw [key] at stored
  have leased := h.leased_iff slot
  refine h.restate slot _ world.leases world.polled world.bindings ?_ ?_ (fun _ _ => Iff.rfl) ?_
    h.orders.leases (fun _ => id) h.orders.polled (fun _ _ => id) ?_ (fun _ _ => rfl) ?_
  · rcases turn with ⟨same, -⟩ | ⟨same, -⟩ | ⟨same, -⟩ <;> simp [same]
  · rcases turn with ⟨-, same⟩ | ⟨-, same⟩ | ⟨-, same⟩ <;> simp [same]
  · rcases turn with ⟨same, same'⟩ | ⟨same, same'⟩ | ⟨same, same'⟩ <;>
      simpa [same, same', Phase.Pending] using leased
  · intro mem
    have polled := h.found slot mem
    rcases turn with ⟨same, same'⟩ | ⟨same, same'⟩ | ⟨same, same'⟩
    · exact .inr same'
    · exact .inr same'
    · simp [same] at polled
  · rcases turn with ⟨same, same'⟩ | ⟨same, same'⟩ | ⟨same, same'⟩
    · simp [Entry.Stored, same']
    · simp [Entry.Stored, same']
    · simpa [Entry.Stored, same, same'] using stored

theorem step_connected (h : world.Inv) (key : Key) : world.Follows (.connected key) := by
  cases found : world.table.trySlot key with
  | error lookup =>
    refine ⟨.lookup lookup, world, ?_, h, .plain (fun _ mem => mem) rfl nofun nofun nofun⟩
    simp only [step, Table.connected, found]
  | ok entry =>
    rcases Table.trySlot_ok found with ⟨-, slot⟩
    by_cases submitted : entry.phase = .submitted
    · refine ⟨.transition .applied, _, ?_, h.turn slot (.inr (.inr ⟨submitted, rfl⟩)),
        .plain (fun _ mem => mem) (setState_owed ..) nofun nofun nofun⟩
      simp only [step, Table.connected, found, Entry.connected, submitted]
    · have same : entry.connected = (.stale, entry) := by
        unfold Entry.connected
        split <;> simp_all
      refine ⟨.transition .stale, world, ?_, h, .plain (fun _ mem => mem) rfl nofun nofun nofun⟩
      simp only [step, Table.connected, found, same, setState_same slot]

/-- Closing an attempt is over with one that opens, and leaves the others. -/
theorem close_cases (entry : Entry P L) :
    (entry.phase = .opening ∨ entry.phase = .submitted) ∧
        entry.close = (.applied, { entry with phase := .done }) ∨
      (entry.phase ≠ .opening ∧ entry.phase ≠ .submitted) ∧ entry.close = (.stale, entry) := by
  unfold Entry.close
  cases entry.phase <;> simp [Entry.done]

theorem Inv.closed (h : world.Inv) (slot : world.table.slots i = ⟨g, .occupied entry⟩) :
    Inv { world with table := world.table.setState i (.occupied entry.close.2) } := by
  rcases close_cases entry with ⟨opened, same⟩ | ⟨-, same⟩
  · rw [same]
    rcases opened with opening | submitted
    · exact h.turn slot (.inl ⟨opening, rfl⟩)
    · exact h.turn slot (.inr (.inl ⟨submitted, rfl⟩))
  · rw [same, setState_same slot]
    exact h

theorem step_close (h : world.Inv) (key : Key) : world.Follows (.close key) := by
  cases found : world.table.trySlot key with
  | error lookup =>
    refine ⟨.lookup lookup, world, ?_, h,
      .plain (fun _ mem => mem) rfl (by simp) (by simp) (by simp)⟩
    simp only [step, Table.close, found]
  | ok entry =>
    rcases Table.trySlot_ok found with ⟨-, slot⟩
    cases closed : entry.close.1 with
    | applied =>
      refine ⟨.completion (some key), _, ?_, h.closed slot,
        .plain (fun _ mem => mem) (setState_owed ..) (by simp) (by simp) (by simp)⟩
      simp only [step, Table.close, found, closed]
    | stale =>
      refine ⟨.completion none, _, ?_, h.closed slot,
        .plain (fun _ mem => mem) (setState_owed ..) (by simp) (by simp) (by simp)⟩
      simp only [step, Table.close, found, closed]

/-- A driver event takes what is owed to a cancelled attempt, and nothing else. -/
theorem Inv.gone (h : world.Inv) {key : Key}
    (slot : world.table.slots key.index = ⟨key.generation, .occupied entry⟩) :
    entry.phase = .cancelled ∧ key ∈ world.table.owed ∧ world.gone key = key :: world.removed ∨
      entry.phase ≠ .cancelled ∧ key ∉ world.table.owed ∧ world.gone key = world.removed := by
  rw [h.mem_owed]
  unfold World.gone
  rw [slot]
  by_cases cancelled : entry.phase = .cancelled
  · exact .inl ⟨cancelled, ⟨rfl, congrArg some cancelled⟩, if_pos (congrArg some cancelled)⟩
  · exact .inr ⟨cancelled, fun both => cancelled (Option.some.inj both.2),
      if_neg fun same => cancelled (Option.some.inj same)⟩

theorem Inv.undeferred {world : World P L} (h : world.Inv) {key : Key} {entry : Entry P L}
    (slot : world.table.slots key.index = ⟨key.generation, .occupied entry⟩)
    (other : entry.phase ≠ .queued) : world.table.deferred ≠ some key := by
  intro deferred
  have front := (h.orders.deferred key deferred).1
  have queued := (h.at key.index).lane0.mp (List.mem_of_mem_head? front)
  rw [slot] at queued
  exact other (Option.some.inj queued)

/-- An attempt that was taken from its lease is removed, by an event of the driver. -/
theorem Inv.discard (h : world.Inv) {key : Key}
    (slot : world.table.slots key.index = ⟨key.generation, .occupied entry⟩)
    (owned : entry.phase = .active ∨ entry.phase = .cancelled) :
    Inv { world with table := world.table.remove key.index, removed := world.gone key } := by
  have unleased : key ∉ world.leases := by
    rw [show key = ⟨key.index, key.generation⟩ from rfl, h.leased_iff slot]
    rcases owned with same | same <;> simp [same, Phase.Pending]
  have unreserved : key ∉ world.reserves := by
    rw [show key = ⟨key.index, key.generation⟩ from rfl, (h.at key.index).reserved, slot]
    simp
  have undeferred := h.undeferred slot (by rcases owned with same | same <;> simp [same])
  refine h.vacate (by rw [slot]) (.inr ⟨entry, by rw [slot]⟩) world.reserves world.leases _
    world.cancelled _ (absent_iff unreserved) h.orders.reserves (absent_iff unleased)
    h.orders.leases (.inr ⟨rfl, undeferred⟩) (fun k l => by grind) ?_
  rcases h.gone slot with ⟨-, owes, gone⟩ | ⟨-, owes, gone⟩
  · rw [gone]
    refine h.orders.balance.trans ?_
    rw [List.append_assoc, List.append_assoc, List.cons_append]
    refine (List.perm_append_left_iff _).mpr ?_
    exact ((List.perm_append_left_iff _).mpr (List.perm_cons_erase owes)).trans List.perm_middle
  · rw [gone, List.erase_of_not_mem owes]
    exact h.orders.balance

theorem discard_owed (h : world.Inv) {key : Key}
    (slot : world.table.slots key.index = ⟨key.generation, .occupied entry⟩) :
    (world.table.remove key.index).owed = world.table.owed.erase key := by
  rw [Table.remove_owed h.orders.lane1, Table.key, slot]

theorem step_failed (h : world.Inv) (key : Key) : world.Follows (.failed key) := by
  cases found : world.table.trySlot key with
  | error lookup =>
    refine ⟨.lookup lookup, world, ?_, h,
      .plain (fun _ mem => mem) (h.unowed found).symm nofun nofun nofun⟩
    simp only [step, Table.fail, found]
  | ok entry =>
    rcases Table.trySlot_ok found with ⟨-, slot⟩
    rcases h.gone slot with ⟨cancelled, owes, gone⟩ | ⟨other, owes, gone⟩
    · have fail : entry.fail = (.remove, entry) := by
        unfold Entry.fail
        rw [cancelled]
      refine ⟨.transition .stale, _, ?_, h.discard slot (.inr cancelled),
        .plain (fun _ mem => mem) (discard_owed h slot) nofun nofun nofun⟩
      simp only [step, Table.fail, found, fail]
    · by_cases done : entry.phase = .done
      · have fail : entry.fail = (.stale, entry) := by
          unfold Entry.fail
          rw [done]
        refine ⟨.transition .stale, world, ?_, h, .plain (fun _ mem => mem) ?_ nofun nofun nofun⟩
        · simp only [step, Table.fail, found, fail, gone]
        · exact (List.erase_of_not_mem owes).symm
      · have fail : entry.fail = (.keep, entry.close.2) := by
          unfold Entry.fail
          split <;> simp_all
        refine ⟨.transition .applied, _, ?_, h.closed slot,
          .plain (fun _ mem => mem) ?_ nofun nofun nofun⟩
        · simp only [step, Table.fail, found, fail, gone]
        · exact (setState_owed ..).trans (List.erase_of_not_mem owes).symm

theorem step_disconnect (h : world.Inv) (key : Key) : world.Follows (.disconnect key) := by
  cases found : world.table.trySlot key with
  | error lookup =>
    refine ⟨.lookup lookup, world, ?_, h,
      .plain (fun _ mem => mem) (h.unowed found).symm nofun nofun nofun⟩
    simp only [step, Table.free, found]
  | ok entry =>
    rcases Table.trySlot_ok found with ⟨-, slot⟩
    by_cases owned : entry.phase = .active ∨ entry.phase = .cancelled
    · have flag : entry.isOwned = true := by
        simpa [Entry.isOwned] using owned
      have clear : (world.table.remove key.index).clear key = world.table.remove key.index := by
        have undeferred := h.undeferred slot (by rcases owned with same | same <;> simp [same])
        exact if_neg undeferred
      refine ⟨.done, _, ?_, h.discard slot owned,
        .plain (fun _ mem => mem) (discard_owed h slot) nofun nofun nofun⟩
      simp only [step, Table.free, found, flag, if_true, clear]
    · have flag : entry.isOwned = false := by
        simpa [Entry.isOwned] using owned
      have pending : entry.phase.Pending := by
        cases phase : entry.phase <;> simp_all [Phase.Pending]
      rcases h.gone slot with ⟨cancelled, -, -⟩ | ⟨-, owes, gone⟩
      · exact absurd (.inr cancelled) owned
      · have unlane1 : key.index ∉ world.table.lane1 := by
          rw [(h.at key.index).lane1, slot]
          exact fun same => owned (.inr (Option.some.inj same))
        have after := h.unlink slot pending entry.done world.polled (world.table.cleared key)
          (.inr rfl) (world.table.cleared_cases key) (.inl rfl)
        refine ⟨.done, _, ?_, after, .plain (fun _ mem => mem) ?_ nofun nofun nofun⟩
        · simp only [step, Table.free, found, flag, gone, Table.clear_eq]
          rfl
        · show (world.table.lane1.erase key.index).map (world.table.setState key.index _).key = _
          rw [Table.setState_key, List.erase_of_not_mem unlane1]
          exact (List.erase_of_not_mem owes).symm

theorem step_pollCancel (h : world.Inv) : world.Follows .pollCancel := by
  cases lane : world.table.lane1 with
  | nil =>
    have owed : world.table.owed = [] := by rw [Table.owed, lane]; rfl
    refine ⟨.cancel none, world, ?_, h, fun _ mem _ _ => mem, ?_, nofun, ?_, nofun⟩
    · simp only [step, Table.pollCancel, lane, List.head?_nil]
      rfl
    · rw [owedAfter, owed]
      rfl
    · intro _
      rw [owed]
  | cons i rest =>
    have mem : i ∈ world.table.lane1 := by rw [lane]; exact List.mem_cons_self
    have owed : world.table.owed = world.table.key i :: rest.map world.table.key := by
      rw [Table.owed, lane]
      rfl
    rcases h.resident ((h.at i).lane1.mp mem) with ⟨entry, slot, cancelled, stored⟩
    simp only [Entry.Stored, cancelled] at stored
    rcases stored with ⟨link, body, bound⟩
    have key : world.table.key i = ⟨i, (world.table.slots i).generation⟩ := rfl
    have unleased : world.table.key i ∉ world.leases := by
      rw [key, h.leased_iff slot, cancelled]
      exact id
    have unreserved : world.table.key i ∉ world.reserves := by
      rw [key, (h.at i).reserved, slot]
      simp
    have undeferred := @Inv.undeferred _ _ _ h (world.table.key i) _ slot (by rw [cancelled]; nofun)
    have after := h.vacate rfl (.inr ⟨entry, by rw [slot]⟩) world.reserves world.leases
      world.removed ((world.table.key i, link) :: world.cancelled) world.table.deferred
      (absent_iff unreserved) h.orders.reserves (absent_iff unleased) h.orders.leases
      (.inr ⟨rfl, undeferred⟩)
      (by
        intro k l
        constructor
        · intro mem
          rcases List.mem_cons.mp mem with new | old
          · cases new
            exact .inr ⟨rfl, mem, bound⟩
          · exact .inl old
        · intro either
          rcases either with old | ⟨-, mem, -⟩
          · exact List.mem_cons_of_mem _ old
          · exact mem)
      (by
        rw [← key, owed, List.erase_cons_head]
        refine h.orders.balance.trans ?_
        rw [owed]
        exact List.perm_middle)
    refine ⟨.cancel (some (world.table.key i, link)), _, ?_, after, fun _ mem _ _ => mem, ?_,
      nofun, ?_, nofun⟩
    · simp only [step, Table.pollCancel, lane, List.head?_cons]
      rw [slot]
      simp only [Entry.cancel, body]
      rfl
    · show (world.table.remove i).owed = world.table.owed.tail
      rw [Table.remove_owed h.orders.lane1, owed, List.erase_cons_head]
      rfl
    · intro _
      rw [owed]
      exact ⟨link, bound, rfl⟩

/-- What becomes of an attempt whose lease is used up. -/
theorem finish_cases (pending : entry.phase.Pending) (commit : Bool) :
    entry.phase = .connected ∧ commit = true ∧
        entry.finish commit = .ok (.keep, { entry with phase := .active }) ∨
      (entry.phase = .submitted ∨ entry.phase = .connected ∧ commit = false) ∧
        entry.finish commit = .ok (.queue, { entry with phase := .cancelled }) ∨
      (entry.phase = .queued ∨ entry.phase = .opening ∨ entry.phase = .done) ∧
        entry.finish commit = .ok (.remove, entry) := by
  unfold Entry.finish
  cases phase : entry.phase <;> cases commit <;> simp_all [Phase.Pending]

theorem Inv.activate {world : World P L} (h : world.Inv) {i g : Nat} {entry : Entry P L}
    (slot : world.table.slots i = ⟨g, .occupied entry⟩) (connected : entry.phase = .connected) :
    Inv { world with
      table := world.table.setState i (.occupied { entry with phase := .active })
      leases := world.leases.filter (· ≠ ⟨i, g⟩) } := by
  have stored := (h.at i).stored entry (by rw [slot])
  have key : world.table.key i = ⟨i, g⟩ := by rw [Table.key, slot]
  rw [key] at stored
  refine h.restate slot _ _ world.polled world.bindings (by simp [connected]) ⟨nofun, nofun⟩ ?_ ?_
    (List.Nodup.filter _ h.orders.leases) (fun _ => id) h.orders.polled (fun _ _ => id) ?_
    (fun _ _ => rfl) ?_
  · intro k apart
    rw [mem_filter_ne]
    exact and_iff_left apart
  · rw [mem_filter_ne]
    exact iff_of_false (fun both => both.2 rfl) id
  · intro mem
    have polled := h.found slot mem
    simp [connected] at polled
  · simpa [Entry.Stored, connected] using stored

/-- The lease of an attempt without a connection is used up. -/
theorem Inv.release (h : world.Inv) {key : Key}
    (slot : world.table.slots key.index = ⟨key.generation, .occupied entry⟩)
    (other : entry.phase ≠ .cancelled) :
    Inv { world with
      table := (world.table.remove key.index).clear key
      leases := world.leases.filter (· ≠ key) } := by
  have unreserved : key ∉ world.reserves := by
    rw [show key = ⟨key.index, key.generation⟩ from rfl, (h.at key.index).reserved, slot]
    simp
  have unowed : key ∉ world.table.owed := by
    rw [h.mem_owed, slot]
    exact fun both => other (Option.some.inj both.2)
  rw [Table.clear_eq]
  refine h.vacate (by rw [slot]) (.inr ⟨entry, by rw [slot]⟩) world.reserves _ world.removed
    world.cancelled _ (absent_iff unreserved) h.orders.reserves (mem_filter_ne key)
    (List.Nodup.filter _ h.orders.leases) (world.table.cleared_cases key)
    (fun k l => by grind) ?_
  rw [List.erase_of_not_mem unowed]
  exact h.orders.balance

theorem step_finish (h : world.Inv) {key : Key} (commit : Bool) (held : key ∈ world.leases) :
    ∃ output next, world.finish key commit = .ok (output, next) ∧ next.Inv ∧
      next.leases = world.leases.filter (· ≠ key) ∧
      next.table.owed = (if (world.table.slots key.index).phase? = some .submitted ∨
        (world.table.slots key.index).phase? = some .connected ∧ commit = false
          then world.table.owed ++ [key] else world.table.owed) ∧
      ((next.table.slots key.index).phase? = some .active ↔
        (world.table.slots key.index).phase? = some .connected ∧ commit = true) := by
  rcases ((h.at key.index).leased key.generation).mp held with ⟨gen, phase, here, pending⟩
  rcases h.resident here with ⟨entry, slot, same, -⟩
  rw [← gen] at slot
  rw [← same] at pending
  have off0 : entry.phase ≠ .queued → key.index ∉ world.table.lane0 := by
    intro other mem
    have queued := (h.at key.index).lane0.mp mem
    rw [slot] at queued
    exact other (Option.some.inj queued)
  have off1 : key.index ∉ world.table.lane1 := by
    intro mem
    have cancelled := (h.at key.index).lane1.mp mem
    rw [slot] at cancelled
    rw [show entry.phase = .cancelled from Option.some.inj cancelled] at pending
    exact pending
  rcases finish_cases pending commit with ⟨connected, yes, run⟩ | ⟨opened, run⟩ | ⟨early, run⟩
  · refine ⟨.change .keep, _, ?_, h.activate slot connected, rfl, ?_, ?_⟩
    · simp only [finish, Table.finish, slot, run]
      simp [Slot.phase?, connected, yes]
    · rw [setState_owed, slot]
      simp [Slot.phase?, connected, yes]
    · simp [Table.setState, Slot.phase?, slot, connected, yes]
  · have out : entry.phase ≠ .queued := by
      rcases opened with same | ⟨same, -⟩ <;> simp [same]
    have after := h.queue slot (opened.imp id And.left) (mem_filter_ne key)
      (List.Nodup.filter _ h.orders.leases)
    refine ⟨.change .queue, _, ?_, after, rfl, ?_, ?_⟩
    · have detach : (world.table.setState key.index
          (.occupied { entry with phase := .cancelled })).detach key.index =
            world.table.setState key.index (.occupied { entry with phase := .cancelled }) := by
        show { world.table.setState key.index (.occupied { entry with phase := .cancelled }) with
          lane0 := world.table.lane0.erase key.index
          lane1 := world.table.lane1.erase key.index } = _
        rw [List.erase_of_not_mem (off0 out), List.erase_of_not_mem off1]
        rfl
      simp only [finish, Table.finish, slot, run, detach]
      rcases opened with same | ⟨same, no⟩
      · simp [Slot.phase?, same]
        rfl
      · simp [Slot.phase?, same, no]
        rfl
    · show (world.table.lane1 ++ [key.index]).map (world.table.setState key.index _).key = _
      rw [Table.setState_key, List.map_append, List.map_singleton, Table.key, slot, if_pos]
      · rfl
      · simpa [Slot.phase?] using opened
    · simp [Table.setState, Slot.phase?, slot]
      rcases opened with same | ⟨same, no⟩
      · simp [same]
      · simp [no]
  · have other : entry.phase ≠ .cancelled := by
      rcases early with same | same | same <;> simp [same]
    have closed : ¬ (entry.phase = .submitted ∨ entry.phase = .connected ∧ commit = false) := by
      rcases early with same | same | same <;> simp [same]
    have unowed : key ∉ world.table.owed := by
      rw [h.mem_owed, slot]
      exact fun both => other (Option.some.inj both.2)
    refine ⟨.change .remove, _, ?_, h.release slot other, rfl, ?_, ?_⟩
    · simp only [finish, Table.finish, slot, run]
      rcases early with same | same | same <;> simp [Slot.phase?, same]
    · rw [slot, if_neg (by simpa [Slot.phase?] using closed), Table.clear_eq]
      show (world.table.remove key.index).owed = _
      rw [discard_owed h slot, List.erase_of_not_mem unowed]
    · rw [slot, Table.clear_eq]
      show ((world.table.remove key.index).slots key.index).phase? = _ ↔ _
      rcases (world.table.detach key.index).vacate_slot key.index with ⟨state, -⟩
      have none : ((world.table.remove key.index).slots key.index).phase? = none := by
        unfold Slot.phase?
        rcases state with free | retired
        · rw [show ((world.table.remove key.index).slots key.index).state = _ from free]
        · rw [show ((world.table.remove key.index).slots key.index).state = _ from retired]
      rw [none]
      rcases early with same | same | same <;> simp [Slot.phase?, same]

theorem step_commit (h : world.Inv) {key : Key} (held : key ∈ world.leases) :
    world.Follows (.commit key) := by
  rcases step_finish h true held with ⟨output, next, run, after, leases, owed, active⟩
  refine ⟨output, next, run, after, ?_, ?_, ?_, nofun, nofun⟩
  · intro k mem apart _
    rw [leases, mem_filter_ne]
    exact ⟨mem, fun same => apart (congrArg Input.commit same.symm)⟩
  · simpa [owedAfter] using owed
  · intro k same
    cases same
    simpa using active

theorem step_drop (h : world.Inv) {key : Key} (held : key ∈ world.leases) :
    world.Follows (.drop key) := by
  rcases step_finish h false held with ⟨output, next, run, after, leases, owed, -⟩
  refine ⟨output, next, run, after, ?_, ?_, nofun, nofun, nofun⟩
  · intro k mem _ apart
    rw [leases, mem_filter_ne]
    exact ⟨mem, fun same => apart (congrArg Input.drop same.symm)⟩
  · simpa [owedAfter] using owed

theorem step_follows (h : world.Inv) (input : Input P L) (ok : world.allowed input) :
    world.Follows input := by
  cases input with
  | reserve i => exact step_reserve h ok.1 ok.2
  | dropReserve key => exact step_dropReserve h ok
  | start key plan => exact step_start h plan ok
  | poll => exact step_poll h
  | bind key link => exact step_bind h link ok
  | defer key plan => exact step_defer h plan ok
  | reject key => exact step_reject h ok
  | connected key => exact step_connected h key
  | failed key => exact step_failed h key
  | close key => exact step_close h key
  | disconnect key => exact step_disconnect h key
  | pollCancel => exact step_pollCancel h
  | commit key => exact step_commit h ok
  | drop key => exact step_drop h ok

theorem start_inv (capacity last : Nat) :
    Inv (⟨Table.tryNew capacity last, [], [], [], fun _ => none, [], [], []⟩ : World P L) := by
  refine ⟨?_, ?_⟩
  · intro i
    constructor <;> simp [Table.tryNew, Slot.phase?]
  · constructor <;> simp [Table.tryNew, Table.owed]

theorem machine_invariant (P L : Type) (capacity last : Nat) :
    (machine P L capacity last).Invariant Inv where
  start := by
    intro world started
    cases started
    exact start_inv capacity last
  step := by
    intro world input h ok
    rcases step_follows h input ok with ⟨output, next, run, after, -⟩
    exact ⟨output, next, run, after⟩

/-! ## Runs -/

/-- An attempt is on lane 0 while it is queued, and on lane 1 while it is cancelled. -/
def Linked (world : World P L) : Prop :=
  (∀ i, (i ∈ world.table.lane0 ↔ (world.table.slots i).phase? = some .queued) ∧
    (i ∈ world.table.lane1 ↔ (world.table.slots i).phase? = some .cancelled)) ∧
  world.table.lane0.Nodup ∧ world.table.lane1.Nodup

/-- The generation of a lease is resident in a pending phase. -/
def Retained (world : World P L) : Prop :=
  ∀ key ∈ world.leases, (world.table.slots key.index).generation = key.generation ∧
    ∃ phase, (world.table.slots key.index).phase? = some phase ∧ phase.Pending

/-- Every lease that was used up while a connection was open has its cancellation
polled once, with the connection it was bound to, or the connection went away before,
or the cancellation is still owed. -/
def Accounted (world : World P L) : Prop :=
  world.dropped.Nodup ∧
  world.dropped.Perm (world.cancelled.map Prod.fst ++ world.removed ++ world.table.owed) ∧
  ∀ c ∈ world.cancelled, world.bindings c.1 = some c.2

/-- The deferred attempt is the front of lane 0, and work on lane 0 is held back only
while there is one, or during a retry. -/
def Fronted (world : World P L) : Prop :=
  (∀ key, world.table.deferred = some key →
    world.table.lane0.head? = some key.index ∧ world.table.key key.index = key) ∧
  ∀ retry, world.table.lane0 ≠ [] → (world.table.isRunnable retry = false ↔
    world.table.lane1 = [] ∧ (world.table.deferred ≠ none ∨ retry = true))

theorem isRunnable_iff (queued : table.lane0 ≠ []) (retry : Bool) :
    table.isRunnable retry = false ↔
      table.lane1 = [] ∧ (table.deferred ≠ none ∨ retry = true) := by
  unfold Table.isRunnable
  cases first : table.lane0 with
  | nil => exact absurd first queued
  | cons i rest =>
    cases table.lane1 <;> cases table.deferred <;> cases retry <;> simp

/-- No order of the calls on an attempt queue faults, and its lanes, leases and
cancellations stay in step with the phases. -/
theorem reachable_attempts {capacity last : Nat} {world : World P L}
    (h : (machine P L capacity last).Reachable world) :
    world.Linked ∧ world.Retained ∧ world.Accounted ∧ world.Fronted ∧
      ∀ input, world.allowed input → ∃ output next,
        world.step input = .ok (output, next) ∧ Proper world input output next := by
  have inv := (machine_invariant P L capacity last).holds h
  have orders := inv.orders
  refine ⟨⟨fun i => ⟨(inv.at i).lane0, (inv.at i).lane1⟩, orders.lane0, orders.lane1⟩, ?_,
    ⟨orders.dropped, orders.balance, ?_⟩, ⟨orders.deferred, ?_⟩, ?_⟩
  · intro key held
    rcases ((inv.at key.index).leased key.generation).mp held with ⟨gen, resident⟩
    exact ⟨gen.symm, resident⟩
  · intro c mem
    exact ((inv.at c.1.index).cancelled c.1.generation c.2 mem).2
  · intro retry queued
    exact isRunnable_iff queued retry
  · intro input ok
    rcases step_follows inv input ok with ⟨output, next, run, -, proper⟩
    exact ⟨output, next, run, proper⟩

/-- Two attempts are opened and one is deferred. The other is bound, and its lease is
dropped: that cancellation is owed. -/
theorem reachable_attempts_example :
    ∃ world : World Bool Nat, (machine Bool Nat 2 9).Reachable world ∧
      world.dropped = [⟨0, 0⟩] ∧ world.table.owed = [⟨0, 0⟩] ∧
      world.table.deferred = some ⟨1, 0⟩ ∧ world.Accounted ∧ world.Fronted := by
  have start : (machine Bool Nat 2 9).Reachable
      ⟨Table.tryNew 2 9, [], [], [], fun _ => none, [], [], []⟩ := .start rfl
  have run := start.call (.reserve 0) ⟨by decide, rfl⟩ rfl
  have run := run.call (.start ⟨0, 0⟩ true) (List.mem_singleton.mpr rfl) rfl
  have run := run.call (.reserve 1) ⟨by decide, rfl⟩ rfl
  have run := run.call (.start ⟨1, 0⟩ false) (List.mem_singleton.mpr rfl) rfl
  have run := run.call .poll trivial rfl
  have run := run.call (.bind ⟨0, 0⟩ 7) (List.mem_singleton.mpr rfl) rfl
  have run := run.call .poll trivial rfl
  have run := run.call (.defer ⟨1, 0⟩ false) (List.mem_singleton.mpr rfl) rfl
  have run := run.call (.drop ⟨0, 0⟩) (.tail _ (.head _)) rfl
  have result := reachable_attempts run
  exact ⟨_, run, rfl, rfl, rfl, result.2.2.1, result.2.2.2.1⟩

end World

end Dope.Manifold.Attempt
