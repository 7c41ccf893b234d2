import Dope.Core.Fd.Table
import Mathlib.Data.Fintype.EquivFin
import Mathlib.Order.Interval.Finset.Nat

/-! # Tiles of the mapping

The leases of routes tile the mapped part of the mapping, the free slots are its end,
and what neither of them names is standalone.
-/

namespace Dope.Core.Fd

open Function

def Lease.Has (lease : Lease) (position : Nat) : Prop :=
  lease.start ≤ position ∧ position < lease.start + lease.len

/-- Between the mapped prefix and the free end the entries are anonymous. -/
def Table.Live (table : Table) (position : Nat) : Prop :=
  position < table.extent.mapped ∨
    table.extent.allocated ≤ position ∧ position < table.capacity

structure Tiled (accept : Nat) (table : Table) (state : Nat → SlotState) (spent : Nat → Bool) :
    Prop where
  order : table.extent.mapped ≤ table.extent.allocated ∧ table.extent.allocated ≤ table.capacity
  inside : ∀ k, table.Live k → accept ≤ table.mapping k ∧ table.mapping k < accept + table.capacity
  inj : ∀ j k, table.Live j → table.Live k → table.mapping j = table.mapping k → j = k
  fits : ∀ o lease, table.routes o = some lease →
    0 < lease.len ∧ lease.start + lease.len ≤ table.extent.mapped
  tiles : ∀ k, k < table.extent.mapped → ∃ o lease, table.routes o = some lease ∧ lease.Has k
  apart : ∀ o o' lease lease' k, table.routes o = some lease → table.routes o' = some lease' →
    lease.Has k → lease'.Has k → o = o'
  owned : ∀ o lease k, table.routes o = some lease → lease.Has k →
    ∃ phase, state (table.mapping k) = .route phase o
  free : ∀ k, table.extent.allocated ≤ k → k < table.capacity →
    state (table.mapping k) = .free ∧ spent (table.mapping k) = false
  rest : ∀ i, accept ≤ i → i < accept + table.capacity →
    (∀ k, table.Live k → table.mapping k ≠ i) → state i = .standalone

/-- The table after `count` slots of its free end went to a lease of `owner`. -/
def Table.lent (table : Table) (owner count : Nat) : Table :=
  { table with
    mapping := Span.rotate table.mapping table.extent.mapped table.extent.allocated
      (table.extent.allocated + count)
    routes := update table.routes owner (some ⟨table.extent.mapped, count, .live⟩)
    extent := ⟨table.extent.mapped + count, table.extent.allocated + count⟩ }

/-- Where the value at a position of that table was. -/
def Table.origin (table : Table) (count k : Nat) : Nat :=
  if table.extent.mapped ≤ k ∧ k < table.extent.mapped + count then
    k + (table.extent.allocated - table.extent.mapped)
  else k

variable {k i o owner slot : Nat} {lease : Lease}

namespace Tiled

variable {accept : Nat} {table : Table} {state state' : Nat → SlotState}
  {spent spent' : Nat → Bool}

/-! ## Lookups -/

theorem slot_some (found : table.slot owner slot = some i) :
    ∃ lease, table.routes owner = some lease ∧ slot < lease.len ∧
      table.mapping (lease.start + slot) = i := by
  unfold Table.slot at found
  split at found
  · next lease here =>
      unfold Table.get Lease.position at found
      split at found
      · next fit =>
          cases found
          exact ⟨lease, here, fit, rfl⟩
      · cases found
  · cases found

theorem slot_eq (here : table.routes owner = some lease) (fit : slot < lease.len) :
    table.slot owner slot = some (table.mapping (lease.start + slot)) := by
  unfold Table.slot
  rw [here]
  show (lease.position slot).map table.mapping = _
  unfold Lease.position
  rw [if_pos fit]
  rfl

section

variable (h : Tiled accept table state spent)

include h

theorem live_has (here : table.routes o = some lease) (has : lease.Has k) :
    k < table.extent.mapped ∧ table.Live k := by
  have fits := h.fits o lease here
  have low : k < table.extent.mapped := by
    have := has.2
    omega
  exact ⟨low, .inl low⟩

theorem slot_inj {o' l l' : Nat} (found : table.slot o l = some i)
    (found' : table.slot o' l' = some i) : o = o' ∧ l = l' := by
  rcases slot_some found with ⟨lease, here, fit, same⟩
  rcases slot_some found' with ⟨lease', here', fit', same'⟩
  have has : lease.Has (lease.start + l) := ⟨by omega, by omega⟩
  have has' : lease'.Has (lease'.start + l') := ⟨by omega, by omega⟩
  have position := h.inj _ _ (h.live_has here has).2 (h.live_has here' has').2
    (same.trans same'.symm)
  rw [← position] at has'
  have owner := h.apart o o' lease lease' _ here here' has has'
  subst owner
  rw [here] at here'
  cases here'
  exact ⟨rfl, by omega⟩

theorem slot_of_state {phase : SlotPhase} (lower : accept ≤ i)
    (upper : i < accept + table.capacity) (here : state i = .route phase o) :
    ∃ l, table.slot o l = some i := by
  by_cases named : ∃ k, table.Live k ∧ table.mapping k = i
  · rcases named with ⟨k, live, same⟩
    rcases live with mapped | ⟨low, high⟩
    · rcases h.tiles k mapped with ⟨o', lease, route, has⟩
      rcases h.owned o' lease k route has with ⟨phase', owned⟩
      rw [same, here] at owned
      cases owned
      refine ⟨k - lease.start, ?_⟩
      have lower := has.1
      have upper := has.2
      rw [slot_eq route (by omega), ← same]
      congr 2
      omega
    · have free := (h.free k low high).1
      rw [same, here] at free
      cases free
  · have rest := h.rest i lower upper (fun k live same => named ⟨k, live, same⟩)
    rw [here] at rest
    cases rest

theorem named_of_full (full : table.extent.mapped = table.extent.allocated) (lower : accept ≤ i)
    (upper : i < accept + table.capacity) : ∃ k, table.Live k ∧ table.mapping k = i := by
  have live : ∀ k, k < table.capacity → table.Live k := by
    intro k high
    have order := h.order
    unfold Table.Live
    omega
  let name : Fin table.capacity → Fin table.capacity := fun k =>
    ⟨table.mapping k - accept, by
      have inside := h.inside k (live k k.isLt)
      have some := k.isLt
      omega⟩
  have injective : Function.Injective name := by
    intro j k same
    have equal := congrArg Fin.val same
    dsimp only [name] at equal
    have first := h.inside j (live j j.isLt)
    have second := h.inside k (live k k.isLt)
    exact Fin.ext (h.inj j k (live j j.isLt) (live k k.isLt) (by omega))
  rcases Finite.surjective_of_injective injective ⟨i - accept, by omega⟩ with ⟨k, same⟩
  have equal := congrArg Fin.val same
  dsimp only [name] at equal
  have inside := h.inside k (live k k.isLt)
  exact ⟨k, live k k.isLt, by omega⟩

/-! ## Changes of states -/

/-- Slots change their phases, and leases their states. -/
theorem relabel (routes : Nat → Option Lease)
    (spans : ∀ o, (routes o).map (fun lease => (lease.start, lease.len)) = (table.routes o).map
      fun lease => (lease.start, lease.len))
    (states : ∀ i, state' i = state i ∨ ∃ phase phase' o, state i = .route phase o ∧ state' i =
      .route phase' o) (fresh : ∀ i, accept ≤ i → state i = .free → spent' i = spent i) :
    Tiled accept { table with routes } state' spent' := by
  have lease_of : ∀ o lease, routes o = some lease → ∃ lease', table.routes o = some lease' ∧
      lease'.start = lease.start ∧ lease'.len = lease.len := by
    intro o lease here
    have span := spans o
    rw [here] at span
    cases there : table.routes o with
    | none =>
      rw [there] at span
      cases span
    | some lease' =>
      rw [there] at span
      have pair := Option.some.inj span
      exact ⟨lease', rfl, (congrArg Prod.fst pair).symm, (congrArg Prod.snd pair).symm⟩
  have has_of : ∀ {lease lease' : Lease} {k : Nat}, lease'.start = lease.start →
      lease'.len = lease.len → lease.Has k → lease'.Has k := by
    intro lease lease' k start len has
    exact ⟨by rw [start]; exact has.1, by rw [start, len]; exact has.2⟩
  constructor
  · exact h.order
  · exact h.inside
  · exact h.inj
  · intro o lease here
    rcases lease_of o lease here with ⟨lease', there, start, len⟩
    rw [← start, ← len]
    exact h.fits o lease' there
  · intro k mapped
    rcases h.tiles k mapped with ⟨o, lease, there, has⟩
    have span := spans o
    rw [there] at span
    cases here : routes o with
    | none =>
      rw [here] at span
      cases span
    | some lease' =>
      rw [here] at span
      have pair := Option.some.inj span
      exact ⟨o, lease', here, has_of (congrArg Prod.fst pair) (congrArg Prod.snd pair) has⟩
  · intro o o' lease lease' k here here' has has'
    rcases lease_of o lease here with ⟨first, there, start, len⟩
    rcases lease_of o' lease' here' with ⟨second, there', start', len'⟩
    exact h.apart o o' first second k there there' (has_of start len has)
      (has_of start' len' has')
  · intro o lease k here has
    rcases lease_of o lease here with ⟨lease', there, start, len⟩
    rcases h.owned o lease' k there (has_of start len has) with ⟨phase, owned⟩
    rcases states (table.mapping k) with same | ⟨first, second, o', was, is⟩
    · exact ⟨phase, same.trans owned⟩
    · rw [owned] at was
      cases was
      exact ⟨second, is⟩
  · intro k low high
    have free := h.free k low high
    rcases states (table.mapping k) with same | ⟨first, second, o', was, -⟩
    · have inside := (h.inside k (.inr ⟨low, high⟩)).1
      exact ⟨same.trans free.1, (fresh _ inside free.1).trans free.2⟩
    · rw [free.1] at was
      cases was
  · intro i lower upper unnamed
    have rest := h.rest i lower upper unnamed
    rcases states i with same | ⟨first, second, o', was, -⟩
    · exact same.trans rest
    · rw [rest] at was
      cases was

/-! ## Standalone slots -/

theorem reserve (room : table.extent.allocated < table.capacity)
    (here : state' (table.mapping table.extent.allocated) = .standalone)
    (others : ∀ i, i ≠ table.mapping table.extent.allocated → state' i = state i)
    (fresh : ∀ i, i ≠ table.mapping table.extent.allocated → spent' i = spent i) :
    Tiled accept { table with
      extent := ⟨table.extent.mapped, table.extent.allocated + 1⟩ } state' spent' := by
  have order := h.order
  have first : table.Live table.extent.allocated := .inr ⟨Nat.le_refl _, room⟩
  have old : ∀ k, ({ table with
      extent := ⟨table.extent.mapped, table.extent.allocated + 1⟩ } : Table).Live k →
        table.Live k ∧ table.mapping k ≠ table.mapping table.extent.allocated := by
    intro k live
    change k < table.extent.mapped ∨ table.extent.allocated + 1 ≤ k ∧ k < table.capacity at live
    have live' : table.Live k := by
      unfold Table.Live
      omega
    refine ⟨live', ?_⟩
    intro same
    have := h.inj k _ live' first same
    omega
  constructor
  · exact ⟨Nat.le_succ_of_le order.1, room⟩
  · exact fun k live => h.inside k (old k live).1
  · exact fun j k live live' => h.inj j k (old j live).1 (old k live').1
  · exact h.fits
  · exact h.tiles
  · exact h.apart
  · intro o lease k route has
    have apart := (old k (.inl (h.live_has route has).1)).2
    show ∃ phase, state' (table.mapping k) = _
    rw [others _ apart]
    exact h.owned o lease k route has
  · intro k low high
    have apart := (old k (.inr ⟨low, high⟩)).2
    have free := h.free k (Nat.le_of_succ_le low) high
    exact ⟨(others _ apart).trans free.1, (fresh _ apart).trans free.2⟩
  · intro i lower upper unnamed
    by_cases same : i = table.mapping table.extent.allocated
    · rw [same]
      exact here
    · rw [others i same]
      refine h.rest i lower upper ?_
      intro k live named
      refine unnamed k ?_ named
      by_cases index : k = table.extent.allocated
      · rw [index] at named
        exact absurd named.symm same
      · show k < table.extent.mapped ∨ table.extent.allocated + 1 ≤ k ∧ k < table.capacity
        unfold Table.Live at live
        omega

/-- A standalone slot is named by no position, and there is room for it. -/
theorem standalone (lower : accept ≤ i) (upper : i < accept + table.capacity)
    (here : state i = .standalone) :
    (∀ k, table.Live k → table.mapping k ≠ i) ∧ table.extent.mapped < table.extent.allocated := by
  have unnamed : ∀ k, table.Live k → table.mapping k ≠ i := by
    intro k live same
    rcases live with mapped | ⟨low, high⟩
    · rcases h.tiles k mapped with ⟨o, lease, route, has⟩
      rcases h.owned o lease k route has with ⟨phase, owned⟩
      rw [same, here] at owned
      cases owned
    · have free := (h.free k low high).1
      rw [same, here] at free
      cases free
  refine ⟨unnamed, ?_⟩
  have order := h.order
  by_cases full : table.extent.mapped = table.extent.allocated
  · rcases h.named_of_full full lower upper with ⟨k, live, same⟩
    exact absurd same (unnamed k live)
  · omega

theorem release (lower : accept ≤ i) (upper : i < accept + table.capacity)
    (was : state i = .standalone) (here : state' i = .free ∧ spent' i = false)
    (others : ∀ j, j ≠ i → state' j = state j) (fresh : ∀ j, j ≠ i → spent' j = spent j) :
    Tiled accept { table with
      mapping := update table.mapping (table.extent.allocated - 1) i
      extent := ⟨table.extent.mapped, table.extent.allocated - 1⟩ } state' spent' := by
  have order := h.order
  rcases h.standalone lower upper was with ⟨unnamed, room⟩
  have old : ∀ k, ({ table with
      mapping := update table.mapping (table.extent.allocated - 1) i
      extent := ⟨table.extent.mapped, table.extent.allocated - 1⟩ } : Table).Live k →
        k = table.extent.allocated - 1 ∧
          update table.mapping (table.extent.allocated - 1) i k = i ∨
        table.Live k ∧ update table.mapping (table.extent.allocated - 1) i k =
          table.mapping k := by
    intro k live
    change k < table.extent.mapped ∨ table.extent.allocated - 1 ≤ k ∧ k < table.capacity at live
    by_cases index : k = table.extent.allocated - 1
    · rw [index]
      exact .inl ⟨rfl, update_self ..⟩
    · refine .inr ⟨?_, update_of_ne index ..⟩
      unfold Table.Live
      omega
  have back : ∀ k, table.Live k → ({ table with
      mapping := update table.mapping (table.extent.allocated - 1) i
      extent := ⟨table.extent.mapped, table.extent.allocated - 1⟩ } : Table).Live k ∧
        k ≠ table.extent.allocated - 1 := by
    intro k live
    unfold Table.Live at live
    refine ⟨?_, by omega⟩
    show k < table.extent.mapped ∨ table.extent.allocated - 1 ≤ k ∧ k < table.capacity
    omega
  constructor
  · show table.extent.mapped ≤ table.extent.allocated - 1 ∧ table.extent.allocated - 1 ≤ table.capacity
    omega
  · intro k live
    show accept ≤ update table.mapping (table.extent.allocated - 1) i k ∧ _
    rcases old k live with ⟨-, same⟩ | ⟨live', same⟩
    · show _ ≤ _ ∧ update table.mapping (table.extent.allocated - 1) i k < _
      rw [same]
      exact ⟨lower, upper⟩
    · show _ ≤ _ ∧ update table.mapping (table.extent.allocated - 1) i k < _
      rw [same]
      exact h.inside k live'
  · intro j k live live' equal
    change update table.mapping (table.extent.allocated - 1) i j =
      update table.mapping (table.extent.allocated - 1) i k at equal
    rcases old j live with ⟨index, same⟩ | ⟨there, same⟩
    · rcases old k live' with ⟨index', -⟩ | ⟨there', same'⟩
      · rw [index, index']
      · rw [same, same'] at equal
        exact absurd equal.symm (unnamed k there')
    · rcases old k live' with ⟨-, same'⟩ | ⟨there', same'⟩
      · rw [same, same'] at equal
        exact absurd equal (unnamed j there)
      · rw [same, same'] at equal
        exact h.inj j k there there' equal
  · exact h.fits
  · exact h.tiles
  · exact h.apart
  · intro o lease k route has
    have live := h.live_has route has
    have apart := (back k live.2).2
    show ∃ phase, state' (update table.mapping (table.extent.allocated - 1) i k) = _
    rw [update_of_ne apart, others _ (unnamed k live.2)]
    exact h.owned o lease k route has
  · intro k low high
    show state' (update table.mapping (table.extent.allocated - 1) i k) = .free ∧
      spent' (update table.mapping (table.extent.allocated - 1) i k) = false
    by_cases index : k = table.extent.allocated - 1
    · rw [index, update_self]
      exact here
    · change table.extent.allocated - 1 ≤ k at low
      have low' : table.extent.allocated ≤ k := by omega
      have apart := unnamed k (.inr ⟨low', high⟩)
      rw [update_of_ne index, others _ apart, fresh _ apart]
      exact h.free k low' high
  · intro j lower' upper' unnamed'
    have apart : j ≠ i := by
      intro same
      refine unnamed' (table.extent.allocated - 1) (.inr ⟨Nat.le_refl _, ?_⟩) ?_
      · show table.extent.allocated - 1 < table.capacity
        omega
      · show update table.mapping (table.extent.allocated - 1) i _ = j
        rw [update_self, same]
    rw [others j apart]
    refine h.rest j lower' upper' ?_
    intro k live same
    refine unnamed' k (back k live).1 ?_
    show update table.mapping (table.extent.allocated - 1) i k = j
    rw [update_of_ne (back k live).2]
    exact same

/-! ## Assignment -/

end

section
variable {owner count : Nat}

section

variable (h : Tiled accept table state spent)

include h

theorem lent_before (low : k < table.extent.mapped) :
    (table.lent owner count).mapping k = table.mapping k :=
  Span.rotate_out h.order.1 (by omega) (.inl low)

theorem lent_taken (low : table.extent.mapped ≤ k) (high : k < table.extent.mapped + count) :
    (table.lent owner count).mapping k =
      table.mapping (k + (table.extent.allocated - table.extent.mapped)) :=
  Span.rotate_first h.order.1 (by omega) low (by omega)

theorem lent_behind (low : table.extent.allocated + count ≤ k) :
    (table.lent owner count).mapping k = table.mapping k :=
  Span.rotate_out h.order.1 (by omega) (.inr low)

theorem lent_origin (room : table.extent.allocated + count ≤ table.capacity)
    (live : (table.lent owner count).Live k) : table.Live (table.origin count k) ∧
      (table.lent owner count).mapping k = table.mapping (table.origin count k) := by
  change k < table.extent.mapped + count ∨ table.extent.allocated + count ≤ k ∧ _ at live
  have order := h.order
  unfold Table.origin
  by_cases new : table.extent.mapped ≤ k ∧ k < table.extent.mapped + count
  · rw [if_pos new]
    exact ⟨.inr ⟨by omega, by omega⟩, h.lent_taken new.1 new.2⟩
  · rw [if_neg new]
    by_cases low : k < table.extent.mapped
    · exact ⟨.inl low, h.lent_before low⟩
    · rcases live with inside | ⟨behind, high⟩
      · exact absurd ⟨Nat.le_of_not_lt low, inside⟩ new
      · exact ⟨.inr ⟨Nat.le_of_add_right_le behind, high⟩, h.lent_behind behind⟩

theorem lent_inj (room : table.extent.allocated + count ≤ table.capacity) {j : Nat}
    (live : (table.lent owner count).Live j) (live' : (table.lent owner count).Live k)
    (equal : (table.lent owner count).mapping j = (table.lent owner count).mapping k) : j = k := by
  have first := h.lent_origin room live
  have second := h.lent_origin room live'
  rw [first.2, second.2] at equal
  have same := h.inj _ _ first.1 second.1 equal
  change j < table.extent.mapped + count ∨ table.extent.allocated + count ≤ j ∧ _ at live
  change k < table.extent.mapped + count ∨ table.extent.allocated + count ≤ k ∧ _ at live'
  have order := h.order
  unfold Table.origin at same
  split at same <;> split at same <;> omega

/-- No slot loses its name. -/
theorem lent_named (live : table.Live k) :
    ∃ j, (table.lent owner count).Live j ∧
      (table.lent owner count).mapping j = table.mapping k := by
  have order := h.order
  rcases live with low | ⟨low, high⟩
  · exact ⟨k, .inl (Nat.lt_add_right _ low), h.lent_before low⟩
  · by_cases taken : k < table.extent.allocated + count
    · refine ⟨k - (table.extent.allocated - table.extent.mapped), .inl ?_, ?_⟩
      · show k - _ < table.extent.mapped + count
        omega
      · rw [h.lent_taken (by omega) (by omega)]
        congr 1
        omega
    · exact ⟨k, .inr ⟨Nat.le_of_not_lt taken, high⟩, h.lent_behind (Nat.le_of_not_lt taken)⟩

end

theorem lent_route (route : (table.lent owner count).routes o = some lease) :
    o = owner ∧ lease = ⟨table.extent.mapped, count, .live⟩ ∨
      o ≠ owner ∧ table.routes o = some lease := by
  change update table.routes owner _ o = some lease at route
  by_cases same : o = owner
  · rw [same, update_self] at route
    cases route
    exact .inl ⟨same, rfl⟩
  · rw [update_of_ne same] at route
    exact .inr ⟨same, route⟩

theorem lent_slot (h : Tiled accept table state spent) {l : Nat} (apart : o ≠ owner) :
    (table.lent owner count).slot o l = table.slot o l := by
  unfold Table.slot
  rw [show (table.lent owner count).routes o = table.routes o from update_of_ne apart ..]
  cases route : table.routes o with
  | none => rfl
  | some lease =>
    dsimp only
    unfold Table.get Lease.position
    by_cases fit : l < lease.len
    · rw [if_pos fit]
      have low := (h.live_has (k := lease.start + l) route ⟨by omega, by omega⟩).1
      exact congrArg some (h.lent_before low)
    · rw [if_neg fit]
      rfl

/-- The slots of the new lease were free. -/
theorem lent_free (h : Tiled accept table state spent)
    (room : table.extent.allocated + count ≤ table.capacity) (low : table.extent.mapped ≤ k)
    (high : k < table.extent.mapped + count) :
    (accept ≤ (table.lent owner count).mapping k ∧
      (table.lent owner count).mapping k < accept + table.capacity) ∧
      state ((table.lent owner count).mapping k) = .free := by
  have order := h.order
  rw [h.lent_taken low high]
  refine ⟨h.inside _ (.inr ⟨by omega, by omega⟩), (h.free _ ?_ ?_).1⟩
  · omega
  · omega

/-- The mapping after an interval of `count` slots is taken from the free end. -/
theorem assign (h : Tiled accept table state spent) (some_ : 0 < count)
    (vacant : table.routes owner = none)
    (room : table.extent.allocated + count ≤ table.capacity)
    (here : ∀ k, table.extent.mapped ≤ k → k < table.extent.mapped + count →
      state' ((table.lent owner count).mapping k) = .route .mapped owner)
    (others : ∀ i, (∀ k, table.extent.mapped ≤ k → k < table.extent.mapped + count →
      (table.lent owner count).mapping k ≠ i) → state' i = state i)
    (fresh : ∀ i, spent' i = spent i) :
    Tiled accept (table.lent owner count) state' spent' := by
  -- what is not of the new lease keeps its state
  have kept : ∀ k, (table.lent owner count).Live k →
      ¬ (table.extent.mapped ≤ k ∧ k < table.extent.mapped + count) →
        state' ((table.lent owner count).mapping k) =
          state ((table.lent owner count).mapping k) := by
    intro k live out
    refine others _ ?_
    intro j low high equal
    rw [h.lent_inj room (.inl high) live equal] at low high
    exact out ⟨low, high⟩
  constructor
  · exact ⟨Nat.add_le_add_right h.order.1 count, room⟩
  · intro k live
    rw [(h.lent_origin room live).2]
    exact h.inside _ (h.lent_origin room live).1
  · exact fun j k live live' equal => h.lent_inj room live live' equal
  · intro o lease route
    rcases lent_route route with ⟨-, new⟩ | ⟨-, there⟩
    · rw [new]
      exact ⟨some_, Nat.le_refl _⟩
    · have fits := h.fits o lease there
      exact ⟨fits.1, Nat.le_trans fits.2 (Nat.le_add_right ..)⟩
  · intro k low
    change k < table.extent.mapped + count at low
    by_cases new : table.extent.mapped ≤ k
    · exact ⟨owner, _, update_self .., new, low⟩
    · rcases h.tiles k (by omega) with ⟨o, lease, route, has⟩
      have apart : o ≠ owner := by
        intro same
        rw [same, vacant] at route
        cases route
      exact ⟨o, lease, (update_of_ne apart ..).trans route, has⟩
  · intro o o' lease lease' k route route' has has'
    rcases lent_route route with ⟨mine, new⟩ | ⟨-, there⟩
    · rcases lent_route route' with ⟨mine', -⟩ | ⟨-, there'⟩
      · rw [mine, mine']
      · rw [new] at has
        exact absurd (h.live_has there' has').1 (Nat.not_lt.mpr has.1)
    · rcases lent_route route' with ⟨-, new'⟩ | ⟨-, there'⟩
      · rw [new'] at has'
        exact absurd (h.live_has there has).1 (Nat.not_lt.mpr has'.1)
      · exact h.apart o o' lease lease' k there there' has has'
  · intro o lease k route has
    rcases lent_route route with ⟨mine, new⟩ | ⟨-, there⟩
    · rw [new] at has
      exact ⟨.mapped, by rw [mine]; exact here k has.1 has.2⟩
    · have low := (h.live_has there has).1
      rw [kept k (.inl (Nat.lt_add_right _ low)) (fun new => absurd low (Nat.not_lt.mpr new.1)),
        h.lent_before low]
      exact h.owned o lease k there has
  · intro k low high
    change table.extent.allocated + count ≤ k at low
    have order := h.order
    rw [kept k (.inr ⟨low, high⟩) (by omega), fresh, h.lent_behind low]
    exact h.free k (by omega) high
  · intro i lower upper unnamed
    rw [others i fun k _ high => unnamed k (.inl high)]
    refine h.rest i lower upper ?_
    intro k live same
    rcases (h.lent_named live : ∃ j, (table.lent owner count).Live j ∧ _) with ⟨j, named, equal⟩
    exact unnamed j named (equal.trans same)

end

end Tiled

end Dope.Core.Fd
