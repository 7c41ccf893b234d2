import Dope.Core.Fd.Tiles

/-! # Reclaiming an interval

The interval of a retired route is moved behind the other leases and compacted in
place: what can be used again joins the free end, and every other lease keeps its
slots in their order.
-/

namespace Dope.Core.Fd

open Function

variable {T : Type}

/-! ## States of many slots -/

theorem setState_entries (store : Store T) (i : Nat) (state : SlotState) :
    (store.setState i state).entries =
      update store.entries i ((store.entries i).setState state) := rfl

/-- Entries that differ in their states only. -/
structure Restated (old new : Store T) : Prop where
  capacity : new.capacity = old.capacity
  last : new.last = old.last
  pending : new.pending = old.pending
  inflight : new.inflight = old.inflight
  entries : ∀ i, ∃ state, new.entries i = (old.entries i).setState state

theorem restated_refl (store : Store T) : Restated store store :=
  ⟨rfl, rfl, rfl, rfl, fun i => ⟨(store.entries i).state, rfl⟩⟩

theorem restated_setState (store : Store T) (i : Nat) (state : SlotState) :
    Restated store (store.setState i state) := by
  refine ⟨rfl, rfl, rfl, rfl, ?_⟩
  intro j
  rw [setState_entries]
  by_cases same : j = i
  · rw [same, update_self]
    exact ⟨state, rfl⟩
  · rw [update_of_ne same]
    exact ⟨(store.entries j).state, rfl⟩

theorem Restated.trans {old mid new : Store T} (h : Restated old mid) (h' : Restated mid new) :
    Restated old new := by
  refine ⟨h'.capacity.trans h.capacity, h'.last.trans h.last, h'.pending.trans h.pending,
    h'.inflight.trans h.inflight, ?_⟩
  intro i
  rcases h.entries i with ⟨state, same⟩
  rcases h'.entries i with ⟨state', same'⟩
  exact ⟨state', by rw [same', same]; rfl⟩

theorem Restated.exhausted {old new : Store T} (h : Restated old new) (i : Nat) :
    (new.entries i).exhausted = (old.entries i).exhausted := by
  rcases h.entries i with ⟨state, same⟩
  rw [same]
  rfl

namespace Domain

theorem map_restated (store : Store T) (mapping : Nat → Nat) (owner start count : Nat) :
    Restated store (map store mapping owner start count) ∧
    (∀ k, start ≤ k → k < start + count →
      ((map store mapping owner start count).entries (mapping k)).state = .route .mapped owner) ∧
    ∀ i, (∀ k, start ≤ k → k < start + count → mapping k ≠ i) →
      (map store mapping owner start count).entries i = store.entries i := by
  induction count generalizing store start with
  | zero =>
    refine ⟨restated_refl store, ?_, fun _ _ => rfl⟩
    intro k low high
    omega
  | succ count ih =>
    rcases ih (store.setState (mapping start) (.route .mapped owner)) (start + 1) with
      ⟨restated, inner, outer⟩
    refine ⟨(restated_setState ..).trans restated, ?_, ?_⟩
    · intro k low high
      by_cases named : ∃ j, start + 1 ≤ j ∧ j < start + 1 + count ∧ mapping j = mapping k
      · rcases named with ⟨j, low', high', same⟩
        have := inner j low' high'
        rw [same] at this
        exact this
      · have first : k = start := by
          by_cases first : k = start
          · exact first
          · exact absurd ⟨k, by omega, by omega, rfl⟩ named
        have kept := outer (mapping k) (fun j low' high' same => named ⟨j, low', high', same⟩)
        show ((map _ mapping owner (start + 1) count).entries (mapping k)).state = _
        rw [kept, first, setState_entries, update_self]
        rfl
    · intro i unnamed
      have kept := outer i (fun k low high => unnamed k (by omega) (by omega))
      show (map _ mapping owner (start + 1) count).entries i = _
      rw [kept, setState_entries,
        update_of_ne (unnamed start (Nat.le_refl _) (by omega)).symm]

/-- What a compaction makes of the `count` entries below `read`. -/
structure Compacted (store : Store T) (mapping : Nat → Nat) (read allocated count : Nat)
    (store' : Store T) (mapping' : Nat → Nat) (allocated' : Nat) : Prop where
  restated : Restated store store'
  states : ∀ j, read - count ≤ j → j < read → (store'.entries (mapping j)).state =
    if (store.entries (mapping j)).exhausted then .standalone else .free
  others : ∀ i, (∀ j, read - count ≤ j → j < read → mapping j ≠ i) →
    store'.entries i = store.entries i
  bounds : allocated' ≤ allocated ∧ allocated - count ≤ allocated'
  kept : ∀ k, k < allocated' ∨ allocated ≤ k → mapping' k = mapping k
  from_ : ∀ k, allocated' ≤ k → k < allocated → ∃ j, read - count ≤ j ∧ j < read ∧
    mapping' k = mapping j ∧ (store.entries (mapping j)).exhausted = false
  onto : ∀ j, read - count ≤ j → j < read → (store.entries (mapping j)).exhausted = false →
    ∃ k, allocated' ≤ k ∧ k < allocated ∧ mapping' k = mapping j
  inj : ∀ k k', allocated' ≤ k → k < allocated → allocated' ≤ k' → k' < allocated →
    mapping' k = mapping' k' → k = k'

theorem compact_spec (store : Store T) (mapping : Nat → Nat) (read allocated count : Nat)
    (fit : count ≤ read) (order : read ≤ allocated)
    (inj : ∀ j k, read - count ≤ j → j < read → read - count ≤ k → k < read →
      mapping j = mapping k → j = k) :
    Compacted store mapping read allocated count (compact store mapping read allocated count).1
      (compact store mapping read allocated count).2.1
      (compact store mapping read allocated count).2.2 := by
  induction count generalizing store mapping read allocated with
  | zero =>
    constructor
    · exact restated_refl store
    · intro j low high
      omega
    · exact fun _ _ => rfl
    · exact ⟨Nat.le_refl _, Nat.sub_le ..⟩
    · exact fun _ _ => rfl
    · intro k (low : allocated ≤ k) high
      omega
    · intro j low high
      omega
    · intro k k' (low : allocated ≤ k) high
      omega
  | succ count ih =>
    have below : ∀ j, read - 1 - count ≤ j → j < read - 1 →
        mapping j ≠ mapping (read - 1) := by
      intro j low high same
      have := inj j (read - 1) (by omega) (by omega) (by omega) (by omega) same
      omega
    have split : ∀ j, read - (count + 1) ≤ j → j < read →
        j = read - 1 ∨ read - 1 - count ≤ j ∧ j < read - 1 := by
      intro j low high
      omega
    cases spent : (store.entries (mapping (read - 1))).exhausted with
    | true =>
      have run : compact store mapping read allocated (count + 1) =
          compact (store.setState (mapping (read - 1)) .standalone) mapping (read - 1)
            allocated count := by
        rw [compact, if_pos spent]
      rw [run]
      have inner := ih (store.setState (mapping (read - 1)) .standalone) mapping
        (read - 1) allocated (by omega) (by omega)
        (fun j k low high low' high' => inj j k (by omega) (by omega) (by omega) (by omega))
      have first := inner.others (mapping (read - 1)) below
      have stale : ∀ i, ((store.setState (mapping (read - 1)) .standalone).entries i).exhausted
          = (store.entries i).exhausted := (restated_setState ..).exhausted
      constructor
      · exact (restated_setState ..).trans inner.restated
      · intro j low high
        rcases split j low high with last | ⟨low', high'⟩
        · rw [last, first, setState_entries, update_self, spent]
          rfl
        · rw [inner.states j low' high', stale]
      · intro i unnamed
        rw [inner.others i (fun j low high => unnamed j (by omega) (by omega)),
          setState_entries, update_of_ne (unnamed (read - 1) (by omega) (by omega)).symm]
      · have bounds := inner.bounds
        omega
      · exact inner.kept
      · intro k low high
        rcases inner.from_ k low high with ⟨j, low', high', same, fresh⟩
        exact ⟨j, by omega, by omega, same, (stale _).symm.trans fresh⟩
      · intro j low high fresh
        rcases split j low high with last | ⟨low', high'⟩
        · rw [last, spent] at fresh
          cases fresh
        · exact inner.onto j low' high' ((stale _).trans fresh)
      · exact inner.inj
    | false =>
      have run : compact store mapping read allocated (count + 1) =
          compact (store.setState (mapping (read - 1)) .free)
            (update mapping (allocated - 1) (mapping (read - 1))) (read - 1)
            (allocated - 1) count := by
        rw [compact, if_neg (by rw [spent]; nofun)]
      rw [run]
      have unread : ∀ j, j < read - 1 →
          update mapping (allocated - 1) (mapping (read - 1)) j = mapping j := by
        intro j high
        exact update_of_ne (by omega) ..
      have inner := ih (store.setState (mapping (read - 1)) .free)
        (update mapping (allocated - 1) (mapping (read - 1)))
        (read - 1) (allocated - 1) (by omega) (by omega) (by
          intro j k low high low' high' same
          rw [unread j high, unread k high'] at same
          exact inj j k (by omega) (by omega) (by omega) (by omega) same)
      generalize compact (store.setState (mapping (read - 1)) .free)
        (update mapping (allocated - 1) (mapping (read - 1))) (read - 1)
        (allocated - 1) count = result at inner ⊢
      have first := inner.others (mapping (read - 1)) (by
        intro j low high
        rw [unread j high]
        exact below j low high)
      have bounds := inner.bounds
      have top : result.2.1 (allocated - 1) = mapping (read - 1) := by
        rw [inner.kept _ (.inr (Nat.le_refl _)), update_self]
      have stale : ∀ i, ((store.setState (mapping (read - 1)) .free).entries i).exhausted
          = (store.entries i).exhausted := (restated_setState ..).exhausted
      constructor
      · exact (restated_setState ..).trans inner.restated
      · intro j low high
        rcases split j low high with last | ⟨low', high'⟩
        · rw [last, first, setState_entries, update_self, spent]
          rfl
        · have := inner.states j low' high'
          rw [unread j high', stale] at this
          exact this
      · intro i unnamed
        rw [inner.others i (by
            intro j low high
            rw [unread j high]
            exact unnamed j (by omega) (by omega)),
          setState_entries, update_of_ne (unnamed (read - 1) (by omega) (by omega)).symm]
      · omega
      · intro k out
        rw [inner.kept k (by omega), update_of_ne (by omega)]
      · intro k low high
        by_cases last : k = allocated - 1
        · rw [last]
          exact ⟨read - 1, by omega, by omega, top, spent⟩
        · rcases inner.from_ k low (by omega) with ⟨j, low', high', same, fresh⟩
          rw [unread j high'] at same fresh
          exact ⟨j, by omega, by omega, same, (stale _).symm.trans fresh⟩
      · intro j low high fresh
        rcases split j low high with last | ⟨low', high'⟩
        · rw [last]
          exact ⟨allocated - 1, by omega, by omega, top⟩
        · rcases inner.onto j low' high' (by rw [unread j high', stale]; exact fresh) with
            ⟨k, lower, upper, same⟩
          exact ⟨k, lower, by omega, same.trans (unread j high')⟩
      · have away : ∀ k, result.2.2 ≤ k → k < allocated - 1 →
            result.2.1 k ≠ mapping (read - 1) := by
          intro k low high same
          rcases inner.from_ k low high with ⟨j, low', high', same', -⟩
          rw [unread j high'] at same'
          exact below j low' high' (same'.symm.trans same)
        intro k k' low high low' high' same
        by_cases last : k = allocated - 1
        · by_cases last' : k' = allocated - 1
          · rw [last, last']
          · rw [last, top] at same
            exact absurd same.symm (away k' low' (by omega))
        · by_cases last' : k' = allocated - 1
          · rw [last', top] at same
            exact absurd same (away k low (by omega))
          · exact inner.inj k k' low (by omega) low' (by omega) same

end Domain

/-! ## The cut -/

/-- A mapping from which the interval of a lease is cut out. -/
structure Cut (table : Table) (removed : Lease) (spent : Nat → Bool) (mapping : Nat → Nat)
    (allocated : Nat) : Prop where
  bounds : allocated ≤ table.extent.allocated ∧ table.extent.allocated - removed.len ≤ allocated
  front : ∀ k, k < removed.start → mapping k = table.mapping k
  shifted : ∀ k, removed.start ≤ k → k < table.extent.mapped - removed.len →
    mapping k = table.mapping (k + removed.len)
  freed : ∀ k, allocated ≤ k → k < table.extent.allocated → ∃ j, removed.Has j ∧
    mapping k = table.mapping j ∧ spent (table.mapping j) = false
  onto : ∀ j, removed.Has j → spent (table.mapping j) = false →
    ∃ k, allocated ≤ k ∧ k < table.extent.allocated ∧ mapping k = table.mapping j
  inj : ∀ k k', allocated ≤ k → k < table.extent.allocated → allocated ≤ k' →
    k' < table.extent.allocated → mapping k = mapping k' → k = k'
  back : ∀ k, table.extent.allocated ≤ k → mapping k = table.mapping k

/-- The leases behind the removed one move up. -/
def Table.shifted (table : Table) (owner : Nat) (removed : Lease) : Nat → Option Lease :=
  update (fun other => (table.routes other).map fun lease =>
    if removed.start < lease.start then { lease with start := lease.start - removed.len }
    else lease) owner none

variable {o : Nat}

namespace Tiled

variable {accept : Nat} {table : Table} {state state' : Nat → SlotState} {spent : Nat → Bool}
  {owner : Nat} {removed : Lease} {mapping : Nat → Nat} {allocated : Nat}

section

variable (h : Tiled accept table state spent) (here : table.routes owner = some removed)

include h here

/-- Another lease lies on one side of the removed one. -/
theorem beside {lease : Lease} (there : table.routes o = some lease) (other : o ≠ owner) :
    lease.start + lease.len ≤ removed.start ∨ removed.start + removed.len ≤ lease.start := by
  have first := h.fits owner removed here
  have second := h.fits o lease there
  by_cases before : lease.start < removed.start
  · by_cases reach : lease.start + lease.len ≤ removed.start
    · exact .inl reach
    · exact absurd (h.apart o owner lease removed removed.start there here
        ⟨by omega, by omega⟩ ⟨by omega, by omega⟩) other
  · by_cases behind : removed.start + removed.len ≤ lease.start
    · exact .inr behind
    · exact absurd (h.apart o owner lease removed lease.start there here
        ⟨by omega, by omega⟩ ⟨by omega, by omega⟩) other

/-- The leases after the cut are the other ones, at the positions that they moved to. -/
theorem shifted_some {lease : Lease} (route : table.shifted owner removed o = some lease) :
    o ≠ owner ∧ ∃ old, table.routes o = some old ∧ (old.len = lease.len ∧
      old.state = lease.state) ∧
      (old.start + old.len ≤ removed.start ∧ lease.start = old.start ∨
        removed.start + removed.len ≤ old.start ∧ lease.start + removed.len = old.start) := by
  unfold Table.shifted at route
  by_cases mine : o = owner
  · rw [mine, update_self] at route
    cases route
  · rw [update_of_ne mine] at route
    refine ⟨mine, ?_⟩
    cases there : table.routes o with
    | none =>
      rw [there] at route
      cases route
    | some old =>
      rw [there] at route
      have same := Option.some.inj route
      dsimp only at same
      have positive := (h.fits o old there).1
      have removed_positive := (h.fits owner removed here).1
      rcases h.beside here there mine with low | high
      · rw [if_neg (by omega)] at same
        rw [← same]
        exact ⟨old, rfl, ⟨rfl, rfl⟩, .inl ⟨low, rfl⟩⟩
      · rw [if_pos (by omega)] at same
        rw [← same]
        refine ⟨old, rfl, ⟨rfl, rfl⟩, .inr ⟨high, ?_⟩⟩
        show old.start - removed.len + removed.len = old.start
        omega

theorem shifted_of {old : Lease} (there : table.routes o = some old) (mine : o ≠ owner) :
    ∃ lease, table.shifted owner removed o = some lease ∧ lease.len = old.len ∧
      (old.start + old.len ≤ removed.start ∧ lease.start = old.start ∨
        removed.start + removed.len ≤ old.start ∧ lease.start + removed.len = old.start) := by
  have found : table.shifted owner removed o = some (if removed.start < old.start then
      { old with start := old.start - removed.len } else old) := by
    unfold Table.shifted
    rw [update_of_ne mine, there]
    rfl
  rcases h.shifted_some here found with ⟨-, old', there', ⟨len, -⟩, moved⟩
  rw [there] at there'
  cases there'
  exact ⟨_, found, len.symm, moved⟩

/-- The value at a live position was at a live position before. -/
theorem cut_old (cut : Cut table removed spent mapping allocated) {k : Nat}
    (live : k < table.extent.mapped - removed.len ∨ allocated ≤ k ∧ k < table.capacity) :
    (k < table.extent.mapped - removed.len ∧ k < removed.start ∧ mapping k = table.mapping k) ∨
    (k < table.extent.mapped - removed.len ∧ removed.start ≤ k ∧
      mapping k = table.mapping (k + removed.len)) ∨
    (allocated ≤ k ∧ k < table.extent.allocated ∧ ∃ j, removed.Has j ∧
      mapping k = table.mapping j ∧ spent (table.mapping j) = false) ∨
    table.extent.allocated ≤ k ∧ k < table.capacity ∧ mapping k = table.mapping k := by
  have fits := h.fits owner removed here
  have order := h.order
  have bounds := cut.bounds
  by_cases front : k < removed.start
  · exact .inl ⟨by omega, front, cut.front k front⟩
  · by_cases lead : k < table.extent.mapped - removed.len
    · exact .inr (.inl ⟨lead, by omega, cut.shifted k (by omega) lead⟩)
    · by_cases freed : k < table.extent.allocated
      · exact .inr (.inr (.inl ⟨by omega, freed, cut.freed k (by omega) freed⟩))
      · exact .inr (.inr (.inr ⟨by omega, by omega, cut.back k (by omega)⟩))

theorem cut (cut : Cut table removed spent mapping allocated)
    (states : ∀ k, removed.Has k → state' (table.mapping k) = if spent (table.mapping k) then
      .standalone else .free)
    (others : ∀ i, (∀ k, removed.Has k → table.mapping k ≠ i) → state' i = state i) :
    Tiled accept { table with
      mapping
      routes := table.shifted owner removed
      extent := ⟨table.extent.mapped - removed.len, allocated⟩ } state' spent := by
  have fits := h.fits owner removed here
  have order := h.order
  have bounds := cut.bounds
  have held : ∀ j, removed.Has j → table.Live j := fun j has => (h.live_has here has).2
  -- a position outside the interval keeps the state of its slot
  have kept : ∀ k, table.Live k → ¬ removed.Has k →
      state' (table.mapping k) = state (table.mapping k) := by
    intro k live out
    refine others _ ?_
    intro j has same
    exact out (h.inj j k (held j has) live same ▸ has)
  constructor
  · show table.extent.mapped - removed.len ≤ allocated ∧ allocated ≤ table.capacity
    omega
  · intro k live
    show accept ≤ mapping k ∧ mapping k < accept + table.capacity
    rcases h.cut_old here cut live with ⟨lead, -, same⟩ | ⟨lead, -, same⟩ | ⟨-, -, j, has, same, -⟩ |
      ⟨low, high, same⟩
    · rw [same]
      exact h.inside k (.inl (by omega))
    · rw [same]
      exact h.inside _ (.inl (by omega))
    · rw [same]
      exact h.inside j (held j has)
    · rw [same]
      exact h.inside k (.inr ⟨low, high⟩)
  · intro k k' live live' equal
    change mapping k = mapping k' at equal
    rcases h.cut_old here cut live with ⟨lead, front, same⟩ | ⟨lead, front, same⟩ |
        ⟨low, high, j, has, same, -⟩ | ⟨low, high, same⟩ <;>
      rcases h.cut_old here cut live' with ⟨lead', front', same'⟩ | ⟨lead', front', same'⟩ |
        ⟨low', high', j', has', same', -⟩ | ⟨low', high', same'⟩
    case inr.inr.inl.inr.inr.inl => exact cut.inj k k' low high low' high' equal
    all_goals
      rw [same, same'] at equal
      first
      | have position := h.inj _ _ (held j has) (by unfold Table.Live; omega) equal
        unfold Lease.Has at has
        omega
      | have position := h.inj _ _ (by unfold Table.Live; omega) (held j' has') equal
        unfold Lease.Has at has'
        omega
      | have position := h.inj _ _ (by unfold Table.Live; omega)
          (by unfold Table.Live; omega) equal
        omega
  · intro o lease route
    rcases h.shifted_some here route with ⟨mine, old, there, ⟨len, -⟩, moved⟩
    have old_fits := h.fits o old there
    show 0 < lease.len ∧ lease.start + lease.len ≤ table.extent.mapped - removed.len
    omega
  · intro k lead
    change k < table.extent.mapped - removed.len at lead
    -- the position that the entry came from
    have source : ∃ j, j < table.extent.mapped ∧ ¬ removed.Has j ∧
        (j < removed.start ∧ k = j ∨ removed.start + removed.len ≤ j ∧ k + removed.len = j) := by
      unfold Lease.Has
      by_cases front : k < removed.start
      · exact ⟨k, by omega, by omega, .inl ⟨front, rfl⟩⟩
      · exact ⟨k + removed.len, by omega, by omega, .inr ⟨by omega, rfl⟩⟩
    rcases source with ⟨j, mapped, out, place⟩
    rcases h.tiles j mapped with ⟨o, old, there, has⟩
    have mine : o ≠ owner := by
      intro mine
      rw [mine, here] at there
      cases there
      exact out has
    rcases h.shifted_of here there mine with ⟨lease, route, len, moved⟩
    unfold Lease.Has at has
    refine ⟨o, lease, route, ?_⟩
    unfold Lease.Has
    omega
  · intro o o' lease lease' k route route' has has'
    rcases h.shifted_some here route with ⟨mine, old, there, ⟨len, -⟩, moved⟩
    rcases h.shifted_some here route' with ⟨mine', old', there', ⟨len', -⟩, moved'⟩
    unfold Lease.Has at has has'
    by_cases front : k < removed.start
    · exact h.apart o o' old old' k there there' ⟨by omega, by omega⟩ ⟨by omega, by omega⟩
    · exact h.apart o o' old old' (k + removed.len) there there' ⟨by omega, by omega⟩
        ⟨by omega, by omega⟩
  · intro o lease k route has
    rcases h.shifted_some here route with ⟨mine, old, there, ⟨len, -⟩, moved⟩
    have old_fits := h.fits o old there
    show ∃ phase, state' (mapping k) = .route phase o
    unfold Lease.Has at has
    rcases moved with ⟨low, start⟩ | ⟨high, start⟩
    · have has' : old.Has k := ⟨by omega, by omega⟩
      have out : ¬ removed.Has k := by
        unfold Lease.Has
        omega
      rw [cut.front k (by omega), kept k (h.live_has there has').2 out]
      exact h.owned o old k there has'
    · have has' : old.Has (k + removed.len) := ⟨by omega, by omega⟩
      have out : ¬ removed.Has (k + removed.len) := by
        unfold Lease.Has
        omega
      rw [cut.shifted k (by omega) (by omega), kept _ (h.live_has there has').2 out]
      exact h.owned o old _ there has'
  · intro k low high
    change allocated ≤ k at low
    change k < table.capacity at high
    show state' (mapping k) = .free ∧ spent (mapping k) = false
    by_cases freed : k < table.extent.allocated
    · rcases cut.freed k low freed with ⟨j, has, same, fresh⟩
      rw [same, states j has, fresh]
      exact ⟨rfl, rfl⟩
    · have behind : table.extent.allocated ≤ k := by omega
      have out : ¬ removed.Has k := by
        unfold Lease.Has
        omega
      rw [cut.back k behind, kept k (.inr ⟨behind, high⟩) out]
      exact h.free k behind high
  · intro i lower upper unnamed
    by_cases removed_slot : ∃ j, removed.Has j ∧ table.mapping j = i
    · rcases removed_slot with ⟨j, has, same⟩
      rw [← same, states j has]
      cases fresh : spent (table.mapping j) with
      | true => rfl
      | false =>
        rcases cut.onto j has fresh with ⟨k, low, high, there⟩
        refine absurd (there.trans same) (unnamed k (.inr ⟨low, ?_⟩))
        show k < table.capacity
        omega
    · rw [others i (fun k has same => removed_slot ⟨k, has, same⟩)]
      refine h.rest i lower upper ?_
      intro k live same
      have out : ¬ removed.Has k := fun has => removed_slot ⟨k, has, same⟩
      unfold Table.Live at live
      unfold Lease.Has at out
      by_cases front : k < removed.start
      · refine unnamed k (.inl ?_) ((cut.front k front).trans same)
        show k < table.extent.mapped - removed.len
        omega
      · by_cases mapped : k < table.extent.mapped
        · refine unnamed (k - removed.len) (.inl ?_) ?_
          · show k - removed.len < table.extent.mapped - removed.len
            omega
          · show mapping (k - removed.len) = i
            rw [cut.shifted _ (by omega) (by omega), Nat.sub_add_cancel (by omega)]
            exact same
        · refine unnamed k (.inr ⟨?_, ?_⟩) ((cut.back k (by omega)).trans same)
          · show allocated ≤ k
            omega
          · show k < table.capacity
            omega

/-- The local slots of the other routes name what they named. -/
theorem cut_slot (cut : Cut table removed spent mapping allocated) (other : o ≠ owner) (l : Nat) :
    ({ table with
      mapping
      routes := table.shifted owner removed
      extent := ⟨table.extent.mapped - removed.len, allocated⟩ } : Table).slot o l =
        table.slot o l := by
  have fits := h.fits owner removed here
  cases there : table.routes o with
  | none =>
    have gone : table.shifted owner removed o = none := by
      unfold Table.shifted
      rw [update_of_ne other, there]
      rfl
    unfold Table.slot
    rw [there]
    dsimp only
    rw [gone]
  | some old =>
    have old_fits := h.fits o old there
    rcases h.shifted_of here there other with ⟨lease, route, len, moved⟩
    have found : ({ table with
        mapping
        routes := table.shifted owner removed
        extent := ⟨table.extent.mapped - removed.len, allocated⟩ } : Table).slot o l =
          (lease.position l).map mapping := by
      unfold Table.slot
      dsimp only
      rw [route]
      rfl
    have was : table.slot o l = (old.position l).map table.mapping := by
      unfold Table.slot
      rw [there]
      rfl
    rw [found, was]
    unfold Lease.position
    by_cases fit : l < old.len
    · rw [if_pos fit, if_pos (by omega)]
      refine congrArg some ?_
      rcases moved with ⟨low, start⟩ | ⟨high, start⟩
      · rw [cut.front _ (by omega), start]
      · rw [cut.shifted _ (by omega) (by omega)]
        congr 1
        omega
    · rw [if_neg fit, if_neg (by omega)]
      rfl

end

end Tiled

/-! ## The domain -/

namespace Domain

variable {domain : Domain T} {owner : Nat} {removed : Lease}

/-- The reusable entries of a compacted interval are turned to the free end. -/
theorem Compacted.cut {accept : Nat} {table : Table} {state : Nat → SlotState} {store store' : Store T}
    {mapping : Nat → Nat} {allocated : Nat}
    (h : Tiled accept table state fun i => (store.entries i).exhausted)
    (here : table.routes owner = some removed)
    (compacted : Compacted store (Span.rotate table.mapping removed.start
      (removed.start + removed.len) table.extent.allocated) table.extent.allocated
      table.extent.allocated removed.len store' mapping allocated) :
    Cut table removed (fun i => (store.entries i).exhausted)
      (Span.reverse mapping allocated table.extent.allocated) allocated := by
  have fits := h.fits owner removed here
  have order := h.order
  have bounds := compacted.bounds
  -- the entries that the compaction read are those of the interval
  have read : ∀ j, table.extent.allocated - removed.len ≤ j → j < table.extent.allocated →
      removed.Has (j - (table.extent.allocated - (removed.start + removed.len))) ∧
        Span.rotate table.mapping removed.start (removed.start + removed.len)
          table.extent.allocated j =
            table.mapping (j - (table.extent.allocated - (removed.start + removed.len))) := by
    intro j low high
    refine ⟨?_, Span.rotate_second (by omega) (by omega) high⟩
    unfold Lease.Has
    omega
  constructor
  · exact bounds
  · intro k front
    rw [Span.reverse_out (by omega), compacted.kept k (by omega),
      Span.rotate_out (by omega) (by omega) (by omega)]
  · intro k low lead
    rw [Span.reverse_out (by omega), compacted.kept k (by omega),
      Span.rotate_first (by omega) (by omega) low (by omega)]
    congr 1
    omega
  · intro k low high
    rw [Span.reverse_apply, if_pos ⟨low, high⟩]
    rcases compacted.from_ (allocated + table.extent.allocated - 1 - k) (by omega) (by omega) with
      ⟨j, low', high', same, fresh⟩
    rcases read j low' high' with ⟨has, value⟩
    rw [value] at same fresh
    exact ⟨_, has, same, fresh⟩
  · intro j has fresh
    unfold Lease.Has at has
    have back := (read (j + (table.extent.allocated - (removed.start + removed.len)))
      (by omega) (by omega)).2
    rw [Nat.add_sub_cancel] at back
    rcases compacted.onto (j + (table.extent.allocated - (removed.start + removed.len)))
      (by omega) (by omega) (by rw [back]; exact fresh) with ⟨k, low, high, same⟩
    refine ⟨allocated + table.extent.allocated - 1 - k, by omega, by omega, ?_⟩
    rw [Span.reverse_apply, if_pos (by omega), ← back, ← same]
    congr 1
    omega
  · intro k k' low high low' high' equal
    rw [Span.reverse_apply, if_pos ⟨low, high⟩, Span.reverse_apply, if_pos ⟨low', high'⟩] at equal
    have := compacted.inj _ _ (by omega) (by omega) (by omega) (by omega) equal
    omega
  · intro k behind
    rw [Span.reverse_out (.inr behind), compacted.kept k (.inr behind),
      Span.rotate_out (by omega) (by omega) (.inr behind)]

/-- The slots of the domain and their mapping fit together. -/
def Tiles (domain : Domain T) : Prop :=
  Tiled domain.accept domain.outbound domain.state fun i => (domain.resident.entries i).exhausted

/-- What a reclaimed interval leaves behind. -/
structure Reclaims (domain : Domain T) (owner : Nat) (removed : Lease) (new : Domain T) :
    Prop where
  tiles : new.Tiles
  restated : Restated domain.resident new.resident
  accept : new.accept = domain.accept
  capacity : new.outbound.capacity = domain.outbound.capacity
  routes : new.outbound.routes = domain.outbound.shifted owner removed
  states : ∀ k, removed.Has k → new.state (domain.outbound.mapping k) =
    if (domain.resident.entries (domain.outbound.mapping k)).exhausted then .standalone else .free
  others : ∀ i, (∀ k, removed.Has k → domain.outbound.mapping k ≠ i) →
    new.resident.entries i = domain.resident.entries i
  slots : ∀ o l, o ≠ owner → new.outbound.slot o l = domain.outbound.slot o l

theorem reclaim_spec (h : domain.Tiles) (here : domain.outbound.routes owner = some removed) :
    Reclaims domain owner removed (domain.reclaim owner removed) := by
  have fits := Tiled.fits h owner removed here
  have order := Tiled.order h
  have read : ∀ j, domain.outbound.extent.allocated - removed.len ≤ j →
      j < domain.outbound.extent.allocated →
      removed.Has (j - (domain.outbound.extent.allocated - (removed.start + removed.len))) ∧
        Span.rotate domain.outbound.mapping removed.start (removed.start + removed.len)
          domain.outbound.extent.allocated j = domain.outbound.mapping
            (j - (domain.outbound.extent.allocated - (removed.start + removed.len))) := by
    intro j low high
    refine ⟨?_, Span.rotate_second (by omega) (by omega) high⟩
    unfold Lease.Has
    omega
  have compacted := compact_spec domain.resident
    (Span.rotate domain.outbound.mapping removed.start (removed.start + removed.len)
      domain.outbound.extent.allocated) domain.outbound.extent.allocated
    domain.outbound.extent.allocated removed.len (by omega)
    (Nat.le_refl _) (by
      intro j k low high low' high' same
      rcases read j low high with ⟨has, value⟩
      rcases read k low' high' with ⟨has', value'⟩
      rw [value, value'] at same
      have := Tiled.inj h _ _ (Tiled.live_has h here has).2 (Tiled.live_has h here has').2 same
      omega)
  unfold reclaim
  dsimp only
  generalize compact domain.resident _ _ _ _ = result at compacted ⊢
  have cut := compacted.cut h here
  have back : ∀ k, removed.Has k → Span.rotate domain.outbound.mapping removed.start
      (removed.start + removed.len) domain.outbound.extent.allocated
        (k + (domain.outbound.extent.allocated - (removed.start + removed.len))) =
          domain.outbound.mapping k := by
    intro k has
    unfold Lease.Has at has
    have value := (read (k + (domain.outbound.extent.allocated - (removed.start + removed.len)))
      (by omega) (by omega)).2
    rw [Nat.add_sub_cancel] at value
    exact value
  have states : ∀ k, removed.Has k → (result.1.entries (domain.outbound.mapping k)).state =
      if (domain.resident.entries (domain.outbound.mapping k)).exhausted then .standalone
      else .free := by
    intro k has
    have state := compacted.states
      (k + (domain.outbound.extent.allocated - (removed.start + removed.len)))
      (by have := has.1; have := has.2; omega) (by have := has.1; have := has.2; omega)
    rw [back k has] at state
    exact state
  have others : ∀ i, (∀ k, removed.Has k → domain.outbound.mapping k ≠ i) →
      result.1.entries i = domain.resident.entries i := by
    intro i unnamed
    refine compacted.others i ?_
    intro j low high
    rcases read j low high with ⟨has, value⟩
    rw [value]
    exact unnamed _ has
  have tiled := Tiled.cut h here cut states
    (fun i unnamed => congrArg Entry.state (others i unnamed))
  have spent : (fun i => (result.1.entries i).exhausted) =
      fun i => (domain.resident.entries i).exhausted := funext compacted.restated.exhausted
  constructor
  · show Tiled _ _ _ fun i => (result.1.entries i).exhausted
    rw [spent]
    exact tiled
  · exact compacted.restated
  · rfl
  · rfl
  · rfl
  · exact states
  · exact others
  · intro o l other
    exact h.cut_slot here cut other l

end Domain

end Dope.Core.Fd
