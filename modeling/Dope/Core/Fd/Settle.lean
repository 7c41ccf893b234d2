import Dope.Core.Fd.Slots

/-! # Settling a route

The slots of a route that is given up settle one by one, and the last one takes the
interval of the route with it.
-/

namespace Dope.Core.Fd

open Function

variable {T : Type}

/-! ## Lookups -/

theorem Table.slot_restamp (table : Table) {owner : Nat} {lease : Lease} (state : State)
    (here : table.routes owner = some lease) :
    ({ table with
      routes := update table.routes owner (some { lease with state }) } : Table).slot =
        table.slot := by
  funext o l
  unfold Table.slot
  by_cases mine : o = owner
  · subst mine
    dsimp only
    rw [update_self, here]
    rfl
  · dsimp only
    rw [update_of_ne mine]
    rfl

namespace Domain

variable {domain domain' : Domain T} {owner : Nat} {lease lease' : Lease}

/-- The unsettled slots of a route, by their local names. -/
theorem unsettled_eq : domain.unsettled owner lease = (List.range lease.len).countP fun l =>
    !(domain.state (domain.outbound.mapping (lease.start + l))).isState .mapped owner := by
  unfold unsettled
  rw [List.range'_eq_map_range, List.countP_map]
  rfl

/-- A route whose slots are the same, in the same states, has the same to settle. -/
theorem unsettled_congr (len : lease'.len = lease.len)
    (slots : ∀ l, l < lease.len → domain'.outbound.mapping (lease'.start + l) =
      domain.outbound.mapping (lease.start + l))
    (states : ∀ l, l < lease.len →
      (domain'.state (domain.outbound.mapping (lease.start + l))).isState .mapped owner =
        (domain.state (domain.outbound.mapping (lease.start + l))).isState .mapped owner) :
    domain'.unsettled owner lease' = domain.unsettled owner lease := by
  rw [unsettled_eq, unsettled_eq, len]
  refine List.countP_congr ?_
  intro l mem
  have fit := List.mem_range.mp mem
  rw [slots l fit, states l fit]

theorem unsettled_zero (none : domain.unsettled owner lease = 0) {k : Nat} (has : lease.Has k) :
    domain.state (domain.outbound.mapping k) = .route .mapped owner := by
  have here := Span.countP_zero.mp none k has.1 has.2
  unfold SlotState.isState at here
  simpa using here

/-- The other routes count their unsettled slots. -/
def CountedBut (domain : Domain T) (owner : Nat) : Prop :=
  ∀ o lease remaining, o ≠ owner → domain.outbound.routes o = some lease →
    lease.state = .retired remaining →
      remaining = domain.unsettled o lease ∧ 0 < remaining

theorem Counted.but (h : domain.Counted) (owner : Nat) : domain.CountedBut owner :=
  fun o lease remaining _ => h o lease remaining

/-- What follows when a slot has settled. -/
def settled (domain : Domain T) (owner : Nat) : Domain T :=
  match domain.outbound.routes owner with
  | none => domain
  | some lease =>
      match lease.state with
      | .live => domain
      | .retired remaining =>
          if remaining - 1 = 0 then domain.reclaim owner lease
          else { domain with outbound := { domain.outbound with
            routes := update domain.outbound.routes owner
              (some { lease with state := .retired (remaining - 1) }) } }

theorem releaseSlot_eq (domain : Domain T) (slot owner : Nat) :
    domain.releaseSlot slot owner =
      (domain.setState slot (.route .mapped owner)).settled owner := rfl

/-- What a step makes of the lease of a route: it keeps its slots, it is new, or it is
taken away when no slot or one slot of it was not settled. -/
inductive Follows (domain domain' : Domain T) (o : Nat) : Prop where
  | kept : (∀ l, domain'.outbound.slot o l = domain.outbound.slot o l) →
      (domain'.outbound.routes o = none ↔ domain.outbound.routes o = none) →
      Follows domain domain' o
  | assigned : domain.outbound.routes o = none →
      (∃ lease, domain'.outbound.routes o = some lease ∧ lease.state = .live) →
      Follows domain domain' o
  | reclaimed (lease : Lease) : domain.outbound.routes o = some lease →
      domain'.outbound.routes o = none →
      (lease.state = .live ∧ domain.unsettled o lease = 0 ∨
        lease.state = .retired 1 ∧ domain.unsettled o lease = 1) →
      (∀ l i, domain.outbound.slot o l = some i →
        domain'.state i = .free ∨ domain'.state i = .standalone) →
      Follows domain domain' o

theorem follows_of_eq (same : domain'.outbound = domain.outbound) (o : Nat) :
    Follows domain domain' o := by
  refine .kept ?_ ?_
  · intro l
    rw [same]
  · rw [same]

end Domain

/-! ## Stores -/

theorem Store.Good.restated {store store' : Store T} (h : store.Good)
    (restated : Restated store store')
    (fresh : ∀ i, store.capacity ≤ i → store'.entries i = store.entries i) : store'.Good := by
  have linked : ∀ i, (store'.entries i).linked = (store.entries i).linked ∧
      (store'.entries i).next? = (store.entries i).next? ∧
      (store'.entries i).inflight = (store.entries i).inflight := by
    intro i
    rcases restated.entries i with ⟨state, same⟩
    rw [same]
    exact ⟨rfl, rfl, rfl⟩
  rcases h.lines with ⟨line, lines⟩
  refine ⟨⟨line, ?_⟩, ?_, ?_, ?_⟩
  · constructor
    · intro side
      rw [restated.pending]
      exact (lines.chain side).congr fun i _ => (linked i).2.1
    · exact lines.nodup
    · exact lines.apart
    · intro i
      rw [(linked i).1]
      exact lines.mem i
    · rw [restated.pending]
      exact lines.idle
    · rw [restated.pending]
      exact lines.drain
  · rw [restated.inflight, h.flights]
    unfold Store.flights
    rw [restated.capacity]
    exact List.countP_congr fun i _ => by rw [(linked i).2.2]
  · rw [restated.capacity]
    intro i out
    rw [fresh i out]
    exact h.fresh i out
  · rw [restated.capacity]
    exact h.bounded

namespace World

variable {layout : Layout} {world world' : World T} {owner i : Nat} {lease : Lease}

/-! ## Leases -/

section

variable (h : world.Base layout) (here : world.domain.outbound.routes owner = some lease)

include h here

theorem Base.restamp (state : State) : Base layout { world with
      domain := { world.domain with
        outbound := { world.domain.outbound with
          routes := update world.domain.outbound.routes owner
            (some { lease with state }) } } } := by
  have slots := Table.slot_restamp world.domain.outbound state here
  refine h.turn (fun _ => False) ⟨rfl, rfl, rfl, rfl, fun _ _ => rfl, fun _ _ => rfl,
    fun _ _ => rfl, fun _ _ => rfl, ?_, fun _ _ => Iff.rfl, fun _ => id⟩ h.good ?_ h.nodup
    nofun nofun
  · intro o l i _
    dsimp only
    rw [slots]
  · refine Tiled.relabel h.tiles _ ?_ (fun _ => .inl rfl) (fun _ _ _ => rfl)
    intro o
    by_cases mine : o = owner
    · subst mine
      rw [update_self, here]
      rfl
    · rw [update_of_ne mine]

theorem Base.reclaim
    (settled : ∀ k, lease.Has k → world.domain.state (world.domain.outbound.mapping k) = .route
      .mapped owner) : Base layout { world with domain := world.domain.reclaim owner lease } := by
  have spec := Domain.reclaim_spec h.tiles here
  have named : ∀ k, lease.Has k → layout.accept ≤ world.domain.outbound.mapping k ∧
      world.domain.outbound.mapping k < world.domain.resident.capacity := by
    intro k has
    have inside := Tiled.inside h.tiles k (Tiled.live_has h.tiles here has).2
    rw [h.capacity, ← h.room, ← h.accept]
    exact inside
  refine h.turn (fun i => ∃ k, lease.Has k ∧ world.domain.outbound.mapping k = i)
    ⟨spec.accept, spec.capacity, spec.restated.capacity, spec.restated.last, ?_, fun _ _ => rfl,
      fun _ _ => rfl, fun _ _ => rfl, ?_, fun _ _ => Iff.rfl, fun _ => id⟩ ?_ spec.tiles h.nodup
    ?_ ?_
  · intro i out
    exact spec.others i fun k has same => out ⟨k, has, same⟩
  · intro o l i out
    by_cases mine : o = owner
    · subst mine
      refine iff_of_false ?_ ?_
      · intro found
        rcases Tiled.slot_some found with ⟨lease', route, -, -⟩
        rw [show (world.domain.reclaim o lease).outbound.routes = _ from spec.routes] at route
        unfold Table.shifted at route
        rw [update_self] at route
        cases route
      · intro found
        rcases Tiled.slot_some found with ⟨lease', route, fit, same⟩
        rw [here] at route
        cases route
        exact out ⟨lease.start + l, ⟨by omega, by omega⟩, same⟩
    · rw [spec.slots o l mine]
  · refine h.good.restated spec.restated ?_
    intro i far
    refine spec.others i ?_
    intro k has same
    have := (named k has).2
    omega
  · intro i changed
    rcases changed with ⟨k, has, same⟩
    have low := (named k has).1
    rw [same] at low
    have was := h.held i
    have idle := (was.placed low).1
    have state := settled k has
    unfold Entry.Placed at idle
    rw [same] at state
    rw [show (world.entries i).state = _ from state] at idle
    have after := spec.states k has
    rw [same] at after
    rcases spec.restated.entries i with ⟨new, entry⟩
    dsimp only
    rw [entry]
    refine ⟨was.sound.setState new, fun inside => absurd low (Nat.not_le.mpr inside), ?_,
      was.counts, was.targets⟩
    intro _
    refine ⟨?_, (was.placed low).2⟩
    have there : new = if (world.entries i).exhausted then .standalone
        else .free := by
      rw [← after]
      unfold Domain.state
      rw [entry]
      rfl
    cases spent : (world.entries i).exhausted with
    | true =>
      rw [spent] at there
      rw [there]
      exact .inl ⟨idle.1, idle.2.2, .inr spent⟩
    | false =>
      rw [spent] at there
      rw [there]
      exact idle
  · intro token changed
    rcases changed with ⟨k, has, same⟩
    have low := (named k has).1
    rw [same] at low
    have idle := ((h.held token.slot).placed low).1
    have state := settled k has
    rw [same] at state
    unfold Entry.Placed at idle
    rw [show (world.entries token.slot).state = _ from state] at idle
    have after := spec.states k has
    rw [same] at after
    rcases spec.restated.entries token.slot with ⟨new, entry⟩
    show token ∈ world.tokens ↔ _
    rw [h.owned token]
    dsimp only
    unfold Domain.state at after state
    rw [entry] at after ⊢
    rw [show Entry.state (Entry.setState _ new) = new from rfl] at after
    refine iff_of_false ?_ ?_
    · unfold Entry.Owns Entry.Lends
      rw [state, idle.2.2]
      simp
    · unfold Entry.Owns Entry.Lends Entry.setState
      dsimp only
      rw [after, idle.2.1, idle.2.2]
      split <;> grind

/-! ## Counts -/

/-- A reclaimed lease leaves the counts of the others alone. -/
theorem Base.reclaim_counted (counted : world.domain.CountedBut owner) :
    (world.domain.reclaim owner lease).Counted := by
  have spec := Domain.reclaim_spec h.tiles here
  intro o after remaining route retired
  have shifted := spec.routes ▸ route
  rcases Tiled.shifted_some h.tiles here shifted with ⟨mine, old, there, ⟨len, same⟩, -⟩
  have was := counted o old remaining mine there (same.trans retired)
  refine ⟨was.1.trans ?_, was.2⟩
  have slot : ∀ l, l < old.len → (world.domain.reclaim owner lease).outbound.mapping
      (after.start + l) = world.domain.outbound.mapping (old.start + l) := by
    intro l fit
    have equal := spec.slots o l mine
    rw [Tiled.slot_eq there fit, Tiled.slot_eq route (by omega)] at equal
    exact Option.some.inj equal
  refine (Domain.unsettled_congr len.symm slot ?_).symm
  intro l fit
  have has : old.Has (old.start + l) := ⟨by omega, by omega⟩
  have kept := spec.others (world.domain.outbound.mapping (old.start + l)) (by
    intro k has' equal
    have position := Tiled.inj h.tiles _ _ (Tiled.live_has h.tiles here has').2
      (Tiled.live_has h.tiles there has).2 equal
    rw [position] at has'
    exact mine (Tiled.apart h.tiles o owner old lease _ there here has has'))
  unfold Domain.state
  rw [kept]

end

theorem Base.restamp_counted (here : world.domain.outbound.routes owner = some lease)
    (counted : world.domain.CountedBut owner) {remaining : Nat}
    (same : remaining = world.domain.unsettled owner lease) (some_ : 0 < remaining) :
    Domain.Counted { world.domain with
      outbound := { world.domain.outbound with
        routes := update world.domain.outbound.routes owner
          (some { lease with state := .retired remaining }) } } := by
  intro o after count route retired
  dsimp only at route
  by_cases mine : o = owner
  · subst mine
    rw [update_self] at route
    cases route
    cases retired
    exact ⟨same, some_⟩
  · rw [update_of_ne mine] at route
    exact counted o after count mine route retired

theorem Base.reclaim_follows (h : world.Base layout) {before : Domain T}
    (same : world.domain.outbound = before.outbound)
    (here : world.domain.outbound.routes owner = some lease)
    (last : lease.state = .live ∧ before.unsettled owner lease = 0 ∨
      lease.state = .retired 1 ∧ before.unsettled owner lease = 1) (o : Nat) :
    Domain.Follows before (world.domain.reclaim owner lease) o := by
  have spec := Domain.reclaim_spec h.tiles here
  by_cases mine : o = owner
  · subst mine
    refine .reclaimed lease (same ▸ here) ?_ last ?_
    · rw [spec.routes]
      exact update_self ..
    · intro l i found
      rw [← same] at found
      rcases Tiled.slot_some found with ⟨lease', route, fit, position⟩
      rw [here] at route
      cases route
      have state := spec.states (lease.start + l) ⟨by omega, by omega⟩
      rw [position] at state
      rw [state]
      split
      · exact .inr rfl
      · exact .inl rfl
  · refine .kept ?_ ?_
    · intro l
      rw [spec.slots o l mine, same]
    · rw [spec.routes, ← same]
      unfold Table.shifted
      rw [update_of_ne mine, Option.map_eq_none_iff]

/-- A slot of a route has settled, which its count does not say yet. -/
theorem Base.settled (h : world.Base layout) {before : Domain T}
    (same : world.domain.outbound = before.outbound) (counted : before.Counted)
    (others : ∀ o lease, o ≠ owner → world.domain.outbound.routes o = some lease →
      world.domain.unsettled o lease = before.unsettled o lease)
    (one : ∀ lease, world.domain.outbound.routes owner = some lease →
      before.unsettled owner lease = world.domain.unsettled owner lease + 1) :
    Inv layout { world with domain := world.domain.settled owner } ∧
      ∀ o, Domain.Follows before (world.domain.settled owner) o := by
  have but : world.domain.CountedBut owner := by
    intro o lease remaining mine route retired
    rw [others o lease mine route]
    exact counted o lease remaining (same ▸ route) retired
  -- without a retired lease nothing follows
  have stays : (∀ lease remaining, world.domain.outbound.routes owner = some lease →
      lease.state ≠ .retired remaining) → Inv layout world ∧
        ∀ o, Domain.Follows before world.domain o := by
    intro none
    refine ⟨⟨h, ?_⟩, Domain.follows_of_eq same⟩
    intro o lease remaining route retired
    by_cases mine : o = owner
    · subst mine
      exact absurd retired (none lease remaining route)
    · exact but o lease remaining mine route retired
  unfold Domain.settled
  cases here : world.domain.outbound.routes owner with
  | none =>
    refine stays ?_
    intro lease remaining route
    rw [here] at route
    cases route
  | some lease =>
    dsimp only
    cases state : lease.state with
    | live =>
      refine stays ?_
      intro lease' remaining route retired
      rw [here] at route
      cases route
      rw [state] at retired
      cases retired
    | retired remaining =>
      have count := counted owner lease remaining (same ▸ here) state
      have more := one lease here
      by_cases gone : remaining - 1 = 0
      · dsimp only
        rw [if_pos gone]
        have none : world.domain.unsettled owner lease = 0 := by omega
        refine ⟨⟨h.reclaim here fun k has => Domain.unsettled_zero none has,
          h.reclaim_counted here but⟩, ?_⟩
        refine h.reclaim_follows same here (.inr ⟨?_, by omega⟩)
        rw [state]
        congr 1
        omega
      · dsimp only
        rw [if_neg gone]
        refine ⟨⟨h.restamp here _, Base.restamp_counted here but (by omega) (by omega)⟩, ?_⟩
        intro o
        refine .kept ?_ ?_
        · intro l
          dsimp only
          rw [Table.slot_restamp _ _ here, same]
        · dsimp only
          by_cases mine : o = owner
          · subst mine
            rw [update_self, ← same, here]
            simp
          · rw [update_of_ne mine, same]

/-! ## Moves of a slot -/

section
variable {before after : SlotPhase} {entry : Entry T} {gone new : List Token}

theorem Resets.state (move : Resets layout world world' i owner before after entry gone new)
    (j : Nat) : world'.domain.state j =
      if j = i then .route after owner else (world.entries j).state := by
  unfold Domain.state
  rw [move.alters.entries, update_apply]
  split
  · exact move.there
  · rfl

theorem Inv.reset (h : world.Inv layout)
    (move : Resets layout world world' i owner before after entry gone new)
    (moves : before ≠ .mapped ∧ after ≠ .mapped) : world'.Inv layout := by
  refine ⟨h.toBase.reset move, ?_⟩
  intro o lease remaining route retired
  rw [move.outbound] at route
  have was := h.counted o lease remaining route retired
  refine ⟨was.1.trans ?_, was.2⟩
  symm
  refine Domain.unsettled_congr rfl (fun _ _ => by rw [move.outbound]) ?_
  intro l _
  rw [move.state]
  split
  · next same =>
      rw [same, show world.domain.state i = _ from move.here]
      unfold SlotState.isState
      simp [moves]
  · rfl

theorem Inv.resettle (h : world.Inv layout)
    (move : Resets layout world world' i owner before .mapped entry gone new)
    (moves : before ≠ .mapped) :
    Inv layout { world' with domain := world'.domain.settled owner } ∧
      ∀ o, Domain.Follows world.domain (world'.domain.settled owner) o := by
  have out := (h.out_of_state (i := i) (by rw [move.here]; nofun))
  have named := Tiled.slot_of_state h.tiles (i := i) (by rw [h.accept]; exact out.1)
    (by rw [h.accept, h.room, ← h.capacity]; exact out.2) move.here
  rcases named with ⟨l, named⟩
  rcases Tiled.slot_some named with ⟨lease, here, fit, position⟩
  have has : lease.Has (lease.start + l) := ⟨by omega, by omega⟩
  refine (h.toBase.reset move).settled move.outbound h.counted ?_ ?_
  · intro o lease' mine route
    refine Domain.unsettled_congr rfl (fun _ _ => by rw [move.outbound]) ?_
    intro k fit'
    rw [move.outbound] at route
    have apart : world.domain.outbound.mapping (lease'.start + k) ≠ i := by
      intro same
      have equal := (Tiled.slot_eq route fit').trans (congrArg some same)
      exact mine (Tiled.slot_inj h.tiles equal named).1
    rw [move.state, if_neg apart]
    rfl
  · intro lease' route
    rw [move.outbound, here] at route
    cases route
    have count := @Span.countP_update
      (fun k => !(world.domain.state (world.domain.outbound.mapping k)).isState .mapped owner)
      (fun k => !(world'.domain.state (world.domain.outbound.mapping k)).isState .mapped owner)
      lease.start lease.len (lease.start + l) (by omega) (by omega) (by
        intro k low high apart
        have other : world.domain.outbound.mapping k ≠ i := by
          intro same
          exact apart (Tiled.inj h.tiles _ _ (Tiled.live_has h.tiles here ⟨low, high⟩).2
            (Tiled.live_has h.tiles here has).2 (same.trans position.symm))
        rw [move.state, if_neg other]
        rfl)
    rw [position, move.state, if_pos rfl] at count
    have was : (world.domain.state i).isState .mapped owner = false := by
      unfold SlotState.isState
      rw [show world.domain.state i = _ from move.here]
      simp [moves]
    have is_ : (SlotState.route .mapped owner).isState .mapped owner = true := by
      unfold SlotState.isState
      simp
    rw [was, is_] at count
    simp only [Bool.not_false, Bool.not_true, Bool.toNat_true, Bool.toNat_false] at count
    have table : world'.domain.unsettled owner lease = (List.range' lease.start lease.len).countP
        fun k => !(world'.domain.state (world.domain.outbound.mapping k)).isState .mapped owner := by
      unfold Domain.unsettled
      rw [move.outbound]
    rw [table]
    exact count.symm

end

end World

end Dope.Core.Fd
