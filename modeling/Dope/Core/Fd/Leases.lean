import Dope.Core.Fd.Steps

/-! # Steps of the table

Leases of routes and single slots are taken from the free end of the mapping and
given back to it.
-/

namespace Dope.Core.Fd

open Function

variable {T : Type}

namespace World

variable {layout : Layout} {world world' : World T} {i owner index generation : Nat}

/-! ## Standalone slots -/

theorem Inv.reserve (h : world.Inv layout) :
    ∃ out world', world.step .reserve = .ok (out, world') ∧ Keeps layout world world' := by
  unfold step Domain.tryReserve
  dsimp only
  by_cases room : world.domain.outbound.extent.allocated < world.domain.outbound.capacity
  · rw [if_pos room]
    refine ⟨_, _, rfl, ?_⟩
    have live : world.domain.outbound.Live world.domain.outbound.extent.allocated :=
      .inr ⟨Nat.le_refl _, room⟩
    have inside := Tiled.inside h.tiles _ live
    have free := Tiled.free h.tiles _ (Nat.le_refl _) room
    have low : layout.accept ≤ world.domain.outbound.mapping world.domain.outbound.extent.allocated :=
      h.accept ▸ inside.1
    have high : world.domain.outbound.mapping world.domain.outbound.extent.allocated <
        world.domain.resident.capacity := by
      rw [h.capacity, ← h.accept, ← h.room]
      exact inside.2
    generalize index_eq : world.domain.outbound.mapping world.domain.outbound.extent.allocated = i
      at inside free low high
    have was := h.held i
    have here : (world.entries i).state = .free := free.1
    have placed := (was.placed low).1
    unfold Entry.Placed at placed
    rw [here] at placed
    have others : ∀ j, j ≠ i → (world.domain.resident.claim i .standalone).2.entries j =
        world.entries j := fun j apart => update_of_ne apart ..
    have mine : (world.domain.resident.claim i .standalone).2.entries i =
        (world.entries i).claim.setState .standalone := update_self ..
    have unlinked : (world.entries i).linked = false := by
      unfold Entry.linked
      simp [placed.1]
    have trade : Trade world { world with
        tokens := .solo i (world.entries i).generation :: world.tokens } i []
        [.solo i (world.entries i).generation] :=
      ⟨rfl, by simp [Token.slot], by simp⟩
    have unowned : ∀ token, ¬ (world.entries i).Owns layout.accept world.slot i token := by
      intro token owns
      unfold Entry.Owns Entry.Lends at owns
      rw [here, placed.2.1, placed.2.2] at owns
      simp at owns
    refine ⟨⟨?_, ?_⟩, fun o => .kept (fun _ => rfl) Iff.rfl⟩
    · refine h.toBase.turn (· = i) ⟨rfl, rfl, rfl, rfl, others, fun _ _ => rfl, fun _ _ => rfl,
        fun _ _ => rfl, fun _ _ _ _ => Iff.rfl, fun token out => trade.others h.nodup out,
        fun _ => id⟩ ?_ ?_ (trade.once h.nodup ?_) ?_ ?_
      · refine h.good.put high ?_ (by rintro ⟨⟩) rfl
        exact Eq.symm unlinked
      · refine Tiled.reserve h.tiles room ?_ ?_ ?_
        · rw [index_eq]
          exact congrArg Entry.state mine
        · intro j apart
          exact congrArg Entry.state (others j (index_eq ▸ apart))
        · intro j apart
          exact congrArg Entry.exhausted (others j (index_eq ▸ apart))
      · intro token mem old
        rw [List.mem_singleton.mp mem, h.owned] at old
        exact unowned _ old
      · intro j same
        subst same
        dsimp only
        rw [mine]
        refine ⟨(was.sound.claim free.2).setState _, fun no => absurd low (Nat.not_le.mpr no), ?_,
          was.counts, fun _ _ => Entry.backed_clear rfl⟩
        exact fun _ => ⟨.inl ⟨rfl, placed.2.2, .inl rfl⟩, (was.placed low).2⟩
      · intro token same
        have old := unowned token
        refine (trade.mem h.nodup token).trans ?_
        rw [h.owned, same]
        dsimp only
        rw [mine]
        unfold Entry.Owns Entry.Lends at old ⊢
        simp [Entry.claim, Entry.setState, placed.2.2]
        grind
    · intro o lease remaining route retired
      have count := h.counted o lease remaining route retired
      refine ⟨count.1.trans ?_, count.2⟩
      symm
      refine Domain.unsettled_congr rfl (fun _ _ => rfl) ?_
      intro l _
      unfold Domain.state
      by_cases same : world.domain.outbound.mapping (lease.start + l) = i
      · dsimp only
        rw [same, mine, here]
        rfl
      · dsimp only
        rw [others _ same]
  · rw [if_neg room]
    cases world.domain.hasRetiring with
    | true | false => exact ⟨_, _, rfl, h, Domain.follows_of_eq rfl⟩

theorem Inv.freed (h : world.Inv layout) (entry : Entry T) (gone : List Token)
    (alters : Alters world world' i entry) (trade : Trade world world' i gone [])
    (here : (world.entries i).state = .standalone)
    (outbound : world'.domain.outbound = { world.domain.outbound with
      mapping := update world.domain.outbound.mapping
        (world.domain.outbound.extent.allocated - 1) i
      extent := ⟨world.domain.outbound.extent.mapped,
        world.domain.outbound.extent.allocated - 1⟩ })
    (good : world'.domain.resident.Good) (there : entry.state = .free)
    (fresh : entry.exhausted = false)
    (held : Held layout.accept layout.last i entry (world'.native i) (world'.submits i)
      (world'.consumes i) world'.published)
    (owned : ∀ token, ¬ entry.Owns layout.accept world.slot i token ∧
      ((world.entries i).Owns layout.accept world.slot i token →
        token ∈ gone)) : Keeps layout world world' := by
  have out := h.out_of_state (i := i) (by rw [here]; nofun)
  have low : world.domain.accept ≤ i := h.accept ▸ out.1
  have high : i < world.domain.accept + world.domain.outbound.capacity := by
    rw [h.accept, h.room, ← h.capacity]
    exact out.2
  have mine : world'.domain.resident.entries i = entry := by
    rw [alters.entries, update_self]
  have others : ∀ j, j ≠ i → world'.domain.resident.entries j = world.entries j := by
    intro j apart
    rw [alters.entries, update_of_ne apart]
  have room := (Tiled.standalone h.tiles low high here).2
  -- the position that changes is behind every lease
  have kept : ∀ o lease l, world.domain.outbound.routes o = some lease → l < lease.len →
      update world.domain.outbound.mapping (world.domain.outbound.extent.allocated - 1) i
        (lease.start + l) = world.domain.outbound.mapping (lease.start + l) := by
    intro o lease l route fit
    have has := (Tiled.live_has h.tiles (k := lease.start + l) route ⟨by omega, by omega⟩).1
    exact update_of_ne (by omega) ..
  have slots : world'.domain.outbound.slot = world.domain.outbound.slot := by
    rw [outbound]
    funext o l
    unfold Table.slot
    dsimp only
    cases route : world.domain.outbound.routes o with
    | none => rfl
    | some lease =>
      dsimp only
      unfold Table.get Lease.position
      by_cases fit : l < lease.len
      · rw [if_pos fit]
        exact congrArg some (kept o lease l route fit)
      · rw [if_neg fit]
        rfl
  refine ⟨⟨?_, ?_⟩, fun o => .kept (fun l => by rw [slots]) (by rw [outbound])⟩
  · refine h.toBase.turn (· = i) ⟨alters.accept, by rw [outbound], alters.capacity, alters.last,
      others, alters.native, alters.submits, alters.consumes, fun _ _ _ _ => by rw [slots],
      fun token out => trade.others h.nodup out, alters.published⟩ good ?_
      (trade.once h.nodup nofun) ?_ ?_
    · unfold Domain.Tiles
      rw [outbound, alters.accept]
      refine Tiled.release h.tiles low high here ?_ ?_ ?_
      · unfold Domain.state
        rw [mine]
        exact ⟨there, fresh⟩
      · intro j apart
        unfold Domain.state
        rw [others j apart]
      · intro j apart
        rw [others j apart]
    · intro j same
      rw [same, mine]
      exact held
    · intro token same
      have mem := owned token
      rw [trade.mem h.nodup, h.owned, same, mine, slots]
      grind
  · intro o lease remaining route retired
    rw [outbound] at route
    have count := h.counted o lease remaining route retired
    refine ⟨count.1.trans ?_, count.2⟩
    symm
    refine Domain.unsettled_congr rfl ?_ ?_
    · intro l fit
      rw [outbound]
      exact kept o lease l route fit
    · intro l _
      unfold Domain.state
      by_cases same : world.domain.outbound.mapping (lease.start + l) = i
      · rw [same, mine, here, there]
        rfl
      · rw [others _ same]

theorem Inv.release (h : world.Inv layout) (mem : .solo i generation ∈ world.tokens) :
    ∃ out world', world.step (.release i generation) = .ok (out, world') ∧
      Keeps layout world world' := by
  rcases h.solo_mem mem with ⟨here, leased, version⟩
  have out := h.out_of_state (i := i) (by rw [here]; simp)
  have was := h.held i
  have placed := (was.placed out.1).1
  unfold Entry.Placed at placed
  rw [here, Entry.PlacedIn] at placed
  have facts : (world.entries i).phase = .ready ∧ (world.entries i).inflight = false := by
    rw [leased] at placed
    grind
  have unlinked : (world.entries i).linked = false := by
    unfold Entry.linked
    simp [facts.1]
  have room := (Tiled.standalone h.tiles (i := i) (h.accept ▸ out.1)
    (by rw [h.accept, h.room, ← h.capacity]; exact out.2) here).2
  unfold step Domain.releaseReserved Domain.releaseOne
  dsimp only
  rw [if_neg (by omega)]
  refine ⟨_, _, rfl, ?_⟩
  have store : (world.domain.resident.releaseCancel i).setState i .free = world.domain.resident.put
      i (((world.entries i).setStatus .ready false).setState .free) := by
    unfold Store.releaseCancel Store.setState
    rw [Store.put_put, Store.put_entries, update_self]
  rw [store]
  refine h.freed (((world.entries i).setStatus .ready false).setState .free)
    [.solo i generation] ⟨rfl, rfl, rfl, rfl, fun _ _ => rfl, fun _ _ => rfl, fun _ _ => rfl,
      fun _ => id⟩ ⟨rfl, by simp [Token.slot], by simp⟩ here rfl
    (h.good.put out.2 ?_ (by rintro ⟨⟩) rfl) rfl (was.sound.leased leased) ?_ ?_
  · rw [unlinked]
    rfl
  · refine ⟨(was.sound.rest false (by simp) (.inl rfl)).setState _,
      fun no => absurd out.1 (Nat.not_le.mpr no), ?_, was.counts,
      by intro _ h; cases h⟩
    exact fun _ => ⟨⟨rfl, rfl, facts.2⟩, (was.placed out.1).2⟩
  · intro token
    unfold Entry.Owns Entry.Lends
    simp only [Entry.setState, Entry.setStatus, here, facts.2, leased, version]
    simp

/-! ## Routes -/

theorem Base.acquire (h : world.Base layout) (named : world.slot owner index = some i)
    (mapped : (world.entries i).state = .route .mapped owner)
    (fresh : (world.entries i).exhausted = false) :
    Reroute layout world i owner .mapped .unopenedOne
      (world.domain.resident.claim i (.route .unopenedOne owner)).2
      ((world.entries i).claim.setState (.route .unopenedOne owner)) []
      [.unopened i owner index (world.entries i).generation] := by
  have out := h.out_of_state (i := i) (by rw [mapped]; nofun)
  have was := h.held i
  have placed := (was.placed out.1).1
  unfold Entry.Placed at placed
  rw [mapped] at placed
  have unlinked : (world.entries i).linked = false := by
    unfold Entry.linked
    simp [placed.1]
  have once : ∀ l, world.slot owner l = some i → l = index :=
    fun l other => (Tiled.slot_inj h.tiles other named).2
  refine ⟨mapped, rfl, rfl, rfl, rfl, h.good.put out.2 unlinked.symm nofun rfl,
    (was.sound.claim fresh).setState _, ⟨rfl, rfl, placed.2.2⟩, rfl, fun _ _ => .inl rfl,
    by simp [Token.slot], by simp, ?_, ?_⟩
  · intro token new owns
    unfold Entry.Owns Entry.Lends at owns
    rw [mapped, placed.2.2] at owns
    simp at owns
  · intro token
    unfold Entry.Owns Entry.Lends
    simp only [Entry.claim, Entry.setState, mapped, placed.2.2]
    grind

/-- The slot of a live route is taken, which no count speaks of. -/
theorem Inv.acquired {lease : Lease} (h : world.Inv layout)
    (route : world.domain.outbound.routes owner = some lease) (live : lease.state = .live)
    (named : world.slot owner index = some i)
    (mapped : (world.entries i).state = .route .mapped owner)
    (fresh : (world.entries i).exhausted = false) :
    Keeps layout world { world with
      domain := { world.domain with
        resident := (world.domain.resident.claim i (.route .unopenedOne owner)).2 }
      tokens := .unopened i owner index (world.entries i).generation ::
        world.tokens } := by
  have move := h.toBase.resets (h.toBase.acquire named mapped fresh)
  refine ⟨⟨h.toBase.reset move, ?_⟩, Domain.follows_of_eq rfl⟩
  intro o lease' remaining route' retired
  have apart : o ≠ owner := by
    intro same
    subst same
    change world.domain.outbound.routes o = some lease' at route'
    rw [route] at route'
    cases route'
    rw [live] at retired
    cases retired
  have count := h.counted o lease' remaining route' retired
  refine ⟨count.1.trans ?_, count.2⟩
  symm
  refine Domain.unsettled_congr rfl (fun _ _ => rfl) ?_
  intro l _
  rw [move.state]
  split
  · next same =>
      rw [same, show world.domain.state i = _ from mapped]
      unfold SlotState.isState
      simp [apart.symm]
  · rfl

theorem Inv.acquire (h : world.Inv layout) :
    ∃ out world', world.step (.acquire owner index) = .ok (out, world') ∧
      Keeps layout world world' := by
  have stays : Keeps layout world world := ⟨h, Domain.follows_of_eq rfl⟩
  unfold step Domain.acquire
  dsimp only
  cases route : world.domain.outbound.routes owner with
  | none => exact ⟨_, _, rfl, stays⟩
  | some lease =>
    dsimp only
    cases state : lease.state with
    | retired remaining => exact ⟨_, _, rfl, stays⟩
    | live =>
      dsimp only
      cases get : world.domain.outbound.get lease index with
      | none => exact ⟨_, _, rfl, stays⟩
      | some i =>
        dsimp only
        have named : world.domain.outbound.slot owner index = some i := by
          unfold Table.slot
          rw [route]
          exact get
        cases spent : (world.entries i).exhausted with
        | true => exact ⟨_, _, rfl, stays⟩
        | false =>
          rw [if_neg Bool.false_ne_true]
          by_cases mapped : (world.entries i).state = .route .mapped owner
          · rw [if_pos (by unfold SlotState.isState; simpa using mapped)]
            exact ⟨_, _, rfl, h.acquired route state named mapped spent⟩
          · rw [if_neg (by unfold SlotState.isState; simpa using mapped)]
            exact ⟨_, _, rfl, stays⟩

/-! ## Assignment -/

/-- A fresh route holds `count` slots of the free end. -/
def lent (world : World T) (owner count : Nat) : World T :=
  { world with
    domain := { world.domain with
      resident := Domain.map world.domain.resident
        (world.domain.outbound.lent owner count).mapping owner
        world.domain.outbound.extent.mapped count
      outbound := world.domain.outbound.lent owner count } }

/-- The slots that the route takes. -/
def Taken (world : World T) (owner count i : Nat) : Prop :=
  ∃ k, world.domain.outbound.extent.mapped ≤ k ∧
    k < world.domain.outbound.extent.mapped + count ∧
      (world.domain.outbound.lent owner count).mapping k = i

section
variable {count : Nat}

theorem lent_restated (world : World T) (owner count : Nat) :
    Restated world.domain.resident (world.lent owner count).domain.resident ∧
      (∀ k, world.domain.outbound.extent.mapped ≤ k →
        k < world.domain.outbound.extent.mapped + count →
          (world.lent owner count).domain.state
            ((world.domain.outbound.lent owner count).mapping k) = .route .mapped owner) ∧
      ∀ i, ¬ world.Taken owner count i →
        (world.lent owner count).domain.resident.entries i = world.entries i := by
  rcases Domain.map_restated world.domain.resident
    (world.domain.outbound.lent owner count).mapping owner
    world.domain.outbound.extent.mapped count with ⟨restated, states, others⟩
  exact ⟨restated, states, fun i out => others i fun k low high same => out ⟨k, low, high, same⟩⟩

theorem Base.lent_taken (h : world.Base layout)
    (room : world.domain.outbound.extent.allocated + count ≤ world.domain.outbound.capacity)
    (taken : world.Taken owner count i) :
    layout.accept ≤ i ∧ i < world.domain.resident.capacity ∧ (world.entries i).state = .free ∧
      (world.entries i).Idle ∧
      (world.lent owner count).domain.resident.entries i =
        (world.entries i).setState (.route .mapped owner) := by
  rcases taken with ⟨k, low, high, same⟩
  rcases world.lent_restated owner count with ⟨restated, states, -⟩
  rcases (Tiled.lent_free h.tiles room low high :
    (_ ≤ (world.domain.outbound.lent owner count).mapping k ∧ _) ∧ _) with ⟨inside, free⟩
  have state := states k low high
  rw [same] at inside free state
  rw [h.accept] at inside
  have free : (world.entries i).state = .free := free
  have placed := ((h.held i).placed inside.1).1
  unfold Entry.Placed at placed
  rw [free] at placed
  rcases restated.entries i with ⟨new, entry⟩
  unfold Domain.state at state
  rw [entry] at state ⊢
  rw [show new = .route .mapped owner from state]
  refine ⟨inside.1, ?_, free, placed, rfl⟩
  rw [h.capacity, ← h.room]
  exact inside.2

theorem Base.lent_tiles (h : world.Base layout) (some_ : 0 < count)
    (vacant : world.domain.outbound.routes owner = none)
    (room : world.domain.outbound.extent.allocated + count ≤ world.domain.outbound.capacity) :
    (world.lent owner count).domain.Tiles := by
  rcases world.lent_restated owner count with ⟨restated, states, others⟩
  refine Tiled.assign h.tiles some_ vacant room states ?_ restated.exhausted
  intro i unnamed
  refine congrArg Entry.state (others i ?_)
  rintro ⟨k, low, high, same⟩
  exact unnamed k low high same

theorem Base.lent (h : world.Base layout) (some_ : 0 < count)
    (vacant : world.domain.outbound.routes owner = none)
    (room : world.domain.outbound.extent.allocated + count ≤ world.domain.outbound.capacity) :
    (world.lent owner count).Base layout := by
  rcases world.lent_restated owner count with ⟨restated, -, others⟩
  refine h.turn (world.Taken owner count) ⟨rfl, rfl, restated.capacity, restated.last, others,
    fun _ _ => rfl, fun _ _ => rfl, fun _ _ => rfl, ?_, fun _ _ => Iff.rfl, fun _ => id⟩ ?_
    (h.lent_tiles some_ vacant room) h.nodup ?_ ?_
  · intro o l i out
    by_cases mine : o = owner
    · subst mine
      refine iff_of_false ?_ ?_
      · intro found
        rcases Tiled.slot_some found with ⟨lease, route, fit, position⟩
        change update world.domain.outbound.routes o _ o = some lease at route
        rw [update_self] at route
        cases route
        dsimp only at fit position
        exact out ⟨_, by omega, by omega, position⟩
      · intro found
        rcases Tiled.slot_some found with ⟨lease, route, -, -⟩
        rw [vacant] at route
        cases route
    · rw [show (world.lent owner count).domain.outbound.slot o l = _ from
        Tiled.lent_slot h.tiles mine]
  · refine h.good.restated restated ?_
    intro i far
    refine others i ?_
    intro taken
    exact absurd (h.lent_taken room taken).2.1 (Nat.not_lt.mpr far)
  · intro i taken
    rcases h.lent_taken room taken with ⟨low, -, -, rest, entry⟩
    have was := h.held i
    rw [entry]
    exact ⟨was.sound.setState _, fun no => absurd low (Nat.not_le.mpr no),
      fun _ => ⟨rest, (was.placed low).2⟩, was.counts, was.targets⟩
  · intro token taken
    rcases h.lent_taken room taken with ⟨low, -, free, rest, entry⟩
    show token ∈ world.tokens ↔ _
    rw [h.owned, entry]
    unfold Entry.Owns Entry.Lends Entry.setState
    dsimp only
    rw [free, rest.2.2]
    grind

theorem Inv.lent_counted (h : world.Inv layout)
    (room : world.domain.outbound.extent.allocated + count ≤ world.domain.outbound.capacity) :
    (world.lent owner count).domain.Counted := by
  intro o lease remaining route retired
  rcases Tiled.lent_route route with ⟨-, new⟩ | ⟨-, there⟩
  · rw [new] at retired
    cases retired
  · have settled := h.counted o lease remaining there retired
    refine ⟨settled.1.trans ?_, settled.2⟩
    symm
    refine Domain.unsettled_congr rfl ?_ ?_
    · intro l fit
      exact Tiled.lent_before h.tiles
        (Tiled.live_has h.tiles (k := lease.start + l) there ⟨by omega, by omega⟩).1
    · intro l fit
      unfold Domain.state
      rw [(world.lent_restated owner count).2.2]
      intro taken
      have state := (h.lent_taken room taken).2.2.1
      rcases Tiled.owned h.tiles o lease (lease.start + l) there ⟨by omega, by omega⟩ with
        ⟨phase, owned⟩
      exact nomatch state.symm.trans owned

theorem Inv.assigned (h : world.Inv layout) (some_ : 0 < count)
    (vacant : world.domain.outbound.routes owner = none)
    (room : world.domain.outbound.extent.allocated + count ≤ world.domain.outbound.capacity) :
    Keeps layout world (world.lent owner count) := by
  refine ⟨⟨h.toBase.lent some_ vacant room, h.lent_counted room⟩, ?_⟩
  intro o
  by_cases mine : o = owner
  · subst mine
    exact .assigned vacant ⟨_, update_self .., rfl⟩
  · refine .kept (fun l => Tiled.lent_slot h.tiles mine) (iff_of_eq (congrArg (· = none) ?_))
    exact update_of_ne mine ..

end

theorem Inv.assign {count : Nat} (h : world.Inv layout) :
    ∃ out world', world.step (.assign owner count) = .ok (out, world') ∧
      Keeps layout world world' := by
  have stays : Keeps layout world world := ⟨h, Domain.follows_of_eq rfl⟩
  unfold step Domain.tryAssign
  dsimp only
  by_cases none : count = 0
  · rw [if_pos none]
    exact ⟨_, _, rfl, stays⟩
  · rw [if_neg none]
    cases vacant : world.domain.outbound.routes owner with
    | some lease => exact ⟨_, _, rfl, stays⟩
    | none =>
      dsimp only
      by_cases full : world.domain.outbound.capacity -
          world.domain.outbound.extent.allocated < count
      · rw [if_pos full]
        exact ⟨_, _, rfl, stays⟩
      · rw [if_neg full]
        have order := Tiled.order h.tiles
        exact ⟨_, _, rfl, h.assigned (Nat.pos_of_ne_zero none) vacant (by omega)⟩

theorem Inv.retireRoute (h : world.Inv layout) :
    Keeps layout world { world with domain := world.domain.retireRoute owner } := by
  unfold Domain.retireRoute
  cases here : world.domain.outbound.routes owner with
  | none => exact ⟨h, Domain.follows_of_eq rfl⟩
  | some lease =>
    dsimp only
    by_cases none : world.domain.unsettled owner lease = 0
    · rw [if_pos none]
      have live : lease.state = .live := by
        cases state : lease.state with
        | live => rfl
        | retired remaining =>
          have count := h.counted owner lease remaining here state
          omega
      exact ⟨⟨h.reclaim here fun k has => Domain.unsettled_zero none has,
        h.reclaim_counted here (h.counted.but owner)⟩,
        h.reclaim_follows rfl here (.inl ⟨live, none⟩)⟩
    · rw [if_neg none]
      refine ⟨⟨h.restamp here _, Base.restamp_counted here (h.counted.but owner) rfl
        (Nat.pos_of_ne_zero none)⟩, ?_⟩
      intro o
      refine .kept ?_ ?_
      · intro l
        dsimp only
        rw [Table.slot_restamp _ _ here]
      · dsimp only
        by_cases mine : o = owner
        · subst mine
          rw [update_self, here]
          simp
        · rw [update_of_ne mine]

end World

end Dope.Core.Fd
