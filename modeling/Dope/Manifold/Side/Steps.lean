import Dope.Manifold.Side.Inv

/-! # Every operation keeps the books

One lemma for each operation of the registry, split by the state of the entry that
the operation finds.
-/

namespace Dope.Manifold.Side

open Run Tally Function

variable {I P W C : Type} {n : Nat} {request : Request (P × Nat)} {intents : Intent I P}
  {waiter : Option W} {mark : Mark W} {K : Fin 3}

namespace World

variable {world after : World I P W C n} {p : Fin n} {key : Key}
  {state : State (I × Nat) (P × Nat) W C}

/-! ## Cells and lanes after a change -/

theorem entry_some (held : world.entry key = some (p, state)) :
    Table.locate n key = some p ∧ world.store.slots p = some (key, state) := by
  unfold World.entry Table.entry at held
  cases found : Table.locate n key with
  | none => simp [found] at held
  | some q =>
    cases slot : world.store.slots q with
    | none => simp [found, slot] at held
    | some stored =>
      by_cases same : stored.1 = key
      · simp only [found, slot, same, if_true, Option.some.injEq, Prod.mk.injEq] at held
        rcases held with ⟨rfl, rfl⟩
        exact ⟨rfl, by rw [slot, ← same]⟩
      · simp [found, slot, same] at held

theorem cell_update (slots : ∀ q, q ≠ p → after.store.slots q = world.store.slots q)
    (marks : ∀ q, q ≠ p → after.marks q = world.marks q) :
    after.cell = update world.cell p (after.cell p) := by
  funext q
  by_cases here : q = p
  · subst here
    simp
  · simp [World.cell, here, slots q here, marks q here]

theorem cell_set (slots : after.store.slots = update world.store.slots p (some (key, state)))
    (marks : ∀ q, q ≠ p → after.marks q = world.marks q) :
    after.cell = update world.cell p (some ⟨key, state, after.marks p⟩) := by
  have own : after.store.slots p = some (key, state) := by simp [slots]
  rw [← cell_of_slot own]
  exact cell_update (fun q ne => by simp [slots, ne]) marks

theorem cell_clear (slots : after.store.slots = update world.store.slots p none)
    (marks : after.marks = world.marks) : after.cell = update world.cell p none := by
  have own : after.cell p = none := by simp [World.cell, slots]
  rw [← own]
  exact cell_update (fun q ne => by simp [slots, ne]) (fun q _ => by rw [marks])

namespace Inv

variable {cell : Option (Cell I P W C)} {K : Fin 3}

theorem stays (inv : world.Inv) (lanes : after.store.lanes = world.store.lanes)
    (lane : laneOf cell = laneOf (world.cell p)) :
    Lanes.Filed after.store.lanes (update (fun q => laneOf (world.cell q)) p (laneOf cell)) := by
  rw [lanes, lane, update_eq_self]
  exact inv.filed

theorem out (inv : world.Inv) (lane : laneOf (world.cell p) = none) :
    Lanes.Filed world.store.lanes (update (fun q => laneOf (world.cell q)) p none) := by
  rw [← lane, update_eq_self]
  exact inv.filed

theorem moves (inv : world.Inv)
    (lanes : after.store.lanes = Lanes.moveToBack world.store.lanes p K)
    (lane : laneOf cell = some K) :
    Lanes.Filed after.store.lanes (update (fun q => laneOf (world.cell q)) p (laneOf cell)) := by
  rw [lanes, lane]
  exact inv.filed.moveToBack

theorem leaves (inv : world.Inv) (lanes : after.store.lanes = Lanes.unlink world.store.lanes p)
    (lane : laneOf cell = none) :
    Lanes.Filed after.store.lanes (update (fun q => laneOf (world.cell q)) p (laneOf cell)) := by
  rw [lanes, lane]
  exact inv.filed.unlink

end Inv

/-- The records about settled results, abandoned requests and cancellations stay. -/
theorem Apart.refl (p : Fin n) (s : Nat) (settled : after.settled = world.settled)
    (abandoned : after.abandoned = world.abandoned) (cancels : after.cancels = world.cancels) :
    Apart world after p s where
  settled _ mem := .inl (settled ▸ mem)
  kept _ mem := settled ▸ mem
  abandoned _ mem := abandoned ▸ mem
  cancels _ mem := .inl (cancels ▸ mem)

theorem unit_holds (s : Nat) (cell : Cell I P W C) :
    unit (Holds s) (some cell) = if cell.state.value = some s then 1 else 0 := by
  rw [unit_some]

theorem unit_numbered (s : Nat) (cell : Cell I P W C) :
    unit (Numbered s) (some cell) = if cell.mark.serial = s then 1 else 0 := by
  rw [unit_some]

theorem issued_succ (world : World I P W C n) (s : Nat) :
    (if s < world.accepted + 1 then 1 else 0) =
      world.issued s + if world.accepted = s then 1 else 0 := by
  unfold issued
  split <;> split <;> split <;> omega

/-! ## The requesting task -/

theorem tryReserve_ok {registry registry' : Registry I P W C n} {intent : I} {waiter : W}
    (run : registry.tryReserve intents intent waiter = .ok registry') :
    ∃ p, Table.locate n (intents.target intent) = some p ∧ registry.slots.slots p = none ∧
      registry' = { registry with
        slots := ((registry.slots.set p (intents.target intent)
          (.queued ⟨intent, some waiter⟩)).moveToBack p QUEUED) } := by
  unfold Registry.tryReserve Store.tryReserve Table.tryVacant at run
  by_cases closed : registry.ready.isNone = true
  · simp [closed] at run
  · cases found : Table.locate n (intents.target intent) with
    | none => simp [closed, found] at run
    | some p =>
      cases slot : registry.slots.slots p with
      | some stored => simp [closed, found, slot] at run
      | none =>
        simp only [closed, found, slot, Bool.false_eq_true, if_false, Except.ok.injEq] at run
        exact ⟨p, rfl, slot, run.symm⟩

theorem Inv.reserve {intent : I} {waiter : W} (inv : world.Inv)
    (free : intents.target intent ∉ world.cancels) :
    (world.reserve intents intent waiter).2.Inv := by
  unfold World.reserve
  cases run : world.registry.tryReserve intents.numbered (intent, world.accepted) waiter with
  | error rejected => exact inv
  | ok registry =>
    rcases tryReserve_ok run with ⟨p, found, vacant, rfl⟩
    have target : intents.numbered.target (intent, world.accepted) = intents.target intent := rfl
    rw [target] at found
    have empty : world.cell p = none := by simp [World.cell, vacant]
    simp only [found, target]
    have mark : (world.setMark p ⟨world.accepted, some waiter, false, false⟩).marks p =
        ⟨world.accepted, some waiter, false, false⟩ := update_self ..
    refine inv.edit (p := p) ⟨cell_set rfl ?_, inv.moves rfl rfl, ?_, ?_, ?_, ?_, ?_⟩
    · intro q ne
      simp [World.setMark, ne]
    · intro s
      have more := issued_succ world s
      rw [empty, unit_none, unit_holds]
      simp only [State.value, Option.some.injEq, issued, outside, World.setMark] at more ⊢
      omega
    · intro s
      have more := issued_succ world s
      rw [empty, unit_none, unit_numbered]
      simp only [mark, issued, gone] at more ⊢
      simp only [World.setMark]
      omega
    · rintro new ⟨⟩
      simp only [mark]
      refine ⟨found, ?_, (by simp), ?_, (by simp), fun mem => absurd mem free⟩
      · rintro other ⟨⟩
        rfl
      · intro _ result mem
        exact absurd (inv.ledger.bound _ mem) (Nat.lt_irrefl _)
    · intro q other ne held
      refine (inv.good q other held).apart (Apart.refl p world.accepted rfl rfl rfl) ne ?_
      exact (inv.serial_lt held).ne
    · refine ⟨inv.ledger.nodup, inv.ledger.yielded, fun entry mem => ?_, inv.ledger.lost⟩
      exact (inv.ledger.bound entry mem).trans (Nat.lt_succ_self _)

/-! ## Changes of one entry -/

/-- An entry that waits is neither settled nor abandoned. -/
theorem waiter_open (waits : state.waiter = some waiter) :
    ¬ state.isSettled ∧ state ≠ .abandoned := by
  cases state with
  | queued | inFlight | deferred => exact ⟨id, nofun⟩
  | settled | abandoned => cases waits

section

variable (inv : world.Inv) (held : world.entry key = some (p, state))

include inv held

theorem Inv.no_cancel (waits : state.waiter = some waiter) : key ∉ world.cancels := by
  intro mem
  have good := inv.good p _ (cell_of_slot (entry_some held).2)
  exact (waiter_open waits).2 (good.cancels mem).1

/-- An entry that was not settled takes another state in which it is not. -/
theorem Inv.becomes {new : State (I × Nat) (P × Nat) W C}
    (slots : after.store.slots = update world.store.slots p (some (key, new)))
    (marks : ∀ q, q ≠ p → after.marks q = world.marks q)
    (serial : (after.marks p).serial = (world.marks p).serial)
    (filed : Lanes.Filed after.store.lanes (update (fun q => laneOf (world.cell q)) p
      (laneOf (some ⟨key, new, after.marks p⟩))))
    (values : ∀ s, (if new.value = some s then 1 else 0) + after.outside s = (if state.value =
      some s then 1 else 0) + world.outside s) (accepted : after.accepted = world.accepted)
    (settled : after.settled = world.settled) (yielded : after.yielded = world.yielded)
    (lost : after.lost = world.lost) (more : ∀ t ∈ world.abandoned, t ∈ after.abandoned)
    (taken : ∀ other ∈ after.cancels, other ∈ world.cancels ∨ other = key)
    (opened : ¬ state.isSettled) (opened' : ¬ new.isSettled)
    (waiter : ∀ waiter, new.waiter = some waiter → waiter = (after.marks p).latest)
    (abandoned : new = .abandoned → (world.marks p).serial ∈ after.abandoned)
    (cancels : key ∈ after.cancels → new = .abandoned ∧ (after.marks p).swept = true) :
    after.Inv := by
  rcases entry_some held with ⟨found, slot⟩
  have own := cell_of_slot slot
  have apart : Apart world after p (world.marks p).serial := by
    refine ⟨fun entry mem => .inl (settled ▸ mem), fun entry mem => settled ▸ mem, more, ?_⟩
    intro other mem
    rcases taken other mem with old | rfl
    · exact .inl old
    · exact .inr found
  have ledger : after.Ledger := by
    refine ⟨?_, ?_, ?_, ?_⟩
    · rw [settled]
      exact inv.ledger.nodup
    · rw [settled, yielded]
      exact inv.ledger.yielded
    · rw [settled, accepted]
      exact inv.ledger.bound
    · rw [lost]
      exact fun s mem => more s (inv.ledger.lost s mem)
  refine inv.edit (p := p) ⟨cell_set slots marks, filed, ?_, ?_, ?_, inv.rest own apart, ledger⟩
  · intro s
    have balance := values s
    rw [own, unit_holds, unit_holds, issued, issued, accepted]
    simp only
    omega
  · intro s
    rw [own, unit_numbered, unit_numbered, issued, issued, accepted, World.gone, World.gone,
      yielded, lost]
    simp only [serial]
  · rintro other ⟨⟩
    have good := inv.good p _ own
    refine ⟨found, waiter, ?_, ?_, ?_, cancels⟩
    · intro result same
      simp only at same
      rw [same] at opened'
      exact absurd trivial opened'
    · intro _ result mem
      simp only [serial, settled] at mem
      exact good.unsettled opened result mem
    · intro same
      simp only [serial]
      exact abandoned same

theorem Inv.removes (slots : after.store.slots = update world.store.slots p none)
    (lanes : after.store.lanes = Lanes.unlink world.store.lanes p)
    (marks : after.marks = world.marks) (accepted : after.accepted = world.accepted)
    (values : ∀ s, after.outside s = world.outside s + if state.value = some s then 1 else 0)
    (entries : ∀ s, after.gone s = world.gone s + if (world.marks p).serial = s then 1 else 0)
    (settled : after.settled = world.settled) (more : ∀ t ∈ world.abandoned, t ∈ after.abandoned)
    (taken : ∀ other ∈ after.cancels, other ∈ world.cancels)
    (yielded : ∀ entry ∈ after.yielded, entry ∈ world.settled)
    (lost : ∀ s ∈ after.lost, s ∈ after.abandoned) : after.Inv := by
  rcases entry_some held with ⟨found, slot⟩
  have own := cell_of_slot slot
  have apart : Apart world after p (world.marks p).serial :=
    ⟨fun entry mem => .inl (settled ▸ mem), fun entry mem => settled ▸ mem, more,
      fun other mem => .inl (taken other mem)⟩
  have ledger : after.Ledger := by
    refine ⟨?_, ?_, ?_, lost⟩
    · rw [settled]
      exact inv.ledger.nodup
    · rw [settled]
      exact yielded
    · rw [settled, accepted]
      exact inv.ledger.bound
  refine inv.edit (p := p) ⟨cell_clear slots marks, inv.leaves lanes rfl, ?_, ?_, nofun,
    inv.rest own apart, ledger⟩
  · intro s
    have balance := values s
    rw [own, unit_none, unit_holds, issued, issued, accepted]
    simp only
    omega
  · intro s
    have balance := entries s
    rw [own, unit_none, unit_numbered, issued, issued, accepted]
    simp only
    omega

theorem Inv.settle {result : Except (Error C) Unit}
    (slots : after.store.slots = update world.store.slots p (some (key, .settled result)))
    (filed : Lanes.Filed after.store.lanes (update (fun q => laneOf (world.cell q)) p
      none)) (marks : after.marks = world.marks) (accepted : after.accepted = world.accepted)
    (values : ∀ s, after.outside s = world.outside s + if state.value = some s then 1 else 0)
    (settled : after.settled = ((world.marks p).serial, result) :: world.settled)
    (yielded : after.yielded = world.yielded) (lost : after.lost = world.lost)
    (abandoned : after.abandoned = world.abandoned)
    (taken : ∀ other ∈ after.cancels, other ∈ world.cancels ∧ other ≠ key)
    (opened : ¬ state.isSettled) : after.Inv := by
  rcases entry_some held with ⟨found, slot⟩
  have own := cell_of_slot slot
  have good := inv.good p _ own
  have serial : (after.marks p).serial = (world.marks p).serial := by rw [marks]
  have apart : Apart world after p (world.marks p).serial := by
    refine ⟨?_, ?_, fun t mem => abandoned ▸ mem, fun other mem => .inl (taken other mem).1⟩
    · intro entry mem
      rw [settled, List.mem_cons] at mem
      rcases mem with rfl | old
      · exact .inr rfl
      · exact .inl old
    · intro entry mem
      rw [settled]
      exact List.mem_cons_of_mem _ mem
  have fresh : (world.marks p).serial ∉ world.settled.map Prod.fst := by
    rw [List.mem_map]
    rintro ⟨⟨s, other⟩, mem, rfl⟩
    exact good.unsettled opened other mem
  have ledger : after.Ledger := by
    refine ⟨?_, ?_, ?_, ?_⟩
    · rw [settled, List.map_cons, List.nodup_cons]
      exact ⟨fresh, inv.ledger.nodup⟩
    · rw [settled, yielded]
      exact fun entry mem => List.mem_cons_of_mem _ (inv.ledger.yielded entry mem)
    · rw [settled, accepted]
      intro entry mem
      rcases List.mem_cons.mp mem with rfl | old
      · exact inv.serial_lt own
      · exact inv.ledger.bound entry old
    · rw [lost, abandoned]
      exact inv.ledger.lost
  refine inv.edit (p := p) ⟨cell_set slots fun q _ => by rw [marks], filed, ?_, ?_, ?_,
    inv.rest own apart, ledger⟩
  · intro s
    have balance := values s
    have empty : ∀ cell : Cell I P W C, cell.state = .settled result → cell.state.value = none := by
      intro cell same
      rw [same]
      rfl
    rw [own, unit_holds, unit_holds, issued, issued, accepted, empty _ rfl]
    simp only [reduceCtorEq, if_false]
    omega
  · intro s
    rw [own, unit_numbered, unit_numbered, issued, issued, accepted, World.gone, World.gone,
      yielded, lost]
    simp only [serial]
  · rintro other ⟨⟩
    refine ⟨found, (by rintro _ ⟨⟩), ?_, fun opened => absurd trivial opened, (by rintro ⟨⟩), ?_⟩
    · rintro other ⟨⟩
      rw [settled]
      simp only [serial]
      exact List.mem_cons_self
    · intro mem
      exact absurd rfl (taken key mem).2

/-! ## Polls and abandonment -/

/-- An entry that waits gets another waiter and keeps everything else. -/
theorem Inv.refresh {new : State (I × Nat) (P × Nat) W C} {waiter : W} {old : Option W}
    (waits : state.waiter = some old) (waits' : new.waiter = some (some waiter))
    (value : new.value = state.value)
    (lane : ∀ mark mark' : Mark W, mark'.retried = mark.retried → mark'.swept = mark.swept →
      Cell.lane ⟨key, new, mark'⟩ = Cell.lane ⟨key, state, mark⟩) :
    World.Inv { world.refresh p waiter with
      registry := { world.registry with slots := world.store.set p key new } } := by
  have own := cell_of_slot (entry_some held).2
  have mark : (world.refresh p waiter).marks p = { world.marks p with latest := some waiter } :=
    update_self ..
  refine inv.becomes held rfl ?_ ?_ (inv.stays rfl ?_) ?_ rfl rfl rfl rfl (fun _ mem => mem)
    (fun _ mem => .inl mem) (waiter_open waits).1 (waiter_open waits').1 ?_ ?_ ?_
  · intro q ne
    simp [World.refresh, World.setMark, ne]
  · simp only [mark]
  · rw [own]
    simp only [mark]
    exact lane _ _ rfl rfl
  · intro s
    rw [value]
    rfl
  · intro other same
    rw [waits'] at same
    simp only [mark]
    exact (Option.some.inj same).symm
  · intro same
    exact absurd same (waiter_open waits').2
  · intro mem
    exact absurd mem (inv.no_cancel held waits)

end

theorem Inv.poll {target : Key} {waiter : W} (inv : world.Inv) :
    (world.poll target waiter).2.Inv := by
  unfold World.poll Registry.poll Store.poll World.entry
  cases held : world.store.entry target with
  | none => exact inv
  | some entry =>
    rcases entry with ⟨p, state⟩
    cases state with
    | queued | inFlight => exact inv.refresh held rfl rfl rfl fun _ _ _ _ => rfl
    | deferred pending =>
      refine inv.refresh held rfl rfl rfl fun mark mark' retried _ => ?_
      simp only [Cell.lane, retried]
    | settled result =>
      have slot := (entry_some held).2
      have good := inv.good p _ (cell_of_slot slot)
      refine inv.removes held rfl rfl rfl rfl (fun s => by simp [State.value]; rfl) ?_ rfl
        (fun _ mem => mem) (fun _ mem => mem) ?_ inv.ledger.lost
      · intro s
        simp only [World.gone, World.yields, List.map_cons, List.count_cons, beq_iff_eq]
        omega
      · intro entry mem
        rcases List.mem_cons.mp mem with rfl | old
        · exact good.settled result rfl
        · exact inv.ledger.yielded entry old
    | abandoned => exact inv

/-- What is removed on abandonment is lost with its value. -/
theorem Inv.abandon_removes (inv : world.Inv) (held : world.entry key = some (p, state)) :
    World.Inv { ((world.abandons p).loses p).drops state.value with
      registry := { world.registry with slots := world.store.remove p } } := by
  refine inv.removes held rfl rfl rfl rfl ?_ ?_ rfl (fun t mem => List.mem_cons_of_mem _ mem)
    (fun _ mem => mem) inv.ledger.yielded ?_
  · intro s
    simp only [World.outside, World.drops, World.loses, World.abandons, List.count_append]
    cases value : state.value with
    | none => simp
    | some v =>
      simp only [Option.toList_some, List.count_singleton, beq_iff_eq, Option.some.injEq]
      omega
  · intro s
    simp only [World.gone, World.drops, World.loses, World.abandons, List.count_cons, beq_iff_eq]
    omega
  · intro s mem
    rcases List.mem_cons.mp mem with rfl | old
    · exact List.mem_cons_self
    · exact List.mem_cons_of_mem _ (inv.ledger.lost s old)

theorem Inv.abandon {target : Key} (inv : world.Inv) : (world.abandon target).Inv := by
  unfold World.abandon Registry.abandon Store.abandon World.entry
  cases held : world.store.entry target with
  | none => exact inv
  | some entry =>
    rcases entry with ⟨p, state⟩
    cases state with
    | queued | deferred | settled => exact inv.abandon_removes held
    | abandoned => exact inv
    | inFlight waiter =>
      have mark : ((world.abandons p).setMark p
          { world.marks p with swept := false }).marks p =
          { world.marks p with swept := false } := update_self ..
      refine inv.becomes held rfl ?_ ?_ (inv.moves rfl ?_) (fun _ => rfl) rfl rfl rfl rfl
        (fun t mem => List.mem_cons_of_mem _ mem) (fun _ mem => .inl mem) id id nofun ?_ ?_
      · intro q ne
        simp [World.setMark, World.abandons, ne]
      · simp only [mark]
      · simp only [mark]
        rfl
      · intro _
        exact List.mem_cons_self
      · intro mem
        exact absurd mem (inv.no_cancel held rfl)

/-! ## Lanes -/

theorem front_some (front : world.store.front K = some (p, key, state)) :
    (world.store.lanes K).head? = some p ∧ world.store.slots p = some (key, state) := by
  unfold Table.front at front
  cases head : (world.store.lanes K).head? with
  | none => simp [head] at front
  | some q =>
    simp only [head, Option.map_eq_some_iff] at front
    rcases front with ⟨slot, held, same⟩
    simp only [Prod.mk.injEq] at same
    rcases same with ⟨rfl, rfl⟩
    exact ⟨rfl, held⟩

/-- The front of a lane is an entry that belongs there. -/
theorem Inv.front (inv : world.Inv) (front : world.store.front K = some (p, key, state)) :
    world.entry key = some (p, state) ∧ Cell.lane ⟨key, state, world.marks p⟩ = some K := by
  rcases front_some front with ⟨head, slot⟩
  have own := cell_of_slot slot
  have good := inv.good p _ own
  have lane := inv.filed.front head
  simp only [own] at lane
  have found : Table.locate n key = some p := good.located
  refine ⟨?_, lane⟩
  simp [World.entry, Table.entry, found, slot]

theorem Inv.front_of_mem (inv : world.Inv) (occupied : world.store.isVacant K = false) :
    ∃ p key state, world.store.front K = some (p, key, state) := by
  unfold Table.isVacant at occupied
  cases members : world.store.lanes K with
  | nil => simp [members] at occupied
  | cons p rest =>
    have lane := (inv.filed.mem K p).mp (by simp [members])
    cases slot : world.store.slots p with
    | none => simp [World.cell, slot, laneOf] at lane
    | some stored => exact ⟨p, stored.1, stored.2, by simp [Table.front, members, slot]⟩

/-- An entry of the queued lane is queued, or deferred and retried. -/
theorem lane_queued (lane : Cell.lane ⟨key, state, mark⟩ = some QUEUED) :
    (∃ pending, state = .queued pending) ∨ ∃ pending, state = .deferred pending := by
  cases state with
  | queued pending => exact .inl ⟨pending, rfl⟩
  | deferred pending => exact .inr ⟨pending, rfl⟩
  | inFlight | settled | abandoned => simp [Cell.lane] at lane

theorem lane_deferred (lane : Cell.lane ⟨key, state, mark⟩ = some DEFERRED) :
    ∃ pending, state = .deferred pending := by
  cases state with
  | deferred pending => exact ⟨pending, rfl⟩
  | queued pending => simp [Cell.lane, QUEUED, DEFERRED] at lane
  | inFlight | settled => simp [Cell.lane] at lane
  | abandoned => simp [Cell.lane, ABANDONED, DEFERRED] at lane

theorem lane_abandoned (lane : Cell.lane ⟨key, state, mark⟩ = some ABANDONED) :
    state = .abandoned ∧ mark.swept = false := by
  cases state with
  | abandoned => exact ⟨rfl, by simpa [Cell.lane] using lane⟩
  | deferred pending =>
    simp only [Cell.lane] at lane
    split at lane <;> simp [QUEUED, DEFERRED, ABANDONED] at lane
  | queued pending => simp [Cell.lane, QUEUED, ABANDONED] at lane
  | inFlight | settled => simp [Cell.lane] at lane

theorem Inv.retry (inv : world.Inv) : world.retry.2.Inv := by
  unfold World.retry Registry.retry Store.retry
  cases front : world.store.front DEFERRED with
  | none => exact inv
  | some entry =>
    rcases entry with ⟨p, key, state⟩
    rcases inv.front front with ⟨held, lane⟩
    rcases lane_deferred lane with ⟨pending, rfl⟩
    have slot := (entry_some held).2
    have good := inv.good p _ (cell_of_slot slot)
    have mark : (world.setMark p { world.marks p with retried := true }).marks p =
        { world.marks p with retried := true } := update_self ..
    refine inv.becomes held ?_ ?_ ?_ (inv.moves rfl ?_) (fun _ => rfl) rfl rfl rfl rfl
      (fun _ mem => mem) (fun _ mem => .inl mem) id id ?_ nofun ?_
    · rw [← slot, update_eq_self]
      rfl
    · intro q ne
      simp [World.setMark, ne]
    · simp only [mark]
    · simp only [mark]
      rfl
    · intro waiter same
      simp only [mark]
      exact good.waiter waiter same
    · intro mem
      exact absurd mem (inv.no_cancel held rfl)

theorem takeRequest_some {request : Request P} {registry registry' : Registry I P W C n}
    (run : registry.takeRequest intents = some (request, registry')) :
    ∃ p key state source taken, registry.slots.front QUEUED = some (p, key, state) ∧
      State.take state = (some source, taken) ∧ request.ticket = key ∧
      request.payload = (match source with
        | .intent intent => intents.intoPayload intent
        | .payload payload => payload) ∧
      registry' = { registry with slots := (registry.slots.set p key taken).unlink p } := by
  unfold Registry.takeRequest Store.takeRequest at run
  by_cases closed : registry.ready.isNone = true
  · simp [closed] at run
  · cases front : registry.slots.front QUEUED with
    | none => simp [closed, front] at run
    | some entry =>
      rcases entry with ⟨p, key, state⟩
      rcases taking : state.take with ⟨source, taken⟩
      cases source with
      | none => simp [closed, front, taking] at run
      | some source =>
        refine ⟨p, key, state, source, taken, rfl, taking, ?_⟩
        cases source with
        | intent intent =>
          simp only [closed, front, taking, Bool.false_eq_true, if_false,
            Option.some.injEq, Prod.mk.injEq] at run
          rcases run with ⟨rfl, rfl⟩
          exact ⟨rfl, rfl, rfl⟩
        | payload payload =>
          simp only [closed, front, taking, Bool.false_eq_true, if_false,
            Option.some.injEq, Prod.mk.injEq] at run
          rcases run with ⟨rfl, rfl⟩
          exact ⟨rfl, rfl, rfl⟩

section

variable (inv : world.Inv)

include inv

theorem Inv.takes (held : world.entry key = some (p, state)) (waits : state.waiter = some waiter)
    (value : state.value = some request.payload.2) :
    World.Inv { world with
      registry := { world.registry with
        slots := (world.store.set p key (.inFlight waiter)).unlink p }
      taken := request :: world.taken } := by
  have good := inv.good p _ (cell_of_slot (entry_some held).2)
  refine inv.becomes held rfl (fun _ _ => rfl) rfl (inv.leaves rfl rfl) ?_ rfl rfl rfl rfl
    (fun _ mem => mem) (fun _ mem => .inl mem) (waiter_open waits).1 id ?_ nofun ?_
  · intro s
    rw [value]
    simp only [World.outside, List.countP_cons, State.value, Option.some.injEq, reduceCtorEq,
      if_false, decide_eq_true_eq]
    omega
  · rintro other ⟨⟩
    exact good.waiter waiter waits
  · intro mem
    exact absurd mem (inv.no_cancel held waits)

theorem Inv.takeRequest : (world.takeRequest intents).2.Inv := by
  unfold World.takeRequest
  cases run : world.registry.takeRequest intents.numbered with
  | none => exact inv
  | some result =>
    rcases result with ⟨request, registry⟩
    rcases takeRequest_some run with
      ⟨p, key, state, source, taken, front, taking, -, payload, rfl⟩
    rcases inv.front front with ⟨held, lane⟩
    rcases lane_queued lane with ⟨pending, rfl⟩ | ⟨pending, rfl⟩
    · cases taking
      refine inv.takes held rfl ?_
      rw [payload]
      rfl
    · cases taking
      refine inv.takes held rfl ?_
      rw [payload]
      rfl

theorem Inv.takeCancel : world.takeCancel.2.Inv := by
  unfold World.takeCancel Registry.takeCancel Store.takeCancel
  cases front : world.store.front ABANDONED with
  | none => exact inv
  | some entry =>
    rcases entry with ⟨p, key, state⟩
    rcases inv.front front with ⟨held, lane⟩
    rcases lane_abandoned lane with ⟨rfl, -⟩
    have slot := (entry_some held).2
    have good := inv.good p _ (cell_of_slot slot)
    have mark : (world.setMark p { world.marks p with swept := true }).marks p =
        { world.marks p with swept := true } := update_self ..
    refine inv.becomes held ?_ ?_ ?_ (inv.leaves rfl ?_) (fun _ => rfl) rfl rfl rfl rfl
      (fun _ mem => mem) ?_ id id nofun (fun _ => good.abandoned rfl) ?_
    · rw [← slot, update_eq_self]
      rfl
    · intro q ne
      simp [World.setMark, ne]
    · simp only [mark]
    · simp only [mark]
      rfl
    · intro other mem
      rcases List.mem_cons.mp mem with rfl | old
      · exact .inr rfl
      · exact .inl old
    · intro _
      refine ⟨rfl, ?_⟩
      simp only [mark]

/-- The value of the front is dropped, and its entry settled. -/
theorem Inv.rejects {result : Except (Error C) Unit} (held : world.entry key = some (p, state))
    (waits : state.waiter = some waiter) :
    World.Inv { (world.settles p result).drops state.value with
      registry := { world.registry with
        slots := (world.store.set p key (.settled result)).unlink p } } := by
  refine inv.settle held rfl ?_ rfl rfl ?_ rfl rfl rfl rfl ?_ (waiter_open waits).1
  · exact inv.filed.unlink
  · intro s
    simp only [World.outside, World.drops, World.settles, List.count_append]
    cases value : state.value with
    | none => simp
    | some v =>
      simp only [Option.toList_some, List.count_singleton, beq_iff_eq, Option.some.injEq]
      omega
  · intro other mem
    refine ⟨mem, ?_⟩
    rintro rfl
    exact inv.no_cancel held waits mem

theorem Inv.reject : world.reject.2.2.Inv := by
  unfold World.reject Registry.reject Store.reject
  have lane : world.intake = if world.store.isVacant QUEUED then DEFERRED else QUEUED :=
    rfl
  simp only [← lane]
  cases front : world.store.front world.intake with
  | none => exact inv
  | some entry =>
    rcases entry with ⟨p, key, state⟩
    rcases inv.front front with ⟨held, here⟩
    have waits : (∃ pending, state = .queued pending) ∨ ∃ pending, state = .deferred pending := by
      rw [lane] at here
      split at here
      · exact .inr (lane_deferred here)
      · exact lane_queued here
    rcases waits with ⟨pending, rfl⟩ | ⟨pending, rfl⟩
    · exact inv.rejects held rfl
    · exact inv.rejects held rfl

/-! ## The transport -/

theorem Inv.give_count (mem : request ∈ world.taken) (s : Nat) :
    (world.give request).taken.countP (fun other => other.payload.2 = s) +
        (if request.payload.2 = s then 1 else 0) =
      world.taken.countP fun other => other.payload.2 = s := by
  have count := inv.values s
  have one : world.issued s ≤ 1 := by
    unfold issued
    split <;> omega
  unfold World.outside at count
  by_cases same : request.payload.2 = s
  · have pos : 0 < world.taken.countP fun other => other.payload.2 = s :=
      List.countP_pos_iff.mpr ⟨request, mem, by simpa using same⟩
    have rest : (world.give request).taken.countP (fun other => other.payload.2 = s) = 0 := by
      rw [List.countP_eq_zero]
      intro other held
      have ne := (List.mem_filter.mp held).2
      simp only [ne_eq, decide_not, Bool.not_eq_eq_eq_not, Bool.not_true,
        decide_eq_false_iff_not] at ne
      rw [same] at ne
      simpa using ne
    rw [rest, if_pos same]
    omega
  · rw [if_neg same, World.give, List.countP_filter, Nat.add_zero]
    apply List.countP_congr
    intro other _
    simp only [Bool.and_eq_true, decide_eq_true_eq, ne_eq, and_iff_left_iff_imp]
    rintro rfl eq
    exact same eq.symm

theorem Inv.give_outside (mem : request ∈ world.taken)
    (taken : after.taken = (world.give request).taken)
    (dropped : after.dropped = request.payload.2 :: world.dropped) (s : Nat) :
    after.outside s = world.outside s := by
  have count := inv.give_count mem s
  simp only [World.outside, taken, dropped, List.count_cons, beq_iff_eq] at count ⊢
  omega

theorem Inv.drops (mem : request ∈ world.taken) :
    World.Inv ((world.give request).drops (some request.payload.2)) := by
  refine inv.congr rfl rfl (inv.give_outside mem rfl rfl) rfl rfl ?_ ?_
  · exact ⟨inv.ledger.nodup, inv.ledger.yielded, inv.ledger.bound, inv.ledger.lost⟩
  · intro q other held
    have good := inv.good q other held
    exact ⟨good.located, good.waiter, good.settled, good.unsettled, good.abandoned, good.cancels⟩

/-- An abandoned entry leaves, with a request or without. -/
theorem Inv.loses (held : world.entry key = some (p, .abandoned))
    (slots : after.store = world.store.remove p)
    (marks : after.marks = world.marks) (accepted : after.accepted = world.accepted)
    (outside : ∀ s, after.outside s = world.outside s) (settled : after.settled = world.settled)
    (yielded : after.yielded = world.yielded) (abandoned : after.abandoned = world.abandoned)
    (lost : after.lost = (world.marks p).serial :: world.lost)
    (taken : ∀ other ∈ after.cancels, other ∈ world.cancels) : after.Inv := by
  have good := inv.good p _ (cell_of_slot (entry_some held).2)
  refine inv.removes held (by rw [slots]; rfl) (by rw [slots]; rfl) marks accepted ?_ ?_ settled
    (fun t mem => abandoned ▸ mem) taken ?_ ?_
  · intro s
    rw [outside]
    simp [State.value]
  · intro s
    simp only [World.gone, yielded, lost, List.count_cons, beq_iff_eq]
    omega
  · rw [yielded]
    exact inv.ledger.yielded
  · rw [lost, abandoned]
    intro s mem
    rcases List.mem_cons.mp mem with rfl | old
    · exact good.abandoned rfl
    · exact inv.ledger.lost s old

end

theorem Inv.complete {request : Request (P × Nat)} {result : Except (Error C) Unit}
    (inv : world.Inv) (mem : request ∈ world.taken) : (world.complete request result).2.Inv := by
  unfold World.complete Registry.complete Store.complete World.entry
  cases held : world.store.entry request.ticket with
  | none => exact inv.drops mem
  | some entry =>
    rcases entry with ⟨p, state⟩
    cases state with
    | queued | deferred | settled => exact inv.drops mem
    | inFlight waiter =>
      have lane : laneOf (world.cell p) = none := by
        rw [cell_of_slot (entry_some held).2]
        rfl
      refine inv.settle held rfl (inv.out lane) rfl rfl ?_ rfl rfl rfl rfl ?_ id
      · intro s
        refine (inv.give_outside mem ?_ ?_ s).trans ?_
        · rfl
        · rfl
        · simp [State.value]
      · intro other cancel
        refine ⟨cancel, ?_⟩
        rintro rfl
        exact inv.no_cancel held rfl cancel
    | abandoned =>
      exact inv.loses held rfl rfl rfl (inv.give_outside mem rfl rfl) rfl rfl rfl rfl
        fun _ mem => mem

theorem Inv.defer (inv : world.Inv) (mem : request ∈ world.taken) : (world.defer request).Inv := by
  unfold World.defer Registry.defer Store.defer World.entry
  cases held : world.store.entry request.ticket with
  | none => exact inv.drops mem
  | some entry =>
    rcases entry with ⟨p, state⟩
    cases state with
    | queued | deferred | settled => exact inv.drops mem
    | abandoned =>
      exact inv.loses held rfl rfl rfl (inv.give_outside mem rfl rfl) rfl rfl rfl rfl
        fun _ mem => mem
    | inFlight waiter =>
      have good := inv.good p _ (cell_of_slot (entry_some held).2)
      have mark : (world.setMark p { world.marks p with retried := false }).marks p =
          { world.marks p with retried := false } := update_self ..
      refine inv.becomes held rfl ?_ ?_ (inv.moves rfl ?_) ?_ rfl rfl rfl rfl
        (fun _ mem => mem) (fun _ mem => .inl mem) id id ?_ nofun ?_
      · intro q ne
        simp [World.drops, World.give, World.setMark, ne]
      · simp [World.drops, World.give, mark]
      · simp [laneOf, Cell.lane, World.drops, World.give, mark]
      · intro s
        have count := inv.give_count mem s
        simp only [World.outside, World.drops, World.give, World.setMark, State.value,
          Option.some.injEq, reduceCtorEq, if_false, Option.map_none, Option.toList_none,
          List.nil_append] at count ⊢
        omega
      · rintro other ⟨⟩
        simp only [World.drops, World.give, mark]
        exact good.waiter waiter rfl
      · intro cancel
        exact absurd cancel (inv.no_cancel held rfl)

/-- Without an abandoned entry only the cancellation is used up. -/
theorem Inv.spends (inv : world.Inv) (cancel : Key) :
    World.Inv { world with cancels := world.cancels.filter (· ≠ cancel) } := by
  refine inv.congr rfl rfl (fun _ => rfl) rfl rfl ?_ ?_
  · exact ⟨inv.ledger.nodup, inv.ledger.yielded, inv.ledger.bound, inv.ledger.lost⟩
  · intro q other held
    have good := inv.good q other held
    exact ⟨good.located, good.waiter, good.settled, good.unsettled, good.abandoned,
      fun mem => good.cancels (List.mem_filter.mp mem).1⟩

theorem Inv.endCancel {cancel : Key} (inv : world.Inv) : (world.endCancel cancel).Inv := by
  have others : ∀ other ∈ world.cancels.filter (· ≠ cancel), other ∈ world.cancels :=
    fun other mem => (List.mem_filter.mp mem).1
  have ends := inv.spends cancel
  unfold World.endCancel Registry.endCancel Store.endCancel World.entry
  cases held : world.store.entry cancel with
  | none => exact ends
  | some entry =>
    rcases entry with ⟨p, state⟩
    cases state with
    | queued | deferred | settled | inFlight => exact ends
    | abandoned =>
      exact inv.loses held rfl rfl rfl (fun _ => rfl) rfl rfl rfl rfl others

theorem Inv.failCancel {cancel : Key} {cause : C} (inv : world.Inv)
    (mem : cancel ∈ world.cancels) : (world.failCancel cancel cause).Inv := by
  have others : ∀ other ∈ world.cancels.filter (· ≠ cancel),
      other ∈ world.cancels ∧ other ≠ cancel := by
    intro other held
    simpa using List.mem_filter.mp held
  have ends := inv.spends cancel
  unfold World.failCancel Registry.failCancel Store.endCancel World.entry
  cases held : world.store.entry cancel with
  | none => exact ends
  | some entry =>
    rcases entry with ⟨p, state⟩
    cases state with
    | queued | deferred | settled | inFlight => exact ends
    | abandoned =>
      have good := inv.good p _ (cell_of_slot (entry_some held).2)
      have swept := (good.cancels mem).2
      have lane : laneOf (world.cell p) = none := by
        rw [cell_of_slot (entry_some held).2]
        simpa [laneOf, Cell.lane] using swept
      refine inv.settle held rfl (inv.out lane) rfl rfl ?_ rfl rfl rfl rfl others id
      intro s
      simp [State.value]
      rfl

end World

end Dope.Manifold.Side
