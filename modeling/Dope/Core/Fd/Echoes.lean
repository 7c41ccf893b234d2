import Dope.Core.Fd.Leases

/-! # Steps of the driver

A retirement is taken from the queue, submitted or carried out at once, and its echo
is consumed whoever owns the slot by then.
-/

namespace Dope.Core.Fd

open Function

variable {T : Type}

/-! ## Words -/

variable {token : Retirement}

theorem unpack_pack (index : token.index < 2 ^ 24) (generation : token.generation < 2 ^ 32)
    (of : Class) : unpack (pack token of) = token ∧ observed (pack token of) = of := by
  rcases token with ⟨i, g, side⟩
  dsimp only at index generation
  unfold unpack observed pack
  dsimp only
  rw [Retirement.mk.injEq]
  cases of <;> cases side <;> dsimp only
  · exact ⟨⟨by omega, by omega, if_pos (by omega)⟩, if_pos (by omega)⟩
  · exact ⟨⟨by omega, by omega, if_neg (by omega)⟩, if_pos (by omega)⟩
  · exact ⟨⟨by omega, by omega, if_pos (by omega)⟩, if_neg (by omega)⟩
  · exact ⟨⟨by omega, by omega, if_neg (by omega)⟩, if_neg (by omega)⟩

variable {store : Store T}

namespace World

variable {layout : Layout} {world world' : World T} {i owner index generation : Nat}

theorem Base.classOf_eq (h : world.Base layout) (i : Nat) :
    world.domain.classOf i = (world.entries i).classAt layout.accept i := by
  unfold Domain.classOf Entry.classAt
  rw [h.accept]
  rfl

/-! ## The queue -/

/-- What is next in line: a slot that is pending, and whose retirement names the
generation that was given up. -/
structure Next (layout : Layout) (world : World T) (token : Retirement) (store : Store T) : Prop
    where
  good : store.Good
  same : store = { world.domain.resident with pending := store.pending }
  front : store.Fronted token
  pending : (world.domain.resident.entries token.index).phase = .pending
  landed : (world.domain.resident.entries token.index).inflight = false
  inside : token.index < world.domain.resident.capacity
  epoch : (world.domain.resident.entries token.index).epoch = some token.generation
  words : ∀ of, unpack (pack token of) = token ∧ observed (pack token of) = of

theorem Base.next (h : world.Base layout) :
    (∃ store, world.domain.pending = (none, { world.domain with resident := store }) ∧
      store.Good ∧ store = { world.domain.resident with pending := store.pending } ∧
      ∀ i, (world.entries i).linked = false) ∨
    ∃ token store, world.domain.pending =
        (some (pack token ((world.entries token.index).classAt layout.accept
          token.index)), { world.domain with resident := store }) ∧
      Next layout world token store := by
  unfold Domain.pending
  cases run : world.domain.resident.pendingRetirement with
  | mk found store =>
    rcases h.good.pending (fun i => (h.held i).sound.queued) run with ⟨good, same, empty, front⟩
    cases found with
    | none => exact .inl ⟨store, rfl, good, same, empty rfl⟩
    | some token =>
      rcases front token rfl with ⟨fronted, epoch⟩
      have linked := fronted.linked
      rw [same] at linked
      change (world.entries token.index).linked = true at linked
      unfold Entry.linked at linked
      simp only [Bool.and_eq_true, decide_eq_true_eq, Bool.not_eq_true'] at linked
      have inside := h.good.inside (i := token.index) (by
        intro (new : world.entries token.index = _)
        rw [new] at linked
        cases linked.1)
      have index : token.index < 2 ^ 24 := Nat.lt_of_lt_of_le inside h.good.bounded
      have small : token.generation < 2 ^ 32 :=
        Nat.lt_of_le_of_lt (Entry.epoch_lt (h.held token.index).sound epoch) layout.word
      refine .inr ⟨token, store, ?_, good, same, fronted, linked.1, linked.2, inside, epoch,
        unpack_pack index small⟩
      dsimp only
      rw [h.classOf_eq]

theorem Inv.queueOnly (h : world.Inv layout) (good : store.Good)
    (same : store = { world.domain.resident with pending := store.pending }) :
    Keeps layout world { world with domain := { world.domain with resident := store } } := by
  have entries : store.entries = world.entries := by rw [same]
  refine h.alter (i := 0) (world.entries 0) [] []
    ⟨rfl, by rw [same], by rw [same], ?_, fun _ _ => rfl, fun _ _ => rfl, fun _ _ => rfl,
      fun _ => id⟩ ⟨rfl, nofun, List.nodup_nil⟩ rfl good rfl (fun _ _ => rfl) (h.held 0) nofun
    (by simp)
  rw [update_eq_self]
  exact entries

theorem Inv.pending (h : world.Inv layout) :
    Keeps layout world { world with domain := world.domain.pending.2 } := by
  rcases h.toBase.next with ⟨store, run, good, same, -⟩ | ⟨token, store, run, next⟩
  · rw [run]
    exact h.queueOnly good same
  · rw [run]
    exact h.queueOnly next.good next.same

/-! ## Submission -/

/-- The entry of a slot whose retirement is in flight. -/
def flown (entry : Entry T) (token : Retirement) : Entry T :=
  { entry with
    submitted := token.generation, inflight := true, side := token.side, bound := false,
    phase := .inFlight }

theorem Next.entries (next : Next layout world token store) :
    store.entries = world.entries ∧ store.capacity = world.domain.resident.capacity ∧
      store.last = world.domain.resident.last ∧
      store.inflight = world.domain.resident.inflight := by
  rw [next.same]
  exact ⟨rfl, rfl, rfl, rfl⟩

theorem Next.submitted (next : Next layout world token store) :
    ∃ store', store.submitted token = .ok store' ∧ store'.Good ∧
      store'.capacity = world.domain.resident.capacity ∧
      store'.last = world.domain.resident.last ∧
      store'.entries = update world.entries token.index
        (flown (world.entries token.index) token) := by
  rcases next.entries with ⟨entries, capacity, last, -⟩
  have count := Store.flights_put store (capacity.symm ▸ next.inside)
    (flown (store.entries token.index) token)
  rw [show (store.entries token.index).inflight = false by rw [entries]; exact next.landed] at count
  have total := next.good.flights
  have most := next.good.flights_lt
  have quiet : (flown (store.entries token.index) token).linked = false := by
    unfold Entry.linked flown
    simp
  have bound : (store.put token.index (flown (store.entries token.index) token)).flights ≤
      store.capacity := by
    have length := List.countP_le_length (p := fun i =>
      ((store.put token.index (flown (store.entries token.index) token)).entries i).inflight)
      (l := List.range' 0 store.capacity)
    rw [List.length_range'] at length
    exact length
  have small := next.good.bounded
  have more : (store.inflight + 1) % 2 ^ 32 =
      (store.put token.index (flown (store.entries token.index) token)).flights := by
    change _ + 0 = _ + 1 at count
    omega
  rcases next.good.pop next.front quiet more with ⟨rest, link, good⟩
  refine ⟨_, ?_, good, capacity, last, ?_⟩
  · unfold Store.submitted
    dsimp only
    rw [Entry.link_ok link]
    rfl
  · rw [← entries]
    rfl

/-- A slot that is pending is not vacant, and no close of it is running. -/
theorem Next.accepting (h : world.Base layout) (next : Next layout world token store)
    (low : token.index < layout.accept) :
    (world.entries token.index).lease = false ∧ (world.native token.index).running = false ∧
      (world.native token.index).occupied = true ∧
      (world.native token.index).arrived = false := by
  have accepting := (h.held token.index).accepting low
  have pending := next.pending
  have leased := accepting.leased
  have running := accepting.running
  have vacant := accepting.vacant
  grind

theorem Base.flown (h : world.Base layout) (next : Next layout world token store) :
    Held layout.accept layout.last token.index (flown (world.entries token.index) token)
      { world.native token.index with running := true, executed := false }
      (world.submits token.index + 1) (world.consumes token.index) world.published := by
  have was := h.held token.index
  refine ⟨⟨was.sound.bound, was.sound.leased, was.sound.spent, fun _ => ⟨rfl, next.epoch⟩, nofun⟩,
    ?_, ?_, ?_, nofun⟩
  · intro low
    have taken := Next.accepting h next low
    have accepting := was.accepting low
    refine ⟨accepting.state, ?_, fun _ no => absurd rfl no, ?_, nofun, ?_, ?_, nofun⟩
    · intro (leased : (world.entries token.index).lease = true)
      rw [taken.1] at leased
      cases leased
    · exact fun _ => ⟨rfl, rfl, taken.2.2⟩
    · intro (either : (world.native token.index).occupied = false ∨
        (world.native token.index).arrived = true)
      rw [taken.2.2.1, taken.2.2.2] at either
      rcases either with no | no <;> cases no
    · exact accepting.arrived
  · intro out
    have placed := was.placed out
    refine ⟨?_, placed.2⟩
    have old := placed.1
    have pending := next.pending
    unfold Entry.Placed Entry.PlacedIn Entry.Idle Entry.InUse Entry.Closing at old ⊢
    unfold World.flown
    dsimp only
    split at old <;> grind
  · have counts := was.counts
    rw [next.landed] at counts
    change world.submits token.index = world.consumes token.index + 0 at counts
    show world.submits token.index + 1 = world.consumes token.index + 1
    omega

theorem Inv.submit (h : world.Inv layout) :
    ∃ out world', world.step .submit = .ok (out, world') ∧ Keeps layout world world' := by
  unfold step
  dsimp only
  rcases h.toBase.next with ⟨store, run, good, same, -⟩ | ⟨token, store, run, next⟩
  · rw [run]
    exact ⟨_, _, rfl, h.queueOnly good same⟩
  · rcases next.submitted with ⟨store', submitted, good, capacity, last, entries⟩
    rw [run]
    dsimp only
    unfold Domain.submitted
    rw [(next.words _).1]
    dsimp only
    rw [submitted]
    refine ⟨_, _, rfl, ?_⟩
    refine h.alter (flown (world.entries token.index) token) [] []
      ⟨rfl, capacity, last, entries, fun j apart => update_of_ne apart ..,
        fun j apart => update_of_ne apart .., fun _ _ => rfl, fun _ => id⟩
      ⟨rfl, nofun, List.nodup_nil⟩ rfl good rfl (fun _ _ => rfl) ?_ nofun ?_
    · dsimp only [setNative]
      rw [update_self, update_self]
      exact h.toBase.flown next
    · intro other
      unfold Entry.Owns Entry.Lends flown
      simp [next.landed]

/-! ## Closes that are carried out -/

/-- A retirement of slot `i` is over, and its entry is at rest. -/
structure Landing (layout : Layout) (world world' : World T) (i : Nat) (entry : Entry T)
    (gone : List Token) : Prop where
  alters : Alters world world' i entry
  trade : Trade world world' i gone []
  outbound : world'.domain.outbound = world.domain.outbound
  good : world'.domain.resident.Good
  sound : entry.Sound layout.last
  rest : entry.lease = true ∧ entry.phase = .quiescent ∨ entry.lease = false ∧ entry.phase = .ready
  landed : entry.inflight = false
  lease : entry.lease = (world.domain.resident.entries i).lease
  state : entry.state = (world.domain.resident.entries i).state
  generation : entry.generation = (world.domain.resident.entries i).generation
  counts : world'.submits i = world'.consumes i
  arrived : (world'.native i).arrived = false
  owned : ∀ token, token ∉ gone ∧ (world.domain.resident.entries i).Owns layout.accept
      world.domain.outbound.slot i token ↔
    (world.domain.resident.entries i).Lends layout.accept world.domain.outbound.slot i token

section
variable {entry : Entry T} {gone : List Token}

theorem Landing.alters_setState (land : Landing layout world world' i entry gone)
    (state : SlotState) :
    Alters world { world' with domain := world'.domain.setState i state } i
      (entry.setState state) := by
  refine { land.alters with entries := ?_ }
  have mine : world'.domain.resident.entries i = entry := by
    rw [land.alters.entries, update_self]
  show update world'.domain.resident.entries i
    ((world'.domain.resident.entries i).setState state) = _
  rw [mine, land.alters.entries, update_idem]

theorem Landing.good_setState (land : Landing layout world world' i entry gone)
    (inside : i < world.domain.resident.capacity) (state : SlotState) :
    (world'.domain.resident.setState i state).Good := by
  refine land.good.put ?_ rfl (fun _ => rfl) rfl
  rw [land.alters.capacity]
  exact inside

theorem Landing.held (land : Landing layout world world' i entry gone)
    (out : layout.accept ≤ i) (state : SlotState) (placed : (entry.setState state).Placed) :
    Held layout.accept layout.last i (entry.setState state) (world'.native i) (world'.submits i)
      (world'.consumes i) world'.published := by
  refine ⟨land.sound.setState state, fun no => absurd out (Nat.not_le.mpr no),
    fun _ => ⟨placed, land.arrived⟩, ?_, ?_⟩
  · rw [show (entry.setState state).inflight = false from land.landed]
    exact land.counts
  · intro (ready : entry.phase = .ready) (leased : entry.lease = true)
    have rest := land.rest
    rw [ready, leased] at rest
    simp at rest

theorem Inv.completes {before : SlotPhase} (h : world.Inv layout)
    (land : Landing layout world world' i entry gone)
    (here : (world.entries i).state = .route before owner)
    (closing : before = .closingOne ∨ before = .closingZero ∧ (world.entries i).lease = false) :
    Keeps layout world { world' with domain := world'.domain.complete i } := by
  have out := h.out_of_state (i := i) (by rw [here]; simp)
  have state : world'.domain.state i = .route before owner := by
    unfold Domain.state
    rw [land.alters.entries, update_self, land.state, here]
  have rest := land.rest
  unfold Domain.complete
  rw [state]
  dsimp only
  rcases closing with one | ⟨zero, vacant⟩
  · subst one
    rw [if_neg (by simp)]
    have move : Resets layout world { world' with
        domain := world'.domain.setState i (.route .closedOne owner) } i owner .closingOne .closedOne
        (entry.setState (.route .closedOne owner)) gone [] := by
      refine ⟨land.alters_setState _, ⟨land.trade.tokens, land.trade.slots, List.nodup_nil⟩,
        land.outbound, land.good_setState out.2 _, here, rfl,
        land.held out.1 _ ⟨land.landed, rest⟩, (by simp), ?_⟩
      intro token
      rw [show token ∈ [] ∨ _ ↔ _ from or_iff_right List.not_mem_nil, land.owned]
      unfold Entry.Owns Entry.Lends
      simp [Entry.setState, here, land.landed, land.lease, land.generation]
    exact ⟨h.reset move ⟨(by simp), (by simp)⟩, Domain.follows_of_eq land.outbound⟩
  · subst zero
    rw [if_pos rfl, Domain.releaseSlot_eq]
    have quiet := land.lease.trans vacant
    rw [quiet] at rest
    have ready : entry.phase = .ready := by simpa using rest
    have move : Resets layout world { world' with
        domain := world'.domain.setState i (.route .mapped owner) } i owner .closingZero .mapped
        (entry.setState (.route .mapped owner)) gone [] := by
      refine ⟨land.alters_setState _, ⟨land.trade.tokens, land.trade.slots, List.nodup_nil⟩,
        land.outbound, land.good_setState out.2 _, here, rfl,
        land.held out.1 _ ⟨ready, quiet, land.landed⟩, (by simp), ?_⟩
      intro token
      rw [show token ∈ [] ∨ _ ↔ _ from or_iff_right List.not_mem_nil, land.owned]
      unfold Entry.Owns Entry.Lends
      simp [Entry.setState, here, land.landed]
    exact h.resettle move (by simp)

theorem Inv.reuses (h : world.Inv layout) (land : Landing layout world world' i entry gone)
    (here : (world.entries i).state = .standalone) (vacant : (world.entries i).lease = false) :
    (entry.exhausted = true → Keeps layout world world') ∧
    (entry.exhausted = false → ∃ domain, world'.domain.releaseOne i = .ok domain ∧
      Keeps layout world { world' with domain }) := by
  have out := h.out_of_state (i := i) (by rw [here]; nofun)
  have rest := land.rest
  have quiet := land.lease.trans vacant
  rw [quiet] at rest
  have ready : entry.phase = .ready := by simpa using rest
  refine ⟨?_, ?_⟩
  · intro spent
    refine h.alter entry gone [] land.alters land.trade land.outbound land.good land.state
      (fun _ free => ?_) ?_ nofun ?_
    · rw [here] at free
      cases free
    · have state := land.state.trans here
      have same : entry.setState .standalone = entry := by rw [← state]; rfl
      have held := land.held out.1 .standalone (.inl ⟨ready, land.landed, .inr spent⟩)
      rw [same] at held
      exact held
    · intro token
      rw [show token ∈ [] ∨ _ ↔ _ from or_iff_right List.not_mem_nil, land.owned]
      unfold Entry.Owns Entry.Lends
      simp [land.state, here, land.landed, land.lease, land.generation]
  · intro fresh
    have room := (Tiled.standalone h.tiles (i := i) (h.accept ▸ out.1)
      (by rw [h.accept, h.room, ← h.capacity]; exact out.2) here).2
    unfold Domain.releaseOne
    dsimp only
    rw [land.outbound, if_neg (by omega)]
    refine ⟨_, rfl, ?_⟩
    have alters := land.alters_setState .free
    refine h.freed (entry.setState .free) gone
      ⟨alters.accept, alters.capacity, alters.last, alters.entries, alters.native, alters.submits,
        alters.consumes, alters.published⟩ ⟨land.trade.tokens, land.trade.slots, List.nodup_nil⟩
      here rfl
      (land.good_setState out.2 _) rfl fresh
      (land.held out.1 _ ⟨ready, quiet, land.landed⟩) ?_
    intro token
    have owned := land.owned token
    unfold Entry.Lends at owned
    rw [here, vacant] at owned
    refine ⟨?_, ?_⟩
    · unfold Entry.Owns Entry.Lends
      simp [Entry.setState, land.landed, quiet]
    · intro owns
      by_cases mem : token ∈ gone
      · exact mem
      · have := owned.mp ⟨mem, owns⟩
        simp at this

end

theorem Next.committed (next : Next layout world token store) :
    ∃ store', store.commit token = .ok store' ∧ store'.Good ∧
      store'.capacity = world.domain.resident.capacity ∧
      store'.last = world.domain.resident.last ∧
      store'.entries = update world.entries token.index (world.entries token.index).settle := by
  rcases next.entries with ⟨entries, capacity, last, -⟩
  have count := Store.flights_put store (capacity.symm ▸ next.inside)
    (store.entries token.index).settle
  have landed : (store.entries token.index).inflight = false := by
    rw [entries]
    exact next.landed
  have still : (store.entries token.index).settle.inflight = false := by
    unfold Entry.settle
    split <;> exact landed
  have quiet : (store.entries token.index).settle.linked = false := by
    unfold Entry.linked Entry.settle
    split <;> simp [Entry.setPhase, Entry.recycle, Entry.setStatus]
  have same : store.inflight = (store.put token.index (store.entries token.index).settle).flights := by
    have total := next.good.flights
    rw [landed, still] at count
    omega
  rcases next.good.pop next.front quiet same with ⟨rest, link, good⟩
  refine ⟨_, ?_, good, capacity, last, ?_⟩
  · unfold Store.commit
    dsimp only
    rw [Entry.link_ok link]
    rfl
  · rw [← entries]
    rfl

theorem Base.lands (h : world.Base layout) {store' : Store T}
    (next : Next layout world token store) (good : store'.Good)
    (capacity : store'.capacity = world.domain.resident.capacity)
    (last : store'.last = world.domain.resident.last)
    (entries : store'.entries = update world.entries token.index (world.entries token.index).settle)
    (arrived : (world.native token.index).arrived = false) :
    Landing layout world { world with
      domain := { world.domain with resident := store' }
      native := world.setNative token.index
        { world.native token.index with occupied := false } } token.index
      (world.entries token.index).settle [] := by
  have was := h.held token.index
  have settle : (world.entries token.index).settle.generation =
      (world.entries token.index).generation ∧
      (world.entries token.index).settle.lease =
      (world.entries token.index).lease ∧
      (world.entries token.index).settle.state =
      (world.entries token.index).state ∧
      (world.entries token.index).settle.inflight = false := by
    unfold Entry.settle
    cases leased : (world.entries token.index).lease with
    | true => exact ⟨rfl, leased, rfl, next.landed⟩
    | false => exact ⟨rfl, rfl, rfl, next.landed⟩
  refine ⟨⟨rfl, capacity, last, entries, fun j apart => update_of_ne apart ..,
    fun _ _ => rfl, fun _ _ => rfl, fun _ => id⟩, ⟨rfl, nofun, List.nodup_nil⟩, rfl, good, ?_, ?_,
    settle.2.2.2, settle.2.1, settle.2.2.1, settle.1, ?_, ?_, ?_⟩
  · unfold Entry.settle
    split
    · exact was.sound.rest _ id (.inr rfl)
    · exact was.sound.rest false nofun (.inl rfl)
  · unfold Entry.settle
    cases leased : (world.entries token.index).lease with
    | true => exact .inl ⟨leased, rfl⟩
    | false => exact .inr ⟨rfl, rfl⟩
  · have counts := was.counts
    rw [next.landed] at counts
    exact counts
  · dsimp only [setNative]
    rw [update_self]
    exact arrived
  · intro other
    unfold Entry.Owns
    simp [next.landed]

theorem Base.pending_state (h : world.Base layout) (out : layout.accept ≤ i)
    (pending : (world.entries i).phase = .pending) :
    (∃ before o, (world.entries i).state = .route before o ∧ (before = .closingOne ∨
        before = .closingZero ∧ (world.entries i).lease = false)) ∨
    (world.entries i).state = .standalone ∧ (world.entries i).lease = false := by
  have placed := ((h.held i).placed out).1
  unfold Entry.Placed Entry.PlacedIn Entry.Idle Entry.InUse at placed
  split at placed <;> grind

theorem Inv.commit (h : world.Inv layout) :
    ∃ out world', world.step .commit = .ok (out, world') ∧ Keeps layout world world' := by
  unfold step
  dsimp only
  rcases h.toBase.next with ⟨store, run, good, same, -⟩ | ⟨token, store, run, next⟩
  · rw [run]
    exact ⟨_, _, rfl, h.queueOnly good same⟩
  · rcases next.committed with ⟨store', committed, good, capacity, last, entries⟩
    have mine : store'.entries token.index = (world.entries token.index).settle := by
      rw [entries, update_self]
    rw [run]
    dsimp only
    unfold Domain.commit Store.recycle
    rw [(next.words _).1, (next.words _).2]
    dsimp only
    by_cases low : token.index < layout.accept
    · -- the kernel may fill an accepted slot from here on
      have class_eq : (world.entries token.index).classAt layout.accept
          token.index = .close := if_pos low
      rw [class_eq]
      dsimp only
      rw [committed]
      dsimp only
      rw [if_pos (by rw [h.accept]; exact low)]
      refine ⟨_, _, rfl, ?_⟩
      have taken := Next.accepting h.toBase next low
      have was := h.held token.index
      have accepting := was.accepting low
      have settle : (world.entries token.index).settle = (world.entries token.index).recycle := by
        unfold Entry.settle
        rw [if_neg (by rw [taken.1]; nofun)]
      rw [settle] at entries
      refine h.alter (world.entries token.index).recycle [] []
        ⟨rfl, capacity, last, entries, fun j apart => update_of_ne apart ..,
          fun _ _ => rfl, fun _ _ => rfl, fun _ => id⟩ ⟨rfl, nofun, List.nodup_nil⟩ rfl good rfl
        (fun _ _ => rfl) ?_ nofun ?_
      · dsimp only [setNative]
        rw [update_self]
        refine ⟨was.sound.rest false nofun (.inl rfl), ?_,
          fun out => absurd low (Nat.not_lt.mpr out), was.counts, nofun⟩
        intro _
        refine ⟨accepting.state, nofun, ?_, ?_, ?_, fun _ => ⟨rfl, .inl rfl⟩, ?_, nofun⟩
        · intro (flying : (world.entries token.index).inflight = true)
          rw [next.landed] at flying
          cases flying
        · intro (running : (world.native token.index).running = true)
          rw [taken.2.1] at running
          cases running
        · exact fun _ _ => taken.2.1
        · intro (arrived : (world.native token.index).arrived = true)
          rw [taken.2.2.2] at arrived
          cases arrived
      · intro other
        unfold Entry.Owns Entry.Lends
        simp [Entry.recycle, Entry.setStatus, accepting.state, taken.1, next.landed]
    · have out : layout.accept ≤ token.index := by omega
      have land := h.toBase.lands next good capacity last entries ((h.held token.index).placed out).2
      rcases h.toBase.pending_state out next.pending with ⟨before, o, here, closing⟩ | ⟨here, vacant⟩
      · have class_eq : (world.entries token.index).classAt layout.accept token.index = .close := by
          unfold Entry.classAt
          rw [if_neg low, here]
          rfl
        rw [class_eq]
        dsimp only
        rw [committed]
        dsimp only
        rw [if_neg (by rw [h.accept]; exact low)]
        exact ⟨_, _, rfl, h.completes land here closing⟩
      · have class_eq : (world.entries token.index).classAt layout.accept
            token.index = .standalone := by
          unfold Entry.classAt
          rw [if_neg low, here]
          rfl
        rw [class_eq]
        dsimp only
        rw [committed]
        dsimp only
        rw [mine]
        have reuses := h.reuses land here vacant
        unfold Entry.reuse
        cases spent : (world.entries token.index).settle.exhausted with
        | true => exact ⟨_, _, rfl, reuses.1 spent⟩
        | false =>
          rcases reuses.2 spent with ⟨domain, run', keeps⟩
          rw [if_neg Bool.false_ne_true]
          dsimp only
          rw [show ({ world.domain with resident := store' } : Domain T).releaseOne token.index
            = .ok domain from run']
          exact ⟨_, _, rfl, keeps⟩

end World

/-! ## Echoes -/

/-- An entry whose retirement in flight is over. -/
def Entry.consumed (entry : Entry T) : Entry T :=
  { entry with inflight := false, side := .zero, bound := false }

namespace Store

/-- The store after an echo whose slot is not to be queued. -/
def landed (store : Store T) (i : Nat) (entry : Entry T) : Store T :=
  { store.put i entry with inflight := (store.inflight + (2 ^ 32 - 1)) % 2 ^ 32 }

theorem consume_eq (store : Store T) (token : Retirement) :
    store.consume token = store.landed token.index (store.entries token.index).consumed := rfl

theorem landed_entries (store : Store T) (i : Nat) (entry : Entry T) :
    (store.landed i entry).entries = update store.entries i entry := rfl

theorem landed_put (store : Store T) (i : Nat) (first second : Entry T) :
    (store.landed i first).put i second = store.landed i second := by
  have same := Store.put_put store i first second
  unfold landed
  rw [← same]
  rfl

/-- A retirement that had to wait is queued when the echo of the one before it is
consumed. -/
theorem Good.promote (h : store.Good) {i : Nat} (flying : (store.entries i).inflight = true)
    (entry : Entry T) (landed : entry.inflight = false) (pending : entry.phase = .pending)
    (first : Entry T) :
    ((store.landed i first).queue i entry).Good ∧
      ∃ word, ((store.landed i first).queue i entry).entries =
        update store.entries i { entry with word } := by
  have inside := h.inside (i := i) (by
    intro new
    rw [new] at flying
    cases flying)
  -- the slot is put to rest before it is queued
  have rest : (store.landed i { entry with phase := .ready }).Good :=
    h.land flying landed (by nofun)
  have mine : (store.landed i { entry with phase := .ready }).entries i =
      { entry with phase := .ready } := update_self ..
  have same : (store.landed i first).queue i entry =
      (store.landed i { entry with phase := .ready }).queue i entry := by
    unfold Store.queue
    rw [if_neg (by rw [landed]; nofun), if_neg (by rw [landed]; nofun)]
    have puts := landed_put store i first
    have puts' := landed_put store i { entry with phase := .ready }
    dsimp only
    rw [puts, puts']
    rfl
  rw [same]
  refine ⟨rest.queue inside ?_ pending ?_, ?_⟩
  · rw [mine]
    unfold Entry.linked
    simp
  · rw [mine]
  · rcases queue_entries (store.landed i { entry with phase := .ready }) i entry with
      ⟨word, entries, -⟩
    refine ⟨word, ?_⟩
    rw [entries, landed_entries, update_idem]

end Store

namespace World

variable {layout : Layout} {world world' : World T} {i owner index generation : Nat}

theorem Inv.bind (h : world.Inv layout) {raw : Nat}
    (allowed : (unpack raw).index < world.domain.accept →
      (world.native (unpack raw).index).running = false) :
    ∃ out world', world.step (.bind raw) = .ok (out, world') ∧ Keeps layout world world' := by
  have stays : Keeps layout world world := ⟨h, Domain.follows_of_eq rfl⟩
  unfold step Domain.bind
  dsimp only
  by_cases large : 2 ^ 58 ≤ raw
  · rw [if_pos large]
    exact ⟨_, _, rfl, stays⟩
  · rw [if_neg large]
    generalize unpack raw = token at allowed ⊢
    unfold Store.bind
    by_cases inside : token.index < world.domain.resident.capacity
    · rw [if_pos inside]
      by_cases found : ((world.entries token.index).inflight &&
          decide ((world.entries token.index).side = token.side) &&
          !(world.entries token.index).bound &&
          decide ((world.entries token.index).submitted = token.generation)) = true
      · dsimp only
        rw [if_pos found]
        dsimp only
        rw [h.toBase.classOf_eq]
        simp only [Bool.and_eq_true, decide_eq_true_eq, Bool.not_eq_true'] at found
        rcases found with ⟨⟨⟨flying, side⟩, free⟩, submitted⟩
        have was := h.held token.index
        have bound : Keeps layout world { world with
            domain := { world.domain with
              resident := world.domain.resident.put token.index
                { world.entries token.index with bound := true } }
            tokens := .echo token ((world.entries token.index).classAt
              layout.accept token.index) :: world.tokens } := by
          refine h.alter { world.entries token.index with bound := true } []
            [.echo token ((world.entries token.index).classAt layout.accept token.index)]
            ⟨rfl, rfl, rfl, rfl, fun _ _ => rfl, fun _ _ => rfl, fun _ _ => rfl, fun _ => id⟩
            ⟨rfl, by simp [Token.slot], by simp⟩ rfl
            (h.good.put inside rfl (fun _ => rfl) rfl) rfl (fun _ _ => rfl) ?_ ?_ ?_
          · refine ⟨⟨was.sound.bound, was.sound.leased, was.sound.spent, was.sound.flying,
              was.sound.queued⟩, ?_, was.placed, was.counts, was.targets⟩
            intro low
            have accepting := was.accepting low
            exact ⟨accepting.state, accepting.leased, accepting.done, accepting.running,
              fun _ _ => allowed (h.accept ▸ low), accepting.vacant, accepting.arrived,
              accepting.executed⟩
          · intro other mem owns
            rw [List.mem_singleton.mp mem] at owns
            unfold Entry.Owns Entry.Lends at owns
            rw [free] at owns
            split at owns <;> simp at owns
          · intro other
            unfold Entry.Owns Entry.Lends Entry.classAt
            rw [flying, free, submitted, side]
            simp only [true_and, Bool.false_eq_true, false_and, or_false, List.mem_singleton,
              List.not_mem_nil, not_false_eq_true]
            exact or_comm
        by_cases same : (world.entries token.index).classAt layout.accept token.index = observed raw
        · rw [if_pos same]
          exact ⟨_, _, rfl, bound⟩
        · rw [if_neg same]
          exact ⟨_, _, rfl, bound⟩
      · dsimp only
        rw [if_neg found]
        exact ⟨_, _, rfl, stays⟩
    · rw [if_neg inside]
      exact ⟨_, _, rfl, stays⟩

/-! ## Consumption -/

/-- An echo is current exactly while its slot waits for it. -/
theorem consumed_current {entry : Entry T} {last : Nat} (sound : entry.Sound last)
    (submitted : entry.submitted = generation) :
    entry.consumed.isCurrent generation = decide (entry.phase = .inFlight) := by
  unfold Entry.isCurrent
  by_cases flying : entry.phase = .inFlight
  · have epoch := (sound.flying flying).2
    rw [submitted] at epoch
    unfold Entry.epoch at epoch
    have phase : entry.consumed.phase = .inFlight := flying
    rw [phase]
    cases leased : entry.lease with
    | true =>
      rw [leased, if_pos rfl] at epoch
      have lease : entry.consumed.lease = true := leased
      have version : entry.consumed.generation = generation := Option.some.inj epoch
      rw [lease, version]
      simp [flying]
    | false =>
      rw [leased, if_neg Bool.false_ne_true] at epoch
      have lease : entry.consumed.lease = false := leased
      have retired : entry.consumed.retired = some generation := epoch
      rw [lease, retired]
      simp [flying]
  · have phase : entry.consumed.phase ≠ .inFlight := flying
    simp [flying, phase]

theorem Base.flying_state (h : world.Base layout) (out : layout.accept ≤ i)
    (flying : (world.entries i).inflight = true) :
    (world.entries i).phase = .inFlight ∧
    ((∃ before o, (world.entries i).state = .route before o ∧ (before = .closingOne ∨
        before = .closingZero ∧ (world.entries i).lease = false)) ∨
    (world.entries i).state = .standalone ∧ (world.entries i).lease = false) := by
  have placed := ((h.held i).placed out).1
  unfold Entry.Placed Entry.PlacedIn Entry.Idle Entry.InUse Entry.Closing at placed
  split at placed <;> grind

/-- The echo of a close outside the accepted slots lands. -/
theorem Base.returns (h : world.Base layout) {echo : Retirement} {expected : Class}
    (mem : .echo echo expected ∈ world.tokens) (out : layout.accept ≤ echo.index) :
    Landing layout world { world with
      domain := { world.domain with
        resident := world.domain.resident.landed echo.index
          (world.entries echo.index).consumed.settle }
      tokens := world.tokens.erase (.echo echo expected)
      consumes := update world.consumes echo.index (world.consumes echo.index + 1) }
      echo.index (world.entries echo.index).consumed.settle
      [.echo echo expected] := by
  rcases h.echo_mem mem with ⟨flying, bound, submitted, side, class_eq⟩
  have was := h.held echo.index
  have settle : (world.entries echo.index).consumed.settle.generation =
      (world.entries echo.index).generation ∧
      (world.entries echo.index).consumed.settle.lease =
      (world.entries echo.index).lease ∧
      (world.entries echo.index).consumed.settle.state =
      (world.entries echo.index).state ∧
      (world.entries echo.index).consumed.settle.inflight = false := by
    unfold Entry.settle
    cases leased : (world.entries echo.index).consumed.lease with
    | true => exact ⟨rfl, rfl, rfl, rfl⟩
    | false => exact ⟨rfl, leased.symm, rfl, rfl⟩
  have rest : (world.entries echo.index).consumed.settle.lease = true ∧
        (world.entries echo.index).consumed.settle.phase = .quiescent ∨
      (world.entries echo.index).consumed.settle.lease = false ∧
        (world.entries echo.index).consumed.settle.phase = .ready := by
    unfold Entry.settle
    cases leased : (world.entries echo.index).consumed.lease with
    | true => exact .inl ⟨leased, rfl⟩
    | false => exact .inr ⟨rfl, rfl⟩
  refine ⟨⟨rfl, rfl, rfl, rfl, fun _ _ => rfl, fun _ _ => rfl,
    fun j apart => update_of_ne apart .., fun _ => id⟩,
    ⟨rfl, by simp [Token.slot], List.nodup_nil⟩, rfl,
    h.good.land flying settle.2.2.2 ?_, ?_, rest, settle.2.2.2, settle.2.1, settle.2.2.1, settle.1,
    ?_, ?_, ?_⟩
  · rcases rest with ⟨-, phase⟩ | ⟨-, phase⟩
    · rw [phase]
      simp
    · rw [phase]
      simp
  · unfold Entry.settle
    split
    · exact was.sound.calm rfl rfl id (.inr rfl)
    · exact was.sound.calm rfl rfl (by rintro ⟨⟩) (.inl rfl)
  · have counts := was.counts
    rw [flying] at counts
    dsimp only
    rw [update_self]
    exact counts
  · exact (was.placed out).2
  · intro other
    unfold Entry.Owns
    rw [flying, bound, submitted, side, ← class_eq]
    have apart : (world.entries echo.index).Lends layout.accept
        world.slot echo.index (.echo echo expected) → False := by
      intro lends
      unfold Entry.Lends at lends
      split at lends <;> simp at lends
    have same : (⟨echo.index, echo.generation, echo.side⟩ : Retirement) = echo := rfl
    simp only [List.mem_singleton, true_and, same]
    grind

end World

namespace Store

variable {store : Store T} {token : Retirement}

theorem consume_entries :
    (store.consume token).entries token.index = (store.entries token.index).consumed :=
  update_self ..

theorem promote_idle (idle : (store.entries token.index).phase ≠ .pending) :
    store.promote token = store := if_neg idle

theorem promote_pending (pending : (store.entries token.index).phase = .pending) :
    store.promote token = store.queue token.index (store.entries token.index) := if_pos pending

theorem settle_phase (entry : Entry T) : entry.settle.phase ≠ .pending := by
  unfold Entry.settle
  split
  · nofun
  · nofun

theorem finish_current
    (current : (store.entries token.index).consumed.isCurrent token.generation = true) :
    store.finish token =
      store.landed token.index (store.entries token.index).consumed.settle := by
  unfold finish
  dsimp only
  rw [consume_entries, if_pos current, consume_eq, landed_put, promote_idle]
  rw [landed_entries, update_self]
  exact settle_phase _

/-- The end of a retirement that the slot does not wait for. -/
theorem finish_stale
    (stale : (store.entries token.index).consumed.isCurrent token.generation = false) :
    store.finish token = (store.consume token).promote token := by
  unfold finish
  dsimp only
  rw [consume_entries, if_neg (by rw [stale]; nofun)]

theorem retry_current
    (current : (store.entries token.index).consumed.isCurrent token.generation = true) :
    store.retry token = (store.landed token.index
      ((store.entries token.index).consumed.setPhase .pending)).queue token.index
        ((store.entries token.index).consumed.setPhase .pending) := by
  unfold retry
  dsimp only
  rw [consume_entries, if_pos current, consume_eq, landed_put, promote_pending]
  · rw [landed_entries, update_self]
  · rw [landed_entries, update_self]
    rfl

theorem retry_stale
    (stale : (store.entries token.index).consumed.isCurrent token.generation = false) :
    store.retry token = (store.consume token).promote token := by
  unfold retry
  dsimp only
  rw [consume_entries, if_neg (by rw [stale]; nofun)]

theorem Good.stale (h : store.Good) (flying : (store.entries token.index).inflight = true) :
    ((store.consume token).promote token).Good ∧
      ((store.consume token).promote token).capacity = store.capacity ∧
      ((store.consume token).promote token).last = store.last ∧
      ∃ next : Entry T, ((store.consume token).promote token).entries =
          update store.entries token.index next ∧
        (∃ word, next = { (store.entries token.index).consumed with word }) ∧
        ((store.entries token.index).phase ≠ .pending →
          next.word = (store.entries token.index).word) := by
  by_cases pending : (store.entries token.index).phase = .pending
  · have mine : ((store.consume token).entries token.index).phase = .pending := by
      rw [consume_entries]
      exact pending
    rw [promote_pending mine, consume_entries, consume_eq]
    rcases h.promote flying (store.entries token.index).consumed rfl pending
      (store.entries token.index).consumed with ⟨good, word, entries⟩
    have rest := queue_rest (store.landed token.index (store.entries token.index).consumed)
      token.index (store.entries token.index).consumed
    exact ⟨good, rest.1, rest.2, _, entries, ⟨word, rfl⟩, fun no => absurd pending no⟩
  · have mine : ((store.consume token).entries token.index).phase ≠ .pending := by
      rw [consume_entries]
      exact pending
    rw [promote_idle mine, consume_eq]
    exact ⟨h.land flying rfl pending, rfl, rfl, _, landed_entries .., ⟨_, rfl⟩, fun _ => rfl⟩

end Store

namespace World

variable {layout : Layout} {world world' : World T} {i owner index generation : Nat}
  {echo : Retirement} {expected : Class}

theorem Inv.consumes (h : world.Inv layout) (mem : .echo echo expected ∈ world.tokens)
    (low : echo.index < layout.accept) (next : Entry T) (closed : Option Retirement)
    (good : store.Good) (capacity : store.capacity = world.domain.resident.capacity)
    (last : store.last = world.domain.resident.last)
    (entries : store.entries = update world.entries echo.index next)
    (sound : next.Sound layout.last)
    (same : next.state = (world.entries echo.index).state ∧ next.lease =
      (world.entries echo.index).lease ∧ next.generation =
      (world.entries echo.index).generation ∧ next.inflight = false)
    (phase : (world.entries echo.index).phase ≠ .inFlight ∧ next.phase =
      (world.entries echo.index).phase ∨ (world.entries
      echo.index).phase = .inFlight ∧ next.phase = .ready ∨ next.phase = .pending ∧
      (world.entries echo.index).phase = .inFlight ∧ (world.native
      echo.index).occupied = true ∧ (world.native echo.index).arrived = false)
    (word : (world.entries echo.index).phase ≠ .pending → next.lease = true →
      next.word = (world.entries echo.index).word) :
    Keeps layout world { world with
      domain := { world.domain with resident := store, closed }
      tokens := world.tokens.erase (.echo echo expected)
      consumes := update world.consumes echo.index
        (world.consumes echo.index + 1) } := by
  rcases h.echo_mem mem with ⟨flying, bound, submitted, side, class_eq⟩
  have was := h.held echo.index
  have accepting := was.accepting low
  have still := accepting.echoed flying bound
  refine h.alter next [.echo echo expected] [] ⟨rfl, capacity, last, entries, fun _ _ => rfl,
    fun _ _ => rfl, fun j apart => update_of_ne apart .., fun _ => id⟩
    ⟨rfl, by simp [Token.slot], List.nodup_nil⟩ rfl good same.1
    (fun out => absurd low (Nat.not_lt.mpr out)) ?_ (by simp) ?_
  · refine ⟨sound, ?_, fun out => absurd low (Nat.not_lt.mpr out), ?_, ?_⟩
    · intro _
      refine ⟨same.1.trans accepting.state, ?_, ?_, ?_, ?_, ?_, accepting.arrived, ?_⟩
      · have leased := accepting.leased
        rw [same.2.1]
        grind
      · rw [same.2.2.2]
        simp
      · dsimp only
        rw [still]
        simp
      · exact fun _ _ => still
      · intro either
        have vacant := accepting.vacant either
        rw [same.2.1]
        grind
      · intro _ no
        grind
    · have counts := was.counts
      rw [flying] at counts
      dsimp only
      rw [update_self, same.2.2.2]
      exact counts
    · intro ready leased
      have old := accepting.leased (same.2.1 ▸ leased)
      refine (was.targets old (same.2.1 ▸ leased)).congr ?_ same.2.2.1 fun _ => id
      exact word (by rw [old]; simp) leased
  · intro other
    have eta : (⟨echo.index, echo.generation, echo.side⟩ : Retirement) = echo := rfl
    unfold Entry.Owns Entry.Lends
    rw [same.1, same.2.1, same.2.2.1, same.2.2.2, flying, bound, submitted, side, ← class_eq,
      accepting.state, eta]
    simp only [List.mem_singleton, List.not_mem_nil]
    grind

theorem Base.echo_current (h : world.Base layout) (mem : .echo echo expected ∈ world.tokens) :
    (world.entries echo.index).consumed.isCurrent echo.generation =
      decide ((world.entries echo.index).phase = .inFlight) :=
  consumed_current (h.held echo.index).sound (h.echo_mem mem).2.2.1

/-- A stale echo of an accepted slot leaves its owner alone. -/
theorem Inv.staled (h : world.Inv layout) (mem : .echo echo expected ∈ world.tokens)
    (low : echo.index < layout.accept) (stale : (world.entries echo.index).phase ≠ .inFlight)
    (closed : Option Retirement) :
    Keeps layout world { world with
      domain := { world.domain with
        resident := (world.domain.resident.consume echo).promote echo, closed }
      tokens := world.tokens.erase (.echo echo expected)
      consumes := update world.consumes echo.index
        (world.consumes echo.index + 1) } := by
  rcases h.echo_mem mem with ⟨flying, -, -, -, -⟩
  have was := h.held echo.index
  rcases h.good.stale flying with ⟨good, capacity, last, next, entries, ⟨word, shape⟩, kept⟩
  refine h.consumes mem low next closed good capacity last entries ?_ ?_ (.inl ⟨stale, ?_⟩)
    (fun idle _ => kept idle)
  · rw [shape]
    exact ⟨was.sound.bound, was.sound.leased, was.sound.spent, fun no => absurd no stale,
      was.sound.queued⟩
  · rw [shape]
    exact ⟨rfl, rfl, rfl, rfl⟩
  · rw [shape]
    rfl

theorem Inv.complete (h : world.Inv layout) (mem : .echo echo expected ∈ world.tokens) :
    ∃ out world', world.step (.complete echo expected) = .ok (out, world') ∧
      Keeps layout world world' := by
  rcases h.echo_mem mem with ⟨flying, bound, submitted, side, class_eq⟩
  have current := h.toBase.echo_current mem
  have was := h.held echo.index
  unfold step Domain.completeEcho
  cases expected with
  | standalone =>
    have out : layout.accept ≤ echo.index := by
      by_cases low : echo.index < layout.accept
      · unfold Entry.classAt at class_eq
        rw [if_pos low] at class_eq
        cases class_eq
      · omega
    rcases h.toBase.flying_state out flying with ⟨-, ⟨before, o, here, -⟩ | ⟨here, vacant⟩⟩
    · unfold Entry.classAt at class_eq
      rw [if_neg (by omega), here] at class_eq
      cases class_eq
    · have land := h.toBase.returns mem out
      have reuses := h.reuses land here vacant
      have finish : world.domain.resident.finishReuse echo =
          ((world.entries echo.index).consumed.settle.reuse, world.domain.resident.landed echo.index
              (world.entries echo.index).consumed.settle) := by
        unfold Store.finishReuse
        dsimp only
        rw [Store.consume_entries, Store.consume_eq, Store.landed_put, Store.landed_entries,
          update_self]
      dsimp only
      rw [finish]
      unfold Entry.reuse
      cases spent : (world.entries echo.index).consumed.settle.exhausted with
      | true => exact ⟨_, _, rfl, reuses.1 spent⟩
      | false =>
        rcases reuses.2 spent with ⟨domain, run, keeps⟩
        rw [if_neg Bool.false_ne_true]
        dsimp only
        dsimp only at run
        rw [run]
        exact ⟨_, _, rfl, keeps⟩
  | close =>
    dsimp only
    by_cases low : echo.index < layout.accept
    · rw [if_pos (by rw [h.accept]; exact low)]
      refine ⟨_, _, rfl, ?_⟩
      by_cases waits : (world.entries echo.index).phase = .inFlight
      · have leased := (was.accepting low).leased
        have vacant : (world.entries echo.index).lease = false := by
          rw [waits] at leased
          simpa using leased
        have settle : (world.entries echo.index).consumed.settle =
            (world.entries echo.index).consumed.recycle := by
          unfold Entry.settle
          refine if_neg ?_
          intro (leased : (world.entries echo.index).lease = true)
          rw [vacant] at leased
          cases leased
        rw [Store.finish_current (by rw [current]; simpa using waits), settle]
        exact h.consumes mem low _ (some echo) (h.good.land flying rfl nofun) rfl rfl rfl
          (was.sound.calm rfl rfl nofun (.inl rfl)) ⟨rfl, vacant.symm, rfl, rfl⟩
          (.inr (.inl ⟨waits, rfl⟩)) nofun
      · rw [Store.finish_stale (by rw [current]; simpa using waits)]
        exact h.staled mem low waits (some echo)
    · have out : layout.accept ≤ echo.index := by omega
      rcases h.toBase.flying_state out flying with
        ⟨waits, ⟨before, o, here, closing⟩ | ⟨here, vacant⟩⟩
      · rw [if_neg (by rw [h.accept]; exact low),
          Store.finish_current (by rw [current]; simpa using waits)]
        exact ⟨_, _, rfl, h.completes (h.toBase.returns mem out) here closing⟩
      · unfold Entry.classAt at class_eq
        rw [if_neg low, here] at class_eq
        cases class_eq

theorem Inv.retry (h : world.Inv layout) (mem : .echo echo expected ∈ world.tokens)
    (allowed : echo.index < world.domain.accept → (world.native echo.index).executed = false ∨
      (world.native echo.index).occupied = true ∧ (world.native echo.index).arrived = false) :
    Keeps layout world { world with
      domain := world.domain.retryEcho echo
      tokens := world.tokens.erase (.echo echo expected)
      consumes := update world.consumes echo.index
        (world.consumes echo.index + 1) } := by
  rcases h.echo_mem mem with ⟨flying, bound, submitted, side, class_eq⟩
  have current := h.toBase.echo_current mem
  have was := h.held echo.index
  unfold Domain.retryEcho
  by_cases waits : (world.entries echo.index).phase = .inFlight
  · rw [Store.retry_current (by rw [current]; simpa using waits)]
    rcases h.good.promote flying ((world.entries echo.index).consumed.setPhase
      .pending) rfl rfl ((world.entries echo.index).consumed.setPhase .pending) with
      ⟨good, word, entries⟩
    have rest := Store.queue_rest (world.domain.resident.landed echo.index
      ((world.entries echo.index).consumed.setPhase .pending)) echo.index
      ((world.entries echo.index).consumed.setPhase .pending)
    have epoch := (was.sound.flying waits).2
    have sound : ({ (world.entries echo.index).consumed.setPhase .pending with
        word } : Entry T).Sound layout.last :=
      ⟨was.sound.bound, was.sound.leased, was.sound.spent, (by rintro ⟨⟩),
        fun _ none => absurd (epoch.symm.trans none) (by simp)⟩
    by_cases low : echo.index < layout.accept
    · have leased := (was.accepting low).leased
      have vacant : (world.entries echo.index).lease = false := by
        rw [waits] at leased
        simpa using leased
      have taken : (world.native echo.index).occupied = true ∧
          (world.native echo.index).arrived = false := by
        have either := allowed (h.accept ▸ low)
        have gone := (was.accepting low).vacant
        grind
      refine h.consumes mem low _ world.domain.closed good rest.1 rest.2 entries sound
        ⟨rfl, rfl, rfl, rfl⟩ (.inr (.inr ⟨rfl, waits, taken⟩)) ?_
      intro _ (leased : (world.entries echo.index).lease = true)
      rw [vacant] at leased
      cases leased
    · have out : layout.accept ≤ echo.index := by omega
      have placed := was.placed out
      refine h.alter { (world.entries echo.index).consumed.setPhase .pending with
          word } [.echo echo expected] []
        ⟨rfl, rest.1, rest.2, entries, fun _ _ => rfl, fun _ _ => rfl,
          fun j apart => update_of_ne apart .., fun _ => id⟩
        ⟨rfl, by simp [Token.slot], List.nodup_nil⟩ rfl good rfl ?_ ?_ (by simp) ?_
      · intro _ free
        rcases h.toBase.flying_state out flying with ⟨-, ⟨before, o, here, -⟩ | ⟨here, -⟩⟩
        · rw [here] at free
          cases free
        · rw [here] at free
          cases free
      · refine ⟨sound, fun no => absurd no low, fun _ => ⟨?_, placed.2⟩, ?_,
          by intro no; cases no⟩
        · have old := placed.1
          unfold Entry.Placed Entry.PlacedIn Entry.Idle Entry.InUse Entry.Closing Entry.consumed
            Entry.setPhase at *
          dsimp only at *
          split at old <;> grind
        · have counts := was.counts
          rw [flying] at counts
          dsimp only
          rw [update_self]
          exact counts
      · intro other
        have eta : (⟨echo.index, echo.generation, echo.side⟩ : Retirement) = echo := rfl
        unfold Entry.Owns
        rw [flying, bound, submitted, side, ← class_eq, eta]
        have apart : (world.entries echo.index).Lends layout.accept
            world.slot echo.index (.echo echo expected) → False := by
          intro lends
          unfold Entry.Lends at lends
          split at lends <;> simp at lends
        have lends : ({ (world.entries echo.index).consumed.setPhase .pending with
            word } : Entry T).Lends layout.accept world.slot echo.index other ↔
              (world.entries echo.index).Lends layout.accept
                world.slot echo.index other := Iff.rfl
        rw [lends]
        simp only [Entry.consumed, Entry.setPhase, List.mem_singleton, List.not_mem_nil]
        grind
  · have low : echo.index < layout.accept := by
      by_cases low : echo.index < layout.accept
      · exact low
      · exact absurd (h.toBase.flying_state (by omega) flying).1 waits
    rw [Store.retry_stale (by rw [current]; simpa using waits)]
    exact h.staled mem low waits world.domain.closed

end World

end Dope.Core.Fd
