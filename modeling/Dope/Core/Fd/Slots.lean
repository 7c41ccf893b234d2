import Dope.Core.Fd.Held

/-! # Moves of a slot

What the operations make of one entry, and that it still fits its history.
-/

namespace Dope.Core.Fd

variable {T : Type} {accept last i : Nat} {entry : Entry T} {native : Native}
  {submits consumes : Nat} {published : List (Nat × Nat × T)} {phase : Phase}

namespace Entry

theorem epoch_leased (leased : entry.lease = true) : entry.epoch = some entry.generation := by
  unfold epoch
  rw [if_pos leased]

theorem epoch_lt (sound : entry.Sound last) {epoch : Nat} (found : entry.epoch = some epoch) :
    epoch ≤ last := by
  have bound := sound.bound
  unfold Entry.epoch retired at found
  grind

/-! ## Generations -/

theorem retired_advance (fresh : entry.exhausted = false) :
    (entry.advance last).retired = some entry.generation := by
  unfold advance
  by_cases spent : entry.generation = last
  · rw [if_pos spent]
    rfl
  · rw [if_neg spent]
    unfold retired
    rw [if_neg (by rw [fresh]; nofun), if_neg (Nat.succ_ne_zero _)]
    rfl

theorem advance_inflight : (entry.advance last).inflight = entry.inflight := by
  unfold advance
  split <;> rfl

theorem advance_bound : (entry.advance last).bound = entry.bound := by
  unfold advance
  split <;> rfl

theorem advance_side : (entry.advance last).side = entry.side := by
  unfold advance
  split <;> rfl

theorem advance_submitted : (entry.advance last).submitted = entry.submitted := by
  unfold advance
  split <;> rfl

theorem advance_state : (entry.advance last).state = entry.state := by
  unfold advance
  split <;> rfl

theorem advance_word : (entry.advance last).word = entry.word := by
  unfold advance
  split <;> rfl

section

variable (sound : entry.Sound last)

include sound

theorem Sound.advance_bound :
    (entry.advance last).generation ≤ last ∧
      ((entry.advance last).exhausted = true → (entry.advance last).generation = last) := by
  have bound := sound.bound
  unfold advance
  by_cases spent : entry.generation = last
  · rw [if_pos spent]
    exact ⟨bound, fun _ => spent⟩
  · rw [if_neg spent]
    refine ⟨Nat.lt_of_le_of_ne bound spent, ?_⟩
    intro old
    exact absurd (sound.spent old) spent

/-- A lease ends, and its retirement may be under way. -/
theorem Sound.release (fresh : entry.exhausted = false)
    (flying : phase = .inFlight → entry.lease = true ∧ entry.phase = .inFlight) :
    ((entry.advance last).setStatus phase false).Sound last := by
  have retired : (entry.advance last).retired = _ := retired_advance fresh
  have epoch : ((entry.advance last).setStatus phase false).epoch = some entry.generation := retired
  refine ⟨sound.advance_bound.1, nofun, sound.advance_bound.2, ?_, ?_⟩
  · intro same
    rcases flying same with ⟨leased, before⟩
    have was := sound.flying before
    rw [epoch_leased leased] at was
    rw [epoch, was.2]
    exact ⟨advance_inflight.trans was.1, congrArg some advance_submitted.symm⟩
  · intro _
    rw [epoch]
    nofun

theorem Sound.setState (state : SlotState) : (entry.setState state).Sound last :=
  ⟨sound.bound, sound.leased, sound.spent, sound.flying, sound.queued⟩

theorem Sound.claim (fresh : entry.exhausted = false) : entry.claim.Sound last :=
  ⟨sound.bound, fun _ => fresh, sound.spent, nofun, nofun⟩

theorem Sound.calm {next : Entry T} (generation : next.generation = entry.generation)
    (exhausted : next.exhausted = entry.exhausted) (kept : next.lease = true → entry.lease = true)
    (rest : next.phase = .ready ∨ next.phase = .quiescent) : next.Sound last := by
  refine ⟨generation ▸ sound.bound, fun leased => exhausted ▸ sound.leased (kept leased), ?_, ?_,
    ?_⟩
  · rw [generation, exhausted]
    exact sound.spent
  · intro same
    rw [same] at rest
    rcases rest with no | no <;> cases no
  · intro same
    rw [same] at rest
    rcases rest with no | no <;> cases no

theorem Sound.rest (lease : Bool) (kept : lease = true → entry.lease = true)
    (rest : phase = .ready ∨ phase = .quiescent) :
    (entry.setStatus phase lease).Sound last := sound.calm rfl rfl kept rest

end

end Entry

/-! ## Holders -/

namespace World.Base

variable {layout : Layout} {world : World T} {owner index generation : Nat}

section

variable (h : world.Base layout)

include h

theorem accepted_mem (mem : .accepted i generation ∈ world.tokens) :
    i < layout.accept ∧ (world.entries i).lease = true ∧
      (world.entries i).generation = generation := by
  have owns := (h.owned _).mp mem
  unfold Entry.Owns Entry.Lends Token.slot at owns
  split at owns <;> grind

theorem solo_mem (mem : .solo i generation ∈ world.tokens) :
    (world.entries i).state = .standalone ∧ (world.entries i).lease = true ∧
      (world.entries i).generation = generation := by
  have owns := (h.owned _).mp mem
  unfold Entry.Owns Entry.Lends Token.slot at owns
  split at owns <;> grind

theorem unopened_mem (mem : .unopened i owner index generation ∈ world.tokens) :
    (world.entries i).state = .route .unopenedOne owner ∧ world.slot owner index = some i ∧
      (world.entries i).generation = generation := by
  have owns := (h.owned _).mp mem
  unfold Entry.Owns Entry.Lends Token.slot at owns
  split at owns <;> grind

theorem creating_mem (mem : .creating i owner generation ∈ world.tokens) :
    (world.entries i).generation = generation ∧
      ((world.entries i).state = .route .creatingOne owner ∨
        (world.entries i).state = .route .openTwo owner ∨
        (world.entries i).state = .route .failedOne owner ∨
        ((world.entries i).state = .route .closingOne owner ∨
          (world.entries i).state = .route .closedOne owner) ∧
          (world.entries i).lease = true) := by
  have owns := (h.owned _).mp mem
  unfold Entry.Owns Entry.Lends Token.slot at owns
  split at owns <;> grind

theorem active_mem (mem : .active i owner generation ∈ world.tokens) :
    (world.entries i).state = .route .openOne owner ∧
      (world.entries i).generation = generation := by
  have owns := (h.owned _).mp mem
  unfold Entry.Owns Entry.Lends Token.slot at owns
  split at owns <;> grind

theorem made_mem (mem : .made i owner ∈ world.tokens) :
    (world.entries i).state = .route .openTwo owner ∨
      ((world.entries i).state = .route .closingOne owner ∨
        (world.entries i).state = .route .closedOne owner) ∧
        (world.entries i).lease = false := by
  have owns := (h.owned _).mp mem
  unfold Entry.Owns Entry.Lends Token.slot at owns
  split at owns <;> grind

theorem flight_mem (mem : .flight i owner index ∈ world.tokens) :
    ((world.entries i).state = .route .creatingOne owner ∨
      (world.entries i).state = .route .creatingZero owner) ∧
      world.slot owner index = some i := by
  have owns := (h.owned _).mp mem
  unfold Entry.Owns Entry.Lends Token.slot at owns
  split at owns <;> grind

theorem echo_mem {echo : Retirement} {expected : Class} (mem : .echo echo expected ∈ world.tokens) :
    (world.entries echo.index).inflight = true ∧ (world.entries echo.index).bound = true ∧
      (world.entries echo.index).submitted = echo.generation ∧
      (world.entries echo.index).side = echo.side ∧
      expected = (world.entries echo.index).classAt layout.accept echo.index := by
  have owns := (h.owned _).mp mem
  unfold Entry.Owns Entry.Lends Token.slot at owns
  split at owns <;> grind

/-- A slot with a state lies behind the accepted ones. -/
theorem out_of_state (used : (world.entries i).state ≠ .free) :
    layout.accept ≤ i ∧ i < world.domain.resident.capacity := by
  refine ⟨?_, h.good.inside ?_⟩
  · by_cases inside : i < layout.accept
    · exact absurd ((h.held i).accepting inside).state used
    · omega
  · intro (new : world.entries i = _)
    rw [new] at used
    exact used rfl

end

end World.Base

/-! ## Slots of routes -/

/-- A slot of a route moves on, and tokens change hands. -/
structure World.Reroute (layout : Layout) (world : World T) (i owner : Nat)
    (before after : SlotPhase) (store : Store T) (entry : Entry T) (gone new : List Token) :
    Prop where
  here : (world.domain.resident.entries i).state = .route before owner
  there : entry.state = .route after owner
  entries : store.entries = Function.update world.domain.resident.entries i entry
  capacity : store.capacity = world.domain.resident.capacity
  last : store.last = world.domain.resident.last
  good : store.Good
  sound : entry.Sound layout.last
  placed : entry.Placed
  inflight : entry.inflight = (world.domain.resident.entries i).inflight
  word : entry.lease = true → entry.phase = .ready → entry.word = .clear ∨
    entry.word = (world.domain.resident.entries i).word ∧
      entry.generation = (world.domain.resident.entries i).generation ∧
      (world.domain.resident.entries i).lease = true ∧
      (world.domain.resident.entries i).phase = .ready
  slots : ∀ token, token ∈ gone ∨ token ∈ new → token.slot = i
  nodup : new.Nodup
  fresh : ∀ token, token ∈ new → ¬ (world.domain.resident.entries i).Owns layout.accept
    world.domain.outbound.slot i token
  owned : ∀ token, entry.Owns layout.accept world.domain.outbound.slot i token ↔
    token ∈ new ∨ token ∉ gone ∧ (world.domain.resident.entries i).Owns layout.accept
      world.domain.outbound.slot i token

variable {before after : SlotPhase} {gone new : List Token}

namespace World

variable {layout : Layout} {world : World T} {owner index generation : Nat}

/-- The same for any other change of the world that comes with it. -/
structure Resets (layout : Layout) (world world' : World T) (i owner : Nat)
    (before after : SlotPhase) (entry : Entry T) (gone new : List Token) : Prop where
  alters : Alters world world' i entry
  trade : Trade world world' i gone new
  outbound : world'.domain.outbound = world.domain.outbound
  good : world'.domain.resident.Good
  here : (world.domain.resident.entries i).state = .route before owner
  there : entry.state = .route after owner
  held : Held layout.accept layout.last i entry (world'.native i) (world'.submits i)
    (world'.consumes i) world'.published
  fresh : ∀ token, token ∈ new → ¬ (world.domain.resident.entries i).Owns layout.accept
    world.domain.outbound.slot i token
  owned : ∀ token, entry.Owns layout.accept world.domain.outbound.slot i token ↔
    token ∈ new ∨ token ∉ gone ∧ (world.domain.resident.entries i).Owns layout.accept
      world.domain.outbound.slot i token

theorem Base.resets {store : Store T} (h : world.Base layout)
    (move : Reroute layout world i owner before after store entry gone new) :
    Resets layout world { world with
      domain := { world.domain with resident := store }
      tokens := new ++ gone.foldl List.erase world.tokens } i owner before after entry gone new := by
  have out := (h.out_of_state (by rw [move.here]; nofun)).1
  have was := h.held i
  refine ⟨⟨rfl, move.capacity, move.last, move.entries, fun _ _ => rfl,
    fun _ _ => rfl, fun _ _ => rfl, fun _ => id⟩, ⟨rfl, move.slots, move.nodup⟩, rfl, move.good,
    move.here, move.there, ?_, move.fresh, move.owned⟩
  refine ⟨move.sound, fun inside => absurd out (Nat.not_le.mpr inside), ?_, ?_, ?_⟩
  · exact fun _ => ⟨move.placed, (was.placed out).2⟩
  · rw [move.inflight]
    exact was.counts
  · intro ready leased
    rcases move.word leased ready with clear | ⟨same, generation, leased', ready'⟩
    · exact Entry.backed_clear clear
    · exact (was.targets ready' leased').congr same generation fun _ => id

theorem Base.reset {world' : World T} (h : world.Base layout)
    (move : Resets layout world world' i owner before after entry gone new) :
    world'.Base layout := by
  refine h.alter entry move.alters move.trade move.outbound move.good
    (.inr ⟨before, after, owner, move.here, move.there⟩) ?_ move.held move.fresh move.owned
  intro _ free
  rw [move.here] at free
  cases free

/-- Nothing but the state of the slot changes. -/
def Relabels (layout : Layout) (world : World T) (i owner : Nat) (before after : SlotPhase)
    (gone new : List Token) : Prop :=
  Reroute layout world i owner before after (world.domain.resident.setState i (.route after owner))
    ((world.domain.resident.entries i).setState (.route after owner)) gone new

section

variable (h : world.Base layout)

include h

theorem Base.restate (here : (world.entries i).state = .route before owner)
    (placed : ((world.entries i).setState (.route after owner)).Placed)
    (slots : ∀ token, token ∈ gone ∨ token ∈ new → token.slot = i) (nodup : new.Nodup)
    (fresh : ∀ token, token ∈ new → ¬ (world.entries i).Owns layout.accept world.slot i token)
    (owned : ∀ token, ((world.entries i).setState (.route after owner)).Owns
      layout.accept world.slot i token ↔ token ∈ new ∨ token ∉ gone ∧
      (world.entries i).Owns layout.accept world.slot i token) :
    Relabels layout world i owner before after gone new := by
  have inside := (h.out_of_state (i := i) (by rw [here]; nofun)).2
  exact ⟨here, rfl, rfl, rfl, rfl, h.good.put inside rfl (fun _ => rfl) rfl,
    (h.held i).sound.setState _, placed, rfl, fun leased ready => .inr ⟨rfl, rfl, leased, ready⟩,
    slots, nodup, fresh, owned⟩

theorem Base.placed_of (used : (world.entries i).state ≠ .free) : (world.entries i).Placed :=
  ((h.held i).placed (h.out_of_state used).1).1

theorem Base.placed_at (here : (world.entries i).state = .route before owner) :
    (world.entries i).PlacedIn (.route before owner) :=
  here ▸ h.placed_of (by rw [here]; nofun)

theorem Base.once (named : world.slot owner index = some i) :
    ∀ l, world.slot owner l = some i → l = index :=
  fun _ other => (Tiled.slot_inj h.tiles other named).2

theorem Base.begin (mem : .unopened i owner index generation ∈ world.tokens) :
    Relabels layout world i owner .unopenedOne .creatingOne
      [.unopened i owner index generation] [.creating i owner generation, .flight i owner index] := by
  rcases h.unopened_mem mem with ⟨here, named, version⟩
  have placed := h.placed_at here
  have landed := placed.2.2
  have once := h.once named
  refine h.restate here placed (by simp [Token.slot]) (by simp) ?_ ?_
  · intro token new
    unfold Entry.Owns Entry.Lends
    grind
  · intro token
    unfold Entry.Owns Entry.Lends
    simp only [here, Entry.setState, landed, version]
    grind

theorem Base.deliver (here : (world.entries i).state = .route .creatingOne owner)
    (named : world.slot owner index = some i) :
    Relabels layout world i owner .creatingOne .openTwo
      [.flight i owner index] [.made i owner] := by
  have placed := h.placed_at here
  have landed := placed.2.2
  have once := h.once named
  refine h.restate here placed (by simp [Token.slot]) (by simp) ?_ ?_
  · intro token new
    unfold Entry.Owns Entry.Lends
    grind
  · intro token
    unfold Entry.Owns Entry.Lends
    simp only [here, Entry.setState, landed]
    grind

theorem Base.fail (here : (world.entries i).state = .route .creatingOne owner)
    (named : world.slot owner index = some i) :
    Relabels layout world i owner .creatingOne .failedOne [.flight i owner index] [] := by
  have placed := h.placed_at here
  have landed := placed.2.2
  have once := h.once named
  refine h.restate here placed (by simp [Token.slot]) (by simp) (by simp) ?_
  intro token
  unfold Entry.Owns Entry.Lends
  simp only [here, Entry.setState, landed]
  grind

end

theorem Base.activate (h : world.Base layout) (made : .made i owner ∈ world.tokens)
    (creating : .creating i owner generation ∈ world.tokens) :
    Relabels layout world i owner .openTwo .openOne
      [.made i owner, .creating i owner generation] [.active i owner generation] := by
  rcases h.creating_mem creating with ⟨version, phase⟩
  have here : (world.entries i).state = .route .openTwo owner := by
    have := h.made_mem made
    grind
  have placed := h.placed_at here
  have landed := placed.2.2
  refine h.restate here placed (by grind [Token.slot]) (by simp) ?_ ?_
  · intro token new
    unfold Entry.Owns Entry.Lends
    grind
  · intro token
    unfold Entry.Owns Entry.Lends
    simp only [here, Entry.setState, landed, version]
    grind

theorem Base.queued {before after : SlotPhase} {gone new : List Token} (h : world.Base layout)
    (next : Entry T) (here : (world.entries i).state = .route before owner)
    (there : next.state = .route after owner)
    (ready : (world.entries i).phase = .ready) (pending : next.phase = .pending)
    (inflight : next.inflight = (world.entries i).inflight)
    (sound : next.Sound layout.last) (placed : next.Placed)
    (slots : ∀ token, token ∈ gone ∨ token ∈ new → token.slot = i) (nodup : new.Nodup)
    (fresh : ∀ token, token ∈ new → ¬ (world.entries i).Owns layout.accept world.slot i token)
    (owned : ∀ token, next.Owns layout.accept world.slot i token ↔
      token ∈ new ∨ token ∉ gone ∧ (world.entries i).Owns layout.accept world.slot i token) :
    ∃ word, Reroute layout world i owner before after
      ((world.domain.resident.setState i (.route after owner)).queue i next)
      { next with word } gone new := by
  have inside := (h.out_of_state (i := i) (by rw [here]; nofun)).2
  have unlinked : (world.entries i).linked = false := by
    unfold Entry.linked
    simp [ready]
  have good : (world.domain.resident.setState i (.route after owner)).Good :=
    h.good.put inside rfl (fun _ => rfl) rfl
  have mine : (world.domain.resident.setState i (.route after owner)).entries i =
      (world.entries i).setState (.route after owner) :=
    Function.update_self ..
  rcases Store.queue_entries (world.domain.resident.setState i (.route after owner)) i next with
    ⟨word, entries, -⟩
  have rest := Store.queue_rest (world.domain.resident.setState i (.route after owner)) i next
  rw [setState_entries, Function.update_idem] at entries
  refine ⟨word, here, there, entries, rest.1, rest.2, ?_, ?_, placed, inflight, ?_, slots, nodup,
    fresh, owned⟩
  · exact good.queue inside (by rw [mine]; exact unlinked) pending (by rw [mine]; exact inflight)
  · exact ⟨sound.bound, sound.leased, sound.spent, sound.flying, sound.queued⟩
  · intro _ (ready : next.phase = .ready)
    rw [pending] at ready
    cases ready

/-- The entry of a slot whose lease ends with the move. -/
def left (layout : Layout) (world : World T) (i owner : Nat) (after : SlotPhase) (phase : Phase) :
    Entry T :=
  (((world.domain.resident.entries i).setState (.route after owner)).advance
    layout.last).setStatus phase false

/-- A lease ends, and nothing is queued. -/
def Vacates (layout : Layout) (world : World T) (i owner : Nat) (before after : SlotPhase)
    (phase : Phase) (gone : List Token) : Prop :=
  Reroute layout world i owner before after
    (world.domain.resident.put i (left layout world i owner after phase))
    (left layout world i owner after phase) gone []

section
variable {after : SlotPhase} {phase : Phase}

theorem left_state : (left layout world i owner after phase).state = .route after owner :=
  Entry.advance_state

theorem left_inflight : (left layout world i owner after phase).inflight =
    (world.entries i).inflight := Entry.advance_inflight

theorem left_word : (left layout world i owner after phase).word =
    (world.entries i).word := Entry.advance_word

theorem left_echo : (left layout world i owner after phase).bound =
      (world.entries i).bound ∧
    (left layout world i owner after phase).side = (world.entries i).side ∧
    (left layout world i owner after phase).submitted = (world.entries i).submitted :=
  ⟨Entry.advance_bound, Entry.advance_side, Entry.advance_submitted⟩

end

section

variable (h : world.Base layout)

include h

theorem Base.leave (here : (world.entries i).state = .route before owner)
    (used : (world.entries i).InUse)
    (closing : after = .closingOne ∨ after = .closingZero)
    (slots : ∀ token, token ∈ gone → token.slot = i)
    (owned : ∀ token, after = .closingOne ∧ token = .made i owner ↔ token ∉ gone ∧
      (world.entries i).Owns layout.accept world.slot i token) :
    ∃ entry, Reroute layout world i owner before after
      ((world.domain.resident.setState i (.route after owner)).releaseEnqueue i) entry gone [] := by
  rcases used with ⟨ready, leased, landed⟩
  have sound := (h.held i).sound
  have mine : (world.domain.resident.setState i (.route after owner)).entries i =
      (world.entries i).setState (.route after owner) :=
    Function.update_self ..
  have state : (left layout world i owner after .pending).state = .route after owner :=
    left_state
  have inflight : (left layout world i owner after .pending).inflight = false :=
    left_inflight.trans landed
  have queue : (left layout world i owner after .pending).Closing := .inl ⟨rfl, inflight⟩
  have placed : (left layout world i owner after .pending).Placed := by
    unfold Entry.Placed
    rw [state]
    rcases closing with one | zero
    · subst one
      exact queue
    · subst zero
      exact ⟨rfl, queue⟩
  have release := h.queued (left layout world i owner after .pending) here state ready rfl
    left_inflight ((sound.setState (.route after owner)).release (sound.leased leased) nofun)
    placed (fun token mem => mem.elim (slots token) (fun no => by cases no)) List.nodup_nil
    nofun (by
      intro token
      rw [← owned token]
      unfold Entry.Owns Entry.Lends
      rw [state, inflight]
      rcases closing with one | zero
      · rw [one]
        simp [left, Entry.setStatus]
      · rw [zero]
        simp)
  rcases release with ⟨word, move⟩
  refine ⟨{ left layout world i owner after .pending with word }, ?_⟩
  unfold Store.releaseEnqueue
  rw [mine, show (world.domain.resident.setState i (.route after owner)).last = layout.last
    from h.last]
  exact move

theorem Base.retireActive (mem : .active i owner generation ∈ world.tokens) :
    ∃ entry, Reroute layout world i owner .openOne .closingZero
      ((world.domain.resident.setState i (.route .closingZero owner)).releaseEnqueue i) entry
      [.active i owner generation] [] := by
  rcases h.active_mem mem with ⟨here, version⟩
  have placed := h.placed_at here
  have landed := placed.2.2
  refine h.leave here placed (.inr rfl) (by simp [Token.slot]) ?_
  intro token
  unfold Entry.Owns Entry.Lends
  simp only [here, landed, version]
  grind

theorem Base.leaveMade (here : (world.entries i).state = .route .openTwo owner)
    (version : (world.entries i).generation = generation) :
    ∃ entry, Reroute layout world i owner .openTwo .closingOne
      ((world.domain.resident.setState i (.route .closingOne owner)).releaseEnqueue i) entry
      [.creating i owner generation] [] := by
  have placed := h.placed_at here
  have landed := placed.2.2
  refine h.leave here placed (.inl rfl) (by simp [Token.slot]) ?_
  intro token
  unfold Entry.Owns Entry.Lends
  simp only [here, landed, version]
  grind

/-- The retirement of a slot is queued in its generation. -/
theorem Base.enqueued (here : (world.entries i).state = .route before owner)
    (ready : (world.entries i).phase = .ready)
    (epoch : (world.entries i).epoch ≠ none)
    (placed : (((world.entries i).setState (.route after owner)).setPhase
      .pending).Placed) (slots : ∀ token, token ∈ gone → token.slot = i)
    (owned : ∀ token, (((world.entries i).setState (.route after owner)).setPhase
      .pending).Owns layout.accept world.slot i token ↔ token ∉ gone ∧
      (world.entries i).Owns layout.accept world.slot i token) :
    ∃ entry, Reroute layout world i owner before after
      ((world.domain.resident.setState i (.route after owner)).enqueue i) entry gone [] := by
  have sound := (h.held i).sound
  have mine : (world.domain.resident.setState i (.route after owner)).entries i =
      (world.entries i).setState (.route after owner) :=
    Function.update_self ..
  have move := h.queued
    (((world.entries i).setState (.route after owner)).setPhase .pending)
    here rfl ready rfl rfl ⟨sound.bound, sound.leased, sound.spent, nofun, fun _ => epoch⟩
    placed (fun token mem => mem.elim (slots token) (fun no => by cases no)) List.nodup_nil
    nofun (by
      intro token
      rw [owned token]
      simp)
  rcases move with ⟨word, move⟩
  refine ⟨{ ((world.entries i).setState (.route after owner)).setPhase .pending with word }, ?_⟩
  unfold Store.enqueue
  rw [mine]
  exact move

theorem Base.leaveCreating (here : (world.entries i).state = .route .openTwo owner) :
    
    ∃ entry, Reroute layout world i owner .openTwo .closingOne
      ((world.domain.resident.setState i (.route .closingOne owner)).enqueue i) entry
      [.made i owner] [] := by
  rcases h.placed_at here with ⟨ready, leased, landed⟩
  refine h.enqueued here ready (by rw [Entry.epoch_leased leased]; nofun) (.inl ⟨rfl, landed⟩)
    (by simp [Token.slot]) ?_
  intro token
  unfold Entry.Owns Entry.Lends
  simp only [here, Entry.setState, Entry.setPhase, landed, leased]
  grind

theorem Base.orphan (here : (world.entries i).state = .route .creatingZero owner)
    (named : world.slot owner index = some i) :
    ∃ entry, Reroute layout world i owner .creatingZero .closingZero
      ((world.domain.resident.setState i (.route .closingZero owner)).enqueue i) entry
      [.flight i owner index] [] := by
  rcases h.placed_at here with ⟨⟨ready, vacant, landed⟩, retired⟩
  have epoch : (world.entries i).epoch ≠ none := by
    unfold Entry.epoch
    rw [if_neg (by rw [vacant]; nofun)]
    exact retired
  have once := h.once named
  refine h.enqueued here ready epoch ⟨vacant, .inl ⟨rfl, landed⟩⟩ (by simp [Token.slot]) ?_
  intro token
  unfold Entry.Owns Entry.Lends
  simp only [here, Entry.setState, Entry.setPhase, landed]
  grind

theorem Base.vacate (here : (world.entries i).state = .route before owner)
    (fresh : (world.entries i).exhausted = false)
    (unlinked : (world.entries i).phase ≠ .pending)
    (landed : (world.entries i).inflight = false)
    (ends : after = .mapped ∨ after = .creatingZero)
    (slots : ∀ token, token ∈ gone → token.slot = i)
    (owned : ∀ token, (after = .creatingZero ∧ ∃ l, world.slot owner l = some i ∧
      token = .flight i owner l) ↔ token ∉ gone ∧ (world.entries i).Owns
      layout.accept world.slot i token) :
    Vacates layout world i owner before after .ready gone := by
  have inside := (h.out_of_state (i := i) (by rw [here]; nofun)).2
  have sound := (h.held i).sound.setState (.route after owner)
  have state : (left layout world i owner after .ready).state = .route after owner := left_state
  have inflight := @left_inflight T i layout world owner after .ready
  have quiet : (left layout world i owner after .ready).linked = (world.entries i).linked := by
    unfold Entry.linked
    simp [left, Entry.setStatus, unlinked]
  refine ⟨here, state, rfl, rfl, rfl, h.good.put inside quiet ?_ inflight,
    sound.release fresh nofun, ?_, inflight, nofun, fun token mem => mem.elim (slots token) nofun,
    List.nodup_nil, nofun, ?_⟩
  · intro linked
    unfold Entry.linked at linked
    simp [left, Entry.setStatus] at linked
  · unfold Entry.Placed
    rw [state]
    rcases ends with mapped | zero
    · subst mapped
      exact ⟨rfl, rfl, inflight.trans landed⟩
    · subst zero
      refine ⟨⟨rfl, rfl, inflight.trans landed⟩, ?_⟩
      have fresh : ((world.entries i).setState
        (.route .creatingZero owner)).exhausted = false := fresh
      exact ne_of_eq_of_ne (Entry.retired_advance fresh) nofun
  · intro token
    rw [← owned token]
    unfold Entry.Owns Entry.Lends
    rw [state, inflight, landed]
    rcases ends with mapped | zero
    · rw [mapped]
      simp
    · rw [zero]
      simp

theorem Base.unopened (mem : .unopened i owner index generation ∈ world.tokens) :
    Vacates layout world i owner .unopenedOne .mapped .ready
      [.unopened i owner index generation] := by
  rcases h.unopened_mem mem with ⟨here, named, version⟩
  rcases h.placed_at here with ⟨ready, leased, landed⟩
  have once := h.once named
  refine h.vacate here ((h.held i).sound.leased leased) (by rw [ready]; nofun) landed (.inl rfl)
    (by simp [Token.slot]) ?_
  intro token
  unfold Entry.Owns Entry.Lends
  simp only [here, landed, version]
  grind

/-- The creation of a slot is given up before the kernel answered. -/
theorem Base.giveUp (here : (world.entries i).state = .route .creatingOne owner)
    (version : (world.entries i).generation = generation) :
    Vacates layout world i owner .creatingOne .creatingZero .ready
      [.creating i owner generation] := by
  rcases h.placed_at here with ⟨ready, leased, landed⟩
  refine h.vacate here ((h.held i).sound.leased leased) (by rw [ready]; nofun) landed (.inr rfl)
    (by simp [Token.slot]) ?_
  intro token
  unfold Entry.Owns Entry.Lends
  simp only [here, landed, version]
  grind

/-- The last holder of a slot without a descriptor leaves. -/
theorem Base.leaveLast (phase : before = .failedOne ∨ before = .closedOne)
    (here : (world.entries i).state = .route before owner)
    (leased : (world.entries i).lease = true) (version : (world.entries i).generation = generation) :
     Vacates layout world i owner before .mapped .ready [.creating i owner generation] := by
  have placed := h.placed_at here
  unfold Entry.PlacedIn Entry.InUse at placed
  have facts : (world.entries i).phase ≠ .pending ∧ (world.entries i).inflight = false := by
    rcases phase with failed | closed
    · subst failed
      exact ⟨by rw [placed.1]; nofun, placed.2.2⟩
    · subst closed
      grind
  refine h.vacate here ((h.held i).sound.leased leased) facts.1 facts.2 (.inl rfl)
    (by simp [Token.slot]) ?_
  intro token
  unfold Entry.Owns Entry.Lends
  rcases phase with failed | closed
  · subst failed
    simp only [here, facts.2, version]
    grind
  · subst closed
    simp only [here, facts.2, version, leased]
    grind

/-- The kernel failed to create a slot that was given up. -/
theorem Base.failZero (here : (world.entries i).state = .route .creatingZero owner)
    (named : world.slot owner index = some i) :
    Relabels layout world i owner .creatingZero .mapped [.flight i owner index] [] := by
  have placed := h.placed_at here
  have landed := placed.1.2.2
  have once := h.once named
  refine h.restate here placed.1 (by simp [Token.slot]) (by simp) (by simp) ?_
  intro token
  unfold Entry.Owns Entry.Lends
  simp only [here, Entry.setState, landed]
  grind

/-- The socket of a slot goes while its close is under way. -/
theorem Base.discardClosing (here : (world.entries i).state = .route .closingOne owner)
    (vacant : (world.entries i).lease = false) :
    Relabels layout world i owner .closingOne .closingZero [.made i owner] [] := by
  have placed := h.placed_at here
  refine h.restate here ⟨vacant, placed⟩ (by simp [Token.slot]) (by simp) (by simp) ?_
  intro token
  unfold Entry.Owns Entry.Lends Entry.classAt
  simp only [here, Entry.setState, vacant]
  grind [SlotState.owner]

theorem Base.discardClosed (here : (world.entries i).state = .route .closedOne owner)
    (vacant : (world.entries i).lease = false) :
    Relabels layout world i owner .closedOne .mapped [.made i owner] [] := by
  rcases h.placed_at here with ⟨landed, either⟩
  have ready : (world.entries i).phase = .ready := by
    rw [vacant] at either
    grind
  refine h.restate here ⟨ready, vacant, landed⟩ (by simp [Token.slot]) (by simp) (by simp) ?_
  intro token
  unfold Entry.Owns Entry.Lends
  simp only [here, Entry.setState, vacant, landed]
  grind

/-- The creator of a slot leaves while its close is under way. -/
theorem Base.leaveClosing (here : (world.entries i).state = .route .closingOne owner)
    (same : (world.entries i).phase = phase) (leased : (world.entries i).lease = true)
    (version : (world.entries i).generation = generation) :
    Vacates layout world i owner .closingOne .closingZero phase [.creating i owner generation] := by
  have inside := (h.out_of_state (i := i) (by rw [here]; nofun)).2
  have placed := h.placed_at here
  have sound := (h.held i).sound.setState (.route .closingZero owner)
  have fresh := (h.held i).sound.leased leased
  have state : (left layout world i owner .closingZero phase).state = .route .closingZero owner :=
    left_state
  have inflight := @left_inflight T i layout world owner .closingZero phase
  have echo := @left_echo T i layout world owner .closingZero phase
  refine ⟨here, state, rfl, rfl, rfl, h.good.put inside ?_ ?_ inflight,
    sound.release fresh (fun flying => ⟨leased, same.trans flying⟩), ?_, inflight, nofun,
    (by simp [Token.slot]), List.nodup_nil, nofun, ?_⟩
  · unfold Entry.linked
    rw [inflight, same]
    rfl
  · intro _
    unfold Entry.next?
    rw [left_word]
  · unfold Entry.Placed
    rw [state]
    refine ⟨rfl, ?_⟩
    unfold Entry.PlacedIn Entry.Closing at placed
    unfold Entry.Closing
    rw [inflight]
    rw [same] at placed
    exact placed
  · intro token
    unfold Entry.Owns Entry.Lends Entry.classAt
    rw [state, inflight, echo.1, echo.2.1, echo.2.2]
    simp only [here, leased, version]
    grind [SlotState.owner]

end

end World

end Dope.Core.Fd
