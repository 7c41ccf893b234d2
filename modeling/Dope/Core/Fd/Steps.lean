import Dope.Core.Fd.Settle

/-! # Steps of the owners

Every use of a token keeps the invariant, and says what it does to the leases.
-/

namespace Dope.Core.Fd

open Function

variable {T : Type}

namespace World

variable {layout : Layout} {world : World T} {i owner index generation : Nat}

/-- A step that keeps the invariant. -/
def Keeps (layout : Layout) (world world' : World T) : Prop :=
  Inv layout world' ∧ ∀ o, Domain.Follows world.domain world'.domain o

section
variable {before after : SlotPhase} {store : Store T} {entry : Entry T} {gone new : List Token}

theorem Inv.rerouted (h : world.Inv layout)
    (move : Reroute layout world i owner before after store entry gone new)
    (moves : before ≠ .mapped ∧ after ≠ .mapped) :
    Keeps layout world { world with
      domain := { world.domain with resident := store }
      tokens := new ++ gone.foldl List.erase world.tokens } :=
  ⟨h.reset (h.toBase.resets move) moves, Domain.follows_of_eq rfl⟩

end

/-! ## Creation -/

theorem advance_setState (entry : Entry T) (last : Nat) (state : SlotState) :
    (entry.advance last).setState state = (entry.setState state).advance last := by
  unfold Entry.advance
  by_cases spent : entry.generation = last
  · rw [if_pos spent, if_pos (show (entry.setState state).generation = last from spent)]
    rfl
  · rw [if_neg spent, if_neg (show ¬ (entry.setState state).generation = last from spent)]
    rfl

theorem release_mapped (last : world.domain.resident.last = layout.last) {phase : Phase}
    (rest : phase = .ready ∨ phase = .quiescent) :
    (world.domain.resident.release i phase).setState i (.route .mapped owner) =
      world.domain.resident.put i (left layout world i owner .mapped .ready) := by
  have entry : ((((world.entries i).advance layout.last).setStatus .ready
      false).setState (.route .mapped owner)) = left layout world i owner .mapped .ready := by
    unfold left
    rw [← advance_setState]
    rfl
  unfold Store.release Store.setState
  rw [Store.put_put, Store.put_entries, update_self, last, ← entry]
  rcases rest with ready | quiescent
  · rw [ready]
    rfl
  · rw [quiescent]
    rfl

theorem Inv.begin (h : world.Inv layout) (mem : .unopened i owner index generation ∈ world.tokens) :
    Keeps layout world { world with
      domain := world.domain.beginCreate i owner
      tokens := .creating i owner generation :: .flight i owner index ::
        world.tokens.erase (.unopened i owner index generation) } :=
  h.rerouted (h.toBase.begin mem) ⟨nofun, nofun⟩

theorem Inv.unopened (h : world.Inv layout)
    (mem : .unopened i owner index generation ∈ world.tokens) :
    Keeps layout world { world with
      domain := world.domain.unopened i owner
      tokens := world.tokens.erase (.unopened i owner index generation) } := by
  rcases h.unopened_mem mem with ⟨here, named, version⟩
  have placed := h.toBase.placed_at here
  have settled := h.resettle (h.toBase.resets (h.toBase.unopened mem)) nofun
  unfold Domain.unopened
  rw [Domain.releaseSlot_eq]
  unfold Domain.setState
  dsimp only
  rw [release_mapped h.last (.inl placed.1)]
  exact settled

theorem Inv.created (h : world.Inv layout) (mem : .flight i owner index ∈ world.tokens) :
    ∃ out world', world.step (.created i owner index) = .ok (out, world') ∧
      Keeps layout world world' := by
  rcases h.flight_mem mem with ⟨either, named⟩
  unfold step
  simp only [named]
  unfold Domain.created Domain.state
  rcases either with here | here
  · rw [here, if_pos (by simp [SlotState.isPhase])]
    exact ⟨_, _, rfl, h.rerouted (h.toBase.deliver here named) ⟨nofun, nofun⟩⟩
  · rw [here, if_neg (by simp [SlotState.isPhase])]
    rcases h.toBase.orphan here named with ⟨entry, move⟩
    exact ⟨_, _, rfl, h.rerouted move ⟨nofun, nofun⟩⟩

theorem Inv.failed (h : world.Inv layout) (mem : .flight i owner index ∈ world.tokens) :
    ∃ out world', world.step (.failed i owner index) = .ok (out, world') ∧
      Keeps layout world world' := by
  rcases h.flight_mem mem with ⟨either, named⟩
  unfold step
  simp only [named]
  unfold Domain.failed Domain.state
  rcases either with here | here
  · rw [here, if_pos (by simp [SlotState.isPhase])]
    exact ⟨_, _, rfl, h.rerouted (h.toBase.fail here named) ⟨nofun, nofun⟩⟩
  · rw [here, if_neg (by simp [SlotState.isPhase])]
    exact ⟨_, _, rfl, h.resettle (h.toBase.resets (h.toBase.failZero here named)) nofun⟩

theorem Inv.creating (h : world.Inv layout) (mem : .creating i owner generation ∈ world.tokens) :
    Keeps layout world { world with
      domain := world.domain.creating i owner
      tokens := world.tokens.erase (.creating i owner generation) } := by
  rcases h.creating_mem mem with ⟨version, phase⟩
  unfold Domain.creating Domain.closeCreating Domain.close Domain.state
  rcases phase with here | here | here | ⟨here | here, leased⟩
  · -- the kernel has not answered
    have placed := h.toBase.placed_at here
    rw [here, if_pos (by simp [SlotState.isPhase])]
    have store : (world.domain.resident.setState i (.route .creatingZero owner)).release i
        (world.entries i).phase =
          world.domain.resident.put i (left layout world i owner .creatingZero .ready) := by
      unfold Store.release Store.setState
      rw [Store.put_put, Store.put_entries, update_self, placed.1]
      unfold left
      rw [← h.last]
      rfl
    dsimp only
    unfold Domain.setState
    dsimp only
    rw [store]
    exact h.rerouted (h.toBase.giveUp here version) ⟨nofun, nofun⟩
  · rw [here, if_neg (by simp [SlotState.isPhase]), if_pos (by simp [SlotState.isPhase])]
    rcases h.toBase.leaveMade here version with ⟨entry, move⟩
    exact h.rerouted move ⟨nofun, nofun⟩
  · have placed := h.toBase.placed_at here
    have settled := h.resettle
      (h.toBase.resets (h.toBase.leaveLast (.inl rfl) here placed.2.1 version)) nofun
    rw [here, if_neg (by simp [SlotState.isPhase]), if_neg (by simp [SlotState.isPhase]),
      if_neg (by simp [SlotState.isPhase])]
    dsimp only
    rw [Domain.releaseSlot_eq]
    unfold Domain.setState
    dsimp only
    rw [release_mapped h.last (.inl placed.1)]
    exact settled
  · -- the close is under way
    have placed := h.toBase.placed_at here
    unfold Entry.PlacedIn Entry.Closing at placed
    rw [here, if_neg (by simp [SlotState.isPhase]), if_neg (by simp [SlotState.isPhase]),
      if_pos (by simp [SlotState.isPhase])]
    dsimp only
    unfold Domain.setState
    dsimp only
    have store : (world.domain.resident.setState i (.route .closingZero owner)).release i
        (world.entries i).phase = world.domain.resident.put i
          (left layout world i owner .closingZero (world.entries i).phase) := by
      unfold Store.release Store.setState
      rw [Store.put_put, Store.put_entries, update_self]
      unfold left
      rw [← h.last]
      rcases placed with ⟨pending, -⟩ | flying
      · rw [pending]
        rfl
      · rw [flying]
        rfl
    rw [store]
    exact h.rerouted (h.toBase.leaveClosing here rfl leased version) ⟨nofun, nofun⟩
  · have placed := h.toBase.placed_at here
    have quiescent : (world.entries i).phase = .quiescent := by
      rw [Entry.PlacedIn, leased] at placed
      grind
    have settled := h.resettle
      (h.toBase.resets (h.toBase.leaveLast (.inr rfl) here leased version)) nofun
    rw [here, if_neg (by simp [SlotState.isPhase]), if_neg (by simp [SlotState.isPhase]),
      if_neg (by simp [SlotState.isPhase])]
    dsimp only
    rw [Domain.releaseSlot_eq]
    unfold Domain.setState
    dsimp only
    rw [release_mapped h.last (.inr quiescent)]
    exact settled

theorem Inv.discard (h : world.Inv layout) (mem : .made i owner ∈ world.tokens) :
    Keeps layout world { world with
      domain := world.domain.discard i owner
      tokens := world.tokens.erase (.made i owner) } := by
  unfold Domain.discard Domain.close Domain.state
  rcases h.made_mem mem with here | ⟨here | here, vacant⟩
  · rw [here, if_pos (by simp [SlotState.isPhase])]
    rcases h.toBase.leaveCreating here with ⟨entry, move⟩
    exact h.rerouted move ⟨nofun, nofun⟩
  · rw [here, if_neg (by simp [SlotState.isPhase]), if_pos (by simp [SlotState.isPhase])]
    exact h.rerouted (h.toBase.discardClosing here vacant) ⟨nofun, nofun⟩
  · rw [here, if_neg (by simp [SlotState.isPhase]), if_neg (by simp [SlotState.isPhase])]
    exact h.resettle (h.toBase.resets (h.toBase.discardClosed here vacant)) nofun

theorem Inv.activate (h : world.Inv layout) (made : .made i owner ∈ world.tokens)
    (creating : .creating i owner generation ∈ world.tokens) :
    Keeps layout world { world with
      domain := world.domain.activate i owner
      tokens := .active i owner generation ::
        (world.tokens.erase (.made i owner)).erase (.creating i owner generation) } :=
  h.rerouted (h.toBase.activate made creating) ⟨nofun, nofun⟩

theorem Inv.retireActive (h : world.Inv layout) (mem : .active i owner generation ∈ world.tokens) :
    Keeps layout world { world with
      domain := world.domain.retire i (some owner)
      tokens := world.tokens.erase (.active i owner generation) } := by
  have out := h.out_of_state (i := i) (by rw [(h.active_mem mem).1]; nofun)
  rcases h.toBase.retireActive mem with ⟨entry, move⟩
  unfold Domain.retire
  rw [if_neg (by rw [h.accept]; omega)]
  exact h.rerouted move ⟨nofun, nofun⟩

/-! ## Slots without a route -/

section
variable {world' : World T}

theorem Inv.alter (h : world.Inv layout) (entry : Entry T) (gone new : List Token)
    (alters : Alters world world' i entry) (trade : Trade world world' i gone new)
    (outbound : world'.domain.outbound = world.domain.outbound)
    (good : world'.domain.resident.Good)
    (state : entry.state = (world.entries i).state)
    (spent : layout.accept ≤ i → (world.entries i).state = .free →
      entry.exhausted = (world.entries i).exhausted)
    (held : Held layout.accept layout.last i entry (world'.native i) (world'.submits i)
      (world'.consumes i) world'.published)
    (fresh : ∀ token, token ∈ new → ¬ (world.entries i).Owns layout.accept world.slot i token)
    (owned : ∀ token, entry.Owns layout.accept world.slot i token ↔
      token ∈ new ∨ token ∉ gone ∧ (world.entries i).Owns layout.accept
        world.slot i token) : Keeps layout world world' := by
  refine ⟨⟨h.toBase.alter entry alters trade outbound good (.inl state) spent held fresh owned,
    ?_⟩, Domain.follows_of_eq outbound⟩
  intro o lease remaining route retired
  rw [outbound] at route
  have was := h.counted o lease remaining route retired
  refine ⟨was.1.trans (Domain.unsettled_congr rfl ?_ ?_).symm, was.2⟩
  · intro l _
    rw [outbound]
  · intro l _
    unfold Domain.state
    rw [alters.entries, update_apply]
    split
    · next same => rw [state, same]
    · rfl

end

/-- The entry of a slot that is given up. -/
def ended (layout : Layout) (world : World T) (i : Nat) : Entry T :=
  ((world.domain.resident.entries i).advance layout.last).setStatus .pending false

theorem ended_state : (ended layout world i).state = (world.entries i).state :=
  Entry.advance_state

theorem ended_inflight : (ended layout world i).inflight = (world.entries i).inflight :=
  Entry.advance_inflight

theorem ended_echo : (ended layout world i).bound = (world.entries i).bound ∧
    (ended layout world i).side = (world.entries i).side ∧
    (ended layout world i).submitted = (world.entries i).submitted :=
  ⟨Entry.advance_bound, Entry.advance_side, Entry.advance_submitted⟩

section

variable (h : world.Inv layout)

include h

theorem Inv.ends {native : Nat → Native} (gone : List Token)
    (inside : i < world.domain.resident.capacity)
    (unlinked : (world.entries i).phase ≠ .pending)
    (place : i < layout.accept ∨ (world.entries i).state ≠ .free)
    (others : ∀ j, j ≠ i → native j = world.native j)
    (held : Held layout.accept layout.last i (ended layout world i) (native i) (world.submits i)
      (world.consumes i) world.published) (slots : ∀ token, token ∈ gone → token.slot = i)
    (owned : ∀ token, (ended layout world i).Owns layout.accept world.slot i token
      ↔ token ∉ gone ∧ (world.entries i).Owns layout.accept
      world.slot i token) :
    Keeps layout world { world with
      domain := { world.domain with
        resident := world.domain.resident.queue i (ended layout world i) }
      native
      tokens := gone.foldl List.erase world.tokens } := by
  rcases Store.queue_entries world.domain.resident i (ended layout world i) with
    ⟨word, entries, -⟩
  have rest := Store.queue_rest world.domain.resident i (ended layout world i)
  have quiet : (world.entries i).linked = false := by
    unfold Entry.linked
    simp [unlinked]
  refine h.alter { ended layout world i with word } gone []
    ⟨rfl, rest.1, rest.2, entries, others, fun _ _ => rfl, fun _ _ => rfl, fun _ => id⟩
    ⟨rfl, fun token mem => mem.elim (slots token) (fun no => by cases no), List.nodup_nil⟩ rfl
    (h.good.queue inside quiet rfl ended_inflight) ended_state ?_ ?_ nofun ?_
  · intro out free
    rcases place with low | used
    · omega
    · exact absurd free used
  · exact ⟨⟨held.sound.bound, held.sound.leased, held.sound.spent, held.sound.flying,
      held.sound.queued⟩, fun low => ⟨(held.accepting low).state, (held.accepting low).leased,
      (held.accepting low).done, (held.accepting low).running, (held.accepting low).echoed,
      (held.accepting low).vacant, (held.accepting low).arrived, (held.accepting low).executed⟩,
      held.placed, held.counts, nofun⟩
  · intro token
    rw [show token ∈ [] ∨ _ ↔ _ from or_iff_right List.not_mem_nil]
    exact owned token

theorem Inv.retireSolo (mem : .solo i generation ∈ world.tokens) :
    Keeps layout world { world with
      domain := world.domain.retire i none
      tokens := world.tokens.erase (.solo i generation) } := by
  rcases h.solo_mem mem with ⟨here, leased, version⟩
  have inside := h.out_of_state (i := i) (by rw [here]; simp)
  have was := h.held i
  have placed := (was.placed inside.1).1
  unfold Entry.Placed at placed
  rw [here, Entry.PlacedIn] at placed
  have facts : (world.entries i).phase = .ready ∧ (world.entries i).inflight = false := by
    rw [leased] at placed
    grind
  have fresh := was.sound.leased leased
  have landed : (ended layout world i).inflight = false := ended_inflight.trans facts.2
  have state : (ended layout world i).state = .standalone := ended_state.trans here
  unfold Domain.retire Store.releaseEnqueue
  rw [if_neg (by rw [h.accept]; omega)]
  dsimp only
  rw [h.last]
  refine h.ends [.solo i generation] inside.2 (by rw [facts.1]; simp)
    (.inr (by rw [here]; simp)) (fun _ _ => rfl) ?_ (by simp [Token.slot]) ?_
  · refine ⟨was.sound.release fresh (by simp), fun low => absurd inside.1 (Nat.not_le.mpr low), ?_, ?_,
      (by intro _ h; cases h)⟩
    · intro _
      refine ⟨?_, (was.placed inside.1).2⟩
      unfold Entry.Placed
      rw [state]
      exact .inr ⟨rfl, .inl ⟨rfl, landed⟩⟩
    · rw [ended_inflight]
      exact was.counts
  · intro token
    unfold Entry.Owns Entry.Lends
    rw [state, landed, here, facts.2, leased, version]
    simp [ended, Entry.setStatus]

/-! ## Accepted slots -/

theorem Inv.accept_lt (low : i < layout.accept) : i < world.domain.resident.capacity := by
  rw [h.capacity]
  omega

theorem Inv.arrived_lt (arrived : (world.native i).arrived = true) : i < layout.accept := by
  by_cases low : i < layout.accept
  · exact low
  · have out := ((h.held i).placed (by omega)).2
    rw [arrived] at out
    cases out

/-- The descriptor of an accepted slot is to be retired. -/
theorem Inv.endsAccepted {native : Nat → Native} (low : i < layout.accept)
    (fresh : (world.entries i).exhausted = false)
    (unlinked : (world.entries i).phase ≠ .pending)
    (others : ∀ j, j ≠ i → native j = world.native j) (gone : List Token)
    (done : (world.entries i).inflight = true → (native i).executed = true ∧
      (native i).running = false) (still : (native i).running = false)
    (occupied : (native i).occupied = true) (arrived : (native i).arrived = false)
    (slots : ∀ token, token ∈ gone → token.slot = i)
    (leases : ∀ token, (world.entries i).lease = true ∧ token = .accepted i
      (world.entries i).generation ↔ token ∈ gone) :
    Keeps layout world { world with
      domain := { world.domain with
        resident := world.domain.resident.queue i (ended layout world i) }
      native
      tokens := gone.foldl List.erase world.tokens } := by
  have was := h.held i
  have accepting := was.accepting low
  have state : (ended layout world i).state = .free := ended_state.trans accepting.state
  have inflight : (ended layout world i).inflight = (world.entries i).inflight :=
    ended_inflight
  have echo : (ended layout world i).bound = _ ∧ (ended layout world i).side = _ ∧
    (ended layout world i).submitted = _ := ended_echo
  refine h.ends gone (h.accept_lt low) unlinked (.inl low) others ?_ slots ?_
  · refine ⟨was.sound.release fresh nofun, ?_, fun out => absurd low (Nat.not_lt.mpr out), ?_,
      nofun⟩
    · intro _
      refine ⟨state, nofun, ?_, ?_, ?_, ?_, ?_, nofun⟩
      · rw [inflight]
        exact fun flying _ => done flying
      · rw [still]
        nofun
      · exact fun _ _ => still
      · rw [occupied, arrived]
        nofun
      · rw [arrived]
        nofun
    · rw [inflight]
      exact was.counts
  · intro token
    have lease := leases token
    unfold Entry.Owns Entry.Lends Entry.classAt
    rw [state, inflight, echo.1, echo.2.1, echo.2.2, accepting.state]
    simp only [low, if_pos, ended, Entry.setStatus]
    by_cases mine : token ∈ gone
    · have equal := lease.mpr mine
      grind
    · grind

theorem Inv.retireAccepted (mem : .accepted i generation ∈ world.tokens) :
    Keeps layout world { world with
      domain := world.domain.retire i none
      tokens := world.tokens.erase (.accepted i generation) } := by
  rcases h.accepted_mem mem with ⟨low, leased, version⟩
  have was := h.held i
  have accepting := was.accepting low
  have ready := accepting.leased leased
  have still : (world.native i).running = false := by
    cases running : (world.native i).running with
    | false => rfl
    | true =>
      have := (accepting.running running).1
      rw [ready] at this
      cases this
  have taken : (world.native i).occupied = true ∧ (world.native i).arrived = false := by
    have vacant := accepting.vacant
    grind
  unfold Domain.retire Store.releaseEnqueue
  rw [if_pos (by rw [h.accept]; exact low)]
  dsimp only
  rw [h.last]
  refine h.endsAccepted low (was.sound.leased leased) (by rw [ready]; simp) (fun _ _ => rfl)
    [.accepted i generation] ?_ still taken.1 taken.2 (by simp [Token.slot]) ?_
  · exact fun flying => ⟨(accepting.done flying (by rw [ready]; simp)).1, still⟩
  · intro token
    simp [leased, version]

theorem Inv.abandoned (arrived : (world.native i).arrived = true) :
    Keeps layout world { world with
      domain := (world.domain.abandon i).2
      native := world.setNative i { world.native i with arrived := false } } := by
  have low := h.arrived_lt arrived
  have was := h.held i
  have accepting := was.accepting low
  have vacant := accepting.vacant (.inr arrived)
  have occupied := accepting.arrived arrived
  have still : (world.native i).running = false := by
    cases running : (world.native i).running with
    | false => rfl
    | true =>
      have := (accepting.running running).2.2.2
      rw [arrived] at this
      cases this
  have done : (world.entries i).inflight = true →
      (world.native i).executed = true ∧ (world.native i).running = false := by
    intro flying
    rcases vacant.2 with ready | ⟨-, executed⟩
    · exact ⟨(accepting.done flying (by rw [ready]; simp)).1, still⟩
    · exact ⟨executed, still⟩
  have unlinked : (world.entries i).phase ≠ .pending := by
    rcases vacant.2 with ready | ⟨flying, -⟩
    · rw [ready]
      simp
    · rw [flying]
      simp
  have native : world.setNative i { world.native i with arrived := false } i =
      { world.native i with arrived := false } := update_self ..
  have others : ∀ j, j ≠ i → world.setNative i { world.native i with arrived := false } j =
      world.native j := fun j apart => update_of_ne apart ..
  unfold Domain.abandon Store.abandon
  cases spent : (world.entries i).exhausted with
  | false =>
    dsimp only
    rw [if_neg (by rw [spent]; simp), h.last]
    refine h.endsAccepted low spent unlinked others [] ?_ ?_ ?_ ?_ (by simp) ?_
    · rw [native]
      exact done
    · rw [native]
      exact still
    · rw [native]
      exact occupied
    · rw [native]
    · intro token
      simp [vacant.1]
  | true =>
    dsimp only
    rw [if_pos spent]
    refine h.alter ((world.entries i).setStatus .quarantined false) [] []
      ⟨rfl, rfl, rfl, rfl, others, fun _ _ => rfl, fun _ _ => rfl, fun _ => id⟩
      ⟨rfl, (by simp), List.nodup_nil⟩ rfl
      (h.good.put (h.accept_lt low) ?_ (by rintro ⟨⟩) rfl) rfl
      (fun out => absurd low (Nat.not_lt.mpr out)) ?_ (by simp) ?_
    · unfold Entry.linked
      simp [Entry.setStatus, Phase.quarantined, unlinked]
    · dsimp only
      rw [native]
      refine ⟨was.sound.rest false (by simp) (.inr rfl), ?_,
        fun out => absurd low (Nat.not_lt.mpr out), was.counts, (by intro _ h; cases h)⟩
      intro _
      refine ⟨accepting.state, (by rintro ⟨⟩), fun flying _ => done flying, ?_, accepting.echoed, ?_,
        (by rintro ⟨⟩), (by intro _ h; cases h)⟩
      · intro running
        rw [show (world.native i).running = true from running] at still
        cases still
      · intro either
        rcases either with empty | no
        · rw [show (world.native i).occupied = false from empty] at occupied
          cases occupied
        · cases no
    · intro token
      unfold Entry.Owns Entry.Lends Entry.classAt
      simp [Entry.setStatus, accepting.state, vacant.1, low]

theorem Inv.accepted (arrived : (world.native i).arrived = true) :
    ∃ out world', world.step (.accepted i) = .ok (out, world') ∧ Keeps layout world world' := by
  have low := h.arrived_lt arrived
  have was := h.held i
  have accepting := was.accepting low
  have vacant := accepting.vacant (.inr arrived)
  have occupied := accepting.arrived arrived
  unfold step Domain.accepted Store.tryClaim
  dsimp only
  rw [if_pos (h.accept_lt low)]
  cases spent : (world.entries i).exhausted with
  | true =>
    rw [if_neg (by simp [Phase.canClaim])]
    exact ⟨_, _, rfl, h.abandoned arrived⟩
  | false =>
    have claim : (world.entries i).phase.canClaim (world.entries i).lease false = true := by
      unfold Phase.canClaim
      rw [vacant.1]
      rcases vacant.2 with ready | ⟨flying, -⟩
      · simp [ready]
      · simp [flying]
    rw [if_pos claim]
    refine ⟨_, _, rfl, ?_⟩
    refine h.alter (world.entries i).claim [] [.accepted i (world.entries i).generation]
      ⟨rfl, rfl, rfl, rfl, fun j apart => update_of_ne apart .., fun _ _ => rfl,
        fun _ _ => rfl, fun _ => id⟩ ⟨rfl, by simp [Token.slot], by simp⟩ rfl
      (h.good.put (h.accept_lt low) ?_ (by rintro ⟨⟩) rfl) rfl
      (fun out => absurd low (Nat.not_lt.mpr out)) ?_ ?_ ?_
    · unfold Entry.linked Entry.claim
      rcases vacant.2 with ready | ⟨flying, -⟩
      · simp [ready]
      · simp [flying]
    · dsimp only [setNative]
      rw [update_self]
      have still : (world.native i).running = false := by
        cases running : (world.native i).running with
        | false => rfl
        | true =>
          have := (accepting.running running).2.2.2
          rw [arrived] at this
          cases this
      refine ⟨was.sound.claim spent, ?_, fun out => absurd low (Nat.not_lt.mpr out), was.counts,
        fun _ _ => Entry.backed_clear rfl⟩
      intro _
      refine ⟨accepting.state, fun _ => rfl, ?_, ?_, accepting.echoed, ?_, (by rintro ⟨⟩),
        (by rintro - ⟨⟩)⟩
      · intro flying _
        rcases vacant.2 with ready | ⟨-, executed⟩
        · exact ⟨(accepting.done flying (by rw [ready]; simp)).1, still⟩
        · exact ⟨executed, still⟩
      · intro (running : (world.native i).running = true)
        rw [still] at running
        cases running
      · intro either
        rcases either with empty | no
        · rw [show (world.native i).occupied = false from empty] at occupied
          cases occupied
        · cases no
    · intro token mem
      rw [List.mem_singleton.mp mem]
      unfold Entry.Owns Entry.Lends
      simp [accepting.state, vacant.1]
    · intro token
      unfold Entry.Owns Entry.Lends Entry.classAt
      simp [Entry.claim, accepting.state, vacant.1, low]

/-- A target is published by the owner of a generation. -/
theorem Inv.publish (target : T) :
    Keeps layout world { world with
      domain := { world.domain with
        resident := world.domain.resident.setTarget i generation target }
      published := (i, generation, target) :: world.published } := by
  have was := h.held i
  unfold Store.setTarget
  dsimp only
  by_cases set : (decide (i < world.domain.resident.capacity) &&
      decide ((world.entries i).generation = generation) &&
      decide ((world.entries i).phase = .ready) &&
      (world.entries i).lease) = true
  · rw [if_pos set]
    simp only [Bool.and_eq_true, decide_eq_true_eq] at set
    rcases set with ⟨⟨⟨inside, version⟩, ready⟩, leased⟩
    have unlinked : (world.entries i).linked = false := by
      unfold Entry.linked
      simp [ready]
    refine h.alter ((world.entries i).setTarget target) [] []
      ⟨rfl, rfl, rfl, rfl, fun _ _ => rfl, fun _ _ => rfl, fun _ _ => rfl,
        fun _ => List.mem_cons_of_mem _⟩ ⟨rfl, nofun, List.nodup_nil⟩ rfl
      (h.good.put inside rfl ?_ rfl) rfl (fun _ _ => rfl) ?_ nofun ?_
    · intro linked
      exact absurd (unlinked.symm.trans linked) nofun
    · refine ⟨⟨was.sound.bound, was.sound.leased, was.sound.spent, was.sound.flying,
        was.sound.queued⟩, ?_, was.placed, was.counts, ?_⟩
      · intro low
        have accepting := was.accepting low
        exact ⟨accepting.state, accepting.leased, accepting.done, accepting.running,
          accepting.echoed, accepting.vacant, accepting.arrived, accepting.executed⟩
      · intro _ _
        show (i, (world.entries i).generation, target) ∈ _
        rw [version]
        exact List.mem_cons_self
    · intro token
      rw [show token ∈ [] ∨ _ ↔ _ from or_iff_right List.not_mem_nil]
      simp only [List.not_mem_nil, not_false_eq_true, true_and]
      exact Iff.rfl
  · rw [if_neg set]
    refine h.alter (world.entries i) [] []
      ⟨rfl, rfl, rfl, (update_eq_self ..).symm, fun _ _ => rfl, fun _ _ => rfl,
        fun _ _ => rfl, fun _ => List.mem_cons_of_mem _⟩ ⟨rfl, nofun, List.nodup_nil⟩ rfl h.good rfl
      (fun _ _ => rfl) ?_ nofun (by simp)
    exact { was with
      targets := fun ready leased =>
        (was.targets ready leased).congr rfl rfl fun _ => List.mem_cons_of_mem _ }

/-! ## The kernel's side -/

theorem Inv.nativeOnly (native : Native)
    (held : Held layout.accept layout.last i (world.entries i) native
      (world.submits i) (world.consumes i) world.published) :
    Keeps layout world { world with native := world.setNative i native } := by
  refine h.alter (world.entries i) [] [] ⟨rfl, rfl, rfl, (update_eq_self ..).symm,
      fun j apart => update_of_ne apart .., fun _ _ => rfl, fun _ _ => rfl,
      fun _ => id⟩ ⟨rfl, nofun, List.nodup_nil⟩ rfl h.good rfl (fun _ _ => rfl) ?_ nofun (by simp)
  dsimp only [setNative]
  rw [update_self]
  exact held

theorem Inv.arrive (low : i < layout.accept) (empty : (world.native i).occupied = false) :
    Keeps layout world { world with
      native := world.setNative i { world.native i with occupied := true, arrived := true } } := by
  have was := h.held i
  have accepting := was.accepting low
  have vacant := accepting.vacant (.inl empty)
  refine h.nativeOnly _ { was with
    accepting := fun _ => ⟨accepting.state, accepting.leased, accepting.done, ?_, accepting.echoed,
      fun _ => vacant, fun _ => rfl, fun _ _ => .inr rfl⟩
    placed := fun out => absurd low (Nat.not_lt.mpr out) }
  intro running
  have := (accepting.running running).2.2.1
  rw [empty] at this
  cases this

theorem Inv.execute (running : (world.native i).running = true) :
    Keeps layout world { world with
      native := world.setNative i
        { world.native i with running := false, executed := true, occupied := false } } := by
  have was := h.held i
  refine h.nativeOnly _ { was with accepting := ?_, placed := ?_ }
  · intro low
    have accepting := was.accepting low
    have flying := accepting.running running
    have vacant : (world.entries i).lease = false := by
      cases leased : (world.entries i).lease with
      | false => rfl
      | true =>
        have ready := accepting.leased leased
        rw [flying.1] at ready
        cases ready
    refine ⟨accepting.state, accepting.leased, fun _ _ => ⟨rfl, rfl⟩, nofun, fun _ _ => rfl, ?_, ?_,
      fun _ _ => .inl rfl⟩
    · exact fun _ => ⟨vacant, .inr ⟨flying.1, rfl⟩⟩
    · intro arrived
      rw [show (world.native i).arrived = true from arrived] at flying
      cases flying.2.2.2
  · exact was.placed

theorem Inv.failClose (running : (world.native i).running = true) :
    Keeps layout world { world with
      native := world.setNative i { world.native i with running := false } } := by
  have was := h.held i
  refine h.nativeOnly _ { was with accepting := ?_, placed := ?_ }
  · intro low
    have accepting := was.accepting low
    have flying := accepting.running running
    exact ⟨accepting.state, accepting.leased, fun _ no => absurd flying.1 no, nofun, fun _ _ => rfl,
      accepting.vacant, accepting.arrived, accepting.executed⟩
  · exact was.placed

end

end World

end Dope.Core.Fd
