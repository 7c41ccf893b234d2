import Dope.Dns.Storage.Settle

/-! # Ledger operations keep the indexes

Each operation of the ledger, from a sound state, ends without a fault in a
sound state.
-/

namespace Dope.Dns.Storage

open Index Run Function

variable {config : Config} {n lanes : Nat}

/-! ## Views of slots -/

def viewOf (slots : Fin lanes → Slot config n) : View config n lanes := fun place =>
  match slots place.1 with
  | .idle _ => .empty
  | .query query => query.branches place.2

variable {slots : Fin lanes → Slot config n} {lane : Fin lanes} {query : Query config n}

theorem viewOf_query (here : slots lane = .query query) (family : Family.Version) :
    viewOf slots (lane, family) = query.branches family := by
  simp [viewOf, here]

theorem viewOf_set (here : slots lane = .query query) (family : Family.Version)
    (branch : Branch config n) :
    viewOf (update slots lane (.query (query.set family branch))) =
      update (viewOf slots) (lane, family) branch := by
  funext place
  obtain ⟨other, other'⟩ := place
  by_cases same : other = lane
  · subst same
    by_cases mine : other' = family
    · subst mine
      simp [viewOf, Query.set]
    · rw [update_of_ne (by simp [mine]), viewOf_query here]
      simp [viewOf, Query.set, mine]
  · rw [update_of_ne (by simp [same])]
    simp [viewOf, same]

variable {registry : Registry lanes}

/-- An idle slot shows the same as one whose branches are all quiet. -/
theorem viewOf_idle {hand : Option Tx.Server} (held : Held (viewOf slots) registry hand)
    (here : slots lane = .query query) (quiet : ∀ family, (query.branches family).Quiet)
    (completion : Option (Ready n)) :
    Held (viewOf (update slots lane (.idle completion))) registry hand := by
  apply held.quiet
  rintro ⟨other, family⟩
  by_cases same : other = lane
  · subst same
    right
    rw [viewOf_query here]
    refine ⟨quiet family, ?_⟩
    simp only [viewOf, update_self]
    exact Branch.quiet_empty
  · left
    simp [viewOf, same]

theorem viewOf_reidle (completion completion' : Option (Ready n))
    (here : slots lane = .idle completion) :
    viewOf (update slots lane (.idle completion')) = viewOf slots := by
  funext place
  by_cases same : place.1 = lane
  · simp [viewOf, same, here]
  · simp [viewOf, same]

variable {attempt : Attempt config}

namespace Ledger

variable {ledger : Ledger config n lanes} {place : Place lanes}

def Sound (ledger : Ledger config n lanes) : Prop :=
  Held (viewOf ledger.slots) ledger.registry none

theorem new_sound : (new : Ledger config n lanes).Sound := by
  have empty : ∀ place, viewOf (new : Ledger config n lanes).slots place = .empty := fun _ => rfl
  refine ⟨?_, ?_, ?_, ?_, Tx.Table.new_valid⟩
  · intro plane place
    rw [empty]
    rfl
  · intro id place
    rw [empty]
    simp [new, Tx.Table.new, Branch.udpId]
  · intro id place
    rw [empty]
    simp [new, Tx.Table.new, Branch.tcpId]
  · intro server
    have none : holders (viewOf (new : Ledger config n lanes).slots) server = ∅ := by
      simp only [holders, empty, Finset.filter_eq_empty_iff]
      simp [Branch.stream, Branch.attempt]
    rw [none]
    rfl

theorem setSlot_slots (ledger : Ledger config n lanes) (lane : Fin lanes)
    (slot : Slot config n) : (ledger.setSlot lane slot).slots = update ledger.slots lane slot := by
  funext other
  simp [setSlot, update_apply]

theorem put_query (here : ledger.slots place.1 = .query query) (registry : Registry lanes)
    (branch : Branch config n) :
    ledger.put place registry branch =
      { ledger.setSlot place.1 (.query (query.set place.2 branch)) with
        registry := registry } := by
  unfold put
  rw [here]

theorem put_view (here : ledger.slots place.1 = .query query) (registry : Registry lanes)
    (branch : Branch config n) :
    viewOf (ledger.put place registry branch).slots =
      update (viewOf ledger.slots) place branch := by
  rw [put_query here]
  dsimp only
  rw [setSlot_slots]
  exact viewOf_set here place.2 branch

theorem put_registry (ledger : Ledger config n lanes) (place : Place lanes)
    (registry : Registry lanes) (branch : Branch config n) :
    (ledger.put place registry branch).registry = registry := by
  unfold put
  split <;> rfl

theorem put_slot (here : ledger.slots place.1 = .query query) (registry : Registry lanes)
    (branch : Branch config n) :
    (ledger.put place registry branch).slots place.1 = .query (query.set place.2 branch) := by
  rw [put_query here]
  dsimp only
  rw [setSlot_slots, update_self]

/-! ## A branch in hand -/

/-- The row of a branch in hand is empty and its lane has a query. -/
structure Hand (ledger : Ledger config n lanes) (place : Place lanes)
    (attempt : Attempt config) : Prop where
  busy : ∃ query, ledger.slots place.1 = .query query
  row : viewOf ledger.slots place = .empty
  held : Held (viewOf ledger.slots) ledger.registry attempt.request.stream

theorem Hand.quiet (hand : Hand ledger place attempt) : (viewOf ledger.slots place).Quiet := by
  rw [hand.row]
  exact Branch.quiet_empty

theorem Hand.put (hand : Hand ledger place attempt) {branch : Branch config n}
    (held : Held (update (viewOf ledger.slots) place branch) registry none) :
    (ledger.put place registry branch).Sound := by
  obtain ⟨query, here⟩ := hand.busy
  unfold Sound
  rw [put_view here, put_registry]
  exact held

theorem put_empty_hand (here : ledger.slots place.1 = .query query)
    (held : Held (update (viewOf ledger.slots) place .empty) registry attempt.request.stream) :
    Hand (ledger.put place registry .empty) place attempt := by
  refine ⟨⟨_, put_slot here _ _⟩, ?_, ?_⟩
  · rw [put_view here, update_self]
  · rw [put_view here, put_registry]
    exact held

/-! ## Accepting a waiting branch -/

/-- A branch is accepted only while it waits, passes the filter and decodes. -/
theorem accept_cases {α : Type} (ledger : Ledger config n lanes) (place : Place lanes)
    (filter : Filter) (decode : Request config → Tx.Lease → Option α) :
    ledger.accept place filter decode = .ok none ∨
      ∃ query attempt transaction decoded,
        ledger.slots place.1 = .query query ∧
        query.branches place.2 = .waiting attempt transaction ∧
        filter.matches attempt transaction = true ∧
        decode attempt.request transaction = some decoded ∧
        ledger.accept place filter decode = .ok (some
          (⟨ledger.put place { ledger.registry with
              ids := ledger.registry.ids.release transaction } .empty,
            place, attempt, query.hardDeadline⟩, decoded)) := by
  unfold accept
  cases here : ledger.slots place.1 with
  | idle completion => exact .inl rfl
  | query query =>
    dsimp only
    cases row : query.branches place.2 with
    | waiting attempt transaction =>
      dsimp only
      by_cases passed : filter.matches attempt transaction = true
      · rw [if_pos passed]
        cases read : decode attempt.request transaction with
        | none => exact .inl rfl
        | some decoded =>
          exact .inr ⟨query, attempt, transaction, decoded, rfl, row, passed, read, rfl⟩
      · rw [if_neg passed]
        exact .inl rfl
    | pending | done | empty | failed => exact .inl rfl

theorem accept_hand (sound : ledger.Sound) {transaction : Tx.Lease}
    (here : ledger.slots place.1 = .query query)
    (row : query.branches place.2 = .waiting attempt transaction) :
    Hand (ledger.put place { ledger.registry with
      ids := ledger.registry.ids.release transaction } .empty) place attempt := by
  apply put_empty_hand here
  have seen : viewOf ledger.slots place = .waiting attempt transaction := by
    rw [← row]
    exact viewOf_query here place.2
  exact Held.take_waiting sound seen

end Ledger

namespace Active

variable {active : Active config n lanes}

def Ok (active : Active config n lanes) : Prop :=
  Ledger.Hand active.ledger active.place active.attempt

theorem close_sound (ok : active.Ok)
    {step : Registry lanes → Place lanes → Except Fault (Registry lanes × Branch config n)}
    (settles : Settles (viewOf active.ledger.slots) active.place
      (step active.ledger.registry active.place)) :
    ∃ ledger, active.close step = .ok ledger ∧ ledger.Sound := by
  obtain ⟨registry, branch, ran, held⟩ := settles
  refine ⟨_, ?_, ok.put held⟩
  unfold close
  rw [ran, ok_bind]

variable (bound : lanes * 2 ≤ 65534)
include bound

theorem apply_sound (ok : active.Ok) (reply : Reply n) (now : Nat) :
    ∃ ledger, active.apply reply now = .ok ledger ∧ ledger.Sound :=
  close_sound ok (apply_settles bound ok.held ok.quiet reply _ now)

theorem failed_sound (ok : active.Ok) (now : Nat) (cause : Error.Kind) :
    ∃ ledger, active.failed now cause = .ok ledger ∧ ledger.Sound :=
  close_sound ok (retry_settles bound ok.held ok.quiet _ now cause)

theorem stream_sound (ok : active.Ok) : ∃ ledger, active.stream = .ok ledger ∧ ledger.Sound :=
  close_sound ok (stream_settles bound ok.held ok.quiet)

theorem cookie_sound (ok : active.Ok) : ∃ ledger, active.cookie = .ok ledger ∧ ledger.Sound :=
  close_sound ok (cookie_settles bound ok.held ok.quiet)

omit bound

theorem drop_sound (ok : active.Ok) : ∃ ledger, active.drop = .ok ledger ∧ ledger.Sound :=
  close_sound ok (pending_settles ok.held ok.quiet)

theorem cache_ok (ok : active.Ok) (cookie : Tx.Cookie) (server : Tx.Server)
    (value : Wire.Cookies.Server) : (active.cache cookie server value).2.Ok := by
  refine ⟨ok.busy, ok.row, ?_⟩
  have valid := ok.held.valid
  exact ok.held.ids rfl rfl ⟨valid.split, valid.once, valid.counted⟩

end Active

/-! ## Slots -/

namespace Query

variable {registry : Registry lanes}

theorem failStreams_held (cause : Error.Kind) (families : List Family.Version)
    (here : slots lane = .query query) (held : Held (viewOf slots) registry none) :
    ∃ query' registry', query.failStreams cause lane families registry = .ok (query', registry') ∧
      Held (viewOf (update slots lane (.query query'))) registry' none := by
  induction families generalizing slots query registry with
  | nil =>
    refine ⟨query, registry, rfl, ?_⟩
    rw [← here, update_eq_self]
    exact held
  | cons family rest ih =>
    unfold failStreams
    split
    · have retired := retire_held (lane, family) held
      rw [viewOf_query here] at retired
      obtain ⟨registry', ran, held⟩ := retired
      have failed : Held (viewOf (update slots lane
          (.query (query.set family (.failed cause))))) registry' none := by
        rw [viewOf_set here]
        have again := held.set_quiet (lane, family) (.failed cause)
          (by rw [update_self]; exact Branch.quiet_empty) rfl
        rwa [update_idem] at again
      obtain ⟨query', registry'', ran', held'⟩ := ih (update_self ..) failed
      refine ⟨query', registry'', ?_, ?_⟩
      · rw [ran, ok_bind, ran']
      · rwa [update_idem] at held'
    · exact ih here held

theorem failStopped_held (here : slots lane = .query query)
    (held : Held (viewOf slots) registry none) :
    ∃ query' registry', query.failStopped lane registry = .ok (query', registry') ∧
      Held (viewOf (update slots lane (.query query'))) registry' none := by
  unfold failStopped
  cases registry.streamFailure with
  | none =>
    refine ⟨query, registry, rfl, ?_⟩
    rw [← here, update_eq_self]
    exact held
  | some cause => exact failStreams_held cause _ here held

theorem expireRows_held (bound : lanes * 2 ≤ 65534) (now : Nat) (families : List Family.Version)
    (here : slots lane = .query query) (held : Held (viewOf slots) registry none) :
    ∃ query' registry', query.expireRows now lane families registry = .ok (query', registry') ∧
      Held (viewOf (update slots lane (.query query'))) registry' none := by
  induction families generalizing slots query registry with
  | nil =>
    refine ⟨query, registry, rfl, ?_⟩
    rw [← here, update_eq_self]
    exact held
  | cons family rest ih =>
    have settles := expireRow_settles bound (lane, family) held now query.hardDeadline
    rw [viewOf_query here] at settles
    obtain ⟨registry', branch, ran, held⟩ := settles
    rw [← viewOf_set here] at held
    obtain ⟨query', registry'', ran', held'⟩ := ih (update_self ..) held
    refine ⟨query', registry'', ?_, ?_⟩
    · unfold expireRows
      rw [ran, ok_bind]
      exact ran'
    · rwa [update_idem] at held'

/-- Retiring rows empties them, and what was empty stays so. -/
theorem retireRows_held (families : List Family.Version) (here : slots lane = .query query)
    (held : Held (viewOf slots) registry none) :
    ∃ query' registry', query.retireRows lane families registry = .ok (query', registry') ∧
      Held (viewOf (update slots lane (.query query'))) registry' none ∧
      ∀ family, family ∈ families ∨ query.branches family = .empty →
        query'.branches family = .empty := by
  induction families generalizing slots query registry with
  | nil =>
    refine ⟨query, registry, rfl, ?_, by simp⟩
    rw [← here, update_eq_self]
    exact held
  | cons family rest ih =>
    have retired := retire_held (lane, family) held
    rw [viewOf_query here] at retired
    obtain ⟨registry', ran, held⟩ := retired
    rw [← viewOf_set here] at held
    obtain ⟨query', registry'', ran', held', empty⟩ := ih (update_self ..) held
    refine ⟨query', registry'', ?_, ?_, ?_⟩
    · unfold retireRows
      rw [ran, ok_bind]
      exact ran'
    · rwa [update_idem] at held'
    · intro other either
      apply empty
      by_cases same : other = family
      · right
        simp [Query.set, same]
      · simp only [Query.set, same, if_false]
        simpa [same] using either

theorem complete_some {now : Nat} {result : Except Error.Kind (Answer n)}
    (h : query.complete now = some result) (family : Family.Version) :
    (query.branches family).Quiet := by
  unfold complete at h
  split at h
  · simp at h
  · rename_i finished
    simp only [Decidable.not_not] at finished
    cases family with
    | four => exact Branch.quiet_of_finished finished.1
    | six => exact Branch.quiet_of_finished finished.2

end Query

namespace Ledger

variable {ledger : Ledger config n lanes}

theorem setSlot_same {slot : Slot config n} (here : ledger.slots lane = slot) :
    ledger.setSlot lane slot = ledger := by
  unfold setSlot
  congr
  funext other
  split
  · rename_i same
    rw [same, here]
  · rfl

theorem complete_sound (sound : ledger.Sound) (lane : Fin lanes) (now : Nat) :
    (ledger.complete lane now).Sound := by
  unfold complete Slot.complete
  cases here : ledger.slots lane with
  | idle completion =>
    dsimp only
    rw [setSlot_same here]
    exact sound
  | query query =>
    dsimp only
    cases done : query.complete now with
    | none =>
      dsimp only
      rw [setSlot_same here]
      exact sound
    | some result =>
      unfold Sound
      rw [setSlot_slots]
      exact viewOf_idle sound here (Query.complete_some done) _

theorem retireLane_sound (sound : ledger.Sound) (lane : Fin lanes) :
    ∃ ledger', ledger.retireLane lane = .ok ledger' ∧ ledger'.Sound ∧
      ledger'.slots lane = .idle none := by
  unfold retireLane Slot.retire
  cases here : ledger.slots lane with
  | idle completion =>
    refine ⟨_, rfl, ?_, ?_⟩
    · unfold Sound
      rw [setSlot_slots, viewOf_reidle completion none here]
      exact sound
    · rw [setSlot_slots, update_self]
  | query query =>
    obtain ⟨query', registry', ran, held, empty⟩ :=
      Query.retireRows_held Family.Version.all here sound
    refine ⟨{ ledger.setSlot lane (.idle none) with registry := registry' }, ?_, ?_, ?_⟩
    · dsimp only
      rw [ran]
      rfl
    · unfold Sound
      have idle := viewOf_idle held (update_self ..) (fun family => by
        rw [empty family (.inl (by cases family <;> simp [Family.Version.all]))]
        exact Branch.quiet_empty) none
      rw [update_idem] at idle
      dsimp only
      rw [setSlot_slots]
      exact idle
    · dsimp only
      rw [setSlot_slots, update_self]

/-- Both branches of a new query are pending on the datagram plane. -/
theorem intoQuery_held (here : slots lane = .idle none) (held : Held (viewOf slots) registry none)
    (seed : Seed config) :
    Held (viewOf (update slots lane (.query (seed.intoQuery lane registry).1)))
      (seed.intoQuery (n := n) lane registry).2 none := by
  have idle : ∀ family, viewOf slots (lane, family) = .empty := by
    intro family
    simp [viewOf, here]
  have four := Held.put_pending (lane, .four) (.initial seed.name seed.stop seed.server) held
    (by rw [idle]; exact Branch.quiet_empty)
  have six := Held.put_pending (lane, .six) (.initial seed.name seed.stop seed.server) four
    (by rw [update_of_ne (by simp), idle]; exact Branch.quiet_empty)
  have same : viewOf (update slots lane (.query (seed.intoQuery lane registry).1)) =
      update (update (viewOf slots) (lane, .four)
        (.pending (.initial seed.name seed.stop seed.server)))
        (lane, .six) (.pending (.initial seed.name seed.stop seed.server)) := by
    funext place
    obtain ⟨other, family⟩ := place
    by_cases mine : other = lane
    · subst mine
      cases family with
      | four =>
        rw [update_of_ne (by simp), update_self]
        simp [viewOf, Seed.intoQuery]
      | six =>
        rw [update_self]
        simp [viewOf, Seed.intoQuery]
    · rw [update_of_ne (by simp [mine]), update_of_ne (by simp [mine])]
      simp [viewOf, mine]
  rw [same]
  exact six

theorem start_sound (sound : ledger.Sound) (lane : Fin lanes) (seed : Seed config) :
    ∃ ledger', ledger.start lane seed = .ok ledger' ∧ ledger'.Sound := by
  obtain ⟨retired, ran, clean, idle⟩ := retireLane_sound sound lane
  unfold retireLane at ran
  obtain ⟨⟨slot, registry⟩, step, built⟩ := bind_ok.mp ran
  cases built
  refine ⟨{ ledger.setSlot lane (.query (seed.intoQuery lane registry).1) with
    registry := (seed.intoQuery (n := n) lane registry).2 }, ?_, ?_⟩
  · unfold start Slot.start
    rw [step]
    rfl
  · unfold Sound at clean ⊢
    dsimp only at clean idle ⊢
    rw [setSlot_slots] at clean idle ⊢
    have fresh := intoQuery_held idle clean seed
    rwa [update_idem] at fresh

theorem pollLane_sound (bound : lanes * 2 ≤ 65534) (sound : ledger.Sound) (lane : Fin lanes)
    (now : Nat) : ∃ answer ledger', ledger.pollLane lane now = .ok (answer, ledger') ∧
      ledger'.Sound := by
  unfold pollLane Slot.poll
  cases here : ledger.slots lane with
  | idle completion =>
    refine ⟨_, _, rfl, ?_⟩
    unfold Sound
    rw [setSlot_slots]
    cases completion with
    | none =>
      rw [show (Slot.idle none : Slot config n).answer.2 = .idle none from rfl,
        viewOf_reidle none none here]
      exact sound
    | some ready =>
      rw [show (Slot.idle (some ready) : Slot config n).answer.2 = .idle none from rfl,
        viewOf_reidle (some ready) none here]
      exact sound
  | query query =>
    obtain ⟨query', registry', ran, held⟩ := Query.failStopped_held here sound
    obtain ⟨query'', registry'', ran', held'⟩ :=
      Query.expireRows_held bound now Family.Version.all (update_self ..) held
    rw [update_idem] at held'
    have polled : Held (viewOf (update ledger.slots lane
        ((Slot.query query'').complete now).answer.2)) registry'' none := by
      unfold Slot.complete
      dsimp only
      cases done : query''.complete now with
      | none => exact held'
      | some result =>
        have idle := viewOf_idle held' (update_self ..) (Query.complete_some done) none
        rwa [update_idem] at idle
    refine ⟨((Slot.query query'').complete now).answer.1,
      { ledger.setSlot lane ((Slot.query query'').complete now).answer.2 with
        registry := registry'' }, ?_, ?_⟩
    · dsimp only
      rw [ran, ok_bind]
      dsimp only
      rw [ran', ok_bind]
      rfl
    · unfold Sound
      dsimp only
      rw [setSlot_slots]
      exact polled

end Ledger

/-! ## The slots after a branch is settled -/

theorem Query.set_set (query : Query config n) (family : Family.Version)
    (first second : Branch config n) :
    (query.set family first).set family second = query.set family second := by
  unfold set
  congr
  funext other
  by_cases same : other = family <;> simp [same]

theorem Active.close_slots {active : Active config n lanes} {ledger : Ledger config n lanes}
    {step : Registry lanes → Place lanes → Except Fault (Registry lanes × Branch config n)}
    (h : active.close step = .ok ledger) (here : active.ledger.slots active.place.1 = .query query) :
    ∃ registry branch, step active.ledger.registry active.place = .ok (registry, branch) ∧
      ledger.slots = update active.ledger.slots active.place.1
        (.query (query.set active.place.2 branch)) := by
  unfold close at h
  obtain ⟨⟨registry, branch⟩, ran, h⟩ := bind_ok.mp h
  cases h
  refine ⟨registry, branch, ran, ?_⟩
  rw [Ledger.put_query here]
  exact Ledger.setSlot_slots ..

/-! ## What a call settles -/

namespace Queries

variable {queries next : Queries config n lanes} {now : Nat}

theorem receiveUdp_cases {source : SocketAddr} {bytes : Bytes}
    (h : queries.receiveUdp source bytes now = .ok next) :
    next = queries ∨ ∃ message place active data cookie server inner,
      Wire.Decoder.tryNew bytes = .ok message ∧ queries.isCancelled place.1 = false ∧
      queries.inner.accept place (.live (wireId message.transaction) now)
        (readUdp message source place.2) = .ok (some (active, data, cookie, server)) ∧
      settleUdp active data cookie server now = .ok inner ∧
      next = { queries with inner := inner.complete place.1 now } := by
  unfold receiveUdp at h
  split at h
  · exact .inl (Except.ok.inj h).symm
  · rename_i message opened
    dsimp only at h
    split at h
    · exact .inl (Except.ok.inj h).symm
    · split at h
      · exact .inl (Except.ok.inj h).symm
      · rename_i place _ held
        obtain ⟨accepted, ran, h⟩ := bind_ok.mp h
        cases accepted with
        | none => exact .inl (Except.ok.inj h).symm
        | some entry =>
          obtain ⟨inner, settled, h⟩ := bind_ok.mp h
          exact .inr ⟨message, place, _, _, _, _, inner, opened, by simpa using held, ran, settled,
            (Except.ok.inj h).symm⟩

theorem receiveStream_cases {server : Tx.Server} {message : Wire.Decoder}
    (h : queries.receiveStream server message now = .ok next) :
    next = queries ∨ ∃ place active decoded inner,
      queries.inner.accept place (.live (wireId message.transaction) now)
        (readStream message server place.2) = .ok (some (active, decoded)) ∧
      settleStream active decoded now = .ok inner ∧
      next = { queries with inner := inner.complete place.1 now } := by
  unfold receiveStream at h
  dsimp only at h
  split at h
  · exact .inl (Except.ok.inj h).symm
  · split at h
    · exact .inl (Except.ok.inj h).symm
    · obtain ⟨accepted, ran, h⟩ := bind_ok.mp h
      cases accepted with
      | none => exact .inl (Except.ok.inj h).symm
      | some entry =>
        obtain ⟨inner, settled, h⟩ := bind_ok.mp h
        exact .inr ⟨_, _, _, inner, ran, settled, (Except.ok.inj h).symm⟩

theorem failUdp_cases {id : Tx.Id} {epoch : Tx.Epoch} {server : SocketAddr} {cause : Error.Kind}
    (h : queries.failUdp id epoch server cause now = .ok next) :
    next = queries ∨ ∃ place active inner,
      queries.inner.claim place (.datagram id epoch server) = .ok (some active) ∧
      active.failed now cause = .ok inner ∧
      next = { queries with inner := inner.complete place.1 now } := by
  unfold failUdp at h
  split at h
  · exact .inl (Except.ok.inj h).symm
  · split at h
    · exact .inl (Except.ok.inj h).symm
    · obtain ⟨claimed, ran, h⟩ := bind_ok.mp h
      cases claimed with
      | none => exact .inl (Except.ok.inj h).symm
      | some active =>
        obtain ⟨inner, failed, h⟩ := bind_ok.mp h
        exact .inr ⟨_, active, inner, ran, failed, (Except.ok.inj h).symm⟩

theorem undoStream_cases {id : Tx.Id} (h : queries.undoStream id = .ok next) :
    next = queries ∨ ∃ place active inner,
      queries.inner.claim place (.id id) = .ok (some active) ∧ active.drop = .ok inner ∧
      next = { queries with inner } := by
  unfold undoStream at h
  split at h
  · exact .inl (Except.ok.inj h).symm
  · split at h
    · exact .inl (Except.ok.inj h).symm
    · obtain ⟨claimed, ran, h⟩ := bind_ok.mp h
      cases claimed with
      | none => exact .inl (Except.ok.inj h).symm
      | some active =>
        obtain ⟨inner, dropped, h⟩ := bind_ok.mp h
        exact .inr ⟨_, active, inner, ran, dropped, (Except.ok.inj h).symm⟩

end Queries

end Dope.Dns.Storage
