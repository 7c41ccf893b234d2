import Dope.Dns.Storage.Steps

/-! # Starts

A pending branch is claimed by taking its bit. Whatever the socket or the
connection answers, the bit is gone when the branch waits or has failed, and
set again when it is still pending.
-/

namespace Dope.Dns.Storage

open Index Run Function

variable {config : Config} {n lanes : Nat} {attempt : Attempt config}

namespace Claim

variable {ledger : Ledger config n lanes} {claim : Claim config n lanes}

/-- A claim has taken the bit of a pending branch of a sound ledger. -/
structure Ok (claim : Claim config n lanes) (attempt : Attempt config) : Prop where
  row : viewOf claim.ledger.slots claim.place = .pending attempt
  plane : claim.plane = planeOf attempt.request.stream
  sound : claim.drop.Sound
  taken : claim.ledger.registry = Row.unregister claim.drop.registry claim.place attempt.request

theorem take_ok {picker : Picker (Place lanes)} {plane : Plane} (sound : ledger.Sound)
    (h : take picker ledger plane = some claim) : ∃ attempt, claim.Ok attempt := by
  unfold take at h
  split at h
  · simp at h
  · rename_i place pending taken
    cases h
    obtain ⟨member, rfl⟩ := Planes.take_some taken
    have same : (Claim.drop ⟨{ ledger with registry := { ledger.registry with
        pending := ledger.registry.pending.clear plane place } }, plane, place⟩) = ledger := by
      unfold drop
      dsimp only
      rw [Planes.insert_clear member]
    have bit := sound.bits plane place
    rw [member] at bit
    cases row : viewOf ledger.slots place with
    | pending attempt =>
      rw [row] at bit
      have mine : planeOf attempt.request.stream = plane := by simpa [Branch.bit] using bit.symm
      refine ⟨attempt, row, mine.symm, ?_, ?_⟩
      · rw [same]
        exact sound
      · rw [same]
        simp only [Row.unregister, mine]
    | waiting | done | empty | failed => simp [row, Branch.bit] at bit

namespace Ready

def Ok (ready : Ready config n lanes) : Prop :=
  Ledger.Hand ready.claim.ledger ready.claim.place ready.attempt ∧
    ready.claim.plane = planeOf ready.attempt.request.stream

variable {ready : Ready config n lanes} {ids : Tx.Table (Place lanes)}

/-- The attempt in hand with a changed table. -/
def With (ready : Ready config n lanes) (ids : Tx.Table (Place lanes)) : Prop :=
  Held (viewOf ready.claim.ledger.slots) { ready.claim.ledger.registry with ids := ids }
    ready.attempt.request.stream

theorem commit_sound (ok : ready.Ok) {lease : Tx.Lease}
    (held : Held (update (viewOf ready.claim.ledger.slots) ready.claim.place
      (.waiting ready.attempt lease)) { ready.claim.ledger.registry with ids := ids } none) :
    (ready.commit ids lease).Sound :=
  ok.1.put held

theorem fail_sound (ok : ready.Ok) (held : ready.With ids) (cause : Error.Kind) :
    ∃ ledger, ready.fail ids cause = .ok (ready.claim.place.1, ledger) ∧ ledger.Sound := by
  obtain ⟨live, released, held⟩ := held.release
  refine ⟨_, ?_, ok.1.put (held.set_quiet _ (.failed cause) ok.1.quiet rfl)⟩
  unfold fail
  dsimp only at released ⊢
  rw [released, ok_bind]

theorem restore_sound (ok : ready.Ok) (held : ready.With ids) : (ready.restore ids).Sound := by
  obtain ⟨query, here⟩ := ok.1.busy
  have pending := Held.put_pending ready.claim.place ready.attempt held ok.1.quiet
  unfold restore drop write Ledger.Sound
  dsimp only
  rw [Ledger.put_view here, Ledger.put_registry, ok.2]
  exact pending

/-- An id that is granted and given back at once leaves the indexes as they were. -/
theorem returned (ok : ready.Ok) {lease : Tx.Lease}
    (held : Held (update (viewOf ready.claim.ledger.slots) ready.claim.place
      (.waiting ready.attempt lease)) { ready.claim.ledger.registry with ids := ids } none) :
    ready.With (ids.release lease) := by
  have taken := held.take_waiting (update_self ..)
  rw [update_idem, ← ok.1.row, update_eq_self] at taken
  exact taken

end Ready

/-- Either the candidate goes back as it was, or its attempt is in hand. -/
theorem ready_spec (ok : claim.Ok attempt) (now : Nat) :
    (claim.ready now = .ok (.inl claim.drop)) ∨
      ∃ ready, claim.ready now = .ok (.inr ready) ∧ ready.Ok := by
  have row := ok.row
  unfold ready
  cases here : claim.ledger.slots claim.place.1 with
  | idle completion => simp [viewOf, here] at row
  | query query =>
    have branch : query.branches claim.place.2 = .pending attempt := by
      rw [← row]
      exact (viewOf_query here claim.place.2).symm
    dsimp only
    rw [branch]
    dsimp only
    by_cases late : attempt.deadline ≤ now
    · exact .inl (by rw [if_pos late])
    · refine .inr ⟨_, by rw [if_neg late], ?_, ok.plane⟩
      apply Ledger.put_empty_hand here
      rw [ok.taken]
      exact Held.take_pending ok.sound row

end Claim

/-! ## Submissions -/

/-- A start ends without a fault, and whatever completes next is sound. -/
def Starts {α : Type} (run : Except Fault (Finish α lanes × Ledger config n lanes)) : Prop :=
  ∃ finish ledger, run = .ok (finish, ledger) ∧ ledger.Sound

theorem Udp.start_sound (pick : Tx.Id → Picker Tx.Id) {claim : Claim config n lanes}
    (ok : claim.Ok attempt) (now : Nat) (random : Tx.Random) (submit : Submission) :
    Starts (Udp.start pick claim now random submit) := by
  unfold Udp.start
  obtain dropped | ⟨ready, taken, ok⟩ := Claim.ready_spec ok now
  · rw [dropped]
    exact ⟨_, _, rfl, ok.sound⟩
  · rw [taken, ok_bind]
    dsimp only
    split
    · rename_i cause ids refusal
      have refused := Tx.Table.tryUdp_error refusal
      have held : ready.With ids :=
        ok.1.held.ids refused.owners refused.streamOwners (ok.1.held.valid.refused refused)
      obtain ⟨ledger, failed, sound⟩ := Claim.Ready.fail_sound ok held (.identity cause)
      rw [failed]
      exact ⟨_, _, rfl, sound⟩
    · rename_i lease ids grant
      have held := Held.put_udp ok.1.held ok.1.quiet (Tx.Table.tryUdp_ok grant)
      have back := Claim.Ready.returned ok held
      cases submit with
      | committed => exact ⟨_, _, rfl, Claim.Ready.commit_sound ok held⟩
      | deferred => exact ⟨_, _, rfl, Claim.Ready.restore_sound ok back⟩
      | failed cause =>
        obtain ⟨ledger, failed, sound⟩ := Claim.Ready.fail_sound ok back cause
        dsimp only
        rw [failed]
        exact ⟨_, _, rfl, sound⟩

/-- Every answer of the connection is about the frame it was given. -/
theorem Tcp.submit_sound {claim : Claim config n lanes} (ok : claim.Ok attempt) (now : Nat)
    (id : Tx.Id) (egress : Stream.Egress) :
    Starts (Tcp.submit claim now id (Stream.drain egress)) := by
  unfold Tcp.submit
  obtain dropped | ⟨ready, taken, ok⟩ := Claim.ready_spec ok now
  · rw [dropped]
    exact ⟨_, _, rfl, ok.sound⟩
  · rw [taken, ok_bind]
    dsimp only
    split
    · rename_i cause ids refusal
      have held : ready.With ids := by
        have same : ids = ready.claim.ledger.registry.ids := by
          unfold Tx.Table.tryTcp at refusal
          split at refusal
          · exact (congrArg Prod.snd refusal).symm
          · simp at refusal
        rw [same]
        exact ok.1.held
      obtain ⟨ledger, failed, sound⟩ := Claim.Ready.fail_sound ok held (.identity cause)
      rw [failed]
      exact ⟨_, _, rfl, sound⟩
    · rename_i ids grant
      have held := Held.put_tcp ok.1.held ok.1.quiet grant
      have back := Claim.Ready.returned ok held
      have failing := Claim.Ready.fail_sound ok back
      cases egress with
      | ready => exact ⟨_, _, rfl, Claim.Ready.commit_sound ok held⟩
      | exhausted | saturated => exact ⟨_, _, rfl, Claim.Ready.restore_sound ok back⟩
      | empty =>
        obtain ⟨ledger, failed, sound⟩ := failing .egress
        exact ⟨.complete .rejected ready.claim.place.1, ledger,
          by simp only [Stream.drain, Stream.Frame.prepare]
             exact bind_ok.mpr ⟨_, failed, rfl⟩, sound⟩
      | unavailable =>
        obtain ⟨ledger, failed, sound⟩ := failing (.close .egress)
        exact ⟨.complete .rejected ready.claim.place.1, ledger,
          by simp only [Stream.drain, Stream.Frame.prepare]
             exact bind_ok.mpr ⟨_, failed, rfl⟩, sound⟩

theorem Finish.apply_sound {α : Type} {ledger : Ledger config n lanes} (sound : ledger.Sound)
    (finish : Finish α lanes) (now : Nat) : (finish.apply ledger now).2.Sound := by
  cases finish with
  | done value => exact sound
  | complete value lane => exact Ledger.complete_sound sound lane now

end Dope.Dns.Storage
