import Dope.Dns.Storage.Sound

/-! # Settling an attempt

An attempt in hand ends in its row again: pending with its bit set, or finished
with its stream lease returned. No count wraps on the way.
-/

namespace Dope.Dns.Storage

open Index Run Function

variable {config : Config} {n lanes : Nat} {view : View config n lanes}
  {registry : Registry lanes} {place : Place lanes} {attempt : Attempt config}

/-! ## The lease in hand -/

theorem Held.drop_hand {server : Tx.Server} (held : Held view registry (some server)) :
    ∃ live, registry.live.decrement server = .ok live ∧
      Held view { registry with live := live } none := by
  have count := held.live server
  rw [if_pos rfl] at count
  refine ⟨registry.live.put server (registry.live.counts server - 1), ?_, ?_⟩
  · unfold Live.decrement
    rw [if_neg (by omega)]
  · refine ⟨held.bits, held.udp, held.tcp, ?_, held.valid⟩
    intro other
    have counts := held.live other
    by_cases same : other = server
    · subst same
      simp only [Live.put, if_true]
      simp
      omega
    · simp only [Live.put, same, if_false]
      simpa [Ne.symm same] using counts

theorem holders_card_le (view : View config n lanes) (server : Tx.Server) :
    (holders view server).card ≤ lanes * 2 := by
  have all := Finset.card_le_univ (holders view server)
  have places : Fintype.card (Place lanes) = lanes * 2 := by
    rw [Fintype.card_prod, Fintype.card_fin]
    rfl
  omega

theorem Held.take_hand (bound : lanes * 2 ≤ 65534) (held : Held view registry none)
    (server : Tx.Server) :
    ∃ live, registry.live.increment server = .ok live ∧
      Held view { registry with live := live } (some server) := by
  have count := held.live server
  have few := holders_card_le view server
  simp at count
  refine ⟨registry.live.put server (registry.live.counts server + 1), ?_, ?_⟩
  · unfold Live.increment
    rw [if_pos (by omega)]
  · refine ⟨held.bits, held.udp, held.tcp, ?_, held.valid⟩
    intro other
    have counts := held.live other
    by_cases same : other = server
    · subst same
      simp only [Live.put, if_true]
      omega
    · simp only [Live.put, same, if_false]
      simpa [Ne.symm same] using counts

theorem Held.move_hand (bound : lanes * 2 ≤ 65534) {lease : Tx.Server}
    (held : Held view registry (some lease)) (target : Tx.Server) :
    ∃ live, registry.live.transfer lease target = .ok (target, live) ∧
      Held view { registry with live := live } (some target) := by
  unfold Live.transfer
  by_cases same : lease = target
  · subst same
    exact ⟨registry.live, by rw [if_pos rfl], held⟩
  · obtain ⟨less, dropped, held⟩ := held.drop_hand
    obtain ⟨live, taken, held⟩ := held.take_hand bound target
    refine ⟨live, ?_, held⟩
    rw [if_neg same, dropped, ok_bind, taken, ok_bind]

theorem Held.release (held : Held view registry attempt.request.stream) :
    ∃ live, attempt.release registry.live = .ok live ∧
      Held view { registry with live := live } none := by
  unfold Attempt.release Request.release
  cases stream : attempt.request.stream with
  | none =>
    rw [stream] at held
    exact ⟨registry.live, rfl, held⟩
  | some server =>
    rw [stream] at held
    exact held.drop_hand

/-! ## Outcomes -/

/-- The run ends without a fault and its branch fits the row. -/
def Settles (view : View config n lanes) (place : Place lanes)
    (run : Except Fault (Registry lanes × Branch config n)) : Prop :=
  ∃ registry branch, run = .ok (registry, branch) ∧ Held (update view place branch) registry none

theorem finish_settles (held : Held view registry attempt.request.stream)
    (old : (view place).Quiet) (next : Outcome n) :
    Settles view place (attempt.finish registry next) := by
  obtain ⟨live, released, held⟩ := held.release
  refine ⟨_, _, ?_, held.set_quiet place _ old (Branch.quiet_ofOutcome next)⟩
  unfold Attempt.finish
  rw [released, ok_bind]

/-- The attempt goes back to its row, waiting for the transport it is on. -/
theorem pending_settles (held : Held view registry attempt.request.stream)
    (old : (view place).Quiet) : Settles view place (.ok (Row.pending registry place attempt)) :=
  ⟨_, _, rfl, held.put_pending place attempt old⟩

section

variable (bound : lanes * 2 ≤ 65534) (held : Held view registry attempt.request.stream)

include bound held

theorem stream_settles (old : (view place).Quiet) :
    Settles view place (attempt.stream registry place) := by
  unfold Attempt.stream
  cases stream : attempt.request.stream with
  | some server =>
    have again : attempt.request.startStream registry.live = .ok none := by
      unfold Request.startStream
      rw [stream]
    rw [again, ok_bind]
    exact finish_settles held old _
  | none =>
    rw [stream] at held
    obtain ⟨live, taken, held⟩ := held.take_hand bound attempt.request.server.index
    have started : attempt.request.startStream registry.live =
        .ok (some ({ attempt.request with
          stream := some attempt.request.server.index }, live)) := by
      unfold Request.startStream
      rw [stream]
      dsimp only
      rw [taken, ok_bind]
    rw [started, ok_bind]
    exact ⟨_, _, rfl, Held.put_pending place _ held old⟩

theorem cookie_settles (old : (view place).Quiet) :
    Settles view place (attempt.cookie registry place) := by
  unfold Attempt.cookie Request.retryCookie
  by_cases again : attempt.request.cookieRetry
  · rw [if_pos again]
    exact stream_settles bound held old
  · rw [if_neg again]
    exact ⟨_, _, rfl, Held.put_pending place _ held old⟩

/-- A retry keeps its stream lease and moves it along with the server. -/
theorem request_retry (next : Nat) :
    ∃ request live, attempt.request.retry next registry.live = .ok (request, live) ∧
      Held view { registry with live := live } request.stream := by
  unfold Request.retry
  cases stream : attempt.request.stream with
  | none =>
    rw [stream] at held
    exact ⟨_, _, rfl, held⟩
  | some lease =>
    rw [stream] at held
    obtain ⟨live, moved, held⟩ := held.move_hand bound attempt.request.server.next.index
    refine ⟨{ attempt.request with
      attempt := next
      cookieRetry := false
      server := attempt.request.server.next
      stream := some attempt.request.server.next.index }, live, ?_, held⟩
    dsimp only
    rw [moved, ok_bind]

theorem retry_settles (old : (view place).Quiet) (hard now : Nat) (error : Error.Kind) :
    Settles view place (attempt.retry hard now error registry place) := by
  unfold Attempt.retry
  split
  · exact finish_settles held old _
  · split
    · exact finish_settles held old _
    · split
      · exact finish_settles held old _
      · rename_i next _
        obtain ⟨request, live, retried, held⟩ := request_retry bound held next
        rw [retried, ok_bind]
        exact ⟨_, _, rfl, Held.put_pending place _ held old⟩

end

theorem tryAlias_stream {request request' : Request config} {name : Host.Name} {stop : Nat}
    {hops : Hops} (h : request.tryAlias name stop hops = .ok request') :
    request'.stream = request.stream := by
  unfold Request.tryAlias at h
  obtain ⟨total, -, h⟩ := bind_ok.mp h
  cases h
  rfl

theorem follow_settles (held : Held view registry attempt.request.stream)
    (old : (view place).Quiet) (name : Host.Name) (ttl : Nat) (hops : Hops) (hard now : Nat) :
    Settles view place (attempt.follow name ttl hops hard now registry place) := by
  unfold Attempt.follow
  split
  · exact finish_settles held old _
  · split
    · exact finish_settles held old _
    · rename_i request aliased
      rw [← tryAlias_stream aliased] at held
      exact ⟨_, _, rfl, Held.put_pending place _ held old⟩

theorem apply_settles (bound : lanes * 2 ≤ 65534)
    (held : Held view registry attempt.request.stream) (old : (view place).Quiet) (reply : Reply n)
    (hard now : Nat) : Settles view place (attempt.apply reply hard now registry place) := by
  unfold Attempt.apply
  cases reply with
  | addresses values ttl hops =>
    dsimp only
    split
    · exact finish_settles held old _
    · split
      · exact finish_settles held old _
      · exact finish_settles held old _
  | aliased name ttl hops =>
    dsimp only
    split
    · exact absurd ‹_› (Wire.tryDecode_ne_none name)
    · exact finish_settles held old _
    · exact follow_settles held old _ _ _ _ _
  | noData => exact finish_settles held old _
  | truncated => exact stream_settles bound held old
  | nameError => exact finish_settles held old _
  | refused | server => exact retry_settles bound held old _ _ _
  | capacity | malformed => exact finish_settles held old _

/-! ## Taking a branch down -/

theorem retire_held (place : Place lanes) (held : Held view registry none) :
    ∃ registry', registry.retire place (view place) = .ok registry' ∧
      Held (update view place .empty) registry' none := by
  unfold Registry.retire
  cases row : view place with
  | pending attempt =>
    obtain ⟨live, released, held⟩ := (held.take_pending row).release
    refine ⟨_, ?_, held⟩
    dsimp only
    rw [released, ok_bind]
  | waiting attempt transaction =>
    obtain ⟨live, released, held⟩ := (held.take_waiting row).release
    refine ⟨_, ?_, held⟩
    dsimp only at released ⊢
    rw [released, ok_bind]
  | done addresses validUntil =>
    exact ⟨registry, rfl, held.set_quiet place _ (by rw [row]; rfl) Branch.quiet_empty⟩
  | empty => exact ⟨registry, rfl, held.set_quiet place _ (by rw [row]; rfl) Branch.quiet_empty⟩
  | failed error =>
    exact ⟨registry, rfl, held.set_quiet place _ (by rw [row]; rfl) Branch.quiet_empty⟩

theorem expireRow_settles (bound : lanes * 2 ≤ 65534) (place : Place lanes)
    (held : Held view registry none) (now hard : Nat) :
    Settles view place (Query.expireRow (view place) now hard registry place) := by
  have unchanged : Settles view place (.ok (registry, view place)) :=
    ⟨registry, view place, rfl, by rwa [update_eq_self]⟩
  have emptied : (update view place .empty place).Quiet := by
    rw [update_self]
    exact Branch.quiet_empty
  have refill : ∀ run, Settles (update view place .empty) place run → Settles view place run := by
    rintro run ⟨registry', branch, ran, settled⟩
    rw [update_idem] at settled
    exact ⟨registry', branch, ran, settled⟩
  unfold Query.expireRow
  split
  · exact unchanged
  · split
    · exact unchanged
    · cases row : view place with
      | pending attempt =>
        exact refill _ (retry_settles bound (held.take_pending row) emptied _ _ _)
      | waiting attempt transaction =>
        exact refill _ (retry_settles bound (held.take_waiting row) emptied _ _ _)
      | done addresses validUntil =>
        rw [row] at unchanged
        exact unchanged
      | empty =>
        rw [row] at unchanged
        exact unchanged
      | failed error =>
        rw [row] at unchanged
        exact unchanged

end Dope.Dns.Storage
