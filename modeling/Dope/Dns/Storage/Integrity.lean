import Dope.Dns.Storage.Runs
import Dope.Dns.Wire.Integrity

/-! # Datagram integrity

A datagram moves at most one branch, and only the branch that waits for it: the
id, the source, the deadline, the lane and the question must all fit. Whatever
else a datagram says counts only when it repeats the client value of the
request; without that it can only send the branch to the stream transport.
-/

namespace Dope.Dns.Storage

open Index Run Function

variable {config : Config} {n lanes : Nat} {attempt : Attempt config}

theorem Query.complete_pending {query : Query config n} {family : Family.Version} (now : Nat) :
    (query.set family (.pending attempt)).complete now = none := by
  unfold complete
  rw [if_pos]
  rintro ⟨four, six⟩
  cases family with
  | four => simp [set, finished] at four
  | six => simp [set, finished] at six

/-- The request as it goes on over a stream to the same server: nothing else of
the attempt changes. -/
def Attempt.streaming (attempt : Attempt config) : Attempt config :=
  { attempt with request :=
    { attempt.request with stream := some attempt.request.server.index } }

theorem Attempt.stream_datagram {registry registry' : Registry lanes} {place : Place lanes}
    {branch : Branch config n} (plain : attempt.request.stream = none)
    (h : attempt.stream registry place = .ok (registry', branch)) :
    branch = .pending attempt.streaming := by
  unfold stream Request.startStream at h
  rw [plain] at h
  obtain ⟨started, increments, h⟩ := bind_ok.mp h
  obtain ⟨live, -, increments⟩ := bind_ok.mp increments
  cases increments
  cases h
  rfl

/-! ## The settled branch -/

variable {now : Nat}

/-- Settling writes one branch, and nothing but a stream attempt follows when
the stream is required. -/
theorem Queries.settleUdp_ok {active : Active config n lanes} {data : Wire.Datagram n}
    {cookie : Tx.Cookie} {server : Tx.Server} {ledger : Ledger config n lanes}
    {query : Query config n} (here : active.ledger.slots active.place.1 = .query query)
    (plain : active.attempt.request.stream = none)
    (h : settleUdp active data cookie server now = .ok ledger) :
    ∃ branch, ledger.slots = update active.ledger.slots active.place.1
        (.query (query.set active.place.2 branch)) ∧
      (data = .streamRequired → branch = .pending active.attempt.streaming) := by
  unfold settleUdp at h
  cases data with
  | authenticated reply value =>
    obtain ⟨registry, branch, -, slots⟩ := Active.close_slots h here
    exact ⟨branch, slots, by simp⟩
  | badCookie value =>
    have cached : active.cache cookie server value =
        ((active.cache cookie server value).1, (active.cache cookie server value).2) := rfl
    dsimp only at h
    rw [cached] at h
    cases flag : (active.cache cookie server value).1 with
    | true =>
      rw [flag] at h
      obtain ⟨registry, branch, -, slots⟩ := Active.close_slots h here
      exact ⟨branch, slots, by simp⟩
    | false =>
      rw [flag] at h
      obtain ⟨registry, branch, -, slots⟩ := Active.close_slots h here
      exact ⟨branch, slots, by simp⟩
  | streamRequired =>
    obtain ⟨registry, branch, ran, slots⟩ := Active.close_slots h here
    exact ⟨branch, slots, fun _ => Attempt.stream_datagram plain ran⟩

namespace Queries

/-- The datagram is the answer the branch at `place` waits for. -/
structure Answers (queries : Queries config n lanes) (source : SocketAddr) (bytes : Bytes)
    (now : Nat) (place : Place lanes) (attempt : Attempt config) (lease : Tx.Udp)
    (packet : Wire.Packet) (message : Wire.Message) : Prop where
  row : queries.branch place = .waiting attempt (.udp lease)
  contents : packet.bytes = bytes
  parses : Wire.Parses packet message
  id : lease.id.val = message.transaction
  source : source = attempt.request.address
  inTime : now < attempt.deadline
  held : queries.isCancelled place.1 = false
  asks : Wire.Asks packet message attempt.request.name place.2

/-- One branch is replaced; its query may complete by that. -/
structure Replaces (queries next : Queries config n lanes) (place : Place lanes)
    (branch : Branch config n) (now : Nat) : Prop where
  laneSets : next.laneSets = queries.laneSets
  others : ∀ lane, lane ≠ place.1 → next.inner.slots lane = queries.inner.slots lane
  slot : ∃ query, queries.inner.slots place.1 = .query query ∧
    next.inner.slots place.1 = (Slot.query (query.set place.2 branch)).complete now

/-- The branch that was taken out is written back, and its query may complete. -/
theorem Replaces.complete {queries : Queries config n lanes} {place : Place lanes}
    {query : Query config n} (here : queries.inner.slots place.1 = .query query)
    {registry : Registry lanes} {branch : Branch config n} {ledger : Ledger config n lanes}
    (slots : ledger.slots = update (queries.inner.put place registry .empty).slots place.1
      (.query ((query.set place.2 .empty).set place.2 branch))) (now : Nat) :
    queries.Replaces { queries with inner := ledger.complete place.1 now } place branch now := by
  refine ⟨rfl, ?_, query, here, ?_⟩
  · intro lane other
    dsimp only
    unfold Ledger.complete
    rw [Ledger.setSlot_slots, update_of_ne other, slots, update_of_ne other,
      Ledger.put_query here]
    dsimp only
    rw [Ledger.setSlot_slots, update_of_ne other]
  · dsimp only
    unfold Ledger.complete
    rw [Ledger.setSlot_slots, update_self, slots, update_self, Query.set_set]

/-- Ids fill sixteen bits, so the id of a message is the number it carries. -/
theorem wireId_val (packet : Wire.Packet) :
    (wireId (Wire.beBytes (Wire.slice packet 0 2))).val =
      Wire.beBytes (Wire.slice packet 0 2) := by
  apply Nat.mod_eq_of_lt
  have short : (Wire.slice packet 0 2).length ≤ 2 := List.length_take_le _ _
  match slice : Wire.slice packet 0 2, short with
  | [], _ => decide
  | [first], _ =>
    have := first.toNat_lt
    simp only [Wire.beBytes, List.foldl, Tx.capacity]
    omega
  | [first, second], _ =>
    have := first.toNat_lt
    have := second.toNat_lt
    simp only [Wire.beBytes, List.foldl, Tx.capacity]
    omega

theorem readUdp_ok {message : Wire.Decoder} {source : SocketAddr} {family : Family.Version}
    {request : Request config} {transaction : Tx.Lease} {data : Wire.Datagram n}
    {cookie : Tx.Cookie} {server : Tx.Server}
    (h : readUdp message source family request transaction = some (data, cookie, server)) :
    ∃ lease, transaction = .udp lease ∧ request.stream = none ∧ source = request.address ∧
      message.udp request.name family lease.cookie.client = .ok data := by
  unfold readUdp at h
  cases transaction with
  | tcp id => simp at h
  | udp lease =>
    dsimp only at h
    split at h
    · simp at h
    · rename_i fits
      have plain : request.stream = none := by
        cases stream : request.stream with
        | none => rfl
        | some server => exact absurd (.inl (by simp [stream])) fits
      have same : source = request.address := by
        by_contra other
        exact fits (.inr other)
      split at h
      · simp at h
      · rename_i read
        simp only [Option.some.injEq, Prod.mk.injEq] at h
        obtain ⟨rfl, -, -⟩ := h
        exact ⟨lease, rfl, plain, same, read⟩

theorem receiveUdp_ok {queries next : Queries config n lanes} {source : SocketAddr} {bytes : Bytes}
    (h : queries.receiveUdp source bytes now = .ok next) :
    next = queries ∨ ∃ place attempt lease packet message branch,
      queries.Answers source bytes now place attempt lease packet message ∧
      queries.Replaces next place branch now ∧
      (¬ Wire.CarriesCookie packet message lease.cookie.client →
        attempt.request.stream = none ∧ branch = .pending attempt.streaming) := by
  rcases receiveUdp_cases h with
    same | ⟨decoder, place, active, data, cookie, server, ledger, opened, held, taken, settled, rfl⟩
  · exact .inl same
  · obtain ⟨contents, transaction⟩ := Wire.Decoder.tryNew_ok opened
    obtain none | ⟨query, attempt, waits, answer, here, row, passed, read, ran⟩ :=
      Ledger.accept_cases queries.inner place (.live (wireId decoder.transaction) now)
        (readUdp decoder source place.2)
    · rw [none] at taken
      cases taken
    · rw [ran] at taken
      cases taken
      obtain ⟨lease, rfl, plain, same, accepted⟩ := readUdp_ok read
      obtain ⟨message, parses, asks, bare⟩ := Wire.Decoder.udp_ok accepted
      obtain ⟨branch, slots, streamed⟩ := settleUdp_ok (Ledger.put_slot here _ _) plain settled
      have matched : lease.id = wireId decoder.transaction ∧ now < attempt.deadline :=
        of_decide_eq_true passed
      refine .inr ⟨place, attempt, lease, decoder.packet, message, branch, ?_, ?_, ?_⟩
      · refine ⟨?_, contents, parses, ?_, same, matched.2, by simpa using held, asks⟩
        · unfold Queries.branch
          rw [here]
          exact row
        · rw [matched.1, transaction, parses.transaction]
          exact wireId_val decoder.packet
      · exact .complete here slots now
      · intro missing
        exact ⟨plain, streamed (bare missing)⟩

theorem Replaces.pending {queries next : Queries config n lanes} {place : Place lanes}
    (replaces : queries.Replaces next place (.pending attempt) now) :
    next.branch = update queries.branch place (.pending attempt) := by
  obtain ⟨query, here, slot⟩ := replaces.slot
  unfold Slot.complete at slot
  dsimp only at slot
  rw [Query.complete_pending] at slot
  have slots : next.inner.slots =
      update queries.inner.slots place.1 (.query (query.set place.2 (.pending attempt))) := by
    funext lane
    by_cases same : lane = place.1
    · rw [same, update_self, slot]
    · rw [update_of_ne same, replaces.others lane same]
  have viewed := viewOf_set here place.2 (.pending attempt)
  rw [← slots] at viewed
  exact viewed

/-- In every reachable state a datagram ends without a fault. It changes nothing
unless it answers a waiting branch, and then it replaces that branch alone.
Without the client value of the request the branch goes on over a stream with
the rest of its attempt, and every other branch stays. -/
theorem reachable_integrity (layout : Layout) (pick : Pickers layout.lanes)
    {queries : Queries config n layout.lanes}
    (h : (machine config n layout pick).Reachable queries) (source : SocketAddr)
    (bytes : Bytes) (now : Nat) :
    ∃ next, queries.receiveUdp source bytes now = .ok next ∧
      (next = queries ∨ ∃ place attempt lease packet message branch,
        queries.Answers source bytes now place attempt lease packet message ∧
        queries.Replaces next place branch now ∧
        (¬ Wire.CarriesCookie packet message lease.cookie.client →
          attempt.request.stream = none ∧
          next.branch = update queries.branch place (.pending attempt.streaming))) := by
  have sound := (sound_invariant layout pick).holds h
  obtain ⟨next, received, -⟩ :=
    receiveUdp_safe (Nat.le_of_lt_succ layout.bound) sound source bytes now
  refine ⟨next, received, ?_⟩
  rcases receiveUdp_ok received with same | ⟨place, attempt, lease, packet, message, branch,
    answers, replaces, streamed⟩
  · exact .inl same
  · refine .inr ⟨place, attempt, lease, packet, message, branch, answers, replaces, ?_⟩
    intro missing
    obtain ⟨plain, rfl⟩ := streamed missing
    exact ⟨plain, replaces.pending⟩

end Queries

/-- A reply to the question of a query for `a`, without any record. -/
def Sample.reply : Bytes := [0, 7, 128, 0, 0, 1, 0, 0, 0, 0, 0, 0, 1, 97, 0, 0, 1, 0, 1]

def Sample.source : SocketAddr := ⟨.v4 [192, 0, 2, 1], 53, 0, 0⟩

/-- The reply carries no client value, and the branch goes on over the stream of
its server. -/
theorem Queries.reachable_integrity_example :
    ∃ queries next : Queries Sample.single 2 1,
      (machine Sample.single 2 Sample.layout Sample.pickers).Reachable queries ∧
      queries.receiveUdp Sample.source Sample.reply 12 = .ok next ∧
      ∃ attempt, next.branch (0, .four) = .pending attempt ∧
        attempt.request.stream = some 0 := by
  have new : (machine Sample.single 2 Sample.layout Sample.pickers).Reachable .new := .start rfl
  have claimed := new.call .claim trivial rfl
  have started := claimed.call (.start 0 .startup 0 ⟨[97]⟩ 10) rfl rfl
  have waiting := started.call (.admitUdp 10 true Sample.random .committed) trivial rfl
  obtain ⟨next, received, -⟩ := reachable_integrity Sample.layout Sample.pickers waiting
    Sample.source Sample.reply 12
  refine ⟨_, next, waiting, received, ?_⟩
  have same : next = _ := Except.ok.inj (received.symm.trans rfl)
  rw [same]
  exact ⟨_, rfl, rfl⟩

end Dope.Dns.Storage
