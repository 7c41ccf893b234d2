import Dope.Dns.Storage.State

/-! # The query ledger

Model of `storage/queries`: the slots of the lanes, the starts that move a
pending branch to waiting, the replies and failures that move it on, and the
operations of `Queries` over them. A claimed branch is emptied first; what
happens to it afterwards is decided by the caller, and a claim that is dropped
returns it to where it was. The order in which pending branches, free lanes and
ids are picked is left to the index sets.
-/

namespace Dope.Dns

/-- Why a lookup was issued. -/
inductive Lookup.Reason where
  | startup
  | scheduled
  | connectFailure
  | connectTimeout
  | transportFailure
  | idleFailure
deriving DecidableEq, Repr

namespace Storage

open Core.Clock Index

variable {config : Config} {n lanes : Nat}

/-! ## Queries and slots -/

structure Answer (n : Nat) where
  addresses : Addresses n
  startedAt : Nat
  completedAt : Nat
  validUntil : Nat
deriving DecidableEq, Repr

structure Ready (n : Nat) where
  reason : Lookup.Reason
  startedUnixNs : Nat
  completedAt : Nat
  result : Except Error.Kind (Answer n)

structure Query (config : Config) (n : Nat) where
  reason : Lookup.Reason
  startedUnixNs : Nat
  startedAt : Nat
  hardDeadline : Nat
  branches : Family.Version → Branch config n

inductive Slot (config : Config) (n : Nat) where
  | idle (completion : Option (Ready n))
  | query (query : Query config n)

inductive Poll (n : Nat) where
  | idle
  | pending (deadline : Option Nat)
  | complete (ready : Ready n)

namespace Query

def set (query : Query config n) (family : Family.Version) (branch : Branch config n) :
    Query config n :=
  { query with branches := fun f => if f = family then branch else query.branches f }

/-- What a completed query has gathered from its branches. -/
structure Tally (n : Nat) where
  answer : Option (Answer n)
  cap : Option Nat
  failed : Option Error.Kind

def insertAll (addresses : Addresses n) (cap : Option Nat) :
    List IpAddr → Addresses n × Option Nat
  | [] => (addresses, cap)
  | value :: rest =>
      match addresses.insert value with
      | .added addresses => insertAll addresses cap rest
      | .present => insertAll addresses cap rest
      | .full => insertAll addresses (some (addresses.values.length + 1)) rest

/-- The earlier failure stays unless only the later one is terminal. -/
def worse (prior : Option Error.Kind) (kind : Error.Kind) : Option Error.Kind :=
  match prior with
  | none => some kind
  | some prior => if kind.isTerminal && !prior.isTerminal then some kind else some prior

def count (query : Query config n) (now : Nat) (tally : Tally n) (branch : Branch config n) :
    Option (Tally n) :=
  match branch with
  | .done addresses validUntil =>
      let answer := tally.answer.getD ⟨.new, query.startedAt, now, validUntil⟩
      let (merged, cap) := insertAll answer.addresses tally.cap addresses.values
      some { tally with
        answer := some { answer with
          validUntil := min answer.validUntil validUntil
          addresses := merged }
        cap := cap }
  | .failed kind => some { tally with failed := worse tally.failed kind }
  | .empty => some tally
  | .pending _ => none
  | .waiting _ _ => none

def finished : Branch config n → Bool
  | .pending _ => false
  | .waiting _ _ => false
  | _ => true

def complete (query : Query config n) (now : Nat) : Option (Except Error.Kind (Answer n)) :=
  if ¬ (finished (query.branches .four) ∧ finished (query.branches .six)) then none
  else do
    let tally ← query.count now ⟨none, none, none⟩ (query.branches .four)
    let tally ← query.count now tally (query.branches .six)
    match tally.cap, tally.failed, tally.answer with
    | some actual, _, _ => some (.error (.capacity n actual))
    | none, some kind, _ => some (.error kind)
    | none, none, none => some (.error .empty)
    | none, none, some answer =>
        if answer.addresses.values = [] then some (.error .empty) else some (.ok answer)

def deadline (query : Query config n) : Option Nat :=
  match (query.branches .four).deadline, (query.branches .six).deadline with
  | some four, some six => some (min four six)
  | some four, none => some four
  | none, six => six

/-- Fail every branch on a stream. -/
def failStreams (cause : Error.Kind) (lane : Fin lanes) :
    List Family.Version → Query config n → Registry lanes →
    Except Fault (Query config n × Registry lanes)
  | [], query, registry => .ok (query, registry)
  | family :: rest, query, registry =>
      if (query.branches family).isStream then do
        let registry ← registry.retire (lane, family) (query.branches family)
        failStreams cause lane rest (query.set family (.failed cause)) registry
      else failStreams cause lane rest query registry

/-- The streams fail once the connections are exhausted. -/
def failStopped (query : Query config n) (lane : Fin lanes) (registry : Registry lanes) :
    Except Fault (Query config n × Registry lanes) :=
  match registry.streamFailure with
  | none => .ok (query, registry)
  | some cause => query.failStreams cause lane Family.Version.all registry

/-- Time out one branch whose deadline is reached. -/
def expireRow (branch : Branch config n) (now hard : Nat) (registry : Registry lanes)
    (place : Place lanes) : Except Fault (Registry lanes × Branch config n) :=
  match branch.deadline with
  | none => .ok (registry, branch)
  | some deadline =>
      if ¬ deadline ≤ now then .ok (registry, branch)
      else
        match branch with
        | .waiting attempt transaction =>
            attempt.retry hard now .timeout
              { registry with ids := registry.ids.release transaction } place
        | .pending attempt =>
            attempt.retry hard now .timeout (Row.unregister registry place attempt.request) place
        | previous => .ok (registry, previous)

def expireRows (now : Nat) (lane : Fin lanes) :
    List Family.Version → Query config n → Registry lanes →
    Except Fault (Query config n × Registry lanes)
  | [], query, registry => .ok (query, registry)
  | family :: rest, query, registry => do
      let (registry, branch) ←
        expireRow (query.branches family) now query.hardDeadline registry (lane, family)
      expireRows now lane rest (query.set family branch) registry

def retireRows (lane : Fin lanes) :
    List Family.Version → Query config n → Registry lanes →
    Except Fault (Query config n × Registry lanes)
  | [], query, registry => .ok (query, registry)
  | family :: rest, query, registry => do
      let registry ← registry.retire (lane, family) (query.branches family)
      retireRows lane rest (query.set family .empty) registry

end Query

structure Seed (config : Config) where
  reason : Lookup.Reason
  startedUnixNs : Nat
  startedAt : Nat
  hardDeadline : Nat
  stop : Nat
  name : Host.Name
  server : Selected config

def Seed.new (config : Config) (reason : Lookup.Reason) (unix start hard : Nat)
    (name : Host.Name) : Seed config :=
  ⟨reason, unix, start, hard, Retry.deadline config start hard, name, .first config⟩

/-- Both branches start pending on the datagram plane. -/
def Seed.intoQuery (seed : Seed config) (lane : Fin lanes) (registry : Registry lanes) :
    Query config n × Registry lanes :=
  let attempt := Attempt.initial seed.name seed.stop seed.server
  let registry := Row.register registry (lane, .four) attempt.request
  let registry := Row.register registry (lane, .six) attempt.request
  (⟨seed.reason, seed.startedUnixNs, seed.startedAt, seed.hardDeadline,
    fun _ => .pending attempt⟩, registry)

namespace Slot

def complete (slot : Slot config n) (now : Nat) : Slot config n :=
  match slot with
  | .idle completion => .idle completion
  | .query current =>
      match current.complete now with
      | none => .query current
      | some result => .idle (some ⟨current.reason, current.startedUnixNs, now, result⟩)

def answer (slot : Slot config n) : Poll n × Slot config n :=
  match slot with
  | .query current => (.pending current.deadline, slot)
  | .idle none => (.idle, .idle none)
  | .idle (some ready) => (.complete ready, .idle none)

/-- A stream failure comes before a timeout of the same attempt. -/
def poll (slot : Slot config n) (now : Nat) (registry : Registry lanes) (lane : Fin lanes) :
    Except Fault (Poll n × Slot config n × Registry lanes) :=
  match slot with
  | .idle _ => .ok (slot.answer.1, slot.answer.2, registry)
  | .query current => do
      let (current, registry) ← current.failStopped lane registry
      let (current, registry) ← current.expireRows now lane Family.Version.all registry
      let slot := complete (.query current) now
      .ok (slot.answer.1, slot.answer.2, registry)

def retire (slot : Slot config n) (registry : Registry lanes) (lane : Fin lanes) :
    Except Fault (Slot config n × Registry lanes) :=
  match slot with
  | .idle _ => .ok (.idle none, registry)
  | .query current => do
      let (_, registry) ← current.retireRows lane Family.Version.all registry
      .ok (.idle none, registry)

def start (slot : Slot config n) (seed : Seed config) (registry : Registry lanes)
    (lane : Fin lanes) : Except Fault (Slot config n × Registry lanes) := do
  let (_, registry) ← slot.retire registry lane
  let (current, registry) := seed.intoQuery lane registry
  .ok (.query current, registry)

end Slot

/-! ## The ledger -/

structure Ledger (config : Config) (n lanes : Nat) where
  slots : Fin lanes → Slot config n
  registry : Registry lanes

inductive Filter where
  | id (want : Tx.Id)
  | datagram (id : Tx.Id) (epoch : Tx.Epoch) (server : SocketAddr)
  | live (id : Tx.Id) (now : Nat)
  | stream (server : Tx.Server)

def Filter.matches (filter : Filter) (attempt : Attempt config) (lease : Tx.Lease) : Bool :=
  match filter with
  | .id want => lease.id = want
  | .datagram want epoch server =>
      match lease with
      | .tcp _ => false
      | .udp lease =>
          lease.id = want ∧ lease.epoch = epoch ∧ attempt.request.stream = none ∧
            attempt.request.address = server
  | .live want now => lease.id = want ∧ now < attempt.deadline
  | .stream server => attempt.request.stream = some server

/-- A claimed branch: its row is empty, its id is released, and the attempt is
in the hands of the caller. -/
structure Active (config : Config) (n lanes : Nat) where
  ledger : Ledger config n lanes
  place : Place lanes
  attempt : Attempt config
  hard : Nat

namespace Ledger

def new : Ledger config n lanes where
  slots _ := .idle none
  registry := ⟨fun _ _ => false, .new, .new, none⟩

def setSlot (ledger : Ledger config n lanes) (lane : Fin lanes) (slot : Slot config n) :
    Ledger config n lanes :=
  { ledger with slots := fun l => if l = lane then slot else ledger.slots l }

/-- Write a branch back into the query of its lane. -/
def put (ledger : Ledger config n lanes) (place : Place lanes) (registry : Registry lanes)
    (branch : Branch config n) : Ledger config n lanes :=
  match ledger.slots place.1 with
  | .idle _ => { ledger with registry := registry }
  | .query query =>
      { ledger.setSlot place.1 (.query (query.set place.2 branch)) with registry := registry }

def accept {α : Type} (ledger : Ledger config n lanes) (place : Place lanes) (filter : Filter)
    (decode : Request config → Tx.Lease → Option α) :
    Except Fault (Option (Active config n lanes × α)) :=
  match ledger.slots place.1 with
  | .idle _ => .ok none
  | .query query =>
      match query.branches place.2 with
      | .waiting attempt transaction =>
          if filter.matches attempt transaction then
            match decode attempt.request transaction with
            | none => .ok none
            | some decoded =>
                -- the source matches the branch a second time when it empties the row
                match query.branches place.2 with
                | .waiting attempt transaction =>
                    let registry := { ledger.registry with
                      ids := ledger.registry.ids.release transaction }
                    .ok (some (⟨ledger.put place registry .empty, place, attempt,
                      query.hardDeadline⟩, decoded))
                | _ => .error .waiting
          else .ok none
      | _ => .ok none

def claim (ledger : Ledger config n lanes) (place : Place lanes) (filter : Filter) :
    Except Fault (Option (Active config n lanes)) := do
  match ← ledger.accept place filter (fun _ _ => some ()) with
  | none => .ok none
  | some (active, _) => .ok (some active)

def complete (ledger : Ledger config n lanes) (lane : Fin lanes) (now : Nat) :
    Ledger config n lanes :=
  ledger.setSlot lane ((ledger.slots lane).complete now)

def retireLane (ledger : Ledger config n lanes) (lane : Fin lanes) :
    Except Fault (Ledger config n lanes) := do
  let (slot, registry) ← (ledger.slots lane).retire ledger.registry lane
  .ok { ledger.setSlot lane slot with registry := registry }

def start (ledger : Ledger config n lanes) (lane : Fin lanes) (seed : Seed config) :
    Except Fault (Ledger config n lanes) := do
  let (slot, registry) ← (ledger.slots lane).start seed ledger.registry lane
  .ok { ledger.setSlot lane slot with registry := registry }

def pollLane (ledger : Ledger config n lanes) (lane : Fin lanes) (now : Nat) :
    Except Fault (Poll n × Ledger config n lanes) := do
  let (answer, slot, registry) ← (ledger.slots lane).poll now ledger.registry lane
  .ok (answer, { ledger.setSlot lane slot with registry := registry })

end Ledger

namespace Active

def close (active : Active config n lanes)
    (step : Registry lanes → Place lanes → Except Fault (Registry lanes × Branch config n)) :
    Except Fault (Ledger config n lanes) := do
  let (registry, branch) ← step active.ledger.registry active.place
  .ok (active.ledger.put active.place registry branch)

def apply (active : Active config n lanes) (reply : Reply n) (now : Nat) :
    Except Fault (Ledger config n lanes) :=
  active.close (active.attempt.apply reply active.hard now)

def failed (active : Active config n lanes) (now : Nat) (cause : Error.Kind) :
    Except Fault (Ledger config n lanes) :=
  active.close (active.attempt.retry active.hard now cause)

def stream (active : Active config n lanes) : Except Fault (Ledger config n lanes) :=
  active.close active.attempt.stream

def cookie (active : Active config n lanes) : Except Fault (Ledger config n lanes) :=
  active.close active.attempt.cookie

/-- A dropped claim leaves the branch pending. -/
def drop (active : Active config n lanes) : Except Fault (Ledger config n lanes) :=
  active.close fun registry place => .ok (Row.pending registry place active.attempt)

def cache (active : Active config n lanes) (cookie : Tx.Cookie) (server : Tx.Server)
    (value : Wire.Cookies.Server) : Bool × Active config n lanes :=
  let registry := active.ledger.registry
  let (cached, ids) := registry.ids.cache cookie server value
  (cached, { active with
    ledger := { active.ledger with registry := { registry with ids := ids } } })

end Active

/-! ## Starts -/

inductive Submission where
  | committed
  | deferred
  | failed (cause : Error.Kind)
deriving DecidableEq, Repr

inductive Finish (α : Type) (lanes : Nat) where
  | done (value : α)
  | complete (value : α) (lane : Fin lanes)

def Finish.apply {α : Type} (finish : Finish α lanes) (ledger : Ledger config n lanes)
    (now : Nat) : α × Ledger config n lanes :=
  match finish with
  | .done value => (value, ledger)
  | .complete value lane => (value, ledger.complete lane now)

/-- A pending branch taken out of its plane; the bit is restored when the claim
is dropped and stays clear when it is committed. -/
structure Claim (config : Config) (n lanes : Nat) where
  ledger : Ledger config n lanes
  plane : Plane
  place : Place lanes

namespace Claim

def commit (claim : Claim config n lanes) : Ledger config n lanes := claim.ledger

def drop (claim : Claim config n lanes) : Ledger config n lanes :=
  let registry := claim.ledger.registry
  { claim.ledger with registry :=
    { registry with pending := registry.pending.insert claim.plane claim.place } }

def take (picker : Picker (Place lanes)) (ledger : Ledger config n lanes) (plane : Plane) :
    Option (Claim config n lanes) :=
  match ledger.registry.pending.take picker plane with
  | none => none
  | some (place, pending) =>
      some ⟨{ ledger with registry := { ledger.registry with pending := pending } },
        plane, place⟩

/-- A branch ready to be sent: its row is empty and its bit is taken. -/
structure Ready (config : Config) (n lanes : Nat) where
  claim : Claim config n lanes
  attempt : Attempt config

/-- The ledger alone is a candidate that is not ready. -/
def ready (claim : Claim config n lanes) (now : Nat) :
    Except Fault (Ledger config n lanes ⊕ Ready config n lanes) :=
  match claim.ledger.slots claim.place.1 with
  | .idle _ => .ok (.inl claim.commit)
  | .query query =>
      match query.branches claim.place.2 with
      | .pending attempt =>
          if attempt.deadline ≤ now then .ok (.inl claim.drop)
          else
            -- the source matches the branch a second time when it empties the row
            match query.branches claim.place.2 with
            | .pending attempt =>
                .ok (.inr ⟨{ claim with
                  ledger := claim.ledger.put claim.place claim.ledger.registry .empty },
                  attempt⟩)
            | _ => .error .pending
      | _ => .ok (.inl claim.commit)

namespace Ready

def write (ready : Ready config n lanes) (ids : Tx.Table (Place lanes))
    (branch : Branch config n) : Claim config n lanes :=
  let ledger := ready.claim.ledger
  { ready.claim with
    ledger := ledger.put ready.claim.place { ledger.registry with ids := ids } branch }

def commit (ready : Ready config n lanes) (ids : Tx.Table (Place lanes)) (lease : Tx.Lease) :
    Ledger config n lanes :=
  (ready.write ids (.waiting ready.attempt lease)).commit

def fail (ready : Ready config n lanes) (ids : Tx.Table (Place lanes)) (cause : Error.Kind) :
    Except Fault (Fin lanes × Ledger config n lanes) := do
  let registry := ready.claim.ledger.registry
  let live ← ready.attempt.release registry.live
  let ledger := ready.claim.ledger.put ready.claim.place
    { registry with ids := ids, live := live } (.failed cause)
  .ok (ready.claim.place.1, ledger)

/-- The branch stays pending and its claim is dropped. -/
def restore (ready : Ready config n lanes) (ids : Tx.Table (Place lanes)) :
    Ledger config n lanes :=
  (ready.write ids (.pending ready.attempt)).drop

end Ready

end Claim

open Claim in
/-- Start a datagram attempt; `submit` is the socket's answer. -/
def Udp.start (pick : Tx.Id → Picker Tx.Id) (claim : Claim config n lanes) (now : Nat)
    (random : Tx.Random) (submit : Submission) :
    Except Fault (Finish Submission lanes × Ledger config n lanes) := do
  match ← claim.ready now with
  | .inl ledger => .ok (.done .deferred, ledger)
  | .inr ready =>
      let ids := ready.claim.ledger.registry.ids
      let server := ready.attempt.request.server.index
      match ids.tryUdp pick ready.claim.place server random with
      | (.error cause, ids) =>
          let (lane, ledger) ← ready.fail ids (.identity cause)
          .ok (.complete .deferred lane, ledger)
      | (.ok lease, ids) =>
          match submit with
          | .committed => .ok (.done .committed, ready.commit ids (.udp lease))
          | .deferred => .ok (.done .deferred, ready.restore (ids.release (.udp lease)))
          | .failed cause =>
              let (lane, ledger) ← ready.fail (ids.release (.udp lease)) cause
              .ok (.complete (.failed cause) lane, ledger)

namespace Stream

/-- A framed query; every answer of the connection returns the frame it got. -/
structure Frame where
  id : Tx.Id
deriving DecidableEq, Repr

inductive Admission where
  | committed (commit : Tx.Id)
  | exhausted (frame : Frame)
  | saturated (frame : Frame)
  | rejected (frame : Frame)
  | unavailable (frame : Frame)
deriving DecidableEq, Repr

inductive Submission where
  | committed
  | deferred
  | rejected
deriving DecidableEq, Repr

def Frame.prepare (frame : Frame) : Frame × Tx.Id := (frame, frame.id)

/-- What the connection's egress makes of a frame. -/
inductive Egress where
  | empty
  | ready
  | exhausted
  | saturated
  | unavailable
deriving DecidableEq, Repr

/-- The submission closure of a draining connection. -/
def drain (egress : Egress) (frame : Frame) : Admission :=
  let (frame, commit) := frame.prepare
  match egress with
  | .empty => .rejected frame
  | .ready => .committed commit
  | .exhausted => .exhausted frame
  | .saturated => .saturated frame
  | .unavailable => .unavailable frame

end Stream

open Claim in
/-- Start a stream attempt under the id the connection proposes. -/
def Tcp.submit (claim : Claim config n lanes) (now : Nat) (id : Tx.Id)
    (submit : Stream.Frame → Stream.Admission) :
    Except Fault (Finish Stream.Submission lanes × Ledger config n lanes) := do
  match ← claim.ready now with
  | .inl ledger => .ok (.done .deferred, ledger)
  | .inr ready =>
      match ready.claim.ledger.registry.ids.tryTcp ready.claim.place id with
      | (.error cause, ids) =>
          let (lane, ledger) ← ready.fail ids (.identity cause)
          .ok (.complete .deferred lane, ledger)
      | (.ok (), ids) =>
          match submit ⟨id⟩ with
          | .committed commit => .ok (.done .committed, ready.commit ids (.tcp commit))
          | .exhausted frame => .ok (.done .deferred, ready.restore (ids.cancel frame.id))
          | .saturated frame => .ok (.done .deferred, ready.restore (ids.cancel frame.id))
          | .rejected frame =>
              let (lane, ledger) ← ready.fail (ids.cancel frame.id) .egress
              .ok (.complete .rejected lane, ledger)
          | .unavailable frame =>
              let (lane, ledger) ← ready.fail (ids.cancel frame.id) (.close .egress)
              .ok (.complete .rejected lane, ledger)

/-! ## The queries -/

/-- Lanes in the first plane are cancelled, those in the second are free, and a
lane in neither is held by a discovery. -/
structure Queries (config : Config) (n lanes : Nat) where
  inner : Ledger config n lanes
  laneSets : Planes (Fin 2) (Fin lanes)

inductive Admission where
  | empty
  | exhausted
  | item (submission : Submission)
deriving DecidableEq, Repr

inductive Retirement where
  | resume
  | expired
  | fail (cause : Error.Kind)
deriving DecidableEq, Repr

inductive RetireStream where
  | done
  | retry
deriving DecidableEq, Repr

structure StreamStatus where
  pendingForServer : Bool
  live : Bool
  liveForServer : Bool
  transactions : Bool
deriving DecidableEq, Repr

def Retirement.settle (reason : Retirement) (active : Active config n lanes) (now : Nat) :
    Except Fault (Ledger config n lanes) :=
  match reason with
  | .resume => active.drop
  | .expired =>
      if active.attempt.deadline ≤ now then active.failed now .timeout else active.drop
  | .fail cause => active.failed now cause

/-- The branch at an ordinal: lanes in order, the two families of each. -/
def placeAt (ordinal : Nat) (h : ordinal < lanes * 2) : Place lanes :=
  (⟨ordinal / 2, Nat.div_lt_of_lt_mul (by omega)⟩, if ordinal % 2 = 0 then .four else .six)

namespace Queries

def new : Queries config n lanes := ⟨.new, fun plane _ => plane == 1⟩

def isCancelled (queries : Queries config n lanes) (lane : Fin lanes) : Bool :=
  queries.laneSets 0 lane

def isHeld (queries : Queries config n lanes) (lane : Fin lanes) : Bool :=
  !queries.laneSets 0 lane && !queries.laneSets 1 lane

def anyCancelled (queries : Queries config n lanes) : Bool :=
  (List.finRange lanes).any (queries.laneSets 0)

def hasServer (queries : Queries config n lanes) (server : Tx.Server) : Bool :=
  (List.finRange lanes).any fun lane =>
    queries.inner.registry.pending (planeOf (some server)) (lane, .four) ||
      queries.inner.registry.pending (planeOf (some server)) (lane, .six)

def status (queries : Queries config n lanes) (server : Tx.Server) : StreamStatus where
  pendingForServer := queries.hasServer server
  live := queries.inner.registry.live.any
  liveForServer := queries.inner.registry.live.contains server
  transactions := queries.inner.registry.ids.hasStream

/-- Retire cancelled lanes while permits last; false when they ran out. -/
def cleanup (picker : Picker (Fin lanes)) :
    Nat → Queries config n lanes → Except Fault (Bool × Queries config n lanes)
  | permits, queries =>
      match queries.laneSets.take picker 0 with
      | none => .ok (true, queries)
      | some (lane, laneSets) =>
          match permits with
          | 0 => .ok (false, { queries with laneSets := laneSets.insert 0 lane })
          | permits + 1 => do
              let inner ← queries.inner.retireLane lane
              cleanup picker permits ⟨inner, laneSets.insert 1 lane⟩

def claim (picker : Picker (Fin lanes)) (queries : Queries config n lanes) :
    Except Fault (Option (Fin lanes) × Queries config n lanes) :=
  match queries.laneSets.take picker 1 with
  | some (lane, laneSets) => .ok (some lane, { queries with laneSets := laneSets })
  | none =>
      match queries.laneSets.take picker 0 with
      | none => .ok (none, queries)
      | some (lane, laneSets) => do
          let inner ← queries.inner.retireLane lane
          .ok (some lane, ⟨inner, laneSets⟩)

/-- A lane that its discovery gives up is cancelled. -/
def dropLane (queries : Queries config n lanes) (lane : Fin lanes) : Queries config n lanes :=
  { queries with laneSets := queries.laneSets.insert 0 lane }

def admitUdp (pickBranch : Picker (Place lanes)) (pickId : Tx.Id → Picker Tx.Id)
    (queries : Queries config n lanes) (now : Nat) (permit : Bool) (random : Tx.Random)
    (submit : Submission) : Except Fault (Admission × Queries config n lanes) :=
  match Claim.take pickBranch queries.inner (planeOf none) with
  | none => .ok (.empty, queries)
  | some claim =>
      if ¬ permit then .ok (.exhausted, { queries with inner := claim.drop })
      else do
        let (finish, inner) ← Udp.start pickId claim now random submit
        let (submission, inner) := finish.apply inner now
        .ok (.item submission, { queries with inner := inner })

def submit (pickBranch : Picker (Place lanes)) (queries : Queries config n lanes) (now : Nat)
    (server : Tx.Server) (id : Tx.Id) (submit : Stream.Frame → Stream.Admission) :
    Except Fault (Stream.Submission × Queries config n lanes) :=
  if queries.anyCancelled then .ok (.deferred, queries)
  else
    match Claim.take pickBranch queries.inner (planeOf (some server)) with
    | none => .ok (.deferred, queries)
    | some claim => do
        let (finish, inner) ← Tcp.submit claim now id submit
        let (submission, inner) := finish.apply inner now
        .ok (submission, { queries with inner := inner })

def bindUdp (queries : Queries config n lanes) : Queries config n lanes :=
  let registry := queries.inner.registry
  { queries with inner := { queries.inner with
    registry := { registry with ids := registry.ids.bindUdp } } }

/-- The first exhaustion stays. -/
def exhaustTcp (queries : Queries config n lanes) (cause : Error.Kind) :
    Queries config n lanes :=
  let registry := queries.inner.registry
  { queries with inner := { queries.inner with
    registry := { registry with
      streamFailure := some (registry.streamFailure.getD cause) } } }

def failUdp (queries : Queries config n lanes) (id : Tx.Id) (epoch : Tx.Epoch)
    (server : SocketAddr) (cause : Error.Kind) (now : Nat) :
    Except Fault (Queries config n lanes) :=
  match queries.inner.registry.ids.udpOwner id with
  | none => .ok queries
  | some place =>
      if queries.isCancelled place.1 then .ok queries
      else do
        match ← queries.inner.claim place (.datagram id epoch server) with
        | none => .ok queries
        | some active =>
            let inner ← active.failed now cause
            .ok { queries with inner := inner.complete place.1 now }

def undoStream (queries : Queries config n lanes) (id : Tx.Id) :
    Except Fault (Queries config n lanes) :=
  match queries.inner.registry.ids.streamOwner id with
  | none => .ok queries
  | some place =>
      if queries.isCancelled place.1 then .ok queries
      else do
        match ← queries.inner.claim place (.id id) with
        | none => .ok queries
        | some active =>
            let inner ← active.drop
            .ok { queries with inner := inner }

/-- One branch of a stream retirement. -/
def retireBranch (queries : Queries config n lanes) (place : Place lanes) (server : Tx.Server)
    (reason : Retirement) (now : Nat) : Except Fault (Queries config n lanes) :=
  if queries.isCancelled place.1 then .ok queries
  else do
    match ← queries.inner.claim place (.stream server) with
    | none => .ok queries
    | some active =>
        let inner ← reason.settle active now
        .ok { queries with inner := inner.complete place.1 now }

/-- Go through the branches from `ordinal` on, one permit for each; `left` is
the number of branches that remain. -/
def retireFrom (server : Tx.Server) (reason : Retirement) (now : Nat) :
    Nat → Nat → Nat → Queries config n lanes →
    Except Fault ((RetireStream × Nat) × Queries config n lanes)
  | 0, _, ordinal, queries => .ok ((.done, ordinal), queries)
  | _ + 1, 0, ordinal, queries => .ok ((.retry, ordinal), queries)
  | left + 1, permits + 1, ordinal, queries =>
      if h : ordinal < lanes * 2 then do
        let queries ← queries.retireBranch (placeAt ordinal h) server reason now
        retireFrom server reason now left permits (ordinal + 1) queries
      else .ok ((.done, ordinal), queries)

def retire (queries : Queries config n lanes) (server : Tx.Server) (reason : Retirement)
    (now permits ordinal : Nat) : Except Fault ((RetireStream × Nat) × Queries config n lanes) :=
  let registry := queries.inner.registry
  if ¬ registry.ids.hasStream then .ok ((.done, ordinal), queries)
  else
    let reason := match registry.streamFailure with
      | some cause => .fail cause
      | none => reason
    retireFrom server reason now (lanes * 2 - ordinal) permits ordinal queries

/-! ## Lanes -/

def startLane (queries : Queries config n lanes) (lane : Fin lanes) (reason : Lookup.Reason)
    (unix : Nat) (name : Host.Name) (now : Nat) :
    Except Fault (Except Range Unit × Queries config n lanes) :=
  match tryAdd config.limit now config.totalTimeout with
  | .error range => .ok (.error range, queries)
  | .ok hard => do
      let inner ← queries.inner.start lane (.new config reason unix now hard name)
      .ok (.ok (), { queries with inner := inner })

def pollLane (queries : Queries config n lanes) (lane : Fin lanes) (now : Nat) :
    Except Fault (Poll n × Queries config n lanes) := do
  let (answer, inner) ← queries.inner.pollLane lane now
  .ok (answer, { queries with inner := inner })

/-! ## Receiving -/

def wireId (transaction : Nat) : Tx.Id := Fin.ofNat Tx.capacity transaction

/-- Read a datagram against the request that waits for it. -/
def readUdp (message : Wire.Decoder) (source : SocketAddr) (family : Family.Version)
    (request : Request config) (lease : Tx.Lease) :
    Option (Wire.Datagram n × Tx.Cookie × Tx.Server) :=
  match lease with
  | .tcp _ => none
  | .udp lease =>
      if request.stream.isSome ∨ source ≠ request.address then none
      else
        match message.udp request.name family lease.cookie.client with
        | .error _ => none
        | .ok data => some (data, lease.cookie, request.server.index)

def settleUdp (active : Active config n lanes) (data : Wire.Datagram n) (cookie : Tx.Cookie)
    (server : Tx.Server) (now : Nat) : Except Fault (Ledger config n lanes) :=
  match data with
  | .authenticated reply value => (active.cache cookie server value).2.apply reply now
  | .badCookie value =>
      match active.cache cookie server value with
      | (true, active) => active.cookie
      | (false, active) => active.stream
  | .streamRequired => active.stream

def receiveUdp (queries : Queries config n lanes) (source : SocketAddr) (bytes : Bytes)
    (now : Nat) : Except Fault (Queries config n lanes) :=
  match Wire.Decoder.tryNew bytes with
  | .error _ => .ok queries
  | .ok message =>
      let id := wireId message.transaction
      match queries.inner.registry.ids.udpOwner id with
      | none => .ok queries
      | some place =>
          if queries.isCancelled place.1 then .ok queries
          else do
            match ← queries.inner.accept place (.live id now)
                (readUdp message source place.2) with
            | none => .ok queries
            | some (active, data, cookie, server) =>
                let inner ← settleUdp active data cookie server now
                .ok { queries with inner := inner.complete place.1 now }

def readStream (message : Wire.Decoder) (server : Tx.Server) (family : Family.Version)
    (request : Request config) (lease : Tx.Lease) : Option (Except Error.Malformed (Reply n)) :=
  match lease with
  | .udp _ => none
  | .tcp _ =>
      if request.stream ≠ some server then none
      else some (message.decode request.name family)

def settleStream (active : Active config n lanes) (decoded : Except Error.Malformed (Reply n))
    (now : Nat) : Except Fault (Ledger config n lanes) :=
  match decoded with
  | .ok reply => active.apply reply now
  | .error error => active.failed now (.malformed error)

def receiveStream (queries : Queries config n lanes) (server : Tx.Server)
    (message : Wire.Decoder) (now : Nat) : Except Fault (Queries config n lanes) :=
  let id := wireId message.transaction
  match queries.inner.registry.ids.streamOwner id with
  | none => .ok queries
  | some place =>
      if queries.isCancelled place.1 then .ok queries
      else do
        match ← queries.inner.accept place (.live id now)
            (readStream message server place.2) with
        | none => .ok queries
        | some (active, decoded) =>
            let inner ← settleStream active decoded now
            .ok { queries with inner := inner.complete place.1 now }

/-- A frame of a stream; the status is what the connection acts on. -/
def tryRecv (queries : Queries config n lanes) (server : Tx.Server) (frame : Bytes)
    (now : Nat) : Except Fault (Except Error.Packet StreamStatus × Queries config n lanes) :=
  match Wire.Decoder.tryNew frame with
  | .error error => .ok (.error error, queries)
  | .ok message => do
      let queries ← queries.receiveStream server message now
      .ok (.ok (queries.status server), queries)

end Queries

end Storage

end Dope.Dns
