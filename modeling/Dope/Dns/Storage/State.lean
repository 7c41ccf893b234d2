import Dope.Dns.Error

/-! # Query state

Model of `storage/queries/state` and of the registry the branches share. A
branch is one address family of one lane; it holds its attempt while it is
pending or waiting, and the attempt may hold a lease on a server's stream.

The registry has four indexes that follow the branches: the pending planes, the
live stream counts, and the datagram and stream owners. The source counts
in 16 bits and subtracts without a check; here a count that would wrap faults,
and so does every `unreachable!`.
-/

namespace Dope.Dns.Storage

open Core.Clock Index

/-! ## Configuration -/

structure Config where
  servers : List SocketAddr
  nonempty : servers ≠ []
  bound : servers.length ≤ Tx.maxServers
  attempts : Nat
  attempts_pos : 0 < attempts
  attemptTimeout : Nat
  attempt_pos : 0 < attemptTimeout
  totalTimeout : Nat
  total_pos : 0 < totalTimeout
  /-- The furthest instant of the platform. -/
  limit : Nat

/-- One server of the configured cycle. -/
abbrev Selected (config : Config) := Fin config.servers.length

variable {config : Config} {n : Nat}

namespace Selected

def first (config : Config) : Selected config := ⟨0, List.length_pos_of_ne_nil config.nonempty⟩

def index (selected : Selected config) : Tx.Server :=
  ⟨selected, Nat.lt_of_lt_of_le selected.isLt config.bound⟩

def address (selected : Selected config) : SocketAddr := config.servers.get selected

def next (selected : Selected config) : Selected config :=
  if h : selected.val + 1 < config.servers.length then ⟨selected.val + 1, h⟩ else first config

end Selected

/-! ## Faults -/

/-- The `unreachable!` calls of the ledger, of the name assembly behind it, and
the stream counts that would wrap. -/
inductive Fault where
  | waiting
  | pending
  | name
  | underflow
  | overflow
deriving DecidableEq, Repr

/-! ## Live streams -/

structure Live where
  counts : Tx.Server → Nat

namespace Live

def new : Live := ⟨fun _ => 0⟩

def put (live : Live) (server : Tx.Server) (count : Nat) : Live :=
  ⟨fun s => if s = server then count else live.counts s⟩

def increment (live : Live) (server : Tx.Server) : Except Fault Live :=
  if live.counts server < 65535 then .ok (live.put server (live.counts server + 1))
  else .error .overflow

def decrement (live : Live) (server : Tx.Server) : Except Fault Live :=
  if live.counts server = 0 then .error .underflow
  else .ok (live.put server (live.counts server - 1))

/-- Move a lease; returns the server it is for. -/
def transfer (live : Live) (lease target : Tx.Server) : Except Fault (Tx.Server × Live) := do
  if lease = target then .ok (lease, live)
  else
    let live ← live.decrement lease
    let live ← live.increment target
    .ok (target, live)

def any (live : Live) : Bool :=
  (List.finRange Tx.maxServers).any fun server => live.counts server != 0

def contains (live : Live) (server : Tx.Server) : Bool := live.counts server != 0

end Live

/-! ## Requests -/

structure Request (config : Config) where
  name : Host.Name
  validUntil : Option Nat
  hops : Hops
  attempt : Nat
  server : Selected config
  stream : Option Tx.Server
  cookieRetry : Bool
deriving DecidableEq

/-- The next attempt of the budget. -/
def Probe.next (attempt attempts : Nat) : Option Nat :=
  if attempts - 1 ≤ attempt then none else some (attempt + 1)

namespace Request

def new (name : Host.Name) (server : Selected config) : Request config where
  name := name
  validUntil := none
  hops := .zero
  attempt := 0
  server := server
  stream := none
  cookieRetry := false

def address (request : Request config) : SocketAddr := request.server.address

/-- The first retry of a challenge goes on; `none` is a second one. -/
def retryCookie (request : Request config) : Option (Request config) :=
  if request.cookieRetry then none else some { request with cookieRetry := true }

def tryExpiry (request : Request config) (received ttl : Nat) : Except Error.Timing Nat :=
  match checkedAdd config.limit received (1000000000 * ttl) with
  | none => .error (.expiry received (1000000000 * ttl))
  | some stop =>
      match request.validUntil with
      | some prior => .ok (min stop prior)
      | none => .ok stop

def addHops (request : Request config) (hops : Hops) : Except Error.Malformed Hops :=
  (request.hops.add hops).mapError fun actual => .aliasHops actual maxAliasHops

def retry (request : Request config) (attempt : Nat) (live : Live) :
    Except Fault (Request config × Live) :=
  let request := { request with
    attempt := attempt
    cookieRetry := false
    server := request.server.next }
  match request.stream with
  | none => .ok (request, live)
  | some lease => do
      let (lease, live) ← live.transfer lease request.server.index
      .ok ({ request with stream := some lease }, live)

def tryAlias (request : Request config) (name : Host.Name) (stop : Nat) (hops : Hops) :
    Except Error.Malformed (Request config) := do
  let total ← request.addHops hops
  .ok { request with
    name := name
    validUntil := some stop
    hops := total
    attempt := 0
    cookieRetry := false }

/-- `none` when the request is on a stream already. -/
def startStream (request : Request config) (live : Live) :
    Except Fault (Option (Request config × Live)) :=
  match request.stream with
  | some _ => .ok none
  | none => do
      let live ← live.increment request.server.index
      .ok (some ({ request with stream := some request.server.index }, live))

def release (request : Request config) (live : Live) : Except Fault Live :=
  match request.stream with
  | none => .ok live
  | some lease => live.decrement lease

end Request

structure Attempt (config : Config) where
  request : Request config
  deadline : Nat
deriving DecidableEq

/-- The deadline of one attempt, never beyond the hard deadline. -/
def Retry.deadline (config : Config) (now hard : Nat) : Nat :=
  match checkedAdd config.limit now config.attemptTimeout with
  | some stop => min stop hard
  | none => hard

/-! ## Branches -/

inductive Branch (config : Config) (n : Nat) where
  | pending (attempt : Attempt config)
  | waiting (attempt : Attempt config) (transaction : Tx.Lease)
  | done (addresses : Addresses n) (validUntil : Nat)
  | empty
  | failed (error : Error.Kind)
deriving DecidableEq

inductive Outcome (n : Nat) where
  | done (addresses : Addresses n) (validUntil : Nat)
  | empty
  | failed (error : Error.Kind)

namespace Branch

def ofOutcome : Outcome n → Branch config n
  | .done addresses validUntil => .done addresses validUntil
  | .empty => .empty
  | .failed error => .failed error

def attempt : Branch config n → Option (Attempt config)
  | .pending attempt => some attempt
  | .waiting attempt _ => some attempt
  | .done _ _ => none
  | .empty => none
  | .failed _ => none

def isStream (branch : Branch config n) : Bool :=
  match branch.attempt with
  | some attempt => attempt.request.stream.isSome
  | none => false

def deadline (branch : Branch config n) : Option Nat := branch.attempt.map Attempt.deadline

end Branch

/-- The branches of `lanes` lanes. -/
abbrev Place (lanes : Nat) := Fin lanes × Family.Version

abbrev Plane := Fin (Tx.maxServers + 1)

/-- The pending plane of a transport. -/
def planeOf : Option Tx.Server → Plane
  | none => 0
  | some server => server.succ

/-! ## The registry -/

structure Registry (lanes : Nat) where
  pending : Planes Plane (Place lanes)
  live : Live
  ids : Tx.Table (Place lanes)
  streamFailure : Option Error.Kind

namespace Row

variable {lanes : Nat}

def register (registry : Registry lanes) (place : Place lanes) (request : Request config) :
    Registry lanes :=
  { registry with pending := registry.pending.insert (planeOf request.stream) place }

def unregister (registry : Registry lanes) (place : Place lanes) (request : Request config) :
    Registry lanes :=
  { registry with pending := registry.pending.clear (planeOf request.stream) place }

def pending (registry : Registry lanes) (place : Place lanes) (attempt : Attempt config) :
    Registry lanes × Branch config n :=
  (register registry place attempt.request, .pending attempt)

end Row

namespace Attempt

variable {lanes : Nat}

def initial (name : Host.Name) (stop : Nat) (server : Selected config) : Attempt config :=
  ⟨.new name server, stop⟩

def release (attempt : Attempt config) (live : Live) : Except Fault Live :=
  attempt.request.release live

def finish (attempt : Attempt config) (registry : Registry lanes) (next : Outcome n) :
    Except Fault (Registry lanes × Branch config n) := do
  let live ← attempt.release registry.live
  .ok ({ registry with live := live }, .ofOutcome next)

def stream (attempt : Attempt config) (registry : Registry lanes) (place : Place lanes) :
    Except Fault (Registry lanes × Branch config n) := do
  match ← attempt.request.startStream registry.live with
  | some (request, live) =>
      .ok (Row.pending { registry with live := live } place { attempt with request := request })
  | none => attempt.finish registry (.failed .truncated)

/-- Retry an authenticated challenge once, with the same deadline. -/
def cookie (attempt : Attempt config) (registry : Registry lanes) (place : Place lanes) :
    Except Fault (Registry lanes × Branch config n) :=
  match attempt.request.retryCookie with
  | some request => .ok (Row.pending registry place { attempt with request := request })
  | none => attempt.stream registry place

def retry (attempt : Attempt config) (hard now : Nat) (error : Error.Kind)
    (registry : Registry lanes) (place : Place lanes) :
    Except Fault (Registry lanes × Branch config n) :=
  if error.isTerminal then attempt.finish registry (.failed error)
  else if hard ≤ now then attempt.finish registry (.failed .timeout)
  else
    match Probe.next attempt.request.attempt config.attempts with
    | none => attempt.finish registry (.failed error)
    | some next => do
        let (request, live) ← attempt.request.retry next registry.live
        .ok (Row.pending { registry with live := live } place
          ⟨request, Retry.deadline config now hard⟩)

/-- The alias of a reply: the name it leads to, within the lifetime so far. -/
def follow (attempt : Attempt config) (name : Host.Name) (ttl : Nat) (hops : Hops)
    (hard now : Nat) (registry : Registry lanes) (place : Place lanes) :
    Except Fault (Registry lanes × Branch config n) :=
  match attempt.request.tryExpiry now ttl with
  | .error cause => attempt.finish registry (.failed (.timing cause))
  | .ok stop =>
      match attempt.request.tryAlias name stop hops with
      | .error cause => attempt.finish registry (.failed (.malformed cause))
      | .ok request =>
          .ok (Row.pending registry place ⟨request, Retry.deadline config now hard⟩)

def apply (attempt : Attempt config) (reply : Reply n) (hard now : Nat)
    (registry : Registry lanes) (place : Place lanes) :
    Except Fault (Registry lanes × Branch config n) :=
  match reply with
  | .addresses values ttl hops =>
      match attempt.request.addHops hops with
      | .error cause => attempt.finish registry (.failed (.malformed cause))
      | .ok _ =>
          match attempt.request.tryExpiry now ttl with
          | .error cause => attempt.finish registry (.failed (.timing cause))
          | .ok stop => attempt.finish registry (.done values stop)
  | .aliased name ttl hops =>
      match Wire.tryDecode name with
      | none => .error .name
      | some (.error cause) => attempt.finish registry (.failed (.malformed (.name cause)))
      | some (.ok name) => attempt.follow name ttl hops hard now registry place
  | .noData => attempt.finish registry .empty
  | .truncated => attempt.stream registry place
  | .nameError => attempt.finish registry (.failed .name)
  | .refused => attempt.retry hard now .refused registry place
  | .server code => attempt.retry hard now (.server code) registry place
  | .capacity actual => attempt.finish registry (.failed (.capacity n actual))
  | .malformed cause => attempt.finish registry (.failed (.malformed cause))

end Attempt

/-- Take down whatever a branch holds in the registry. -/
def Registry.retire {lanes : Nat} (registry : Registry lanes) (place : Place lanes)
    (branch : Branch config n) : Except Fault (Registry lanes) :=
  match branch with
  | .pending attempt => do
      let registry := Row.unregister registry place attempt.request
      let live ← attempt.release registry.live
      .ok { registry with live := live }
  | .waiting attempt transaction => do
      let live ← attempt.release registry.live
      .ok { registry with live := live, ids := registry.ids.release transaction }
  | .done _ _ => .ok registry
  | .empty => .ok registry
  | .failed _ => .ok registry

end Dope.Dns.Storage
