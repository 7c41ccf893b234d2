import Mathlib.Algebra.Group.Nat.Defs
import Dope.Dns.Lookup.Schedule

/-! # Discoveries

Model of `lookup/mod.rs` with its metadata, its errors and the civil clock. A
discovery polls the lane it holds, publishes what a lookup found, lets the
snapshot age, and starts the next lookup when one is requested and due.
-/

namespace Dope.Dns

open Core.Clock

/-! ## Civil time -/

namespace Civil

inductive Error where
  | add (epoch elapsed : Nat)
  | monotonicRegression (origin observed : Nat)
deriving DecidableEq, Repr

/-- A civil epoch at a monotonic origin; `add` is the addition of the time
library. -/
structure Anchor where
  epoch : Nat
  origin : Nat
  add : Nat → Nat → Option Nat

def Anchor.observe (anchor : Anchor) (witness : Nat) : Except Error Nat :=
  if witness < anchor.origin then .error (.monotonicRegression anchor.origin witness)
  else
    match anchor.add anchor.epoch (witness - anchor.origin) with
    | some unix => .ok unix
    | none => .error (.add anchor.epoch (witness - anchor.origin))

end Civil

namespace Lookup

open Storage

/-! ## Settings -/

structure Backoff where
  base : Nat
  max : Nat
deriving DecidableEq, Repr

/-- The longest duration: 64 bits of seconds and the nanoseconds below one. -/
def maxDuration : Nat := 1000000000 * (2 ^ 64 - 1) + 999999999

/-- Validated refresh settings, in nanoseconds. -/
structure Refresh where
  minimum : Nat
  backoff : Backoff
  maximumTtl : Nat
  before : Nat
  stale : Nat
  minimum_pos : 0 < minimum
  base_pos : 0 < backoff.base
  base_le : backoff.base ≤ backoff.max
  max_le : backoff.max ≤ maxDuration
  ttl_pos : 0 < maximumTtl
  minimum_le : minimum ≤ maximumTtl
  before_le : before ≤ maximumTtl

def Refresh.retryDelay (refresh : Refresh) (retry : Retry) : Nat :=
  min (min (refresh.backoff.base * retry.factor) maxDuration) refresh.backoff.max

/-! ## Errors and metadata -/

/-- The civil times of one lookup. -/
structure Times where
  start : Nat
  done : Nat
deriving DecidableEq, Repr

def Times.at (stamp : Nat) : Times := ⟨stamp, stamp⟩

inductive Failure (n : Nat) where
  | query (kind : Error.Kind) (times : Times)
  | clock (source : Civil.Error)
  | answerClock (completion : Answer n) (source : Civil.Error)
  | queryClock (kind : Error.Kind) (startedUnixNs : Nat) (source : Civil.Error)
  | queryRevision (times : Times)
  | revision

/-- A terminal failure ends all lookups. -/
def Failure.isTerminal {n : Nat} : Failure n → Bool
  | .query kind _ => kind.isTerminal
  | .clock _ => false
  | .answerClock _ _ => false
  | .queryClock kind _ _ => kind.isTerminal
  | .queryRevision _ => true
  | .revision => true

structure Metadata where
  reason : Reason
  times : Times
  duration : Nat
  ttl : Nat
  refresh : Option Nat
deriving DecidableEq, Repr

def Metadata.tryNew (reason : Reason) (times : Times) (start done valid : Nat)
    (refreshAt : Option Nat) : Except Error.Timing Metadata :=
  if done < start then .error (.duration start done)
  else .ok ⟨reason, times, done - start, valid - done, refreshAt.map (· - done)⟩

/-- A published endpoint set. -/
structure Snapshot where
  revision : Revision
  endpoints : List SocketAddr
deriving DecidableEq, Repr

inductive Action (n : Nat) where
  | pending (pollAt : Option Nat)
  | published (snapshot : Snapshot) (metadata : Metadata) (pollAt : Option Nat)
  | stale (revision : Revision) (pollAt : Option Nat)
  | expired (revision : Revision) (pollAt : Option Nat)
  | failed (error : Failure n) (pollAt : Option Nat)

def Action.pollAt {n : Nat} : Action n → Option Nat
  | .pending pollAt => pollAt
  | .published _ _ pollAt => pollAt
  | .stale _ pollAt => pollAt
  | .expired _ pollAt => pollAt
  | .failed _ pollAt => pollAt

/-! ## Refresh requests -/

/-- Why an endpoint became unavailable. -/
inductive Health.Cause where
  | connect
  | connectTimeout
  | transport
  | idle
  | protocol
  | remote
deriving DecidableEq, Repr

inductive Request where
  | startup
  | failure (cause : Health.Cause)
deriving DecidableEq, Repr

namespace Policy

def transport : Health.Cause → Option Reason
  | .connect => some .connectFailure
  | .connectTimeout => some .connectTimeout
  | .transport => some .transportFailure
  | .idle => none
  | .protocol => none
  | .remote => none

def availability : Health.Cause → Option Reason
  | .idle => some .idleFailure
  | cause => transport cause

end Policy

/-- `none` is a cause that the policy ignores. -/
def Request.reason (policy : Health.Cause → Option Reason) : Request → Option Reason
  | .startup => some .startup
  | .failure cause => policy cause

/-! ## The discovery -/

inductive Source (lanes : Nat) where
  | literal (address : SocketAddr)
  | query (name : Host.Name) (lane : Fin lanes)
deriving DecidableEq

def Source.isQuery {lanes : Nat} : Source lanes → Bool
  | .literal _ => false
  | .query _ _ => true

structure Discovery (config : Config) (lanes : Nat) where
  source : Source lanes
  port : Nat
  refresh : Refresh
  revision : Revision
  schedule : Schedule
  clock : Civil.Anchor

variable {config : Config} {n lanes : Nat}

namespace Discovery

def new (source : Source lanes) (port : Nat) (refresh : Refresh) (clock : Civil.Anchor) :
    Discovery config lanes :=
  ⟨source, port, refresh, .initial, .new, clock⟩

def withSchedule (discovery : Discovery config lanes) (schedule : Schedule) :
    Discovery config lanes :=
  { discovery with schedule := schedule }

/-- The revision to publish. A query reserves the one after it too, for the
withdrawal of what it publishes. -/
def publication (discovery : Discovery config lanes) : Option Revision := do
  let next ← discovery.revision.tryNext
  if discovery.source.isQuery then
    let _ ← next.tryNext
    some next
  else some next

def nextPoll (discovery : Discovery config lanes) (next : Option Nat) : Option Nat :=
  match next, discovery.schedule.deadline with
  | some next, some due => some (min next due)
  | next, none => next
  | none, due => due

def failed (discovery : Discovery config lanes) (now : Nat) (reason : Reason)
    (error : Failure n) : Action n × Discovery config lanes :=
  if error.isTerminal then
    let discovery := discovery.withSchedule discovery.schedule.stop
    (.failed error (discovery.nextPoll none), discovery)
  else
    match discovery.schedule.fail with
    | (none, schedule) =>
        let discovery := discovery.withSchedule schedule
        (.failed error (discovery.nextPoll none), discovery)
    | (some retry, schedule) =>
        let due := clampAdd config.limit now (discovery.refresh.retryDelay retry)
        let discovery := discovery.withSchedule ((schedule.request reason).delay due)
        (.failed error (discovery.nextPoll (some due)), discovery)

/-- When a lookup may start again, how long its answer counts, when it is
refreshed, and the window of its snapshot. -/
structure Timing where
  next : Nat
  valid : Nat
  refreshAt : Option Nat
  fresh : Option (Nat × Nat)
deriving DecidableEq, Repr

def timing (discovery : Discovery config lanes) (now done stop : Nat) : Except Range Timing := do
  let next ← tryAdd config.limit now discovery.refresh.minimum
  if !discovery.source.isQuery then .ok ⟨next, stop, none, none⟩
  else
    let cap ← tryAdd config.limit done discovery.refresh.maximumTtl
    let valid := min stop cap
    let preferred := (checkedSub valid discovery.refresh.before).getD now
    let stale ← tryAdd config.limit valid discovery.refresh.stale
    .ok ⟨next, valid, some (min (max preferred next) valid), some (valid, stale)⟩

def endpoints (discovery : Discovery config lanes) (addresses : Addresses n) : List SocketAddr :=
  match discovery.source with
  | .literal address => [address]
  | .query _ _ => addresses.values.map fun ip => ⟨ip, discovery.port, 0, 0⟩

def publish (discovery : Discovery config lanes) (now : Nat) (reason : Reason)
    (answer : Answer n) (times : Times) : Action n × Discovery config lanes :=
  match discovery.publication with
  | none => discovery.failed now reason (.queryRevision times)
  | some revision =>
      match discovery.timing now answer.completedAt answer.validUntil with
      | .error range => discovery.failed now reason (.query (.clock range) times)
      | .ok timing =>
          match Metadata.tryNew reason times answer.startedAt answer.completedAt timing.valid
              timing.refreshAt with
          | .error error => discovery.failed now reason (.query (.timing error) times)
          | .ok metadata =>
              let snapshot := ⟨revision, discovery.endpoints answer.addresses⟩
              let discovery := { discovery with
                revision := revision
                schedule :=
                  discovery.schedule.install timing.next timing.refreshAt timing.fresh }
              let pollAt := if discovery.schedule.requested.isSome
                then discovery.nextPoll discovery.schedule.next
                else discovery.nextPoll timing.refreshAt
              (.published snapshot metadata pollAt, discovery)

def expire (discovery : Discovery config lanes) (now : Nat) :
    Action n × Discovery config lanes :=
  let discovery := discovery.withSchedule (discovery.schedule.expire now)
  match discovery.revision.tryNext with
  | none => (.failed .revision none, discovery.withSchedule discovery.schedule.stop)
  | some revision =>
      (.expired revision discovery.schedule.refreshAt, { discovery with revision := revision })

/-- The only address of a literal; the capacity of an answer is positive. -/
def singleton (ip : IpAddr) : Addresses n :=
  match Addresses.new.insert ip with
  | .added addresses => addresses
  | _ => .new

/-- Resolve a literal that counts for `ttl`. -/
def resolveFor (ttl : Nat) (discovery : Discovery config lanes) (now : Nat) (reason : Reason)
    (address : SocketAddr) : Action n × Discovery config lanes :=
  match discovery.clock.observe now with
  | .error source => discovery.failed now reason (.clock source)
  | .ok unix =>
      match tryAdd config.limit now ttl with
      | .error range => discovery.failed now reason (.query (.clock range) (.at unix))
      | .ok stop =>
          discovery.publish now reason ⟨singleton address.ip, now, now, stop⟩ (.at unix)

/-- A literal counts for a day. -/
def resolve (discovery : Discovery config lanes) (now : Nat) (reason : Reason)
    (address : SocketAddr) : Action n × Discovery config lanes :=
  resolveFor (1000000000 * 86400) discovery now reason address

def refreshAt (policy : Health.Cause → Option Reason) (discovery : Discovery config lanes)
    (now : Nat) (request : Request) : Discovery config lanes :=
  match request.reason policy with
  | none => discovery
  | some reason => discovery.withSchedule ((discovery.schedule.allow now).request reason)

/-! ## Polling -/

def pollSource (discovery : Discovery config lanes) (queries : Queries config n lanes)
    (now : Nat) : Except Fault (Poll n × Queries config n lanes) :=
  match discovery.source with
  | .literal _ => .ok (.idle, queries)
  | .query _ lane => queries.pollLane lane now

/-- A lookup has come to its end. -/
def settle (discovery : Discovery config lanes) (now : Nat) (ready : Ready n) :
    Action n × Discovery config lanes :=
  match discovery.clock.observe ready.completedAt with
  | .error source =>
      match ready.result with
      | .ok answer => discovery.failed now ready.reason (.answerClock answer source)
      | .error kind =>
          discovery.failed now ready.reason (.queryClock kind ready.startedUnixNs source)
  | .ok done =>
      let times := ⟨ready.startedUnixNs, done⟩
      match ready.result with
      | .ok answer => discovery.publish now ready.reason answer times
      | .error kind => discovery.failed now ready.reason (.query kind times)

/-- Let the snapshot age; `none` when there is nothing to report. -/
def grow (discovery : Discovery config lanes) (now : Nat) (busy : Bool) (due : Option Nat) :
    Option (Action n) × Discovery config lanes :=
  match discovery.schedule.advance now with
  | (.fresh, schedule) => (none, discovery.withSchedule schedule)
  | (.stale next, schedule) =>
      let schedule := { schedule with refreshAt := none }
      let schedule := if busy then schedule else schedule.request .scheduled
      let discovery := discovery.withSchedule schedule
      let pollAt := if busy then discovery.nextPoll due
        else discovery.nextPoll (if schedule.isActive then some (max next now) else none)
      (some (.stale discovery.revision pollAt), discovery)
  | (.expired, schedule) =>
      let (action, discovery) := (discovery.withSchedule schedule).expire now
      (some action, discovery)

/-- Start a lookup, or resolve the literal at once. -/
def launch (discovery : Discovery config lanes) (queries : Queries config n lanes) (now : Nat)
    (reason : Reason) :
    Except Fault ((Action n × Discovery config lanes) × Queries config n lanes) :=
  match discovery.source with
  | .literal address => .ok (discovery.resolve now reason address, queries)
  | .query name lane =>
      match discovery.clock.observe now with
      | .error source => .ok (discovery.failed now reason (.clock source), queries)
      | .ok stamp => do
          let (started, queries) ← queries.startLane lane reason stamp name now
          match started with
          | .error range =>
              .ok (discovery.failed now reason (.query (.deadline range) (.at stamp)), queries)
          | .ok () => .ok ((.pending (discovery.nextPoll (some now)), discovery), queries)

/-- The turn of a discovery whose lane is idle. -/
def consider (discovery : Discovery config lanes) (queries : Queries config n lanes)
    (now : Nat) : Except Fault ((Action n × Discovery config lanes) × Queries config n lanes) :=
  let due := discovery.schedule.requested.isNone && discovery.schedule.refreshAt.any (isDue · now)
  let discovery := if due
    then discovery.withSchedule (discovery.schedule.request .scheduled) else discovery
  match discovery.schedule.next.filter fun next => !isDue next now with
  | some next => .ok ((.pending (discovery.nextPoll (some next)), discovery), queries)
  | none =>
      match discovery.schedule.requested with
      | none =>
          .ok ((.pending (discovery.nextPoll discovery.schedule.refreshAt), discovery), queries)
      | some reason =>
          let discovery := discovery.withSchedule { discovery.schedule with requested := none }
          match discovery.publication with
          | none => .ok (discovery.failed now reason .revision, queries)
          | some _ => discovery.launch queries now reason

def afterPoll (discovery : Discovery config lanes) (queries : Queries config n lanes)
    (now : Nat) (busy : Bool) (due : Option Nat) :
    Except Fault ((Action n × Discovery config lanes) × Queries config n lanes) :=
  match discovery.grow now busy due with
  | (some action, discovery) => .ok ((action, discovery), queries)
  | (none, discovery) =>
      if busy then .ok ((.pending (discovery.nextPoll due), discovery), queries)
      else discovery.consider queries now

def pollAt (discovery : Discovery config lanes) (queries : Queries config n lanes)
    (now : Nat) :
    Except Fault ((Action n × Discovery config lanes) × Queries config n lanes) := do
  let (polled, queries) ← discovery.pollSource queries now
  match polled with
  | .idle => discovery.afterPoll queries now false none
  | .pending due => discovery.afterPoll queries now true due
  | .complete ready => .ok (discovery.settle now ready, queries)

end Discovery

end Lookup

end Dope.Dns
