import Dope.Base.Run
import Dope.Manifold.Service.Dials

/-! # Service pool

Model of `service/pool` and its `control` and `peer`: the members, the dials, and the
feedback of the discovery. What a demand source answers comes with each call, since
it is read under the token of that call. `X` stands for the causes of the layers
below, `E` for the wire errors of an opening.
-/

namespace Dope.Manifold.Service

open Dope.Round

/-! ## Causes -/

inductive ConnectError (X : Type) where
  | admission (error : SubmitCause)
  | other (cause : X)
deriving DecidableEq, Repr

/-- `health::Cause`. -/
inductive Cause (X : Type) where
  | connect (cause : ConnectError X)
  | connectTimeout
  | transport
  | idle
  | protocol
  | remote
deriving DecidableEq, Repr

inductive LocalOrigin where
  | apiRequest
  | sideComplete
  | operationCancelled
  | superseded
  | scheduledRotation
  | runtimeShutdown
  | resourceFailure
deriving DecidableEq, Repr

inductive Capacity where
  | ingressStaging
  | ingressRetention
  | transport
  | identityExhausted
deriving DecidableEq, Repr

/-- `deadline::Kind`. -/
inductive Kind where
  | connect
  | inbound
  | send
  | lifetime
deriving DecidableEq, Repr

/-- `receive::Failure`; a hold fails on its range or otherwise. -/
inductive Ingress (X : Type) where
  | input (cause : X)
  | staging (cause : X)
  | holdRange (cause : X)
  | hold (cause : X)
  | accept (cause : X)
  | finishCapacity
  | parseCapacity
  | contract
deriving DecidableEq, Repr

/-- `close::Reason`. -/
inductive Reason (X : Type) where
  | local_ (origin : LocalOrigin)
  | capacity (capacity : Capacity)
  | endpointRetired
  | transport
  | timeout (kind : Kind)
  | protocol
  | remote
  | receive (cause : X)
  | ingress (failure : Ingress X)
  | egress (cause : X)
deriving DecidableEq, Repr

/-- Why the member of a retired connection is unavailable, if its health is concerned. -/
def Reason.cause {X : Type} : Reason X → Option (Cause X)
  | .transport | .timeout .send => some .transport
  | .timeout .connect => some .connectTimeout
  | .timeout .inbound => some .idle
  | .protocol | .ingress .contract | .ingress (.holdRange _) => some .protocol
  | .remote => some .remote
  | .local_ _ | .capacity _ | .endpointRetired | .timeout .lifetime | .receive _ | .ingress _
  | .egress _ => none

/-! ## Discovery -/

/-- The demand of a source, as it is read in one call. -/
structure Source (I : Type) where
  needed : Bool
  eligible : I → Bool
  retained : I → Bool

def Source.demand {I : Type} (source : Source I) (id : I) : Demand :=
  .new (source.eligible id) (source.retained id)

/-- `discover::Silent`, `Notify` and `Gate`. -/
inductive Feedback (X : Type) where
  | silent
  | notify (cause : Option (Cause X))
  | gate (enabled : Bool)
deriving DecidableEq, Repr

namespace Feedback

variable {X I : Type}

def watched : Feedback X → Bool
  | .gate _ => true
  | .silent | .notify _ => false

def isEnabled : Feedback X → Bool
  | .gate enabled => enabled
  | .silent | .notify _ => true

def isEligible (feedback : Feedback X) (source : Source I) (id : I) : Bool :=
  !feedback.watched || source.eligible id

def isRetained (feedback : Feedback X) (source : Source I) (id : I) : Bool :=
  if feedback.watched then source.needed && source.retained id else feedback.isEnabled

/-- The cause is kept where the discovery takes one. -/
def record (cause : Cause X) : Feedback X → Feedback X
  | .notify _ => .notify (some cause)
  | .silent => .silent
  | .gate enabled => .gate enabled

def set (enabled : Bool) : Feedback X → Feedback X
  | .gate _ => .gate enabled
  | .silent => .silent
  | .notify cause => .notify cause

end Feedback

/-- `sync::Scan`: the slots an authoritative snapshot still has to visit. -/
structure Sweep where
  next : Nat
  remaining : Option (Nat × Nat)
deriving DecidableEq, Repr

namespace Sweep

/-- Rearming owes a lap from the current slot. -/
def arm (sweep : Sweep) (capacity : Nat) : Sweep :=
  { sweep with remaining := if capacity = 0 then none else some (capacity, capacity) }

def take (sweep : Sweep) : Option Nat × Sweep :=
  match sweep.remaining with
  | none => (none, sweep)
  | some (capacity, left) =>
      (some sweep.next,
        ⟨if sweep.next + 1 < capacity then sweep.next + 1 else 0,
          if left - 1 = 0 then none else some (capacity, left - 1)⟩)

end Sweep

/-! ## Pool -/

structure Pool (I A O X : Type) (n m : Nat) where
  membership : Members I A n
  dials : Dials (A × O) n m
  backoff : Backoff
  feedback : Feedback X
  /-- Only an authoritative pool sweeps. -/
  retirements : Option Sweep

inductive Connection (I : Type) where
  | applied (output : I)
  | stale
  | retired
  | disabled
  | exhausted
deriving DecidableEq, Repr

namespace Pool

variable {I A O X E : Type} {n m N : Nat}

def new (setup : Setup O n) (I A : Type) (m : Nat) (backoff : Backoff) (feedback : Feedback X) :
    Pool I A O X n m :=
  ⟨.new I A n, .new _ n m, backoff, feedback, if setup.authoritative then some ⟨0, none⟩ else none⟩

variable (setup : Setup O n) (pool : Pool I A O X n m)

def isPresent : Bool :=
  pool.feedback.isEnabled &&
    (!pool.membership.isEmpty || (!setup.authoritative && pool.dials.isDeferred))

def refresh : Pool I A O X n m :=
  { pool with dials := pool.dials.refresh (pool.isPresent setup) }

def reject (key : Id) (cause : Exhaustion) : Except Fault (Pool I A O X n m) := do
  let (dials, membership) ← pool.dials.reject setup pool.membership key cause
  .ok { pool with dials, membership }

/-- Rejects the key that a reset of the front exhausted. -/
def resetFront (removed : Target n → Except Fault (Option Update × Members I A n)) :
    Except Fault (Pool I A O X n m) := do
  let (exhausted, dials, membership) ← pool.dials.resetFront pool.membership removed
  let pool := { pool with dials, membership }
  match exhausted with
  | some key => pool.reject setup key .identity
  | none => .ok pool

def poll (now : Nat) (source : Source I) (submit : Id → A × O → Attempt (A × O) E) :
    Except Fault (Opening E × Pool I A O X n m) :=
  if !pool.feedback.isEnabled then
    let (opening, dials) := (pool.dials.refresh false).terminal E
    .ok (opening, { pool with dials })
  else do
    let pool ←
      if pool.feedback.watched then
        pool.resetFront setup fun target =>
          pool.membership.cancelIf setup target fun id => !pool.feedback.isEligible source id
      else .ok pool
    let (opening, dials, membership) ← pool.dials.poll setup pool.membership now
      (pool.feedback.isEligible source) submit
    .ok (opening, { pool with dials, membership })

def arm (capacity : Nat) : Pool I A O X n m :=
  { pool with retirements := pool.retirements.map fun sweep => sweep.arm capacity }

def trySync [DecidableEq I] (snapshot : Snapshot I A N) (capacity : Nat) :
    Except Fault (Except Reconcile Change × Pool I A O X n m) := do
  let (result, membership) ← pool.membership.tryApply setup snapshot
  let pool := { pool with membership }
  match result with
  | .error error => .ok (.error error, pool)
  | .ok change =>
      let pool ←
        if setup.authoritative then
          pool.resetFront setup fun target => do
            let (update, members) ← pool.membership.cancel setup target
            .ok (some update, members)
        else .ok pool
      let pool := if change.retired ≠ 0 then pool.arm capacity else pool
      .ok (.ok change, pool.refresh setup)

def attach (key : Id) (source : Source I) : Except Fault (Connection I × Pool I A O X n m) :=
  match pool.dials.connection key with
  | none => .ok (.stale, pool)
  | some (d, target) => do
      let (peer, membership) ←
        pool.membership.recover target (pool.feedback.isRetained source)
      let pool := { pool with membership }
      match peer with
      | .ready target output =>
          .ok (.applied output, refresh setup { pool with dials := pool.dials.commit d target })
      | .missing => .ok (.retired, pool)
      | .disabled => .ok (.disabled, pool)
      | .exhausted => .ok (.exhausted, pool)

/-- Retires one connection; answers with the cause of its member's unavailability. -/
def retire (key : Id) (reason : Reason X) (now : Nat) :
    Except Fault (Option (Cause X) × Pool I A O X n m) := do
  let outcome ← pool.dials.recycle setup key (pool.isPresent setup) fun target =>
    match reason.cause with
    | none => do
        let (update, members) ← pool.membership.cancel setup target
        .ok (update, members, pool.backoff, none)
    | some next => do
        let (update, members, backoff) ← pool.membership.fail setup target pool.backoff now
        .ok (update, members, backoff, if update = .applied then some next else none)
  match outcome with
  | none => .ok (none, pool)
  | some ((update, membership, backoff, cause), dials) =>
      let pool := { pool with membership, backoff, dials }
      if update = .exhausted then do
        let pool ← pool.reject setup key .identity
        .ok (cause, pool)
      else .ok (cause, pool)

def exhaust (key : Id) (cause : Exhaustion) : Except Fault (Option Update × Pool I A O X n m) := do
  let closed ← pool.dials.close key
  match closed with
  | none => .ok (none, pool)
  | some (target, dials) =>
      let (_, membership) ← pool.membership.cancel setup target
      let pool ← reject setup { pool with dials, membership } key cause
      .ok (some .applied, pool)

/-- Applies one failed connection attempt to its member. -/
def failed (key : Id) (cause : ConnectError X) (now : Nat) :
    Except Fault (Option Update × Pool I A O X n m) :=
  match cause with
  | .admission .identityExhausted =>
      pool.exhaust setup key (.submission .identityExhausted)
  | .admission .full | .other _ => do
      let outcome ← pool.dials.recycle setup key (pool.isPresent setup) fun target =>
        pool.membership.fail setup target pool.backoff now
      match outcome with
      | none => .ok (none, pool)
      | some ((update, membership, backoff), dials) =>
          .ok (some update, { pool with membership, backoff, dials })

def disconnect (key : Id) (reason : Reason X) (now : Nat) : Except Fault (Pool I A O X n m) := do
  let (cause, pool) ← pool.retire setup key reason now
  match cause with
  | some cause => .ok { pool with feedback := pool.feedback.record cause }
  | none => .ok pool

def fail (key : Id) (cause : ConnectError X) (now : Nat) : Except Fault (Pool I A O X n m) := do
  let (update, pool) ← pool.failed setup key cause now
  if update = some .applied then
    .ok { pool with feedback := pool.feedback.record (.connect cause) }
  else .ok pool

def rejected (key : Id) (error : SubmitCause) : Except Fault (Pool I A O X n m) :=
  if error = .identityExhausted ∧ (pool.dials.activeMember key).isSome then
    pool.reject setup key (.submission error)
  else .ok pool

def kill (key : Id) (cause : Option Exhaustion) : Except Fault (Pool I A O X n m) :=
  match cause with
  | some cause => do
      let (_, pool) ← pool.exhaust setup key cause
      .ok pool
  | none => do
      let closed ← pool.dials.close key
      match closed with
      | none => .ok (pool.refresh setup)
      | some (target, dials) =>
          let (update, membership) ← pool.membership.cancel setup target
          let pool := { pool with dials, membership }
          if update = .exhausted then pool.reject setup key .identity
          else .ok (pool.refresh setup)

def setDemand (source : Source I) (capacity : Nat) : Pool I A O X n m :=
  let disabled := pool.feedback.isEnabled && !source.needed
  let feedback := pool.feedback.set source.needed
  let (withdrawn, membership) := pool.membership.setDemand source.demand
  let pool := { pool with feedback, membership }
  let pool := if disabled || withdrawn then pool.arm capacity else pool
  pool.refresh setup

def isRetiredAt (key : Id) (source : Source I) : Bool × Pool I A O X n m :=
  match pool.dials.activeMember key with
  | none => (false, pool)
  | some member =>
      let (retained, membership) :=
        pool.membership.isRetained member (pool.feedback.isRetained source)
      let pool := { pool with membership }
      if retained && !pool.feedback.isEnabled then
        (!retained, { pool with
          feedback := pool.feedback.set true
          dials := pool.dials.resumeActive })
      else (!retained, pool)

def nextRetirement : Option Nat × Pool I A O X n m :=
  match pool.retirements with
  | none => (none, pool)
  | some sweep =>
      let (slot, sweep) := sweep.take
      (slot, { pool with retirements := some sweep })

end Pool

/-! ## Runs -/

/-- The pool, and every permanent failure that it reported. -/
structure World (I A O X E : Type) (n m : Nat) where
  pool : Pool I A O X n m
  reports : List (Id × Failure E)

inductive Input (I A O X E : Type) (n N : Nat) where
  | poll (now : Nat) (source : Source I) (submit : Id → A × O → Attempt (A × O) E)
  | trySync (snapshot : Snapshot I A N) (capacity : Nat)
  | attach (key : Id) (source : Source I)
  | disconnect (key : Id) (reason : Reason X) (now : Nat)
  | fail (key : Id) (cause : ConnectError X) (now : Nat)
  | kill (key : Id) (cause : Option Exhaustion)
  | rejected (key : Id) (error : SubmitCause)
  | setDemand (source : Source I) (capacity : Nat)
  | isRetiredAt (key : Id) (source : Source I)
  | nextRetirement

inductive Output (I E : Type) where
  | opening (opening : Opening E)
  | change (result : Except Reconcile Change)
  | connection (connection : Connection I)
  | done
  | retired (answer : Bool)
  | slot (slot : Option Nat)

def Opening.report {E : Type} : Opening E → List (Id × Failure E)
  | .failed attempt error => [(attempt, error)]
  | .submitted | .deferred _ _ | .backoff _ | .idle => []

variable {I A O X E : Type} {n m N : Nat}

/-- Only a watched discovery has a demand to change. -/
def World.Allowed (world : World I A O X E n m) : Input I A O X E n N → Prop
  | .setDemand _ _ | .isRetiredAt _ _ => world.pool.feedback.watched = true
  | _ => True

def World.step [DecidableEq I] (setup : Setup O n) (world : World I A O X E n m) :
    Input I A O X E n N → Except Fault (Output I E × World I A O X E n m)
  | .poll now source submit => do
      let (opening, pool) ← world.pool.poll setup now source submit
      .ok (.opening opening, ⟨pool, world.reports ++ opening.report⟩)
  | .trySync snapshot capacity => do
      let (result, pool) ← world.pool.trySync setup snapshot capacity
      .ok (.change result, { world with pool })
  | .attach key source => do
      let (connection, pool) ← world.pool.attach setup key source
      .ok (.connection connection, { world with pool })
  | .disconnect key reason now => do
      let pool ← world.pool.disconnect setup key reason now
      .ok (.done, { world with pool })
  | .fail key cause now => do
      let pool ← world.pool.fail setup key cause now
      .ok (.done, { world with pool })
  | .kill key cause => do
      let pool ← world.pool.kill setup key cause
      .ok (.done, { world with pool })
  | .rejected key error => do
      let pool ← world.pool.rejected setup key error
      .ok (.done, { world with pool })
  | .setDemand source capacity =>
      .ok (.done, { world with pool := world.pool.setDemand setup source capacity })
  | .isRetiredAt key source =>
      let (answer, pool) := world.pool.isRetiredAt key source
      .ok (.retired answer, { world with pool })
  | .nextRetirement =>
      let (slot, pool) := world.pool.nextRetirement
      .ok (.slot slot, { world with pool })

/-- A pool that was just built. -/
def World.Started (setup : Setup O n) (world : World I A O X E n m) : Prop :=
  ∃ backoff feedback, (feedback = .silent ∨ feedback = .notify none ∨ feedback = .gate false) ∧
    world = ⟨.new setup I A m backoff feedback, []⟩

def machine [DecidableEq I] (A X E : Type) (m N : Nat) (setup : Setup O n) :
    Run.Machine (World I A O X E n m) (Input I A O X E n N) (Output I E) Fault :=
  ⟨World.Started setup, World.Allowed, World.step setup⟩

end Dope.Manifold.Service
