import Dope.Base.Round
import Dope.Base.Run
import Dope.Manifold.Service.Health

/-! # Service members

Model of `service/pool/members`: the records of the members, the ring of those
that may be chosen, and the retries of those that failed. The table of records and
the queue of retries lie outside the repository; an unchecked access to an entry
that is not there is a fault.
-/

namespace Dope.Manifold.Service

open Dope.Round

/-- What a pool is set up with. The generations that a position of the members and
a dial can have end at `memberLast` and `dialLast`. -/
structure Setup (O : Type) (n : Nat) where
  authoritative : Bool
  options : O
  limit : Nat
  memberLast : Nat
  dialLast : Nat
  first : Retries n → Option (Fin n)

inductive Fault where
  | owners
  | active
  | promote
  | backoff
  | recover
deriving DecidableEq, Repr

structure Target (n : Nat) where
  member : Key n
  health : Nat
deriving DecidableEq, Repr

/-! ## Records -/

inductive Demand where
  | absent
  | eligible
  | retained
  | both
deriving DecidableEq, Repr

def Demand.new (eligible retained : Bool) : Demand :=
  match eligible, retained with
  | false, false => .absent
  | true, false => .eligible
  | false, true => .retained
  | true, true => .both

def Demand.isRetained : Demand → Bool
  | .retained | .both => true
  | .absent | .eligible => false

inductive Ready where
  | healthy
  | probe
deriving DecidableEq, Repr

/-- Only unscheduled residents use this state. -/
inductive Idle where
  | backoff
  | probing
  | exhausted
deriving DecidableEq, Repr

structure Health where
  generation : Nat
  failures : Nat
  idle : Idle
  ready : Ready
  /-- A retired member has no demand. -/
  demand : Option Demand
  owners : Nat
deriving DecidableEq, Repr

structure Exhausted where
deriving DecidableEq, Repr

namespace Health

def new : Health := ⟨0, 0, .exhausted, .healthy, some .both, 0⟩

def target {n : Nat} (health : Health) (member : Key n) : Target n := ⟨member, health.generation⟩

def matches_ {n : Nat} (health : Health) (target : Target n) : Bool :=
  health.generation = target.health

def tryReady (health : Health) (ready : Ready) : Except Exhausted Unit × Health :=
  match Generation.next health.generation with
  | .advanced generation =>
      (.ok (), { health with
        generation
        idle := .exhausted
        failures := if ready = .healthy then 0 else health.failures
        ready })
  | .exhausted => (.error {}, { health with idle := .exhausted })

end Health

structure Record (I A : Type) where
  id : I
  addr : A
  health : Health
deriving DecidableEq, Repr

namespace Record

variable {I A : Type}

def new (id : I) (addr : A) : Record I A := ⟨id, addr, .new⟩

def isDesired (record : Record I A) : Bool := record.health.demand.isSome

def withHealth (f : Health → Health) (record : Record I A) : Record I A :=
  { record with health := f record.health }

end Record

/-! ## Members -/

inductive Update where
  | applied
  | ignored
  | exhausted
  | missing
deriving DecidableEq, Repr

inductive Peer (I : Type) (n : Nat) where
  | ready (target : Target n) (output : I)
  | missing
  | disabled
  | exhausted
deriving DecidableEq, Repr

inductive Selection (A : Type) (n : Nat) where
  | ready (target : Target n) (addr : A)
  | idle
  | backoff (due : Nat)
  | exhausted
deriving DecidableEq, Repr

/-- `members::Set`, with the retries of its `queues::Queue`. -/
structure Members (I A : Type) (n : Nat) where
  revision : Nat
  records : Table n (Record I A)
  retries : Retries n
  desired : Nat

namespace Members

variable {I A O : Type} {n : Nat}

def new (I A : Type) (n : Nat) : Members I A n := ⟨0, .new n _, fun _ => none, 0⟩

variable (setup : Setup O n) (members : Members I A n)

def isEmpty : Bool := members.desired = 0

def edit (i : Fin n) (f : Health → Health) : Members I A n :=
  { members with records := members.records.edit i (.withHealth f) }

/-! ### Retries -/

/-- `Queue::backoff`: the retry of a resident that has none. -/
def park (i : Fin n) (due : Nat) : Except Fault (Members I A n) :=
  match members.retries i with
  | some _ => .error .backoff
  | none =>
      .ok { members with
        retries := Function.update members.retries i (some ((members.records.key i).generation, due))
        records := members.records.edit i (.withHealth fun h => { h with idle := .backoff }) }

/-- `Queue::recover`: the retry of a resident leaves the queue. -/
def unpark (key : Key n) : Except Fault (Members I A n) :=
  match members.retries key.slot with
  | none => .error .recover
  | some (generation, _) =>
      if generation = key.generation then
        .ok { members with
          retries := Function.update members.retries key.slot none
          records := members.records.edit key.slot
            (.withHealth fun h => { h with idle := .exhausted }) }
      else .error .recover

/-- `Queue::remove`. -/
def remove (i : Fin n) (record : Record I A) : Except Fault (Members I A n) :=
  if i ∈ members.records.ring then
    .ok { members with records := members.records.unlink i }
  else match record.health.idle with
    | .backoff => members.unpark (members.records.key i)
    | .probing | .exhausted => .ok members

/-- `Queue::retire`: a retry of the key leaves the queue, if there is one. -/
def retire (key : Key n) : Members I A n :=
  match members.retries key.slot with
  | some (generation, _) =>
      if generation = key.generation then
        { members with retries := Function.update members.retries key.slot none }
      else members
  | none => members

/-- `Queue::retry_at`. -/
def retryAt : Option Nat :=
  ((setup.first members.retries).bind members.retries).map Prod.snd

/-! ### Health -/

/-- `Record::try_resume`: only successful advancement schedules a resident. -/
def tryResume (i : Fin n) (record : Record I A) (ready : Ready) :
    Except Exhausted Unit × Members I A n :=
  let (advanced, health) := record.health.tryReady ready
  let members := members.edit i fun _ => health
  match advanced with
  | .ok () => (.ok (), { members with records := members.records.link i })
  | .error exhausted => (.error exhausted, members)

/-- `Record::cancel`. -/
def cancelProbe (target : Target n) (record : Record I A) : Update × Members I A n :=
  if !record.health.matches_ target then (.ignored, members)
  else if target.member.slot ∈ members.records.ring then (.ignored, members)
  else if record.health.idle ≠ .probing then (.ignored, members)
  else match members.tryResume target.member.slot record .probe with
    | (.ok (), members) => (.applied, members)
    | (.error _, members) => (.exhausted, members)

/-- Every selected epoch settles once; a retired member leaves with its last owner. -/
def settle (key : Key n) (record : Record I A) :
    Except Fault (Option (Record I A) × Members I A n) :=
  if setup.authoritative then .ok (some record, members)
  else match record.health.owners with
    | 0 => .error .owners
    | owners + 1 =>
        let record := record.withHealth fun h => { h with owners }
        let members := members.edit key.slot fun h => { h with owners }
        if record.isDesired then .ok (some record, members)
        else if owners = 0 then do
          let members ← members.remove key.slot record
          .ok (none, { members with records := members.records.discard key.slot })
        else .ok (none, members)

def cancelIf (target : Target n) (cancel : I → Bool) :
    Except Fault (Option Update × Members I A n) :=
  match members.records.get target.member with
  | none => .ok (some .missing, members)
  | some record =>
      if !cancel record.id then .ok (none, members)
      else do
        let (kept, members) ← members.settle setup target.member record
        match kept with
        | none => .ok (some .ignored, members)
        | some record =>
            let (update, members) := members.cancelProbe target record
            .ok (some update, members)

/-- Releases only this generation's unfinished probe. -/
def cancel (target : Target n) : Except Fault (Update × Members I A n) :=
  match members.records.get target.member with
  | none => .ok (.missing, members)
  | some record => do
      let (kept, members) ← members.settle setup target.member record
      match kept with
      | none => .ok (.ignored, members)
      | some record => .ok (members.cancelProbe target record)

def recover (target : Target n) (retained : I → Bool) :
    Except Fault (Peer I n × Members I A n) :=
  let member := target.member
  let i := member.slot
  match members.records.get member with
  | none => .ok (.missing, members)
  | some record =>
      if !retained record.id then .ok (.disabled, members)
      else if !record.isDesired then .ok (.ready target record.id, members)
      else if i ∈ members.records.ring then
        if record.health.ready ≠ .healthy ∨ record.health.matches_ target then
          let (advanced, health) := record.health.tryReady .healthy
          let members := members.edit i fun _ => health
          match advanced with
          | .ok () => .ok (.ready (health.target member) record.id, members)
          | .error _ =>
              .ok (.exhausted, { members with records := members.records.unlink i })
        else .ok (.ready (record.health.target member) record.id, members)
      else do
        match record.health.idle with
        | .exhausted => .ok (.exhausted, members)
        | .probing =>
            match members.tryResume i record .healthy with
            | (.ok (), members) =>
                .ok (.ready ((record.health.tryReady .healthy).2.target member) record.id, members)
            | (.error _, members) => .ok (.exhausted, members)
        | .backoff =>
            let members ← members.unpark member
            let record := record.withHealth fun h => { h with idle := .exhausted }
            match members.tryResume i record .healthy with
            | (.ok (), members) =>
                .ok (.ready ((record.health.tryReady .healthy).2.target member) record.id, members)
            | (.error _, members) => .ok (.exhausted, members)

/-- `Failure::try_new`: admits the failure of a member that is scheduled as healthy,
or is being probed, and unlinks it. -/
def tryFailure (target : Target n) (record : Record I A) : Option (Members I A n) :=
  if !record.health.matches_ target then none
  else if target.member.slot ∈ members.records.ring then
    if record.health.ready = .probe then none
    else some { members with records := members.records.unlink target.member.slot }
  else match record.health.idle with
    | .probing => some members
    | .backoff | .exhausted => none

/-- `Failure::apply`. -/
def applyFailure (i : Fin n) (record : Record I A) (backoff : Backoff) (now : Nat) :
    Except Fault (Members I A n × Backoff) := do
  let (due, failures, backoff) := backoff.retryAt setup.limit record.health.failures now
  let members := members.edit i fun h => { h with failures }
  let members ← members.park i due
  .ok (members, backoff)

/-- Rejects admission first, then ignores late events without penalizing recovered health. -/
def fail (target : Target n) (backoff : Backoff) (now : Nat) :
    Except Fault (Update × Members I A n × Backoff) :=
  match members.records.get target.member with
  | none => .ok (.missing, members, backoff)
  | some record => do
      let (kept, members) ← members.settle setup target.member record
      match kept with
      | none => .ok (.ignored, members, backoff)
      | some record =>
          match members.tryFailure target record with
          | none => .ok (.ignored, members, backoff)
          | some members => do
              let (members, backoff) ←
                members.applyFailure setup target.member.slot record backoff now
              .ok (.applied, members, backoff)

/-! ### Choice -/

/-- The first retry that is due makes its member a probe. -/
def tryPromote (now : Nat) : Except Fault (Except Exhausted Unit × Members I A n) :=
  match setup.first members.retries with
  | none => .ok (.ok (), members)
  | some i =>
      match members.retries i with
      | none => .ok (.ok (), members)
      | some (generation, due) =>
          if now < due then .ok (.ok (), members)
          else match members.records.get ⟨i, generation⟩ with
            | none => .error .promote
            | some record =>
                if i ∈ members.records.ring then .error .promote
                else
                  let members :=
                    { members with retries := Function.update members.retries i none }
                  .ok (members.tryResume i record .probe)

/-- Members that are not eligible go behind the others, each at most once. -/
def skip (eligible : I → Bool) : Nat → Table n (Record I A) → Nat × Table n (Record I A)
  | 0, records => (0, records)
  | left + 1, records =>
      match records.turn with
      | none => (left + 1, records)
      | some (_, record) =>
          if eligible record.id then (left + 1, records) else skip eligible left records.advance

/-- The member whose turn it is becomes a target. -/
def take (i : Fin n) (record : Record I A) : Members I A n :=
  let records := match record.health.ready with
    | .healthy => members.records.advance
    | .probe => (members.records.unlink i).edit i (.withHealth fun h => { h with idle := .probing })
  let records := if setup.authoritative then records
    else records.edit i (.withHealth fun h => { h with owners := h.owners + 1 })
  { members with records }

def choose (now : Nat) (eligible : I → Bool) :
    Except Fault (Selection A n × Members I A n) := do
  let (promoted, members) ← members.tryPromote setup now
  match promoted with
  | .error _ => .ok (.exhausted, members)
  | .ok () =>
      let (left, records) := skip eligible members.desired members.records
      let members := { members with records }
      let turn := if left ≠ 0 then records.turn else none
      match turn with
      | some (i, record) =>
          .ok (.ready (record.health.target (records.key i)) record.addr,
            members.take setup i record)
      | none =>
          match members.retryAt setup with
          | some due => .ok (.backoff due, members)
          | none => .ok (.idle, members)

/-! ### Demand -/

/-- Retention is rechecked, and counts as demand from now on. -/
def isRetained (member : Key n) (retained : I → Bool) : Bool × Members I A n :=
  match members.records.get member with
  | none => (false, members)
  | some record =>
      if !retained record.id then (false, members)
      else (true, members.edit member.slot fun h => { h with demand := h.demand.map fun demand =>
        match demand with
        | .absent => .retained
        | .eligible => .both
        | current => current })

/-- One record of `set_demand`: a retired member keeps having no demand. -/
def setDemandOf (demand : I → Demand) (state : Bool × Members I A n) (i : Fin n) :
    Bool × Members I A n :=
  match (state.2.records.slots i).resident with
  | none => state
  | some record =>
      match record.health.demand with
      | none => state
      | some previous =>
          (state.1 || (previous.isRetained && !(demand record.id).isRetained),
            state.2.edit i fun h => { h with demand := some (demand record.id) })

def setDemand (demand : I → Demand) : Bool × Members I A n :=
  (List.finRange n).foldl (setDemandOf demand) (false, members)

end Members

end Dope.Manifold.Service
