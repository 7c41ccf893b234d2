import Dope.Base.Run
import Dope.Manifold.Service.Members

/-! # Snapshots of a service

Model of `members/entries` and `members::Set::try_apply`: a snapshot names the
members that are desired from now on. Nothing changes unless every endpoint of the
snapshot has a position.
-/

namespace Dope.Manifold.Service

open Dope.Round

structure Endpoint (I A : Type) where
  id : I
  addr : A
deriving DecidableEq, Repr

structure Snapshot (I A : Type) (N : Nat) where
  revision : Nat
  endpoints : List (Endpoint I A)
  bounded : endpoints.length ≤ N

structure Change where
  added : Nat
  retained : Nat
  retired : Nat
deriving DecidableEq, Repr

inductive Reconcile where
  | stale (current incoming : Nat)
  | duplicate (first duplicate : Nat)
  | capacity (actual limit : Nat)
deriving DecidableEq, Repr

/-- A position that a new member can take. -/
inductive Vacant (n : Nat) where
  | free (i : Fin n)
  | reuse (i : Fin n)
deriving DecidableEq, Repr

inductive Entry (I A : Type) (n : Nat) where
  | keep (i : Fin n) (value : Endpoint I A)
  | new (entry : Vacant n) (value : Endpoint I A)
deriving DecidableEq, Repr

/-- What the scan of the table found: the position of each endpoint that stays, and
positions for at most `N` others. -/
structure Scan (n : Nat) where
  keep : Nat → Option (Fin n)
  spare : List (Vacant n)
  retained : Nat

namespace Members

variable {I A O : Type} {n N : Nat} [DecidableEq I]
variable (setup : Setup O n) (members : Members I A n)

/-- The first endpoint with the id of an earlier one. -/
def duplicate : List (Endpoint I A) → Nat → List (Endpoint I A) → Option (Nat × Nat)
  | _, _, [] => none
  | seen, index, item :: rest =>
      match seen.findIdx? (·.id = item.id) with
      | some first => some (first, index)
      | none => duplicate (seen ++ [item]) (index + 1) rest

/-- The position of the endpoint that a record stays for. -/
def staysFor (endpoints : List (Endpoint I A)) (record : Record I A) : Option Nat :=
  if record.isDesired then endpoints.findIdx? fun endpoint => record.id = endpoint.id else none

/-- The position of a record that does not stay, unless its owners or its generation
hold it. -/
def vacancy (i : Fin n) : Option (Vacant n) :=
  let slot := members.records.slots i
  match slot.resident with
  | none => if slot.generation ≤ setup.memberLast then some (.free i) else none
  | some record =>
      if !setup.authoritative && record.health.owners ≠ 0 then none
      else if slot.generation < setup.memberLast then some (.reuse i)
      else none

def scanOf (endpoints : List (Endpoint I A)) (N : Nat) (scan : Scan n) (i : Fin n) : Scan n :=
  match (members.records.slots i).resident.bind (staysFor endpoints) with
  | some position =>
      { scan with
        keep := Function.update scan.keep position (some i)
        retained := scan.retained + if scan.keep position = none then 1 else 0 }
  | none =>
      match members.vacancy setup i with
      | none => scan
      | some vacant =>
          if scan.spare.length < N then { scan with spare := scan.spare ++ [vacant] } else scan

def scan (endpoints : List (Endpoint I A)) (N : Nat) : Scan n :=
  (List.finRange n).foldl (members.scanOf setup endpoints N) ⟨fun _ => none, [], 0⟩

/-- Every endpoint gets the position it stays at, or the next that is spare. -/
def allot (keep : Nat → Option (Fin n)) :
    Nat → List (Vacant n) → List (Endpoint I A) → Option (List (Entry I A n))
  | _, _, [] => some []
  | position, spare, value :: rest =>
      match keep position with
      | some i => (allot keep (position + 1) spare rest).map (.keep i value :: ·)
      | none =>
          match spare with
          | [] => none
          | vacant :: spare =>
              (allot keep (position + 1) spare rest).map (.new vacant value :: ·)

/-- `Vacant::insert`. -/
def insert (vacant : Vacant n) (record : Record I A) : Key n × Members I A n :=
  match vacant with
  | .free i =>
      let records := members.records.insert i record
      (records.key i, { members with records := records.link i })
  | .reuse i =>
      let members := members.retire (members.records.key i)
      let records := members.records.replace i record
      (records.key i, { members with
        records := if i ∈ records.ring then records.requeue i else records.link i })

/-- `Entry::commit`. -/
def commit (entry : Entry I A n) : Key n × Members I A n :=
  match entry with
  | .keep i value =>
      let records := members.records.edit i fun record => { record with addr := value.addr }
      (records.key i, { members with
        records := if i ∈ records.ring then records.requeue i else records })
  | .new vacant value => members.insert vacant (.new value.id value.addr)

def commitAll : List (Entry I A n) → Members I A n → List (Key n) × Members I A n
  | [], members => ([], members)
  | entry :: rest, members =>
      let (key, members) := members.commit entry
      let (keys, members) := commitAll rest members
      (key :: keys, members)

/-- One record of `prune`: a desired member that is not current leaves, or rests
while it has owners. -/
def pruneOf (current : List (Key n)) (members : Members I A n) (i : Fin n) :
    Except Fault (Members I A n) :=
  match (members.records.slots i).resident with
  | none => .ok members
  | some record =>
      if record.isDesired ∧ members.records.key i ∉ current then do
        let members ← members.remove i record
        if !setup.authoritative && record.health.owners ≠ 0 then
          .ok (members.edit i fun h => { h with demand := none })
        else .ok { members with records := members.records.discard i }
      else .ok members

def prune (current : List (Key n)) : Except Fault (Members I A n) :=
  (List.finRange n).foldlM (pruneOf setup current) members

def tryApply (snapshot : Snapshot I A N) :
    Except Fault (Except Reconcile Change × Members I A n) :=
  if snapshot.revision ≤ members.revision then
    .ok (.error (.stale members.revision snapshot.revision), members)
  else match duplicate [] 0 snapshot.endpoints with
    | some (first, index) => .ok (.error (.duplicate first index), members)
    | none =>
        let actual := snapshot.endpoints.length
        let prior := members.desired
        let scan := members.scan setup snapshot.endpoints N
        match allot scan.keep 0 scan.spare snapshot.endpoints with
        | none => .ok (.error (.capacity actual (scan.retained + scan.spare.length)), members)
        | some entries => do
            let (keys, members) := commitAll entries members
            let members ← members.prune setup keys
            .ok (.ok ⟨actual - scan.retained, scan.retained, prior - scan.retained⟩,
              { members with revision := snapshot.revision, desired := actual })

end Members

end Dope.Manifold.Service
