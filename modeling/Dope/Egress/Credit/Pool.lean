import Dope.Egress.Credit.Fair
import Mathlib.Logic.Function.Basic

/-! # The egress credit account and its wait queue

Model of `load/credit` in its ready mode. One state holds the shared credit,
the credit lanes, one wait record for each lane, the wait forest with its
ticket counter, and the flag that schedules maintenance.

The source acquires credit without a check where a zero or covered demand was
established before. Here that call faults when the demand is not covered, and
a walk of the forest faults when it runs out of fuel. Grants are amounts: the
code that holds them is outside this module, so `release` takes whatever amount
comes back. Waking a selected lane is the driver's decision, which
the operations take as an argument.
-/

namespace Dope.Egress.Credit

open Wait

/-- A queued request asks for at most two entries. -/
structure Queued where
  entries : Entries
  resident : Nat
deriving DecidableEq, Repr

def Queued.amount (queued : Queued) : Amount :=
  ⟨queued.entries.toNat, queued.resident⟩

structure Waiting (K : Type) where
  key : K
  amount : Queued
  bypasses : Nat

structure Granted (K : Type) where
  key : K
  grant : Amount

inductive Record (K : Type) where
  | idle
  | waiting (waiting : Waiting K)
  | granted (granted : Granted K)

structure Pool (credit : FairCredit) (K : Type) (n : Nat) where
  shared : Amount
  lanes : Fin n → credit.Lane
  records : Fin n → Record K
  tree : Forest n
  ticket : Nat
  pending : Bool

/-- What the source leaves undefined: credit taken beyond the shared amount, a
record read as waiting that is not, and a walk longer than the lane count. -/
inductive Fault where
  | uncovered
  | record
  | walk
deriving DecidableEq, Repr

def walk {α : Type} : Option α → Except Fault α
  | some a => .ok a
  | none => .error .walk

/-- The tickets ran out. -/
inductive Tickets where
  | exhausted
deriving DecidableEq, Repr

inductive Admission (n : Nat) where
  | busy (lane : Fin n) (requested : Amount)
  | queued (lane : Fin n) (requested demand : Amount)
  | credit (lane : Fin n) (requested : Amount)
deriving DecidableEq, Repr

variable {credit : FairCredit} {K : Type} {n : Nat}

/-! ## Accounts -/

namespace Account

def demand (pool : Pool credit K n) (lane : Fin n) (amount : Amount) : Amount :=
  credit.demand (pool.lanes lane) amount

/-- The unchecked acquisition. -/
def acquire (pool : Pool credit K n) (lane : Fin n) (amount : Amount) :
    Except Fault (Pool credit K n) :=
  if demand pool lane amount ≤ pool.shared then
    let (state, shared) := credit.acquire (pool.lanes lane) pool.shared amount
    .ok { pool with shared := shared, lanes := Function.update pool.lanes lane state }
  else .error .uncovered

/-- `Grant::release`: the credit goes back, without telling the queue. -/
def release (pool : Pool credit K n) (lane : Fin n) (amount : Amount) : Pool credit K n :=
  let (state, shared) := credit.release (pool.lanes lane) pool.shared amount
  { pool with shared := shared, lanes := Function.update pool.lanes lane state }

end Account

theorem queued_demand_le (pool : Pool credit K n) (lane : Fin n) (queued : Queued) :
    (Account.demand pool lane queued.amount).entries ≤ 2 := by
  have le := credit.demand_entries_le (pool.lanes lane) queued.amount
  have two : queued.amount.entries ≤ 2 := by
    unfold Queued.amount
    cases queued.entries <;> simp [Entries.toNat]
  exact le.trans two

/-- `Demand::queued` -/
def Demand.queued (pool : Pool credit K n) (lane : Fin n) (queued : Queued) : Demand :=
  ⟨Account.demand pool lane queued.amount, queued_demand_le pool lane queued⟩

namespace Lane

def tryCharge (pool : Pool credit K n) (lane : Fin n) (amount : Amount) :
    Except (Admission n) Amount × Pool credit K n :=
  match credit.charge (pool.lanes lane) pool.shared amount with
  | some (state, shared) =>
      (.ok amount, { pool with shared := shared, lanes := Function.update pool.lanes lane state })
  | none => (.error (.credit lane amount), pool)

def isCovered (pool : Pool credit K n) (demand : Demand) : Prop :=
  demand.fits pool.shared

instance (pool : Pool credit K n) (demand : Demand) : Decidable (isCovered pool demand) :=
  inferInstanceAs (Decidable (demand.fits pool.shared))

end Lane

/-! ## The wait queue -/

/-- `Ticket::issue`: the counter is a `u32`, and its last value is never issued. -/
def Ticket.issue (ticket : Nat) : Except Tickets (Nat × Nat) :=
  if ticket + 1 < 2 ^ 32 then .ok (ticket, ticket + 1) else .error .exhausted

inductive Resume where
  | waiting
  | queued
  | granted (grant : Amount)
deriving DecidableEq, Repr

inductive Cancelled where
  | idle
  | busy
deriving DecidableEq, Repr

def Pool.setRecord (pool : Pool credit K n) (lane : Fin n) (record : Record K) :
    Pool credit K n :=
  { pool with records := Function.update pool.records lane record }

namespace Vacant

def poll (pool : Pool credit K n) (lane : Fin n) (key : K) (amount : Queued) :
    Except Fault (Except Tickets Resume × Pool credit K n) := do
  let charge := amount.amount
  let demand := Demand.queued pool lane amount
  if demand.amount = Amount.zero ∨ (pool.tree.roots.isEmpty ∧ Lane.isCovered pool demand) then
    let pool ← Account.acquire pool lane charge
    return (.ok (.granted charge), pool)
  let counter := if pool.tree.roots.isEmpty then 0 else pool.ticket
  match Ticket.issue counter with
  | .error cause => return (.error cause, { pool with ticket := counter })
  | .ok (ticket, next) =>
      let pool := { pool with ticket := next }
      let pool := pool.setRecord lane (.waiting ⟨key, amount, 0⟩)
      let tree ← walk (pool.tree.insert lane demand ticket)
      return (.ok .queued, { pool with tree := tree })

end Vacant

namespace Store

def isBusy (pool : Pool credit K n) (lane : Fin n) : Bool :=
  match pool.records lane with
  | .idle => false
  | _ => true

/-- `Core::try_bypass`: a lane is passed over at most once for every other lane. -/
def tryBypass (pool : Pool credit K n) (lane : Fin n) :
    Except Fault (Option (Pool credit K n)) :=
  match pool.records lane with
  | .waiting waiting =>
      if n - 1 ≤ waiting.bypasses then .ok none
      else .ok (some (pool.setRecord lane
        (.waiting { waiting with bypasses := waiting.bypasses + 1 })))
  | _ => .error .record

end Store

namespace Queue

def hasWaiting (pool : Pool credit K n) : Bool :=
  !pool.tree.roots.isEmpty

def refresh (pool : Pool credit K n) (lane : Fin n) : Except Fault (Pool credit K n) :=
  match pool.records lane with
  | .waiting waiting => do
      let demand := Demand.queued pool lane waiting.amount
      let tree ← walk (pool.tree.refresh lane demand)
      return { pool with tree := tree }
  | _ => .ok pool

/-- The lane to serve next, already taken out of the forest. -/
def select (pool : Pool credit K n) (shared : Amount) :
    Except Fault (Option (Fin n) × Pool credit K n) :=
  match pool.tree.oldest with
  | none => .ok (none, pool)
  | some oldest => do
      match ← walk (pool.tree.eligible shared) with
      | none => return (none, pool)
      | some selected =>
          if selected ≠ oldest then
            match ← Store.tryBypass pool oldest with
            | none => return (none, pool)
            | some pool =>
                let tree ← walk (pool.tree.remove selected)
                return (some selected, { pool with tree := tree })
          else
            let tree ← walk (pool.tree.remove selected)
            return (some selected, { pool with tree := tree })

def resume [DecidableEq K] (pool : Pool credit K n) (lane : Fin n) (key : K) (amount : Queued) :
    Except Fault (Except Tickets Resume × Pool credit K n) :=
  match pool.records lane with
  | .idle => Vacant.poll pool lane key amount
  | .waiting waiting =>
      if waiting.key = key ∧ waiting.amount = amount then .ok (.ok .waiting, pool)
      else do
        let demand := Demand.queued pool lane amount
        let pool := pool.setRecord lane (.waiting ⟨key, amount, waiting.bypasses⟩)
        let tree ← walk (pool.tree.refresh lane demand)
        return (.ok .queued, { pool with tree := tree })
  | .granted granted =>
      if granted.key = key ∧ granted.grant = amount.amount then
        .ok (.ok (.granted granted.grant), pool.setRecord lane .idle)
      else
        let pool := pool.setRecord lane .idle
        Vacant.poll (Account.release pool lane granted.grant) lane key amount

def cancel (pool : Pool credit K n) (lane : Fin n) :
    Except Fault (Cancelled × Pool credit K n) :=
  match pool.records lane with
  | .idle => .ok (.idle, pool)
  | .waiting _ => do
      let pool := pool.setRecord lane .idle
      let tree ← walk (pool.tree.remove lane)
      return (.busy, { pool with tree := tree })
  | .granted granted =>
      .ok (.busy, Account.release (pool.setRecord lane .idle) lane granted.grant)

end Queue

/-- `Selected::activate`: `active` tells whether the driver still knows the key. -/
def Selected.activate (pool : Pool credit K n) (lane : Fin n) (active : Bool) :
    Except Fault (Pool credit K n) :=
  match pool.records lane with
  | .waiting waiting =>
      if active then do
        let grant := waiting.amount.amount
        let pool ← Account.acquire pool lane grant
        return pool.setRecord lane (.granted ⟨waiting.key, grant⟩)
      else .ok (pool.setRecord lane .idle)
  | _ => .error .record

/-! ## The ready mode -/

namespace Ready

def tryAcquire (pool : Pool credit K n) (lane : Fin n) (amount : Amount) :
    Except Fault (Except (Admission n) Amount × Pool credit K n) :=
  if Store.isBusy pool lane then .ok (.error (.busy lane amount), pool)
  else if Queue.hasWaiting pool then
    let demand := Account.demand pool lane amount
    if demand ≠ Amount.zero then .ok (.error (.queued lane amount demand), pool)
    else do
      let pool ← Account.acquire pool lane amount
      return (.ok amount, pool)
  else .ok (Lane.tryCharge pool lane amount)

def release (pool : Pool credit K n) (lane : Fin n) (grant : Amount) :
    Except Fault (Pool credit K n) := do
  let pool := Account.release pool lane grant
  let pool ← Queue.refresh pool lane
  return { pool with pending := Queue.hasWaiting pool }

def cancel (pool : Pool credit K n) (lane : Fin n) : Except Fault (Pool credit K n) := do
  match ← Queue.cancel pool lane with
  | (.busy, pool) => return { pool with pending := Queue.hasWaiting pool }
  | (.idle, pool) => return pool

/-- `task::Poll` of the granted amount. -/
inductive Poll where
  | pending
  | ready (result : Except Tickets Amount)

def poll [DecidableEq K] (pool : Pool credit K n) (lane : Fin n) (key : K) (queued : Queued) :
    Except Fault (Poll × Pool credit K n) := do
  match ← Queue.resume pool lane key queued with
  | (.ok .waiting, pool) => return (.pending, pool)
  | (.ok .queued, pool) => return (.pending, { pool with pending := Queue.hasWaiting pool })
  | (.ok (.granted grant), pool) =>
      return (.ready (.ok grant), { pool with pending := Queue.hasWaiting pool })
  | (.error cause, pool) =>
      return (.ready (.error cause), { pool with pending := Queue.hasWaiting pool })

end Ready

/-! ## Maintenance -/

/-- One permit of `maintain`, with the lane it selected. -/
def Pool.permit (pool : Pool credit K n) (active : Bool) :
    Except Fault (Option (Fin n) × Pool credit K n) :=
  if pool.pending then do
    let pool := { pool with pending := false }
    match ← Queue.select pool pool.shared with
    | (none, pool) => return (none, pool)
    | (some lane, pool) =>
        let pool ← Selected.activate pool lane active
        return (some lane, { pool with pending := Queue.hasWaiting pool })
  else .ok (none, pool)

/-- `maintain`: the list stands for the permits of one turn and the driver's
answer to each activation. -/
def Pool.maintain (pool : Pool credit K n) : List Bool → Except Fault (Pool credit K n)
  | [] => .ok pool
  | active :: rest => do
      let (_, pool) ← pool.permit active
      pool.maintain rest

/-! ## Batch drafts -/

namespace Draft

/-- `try_push`: one entry and its resident bytes are split off the draft's
credit, unless they do not fit or no node is vacant. -/
def tryPush (rest : Amount) (splits : List Amount) (load : Nat × Bool) :
    Amount × List Amount :=
  let held : Amount := ⟨1, load.1⟩
  if held ≤ rest ∧ load.2 then (rest - held, splits ++ [held]) else (rest, splits)

/-- `cancel`: the parts go back first, then the rest through the queue. -/
def cancel (pool : Pool credit K n) (lane : Fin n) (rest : Amount) (splits : List Amount) :
    Except Fault (Pool credit K n) :=
  Ready.release (splits.foldl (fun pool split => Account.release pool lane split) pool) lane rest

/-- `try_new` and `try_build`: each load comes with the vacancy it meets, and
`built` is the outcome of the caller's closure. The draft holds the region's
token, so nothing else runs in between. -/
def tryBatch (pool : Pool credit K n) (lane : Fin n) (plan : Amount) (loads : List (Nat × Bool))
    (built : Bool) : Except Fault (Bool × Pool credit K n) := do
  match ← Ready.tryAcquire pool lane plan with
  | (.error _, pool) => return (false, pool)
  | (.ok amount, pool) =>
      let (rest, splits) :=
        loads.foldl (fun (rest, splits) load => tryPush rest splits load) (amount, [])
      if built ∧ rest = Amount.zero then return (true, pool)
      else
        let pool ← cancel pool lane rest splits
        return (false, pool)

end Draft

end Dope.Egress.Credit
