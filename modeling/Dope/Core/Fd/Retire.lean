import Mathlib.Algebra.Group.Nat.Defs
import Dope.Core.Fd.Resident

/-! # Retirement

Model of `fd/domain/resident/retire`: a descriptor that is given up is queued,
submitted and consumed when its echo returns. While an echo is out, the next
retirement of the slot waits for it.
-/

namespace Dope.Core.Fd

/-- The echo of a submitted retirement. -/
structure Retirement where
  index : Nat
  generation : Nat
  side : Side
deriving DecidableEq, Repr

inductive Reuse where
  | reusable
  | exhausted
deriving DecidableEq, Repr

inductive Reclaimed where
  | queued (slot : Nat)
  | quarantined (slot : Nat)
deriving DecidableEq, Repr

variable {T : Type}

namespace Entry

variable (entry : Entry T)

def reuse : Reuse := if entry.exhausted then .exhausted else .reusable

def isCurrent (epoch : Nat) : Bool :=
  entry.phase = .inFlight &&
    if entry.lease then entry.generation = epoch else entry.retired = some epoch

def settle : Entry T := if entry.lease then entry.setPhase .quiescent else entry.recycle

end Entry

namespace Store

variable (store : Store T)

/-- Defers replacement retirement until the preceding submitted echo is consumed. -/
def queue (index : Nat) (entry : Entry T) : Store T :=
  if entry.inflight then store.put index entry
  else
    let (head, pending) := store.pending.push index
    { store.put index { entry with word := .link head } with pending }

/-- An exhausted slot stays occupied in the native file table until reactor
teardown; its quiescent, unleased entry cannot admit another owner or close. -/
def abandon (index : Nat) : Reclaimed × Store T :=
  let entry := store.entries index
  if entry.exhausted then
    (.quarantined index, store.put index (entry.setStatus .quarantined false))
  else (.queued index, store.queue index ((entry.advance store.last).setStatus .pending false))

/-! ## Releases -/

def releaseCancel (index : Nat) : Store T :=
  store.put index ((store.entries index).setStatus .ready false)

def releaseEnqueue (index : Nat) : Store T :=
  store.queue index (((store.entries index).advance store.last).setStatus .pending false)

/-- `phase` is the one in which the release began. -/
def release (index : Nat) (phase : Phase) : Store T :=
  let entry := (store.entries index).advance store.last
  store.put index (match phase with
    | .ready | .quiescent => entry.recycle
    | .pending | .inFlight => entry.setStatus phase false)

def enqueue (index : Nat) : Store T :=
  store.queue index ((store.entries index).setPhase .pending)

/-! ## Submission -/

/-- The retirement that is next in line. -/
def pendingRetirement : Option Retirement × Store T :=
  match store.pending.front with
  | (none, pending) => (none, { store with pending })
  | (some (index, side), pending) =>
      let store := { store with pending }
      if index < store.capacity then
        let entry := store.entries index
        if entry.phase = .pending then
          match (if entry.lease then some entry.generation else entry.retired) with
          | some epoch => (some ⟨index, epoch, side⟩, store)
          | none => (none, store)
        else (none, store)
      else (none, store)

/-- The echo of another generation or of another side finds nothing. -/
def bind (token : Retirement) : Option (Store T) :=
  if token.index < store.capacity then
    let entry := store.entries token.index
    if entry.inflight && entry.side = token.side && !entry.bound &&
        entry.submitted = token.generation then
      some (store.put token.index { entry with bound := true })
    else none
  else none

def submitted (token : Retirement) : Except Fault (Store T) :=
  let entry := store.entries token.index
  match entry.link with
  | .error fault => .error fault
  | .ok next =>
      .ok { store.put token.index { entry with
          submitted := token.generation, inflight := true, side := token.side, bound := false,
          phase := .inFlight } with
        pending := store.pending.commit token.side next
        inflight := (store.inflight + 1) % 2 ^ 32 }

def commit (token : Retirement) : Except Fault (Store T) :=
  let entry := store.entries token.index
  match entry.link with
  | .error fault => .error fault
  | .ok next =>
      .ok { store.put token.index entry.settle with
        pending := store.pending.commit token.side next }

def recycle (token : Retirement) : Except Fault (Reuse × Store T) :=
  match store.commit token with
  | .error fault => .error fault
  | .ok store => .ok ((store.entries token.index).reuse, store)

/-! ## Echoes -/

/-- Consumes the bound retirement independently of the current descriptor owner. -/
def consume (token : Retirement) : Store T :=
  let entry := store.entries token.index
  { store.put token.index { entry with inflight := false, side := .zero, bound := false } with
    inflight := (store.inflight + (2 ^ 32 - 1)) % 2 ^ 32 }

/-- The retirement that had to wait is queued. -/
def promote (token : Retirement) : Store T :=
  let entry := store.entries token.index
  if entry.phase = .pending then store.queue token.index entry else store

def retry (token : Retirement) : Store T :=
  let store := store.consume token
  let entry := store.entries token.index
  let store := if entry.isCurrent token.generation then
      store.put token.index (entry.setPhase .pending)
    else store
  store.promote token

def finish (token : Retirement) : Store T :=
  let store := store.consume token
  let entry := store.entries token.index
  let store := if entry.isCurrent token.generation then store.put token.index entry.settle
    else store
  store.promote token

def finishReuse (token : Retirement) : Reuse × Store T :=
  let store := store.consume token
  let store := store.put token.index (store.entries token.index).settle
  ((store.entries token.index).reuse, store)

end Store

end Dope.Core.Fd
