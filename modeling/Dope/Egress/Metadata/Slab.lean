import Dope.Base.Run
import Dope.Base.Share
import Dope.Base.Stack
import Dope.Egress.Metadata.Account

/-! # Metadata nodes

Model of `metadata/pool/store` and `metadata/lane`. The nodes of a pool are
threaded through one link each: the vacant ones on the free list, the published
ones on the chain of their lane, and those of a batch on a chain of its own. A
chain keeps its two ends. Reading a value or a credit that is not there faults.
-/

namespace Dope.Egress.Metadata

open Wait Function Run

/-! ## Payloads -/

/-- The measured size of a payload. -/
structure Charge where
  wire : Nat
  resident : Nat
deriving DecidableEq, Repr

/-- Why a payload has no geometry. -/
inductive Load.Error where
  | empty
  | transfer (actual : Nat)
  | resident (actual : Nat)
deriving DecidableEq, Repr

structure Load (T : Type) where
  value : T
  charge : Charge
deriving DecidableEq, Repr

/-- A load of at least one byte. -/
structure NonEmpty (T : Type) where
  value : T
  len : Nat
  resident : Nat
  pos : 0 < len
deriving Repr

namespace NonEmpty

variable {T : Type}

theorem eq_iff {a b : NonEmpty T} :
    a.value = b.value ∧ a.len = b.len ∧ a.resident = b.resident ↔ a = b := by
  cases a
  cases b
  simp only [NonEmpty.mk.injEq]

instance [DecidableEq T] : DecidableEq (NonEmpty T) := fun _ _ => decidable_of_iff _ eq_iff

def charge (load : NonEmpty T) : Charge := ⟨load.len, load.resident⟩

/-- The credit of one entry. -/
def amount (load : NonEmpty T) : Amount := ⟨1, load.resident⟩

end NonEmpty

/-- `try_geometry` and `try_nonempty`; `maxBytes` bounds a transfer. -/
def Load.tryNonempty {T : Type} (maxBytes : Nat) (load : Load T) :
    Except Load.Error (NonEmpty T) :=
  if maxBytes < load.charge.wire then .error (.transfer load.charge.wire)
  else if 2 ^ 32 ≤ load.charge.resident then .error (.resident load.charge.resident)
  else if pos : 0 < load.charge.wire then
    .ok ⟨load.value, load.charge.wire, load.charge.resident, pos⟩
  else .error .empty

/-- The credit of an entry, with the bytes it has left to send. -/
structure Stored where
  bytes : Nat
  resident : Nat
deriving DecidableEq, Repr

/-- `into_grant` -/
def Stored.amount (stored : Stored) : Amount := ⟨1, stored.resident⟩

/-! ## Nodes -/

structure Cell (T : Type) where
  value : Option (NonEmpty T)
  entry : Option Stored
  next : Option Nat
  occupied : Bool

inductive Fault where
  /-- A value or a credit that is not initialized is read. -/
  | uninit
  /-- A walk is longer than the slab. -/
  | walk
deriving DecidableEq, Repr

structure Slab (T : Type) where
  cells : Nat → Cell T
  len : Nat
  free : Option Nat

/-- The two ends of a chain. -/
structure Ends where
  head : Option Nat
  tail : Option Nat
deriving DecidableEq, Repr

namespace Ends

def empty : Ends := ⟨none, none⟩

/-- The element before the pushed one, and the chain with it. -/
def pushBack (ends : Ends) (slot : Nat) : Option Nat × Ends :=
  (ends.tail, ⟨some (ends.head.getD slot), some slot⟩)

/-- The front leaves, and `next` follows it. -/
def pop (ends : Ends) (next : Option Nat) : Ends :=
  ⟨next, if next = none then none else ends.tail⟩

end Ends

namespace Slab

variable {T : Type}

def new (len : Nat) : Slab T where
  cells i := ⟨none, none, if i + 1 < len then some (i + 1) else none, false⟩
  len := len
  free := if len ≠ 0 then some 0 else none

def setCell (slab : Slab T) (i : Nat) (cell : Cell T) : Slab T :=
  { slab with cells := update slab.cells i cell }

def next (slab : Slab T) (i : Nat) : Option Nat := (slab.cells i).next

def setNext (slab : Slab T) (i : Nat) (next : Option Nat) : Slab T :=
  slab.setCell i { slab.cells i with next := next }

/-! ## The free list -/

def vacancy (slab : Slab T) : Option Nat := slab.free

/-- `Vacancy::reserve`: the front is popped. -/
def reserve (slab : Slab T) (front : Nat) : Slab T := { slab with free := slab.next front }

/-- `Reservation::pair` -/
def pair (slab : Slab T) (front : Nat) : Option Nat := slab.next front

/-- `Pair::reserve`: the front and its successor are popped. -/
def reservePair (slab : Slab T) (second : Nat) : Slab T := { slab with free := slab.next second }

def recycle (slab : Slab T) (slot : Nat) : Slab T :=
  { slab.setNext slot slab.free with free := some slot }

/-! ## Values and chains -/

def write (slab : Slab T) (slot : Nat) (value : NonEmpty T) (entry : Stored) : Slab T :=
  slab.setCell slot { slab.cells slot with
    value := some value
    entry := some entry
    occupied := true }

/-- The two links that a push at the back sets. -/
def join (slab : Slab T) (prev : Option Nat) (slot : Nat) : Slab T :=
  let slab := slab.setNext slot none
  match prev with
  | none => slab
  | some prev => slab.setNext prev (some slot)

def append (slab : Slab T) (chain : Ends) (slot : Nat) : Slab T × Ends :=
  let (prev, chain) := chain.pushBack slot
  (slab.join prev slot, chain)

/-- The value and the credit of a node leave it; the value is still there when
the node is consumed, and dropped when it is discarded. -/
def detach (slab : Slab T) (slot : Nat) :
    Except Fault (Option Nat × NonEmpty T × Stored × Slab T) :=
  let cell := slab.cells slot
  match cell.value, cell.entry with
  | some value, some entry =>
      .ok (cell.next, value, entry,
        slab.setCell slot { cell with value := none, entry := none, occupied := false })
  | _, _ => .error .uninit

/-- The front of a chain is dropped, and its node is vacant again. -/
def discard (slab : Slab T) (chain : Ends) : Except Fault (Option Stored × Slab T × Ends) :=
  match chain.head with
  | none => .ok (none, slab, chain)
  | some slot => do
      let (next, _, stored, slab) ← slab.detach slot
      .ok (some stored, slab.recycle slot, chain.pop next)

end Slab

/-! ## The pool -/

/-- Why a lane got no credit or no node. -/
inductive Admission (n : Nat) where
  | busy (lane : Fin n) (requested : Amount)
  | queued (lane : Fin n) (requested demand : Amount)
  | credit (lane : Fin n) (requested : Amount)
  | storage (lane : Fin n) (requested : Amount) (available : Nat)
deriving DecidableEq, Repr

/-- `credit::Access`: what a mode keeps beside the account. -/
structure Access (credit : HeldCredit) (n : Nat) where
  State : Type
  tryAcquire : State → Account credit n → Fin n → Amount → Except (Admission n) (Account credit n)
  /-- What follows when a grant went back. -/
  released : State → Account credit n → Fin n → State
  acquired : ∀ state account lane amount account',
    tryAcquire state account lane amount = .ok account' →
    account.demand lane amount ≤ account.shared ∧ account' = account.acquire lane amount

section
variable {credit : HeldCredit} {n : Nat}

def Lane.tryCharge (account : Account credit n) (lane : Fin n) (amount : Amount) :
    Except (Admission n) (Account credit n) :=
  match account.charge lane amount with
  | some account => .ok account
  | none => .error (.credit lane amount)

theorem Lane.tryCharge_acquired {account account' : Account credit n} {lane : Fin n}
    {amount : Amount} (h : tryCharge account lane amount = .ok account') :
    account.demand lane amount ≤ account.shared ∧ account' = account.acquire lane amount := by
  unfold tryCharge at h
  split at h
  · rename_i next charged
    cases h
    exact account.charge_some lane charged
  · cases h

/-- `metadata::Local` -/
def Access.local_ (credit : HeldCredit) (n : Nat) : Access credit n where
  State := Unit
  tryAcquire _ account lane amount := Lane.tryCharge account lane amount
  released _ _ _ := ()
  acquired _ _ _ _ _ h := Lane.tryCharge_acquired h

/-- The queue of the lanes that wait for credit. -/
structure WaitQueue (credit : HeldCredit) (n : Nat) where
  State : Type
  isBusy : State → Fin n → Bool
  hasWaiting : State → Bool
  refresh : State → Account credit n → Fin n → State

namespace Ready

variable (wait : WaitQueue credit n)

def tryAcquire (state : wait.State) (account : Account credit n) (lane : Fin n) (amount : Amount) :
    Except (Admission n) (Account credit n) :=
  if wait.isBusy state lane then .error (.busy lane amount)
  else if wait.hasWaiting state then
    let demand := account.demand lane amount
    if demand ≠ Amount.zero then .error (.queued lane amount demand)
    else .ok (account.acquire lane amount)
  else Lane.tryCharge account lane amount

end Ready

/-- `credit::Ready`: the wait queue, and whether maintenance is pending. -/
def Access.ready (wait : WaitQueue credit n) : Access credit n where
  State := wait.State × Bool
  tryAcquire state account lane amount := Ready.tryAcquire wait state.1 account lane amount
  released state account lane :=
    let queue := wait.refresh state.1 account lane
    (queue, wait.hasWaiting queue)
  acquired := by
    intro state account lane amount account' h
    unfold Ready.tryAcquire at h
    split at h
    · cases h
    · split at h
      · dsimp only at h
        split at h
        · cases h
        · rename_i zero
          cases h
          rw [ne_eq, Decidable.not_not] at zero
          rw [zero]
          exact ⟨Amount.zero_le _, rfl⟩
      · exact Lane.tryCharge_acquired h

end

structure Pool {credit : HeldCredit} {n : Nat} (access : Access credit n) (T : Type) where
  slab : Slab T
  links : Fin n → Ends
  account : Account credit n
  wait : access.State

namespace Pool

variable {credit : HeldCredit} {n : Nat} {access : Access credit n} {T : Type}

/-- `Lane::try_acquire` -/
def tryAcquire (pool : Pool access T) (lane : Fin n) (amount : Amount) :
    Except (Admission n) (Pool access T) :=
  match access.tryAcquire pool.wait pool.account lane amount with
  | .error cause => .error cause
  | .ok account => .ok { pool with account := account }

/-- `Lane::release` -/
def release (pool : Pool access T) (lane : Fin n) (grant : Amount) : Pool access T :=
  let account := pool.account.release lane grant
  { pool with account := account, wait := access.released pool.wait account lane }

/-- `commit`: the node is written and pushed to the lane. -/
def commit (pool : Pool access T) (lane : Fin n) (index : Nat) (value : NonEmpty T)
    (stored : Stored) : Pool access T :=
  let (prev, ends) := (pool.links lane).pushBack index
  let slab := (pool.slab.write index value stored).join prev index
  { pool with slab := slab, links := update pool.links lane ends }

end Pool

end Dope.Egress.Metadata
