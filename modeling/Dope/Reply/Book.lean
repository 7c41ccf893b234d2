import Dope.Base.Cycle
import Dope.Reply.Credit

/-! # The reply book

Model of `reply/arena/state`: the entry slots, the two rings of lanes, and the
operations that move entry credit. What a reply carries, its place in the order
of its lane and the waiters for payload are left out: whether the payload of an
entry still drains, and whether its owners are empty, comes as an argument. So
does the answer of the slot store, which lies outside the repository.
-/

namespace Dope.Reply

open Run

/-- `EntryBody` -/
inductive Body where
  | attached
  | draining
  | drained
deriving DecidableEq, Repr

structure Entry (n : Nat) where
  lane : Fin n
  body : Body
deriving DecidableEq, Repr

/-! ## The rings -/

/-- Ring `0` holds the active lanes, ring `1` those that may use their reserve. -/
structure Queues (n : Nat) where
  heads : Fin 2 → List (Fin n)

namespace Queues

variable {n : Nat} (queues : Queues n)

def start (n : Nat) : Queues n := ⟨fun _ => []⟩

def setHead (N : Fin 2) (ring : List (Fin n)) : Queues n :=
  ⟨Function.update queues.heads N ring⟩

def isLinked (N : Fin 2) (member : Fin n) : Bool := member ∈ queues.heads N

def insert (N : Fin 2) (member : Fin n) : Bool × Queues n :=
  if queues.isLinked N member then (false, queues)
  else (true, queues.setHead N (Cycle.push (queues.heads N) member))

def remove (N : Fin 2) (member : Fin n) : Queues n :=
  if queues.isLinked N member then queues.setHead N (Cycle.unlink (queues.heads N) member)
  else queues

def deactivate (lane : Fin n) : Queues n := (queues.remove 0 lane).remove 1 lane

def contains (lane : Fin n) : Bool := queues.isLinked 0 lane

def reserve (lane : Fin n) : Queues n := (queues.insert 1 lane).2

def next (N : Fin 2) : Option (Fin n) × Queues n :=
  let (head, ring) := Cycle.next (queues.heads N)
  (head, queues.setHead N ring)

end Queues

/-! ## The book -/

/-- `attach::Error` -/
inductive Attach (n : Nat) where
  | identityExhausted
  | oversized (requested capacity : Nat)
  | full (len capacity : Nat)
  | capacity (lane : Fin n) (cause : Cause 2)
deriving DecidableEq, Repr

/-- `slab::Vacancy` -/
inductive Vacancy where
  | full
  | identityExhausted
deriving DecidableEq, Repr

/-- `Registration`: whether a lane could take one more entry. -/
inductive Registration where
  | available
  | full
  | identityExhausted
deriving DecidableEq, Repr

/-- The book of an arena of `n` lanes and `m` entries, with the pool beside it. -/
structure Arena (credit : FairCredit) (n m : Nat) where
  slots : Fin m → Option (Entry n)
  order : Queues n
  pool : Pool credit n

namespace Arena

variable {credit : FairCredit} {n m : Nat}

def start (credit : FairCredit) (n m : Nat) (plan : Plan 1) : Arena credit n m :=
  ⟨fun _ => none, Queues.start n, Pool.start credit n plan⟩

variable (arena : Arena credit n m)

def len : Nat := (List.finRange m).countP fun i => (arena.slots i).isSome

def activate (lane : Fin n) : Arena credit n m :=
  let (inserted, order) := arena.order.insert 0 lane
  if inserted then
    if arena.pool.hasReserve lane then { arena with order := order.reserve lane }
    else { arena with order := order }
  else arena

def deactivate (lane : Fin n) : Arena credit n m :=
  { arena with order := arena.order.deactivate lane }

def pickActive : Option (Fin n) × Arena credit n m :=
  if arena.pool.shared ≠ 0 then
    let (lane, order) := arena.order.next 0
    (lane, { arena with order := order })
  else
    let (lane, order) := arena.order.next 1
    (lane, { arena with order := order })

/-! ## Registration -/

/-- `registration`: `isFull` and `isExhausted` are the store's. -/
def registration (isFull isExhausted : Bool) (lane : Fin n) : Registration :=
  if isFull then
    if isExhausted then .identityExhausted else .full
  else if arena.pool.canAdmit lane 1 then .available
  else .full

/-- `publish`: the vacancy is one of the store's. -/
def publish (lane : Fin n) (vacant : Fin m) : Except Fault (Arena credit n m) :=
  match arena.slots vacant with
  | some _ => .error .occupied
  | none => .ok { arena with slots := Function.update arena.slots vacant (some ⟨lane, .attached⟩) }

/-- The reserve ring after a registration. -/
def settle (lane : Fin n) : Arena credit n m :=
  if arena.pool.hasReserve lane then arena
  else { arena with order := arena.order.remove 1 lane }

def insert (lane : Fin n) (vacancy : Except Vacancy (Fin m)) :
    Except Fault (Except (Attach n) (Fin m) × Arena credit n m) :=
  match vacancy with
  | .error .full => .ok (.error (.full arena.len m), arena)
  | .error .identityExhausted => .ok (.error .identityExhausted, arena)
  | .ok vacant =>
      match arena.pool.register lane 1 with
      | .error cause => .ok (.error (.capacity lane cause), arena)
      | .ok pool => do
          let arena := { arena with pool := pool }
          let arena ← arena.settle lane |>.publish lane vacant
          return (.ok vacant, arena)

def publishAll (lane : Fin n) : List (Fin m) → Arena credit n m → Except Fault (Arena credit n m)
  | [], arena => .ok arena
  | vacant :: rest, arena => do
      let arena ← arena.publish lane vacant
      publishAll lane rest arena

/-- `group_with` of `commands` entries and a terminal one: `remaining` and `free`
are the store's. -/
def groupWith (lane : Fin n) (commands remaining : Nat) (free : List (Fin m)) :
    Except Fault (Except (Attach n) (List (Fin m) × Fin m) × Arena credit n m) := do
  let needed := commands + 1
  let capacity ← Plan.entryLimit m n
  if capacity < needed then return (.error (.oversized needed capacity), arena)
  if remaining < needed then return (.error .identityExhausted, arena)
  match free with
  | [] => return (.error (.full arena.len m), arena)
  | terminal :: free =>
      let storage := free.take commands
      if storage.length < commands then return (.error (.full arena.len m), arena)
      match arena.pool.register lane needed with
      | .error cause => return (.error (.capacity lane cause), arena)
      | .ok pool =>
          let arena := { arena with pool := pool }
          let arena ← publishAll lane storage (arena.settle lane)
          let arena ← arena.publish lane terminal
          return (.ok (storage, terminal), arena)

/-! ## Release -/

/-- `retire::Advance` -/
inductive Advance (n : Nat) where
  | draining
  | complete (lane : Option (Fin n))
deriving DecidableEq, Repr

/-- `Book::release` -/
def release (lane : Fin n) (release : Release) : Arena credit n m :=
  if release = .reserved ∧ arena.order.contains lane then
    { arena with order := arena.order.reserve lane }
  else arena

/-- The entry leaves its slot, and its unit goes back to its lane. -/
def unbind (index : Fin m) (lane : Fin n) : Except Fault (Arena credit n m) := do
  let arena := { arena with slots := Function.update arena.slots index none }
  let (release, pool) ← arena.pool.releaseSlot lane
  return { arena with pool := pool }.release lane release

def setBody (index : Fin m) (lane : Fin n) (body : Body) : Arena credit n m :=
  { arena with slots := Function.update arena.slots index (some ⟨lane, body⟩) }

/-- `retire`: `dropped` tells that a value of the entry was dropped, and
`isEmpty` that its owners are empty after the last. -/
def retire (index : Fin m) (dropped isEmpty : Bool) :
    Except Fault (Advance n × Arena credit n m) :=
  match arena.slots index with
  | none => .error .vacant
  | some ⟨lane, .drained⟩ => do
      let arena ← arena.unbind index lane
      return (.complete (some lane), arena)
  | some ⟨lane, _⟩ =>
      if dropped then .ok (.draining, arena.setBody index lane .draining)
      else
        let arena := arena.setBody index lane .drained
        if isEmpty then do
          let arena ← arena.unbind index lane
          return (.complete (some lane), arena)
        else .ok (.complete none, arena)

/-- `retained`: the last retained value of the entry came back. -/
def retained (index : Fin m) (isEmpty : Bool) :
    Except Fault (Option (Fin n) × Arena credit n m) :=
  match arena.slots index with
  | none => .error .vacant
  | some entry =>
      if entry.body ≠ .drained ∨ isEmpty = false then .ok (none, arena)
      else do
        let arena ← arena.unbind index entry.lane
        return (some entry.lane, arena)

end Arena

/-! ## Inputs -/

inductive Input (n m : Nat) where
  | activate (lane : Fin n)
  | deactivate (lane : Fin n)
  | pick
  | registration (isFull isExhausted : Bool) (lane : Fin n)
  | insert (lane : Fin n) (vacancy : Except Vacancy (Fin m))
  | group (lane : Fin n) (commands remaining : Nat) (free : List (Fin m))
  | retire (index : Fin m) (dropped isEmpty : Bool)
  | retained (index : Fin m) (isEmpty : Bool)

inductive Output (n m : Nat) where
  | done
  | picked (lane : Option (Fin n))
  | registration (answer : Registration)
  | inserted (result : Except (Attach n) (Fin m))
  | grouped (result : Except (Attach n) (List (Fin m) × Fin m))
  | retired (advance : Arena.Advance n)
  | retained (lane : Option (Fin n))

namespace Arena

variable {credit : FairCredit} {n m : Nat}

def step (arena : Arena credit n m) : Input n m → Except Fault (Output n m × Arena credit n m)
  | .activate lane => .ok (.done, arena.activate lane)
  | .deactivate lane => .ok (.done, arena.deactivate lane)
  | .pick => .ok (.picked arena.pickActive.1, arena.pickActive.2)
  | .registration isFull isExhausted lane =>
      .ok (.registration (arena.registration isFull isExhausted lane), arena)
  | .insert lane vacancy => do
      let (result, arena) ← arena.insert lane vacancy
      return (.inserted result, arena)
  | .group lane commands remaining free => do
      let (result, arena) ← arena.groupWith lane commands remaining free
      return (.grouped result, arena)
  | .retire index dropped isEmpty => do
      let (advance, arena) ← arena.retire index dropped isEmpty
      return (.retired advance, arena)
  | .retained index isEmpty => do
      let (lane, arena) ← arena.retained index isEmpty
      return (.retained lane, arena)

/-- The store answers with vacant slots, each once. An entry is retired or handed
back on the word of its owner, which keeps it in its slot. -/
def Allowed (arena : Arena credit n m) : Input n m → Prop
  | .insert _ vacancy => ∀ vacant, vacancy = .ok vacant → arena.slots vacant = none
  | .group _ commands _ free =>
      0 < commands ∧ free.Nodup ∧ ∀ vacant ∈ free, arena.slots vacant = none
  | .retire index _ _ => arena.slots index ≠ none
  | .retained index _ => arena.slots index ≠ none
  | .activate _ | .deactivate _ | .pick | .registration .. => True

end Arena

/-- The runs of the arena of a layout. -/
def machine (credit : FairCredit) (layout : Layout) :
    Machine (Arena credit layout.lanes layout.entries) (Input layout.lanes layout.entries)
      (Output layout.lanes layout.entries) Fault where
  start arena := arena = .start credit layout.lanes layout.entries layout.admission
  allowed := Arena.Allowed
  step := Arena.step

end Dope.Reply
