import Mathlib.Logic.Function.Basic
import Dope.Base.Run
import Dope.Core.Ready.Arena.Words

/-! # Owned ready queues

Model of `task/storage/fixed/schedule/ready/owned`. The tasks of a queue belong to
owners. Each owner has a lane with a chain of runnable tasks, and a ring holds the
lanes whose chains are not empty. Tasks that are woken report to the slot of a
topology, from which the queue moves them into their lanes.
-/

namespace Dope.Tasks

open Function

open Core.Ready.Arena (Lane)

/-! ## Reports -/

/-- The two lanes of a topology, as lists of the reported tasks. -/
structure Endpoint where
  lanes : Lane → List Nat
  active : Lane
  paused : Option Lane

inductive Activation where
  | queued
  | coalesced
deriving DecidableEq, Repr

namespace Endpoint

def new : Endpoint := ⟨fun _ => [], .first, none⟩

variable (endpoint : Endpoint)

/-- The reported tasks. -/
def list : List Nat := endpoint.lanes .first ++ endpoint.lanes .second

def isEmpty : Bool := (endpoint.lanes .first).isEmpty && (endpoint.lanes .second).isEmpty

/-- The lane a task is queued on. -/
def queued (index : Nat) : Option Lane :=
  if index ∈ endpoint.lanes .first then some .first
  else if index ∈ endpoint.lanes .second then some .second
  else none

def push (index : Nat) (side : Lane) : Endpoint :=
  { endpoint with
    lanes := update endpoint.lanes side (endpoint.lanes side ++ [index]) }

def remove (index : Nat) (side : Lane) : Endpoint :=
  let rest := (endpoint.lanes side).erase index
  let endpoint := { endpoint with lanes := update endpoint.lanes side rest }
  if rest = [] ∧ endpoint.paused = some side then { endpoint with paused := none } else endpoint

def activate (index : Nat) : Activation × Endpoint :=
  match endpoint.queued index with
  | some _ => (.coalesced, endpoint)
  | none => (.queued, endpoint.push index endpoint.active)

/-- The attachment of a task ends. -/
def leave (index : Nat) : Endpoint :=
  match endpoint.queued index with
  | some side => endpoint.remove index side
  | none => endpoint

def begin : Option Lane × Endpoint :=
  match endpoint.paused with
  | some side => if endpoint.lanes side = [] then start endpoint else (some side, endpoint)
  | none => start endpoint
where
  start (endpoint : Endpoint) : Option Lane × Endpoint :=
    let side := endpoint.active
    if endpoint.lanes side = [] then (none, endpoint)
    else (some side, { endpoint with active := side.flip, paused := some side })

def peek : Option Nat :=
  match endpoint.paused.bind fun side => (endpoint.lanes side).head? with
  | some index => some index
  | none => (endpoint.lanes endpoint.active).head?

/-- Begin a drain, take one task, and pause. -/
def pop : Option Nat × Endpoint :=
  match endpoint.begin with
  | (none, endpoint) => (none, endpoint)
  | (some side, endpoint) =>
      match endpoint.lanes side with
      | [] => (none, endpoint)
      | index :: _ => (some index, endpoint.remove index side)

end Endpoint

/-- The endpoint is made with the first attachment. -/
abbrev Slot := Option Endpoint

inductive TaskError where
  | capacity (requested available : Nat)
deriving DecidableEq, Repr

namespace Slot

variable (slot : Slot)

def list : List Nat := slot.elim [] Endpoint.list

def isEmpty : Bool := slot.elim true Endpoint.isEmpty

def peek : Option Nat := slot.bind Endpoint.peek

def pop : Option Nat × Slot :=
  match slot with
  | none => (none, none)
  | some endpoint => (endpoint.pop.1, some endpoint.pop.2)

/-- `room` is what the driver answers when it is asked for a topology. -/
def tryAttach (room : Except Nat Unit) : Except TaskError Slot :=
  match slot, room with
  | some endpoint, _ => .ok (some endpoint)
  | none, .ok () => .ok (some .new)
  | none, .error available => .error (.capacity 1 available)

end Slot

/-! ## Owners and tasks -/

/-- What the links of a task say. -/
inductive Hook where
  | parked
  | linked
  | idle
deriving DecidableEq, Repr

structure Node where
  hook : Hook
  lane : Nat
deriving DecidableEq, Repr

variable {G : Type}

/-- The identity of an owner: a lane, and a generation of its owner. -/
structure OwnerId (G : Type) where
  lane : Nat
  generation : G
deriving DecidableEq

structure Owner (G : Type) where
  generation : Option G
  bound : Nat
  chain : List Nat

theorem Owner.field_update {α : Type} (field : Owner G → α) {owners : Nat → Owner G} {lane : Nat}
    {owner : Owner G} (same : field owner = field (owners lane)) (l : Nat) :
    field (update owners lane owner l) = field (owners l) := by
  rw [apply_update (fun _ => field), same]
  exact congrFun (update_eq_self ..) l

inductive OwnerError (G : Type) where
  | foreign (owner : OwnerId G)
  | stale (owner : OwnerId G) (current : Option G)

inductive RetireError (G : Type) where
  | foreign (owner : OwnerId G)
  | stale (owner : OwnerId G) (current : Option G)
  | busy (owner : OwnerId G) (tasks : Nat)

def OwnerError.retire : OwnerError G → RetireError G
  | .foreign owner => .foreign owner
  | .stale owner current => .stale owner current

inductive Error (G : Type) where
  | task (cause : TaskError)
  | owner (cause : OwnerError G)

/-- Selects the work of one owner, or of any. -/
inductive Scope (G : Type) where
  | exact (owner : OwnerId G)
  | any

/-- What the unchecked accesses rely on. -/
inductive Fault where
  /-- a node that was never written -/
  | vacant
  /-- a task that is not in the chain it is taken from -/
  | unlinked
  /-- a task that is in a chain already -/
  | linked
  /-- a lane of the ring without a task -/
  | barren
  /-- one attachment less than none -/
  | unbound
  /-- a report to a topology that was never made -/
  | rootless
deriving DecidableEq, Repr

/-- The order of the ring after the first task of a lane was taken, which has more. -/
structure Rounds where
  turn : Nat → List Nat → List Nat
  perm : ∀ lane ring, lane ∈ ring → (turn lane ring).Perm ring

/-- A lane that has more goes to the back. -/
def Rounds.fair : Rounds where
  turn lane ring := ring.erase lane ++ [lane]
  perm lane ring member :=
    (List.perm_append_singleton lane (ring.erase lane)).trans (List.perm_cons_erase member).symm

structure Store (G : Type) where
  tasks : Nat
  lanes : Nat
  owners : Nat → Owner G
  nodes : Nat → Option Node
  /-- the ring of lanes with tasks -/
  first : List Nat

namespace Store

def new (tasks lanes : Nat) : Store G := ⟨tasks, lanes, fun _ => ⟨none, 0, []⟩, fun _ => none, []⟩

variable (store : Store G)

def get (lane : Nat) : Option (Owner G) :=
  if lane < store.lanes then some (store.owners lane) else none

def modify (lane : Nat) (f : Owner G → Owner G) : Store G :=
  { store with owners := update store.owners lane (f (store.owners lane)) }

def node (index : Nat) : Except Fault Node :=
  match store.nodes index with
  | some node => .ok node
  | none => .error .vacant

def setHook (index : Nat) (node : Node) (hook : Hook) : Store G :=
  { store with nodes := update store.nodes index (some { node with hook }) }

/-- Join a lane's chain at the back, and the lane the ring. -/
def enqueue (lane index : Nat) : Except Fault (Store G) := do
  let node ← store.node index
  if node.hook = .linked then .error .linked
  else
    let chain := (store.owners lane).chain
    let store := (store.setHook index node .linked).modify lane fun owner =>
      { owner with chain := chain ++ [index] }
    .ok { store with first := if chain = [] then store.first ++ [lane] else store.first }

/-- Leave a lane's chain, and park. -/
def remove (lane index : Nat) : Except Fault (Store G) := do
  let node ← store.node index
  if index ∉ (store.owners lane).chain then .error .unlinked
  else
    let rest := (store.owners lane).chain.erase index
    let store := (store.setHook index node .parked).modify lane fun owner =>
      { owner with chain := rest }
    .ok { store with first := if rest = [] then store.first.erase lane else store.first }

/-- Take the first task of a lane, and park it. -/
def head (rounds : Rounds) (lane index : Nat) : Except Fault (Store G) := do
  let node ← store.node index
  match (store.owners lane).chain with
  | [] => .error .unlinked
  | first :: rest =>
      if first ≠ index then .error .unlinked
      else
        let store := (store.setHook index node .parked).modify lane fun owner =>
          { owner with chain := rest }
        .ok { store with
          first := if rest = [] then store.first.erase lane else rounds.turn lane store.first }

def rest (index : Nat) : Except Fault (Store G) := do
  let node ← store.node index
  if node.hook = .linked then .error .linked else .ok (store.setHook index node .idle)

/-- One attachment to a lane less. -/
def release (lane : Nat) : Except Fault (Store G) :=
  if (store.owners lane).bound = 0 then .error .unbound
  else .ok (store.modify lane fun owner => { owner with bound := owner.bound - 1 })

def detach (lane index : Nat) : Except Fault (Store G) := do
  let store ← store.rest index
  store.release lane

end Store

structure Queue (G : Type) where
  store : Store G
  slot : Slot

/-- A task in its lane. -/
structure Entry where
  index : Nat
  lane : Nat
deriving DecidableEq, Repr

inductive Front where
  | ready (entry : Entry)
  | pending
deriving DecidableEq, Repr

inductive Wake where
  | ready
  | pending
  | idle
deriving DecidableEq, Repr

inductive Next where
  | item (dequeued : Option Entry) (moved : Option Nat)
  | exhausted (index : Nat)
  | empty
deriving DecidableEq, Repr

namespace Queue

variable [DecidableEq G] (queue : Queue G)

/-- The state of the lane of an owner of its current generation. -/
def current (owner : OwnerId G) : Except (OwnerError G) (Owner G) :=
  match queue.store.get owner.lane with
  | none => .error (.foreign owner)
  | some state =>
      if state.generation ≠ some owner.generation then .error (.stale owner state.generation)
      else .ok state

def setGeneration (lane : Nat) (generation : Option G) : Queue G :=
  { queue with store := queue.store.modify lane fun owner => { owner with generation } }

def bindState (owner : OwnerId G) : Except (OwnerError G) Unit × Queue G :=
  match (queue.store.owners owner.lane).generation with
  | none => (.ok (), queue.setGeneration owner.lane (some owner.generation))
  | some current =>
      if current = owner.generation then (.ok (), queue)
      else (.error (.stale owner (some current)), queue)

def register (owner : OwnerId G) : Except (OwnerError G) Unit × Queue G :=
  match queue.store.get owner.lane with
  | none => (.error (.foreign owner), queue)
  | some _ => queue.bindState owner

/-- One attachment to a lane more. -/
def reserve (lane : Nat) : Queue G :=
  { queue with store := queue.store.modify lane fun owner =>
    { owner with bound := owner.bound + 1 } }

def rebind (owner : OwnerId G) : Except (OwnerError G) Unit × Queue G :=
  match queue.store.get owner.lane with
  | none => (.error (.foreign owner), queue)
  | some state =>
      if state.bound = 0 then
        (.ok (), (queue.setGeneration owner.lane (some owner.generation)).reserve owner.lane)
      else
        match queue.bindState owner with
        | (.error cause, queue) => (.error cause, queue)
        | (.ok (), queue) => (.ok (), queue.reserve owner.lane)

def tryRetire (owner : OwnerId G) : Except (RetireError G) Unit × Queue G :=
  match queue.current owner with
  | .error cause => (.error cause.retire, queue)
  | .ok state =>
      if state.bound = 0 then (.ok (), queue.setGeneration owner.lane none)
      else (.error (.busy owner state.bound), queue)

/-- A reservation is given a task, which is attached to the topology. -/
def attachSlot (index : Nat) (room : Except Nat Unit) : Except TaskError (Queue G) :=
  if queue.store.tasks ≤ index then .error (.capacity 1 0)
  else
    match queue.slot.tryAttach room with
    | .error cause => .error cause
    | .ok slot => .ok { queue with slot }

def dropPrepared (lane : Nat) : Except Fault (Queue G) := do
  let store ← queue.store.release lane
  .ok { queue with store }

/-- `Prepared::try_prepare`, with the reservation dropped on an error. -/
def prepare (lane index : Nat) (room : Except Nat Unit) :
    Except Fault (Except TaskError Unit × Queue G) :=
  match queue.attachSlot index room with
  | .ok queue => .ok (.ok (), queue)
  | .error cause => do
      let queue ← queue.dropPrepared lane
      .ok (.error cause, queue)

def tryPrepare (index : Nat) (owner : OwnerId G) (room : Except Nat Unit) :
    Except Fault (Except (Error G) Unit × Queue G) :=
  match queue.current owner with
  | .error cause => .ok (.error (.owner cause), queue)
  | .ok _ => do
      let (answer, queue) ← (queue.reserve owner.lane).prepare owner.lane index room
      .ok (answer.mapError .task, queue)

/-- The reservation becomes the parked task's. -/
def attach (lane index : Nat) : Queue G :=
  { queue with store :=
    { queue.store with nodes := update queue.store.nodes index (some ⟨.parked, lane⟩) } }

/-- The task in its lane, and whether it is linked there. -/
def resident (index : Nat) : Except Fault (Entry × Bool) := do
  let node ← queue.store.node index
  .ok (⟨index, node.lane⟩, node.hook = .linked)

def enqueue (entry : Entry) : Except Fault (Queue G) := do
  let store ← queue.store.enqueue entry.lane entry.index
  .ok { queue with store }

def idle (entry : Entry) : Except Fault (Queue G) := do
  let store ← queue.store.rest entry.index
  .ok { queue with store }

def detach (entry : Entry) : Except Fault (Queue G) := do
  let store ← queue.store.detach entry.lane entry.index
  .ok { queue with store }

/-- `raw::detach`: from the chain, or from rest. -/
def detachIndex (index : Nat) : Except Fault (Queue G) := do
  let (entry, linked) ← queue.resident index
  if linked then
    let store ← queue.store.remove entry.lane entry.index
    { queue with store }.detach entry
  else queue.detach entry

/-- Move one report into its lane. -/
def sync : Except Fault (Option Entry × Queue G) :=
  match queue.slot.pop with
  | (none, slot) => .ok (none, { queue with slot })
  | (some index, slot) => do
      let queue := { queue with slot }
      let (entry, linked) ← queue.resident index
      if linked then .ok (some entry, queue)
      else
        let queue ← queue.enqueue entry
        .ok (some entry, queue)

def frontEntry (scope : Scope G) : Except Fault (Option Front) := do
  let pending : Option Front := if queue.slot.isEmpty then none else some .pending
  match scope with
  | .exact owner =>
      match queue.store.get owner.lane with
      | none => .ok none
      | some state =>
          if state.generation ≠ some owner.generation then .ok none
          else
            match state.chain.head? with
            | some index => .ok (some (.ready ⟨index, owner.lane⟩))
            | none => .ok pending
  | .any =>
      match queue.store.first.head? with
      | none => .ok pending
      | some lane =>
          match (queue.store.owners lane).chain.head? with
          | some index => .ok (some (.ready ⟨index, lane⟩))
          | none => .error .barren

def readiness (scope : Scope G) : Except Fault Wake := do
  match ← queue.frontEntry scope with
  | some (.ready _) => .ok .ready
  | some .pending => .ok .pending
  | none => .ok .idle

def front (scope : Scope G) : Except Fault (Option (Nat × Wake)) := do
  match ← queue.frontEntry scope with
  | none => .ok none
  | some (.ready entry) => .ok (some (entry.index, .ready))
  | some .pending => .ok (queue.slot.peek.map fun index => (index, .pending))

def take (rounds : Rounds) (entry : Entry) : Except Fault (Queue G) := do
  let store ← queue.store.head rounds entry.lane entry.index
  .ok { queue with store }

def dequeue (rounds : Rounds) (scope : Scope G) : Except Fault (Option Entry × Queue G) := do
  match ← queue.frontEntry scope with
  | some (.ready entry) =>
      let queue ← queue.take rounds entry
      .ok (some entry, queue)
  | some .pending => .ok (none, queue)
  | none => .ok (none, queue)

def next (rounds : Rounds) (scope : Scope G) (permit : Bool) :
    Except Fault (Next × Queue G) := do
  match ← queue.frontEntry scope with
  | none => .ok (.empty, queue)
  | some front =>
      if permit then
        let (synced, queue) ← queue.sync
        let (dequeued, queue) ← match front with
          | .ready entry => do
              let queue ← queue.take rounds entry
              pure (some entry, queue)
          | .pending => queue.dequeue rounds scope
        let moved := (synced.map Entry.index).filter fun index =>
          dequeued.all fun entry => entry.index ≠ index
        .ok (.item dequeued moved, queue)
      else
        match front with
        | .ready entry => .ok (.exhausted entry.index, queue)
        | .pending => .ok (queue.slot.peek.elim .empty .exhausted, queue)

end Queue

end Dope.Tasks
