import Dope.Core.Ready.Arena.Pool
import Dope.Core.Ready.Log

/-! # The arena and what is held of it

Model of `driver/schedule/ready/arena` and of the owners of its slots: ready
slots, task admissions and bindings, domains with their leases, and topologies
with their drains. An owner is used up by the operation that takes it. Owners
that are leaked stay in the lists for ever.
-/

set_option linter.dupNamespace false

namespace Dope.Core.Ready.Arena

structure Arena (S G : Type) where
  layout : Layout
  ready : Set S
  slots : Slots G
  pool : Pool

inductive Entry where
  | dispatch (index : Nat)
  | task (index : Nat)
deriving DecidableEq, Repr

inductive TaskError where
  | parentStale
  | wakeHopCeiling (minimum maximum : Nat)
  | capacity (requested available : Nat)
deriving DecidableEq, Repr

def maxWakeHops : Nat := 16

namespace Arena

variable {S G : Type} [DecidableEq G] (epochs : Epochs G)

/-- The entry a key names in its own generation. `live` says which descriptors
have a target in theirs. -/
def resolve (live : Nat → G → Bool) (arena : Arena S G) (key : Key G) : Option Entry :=
  if key.index < arena.layout.descriptors then
    if live key.index key.epoch then some (.dispatch key.index) else none
  else if arena.layout.capacity.raw ≤ key.index then none
  else
    let resident := arena.slots key.index
    if resident.generation ≠ key.epoch then none
    else
      match resident.kind with
      | .dispatch => some (.dispatch key.index)
      | .task => some (.task key.index)
      | .free | .reserved | .topology | .retired => none

def tryIndex (live : Nat → G → Bool) (arena : Arena S G) (key : Key G) : Option Nat :=
  match arena.resolve live key with
  | some (.dispatch index) => some index
  | some (.task _) | none => none

/-- Follow the parents of a task, at most `hops` of them. -/
def validate (live : Nat → G → Bool) (arena : Arena S G) (maximum : Nat) :
    Nat → Key G → Except TaskError Unit
  | hops, key =>
      match arena.resolve live key with
      | none => .error .parentStale
      | some (.dispatch _) => .ok ()
      | some (.task index) =>
          match hops with
          | 0 => .error (.wakeHopCeiling (maximum + 1) maximum)
          | hops + 1 =>
              validate live arena maximum hops ((arena.slots index).record epochs).parent

end Arena

/-- A drain of a topology, with the tasks that were activated since it began. -/
structure Drain (G : Type) where
  root : Key G
  side : Lane
  activated : List Nat
deriving DecidableEq

/-- The arena with the owners of its slots: the ready slots with their targets,
the tasks with their roots, and the topologies that are not released. The keys
whose slots were freed are kept, and the times of the activations. -/
structure World (S G : Type) where
  arena : Arena S G
  chains : Nat → Option Chain
  admissions : List (Key G)
  leases : List (Key G × Nat)
  dispatches : List (Key G × Token)
  tasks : List (Key G × Key G)
  roots : List (Key G)
  endpoints : List (Key G)
  drains : List (Drain G)
  freed : List (Key G)
  stamps : Nat → Nat
  clock : Nat

inductive Input (G : Type) where
  | makeSlot (target : Token)
  | dropSlot (key : Key G)
  | activateSlot (key : Key G)
  | takeSlot (key : Key G)
  | wake (live : Nat → G → Bool) (key : Key G)
  | tryActivate (live : Nat → G → Bool) (key : Key G)
  | activateFd (index : Nat)
  | unqueueFd (index : Nat)
  | admission (live : Nat → G → Bool) (parent : Key G)
  | dropAdmission (key : Key G)
  | makePool (id count : Nat)
  | makeDomain (live : Nat → G → Bool) (parent : Key G) (id count : Nat)
  | claim (id : Nat)
  | dropLease (key : Key G) (id : Nat)
  | takeLease (key : Key G) (id : Nat)
  | dropDomain (id : Nat)
  | makeTopology
  | dropTopology (key : Key G)
  | bind (key parent root : Key G) (local_ : BitVec 32)
  | release (key : Key G)
  | reclaim (key : Key G) (id : Nat)
  | begin (root : Key G)
  | pop (root : Key G) (side : Lane)
  | finish (root : Key G) (side : Lane)
  | drain (targets : Nat → Option Token) (budget : Nat)
  | resume (targets : Nat → Option Token)

inductive Output (G : Type) where
  | done
  | key (key : Key G)
  | full (available : Nat)
  | failed (error : TaskError)
  | readiness (ready : Bool)
  | parent (next : Option (Key G))
  | activated (accepted : Bool)
  | side (side : Option Lane)
  | task (local_ : Option (BitVec 32))
  | dispatched (index : Nat) (target : Option Token)
  | finished (drained : Nat)

namespace World

variable {S G : Type} [DecidableEq G] (epochs : Epochs G) (summary : Index.Summary S Side)

def start (layout : Layout) : World S G where
  arena := ⟨layout, Set.tryNew summary layout.capacity, Slots.new epochs layout, Pool.new layout⟩
  chains := fun _ => none
  admissions := []
  leases := []
  dispatches := []
  tasks := []
  roots := []
  endpoints := []
  drains := []
  freed := []
  stamps := fun _ => 0
  clock := 0

/-- The slots and the pool after an operation. -/
def store (world : World S G) (pool : Pool) (slots : Slots G) : World S G :=
  { world with arena := { world.arena with pool, slots } }

def queue (world : World S G) (input : Ready.Input) : World S G :=
  { world with arena := { world.arena with ready := (world.arena.ready.step summary input).2 } }

def makeSlot (world : World S G) (target : Token) : Output G × World S G :=
  match world.arena.pool.claim world.arena.slots with
  | none => (.full 0, world)
  | some (key, pool, slots) =>
      (.key key, { world.store pool (slots.dispatch key target) with
        dispatches := (key, target) :: world.dispatches })

/-- The slot is off the ready set before it is free. -/
def dropSlot (world : World S G) (key : Key G) : World S G :=
  let slots := world.arena.slots.unbind key.index
  let world := world.queue summary (.clear key.index)
  let (pool, slots) := world.arena.pool.recycle epochs slots key
  { world.store pool slots with
    dispatches := world.dispatches.filter (·.1 ≠ key)
    freed := key :: world.freed }

/-- One wake. That of a task goes on with its parent, which is returned. -/
def wake (live : Nat → G → Bool) (world : World S G) (key : Key G) : Output G × World S G :=
  match world.arena.resolve live key with
  | none => (.parent none, world)
  | some (.dispatch index) => (.parent none, world.queue summary (.insert index))
  | some (.task index) =>
      let record := (world.arena.slots index).record epochs
      match Topology.activate world.arena.slots record.topology index with
      | (.coalesced, _) => (.parent none, world)
      | (.queued, slots) =>
          (.parent (some record.parent), { world.store world.arena.pool slots with
            drains := world.drains.map fun drain =>
              if drain.root.index = record.topology then
                { drain with activated := index :: drain.activated } else drain
            stamps := Function.update world.stamps index world.clock
            clock := world.clock + 1 })

def tryActivate (live : Nat → G → Bool) (world : World S G) (key : Key G) : Output G × World S G :=
  match world.arena.tryIndex live key with
  | none => (.activated false, world)
  | some index => (.activated true, world.queue summary (.insert index))

def admission (live : Nat → G → Bool) (world : World S G) (parent : Key G) :
    Output G × World S G :=
  match world.arena.validate epochs live (maxWakeHops - 1) (maxWakeHops - 1) parent with
  | .error error => (.failed error, world)
  | .ok () =>
      match world.arena.pool.claim world.arena.slots with
      | none => (.failed (.capacity 1 0), world)
      | some (key, pool, slots) =>
          (.key key, { world.store pool slots with admissions := key :: world.admissions })

def dropAdmission (world : World S G) (key : Key G) : World S G :=
  let (pool, slots) := world.arena.pool.recycle epochs world.arena.slots key
  { world.store pool slots with
    admissions := world.admissions.filter (· ≠ key)
    freed := key :: world.freed }

def makePool (world : World S G) (id count : Nat) : Output G × World S G :=
  if count = 0 then (.failed (.capacity 1 0), world)
  else
    match world.arena.pool.tryTake world.arena.slots count with
    | .error available => (.failed (.capacity count available), world)
    | .ok (chain, pool, slots) =>
        (.done, { world.store pool slots with
          chains := Function.update world.chains id (some chain) })

def makeDomain (live : Nat → G → Bool) (world : World S G) (parent : Key G) (id count : Nat) :
    Output G × World S G :=
  match world.arena.validate epochs live (maxWakeHops - 1) (maxWakeHops - 1) parent with
  | .error error => (.failed error, world)
  | .ok () => world.makePool id count

def claim (world : World S G) (id : Nat) : Output G × World S G :=
  match (world.chains id).bind (·.tryClaim world.arena.slots) with
  | none => (.failed (.capacity 1 0), world)
  | some (key, chain, slots) =>
      (.key key, { world.store world.arena.pool slots with
        chains := Function.update world.chains id (some chain)
        leases := (key, id) :: world.leases })

/-- A reserved slot goes back to the chain of its domain. -/
def giveBack (world : World S G) (key : Key G) (id : Nat) : World S G :=
  match world.chains id with
  | none => world
  | some chain =>
      let (chain, slots) := chain.restore world.arena.slots key
      { world.store world.arena.pool slots with
        chains := Function.update world.chains id (some chain) }

def dropLease (world : World S G) (key : Key G) (id : Nat) : World S G :=
  { world.giveBack key id with leases := world.leases.filter (· ≠ (key, id)) }

def takeLease (world : World S G) (key : Key G) (id : Nat) : World S G :=
  { world with
    leases := world.leases.filter (· ≠ (key, id))
    admissions := key :: world.admissions }

def dropDomain (world : World S G) (id : Nat) : World S G :=
  match world.chains id with
  | none => world
  | some chain =>
      let (pool, slots) := world.arena.pool.restore world.arena.slots chain
      { world.store pool slots with chains := Function.update world.chains id none }

def makeTopology (world : World S G) : Output G × World S G :=
  match world.arena.pool.claim world.arena.slots with
  | none => (.failed (.capacity 1 0), world)
  | some (key, pool, slots) =>
      (.key key, { world.store pool (slots.topology key) with
        roots := key :: world.roots
        endpoints := key :: world.endpoints })

/-- A root that was released. -/
def forget (world : World S G) : Option (Key G) → World S G
  | none => world
  | some root =>
      { world with
        roots := world.roots.filter (· ≠ root)
        freed := root :: world.freed }

def dropTopology (world : World S G) (key : Key G) : World S G :=
  let (pool, slots) := world.arena.pool.releaseRoot epochs world.arena.slots key
  let root := (Topology.close world.arena.slots key).1
  { (world.store pool slots).forget root with
    endpoints := world.endpoints.filter (· ≠ key) }

def bind (world : World S G) (key parent root : Key G) (local_ : BitVec 32) : World S G :=
  let slots := world.arena.slots.task epochs key parent root.index local_
  let slots := Topology.attach slots root.index
  { world.store world.arena.pool slots with
    admissions := world.admissions.filter (· ≠ key)
    tasks := (key, root) :: world.tasks }

/-- The owners after a task has been detached. -/
def leave (world : World S G) (key : Key G) : World S G :=
  let root := (Topology.detach epochs world.arena.slots key.index).1
  { world.forget root with
    tasks := world.tasks.filter (·.1 ≠ key)
    freed := key :: (world.forget root).freed }

def release (world : World S G) (key : Key G) : World S G :=
  let (pool, slots) := world.arena.pool.freeTask epochs world.arena.slots key
  (world.leave epochs key).store pool slots

/-- The slot of a task goes back to a domain, with its next generation. -/
def reclaim (world : World S G) (key : Key G) (id : Nat) : Output G × World S G :=
  let (root, slots) := Topology.detach epochs world.arena.slots key.index
  let slots := slots.unbind key.index
  let (pool, slots) := world.arena.pool.recycleSome epochs slots root
  match slots.renew epochs key with
  | (none, slots) => (.activated false, (world.leave epochs key).store pool slots)
  | (some next, slots) =>
      (.activated true, ((world.leave epochs key).store pool slots).giveBack next id)

def begin (world : World S G) (root : Key G) : Output G × World S G :=
  match Topology.begin world.arena.slots root.index with
  | (none, slots) => (.side none, world.store world.arena.pool slots)
  | (some side, slots) =>
      (.side (some side), { world.store world.arena.pool slots with
        drains := ⟨root, side, []⟩ :: world.drains })

def pop (world : World S G) (root : Key G) (side : Lane) : Output G × World S G :=
  let (local_, slots) := Topology.pop epochs world.arena.slots root.index side
  (.task local_, world.store world.arena.pool slots)

def finish (world : World S G) (root : Key G) (side : Lane) : World S G :=
  { world.store world.arena.pool (Topology.finish world.arena.slots root.index) with
    drains := world.drains.filter fun drain => (drain.root, drain.side) ≠ (root, side) }

/-- A round of the ready set. What is activated is dispatched to its target,
without a look at the kind of the slot. -/
def dispatch (targets : Nat → Option Token) (world : World S G) (input : Ready.Input) :
    Output G × World S G :=
  match (world.arena.ready.step summary input).1 with
  | .activated index =>
      let target := if index < world.arena.layout.descriptors then targets index
        else (world.arena.slots index).dispatch
      (.dispatched index target, world.queue summary input)
  | .finished drained => (.finished drained, world.queue summary input)
  | .done | .readiness _ => (.done, world.queue summary input)

def step (world : World S G) : Input G → Output G × World S G
  | .makeSlot target => world.makeSlot target
  | .dropSlot key => (.done, world.dropSlot epochs summary key)
  | .activateSlot key => (.done, world.queue summary (.insert key.index))
  | .takeSlot key =>
      (.readiness (world.arena.ready.store.remove summary key.index).1,
        world.queue summary (.remove key.index))
  | .wake live key => world.wake epochs summary live key
  | .tryActivate live key => world.tryActivate summary live key
  | .activateFd index => (.done, world.queue summary (.insert index))
  | .unqueueFd index => (.done, world.queue summary (.clear index))
  | .admission live parent => world.admission epochs live parent
  | .dropAdmission key => (.done, world.dropAdmission epochs key)
  | .makePool id count => world.makePool id count
  | .makeDomain live parent id count => world.makeDomain epochs live parent id count
  | .claim id => world.claim id
  | .dropLease key id => (.done, world.dropLease key id)
  | .takeLease key id => (.done, world.takeLease key id)
  | .dropDomain id => (.done, world.dropDomain id)
  | .makeTopology => world.makeTopology
  | .dropTopology key => (.done, world.dropTopology epochs key)
  | .bind key parent root local_ => (.done, world.bind epochs key parent root local_)
  | .release key => (.done, world.release epochs key)
  | .reclaim key id => world.reclaim epochs key id
  | .begin root => world.begin root
  | .pop root side => world.pop epochs root side
  | .finish root side => (.done, world.finish root side)
  | .drain targets budget => world.dispatch summary targets (.drain budget)
  | .resume targets => world.dispatch summary targets .resume

/-- Operations take the owners that are there. A domain outlives its leases and
a topology its drains. -/
def allowed (world : World S G) : Input G → Prop
  | .makeSlot _ | .wake _ _ | .tryActivate _ _ | .admission _ _ | .makeTopology | .drain _ _ => True
  | .dropSlot key | .activateSlot key | .takeSlot key => ∃ target, (key, target) ∈ world.dispatches
  | .activateFd index | .unqueueFd index => index < world.arena.layout.descriptors
  | .dropAdmission key => key ∈ world.admissions
  | .makePool id _ | .makeDomain _ _ id _ => world.chains id = none
  | .claim id => world.chains id ≠ none
  | .dropLease key id | .takeLease key id => (key, id) ∈ world.leases
  | .dropDomain id => world.chains id ≠ none ∧ ∀ key, (key, id) ∉ world.leases
  | .dropTopology key => key ∈ world.endpoints ∧ ∀ drain ∈ world.drains, drain.root ≠ key
  | .bind key parent root _ =>
      key ∈ world.admissions ∧ parent.index < world.arena.layout.capacity.raw ∧
        root ∈ world.endpoints
  | .release key => ∃ root, (key, root) ∈ world.tasks
  | .reclaim key id => (∃ root, (key, root) ∈ world.tasks) ∧ world.chains id ≠ none
  | .begin root => root ∈ world.endpoints
  | .pop root side | .finish root side =>
      ∃ drain ∈ world.drains, drain.root = root ∧ drain.side = side
  | .resume _ => world.arena.ready.frames ≠ []

def machine (layout : Layout) : Run.Machine (World S G) (Input G) (Output G) Empty where
  start world := world = start epochs summary layout
  allowed world := world.allowed
  step world input := .ok (world.step epochs summary input)

end World

end Dope.Core.Ready.Arena
