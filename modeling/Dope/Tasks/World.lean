import Dope.Tasks.Owned

/-! # The world of a queue

The queue with the handles its callers hold: the reservations of `Prepared`, the
tasks that are attached, and the one task that is dequeued. Owners may register,
rebind and retire at any time. The slot of a task is the caller's alone before it
is reserved, and who moves tasks has exclusive access, so that no other task is
dequeued meanwhile.
-/

namespace Dope.Tasks

variable {G : Type} [DecidableEq G]

/-- A `Prepared`. The generation is that of the owner it was made for. -/
structure Reserved (G : Type) where
  lane : Nat
  index : Option Nat
  generation : G
deriving DecidableEq

/-- A task of the queue. The generation is that of the owner it was made for. -/
structure Attached (G : Type) where
  index : Nat
  lane : Nat
  generation : G
deriving DecidableEq

structure World (G : Type) where
  queue : Queue G
  reserved : List (Reserved G)
  attached : List (Attached G)
  /-- the task of the `Dequeued` -/
  claim : Option Entry
  /-- every report so far -/
  reports : List Nat
  /-- the reports that were moved into their lanes -/
  moves : List Nat
  /-- the reports that left with their tasks -/
  dropped : List Nat

inductive Input (G : Type) where
  | register (owner : OwnerId G)
  | rebind (owner : OwnerId G)
  | tryRetire (owner : OwnerId G)
  | tryPrepare (index : Nat) (owner : OwnerId G) (room : Except Nat Unit)
  | prepare (held : Reserved G) (index : Nat) (room : Except Nat Unit)
  | drop (held : Reserved G)
  | attach (task : Attached G)
  | report (index : Nat)
  | sync
  | dequeue (scope : Scope G)
  | next (scope : Scope G) (permit : Bool)
  | enqueue
  | idle
  | complete
  | detach (index : Nat)
  | readiness (scope : Scope G)
  | front (scope : Scope G)

inductive Output (G : Type) where
  | done
  | owner (answer : Except (OwnerError G) Unit)
  | retire (answer : Except (RetireError G) Unit)
  | tryPrepare (answer : Except (Error G) Unit)
  | prepare (answer : Except TaskError Unit)
  | activation (activation : Activation)
  | entry (entry : Option Entry)
  | next (next : Next)
  | wake (wake : Wake)
  | front (front : Option (Nat × Wake))

namespace World

variable (world : World G)

def new (tasks lanes : Nat) : World G := ⟨⟨.new tasks lanes, none⟩, [], [], none, [], [], []⟩

/-- A task that left, and its root, which detaches it from the topology. -/
def forget (queue : Queue G) (index : Nat) : World G :=
  { world with
    queue := { queue with slot := queue.slot.map fun endpoint => endpoint.leave index }
    attached := world.attached.filter fun task => task.index ≠ index
    claim := none
    dropped := if index ∈ world.queue.slot.list then index :: world.dropped else world.dropped }

/-- A report was taken from the slot. -/
def moved (queue : Queue G) (index : Option Nat) : World G :=
  { world with queue, moves := index.toList ++ world.moves }

def step (rounds : Rounds) : Input G → Except Fault (Output G × World G)
  | .register owner =>
      let (answer, queue) := world.queue.register owner
      .ok (.owner answer, { world with queue })
  | .rebind owner =>
      match world.queue.rebind owner with
      | (.ok (), queue) => .ok (.owner (.ok ()), { world with
          queue
          reserved := ⟨owner.lane, none, owner.generation⟩ :: world.reserved })
      | (.error cause, queue) => .ok (.owner (.error cause), { world with queue })
  | .tryRetire owner =>
      let (answer, queue) := world.queue.tryRetire owner
      .ok (.retire answer, { world with queue })
  | .tryPrepare index owner room => do
      match ← world.queue.tryPrepare index owner room with
      | (.ok (), queue) => .ok (.tryPrepare (.ok ()), { world with
          queue
          reserved := ⟨owner.lane, some index, owner.generation⟩ :: world.reserved })
      | (.error cause, queue) => .ok (.tryPrepare (.error cause), { world with queue })
  | .prepare held index room => do
      match ← world.queue.prepare held.lane index room with
      | (.ok (), queue) => .ok (.prepare (.ok ()), { world with
          queue
          reserved := { held with index := some index } :: world.reserved.erase held })
      | (.error cause, queue) => .ok (.prepare (.error cause), { world with
          queue
          reserved := world.reserved.erase held })
  | .drop held => do
      let queue ← world.queue.dropPrepared held.lane
      .ok (.done, { world with queue, reserved := world.reserved.erase held })
  | .attach task =>
      .ok (.done, { world with
        queue := world.queue.attach task.lane task.index
        reserved := world.reserved.erase ⟨task.lane, some task.index, task.generation⟩
        attached := task :: world.attached
        claim := some ⟨task.index, task.lane⟩ })
  | .report index =>
      match world.queue.slot with
      | none => .error .rootless
      | some endpoint =>
          let (activation, endpoint) := endpoint.activate index
          .ok (.activation activation, { world with
            queue := { world.queue with slot := some endpoint }
            reports := match activation with
              | .queued => index :: world.reports
              | .coalesced => world.reports })
  | .sync => do
      let (entry, queue) ← world.queue.sync
      .ok (.entry entry, world.moved queue (entry.map Entry.index))
  | .dequeue scope => do
      let (entry, queue) ← world.queue.dequeue rounds scope
      .ok (.entry entry, { world with queue, claim := entry })
  | .next scope permit => do
      match ← world.queue.next rounds scope permit with
      | (.item dequeued moved, queue) => .ok (.next (.item dequeued moved),
          { world.moved queue world.queue.slot.pop.1 with claim := dequeued })
      | (.exhausted index, queue) => .ok (.next (.exhausted index), { world with queue })
      | (.empty, queue) => .ok (.next .empty, { world with queue })
  | .enqueue =>
      match world.claim with
      | none => .ok (.done, world)
      | some entry => do
          let queue ← world.queue.enqueue entry
          .ok (.done, { world with queue, claim := none })
  | .idle =>
      match world.claim with
      | none => .ok (.done, world)
      | some entry => do
          let queue ← world.queue.idle entry
          .ok (.done, { world with queue, claim := none })
  | .complete =>
      match world.claim with
      | none => .ok (.done, world)
      | some entry => do
          let queue ← world.queue.detach entry
          .ok (.done, world.forget queue entry.index)
  | .detach index => do
      let queue ← world.queue.detachIndex index
      .ok (.done, world.forget queue index)
  | .readiness scope => do
      let wake ← world.queue.readiness scope
      .ok (.wake wake, world)
  | .front scope => do
      let front ← world.queue.front scope
      .ok (.front front, world)

/-- The slot of the task is its caller's alone. -/
def Free (index : Nat) : Prop :=
  (∀ task ∈ world.attached, task.index ≠ index) ∧
    ∀ held ∈ world.reserved, held.index ≠ some index

def Attends (index : Nat) : Prop := ∃ task ∈ world.attached, task.index = index

def allowed : Input G → Prop
  | .register _ | .rebind _ | .tryRetire _ | .readiness _ | .front _ => True
  | .tryPrepare index _ _ => world.Free index
  | .prepare held index _ => held ∈ world.reserved ∧ held.index = none ∧ world.Free index
  | .drop held => held ∈ world.reserved
  | .attach task => ⟨task.lane, some task.index, task.generation⟩ ∈ world.reserved ∧
      world.claim = none
  | .report index => world.Attends index
  | .sync | .dequeue _ | .next _ _ => world.claim = none
  | .enqueue | .idle | .complete => world.claim ≠ none
  | .detach index => world.Attends index ∧ world.claim = none

def machine (rounds : Rounds) (tasks lanes : Nat) :
    Run.Machine (World G) (Input G) (Output G) Fault where
  start world := world = new tasks lanes
  allowed := allowed
  step world input := world.step rounds input

end World

end Dope.Tasks
