import Dope.Base.Run
import Mathlib.Logic.Function.Basic

/-! # Attempt queue

Model of `client/attempt/queue`: the payload of an attempt and its phases, the
slots in their generations, the two lanes, and the table over them. The plan and
the binding of an attempt share their storage, and are read without a look at the
phase. Such a read of something else is a fault.
-/

namespace Dope.Manifold.Attempt

structure Key where
  index : Nat
  generation : Nat
deriving DecidableEq, Repr

inductive Phase where
  | queued
  | opening
  | submitted
  | connected
  | active
  | cancelled
  | done
deriving DecidableEq, Repr

/-- The phases that a live lease retains. -/
def Phase.Pending : Phase → Prop
  | .queued | .opening | .submitted | .connected | .done => True
  | .active | .cancelled => False

inductive Transition where
  | applied
  | stale
deriving DecidableEq, Repr

inductive Fail where
  | keep
  | remove
  | stale
deriving DecidableEq, Repr

inductive Change where
  | keep
  | remove
  | queue
deriving DecidableEq, Repr

/-- What is stored behind the phase. -/
inductive Body (P L : Type) where
  | plan (plan : P)
  | bound (key : L)
deriving DecidableEq, Repr

/-- An unchecked read of what is not there. -/
inductive Fault where
  | plan
  | binding
  | pending
  | vacant
deriving DecidableEq, Repr

structure Entry (P L : Type) where
  phase : Phase
  body : Body P L
deriving DecidableEq, Repr

namespace Entry

variable {P L : Type} (entry : Entry P L)

def queued (plan : P) : Entry P L := ⟨.queued, .plan plan⟩

def isOwned : Bool := entry.phase = .active || entry.phase = .cancelled

def done : Entry P L := { entry with phase := .done }

def close : Transition × Entry P L :=
  match entry.phase with
  | .opening | .submitted => (.applied, entry.done)
  | .queued | .connected | .active | .cancelled | .done => (.stale, entry)

def fail : Fail × Entry P L :=
  match entry.phase with
  | .cancelled => (.remove, entry)
  | .done => (.stale, entry)
  | .queued | .opening | .submitted | .connected | .active => (.keep, entry.close.2)

/-- The lease is used up. It retains a pending phase. -/
def finish (commit : Bool) : Except Fault (Change × Entry P L) :=
  match entry.phase with
  | .connected =>
      if commit then .ok (.keep, { entry with phase := .active })
      else .ok (.queue, { entry with phase := .cancelled })
  | .submitted => .ok (.queue, { entry with phase := .cancelled })
  | .queued | .opening | .done => .ok (.remove, entry)
  | .active | .cancelled => .error .pending

def «open» : Except Fault (P × Entry P L) :=
  match entry.body with
  | .plan plan => .ok (plan, { entry with phase := .opening })
  | .bound _ => .error .plan

def connected : Transition × Entry P L :=
  match entry.phase with
  | .submitted => (.applied, { entry with phase := .connected })
  | .queued | .opening | .connected | .active | .cancelled | .done => (.stale, entry)

def reject : Entry P L := entry.done

def bind (_ : Entry P L) (key : L) : Entry P L := ⟨.submitted, .bound key⟩

def cancel : Except Fault L :=
  match entry.body with
  | .bound key => .ok key
  | .plan _ => .error .binding

end Entry

/-! ## Slots -/

inductive State (P L : Type) where
  | free
  | reserved
  | occupied (entry : Entry P L)
  | retired
deriving DecidableEq, Repr

structure Slot (P L : Type) where
  generation : Nat
  state : State P L
deriving DecidableEq, Repr

def Slot.phase? {P L : Type} (slot : Slot P L) : Option Phase :=
  match slot.state with
  | .occupied entry => some entry.phase
  | .free | .reserved | .retired => none

inductive Observation where
  | outside
  | free
  | reserved (actual : Nat)
  | generation (actual : Nat)
  | retired
deriving DecidableEq, Repr

/-- A failed access to a generation. -/
structure Lookup where
  key : Key
  observed : Observation
deriving DecidableEq, Repr

/-- The slots, of which `last` is the last generation, and the lanes of the
attempts that are to be opened and of those that are to be cancelled. -/
structure Table (P L : Type) where
  slots : Nat → Slot P L
  capacity : Nat
  last : Nat
  lane0 : List Nat
  lane1 : List Nat
  deferred : Option Key

namespace Table

variable {P L : Type} (table : Table P L)

def tryNew (capacity last : Nat) : Table P L :=
  ⟨fun _ => ⟨0, .free⟩, capacity, last, [], [], none⟩

def trySlot (key : Key) : Except Lookup (Entry P L) :=
  if table.capacity ≤ key.index then .error ⟨key, .outside⟩
  else
    let slot := table.slots key.index
    match slot.state with
    | .free => .error ⟨key, .free⟩
    | .reserved => .error ⟨key, .reserved slot.generation⟩
    | .retired => .error ⟨key, .retired⟩
    | .occupied entry =>
        if slot.generation = key.generation then .ok entry
        else .error ⟨key, .generation slot.generation⟩

def setState (index : Nat) (state : State P L) : Table P L :=
  let slot : Slot P L := ⟨(table.slots index).generation, state⟩
  { table with slots := Function.update table.slots index slot }

/-- Unlink an attempt from the lane it is on. -/
def detach (index : Nat) : Table P L :=
  { table with lane0 := table.lane0.erase index, lane1 := table.lane1.erase index }

/-- The generation of a slot is over. The last one retires the slot. -/
def vacate (index : Nat) : Table P L :=
  let generation := (table.slots index).generation
  let slot : Slot P L :=
    if generation = table.last then ⟨generation, .retired⟩ else ⟨generation + 1, .free⟩
  { table with slots := Function.update table.slots index slot }

def remove (index : Nat) : Table P L := (table.detach index).vacate index

def clear (key : Key) : Table P L :=
  if table.deferred = some key then { table with deferred := none } else table

def free (key : Key) : Except Lookup (Table P L) :=
  match table.trySlot key with
  | .error lookup => .error lookup
  | .ok entry =>
      let table := if entry.isOwned then table.remove key.index
        else (table.setState key.index (.occupied entry.done)).detach key.index
      .ok (table.clear key)

def fail (key : Key) : Except Lookup (Transition × Table P L) :=
  match table.trySlot key with
  | .error lookup => .error lookup
  | .ok entry =>
      match entry.fail with
      | (.keep, entry) => .ok (.applied, table.setState key.index (.occupied entry))
      | (.remove, _) => .ok (.stale, table.remove key.index)
      | (.stale, _) => .ok (.stale, table)

def close (key : Key) : Except Lookup (Option Key × Table P L) :=
  match table.trySlot key with
  | .error lookup => .error lookup
  | .ok entry =>
      let (transition, entry) := entry.close
      .ok (match transition with
        | .applied => some key
        | .stale => none, table.setState key.index (.occupied entry))

/-- The slot of a lease is not looked up. -/
def finish (key : Key) (commit : Bool) : Except Fault (Change × Table P L) :=
  match (table.slots key.index).state with
  | .occupied entry =>
      match entry.finish commit with
      | .error fault => .error fault
      | .ok (.keep, entry) => .ok (.keep, table.setState key.index (.occupied entry))
      | .ok (.remove, _) => .ok (.remove, (table.remove key.index).clear key)
      | .ok (.queue, entry) =>
          let table := (table.setState key.index (.occupied entry)).detach key.index
          .ok (.queue, { table with lane1 := table.lane1 ++ [key.index] })
  | .free | .reserved | .retired => .error .vacant

def pollCancel : Except Fault (Option (Key × L) × Table P L) :=
  match table.lane1.head? with
  | none => .ok (none, table)
  | some index =>
      let slot := table.slots index
      match slot.state with
      | .occupied entry =>
          match entry.cancel with
          | .error fault => .error fault
          | .ok binding => .ok (some (⟨index, slot.generation⟩, binding), table.remove index)
      | .free | .reserved | .retired => .error .vacant

def isRunnable (retry : Bool) : Bool :=
  table.lane1.head?.isSome || (table.deferred.isNone && table.lane0.head?.isSome && !retry)

def poll : Except Fault (Option (Key × P) × Table P L) :=
  match table.lane0.head? with
  | none => .ok (none, table)
  | some index =>
      let slot := table.slots index
      match slot.state with
      | .occupied entry =>
          let key : Key := ⟨index, slot.generation⟩
          match entry.open with
          | .error fault => .error fault
          | .ok (plan, entry) =>
              .ok (some (key, plan),
                ((table.clear key).setState index (.occupied entry)).detach index)
      | .free | .reserved | .retired => .error .vacant

def connected (key : Key) : Except Lookup (Transition × Table P L) :=
  match table.trySlot key with
  | .error lookup => .error lookup
  | .ok entry =>
      let (transition, entry) := entry.connected
      .ok (transition, table.setState key.index (.occupied entry))

/-- The first attempt that is deferred goes in front, and others go behind. -/
def defer (key : Key) (plan : P) : Except (Lookup × P) (Table P L) :=
  match table.trySlot key with
  | .error lookup => .error (lookup, plan)
  | .ok _ =>
      let first := table.deferred.isNone
      let table := (table.setState key.index (.occupied (.queued plan))).detach key.index
      .ok (if first then { table with deferred := some key, lane0 := key.index :: table.lane0 }
        else { table with lane0 := table.lane0 ++ [key.index] })

def reject (key : Key) : Except Lookup (Table P L) :=
  match table.trySlot key with
  | .error lookup => .error lookup
  | .ok entry => .ok (table.setState key.index (.occupied entry.reject))

def bind (key : Key) (link : L) : Except Lookup (Table P L) :=
  match table.trySlot key with
  | .error lookup => .error lookup
  | .ok entry => .ok (table.setState key.index (.occupied (entry.bind link)))

def reserve (index : Nat) : Key × Table P L :=
  (⟨index, (table.slots index).generation⟩, table.setState index .reserved)

def start (key : Key) (plan : P) : Table P L :=
  let table := table.setState key.index (.occupied (.queued plan))
  { table with lane0 := table.lane0 ++ [key.index] }

end Table

/-! ## Owners -/

/-- A table with the reservations, the leases and the polled keys that are out. What
each key was bound to is kept, with the leases that were used up while a connection
was open, the cancellations that were polled, and the attempts that failed or were
disconnected before. -/
structure World (P L : Type) where
  table : Table P L
  reserves : List Key
  leases : List Key
  polled : List Key
  bindings : Key → Option L
  dropped : List Key
  cancelled : List (Key × L)
  removed : List Key

inductive Input (P L : Type) where
  | reserve (index : Nat)
  | dropReserve (key : Key)
  | start (key : Key) (plan : P)
  | poll
  | bind (key : Key) (link : L)
  | defer (key : Key) (plan : P)
  | reject (key : Key)
  | connected (key : Key)
  | failed (key : Key)
  | close (key : Key)
  | disconnect (key : Key)
  | pollCancel
  | commit (key : Key)
  | drop (key : Key)
deriving DecidableEq, Repr

inductive Output (P L : Type) where
  | done
  | key (key : Key)
  | connect (action : Option (Key × P))
  | lookup (lookup : Lookup)
  | refused (lookup : Lookup) (plan : P)
  | transition (transition : Transition)
  | completion (key : Option Key)
  | cancel (cancelled : Option (Key × L))
  | change (change : Change)
deriving DecidableEq, Repr

namespace World

variable {P L : Type}

/-- The lease is used up. -/
def finish (world : World P L) (key : Key) (commit : Bool) :
    Except Fault (Output P L × World P L) :=
  let phase := (world.table.slots key.index).phase?
  let opened := phase = some .submitted || phase = some .connected && !commit
  match world.table.finish key commit with
  | .error fault => .error fault
  | .ok (change, table) =>
      .ok (.change change, { world with
        table, leases := world.leases.filter (· ≠ key)
        dropped := if opened then key :: world.dropped else world.dropped })

/-- A driver event takes a cancelled attempt away. -/
def gone (world : World P L) (key : Key) : List Key :=
  if (world.table.slots key.index).phase? = some .cancelled then key :: world.removed
  else world.removed

def step (world : World P L) : Input P L → Except Fault (Output P L × World P L)
  | .reserve index =>
      let (key, table) := world.table.reserve index
      .ok (.key key, { world with table, reserves := key :: world.reserves })
  | .dropReserve key =>
      .ok (.done, { world with
        table := world.table.vacate key.index
        reserves := world.reserves.filter (· ≠ key) })
  | .start key plan =>
      .ok (.done, { world with
        table := world.table.start key plan
        reserves := world.reserves.filter (· ≠ key)
        leases := key :: world.leases })
  | .poll =>
      match world.table.poll with
      | .error fault => .error fault
      | .ok (none, table) => .ok (.connect none, { world with table })
      | .ok (some (key, plan), table) =>
          .ok (.connect (some (key, plan)), { world with table, polled := key :: world.polled })
  | .bind key link =>
      let world := { world with polled := world.polled.filter (· ≠ key) }
      match world.table.bind key link with
      | .error lookup => .ok (.lookup lookup, world)
      | .ok table =>
          .ok (.done, { world with
            table, bindings := Function.update world.bindings key (some link) })
  | .defer key plan =>
      let world := { world with polled := world.polled.filter (· ≠ key) }
      match world.table.defer key plan with
      | .error (lookup, plan) => .ok (.refused lookup plan, world)
      | .ok table => .ok (.done, { world with table })
  | .reject key =>
      let world := { world with polled := world.polled.filter (· ≠ key) }
      match world.table.reject key with
      | .error lookup => .ok (.lookup lookup, world)
      | .ok table => .ok (.done, { world with table })
  | .connected key =>
      match world.table.connected key with
      | .error lookup => .ok (.lookup lookup, world)
      | .ok (transition, table) => .ok (.transition transition, { world with table })
  | .failed key =>
      match world.table.fail key with
      | .error lookup => .ok (.lookup lookup, world)
      | .ok (transition, table) =>
          .ok (.transition transition, { world with table, removed := world.gone key })
  | .close key =>
      match world.table.close key with
      | .error lookup => .ok (.lookup lookup, world)
      | .ok (completion, table) => .ok (.completion completion, { world with table })
  | .disconnect key =>
      match world.table.free key with
      | .error lookup => .ok (.lookup lookup, world)
      | .ok table => .ok (.done, { world with table, removed := world.gone key })
  | .pollCancel =>
      match world.table.pollCancel with
      | .error fault => .error fault
      | .ok (cancelled, table) =>
          .ok (.cancel cancelled, { world with
            table, cancelled := cancelled.toList ++ world.cancelled })
  | .commit key => world.finish key true
  | .drop key => world.finish key false

/-- A slot is reserved when it is free. Reservations, leases and polled keys are
used once, and any key may come from a connection. -/
def allowed (world : World P L) : Input P L → Prop
  | .reserve index => index < world.table.capacity ∧ (world.table.slots index).state = .free
  | .dropReserve key | .start key _ => key ∈ world.reserves
  | .bind key _ | .defer key _ | .reject key => key ∈ world.polled
  | .commit key | .drop key => key ∈ world.leases
  | .poll | .connected _ | .failed _ | .close _ | .disconnect _ | .pollCancel => True

def machine (P L : Type) (capacity last : Nat) :
    Run.Machine (World P L) (Input P L) (Output P L) Fault where
  start world := world = ⟨Table.tryNew capacity last, [], [], [], fun _ => none, [], [], []⟩
  allowed := allowed
  step := step

end World

end Dope.Manifold.Attempt
