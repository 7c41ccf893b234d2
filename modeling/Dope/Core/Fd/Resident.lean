import Mathlib.Logic.Function.Basic

/-! # Resident descriptors

Model of `fd/{states,domain/resident/mod}`: what is kept of every descriptor slot,
and the two-sided queue of the slots whose descriptors are to be retired. The first
word of a slot holds the target of its owner, or the next slot of its queue.
-/

namespace Dope.Core.Fd

/-! ## States -/

/-- Where a mapped slot is in the life of its socket. The suffix counts the holders
that are left of it. -/
inductive SlotPhase where
  | mapped
  | unopenedOne
  | creatingOne
  | creatingZero
  | openOne
  | openTwo
  | failedOne
  | closingZero
  | closingOne
  | closedOne
deriving DecidableEq, Repr

inductive SlotState where
  | free
  | standalone
  | route (phase : SlotPhase) (owner : Nat)
deriving DecidableEq, Repr

namespace SlotState

def owner : SlotState → Option Nat
  | .free | .standalone => none
  | .route _ owner => some owner

def isPhase (state : SlotState) (phase : SlotPhase) : Bool :=
  match state with
  | .free | .standalone => false
  | .route found _ => found = phase

def isState (state : SlotState) (phase : SlotPhase) (owner : Nat) : Bool :=
  state = .route phase owner

end SlotState

inductive Phase where
  | ready
  | pending
  | inFlight
  | quiescent
deriving DecidableEq, Repr

namespace Phase

/-- The native table retains a quarantined descriptor without a host lease. -/
def quarantined : Phase := .quiescent

def canClaim (phase : Phase) (lease spent : Bool) : Bool :=
  !lease && !spent && (phase = .ready || phase = .inFlight)

end Phase

inductive Side where
  | zero
  | one
deriving DecidableEq, Repr

def Side.other : Side → Side
  | .zero => .one
  | .one => .zero

/-- A link was read from a word that holds none, a target from one that holds a link,
or a slot was returned that no one had taken. -/
inductive Fault where
  | link
  | target
  | admission
deriving DecidableEq, Repr

/-! ## Entries -/

/-- The first word of a slot. -/
inductive Word (T : Type) where
  | clear
  | target (target : T)
  | link (next : Option Nat)
deriving DecidableEq, Repr

structure Entry (T : Type) where
  word : Word T
  phase : Phase
  lease : Bool
  state : SlotState
  exhausted : Bool
  inflight : Bool
  side : Side
  bound : Bool
  generation : Nat
  submitted : Nat
deriving DecidableEq, Repr

variable {T : Type}

namespace Entry

def new : Entry T := ⟨.clear, .ready, false, .free, false, false, .zero, false, 0, 0⟩

variable (entry : Entry T)

def setPhase (phase : Phase) : Entry T := { entry with phase }

def setStatus (phase : Phase) (lease : Bool) : Entry T := { entry with phase, lease }

def setState (state : SlotState) : Entry T := { entry with state }

/-- The last generation is not followed by another one. -/
def advance (last : Nat) : Entry T :=
  if entry.generation = last then { entry with exhausted := true }
  else { entry with generation := entry.generation + 1 }

/-- The generation that was given up. -/
def retired : Option Nat :=
  if entry.exhausted then some entry.generation
  else if entry.generation = 0 then none
  else some (entry.generation - 1)

def recycle : Entry T := entry.setStatus .ready false

def claim : Entry T := { entry with word := .clear, phase := .ready, lease := true }

def setTarget (target : T) : Entry T := { entry with word := .target target }

def dispatch : Except Fault (Option T) :=
  if entry.phase = .ready && entry.lease then
    match entry.word with
    | .target target => .ok (some target)
    | .clear => .ok none
    | .link _ => .error .target
  else .ok none

def link : Except Fault (Option Nat) :=
  match entry.word with
  | .link next => .ok next
  | .clear | .target _ => .error .link

end Entry

/-! ## Queue -/

structure Queue where
  heads : Side → Option Nat
  active : Side
  draining : Option Side

namespace Queue

def new : Queue := ⟨fun _ => none, .zero, none⟩

variable (queue : Queue)

/-- The link of a new first slot, and the queue that it is in. -/
def push (index : Nat) : Option Nat × Queue :=
  (queue.heads queue.active,
    { queue with heads := Function.update queue.heads queue.active (some index) })

/-- What is pushed while a side is drained goes to the other one. -/
def front : Option (Nat × Side) × Queue :=
  let side := queue.draining.getD queue.active
  match queue.heads side with
  | none => (none, queue)
  | some head =>
      (some (head, side),
        if queue.draining.isNone then
          { queue with active := side.other, draining := some side }
        else queue)

def commit (side : Side) (next : Option Nat) : Queue :=
  { queue with
    heads := Function.update queue.heads side next
    draining := if next.isNone then none else queue.draining }

end Queue

/-! ## Store -/

/-- Slots are in range for whoever names one: accepted slots and the mapped ones are
part of the same layout. The number of retirements in flight is a word. -/
structure Store (T : Type) where
  entries : Nat → Entry T
  capacity : Nat
  last : Nat
  pending : Queue
  inflight : Nat

namespace Store

def tryNew (capacity last : Nat) : Store T :=
  ⟨fun _ => .new, capacity, last, .new, 0⟩

variable (store : Store T)

def put (index : Nat) (entry : Entry T) : Store T :=
  { store with entries := Function.update store.entries index entry }

def claim (index : Nat) (state : SlotState) : Nat × Store T :=
  ((store.entries index).generation,
    store.put index ((store.entries index).claim.setState state))

def tryClaim (index : Nat) : Option Nat × Store T :=
  if index < store.capacity then
    let entry := store.entries index
    if entry.phase.canClaim entry.lease entry.exhausted then
      (some entry.generation, store.put index entry.claim)
    else (none, store)
  else (none, store)

/-- A target is published for the owner of a generation, and for no other. -/
def setTarget (index version : Nat) (target : T) : Store T :=
  let entry := store.entries index
  if index < store.capacity && entry.generation = version && entry.phase = .ready &&
      entry.lease then store.put index (entry.setTarget target)
  else store

def target (index version : Nat) : Except Fault (Option T) :=
  if index < store.capacity && (store.entries index).generation = version then
    (store.entries index).dispatch
  else .ok none

def setState (index : Nat) (state : SlotState) : Store T :=
  store.put index ((store.entries index).setState state)

/-- A standalone descriptor is still to be retired. -/
def hasRetiring : Bool :=
  (List.range store.capacity).any fun index =>
    let entry := store.entries index
    entry.state = .standalone && !entry.exhausted && !entry.lease &&
      (entry.phase = .pending || entry.phase = .inFlight)

end Store

end Dope.Core.Fd
