import Mathlib.Algebra.Group.Nat.Defs
import Mathlib.Order.Lattice
import Dope.Base.Hole
import Dope.Base.Run

/-! # The timer store

Model of `driver/schedule/clock/timer`. Four planes of one extent hold the heap
positions, the priorities, a state word for every slot, and its resident. The
word of an armed slot is its position in the heap, and three words next to the
largest value are kept for the other states. Slots that are not leased are
chained through their residents. The planes are read without checks in the
source, so a read that is out of range or finds nothing is a fault here.
-/

set_option linter.dupNamespace false

namespace Dope.Core.Timer

open Run Function

def freeWord : Nat := 2 ^ 32 - 1

def idleWord : Nat := 2 ^ 32 - 2

def firedWord : Nat := 2 ^ 32 - 3

structure Overflow where
deriving DecidableEq, Repr

structure Capacity where
  count : Nat
  bound : count ≤ 2 ^ 32 - 3
deriving DecidableEq, Repr

/-- `extraMax` is the largest extent whose planes have a layout. -/
def Capacity.new (extraMax capacity : Nat) : Except Overflow Capacity :=
  if h : capacity ≤ 2 ^ 32 - 3 ∧ capacity ≤ extraMax then .ok ⟨capacity, h.1⟩
  else .error ⟨⟩

inductive Resident (R : Type) where
  | next (slot : Nat)
  | value (item : R)
deriving DecidableEq, Repr

inductive Fault where
  | slot (offset : Nat)
  | position (offset : Nat)
  | resident (slot : Nat)
deriving DecidableEq, Repr

structure Core (P R : Type) where
  capacity : Capacity
  slots : Nat → Option Nat
  priorities : Nat → Option P
  states : Nat → Nat
  residents : Nat → Resident R
  len : Nat
  free : Nat

inductive Phase where
  | armed (position : Nat)
  | idle
  | fired
deriving DecidableEq, Repr

inductive State where
  | idle
  | armed
  | fired
deriving DecidableEq, Repr

/-- Entries are compared by priority and then by slot. -/
def cmp {P : Type} [LinearOrder P] (entry other : Nat × P) : Ordering :=
  (compare entry.2 other.2).then (compare entry.1 other.1)

namespace Core

variable {P R : Type}

def tryNew (extraMax cap : Nat) : Except Overflow (Core P R) := do
  let capacity ← Capacity.new extraMax cap
  .ok
    { capacity
      slots := fun _ => none
      priorities := fun _ => none
      states := fun _ => freeWord
      residents := fun index =>
        .next (if index + 1 = capacity.count then freeWord else index + 1)
      len := 0
      free := if capacity.count = 0 then freeWord else 0 }

def writeState (core : Core P R) (slot state : Nat) : Except Fault (Core P R) :=
  if slot < core.capacity.count then
    .ok { core with states := update core.states slot state }
  else .error (.slot slot)

/-- Every word but two stands for a position: a live slot is never free. -/
def phase (core : Core P R) (live : Nat) : Except Fault Phase :=
  if live < core.capacity.count then
    if core.states live = idleWord then .ok .idle
    else if core.states live = firedWord then .ok .fired
    else .ok (.armed (core.states live))
  else .error (.slot live)

/-! ## Heap entries -/

def entryAt (core : Core P R) (position : Nat) : Except Fault (Nat × P) :=
  if position < core.capacity.count then
    match core.slots position, core.priorities position with
    | some slot, some priority => .ok (slot, priority)
    | _, _ => .error (.position position)
  else .error (.position position)

def entriesFrom (core : Core P R) : Nat → Nat → Except Fault (List (Nat × P))
  | 0, _ => .ok []
  | left + 1, position => do
      let entry ← core.entryAt position
      let rest ← core.entriesFrom left (position + 1)
      .ok (entry :: rest)

/-- The entries that the engine compares. -/
def entries (core : Core P R) : Except Fault (List (Nat × P)) := core.entriesFrom core.len 0

/-- Move an entry out of its position. -/
def read (core : Core P R) (position : Nat) : Except Fault ((Nat × P) × Core P R) := do
  let entry ← core.entryAt position
  .ok (entry, { core with priorities := update core.priorities position none })

def write (place : Bool) (core : Core P R) (position : Nat) (value : Nat × P) :
    Except Fault (Core P R) :=
  if position < core.capacity.count then
    if place then
      writeState
        { core with
          slots := update core.slots position (some value.1)
          priorities := update core.priorities position (some value.2) }
        value.1 (position % 2 ^ 32)
    else .ok { core with priorities := update core.priorities position (some value.2) }
  else .error (.position position)

def shift (core : Core P R) (source target : Nat) : Except Fault (Core P R) := do
  let (value, core) ← core.read source
  core.write true target value

/-- The shifts of one engine run. Returns the hole they end at. -/
def walk : Core P R → Nat → List Nat → Except Fault (Nat × Core P R)
  | core, hole, [] => .ok (hole, core)
  | core, hole, source :: path => do
      let core ← core.shift source hole
      core.walk source path

section
variable (engine : Hole.Engine (Nat × P))

def insert (core : Core P R) (slot : Nat) (prio : P) : Except Fault (Core P R) := do
  let entries ← core.entries
  let (hole, next) ← core.walk core.len (engine.store entries (slot, prio))
  let next ← next.write true hole (slot, prio)
  .ok { next with len := core.len + 1 }

/-- The replaced priority is moved out first. An entry that keeps its position
is written without its slot. -/
def setAt (core : Core P R) (position slot : Nat) (prio : P) : Except Fault (Core P R) := do
  let entries ← core.entries
  let (_, core) ← core.read position
  let (path, place) := engine.update entries position (slot, prio)
  let (hole, core) ← core.walk position path
  core.write place hole (slot, prio)

/-- The last entry closes the hole. -/
def removeAt (core : Core P R) (position : Nat) : Except Fault (P × Core P R) := do
  let entries ← core.entries
  let ((_, priority), next) ← core.read position
  let last := core.len - 1
  if position = last then .ok (priority, { next with len := last })
  else
    let (hand, next) ← next.read last
    let (hole, next) ← next.walk position (engine.remove entries position)
    let next ← next.write true hole hand
    .ok (priority, { next with len := last })

/-! ## Operations -/

/-- A vacancy shows that the free chain has a head, which a lease then takes. -/
def vacancy (core : Core P R) : Bool := core.free != freeWord

def lease (core : Core P R) (item : R) : Except Fault (Nat × Core P R) :=
  if core.free < core.capacity.count then
    match core.residents core.free with
    | .value _ => .error (.resident core.free)
    | .next next => do
        let leased ← writeState
          { core with
            residents := update core.residents core.free (.value item)
            free := next }
          core.free idleWord
        .ok (core.free, leased)
  else .error (.slot core.free)

/-- Take an armed slot out of the heap. -/
def disarm (core : Core P R) : Phase → Except Fault (Core P R)
  | .armed position => do
      let (_, core) ← core.removeAt engine position
      .ok core
  | .idle | .fired => .ok core

def release (core : Core P R) (live : Nat) : Except Fault (R × Core P R) := do
  let phase ← core.phase live
  let core ← core.disarm engine phase
  match core.residents live with
  | .next _ => .error (.resident live)
  | .value item =>
      let released ← writeState
        { core with
          residents := update core.residents live (.next core.free)
          free := live }
        live freeWord
      .ok (item, released)

def state (core : Core P R) (live : Nat) : Except Fault State := do
  match ← core.phase live with
  | .armed _ => .ok .armed
  | .idle => .ok .idle
  | .fired => .ok .fired

def priority (core : Core P R) (live : Nat) : Except Fault (Option P) := do
  match ← core.phase live with
  | .armed position => do
      let (_, priority) ← core.entryAt position
      .ok (some priority)
  | .idle | .fired => .ok none

def resident (core : Core P R) (live : Nat) : Except Fault R :=
  if live < core.capacity.count then
    match core.residents live with
    | .next _ => .error (.resident live)
    | .value item => .ok item
  else .error (.slot live)

def set (core : Core P R) (live : Nat) (prio : P) : Except Fault (Core P R) := do
  match ← core.phase live with
  | .armed position => core.setAt engine position live prio
  | .idle | .fired => core.insert engine live prio

def clear (core : Core P R) (live : Nat) : Except Fault (Core P R) := do
  let phase ← core.phase live
  let core ← core.disarm engine phase
  core.writeState live idleWord

def root (core : Core P R) : Bool := core.len != 0

def fire (core : Core P R) : Except Fault (Nat × Core P R) := do
  let (slot, _) ← core.entryAt 0
  let (_, core) ← core.removeAt engine 0
  let core ← core.writeState slot firedWord
  .ok (slot, core)

/-! ## Expiry -/

variable [LinearOrder P]

/-- Whether the minimum is due. -/
def due (core : Core P R) (now : P) : Except Fault Bool :=
  if core.root then do
    let (_, priority) ← core.entryAt 0
    .ok (decide (priority ≤ now))
  else .ok false

/-- Fire what is due while the budget lasts. Returns the slots whose residents
were woken, in order. -/
def expireFrom (now : P) : Nat → Core P R → Except Fault (List Nat × Core P R)
  | 0, core => .ok ([], core)
  | budget + 1, core => do
      if ← core.due now then
        let (slot, core) ← core.fire engine
        let _ ← core.resident slot
        let (rest, core) ← expireFrom now budget core
        .ok (slot :: rest, core)
      else .ok ([], core)

/-- The budget is reserved only when something is due. -/
def expire (core : Core P R) (now : P) (budget : Nat) : Except Fault (List Nat × Core P R) := do
  if ← core.due now then core.expireFrom engine now budget
  else .ok ([], core)

end

end Core

end Dope.Core.Timer
