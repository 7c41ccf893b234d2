import Mathlib.Algebra.Group.Nat.Defs
import Mathlib.Data.List.Perm.Basic
import Mathlib.Data.Nat.Log
import Dope.Core.Flight.State

/-! # Batches of groups

A batch is prepared as a whole: for each of its capacities a free group is
selected and leased, or the block of a new one is allocated, and at last the
directory is planned. It is then published without a failure, or dropped. What
the allocator does is left to it, and so is the order in which the list of
groups is visited.
-/

namespace Dope.Core.Flight

open Function

namespace Alloc

inductive Error where
  | overflow
  | exhausted
deriving DecidableEq, Repr

end Alloc

/-- The answers of the allocator: for the block of the `k`-th group of a batch,
and for a directory of an old capacity and a required length. -/
structure Memory where
  block : Nat → Nat → Option Alloc.Error
  plan : Nat → Nat → Except Alloc.Error Nat

/-- The order in which the list visits its groups. -/
structure Chain where
  order : Nat → List Nat
  perm : ∀ count, (order count).Perm (List.range count)

variable {T : Type}

namespace Arena

/-! ## Selecting a group -/

/-- The vacant entries, unless one is in flight. -/
def countVacant (arena : Arena T) : List Nat → Nat → Option Nat
  | [], count => some count
  | e :: rest, count =>
      if arena.flags e = .clear then countVacant arena rest (count + 1)
      else if arena.flags e = .retired then countVacant arena rest count
      else none

/-- What a group offers to a lease of `capacity` entries. -/
def offer (arena : Arena T) (capacity g : Nat) : Option Nat :=
  let group := arena.group g
  if group.len < capacity ∨ group.leased then none
  else
    match arena.countVacant group.slice 0 with
    | none => none
    | some count => if capacity ≤ count then some count else none

/-- The tightest offer; the first exact one ends the search. -/
def selectFrom (arena : Arena T) (capacity : Nat) :
    List Nat → Option Nat → Nat → Option Nat
  | [], selected, _ => selected
  | g :: rest, selected, best =>
      match arena.offer capacity g with
      | none => selectFrom arena capacity rest selected best
      | some count =>
          if count < best then
            if count = capacity then some g
            else selectFrom arena capacity rest (some g) count
          else selectFrom arena capacity rest selected best

/-- Issue the first `left` vacant entries of a list. -/
def issue (g : Nat) : List Nat → Nat → Arena T → Arena T
  | [], _, arena => arena
  | _ :: _, 0, arena => arena
  | e :: rest, left + 1, arena =>
      if arena.flags e = .clear then issue g rest left (arena.releaseVacant e g)
      else issue g rest (left + 1) arena

def activate (arena : Arena T) (g capacity : Nat) : Arena T :=
  let group := arena.group g
  issue g group.slice.reverse capacity (arena.setGroup g { group with
    free := none
    leased := true
    empty := capacity = 0
    issued := capacity })

/-- Select a group and lease it. -/
def select (chain : Chain) (arena : Arena T) (capacity : Nat) : Option (Nat × Arena T) :=
  match arena.selectFrom capacity (chain.order arena.count) none usizeMax with
  | none => none
  | some g => some (g, arena.activate g capacity)

end Arena

/-! ## Sizing -/

def checkedAdd (left right : Nat) : Option Nat :=
  if left + right ≤ usizeMax then some (left + right) else none

/-- The least power of two from `n` on. -/
def checkedNextPowerOfTwo (n : Nat) : Option Nat :=
  let power := 2 ^ Nat.clog 2 n
  if power ≤ usizeMax then some power else none

/-- The sum of the capacities that are left. -/
def total : List Nat → Nat → Option Nat
  | [], sum => some sum
  | capacity :: rest, sum =>
      match checkedAdd sum capacity with
      | none => none
      | some sum => total rest sum

/-- Admits exact capacity and rounds only within room left for the batch. -/
def seed (layout : Layout) (len capacity : Nat) (rest : Option Nat) :
    Except Alloc.Error (Nat × Nat × Nat) :=
  match checkedAdd len capacity with
  | none => .error .overflow
  | some required =>
      let limit := layout.indexLimit
      if limit < required then .error .overflow
      else
        let extent := match rest with
          | none => capacity
          | some rest =>
              if capacity = 0 then capacity
              else
                match checkedNextPowerOfTwo capacity with
                | none => capacity
                | some extent => if extent ≤ (limit - len) - rest then extent else capacity
        .ok (len, extent, len + extent)

/-! ## Preparation -/

inductive Preparation where
  | reuse (group : Nat)
  | new (seed extent capacity : Nat)
deriving DecidableEq, Repr

structure Prepared where
  states : List Preparation
  /-- The capacity of the planned directory. -/
  directory : Option Nat
deriving DecidableEq, Repr

/-- A dropped preparation gives its lease back, or its block. -/
def Preparation.drop (arena : Arena T) : Preparation → Arena T
  | .reuse g => arena.release g
  | .new _ _ _ => arena

def dropAll (arena : Arena T) (states : List Preparation) : Arena T :=
  states.foldl Preparation.drop arena

def Prepared.drop (prepared : Prepared) (arena : Arena T) : Arena T :=
  dropAll arena prepared.states

/-- Prepare the groups one by one; `rest` is the sum of the capacities that are
left, and `states` what is prepared so far. -/
def prepareFrom (layout : Layout) (memory : Memory) (chain : Chain) :
    List Nat → Nat → Option Nat → List Preparation → Arena T →
    Except Alloc.Error (List Preparation × Nat) × Arena T
  | [], stop, _, states, arena => (.ok (states, stop), arena)
  | capacity :: caps, stop, rest, states, arena =>
      let rest := rest.map (· - capacity)
      match Arena.select chain arena capacity with
      | some (g, arena) =>
          prepareFrom layout memory chain caps stop rest (states ++ [.reuse g]) arena
      | none =>
          match seed layout stop capacity rest with
          | .error error => (.error error, dropAll arena states)
          | .ok (first, extent, next) =>
              match memory.block states.length extent with
              | some error => (.error error, dropAll arena states)
              | none =>
                  prepareFrom layout memory chain caps next rest
                    (states ++ [.new first extent capacity]) arena

def tryBatch (layout : Layout) (memory : Memory) (chain : Chain) (arena : Arena T)
    (caps : List Nat) : Except Alloc.Error Prepared × Arena T :=
  if layout.isValid = false then (.error .overflow, arena)
  else
    let base := arena.len
    match prepareFrom layout memory chain caps base (total caps 0) [] arena with
    | (.error error, arena) => (.error error, arena)
    | (.ok (states, stop), arena) =>
        let added := stop - base
        let spare := arena.capacity - arena.len
        if spare < added then
          match memory.plan arena.capacity stop with
          | .error error => (.error error, dropAll arena states)
          | .ok capacity => (.ok ⟨states, some capacity⟩, arena)
        else (.ok ⟨states, none⟩, arena)

/-! ## Publishing -/

/-- Push a block, lease it, and list its entries in the directory. -/
def publish (arena : Arena T) (seed extent capacity : Nat) : Except Fault (Nat × Arena T) :=
  if arena.capacity < arena.len + extent then .error .directory
  else
    let len := arena.len
    let listed := { arena with
      entry := fun e =>
        if len ≤ e ∧ e < len + extent then Entry.new ((seed + (e - len)) % 2 ^ 32)
        else arena.entry e
      len := len + extent
      group := update arena.group arena.count ⟨len, extent, none, false, false, 0⟩
      count := arena.count + 1 }
    .ok (arena.count, listed.activate arena.count capacity)

def publishAll : List Preparation → Arena T → Except Fault (List Nat × Arena T)
  | [], arena => .ok ([], arena)
  | .reuse g :: rest, arena => do
      let (slots, arena) ← publishAll rest arena
      .ok (g :: slots, arena)
  | .new seed extent capacity :: rest, arena => do
      let (g, arena) ← publish arena seed extent capacity
      let (slots, arena) ← publishAll rest arena
      .ok (g :: slots, arena)

end Dope.Core.Flight
