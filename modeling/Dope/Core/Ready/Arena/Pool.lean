import Mathlib.Algebra.Group.Nat.Defs
import Dope.Core.Ready.Arena.Topology
import Dope.Base.Links

/-! # Free slots

Model of `driver/schedule/ready/arena/pool`. Free slots are chained through their
payloads, and a count ends a chain: its last slot names itself. A domain takes a
part of the chain for itself and gives it back when it ends.
-/

namespace Dope.Core.Ready.Arena

/-- Counts are `u16` and saturate. -/
def maxCount : Nat := 2 ^ 16 - 1

structure Available where
  head : Nat
  count : Nat
deriving DecidableEq, Repr

structure Detached where
  head : Nat
  tail : Nat
  count : Nat
deriving DecidableEq, Repr

/-- A chain that was taken from the pool. -/
structure Chain where
  state : Option Detached
deriving DecidableEq, Repr

namespace Chain

variable {G : Type}

def tryClaim (chain : Chain) (slots : Slots G) : Option (Key G × Chain × Slots G) :=
  match chain.state with
  | none => none
  | some state =>
      let rest := if state.count - 1 = 0 then none
        else some ⟨slots.next state.head, state.tail, state.count - 1⟩
      let (key, slots) := slots.reserve state.head
      some (key, ⟨rest⟩, slots)

/-- A reserved slot goes back as it is. -/
def restore (chain : Chain) (slots : Slots G) (key : Key G) : Chain × Slots G :=
  match chain.state with
  | none => (⟨some ⟨key.index, key.index, 1⟩⟩, slots.publish key key.index)
  | some state =>
      (⟨some ⟨key.index, state.tail, min (state.count + 1) maxCount⟩⟩,
        slots.publish key state.head)

end Chain

/-- The pool: what is left of the free slots. -/
abbrev Pool := Option Available

namespace Pool

variable {G : Type} (epochs : Epochs G)

def new (layout : Layout) : Pool := layout.available.map fun (head, count) => ⟨head, count⟩

def available (pool : Pool) : Nat := (pool.map Available.count).getD 0

/-- What the last slot of a chain names that comes before the pool. -/
def link (pool : Pool) (tail : Nat) : Nat := (pool.map Available.head).getD tail

def prepend (pool : Pool) (head count : Nat) : Pool :=
  match pool with
  | none => some ⟨head, count⟩
  | some state => some ⟨head, min (state.count + count) maxCount⟩

def claim (pool : Pool) (slots : Slots G) : Option (Key G × Pool × Slots G) :=
  match pool with
  | none => none
  | some state =>
      let rest := if state.count - 1 = 0 then none
        else some ⟨slots.next state.head, state.count - 1⟩
      let (key, slots) := slots.reserve state.head
      some (key, rest, slots)

/-- Take `count` slots for a domain. Fails with what is there. -/
def tryTake (pool : Pool) (slots : Slots G) (count : Nat) : Except Nat (Chain × Pool × Slots G) :=
  match pool.filter fun state => count ≤ state.count with
  | none => .error pool.available
  | some state =>
      let tail := Links.walk slots.next state.head (count - 1)
      let rest := state.count - count
      let next : Pool := if rest = 0 then none else some ⟨slots.next tail, rest⟩
      .ok (⟨some ⟨state.head, tail, count⟩⟩, next, slots.link tail tail)

/-- A slot that is not used any more gets its next generation first. -/
def recycle (pool : Pool) (slots : Slots G) (key : Key G) : Pool × Slots G :=
  match slots.renew epochs key with
  | (none, slots) => (pool, slots)
  | (some key, slots) => (pool.prepend key.index 1, slots.publish key (pool.link key.index))

def recycleSome (pool : Pool) (slots : Slots G) : Option (Key G) → Pool × Slots G
  | none => (pool, slots)
  | some key => pool.recycle epochs slots key

/-- Detach a task and give its slot back, with the root if that goes too. -/
def freeTask (pool : Pool) (slots : Slots G) (key : Key G) : Pool × Slots G :=
  let (root, slots) := Topology.detach epochs slots key.index
  let slots := slots.unbind key.index
  let (pool, slots) := pool.recycle epochs slots key
  pool.recycleSome epochs slots root

def releaseRoot (pool : Pool) (slots : Slots G) (key : Key G) : Pool × Slots G :=
  let (root, slots) := Topology.close slots key
  pool.recycleSome epochs slots root

/-- A chain comes back in front of the pool. -/
def restore (pool : Pool) (slots : Slots G) (chain : Chain) : Pool × Slots G :=
  match chain.state with
  | none => (pool, slots)
  | some chain =>
      (pool.prepend chain.head chain.count, slots.link chain.tail (pool.link chain.tail))

end Pool

end Dope.Core.Ready.Arena
