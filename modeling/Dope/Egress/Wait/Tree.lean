import Dope.Base.Avl
import Mathlib.Data.Fintype.Basic
import Mathlib.Logic.Function.Basic

/-! # The wait forest of the egress credit queue

Model of `load/credit/wait/tree`. Waiting lanes are linked by lane index in
three intrusive AVL trees, one for each class of shared entry demand. A node
keeps its links, its height and the oldest ticket of its subtree in the lane's
cell of one shared plane. The source reaches cells through unchecked indices;
here the plane is total on the lanes of the pool.

`Edit` mutates the plane in place, so its methods take and return the plane.
The source recurses and loops on links without a bound. The model gives those
three functions fuel and fails with `none` when it runs out; on a well-formed
forest the lane count is always enough fuel.
-/

namespace Dope.Egress.Wait

open Dope.Avl (Side)

/-- The number of lanes of one pool, as admitted by `LaneCount::try_new`. -/
structure LaneCount where
  count : Nat
  pos : 0 < count
  lt : count < 2 ^ 32 - 1

/-- Shared entry demand after this lane's protected credit has been applied. -/
inductive Entries where
  | zero
  | one
  | two
deriving DecidableEq, Repr

/-- Both axes of one credit quantity. -/
structure Amount where
  entries : Nat
  resident : Nat
deriving DecidableEq, Repr

def Amount.zero : Amount := ⟨0, 0⟩

/-- `Demand<2>`: the entry component is bounded by two, since a queued request
asks for at most two entries and protected credit is only subtracted. -/
structure Demand where
  amount : Amount
  bound : amount.entries ≤ 2
deriving DecidableEq

def Demand.fits (demand : Demand) (free : Amount) : Prop :=
  demand.amount.entries ≤ free.entries ∧ demand.amount.resident ≤ free.resident

instance (demand : Demand) (free : Amount) : Decidable (demand.fits free) :=
  inferInstanceAs (Decidable (_ ∧ _))

def Entries.ofDemand (demand : Demand) : Entries :=
  match demand.amount.entries with
  | 0 => .zero
  | 1 => .one
  | _ => .two

/-- The entry credit a class stands for. -/
def Entries.toNat : Entries → Nat
  | .zero => 0
  | .one => 1
  | .two => 2

structure Oldest (n : Nat) where
  ticket : Nat
  lane : Fin n
deriving DecidableEq, Repr

structure Node (n : Nat) where
  ticket : Nat
  oldest : Option (Oldest n)
  left : Option (Fin n)
  right : Option (Fin n)
  parent : Option (Fin n)
  resident : Nat
  height : Nat
  entries : Entries
deriving DecidableEq, Repr

/-- The node plane, one cell for each lane. -/
abbrev Nodes (n : Nat) := Fin n → Node n

variable {n : Nat}

def Node.idle : Node n :=
  { ticket := 0, oldest := none, left := none, right := none, parent := none,
    resident := 0, height := 1, entries := .zero }

def Node.waiting (lane : Fin n) (resident : Nat) (entries : Entries) (ticket : Nat) : Node n :=
  { ticket, oldest := some ⟨ticket, lane⟩, left := none, right := none, parent := none,
    resident, height := 1, entries }

/-- `Node::height`: an absent subtree has height zero. -/
def Node.heightAt (nodes : Nodes n) : Option (Fin n) → Nat
  | some index => (nodes index).height
  | none => 0

def Node.child (node : Node n) : Side → Option (Fin n)
  | .left => node.left
  | .right => node.right

def Node.setChild (node : Node n) (side : Side) (child : Option (Fin n)) : Node n :=
  match side with
  | .left => { node with left := child }
  | .right => { node with right := child }

def Node.setParent (node : Node n) (parent : Option (Fin n)) : Node n :=
  { node with parent := parent }

/-- `get_mut`: replace one cell of the plane. -/
def Nodes.modify (nodes : Nodes n) (index : Fin n) (f : Node n → Node n) : Nodes n :=
  Function.update nodes index (f (nodes index))

/-! ## Oldest tickets -/

/-- `min_by_key` keeps the left operand when both tickets are equal. -/
def Oldest.best : Option (Oldest n) → Option (Oldest n) → Option (Oldest n)
  | some left, some right => if right.ticket < left.ticket then some right else some left
  | some left, none => some left
  | none, right => right

def Oldest.at (nodes : Nodes n) (index : Option (Fin n)) : Option (Oldest n) :=
  index.bind fun index => (nodes index).oldest

/-! ## In-place editing -/

namespace Edit

/-- The shared body of `left` and `right`. -/
def link (side : Side) (nodes : Nodes n) (parent : Fin n) (child : Option (Fin n)) : Nodes n :=
  let nodes := nodes.modify parent fun node => node.setChild side child
  match child with
  | some child => nodes.modify child fun node => node.setParent (some parent)
  | none => nodes

def left (nodes : Nodes n) (parent : Fin n) (child : Option (Fin n)) : Nodes n :=
  link .left nodes parent child

def right (nodes : Nodes n) (parent : Fin n) (child : Option (Fin n)) : Nodes n :=
  link .right nodes parent child

def splice (nodes : Nodes n) (parent index : Fin n) (child : Option (Fin n)) : Nodes n :=
  if (nodes parent).left = some index then left nodes parent child
  else right nodes parent child

/-- Recompute the cached fields; heights are `u8`, so the increment wraps. -/
def update (nodes : Nodes n) (index : Fin n) : Nodes n :=
  let node := nodes index
  let own := some ⟨node.ticket, index⟩
  let oldest :=
    Oldest.best (Oldest.best (Oldest.at nodes node.left) own) (Oldest.at nodes node.right)
  let height :=
    (max (Node.heightAt nodes node.left) (Node.heightAt nodes node.right) + 1) % 2 ^ 8
  nodes.modify index fun node => { node with height := height, oldest := oldest }

inductive Tilt (n : Nat) where
  | left (pivot : Fin n)
  | level
  | right (pivot : Fin n)
deriving DecidableEq, Repr

def tilt (nodes : Nodes n) (index : Fin n) : Tilt n :=
  let node := nodes index
  let left := Node.heightAt nodes node.left
  let right := Node.heightAt nodes node.right
  if (right + 1) % 2 ^ 8 < left then node.left.elim .level .left
  else if (left + 1) % 2 ^ 8 < right then node.right.elim .level .right
  else .level

/-- The shared body of `rotate_left` and `rotate_right`: `pivot` is the child
of `index` away from `side` and takes its place. -/
def rotate (side : Side) (nodes : Nodes n) (index pivot : Fin n) : Nodes n × Fin n :=
  let parent := (nodes index).parent
  let middle := (nodes pivot).child side
  let nodes := link side.flip nodes index middle
  let nodes := link side nodes pivot (some index)
  let nodes := nodes.modify pivot fun node => node.setParent parent
  let nodes := update nodes index
  let nodes := update nodes pivot
  (nodes, pivot)

/-- The shared body of the two tilted cases of `rebalance`: `pivot` is the
overgrown child away from `side`. -/
def lift (side : Side) (nodes : Nodes n) (index pivot : Fin n) : Nodes n × Fin n :=
  let node := nodes pivot
  match node.child side with
  | some child =>
      if Node.heightAt nodes (node.child side.flip) < Node.heightAt nodes (node.child side) then
        let (nodes, pivot) := rotate side.flip nodes pivot child
        let nodes := link side.flip nodes index (some pivot)
        rotate side nodes index pivot
      else rotate side nodes index pivot
  | none => rotate side nodes index pivot

def rebalance (nodes : Nodes n) (index : Fin n) : Nodes n × Fin n :=
  let nodes := update nodes index
  match tilt nodes index with
  | .left pivot => lift .right nodes index pivot
  | .right pivot => lift .left nodes index pivot
  | .level => (nodes, index)

/-- The search order: resident demand first, then the lane index. -/
def precedes (nodes : Nodes n) (a b : Fin n) : Prop :=
  (nodes a).resident < (nodes b).resident ∨ ((nodes a).resident = (nodes b).resident ∧ a < b)

instance (nodes : Nodes n) (a b : Fin n) : Decidable (precedes nodes a b) :=
  inferInstanceAs (Decidable (_ ∨ _))

def insert : Nat → Nodes n → Option (Fin n) → Fin n → Option (Nodes n × Fin n)
  | _, nodes, none, index => some (nodes, index)
  | 0, _, some _, _ => none
  | fuel + 1, nodes, some root, index => do
      if precedes nodes index root then
        let (nodes, child) ← insert fuel nodes (nodes root).left index
        return rebalance (left nodes root (some child)) root
      else
        let (nodes, child) ← insert fuel nodes (nodes root).right index
        return rebalance (right nodes root (some child)) root

/-- Walk to the leftmost node, remembering the node before it. -/
def minimum : Nat → Nodes n → Fin n → Option (Fin n) → Option (Fin n × Option (Fin n))
  | 0, _, _, _ => none
  | fuel + 1, nodes, root, parent =>
      match (nodes root).left with
      | some left => minimum fuel nodes left (some root)
      | none => some (root, parent)

def replace (nodes : Nodes n) (root : Option (Fin n)) (index : Fin n) (child : Option (Fin n)) :
    Nodes n × Option (Fin n) :=
  match (nodes index).parent with
  | some parent => (splice nodes parent index child, root)
  | none =>
      match child with
      | some top => (nodes.modify top fun node => node.setParent none, child)
      | none => (nodes, child)

def restore : Nat → Nodes n → Option (Fin n) → Option (Fin n) → Option (Nodes n × Option (Fin n))
  | _, nodes, root, none => some (nodes, root)
  | 0, _, _, some _ => none
  | fuel + 1, nodes, root, some index =>
      let parent := (nodes index).parent
      let (nodes, balanced) := rebalance nodes index
      match parent with
      | some up => restore fuel (splice nodes up index (some balanced)) root parent
      | none =>
          restore fuel (nodes.modify balanced fun node => node.setParent none)
            (some balanced) parent

def remove (fuel : Nat) (nodes : Nodes n) (root : Option (Fin n)) (index : Fin n) :
    Option (Nodes n × Option (Fin n)) :=
  match (nodes index).left, (nodes index).right with
  | none, child | child, none =>
      let parent := (nodes index).parent
      let (nodes, root) := replace nodes root index child
      restore fuel nodes root parent
  | some left', some right' => do
      let (next, parent) ← minimum fuel nodes right' none
      match parent with
      | none =>
          let (nodes, root) := replace nodes root index (some next)
          let nodes := left nodes next (some left')
          restore fuel nodes root (some next)
      | some parent =>
          let child := (nodes next).right
          let nodes := left nodes parent child
          let (nodes, root) := replace nodes root index (some next)
          let nodes := left nodes next (some left')
          let nodes := right nodes next (some right')
          restore fuel nodes root (some parent)

end Edit

/-! ## The three roots -/

/-- The roots of the three demand classes (`State` in the source). -/
structure Roots (n : Nat) where
  zero : Option (Fin n)
  one : Option (Fin n)
  two : Option (Fin n)
deriving DecidableEq, Repr

def Roots.new : Roots n := ⟨none, none, none⟩

def Roots.get (roots : Roots n) : Entries → Option (Fin n)
  | .zero => roots.zero
  | .one => roots.one
  | .two => roots.two

def Roots.set (roots : Roots n) (entries : Entries) (root : Option (Fin n)) : Roots n :=
  match entries with
  | .zero => { roots with zero := root }
  | .one => { roots with one := root }
  | .two => { roots with two := root }

def Roots.isEmpty (roots : Roots n) : Bool :=
  roots.zero.isNone && roots.one.isNone && roots.two.isNone

/-- The roots together with the node plane they index. -/
structure Forest (n : Nat) where
  roots : Roots n
  nodes : Nodes n

namespace Forest

def new : Forest n := ⟨Roots.new, fun _ => Node.idle⟩

/-- A walk meets every lane at most once, so the lane count bounds each loop. -/
def fuel (n : Nat) : Nat := n + 1

def insertNode (forest : Forest n) (index : Fin n) (node : Node n) : Option (Forest n) := do
  let entries := node.entries
  let nodes := forest.nodes.modify index fun _ => node
  let (nodes, root) ← Edit.insert (fuel n) nodes (forest.roots.get entries) index
  let nodes := nodes.modify root fun node => node.setParent none
  return ⟨forest.roots.set entries (some root), nodes⟩

def insert (forest : Forest n) (index : Fin n) (demand : Demand) (ticket : Nat) :
    Option (Forest n) :=
  forest.insertNode index
    (Node.waiting index demand.amount.resident (Entries.ofDemand demand) ticket)

def remove (forest : Forest n) (index : Fin n) : Option (Forest n) := do
  let entries := (forest.nodes index).entries
  let (nodes, root) ← Edit.remove (fuel n) forest.nodes (forest.roots.get entries) index
  return ⟨forest.roots.set entries root, nodes⟩

def refresh (forest : Forest n) (index : Fin n) (demand : Demand) : Option (Forest n) := do
  let node := forest.nodes index
  let ticket := node.ticket
  let entries := Entries.ofDemand demand
  if node.entries = entries ∧ node.resident = demand.amount.resident then return forest
  let forest ← forest.remove index
  forest.insertNode index (Node.waiting index demand.amount.resident entries ticket)

/-! ## Selection -/

/-- `Oldest::eligible`: the smallest ticket among the nodes of one tree whose
resident demand is at most `resident`. -/
def eligibleAt : Nat → Nodes n → Option (Fin n) → Nat → Option (Option (Oldest n))
  | _, _, none, _ => some none
  | 0, _, some _, _ => none
  | fuel + 1, nodes, some index, resident => do
      let current := nodes index
      if resident < current.resident then eligibleAt fuel nodes current.left resident
      else
        let left := Oldest.at nodes current.left
        let own := some ⟨current.ticket, index⟩
        let right ← eligibleAt fuel nodes current.right resident
        return Oldest.best (Oldest.best left own) right

def oldestView (forest : Forest n) : Option (Oldest n) :=
  let zero := Oldest.at forest.nodes forest.roots.zero
  let one := Oldest.at forest.nodes forest.roots.one
  let two := Oldest.at forest.nodes forest.roots.two
  Oldest.best (Oldest.best zero one) two

/-- `State::oldest`, as the lane of the candidate. -/
def oldest (forest : Forest n) : Option (Fin n) :=
  forest.oldestView.map (·.lane)

/-- `State::eligible`, as the lane of the candidate. -/
def eligible (forest : Forest n) (shared : Amount) : Option (Option (Fin n)) := do
  let resident := shared.resident
  let zero ← eligibleAt (fuel n) forest.nodes forest.roots.zero resident
  let oldest ←
    if shared.entries = 0 then pure zero
    else if shared.entries = 1 then do
      let one ← eligibleAt (fuel n) forest.nodes forest.roots.one resident
      pure (Oldest.best zero one)
    else do
      let one ← eligibleAt (fuel n) forest.nodes forest.roots.one resident
      let two ← eligibleAt (fuel n) forest.nodes forest.roots.two resident
      pure (Oldest.best (Oldest.best zero one) two)
  return oldest.map (·.lane)

end Forest

end Dope.Egress.Wait
