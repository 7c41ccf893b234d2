import Dope.Base.Links
import Mathlib.Data.BitVec

/-! # Persistent broadcast subscriptions

Model of `driver/schedule/ready/wake/fanout/storage` and of the drain over it.
Subscribers are chained in the order of their registrations. A pass follows the
chain from a cursor, while subscribers come and go and epochs are published.
-/

namespace Dope.Core.Ready.Fanout

open Links

inductive Reject where
  | active
  | full
deriving DecidableEq, Repr

/-- One examined subscriber. What is taken is there when its tag says so. -/
inductive Step (W : Type) where
  | idle
  | item (value : Option W)
deriving DecidableEq, Repr

def present : BitVec 64 := 1

structure Entry (W : Type) where
  value : Option W
  delivered : BitVec 64
deriving DecidableEq, Repr

namespace Entry

variable {W : Type}

def install (epoch : BitVec 64) (value : W) : Entry W := ⟨some value, epoch ||| present⟩

def step (entry : Entry W) (epoch : BitVec 64) : Step W × Entry W :=
  let state := entry.delivered
  if epoch ≤ state &&& ~~~present then (.idle, entry)
  else if state &&& present = 0 then (.idle, { entry with delivered := epoch })
  else (.item entry.value, ⟨none, epoch⟩)

def retire (entry : Entry W) : Entry W := ⟨none, entry.delivered &&& ~~~present⟩

def reset (entry : Entry W) : Entry W := { entry with delivered := entry.delivered &&& present }

end Entry

structure Registry (W : Type) where
  entries : Nat → Entry W
  links : List Nat
  free : List Nat
  cursor : Option Nat
  epoch : BitVec 64
  draining : BitVec 64

/-- A lease of a slot of a registry, which is known by its address. -/
structure Bound where
  target : Nat
  key : Nat
deriving DecidableEq, Repr

abbrev Lease := Option Bound

namespace Registry

variable {W : Type}

def tryNew (capacity : Nat) : Registry W where
  entries := fun _ => ⟨none, 0⟩
  links := []
  free := List.range capacity
  cursor := none
  epoch := 0
  draining := 0

def tryInsert (registry : Registry W) (value : W) : Except Reject (Nat × Registry W) :=
  match registry.free with
  | [] => .error .full
  | index :: free =>
      .ok (index, { registry with
        free
        links := registry.links ++ [index]
        entries := Function.update registry.entries index (.install registry.epoch value) })

def tryKeep (self : Nat) (registry : Registry W) (lease : Lease) (value : W) :
    Except Reject (Lease × Registry W) :=
  match lease with
  | some active =>
      if active.target ≠ self then .error .active
      else .ok (lease, { registry with
        entries := Function.update registry.entries active.key
          (.install registry.epoch value) })
  | none =>
      match registry.tryInsert value with
      | .error reject => .error reject
      | .ok (key, registry) => .ok (some ⟨self, key⟩, registry)

/-- A publication during a pass only sets the epoch. When the epochs wrap, every
subscriber is as if it had never been delivered to. -/
def publish (registry : Registry W) : Registry W :=
  let epoch := registry.epoch + 2
  let (epoch, registry) : BitVec 64 × Registry W :=
    if epoch = 0 then
      (2, { registry with entries := fun index => (registry.entries index).reset, draining := 0 })
    else (epoch, registry)
  let registry := { registry with epoch }
  if registry.cursor.isNone then
    { registry with draining := epoch, cursor := registry.links.head? }
  else registry

def hasPending (registry : Registry W) : Bool :=
  registry.cursor.isSome || registry.draining != registry.epoch

def step (registry : Registry W) : Option (Step W) × Registry W :=
  let registry :=
    if registry.cursor.isNone ∧ registry.draining ≠ registry.epoch then
      { registry with draining := registry.epoch, cursor := registry.links.head? }
    else registry
  match registry.cursor with
  | none => (none, registry)
  | some index =>
      let (examined, entry) := (registry.entries index).step registry.draining
      (some examined, { registry with
        cursor := after index registry.links
        entries := Function.update registry.entries index entry })

def retire (registry : Registry W) (key : Nat) : Registry W :=
  let cursor := if registry.cursor = some key then after key registry.links else registry.cursor
  let last := (before key registry.links).isNone ∧ (after key registry.links).isNone
  { registry with
    cursor
    links := registry.links.erase key
    draining := if last then registry.epoch else registry.draining
    free := key :: registry.free
    entries := Function.update registry.entries key (registry.entries key).retire }

end Registry

/-! ## Drains -/

inductive Drain (W : Type) where
  | empty
  | woke (target : Option W)
  | exhausted
deriving DecidableEq, Repr

/-- Examine subscribers until one is woken, at most `work` of them. -/
def one {W : Type} : Nat → Registry W → Drain W × Registry W
  | work, registry =>
      if !registry.hasPending then (.empty, registry.step.2)
      else
        match work with
        | 0 => (.exhausted, registry)
        | work + 1 =>
            match registry.step with
            | (none, registry) => (.empty, registry)
            | (some .idle, registry) => one work registry
            | (some (.item target), registry) => (.woke target, registry)

end Dope.Core.Ready.Fanout
