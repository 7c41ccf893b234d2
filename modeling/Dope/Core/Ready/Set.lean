import Mathlib.Algebra.Group.Nat.Defs
import Mathlib.Logic.Function.Basic
import Dope.Base.Summary

/-! # The ready set

Model of `driver/schedule/ready/arena/set`. Every index has two bits in a packed
word, one for each side. Insertions go to the active side, and a drain takes the
other one until it is empty, over as many calls as its budgets need. A summary
knows the words that are not empty, and a cursor for each side remembers where
the last drain stopped.
-/

namespace Dope.Core.Ready

inductive Side where
  | a
  | b
deriving DecidableEq, Repr

namespace Side

def index : Side → Nat
  | .a => 0
  | .b => 1

def other : Side → Side
  | .a => .b
  | .b => .a

end Side

inductive Phase where
  | idle
  | draining
  | paused (side : Side)
deriving DecidableEq, Repr

inductive Mode where
  | idleA
  | idleB
  | drainingA
  | drainingB
  | pausedA
  | pausedB
deriving DecidableEq, Repr

namespace Mode

def new : Mode := .idleA

/-- The side that takes insertions. -/
def active : Mode → Side
  | .idleA => .a
  | .idleB => .b
  | .drainingA | .pausedA => .b
  | .drainingB | .pausedB => .a

def phase : Mode → Phase
  | .idleA | .idleB => .idle
  | .drainingA | .drainingB => .draining
  | .pausedA => .paused .a
  | .pausedB => .paused .b

def idle : Side → Mode
  | .a => .idleA
  | .b => .idleB

def draining : Side → Mode
  | .a => .drainingA
  | .b => .drainingB

def paused : Side → Mode
  | .a => .pausedA
  | .b => .pausedB

end Mode

/-! ## Packed words -/

def entriesPerWord : Nat := 32

def lowMask : BitVec 64 := BitVec.ofNat 64 ((2 ^ 64 - 1) / 3)

def sideMask (side : Side) : BitVec 64 := lowMask <<< side.index

/-- The position of the lowest bit that is set, or 64. -/
def trailingZeros (word : BitVec 64) : Nat := ((List.range 64).find? word.getLsbD).getD 64

/-- A `u16` that is not zero. -/
structure Capacity where
  raw : Nat
  pos : 0 < raw
  bound : raw < 2 ^ 16
deriving DecidableEq, Repr

def Capacity.words (capacity : Capacity) : Nat := 1 + (capacity.raw - 1) / entriesPerWord

structure Store (S : Type) where
  capacity : Capacity
  words : Nat → BitVec 64
  summary : S
  cursors : Side → Nat
  mode : Mode

namespace Store

variable {S : Type} (summary : Index.Summary S Side)

def tryNew (capacity : Capacity) : Store S where
  capacity
  words := fun _ => 0
  summary := summary.new
  cursors := fun _ => 0
  mode := .new

def isEmpty (store : Store S) (side : Side) : Bool := summary.isEmpty store.summary side

/-- Write a packed word, and report the row to the summary when the side begins
or stops to be in it. -/
def publish (set : Bool) (store : Store S) (row : Nat) (side : Side)
    (before after : BitVec 64) : Store S :=
  let written := { store with words := Function.update store.words row after }
  let stable := if set then before else after
  if stable &&& sideMask side = 0 then
    { written with summary := summary.update set store.summary side row }
  else written

def insert (store : Store S) (side : Side) (index : Nat) : Store S :=
  let row := index / entriesPerWord
  let shift := (index % entriesPerWord) * 2
  let current := store.words row
  if current &&& (3#64 <<< shift) ≠ 0 then store
  else publish summary true store row side current
    (current ||| (1#64 <<< (shift + side.index)))

/-- Take an index off the side it is on. Returns whether it was there. -/
def remove (store : Store S) (index : Nat) : Bool × Store S :=
  let row := index / entriesPerWord
  let shift := (index % entriesPerWord) * 2
  let current := store.words row
  let bits := current &&& (3#64 <<< shift)
  if bits = 0 then (false, store)
  else
    let side := if bits &&& lowMask ≠ 0 then Side.a else .b
    (true, publish summary false store row side current (current &&& ~~~bits))

/-- Take the bit out of a word that has one of this side. -/
def pull (store : Store S) (side : Side) (row : Nat) (bits : BitVec 64) : Nat × Store S :=
  let current := store.words row
  let bit := trailingZeros bits
  let published := publish summary false store row side current
    (current &&& ~~~(1#64 <<< bit))
  let index := row * entriesPerWord + bit / 2
  (index, { published with
    cursors := Function.update store.cursors side
      (if index + 1 = store.capacity.raw then 0 else (index + 1) % 2 ^ 16) })

/-- Take the first index of the side at or after `start`. -/
def take (store : Store S) (side : Side) (start : Nat) : Option (Nat × Store S) :=
  if store.capacity.raw ≤ start then none
  else
    let shift := (start % entriesPerWord) * 2 + side.index
    let first := start / entriesPerWord
    let selected := store.words first &&& sideMask side &&& (BitVec.allOnes 64 <<< shift)
    if selected ≠ 0 then some (pull summary store side first selected)
    else
      match summary.find store.summary side (first + 1) with
      | none => none
      | some row => some (pull summary store side row (store.words row &&& sideMask side))

/-- Take the next index of the side, from its cursor and around. -/
def next (store : Store S) (side : Side) : Option (Nat × Store S) :=
  let start := store.cursors side
  match take summary store side start with
  | none => if start ≠ 0 then take summary store side 0 else none
  | some item => some item

/-! ## Drains -/

def start (store : Store S) : Option Side :=
  match store.mode.phase with
  | .draining => none
  | .paused side => some (if isEmpty summary store side then store.mode.active else side)
  | .idle => some store.mode.active

def sealSide (store : Store S) (side : Side) : Store S :=
  if isEmpty summary store side.other then { store with mode := .idle side.other }
  else { store with mode := .paused side.other }

def pause (store : Store S) (side : Side) : Store S :=
  if isEmpty summary store side then sealSide summary store side
  else { store with mode := .paused side }

/-- One admission: nothing is taken without budget. -/
def admitNext (store : Store S) (side : Side) (budget : Nat) : Option (Nat × Store S) :=
  if budget = 0 then none else next summary store side

end Store

/-- A drain that has called back: its side, what is left of its budget, and how
many indices it has handed over. -/
structure Frame where
  side : Side
  left : Nat
  drained : Nat
deriving DecidableEq, Repr

/-- The set, with the drains that are waiting for their callbacks. -/
structure Set (S : Type) where
  store : Store S
  frames : List Frame

inductive Input where
  | insert (index : Nat)
  | remove (index : Nat)
  | clear (index : Nat)
  | drain (budget : Nat)
  | resume
deriving DecidableEq, Repr

inductive Output where
  | done
  | readiness (ready : Bool)
  | activated (index : Nat)
  | finished (drained : Nat)
deriving DecidableEq, Repr

namespace Set

variable {S : Type} (summary : Index.Summary S Side)

def tryNew (capacity : Capacity) : Set S := ⟨Store.tryNew summary capacity, []⟩

/-- Start a drain. It runs to its first callback, or to its end. -/
def drain (set : Set S) (budget : Nat) : Output × Set S :=
  match set.store.start summary with
  | none => (.finished 0, set)
  | some side =>
      match set.store.admitNext summary side budget with
      | none => (.finished 0, { set with store := set.store.pause summary side })
      | some (index, store) =>
          (.activated index,
            ⟨{ store with mode := .draining side }, ⟨side, budget - 1, 1⟩ :: set.frames⟩)

/-- A callback has returned. The drain runs to the next one, or to its end. -/
def resume (set : Set S) : Output × Set S :=
  match set.frames with
  | [] => (.done, set)
  | frame :: frames =>
      match set.store.admitNext summary frame.side frame.left with
      | none => (.finished frame.drained, ⟨set.store.pause summary frame.side, frames⟩)
      | some (index, store) =>
          (.activated index,
            ⟨store, ⟨frame.side, frame.left - 1, frame.drained + 1⟩ :: frames⟩)

def step (set : Set S) : Input → Output × Set S
  | .insert index =>
      (.done, { set with store := set.store.insert summary set.store.mode.active index })
  | .remove index =>
      (.readiness (set.store.remove summary index).1,
        { set with store := (set.store.remove summary index).2 })
  | .clear index => (.done, { set with store := (set.store.remove summary index).2 })
  | .drain budget => set.drain summary budget
  | .resume => set.resume summary

/-- Indices are below the capacity, and only a drain that waits can resume. -/
def allowed (set : Set S) : Input → Prop
  | .insert index | .remove index | .clear index => index < set.store.capacity.raw
  | .drain _ => True
  | .resume => set.frames ≠ []

end Set

end Dope.Core.Ready
