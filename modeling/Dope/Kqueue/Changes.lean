import Mathlib.Algebra.Group.Int.Defs
import Mathlib.Algebra.Group.Nat.Defs
import Dope.Base.Rows
import Dope.Base.Run

/-! # The change list

Model of `store/change`. Every file slot has two cells, one for each filter, and
a cell holds at most one event for the kernel. A bitmap keeps the occupied cells
in the order of their ordinals. One staging array serves the tail that is
submitted and the plan of a deletion. An access that the source leaves unchecked
is a fault where it is out of range, and so is a count below zero.
-/

namespace Dope.Kqueue

open Run Index

/-! ## Events -/

def evAdd : BitVec 16 := 0x1

def evDelete : BitVec 16 := 0x2

def evReceipt : BitVec 16 := 0x40

inductive Filter where
  | read
  | write
deriving DecidableEq, Repr

namespace Filter

/-- `EVFILT_READ` and `EVFILT_WRITE`. -/
def raw : Filter → Int
  | .read => -1
  | .write => -2

def lane : Filter → Nat
  | .read => 1
  | .write => 0

def ofLane (lane : Nat) : Filter := if lane = 0 then .write else .read

end Filter

structure Event where
  ident : Nat
  filter : Int
  flags : BitVec 16
  fflags : Nat
  data : Int
  udata : Nat
deriving DecidableEq, Repr

def event (fd filter : Int) (flags : BitVec 16) (udata : Nat) : Event :=
  { ident := (fd % 2 ^ 64).toNat, filter, flags, fflags := 0, data := 0, udata }

def Event.isDelete (event : Event) : Bool := event.flags &&& evDelete != 0

/-- A descriptor in a slot, by the offset of the slot. -/
structure Id where
  offset : Nat
  fd : Int
deriving DecidableEq, Repr

/-- The slot and the filter that a plan could not name (`change::Index`). -/
structure Index where
  offset : Nat
  filter : Filter
deriving DecidableEq, Repr

inductive Fault where
  | slot
  | row
  | staged
  | count
  | fuel
deriving DecidableEq, Repr

/-! ## Cells -/

abbrev Cells (n : Nat) := Fin n × Filter → Option Event

/-- Descending slots, and the write lane of a slot before its read lane. -/
def ordinal (n offset : Nat) (filter : Filter) : Nat := (n - 1 - offset) * 2 + filter.lane

structure Changes (n : Nat) where
  slots : Cells n
  /-- The planes of `pending`: the occupied cells, and the cells of a plan. -/
  live : Nat → Bool
  plan : Nat → Bool
  count : Nat
  staged : Array Event
  stagedLen : Nat
  stagedDelete : Bool

structure Entry (n : Nat) where
  cell : Fin n × Filter
  row : Nat

namespace Entry

variable {n : Nat}

def get (entry : Entry n) (changes : Changes n) : Option Event := changes.slots entry.cell

def set (entry : Entry n) (changes : Changes n) (event : Option Event) :
    Except Fault (Changes n) := do
  let changes ←
    match changes.slots entry.cell, event with
    | none, some _ =>
        .ok { changes with live := mark changes.live entry.row true, count := changes.count + 1 }
    | some _, none =>
        if changes.count = 0 then .error .count
        else
          .ok { changes with
            live := mark changes.live entry.row false
            count := changes.count - 1 }
    | _, _ => .ok changes
  .ok { changes with slots := Function.update changes.slots entry.cell event }

end Entry

namespace Changes

variable {n : Nat}

def tryNew (n : Nat) : Changes n where
  slots := fun _ => none
  live := fun _ => false
  plan := fun _ => false
  count := 0
  staged := Array.replicate (2 * n) (event 0 0 0 0)
  stagedLen := 0
  stagedDelete := false

def entry (_ : Changes n) (offset : Nat) (filter : Filter) : Option (Entry n) :=
  if h : offset < n then
    if ordinal n offset filter < 2 * n then some ⟨(⟨offset, h⟩, filter), ordinal n offset filter⟩
    else none
  else none

def project (_ : Changes n) (row : Nat) : Except Fault (Entry n) :=
  if h : row / 2 < n then
    .ok ⟨(⟨n - 1 - row / 2, by omega⟩, Filter.ofLane (row % 2)), row⟩
  else .error .slot

/-- The next occupied cell, and where the search goes on. -/
def next (changes : Changes n) (start : Nat) : Except Fault (Option (Nat × Entry n)) :=
  match findFrom (2 * n) changes.live start with
  | none => .ok none
  | some row => do
      let entry ← changes.project row
      .ok (some (row + 1, entry))

/-- An unchecked write to the staging array. -/
def write (changes : Changes n) (index : Nat) (event : Event) : Except Fault (Changes n) :=
  if h : index < changes.staged.size then
    .ok { changes with staged := changes.staged.set index event }
  else .error .staged

/-! ## Interests -/

inductive Act where
  | arm (flags : BitVec 16) (data : Nat)
  | delete
  | discard
  | cancel
deriving DecidableEq, Repr

def upsert (changes : Changes n) (entry : Entry n) (fd : Int) (flags : BitVec 16) (data : Nat) :
    Except Fault (Changes n) :=
  match entry.get changes with
  | some current =>
      if current.flags &&& evAdd ≠ 0 ∧ flags &&& (evAdd ||| evDelete) = 0 then
        entry.set changes (some { current with flags := current.flags ||| flags, udata := data })
      else entry.set changes (some (event fd entry.cell.2.raw flags data))
  | none => entry.set changes (some (event fd entry.cell.2.raw flags data))

def act (changes : Changes n) (entry : Entry n) (fd : Int) : Act → Except Fault (Changes n)
  | .arm flags data => changes.upsert entry fd flags data
  | .delete => changes.upsert entry fd evDelete 0
  | .discard => entry.set changes none
  | .cancel =>
      if (entry.get changes).isNone then changes.upsert entry fd evDelete 0
      else entry.set changes none

/-- `raw::discard`: both cells of a file that is closed. -/
def close (changes : Changes n) (offset : Nat) : Except Fault (Changes n) := do
  let start := (n - 1 - offset) * 2
  if start + 1 < 2 * n then
    let first ← changes.project start
    let changes ← first.set changes none
    let second ← changes.project (start + 1)
    second.set changes none
  else .error .row

/-! ## Staging -/

def stage (changes : Changes n) (event : Event) : Except Fault (Changes n) := do
  let delete := changes.stagedDelete || event.isDelete
  let changes ← changes.write changes.stagedLen event
  .ok { changes with stagedLen := changes.stagedLen + 1, stagedDelete := delete }

/-- `grants` is what the budget answers, turn by turn. -/
def batchFrom (grants : Nat → Bool) : Nat → Nat → Nat → Changes n → Except Fault (Changes n)
  | 0, _, _, changes => .ok changes
  | left + 1, turn, cursor, changes =>
      if grants turn then do
        match ← changes.next cursor with
        | none => .ok changes
        | some (cursor, entry) =>
            match entry.get changes with
            | none => .ok changes
            | some event => do
                let changes ← changes.stage event
                batchFrom grants left (turn + 1) cursor changes
      else .ok changes

def batch (changes : Changes n) (grants : Nat → Bool) : Except Fault (Changes n) :=
  batchFrom grants changes.count 0 0 { changes with stagedLen := 0, stagedDelete := false }

def tailFrom : Nat → Nat → Changes n → Except Fault (Changes n)
  | 0, _, changes => .ok changes
  | left + 1, cursor, changes => do
      match ← changes.next cursor with
      | none => .ok changes
      | some (cursor, entry) =>
          match entry.get changes with
          | none => tailFrom left cursor changes
          | some event => do
              let changes ← changes.stage event
              tailFrom left cursor changes

def tail (changes : Changes n) (limit : Nat) : Except Fault (Changes n) :=
  tailFrom (min changes.count limit) 0 { changes with stagedLen := 0, stagedDelete := false }

def removeFrom : Nat → Nat → Changes n → Except Fault (Changes n)
  | 0, _, changes => .ok changes
  | left + 1, cursor, changes => do
      match ← changes.next cursor with
      | none => .ok changes
      | some (cursor, entry) => do
          let changes ← entry.set changes none
          removeFrom left cursor changes

def remove (changes : Changes n) (count : Nat) : Except Fault (Changes n) :=
  removeFrom (min changes.count count) 0 changes

/-! ## The staged tail -/

/-- `Tail::changes`: the staged prefix of the array. -/
def tailEvents (changes : Changes n) : Except Fault (List Event) :=
  if changes.stagedLen ≤ changes.staged.size then
    .ok (changes.staged.toList.take changes.stagedLen)
  else .error .staged

/-- Whoever holds the mutable slice may write any events into it. -/
def edit (changes : Changes n) (events : List Event) : Changes n :=
  { changes with
    stagedDelete := true
    staged := (events ++ changes.staged.toList.drop events.length).toArray }

/-- `Batch::receipts`, for one event. -/
def receipt (changes : Changes n) (index : Nat) : Except Fault (Changes n) :=
  if h : index < changes.staged.size then
    let event := changes.staged[index]
    changes.write index { event with flags := event.flags ||| evReceipt }
  else .error .staged

/-- Deletions go to the front, each exchanged with the first event that is
none. -/
def splitFrom : Nat → Nat → Nat → Array Event → Except Fault (Array Event × Nat)
  | 0, _, deletes, staged => .ok (staged, deletes)
  | left + 1, index, deletes, staged =>
      if h : index < staged.size then
        if staged[index].isDelete then
          if h' : deletes < staged.size then
            let staged := if index ≠ deletes then staged.swap index deletes else staged
            splitFrom left (index + 1) (deletes + 1) staged
          else .error .staged
        else splitFrom left (index + 1) deletes staged
      else .error .staged

def split (changes : Changes n) : Except Fault ((List Event × List Event) × Changes n) := do
  let (staged, deletes) ←
    if changes.stagedDelete then splitFrom changes.stagedLen 0 0 changes.staged
    else .ok (changes.staged, 0)
  let changes := { changes with staged }
  let events ← changes.tailEvents
  .ok ((events.take deletes, events.drop deletes), changes)

/-! ## Deletion plans -/

def popPlan (changes : Changes n) : Option (Nat × Changes n) :=
  (findFrom (2 * n) changes.plan 0).map fun row =>
    (row, { changes with plan := mark changes.plan row false })

/-- Every turn takes a row off the plane, so the loop ends within its rows. -/
def clearPlanFrom : Nat → Changes n → Except Fault (Changes n)
  | 0, _ => .error .fuel
  | fuel + 1, changes =>
      match changes.popPlan with
      | none => .ok changes
      | some (_, changes) => clearPlanFrom fuel changes

def clearPlan (changes : Changes n) : Except Fault (Changes n) :=
  clearPlanFrom (2 * n + 1) changes

/-- An error leaves what was planned so far behind. -/
def planFrom : List (Except Index (Option (Id × Filter))) → Changes n →
    Except Fault (Except Index Unit × Changes n)
  | [], changes => .ok (.ok (), changes)
  | .error error :: _, changes => .ok (.error error, changes)
  | .ok none :: rest, changes => planFrom rest changes
  | .ok (some (id, filter)) :: rest, changes =>
      match changes.entry id.offset filter with
      | none => .ok (.error ⟨id.offset, filter⟩, changes)
      | some cell => do
          let changes := { changes with plan := mark changes.plan cell.row true }
          let changes ← changes.write cell.row (event id.fd filter.raw evDelete 0)
          planFrom rest changes

def tryDelete (changes : Changes n) (entries : List (Except Index (Option (Id × Filter)))) :
    Except Fault (Except Index Unit × Changes n) := do
  let changes ← changes.clearPlan
  planFrom entries changes

def commitPlanFrom : Nat → Changes n → Except Fault (Changes n)
  | 0, _ => .error .fuel
  | fuel + 1, changes =>
      match changes.popPlan with
      | none => .ok changes
      | some (row, changes) =>
          if h : row < changes.staged.size then do
            let event := changes.staged[row]
            let entry ← changes.project row
            let changes ← entry.set changes (some event)
            commitPlanFrom fuel changes
          else .error .staged

/-- `Delete::commit`, with the whole of `usize` as the count to remove. -/
def commitDelete (changes : Changes n) : Except Fault (Changes n) := do
  let changes ← changes.remove (2 ^ 64 - 1)
  commitPlanFrom (2 * n + 1) changes

end Changes

/-- The number of file slots. Twice as many events fit a `c_int`. -/
structure Capacity where
  count : Nat
  bound : count ≤ (2 ^ 31 - 1) / 2

/-! ## Borrows -/

/-- Which borrow of the change list is open. -/
inductive Phase where
  | idle
  | tail
  | plan
deriving DecidableEq, Repr

structure World (n : Nat) where
  changes : Changes n
  phase : Phase

inductive Input where
  | update (id : Id) (filter : Filter) (act : Changes.Act)
  | close (offset : Nat)
  | len
  | batch (grants : Nat → Bool)
  | tail (limit : Nat)
  | edit (events : List Event)
  | receipt (index : Nat)
  | split
  | commit
  | drop
  | tryDelete (entries : List (Except Index (Option (Id × Filter))))
  | commitDelete
  | dropDelete

inductive Output where
  | done
  | missing
  | count (len : Nat) (isEmpty : Bool)
  | staged (events : List Event)
  | parts (deletes updates : List Event)
  | failed (index : Index)
deriving DecidableEq, Repr

namespace World

variable {n : Nat}

def start (n : Nat) : World n := ⟨.tryNew n, .idle⟩

/-- The borrow checker keeps the borrows apart. A write interest alone can be
cancelled, and a file that is closed was admitted by a table of the same size. -/
def allowed (world : World n) : Input → Prop
  | .update _ filter act => world.phase = .idle ∧ (act = .cancel → filter = .write)
  | .close offset => world.phase = .idle ∧ offset < n
  | .len | .batch _ | .tail _ | .tryDelete _ => world.phase = .idle
  | .edit events => world.phase = .tail ∧ events.length = world.changes.stagedLen
  | .receipt index => world.phase = .tail ∧ index < world.changes.stagedLen
  | .split | .commit | .drop => world.phase = .tail
  | .commitDelete | .dropDelete => world.phase = .plan

def step (world : World n) : Input → Except Fault (Output × World n)
  | .update id filter act =>
      match world.changes.entry id.offset filter with
      | none => .ok (.missing, world)
      | some entry => do
          let changes ← world.changes.act entry id.fd act
          .ok (.done, { world with changes })
  | .close offset => do
      let changes ← world.changes.close offset
      .ok (.done, { world with changes })
  | .len => .ok (.count world.changes.count (world.changes.count == 0), world)
  | .batch grants => do
      let changes ← world.changes.batch grants
      let events ← changes.tailEvents
      .ok (.staged events, ⟨changes, .tail⟩)
  | .tail limit => do
      let changes ← world.changes.tail limit
      let events ← changes.tailEvents
      .ok (.staged events, ⟨changes, .tail⟩)
  | .edit events => .ok (.done, { world with changes := world.changes.edit events })
  | .receipt index => do
      let changes ← world.changes.receipt index
      .ok (.done, { world with changes })
  | .split => do
      let ((deletes, updates), changes) ← world.changes.split
      .ok (.parts deletes updates, { world with changes })
  | .commit => do
      let changes ← world.changes.remove world.changes.stagedLen
      .ok (.done, ⟨changes, .idle⟩)
  | .drop => .ok (.done, { world with phase := .idle })
  | .tryDelete entries => do
      let (result, changes) ← world.changes.tryDelete entries
      match result with
      | .error index => .ok (.failed index, ⟨changes, .idle⟩)
      | .ok _ => .ok (.done, ⟨changes, .plan⟩)
  | .commitDelete => do
      let changes ← world.changes.commitDelete
      .ok (.done, ⟨changes, .idle⟩)
  | .dropDelete => .ok (.done, { world with phase := .idle })

def machine (capacity : Capacity) : Machine (World capacity.count) Input Output Fault where
  start world := world = start capacity.count
  allowed := allowed
  step := step

end World

end Dope.Kqueue
