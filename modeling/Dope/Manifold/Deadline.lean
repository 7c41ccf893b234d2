import Dope.Base.Resident
import Dope.Base.Run
import Dope.Core.Clock

/-! # Deadlines of client connections

Model of `client/deadline`. A lane has three fixed deadlines and one for
inbound traffic. It stands in a heap under its earliest deadline, and the heap
keeps one lane for every connection row.
-/

namespace Dope.Manifold.Deadline

open Core.Clock (clampAdd)

inductive Kind where
  | connect
  | inbound
  | send
  | lifetime
deriving DecidableEq, Repr

def Kind.rank : Kind → Nat
  | .connect => 0
  | .inbound => 1
  | .send => 2
  | .lifetime => 3

inductive Fixed where
  | connect
  | send
  | lifetime
deriving DecidableEq, Repr

namespace Fixed

def all : List Fixed := [.connect, .send, .lifetime]

def kind : Fixed → Kind
  | .connect => .connect
  | .send => .send
  | .lifetime => .lifetime

end Fixed

structure Entry where
  instant : Nat
  kind : Kind
deriving DecidableEq, Repr

/-- The derived order: instants first, then kinds. -/
def Entry.lt (entry other : Entry) : Prop :=
  entry.instant < other.instant ∨
    entry.instant = other.instant ∧ entry.kind.rank < other.kind.rank

instance (entry other : Entry) : Decidable (entry.lt other) :=
  inferInstanceAs (Decidable (_ ∨ _))

def Entry.le (entry other : Entry) : Prop :=
  entry.instant < other.instant ∨
    entry.instant = other.instant ∧ entry.kind.rank ≤ other.kind.rank

structure Reception where
  instant : Nat
  since : Nat
deriving DecidableEq, Repr

structure Lane where
  fixed : Fixed → Option Nat
  reception : Option Reception

namespace Lane

def empty : Lane := ⟨fun _ => none, none⟩

/-- The scan of the fixed deadlines, with the earliest entry so far. -/
def nextFrom (lane : Lane) : List Fixed → Option Entry → Option Entry
  | [], next => next
  | kind :: rest, next =>
      match lane.fixed kind with
      | none => lane.nextFrom rest next
      | some instant =>
          if next.all fun entry => (⟨instant, kind.kind⟩ : Entry).lt entry then
            lane.nextFrom rest (some ⟨instant, kind.kind⟩)
          else lane.nextFrom rest next

def next (lane : Lane) : Option Entry :=
  lane.nextFrom Fixed.all (lane.reception.map fun recv => ⟨recv.instant, .inbound⟩)

def put (lane : Lane) (kind : Fixed) (value : Option Nat) : Lane :=
  { lane with fixed := Function.update lane.fixed kind value }

def set (lane : Lane) (kind : Fixed) (instant : Nat) : Lane × Entry :=
  (lane.put kind (some instant),
    (lane.put kind (some instant)).next.getD ⟨instant, kind.kind⟩)

def cancel (lane : Lane) : Kind → Lane
  | .connect => lane.put .connect none
  | .inbound => { lane with reception := none }
  | .send => lane.put .send none
  | .lifetime => lane.put .lifetime none

def isArmed (lane : Lane) (kind : Fixed) : Bool := (lane.fixed kind).isSome

def recvSince (lane : Lane) (now : Nat) (seen : Option Nat) : Nat :=
  match lane.reception with
  | some recv =>
      match seen with
      | some seen => if recv.since < seen then seen else recv.since
      | none => recv.since
  | none => now

def armRecv (lane : Lane) (since instant : Nat) : Lane :=
  { lane with reception := some ⟨instant, since⟩ }

end Lane

/-! ## The book -/

/-- How a popped deadline is resolved. Only an inbound one has a choice. -/
inductive Resolution where
  | clear
  | cancelRecv
  | rearmRecv (now : Nat) (seen : Option Nat) (window : Nat)
deriving DecidableEq, Repr

/-- What became of a lane whose deadline was popped. -/
inductive Fate where
  | kept
  | retired
deriving DecidableEq, Repr

namespace Book

variable {H K ι : Type} [DecidableEq K] (heap : Resident.Heap H K ι Entry Lane) (limit : Nat)

def tryNew : H := heap.new Lane.empty

def arm (book : H) (key : K) (kind : Fixed) (instant : Nat) : H :=
  heap.update book key (Lane.empty.put kind (some instant), ⟨instant, kind.kind⟩)
    (fun lane => lane.set kind instant)

def armAt (book : H) (key : K) (kind : Fixed) (instant : Nat) : H :=
  arm heap book key kind instant

def ensureAfter (book : H) (key : K) (kind : Fixed) (now window : Nat) : H :=
  match heap.view book key with
  | .occupied _ lane =>
      if lane.isArmed kind then book
      else arm heap book key kind (clampAdd limit now window)
  | .vacant | .conflict => arm heap book key kind (clampAdd limit now window)

def closing (book : H) (key : K) (now window : Nat) : H :=
  let instant := match heap.view book key with
    | .occupied _ lane => (lane.fixed .send).getD (clampAdd limit now window)
    | .vacant | .conflict => clampAdd limit now window
  heap.update book key (Lane.empty.set .send instant) (fun _ => Lane.empty.set .send instant)

def cancel (book : H) (key : K) (kind : Kind) : H :=
  match heap.view book key with
  | .vacant | .conflict => book
  | .occupied priority lane =>
      let book := heap.edit book key (lane.cancel kind)
      if priority.kind ≠ kind then book
      else
        match (lane.cancel kind).next with
        | some next => heap.set book key next
        | none => heap.retire book key

def armInbound (book : H) (key : K) (now : Nat) (seen : Option Nat) (window : Nat) : H :=
  let since := match heap.view book key with
    | .occupied _ lane => lane.recvSince now seen
    | .vacant | .conflict => now
  let instant := clampAdd limit since window
  let update := heap.update book key (Lane.empty.armRecv since instant, ⟨instant, .inbound⟩)
    (fun lane => (lane.armRecv since instant,
      (lane.armRecv since instant).next.getD ⟨instant, .inbound⟩))
  match heap.view book key with
  | .occupied _ lane => if lane.reception = some ⟨instant, since⟩ then book else update
  | .vacant | .conflict => update

def clear (book : H) (key : K) : H := heap.clear book key Lane.empty

/-! ## Expiry -/

/-- The earliest deadline, out of the heap, if it is not later than `now`. -/
def popExpired (book : H) (now : Nat) : Option (K × Entry × H) :=
  match heap.first book with
  | none => none
  | some (key, priority) =>
      if ¬ priority.instant > now then some (key, priority, heap.remove book key) else none

/-- Back into the heap, under what is left in the lane. -/
def commitNext (book : H) (key : K) (lane : Lane) : H :=
  match lane.next with
  | some next => heap.reinsert book key next
  | none => book

def Expired.clear (book : H) (key : K) : H := heap.edit book key Lane.empty

def cancelRecv (book : H) (key : K) : H :=
  let lane := (heap.row book (heap.index key)).resident
  let lane := { lane with reception := none }
  commitNext heap (heap.edit book key lane) key lane

def rearmRecv (book : H) (key : K) (now : Nat) (seen : Option Nat) (window : Nat) : Fate × H :=
  let lane := (heap.row book (heap.index key)).resident
  let since := lane.recvSince now seen
  let instant := clampAdd limit since window
  if instant ≤ now then (.retired, heap.edit book key Lane.empty)
  else
    (.kept, commitNext heap (heap.edit book key (lane.armRecv since instant)) key
      (lane.armRecv since instant))

def resolve (book : H) (key : K) (kind : Kind) (resolution : Resolution) : Fate × H :=
  match kind, resolution with
  | .inbound, .cancelRecv => (.kept, cancelRecv heap book key)
  | .inbound, .rearmRecv now seen window => rearmRecv heap limit book key now seen window
  | _, _ => (.retired, Expired.clear heap book key)

end Book

end Dope.Manifold.Deadline
