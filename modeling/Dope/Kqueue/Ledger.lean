import Dope.Kqueue.Changes

/-! # The map of changes

What the change list is for: a map from slots and filters to the event that the
kernel has not seen yet. A tail takes the first of them in the order of the
cells, a deletion plan takes the place of the whole map.
-/

namespace Dope.Kqueue

variable {n : Nat}

namespace Cells

/-- All cells in the order of their ordinals: descending slots, and the write
lane of a slot before its read lane. -/
def order (n : Nat) : List (Fin n × Filter) :=
  (List.finRange n).reverse.flatMap fun slot => [(slot, .write), (slot, .read)]

/-- The occupied cells with their events, in that order. -/
def entries (cells : Cells n) : List ((Fin n × Filter) × Event) :=
  (order n).filterMap fun cell => (cells cell).map fun event => (cell, event)

def clear (cells : Cells n) (taken : List (Fin n × Filter)) : Cells n :=
  fun cell => if cell ∈ taken then none else cells cell

/-- What an interest makes of its cell. -/
def merge (current : Option Event) (fd : Int) (filter : Filter) (flags : BitVec 16)
    (data : Nat) : Event :=
  match current with
  | some current =>
      if current.flags &&& evAdd ≠ 0 ∧ flags &&& (evAdd ||| evDelete) = 0 then
        { current with flags := current.flags ||| flags, udata := data }
      else event fd filter.raw flags data
  | none => event fd filter.raw flags data

def acted (current : Option Event) (fd : Int) (filter : Filter) : Changes.Act → Option Event
  | .arm flags data => some (merge current fd filter flags data)
  | .delete => some (merge current fd filter evDelete 0)
  | .discard => none
  | .cancel => if current.isNone then some (merge current fd filter evDelete 0) else none

/-- The deletions that a plan names, or the first entry that it cannot name. -/
def planned : List (Except Index (Option (Id × Filter))) → Cells n → Except Index (Cells n)
  | [], plan => .ok plan
  | .error index :: _, _ => .error index
  | .ok none :: rest, plan => planned rest plan
  | .ok (some (id, filter)) :: rest, plan =>
      if h : id.offset < n then
        planned rest (Function.update plan (⟨id.offset, h⟩, filter)
          (some (event id.fd filter.raw evDelete 0)))
      else .error ⟨id.offset, filter⟩

end Cells

/-- The open borrow, with the cells and the events of a tail or with the plan. -/
inductive Stage (n : Nat) where
  | idle
  | tail (taken : List (Fin n × Filter)) (events : List Event)
  | plan (plan : Cells n)

structure Ledger (n : Nat) where
  cells : Cells n
  stage : Stage n

/-- The number of turns that a budget admits, of at most `count`. -/
structure Admits (grants : Nat → Bool) (count k : Nat) : Prop where
  le : k ≤ count
  granted : ∀ turn < k, grants turn = true
  ended : k = count ∨ grants k = false

namespace Ledger

open Cells

inductive Step : Ledger n → Input → Output → Ledger n → Prop where
  | update {cells : Cells n} {id : Id} {filter : Filter} {act : Changes.Act}
      (inside : id.offset < n) :
      Step ⟨cells, .idle⟩ (.update id filter act) .done
        ⟨Function.update cells (⟨id.offset, inside⟩, filter)
          (acted (cells (⟨id.offset, inside⟩, filter)) id.fd filter act), .idle⟩
  | missing {cells : Cells n} {id : Id} {filter : Filter} {act : Changes.Act} :
      n ≤ id.offset → Step ⟨cells, .idle⟩ (.update id filter act) .missing ⟨cells, .idle⟩
  | close {cells : Cells n} {offset : Nat} (inside : offset < n) :
      Step ⟨cells, .idle⟩ (.close offset) .done
        ⟨cells.clear [(⟨offset, inside⟩, .write), (⟨offset, inside⟩, .read)], .idle⟩
  | len {cells : Cells n} :
      Step ⟨cells, .idle⟩ .len (.count cells.entries.length cells.entries.isEmpty) ⟨cells, .idle⟩
  | batch {cells : Cells n} {grants : Nat → Bool} {k : Nat} :
      Admits grants cells.entries.length k →
      Step ⟨cells, .idle⟩ (.batch grants) (.staged ((cells.entries.take k).map (·.2)))
        ⟨cells, .tail ((cells.entries.take k).map (·.1)) ((cells.entries.take k).map (·.2))⟩
  | tail {cells : Cells n} {limit : Nat} :
      Step ⟨cells, .idle⟩ (.tail limit) (.staged ((cells.entries.take limit).map (·.2)))
        ⟨cells, .tail ((cells.entries.take limit).map (·.1))
          ((cells.entries.take limit).map (·.2))⟩
  | edit {cells : Cells n} {taken : List (Fin n × Filter)} {events events' : List Event} :
      events'.length = events.length →
      Step ⟨cells, .tail taken events⟩ (.edit events') .done ⟨cells, .tail taken events'⟩
  | receipt {cells : Cells n} {taken : List (Fin n × Filter)} {events : List Event}
      {index : Nat} (inside : index < events.length) :
      Step ⟨cells, .tail taken events⟩ (.receipt index) .done
        ⟨cells, .tail taken (events.set index
          { events[index] with flags := events[index].flags ||| evReceipt })⟩
  | split {cells : Cells n} {taken : List (Fin n × Filter)}
      {events deletes updates : List Event} :
      (deletes ++ updates).Perm events → (∀ event ∈ deletes, event.isDelete = true) →
      (∀ event ∈ updates, event.isDelete = false) →
      Step ⟨cells, .tail taken events⟩ .split (.parts deletes updates)
        ⟨cells, .tail taken (deletes ++ updates)⟩
  | commit {cells : Cells n} {taken : List (Fin n × Filter)} {events : List Event} :
      Step ⟨cells, .tail taken events⟩ .commit .done ⟨cells.clear taken, .idle⟩
  | drop {cells : Cells n} {taken : List (Fin n × Filter)} {events : List Event} :
      Step ⟨cells, .tail taken events⟩ .drop .done ⟨cells, .idle⟩
  | failed {cells : Cells n} {entries : List (Except Index (Option (Id × Filter)))}
      {index : Index} : planned entries (fun _ => none : Cells n) = .error index →
      Step ⟨cells, .idle⟩ (.tryDelete entries) (.failed index) ⟨cells, .idle⟩
  | planned {cells plan : Cells n} {entries : List (Except Index (Option (Id × Filter)))} :
      planned entries (fun _ => none) = .ok plan →
      Step ⟨cells, .idle⟩ (.tryDelete entries) .done ⟨cells, .plan plan⟩
  | commitDelete {cells plan : Cells n} :
      Step ⟨cells, .plan plan⟩ .commitDelete .done ⟨plan, .idle⟩
  | dropDelete {cells plan : Cells n} :
      Step ⟨cells, .plan plan⟩ .dropDelete .done ⟨cells, .idle⟩

def spec (n : Nat) : Run.Spec (Ledger n) Input Output where
  start ledger := ledger = ⟨fun _ => none, .idle⟩
  step := Step

end Ledger

end Dope.Kqueue
