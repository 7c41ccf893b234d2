import Dope.Core.Ready.Arena.Cells

/-! # Task topologies

Model of `driver/schedule/ready/arena/topology`. The tasks of a topology wait in
two lanes, linked through their payloads. Tasks are activated into one lane, and
a drain takes them from the other.
-/

namespace Dope.Core.Ready.Arena

inductive Activation where
  | queued
  | coalesced
deriving DecidableEq, Repr

namespace Topology

variable {G : Type} (epochs : Epochs G) (slots : Slots G) (root : Nat)

def state : State := (slots root).state

def setState (state : State) : Slots G := slots.modify root (·.setState state)

def head (side : Lane) : Option Nat := ((slots root).links side).next

/-- One more attachment. -/
def attach : Slots G :=
  let state := state slots root
  setState slots root (state.setCount ((state.setWidth 16).setWidth 32 + 1))

def push (index : Nat) (side : Lane) : Slots G :=
  let links := (slots root).links side
  let slots := slots.modify index (·.setLink ⟨none, links.prev⟩)
  let (slots, links) : Slots G × Link := match links.prev with
    | some prev =>
        (slots.modify prev fun tail => tail.setLink { tail.link with next := some index }, links)
    | none => (slots, { links with next := some index })
  let slots := slots.modify root (·.setLinks side { links with prev := some index })
  slots.modify index (·.setQueue (some side))

/-- Take a task out of the lane it is queued on. -/
def remove (index : Nat) (side : Lane) : Slots G :=
  let link := (slots index).link
  let ends := (slots root).links side
  let (slots, ends) : Slots G × Link := match link.prev with
    | some prev =>
        (slots.modify prev fun cell => cell.setLink { cell.link with next := link.next }, ends)
    | none => (slots, { ends with next := link.next })
  let (slots, ends) : Slots G × Link := match link.next with
    | some next =>
        (slots.modify next fun cell => cell.setLink { cell.link with prev := link.prev }, ends)
    | none => (slots, { ends with prev := link.prev })
  let slots := slots.modify root (·.setLinks side ends)
  let slots := slots.modify index (·.setQueue none)
  if ends.next.isNone ∧ (state slots root).paused = some side then
    setState slots root ((state slots root).setPaused none)
  else slots

/-- Detach a task from its topology. Returns the root when it is the last one of
a topology that is closed. -/
def detach (index : Nat) : Option (Key G) × Slots G :=
  let root := ((slots index).record epochs).topology
  let slots := match (slots index).queue with
    | some side => remove slots root index side
    | none => slots
  let state := state slots root
  let next := state.count - 1
  let slots := setState slots root (state.setCount next)
  if next = 0 ∧ state.closed then (some ⟨root, (slots root).generation⟩, slots.unbind root)
  else (none, slots)

/-- Close a topology. Returns the root when nothing is attached. -/
def close (key : Key G) : Option (Key G) × Slots G :=
  if (state slots key.index).setWidth 16 = 0 then (some key, slots.unbind key.index)
  else (none, setState slots key.index (state slots key.index).close)

def activate (index : Nat) : Activation × Slots G :=
  match (slots index).queue with
  | some _ => (.coalesced, slots)
  | none => (.queued, push slots root index (state slots root).active)

def begin : Option Lane × Slots G :=
  let state := state slots root
  if state.draining then (none, slots)
  else
    match state.paused with
    | some side =>
        if (head slots root side).isSome then (some side, setState slots root state.claim)
        else start state
    | none => start state
where
  start (state : State) : Option Lane × Slots G :=
    let side := state.active
    if (head slots root side).isNone then (none, slots)
    else (some side,
      setState slots root ((state.setActive side.flip).setPaused (some side)).claim)

def finish : Slots G := setState slots root (state slots root).finish

def peekSide (side : Lane) : Option (BitVec 32) :=
  (head slots root side).map fun index => ((slots index).record epochs).local_

def peek : Option (BitVec 32) :=
  match (state slots root).paused.bind (peekSide epochs slots root) with
  | some local_ => some local_
  | none => peekSide epochs slots root (state slots root).active

/-- Take the first task of a lane. Returns its local identity. -/
def pop (side : Lane) : Option (BitVec 32) × Slots G :=
  match head slots root side with
  | none => (none, slots)
  | some index =>
      (some ((slots index).record epochs).local_, remove slots root index side)

end Topology

end Dope.Core.Ready.Arena
