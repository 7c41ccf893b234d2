import Dope.Core.Ready.Packed
import Dope.Base.Run

/-! # The log of a ready set

A set whose insertions, removals and activations are written down, newest first,
for the whole run and for every drain call.
-/

namespace Dope.Core.Ready

/-- What happens to an index. An insertion of an index that is queued already
changes nothing and is no event. -/
inductive Event where
  | inserted (index : Nat)
  | removed (index : Nat)
  | activated (index : Nat)
deriving DecidableEq, Repr

namespace Event

/-- The last that happened to an index is its insertion. -/
def waits (index : Nat) : List Event → Bool
  | [] => false
  | .inserted index' :: earlier => if index' = index then true else waits index earlier
  | .removed index' :: earlier | .activated index' :: earlier =>
      if index' = index then false else waits index earlier

/-- How often `other` was activated since the last insertion of `index`. -/
def since (index other : Nat) : List Event → Nat
  | [] => 0
  | .inserted index' :: earlier => if index' = index then 0 else since index other earlier
  | .removed _ :: earlier => since index other earlier
  | .activated index' :: earlier =>
      if index' = other then since index other earlier + 1 else since index other earlier

/-- The indices that were activated. -/
def activations : List Event → List Nat
  | [] => []
  | .activated index :: earlier => index :: activations earlier
  | .inserted _ :: earlier | .removed _ :: earlier => activations earlier

/-- Every activation is of an index that was there at first, that has not been
activated before, and that has not been inserted before. -/
def Stable (initial : List Nat) : List Event → Prop
  | [] => True
  | .activated index :: earlier =>
      (index ∈ initial ∧ .activated index ∉ earlier ∧ .inserted index ∉ earlier) ∧
        Stable initial earlier
  | .inserted _ :: earlier | .removed _ :: earlier => Stable initial earlier

theorem mem_activations {index : Nat} {events : List Event} :
    index ∈ activations events ↔ .activated index ∈ events := by
  induction events with
  | nil => simp [activations]
  | cons event earlier ih =>
    cases event with
    | inserted | removed | activated => simp [activations, ih]

theorem Stable.nodup {initial : List Nat} {events : List Event} (h : Stable initial events) :
    (activations events).Nodup ∧ ∀ index ∈ activations events, index ∈ initial := by
  induction events with
  | nil => exact ⟨List.nodup_nil, fun _ no => nomatch no⟩
  | cons event earlier ih =>
    cases event with
    | inserted | removed => exact ih h
    | activated index' =>
      rcases ih h.2 with ⟨nodup, among⟩
      refine ⟨List.nodup_cons.mpr ⟨fun again => h.1.2.1 (mem_activations.mp again), nodup⟩, ?_⟩
      intro index mem
      rcases List.mem_cons.mp mem with rfl | old
      · exact h.1.1
      · exact among index old

end Event

/-- A drain that has started: the side it takes, its budget, the indices that
are on the side then, and what happens while it runs. -/
structure Call where
  side : Side
  budget : Nat
  initial : List Nat
  events : List Event
deriving DecidableEq, Repr

namespace Call

def start {S : Type} (store : Store S) (side : Side) (budget : Nat) : Call where
  side
  budget
  initial := (List.range store.capacity.raw).filter (store.queued side)
  events := []

def note (event : Event) (call : Call) : Call := { call with events := event :: call.events }

/-- A call that had budget for its side, or has some left, has activated every
index of it that was not removed under way. -/
def Complete (call : Call) : Prop :=
  call.initial.length ≤ call.budget ∨
      (Event.activations call.events).length < call.budget →
    ∀ index ∈ call.initial, .activated index ∈ call.events ∨ .removed index ∈ call.events

end Call

/-- A set with its log, the calls that wait for their callbacks, and those that
are over. -/
structure Watch (S : Type) where
  set : Set S
  log : List Event
  calls : List Call
  closed : List Call

namespace Watch

variable {S : Type} (summary : Index.Summary S Side)

def note (watch : Watch S) (event : Event) : Watch S :=
  { watch with log := event :: watch.log, calls := watch.calls.map (Call.note event) }

def waiting (watch : Watch S) (index : Nat) : Bool :=
  watch.set.store.queued .a index || watch.set.store.queued .b index

/-- The call of a drain that starts. -/
def enter (watch : Watch S) (budget : Nat) : Output → Watch S :=
  match watch.set.store.start summary with
  | none => fun _ => watch
  | some side =>
      let call := Call.start watch.set.store side budget
      fun
      | .activated index => ({ watch with calls := call :: watch.calls }).note (.activated index)
      | _ => { watch with closed := call :: watch.closed }

/-- The call of a drain that goes on. -/
def leave (watch : Watch S) : Output → Watch S
  | .activated index => watch.note (.activated index)
  | _ =>
      match watch.calls with
      | [] => watch
      | call :: calls => { watch with calls, closed := call :: watch.closed }

/-- What an input adds to the log. -/
def record (watch : Watch S) (output : Output) : Input → Watch S
  | .insert index => if watch.waiting index then watch else watch.note (.inserted index)
  | .remove index | .clear index =>
      if watch.waiting index then watch.note (.removed index) else watch
  | .drain budget => watch.enter summary budget output
  | .resume => watch.leave output

def step (watch : Watch S) (input : Input) : Output × Watch S :=
  let (output, set) := watch.set.step summary input
  (output, { watch.record summary output input with set })

def machine (capacity : Capacity) : Run.Machine (Watch S) Input Output Empty where
  start watch := watch = ⟨Set.tryNew summary capacity, [], [], []⟩
  allowed watch := watch.set.allowed
  step watch input := .ok (watch.step summary input)

end Watch

end Dope.Core.Ready
