import Dope.Egress.Metadata.Draft

/-! # Reserved slots

Model of `reserve/bounds`, `reserve/limit`, `reserve/vacant` and
`metadata/pool/vacant`. A reservation has at most two nodes, each with the part
of the credit that its bound allows. Publishing checks the payloads first, binds
each to its node, and gives back what is not used.
-/

namespace Dope.Egress.Metadata

open Wait Function Run

/-! ## Bounds -/

inductive Wire where
  | empty
  | exact (expected : Nat)
  | atMost (maximum : Nat)
  | open_
deriving DecidableEq, Repr

/-- A limit without wire bytes has no resident ones. -/
structure Limit where
  wire : Wire
  resident : Nat
  idle : wire = .empty → resident = 0
deriving DecidableEq, Repr

namespace Limit

inductive Mismatch where
  | credit (cause : Shortage)
  | empty (actual : Nat)
  | exact (expected actual : Nat)
  | maximum (maximum actual : Nat)
deriving DecidableEq, Repr

def isActive (limit : Limit) : Bool := limit.wire ≠ .empty

def check (limit : Limit) (wire : Nat) : Except Mismatch Unit :=
  match limit.wire with
  | .empty => .error (.empty wire)
  | .exact expected => if wire ≠ expected then .error (.exact expected wire) else .ok ()
  | .atMost maximum => if maximum < wire then .error (.maximum maximum wire) else .ok ()
  | .open_ => .ok ()

end Limit

/-- Bounds for at most two ordered entries. -/
structure Bounds where
  first : Limit
  second : Limit
  resident : Nat
  sum : resident = first.resident + second.resident
deriving DecidableEq, Repr

inductive Shape where
  | first
  | second
  | pair (resident : Nat)
deriving DecidableEq, Repr

namespace Bounds

def hasSecond (bounds : Bounds) : Bool := bounds.second.isActive

def shape (bounds : Bounds) : Option Shape :=
  match bounds.first.isActive, bounds.second.isActive with
  | true, false => some .first
  | false, true => some .second
  | true, true => some (.pair bounds.first.resident)
  | false, false => none

def entries (bounds : Bounds) : Nat :=
  match bounds.first.isActive, bounds.second.isActive with
  | false, false => 0
  | true, false => 1
  | false, true => 1
  | true, true => 2

def amount (bounds : Bounds) : Amount := ⟨bounds.entries, bounds.resident⟩

end Bounds

/-! ## Slots -/

/-- `pool::Vacant`: a node and the credit claimed for it. -/
structure Node where
  claim : Amount
  index : Nat
deriving DecidableEq, Repr

inductive Slots where
  | empty
  | first (node : Node)
  | second (node : Node)
  | pair (first second : Node)
deriving DecidableEq, Repr

/-- A payload that keeps the result of its first check. -/
inductive Value (T : Type) where
  | unchecked (load : Load T)
  | checked (load : NonEmpty T)
deriving DecidableEq, Repr

def Value.inner {T : Type} : Value T → T
  | .unchecked load => load.value
  | .checked load => load.value

inductive Publish where
  | empty
  | published
deriving DecidableEq, Repr

namespace Publish

inductive Part where
  | one
  | first
  | second
deriving DecidableEq, Repr

inductive Mismatch where
  | first (cause : Limit.Mismatch)
  | second (cause : Limit.Mismatch)
  | unexpectedSecond (wire resident : Nat)
deriving DecidableEq, Repr

inductive Cause where
  | changed (cause : Mismatch)
  | invalid (part : Part) (reason : Load.Error)
deriving DecidableEq, Repr

/-- Why nothing was published, with the payloads. -/
structure Error (T : Type) where
  cause : Cause
  bounds : Bounds
  first : Option (Value T)
  second : Option (Value T)

end Publish

structure Inputs (T : Type) where
  first : Option (Value T)
  second : Option (Value T)

structure Validated (T : Type) where
  first : Option (NonEmpty T)
  second : Option (NonEmpty T)

namespace Inputs

variable {T : Type}

/-- A lone second payload takes the first place when the bounds have no second. -/
def new (bounds : Bounds) (first second : Option (Value T)) : Inputs T :=
  if first.isNone ∧ second.isSome ∧ bounds.hasSecond = false then ⟨second, none⟩
  else ⟨first, second⟩

def check (maxBytes : Nat) : Option (Value T) → Except (Load T × Load.Error) (Option (NonEmpty T))
  | none => .ok none
  | some (.checked load) => .ok (some load)
  | some (.unchecked load) =>
      match load.tryNonempty maxBytes with
      | .ok load => .ok (some load)
      | .error reason => .error (load, reason)

def validate (maxBytes : Nat) (bounds : Bounds) (inputs : Inputs T) :
    Except (Publish.Error T) (Validated T) :=
  match check maxBytes inputs.first with
  | .error (load, reason) =>
      .error ⟨.invalid .first reason, bounds, some (.unchecked load), inputs.second⟩
  | .ok first =>
      match check maxBytes inputs.second with
      | .error (load, reason) =>
          .error ⟨.invalid .second reason, bounds, first.map .checked, some (.unchecked load)⟩
      | .ok second => .ok ⟨first, second⟩

end Inputs

/-! ## Nodes -/

/-- `pool::Bound`: a node whose claim covers its load; `rest` is the surplus. -/
structure BoundNode (T : Type) where
  claim : Amount
  rest : Amount
  load : NonEmpty T
  index : Nat

section
variable {credit : HeldCredit} {n : Nat} {access : Access credit n} {T : Type}

namespace Node

def rollback (pool : Pool access T) (lane : Fin n) (node : Node) : Pool access T :=
  ({ pool with slab := pool.slab.recycle node.index } : Pool access T).release lane node.claim

/-- `Part::try_new` -/
def tryBind (node : Node) (load : NonEmpty T) : Except Shortage (BoundNode T) :=
  let current := node.claim.resident
  if load.resident ≤ current then .ok ⟨node.claim, ⟨0, current - load.resident⟩, load, node.index⟩
  else .error (.resident current load.resident)

/-- `slots::bind` -/
def bind (node : Node) (load : NonEmpty T) (limit : Limit) :
    Except Limit.Mismatch (BoundNode T) :=
  match limit.check load.len with
  | .error cause => .error cause
  | .ok () =>
      match node.tryBind load with
      | .error cause => .error (.credit cause)
      | .ok part => .ok part

end Node

/-- `Bound::publish`: the stored part is what the claim has beyond the rest. -/
def BoundNode.publish (pool : Pool access T) (lane : Fin n) (part : BoundNode T) :
    Pool access T :=
  let held := part.claim - part.rest
  let pool := pool.commit lane part.index part.load ⟨part.load.len, held.resident⟩
  if part.rest ≠ Amount.zero then pool.release lane part.rest else pool

/-- `Bound::into_parts` -/
def BoundNode.node (part : BoundNode T) : Node := ⟨part.claim, part.index⟩

namespace Slots

def rollback (pool : Pool access T) (lane : Fin n) : Slots → Pool access T
  | .empty => pool
  | .first node => node.rollback pool lane
  | .second node => node.rollback pool lane
  | .pair left right => left.rollback (right.rollback pool lane) lane

def reject (pool : Pool access T) (lane : Fin n) (slots : Slots) (cause : Publish.Mismatch)
    (bounds : Bounds) (one two : Option (Value T)) :
    Except (Publish.Error T) Publish × Pool access T :=
  (.error ⟨.changed cause, bounds, one, two⟩, slots.rollback pool lane)

/-- The slots of a node and the spare one, in their order. -/
def restore (node : Node) (spare : Option Node) (isSecond : Bool) : Slots :=
  match isSecond, spare with
  | true, some left => .pair left node
  | true, none => .second node
  | false, some right => .pair node right
  | false, none => .first node

def rollbackSpare (pool : Pool access T) (lane : Fin n) : Option Node → Pool access T
  | some node => node.rollback pool lane
  | none => pool

/-- One load on its node, and the other node if there is one. -/
def publishOne (pool : Pool access T) (lane : Fin n) (bounds : Bounds) (node : Node)
    (spare : Option Node) (load : NonEmpty T) (isSecond : Bool) :
    Except (Publish.Error T) Publish × Pool access T :=
  let limit := if isSecond then bounds.second else bounds.first
  match node.bind load limit with
  | .error cause =>
      let slots := restore node spare isSecond
      if isSecond then slots.reject pool lane (.second cause) bounds none (some (.checked load))
      else slots.reject pool lane (.first cause) bounds (some (.checked load)) none
  | .ok part => (.ok .published, part.publish (rollbackSpare pool lane spare) lane)

def publishPair (pool : Pool access T) (lane : Fin n) (bounds : Bounds) (left right : Node)
    (one two : NonEmpty T) : Except (Publish.Error T) Publish × Pool access T :=
  match left.bind one bounds.first with
  | .error cause =>
      (Slots.pair left right).reject pool lane (.first cause) bounds
        (some (.checked one)) (some (.checked two))
  | .ok a =>
      match right.bind two bounds.second with
      | .error cause =>
          (Slots.pair a.node right).reject pool lane (.second cause) bounds
            (some (.checked a.load)) (some (.checked two))
      | .ok b => (.ok .published, b.publish (a.publish pool lane) lane)

def publishValid (pool : Pool access T) (lane : Fin n) (bounds : Bounds) :
    Slots → Option (NonEmpty T) → Option (NonEmpty T) →
    Except (Publish.Error T) Publish × Pool access T
  | slots, none, none => (.ok .empty, slots.rollback pool lane)
  | .empty, some one, two =>
      Slots.empty.reject pool lane (.first (.empty one.len)) bounds
        (some (.checked one)) (two.map .checked)
  | .second node, some one, two =>
      (Slots.second node).reject pool lane (.first (.empty one.len)) bounds
        (some (.checked one)) (two.map .checked)
  | .empty, none, some two =>
      Slots.empty.reject pool lane (.unexpectedSecond two.len two.resident) bounds
        none (some (.checked two))
  | .first node, one, some two =>
      (Slots.first node).reject pool lane (.unexpectedSecond two.len two.resident) bounds
        (one.map .checked) (some (.checked two))
  | .first node, some load, none => publishOne pool lane bounds node none load false
  | .second node, none, some load => publishOne pool lane bounds node none load true
  | .pair left right, some load, none =>
      publishOne pool lane bounds left (some right) load false
  | .pair left right, none, some load =>
      publishOne pool lane bounds right (some left) load true
  | .pair left right, some one, some two => publishPair pool lane bounds left right one two

def tryPublish (maxBytes : Nat) (pool : Pool access T) (lane : Fin n) (bounds : Bounds)
    (slots : Slots) (one two : Option (Value T)) :
    Except (Publish.Error T) Publish × Pool access T :=
  match (Inputs.new bounds one two).validate maxBytes bounds with
  | .error error => (.error error, slots.rollback pool lane)
  | .ok valid => publishValid pool lane bounds slots valid.first valid.second

end Slots

/-! ## Reservations -/

structure Vacant where
  bounds : Bounds
  slots : Slots
deriving DecidableEq, Repr

namespace Vacant

def storage (lane : Fin n) (bounds : Bounds) (free : Nat) : Admission n :=
  .storage lane bounds.amount free

/-- `Vacant::try_new`: `grant` is the credit that was acquired for the bounds. -/
def tryNew (pool : Pool access T) (lane : Fin n) (bounds : Bounds) (shape : Shape)
    (grant : Amount) : Except (Admission n) Vacant × Pool access T :=
  match pool.slab.vacancy with
  | none => (.error (storage lane bounds 0), pool.release lane grant)
  | some index =>
      match shape with
      | .first =>
          (.ok ⟨bounds, .first ⟨grant, index⟩⟩, { pool with slab := pool.slab.reserve index })
      | .second =>
          (.ok ⟨bounds, .second ⟨grant, index⟩⟩, { pool with slab := pool.slab.reserve index })
      | .pair resident =>
          match pool.slab.pair index with
          | none => (.error (storage lane bounds 1), pool.release lane grant)
          | some next =>
              let first : Amount := ⟨1, resident⟩
              (.ok ⟨bounds, .pair ⟨first, index⟩ ⟨grant - first, next⟩⟩,
                { pool with slab := pool.slab.reservePair next })

/-- `Plan::try_reserve` and `Plan::poll_reserve`, once the credit is there. -/
def reserve (pool : Pool access T) (lane : Fin n) (bounds : Bounds) :
    Except (Admission n) Vacant × Pool access T :=
  match bounds.shape with
  | none => (.ok ⟨bounds, .empty⟩, pool)
  | some shape => tryNew pool lane bounds shape bounds.amount

/-- `Plan::try_reserve` -/
def tryReserve (pool : Pool access T) (lane : Fin n) (bounds : Bounds) :
    Except (Admission n) Vacant × Pool access T :=
  match bounds.shape with
  | none => (.ok ⟨bounds, .empty⟩, pool)
  | some shape =>
      match pool.tryAcquire lane bounds.amount with
      | .error cause => (.error cause, pool)
      | .ok pool => tryNew pool lane bounds shape bounds.amount

def tryPublish (maxBytes : Nat) (pool : Pool access T) (lane : Fin n) (vacant : Vacant)
    (first second : Option (Value T)) : Except (Publish.Error T) Publish × Pool access T :=
  vacant.slots.tryPublish maxBytes pool lane vacant.bounds first second

end Vacant

end

end Dope.Egress.Metadata
