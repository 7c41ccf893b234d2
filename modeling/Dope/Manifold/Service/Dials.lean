import Dope.Manifold.Service.Entries

/-! # Service dials

Model of `service/pool/dials`: a fixed slice of dials, the chain of those that are
ready, threaded through the dials themselves, and the dial in front, which may be
deferred with the target that was chosen for it.
-/

namespace Dope.Manifold.Service

open Dope.Round

/-! ## Outcomes of an opening -/

inductive SubmitCause where
  | full
  | identityExhausted
deriving DecidableEq, Repr

/-- A permanent failure before a socket becomes an outbound pool slot. -/
inductive Failure (E : Type) where
  | identityExhausted
  | submission (error : SubmitCause)
  | wire (cause : E)
deriving DecidableEq, Repr

/-- Permanent exhaustion of a connection or operation identity space. -/
inductive Exhaustion where
  | identity
  | submission (error : SubmitCause)
deriving DecidableEq, Repr

def Failure.ofExhaustion {E : Type} : Exhaustion → Failure E
  | .identity => .identityExhausted
  | .submission error => .submission error

/-- Separates a wire failure from the exact pool-level terminal cause. -/
def Failure.intoWire {E : Type} : Failure E → Except Exhaustion E
  | .identityExhausted => .error .identity
  | .submission error => .error (.submission error)
  | .wire cause => .ok cause

/-- A retryable reason an outbound socket open could not proceed. -/
inductive Deferred where
  | capacity
  | wireBackpressure
  | submission (error : SubmitCause)
deriving DecidableEq, Repr

inductive Attempt (P E : Type) where
  | submitted
  | deferred (cause : Deferred) (input : P)
  | failed (error : Failure E)
deriving DecidableEq, Repr

/-- `attempt::Id`. -/
structure Id where
  index : Nat
  generation : Nat
deriving DecidableEq, Repr

inductive Opening (E : Type) where
  | submitted
  | deferred (attempt : Id) (cause : Deferred)
  | failed (attempt : Id) (error : Failure E)
  | backoff (due : Nat)
  | idle
deriving DecidableEq, Repr

/-! ## Dials -/

inductive State (n : Nat) where
  | ready
  | submitted (target : Target n)
  | connected (target : Target n)
  | closed
deriving DecidableEq, Repr

/-- The target of an active dial. -/
def State.target {n : Nat} : State n → Option (Target n)
  | .submitted target | .connected target => some target
  | .ready | .closed => none

structure Dial (n m : Nat) where
  generation : Nat
  next : Option (Fin m)
  state : State n
deriving DecidableEq, Repr

structure Chain (m : Nat) where
  front : Fin m
  back : Fin m
deriving DecidableEq, Repr

structure Held (P : Type) (n m : Nat) where
  chain : Chain m
  target : Target n
  plan : P
deriving DecidableEq, Repr

inductive Queue (P : Type) (n m : Nat) where
  | opened (chain : Option (Chain m))
  | deferred (held : Held P n m)
  | rejected (cause : Option (Id × Exhaustion))
deriving DecidableEq, Repr

structure Dials (P : Type) (n m : Nat) where
  records : Fin m → Dial n m
  ready : Queue P n m
  active : Nat
  depleted : Option Id
  needsPoll : Bool

namespace Dials

variable {I A O P E : Type} {n m : Nat}

def setDial (dials : Dials P n m) (d : Fin m) (dial : Dial n m) : Dials P n m :=
  { dials with records := Function.update dials.records d dial }

/-- `Tail::push_back`: a rejected queue has no tail. -/
def pushBack (dials : Dials P n m) (d : Fin m) : Dials P n m :=
  match dials.ready with
  | .opened none => { dials with ready := .opened (some ⟨d, d⟩) }
  | .opened (some chain) =>
      { dials.setDial chain.back { dials.records chain.back with next := some d } with
        ready := .opened (some { chain with back := d }) }
  | .deferred held =>
      { dials.setDial held.chain.back { dials.records held.chain.back with next := some d } with
        ready := .deferred { held with chain := { held.chain with back := d } } }
  | .rejected _ => dials

/-- The chain of `try_with`: every dial, in the order of their slots. -/
def new (P : Type) (n m : Nat) : Dials P n m :=
  (List.finRange m).foldl pushBack
    ⟨fun _ => ⟨0, none, .ready⟩, .opened none, 0, none, false⟩

variable (setup : Setup O n) (dials : Dials P n m) (members : Members I A n)

def idOf (d : Fin m) : Id := ⟨d, (dials.records d).generation⟩

def get (key : Id) : Option (Fin m) :=
  if h : key.index < m then
    if (dials.records ⟨key.index, h⟩).generation = key.generation then some ⟨key.index, h⟩
    else none
  else none

/-- The member of an active dial. -/
def activeMember (key : Id) : Option (Key n) :=
  (dials.get key).bind fun d => (dials.records d).state.target.map Target.member

def refresh (present : Bool) : Dials P n m :=
  let needsPoll := match dials.ready with
    | .opened (some _) | .deferred _ => present
    | .rejected (some _) => dials.active = 0
    | .opened none | .rejected none => false
  match dials.ready, dials.depleted with
  | .opened none, some key =>
      if dials.active = 0 then
        { dials with ready := .rejected (some (key, .identity)), needsPoll := true }
      else { dials with needsPoll }
  | _, _ => { dials with needsPoll }

/-- `needs_poll` is set again once demand comes back. -/
def resumeActive : Dials P n m :=
  { dials with needsPoll := match dials.ready with
      | .opened (some _) | .deferred _ => true
      | .opened none | .rejected _ => false }

/-- Retain the first permanent opening failure until every issued connection retires. -/
def reject (key : Id) (cause : Exhaustion) : Except Fault (Dials P n m × Members I A n) :=
  match dials.ready with
  | .rejected _ => .ok (dials.refresh false, members)
  | .opened _ =>
      .ok ({ dials with ready := .rejected (some (key, cause)) }.refresh false, members)
  | .deferred held => do
      let (_, members) ← members.cancel setup held.target
      .ok ({ dials with ready := .rejected (some (key, cause)) }.refresh false, members)

/-- Takes one ready terminal notification without changing ordinary dial readiness. -/
def terminal (E : Type) : Opening E × Dials P n m :=
  match dials.ready with
  | .rejected cause =>
      if dials.needsPoll then
        match cause with
        | some (attempt, error) =>
            (.failed attempt (.ofExhaustion error),
              { dials with ready := .rejected none, needsPoll := false })
        | none => (.idle, { dials with needsPoll := false })
      else (.idle, dials)
  | .opened _ | .deferred _ => (.idle, dials)

/-- The front of a chain is submitted with the target that was chosen for it; the chain
is taken out of the queue meanwhile. -/
def dispatch (present : Bool) (chain : Chain m) (target : Target n) (plan : P)
    (submit : Id → P → Attempt P E) :
    Except Fault (Opening E × Dials P n m × Members I A n) :=
  let d := chain.front
  let dial := dials.records d
  let key := dials.idOf d
  match submit key plan with
  | .submitted =>
      let rest := dial.next.map fun front => { chain with front }
      .ok (.submitted, { dials.setDial d { dial with state := .submitted target, next := none } with
        active := dials.active + 1
        needsPoll := present && rest.isSome
        ready := .opened rest }, members)
  | .deferred cause plan =>
      .ok (.deferred key cause, { dials with
        ready := .deferred ⟨chain, target, plan⟩
        needsPoll := present || !setup.authoritative }, members)
  | .failed error => do
      let (_, members) ← members.cancel setup target
      let dials := dials.setDial d { dial with next := none, state := .closed }
      match error.intoWire with
      | .ok cause =>
          .ok (.failed key (.wire cause),
            { dials with ready := .rejected none, needsPoll := false }, members)
      | .error cause => do
          let (dials, members) ← reject setup { dials with ready := .opened none } members key cause
          let (opening, dials) := dials.terminal E
          .ok (opening, dials, members)

def poll (dials : Dials (A × O) n m) (members : Members I A n) (now : Nat) (eligible : I → Bool)
    (submit : Id → A × O → Attempt (A × O) E) :
    Except Fault (Opening E × Dials (A × O) n m × Members I A n) :=
  let present := !members.isEmpty
  match dials.ready with
  | .opened none => .ok (.idle, { dials with needsPoll := false }, members)
  | .rejected _ =>
      let (opening, dials) := dials.terminal E
      .ok (opening, dials, members)
  | .deferred held => dials.dispatch setup members present held.chain held.target held.plan submit
  | .opened (some chain) => do
      let (selection, members) ← members.choose setup now eligible
      match selection with
      | .ready target addr =>
          dials.dispatch setup members present chain target (addr, setup.options) submit
      | .idle => .ok (.idle, { dials with needsPoll := false }, members)
      | .backoff due => .ok (.backoff due, { dials with needsPoll := false }, members)
      | .exhausted => do
          let (dials, members) ← reject setup { dials with ready := .opened none } members
            (dials.idOf chain.front) .identity
          let (opening, dials) := dials.terminal E
          .ok (opening, dials, members)

/-- The submitted dial of a key, and its target. -/
def connection (key : Id) : Option (Fin m × Target n) :=
  (dials.get key).bind fun d => match (dials.records d).state with
    | .submitted target => some (d, target)
    | .ready | .connected _ | .closed => none

/-- `Connect::commit`. -/
def commit (d : Fin m) (target : Target n) : Dials P n m :=
  dials.setDial d { dials.records d with state := .connected target }

/-- Every terminal attempt releases its own dial slot: the dial is ready again under its
next generation, or it is closed. -/
def requeue (d : Fin m) (present : Bool) : Dials P n m :=
  let dial := dials.records d
  match dials.ready with
  | .rejected _ => (dials.setDial d { dial with state := .closed }).refresh present
  | .opened _ | .deferred _ =>
      if dial.generation < setup.dialLast then
        ((dials.setDial d ⟨dial.generation + 1, none, .ready⟩).pushBack d).refresh present
      else
        { dials.setDial d { dial with state := .closed } with
          depleted := some (dials.idOf d) }.refresh present

def recycle {β : Type} (key : Id) (present : Bool) (update : Target n → Except Fault β) :
    Except Fault (Option (β × Dials P n m)) :=
  match dials.get key with
  | none => .ok none
  | some d =>
      match (dials.records d).state.target with
      | none => .ok none
      | some target => do
          let output ← update target
          match dials.active with
          | 0 => .error .active
          | active + 1 =>
              .ok (some (output, requeue setup { dials with active } d present))

/-- Closing the dial does not depend on the continued existence of its member. -/
def close (key : Id) : Except Fault (Option (Target n × Dials P n m)) :=
  match dials.get key with
  | none => .ok none
  | some d =>
      match (dials.records d).state.target with
      | none => .ok none
      | some target =>
          match dials.active with
          | 0 => .error .active
          | active + 1 =>
              .ok (some (target, { dials.setDial d
                { dials.records d with state := .closed } with active }))

/-- The front stops being deferred if its target is given up. -/
def resetFront (removed : Target n → Except Fault (Option Update × Members I A n)) :
    Except Fault (Option Id × Dials P n m × Members I A n) :=
  match dials.ready with
  | .deferred held => do
      let (update, members) ← removed held.target
      match update with
      | some update =>
          .ok (if update = .exhausted then some (dials.idOf held.chain.front) else none,
            { dials with ready := .opened (some held.chain) }, members)
      | none => .ok (none, dials, members)
  | .opened _ | .rejected _ => .ok (none, dials, members)

def isDeferred : Bool :=
  match dials.ready with
  | .deferred _ => true
  | .opened _ | .rejected _ => false

end Dials

end Dope.Manifold.Service
