import Dope.Base.Run
import Dope.Manifold.Side.Store

/-! # Side request registry

Model of `client/side/registry`, of the cancellation sweep of `client/side/turn`,
and of the runs of both. Every intent carries the number under which it was
accepted, and its payload keeps it.
-/

namespace Dope.Manifold.Side

open Run

/-- The slots, and the target that an open intake wakes. -/
structure Registry (I P W C : Type) (n : Nat) where
  slots : Store I P W C n
  ready : Option Nat

/-- `registry::Cause` -/
inductive Cause where
  | stale
  | slot (cause : Direct)
deriving DecidableEq, Repr

structure Rejected (I W : Type) where
  intent : I
  waiter : W
  cause : Cause
deriving DecidableEq, Repr

structure Request (P : Type) where
  ticket : Key
  payload : P
deriving DecidableEq, Repr

inductive Rejection where
  | empty
  | settled
deriving DecidableEq, Repr

namespace Registry

variable {I P W C : Type} {n : Nat} (registry : Registry I P W C n)

def new (I P W C : Type) (n : Nat) : Registry I P W C n := ⟨Table.start _ n, none⟩

def tryReserve (intents : Intent I P) (intent : I) (waiter : W) :
    Except (Rejected I W) (Registry I P W C n) :=
  if registry.ready.isNone then .error ⟨intent, waiter, .stale⟩
  else
    match registry.slots.tryReserve intents intent waiter with
    | .error cause => .error ⟨intent, waiter, .slot cause⟩
    | .ok slots => .ok { registry with slots := slots }

def poll (target : Key) (waiter : W) : Poll C × Registry I P W C n :=
  let (answer, slots) := registry.slots.poll target waiter
  (answer, { registry with slots := slots })

def abandon (target : Key) : Option (State I P W C) × Registry I P W C n :=
  let (state, slots) := registry.slots.abandon target
  (state, { registry with slots := slots })

/-- One round of the sweep, under one permit. -/
def retry : Option (Registry I P W C n) :=
  match registry.slots.retry with
  | none => none
  | some slots => some { registry with slots := slots }

def start (target : Nat) : Registry I P W C n := { registry with ready := some target }

/-- `take_request`, under a permit. -/
def takeRequest (intents : Intent I P) : Option (Request P × Registry I P W C n) :=
  if registry.ready.isNone then none
  else
    match registry.slots.takeRequest with
    | none => none
    | some ((ticket, .intent intent), slots) =>
        some (⟨ticket, intents.intoPayload intent⟩, { registry with slots := slots })
    | some ((ticket, .payload payload), slots) =>
        some (⟨ticket, payload⟩, { registry with slots := slots })

def defer (request : Request P) : Option P × Registry I P W C n :=
  let (payload, slots) := registry.slots.defer request.ticket request.payload
  (payload, { registry with slots := slots })

/-- With the waiter that is woken. -/
def complete (ticket : Key) (result : Except (Error C) Unit) : Option W × Registry I P W C n :=
  let (waiter, slots) := registry.slots.complete ticket result
  (waiter, { registry with slots := slots })

def takeCancel : Option (Key × Registry I P W C n) :=
  match registry.slots.takeCancel with
  | none => none
  | some (cancel, slots) => some (cancel, { registry with slots := slots })

/-- A ticket of the cancelled request itself has nothing left to settle. -/
def endCancel (cancel : Key) (ticket : Option Key) : Option W × Registry I P W C n :=
  let registry := { registry with slots := registry.slots.endCancel cancel (.ok ()) }
  match ticket.filter (· ≠ cancel) with
  | none => (none, registry)
  | some ticket => registry.complete ticket (.error .stale)

def failCancel (cancel : Key) (cause : C) : Registry I P W C n :=
  { registry with slots := registry.slots.endCancel cancel (.error (.route cause)) }

def closeIntake : Registry I P W C n := { registry with ready := none }

def reject : Rejection × Option W × Registry I P W C n :=
  match registry.slots.reject with
  | none => (.empty, none, registry)
  | some ((_, waiter), slots) => (.settled, waiter, { registry with slots := slots })

end Registry

/-- `Turn::cancel`: every round takes one cancellation, and ends it with what the
transport answers, a cause or the ticket it gives up. The list holds the answers of
the rounds that the turn permits. -/
def Turn.cancel {I P W C : Type} {n : Nat} (registry : Registry I P W C n) :
    List (Except C (Option Key)) → Registry I P W C n
  | [] => registry
  | answer :: rest =>
      match registry.takeCancel with
      | none => registry
      | some (stop, registry) =>
          match answer with
          | .error cause => Turn.cancel (registry.failCancel stop cause) rest
          | .ok ticket => Turn.cancel (registry.endCancel stop ticket).2 rest

/-! ## Runs -/

/-- What is recorded about the entry at a position: the number of its request, the
waiter it was last given, whether it was retried since it was deferred, and whether
its cancellation was taken. -/
structure Mark (W : Type) where
  serial : Nat
  latest : Option W
  retried : Bool
  swept : Bool
deriving DecidableEq, Repr

/-- A registry with what its users hold: the requests that were taken and the
cancellations. The rest is recorded and never read back: the marks, how many intents
were accepted, the values that were dropped, the results that were settled and that
were polled, and the requests that were abandoned and that left without a poll. -/
structure World (I P W C : Type) (n : Nat) where
  registry : Registry (I × Nat) (P × Nat) W C n
  marks : Fin n → Mark W
  accepted : Nat
  taken : List (Request (P × Nat))
  cancels : List Key
  dropped : List Nat
  settled : List (Nat × Except (Error C) Unit)
  yielded : List (Nat × Except (Error C) Unit)
  abandoned : List Nat
  lost : List Nat

inductive Input (I P W C : Type) where
  | start (target : Nat)
  | reserve (intent : I) (waiter : W)
  | poll (target : Key) (waiter : W)
  | abandon (target : Key)
  | retry
  | takeRequest
  | defer (request : Request (P × Nat))
  | complete (request : Request (P × Nat)) (result : Except (Error C) Unit)
  | takeCancel
  | endCancel (cancel : Key) (request : Option (Request (P × Nat)))
  | failCancel (cancel : Key) (cause : C)
  | closeIntake
  | reject

inductive Output (I P W C : Type) where
  | done
  | reserved (result : Except (Rejected I W) Unit)
  | polled (answer : Poll C)
  | retried (moved : Bool)
  | request (request : Option (Request (P × Nat)))
  | woken (waiter : Option W)
  | cancel (cancel : Option Key)
  | rejected (rejection : Rejection) (waiter : Option W)

/-- An intent keeps its number. -/
def Intent.numbered {I P : Type} (intents : Intent I P) : Intent (I × Nat) (P × Nat) :=
  ⟨fun intent => intents.target intent.1, fun intent => (intents.intoPayload intent.1, intent.2)⟩

namespace State

variable {I P W C : Type}

/-- The number of the value that an entry holds. -/
def value : State (I × Nat) (P × Nat) W C → Option Nat
  | .queued pending => some pending.value.2
  | .deferred pending => some pending.value.2
  | .inFlight _ | .settled _ | .abandoned => none

end State

namespace World

variable {I P W C : Type} {n : Nat}

def new (I P W C : Type) (n : Nat) : World I P W C n where
  registry := Registry.new _ _ W C n
  marks _ := ⟨0, none, false, false⟩
  accepted := 0
  taken := []
  cancels := []
  dropped := []
  settled := []
  yielded := []
  abandoned := []
  lost := []

variable (world : World I P W C n)

def setMark (p : Fin n) (mark : Mark W) : World I P W C n :=
  { world with marks := Function.update world.marks p mark }

abbrev store : Store (I × Nat) (P × Nat) W C n := world.registry.slots

def entry (key : Key) : Option (Fin n × State (I × Nat) (P × Nat) W C) :=
  world.registry.slots.entry key

/-! ### Records -/

/-- The request leaves the transport's hands. -/
def give (request : Request (P × Nat)) : World I P W C n :=
  { world with taken := world.taken.filter fun other => other.payload.2 ≠ request.payload.2 }

def drops (value : Option Nat) : World I P W C n :=
  { world with dropped := value.toList ++ world.dropped }

def settles (p : Fin n) (result : Except (Error C) Unit) : World I P W C n :=
  { world with settled := ((world.marks p).serial, result) :: world.settled }

def yields (p : Fin n) (result : Except (Error C) Unit) : World I P W C n :=
  { world with yielded := ((world.marks p).serial, result) :: world.yielded }

def abandons (p : Fin n) : World I P W C n :=
  { world with abandoned := (world.marks p).serial :: world.abandoned }

def loses (p : Fin n) : World I P W C n :=
  { world with lost := (world.marks p).serial :: world.lost }

def refresh (p : Fin n) (waiter : W) : World I P W C n :=
  world.setMark p { world.marks p with latest := some waiter }

/-! ### Operations -/

/-- The entry at `p` was given another waiter, or its result was polled. -/
def poll (target : Key) (waiter : W) : Poll C × World I P W C n :=
  let (answer, registry) := world.registry.poll target waiter
  let after :=
    match world.entry target with
    | none => world
    | some (p, .settled result) => world.yields p result
    | some (_, .abandoned) => world
    | some (p, _) => world.refresh p waiter
  (answer, { after with registry := registry })

def abandon (target : Key) : World I P W C n :=
  let (_, registry) := world.registry.abandon target
  let after :=
    match world.entry target with
    | none => world
    | some (_, .abandoned) => world
    | some (p, .inFlight _) =>
        (world.abandons p).setMark p { world.marks p with swept := false }
    | some (p, state) => ((world.abandons p).loses p).drops state.value
  { after with registry := registry }

def defer (request : Request (P × Nat)) : World I P W C n :=
  let (payload, registry) := world.registry.defer request
  let after :=
    match world.entry request.ticket with
    | some (p, .inFlight _) => world.setMark p { world.marks p with retried := false }
    | some (p, .abandoned) => world.loses p
    | _ => world
  { (after.give request).drops (payload.map (·.2)) with registry := registry }

/-- The transport is done with the payload when it gives up the ticket. -/
def complete (request : Request (P × Nat)) (result : Except (Error C) Unit) :
    Option W × World I P W C n :=
  let (waiter, registry) := world.registry.complete request.ticket result
  let after :=
    match world.entry request.ticket with
    | some (p, .inFlight _) => world.settles p result
    | some (p, .abandoned) => world.loses p
    | _ => world
  (waiter, { (after.give request).drops (some request.payload.2) with registry := registry })

def endCancel (cancel : Key) : World I P W C n :=
  let (_, registry) := world.registry.endCancel cancel none
  let after :=
    match world.entry cancel with
    | some (p, .abandoned) => world.loses p
    | _ => world
  { after with registry := registry, cancels := world.cancels.filter (· ≠ cancel) }

def failCancel (cancel : Key) (cause : C) : World I P W C n :=
  let after :=
    match world.entry cancel with
    | some (p, .abandoned) => world.settles p (.error (.route cause))
    | _ => world
  { after with
    registry := world.registry.failCancel cancel cause
    cancels := world.cancels.filter (· ≠ cancel) }

/-- The lane that a rejection takes from. -/
def intake : Fin 3 := if world.registry.slots.isVacant QUEUED then DEFERRED else QUEUED

def reject : Rejection × Option W × World I P W C n :=
  let (rejection, waiter, registry) := world.registry.reject
  let after :=
    match rejection, world.registry.slots.front world.intake with
    | .settled, some (p, _, state) =>
        (world.settles p (.error .intakeClosed)).drops state.value
    | _, _ => world
  (rejection, waiter, { after with registry := registry })

variable (intents : Intent I P)

def reserve (intent : I) (waiter : W) : Except (Rejected I W) Unit × World I P W C n :=
  match world.registry.tryReserve intents.numbered (intent, world.accepted) waiter with
  | .error rejected => (.error ⟨rejected.intent.1, rejected.waiter, rejected.cause⟩, world)
  | .ok registry =>
      let after :=
        match Table.locate n (intents.target intent) with
        | none => world
        | some p => world.setMark p ⟨world.accepted, some waiter, false, false⟩
      (.ok (), { after with registry := registry, accepted := world.accepted + 1 })

def retry : Bool × World I P W C n :=
  match world.registry.retry, world.registry.slots.front DEFERRED with
  | some registry, some (p, _) =>
      (true, { world.setMark p { world.marks p with retried := true } with registry := registry })
  | _, _ => (false, world)

def takeRequest : Option (Request (P × Nat)) × World I P W C n :=
  match world.registry.takeRequest intents.numbered with
  | none => (none, world)
  | some (request, registry) =>
      (some request, { world with registry := registry, taken := request :: world.taken })

def takeCancel : Option Key × World I P W C n :=
  match world.registry.takeCancel, world.registry.slots.front ABANDONED with
  | some (cancel, registry), some (p, _) =>
      (some cancel, { world.setMark p { world.marks p with swept := true } with
        registry := registry
        cancels := cancel :: world.cancels })
  | _, _ => (none, world)

/-- The end of a cancellation, with the ticket that the transport gave up for it. -/
def finish (cancel : Key) (request : Option (Request (P × Nat))) : Option W × World I P W C n :=
  let ended := world.endCancel cancel
  match request with
  | none => (none, ended)
  | some request =>
      if request.ticket = cancel then
        (none, (ended.give request).drops (some request.payload.2))
      else ended.complete request (.error .stale)

def step : Input I P W C → Except Empty (Output I P W C × World I P W C n)
  | .start target => .ok (.done, { world with registry := world.registry.start target })
  | .reserve intent waiter =>
      let (result, world) := world.reserve intents intent waiter
      .ok (.reserved result, world)
  | .poll target waiter =>
      let (answer, world) := world.poll target waiter
      .ok (.polled answer, world)
  | .abandon target => .ok (.done, world.abandon target)
  | .retry => .ok (.retried world.retry.1, world.retry.2)
  | .takeRequest =>
      let (request, world) := world.takeRequest intents
      .ok (.request request, world)
  | .defer request => .ok (.done, world.defer request)
  | .complete request result =>
      let (waiter, world) := world.complete request result
      .ok (.woken waiter, world)
  | .takeCancel => .ok (.cancel world.takeCancel.1, world.takeCancel.2)
  | .endCancel cancel request =>
      let (waiter, world) := world.finish cancel request
      .ok (.woken waiter, world)
  | .failCancel cancel cause => .ok (.done, world.failCancel cancel cause)
  | .closeIntake => .ok (.done, { world with registry := world.registry.closeIntake })
  | .reject =>
      let (rejection, waiter, world) := world.reject
      .ok (.rejected rejection waiter, world)

/-- Requests and cancellations are used once, by who holds them. The sweep ends a
cancellation in the turn that took it, so that its target is not reserved before. -/
def Allowed : Input I P W C → Prop
  | .reserve intent _ => intents.target intent ∉ world.cancels
  | .defer request | .complete request _ => request ∈ world.taken
  | .endCancel cancel request =>
      cancel ∈ world.cancels ∧ ∀ held, request = some held → held ∈ world.taken
  | .failCancel cancel _ => cancel ∈ world.cancels
  | .start _ | .poll .. | .abandon _ | .retry | .takeRequest | .takeCancel | .closeIntake
  | .reject => True

end World

/-- The runs of a registry of `n` positions. -/
def machine {I P : Type} (W C : Type) (intents : Intent I P) (n : Nat) :
    Machine (World I P W C n) (Input I P W C) (Output I P W C) Empty where
  start world := world = .new I P W C n
  allowed world := world.Allowed intents
  step world := world.step intents

end Dope.Manifold.Side
