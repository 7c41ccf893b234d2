import Dope.Base.Lanes
import Dope.Base.Run

/-! # Side request store

Model of `client/side/registry/store`: one entry for each position of the primary
connections, in one of three lanes or in none. The table of positions and lanes
lies outside the repository; it holds one key at a position and knows an entry by
its whole key. A removed state is handed back, since the source destroys it after
the table is free again.
-/

namespace Dope.Manifold.Side

/-- The identity of a connection: a position and its generation. -/
structure Key where
  index : Nat
  generation : Nat
deriving DecidableEq, Repr

/-- `side::Error`: `C` stands for the causes of the layers below. -/
inductive Error (C : Type) where
  | stale
  | identity (cause : C)
  | route (cause : C)
  | connectDeadline (cause : C)
  | delivery (cause : C)
  | intakeClosed
  | runtimeShutdown
  | forcedShutdown
deriving DecidableEq, Repr

/-! ## Table -/

/-- The slot of a key cannot be taken. -/
inductive Direct where
  | outside (key : Key)
  | occupied (key stored : Key)
deriving DecidableEq, Repr

/-- `n` positions over lanes of states `S`. -/
structure Table (S : Type) (n : Nat) where
  slots : Fin n → Option (Key × S)
  lanes : Fin 3 → List (Fin n)

namespace Table

variable {S : Type} {n : Nat} (table : Table S n)

def start (S : Type) (n : Nat) : Table S n := ⟨fun _ => none, fun _ => []⟩

/-- The position of a key. -/
def locate (n : Nat) (key : Key) : Option (Fin n) :=
  if h : key.index < n then some ⟨key.index, h⟩ else none

def tryVacant (key : Key) : Except Direct (Fin n) :=
  match locate n key with
  | none => .error (.outside key)
  | some p =>
      match table.slots p with
      | some (stored, _) => .error (.occupied key stored)
      | none => .ok p

def entry (key : Key) : Option (Fin n × S) :=
  match locate n key with
  | none => none
  | some p =>
      match table.slots p with
      | some (stored, state) => if stored = key then some (p, state) else none
      | none => none

def front (K : Fin 3) : Option (Fin n × Key × S) :=
  match (table.lanes K).head? with
  | none => none
  | some p => (table.slots p).map fun slot => (p, slot)

def isVacant (K : Fin 3) : Bool := (table.lanes K).isEmpty

def set (p : Fin n) (key : Key) (state : S) : Table S n :=
  { table with slots := Function.update table.slots p (some (key, state)) }

def moveToBack (p : Fin n) (K : Fin 3) : Table S n :=
  { table with lanes := Lanes.moveToBack table.lanes p K }

def unlink (p : Fin n) : Table S n := { table with lanes := Lanes.unlink table.lanes p }

def remove (p : Fin n) : Table S n :=
  { slots := Function.update table.slots p none, lanes := Lanes.unlink table.lanes p }

end Table

/-! ## States -/

inductive Source (I P : Type) where
  | intent (intent : I)
  | payload (payload : P)
deriving DecidableEq, Repr

structure Pending (T W : Type) where
  value : T
  waiter : Option W
deriving DecidableEq, Repr

inductive State (I P W C : Type) where
  | queued (pending : Pending I W)
  | inFlight (waiter : Option W)
  | deferred (pending : Pending P W)
  | settled (result : Except (Error C) Unit)
  | abandoned

namespace State

variable {I P W C : Type}

def take : State I P W C → Option (Source I P) × State I P W C
  | .queued ⟨value, waiter⟩ => (some (.intent value), .inFlight waiter)
  | .deferred ⟨value, waiter⟩ => (some (.payload value), .inFlight waiter)
  | state => (none, state)

def reject : State I P W C → Option (Source I P × Option W) × State I P W C
  | .queued ⟨value, waiter⟩ =>
      (some (.intent value, waiter), .settled (.error .intakeClosed))
  | .deferred ⟨value, waiter⟩ =>
      (some (.payload value, waiter), .settled (.error .intakeClosed))
  | state => (none, state)

end State

/-- `task::Poll` of a result. -/
inductive Poll (C : Type) where
  | pending
  | ready (result : Except (Error C) Unit)

/-- What an application hands in: its target, and the payload it turns into. -/
structure Intent (I P : Type) where
  target : I → Key
  intoPayload : I → P

/-! ## Store -/

abbrev QUEUED : Fin 3 := 0

abbrev ABANDONED : Fin 3 := 1

abbrev DEFERRED : Fin 3 := 2

abbrev Store (I P W C : Type) (n : Nat) := Table (State I P W C) n

namespace Store

variable {I P W C : Type} {n : Nat} (store : Store I P W C n)

def tryReserve (intents : Intent I P) (intent : I) (waiter : W) :
    Except Direct (Store I P W C n) :=
  let target := intents.target intent
  match store.tryVacant target with
  | .error cause => .error cause
  | .ok p => .ok ((store.set p target (.queued ⟨intent, some waiter⟩)).moveToBack p QUEUED)

def poll (target : Key) (waiter : W) : Poll C × Store I P W C n :=
  match store.entry target with
  | none => (.ready (.error .stale), store)
  | some (p, .queued pending) =>
      (.pending, store.set p target (.queued { pending with waiter := some waiter }))
  | some (p, .inFlight _) => (.pending, store.set p target (.inFlight (some waiter)))
  | some (p, .deferred pending) =>
      (.pending, store.set p target (.deferred { pending with waiter := some waiter }))
  | some (p, .settled result) => (.ready result, store.remove p)
  | some (_, .abandoned) => (.ready (.error .stale), store)

def abandon (target : Key) : Option (State I P W C) × Store I P W C n :=
  match store.entry target with
  | none => (none, store)
  | some (p, .inFlight _) => (none, (store.set p target .abandoned).moveToBack p ABANDONED)
  | some (_, .abandoned) => (none, store)
  | some (p, state) => (some state, store.remove p)

def retry : Option (Store I P W C n) :=
  match store.front DEFERRED with
  | none => none
  | some (p, _) => some (store.moveToBack p QUEUED)

def takeRequest : Option ((Key × Source I P) × Store I P W C n) :=
  match store.front QUEUED with
  | none => none
  | some (p, key, state) =>
      match state.take with
      | (none, _) => none
      | (some source, state) => some ((key, source), (store.set p key state).unlink p)

/-- The payload is handed back when it found no place. -/
def defer (ticket : Key) (payload : P) : Option P × Store I P W C n :=
  match store.entry ticket with
  | none => (some payload, store)
  | some (p, .inFlight waiter) =>
      (none, (store.set p ticket (.deferred ⟨payload, waiter⟩)).moveToBack p DEFERRED)
  | some (p, .abandoned) => (some payload, store.remove p)
  | some (_, _) => (some payload, store)

def complete (ticket : Key) (result : Except (Error C) Unit) : Option W × Store I P W C n :=
  match store.entry ticket with
  | none => (none, store)
  | some (p, .inFlight waiter) => (waiter, store.set p ticket (.settled result))
  | some (p, .abandoned) => (none, store.remove p)
  | some (_, _) => (none, store)

def takeCancel : Option (Key × Store I P W C n) :=
  match store.front ABANDONED with
  | none => none
  | some (p, key, _) => some (key, store.unlink p)

def endCancel (cancel : Key) (result : Except (Error C) Unit) : Store I P W C n :=
  match store.entry cancel with
  | some (p, .abandoned) =>
      match result with
      | .ok () => store.remove p
      | .error error => store.set p cancel (.settled (.error error))
  | _ => store

/-- The rejected value is destroyed by the caller. -/
def reject : Option ((Source I P × Option W) × Store I P W C n) :=
  let lane := if store.isVacant QUEUED then DEFERRED else QUEUED
  match store.front lane with
  | none => none
  | some (p, key, state) =>
      match state.reject with
      | (none, _) => none
      | (some rejected, state) => some (rejected, (store.set p key state).unlink p)

end Store

end Dope.Manifold.Side
