import Mathlib.Algebra.Group.Nat.Defs
import Mathlib.Algebra.GroupWithZero.Nat
import Mathlib.Data.Finset.Card
import Mathlib.Data.Fintype.Basic
import Dope.Base.Planes
import Dope.Dns.Wire.Cookies

/-! # Transaction identities

Model of `storage/queries/tx`. The table hands out the 65536 datagram ids in
epochs: an id released in the epoch it was issued in waits in the second plane
until the first plane is empty and the planes change places. The owner array of
the source holds the datagram half and the stream half; here they are two
functions. The random keys are parameters, and so is the choice the index set
makes when an id is taken.
-/

namespace Dope.Dns

inductive Error.Identity where
  | cookie (epoch servers : Nat)
  | datagram (capacity : Nat)
  | stream (id : Nat)
deriving DecidableEq, Repr

namespace Tx

open Index Wire Cookies

def capacity : Nat := 65536

abbrev Id := Fin capacity

def maxServers : Nat := 4

abbrev Server := Fin maxServers

instance : NeZero capacity := ⟨by decide⟩

instance : NeZero maxServers := ⟨by decide⟩

/-! ## Epochs -/

def Epoch.max : Nat := (2 ^ 64 - 1) / maxServers

structure Epoch where
  value : Nat
  bound : value ≤ Epoch.max
deriving DecidableEq, Repr

namespace Epoch

def zero : Epoch := ⟨0, Nat.zero_le _⟩

/-- The permutation input of a client cookie. -/
def cookie (epoch : Epoch) (server : Server) : Nat := epoch.value * maxServers + server.val

def tryNext (epoch : Epoch) : Except Error.Identity Epoch :=
  if h : epoch.value + 1 ≤ max then .ok ⟨epoch.value + 1, h⟩
  else .error (.cookie (epoch.value + 1) maxServers)

theorem tryNext_ok {epoch next : Epoch} (h : epoch.tryNext = .ok next) :
    next.value = epoch.value + 1 := by
  unfold tryNext at h
  split at h
  · cases h
    rfl
  · simp at h

end Epoch

/-- The driver's keys for datagram ids and cookies. -/
structure Random where
  start : Nat → Id
  cookie : Nat → Client

/-! ## Cookies -/

structure Cookie where
  client : Client
  generation : Epoch
deriving DecidableEq, Repr

structure Pair where
  cookie : Cookie
  server : Cookies.Server
deriving DecidableEq, Repr

structure Cookies where
  generation : Epoch
  retired : Epoch
  values : Server → Option Pair

namespace Cookies

def new : Cookies := ⟨.zero, .zero, fun _ => none⟩

def issue (cookies : Cookies) (server : Server) (random : Random) :
    Except Error.Identity (Cookie × Cookies) :=
  match cookies.values server with
  | some pair => .ok (pair.cookie, cookies)
  | none =>
      match cookies.generation.tryNext with
      | .error error => .error error
      | .ok next =>
          .ok (⟨random.cookie (next.cookie server), next⟩, { cookies with generation := next })

def clear (cookies : Cookies) : Cookies :=
  { cookies with values := fun _ => none, retired := cookies.generation }

/-- Refused for a cookie that was issued before the last retirement. -/
def cache (cookies : Cookies) (cookie : Cookie) (server : Server) (value : Cookies.Server) :
    Bool × Cookies :=
  if cookie.generation.value ≤ cookies.retired.value then (false, cookies)
  else (true, { cookies with
    values := fun s => if s = server then some ⟨cookie, value⟩ else cookies.values s })

end Cookies

/-! ## Leases -/

structure Udp where
  id : Id
  epoch : Epoch
  cookie : Cookie
deriving DecidableEq, Repr

inductive Lease where
  | udp (lease : Udp)
  | tcp (id : Id)
deriving DecidableEq, Repr

def Lease.id : Lease → Id
  | .udp lease => lease.id
  | .tcp id => id

/-! ## The table -/

structure Table (B : Type) where
  pool : Planes (Fin 2) Id
  epochs : Fin 2 × Fin 2
  owners : Id → Option B
  streamOwners : Id → Option B
  streams : Nat
  cursor : Nat
  epoch : Epoch
  cookies : Cookies

namespace Table

variable {B : Type}

def new : Table B where
  pool plane _ := plane == 0
  epochs := (0, 1)
  owners _ := none
  streamOwners _ := none
  streams := 0
  cursor := 0
  epoch := .zero
  cookies := .new

def bindUdp (table : Table B) : Table B := { table with cookies := table.cookies.clear }

def tryRotate (table : Table B) : Except Error.Identity (Table B) :=
  match table.epoch.tryNext with
  | .error error => .error error
  | .ok next =>
      .ok { table with
        epoch := next
        cookies := table.cookies.clear
        epochs := table.epochs.swap }

/-- Give the id just taken from `plane` to its owner, or put it back when no
cookie can be issued. -/
def grant (table : Table B) (id : Id) (plane : Fin 2) (owner : B) (server : Server)
    (random : Random) : Except Error.Identity Udp × Table B :=
  match table.cookies.issue server random with
  | .error error => (.error error, { table with pool := table.pool.insert plane id })
  | .ok (cookie, cookies) =>
      (.ok ⟨id, table.epoch, cookie⟩,
        { table with
          cookies := cookies
          cursor := (table.cursor + 1) % 2 ^ 64
          owners := fun i => if i = id then some owner else table.owners i })

def tryUdp (pick : Id → Picker Id) (table : Table B) (owner : B) (server : Server)
    (random : Random) : Except Error.Identity Udp × Table B :=
  let start := random.start table.cursor
  match table.pool.take (pick start) table.epochs.1 with
  | some (id, pool) =>
      { table with pool := pool }.grant id table.epochs.1 owner server random
  | none =>
      match table.pool.take (pick start) table.epochs.2 with
      | none => (.error (.datagram capacity), table)
      | some (id, pool) =>
          match { table with pool := pool }.tryRotate with
          | .error error =>
              (.error error, { table with pool := pool.insert table.epochs.2 id })
          | .ok rotated => rotated.grant id table.epochs.2 owner server random

def tryTcp (table : Table B) (owner : B) (id : Id) : Except Error.Identity Unit × Table B :=
  match table.streamOwners id with
  | some _ => (.error (.stream id), table)
  | none =>
      (.ok (), { table with
        streamOwners := fun i => if i = id then some owner else table.streamOwners i
        streams := table.streams + 1 })

def clearTcp (table : Table B) (id : Id) : Table B :=
  match table.streamOwners id with
  | none => table
  | some _ =>
      { table with
        streamOwners := fun i => if i = id then none else table.streamOwners i
        streams := table.streams - 1 }

def releaseUdp (table : Table B) (lease : Udp) : Table B :=
  let free := if lease.epoch = table.epoch then table.epochs.2 else table.epochs.1
  { table with
    owners := fun i => if i = lease.id then none else table.owners i
    pool := table.pool.insert free lease.id }

def release (table : Table B) : Lease → Table B
  | .tcp id => table.clearTcp id
  | .udp lease => table.releaseUdp lease

/-- The cancellation of a stream id that was not committed. -/
def cancel (table : Table B) (id : Id) : Table B := table.clearTcp id

def udpOwner (table : Table B) (id : Id) : Option B := table.owners id

def streamOwner (table : Table B) (id : Id) : Option B := table.streamOwners id

def hasStream (table : Table B) : Bool := table.streams != 0

def cache (table : Table B) (cookie : Cookie) (server : Server) (value : Cookies.Server) :
    Bool × Table B :=
  let (cached, cookies) := table.cookies.cache cookie server value
  (cached, { table with cookies := cookies })

end Table

end Tx

end Dope.Dns
