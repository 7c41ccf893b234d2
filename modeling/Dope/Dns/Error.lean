import Dope.Core.Clock
import Dope.Dns.Tx.Table
import Dope.Dns.Wire.Response

/-! # Lookup errors

Model of `lookup/error.rs` with the causes it carries from other layers, as far
as a cause decides whether an error ends all retries.
-/

namespace Dope.Dns

open Core.Clock

inductive SubmitCause where
  | full
  | identityExhausted
deriving DecidableEq, Repr

inductive RejectCause where
  | inactive
  | queueFull
  | identityExhausted
  | submit (cause : SubmitCause)
  | slot
  | transfer
  | budgetMissing
  | resident
  | gsoUnavailable
  | gsoShape
deriving DecidableEq, Repr

namespace Close

inductive LocalOrigin where
  | apiRequest
  | sideComplete
  | operationCancelled
  | superseded
  | scheduledRotation
  | runtimeShutdown
  | resourceFailure
deriving DecidableEq, Repr

inductive Capacity where
  | ingressStaging
  | ingressRetention
  | transport
  | identityExhausted
deriving DecidableEq, Repr

inductive DeadlineKind where
  | connect
  | send
  | inbound
  | lifetime
deriving DecidableEq, Repr

inductive ParkError where
  | submit (cause : SubmitCause)
  | credit
  | register
  | full
  | occupied
  | unavailable
deriving DecidableEq, Repr

/-- Why a connection was retired. -/
inductive Reason where
  | localOrigin (origin : LocalOrigin)
  | capacity (capacity : Capacity)
  | endpointRetired
  | transport
  | timeout (kind : DeadlineKind)
  | protocol
  | remote
  | receive (error : ParkError)
  | ingress
  | egress
deriving DecidableEq, Repr

end Close

namespace Error

inductive Timing where
  | duration (started completed : Nat)
  | expiry (received ttl : Nat)
deriving DecidableEq, Repr

inductive Datagram where
  | rejected (cause : RejectCause)
  | submit (cause : SubmitCause)
  | partialSend (sent expected : Nat)
  | shutdown
deriving DecidableEq, Repr

inductive Exhaustion where
  | identity
  | submission (cause : SubmitCause)
deriving DecidableEq, Repr

/-- A failure of the stream framing. -/
inductive Codec where
  | input
  | truncated (actual required : Nat)
deriving DecidableEq, Repr

inductive Kind where
  | stream (error : Codec)
  | opening (cause : Exhaustion)
  | timeout
  | transport (errno : Nat)
  | datagram (error : Datagram)
  | egress
  | close (reason : Close.Reason)
  | name
  | refused
  | server (code : Nat)
  | truncated
  | empty
  | capacity (limit actual : Nat)
  | clock (range : Range)
  | deadline (range : Range)
  | timing (error : Timing)
  | identity (error : Identity)
  | malformed (error : Malformed)
deriving DecidableEq, Repr

def Kind.isTerminal : Kind → Bool
  | .datagram (.submit cause) => cause == .identityExhausted
  | .datagram (.rejected (.submit cause)) => cause == .identityExhausted
  | .close (.receive (.submit cause)) => cause == .identityExhausted
  | .opening _ => true
  | .clock _ => true
  | .deadline _ => true
  | .datagram (.rejected .inactive) => true
  | .datagram (.rejected .identityExhausted) => true
  | .datagram .shutdown => true
  | .close (.capacity .identityExhausted) => true
  | .identity (.cookie _ _) => true
  | _ => false

end Error

end Dope.Dns
