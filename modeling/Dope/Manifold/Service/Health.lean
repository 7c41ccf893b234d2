import Dope.Core.Clock
import Mathlib.Data.BitVec

/-! # Service health

Model of `service/health`: the generations of a member's health, the failures it
counts, and the delay before its next probe.
-/

namespace Dope.Manifold.Service

open Dope.Core

/-! ## Generations -/

def Generation.LAST : Nat := 2 ^ 64 - 1

inductive Next where
  | advanced (generation : Nat)
  | exhausted
deriving DecidableEq, Repr

def Generation.next (generation : Nat) : Next :=
  if generation = Generation.LAST then .exhausted else .advanced (generation + 1)

/-! ## Backoff -/

inductive Retry where
  | scale (factor : Nat)
  | maximum
deriving DecidableEq, Repr

/-- One more failure: what the retry waits for, and the new count. -/
def Failures.advance (failures : Nat) : Retry × Nat :=
  if 32 ≤ failures then (.maximum, failures) else (.scale (2 ^ failures), failures + 1)

def Duration.MAX : Nat := 2 ^ 64 * 1000000000 - 1

/-- A duration, in nanoseconds. -/
structure Duration where
  nanos : Nat
  bounded : nanos ≤ Duration.MAX
deriving DecidableEq

def Duration.saturatingMul (duration factor : Nat) : Nat := min (duration * factor) Duration.MAX

def Duration.saturatingAdd (left right : Nat) : Nat := min (left + right) Duration.MAX

/-- Ordered retry bounds that are not zero. -/
structure Plan where
  base : Duration
  maximum : Duration
  positive : 0 < base.nanos
  ordered : base.nanos ≤ maximum.nanos

structure Backoff where
  plan : Plan
  rng : BitVec 64

def Backoff.nextRand (backoff : Backoff) : BitVec 64 × Backoff :=
  let rng := backoff.rng + 0x9E3779B97F4A7C15#64
  let x := (rng ^^^ (rng >>> 30)) * 0xBF58476D1CE4E5B9#64
  let x := (x ^^^ (x >>> 27)) * 0x94D049BB133111EB#64
  (x ^^^ (x >>> 31), { backoff with rng })

/-- `limit` is the last instant of the clock. -/
def Backoff.deadline (limit : Nat) (backoff : Backoff) (now : Nat) (retry : Retry) :
    Nat × Backoff :=
  let scaled := match retry with
    | .scale factor =>
        min (Duration.saturatingMul backoff.plan.base.nanos factor) backoff.plan.maximum.nanos
    | .maximum => backoff.plan.maximum.nanos
  let half := scaled / 2
  let (random, backoff) := backoff.nextRand
  -- The admitted minimum stays positive when half a nanosecond rounds to zero.
  let nanos := if half = 0 then 1
    else if 2 ^ 64 - 1 < half then random.toNat
    else random.toNat % half
  (Clock.clampAdd limit now (Duration.saturatingAdd half nanos), backoff)

/-- When to try again, and the new count of failures. -/
def Backoff.retryAt (limit : Nat) (backoff : Backoff) (failures now : Nat) :
    Nat × Nat × Backoff :=
  let (retry, failures) := Failures.advance failures
  let (due, backoff) := backoff.deadline limit now retry
  (due, failures, backoff)

end Dope.Manifold.Service
