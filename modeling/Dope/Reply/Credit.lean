import Mathlib.Algebra.Group.Nat.Defs
import Mathlib.Logic.Function.Basic
import Dope.Reply.Layout

/-! # Entry credit of the reply lanes

Model of `retain/raw` and of the entry side of `retain/pool/lanes`. The credit
accounts themselves lie outside the repository, and what their callers rely on
is stated here once: a lane holds its reserve first and shared credit beyond
it, and what a lane holds beyond its reserve goes back to the shared credit
first.
-/

namespace Dope.Reply

/-- Why a lane was not charged. -/
inductive Cause (N : Nat) where
  | overflow (axis : Fin N) (held requested : Nat)
  | exhausted (axis : Fin N) (required available : Nat)
deriving DecidableEq, Repr

def usizeMax : Nat := 2 ^ 64 - 1

/-- One axis of credit, as its callers see it. -/
structure FairCredit where
  Lane : Type
  new : Nat → Lane
  held : Lane → Nat
  reserve : Lane → Nat
  canAcquire : Lane → Nat → Nat → Bool
  tryAcquire : Lane → Nat → Nat → Except (Cause 1) (Lane × Nat)
  release : Lane → Nat → Nat → Lane × Nat
  new_held : ∀ amount, held (new amount) = 0
  new_reserve : ∀ amount, reserve (new amount) = amount
  /-- What is left of the reserve counts, and then the shared credit. -/
  canAcquire_iff : ∀ lane shared amount, held lane + amount ≤ usizeMax →
    (canAcquire lane shared amount = true ↔ amount ≤ (reserve lane - held lane) + shared)
  tryAcquire_of_can : ∀ lane shared amount, canAcquire lane shared amount = true →
    ∃ lane', tryAcquire lane shared amount =
        .ok (lane', shared - (amount - (reserve lane - held lane))) ∧
      held lane' = held lane + amount ∧ reserve lane' = reserve lane
  tryAcquire_of_not : ∀ lane shared amount, canAcquire lane shared amount = false →
    ∃ cause, tryAcquire lane shared amount = .error cause
  release_held : ∀ lane shared amount, amount ≤ held lane →
    held (release lane shared amount).1 = held lane - amount
  release_reserve : ∀ lane shared amount,
    reserve (release lane shared amount).1 = reserve lane
  release_shared : ∀ lane shared amount, amount ≤ held lane →
    (release lane shared amount).2 = shared + min amount (held lane - reserve lane)

namespace FairCredit

/-- A lane that stores its two amounts. -/
structure Account where
  held : Nat
  reserve : Nat
deriving DecidableEq, Repr

/-- The rule written out on stored amounts. -/
def direct : FairCredit where
  Lane := Account
  new amount := ⟨0, amount⟩
  held lane := lane.held
  reserve lane := lane.reserve
  canAcquire lane shared amount :=
    decide (lane.held + amount ≤ usizeMax ∧ amount ≤ (lane.reserve - lane.held) + shared)
  tryAcquire lane shared amount :=
    if usizeMax < lane.held + amount then .error (.overflow 0 lane.held amount)
    else if amount ≤ (lane.reserve - lane.held) + shared then
      .ok (⟨lane.held + amount, lane.reserve⟩, shared - (amount - (lane.reserve - lane.held)))
    else .error (.exhausted 0 (amount - (lane.reserve - lane.held)) shared)
  release lane shared amount :=
    (⟨lane.held - amount, lane.reserve⟩, shared + min amount (lane.held - lane.reserve))
  new_held _ := rfl
  new_reserve _ := rfl
  canAcquire_iff lane shared amount small := by simp [small]
  tryAcquire_of_can lane shared amount can := by
    simp only [decide_eq_true_eq] at can
    rw [if_neg (by omega), if_pos can.2]
    exact ⟨_, rfl, rfl, rfl⟩
  tryAcquire_of_not lane shared amount cannot := by
    simp only [decide_eq_false_iff_not] at cannot
    by_cases large : usizeMax < lane.held + amount
    · exact ⟨_, if_pos large⟩
    · rw [if_neg large, if_neg (by omega)]
      exact ⟨_, rfl⟩
  release_held _ _ _ _ := rfl
  release_reserve _ _ _ := rfl
  release_shared _ _ _ _ := rfl

end FairCredit

/-! ## The pool of one arena -/

/-- `pool::Release` -/
inductive Release where
  | reserved
  | shared
deriving DecidableEq, Repr

/-- The entry credit of all lanes, and the entries in use. -/
structure Pool (credit : FairCredit) (n : Nat) where
  shared : Nat
  lanes : Fin n → credit.Lane
  entries : Nat

namespace Pool

variable {credit : FairCredit} {n : Nat}

def start (credit : FairCredit) (n : Nat) (plan : Plan 1) : Pool credit n :=
  ⟨plan.shared 0, fun _ => credit.new (plan.reserve 0), 0⟩

variable (pool : Pool credit n) (lane : Fin n)

def held : Nat := credit.held (pool.lanes lane)

def reserve : Nat := credit.reserve (pool.lanes lane)

def hasReserve : Bool := pool.held lane < pool.reserve lane

/-- `can_admit` -/
def canAdmit (request : Nat) : Bool := credit.canAcquire (pool.lanes lane) pool.shared request

/-- `Registration::try_new`: the cause is told on the first of two axes. -/
def register (request : Nat) : Except (Cause 2) (Pool credit n) :=
  match credit.tryAcquire (pool.lanes lane) pool.shared request with
  | .ok (state, shared) =>
      .ok { pool with
        shared := shared
        lanes := Function.update pool.lanes lane state
        entries := pool.entries + request }
  | .error (.overflow _ held requested) => .error (.overflow 0 held requested)
  | .error (.exhausted _ required available) => .error (.exhausted 0 required available)

/-- `Payload::release_slot` of one entry. -/
def releaseSlot : Except Fault (Release × Pool credit n) := do
  let release := if pool.held lane = pool.reserve lane then Release.reserved else .shared
  let (state, shared) := credit.release (pool.lanes lane) pool.shared 1
  let entries ← minus pool.entries 1
  return (release, { pool with
    shared := shared
    lanes := Function.update pool.lanes lane state
    entries := entries })

/-- `pool'` differs from `pool` in what `lane` holds, and holds `held` there. -/
structure Moves (pool' : Pool credit n) (held : Nat) : Prop where
  held : pool'.held lane = held
  reserve : ∀ other, pool'.reserve other = pool.reserve other
  others : ∀ other, other ≠ lane → pool'.held other = pool.held other

variable {pool lane}

theorem canAdmit_iff {request : Nat} (small : pool.held lane + request ≤ usizeMax) :
    pool.canAdmit lane request = true ↔
      request ≤ (pool.reserve lane - pool.held lane) + pool.shared :=
  credit.canAcquire_iff _ _ _ small

theorem update_moves {state : credit.Lane} {shared entries held : Nat}
    (holds : credit.held state = held) (keeps : credit.reserve state = pool.reserve lane) :
    pool.Moves lane
      { pool with
        shared := shared
        lanes := Function.update pool.lanes lane state
        entries := entries } held where
  held := by simpa [Pool.held] using holds
  reserve other := by
    by_cases same : other = lane
    · subst same
      simpa [Pool.reserve] using keeps
    · simp [Pool.reserve, same]
  others other ne := by simp [Pool.held, ne]

/-- What a registration does to the pool, if it does anything. -/
theorem register_ok {request : Nat} {pool' : Pool credit n}
    (run : pool.register lane request = .ok pool') :
    pool.canAdmit lane request = true ∧ pool.Moves lane pool' (pool.held lane + request) ∧
      pool'.entries = pool.entries + request := by
  cases can : pool.canAdmit lane request with
  | false =>
    rcases credit.tryAcquire_of_not _ _ _ can with ⟨cause, refused⟩
    rw [register, refused] at run
    cases cause <;> cases run
  | true =>
    rcases credit.tryAcquire_of_can _ _ _ can with ⟨state, granted, holds, keeps⟩
    rw [register, granted] at run
    cases run
    exact ⟨rfl, update_moves holds keeps, rfl⟩

/-- A unit goes back, and it is the reserve that gets it when nothing shared was held. -/
theorem releaseSlot_ok (holds : 0 < pool.held lane) (used : 0 < pool.entries) :
    ∃ pool', pool.releaseSlot lane =
        .ok (if pool.held lane = pool.reserve lane then .reserved else .shared, pool') ∧
      pool.Moves lane pool' (pool.held lane - 1) ∧ pool'.entries = pool.entries - 1 := by
  rw [releaseSlot, minus_of_le used]
  exact ⟨_, rfl, update_moves (credit.release_held _ _ _ holds) (credit.release_reserve _ _ _),
    rfl⟩

end Pool

end Dope.Reply
