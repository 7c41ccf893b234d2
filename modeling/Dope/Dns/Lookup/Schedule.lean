import Mathlib.Algebra.Group.Nat.Defs
import Dope.Dns.Storage.Queries

/-! # The lookup schedule

Model of `lookup/schedule.rs`, with the revisions of `service`. The schedule
knows when the next lookup may start, how long the installed snapshot is fresh
and how long it is kept after that, and how many lookups have failed in a row.
A schedule without a failure count is stopped.
-/

namespace Dope.Dns.Lookup

open Core.Clock

/-! ## Revisions -/

structure Revision where
  value : Nat
  bound : value < 2 ^ 64
deriving DecidableEq, Repr

namespace Revision

def initial : Revision := ⟨0, by decide⟩

/-- `none` is the exhausted revision. -/
def tryNext (revision : Revision) : Option Revision :=
  if h : revision.value + 1 < 2 ^ 64 then some ⟨revision.value + 1, h⟩ else none

variable {revision next : Revision}

theorem tryNext_some (h : revision.tryNext = some next) : next.value = revision.value + 1 := by
  unfold tryNext at h
  split at h
  · cases h
    rfl
  · simp at h

end Revision

/-! ## The schedule -/

inductive State where
  | idle (next : Option Nat)
  | fresh (next validUntil staleUntil : Nat)
  | stale (next staleUntil : Nat)
deriving DecidableEq, Repr

inductive Age where
  | fresh
  | stale (next : Nat)
  | expired
deriving DecidableEq, Repr

/-- Failures in a row, up to the largest backoff. -/
structure Retry where
  count : Nat
  bound : count ≤ 16
deriving DecidableEq, Repr

namespace Retry

def zero : Retry := ⟨0, by decide⟩

def limit : Nat := 16

def factor (retry : Retry) : Nat := 2 ^ retry.count

def increment (retry : Retry) : Retry :=
  if h : retry.count < limit then ⟨retry.count + 1, h⟩ else retry

end Retry

structure Schedule where
  requested : Option Reason
  refreshAt : Option Nat
  state : State
  failures : Option Retry
deriving DecidableEq, Repr

def Reason.isFailure : Reason → Bool
  | .startup => false
  | .scheduled => false
  | .connectFailure => true
  | .connectTimeout => true
  | .transportFailure => true
  | .idleFailure => true

namespace Schedule

def new : Schedule := ⟨none, none, .idle none, some .zero⟩

def isActive (schedule : Schedule) : Bool := schedule.failures.isSome

/-- A pending failure is not replaced by a routine reason. -/
def request (schedule : Schedule) (reason : Reason) : Schedule :=
  let pending := schedule.requested.any Reason.isFailure
  if !schedule.isActive || pending && !reason.isFailure then schedule
  else { schedule with requested := some reason }

def deadline (schedule : Schedule) : Option Nat :=
  match schedule.state with
  | .idle _ => none
  | .fresh _ validUntil _ => some validUntil
  | .stale _ staleUntil => some staleUntil

def next (schedule : Schedule) : Option Nat :=
  if !schedule.isActive then none
  else
    match schedule.state with
    | .idle next => next
    | .fresh next _ _ => some next
    | .stale next _ => some next

def delay (schedule : Schedule) (due : Nat) : Schedule :=
  { schedule with state :=
    match schedule.state with
    | .idle _ => .idle (some due)
    | .fresh _ validUntil staleUntil => .fresh due validUntil staleUntil
    | .stale _ staleUntil => .stale due staleUntil }

def allow (schedule : Schedule) (due : Nat) : Schedule :=
  if !schedule.isActive then schedule
  else
    match schedule.state with
    | .idle next => { schedule with state := .idle (some (next.getD due)) }
    | _ => schedule

/-- The retry to wait for now; the count goes up for the next failure. -/
def fail (schedule : Schedule) : Option Retry × Schedule :=
  match schedule.failures with
  | none => (none, schedule)
  | some retry => (some retry, { schedule with failures := some retry.increment })

def stop (schedule : Schedule) : Schedule :=
  { schedule with failures := none, requested := none, refreshAt := none }

def advance (schedule : Schedule) (now : Nat) : Age × Schedule :=
  match schedule.state with
  | .idle _ => (.fresh, schedule)
  | .fresh next validUntil staleUntil =>
      if isDue staleUntil now then (.expired, schedule)
      else if isDue validUntil now then
        (.stale next, { schedule with state := .stale next staleUntil })
      else (.fresh, schedule)
  | .stale _ staleUntil =>
      if isDue staleUntil now then (.expired, schedule) else (.fresh, schedule)

def install (schedule : Schedule) (next : Nat) (refreshAt : Option Nat)
    (fresh : Option (Nat × Nat)) : Schedule :=
  { schedule with
    failures := some .zero
    refreshAt := refreshAt
    state :=
      match fresh with
      | some (validUntil, staleUntil) => .fresh next validUntil staleUntil
      | none => .idle (some next) }

def expire (schedule : Schedule) (now : Nat) : Schedule :=
  { schedule with
    state := .idle schedule.next
    refreshAt := if schedule.isActive then some now else none }

/-! ## What is live -/

/-- How long the installed snapshot is valid, and how long it is kept. -/
structure Window where
  validUntil : Nat
  staleUntil : Nat
deriving DecidableEq, Repr

/-- The state follows a window: fresh within it, stale at its end, idle without
one. -/
inductive Follows : Option Window → State → Prop where
  | idle {next : Option Nat} : Follows none (.idle next)
  | fresh {next : Nat} {window : Window} :
      Follows (some window) (.fresh next window.validUntil window.staleUntil)
  | stale {next : Nat} {window : Window} :
      Follows (some window) (.stale next window.staleUntil)

/-- The snapshot window a fresh state stands for. -/
def window (schedule : Schedule) : Option Window :=
  match schedule.state with
  | .idle _ => none
  | .fresh _ validUntil staleUntil => some ⟨validUntil, staleUntil⟩
  | .stale _ _ => none

variable {schedule : Schedule} {window : Option Window}

/-- A request changes what is requested, and nothing else. -/
theorem request_requested (schedule : Schedule) (reason : Reason) :
    ∃ requested, schedule.request reason = { schedule with requested := requested } := by
  unfold request
  dsimp only
  split
  · exact ⟨schedule.requested, rfl⟩
  · exact ⟨some reason, rfl⟩

theorem request_state (schedule : Schedule) (reason : Reason) :
    (schedule.request reason).state = schedule.state := by
  obtain ⟨requested, same⟩ := schedule.request_requested reason
  rw [same]

theorem request_failures (schedule : Schedule) (reason : Reason) :
    (schedule.request reason).failures = schedule.failures := by
  obtain ⟨requested, same⟩ := schedule.request_requested reason
  rw [same]

theorem request_isActive (schedule : Schedule) (reason : Reason) :
    (schedule.request reason).isActive = schedule.isActive := by
  unfold isActive
  rw [request_failures]

theorem request_next (schedule : Schedule) (reason : Reason) :
    (schedule.request reason).next = schedule.next := by
  unfold next
  rw [request_isActive, request_state]

theorem request_stopped (stopped : schedule.isActive = false) (reason : Reason) :
    schedule.request reason = schedule := by
  unfold request
  simp [stopped]

theorem delay_next (active : schedule.isActive = true) (due : Nat) :
    (schedule.delay due).next = some due := by
  have still : (schedule.delay due).isActive = true := active
  unfold Schedule.next
  rw [still]
  unfold Schedule.delay
  cases schedule.state <;> rfl

/-- A stopped schedule has no retry; a running one counts the failure. -/
theorem fail_cases (schedule : Schedule) :
    (schedule.isActive = false ∧ schedule.fail = (none, schedule)) ∨
      ∃ retry, schedule.failures = some retry ∧
        schedule.fail = (some retry, { schedule with failures := some retry.increment }) := by
  unfold Schedule.fail isActive
  cases counted : schedule.failures with
  | none => exact .inl ⟨rfl, rfl⟩
  | some retry => exact .inr ⟨retry, rfl, rfl⟩

theorem allow_failures (schedule : Schedule) (due : Nat) :
    (schedule.allow due).failures = schedule.failures := by
  unfold Schedule.allow
  split
  · rfl
  · split <;> rfl

theorem allow_next {wait : Nat} (waits : schedule.next = some wait) (due : Nat) :
    (schedule.allow due).next = some wait := by
  have active : (schedule.allow due).isActive = schedule.isActive := by
    unfold isActive
    rw [allow_failures]
  unfold Schedule.next at waits ⊢
  rw [active]
  split at waits
  · simp at waits
  · rename_i running
    rw [if_neg running]
    unfold Schedule.allow
    rw [if_neg running]
    cases state : schedule.state with
    | idle next =>
      simp only [state] at waits
      rw [waits]
      rfl
    | fresh | stale => simpa [state] using waits

theorem Follows.ofFresh {next validUntil staleUntil : Nat}
    (follows : Follows window (.fresh next validUntil staleUntil)) :
    window = some ⟨validUntil, staleUntil⟩ := by
  cases follows
  rfl

theorem Follows.delay (follows : Follows window schedule.state) (due : Nat) :
    Follows window (schedule.delay due).state := by
  unfold Schedule.delay
  cases state : schedule.state with
  | idle next =>
    rw [state] at follows
    cases follows
    exact .idle
  | fresh next validUntil staleUntil =>
    rw [state] at follows
    cases follows
    exact .fresh
  | stale next staleUntil =>
    rw [state] at follows
    cases follows
    exact .stale

theorem Follows.allow (follows : Follows window schedule.state) (due : Nat) :
    Follows window (schedule.allow due).state := by
  unfold Schedule.allow
  split
  · exact follows
  · cases state : schedule.state with
    | idle next =>
      rw [state] at follows
      cases follows
      exact .idle
    | fresh next validUntil staleUntil =>
      rw [state] at follows
      rwa [← state] at follows
    | stale next staleUntil =>
      rw [state] at follows
      rwa [← state] at follows

end Schedule

end Dope.Dns.Lookup
