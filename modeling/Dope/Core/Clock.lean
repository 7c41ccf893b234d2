import Mathlib.Order.Basic
import Mathlib.Order.Lattice

/-! # Monotonic time

Model of `driver/schedule/clock`. An instant is its distance in nanoseconds from
the platform's earliest instant, and `limit` is the furthest instant the
platform represents.
-/

namespace Dope.Core.Clock

def checkedAdd (limit start duration : Nat) : Option Nat :=
  if start + duration ≤ limit then some (start + duration) else none

def checkedSub (start duration : Nat) : Option Nat :=
  if duration ≤ start then some (start - duration) else none

/-- A deadline beyond the platform's range. -/
structure Range where
  origin : Nat
  duration : Nat
deriving DecidableEq, Repr

def tryAdd (limit start duration : Nat) : Except Range Nat :=
  match checkedAdd limit start duration with
  | some stop => .ok stop
  | none => .error ⟨start, duration⟩

/-- The next duration a binary search tries. -/
def probe (lower upper : Nat) : Nat :=
  if (lower + upper) / 2 = lower then upper else (lower + upper) / 2

theorem probe_bounds {lower upper : Nat} (h : lower < upper) :
    lower < probe lower upper ∧ probe lower upper ≤ upper := by
  unfold probe
  split <;> omega

/-- The search of `furthest`: `lower` is the largest duration known to be in
range, and `best` the instant it reaches. -/
def search (limit origin lower upper best : Nat) : Nat :=
  if _ : lower < upper then
    match checkedAdd limit origin (probe lower upper) with
    | some stop => search limit origin (probe lower upper) upper stop
    | none => search limit origin lower (probe lower upper - 1) best
  else best
termination_by upper - lower
decreasing_by
  all_goals
    have bounds := probe_bounds ‹lower < upper›
    omega

def Range.furthest (limit : Nat) (range : Range) : Nat :=
  search limit range.origin 0 range.duration range.origin

def clampAdd (limit start duration : Nat) : Nat :=
  match tryAdd limit start duration with
  | .ok stop => stop
  | .error range => range.furthest limit

def isDue (deadline now : Nat) : Bool := deadline ≤ now

variable {limit start stop duration : Nat}

theorem checkedAdd_some (h : checkedAdd limit start duration = some stop) :
    stop = start + duration ∧ stop ≤ limit := by
  unfold checkedAdd at h
  split at h
  · cases h
    exact ⟨rfl, ‹_›⟩
  · simp at h

theorem tryAdd_ok (h : tryAdd limit start duration = .ok stop) :
    stop = start + duration ∧ stop ≤ limit := by
  unfold tryAdd at h
  split at h
  · cases h
    exact checkedAdd_some ‹_›
  · simp at h

theorem search_origin {origin lower upper best : Nat} (reached : best = origin + lower) :
    origin ≤ search limit origin lower upper best := by
  induction lower, upper, best using search.induct limit origin with
  | case1 lower upper best wide stop added ih =>
    rw [search, dif_pos wide]
    simp only [added]
    exact ih (checkedAdd_some added).1
  | case2 lower upper best wide late ih =>
    rw [search, dif_pos wide]
    simp only [late]
    exact ih reached
  | case3 lower upper best narrow =>
    rw [search, dif_neg narrow]
    omega

/-- The search reaches the sum, or the end of the platform's range. -/
theorem search_reaches {origin lower upper best : Nat} (ordered : lower ≤ upper)
    (reached : best = origin + lower) :
    min (origin + upper) limit ≤ search limit origin lower upper best := by
  induction lower, upper, best using search.induct limit origin with
  | case1 lower upper best wide stop added ih =>
    rw [search, dif_pos wide]
    simp only [added]
    exact ih (probe_bounds wide).2 (checkedAdd_some added).1
  | case2 lower upper best wide late ih =>
    rw [search, dif_pos wide]
    simp only [late]
    have bounds := probe_bounds wide
    have beyond : limit < origin + probe lower upper := by
      unfold checkedAdd at late
      split at late
      · simp at late
      · omega
    have rest := ih (by omega) reached
    omega
  | case3 lower upper best narrow =>
    rw [search, dif_neg narrow]
    omega

theorem le_clampAdd (limit start duration : Nat) : start ≤ clampAdd limit start duration := by
  unfold clampAdd tryAdd
  cases added : checkedAdd limit start duration with
  | some stop =>
    have sum := (checkedAdd_some added).1
    dsimp only
    omega
  | none => exact search_origin rfl

theorem min_le_clampAdd (limit start duration : Nat) :
    min (start + duration) limit ≤ clampAdd limit start duration := by
  unfold clampAdd tryAdd
  cases added : checkedAdd limit start duration with
  | some stop =>
    have sum := (checkedAdd_some added).1
    dsimp only
    omega
  | none => exact search_reaches (Nat.zero_le _) rfl

end Dope.Core.Clock
