import Mathlib.Algebra.Group.Nat.Defs
import Mathlib.Order.Bounds.Basic
import Mathlib.Order.Fin.Basic
import Dope.Core.Clock

/-! # The end of a platform's time

`range.rs` over any platform: its instants are any linear order, and all that is
known of the addition is that it is monotone. The search halves the durations in
question, so it is over after as many turns as the duration has bits.
-/

namespace Dope.Core.Clock

universe u

variable {Instant : Type u} [LinearOrder Instant]

/-- Instants a duration can be added to. What a shorter duration reaches is there and
not later. -/
structure Platform (Instant : Type u) [LinearOrder Instant] where
  checkedAdd : Instant → Nat → Option Instant
  zero : ∀ origin, checkedAdd origin 0 = some origin
  monotone : ∀ {origin stop shorter longer}, shorter ≤ longer →
    checkedAdd origin longer = some stop →
      ∃ sooner, checkedAdd origin shorter = some sooner ∧ sooner ≤ stop

variable {limit : Nat}

namespace Platform

/-- A deadline beyond the platform's range. -/
structure Range (Instant : Type u) where
  origin : Instant
  duration : Nat
deriving DecidableEq, Repr

/-- The variables of the search. -/
structure Search (Instant : Type u) where
  lower : Nat
  upper : Nat
  best : Instant
deriving DecidableEq, Repr

variable (platform : Platform Instant)

/-- The body of the loop. -/
def turn (origin : Instant) (search : Search Instant) : Search Instant :=
  match platform.checkedAdd origin (probe search.lower search.upper) with
  | some value => { search with lower := probe search.lower search.upper, best := value }
  | none => { search with upper := probe search.lower search.upper - 1 }

/-- The loop within so many turns, nothing while it is still going. -/
def run (origin : Instant) : Nat → Search Instant → Option Instant
  | 0, _ => none
  | turns + 1, search =>
      if search.lower < search.upper then run origin turns (platform.turn origin search)
      else some search.best

theorem turn_shrinks (origin : Instant) {search : Search Instant}
    (wide : search.lower < search.upper) :
    (platform.turn origin search).upper - (platform.turn origin search).lower <
        search.upper - search.lower ∧
      2 * ((platform.turn origin search).upper - (platform.turn origin search).lower) ≤
        search.upper - search.lower + 1 := by
  unfold turn probe
  split <;> dsimp only <;> split <;> omega

/-- The instant the loop ends with. -/
def search (origin : Instant) (loop : Search Instant) : Instant :=
  if _ : loop.lower < loop.upper then search origin (platform.turn origin loop)
  else loop.best
termination_by loop.upper - loop.lower
decreasing_by exact (platform.turn_shrinks origin ‹_›).1

def furthest (range : Range Instant) : Instant :=
  platform.search range.origin ⟨0, range.duration, range.origin⟩

def tryAdd (start : Instant) (duration : Nat) : Except (Range Instant) Instant :=
  match platform.checkedAdd start duration with
  | some value => .ok value
  | none => .error ⟨start, duration⟩

def clampAdd (start : Instant) (duration : Nat) : Instant :=
  match platform.tryAdd start duration with
  | .ok point => point
  | .error range => platform.furthest range

/-! ## The search ends -/

theorem run_search (origin : Instant) (halvings : Nat) :
    ∀ search : Search Instant, search.upper - search.lower ≤ 2 ^ halvings →
      platform.run origin (halvings + 2) search = some (platform.search origin search) := by
  induction halvings with
  | zero =>
    intro search narrow
    rw [Platform.search, run]
    by_cases wide : search.lower < search.upper
    · have shrinks := platform.turn_shrinks origin wide
      have closed : ¬ (platform.turn origin search).lower <
          (platform.turn origin search).upper := by omega
      rw [if_pos wide, dif_pos wide, run, if_neg closed, Platform.search, dif_neg closed]
    · rw [if_neg wide, dif_neg wide]
  | succ halvings ih =>
    intro search narrow
    rw [Platform.search, run]
    by_cases wide : search.lower < search.upper
    · have shrinks := platform.turn_shrinks origin wide
      rw [if_pos wide, dif_pos wide]
      exact ih _ (by omega)
    · rw [if_neg wide, dif_neg wide]

/-! ## What it ends with -/

/-- What the loop knows: the lower duration reaches the best instant, and no duration
that could be asked for above the upper one reaches anything. -/
structure Search.Sound (platform : Platform Instant) (origin : Instant) (duration : Nat)
    (search : Search Instant) : Prop where
  ordered : search.lower ≤ search.upper
  inside : search.upper ≤ duration
  reached : platform.checkedAdd origin search.lower = some search.best
  beyond : ∀ longer ≤ duration, search.upper < longer → platform.checkedAdd origin longer = none

variable {platform} {origin : Instant} {duration : Nat}

theorem none_above {shorter longer : Nat} (ordered : shorter ≤ longer)
    (missing : platform.checkedAdd origin shorter = none) :
    platform.checkedAdd origin longer = none := by
  cases found : platform.checkedAdd origin longer with
  | none => rfl
  | some stop =>
    obtain ⟨sooner, here, _⟩ := platform.monotone ordered found
    rw [missing] at here
    cases here

theorem Search.Sound.turn {search : Search Instant}
    (sound : search.Sound platform origin duration) (wide : search.lower < search.upper) :
    (platform.turn origin search).Sound platform origin duration := by
  have bounds := probe_bounds wide
  unfold Platform.turn
  cases found : platform.checkedAdd origin (probe search.lower search.upper) with
  | some value =>
    exact
      { ordered := bounds.2
        inside := sound.inside
        reached := found
        beyond := sound.beyond }
  | none =>
    have inside := sound.inside
    exact
      { ordered := by dsimp only; omega
        inside := by dsimp only; omega
        reached := sound.reached
        beyond := by
          intro longer _ above
          dsimp only at above
          exact none_above (by omega) found }

theorem Search.Sound.greatest {search : Search Instant}
    (sound : search.Sound platform origin duration) :
    IsGreatest {stop | ∃ part ≤ duration, platform.checkedAdd origin part = some stop}
      (platform.search origin search) := by
  induction search using Platform.search.induct platform origin with
  | case1 search wide ih =>
    rw [Platform.search, dif_pos wide]
    exact ih (sound.turn wide)
  | case2 search narrow =>
    rw [Platform.search, dif_neg narrow]
    have ordered := sound.ordered
    constructor
    · exact ⟨search.lower, le_trans ordered sound.inside, sound.reached⟩
    · rintro stop ⟨part, within, reaches⟩
      have below : part ≤ search.lower := by
        by_contra above
        have missing := sound.beyond part within (by omega)
        rw [missing] at reaches
        cases reaches
      obtain ⟨sooner, here, earlier⟩ := platform.monotone below sound.reached
      rw [reaches] at here
      cases here
      exact earlier

theorem start_sound (origin : Instant) (duration : Nat) :
    Search.Sound platform origin duration ⟨0, duration, origin⟩ where
  ordered := Nat.zero_le duration
  inside := le_refl duration
  reached := platform.zero origin
  beyond := by
    intro longer within above
    exact absurd within (Nat.not_le.mpr above)

/-- The search is over after as many turns as the duration has bits, and finds the
greatest instant that is not later than the sum. Adding is exact where the sum exists,
and elsewhere ends at the last instant that exists. -/
theorem clampAdd_greatest (platform : Platform Instant) (origin : Instant) (duration : Nat) :
    (∀ halvings, duration ≤ 2 ^ halvings →
      platform.run origin (halvings + 2) ⟨0, duration, origin⟩ =
        some (platform.furthest ⟨origin, duration⟩)) ∧
    IsGreatest {stop | ∃ part ≤ duration, platform.checkedAdd origin part = some stop}
      (platform.furthest ⟨origin, duration⟩) ∧
    (∀ stop, platform.checkedAdd origin duration = some stop →
      platform.clampAdd origin duration = stop) ∧
    (platform.checkedAdd origin duration = none →
      platform.clampAdd origin duration = platform.furthest ⟨origin, duration⟩ ∧
      IsGreatest {stop | ∃ part, platform.checkedAdd origin part = some stop}
        (platform.clampAdd origin duration)) := by
  have started : Search.Sound platform origin duration ⟨0, duration, origin⟩ :=
    start_sound origin duration
  have greatest := started.greatest
  refine ⟨?_, greatest, ?_, ?_⟩
  · intro halvings short
    exact platform.run_search origin halvings _ short
  · intro stop sum
    unfold clampAdd tryAdd
    rw [sum]
  · intro missing
    have clamped : platform.clampAdd origin duration =
        platform.furthest ⟨origin, duration⟩ := by
      unfold clampAdd tryAdd
      rw [missing]
    rw [clamped]
    rcases greatest with ⟨⟨part, _, reaches⟩, above⟩
    refine ⟨rfl, ⟨part, reaches⟩, ?_⟩
    rintro stop ⟨other, lands⟩
    have within : other ≤ duration := by
      by_contra late
      rw [none_above (by omega) missing] at lands
      cases lands
    exact above ⟨other, within, lands⟩

/-! ## Nanoseconds -/

/-- The platform that counts nanoseconds up to a limit. -/
def nanos (limit : Nat) : Platform (Fin (limit + 1)) where
  checkedAdd start duration :=
    if h : start.val + duration < limit + 1 then some ⟨start.val + duration, h⟩ else none
  zero := by
    intro origin
    exact dif_pos origin.isLt
  monotone := by
    intro origin stop shorter longer ordered sum
    split at sum
    · cases sum
      have room : origin.val + shorter < limit + 1 := by omega
      exact ⟨_, dif_pos room, Nat.add_le_add_left ordered origin.val⟩
    · cases sum

theorem checkedAdd_nanos (origin : Fin (limit + 1)) (duration : Nat) :
    ((nanos limit).checkedAdd origin duration).map Fin.val =
      Clock.checkedAdd limit origin.val duration := by
  unfold nanos Clock.checkedAdd
  dsimp only
  by_cases room : origin.val + duration ≤ limit
  · rw [dif_pos (by omega), if_pos room]
    rfl
  · rw [dif_neg (by omega), if_neg room]
    rfl

theorem search_nanos (origin : Fin (limit + 1)) (loop : Search (Fin (limit + 1))) :
    ((nanos limit).search origin loop).val =
      Clock.search limit origin.val loop.lower loop.upper loop.best.val := by
  induction loop using Platform.search.induct (nanos limit) origin with
  | case1 loop wide ih =>
    have same := checkedAdd_nanos origin (probe loop.lower loop.upper)
    rw [Platform.search, dif_pos wide, ih]
    conv_rhs => rw [Clock.search, dif_pos wide]
    unfold Platform.turn
    cases found : (nanos limit).checkedAdd origin (probe loop.lower loop.upper) with
    | some value =>
      rw [found] at same
      simp only [← same, Option.map_some]
    | none =>
      rw [found] at same
      simp only [← same, Option.map_none]
  | case2 loop narrow =>
    rw [Platform.search, dif_neg narrow, Clock.search, dif_neg narrow]

theorem clampAdd_nanos (origin : Fin (limit + 1)) (duration : Nat) :
    ((nanos limit).clampAdd origin duration).val = Clock.clampAdd limit origin.val duration := by
  have same := checkedAdd_nanos origin duration
  unfold Platform.clampAdd Platform.tryAdd Clock.clampAdd Clock.tryAdd
  cases found : (nanos limit).checkedAdd origin duration with
  | some value =>
    rw [found] at same
    simp only [← same, Option.map_some]
  | none =>
    rw [found] at same
    simp only [← same, Option.map_none]
    exact search_nanos origin _

end Platform

/-- On a platform that counts nanoseconds the sum is cut at the limit. -/
theorem clampAdd_min {limit start : Nat} (within : start ≤ limit) (duration : Nat) :
    clampAdd limit start duration = min (start + duration) limit := by
  have below := min_le_clampAdd limit start duration
  have same := Platform.clampAdd_nanos ⟨start, Nat.lt_succ_of_le within⟩ duration
  have inside := ((Platform.nanos limit).clampAdd ⟨start, Nat.lt_succ_of_le within⟩ duration).isLt
  rw [same] at inside
  dsimp only at inside
  by_cases room : start + duration ≤ limit
  · unfold clampAdd tryAdd checkedAdd
    rw [if_pos room]
    exact (Nat.min_eq_left room).symm
  · omega

theorem clampAdd_min_example : clampAdd 9 7 5 = 9 := clampAdd_min (by decide) 5

end Dope.Core.Clock
