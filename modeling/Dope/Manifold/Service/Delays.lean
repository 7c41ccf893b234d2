import Mathlib.Algebra.GroupWithZero.Nat
import Dope.Manifold.Service.Snapshots

/-! # Delays of a service

The delay of a retry is between half of its scale and the whole, whatever the random
numbers are, and nothing on the way overflows.
-/

namespace Dope.Manifold.Service

open Dope.Core Dope.Round Dope.Run

variable {I A O X E : Type} {n m N : Nat} {setup : Setup O n}

/-- What the scale of a retry is, before half of it is drawn at random. -/
def Retry.scaled (plan : Plan) : Retry → Nat
  | .scale factor => min (Duration.saturatingMul plan.base.nanos factor) plan.maximum.nanos
  | .maximum => plan.maximum.nanos

/-- The delay that `Backoff.deadline` adds to the clock. -/
def Backoff.delay (backoff : Backoff) (retry : Retry) : Nat :=
  let half := retry.scaled backoff.plan / 2
  let random := backoff.nextRand.1
  Duration.saturatingAdd half (if half = 0 then 1
    else if 2 ^ 64 - 1 < half then random.toNat
    else random.toNat % half)

theorem Backoff.deadline_eq (limit : Nat) (backoff : Backoff) (now : Nat) (retry : Retry) :
    backoff.deadline limit now retry =
      (Clock.clampAdd limit now (backoff.delay retry), backoff.nextRand.2) := by
  cases retry <;> rfl

/-! ## Checked words -/

/-- What an operation on machine words fails with. -/
inductive Trap where
  | shift
  | count
  | remainder
  | truncation
  | sum
deriving DecidableEq, Repr

/-- `Failures::advance`, with every operation checked. -/
def Failures.tryAdvance (failures : Nat) : Except Trap (Retry × Nat) :=
  if 32 ≤ failures then .ok (.maximum, failures)
  else if 2 ^ 32 ≤ 2 ^ failures then .error .shift
  else if 2 ^ 8 ≤ failures + 1 then .error .count
  else .ok (.scale (2 ^ failures), failures + 1)

/-- The jitter of a delay, with every operation checked. -/
def Backoff.tryJitter (backoff : Backoff) (half : Nat) : Except Trap Nat :=
  if half = 0 then .ok 1
  else if 2 ^ 64 - 1 < half then .ok backoff.nextRand.1.toNat
  else
    let span := half % 2 ^ 64
    if span ≠ half then .error .truncation
    else if span = 0 then .error .remainder
    else .ok (backoff.nextRand.1.toNat % span)

/-- The delay, with every operation checked; the product alone is saturated by design. -/
def Backoff.tryDelay (backoff : Backoff) (retry : Retry) : Except Trap Nat := do
  let half := retry.scaled backoff.plan / 2
  let jitter ← backoff.tryJitter half
  if Duration.MAX < half + jitter then .error .sum
  else .ok (half + jitter)

theorem Failures.tryAdvance_eq (failures : Nat) : tryAdvance failures = .ok (advance failures) := by
  unfold tryAdvance advance
  by_cases spent : 32 ≤ failures
  · rw [if_pos spent, if_pos spent]
  · have less : 2 ^ failures < 2 ^ 32 := Nat.pow_lt_pow_right (by omega) (by omega)
    rw [if_neg spent, if_neg spent, if_neg (by omega), if_neg (by omega)]

/-! ## Bounds -/

theorem Retry.scaled_le (plan : Plan) (retry : Retry) : retry.scaled plan ≤ plan.maximum.nanos := by
  cases retry with
  | scale factor => exact Nat.min_le_right ..
  | maximum => exact Nat.le_refl _

theorem Retry.scaled_scale (plan : Plan) (factor : Nat) :
    Retry.scaled plan (.scale factor) = min (plan.base.nanos * factor) plan.maximum.nanos := by
  have bounded := plan.maximum.bounded
  simp only [Retry.scaled, Duration.saturatingMul]
  omega

theorem Retry.scaled_pos (plan : Plan) (failures : Nat) :
    0 < (Failures.advance failures).1.scaled plan := by
  have positive := plan.positive
  have ordered := plan.ordered
  unfold Failures.advance
  split
  · show 0 < plan.maximum.nanos
    omega
  · rw [Retry.scaled_scale]
    have grown : 0 < plan.base.nanos * 2 ^ failures := Nat.mul_pos positive (Nat.two_pow_pos _)
    omega

/-- The jitter stays below half of the scale, unless half a nanosecond rounds to zero. -/
theorem Backoff.tryJitter_spec (backoff : Backoff) (half : Nat) :
    ∃ jitter, backoff.tryJitter half = .ok jitter ∧
      (half = 0 → jitter = 1) ∧ (half ≠ 0 → jitter < half) ∧
      jitter = if half = 0 then 1
        else if 2 ^ 64 - 1 < half then backoff.nextRand.1.toNat
        else backoff.nextRand.1.toNat % half := by
  unfold Backoff.tryJitter
  by_cases zero : half = 0
  · simp [zero]
  · have random := backoff.nextRand.1.isLt
    simp only [zero, if_false]
    by_cases wide : 2 ^ 64 - 1 < half
    · simp only [wide, if_true]
      exact ⟨_, rfl, nofun, fun _ => by omega, rfl⟩
    · have same : half % 2 ^ 64 = half := Nat.mod_eq_of_lt (by omega)
      simp only [wide, if_false, same, ne_eq, not_true_eq_false, zero]
      exact ⟨_, rfl, nofun, fun _ => Nat.mod_lt _ (by omega), rfl⟩

/-- The delay is between half of the scale and the whole, and is computed without a trap. -/
theorem Backoff.delay_spec (backoff : Backoff) (retry : Retry)
    (positive : 0 < retry.scaled backoff.plan) :
    max 1 (retry.scaled backoff.plan / 2) ≤ backoff.delay retry ∧
      backoff.delay retry ≤ retry.scaled backoff.plan ∧
      backoff.tryDelay retry = .ok (backoff.delay retry) := by
  have le := Retry.scaled_le backoff.plan retry
  have bounded := backoff.plan.maximum.bounded
  rcases backoff.tryJitter_spec (retry.scaled backoff.plan / 2) with
    ⟨jitter, run, least, less, same⟩
  have delay : backoff.delay retry = retry.scaled backoff.plan / 2 + jitter := by
    simp only [Backoff.delay, ← same, Duration.saturatingAdd]
    omega
  refine ⟨?_, ?_, ?_⟩
  · rw [delay]
    omega
  · rw [delay]
    omega
  · simp only [Backoff.tryDelay, run, ok_bind]
    rw [if_neg (by omega), delay]

/-! ## Consecutive failures -/

/-- How many failures are counted after `k` in a row. -/
inductive Consecutive (plan : Plan) : Nat → Nat → Prop where
  | recovered : Consecutive plan 0 0
  | failed {k failures : Nat} (limit : Nat) (rng : BitVec 64) (now : Nat) :
      Consecutive plan k failures →
      Consecutive plan (k + 1) (Backoff.retryAt limit ⟨plan, rng⟩ failures now).2.1

/-- The scale of the delay after the `n`-th failure in a row. -/
def Plan.scale (plan : Plan) (n : Nat) : Nat :=
  if n ≤ 32 then min (plan.base.nanos * 2 ^ (n - 1)) plan.maximum.nanos else plan.maximum.nanos

theorem Plan.scale_le (plan : Plan) (n : Nat) : plan.scale n ≤ plan.maximum.nanos := by
  unfold Plan.scale
  split
  · exact Nat.min_le_right ..
  · exact Nat.le_refl _

variable {k : Nat}

theorem Plan.scale_mono (plan : Plan) (le : k ≤ n) : plan.scale k ≤ plan.scale n := by
  by_cases late : 32 < n
  · rw [show plan.scale n = plan.maximum.nanos from if_neg (by omega)]
    exact plan.scale_le k
  · have grown : plan.base.nanos * 2 ^ (k - 1) ≤ plan.base.nanos * 2 ^ (n - 1) :=
      Nat.mul_le_mul_left _ (Nat.pow_le_pow_right (by omega) (by omega))
    unfold Plan.scale
    rw [if_pos (by omega), if_pos (by omega)]
    omega

theorem Consecutive.count {plan : Plan} {failures : Nat} (h : Consecutive plan k failures) :
    failures = min k 32 := by
  induction h with
  | recovered => rfl
  | @failed k failures limit rng now _ ih =>
    show (Failures.advance failures).2 = _
    unfold Failures.advance
    split
    · dsimp only
      omega
    · dsimp only
      omega

theorem Consecutive.scaled {plan : Plan} {failures : Nat} (h : Consecutive plan k failures) :
    (Failures.advance failures).1.scaled plan = plan.scale (k + 1) := by
  rw [h.count, Plan.scale]
  unfold Failures.advance
  by_cases spent : 32 ≤ k
  · rw [if_pos (by omega), if_neg (by omega)]
    rfl
  · rw [if_neg (by omega), if_pos (by omega), Retry.scaled_scale,
      Nat.min_eq_left (show k ≤ 32 by omega), Nat.add_sub_cancel]

/-! ## Main result -/

variable {record' : Record I A} {key : Key n}

theorem Tends.before {recovers : Bool} {members members' : Members I A n}
    (tends : Tends recovers members members') (found : members'.records.get key = some record') :
    ∃ record, members.records.get key = some record ∧
      Steady recovers record.health record'.health := by
  rcases Table.get_some.mp found with ⟨named, resides⟩
  rcases tends.slot key.slot with ⟨generation, vacant, stays⟩ | ⟨-, -, -, gone, -⟩
  · cases before : (members.records.slots key.slot).resident with
    | none =>
      rw [vacant before] at resides
      cases resides
    | some record =>
      rcases stays record before with ⟨after, there, -, -, steady⟩
      rw [resides] at there
      cases there
      exact ⟨record, Table.get_some.mpr ⟨generation ▸ named, before⟩, steady⟩
  · rw [gone] at resides
    cases resides

/-- Members that are tended without a recovery count their failures up. -/
theorem Tends.counts {members members' : Members I A n} {record : Record I A}
    (tends : Tends false members members') (found : members.records.get key = some record)
    (found' : members'.records.get key = some record') :
    record.health.failures ≤ record'.health.failures := by
  rcases tends.before found' with ⟨before, here, steady⟩
  rw [found] at here
  cases here
  rcases steady.failures with le | ⟨never, -⟩
  · exact le
  · cases never

/-- A count of failures that falls in a step is forgotten by a connection, and its member is
healthy again. -/
theorem World.forgets [DecidableEq I] {world world' : World I A O X E n m} (inv : world.Inv setup)
    (sized : Sized world.pool.membership) (input : Input I A O X E n N) {output : Output I E}
    (run : world.step setup input = .ok (output, world')) {record : Record I A}
    (found : world.pool.membership.records.get key = some record)
    (found' : world'.pool.membership.records.get key = some record')
    (fewer : record'.health.failures < record.health.failures) :
    (∃ id source, input = .attach id source) ∧ record'.health.failures = 0 ∧
      record'.health.ready = .healthy ∧ record.health.generation < record'.health.generation := by
  have counts : ¬Tends false world.pool.membership world'.pool.membership := by
    intro tends
    have le := tends.counts found found'
    omega
  have tends := World.step_tends inv input run
  cases input with
  | attach id source =>
    have tends : Tends true world.pool.membership world'.pool.membership := tends
    rcases tends.before found' with ⟨before, here, steady⟩
    rw [found] at here
    cases here
    rcases steady.failures with le | ⟨-, zero, healthy, less⟩
    · omega
    · exact ⟨⟨id, source, rfl⟩, zero, healthy, less⟩
  | trySync snapshot capacity =>
    rcases tends with ⟨result, between, applies, tends⟩
    rcases tryApply_reconciles sized inv.pool.sound snapshot with
      ⟨result', between', applies', -, reconciled⟩
    rw [applies] at applies'
    cases applies'
    -- A snapshot forgets no failure of a member that it keeps.
    rcases tends.before found' with ⟨before, here, -⟩
    have le := tends.counts here found'
    have same : before.health.failures = record.health.failures := by
      cases result with
      | error error =>
        have same : between = world.pool.membership := by
          cases error with
          | stale | duplicate | capacity => exact reconciled.1
        rw [same, found] at here
        cases here
        rfl
      | ok change => exact (reconciled.2.2.1.named key record before found here).2
    omega
  | poll | disconnect | fail | kill | rejected | setDemand | isRetiredAt | nextRetirement =>
    exact absurd tends counts

/-- The delay after the `n`-th failure in a row is between half of its scale and the whole,
the scale is at most the maximum and does not shrink, and no operation on the way traps;
and in a reachable pool a count of failures falls only if its member is healthy again. -/
theorem Pool.reachable_delays [DecidableEq I] (A X E : Type) (m N : Nat) (setup : Setup O n)
    (lawful : LawfulFirst setup.first) (plan : Plan) :
    (∀ k failures (rng : BitVec 64), Consecutive plan k failures →
      ∃ retry count delay, Failures.tryAdvance failures = .ok (retry, count) ∧
        Backoff.tryDelay ⟨plan, rng⟩ retry = .ok delay ∧
        (∀ limit now, Backoff.retryAt limit ⟨plan, rng⟩ failures now =
          (Clock.clampAdd limit now delay, count, (Backoff.nextRand ⟨plan, rng⟩).2)) ∧
        max 1 (plan.scale (k + 1) / 2) ≤ delay ∧ delay ≤ plan.scale (k + 1)) ∧
    (∀ k, plan.scale k ≤ plan.maximum.nanos) ∧
    (∀ k l, k ≤ l → plan.scale k ≤ plan.scale l) ∧
    ∀ (world world' : World I A O X E n m) (input : Input I A O X E n N) (output : Output I E)
      key record record', (machine A X E m N setup).Reachable world →
      world.step setup input = .ok (output, world') →
      world.pool.membership.records.get key = some record →
      world'.pool.membership.records.get key = some record' →
      record'.health.failures < record.health.failures →
      (∃ id source, input = .attach id source) ∧ record'.health.failures = 0 ∧
        record'.health.ready = .healthy ∧
        record.health.generation < record'.health.generation := by
  refine ⟨?_, plan.scale_le, fun k l le => plan.scale_mono le, ?_⟩
  · intro k failures rng row
    have positive := Retry.scaled_pos plan failures
    rcases Backoff.delay_spec ⟨plan, rng⟩ (Failures.advance failures).1 positive with
      ⟨least, most, checked⟩
    have scaled : (Failures.advance failures).1.scaled plan = plan.scale (k + 1) := row.scaled
    refine ⟨(Failures.advance failures).1, (Failures.advance failures).2,
      Backoff.delay ⟨plan, rng⟩ (Failures.advance failures).1, Failures.tryAdvance_eq failures,
      checked, ?_, ?_, ?_⟩
    · intro limit now
      simp only [Backoff.retryAt, Backoff.deadline_eq]
    · rw [← scaled]
      exact least
    · rw [← scaled]
      exact most
  · intro world world' input output key record record' reached run found found' fewer
    rcases (World.sized_invariant A X E m N lawful).holds reached with ⟨inv, sized⟩
    exact World.forgets inv sized input run found found' fewer

/-- The third failure in a row of a plan from 4 to 100 waits for 8 to 16 nanoseconds, later
ones for no less and for 100 at most; and the one failure of a member that was probed is
forgotten when its dial connects. -/
theorem Pool.reachable_delays_example :
    let plan : Plan :=
      ⟨⟨4, by decide⟩, ⟨100, by decide⟩, by decide, by decide⟩
    (∃ delay, (∃ retry, Backoff.tryDelay ⟨plan, 7⟩ retry = .ok delay) ∧ 8 ≤ delay ∧ delay ≤ 16) ∧
    plan.scale 9 ≤ 100 ∧ plan.scale 3 ≤ plan.scale 9 ∧
    ∃ (world world' : World Nat Nat Unit Unit Unit 1 2) (record record' : Record Nat Nat),
      (machine Nat Unit Unit 2 1 Setup.single).Reachable world ∧
      world.pool.membership.records.get ⟨0, 0⟩ = some record ∧ record.health.failures = 1 ∧
      world'.pool.membership.records.get ⟨0, 0⟩ = some record' ∧
      record'.health.failures = 0 ∧ record'.health.ready = .healthy := by
  intro plan
  have delays := Pool.reachable_delays Nat Unit Unit 2 1 Setup.single least_lawful plan (I := Nat)
  refine ⟨?_, delays.2.1 9, delays.2.2.1 3 9 (by decide), ?_⟩
  · have row : Consecutive plan 2 2 :=
      .failed 1000 0 0 (.failed 1000 0 0 .recovered)
    rcases delays.1 2 2 7 row with ⟨retry, count, delay, -, checked, -, least, most⟩
    have scale : plan.scale 3 = 16 := by decide
    rw [scale] at least most
    exact ⟨delay, ⟨retry, checked⟩, by omega, most⟩
  · rcases World.probing_reachable with ⟨-, world, -, reached, -, -, -, found, -, world', run, found'⟩
    rcases delays.2.2.2 world world' _ _ _ _ _ reached run found found' Nat.one_pos with
      ⟨-, none, healthy, -⟩
    exact ⟨world, world', _, _, reached, found, rfl, found', none, healthy⟩

end Dope.Manifold.Service
