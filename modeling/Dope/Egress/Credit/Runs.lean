import Dope.Egress.Credit.Steps

/-! # Runs of the credit account

The operations of all lanes arrive in any order. The account then never takes
credit that is not there, keeps the demands of the waiting lanes current,
serves them in a bounded order, and never sleeps on a lane it could serve.
-/

namespace Dope.Egress.Credit

open Wait Run

variable {credit : FairCredit} {K : Type} [DecidableEq K] {n : Nat}

def Pool.new (shared : Amount) (lanes : Fin n → credit.Lane) : Pool credit K n :=
  { shared, lanes, records := fun _ => .idle, tree := Forest.new, ticket := 0, pending := false }

inductive Op (K : Type) (n : Nat) where
  | tryAcquire (lane : Fin n) (amount : Amount)
  | poll (lane : Fin n) (key : K) (queued : Queued)
  | cancel (lane : Fin n)
  | release (lane : Fin n) (grant : Amount)
  | tryBatch (lane : Fin n) (plan : Amount) (loads : List (Nat × Bool)) (built : Bool)
  | permit (active : Bool)

/-- One operation, with the lane that maintenance selected in it. -/
def Pool.step (pool : Pool credit K n) : Op K n → Except Fault (Option (Fin n) × Pool credit K n)
  | .tryAcquire lane amount => do
      let (_, pool) ← Ready.tryAcquire pool lane amount
      return (none, pool)
  | .poll lane key queued => do
      let (_, pool) ← Ready.poll pool lane key queued
      return (none, pool)
  | .cancel lane => do
      let pool ← Ready.cancel pool lane
      return (none, pool)
  | .release lane grant => do
      let pool ← Ready.release pool lane grant
      return (none, pool)
  | .tryBatch lane plan loads built => do
      let (_, pool) ← Draft.tryBatch pool lane plan loads built
      return (none, pool)
  | .permit active => pool.permit active

/-- The account of one pool, starting idle with any split of the credit. -/
def machine (credit : FairCredit) (K : Type) [DecidableEq K] (n : Nat) :
    Machine (Pool credit K n) (Op K n) (Option (Fin n)) Fault where
  start pool := ∃ shared lanes, pool = Pool.new shared lanes
  allowed _ _ := True
  step := Pool.step

/-- Sound, and asleep only if nothing can be selected. -/
def Good (pool : Pool credit K n) : Prop :=
  (∃ waiters, Sound pool waiters) ∧ (pool.pending = false → Quiet pool)

omit [DecidableEq K] in
theorem sound_new (shared : Amount) (lanes : Fin n → credit.Lane) :
    Sound (Pool.new shared lanes : Pool credit K n) (fun _ => none) := by
  constructor
  · exact ⟨_, holds_new⟩
  · intro lane waiting hr
    simp [Pool.new] at hr
  · intro lane _
    rfl
  · intro lane w hw
    simp at hw
  · intro a b wa wb ha
    simp at ha
  · simp [Pool.new]
  · intro lane waiting hr
    simp [Pool.new] at hr

variable {pool : Pool credit K n}

theorem step_effect (hn : n + 1 < 2 ^ 32) {waiters : Waiters n} (h : Sound pool waiters)
    (op : Op K n) : ∃ label pool', pool.step op = .ok (label, pool') ∧ Effect pool pool' label := by
  cases op with
  | tryAcquire lane amount =>
    obtain ⟨result, pool', run, effect⟩ := tryAcquire_effect h lane amount
    exact ⟨none, pool', by simp only [Pool.step, run, ok_bind]; rfl, effect⟩
  | poll lane key queued =>
    obtain ⟨answer, pool', run, effect⟩ := poll_effect hn h lane key queued
    exact ⟨none, pool', by simp only [Pool.step, run, ok_bind]; rfl, effect⟩
  | cancel lane =>
    obtain ⟨pool', run, effect⟩ := cancel_effect hn h lane
    exact ⟨none, pool', by simp only [Pool.step, run, ok_bind]; rfl, effect⟩
  | release lane grant =>
    obtain ⟨pool', run, effect⟩ := release_effect hn h lane grant
    exact ⟨none, pool', by simp only [Pool.step, run, ok_bind]; rfl, effect⟩
  | tryBatch lane plan loads built =>
    obtain ⟨done, pool', run, effect⟩ := tryBatch_effect hn h lane plan loads built
    exact ⟨none, pool', by simp only [Pool.step, run, ok_bind]; rfl, effect⟩
  | permit active => exact permit_effect hn h active

theorem machine_invariant (hn : n + 1 < 2 ^ 32) : (machine credit K n).Invariant Good := by
  constructor
  · intro pool hs
    obtain ⟨shared, lanes, rfl⟩ := hs
    refine ⟨⟨_, sound_new shared lanes⟩, fun off => quiet_of_roused ?_ off⟩
    simp [Pool.new, Queue.hasWaiting, Forest.new, Roots.new, Roots.isEmpty]
  · intro pool op hg _
    obtain ⟨⟨waiters, sound⟩, quiet⟩ := hg
    obtain ⟨label, pool', run, effect⟩ := step_effect hn sound op
    exact ⟨label, pool', run, effect.sound, effect.quiet quiet⟩

variable {pool' : Pool credit K n}

theorem effect_of_step (hn : n + 1 < 2 ^ 32) {waiters : Waiters n} (h : Sound pool waiters)
    {op : Op K n} {label : Option (Fin n)} (run : pool.step op = .ok (label, pool')) :
    Effect pool pool' label := by
  obtain ⟨label₁, pool₁, run₁, effect⟩ := step_effect hn h op
  rw [run] at run₁
  obtain ⟨rfl, rfl⟩ := Prod.mk.inj (Except.ok.inj run₁)
  exact effect

/-- A whole turn of maintenance is a run of permits. -/
theorem maintain_reachable (hn : n + 1 < 2 ^ 32) (h : (machine credit K n).Reachable pool)
    (activations : List Bool) :
    ∃ pool', pool.maintain activations = .ok pool' ∧ (machine credit K n).Reachable pool' := by
  induction activations generalizing pool with
  | nil => exact ⟨pool, rfl, h⟩
  | cons active rest ih =>
    obtain ⟨label, mid, run⟩ :=
      (machine_invariant hn).progress h (i := Op.permit active) trivial
    have permit : pool.permit active = .ok (label, mid) := run
    obtain ⟨pool', turn, reach⟩ := ih (.next h trivial run)
    refine ⟨pool', ?_, reach⟩
    rw [Pool.maintain, permit]
    exact turn

/-! ## An account with two lanes -/

/-- One shared entry and ten shared bytes, nothing protected. -/
def examplePool : Pool FairCredit.direct Nat 2 :=
  Pool.new ⟨1, 10⟩ fun _ => ⟨Amount.zero, Amount.zero⟩

/-- Lane 0 is served, lane 1 waits for more bytes than are left, and lane 0
returns its grant. -/
theorem example_reachable :
    ∃ pool waiting pool', (machine FairCredit.direct Nat 2).Reachable pool ∧
      pool.records 1 = .waiting waiting ∧
      Queue.select pool pool.shared = .ok (some 1, pool') := by
  have start : (machine FairCredit.direct Nat 2).Reachable examplePool := .start ⟨_, _, rfl⟩
  have served := start.next (i := .poll 0 7 ⟨.one, 5⟩) trivial rfl
  have waits := served.next (i := .poll 1 8 ⟨.one, 8⟩) trivial rfl
  have back := waits.next (i := .release 0 ⟨1, 5⟩) trivial rfl
  exact ⟨_, _, _, back, rfl, rfl⟩

/-! ## Credit is never overdrawn -/

/-- In every reachable state the forest stores the demand each waiting lane
has now and holds exactly the waiting lanes, and no operation faults: the
unchecked acquisitions are always covered. -/
theorem reachable_covered (lanes : LaneCount) {pool : Pool credit K lanes.count}
    (h : (machine credit K lanes.count).Reachable pool) :
    (∀ lane waiting, pool.records lane = .waiting waiting →
      (pool.tree.nodes lane).resident =
          (Demand.queued pool lane waiting.amount).amount.resident ∧
        (pool.tree.nodes lane).entries =
          Entries.ofDemand (Demand.queued pool lane waiting.amount)) ∧
    (∃ trees : Entries → BinaryTree (Fin lanes.count),
      (∀ e, Links pool.tree.nodes (pool.tree.roots.get e) (trees e)) ∧
      ∀ lane, (∃ waiting, pool.records lane = .waiting waiting) ↔
        ∃ e, lane ∈ Avl.toList (trees e)) ∧
    ∀ op, ∃ label pool', pool.step op = .ok (label, pool') := by
  obtain ⟨⟨waiters, sound⟩, -⟩ := (machine_invariant lanes.bound).holds h
  obtain ⟨trees, holds⟩ := sound.holds
  refine ⟨?_, ⟨trees, fun e => (holds.rooted e).rep.links, ?_⟩, ?_⟩
  · intro lane waiting hr
    obtain ⟨ticket, hw⟩ := sound.waits lane waiting hr
    have data := holds.data lane _ hw
    exact ⟨congrArg (fun d => d.2.1) data, congrArg (fun d => d.2.2) data⟩
  · intro lane
    constructor
    · intro hr
      obtain ⟨waiting, hr⟩ := hr
      obtain ⟨ticket, hw⟩ := sound.waits lane waiting hr
      exact ⟨_, (holds.mem _ lane).mpr ⟨_, hw, rfl⟩⟩
    · intro hm
      obtain ⟨e, hm⟩ := hm
      obtain ⟨w, hw, -⟩ := (holds.mem e lane).mp hm
      obtain ⟨waiting, hr, -⟩ := sound.record_of_waiter hw
      exact ⟨waiting, hr⟩
  · intro op
    exact (machine_invariant lanes.bound).progress h trivial

theorem reachable_covered_example :
    ∃ pool waiting, (machine FairCredit.direct Nat 2).Reachable pool ∧
      pool.records 1 = .waiting waiting ∧
      (pool.tree.nodes 1).entries = Entries.ofDemand (Demand.queued pool 1 waiting.amount) ∧
      ∀ op, ∃ label pool', pool.step op = .ok (label, pool') := by
  obtain ⟨pool, waiting, -, h, hr, -⟩ := example_reachable
  have covered := reachable_covered ⟨2, by decide, by decide⟩ h
  exact ⟨pool, waiting, h, hr, (covered.1 1 waiting hr).2, covered.2.2⟩

/-! ## Order and bounded bypass -/

/-- A stretch of a run before each step of which `lane` is the oldest waiter;
`count` is the number of steps that selected another lane. -/
inductive WhileOldest (lane : Fin n) (pool : Pool credit K n) : Nat → Pool credit K n → Prop where
  | refl : WhileOldest lane pool 0 pool
  | step {count : Nat} {mid pool' : Pool credit K n} {op : Op K n} {label : Option (Fin n)} :
      WhileOldest lane pool count mid → mid.tree.oldest = some lane →
      mid.step op = .ok (label, pool') →
      WhileOldest lane pool
        (if label = none ∨ label = some lane then count else count + 1) pool'

variable {lane : Fin n}

/-- The marks of the oldest lane count the selections that passed it. -/
theorem WhileOldest.count_le (hn : n + 1 < 2 ^ 32) {count : Nat}
    (h : (machine credit K n).Reachable pool) (run : WhileOldest lane pool count pool') :
    (machine credit K n).Reachable pool' ∧ count ≤ n - 1 ∧
      ∀ waiting, pool'.records lane = .waiting waiting → count ≤ waiting.bypasses := by
  induction run with
  | refl => exact ⟨h, Nat.zero_le _, fun _ _ => Nat.zero_le _⟩
  | @step count mid pool' op label _ oldest step ih =>
    obtain ⟨reach, bound, marks⟩ := ih
    obtain ⟨⟨waiters, sound⟩, -⟩ := (machine_invariant hn).holds reach
    obtain ⟨trees, holds⟩ := sound.holds
    have first := holds.oldest_spec
    rw [oldest] at first
    obtain ⟨w, hw, -, -⟩ := first
    obtain ⟨waiting, hr, -⟩ := sound.record_of_waiter hw
    have effect := effect_of_step hn sound step
    refine ⟨.next reach trivial step, ?_, ?_⟩
    · split
      · exact bound
      case isFalse other =>
        obtain ⟨selected, rfl⟩ : ∃ selected, label = some selected :=
          Option.ne_none_iff_exists'.mp fun e => other (.inl e)
        have limit := effect.limit lane selected waiting rfl
          (fun e => other (.inr (by rw [e]))) oldest hr
        have := marks waiting hr
        omega
    · intro waiting' hr'
      have grow := effect.marks lane waiting waiting' hr hr'
      have := marks waiting hr
      split
      · omega
      case isFalse other =>
        obtain ⟨selected, rfl⟩ : ∃ selected, label = some selected :=
          Option.ne_none_iff_exists'.mp fun e => other (.inl e)
        have := grow.2 selected rfl (fun e => other (.inr (by rw [e]))) oldest
        omega

omit [DecidableEq K] in
/-- A request that finds no ticket left changes nothing. -/
theorem vacant_poll_exhausted {key : K} {amount : Queued} {cause : Tickets}
    (run : Vacant.poll pool lane key amount = .ok (.error cause, pool')) : pool' = pool := by
  unfold Vacant.poll at run
  simp only at run
  split at run
  · obtain ⟨mid, -, rest⟩ := bind_ok.mp run
    simp [pure, Except.pure] at rest
  · by_cases empty : pool.tree.roots.isEmpty = true
    · rw [if_pos empty, Ticket.issue, if_pos (by decide)] at run
      obtain ⟨mid, -, rest⟩ := bind_ok.mp run
      simp [pure, Except.pure] at rest
    · rw [if_neg empty] at run
      cases issue : Ticket.issue pool.ticket with
      | error cause' =>
        simp only [issue, pure, Except.pure, Except.ok.injEq, Prod.mk.injEq] at run
        exact run.2.symm
      | ok tickets =>
        simp only [issue] at run
        obtain ⟨mid, -, rest⟩ := bind_ok.mp run
        simp [pure, Except.pure] at rest

omit [DecidableEq K] in
/-- A lane that must queue behind others at the last ticket is refused. -/
theorem vacant_poll_last {key : K} {amount : Queued} (waits : pool.tree.roots.isEmpty = false)
    (demand : (Demand.queued pool lane amount).amount ≠ Amount.zero)
    (last : 2 ^ 32 ≤ pool.ticket + 1) :
    Vacant.poll pool lane key amount = .ok (.error .exhausted, pool) := by
  unfold Vacant.poll
  have queues : ¬((Demand.queued pool lane amount).amount = Amount.zero ∨
      pool.tree.roots.isEmpty ∧ Lane.isCovered pool (Demand.queued pool lane amount)) := by
    simp [waits, demand]
  have issue : Ticket.issue pool.ticket = .error .exhausted := if_neg (by omega)
  simp only [if_neg queues]
  rw [if_neg (by simp [waits]), issue]
  rfl

/-- Waiting lanes hold distinct tickets, the counter falls only while nobody
waits, and a lane that must wait at the last ticket is refused and changes
nothing, as does every refusal; the oldest lane is passed over at
most once for every other lane; and a lane is never selected before an older
one that asks for no more. -/
theorem reachable_ordered (lanes : LaneCount) {pool : Pool credit K lanes.count}
    (h : (machine credit K lanes.count).Reachable pool) :
    ((∀ a b wa wb, pool.records a = .waiting wa → pool.records b = .waiting wb → a ≠ b →
        (pool.tree.nodes a).ticket ≠ (pool.tree.nodes b).ticket) ∧
      (∀ op label pool', pool.step op = .ok (label, pool') → pool'.ticket < pool.ticket →
        ∀ lane waiting, pool.records lane ≠ .waiting waiting) ∧
      (∀ lane key amount cause pool',
        Vacant.poll pool lane key amount = .ok (.error cause, pool') → pool' = pool) ∧
      (∀ lane key amount, pool.tree.roots.isEmpty = false →
        (Demand.queued pool lane amount).amount ≠ Amount.zero → 2 ^ 32 ≤ pool.ticket + 1 →
        Vacant.poll pool lane key amount = .ok (.error .exhausted, pool))) ∧
    (∀ lane count pool', WhileOldest lane pool count pool' → count ≤ lanes.count - 1) ∧
    (∀ op a b wa wb pool', pool.step op = .ok (some b, pool') →
      pool.records a = .waiting wa → pool.records b = .waiting wb →
      (pool.tree.nodes a).ticket < (pool.tree.nodes b).ticket →
      ¬ (Demand.queued pool a wa.amount).amount ≤ (Demand.queued pool b wb.amount).amount) := by
  obtain ⟨⟨waiters, sound⟩, -⟩ := (machine_invariant lanes.bound).holds h
  obtain ⟨trees, holds⟩ := sound.holds
  refine ⟨⟨?_, ?_, ?_, ?_⟩, ?_, ?_⟩
  · intro a b wa wb ha hb hne same
    obtain ⟨ta, hwa⟩ := sound.waits a wa ha
    obtain ⟨tb, hwb⟩ := sound.waits b wb hb
    rw [holds.ticket hwa, holds.ticket hwb] at same
    exact hne (sound.distinct a b _ _ hwa hwb same)
  · intro op label pool' run
    exact (effect_of_step lanes.bound sound run).counter
  · intro lane key amount cause pool' run
    exact vacant_poll_exhausted run
  · intro lane key amount waits demand last
    exact vacant_poll_last waits demand last
  · intro lane count pool' run
    exact (run.count_le lanes.bound h).2.1
  · intro op a b wa wb pool' run ha hb
    exact (effect_of_step lanes.bound sound run).order a b wa wb rfl ha hb

theorem reachable_ordered_example :
    ∃ pool waiting, (machine FairCredit.direct Nat 2).Reachable pool ∧
      pool.records 1 = .waiting waiting ∧
      ∀ lane count pool', WhileOldest lane pool count pool' → count ≤ 1 := by
  obtain ⟨pool, waiting, -, h, hr, -⟩ := example_reachable
  exact ⟨pool, waiting, h, hr, (reachable_ordered ⟨2, by decide, by decide⟩ h).2.1⟩

/-! ## No lost wakeup -/

/-- Whenever a lane could be selected, maintenance is scheduled. -/
theorem reachable_awake (lanes : LaneCount) {pool : Pool credit K lanes.count}
    (h : (machine credit K lanes.count).Reachable pool) (lane : Fin lanes.count)
    (pool' : Pool credit K lanes.count)
    (selects : Queue.select pool pool.shared = .ok (some lane, pool')) : pool.pending = true := by
  obtain ⟨-, quiet⟩ := (machine_invariant lanes.bound).holds h
  cases hp : pool.pending with
  | true => rfl
  | false => exact absurd selects (quiet hp lane pool')

theorem reachable_awake_example :
    ∃ pool pool', (machine FairCredit.direct Nat 2).Reachable pool ∧
      Queue.select pool pool.shared = .ok (some 1, pool') ∧ pool.pending = true := by
  obtain ⟨pool, -, pool', h, -, selects⟩ := example_reachable
  exact ⟨pool, pool', h, selects, reachable_awake ⟨2, by decide, by decide⟩ h 1 pool' selects⟩

end Dope.Egress.Credit
