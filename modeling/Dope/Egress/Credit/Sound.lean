import Dope.Base.Run
import Dope.Egress.Credit.Pool
import Dope.Egress.Wait.Select

/-! # Records, forest and credit in step

`Sound pool waiters` ties the three views of a waiting lane together: its
record, its entry in the wait forest, and the demand its account would compute
now. Every operation of the queue is described by the update it makes to the
waiting lanes.
-/

namespace Dope.Egress.Credit

open Wait Run Function

variable {credit : FairCredit} {K : Type} {n : Nat} {pool pool' : Pool credit K n}
  {waiters : Waiters n} {lane : Fin n}

/-- The demand of a request depends on the account of its lane only. -/
theorem demand_queued_congr (same : pool'.lanes lane = pool.lanes lane) (queued : Queued) :
    Demand.queued pool' lane queued = Demand.queued pool lane queued := by
  simp only [Demand.queued, Account.demand, same]

/-- The waiting lanes of a pool, with their current demands. -/
structure Sound (pool : Pool credit K n) (waiters : Waiters n) : Prop where
  holds : ∃ trees, Holds pool.tree waiters trees
  waits : ∀ lane waiting, pool.records lane = .waiting waiting →
    ∃ ticket, waiters lane = some ⟨Demand.queued pool lane waiting.amount, ticket⟩
  others : ∀ lane, (∀ waiting, pool.records lane ≠ .waiting waiting) → waiters lane = none
  issued : ∀ lane waiter, waiters lane = some waiter → waiter.ticket < pool.ticket
  distinct : ∀ a b wa wb, waiters a = some wa → waiters b = some wb →
    wa.ticket = wb.ticket → a = b
  counter : pool.ticket < 2 ^ 32
  bypasses : ∀ lane waiting, pool.records lane = .waiting waiting → waiting.bypasses ≤ n - 1

section

variable (h : Sound pool waiters)

include h

theorem Sound.record_of_waiter {waiter : Waiter} (hw : waiters lane = some waiter) :
    ∃ waiting, pool.records lane = .waiting waiting ∧
      waiter.demand = Demand.queued pool lane waiting.amount := by
  by_cases hr : ∃ waiting, pool.records lane = .waiting waiting
  · obtain ⟨waiting, hr⟩ := hr
    obtain ⟨ticket, ht⟩ := h.waits lane waiting hr
    rw [hw] at ht
    exact ⟨waiting, hr, congrArg Waiter.demand (Option.some.inj ht)⟩
  · rw [h.others lane fun waiting e => hr ⟨waiting, e⟩] at hw
    simp at hw

theorem Sound.isEmpty_iff : pool.tree.roots.isEmpty ↔ ∀ lane, waiters lane = none := by
  obtain ⟨trees, holds⟩ := h.holds
  have root : ∀ e, pool.tree.roots.get e = none ↔ trees e = .nil := by
    intro e
    have rep := (holds.rooted e).rep
    constructor
    · intro hr
      rw [hr] at rep
      cases ht : trees e with
      | nil => rfl
      | node a l r =>
        rw [ht] at rep
        simp [Wait.Rep] at rep
    · intro ht
      rw [ht] at rep
      exact rep
  have all : pool.tree.roots.isEmpty ↔ ∀ e, pool.tree.roots.get e = none := by
    unfold Roots.isEmpty
    constructor
    · intro he e
      simp only [Bool.and_eq_true, Option.isNone_iff_eq_none] at he
      cases e
      · exact he.1.1
      · exact he.1.2
      · exact he.2
    · intro he
      simp only [Bool.and_eq_true, Option.isNone_iff_eq_none]
      exact ⟨⟨he .zero, he .one⟩, he .two⟩
  rw [all]
  constructor
  · intro he lane
    cases hw : waiters lane with
    | none => rfl
    | some w =>
      have mem := (holds.mem w.entries lane).mpr ⟨w, hw, rfl⟩
      rw [(root w.entries).mp (he w.entries)] at mem
      simp at mem
  · intro hw e
    rw [root]
    cases ht : trees e with
    | nil => rfl
    | node a l r =>
      have mem : a ∈ Avl.toList (trees e) := by simp [ht]
      obtain ⟨w, ha, -⟩ := (holds.mem e a).mp mem
      rw [hw a] at ha
      simp at ha

/-- A lane that does not wait may change its credit and its record freely. -/
theorem Sound.settle (idle : waiters lane = none) (tree : pool'.tree = pool.tree)
    (ticket : pool'.ticket = pool.ticket) (lanes : ∀ i, i ≠ lane → pool'.lanes i = pool.lanes i)
    (records : ∀ i, i ≠ lane → pool'.records i = pool.records i)
    (record : ∀ waiting, pool'.records lane ≠ .waiting waiting) : Sound pool' waiters := by
  constructor
  · rw [tree]
    exact h.holds
  · intro i waiting hi
    have hne : i ≠ lane := fun e => record waiting (e ▸ hi)
    rw [records i hne] at hi
    rw [demand_queued_congr (lanes i hne)]
    exact h.waits i waiting hi
  · intro i hi
    by_cases hne : i = lane
    · rw [hne, idle]
    · exact h.others i fun waiting e => hi waiting ((records i hne).trans e)
  · rw [ticket]
    exact h.issued
  · exact h.distinct
  · rw [ticket]
    exact h.counter
  · intro i waiting hi
    have hne : i ≠ lane := fun e => record waiting (e ▸ hi)
    rw [records i hne] at hi
    exact h.bypasses i waiting hi

/-- A waiting lane may change its account, its request and its demand together,
keeping its ticket and its bypass count. -/
theorem Sound.redemand {waiter : Waiter} {waiting : Waiting K}
    {trees : Entries → BinaryTree (Fin n)} (hw : waiters lane = some waiter)
    (ticket : pool'.ticket = pool.ticket) (lanes : ∀ i, i ≠ lane → pool'.lanes i = pool.lanes i)
    (records : ∀ i, i ≠ lane → pool'.records i = pool.records i)
    (record : pool'.records lane = .waiting waiting) (low : waiting.bypasses ≤ n - 1)
    (holds : Holds pool'.tree (update waiters lane
      (some { waiter with demand := Demand.queued pool' lane waiting.amount })) trees) :
    Sound pool' (update waiters lane
      (some { waiter with demand := Demand.queued pool' lane waiting.amount })) := by
  have ticketOf : ∀ i w, update waiters lane
      (some { waiter with demand := Demand.queued pool' lane waiting.amount }) i = some w →
        ∃ w', waiters i = some w' ∧ w'.ticket = w.ticket := by
    intro i w hi
    by_cases hne : i = lane
    · subst hne
      rw [update_self] at hi
      obtain rfl := Option.some.inj hi
      exact ⟨waiter, hw, rfl⟩
    · rw [update_of_ne hne] at hi
      exact ⟨w, hi, rfl⟩
  constructor
  · exact ⟨trees, holds⟩
  · intro i waiting' hi
    by_cases hne : i = lane
    · subst hne
      rw [record] at hi
      obtain rfl := Record.waiting.inj hi
      exact ⟨waiter.ticket, update_self _ _ _⟩
    · rw [records i hne] at hi
      rw [update_of_ne hne, demand_queued_congr (lanes i hne)]
      exact h.waits i waiting' hi
  · intro i hi
    have hne : i ≠ lane := fun e => hi waiting (e ▸ record)
    rw [update_of_ne hne]
    exact h.others i fun waiting' e => hi waiting' ((records i hne).trans e)
  · intro i w hi
    obtain ⟨w', hw', same⟩ := ticketOf i w hi
    rw [ticket, ← same]
    exact h.issued i w' hw'
  · intro a b wa wb ha hb same
    obtain ⟨wa', ha', sa⟩ := ticketOf a wa ha
    obtain ⟨wb', hb', sb⟩ := ticketOf b wb hb
    exact h.distinct a b wa' wb' ha' hb' (by rw [sa, sb, same])
  · rw [ticket]
    exact h.counter
  · intro i waiting' hi
    by_cases hne : i = lane
    · subst hne
      rw [record] at hi
      obtain rfl := Record.waiting.inj hi
      exact low
    · rw [records i hne] at hi
      exact h.bypasses i waiting' hi

/-- A lane leaves the forest and its record stops waiting; the records of the
other lanes keep their requests. -/
theorem Sound.leave {trees : Entries → BinaryTree (Fin n)} (ticket : pool'.ticket = pool.ticket)
    (lanes : ∀ i, i ≠ lane → pool'.lanes i = pool.lanes i)
    (record : ∀ waiting, pool'.records lane ≠ .waiting waiting)
    (others : ∀ i waiting, i ≠ lane → pool'.records i = .waiting waiting → ∃ old, pool.records i =
      .waiting old ∧ old.amount = waiting.amount)
    (stay : ∀ i waiting, i ≠ lane → pool.records i = .waiting waiting → ∃ new, pool'.records i =
      .waiting new)
    (low : ∀ i waiting, pool'.records i = .waiting waiting → waiting.bypasses ≤ n - 1)
    (holds : Holds pool'.tree (update waiters lane none) trees) :
    Sound pool' (update waiters lane none) := by
  have old : ∀ i w, update waiters lane none i = some w → waiters i = some w := by
    intro i w hi
    by_cases hne : i = lane
    · subst hne
      simp at hi
    · rwa [update_of_ne hne] at hi
  constructor
  · exact ⟨trees, holds⟩
  · intro i waiting hi
    have hne : i ≠ lane := fun e => record waiting (e ▸ hi)
    obtain ⟨prior, hp, same⟩ := others i waiting hne hi
    obtain ⟨ticket', ht⟩ := h.waits i prior hp
    rw [update_of_ne hne, demand_queued_congr (lanes i hne), ← same]
    exact ⟨ticket', ht⟩
  · intro i hi
    by_cases hne : i = lane
    · rw [hne, update_self]
    · rw [update_of_ne hne]
      apply h.others i
      intro waiting e
      obtain ⟨new, hnew⟩ := stay i waiting hne e
      exact hi new hnew
  · intro i w hi
    rw [ticket]
    exact h.issued i w (old i w hi)
  · intro a b wa wb ha hb
    exact h.distinct a b wa wb (old a wa ha) (old b wb hb)
  · rw [ticket]
    exact h.counter
  · exact low

end

end Dope.Egress.Credit
