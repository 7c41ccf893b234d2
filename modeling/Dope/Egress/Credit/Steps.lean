import Dope.Egress.Credit.Sound

/-! # What each operation of the credit account does

Every operation succeeds from a sound pool. `Effect` collects what the later
results need from one step: the pool stays sound, bypass marks only grow, the
ticket counter falls only when nobody waits, a quiet pool stays quiet, and a
selection obeys the ticket order and the bypass limit.
-/

namespace Dope.Egress.Credit

open Wait Run Function

variable {credit : FairCredit} {K : Type} {n : Nat} {pool pool' : Pool credit K n}
  {waiters : Waiters n}

/-! ## Quiet pools -/

/-- Nothing could be selected from the current shared credit. -/
def Quiet (pool : Pool credit K n) : Prop :=
  ∀ lane pool', Queue.select pool pool.shared ≠ .ok (some lane, pool')

theorem select_of_not_hasWaiting (h : Queue.hasWaiting pool = false) (shared : Amount) :
    Queue.select pool shared = .ok (none, pool) := by
  have empty : pool.tree.roots = ⟨none, none, none⟩ := by
    cases hr : pool.tree.roots with
    | mk zero one two =>
      simp only [Queue.hasWaiting, hr, Roots.isEmpty, Bool.not_eq_false', Bool.and_eq_true,
        Option.isNone_iff_eq_none] at h
      rw [h.1.1, h.1.2, h.2]
  have oldest : pool.tree.oldest = none := by
    simp [Forest.oldest, Forest.oldestView, empty, Oldest.at, Oldest.best]
  simp only [Queue.select, oldest]

/-- A flag that follows the forest schedules every possible selection. -/
theorem quiet_of_roused (roused : pool.pending = Queue.hasWaiting pool)
    (off : pool.pending = false) : Quiet pool := by
  intro lane pool' run
  rw [select_of_not_hasWaiting (roused ▸ off)] at run
  simp at run

/-- Selection looks at the forest, the wait records and the shared credit. -/
theorem Quiet.congr (h : Quiet pool) (tree : pool'.tree = pool.tree)
    (records : pool'.records = pool.records) (shared : pool'.shared = pool.shared) :
    Quiet pool' := by
  intro lane pool₁ run
  have same : ∀ s, (Queue.select pool' s).map Prod.fst = (Queue.select pool s).map Prod.fst := by
    intro s
    simp only [Queue.select, Store.tryBypass, Pool.setRecord, tree, records]
    cases pool.tree.oldest with
    | none => rfl
    | some oldest =>
      cases walk (pool.tree.eligible s) with
      | error fault => rfl
      | ok candidate =>
        cases candidate with
        | none => rfl
        | some selected =>
          simp only [ok_bind]
          split
          · cases pool.records oldest with
            | idle | granted => rfl
            | waiting w =>
              dsimp only
              split
              · rfl
              · simp only [ok_bind]
                cases walk (pool.tree.remove selected) <;> rfl
          · cases walk (pool.tree.remove selected) <;> rfl
  have here := same pool'.shared
  rw [run, shared] at here
  cases hs : Queue.select pool pool.shared with
  | error fault =>
    rw [hs] at here
    simp [Except.map] at here
  | ok result =>
    rw [hs] at here
    simp only [Except.map, Except.ok.injEq] at here
    exact h lane result.2 (by rw [hs, here])

/-! ## Accounts -/

/-- The pool after an acquisition. -/
def Account.spent (pool : Pool credit K n) (lane : Fin n) (amount : Amount) : Pool credit K n :=
  { pool with
    shared := (credit.acquire (pool.lanes lane) pool.shared amount).2
    lanes := update pool.lanes lane
      (credit.acquire (pool.lanes lane) pool.shared amount).1 }

variable {lane : Fin n} {amount : Amount}

theorem Account.acquire_ok (h : Account.demand pool lane amount ≤ pool.shared) :
    Account.acquire pool lane amount = .ok (Account.spent pool lane amount) := by
  rw [Account.acquire, if_pos h]
  rfl

variable {i : Fin n}

theorem Account.spent_lanes (h : i ≠ lane) :
    (Account.spent pool lane amount).lanes i = pool.lanes i :=
  update_of_ne h _ _

theorem Account.release_lanes (h : i ≠ lane) :
    (Account.release pool lane amount).lanes i = pool.lanes i :=
  update_of_ne h _ _

theorem Account.spent_shared (h : Account.demand pool lane amount = Amount.zero) :
    (Account.spent pool lane amount).shared = pool.shared :=
  credit.acquire_shared_of_zero h

theorem Pool.setRecord_of_ne {record : Record K} (h : i ≠ lane) :
    (pool.setRecord lane record).records i = pool.records i :=
  update_of_ne h _ _

@[simp] theorem Pool.setRecord_self {record : Record K} :
    (pool.setRecord lane record).records lane = record :=
  update_self _ _ _

theorem Store.not_waiting_of_not_busy (h : Store.isBusy pool lane = false) (waiting : Waiting K) :
    pool.records lane ≠ .waiting waiting := by
  intro hr
  simp [Store.isBusy, hr] at h

/-! ## Effects -/

/-- What one step may do to the queue. -/
structure Effect (pool pool' : Pool credit K n) (label : Option (Fin n)) : Prop where
  sound : ∃ waiters', Sound pool' waiters'
  marks : ∀ lane waiting waiting', pool.records lane = .waiting waiting →
    pool'.records lane = .waiting waiting' → waiting.bypasses ≤ waiting'.bypasses ∧
      ∀ other, label = some other → other ≠ lane → pool.tree.oldest = some lane →
        waiting.bypasses < waiting'.bypasses
  counter : pool'.ticket < pool.ticket → ∀ lane waiting, pool.records lane ≠ .waiting waiting
  quiet : (pool.pending = false → Quiet pool) → pool'.pending = false → Quiet pool'
  limit : ∀ lane other waiting, label = some other → other ≠ lane →
    pool.tree.oldest = some lane → pool.records lane = .waiting waiting →
      waiting.bypasses < n - 1
  order : ∀ lane other wl wo, label = some other → pool.records lane = .waiting wl →
    pool.records other = .waiting wo →
    (pool.tree.nodes lane).ticket < (pool.tree.nodes other).ticket →
    ¬ (Demand.queued pool lane wl.amount).amount ≤ (Demand.queued pool other wo.amount).amount

/-- A step that selects nothing and touches the record of one lane at most,
without restarting its wait. -/
theorem Effect.of_none (lane : Fin n) (sound : ∃ waiters', Sound pool' waiters')
    (records : ∀ i, i ≠ lane → pool'.records i = pool.records i)
    (keeps : ∀ waiting waiting', pool.records lane = .waiting waiting →
      pool'.records lane = .waiting waiting' → waiting.bypasses ≤ waiting'.bypasses)
    (counter : pool'.ticket < pool.ticket → ∀ i waiting, pool.records i ≠ .waiting waiting)
    (quiet : (pool.pending = false → Quiet pool) → pool'.pending = false → Quiet pool') :
    Effect pool pool' none := by
  refine ⟨sound, ?_, counter, quiet, by simp, by simp⟩
  intro i waiting waiting' before after
  refine ⟨?_, by simp⟩
  by_cases hi : i = lane
  · subst hi
    exact keeps waiting waiting' before after
  · rw [records i hi, before] at after
    rw [Record.waiting.inj after]

/-- A step that ends by setting the flag from the forest. -/
theorem Effect.of_roused (lane : Fin n) (roused : pool'.pending = Queue.hasWaiting pool')
    (sound : ∃ waiters', Sound pool' waiters')
    (records : ∀ i, i ≠ lane → pool'.records i = pool.records i)
    (keeps : ∀ waiting waiting', pool.records lane = .waiting waiting →
      pool'.records lane = .waiting waiting' → waiting.bypasses ≤ waiting'.bypasses)
    (counter : pool'.ticket < pool.ticket → ∀ i waiting, pool.records i ≠ .waiting waiting) :
    Effect pool pool' none :=
  Effect.of_none lane sound records keeps counter fun _ off => quiet_of_roused roused off

variable {mid : Pool credit K n}

/-- Two steps without a selection, the first of which changes no record. -/
theorem Effect.trans_none (first : Effect pool mid none) (second : Effect mid pool' none)
    (records : mid.records = pool.records) (ticket : mid.ticket = pool.ticket) :
    Effect pool pool' none := by
  refine ⟨second.sound, ?_, ?_, fun quiet => second.quiet (first.quiet quiet), by simp, by simp⟩
  · intro lane w w' before after
    exact ⟨(second.marks lane w w' (records ▸ before) after).1, by simp⟩
  · intro lt lane w
    rw [← records]
    exact second.counter (ticket ▸ lt) lane w

/-! ## Acquire and release -/

/-- `try_acquire` touches the account of an idle lane; while lanes wait it
leaves the shared credit alone. -/
theorem tryAcquire_spec (h : Sound pool waiters) (lane : Fin n) (amount : Amount) :
    ∃ result pool', Ready.tryAcquire pool lane amount = .ok (result, pool') ∧
      Sound pool' waiters ∧ pool'.records = pool.records ∧ pool'.tree = pool.tree ∧
      pool'.ticket = pool.ticket ∧ pool'.pending = pool.pending ∧
      (pool'.shared = pool.shared ∨ Queue.hasWaiting pool = false) ∧
      ((∃ granted, result = .ok granted) → Store.isBusy pool lane = false) := by
  unfold Ready.tryAcquire
  by_cases busy : Store.isBusy pool lane = true
  · rw [if_pos busy]
    exact ⟨_, pool, rfl, h, rfl, rfl, rfl, rfl, .inl rfl, by simp⟩
  rw [if_neg busy]
  rw [Bool.not_eq_true] at busy
  have idle := h.others lane (Store.not_waiting_of_not_busy busy)
  by_cases waits : Queue.hasWaiting pool = true
  · rw [if_pos waits]
    by_cases zero : Account.demand pool lane amount = Amount.zero
    · have cover : Account.demand pool lane amount ≤ pool.shared := by
        rw [zero]
        exact Amount.zero_le _
      simp only [zero, ne_eq, not_true_eq_false, if_false, Account.acquire_ok cover, ok_bind]
      refine ⟨_, _, rfl, ?_, rfl, rfl, rfl, rfl, .inl (Account.spent_shared zero), fun _ => busy⟩
      exact h.settle idle rfl rfl (fun i hi => Account.spent_lanes hi) (fun _ _ => rfl)
        (Store.not_waiting_of_not_busy busy)
    · simp only [ne_eq, zero, not_false_eq_true, if_true]
      exact ⟨_, pool, rfl, h, rfl, rfl, rfl, rfl, .inl rfl, by simp⟩
  · rw [if_neg waits]
    rw [Bool.not_eq_true] at waits
    unfold Lane.tryCharge
    cases hc : credit.charge (pool.lanes lane) pool.shared amount with
    | none => exact ⟨_, pool, rfl, h, rfl, rfl, rfl, rfl, .inl rfl, by simp⟩
    | some result =>
      refine ⟨_, _, rfl, ?_, rfl, rfl, rfl, rfl, .inr waits, fun _ => busy⟩
      exact h.settle idle rfl rfl (fun i hi => update_of_ne hi _ _) (fun _ _ => rfl)
        (Store.not_waiting_of_not_busy busy)

theorem tryAcquire_effect (h : Sound pool waiters) (lane : Fin n) (amount : Amount) :
    ∃ result pool', Ready.tryAcquire pool lane amount = .ok (result, pool') ∧
      Effect pool pool' none := by
  obtain ⟨result, pool', run, sound, records, tree, ticket, pending, shared, -⟩ :=
    tryAcquire_spec h lane amount
  refine ⟨result, pool', run, Effect.of_none lane ⟨waiters, sound⟩ ?_ ?_ ?_ ?_⟩
  · intro i _
    rw [records]
  · intro waiting waiting' before after
    rw [records, before] at after
    rw [Record.waiting.inj after]
  · intro lt
    omega
  · intro quiet off
    rcases shared with same | none
    · exact (quiet (pending ▸ off)).congr tree records same
    · intro selected pool₁ run
      have none' : Queue.hasWaiting pool' = false := by rw [← none, Queue.hasWaiting, tree]; rfl
      rw [select_of_not_hasWaiting none'] at run
      simp at run

variable (hn : n + 1 < 2 ^ 32)
include hn

section

variable (h : Sound pool waiters)

include h

/-- Credit returned in parts, then published once through the queue. -/
theorem release_spec (lane : Fin n) {back : Pool credit K n}
    (records : back.records = pool.records) (tree : back.tree = pool.tree)
    (ticket : back.ticket = pool.ticket) (lanes : ∀ i, i ≠ lane → back.lanes i = pool.lanes i) :
    ∃ pool' waiters', Queue.refresh back lane = .ok pool' ∧ Sound pool' waiters' ∧
      pool'.records = pool.records ∧ pool'.ticket = pool.ticket := by
  cases hr : back.records lane with
  | waiting waiting =>
    have before : pool.records lane = .waiting waiting := by rw [← records, hr]
    obtain ⟨ticket', hw⟩ := h.waits lane waiting before
    obtain ⟨trees, holds⟩ := h.holds
    obtain ⟨forest, trees', run, holds'⟩ :=
      holds.refresh hn hw (Demand.queued back lane waiting.amount)
    have sound : Sound { back with tree := forest } _ :=
      h.redemand hw ticket lanes (fun i _ => congrFun records i) hr
        (h.bypasses lane waiting before) holds'
    refine ⟨_, _, ?_, sound, records, ticket⟩
    simp only [Queue.refresh, hr, tree, run, walk, ok_bind]
    rfl
  | idle =>
    refine ⟨back, waiters, by simp [Queue.refresh, hr], ?_, records, ticket⟩
    have idle := h.others lane fun waiting e => by rw [← records, hr] at e; simp at e
    exact h.settle idle tree ticket lanes (fun i _ => congrFun records i) (by simp [hr])
  | granted granted =>
    refine ⟨back, waiters, by simp [Queue.refresh, hr], ?_, records, ticket⟩
    have idle := h.others lane fun waiting e => by rw [← records, hr] at e; simp at e
    exact h.settle idle tree ticket lanes (fun i _ => congrFun records i) (by simp [hr])

/-- The queue is told of returned credit, and the flag follows the forest. -/
theorem publish_effect (lane : Fin n) {back : Pool credit K n}
    (records : back.records = pool.records) (tree : back.tree = pool.tree)
    (ticket : back.ticket = pool.ticket) (lanes : ∀ i, i ≠ lane → back.lanes i = pool.lanes i) :
    ∃ pool', (do
        let pool ← Queue.refresh back lane
        return { pool with pending := Queue.hasWaiting pool }) = Except.ok pool' ∧
      Effect pool pool' none := by
  obtain ⟨mid, waiters', run, sound, records', ticket'⟩ :=
    release_spec hn h lane records tree ticket lanes
  have sound' : Sound { mid with pending := Queue.hasWaiting mid } waiters' :=
    ⟨sound.holds, sound.waits, sound.others, sound.issued, sound.distinct, sound.counter,
      sound.bypasses⟩
  refine ⟨{ mid with pending := Queue.hasWaiting mid }, ?_,
    Effect.of_roused lane rfl ⟨_, sound'⟩ ?_ ?_ ?_⟩
  · rw [run]
    rfl
  · intro i _
    exact congrFun records' i
  · intro waiting waiting' before after
    have same := (congrFun records' lane).symm.trans after
    rw [before] at same
    rw [Record.waiting.inj same]
  · intro lt
    simp only [ticket'] at lt
    omega

theorem release_effect (lane : Fin n) (grant : Amount) :
    ∃ pool', Ready.release pool lane grant = .ok pool' ∧ Effect pool pool' none :=
  publish_effect hn h lane rfl rfl rfl fun _ hi => Account.release_lanes hi

/-! ## Cancel -/

theorem cancel_effect (lane : Fin n) :
    ∃ pool', Ready.cancel pool lane = .ok pool' ∧ Effect pool pool' none := by
  cases hr : pool.records lane with
  | idle =>
    refine ⟨pool, by simp [Ready.cancel, Queue.cancel, hr]; rfl,
      Effect.of_none lane ⟨_, h⟩ (fun _ _ => rfl) ?_ (by omega) fun quiet off => quiet off⟩
    intro waiting waiting' before
    rw [hr] at before
    simp at before
  | waiting waiting =>
    obtain ⟨ticket, hw⟩ := h.waits lane waiting hr
    obtain ⟨trees, holds⟩ := h.holds
    obtain ⟨forest, trees', run, -, holds'⟩ := holds.remove hn hw
    let after : Pool credit K n := { pool.setRecord lane .idle with tree := forest }
    have sound : Sound { after with pending := Queue.hasWaiting after }
        (update waiters lane none) := by
      refine h.leave rfl (fun _ _ => rfl) ?_ ?_ ?_ ?_ holds'
      · intro w
        simp [after]
      · intro i w hi hrec
        exact ⟨w, (Pool.setRecord_of_ne hi).symm.trans hrec, rfl⟩
      · intro i w hi hrec
        exact ⟨w, (Pool.setRecord_of_ne hi).trans hrec⟩
      · intro i w hrec
        by_cases hi : i = lane
        · subst hi
          simp [after] at hrec
        · exact h.bypasses i w ((Pool.setRecord_of_ne hi).symm.trans hrec)
    refine ⟨_, ?_, Effect.of_roused lane rfl ⟨_, sound⟩ ?_ ?_ ?_⟩
    · simp only [Ready.cancel, Queue.cancel, hr]
      change ((walk (pool.tree.remove lane)).bind _).bind _ = _
      rw [run]
      rfl
    · intro i hi
      exact Pool.setRecord_of_ne hi
    · intro w w' _ hrec
      simp [after] at hrec
    · intro lt
      exact absurd lt (Nat.lt_irrefl _)
  | granted granted =>
    have idle := h.others lane (by simp [hr])
    let after : Pool credit K n :=
      Account.release (pool.setRecord lane .idle) lane granted.grant
    have sound : Sound { after with pending := Queue.hasWaiting after } waiters :=
      h.settle idle rfl rfl (fun i hi => Account.release_lanes hi)
        (fun i hi => Pool.setRecord_of_ne hi) (by simp [after, Account.release])
    refine ⟨_, ?_, Effect.of_roused lane rfl ⟨_, sound⟩ ?_ ?_ ?_⟩
    · simp only [Ready.cancel, Queue.cancel, hr]
      rfl
    · intro i hi
      exact Pool.setRecord_of_ne hi
    · intro w w' before
      rw [hr] at before
      simp at before
    · intro lt
      exact absurd lt (Nat.lt_irrefl _)

/-! ## Poll -/

/-- A lane that does not wait is served at once or takes a fresh ticket. -/
theorem vacant_poll_spec (lane : Fin n) (idle : ∀ waiting, pool.records lane ≠ .waiting waiting)
    (key : K) (amount : Queued) :
    ∃ result pool', Vacant.poll pool lane key amount = .ok (result, pool') ∧
      (∃ waiters', Sound pool' waiters') ∧
      (∀ i, i ≠ lane → pool'.records i = pool.records i) ∧
      (pool'.ticket < pool.ticket → ∀ i, waiters i = none) ∧
      (result = .error .exhausted → pool' = pool) ∧ result ≠ .ok .waiting := by
  have none' := h.others lane idle
  have empty := h.isEmpty_iff
  by_cases now : (Demand.queued pool lane amount).amount = Amount.zero ∨
      (pool.tree.roots.isEmpty ∧ Lane.isCovered pool (Demand.queued pool lane amount))
  · have cover : Account.demand pool lane amount.amount ≤ pool.shared := by
      rcases now with zero | ⟨-, covered⟩
      · rw [show Account.demand pool lane amount.amount = Amount.zero from zero]
        exact Amount.zero_le _
      · exact covered
    refine ⟨.ok (.granted amount.amount), Account.spent pool lane amount.amount, ?_, ⟨waiters, ?_⟩,
      fun _ _ => rfl, ?_, by simp, by simp⟩
    · simp only [Vacant.poll, if_pos now, Account.acquire_ok cover, ok_bind]
      rfl
    · exact h.settle none' rfl rfl (fun i hi => Account.spent_lanes hi) (fun _ _ => rfl) idle
    · intro lt
      exact absurd lt (Nat.lt_irrefl _)
  · generalize hc : (if pool.tree.roots.isEmpty then 0 else pool.ticket) = counter
    have below : ∀ i w, waiters i = some w → w.ticket < counter := by
      intro i w hw
      have full : ¬ pool.tree.roots.isEmpty := by
        intro e
        rw [empty.mp e i] at hw
        simp at hw
      rw [if_neg full] at hc
      rw [← hc]
      exact h.issued i w hw
    have resets : counter < pool.ticket → ∀ i, waiters i = none := by
      intro lt
      by_cases e : pool.tree.roots.isEmpty = true
      · exact empty.mp e
      · rw [if_neg e] at hc
        omega
    by_cases room : counter + 1 < 2 ^ 32
    · obtain ⟨trees, holds⟩ := h.holds
      obtain ⟨forest, trees', run, holds'⟩ :=
        holds.insert hn none' (Demand.queued pool lane amount) counter
      let after : Pool credit K n :=
        { pool with
          ticket := counter + 1
          records := update pool.records lane (.waiting ⟨key, amount, 0⟩)
          tree := forest }
      have off : ∀ i, i ≠ lane → after.records i = pool.records i :=
        fun i hi => update_of_ne hi _ _
      have self : after.records lane = .waiting ⟨key, amount, 0⟩ := update_self _ _ _
      have split : ∀ i w, update waiters lane
          (some ⟨Demand.queued pool lane amount, counter⟩) i = some w →
            (i = lane ∧ w.ticket = counter) ∨ (i ≠ lane ∧ waiters i = some w) := by
        intro i w hw
        by_cases hi : i = lane
        · subst hi
          rw [update_self] at hw
          exact .inl ⟨rfl, by rw [← Option.some.inj hw]⟩
        · rw [update_of_ne hi] at hw
          exact .inr ⟨hi, hw⟩
      refine ⟨.ok .queued, after, ?_, ⟨_, ⟨⟨trees', holds'⟩, ?_, ?_, ?_, ?_, room, ?_⟩⟩, off, ?_,
        by simp, by simp⟩
      · simp only [Vacant.poll, if_neg now, hc, Ticket.issue, if_pos room]
        change (walk (pool.tree.insert lane (Demand.queued pool lane amount) counter)).bind _ = _
        rw [run]
        rfl
      · intro i w hw
        by_cases hi : i = lane
        · subst hi
          rw [self] at hw
          obtain rfl := Record.waiting.inj hw
          exact ⟨counter, update_self _ _ _⟩
        · rw [off i hi] at hw
          rw [update_of_ne hi]
          exact h.waits i w hw
      · intro i hi
        have hne : i ≠ lane := fun e => hi _ (e ▸ self)
        rw [update_of_ne hne]
        exact h.others i fun w e => hi w ((off i hne).trans e)
      · intro i w hw
        rcases split i w hw with ⟨-, same⟩ | ⟨-, old⟩
        · exact Nat.lt_succ_of_le same.le
        · exact Nat.lt_succ_of_lt (below i w old)
      · intro a b wa wb ha hb same
        rcases split a wa ha with ⟨ea, ta⟩ | ⟨-, oa⟩ <;> rcases split b wb hb with ⟨eb, tb⟩ | ⟨-, ob⟩
        · rw [ea, eb]
        · have := below b wb ob
          omega
        · have := below a wa oa
          omega
        · exact h.distinct a b wa wb oa ob same
      · intro i w hw
        by_cases hi : i = lane
        · subst hi
          rw [self] at hw
          obtain rfl := Record.waiting.inj hw
          exact Nat.zero_le _
        · rw [off i hi] at hw
          exact h.bypasses i w hw
      · intro lt
        exact resets (Nat.lt_of_succ_lt lt)
    · -- the counter is exhausted, so lanes wait and it keeps its value
      have full : ¬ pool.tree.roots.isEmpty := by
        intro e
        rw [if_pos e] at hc
        omega
      rw [if_neg full] at hc
      refine ⟨.error .exhausted, pool, ?_, ⟨waiters, h⟩, fun _ _ => rfl, ?_, fun _ => rfl,
        by simp⟩
      · simp only [Vacant.poll, if_neg now, if_neg full, Ticket.issue, hc, if_neg room]
        subst hc
        rfl
      · intro lt
        exact absurd lt (Nat.lt_irrefl _)

end

omit hn in
/-- Every answer but an unchanged wait sets the flag from the forest. -/
theorem poll_of_resume [DecidableEq K] {key : K} {queued : Queued} {result : Except Tickets Resume}
    (run : Queue.resume pool lane key queued = .ok (result, mid)) (changed : result ≠ .ok .waiting) :
    ∃ answer, Ready.poll pool lane key queued =
      .ok (answer, { mid with pending := Queue.hasWaiting mid }) := by
  simp only [Ready.poll, run, ok_bind]
  cases result with
  | error cause => exact ⟨_, rfl⟩
  | ok resume =>
    cases resume with
    | waiting => exact absurd rfl changed
    | queued | granted => exact ⟨_, rfl⟩

omit hn in
theorem Sound.setPending (h : Sound pool waiters) (pending : Bool) :
    Sound { pool with pending := pending } waiters :=
  ⟨h.holds, h.waits, h.others, h.issued, h.distinct, h.counter, h.bypasses⟩

theorem poll_effect [DecidableEq K] (h : Sound pool waiters) (lane : Fin n) (key : K)
    (queued : Queued) :
    ∃ answer pool', Ready.poll pool lane key queued = .ok (answer, pool') ∧
      Effect pool pool' none := by
  have nobody : (∀ i, waiters i = none) → ∀ i w, pool.records i ≠ .waiting w := by
    intro none' i w e
    obtain ⟨ticket, hw⟩ := h.waits i w e
    rw [none' i] at hw
    simp at hw
  cases hr : pool.records lane with
  | idle =>
    obtain ⟨result, mid, run, ⟨waiters', sound⟩, records, counter, -, changed⟩ :=
      vacant_poll_spec hn h lane (by simp [hr]) key queued
    have resume : Queue.resume pool lane key queued = .ok (result, mid) := by
      simp only [Queue.resume, hr, run]
    obtain ⟨answer, poll⟩ := poll_of_resume resume changed
    refine ⟨answer, _, poll, Effect.of_roused lane rfl ⟨waiters', sound.setPending _⟩ records ?_
      fun lt => nobody (counter lt)⟩
    intro w w' before
    rw [hr] at before
    simp at before
  | waiting waiting =>
    obtain ⟨ticket, hw⟩ := h.waits lane waiting hr
    by_cases same : waiting.key = key ∧ waiting.amount = queued
    · refine ⟨.pending, pool, ?_, Effect.of_none lane ⟨_, h⟩ (fun _ _ => rfl) ?_ (by omega)
        fun quiet off => quiet off⟩
      · simp only [Ready.poll, Queue.resume, hr, if_pos same, ok_bind]
        rfl
      · intro w w' before after
        rw [before] at after
        rw [Record.waiting.inj after]
    · obtain ⟨trees, holds⟩ := h.holds
      obtain ⟨forest, trees', run, holds'⟩ :=
        holds.refresh hn hw (Demand.queued pool lane queued)
      let mid : Pool credit K n :=
        { pool.setRecord lane (.waiting ⟨key, queued, waiting.bypasses⟩) with tree := forest }
      have self : mid.records lane = .waiting ⟨key, queued, waiting.bypasses⟩ :=
        Pool.setRecord_self
      have sound : Sound mid _ :=
        h.redemand hw rfl (fun _ _ => rfl) (fun i hi => Pool.setRecord_of_ne hi) self
          (h.bypasses lane waiting hr) holds'
      have resume : Queue.resume pool lane key queued = .ok (.ok .queued, mid) := by
        simp only [Queue.resume, hr, if_neg same]
        change (walk (pool.tree.refresh lane (Demand.queued pool lane queued))).bind _ = _
        rw [run]
        rfl
      obtain ⟨answer, poll⟩ := poll_of_resume resume (by simp)
      refine ⟨answer, _, poll, Effect.of_roused lane rfl ⟨_, sound.setPending _⟩
        (fun i hi => Pool.setRecord_of_ne hi) ?_ fun lt => absurd lt (Nat.lt_irrefl _)⟩
      intro w w' before after
      rw [hr] at before
      obtain rfl := Record.waiting.inj before
      have eq := self.symm.trans after
      rw [← Record.waiting.inj eq]
  | granted granted =>
    have idle := h.others lane (by simp [hr])
    have keeps : ∀ (w w' : Waiting K) (q : Pool credit K n), pool.records lane = .waiting w →
        q.records lane = .waiting w' → w.bypasses ≤ w'.bypasses := by
      intro w w' q before
      rw [hr] at before
      simp at before
    by_cases same : granted.key = key ∧ granted.grant = queued.amount
    · have sound : Sound (pool.setRecord lane .idle) waiters :=
        h.settle idle rfl rfl (fun _ _ => rfl) (fun i hi => Pool.setRecord_of_ne hi) (by simp)
      have resume : Queue.resume pool lane key queued =
          .ok (.ok (.granted granted.grant), pool.setRecord lane .idle) := by
        simp only [Queue.resume, hr, if_pos same]
      obtain ⟨answer, poll⟩ := poll_of_resume resume (by simp)
      exact ⟨answer, _, poll, Effect.of_roused lane rfl ⟨_, sound.setPending _⟩
        (fun i hi => Pool.setRecord_of_ne hi) (fun w w' => keeps w w' _)
        fun lt => absurd lt (Nat.lt_irrefl _)⟩
    · -- the unclaimed grant goes back before the lane asks again
      let back : Pool credit K n :=
        Account.release (pool.setRecord lane .idle) lane granted.grant
      have self : back.records lane = .idle := Pool.setRecord_self
      have soundBack : Sound back waiters :=
        h.settle idle rfl rfl (fun i hi => Account.release_lanes hi)
          (fun i hi => Pool.setRecord_of_ne hi) (by simp [self])
      obtain ⟨result, mid, run, ⟨waiters', sound⟩, records, counter, -, changed⟩ :=
        vacant_poll_spec hn soundBack lane (by simp [self]) key queued
      have resume : Queue.resume pool lane key queued = .ok (result, mid) := by
        simp only [Queue.resume, hr, if_neg same]
        exact run
      obtain ⟨answer, poll⟩ := poll_of_resume resume changed
      exact ⟨answer, _, poll, Effect.of_roused lane rfl ⟨waiters', sound.setPending _⟩
        (fun i hi => (records i hi).trans (Pool.setRecord_of_ne hi)) (fun w w' => keeps w w' _)
        fun lt => nobody (counter lt)⟩

/-! ## Selection and maintenance -/

/-- A selected lane: the oldest of those that fit, taken out of the forest. If
it is not the oldest of all, the oldest lane has been marked. -/
structure Selection (pool pool' : Pool credit K n) (waiters : Waiters n) (shared : Amount)
    (lane : Fin n) : Prop where
  chosen : ∃ waiter, waiters lane = some waiter ∧ waiter.demand.fits shared ∧
    ∀ i w, waiters i = some w → w.demand.fits shared → waiter.ticket ≤ w.ticket
  holds : ∃ trees, Holds pool'.tree (update waiters lane none) trees
  rest : pool'.shared = pool.shared ∧ pool'.lanes = pool.lanes ∧ pool'.ticket = pool.ticket
  marked : ∃ oldest, pool.tree.oldest = some oldest ∧
    (∀ i, (i ≠ oldest ∨ lane = oldest) → pool'.records i = pool.records i) ∧
    (lane ≠ oldest → ∃ waiting, pool.records oldest = .waiting waiting ∧
      waiting.bypasses < n - 1 ∧
      pool'.records oldest = .waiting { waiting with bypasses := waiting.bypasses + 1 })

theorem select_spec (h : Sound pool waiters) (shared : Amount) :
    Queue.select pool shared = .ok (none, pool) ∨
      ∃ lane pool', Queue.select pool shared = .ok (some lane, pool') ∧
        Selection pool pool' waiters shared lane := by
  obtain ⟨trees, holds⟩ := h.holds
  have first := holds.oldest_spec
  obtain ⟨candidate, eligible, second⟩ := holds.eligible_spec shared
  cases ho : pool.tree.oldest with
  | none => exact .inl (by simp only [Queue.select, ho])
  | some oldest =>
    rw [ho] at first
    cases candidate with
    | none =>
      refine .inl ?_
      simp only [Queue.select, ho, eligible, walk, ok_bind]
      rfl
    | some lane =>
      obtain ⟨waiter, hw, fits, least⟩ := second
      obtain ⟨forest, trees', removed, -, holds'⟩ := holds.remove hn hw
      obtain ⟨wo, hwo, -, -⟩ := first
      obtain ⟨waiting, hr, -⟩ := h.record_of_waiter hwo
      by_cases same : lane = oldest
      · refine .inr ⟨lane, { pool with tree := forest }, ?_, ⟨waiter, hw, fits, least⟩,
          ⟨trees', holds'⟩, ⟨rfl, rfl, rfl⟩, oldest, ho, fun _ _ => rfl, ?_⟩
        · simp only [Queue.select, ho, eligible, walk, ok_bind, same, ne_eq, not_true_eq_false,
            if_false]
          rw [same] at removed
          rw [removed]
          rfl
        · intro hne
          exact absurd same hne
      · by_cases full : n - 1 ≤ waiting.bypasses
        · refine .inl ?_
          simp only [Queue.select, ho, eligible, walk, ok_bind, ne_eq, same, not_false_eq_true,
            if_true, Store.tryBypass, hr, if_pos full]
          rfl
        · refine .inr ⟨lane, { pool.setRecord oldest (.waiting
            { waiting with bypasses := waiting.bypasses + 1 }) with tree := forest }, ?_,
            ⟨waiter, hw, fits, least⟩, ⟨trees', holds'⟩, ⟨rfl, rfl, rfl⟩, oldest, ho, ?_, ?_⟩
          · simp only [Queue.select, ho, eligible, walk, ok_bind, ne_eq, same,
              not_false_eq_true, if_true, Store.tryBypass, hr, if_neg full]
            simp only [Pool.setRecord, removed, ok_bind]
            rfl
          · intro i hi
            exact Pool.setRecord_of_ne (hi.elim id fun e => absurd e same)
          · intro _
            exact ⟨waiting, hr, Nat.lt_of_not_le full, Pool.setRecord_self⟩

omit hn in
/-- Records of the lanes other than the selected one keep waiting, and keep
their requests. -/
theorem Selection.others {shared : Amount} (sel : Selection pool pool' waiters shared lane)
    (hi : i ≠ lane) :
    pool'.records i = pool.records i ∨ ∃ waiting, pool.records i = .waiting waiting ∧
      waiting.bypasses < n - 1 ∧
      pool'.records i = .waiting { waiting with bypasses := waiting.bypasses + 1 } := by
  obtain ⟨oldest, -, same, mark⟩ := sel.marked
  by_cases ho : i = oldest
  · subst ho
    exact .inr (mark hi.symm)
  · exact .inl (same i (.inl ho))

omit hn in
/-- The record of the selected lane is still the waiting one. -/
theorem Selection.record {shared : Amount} (h : Sound pool waiters)
    (sel : Selection pool pool' waiters shared lane) :
    ∃ waiting, pool.records lane = .waiting waiting ∧ pool'.records lane = .waiting waiting ∧
      (Demand.queued pool lane waiting.amount).fits shared := by
  obtain ⟨waiter, hw, fits, -⟩ := sel.chosen
  obtain ⟨waiting, hr, demand⟩ := h.record_of_waiter hw
  obtain ⟨oldest, -, same, -⟩ := sel.marked
  refine ⟨waiting, hr, ?_, demand ▸ fits⟩
  rw [same lane, hr]
  by_cases ho : lane = oldest
  · exact .inr ho
  · exact .inl ho

omit hn in
/-- The end of a permit: the selected lane is granted its request or dropped. -/
theorem activate_spec (h : Sound pool waiters) (sel : Selection pool mid waiters pool.shared lane)
    (active : Bool) :
    ∃ pool', Selected.activate mid lane active = .ok pool' ∧
      Sound pool' (update waiters lane none) ∧ pool'.ticket = pool.ticket ∧
      pool'.tree = mid.tree ∧
      (∀ i, i ≠ lane → pool'.records i = mid.records i) ∧
      ∀ waiting, pool'.records lane ≠ .waiting waiting := by
  obtain ⟨waiting, before, after, fits⟩ := sel.record h
  obtain ⟨shared, lanes, ticket⟩ := sel.rest
  obtain ⟨trees, holds⟩ := sel.holds
  -- whatever the outcome, only the record and the account of `lane` differ from `mid`
  have leave : ∀ pool' : Pool credit K n, pool'.ticket = mid.ticket → pool'.tree = mid.tree →
      (∀ i, i ≠ lane → pool'.lanes i = mid.lanes i) →
      (∀ i, i ≠ lane → pool'.records i = mid.records i) →
      (∀ waiting, pool'.records lane ≠ .waiting waiting) →
      Sound pool' (update waiters lane none) := by
    intro pool' ticket' tree' lanes' records' record'
    refine h.leave (ticket'.trans ticket) ?_ record' ?_ ?_ ?_ (tree' ▸ holds)
    · intro i hi
      rw [lanes' i hi, lanes]
    · intro i w hi hrec
      rw [records' i hi] at hrec
      rcases sel.others hi with same | ⟨old, hold, -, hnew⟩
      · exact ⟨w, same ▸ hrec, rfl⟩
      · rw [hnew] at hrec
        exact ⟨old, hold, by rw [← Record.waiting.inj hrec]⟩
    · intro i w hi hrec
      rw [records' i hi]
      rcases sel.others hi with same | ⟨old, -, -, hnew⟩
      · exact ⟨w, same.trans hrec⟩
      · exact ⟨_, hnew⟩
    · intro i w hrec
      have hi : i ≠ lane := fun e => record' w (e ▸ hrec)
      rw [records' i hi] at hrec
      rcases sel.others hi with same | ⟨old, -, low, hnew⟩
      · exact h.bypasses i w (same ▸ hrec)
      · rw [hnew] at hrec
        rw [← Record.waiting.inj hrec]
        exact low
  unfold Selected.activate
  rw [after]
  cases active with
  | false =>
    refine ⟨mid.setRecord lane .idle, rfl, leave _ rfl rfl (fun _ _ => rfl)
      (fun i hi => Pool.setRecord_of_ne hi) (by simp), ticket, rfl,
      fun i hi => Pool.setRecord_of_ne hi, by simp⟩
  | true =>
    have cover : Account.demand mid lane waiting.amount.amount ≤ mid.shared := by
      rw [shared, Account.demand, lanes]
      exact fits
    simp only [if_true, Account.acquire_ok cover, ok_bind]
    refine ⟨_, rfl, leave _ rfl rfl (fun i hi => Account.spent_lanes hi)
      (fun i hi => Pool.setRecord_of_ne hi) (by simp), ticket, rfl,
      fun i hi => Pool.setRecord_of_ne hi, by simp⟩

theorem permit_effect (h : Sound pool waiters) (active : Bool) :
    ∃ label pool', pool.permit active = .ok (label, pool') ∧ Effect pool pool' label := by
  by_cases pending : pool.pending = true
  case neg =>
    have here : pool.permit active = .ok (none, pool) := by
      simp only [Pool.permit, pending]
      rfl
    refine ⟨none, pool, here, ⟨waiters, h⟩, ?_, fun lt => absurd lt (Nat.lt_irrefl _),
      fun quiet off => quiet off, by simp, by simp⟩
    intro lane w w' before after
    rw [before] at after
    exact ⟨by rw [Record.waiting.inj after], by simp⟩
  case pos =>
    have off : Sound { pool with pending := false } waiters := h.setPending false
    rcases select_spec hn off pool.shared with none' | ⟨lane, mid, run, sel⟩
    · refine ⟨none, { pool with pending := false }, ?_, ⟨waiters, off⟩, ?_,
        fun lt => absurd lt (Nat.lt_irrefl _), ?_, by simp, by simp⟩
      · simp only [Pool.permit, pending, if_true, none', ok_bind]
        rfl
      · intro lane w w' before after
        rw [before] at after
        exact ⟨by rw [Record.waiting.inj after], by simp⟩
      · intro _ _ lane pool₁ run
        rw [none'] at run
        simp at run
    · obtain ⟨pool', act, sound, ticket, -, records, record⟩ := activate_spec off sel active
      obtain ⟨waiter, hw, fits, least⟩ := sel.chosen
      obtain ⟨oldest, ho, same, mark⟩ := sel.marked
      refine ⟨some lane, { pool' with pending := Queue.hasWaiting pool' }, ?_,
        ⟨_, sound.setPending _⟩, ?_, ?_, fun _ off => quiet_of_roused rfl off, ?_, ?_⟩
      · simp only [Pool.permit, pending, if_true, run, ok_bind, act]
        rfl
      · intro i w w' before after
        have hi : i ≠ lane := fun e => record w' (e ▸ after)
        have after := (records i hi).symm.trans after
        constructor
        · rcases sel.others hi with keep | ⟨old, hold, -, hnew⟩
          · rw [keep] at after
            have eq := before.symm.trans after
            rw [Record.waiting.inj eq]
          · rw [hnew] at after
            have eq := before.symm.trans hold
            rw [Record.waiting.inj eq, ← Record.waiting.inj after]
            exact Nat.le_succ _
        · intro other hl hne hold
          obtain rfl := Option.some.inj hl
          obtain rfl : oldest = i := Option.some.inj (ho.symm.trans hold)
          obtain ⟨w₀, hw₀, -, hnew⟩ := mark hne
          rw [hnew] at after
          have eq := before.symm.trans hw₀
          rw [Record.waiting.inj eq, ← Record.waiting.inj after]
          exact Nat.lt_succ_self _
      · intro lt
        exact absurd (ticket ▸ lt) (Nat.lt_irrefl _)
      · intro i other w hl hne hold hrec
        obtain rfl := Option.some.inj hl
        obtain rfl : oldest = i := Option.some.inj (ho.symm.trans hold)
        obtain ⟨w₀, hw₀, low, -⟩ := mark hne
        have eq := hrec.symm.trans hw₀
        rw [Record.waiting.inj eq]
        exact low
      · intro i other wi wo hl hi hother lt le
        obtain rfl := Option.some.inj hl
        obtain ⟨ti, hwi⟩ := h.waits i wi hi
        obtain ⟨tl, hwo⟩ := h.waits lane wo hother
        obtain ⟨trees, holds⟩ := h.holds
        rw [holds.ticket hwi, holds.ticket hwo] at lt
        rw [hw] at hwo
        obtain rfl := Option.some.inj hwo
        have older := least i _ hwi (Amount.le_trans le fits)
        exact absurd lt (Nat.not_lt.mpr older)

/-! ## Batches -/

omit hn in
theorem foldl_release (lane : Fin n) (splits : List Amount) (pool : Pool credit K n) :
    (splits.foldl (fun pool split => Account.release pool lane split) pool).records =
        pool.records ∧
      (splits.foldl (fun pool split => Account.release pool lane split) pool).tree = pool.tree ∧
      (splits.foldl (fun pool split => Account.release pool lane split) pool).ticket =
        pool.ticket ∧
      ∀ i, i ≠ lane →
        (splits.foldl (fun pool split => Account.release pool lane split) pool).lanes i =
          pool.lanes i := by
  induction splits generalizing pool with
  | nil => exact ⟨rfl, rfl, rfl, fun _ _ => rfl⟩
  | cons split splits ih =>
    obtain ⟨records, tree, ticket, lanes⟩ := ih (Account.release pool lane split)
    exact ⟨records, tree, ticket, fun i hi => (lanes i hi).trans (Account.release_lanes hi)⟩

theorem tryBatch_effect (h : Sound pool waiters) (lane : Fin n) (plan : Amount)
    (loads : List (Nat × Bool)) (built : Bool) :
    ∃ done pool', Draft.tryBatch pool lane plan loads built = .ok (done, pool') ∧
      Effect pool pool' none := by
  obtain ⟨result, mid, run, sound, records, tree, ticket, pending, shared, -⟩ :=
    tryAcquire_spec h lane plan
  obtain ⟨result', mid', run', effect⟩ := tryAcquire_effect h lane plan
  obtain ⟨rfl, rfl⟩ : result' = result ∧ mid' = mid := by
    rw [run] at run'
    have eq := Except.ok.inj run'
    exact ⟨(congrArg Prod.fst eq).symm, (congrArg Prod.snd eq).symm⟩
  simp only [Draft.tryBatch, run, ok_bind]
  cases result' with
  | error cause => exact ⟨_, _, rfl, effect⟩
  | ok amount =>
    dsimp only
    generalize loads.foldl _ (amount, []) = parts
    by_cases done : built = true ∧ parts.1 = Amount.zero
    · rw [if_pos done]
      exact ⟨true, mid', rfl, effect⟩
    · rw [if_neg done]
      obtain ⟨records', tree', ticket', lanes'⟩ := foldl_release lane parts.2 mid'
      obtain ⟨back, hback⟩ : ∃ back, Account.release
          (parts.2.foldl (fun pool split => Account.release pool lane split) mid') lane
            parts.1 = back := ⟨_, rfl⟩
      obtain ⟨pool', refund, effect'⟩ := publish_effect hn sound lane
        (hback ▸ records') (hback ▸ tree') (hback ▸ ticket')
        fun i hi => (hback ▸ Account.release_lanes hi).trans (lanes' i hi)
      refine ⟨false, pool', ?_, effect.trans_none effect' records ticket⟩
      have cancel : Draft.cancel mid' lane parts.1 parts.2 = .ok pool' := by
        rw [Draft.cancel, Ready.release, hback]
        exact refund
      rw [cancel]
      rfl

end Dope.Egress.Credit
