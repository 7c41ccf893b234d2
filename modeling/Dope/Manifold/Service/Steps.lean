import Dope.Manifold.Service.Joint

/-! # Steps of a service pool

No operation of the pool faults, and each keeps what the dials claim with what the
members count.
-/

namespace Dope.Manifold.Service

open Dope.Round Dope.Run

variable {I A O X E : Type} {n m N : Nat} {setup : Setup O n}

namespace Pool

variable {pool pool' : Pool I A O X n m}

structure Inv (setup : Setup O n) (pool : Pool I A O X n m) : Prop where
  dials : pool.dials.Inv
  sound : Sound setup.authoritative pool.membership pool.dials.claims

/-- A pool keeps its invariant, its retired members and its verdict. -/
def Kept (setup : Setup O n) (pool pool' : Pool I A O X n m) : Prop :=
  Joined setup pool.dials pool'.dials pool.membership pool'.membership

theorem Kept.refl (inv : pool.Inv setup) : pool.Kept setup pool :=
  Joined.refl inv.dials inv.sound

theorem Kept.inv (h : pool.Kept setup pool') : pool'.Inv setup := ⟨Joined.inv h, Joined.sound h⟩

theorem Kept.trans {pool'' : Pool I A O X n m} (h : pool.Kept setup pool')
    (h' : pool'.Kept setup pool'') : pool.Kept setup pool'' := Joined.trans h h'

theorem refresh_kept (inv : pool.Inv setup) : pool.Kept setup (pool.refresh setup) := by
  rcases inv.dials.refresh (pool.isPresent setup) with ⟨inv', claims, spent⟩
  exact ⟨inv', claims ▸ inv.sound, .refl _, spent⟩

theorem reject_kept (inv : pool.Inv setup) (key : Id) (cause : Exhaustion) :
    ∃ pool', pool.reject setup key cause = .ok pool' ∧ pool.Kept setup pool' ∧
      pool'.feedback = pool.feedback ∧ pool'.dials.active = pool.dials.active := by
  rcases Dials.reject_spec inv.dials inv.sound key cause with
    ⟨dials', members', run, joined, active⟩
  refine ⟨{ pool with dials := dials', membership := members' }, ?_, joined, rfl, active⟩
  simp [Pool.reject, run]

theorem resetFront_kept (inv : pool.Inv setup)
    (removed : Target n → Except Fault (Option Update × Members I A n))
    (removes : ∀ d claim, pool.dials.claims d = some claim →
      ∃ update members', removed claim.target = .ok (update, members') ∧
        AgedAll pool.membership members' ∧
        match update with
        | none => members' = pool.membership
        | some _ => Sound setup.authoritative members'
            (Function.update pool.dials.claims d none)) :
    ∃ pool', pool.resetFront setup removed = .ok pool' ∧ pool.Kept setup pool' ∧
      pool'.feedback = pool.feedback ∧ pool'.dials.active = pool.dials.active := by
  rcases Dials.resetFront_spec inv.dials inv.sound removed removes with
    ⟨exhausted, dials', members', run, joined, active⟩
  let reset : Pool I A O X n m := { pool with dials := dials', membership := members' }
  have kept : pool.Kept setup reset := joined
  cases exhausted with
  | none => exact ⟨reset, by simp [Pool.resetFront, run, reset], kept, rfl, active⟩
  | some key =>
    rcases reject_kept kept.inv key .identity with ⟨pool', run', kept', feedback, active'⟩
    refine ⟨pool', ?_, kept.trans kept', feedback, active'.trans active⟩
    simp only [Pool.resetFront, run, ok_bind]
    exact run'

/-- What a poll reports: nothing, or a permanent failure after which the pool is spent; and
an exhaustion only while no dial is active. -/
structure Reports (pool pool' : Pool I A O X n m) (opening : Opening E) : Prop where
  spent : opening.report ≠ [] → ¬pool.dials.Spent ∧ pool'.dials.Spent
  single : opening.report.length ≤ 1
  idle : ∀ attempt error, opening = .failed attempt error → (∀ cause, error ≠ .wire cause) →
    pool.dials.active = 0

theorem reports_of_verdict {opening : Opening E} (dials : Dials (A × O) n m)
    (verdict : Verdict dials pool'.dials opening) (spent : pool.dials.Spent → dials.Spent)
    (active : dials.active = pool.dials.active) : Reports pool pool' opening := by
  refine ⟨?_, ?_, ?_⟩
  · intro reported
    rcases verdict with nothing | ⟨unspent, gone, -⟩
    · exact absurd nothing reported
    · exact ⟨fun before => unspent (spent before), gone⟩
  · cases opening with
    | failed attempt error => simp [Opening.report]
    | submitted | deferred attempt cause | backoff due | idle => simp [Opening.report]
  · intro attempt error failed other
    subst failed
    rcases verdict with nothing | ⟨-, -, ⟨idle, -⟩ | ⟨attempt', cause, same⟩⟩
    · cases nothing
    · exact active ▸ idle
    · cases same
      exact absurd rfl (other cause)

theorem poll_kept (lawful : LawfulFirst setup.first) (inv : pool.Inv setup) (now : Nat)
    (source : Source I) (submit : Id → A × O → Attempt (A × O) E) :
    ∃ opening pool', pool.poll setup now source submit = .ok (opening, pool') ∧
      pool.Kept setup pool' ∧ Reports pool pool' opening := by
  cases enabled : pool.feedback.isEnabled with
  | false =>
    rcases inv.dials.refresh false with ⟨inv', claims, spent⟩
    rcases inv'.terminal E with ⟨inv'', claims', spent', verdict⟩
    have kept : pool.Kept setup
        { pool with dials := ((pool.dials.refresh false).terminal E).2 } :=
      ⟨inv'', (claims'.trans claims) ▸ inv.sound, .refl _, fun before => spent' (spent before)⟩
    refine ⟨((pool.dials.refresh false).terminal E).1,
      { pool with dials := ((pool.dials.refresh false).terminal E).2 },
      by simp [Pool.poll, enabled], kept, ?_⟩
    refine reports_of_verdict (pool.dials.refresh false) ?_ spent
      (Dials.refresh_active ..)
    rcases verdict with nothing | ⟨unspent, gone, idle, -, reported⟩
    · exact .inl nothing
    · exact .inr ⟨unspent, gone, .inl ⟨idle, reported⟩⟩
  | true =>
    -- The front may be given up before a dial is opened.
    have front : ∃ pool₁, (if pool.feedback.watched then
          pool.resetFront setup fun target =>
            pool.membership.cancelIf setup target fun id => !pool.feedback.isEligible source id
        else .ok pool) = .ok pool₁ ∧ pool.Kept setup pool₁ ∧ pool₁.feedback = pool.feedback ∧
          pool₁.dials.active = pool.dials.active := by
      by_cases watched : pool.feedback.watched
      · rw [if_pos watched]
        exact resetFront_kept inv _ fun d claim held => cancelIf_spec inv.sound held _
      · rw [if_neg watched]
        exact ⟨pool, rfl, .refl inv, rfl, rfl⟩
    rcases front with ⟨pool₁, run, kept, feedback, active⟩
    rcases Dials.poll_spec lawful kept.inv.dials kept.inv.sound now
      (pool₁.feedback.isEligible source) submit with
      ⟨opening, dials', members', run', joined, verdict⟩
    refine ⟨opening, { pool₁ with dials := dials', membership := members' }, ?_,
      kept.trans joined, reports_of_verdict pool₁.dials verdict (Joined.spent kept) active⟩
    simp only [Pool.poll, enabled, Bool.not_true, Bool.false_eq_true, if_false]
    by_cases watched : pool.feedback.watched
    · rw [if_pos watched] at run ⊢
      simp only [run, ok_bind, run']
    · rw [if_neg watched] at run ⊢
      cases run
      simp only [run', ok_bind]

theorem trySync_kept [DecidableEq I] (inv : pool.Inv setup) (snapshot : Snapshot I A N)
    (capacity : Nat) :
    ∃ result pool', pool.trySync setup snapshot capacity = .ok (result, pool') ∧
      pool.Kept setup pool' := by
  rcases tryApply_spec inv.sound snapshot with ⟨result, members', run, sound, aged⟩
  let applied : Pool I A O X n m := { pool with membership := members' }
  have kept : pool.Kept setup applied := ⟨inv.dials, sound, aged, id⟩
  simp only [Pool.trySync, run, ok_bind]
  cases result with
  | error error => exact ⟨_, applied, rfl, kept⟩
  | ok change =>
    cases authority : setup.authoritative with
    | false =>
      refine ⟨_, _, rfl, kept.trans ?_⟩
      by_cases retired : change.retired ≠ 0
      · rw [if_pos retired]
        have armed : (applied.arm capacity).Inv setup := ⟨inv.dials, sound⟩
        have fresh := refresh_kept armed
        exact fresh
      · rw [if_neg retired]
        exact refresh_kept kept.inv
    | true =>
      have front := resetFront_kept kept.inv (fun target => do
          let done ← applied.membership.cancel setup target
          .ok (some done.1, done.2)) fun d claim held => by
        rcases cancel_spec kept.inv.sound held with ⟨update, members'', run', sound', aged'⟩
        exact ⟨some update, members'', by rw [run']; rfl, aged', sound'⟩
      rcases front with ⟨pool', run', kept', -, -⟩
      simp only [if_true]
      rw [show applied.resetFront setup _ = _ from run']
      refine ⟨_, _, rfl, (kept.trans kept').trans ?_⟩
      by_cases retired : change.retired ≠ 0
      · rw [if_pos retired]
        have armed : (pool'.arm capacity).Inv setup := ⟨kept'.inv.dials, kept'.inv.sound⟩
        have fresh := refresh_kept armed
        exact fresh
      · rw [if_neg retired]
        exact refresh_kept kept'.inv

theorem attach_kept (inv : pool.Inv setup) (key : Id) (source : Source I) :
    ∃ connection pool', pool.attach setup key source = .ok (connection, pool') ∧
      pool.Kept setup pool' := by
  unfold Pool.attach
  cases located : pool.dials.connection key with
  | none => exact ⟨.stale, pool, rfl, .refl inv⟩
  | some entry =>
    rcases entry with ⟨d, target⟩
    rcases inv.dials.commit located target with ⟨held, -, -⟩
    rcases recover_spec inv.sound held (pool.feedback.isRetained source) with
      ⟨peer, members', run, aged, sound, reached⟩
    simp only [run, ok_bind]
    have kept : pool.Kept setup { pool with membership := members' } :=
      ⟨inv.dials, sound, aged, id⟩
    cases peer with
    | missing => exact ⟨.retired, _, rfl, kept⟩
    | disabled => exact ⟨.disabled, _, rfl, kept⟩
    | exhausted => exact ⟨.exhausted, _, rfl, kept⟩
    | ready target' output =>
      rcases inv.dials.commit located target' with ⟨-, inv', claims⟩
      have committed : pool.Kept setup { pool with
          membership := members'
          dials := pool.dials.commit d target' } :=
        ⟨inv', claims ▸ reached target' output rfl, aged, id⟩
      exact ⟨_, _, rfl, committed.trans (refresh_kept committed.inv)⟩

/-- A dial that settles leaves its claim, and its member settles with it. -/
theorem settled_kept {d : Fin m} {dials' : Dials (A × O) n m}
    {membership : Members I A n} {backoff : Backoff} (inv' : dials'.Inv)
    (claims : dials'.claims = Function.update pool.dials.claims d none)
    (spent : pool.dials.Spent → dials'.Spent)
    (sound : Sound setup.authoritative membership (Function.update pool.dials.claims d none))
    (aged : AgedAll pool.membership membership) :
    pool.Kept setup { pool with membership, backoff, dials := dials' } :=
  ⟨inv', claims ▸ sound, aged, spent⟩

section

variable (inv : pool.Inv setup)

include inv

theorem retiring_spec {d : Fin m} {claim : Claim n} (held : pool.dials.claims d = some claim)
    (reason : Reason X) (now : Nat) :
    ∃ update members' backoff' cause,
      (match reason.cause with
        | none => do
          let (update, members) ← pool.membership.cancel setup claim.target
          .ok (update, members, pool.backoff, none)
        | some next => do
          let (update, members, backoff) ←
            pool.membership.fail setup claim.target pool.backoff now
          .ok (update, members, backoff, if update = .applied then some next else none) :
          Except Fault (Update × Members I A n × Backoff × Option (Cause X))) =
        .ok (update, members', backoff', cause) ∧
      Sound setup.authoritative members' (Function.update pool.dials.claims d none) ∧
      AgedAll pool.membership members' := by
  cases reason.cause with
  | none =>
    rcases cancel_spec inv.sound held with ⟨update, members', run, sound, aged⟩
    exact ⟨update, members', pool.backoff, none, by simp [run], sound, aged⟩
  | some next =>
    rcases fail_spec inv.sound held pool.backoff now with
      ⟨update, members', backoff', run, sound, aged⟩
    refine ⟨update, members', backoff', if update = .applied then some next else none, ?_,
      sound, aged⟩
    simp only [run, ok_bind]

theorem retire_kept (key : Id) (reason : Reason X) (now : Nat) :
    ∃ cause pool', pool.retire setup key reason now = .ok (cause, pool') ∧
      pool.Kept setup pool' := by
  unfold Pool.retire
  rcases inv.dials.recycle key (pool.isPresent setup) _ with gone | ⟨d, claim, held, settles⟩
  · rw [gone]
    exact ⟨none, pool, rfl, .refl inv⟩
  · rcases retiring_spec inv held reason now with
      ⟨update, members', backoff', cause, run, sound, aged⟩
    rcases settles _ run with ⟨dials', run', inv', claims, spent⟩
    rw [run']
    have kept : pool.Kept setup { pool with
        membership := members'
        backoff := backoff'
        dials := dials' } := settled_kept inv' claims spent sound aged
    simp only [ok_bind]
    by_cases exhausted : update = .exhausted
    · rw [if_pos exhausted]
      rcases reject_kept kept.inv key .identity with ⟨pool', run'', kept', -, -⟩
      rw [run'']
      exact ⟨cause, pool', rfl, kept.trans kept'⟩
    · rw [if_neg exhausted]
      exact ⟨cause, _, rfl, kept⟩

theorem disconnect_kept (key : Id) (reason : Reason X) (now : Nat) :
    ∃ pool', pool.disconnect setup key reason now = .ok pool' ∧ pool.Kept setup pool' := by
  rcases retire_kept inv key reason now with ⟨cause, pool', run, kept⟩
  unfold Pool.disconnect
  rw [run, ok_bind]
  cases cause with
  | none => exact ⟨pool', rfl, kept⟩
  | some cause => exact ⟨_, rfl, kept⟩

theorem exhaust_kept (key : Id) (cause : Exhaustion) :
    ∃ update pool', pool.exhaust setup key cause = .ok (update, pool') ∧
      pool.Kept setup pool' := by
  unfold Pool.exhaust
  rcases inv.dials.close key with gone | ⟨d, claim, dials', held, run, inv', claims, spent⟩
  · rw [gone]
    exact ⟨none, pool, rfl, .refl inv⟩
  · rw [run]
    rcases cancel_spec inv.sound held with ⟨update, members', run', sound, aged⟩
    simp only [ok_bind, run']
    have kept : pool.Kept setup { pool with
        membership := members'
        dials := dials' } := settled_kept inv' claims spent sound aged
    rcases reject_kept kept.inv key cause with ⟨pool', run'', kept', -, -⟩
    rw [run'']
    exact ⟨_, pool', rfl, kept.trans kept'⟩

theorem failed_kept (key : Id) (cause : ConnectError X) (now : Nat) :
    ∃ update pool', pool.failed setup key cause now = .ok (update, pool') ∧
      pool.Kept setup pool' := by
  -- Every failure but a spent identity is recorded alike.
  have recycled : ∃ update pool', pool.failed setup key (.admission .full) now =
      .ok (update, pool') ∧ pool.Kept setup pool' := by
    unfold Pool.failed
    dsimp only
    rcases inv.dials.recycle key (pool.isPresent setup) _ with gone | ⟨d, claim, held, settles⟩
    · rw [gone]
      exact ⟨none, pool, rfl, .refl inv⟩
    · rcases fail_spec inv.sound held pool.backoff now with
        ⟨update, members', backoff', run, sound, aged⟩
      rcases settles _ run with ⟨dials', run', inv', claims, spent⟩
      rw [run']
      exact ⟨_, _, rfl, settled_kept inv' claims spent sound aged⟩
  cases cause with
  | other cause => exact recycled
  | admission error =>
    cases error with
    | full => exact recycled
    | identityExhausted => exact exhaust_kept inv key _

theorem fail_kept (key : Id) (cause : ConnectError X) (now : Nat) :
    ∃ pool', pool.fail setup key cause now = .ok pool' ∧ pool.Kept setup pool' := by
  rcases failed_kept inv key cause now with ⟨update, pool', run, kept⟩
  unfold Pool.fail
  simp only [run, ok_bind]
  by_cases applied : update = some .applied
  · rw [if_pos applied]
    exact ⟨_, rfl, kept⟩
  · rw [if_neg applied]
    exact ⟨pool', rfl, kept⟩

theorem rejected_kept (key : Id) (error : SubmitCause) :
    ∃ pool', pool.rejected setup key error = .ok pool' ∧ pool.Kept setup pool' := by
  unfold Pool.rejected
  split
  · rcases reject_kept inv key (.submission error) with ⟨pool', run, kept, -, -⟩
    exact ⟨pool', run, kept⟩
  · exact ⟨pool, rfl, .refl inv⟩

theorem kill_kept (key : Id) (cause : Option Exhaustion) :
    ∃ pool', pool.kill setup key cause = .ok pool' ∧ pool.Kept setup pool' := by
  unfold Pool.kill
  cases cause with
  | some cause =>
    rcases exhaust_kept inv key cause with ⟨update, pool', run, kept⟩
    simp only [run, ok_bind]
    exact ⟨pool', rfl, kept⟩
  | none =>
    dsimp only
    rcases inv.dials.close key with gone | ⟨d, claim, dials', held, run, inv', claims, spent⟩
    · rw [gone]
      exact ⟨_, rfl, refresh_kept inv⟩
    · rcases cancel_spec inv.sound held with ⟨update, members', run', sound, aged⟩
      have kept : pool.Kept setup { pool with
      membership := members'
      dials := dials' } := settled_kept inv' claims spent sound aged
      simp only [run, ok_bind, run']
      by_cases exhausted : update = .exhausted
      · rw [if_pos exhausted]
        rcases reject_kept kept.inv key .identity with ⟨pool', run'', kept', -, -⟩
        exact ⟨pool', run'', kept.trans kept'⟩
      · rw [if_neg exhausted]
        exact ⟨_, rfl, kept.trans (refresh_kept kept.inv)⟩

theorem setDemand_kept (source : Source I) (capacity : Nat) :
    pool.Kept setup (pool.setDemand setup source capacity) := by
  rcases setDemand_spec inv.sound source.demand with ⟨sound, aged⟩
  unfold Pool.setDemand
  -- Neither the feedback nor the sweep concerns the members.
  have demanded (feedback : Feedback X) (retirements : Option Sweep) :
      pool.Kept setup { pool with
        feedback
        retirements
        membership := (pool.membership.setDemand source.demand).2 } :=
    ⟨inv.dials, sound, aged, id⟩
  by_cases armed : (pool.feedback.isEnabled && !source.needed ||
      (pool.membership.setDemand source.demand).1) = true
  · simp only [armed, if_true]
    exact (demanded _ _).trans (refresh_kept (demanded _ _).inv)
  · simp only [armed]
    exact (demanded _ pool.retirements).trans (refresh_kept (demanded _ _).inv)

theorem isRetiredAt_kept (key : Id) (source : Source I) :
    pool.Kept setup (pool.isRetiredAt key source).2 := by
  unfold Pool.isRetiredAt
  cases pool.dials.activeMember key with
  | none => exact .refl inv
  | some member =>
    rcases isRetained_spec inv.sound member (pool.feedback.isRetained source) with ⟨sound, aged⟩
    dsimp only
    split
    · rcases inv.dials.resumeActive with ⟨inv', claims⟩
      exact ⟨inv', claims ▸ sound, aged, id⟩
    · exact ⟨inv.dials, sound, aged, id⟩

theorem nextRetirement_kept : pool.Kept setup pool.nextRetirement.2 := by
  unfold Pool.nextRetirement
  cases pool.retirements with
  | none => exact .refl inv
  | some sweep => exact ⟨inv.dials, inv.sound, .refl _, id⟩

end

end Pool

end Dope.Manifold.Service
