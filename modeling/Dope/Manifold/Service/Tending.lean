import Dope.Manifold.Service.Tends

/-! # What the pool leaves alone

Every operation of the dials and of the pool but a snapshot tends the members.
-/

namespace Dope.Manifold.Service

open Dope.Round Dope.Run

variable {I A O P X E : Type} {n m N : Nat} {setup : Setup O n} {members members' : Members I A n}

/-! ## Dials -/

variable {key : Id} {opening : Opening E} {cause : Exhaustion} {now : Nat}

namespace Dials

variable {dials dials' : Dials P n m}

theorem reject_tends (faithful : Faithful setup.authoritative members)
    (run : dials.reject setup members key cause = .ok (dials', members')) :
    Tends false members members' := by
  unfold Dials.reject at run
  cases queue : dials.ready with
  | rejected before =>
    simp only [queue] at run
    cases run
    exact .refl _ _
  | opened chain =>
    simp only [queue] at run
    cases run
    exact .refl _ _
  | deferred held =>
    simp only [queue] at run
    rcases bind_ok.mp run with ⟨⟨update, cancelled⟩, cancels, finish⟩
    cases finish
    exact cancel_tends faithful cancels

theorem resetFront_tends {removed : Target n → Except Fault (Option Update × Members I A n)}
    {exhausted : Option Id}
    (tends : ∀ target update members', removed target = .ok (update, members') →
      Tends false members members')
    (run : dials.resetFront members removed = .ok (exhausted, dials', members')) :
    Tends false members members' := by
  unfold Dials.resetFront at run
  cases queue : dials.ready with
  | rejected before =>
    simp only [queue] at run
    cases run
    exact .refl _ _
  | opened chain =>
    simp only [queue] at run
    cases run
    exact .refl _ _
  | deferred held =>
    simp only [queue] at run
    rcases bind_ok.mp run with ⟨⟨update, after⟩, removes, finish⟩
    have kept := tends _ _ _ removes
    cases update with
    | none =>
      cases finish
      exact kept
    | some update =>
      cases finish
      exact kept

theorem dispatch_tends {present : Bool} {chain : Chain m} {target : Target n} {plan : P}
    {submit : Id → P → Attempt P E} (faithful : Faithful setup.authoritative members)
    (run : dials.dispatch setup members present chain target plan submit = .ok (opening, dials',
      members')) : Tends false members members' := by
  unfold Dials.dispatch at run
  dsimp only at run
  cases answer : submit (dials.idOf chain.front) plan with
  | submitted =>
    rw [answer] at run
    cases run
    exact .refl _ _
  | deferred cause plan' =>
    rw [answer] at run
    cases run
    exact .refl _ _
  | failed error =>
    simp only [answer] at run
    rcases bind_ok.mp run with ⟨⟨update, cancelled⟩, cancels, finish⟩
    have tends := cancel_tends faithful cancels
    cases wire : error.intoWire with
    | ok cause =>
      simp only [wire] at finish
      cases finish
      exact tends
    | error cause =>
      simp only [wire] at finish
      rcases bind_ok.mp finish with ⟨⟨rejected, after⟩, rejects, done⟩
      cases done
      exact tends.trans (reject_tends (tends.faithful faithful) rejects)

theorem poll_tends {dials dials' : Dials (A × O) n m} {eligible : I → Bool}
    {submit : Id → A × O → Attempt (A × O) E} (faithful : Faithful setup.authoritative members)
    (run : dials.poll setup members now eligible submit = .ok (opening, dials', members')) :
    Tends false members members' := by
  unfold Dials.poll at run
  cases queue : dials.ready with
  | rejected cause =>
    simp only [queue] at run
    cases run
    exact .refl _ _
  | deferred held =>
    simp only [queue] at run
    exact dispatch_tends faithful run
  | opened chain =>
    cases chain with
    | none =>
      simp only [queue] at run
      cases run
      exact .refl _ _
    | some chain =>
      simp only [queue] at run
      rcases bind_ok.mp run with ⟨⟨selection, chosen⟩, chooses, finish⟩
      have tends := choose_tends chooses
      cases selection with
      | ready target addr =>
        exact tends.trans (dispatch_tends (tends.faithful faithful) finish)
      | idle =>
        cases finish
        exact tends
      | backoff due =>
        cases finish
        exact tends
      | exhausted =>
        rcases bind_ok.mp finish with ⟨⟨rejected, after⟩, rejects, done⟩
        cases done
        exact tends.trans (reject_tends (tends.faithful faithful) rejects)

theorem recycle_update {β : Type} {present : Bool} {update : Target n → Except Fault β}
    {output : β} (run : dials.recycle setup key present update = .ok (some (output, dials'))) :
    ∃ target, update target = .ok output := by
  unfold Dials.recycle at run
  split at run
  · cases run
  · split at run
    · cases run
    · rename_i target held
      rcases bind_ok.mp run with ⟨output', updates, finish⟩
      split at finish
      · cases finish
      · cases finish
        exact ⟨target, updates⟩

end Dials

/-! ## The pool -/

namespace Pool

variable {pool pool' : Pool I A O X n m}

/-- The members of a pool are tended. -/
def Tended (recovers : Bool) (pool pool' : Pool I A O X n m) : Prop :=
  Tends recovers pool.membership pool'.membership

section

variable (faithful : Faithful setup.authoritative pool.membership)

include faithful

theorem reject_tended (run : pool.reject setup key cause = .ok pool') :
    Tended false pool pool' := by
  rcases bind_ok.mp run with ⟨⟨dials, members⟩, rejects, finish⟩
  cases finish
  exact Dials.reject_tends faithful rejects

theorem resetFront_tended {removed : Target n → Except Fault (Option Update × Members I A n)}
    (tends : ∀ target update members', removed target = .ok (update, members') → Tends false
      pool.membership members') (run : pool.resetFront setup removed = .ok pool') :
    Tended false pool pool' := by
  rcases bind_ok.mp run with ⟨⟨exhausted, dials, members⟩, resets, finish⟩
  have kept := Dials.resetFront_tends tends resets
  cases exhausted with
  | none =>
    cases finish
    exact kept
  | some key => exact kept.trans (reject_tended (kept.faithful faithful) finish)

theorem poll_tended {source : Source I} {submit : Id → A × O → Attempt (A × O) E}
    (run : pool.poll setup now source submit = .ok (opening, pool')) : Tended false pool pool' := by
  unfold Pool.poll at run
  split at run
  · cases run
    exact .refl _ _
  · by_cases watched : pool.feedback.watched = true
    · simp only [watched, if_true] at run
      rcases bind_ok.mp run with ⟨reset, resets, rest⟩
      have kept := resetFront_tended faithful
        (fun _ _ _ cancels => cancelIf_tends faithful cancels) resets
      rcases bind_ok.mp rest with ⟨⟨opening', dials, members⟩, polls, finish⟩
      cases finish
      exact kept.trans (Dials.poll_tends (kept.faithful faithful) polls)
    · simp only [watched] at run
      rcases bind_ok.mp run with ⟨reset, resets, rest⟩
      cases resets
      rcases bind_ok.mp rest with ⟨⟨opening', dials, members⟩, polls, finish⟩
      cases finish
      exact Dials.poll_tends faithful polls

end

theorem attach_tended {source : Source I} {connection : Connection I}
    (run : pool.attach setup key source = .ok (connection, pool')) : Tended true pool pool' := by
  unfold Pool.attach at run
  split at run
  · cases run
    exact .refl _ _
  · rcases bind_ok.mp run with ⟨⟨peer, members⟩, recovers, finish⟩
    have tends := recover_tends recovers
    cases peer with
    | ready target output =>
      cases finish
      exact tends
    | missing | disabled | exhausted =>
      cases finish
      exact tends

section

variable (faithful : Faithful setup.authoritative pool.membership)

include faithful

theorem retire_tended {reason : Reason X} {cause : Option (Cause X)}
    (run : pool.retire setup key reason now = .ok (cause, pool')) : Tended false pool pool' := by
  unfold Pool.retire at run
  rcases bind_ok.mp run with ⟨outcome, recycles, finish⟩
  cases outcome with
  | none =>
    cases finish
    exact .refl _ _
  | some outcome =>
    rcases outcome with ⟨⟨update, members, backoff, cause'⟩, dials⟩
    rcases Dials.recycle_update recycles with ⟨target, updates⟩
    have tends : Tends false pool.membership members := by
      cases concerned : reason.cause with
      | none =>
        rw [concerned] at updates
        rcases bind_ok.mp updates with ⟨⟨update', members'⟩, cancels, done⟩
        cases done
        exact cancel_tends faithful cancels
      | some next =>
        rw [concerned] at updates
        rcases bind_ok.mp updates with ⟨⟨update', members', backoff'⟩, fails, done⟩
        cases done
        exact fail_tends faithful fails
    dsimp only at finish
    split at finish
    · rcases bind_ok.mp finish with ⟨rejected, rejects, done⟩
      cases done
      have rejected := reject_tended (tends.faithful faithful) rejects
      exact tends.trans rejected
    · cases finish
      exact tends

theorem exhaust_tended {update : Option Update}
    (run : pool.exhaust setup key cause = .ok (update, pool')) : Tended false pool pool' := by
  unfold Pool.exhaust at run
  rcases bind_ok.mp run with ⟨closed, closes, finish⟩
  cases closed with
  | none =>
    cases finish
    exact .refl _ _
  | some closed =>
    rcases closed with ⟨target, dials⟩
    rcases bind_ok.mp finish with ⟨⟨update', members⟩, cancels, rest⟩
    rcases bind_ok.mp rest with ⟨rejected, rejects, done⟩
    cases done
    have tends := cancel_tends faithful cancels
    have rejected := reject_tended (tends.faithful faithful) rejects
    exact tends.trans rejected

theorem failed_tended {cause : ConnectError X} {update : Option Update}
    (run : pool.failed setup key cause now = .ok (update, pool')) : Tended false pool pool' := by
  have recycled : pool.failed setup key (.admission .full) now = .ok (update, pool') →
      Tended false pool pool' := by
    intro run
    unfold Pool.failed at run
    dsimp only at run
    rcases bind_ok.mp run with ⟨outcome, recycles, finish⟩
    cases outcome with
    | none =>
      cases finish
      exact .refl _ _
    | some outcome =>
      rcases Dials.recycle_update recycles with ⟨target, updates⟩
      cases finish
      exact fail_tends faithful updates
  cases cause with
  | other cause => exact recycled run
  | admission error =>
    cases error with
    | full => exact recycled run
    | identityExhausted => exact exhaust_tended faithful run

theorem kill_tended {cause : Option Exhaustion} (run : pool.kill setup key cause = .ok pool') :
    Tended false pool pool' := by
  unfold Pool.kill at run
  cases cause with
  | some cause =>
    rcases bind_ok.mp run with ⟨⟨update, exhausted⟩, exhausts, done⟩
    cases done
    exact exhaust_tended faithful exhausts
  | none =>
    rcases bind_ok.mp run with ⟨closed, closes, finish⟩
    cases closed with
    | none =>
      cases finish
      exact .refl _ _
    | some closed =>
      rcases closed with ⟨target, dials⟩
      rcases bind_ok.mp finish with ⟨⟨update, members⟩, cancels, rest⟩
      have tends := cancel_tends faithful cancels
      dsimp only at rest
      split at rest
      · have rejected := reject_tended (tends.faithful faithful) rest
        exact tends.trans rejected
      · cases rest
        exact tends

end

end Pool

end Dope.Manifold.Service
