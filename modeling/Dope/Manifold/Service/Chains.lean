import Dope.Base.Links
import Dope.Manifold.Service.Applies
import Dope.Manifold.Service.Pool

/-! # Chains of dials

The dials that are ready are threaded once each, in the order in which they came;
the active count is the number of dials with a target; and each operation changes
what one dial claims.
-/

namespace Dope.Manifold.Service

open Dope.Round Dope.Run Dope.Tally

variable {I A O P E : Type} {n m : Nat} {dials : Dials P n m} {waiting : List (Fin m)}
  {d e : Fin m}

def Queue.chain : Queue P n m → Option (Chain m)
  | .opened chain => chain
  | .deferred held => some held.chain
  | .rejected _ => none

def Queue.isRejected : Queue P n m → Bool
  | .rejected _ => true
  | .opened _ | .deferred _ => false

/-- The target that was chosen for the front. -/
def Queue.claim (queue : Queue P n m) (d : Fin m) : Option (Claim n) :=
  match queue with
  | .deferred held => if held.chain.front = d then some ⟨held.target, false⟩ else none
  | .opened _ | .rejected _ => none

variable {dials' : Dials P n m}

namespace Dials

def claims (dials : Dials P n m) (d : Fin m) : Option (Claim n) :=
  match (dials.records d).state with
  | .submitted target => some ⟨target, false⟩
  | .connected target => some ⟨target, true⟩
  | .closed => none
  | .ready => dials.ready.claim d

def targets (dials : Dials P n m) (d : Fin m) : Option (Target n) := (dials.records d).state.target

/-- The chain of a queue is threaded through the dials that wait. -/
structure Threaded (dials : Dials P n m) (waiting : List (Fin m)) : Prop where
  nodup : waiting.Nodup
  empty : dials.ready.chain = none → waiting = []
  ends : ∀ chain, dials.ready.chain = some chain →
    waiting.head? = some chain.front ∧ waiting.getLast? = some chain.back
  next : ∀ d ∈ waiting, (dials.records d).next = Links.after d waiting
  ready : ∀ d ∈ waiting, (dials.records d).state = .ready

/-- Every ready dial waits in the chain, until the chain is given up. -/
def Chained (dials : Dials P n m) : Prop :=
  ∃ waiting, Threaded dials waiting ∧
    (dials.ready.isRejected = false → ∀ d, (dials.records d).state = .ready → d ∈ waiting)

structure Inv (dials : Dials P n m) : Prop where
  threaded : dials.Chained
  active : dials.active = tally (fun _ => True) dials.targets
  verdict : ∀ cause, dials.ready = .rejected (some cause) → dials.needsPoll = true →
    dials.active = 0

/-! ## One dial -/

@[simp] theorem setDial_self (d : Fin m) (dial : Dial n m) :
    (dials.setDial d dial).records d = dial := by
  simp [setDial]

@[simp] theorem setDial_of_ne (dial : Dial n m) (apart : e ≠ d) :
    (dials.setDial d dial).records e = dials.records e := by
  simp [setDial, apart]

theorem targets_setDial (dials : Dials P n m) (d : Fin m) (dial : Dial n m) :
    (dials.setDial d dial).targets = Function.update dials.targets d dial.state.target := by
  funext e
  by_cases same : e = d
  · subst same
    simp [targets]
  · simp [targets, same]

theorem claims_setDial (dials : Dials P n m) (d : Fin m) (dial : Dial n m)
    (settled : dial.state ≠ .ready) : (dials.setDial d dial).claims =
      Function.update dials.claims d (match dial.state with
        | .submitted target => some ⟨target, false⟩
        | .connected target => some ⟨target, true⟩
        | .ready | .closed => none) := by
  funext e
  by_cases same : e = d
  · subst same
    rw [Function.update_self, claims, setDial_self]
    cases state : dial.state with
    | ready => exact absurd state settled
    | submitted target | connected target | closed => rfl
  · rw [Function.update_of_ne same, claims, claims, setDial_of_ne _ same]
    rfl

theorem active_setDial (dials : Dials P n m) (d : Fin m) (dial : Dial n m) :
    tally (fun _ => True) (dials.setDial d dial).targets +
        unit (fun _ => True) (dials.records d).state.target =
      tally (fun _ => True) dials.targets + unit (fun _ => True) dial.state.target := by
  rw [targets_setDial]
  exact tally_update ..

section

variable (h : Threaded dials waiting)

include h

theorem Threaded.setDial (out : d ∉ waiting) (dial : Dial n m) :
    Threaded (dials.setDial d dial) waiting where
  nodup := h.nodup
  empty := h.empty
  ends := h.ends
  next e mem := by
    have apart : e ≠ d := fun same => out (same ▸ mem)
    rw [setDial_of_ne _ apart]
    exact h.next e mem
  ready e mem := by
    have apart : e ≠ d := fun same => out (same ▸ mem)
    rw [setDial_of_ne _ apart]
    exact h.ready e mem

theorem Threaded.congr (records : dials'.records = dials.records)
    (chain : dials'.ready.chain = dials.ready.chain) :
    Threaded dials' waiting where
  nodup := h.nodup
  empty := by rw [chain]; exact h.empty
  ends := by rw [chain]; exact h.ends
  next := by rw [records]; exact h.next
  ready := by rw [records]; exact h.ready

theorem Threaded.mem_back {chain : Chain m} (has : dials.ready.chain = some chain) :
    chain.back ∈ waiting :=
  List.mem_of_getLast? (h.ends chain has).2

theorem Threaded.mem_front {chain : Chain m} (has : dials.ready.chain = some chain) :
    chain.front ∈ waiting :=
  List.mem_of_mem_head? (h.ends chain has).1

theorem Threaded.link {chain : Chain m} (has : dials.ready.chain = some chain) (out : d ∉ waiting)
    (ready : (dials.records d).state = .ready) (next : (dials.records d).next = none)
    (records : dials'.records = (dials.setDial chain.back
      { dials.records chain.back with next := some d }).records)
    (has' : dials'.ready.chain = some { chain with back := d }) :
    Threaded dials' (waiting ++ [d]) := by
  rcases h.ends chain has with ⟨front, back⟩
  have apart : d ≠ chain.back := fun same => out (same ▸ h.mem_back has)
  refine ⟨?_, ?_, ?_, ?_, ?_⟩
  · exact h.nodup.append (List.nodup_singleton d) (by simpa using out)
  · intro none
    rw [has'] at none
    cases none
  · intro chain' same
    rw [has'] at same
    cases same
    refine ⟨?_, by simp⟩
    rw [List.head?_append, front]
    rfl
  · intro e mem
    rw [records]
    rcases List.mem_append.mp mem with mem | mem
    · rw [Links.after_append h.nodup mem, back]
      by_cases last : e = chain.back
      · rw [last, setDial_self, if_pos rfl]
      · rw [setDial_of_ne _ last, if_neg (fun same => last (Option.some.inj same).symm)]
        exact h.next e mem
    · rw [List.mem_singleton.mp mem, setDial_of_ne _ apart, next]
      exact (Links.after_last out).symm
  · intro e mem
    rw [records]
    rcases List.mem_append.mp mem with mem | mem
    · by_cases last : e = chain.back
      · rw [last, setDial_self]
        exact h.ready _ (h.mem_back has)
      · rw [setDial_of_ne _ last]
        exact h.ready e mem
    · rw [List.mem_singleton.mp mem, setDial_of_ne _ apart]
      exact ready

end

theorem Threaded.pushBack (h : Threaded dials waiting) (out : d ∉ waiting)
    (ready : (dials.records d).state = .ready) (next : (dials.records d).next = none)
    (opened : dials.ready.isRejected = false) : Threaded (dials.pushBack d) (waiting ++ [d]) := by
  unfold Dials.pushBack
  cases queue : dials.ready with
  | rejected cause =>
    rw [queue] at opened
    cases opened
  | deferred held =>
    have has : dials.ready.chain = some held.chain := by rw [queue]; rfl
    exact h.link has out ready next rfl rfl
  | opened chain =>
    cases chain with
    | some chain =>
      have has : dials.ready.chain = some chain := by rw [queue]; rfl
      exact h.link has out ready next rfl rfl
    | none =>
      have empty := h.empty (by rw [queue]; rfl)
      subst empty
      refine ⟨by simp, nofun, ?_, ?_, ?_⟩
      · intro chain same
        cases same
        exact ⟨rfl, rfl⟩
      · intro e mem
        rw [List.mem_singleton.mp mem]
        exact next.trans (Links.after_last out).symm
      · intro e mem
        rw [List.mem_singleton.mp mem]
        exact ready

theorem pushBack_state (dials : Dials P n m) (d e : Fin m) :
    ((dials.pushBack d).records e).state = (dials.records e).state := by
  -- Linking writes the successor of the back alone.
  have write (back : Fin m) :
      ((dials.setDial back { dials.records back with next := some d }).records e).state =
        (dials.records e).state := by
    by_cases same : e = back
    · rw [same, setDial_self]
    · rw [setDial_of_ne _ same]
  unfold Dials.pushBack
  cases dials.ready with
  | rejected cause => rfl
  | deferred held => exact write held.chain.back
  | opened chain =>
    cases chain with
    | none => rfl
    | some chain => exact write chain.back

theorem pushBack_claim (dials : Dials P n m) (d e : Fin m) :
    (dials.pushBack d).ready.claim e = dials.ready.claim e := by
  unfold Dials.pushBack
  cases queue : dials.ready with
  | rejected cause => simp [queue]
  | deferred held => rfl
  | opened chain =>
    cases chain with
    | none | some => rfl

theorem pushBack_isRejected (dials : Dials P n m) (d : Fin m) :
    (dials.pushBack d).ready.isRejected = dials.ready.isRejected := by
  unfold Dials.pushBack
  cases queue : dials.ready with
  | rejected cause => simp [queue]
  | deferred held => rfl
  | opened chain =>
    cases chain with
    | none | some => rfl

theorem pushBack_active (dials : Dials P n m) (d : Fin m) :
    (dials.pushBack d).active = dials.active := by
  unfold Dials.pushBack
  cases dials.ready with
  | rejected | deferred => rfl
  | opened chain =>
    cases chain with
    | none | some => rfl

theorem targets_congr (same : ∀ d, (dials'.records d).state = (dials.records d).state) :
    dials'.targets = dials.targets := by
  funext d
  rw [targets, targets, same]

theorem claims_congr (same : ∀ d, (dials'.records d).state = (dials.records d).state)
    (claim : ∀ d, dials'.ready.claim d = dials.ready.claim d) : dials'.claims = dials.claims := by
  funext d
  rw [claims, claims, same, claim]

theorem Chained.congr (h : dials.Chained) (records : dials'.records = dials.records)
    (ready : dials'.ready = dials.ready) : dials'.Chained := by
  rcases h with ⟨waiting, threaded, whole⟩
  refine ⟨waiting, threaded.congr records (by rw [ready]), ?_⟩
  rw [records, ready]
  exact whole

/-! ## Verdicts -/

/-- The failure of the pool was reported. -/
def Spent (dials : Dials P n m) : Prop := dials.ready = .rejected none

/-- A refresh sets the demand alone, or rejects a depleted pool that is idle. -/
theorem refresh_cases (dials : Dials P n m) (present : Bool) :
    (∃ needsPoll, dials.refresh present = { dials with needsPoll } ∧
      ∀ cause, dials.ready = .rejected (some cause) → needsPoll = true → dials.active = 0) ∨
    ∃ key, dials.ready = .opened none ∧ dials.active = 0 ∧ dials.refresh present =
      { dials with ready := .rejected (some (key, .identity)), needsPoll := true } := by
  rcases dials with ⟨records, ready, active, depleted, polls⟩
  cases ready with
  | rejected cause =>
    refine .inl ⟨_, rfl, ?_⟩
    intro cause' same needs
    cases same
    simpa using needs
  | deferred held => exact .inl ⟨_, rfl, nofun⟩
  | opened chain =>
    cases chain with
    | some chain => exact .inl ⟨_, rfl, nofun⟩
    | none =>
      cases depleted with
      | none => exact .inl ⟨_, rfl, nofun⟩
      | some key =>
        by_cases idle : active = 0
        · exact .inr ⟨key, rfl, idle, by simp [Dials.refresh, idle]⟩
        · exact .inl ⟨false, by simp [Dials.refresh, idle], nofun⟩

@[simp] theorem refresh_active (dials : Dials P n m) (present : Bool) :
    (dials.refresh present).active = dials.active := by
  rcases refresh_cases dials present with ⟨needsPoll, same, -⟩ | ⟨key, -, -, same⟩
  · rw [same]
  · rw [same]

/-- Demand is refreshed, and a depleted pool is rejected once nothing is active. -/
theorem refresh_spec (present : Bool) (threaded : dials.Chained)
    (active : dials.active = tally (fun _ => True) dials.targets) :
    (dials.refresh present).Inv ∧ (dials.refresh present).claims = dials.claims ∧
      (dials.Spent → (dials.refresh present).Spent) := by
  rcases threaded with ⟨waiting, threaded, whole⟩
  rcases refresh_cases dials present with ⟨needsPoll, same, verdict⟩ | ⟨key, queue, idle, same⟩
  · rw [same]
    exact ⟨⟨⟨waiting, threaded.congr rfl rfl, whole⟩, active, verdict⟩,
      claims_congr (fun _ => rfl) (fun _ => rfl), id⟩
  · have empty := threaded.empty (by rw [queue]; rfl)
    subst empty
    rw [same]
    refine ⟨⟨⟨[], ⟨List.nodup_nil, fun _ => rfl, nofun, by simp, by simp⟩, nofun⟩, active,
      fun _ _ _ => idle⟩, claims_congr (fun _ => rfl) ?_, ?_⟩
    · intro d
      rw [queue]
      rfl
    · intro spent
      rw [Spent, queue] at spent
      cases spent

theorem Inv.refresh (h : dials.Inv) (present : Bool) :
    (dials.refresh present).Inv ∧ (dials.refresh present).claims = dials.claims ∧
      (dials.Spent → (dials.refresh present).Spent) :=
  refresh_spec present h.threaded h.active

/-- The queue without its chain. -/
def giveUp (dials : Dials P n m) (cause : Option (Id × Exhaustion)) : Dials P n m :=
  { dials with ready := .rejected cause }

/-- A pool that gives its chain up keeps its active dials. -/
theorem giveUp_spec (dials : Dials P n m) (cause : Option (Id × Exhaustion))
    (active : dials.active = tally (fun _ => True) dials.targets) :
    ((dials.giveUp cause).refresh false).Inv ∧
      ((dials.giveUp cause).refresh false).claims = (dials.giveUp none).claims := by
  have nowhere : (dials.giveUp cause).Chained :=
    ⟨[], ⟨List.nodup_nil, fun _ => rfl, nofun, by simp, by simp⟩, nofun⟩
  rcases refresh_spec false nowhere active with ⟨inv, claims, -⟩
  exact ⟨inv, claims.trans (claims_congr (fun _ => rfl) (fun _ => rfl))⟩

theorem Inv.resumeActive (h : dials.Inv) :
    dials.resumeActive.Inv ∧ dials.resumeActive.claims = dials.claims := by
  rcases h.threaded with ⟨waiting, threaded, whole⟩
  refine ⟨⟨⟨waiting, threaded.congr rfl rfl, whole⟩, h.active, ?_⟩,
    claims_congr (fun _ => rfl) (fun _ => rfl)⟩
  intro cause rejected polls
  have rejected : dials.ready = .rejected (some cause) := rejected
  simp [Dials.resumeActive, rejected] at polls

/-- A verdict is taken once, and only while no dial is active. -/
theorem Inv.terminal (h : dials.Inv) (E : Type) :
    (dials.terminal E).2.Inv ∧ (dials.terminal E).2.claims = dials.claims ∧
      (dials.Spent → (dials.terminal E).2.Spent) ∧
      ((dials.terminal E).1.report = [] ∨
        ¬dials.Spent ∧ (dials.terminal E).2.Spent ∧ dials.active = 0 ∧
          (dials.terminal E).2.active = 0 ∧
          ∃ attempt error, (dials.terminal E).1 = .failed attempt (.ofExhaustion error)) := by
  rcases h with ⟨⟨waiting, threaded, whole⟩, active, verdict⟩
  rcases dials with ⟨records, ready, count, depleted, polls⟩
  cases ready with
  | opened | deferred => exact ⟨⟨⟨waiting, threaded, whole⟩, active, verdict⟩, rfl, id, .inl rfl⟩
  | rejected cause =>
    have nowhere : (⟨records, .rejected none, count, depleted, false⟩ : Dials P n m).Chained :=
      ⟨[], ⟨List.nodup_nil, fun _ => rfl, nofun, by simp, by simp⟩, nofun⟩
    cases polls with
    | false => exact ⟨⟨⟨waiting, threaded, whole⟩, active, verdict⟩, rfl, id, .inl rfl⟩
    | true =>
      cases cause with
      | none => exact ⟨⟨nowhere, active, nofun⟩, claims_congr (fun _ => rfl) (fun _ => rfl), id,
          .inl rfl⟩
      | some cause =>
        have idle : count = 0 := verdict cause rfl rfl
        exact ⟨⟨nowhere, active, nofun⟩, claims_congr (fun _ => rfl) (fun _ => rfl), nofun,
          .inr ⟨nofun, rfl, idle, idle, _, _, rfl⟩⟩

/-! ## Active dials -/

variable {setup : Setup O n} {target : Target n}

/-- An active dial claims its target, and does not wait. -/
theorem claims_of_target (held : (dials.records d).state.target = some target) :
    ∃ claim, dials.claims d = some claim ∧ claim.target = target := by
  unfold claims
  cases state : (dials.records d).state with
  | ready | closed =>
    rw [state] at held
    cases held
  | submitted target' =>
    rw [state] at held
    cases held
    exact ⟨_, rfl, rfl⟩
  | connected target' =>
    rw [state] at held
    cases held
    exact ⟨_, rfl, rfl⟩

theorem Threaded.not_mem_of_target (h : Threaded dials waiting)
    (held : (dials.records d).state.target = some target) : d ∉ waiting := by
  intro mem
  rw [h.ready d mem] at held
  cases held

theorem Inv.active_succ (h : dials.Inv) (held : (dials.records d).state.target = some target) :
    ∃ active, dials.active = active + 1 := by
  have positive : 0 < tally (fun _ => True) dials.targets := tally_pos held trivial
  rw [← h.active] at positive
  exact Nat.exists_eq_succ_of_ne_zero positive.ne'

theorem Inv.count_drop (h : dials.Inv) (held : (dials.records d).state.target = some target)
    {active : Nat} (count : dials.active = active + 1) (dial : Dial n m)
    (free : dial.state.target = none) :
    active = tally (fun _ => True) (dials.setDial d dial).targets := by
  have counted := active_setDial dials d dial
  rw [held, free, unit_some, unit_none, if_pos trivial, ← h.active, count] at counted
  omega

theorem Chained.setDial (h : dials.Chained) (held : (dials.records d).state.target = some target)
    (dial : Dial n m) (settled : dial.state ≠ .ready) : (dials.setDial d dial).Chained := by
  rcases h with ⟨waiting, threaded, whole⟩
  refine ⟨waiting, threaded.setDial (threaded.not_mem_of_target held) _, ?_⟩
  intro opened e ready
  by_cases same : e = d
  · subst same
    rw [setDial_self] at ready
    exact absurd ready settled
  · rw [setDial_of_ne _ same] at ready
    exact whole opened e ready

/-- A dial without a target is linked again, under its next generation. -/
theorem Chained.pushBack (h : dials.Chained)
    (held : (dials.records d).state.target = some target) (opened : dials.ready.isRejected = false)
    (generation : Nat) : ((dials.setDial d ⟨generation, none, .ready⟩).pushBack d).Chained := by
  rcases h with ⟨waiting, threaded, whole⟩
  have out := threaded.not_mem_of_target held
  refine ⟨waiting ++ [d], (threaded.setDial out _).pushBack out (by simp) (by simp) opened, ?_⟩
  intro _ e ready
  rw [pushBack_state] at ready
  by_cases same : e = d
  · simp [same]
  · rw [setDial_of_ne _ same] at ready
    exact List.mem_append_left _ (whole opened e ready)

theorem claims_pushBack (h : dials.Chained)
    (held : (dials.records d).state.target = some target) (generation : Nat) :
    ((dials.setDial d ⟨generation, none, .ready⟩).pushBack d).claims =
      Function.update dials.claims d none := by
  rcases h with ⟨waiting, threaded, -⟩
  have out := threaded.not_mem_of_target held
  funext e
  rw [claims, pushBack_state, pushBack_claim]
  by_cases same : e = d
  · subst same
    rw [setDial_self, Function.update_self]
    show dials.ready.claim e = none
    cases queue : dials.ready with
    | opened chain | rejected cause => rfl
    | deferred deferred =>
      have front : deferred.chain.front ∈ waiting := threaded.mem_front (by rw [queue]; rfl)
      refine if_neg ?_
      intro equal
      rw [equal] at front
      exact out front
  · rw [setDial_of_ne _ same, Function.update_of_ne same]
    rfl

theorem requeue_rejected (setup : Setup O n) (dials : Dials P n m) (d : Fin m) (present : Bool)
    (rejected : dials.ready.isRejected = true) : dials.requeue setup d present =
      (dials.setDial d { dials.records d with state := .closed }).refresh present := by
  rcases dials with ⟨records, ready, active, depleted, polls⟩
  cases ready with
  | opened chain | deferred held => cases rejected
  | rejected cause => rfl

theorem requeue_opened (setup : Setup O n) (dials : Dials P n m) (d : Fin m) (present : Bool)
    (opened : dials.ready.isRejected = false) : dials.requeue setup d present =
      if (dials.records d).generation < setup.dialLast then
        ((dials.setDial d ⟨(dials.records d).generation + 1, none, .ready⟩).pushBack d).refresh
          present
      else
        { dials.setDial d { dials.records d with state := .closed } with
          depleted := some (dials.idOf d) }.refresh present := by
  rcases dials with ⟨records, ready, active, depleted, polls⟩
  cases ready with
  | opened chain | deferred held => rfl
  | rejected cause => cases opened

/-- A terminal attempt frees its dial, which waits again or is closed. -/
theorem Inv.requeue (h : dials.Inv) (held : (dials.records d).state.target = some target)
    {active : Nat} (count : dials.active = active + 1) (present : Bool) :
    (Dials.requeue setup { dials with active } d present).Inv ∧
      (Dials.requeue setup { dials with active } d present).claims =
        Function.update dials.claims d none ∧
      (dials.Spent → (Dials.requeue setup { dials with active } d present).Spent) := by
  -- The dial is closed, and perhaps the last of its generations is noted.
  have closes (depleted : Option Id) :
      let closed : Dials P n m := { dials.setDial d { dials.records d with state := .closed } with
        active, depleted }
      (closed.refresh present).Inv ∧
        (closed.refresh present).claims = Function.update dials.claims d none ∧
        (dials.Spent → (closed.refresh present).Spent) := by
    intro closed
    have chained : closed.Chained :=
      (h.threaded.setDial held { dials.records d with state := .closed } nofun).congr rfl rfl
    rcases refresh_spec present chained (h.count_drop held count _ rfl) with ⟨inv, claims, spent⟩
    refine ⟨inv, ?_, spent⟩
    exact claims.trans ((claims_congr (fun _ => rfl) (fun _ => rfl)).trans
      (claims_setDial dials d { dials.records d with state := .closed } nofun))
  have waits (opened : dials.ready.isRejected = false) :
      let pushed : Dials P n m := Dials.pushBack
        (Dials.setDial { dials with active } d ⟨(dials.records d).generation + 1, none, .ready⟩) d
      (pushed.refresh present).Inv ∧
        (pushed.refresh present).claims = Function.update dials.claims d none := by
    intro pushed
    have chained : pushed.Chained :=
      @Chained.pushBack _ _ _ { dials with active } d target (h.threaded.congr rfl rfl) held opened _
    have counted : pushed.active = tally (fun _ => True) pushed.targets := by
      rw [targets_congr (pushBack_state _ d), pushBack_active]
      exact h.count_drop held count ⟨(dials.records d).generation + 1, none, .ready⟩ rfl
    rcases refresh_spec present chained counted with ⟨inv, claims, -⟩
    refine ⟨inv, claims.trans ?_⟩
    exact @claims_pushBack _ _ _ { dials with active } d target (h.threaded.congr rfl rfl) held _
  cases rejected : dials.ready.isRejected with
  | true =>
    rw [requeue_rejected setup { dials with active } d present rejected]
    exact closes dials.depleted
  | false =>
    rw [requeue_opened setup { dials with active } d present rejected]
    by_cases left : (dials.records d).generation < setup.dialLast
    · rw [if_pos left]
      rcases waits rejected with ⟨inv, claims⟩
      refine ⟨inv, claims, ?_⟩
      intro spent
      rw [spent] at rejected
      cases rejected
    · rw [if_neg left]
      exact closes (some (dials.idOf d))

theorem Inv.recycle {β : Type} (h : dials.Inv) (key : Id) (present : Bool)
    (update : Target n → Except Fault β) :
    dials.recycle setup key present update = .ok none ∨
      ∃ d claim, dials.claims d = some claim ∧
        ∀ output, update claim.target = .ok output →
          ∃ dials', dials.recycle setup key present update = .ok (some (output, dials')) ∧
            dials'.Inv ∧ dials'.claims = Function.update dials.claims d none ∧
            (dials.Spent → dials'.Spent) := by
  unfold Dials.recycle
  cases located : dials.get key with
  | none => exact .inl rfl
  | some d =>
    cases held : (dials.records d).state.target with
    | none => exact .inl (by simp [held])
    | some target =>
      rcases h.active_succ held with ⟨active, count⟩
      rcases claims_of_target held with ⟨claim, claimed, rfl⟩
      refine .inr ⟨d, claim, claimed, ?_⟩
      intro output run
      simp only [held, run, ok_bind, count]
      exact ⟨_, rfl, h.requeue held count present⟩

/-- A dial is closed, and its claim is handed to its caller. -/
theorem Inv.close (h : dials.Inv) (key : Id) :
    dials.close key = .ok none ∨
      ∃ d claim dials', dials.claims d = some claim ∧
        dials.close key = .ok (some (claim.target, dials')) ∧ dials'.Inv ∧
        dials'.claims = Function.update dials.claims d none ∧
        (dials.Spent → dials'.Spent) := by
  unfold Dials.close
  cases located : dials.get key with
  | none => exact .inl rfl
  | some d =>
    cases held : (dials.records d).state.target with
    | none => exact .inl (by simp [held])
    | some target =>
      rcases h.active_succ held with ⟨active, count⟩
      rcases claims_of_target held with ⟨claim, claimed, rfl⟩
      simp only [held, count]
      refine .inr ⟨d, claim, _, claimed, rfl, ⟨?_, ?_, ?_⟩, ?_, id⟩
      · exact (h.threaded.setDial held { dials.records d with state := .closed } nofun).congr
          rfl rfl
      · exact h.count_drop held count { dials.records d with state := .closed } rfl
      · -- A verdict that is due has no active dial left.
        intro cause rejected polls
        have idle := h.verdict cause rejected polls
        omega
      · exact (claims_congr (fun _ => rfl) (fun _ => rfl)).trans
          (claims_setDial dials d { dials.records d with state := .closed } nofun)

theorem Inv.commit (h : dials.Inv) {key : Id} (found : dials.connection key = some (d, target))
    (target' : Target n) :
    dials.claims d = some ⟨target, false⟩ ∧ (dials.commit d target').Inv ∧
      (dials.commit d target').claims =
        Function.update dials.claims d (some ⟨target', true⟩) := by
  have submitted : (dials.records d).state = .submitted target := by
    unfold Dials.connection at found
    rcases Option.bind_eq_some_iff.mp found with ⟨e, -, here⟩
    cases state : (dials.records e).state with
    | submitted other =>
      simp only [state, Option.some.injEq, Prod.mk.injEq] at here
      rcases here with ⟨rfl, rfl⟩
      exact state
    | ready | connected other | closed => simp [state] at here
  have held : (dials.records d).state.target = some target := by rw [submitted]; rfl
  refine ⟨by rw [claims, submitted], ⟨?_, ?_, h.verdict⟩, ?_⟩
  · exact h.threaded.setDial held _ nofun
  · have counted := active_setDial dials d { dials.records d with state := .connected target' }
    rw [held, unit_some, ← h.active] at counted
    exact (Nat.add_right_cancel counted).symm
  · exact claims_setDial dials d { dials.records d with state := .connected target' } nofun

end Dials

end Dope.Manifold.Service
