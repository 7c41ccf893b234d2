import Dope.Manifold.Service.Chains

/-! # Dials and members together

What the dials claim is what the members count, through every operation of the pool.
-/

namespace Dope.Manifold.Service

open Dope.Round Dope.Run Dope.Tally

variable {I A O P X E : Type} {n m N : Nat} {setup : Setup O n} {dials dials' : Dials P n m}
  {members members' : Members I A n}

/-- The dials keep their chain, and the members what the dials claim. -/
structure Joined (setup : Setup O n) (dials dials' : Dials P n m) (members members' : Members I A n) :
    Prop where
  inv : dials'.Inv
  sound : Sound setup.authoritative members' dials'.claims
  aged : AgedAll members members'
  spent : dials.Spent → dials'.Spent

theorem Joined.refl (inv : dials.Inv) (sound : Sound setup.authoritative members dials.claims) :
    Joined setup dials dials members members :=
  ⟨inv, sound, .refl _, id⟩

theorem Joined.trans {dials'' : Dials P n m} {members'' : Members I A n}
    (h : Joined setup dials dials' members members')
    (h' : Joined setup dials' dials'' members' members'') :
    Joined setup dials dials'' members members'' :=
  ⟨h'.inv, h'.sound, h.aged.trans h'.aged, fun spent => h'.spent (h.spent spent)⟩

/-- What an opening reports: nothing, an exhaustion while no dial is active, or a wire
failure; and the pool reports no more. -/
def Verdict (dials dials' : Dials P n m) (opening : Opening E) : Prop :=
  opening.report = [] ∨ ¬dials.Spent ∧ dials'.Spent ∧
    ((dials.active = 0 ∧ ∃ attempt error, opening = .failed attempt (.ofExhaustion error)) ∨
      ∃ attempt cause, opening = .failed attempt (.wire cause))

namespace Dials

/-! ## The front -/

theorem Chained.front (h : dials.Chained) {held : Held P n m} (queue : dials.ready = .deferred held) :
    dials.claims held.chain.front = some ⟨held.target, false⟩ := by
  rcases h with ⟨waiting, threaded, -⟩
  have mem : held.chain.front ∈ waiting := threaded.mem_front (by rw [queue]; rfl)
  rw [claims, threaded.ready _ mem, queue]
  exact if_pos rfl

theorem Chained.claims_unfront (h : dials.Chained) {held : Held P n m}
    (queue : dials.ready = .deferred held)
    (states : ∀ d, (dials'.records d).state = (dials.records d).state)
    (free : ∀ d, dials'.ready.claim d = none) :
    dials'.claims = Function.update dials.claims held.chain.front none := by
  rcases h with ⟨waiting, threaded, -⟩
  have mem : held.chain.front ∈ waiting := threaded.mem_front (by rw [queue]; rfl)
  funext d
  by_cases same : d = held.chain.front
  · rw [same, Function.update_self, claims, states, threaded.ready _ mem]
    exact free _
  · rw [Function.update_of_ne same, claims, claims, states, free, queue]
    cases (dials.records d).state with
    | submitted target | connected target | closed => rfl
    | ready => exact (if_neg fun equal => same equal.symm).symm

/-- Nothing is claimed for the front of an open queue. -/
theorem claims_opened {chain : Option (Chain m)} (queue : dials.ready = .opened chain)
    (states : ∀ d, (dials'.records d).state = (dials.records d).state)
    (free : ∀ d, dials'.ready.claim d = none) : dials'.claims = dials.claims := by
  refine claims_congr states ?_
  intro d
  rw [free, queue]
  rfl

theorem reject_spec (inv : dials.Inv) (sound : Sound setup.authoritative members dials.claims)
    (key : Id) (cause : Exhaustion) :
    ∃ dials' members', dials.reject setup members key cause = .ok (dials', members') ∧
      Joined setup dials dials' members members' ∧ dials'.active = dials.active := by
  unfold Dials.reject
  cases queue : dials.ready with
  | rejected before =>
    rcases inv.refresh false with ⟨inv', claims, spent⟩
    exact ⟨_, members, rfl, ⟨inv', by rw [claims]; exact sound, .refl _, spent⟩, refresh_active ..⟩
  | opened chain =>
    rcases giveUp_spec dials (some (key, cause)) inv.active with ⟨inv', claims⟩
    refine ⟨(dials.giveUp (some (key, cause))).refresh false, members, rfl,
      ⟨inv', ?_, .refl _, ?_⟩, refresh_active ..⟩
    · have same : (dials.giveUp none).claims = dials.claims :=
        claims_opened queue (fun _ => rfl) fun _ => rfl
      rw [claims, same]
      exact sound
    · intro spent
      rw [Spent, queue] at spent
      cases spent
  | deferred held =>
    rcases giveUp_spec dials (some (key, cause)) inv.active with ⟨inv', claims⟩
    rcases cancel_spec sound (inv.threaded.front queue) with ⟨update, members', run, kept, aged⟩
    simp only [run, ok_bind]
    refine ⟨(dials.giveUp (some (key, cause))).refresh false, members', rfl,
      ⟨inv', ?_, aged, ?_⟩, refresh_active ..⟩
    · have same : (dials.giveUp none).claims = Function.update dials.claims held.chain.front none :=
        inv.threaded.claims_unfront queue (fun _ => rfl) fun _ => rfl
      rw [claims, same]
      exact kept
    · intro spent
      rw [Spent, queue] at spent
      cases spent

theorem resetFront_spec (inv : dials.Inv) (sound : Sound setup.authoritative members dials.claims)
    (removed : Target n → Except Fault (Option Update × Members I A n))
    (removes : ∀ d claim, dials.claims d = some claim →
      ∃ update members', removed claim.target = .ok (update, members') ∧
        AgedAll members members' ∧
        match update with
        | none => members' = members
        | some _ => Sound setup.authoritative members' (Function.update dials.claims d none)) :
    ∃ exhausted dials' members', dials.resetFront members removed =
        .ok (exhausted, dials', members') ∧
      Joined setup dials dials' members members' ∧ dials'.active = dials.active := by
  unfold Dials.resetFront
  cases queue : dials.ready with
  | rejected | opened => exact ⟨none, dials, members, rfl, .refl inv sound, rfl⟩
  | deferred held =>
    rcases removes _ _ (inv.threaded.front queue) with ⟨update, members', run, aged, kept⟩
    simp only [run, ok_bind]
    cases update with
    | none =>
      dsimp only at kept
      subst kept
      exact ⟨none, dials, members', rfl, .refl inv sound, rfl⟩
    | some update =>
      refine ⟨_, _, members', rfl, ⟨⟨?_, inv.active, nofun⟩, ?_, aged, ?_⟩, rfl⟩
      · rcases inv.threaded with ⟨waiting, threaded, whole⟩
        refine ⟨waiting, threaded.congr rfl (by rw [queue]; rfl), ?_⟩
        intro _
        exact whole (by rw [queue]; rfl)
      · have same : ({ dials with ready := Queue.opened (some held.chain) } :
            Dials P n m).claims = Function.update dials.claims held.chain.front none :=
          inv.threaded.claims_unfront queue (fun _ => rfl) fun _ => rfl
        rw [same]
        exact kept
      · intro spent
        rw [Spent, queue] at spent
        cases spent

/-! ## Openings -/

theorem Threaded.pop {waiting : List (Fin m)} (h : dials.Threaded waiting) {chain : Chain m}
    (has : dials.ready.chain = some chain) (dial : Dial n m) :
    ∃ rest, waiting = chain.front :: rest ∧
      (dials.records chain.front).next = rest.head? ∧
      (∀ queue : Queue P n m, queue.chain = rest.head?.map (fun front => { chain with front }) →
        Threaded { dials.setDial chain.front dial with ready := queue } rest) := by
  rcases h.ends chain has with ⟨front, back⟩
  cases waiting with
  | nil => cases front
  | cons first rest =>
    cases front
    rcases List.nodup_cons.mp h.nodup with ⟨out, nodup⟩
    refine ⟨rest, rfl, ?_, ?_⟩
    · rw [h.next _ List.mem_cons_self, Links.after, if_pos rfl]
    · intro queue same
      refine ⟨nodup, ?_, ?_, ?_, ?_⟩
      · intro empty
        rw [show queue.chain = none from empty] at same
        cases rest with
        | nil => rfl
        | cons second rest => cases same
      · intro chain' has'
        rw [show queue.chain = some chain' from has'] at same
        cases rest with
        | nil => cases same
        | cons second rest =>
          cases same
          rw [List.getLast?_cons_cons] at back
          exact ⟨rfl, back⟩
      · intro d mem
        have apart : d ≠ chain.front := fun equal => out (equal ▸ mem)
        show ((dials.setDial chain.front dial).records d).next = _
        rw [setDial_of_ne _ apart, h.next d (List.mem_cons_of_mem _ mem), Links.after,
          if_neg apart.symm]
      · intro d mem
        have apart : d ≠ chain.front := fun equal => out (equal ▸ mem)
        show ((dials.setDial chain.front dial).records d).state = _
        rw [setDial_of_ne _ apart]
        exact h.ready d (List.mem_cons_of_mem _ mem)

/-- A waiting dial that is written over takes no part in the count. -/
theorem active_waiting (h : dials.Inv) {d : Fin m} (ready : (dials.records d).state = .ready)
    (dial : Dial n m) : tally (fun _ => True) (dials.setDial d dial).targets =
      dials.active + unit (fun _ => True) dial.state.target := by
  have counted := active_setDial dials d dial
  rw [ready, State.target, unit_none, ← h.active] at counted
  exact counted

/-- The front of a chain is submitted, deferred, or fails for good. -/
theorem dispatch_spec (inv : dials.Inv) {chain : Chain m} (has : dials.ready.chain = some chain)
    {target : Target n} (sound : Sound setup.authoritative members
      (Function.update dials.claims chain.front (some ⟨target, false⟩)))
    (present : Bool) (plan : P) (submit : Id → P → Attempt P E) :
    ∃ opening dials' members', dials.dispatch setup members present chain target plan submit =
        .ok (opening, dials', members') ∧
      Joined setup dials dials' members members' ∧ Verdict dials dials' opening := by
  rcases inv.threaded with ⟨waiting, threaded, whole⟩
  have opened : dials.ready.isRejected = false := by
    cases queue : dials.ready with
    | opened chain | deferred held => rfl
    | rejected cause =>
      rw [queue] at has
      cases has
  have unspent : ¬dials.Spent := by
    intro spent
    rw [spent] at opened
    cases opened
  have front : (dials.records chain.front).state = .ready :=
    threaded.ready _ (threaded.mem_front has)
  -- Only the front of a queue has a claim by it.
  have others (e : Fin m) (apart : e ≠ chain.front) : dials.ready.claim e = none := by
    cases queue : dials.ready with
    | opened chain | rejected cause => rfl
    | deferred held =>
      rw [queue] at has
      cases has
      exact if_neg fun same => apart same.symm
  -- The front is written over, and nothing else is claimed for it.
  have write (dials' : Dials P n m) (dial : Dial n m) {claim : Option (Claim n)}
      (records : dials'.records = (dials.setDial chain.front dial).records)
      (here : dials'.claims chain.front = claim) (free : ∀ e, e ≠ chain.front →
        dials'.ready.claim e = none) :
      dials'.claims = Function.update dials.claims chain.front claim := by
    funext e
    by_cases same : e = chain.front
    · rw [same, Function.update_self, here]
    · rw [Function.update_of_ne same, claims, claims, records, setDial_of_ne _ same, free e same,
        others e same]
  unfold Dials.dispatch
  dsimp only
  cases submit (dials.idOf chain.front) plan with
  | submitted =>
    let dial : Dial n m := { dials.records chain.front with
      state := .submitted target, next := none }
    let rest := (dials.records chain.front).next.map fun front => { chain with front }
    let after : Dials P n m := { dials.setDial chain.front dial with
      active := dials.active + 1
      needsPoll := present && rest.isSome
      ready := .opened rest }
    rcases threaded.pop has dial with ⟨left, rfl, next, popped⟩
    have same : after.claims =
        Function.update dials.claims chain.front (some ⟨target, false⟩) := by
      refine write after dial rfl ?_ fun _ _ => rfl
      simp [claims, after, dial]
    refine ⟨.submitted, after, members, rfl, ⟨⟨⟨left, ?_, ?_⟩, ?_, (by simp)⟩, same ▸ sound, .refl _,
      fun spent => absurd spent unspent⟩, .inl rfl⟩
    · refine (popped (.opened rest) ?_).congr rfl rfl
      show rest = _
      rw [← next]
    · intro _ e ready
      have apart : e ≠ chain.front := by
        rintro rfl
        rw [show after.records chain.front = dial from setDial_self ..] at ready
        cases ready
      have old : (dials.records e).state = .ready := by
        rw [← setDial_of_ne dial apart]
        exact ready
      exact (List.mem_cons.mp (whole opened e old)).resolve_left apart
    · exact (active_waiting inv front dial).symm
  | deferred cause plan' =>
    let after : Dials P n m := { dials with
      ready := .deferred ⟨chain, target, plan'⟩
      needsPoll := present || !setup.authoritative }
    have same : after.claims =
        Function.update dials.claims chain.front (some ⟨target, false⟩) := by
      refine write after (dials.records chain.front) ?_ ?_ ?_
      · exact (Function.update_eq_self ..).symm
      · unfold Dials.claims
        rw [show (after.records chain.front).state = .ready from front]
        exact if_pos rfl
      · exact fun e apart => if_neg fun equal => apart equal.symm
    refine ⟨_, after, members, rfl, ⟨⟨⟨waiting, threaded.congr rfl has.symm, fun _ => whole opened⟩,
      inv.active, (by simp)⟩, same ▸ sound, .refl _, fun spent => absurd spent unspent⟩, .inl rfl⟩
  | failed error =>
    let dial : Dial n m := { dials.records chain.front with next := none, state := .closed }
    have counted : dials.active = tally (fun _ => True) (dials.setDial chain.front dial).targets :=
      (active_waiting inv front dial).symm
    rcases cancel_spec sound (Function.update_self ..) with ⟨update, members', run, kept, aged⟩
    rw [Function.update_idem] at kept
    -- The rest of the chain is given up.
    have same (cause : Option (Id × Exhaustion)) :
        ((dials.setDial chain.front dial).giveUp cause).claims =
          Function.update dials.claims chain.front none := by
      refine write _ dial rfl ?_ fun _ _ => rfl
      simp [claims, giveUp, dial]
    simp only [run, ok_bind]
    cases wire : error.intoWire with
    | ok cause =>
      refine ⟨_, { (dials.setDial chain.front dial).giveUp none with needsPoll := false }, members',
        rfl, ⟨⟨⟨[], ⟨List.nodup_nil, fun _ => rfl, by rintro _ ⟨⟩, by simp, by simp⟩,
          by rintro ⟨⟩⟩, counted,
        (by simp)⟩, ?_, aged, fun spent => absurd spent unspent⟩,
        .inr ⟨unspent, rfl, .inr ⟨_, _, rfl⟩⟩⟩
      have claimed := (claims_congr (fun _ => rfl) (fun _ => rfl) :
        ({ (dials.setDial chain.front dial).giveUp none with needsPoll := false } :
          Dials P n m).claims = ((dials.setDial chain.front dial).giveUp none).claims)
      rw [claimed, same]
      exact kept
    | error cause =>
      rcases giveUp_spec (dials.setDial chain.front dial)
        (some (dials.idOf chain.front, cause)) counted with ⟨inv', claims'⟩
      rcases inv'.terminal E with ⟨inv'', claims'', spent, verdict⟩
      simp only [Dials.reject, ok_bind]
      refine ⟨_, _, members', rfl, ⟨inv'', ?_, aged, fun spent => absurd spent unspent⟩, ?_⟩
      · have claimed := claims''.trans (claims'.trans (same none))
        exact claimed ▸ kept
      · rcases verdict with nothing | ⟨-, gone, idle, -, reported⟩
        · exact .inl nothing
        · refine .inr ⟨unspent, gone, .inl ⟨?_, reported⟩⟩
          exact idle

theorem joined_idle (inv : dials.Inv) (aged : AgedAll members members')
    (kept : Sound setup.authoritative members' dials.claims) :
    Joined setup dials { dials with needsPoll := false } members members' := by
  refine ⟨⟨inv.threaded.congr rfl rfl, inv.active, nofun⟩, ?_, aged, id⟩
  have same : ({ dials with needsPoll := false } : Dials P n m).claims = dials.claims :=
    claims_congr (fun _ => rfl) fun _ => rfl
  rw [same]
  exact kept

theorem poll_spec {dials : Dials (A × O) n m} (lawful : LawfulFirst setup.first) (inv : dials.Inv)
    (sound : Sound setup.authoritative members dials.claims) (now : Nat) (eligible : I → Bool)
    (submit : Id → A × O → Attempt (A × O) E) :
    ∃ opening dials' members', dials.poll setup members now eligible submit =
        .ok (opening, dials', members') ∧
      Joined setup dials dials' members members' ∧ Verdict dials dials' opening := by
  unfold Dials.poll
  cases queue : dials.ready with
  | rejected cause =>
    rcases inv.terminal E with ⟨inv', claims, spent, verdict⟩
    refine ⟨(dials.terminal E).1, (dials.terminal E).2, members, rfl,
      ⟨inv', claims ▸ sound, .refl _, spent⟩, ?_⟩
    rcases verdict with nothing | ⟨unspent, gone, idle, -, reported⟩
    · exact .inl nothing
    · exact .inr ⟨unspent, gone, .inl ⟨idle, reported⟩⟩
  | deferred held =>
    have has : dials.ready.chain = some held.chain := by rw [queue]; rfl
    refine dispatch_spec inv has ?_ _ held.plan submit
    rw [← inv.threaded.front queue, Function.update_eq_self]
    exact sound
  | opened chain =>
    cases chain with
    | none =>
      exact ⟨.idle, { dials with needsPoll := false }, members, by rw [queue],
        joined_idle inv (.refl _) sound, .inl rfl⟩
    | some chain =>
      have has : dials.ready.chain = some chain := by rw [queue]; rfl
      have vacant : dials.claims chain.front = none := by
        rcases inv.threaded with ⟨waiting, threaded, -⟩
        rw [claims, threaded.ready _ (threaded.mem_front has), queue]
        rfl
      rcases choose_spec now lawful sound vacant eligible with
        ⟨selection, members', run, aged, chosen⟩
      simp only [run, ok_bind]
      cases selection with
      | ready target addr =>
        rcases dispatch_spec inv has chosen.1 (!members.isEmpty) (addr, setup.options) submit
          with ⟨opening, dials', members'', run', joined, verdict⟩
        exact ⟨opening, dials', members'', run', ⟨joined.inv, joined.sound,
          aged.trans joined.aged, joined.spent⟩, verdict⟩
      | idle =>
        exact ⟨.idle, { dials with needsPoll := false }, members', by rw [queue],
          joined_idle inv aged chosen, .inl rfl⟩
      | backoff due =>
        exact ⟨.backoff due, { dials with needsPoll := false }, members', by rw [queue],
          joined_idle inv aged chosen, .inl rfl⟩
      | exhausted =>
        have unspent : ¬dials.Spent := by
          rw [Spent, queue]
          simp
        rcases giveUp_spec dials (some (dials.idOf chain.front, .identity)) inv.active with
          ⟨inv', claims'⟩
        rcases inv'.terminal E with ⟨inv'', claims'', spent, verdict⟩
        simp only [Dials.reject, ok_bind]
        refine ⟨_, _, members', rfl, ⟨inv'', ?_, aged, fun spent => absurd spent unspent⟩, ?_⟩
        · have same : (dials.giveUp none).claims = dials.claims :=
            claims_opened queue (fun _ => rfl) fun _ => rfl
          have claimed := claims''.trans (claims'.trans same)
          exact claimed ▸ chosen
        · rcases verdict with nothing | ⟨-, gone, idle, -, reported⟩
          · exact .inl nothing
          · exact .inr ⟨unspent, gone, .inl ⟨idle, reported⟩⟩

/-! ## The first chain -/

/-- The dials that are left are linked behind those that wait. -/
theorem pushAll_spec (left : List (Fin m)) {waiting : List (Fin m)}
    (threaded : dials.Threaded waiting) (opened : dials.ready.isRejected = false)
    (fresh : ∀ d, (dials.records d).state = .ready ∧ (d ∉ waiting → (dials.records d).next = none))
    (nodup : (waiting ++ left).Nodup) :
    (left.foldl pushBack dials).Threaded (waiting ++ left) ∧
      (left.foldl pushBack dials).ready.isRejected = false ∧
      (left.foldl pushBack dials).active = dials.active ∧
      (∀ d, (left.foldl pushBack dials).ready.claim d = dials.ready.claim d) ∧
      ∀ d, ((left.foldl pushBack dials).records d).state = .ready := by
  induction left generalizing dials waiting with
  | nil =>
    rw [List.append_nil]
    exact ⟨threaded, opened, rfl, fun _ => rfl, fun d => (fresh d).1⟩
  | cons d left ih =>
    have split : waiting ++ d :: left = (waiting ++ [d]) ++ left := by simp
    rw [split] at nodup ⊢
    have out : d ∉ waiting := by
      intro mem
      have disjoint := List.disjoint_of_nodup_append (List.nodup_append.mp nodup).1
      exact disjoint mem List.mem_cons_self
    have pushed := threaded.pushBack out (fresh d).1 ((fresh d).2 out) opened
    have next := ih pushed (by rw [pushBack_isRejected]; exact opened) ?_ nodup
    · simp only [pushBack_active, pushBack_claim] at next
      exact next
    · intro e
      refine ⟨by rw [pushBack_state]; exact (fresh e).1, ?_⟩
      intro away
      rw [List.mem_append, List.mem_singleton, not_or] at away
      have old := (fresh e).2 away.1
      -- Linking writes the back alone, which waits.
      have write (chain : Chain m) (has : dials.ready.chain = some chain) :
          ((dials.setDial chain.back { dials.records chain.back with next := some d }).records
            e).next = none := by
        have apart : e ≠ chain.back := fun same => away.1 (same ▸ threaded.mem_back has)
        rw [setDial_of_ne _ apart]
        exact old
      unfold Dials.pushBack
      cases queue : dials.ready with
      | rejected cause => exact old
      | deferred held => exact write held.chain (by rw [queue]; rfl)
      | opened chain =>
        cases chain with
        | none => exact old
        | some chain => exact write chain (by rw [queue]; rfl)

theorem new_spec (P : Type) (n m : Nat) : (new P n m).Inv ∧ (new P n m).claims = fun _ => none := by
  have started : (⟨fun _ => ⟨0, none, .ready⟩, .opened none, 0, none, false⟩ :
      Dials P n m).Threaded [] :=
    ⟨List.nodup_nil, fun _ => rfl, nofun, by simp, by simp⟩
  rcases pushAll_spec (List.finRange m) started rfl (fun _ => ⟨rfl, fun _ => rfl⟩)
    (List.nodup_finRange m) with ⟨threaded, opened, active, claim, ready⟩
  have targets : (new P n m).targets = fun _ => none := by
    funext d
    rw [Dials.targets, show ((new P n m).records d).state = .ready from ready d]
    rfl
  have chained : (new P n m).Chained := ⟨List.finRange m, threaded, fun _ d _ => List.mem_finRange d⟩
  refine ⟨⟨chained, ?_, ?_⟩, ?_⟩
  · rw [targets, tally_empty]
    exact active
  · intro cause rejected
    have open_ : (new P n m).ready.isRejected = false := opened
    rw [rejected] at open_
    cases open_
  · funext d
    rw [claims, show ((new P n m).records d).state = .ready from ready d]
    exact claim d

end Dials

end Dope.Manifold.Service
